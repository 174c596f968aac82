import ContextLattice.Outbox.System
import ContextLattice.Task.Queue

/-!
# Stored instants

A stored instant is the text `datetime.isoformat() + "Z"`. The fraction is left out when it is zero,
and the letter sorts after the point, so a full second sorts **after** every other instant of its
second.
-/

namespace ContextLattice

open Foundation

def stamp (t : DateTime) : Stamp := t.isoformat ++ "Z"

def SplitSecond (a b : DateTime) : Prop :=
  a.seconds = b.seconds ∧ (a.microsecond = 0 ↔ b.microsecond ≠ 0)

instance (a b : DateTime) : Decidable (SplitSecond a b) :=
  inferInstanceAs (Decidable (_ ∧ _))

def fractionRank (t : DateTime) : ℕ := if t.microsecond = 0 then 10 ^ 6 else t.microsecond

theorem fraction_lt_iff (a b : DateTime) :
    a.fraction ++ ['Z'] < b.fraction ++ ['Z'] ↔ fractionRank a < fractionRank b := by
  have ha := a.microsecond_lt
  have hb := b.microsecond_lt
  by_cases hza : a.microsecond = 0 <;> by_cases hzb : b.microsecond = 0 <;>
    simp only [DateTime.fraction, fractionRank, hza, hzb, if_true, if_false, List.nil_append,
      List.cons_append]
  · simp
  · have hlt : ¬ ('Z' < '.') := by decide
    have hne : 'Z' ≠ '.' := by decide
    rw [List.cons_lt_cons_iff]
    simp only [hlt, hne, false_and, or_false, false_iff]
    omega
  · have hlt : '.' < 'Z' := by decide
    rw [List.cons_lt_cons_iff]
    simp only [hlt, true_or, true_iff]
    omega
  · rw [List.cons_lt_cons_self, padded_lt_iff ha hb]
    simp

theorem stamp_lt_iff (a b : DateTime) :
    stamp a < stamp b ↔
      a.seconds < b.seconds ∨ a.seconds = b.seconds ∧ fractionRank a < fractionRank b := by
  have hchars : ∀ t, (stamp t).toList = t.isoChars ++ ['Z'] := by
    intro t
    simp [stamp, DateTime.isoformat]
  rw [String.lt_iff_toList_lt, hchars, hchars, DateTime.isoChars_lt_iff, fraction_lt_iff]

theorem stamp_le_iff {due now : DateTime} (hle : due.micros ≤ now.micros) :
    stamp due ≤ stamp now ↔ ¬ SplitSecond due now := by
  have hdue := due.microsecond_lt
  have hnow := now.microsecond_lt
  rw [← not_lt, stamp_lt_iff, not_iff_not]
  unfold DateTime.micros at hle
  unfold fractionRank SplitSecond
  split_ifs <;> omega

variable {due now : DateTime}

theorem claimable_iff_of_due {py : Python} {name : String} {row : TaskRow}
    (hrow : row.runAfter = some (stamp due)) (hdue : claimable py (stamp due) name row = true) :
    claimable py (stamp now) name row = true ↔ stamp due ≤ stamp now := by
  simp only [claimable, hrow, Bool.and_eq_true, decide_eq_true_eq] at hdue ⊢
  obtain ⟨⟨hready, -⟩, hoffered⟩ := hdue
  exact ⟨fun h => h.1.2, fun hle => ⟨⟨hready, hle⟩, hoffered⟩⟩

/-- **Stored instants, exactly**: their texts are ordered as they are, but for a full second and a
later instant of the same second. -/
theorem stamp_order_iff (a b : DateTime) :
    (cmp (stamp a) (stamp b) = cmp a.micros b.micros ↔ ¬ SplitSecond a b) ∧
    (a.micros ≤ b.micros →
      (∀ (py : Python) (name : String) (row : TaskRow), row.runAfter = some (stamp a) →
        claimable py (stamp a) name row = true →
        (claimable py (stamp b) name row = true ↔ ¬ SplitSecond a b)) ∧
      ∀ (π : Type) (clk clk' : Clock) (target excludeTarget : Option FanoutTarget)
        (row : OutboxRow π), row.nextAttemptAt = stamp a → clk.now = stamp a →
        clk'.now = stamp b → dueJob clk target excludeTarget row = true →
        (dueJob clk' target excludeTarget row = true ↔ ¬ SplitSecond a b)) := by
  refine ⟨?_, fun hle => ⟨?_, ?_⟩⟩
  · have hlt := stamp_lt_iff a b
    have hgt := stamp_lt_iff b a
    have ha := a.microsecond_lt
    have hb := b.microsecond_lt
    rcases lt_trichotomy a.micros b.micros with h | h | h
    · rw [(cmp_eq_lt_iff _ _).mpr h, cmp_eq_lt_iff, hlt]
      unfold DateTime.micros at h
      unfold fractionRank SplitSecond
      split_ifs <;> omega
    · -- one instant: the fields that the texts are ordered by agree
      have hfields : a.seconds = b.seconds ∧ a.microsecond = b.microsecond := by
        unfold DateTime.micros at h
        omega
      have hrank : fractionRank a = fractionRank b := by rw [fractionRank, hfields.2, fractionRank]
      have hsame : stamp a = stamp b := by
        rcases lt_trichotomy (stamp a) (stamp b) with hab | hab | hab
        · have := hlt.mp hab
          omega
        · exact hab
        · have := hgt.mp hab
          omega
      refine iff_of_true ?_ ?_
      · rw [(cmp_eq_eq_iff _ _).mpr h, (cmp_eq_eq_iff _ _).mpr hsame]
      · unfold SplitSecond
        omega
    · rw [(cmp_eq_gt_iff _ _).mpr h, cmp_eq_gt_iff, hgt]
      unfold DateTime.micros at h
      unfold fractionRank SplitSecond
      split_ifs <;> omega
  · intro py name row hrow hdue
    rw [claimable_iff_of_due hrow hdue, stamp_le_iff hle]
  · intro π clk clk' target excludeTarget row hrow hclk hclk' hdue
    simp only [dueJob, hrow, hclk, hclk', Bool.and_eq_true, decide_eq_true_eq] at hdue ⊢
    obtain ⟨⟨hwaiting, -⟩, htarget⟩ := hdue
    rw [← stamp_le_iff hle]
    exact ⟨fun h => h.1.2, fun hle => ⟨⟨hwaiting, hle⟩, htarget⟩⟩

def atMicrosecond (t : DateTime) (n : ℕ) (h : n < 10 ^ 6) : DateTime :=
  { t with microsecond := n, microsecond_lt := h }

/-- A task due at noon can be claimed at noon, and a microsecond later it cannot. -/
theorem due_at_noon :
    let noon : DateTime := { year := 2025, month := 1, day := 1, hour := 12, minute := 0,
                             second := 0, microsecond := 0 }
    let after := atMicrosecond noon 1 (by decide)
    let row := newRow .default (.frozen (stamp noon)) "t1"
      { title := "find", project := none, agent := none, priority := 0, payload := none,
        runAfter := none, maxAttempts := none } (stamp noon)
    noon.micros < after.micros ∧ stamp after < stamp noon ∧
      claimable .ascii (stamp noon) "w1" row = true ∧
      claimable .ascii (stamp after) "w1" row = false := by
  intro noon after row
  exact ⟨Nat.add_lt_add_left (by decide) _, by decide +kernel⟩

end ContextLattice
