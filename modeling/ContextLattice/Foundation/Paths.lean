import Mathlib.Algebra.GroupWithZero.Nat
import Mathlib.Algebra.Order.BigOperators.Group.List
import Mathlib.Algebra.Order.Group.Nat
import Mathlib.Data.List.Infix
import Mathlib.Data.List.Basic

/-!
# Paths and their segments

The **segments** of a path are the pieces between its separators that are not empty. The prefix of
the texts and the prefix of the segments differ when a text ends inside a segment, or is not written
as its segments are.
-/

namespace Foundation

open List

variable {α : Type*} [DecidableEq α] {sep : α} {f t a b l : List α}

def segments (sep : α) (l : List α) : List (List α) := (l.splitOn sep).filter (· ≠ [])

def joined (sep : α) (ps : List (List α)) : List α := [sep].intercalate ps

def WellFormed (sep : α) (l : List α) : Prop := [] ∉ l.splitOn sep

instance (sep : α) (l : List α) : Decidable (WellFormed sep l) :=
  inferInstanceAs (Decidable ([] ∉ l.splitOn sep))

/-! ### Segments of a text -/

@[simp] theorem segments_nil : segments sep [] = [] := by simp [segments]

theorem segments_append_sep (a b : List α) :
    segments sep (a ++ sep :: b) = segments sep a ++ segments sep b := by
  rw [segments, splitOn_append_cons_self, filter_append, ← segments, ← segments]

theorem segments_of_not_mem (h : sep ∉ l) (hl : l ≠ []) : segments sep l = [l] := by
  rw [segments, splitOn_eq_singleton h]
  simp [hl]

theorem segments_of_wellFormed (h : WellFormed sep l) : segments sep l = l.splitOn sep := by
  rw [segments, filter_eq_self]
  intro piece hpiece
  simpa using fun hempty : piece = [] => h (hempty ▸ hpiece)

theorem joined_segments (h : WellFormed sep l) : joined sep (segments sep l) = l := by
  rw [segments_of_wellFormed h, joined, intercalate_splitOn]

theorem segments_ne_nil (h : WellFormed sep l) : segments sep l ≠ [] := by
  rw [segments_of_wellFormed h]
  exact splitOn_ne_nil sep l

theorem last_piece (sep : α) (l : List α) :
    sep ∉ l ∨ ∃ g q, l = g ++ sep :: q ∧ sep ∉ q := by
  by_cases h : sep ∈ l
  · obtain ⟨u, v, huv, hu⟩ := eq_append_cons_of_mem (mem_reverse.mpr h)
    refine Or.inr ⟨v.reverse, u.reverse, ?_, by simpa using hu⟩
    rw [← reverse_reverse l, huv]
    simp
  · exact Or.inl h

theorem exists_piece_of_not_mem {v : List α} (hv : sep ∉ v) (a b : List α) :
    ∃ a' b', a' ++ v ++ b' ∈ (a ++ v ++ b).splitOn sep ∧ b' <+: b := by
  -- the piece ends at the first separator behind the stretch
  have hback : ∀ {w : List α}, sep ∉ w → ∃ b', w ++ b' ∈ (w ++ b).splitOn sep ∧ b' <+: b := by
    intro w hw
    by_cases hb : sep ∈ b
    · obtain ⟨b', rest, rfl, hb'⟩ := eq_append_cons_of_mem hb
      have hpiece : sep ∉ w ++ b' := by simp [hw, hb']
      refine ⟨b', ?_, prefix_append _ _⟩
      rw [← append_assoc, splitOn_append_cons_self, splitOn_eq_singleton hpiece]
      exact mem_append_left _ (mem_singleton_self _)
    · have hpiece : sep ∉ w ++ b := by simp [hw, hb]
      exact ⟨b, by simp [splitOn_eq_singleton hpiece], prefix_rfl⟩
  -- and begins behind the last one before it
  rcases last_piece sep a with ha | ⟨front, q, rfl, hq⟩
  · obtain ⟨b', hmem, hpre⟩ := hback (w := a ++ v) (by simp [ha, hv])
    exact ⟨a, b', hmem, hpre⟩
  · obtain ⟨b', hmem, hpre⟩ := hback (w := q ++ v) (by simp [hq, hv])
    refine ⟨q, b', ?_, hpre⟩
    rw [append_assoc, append_assoc, cons_append, splitOn_append_cons_self, ← append_assoc]
    exact mem_append_right _ hmem

theorem segments_cons {c : α} (hc : c ≠ sep) (l : List α) :
    ∃ rest, segments sep (c :: l) = (c :: l.takeWhile (· ≠ sep)) :: rest := by
  have hsplit := takeWhile_append_dropWhile (p := (· ≠ sep)) (l := l)
  have hnot : sep ∉ c :: l.takeWhile (· ≠ sep) := by
    intro hmem
    rcases mem_cons.mp hmem with h | h
    · exact hc h.symm
    · simpa using all_eq_true.mp all_takeWhile sep h
  cases hdrop : l.dropWhile (· ≠ sep) with
  | nil =>
    rw [hdrop, append_nil] at hsplit
    rw [hsplit] at hnot ⊢
    exact ⟨[], segments_of_not_mem hnot (cons_ne_nil _ _)⟩
  | cons d rest =>
    have hd : d = sep := by
      have hhead := head_dropWhile_not (· ≠ sep) (l := l) (by rw [hdrop]; exact nofun)
      simp only [hdrop, head_cons, decide_eq_false_iff_not, not_not] at hhead
      exact hhead
    rw [hdrop, hd] at hsplit
    refine ⟨segments sep rest, ?_⟩
    conv_lhs => rw [← hsplit, ← cons_append, segments_append_sep]
    rw [segments_of_not_mem hnot (cons_ne_nil _ _), singleton_append]

/-! ### Joining -/

variable {ps qs : List (List α)}

omit [DecidableEq α] in
theorem joined_append (hps : ps ≠ []) (hqs : qs ≠ []) :
    joined sep (ps ++ qs) = joined sep ps ++ sep :: joined sep qs := by
  induction ps with
  | nil => exact absurd rfl hps
  | cons p ps ih =>
    cases ps with
    | nil =>
      obtain ⟨q, qs, rfl⟩ := exists_cons_of_ne_nil hqs
      simp [joined, List.intercalate]
    | cons p' ps =>
      have := ih (cons_ne_nil _ _)
      simp only [joined, List.intercalate, cons_append, intersperse_cons_cons,
        flatten_cons] at this ⊢
      rw [this]
      simp

omit [DecidableEq α] in
theorem joined_cons_cons (p q : List α) (qs : List (List α)) :
    joined sep (p :: q :: qs) = p ++ sep :: joined sep (q :: qs) := by
  simp [joined]

omit [DecidableEq α] in
theorem mem_joined_iff {c : α} (hc : c ≠ sep) :
    c ∈ joined sep ps ↔ ∃ p ∈ ps, c ∈ p := by
  induction ps with
  | nil => simp [joined]
  | cons p ps ih =>
    cases ps with
    | nil => simp [joined]
    | cons q qs =>
      rw [joined_cons_cons, mem_append, mem_cons, ih]
      simp [hc]

omit [DecidableEq α] in
theorem length_joined_add_one (hps : ps ≠ []) :
    (joined sep ps).length + 1 = (ps.map fun p => p.length + 1).sum := by
  induction ps with
  | nil => exact absurd rfl hps
  | cons p ps ih =>
    cases ps with
    | nil => simp [joined]
    | cons q qs =>
      have hrest := ih (cons_ne_nil q qs)
      rw [joined_cons_cons, map_cons, sum_cons, ← hrest]
      simp only [length_append, length_cons]
      omega

omit [DecidableEq α] in
theorem length_joined_le (h : qs.Sublist ps) :
    (joined sep qs).length ≤ (joined sep ps).length := by
  by_cases hqs : qs = []
  · subst hqs
    exact Nat.zero_le _
  · have hps : ps ≠ [] := by
      rintro rfl
      exact hqs (sublist_nil.mp h)
    have hsum := (h.map fun p : List α => p.length + 1).sum_le_sum (fun _ _ => Nat.zero_le _)
    have hlength : (joined sep qs).length + 1 ≤ (joined sep ps).length + 1 := by
      rwa [length_joined_add_one hqs, length_joined_add_one hps]
    omega

omit [DecidableEq α] in
theorem eq_false_of_mem_splitOnP {p : α → Bool} {piece : List α} (h : piece ∈ l.splitOnP p) :
    ∀ c ∈ piece, p c = false := by
  induction l generalizing piece with
  | nil =>
    rw [splitOnP_nil, mem_singleton] at h
    simp [h]
  | cons c l ih =>
    rw [splitOnP_cons_eq_if_modifyHead] at h
    split at h
    · rcases mem_cons.mp h with rfl | h
      · simp
      · exact ih h
    · rename_i hc
      obtain ⟨first, rest, hsplit⟩ := exists_cons_of_ne_nil (splitOnP_ne_nil p l)
      rw [hsplit, modifyHead_cons] at h
      rcases mem_cons.mp h with rfl | h
      · have hfirst : ∀ x ∈ first, p x = false := ih (hsplit ▸ mem_cons_self)
        exact forall_mem_cons.mpr ⟨Bool.eq_false_iff.mpr hc, hfirst⟩
      · exact ih (hsplit ▸ mem_cons_of_mem first h)

theorem not_mem_of_mem_splitOn {piece : List α} (h : piece ∈ l.splitOn sep) : sep ∉ piece := by
  rw [splitOn_eq_splitOnP] at h
  intro hmem
  simpa using eq_false_of_mem_splitOnP h sep hmem

theorem segments_joined (h : ∀ p ∈ ps, p ≠ [] ∧ sep ∉ p) :
    segments sep (joined sep ps) = ps := by
  by_cases hps : ps = []
  · rw [hps]
    simp [joined]
  · rw [segments, joined, splitOn_intercalate sep (fun p hp => (h p hp).2) hps, filter_eq_self]
    exact fun p hp => by simpa using (h p hp).1

theorem splitOn_joined (hps : ps ≠ []) :
    (joined sep ps).splitOn sep = ps.flatMap (List.splitOn sep) := by
  induction ps with
  | nil => exact absurd rfl hps
  | cons p ps ih =>
    cases ps with
    | nil => simp [joined]
    | cons q qs =>
      rw [joined_cons_cons, splitOn_append_cons_self, ih (cons_ne_nil q qs)]
      rfl

theorem joined_eq_joined_iff (hps : ps ≠ []) (hqs : qs ≠ []) :
    joined sep ps = joined sep qs ↔
      ps.flatMap (List.splitOn sep) = qs.flatMap (List.splitOn sep) := by
  rw [← splitOn_joined hps, ← splitOn_joined hqs]
  refine ⟨fun h => by rw [h], fun h => ?_⟩
  calc joined sep ps
      = [sep].intercalate ((joined sep ps).splitOn sep) := (intercalate_splitOn sep).symm
    _ = [sep].intercalate ((joined sep qs).splitOn sep) := by rw [h]
    _ = joined sep qs := intercalate_splitOn sep

theorem wellFormed_joined (h : ∀ p ∈ ps, p ≠ [] ∧ sep ∉ p) (hps : ps ≠ []) :
    WellFormed sep (joined sep ps) := by
  rw [WellFormed, joined, splitOn_intercalate sep (fun p hp => (h p hp).2) hps]
  exact fun hmem => (h [] hmem).1 rfl

/-! ### The two prefixes -/

def EndsInside (sep : α) (f t : List α) : Prop :=
  ∃ c rest, t = f ++ c :: rest ∧ c ≠ sep ∧ ∃ d ∈ f.getLast?, d ≠ sep

def WrittenFor (sep : α) (f t : List α) : Prop :=
  f = joined sep (segments sep f) ∨ (segments sep f ≠ [] ∧ segments sep f ≠ segments sep t ∧
    f = joined sep (segments sep f) ++ [sep])

def Sharp (sep : α) (f t : List α) : Prop :=
  ¬ EndsInside sep f t ∧ (segments sep f <+: segments sep t → WrittenFor sep f t)

theorem not_prefix_of_endsInside (h : EndsInside sep f t) :
    ¬ segments sep f <+: segments sep t := by
  obtain ⟨c, rest, rfl, hc, d, hd, hdsep⟩ := h
  intro hpre
  -- compare the segment `q` in which `f` ends with the segment that goes on with `c`
  have hlast : ∀ q : List α, sep ∉ q → q ≠ [] →
      ¬ segments sep q <+: segments sep (q ++ c :: rest) := by
    intro q hq hne hpre
    obtain ⟨x, q, rfl⟩ := exists_cons_of_ne_nil hne
    have hx : x ≠ sep := fun h => hq (h ▸ mem_cons_self)
    obtain ⟨others, hothers⟩ := segments_cons hx (q ++ c :: rest)
    rw [segments_of_not_mem hq hne, cons_append, hothers, cons_prefix_cons] at hpre
    have hq' : ∀ y ∈ q, decide (y ≠ sep) = true := fun y hy =>
      decide_eq_true fun h => hq (h ▸ mem_cons_of_mem x hy)
    have hlen := congrArg List.length hpre.1
    rw [takeWhile_append_of_pos hq', takeWhile_cons, if_pos (decide_eq_true hc)] at hlen
    simp at hlen
  rcases last_piece sep f with hfree | ⟨g, q, rfl, hq⟩
  · exact hlast f hfree (ne_nil_of_mem (mem_of_mem_getLast? hd)) hpre
  · rw [segments_append_sep, append_assoc, cons_append, segments_append_sep,
      prefix_append_right_inj] at hpre
    refine hlast q hq ?_ hpre
    rintro rfl
    exact hdsep (by simpa using hd.symm)

theorem segments_prefix (h : f <+: t) (hinside : ¬ EndsInside sep f t) :
    segments sep f <+: segments sep t := by
  obtain ⟨r, rfl⟩ := h
  cases r with
  | nil => rw [append_nil]
  | cons c rest =>
    by_cases hc : c = sep
    · rw [hc, segments_append_sep]
      exact prefix_append _ _
    · rcases eq_nil_or_concat' f with rfl | ⟨g, d, rfl⟩
      · rw [segments_nil]
        exact nil_prefix
      · have hd : d = sep := by
          by_contra hne
          exact hinside ⟨c, rest, rfl, hc, d, by simp, hne⟩
        rw [hd, append_assoc, singleton_append, segments_append_sep,
          segments_append_sep, segments_nil, append_nil]
        exact prefix_append _ _

theorem prefix_of_writtenFor (ht : WellFormed sep t)
    (hsegments : segments sep f <+: segments sep t) (h : WrittenFor sep f t) : f <+: t := by
  obtain ⟨rest, hrest⟩ := hsegments
  rw [← joined_segments ht, ← hrest]
  rcases h with hf | ⟨hne, hproper, hf⟩
  · by_cases hempty : segments sep f = []
    · rw [hf, hempty]
      exact nil_prefix
    · by_cases hend : rest = []
      · rw [hend, append_nil, ← hf]
      · rw [joined_append hempty hend, ← hf]
        exact prefix_append _ _
  · have hend : rest ≠ [] := by
      rintro rfl
      exact hproper (by rw [← hrest, append_nil])
    rw [joined_append hne hend]
    nth_rewrite 1 [hf]
    exact ⟨joined sep rest, by simp⟩

theorem writtenFor_of_prefix (ht : WellFormed sep t) (hf : f ≠ []) (h : f <+: t) :
    WrittenFor sep f t := by
  obtain ⟨r, rfl⟩ := h
  rcases last_piece sep f with hfree | ⟨g, q, rfl, hq⟩
  · left
    rw [segments_of_not_mem hfree hf]
    simp [joined, List.intercalate]
  · rw [append_assoc, cons_append] at ht ⊢
    have hg : WellFormed sep g := by
      intro hmem
      exact ht (by rw [splitOn_append_cons_self]; exact mem_append_left _ hmem)
    by_cases hempty : q = []
    · rw [hempty, nil_append] at ht ⊢
      refine Or.inr ⟨?_, ?_, ?_⟩
      · simpa [segments_append_sep] using segments_ne_nil hg
      · have hr : WellFormed sep r := by
          intro hmem
          exact ht (by rw [splitOn_append_cons_self]; exact mem_append_right _ hmem)
        simpa [segments_append_sep] using segments_ne_nil hr
      · rw [segments_append_sep, segments_nil, append_nil, joined_segments hg]
    · left
      rw [segments_append_sep, segments_of_not_mem hq hempty,
        joined_append (segments_ne_nil hg) (cons_ne_nil _ _), joined_segments hg]
      simp [joined, List.intercalate]

theorem prefix_iff_iff (ht : WellFormed sep t) (hf : f ≠ []) :
    (f <+: t ↔ segments sep f <+: segments sep t) ↔ Sharp sep f t := by
  constructor
  · intro h
    refine ⟨fun hinside => not_prefix_of_endsInside hinside (h.mp ?_),
      fun hsegments => writtenFor_of_prefix ht hf (h.mpr hsegments)⟩
    obtain ⟨c, rest, ht', -⟩ := hinside
    exact ⟨c :: rest, ht'.symm⟩
  · rintro ⟨hinside, hwritten⟩
    exact ⟨fun h => segments_prefix h hinside, fun h => prefix_of_writtenFor ht h (hwritten h)⟩

end Foundation
