import Mathlib.Data.List.GetD
import Mathlib.Data.List.Sort
import Mathlib.Data.Rat.Floor
import Mathlib.Tactic.Linarith

/-!
# Interpolation between the values of a sorted list
-/

namespace Foundation

open List

/-! ### Interpolation -/

/-- The values at the indices, with straight lines between them. -/
def interpolate (f : ℕ → ℚ) (r : ℚ) : ℚ := f ⌊r⌋₊ + (f ⌈r⌉₊ - f ⌊r⌋₊) * (r - ⌊r⌋₊)

section

variable {f g : ℕ → ℚ} {n : ℕ} {r r' : ℚ}

theorem weight_mem (hr : 0 ≤ r) : 0 ≤ r - ⌊r⌋₊ ∧ r - ⌊r⌋₊ ≤ 1 := by
  have := Nat.floor_le hr
  have := Nat.lt_floor_add_one r
  constructor <;> linarith

theorem interpolate_mem (hf : ∀ i j, i ≤ j → j ≤ n → f i ≤ f j) (hr : 0 ≤ r) (hn : r ≤ n) :
    f ⌊r⌋₊ ≤ interpolate f r ∧ interpolate f r ≤ f ⌈r⌉₊ := by
  have hstep := hf _ _ (Nat.floor_le_ceil r) (Nat.ceil_le.mpr hn)
  obtain ⟨hw, hw'⟩ := weight_mem hr
  unfold interpolate
  constructor <;> nlinarith

theorem interpolate_le_of_le (hf : ∀ i j, i ≤ j → j ≤ n → f i ≤ f j) (hr : 0 ≤ r) (hle : r ≤ r')
    (hn : r' ≤ n) : interpolate f r ≤ interpolate f r' := by
  by_cases hcross : ⌈r⌉₊ ≤ ⌊r'⌋₊
  · have hfloor : ⌊r'⌋₊ ≤ n := (Nat.floor_le_ceil r').trans (Nat.ceil_le.mpr hn)
    exact ((interpolate_mem hf hr (hle.trans hn)).2.trans (hf _ _ hcross hfloor)).trans
      (interpolate_mem hf (hr.trans hle) hn).1
  · -- both lie between the same two indices
    have hfloors := Nat.floor_le_floor hle
    have hceils := Nat.ceil_le_ceil hle
    have hceil := Nat.ceil_le_floor_add_one r
    have hceil' := Nat.ceil_le_floor_add_one r'
    have hstep := hf _ _ (Nat.floor_le_ceil r) (Nat.ceil_le.mpr (hle.trans hn))
    have hlower : ⌊r'⌋₊ = ⌊r⌋₊ := by omega
    have hupper : ⌈r'⌉₊ = ⌈r⌉₊ := by omega
    unfold interpolate
    rw [hlower, hupper]
    nlinarith

theorem interpolate_le_interpolate (hfg : ∀ i, f i ≤ g i) (hr : 0 ≤ r) :
    interpolate f r ≤ interpolate g r := by
  obtain ⟨hw, hw'⟩ := weight_mem hr
  have hlower := hfg ⌊r⌋₊
  have hupper := hfg ⌈r⌉₊
  unfold interpolate
  nlinarith

end

/-! ### Sorting -/

theorem orderedInsert_of_forall_le {a : ℚ} {s : List ℚ} (h : ∀ x ∈ s, a ≤ x) :
    s.orderedInsert (· ≤ ·) a = a :: s := by
  cases s with
  | nil => rfl
  | cons x s => exact orderedInsert_cons_of_le _ s (h x mem_cons_self)

theorem forall₂_orderedInsert {a b : ℚ} {s t : List ℚ} (hab : a ≤ b) (h : Forall₂ (· ≤ ·) s t)
    (hs : s.Pairwise (· ≤ ·)) (ht : t.Pairwise (· ≤ ·)) :
    Forall₂ (· ≤ ·) (s.orderedInsert (· ≤ ·) a) (t.orderedInsert (· ≤ ·) b) := by
  induction h generalizing a b with
  | nil => exact .cons hab .nil
  | @cons x y s t hxy h ih =>
    obtain ⟨hx, hs⟩ := pairwise_cons.mp hs
    obtain ⟨hy, ht⟩ := pairwise_cons.mp ht
    rw [orderedInsert_cons, orderedInsert_cons]
    split_ifs with hax hby hby
    · exact .cons hab (.cons hxy h)
    · refine .cons (hax.trans hxy) ?_
      rw [← orderedInsert_of_forall_le hx]
      exact ih (hxy.trans (le_of_not_ge hby)) hs ht
    · refine .cons ((le_of_not_ge hax).trans hab) ?_
      rw [← orderedInsert_of_forall_le hy]
      exact ih (hab.trans hby) hs ht
    · exact .cons hxy (ih hab hs ht)

theorem forall₂_insertionSort {l l' : List ℚ} (h : Forall₂ (· ≤ ·) l l') :
    Forall₂ (· ≤ ·) (l.insertionSort (· ≤ ·)) (l'.insertionSort (· ≤ ·)) := by
  induction h with
  | nil => exact .nil
  | cons hab _ ih =>
    exact forall₂_orderedInsert hab ih (pairwise_insertionSort ..) (pairwise_insertionSort ..)

theorem getD_le_getD {s t : List ℚ} (h : Forall₂ (· ≤ ·) s t) (i : ℕ) :
    s.getD i 0 ≤ t.getD i 0 := by
  induction h generalizing i with
  | nil => exact le_rfl
  | cons hxy _ ih => cases i <;> simp_all

end Foundation
