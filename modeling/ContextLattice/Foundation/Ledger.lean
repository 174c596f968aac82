import ContextLattice.Foundation.Run
import ContextLattice.Foundation.Table
import Mathlib.Algebra.BigOperators.Group.List.Basic
import Mathlib.Tactic.Abel

/-!
# Ledgers

A quantity that a machine moves about is counted in a commutative monoid: so much under each key of
a dictionary, so much in all of it.
-/

namespace Foundation

open List

variable {M : Type*} [AddCommMonoid M]

namespace Dict

variable {κ ν : Type*} [DecidableEq κ] {d : Dict κ ν} {k : κ} {v : ν}

def weightAt (w : ν → M) (d : Dict κ ν) (k : κ) : M := ((get? d k).map w).getD 0

def total (w : ν → M) (d : Dict κ ν) : M := (d.rows.map fun p => w p.2).sum

variable {w : ν → M}

theorem weightAt_eq (h : get? d k = some v) : weightAt w d k = w v := by
  rw [weightAt, h, Option.map_some, Option.getD_some]

theorem weightAt_eq_zero (h : get? d k = none) : weightAt w d k = 0 := by
  rw [weightAt, h, Option.map_none, Option.getD_none]

theorem total_erase (w : ν → M) (d : Dict κ ν) (k : κ) :
    total w (erase d k) =
      (d.rows.filterMap fun p => if p.1 = k then none else some (w p.2)).sum := by
  rw [total, erase, Table.rows_deleteWhere, ← filterMap_eq_map, filterMap_filter]
  congr 1
  refine filterMap_congr fun p _ => ?_
  by_cases hkey : p.1 = k <;> simp [hkey]

theorem total_eq_add_erase (h : get? d k = some v) : total w d = w v + total w (erase d k) := by
  rw [total, ((perm_erase h).map _).sum_eq, map_cons, sum_cons, total]

theorem total_set (w : ν → M) (d : Dict κ ν) (k : κ) (v : ν) :
    total w (set d k v) + weightAt w d k = total w d + w v := by
  rcases hold : get? d k with _ | old
  · rw [weightAt_eq_zero hold, total, rows_set_of_get?_eq_none hold, map_append,
      sum_append, map_singleton, sum_singleton, add_zero, total]
  · have hrest : total w (erase (set d k v) k) = total w (erase d k) := by
      rw [total_erase, total_erase, filterMap_rows_set hold (by simp)]
    rw [total_eq_add_erase (get?_set d k v), hrest, total_eq_add_erase hold, weightAt_eq hold]
    abel

theorem sum_filter_rows (w : ν → M) (d : Dict κ ν) (chosen : κ × ν → Bool) (k : κ) :
    ((d.rows.filter chosen).map fun p => if p.1 = k then w p.2 else 0).sum =
      weightAt (fun v => if chosen (k, v) then w v else 0) d k := by
  have hzero : ∀ l : List (κ × ν), k ∉ l.map Prod.fst →
      ((l.filter chosen).map fun p => if p.1 = k then w p.2 else 0).sum = 0 := by
    intro l hl
    refine sum_eq_zero fun x hx => ?_
    obtain ⟨p, hp, rfl⟩ := mem_map.mp hx
    refine if_neg fun hkey => hl ?_
    exact hkey ▸ mem_map_of_mem (mem_of_mem_filter hp)
  rcases hold : get? d k with _ | v
  · rw [weightAt_eq_zero hold]
    refine hzero d.rows fun hk => ?_
    obtain ⟨p, hp, rfl⟩ := mem_map.mp hk
    rw [get?_eq_some.mpr hp] at hold
    cases hold
  · have hperm := (perm_erase hold).filter chosen
    rw [weightAt_eq hold, (hperm.map _).sum_eq]
    have hrest : k ∉ (erase d k).rows.map Prod.fst := by
      intro hk
      obtain ⟨p, hp, hkey⟩ := mem_map.mp hk
      have hget : get? (erase d k) p.1 = some p.2 := get?_eq_some.mpr hp
      rw [hkey, get?_erase] at hget
      cases hget
    by_cases hchosen : chosen (k, v)
    · rw [filter_cons_of_pos hchosen, map_cons, sum_cons, hzero _ hrest]
      simp [hchosen]
    · rw [filter_cons_of_neg hchosen, hzero _ hrest, if_neg hchosen]

end Dict

theorem run_balance {σ ε : Type*} {step : σ → ε → σ} {Inv : σ → Prop} {account : σ → M}
    {income : ε → M} (hinv : ∀ s e, Inv s → Inv (step s e))
    (hstep : ∀ s e, Inv s → account (step s e) = account s + income e) {s : σ} (hs : Inv s)
    (es : List ε) : account (run step s es) = account s + (es.map income).sum := by
  induction es generalizing s with
  | nil => simp
  | cons e es ih =>
    rw [run_cons, ih (hinv s e hs), hstep s e hs, map_cons, sum_cons, add_assoc]

end Foundation
