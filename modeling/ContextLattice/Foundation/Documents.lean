import ContextLattice.Foundation.Table

/-!
# Document collections

A collection of a document store is a `Table` with other operations: `updateMany` and `updateOne`
count the documents they **modified**, and `findOneAndUpdate` finds and writes in one atomic
operation.
-/

namespace Foundation

open List

namespace Table

variable {ρ κ : Type*} {key : ρ → κ}

/-! ### Queries and updates -/

section

variable (t : Table key) (p : ρ → Bool) (r : ρ → ρ → Prop) [DecidableRel r] (f : ρ → ρ)
  (hf : ∀ d, key (f d) = key d)

def sortedMatches : List ρ := (t.rows.filter p).insertionSort r

def findOne : Option ρ := (t.sortedMatches p r).head?

variable [DecidableEq ρ]

def updateMany : Table key × ℕ :=
  (t.updateWhere p f hf, (t.rows.filter fun d => p d && decide (f d ≠ d)).length)

variable [DecidableEq κ]

def updateOne (k : κ) : Table key × ℕ :=
  t.updateMany (fun d => decide (key d = k) && p d) f hf

omit [DecidableEq ρ]

def findOneAndUpdate : Option (Table key × ρ) :=
  (t.findOne p r).map fun d => (t.update (key d) f hf, f d)

end

def takeBatch [DecidableEq κ] (p : ρ → Bool) (r : ρ → ρ → Prop) [DecidableRel r] (f : ρ → ρ)
    (hf : ∀ d, key (f d) = key d) : ℕ → Table key → Table key × List ρ
  | 0, t => (t, [])
  | n + 1, t =>
    match t.findOneAndUpdate p r f hf with
    | none => (t, [])
    | some (t', d) =>
      let (t'', taken) := takeBatch p r f hf n t'
      (t'', d :: taken)

/-! ### What they match -/

section

variable {t : Table key} {p : ρ → Bool} {r : ρ → ρ → Prop} [DecidableRel r] {f : ρ → ρ} {d : ρ}

theorem mem_sortedMatches : d ∈ t.sortedMatches p r ↔ d ∈ t.rows ∧ p d = true := by
  rw [sortedMatches, mem_insertionSort, mem_filter]

theorem nodup_sortedMatches (t : Table key) (p : ρ → Bool) (r : ρ → ρ → Prop) [DecidableRel r] :
    ((t.sortedMatches p r).map key).Nodup :=
  ((perm_insertionSort r (t.rows.filter p)).map key).nodup_iff.mpr
    (t.nodup.sublist (filter_sublist.map key))

theorem findOne_eq_some (h : t.findOne p r = some d) : d ∈ t.rows ∧ p d = true :=
  mem_sortedMatches.mp (mem_of_mem_head? h)

theorem updateMany_snd [DecidableEq ρ] (hf : ∀ d, key (f d) = key d)
    (h : ∀ d ∈ t.rows, p d = true → f d ≠ d) :
    (t.updateMany p f hf).2 = (t.rows.filter p).length := by
  rw [updateMany, filter_congr]
  intro d hd
  rcases hp : p d with _ | _
  · rfl
  · rw [Bool.true_and, decide_eq_true_eq]
    exact h d hd hp

end

/-! ### A batch is one query -/

section

variable [DecidableEq κ] {p : ρ → Bool} {r : ρ → ρ → Prop} [DecidableRel r] [Std.Total r]
  [IsTrans ρ r] {f : ρ → ρ} {hf : ∀ d, key (f d) = key d}

theorem sortedMatches_update (hanti : ∀ a b, r a b → r b a → key a = key b)
    (hstop : ∀ d, p (f d) = false) {t : Table key} {d : ρ} {rest : List ρ}
    (h : t.sortedMatches p r = d :: rest) : (t.update (key d) f hf).sortedMatches p r = rest := by
  have hperm : (d :: rest).Perm (t.rows.filter p) := h ▸ perm_insertionSort r _
  have hnodup : ((d :: rest).map key).Nodup := h ▸ t.nodup_sortedMatches p r
  have hsorted : (d :: rest).Pairwise r := h ▸ pairwise_insertionSort r _
  have hother : ∀ e ∈ rest, key e ≠ key d := by
    rw [map_cons, nodup_cons] at hnodup
    exact fun e he hkey => hnodup.1 (hkey ▸ mem_map_of_mem he)
  have hfilter : (t.update (key d) f hf).rows.filter p =
      (t.rows.filter p).filter fun e => decide (key e ≠ key d) := by
    rw [rows_update, filter_filter]
    induction t.rows with
    | nil => rfl
    | cons e es ih =>
      rw [map_cons, filter_cons, filter_cons, ih]
      by_cases he : key e = key d
      · simp [he, hstop]
      · simp [he]
  have hrest : rest.Perm ((t.update (key d) f hf).rows.filter p) := by
    rw [hfilter]
    refine List.Perm.trans (List.Perm.of_eq ?_) (hperm.filter _)
    rw [filter_cons_of_neg (by simp), filter_eq_self.mpr]
    exact fun e he => decide_eq_true (hother e he)
  refine ((perm_insertionSort r _).trans hrest.symm).eq_of_pairwise ?_
    (pairwise_insertionSort r _) hsorted.of_cons
  -- two of the rest that the order does not tell apart have one key
  intro a b ha hb hab hba
  have hmem : ∀ e ∈ rest, e ∈ t.rows := fun e he =>
    mem_of_mem_filter (hperm.subset (mem_cons_of_mem d he))
  have ha' : a ∈ rest := hrest.mem_iff.mpr ((mem_insertionSort r).mp ha)
  exact eq_of_mem_of_key (hmem a ha') (hmem b hb) (hanti a b hab hba)

/-- **A batch is one query.** The loop takes the first matches of the sort, and leaves what an
update of their keys leaves. -/
theorem takeBatch_eq (hf : ∀ d, key (f d) = key d) (hanti : ∀ a b, r a b → r b a → key a = key b)
    (hstop : ∀ d, p (f d) = false) (n : ℕ) (t : Table key) :
    takeBatch p r f hf n t =
      (t.updateWhere (fun d => decide (key d ∈ ((t.sortedMatches p r).take n).map key)) f hf,
        ((t.sortedMatches p r).take n).map f) := by
  induction n generalizing t with
  | zero =>
    refine Prod.ext (ext ?_) rfl
    simp [takeBatch]
  | succ n ih =>
    rw [takeBatch, findOneAndUpdate, findOne]
    rcases hmatches : t.sortedMatches p r with _ | ⟨d, rest⟩
    · refine Prod.ext (ext ?_) rfl
      simp
    · simp only [List.head?_cons, Option.map_some, ih, sortedMatches_update hanti hstop hmatches,
        take_succ_cons, map_cons]
      refine Prod.ext (ext ?_) rfl
      simp only [rows_updateWhere, rows_update, map_map]
      have hnodup : ((d :: rest).map key).Nodup := hmatches ▸ t.nodup_sortedMatches p r
      rw [map_cons, nodup_cons] at hnodup
      refine map_congr_left fun e _ => ?_
      by_cases he : key e = key d
      · -- the document taken here is not taken again
        have hnot : key d ∉ (rest.map key).take n := fun hmem =>
          hnodup.1 (take_subset n _ hmem)
        simp [he, hf, hnot]
      · simp [he]

end

/-! ### Images -/

variable {ρ' κ' : Type*} {key' : ρ' → κ'} {g : ρ → ρ'} {t : Table key} {t' : Table key'}
  {p : ρ → Bool} {p' : ρ' → Bool}

theorem filter_image (h : t'.rows = t.rows.map g) (hp : ∀ d ∈ t.rows, p' (g d) = p d) :
    t'.rows.filter p' = (t.rows.filter p).map g := by
  rw [h, filter_map]
  exact congrArg (List.map g) (filter_congr hp)

theorem updateWhere_image {f : ρ → ρ} {f' : ρ' → ρ'} (hf : ∀ d, key (f d) = key d)
    (hf' : ∀ d, key' (f' d) = key' d) (h : t'.rows = t.rows.map g)
    (hp : ∀ d ∈ t.rows, p' (g d) = p d) (hfg : ∀ d ∈ t.rows, p d = true → f' (g d) = g (f d)) :
    (t'.updateWhere p' f' hf').rows = (t.updateWhere p f hf).rows.map g := by
  rw [rows_updateWhere, rows_updateWhere, h, map_map, map_map]
  refine map_congr_left fun d hd => ?_
  simp only [Function.comp_apply, hp d hd]
  split
  · exact hfg d hd ‹_›
  · rfl

theorem sortedMatches_image {r : ρ → ρ → Prop} [DecidableRel r] {r' : ρ' → ρ' → Prop}
    [DecidableRel r'] (h : t'.rows = t.rows.map g) (hp : ∀ d ∈ t.rows, p' (g d) = p d)
    (hr : ∀ a ∈ t.rows, ∀ b ∈ t.rows, r a b ↔ r' (g a) (g b)) :
    t'.sortedMatches p' r' = (t.sortedMatches p r).map g := by
  rw [sortedMatches, sortedMatches, filter_image h hp]
  refine (map_insertionSort _ _ _ _ fun a ha b hb => ?_).symm
  exact hr a (mem_of_mem_filter ha) b (mem_of_mem_filter hb)

end Table

end Foundation
