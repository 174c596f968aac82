import Mathlib.Data.List.Basic
import Mathlib.Data.List.Nodup
import Mathlib.Data.List.Sort

/-!
# Tables with a primary key

A `Table key` is a list of rows, in the order a scan meets them, whose keys are pairwise different.
A query is a filter followed by a stable insertion sort and a `take`.
-/

namespace Foundation

open List

variable {ρ κ : Type*}

structure Table (key : ρ → κ) where
  rows : List ρ
  nodup : (rows.map key).Nodup

namespace Table

variable {key : ρ → κ}

variable {t : Table key} {r : ρ} {k : κ}

@[ext] theorem ext {u : Table key} (h : t.rows = u.rows) : t = u := by
  cases t; cases u; cases h; rfl

instance [DecidableEq ρ] : DecidableEq (Table key) := fun t u =>
  decidable_of_iff (t.rows = u.rows) ⟨ext, fun h => h ▸ rfl⟩

def empty : Table key := ⟨[], nodup_nil⟩

@[simp] theorem rows_empty : (empty : Table key).rows = [] := rfl

def mapRows (t : Table key) (f : ρ → ρ) (hf : ∀ r, key (f r) = key r) : Table key where
  rows := t.rows.map f
  nodup := by
    have hkeys : (t.rows.map f).map key = t.rows.map key := by simp [hf]
    rw [hkeys]
    exact t.nodup

@[simp] theorem rows_mapRows (t : Table key) (f : ρ → ρ) (hf) :
    (t.mapRows f hf).rows = t.rows.map f := rfl

def updateWhere (t : Table key) (p : ρ → Bool) (f : ρ → ρ) (hf : ∀ r, key (f r) = key r) :
    Table key :=
  t.mapRows (fun r => if p r then f r else r) fun r => by split <;> simp [hf]

@[simp] theorem rows_updateWhere (t : Table key) (p : ρ → Bool) (f : ρ → ρ) (hf) :
    (t.updateWhere p f hf).rows = t.rows.map fun r => if p r then f r else r := rfl

def deleteWhere (t : Table key) (p : ρ → Bool) : Table key where
  rows := t.rows.filter fun r => !p r
  nodup := t.nodup.sublist (filter_sublist.map key)

@[simp] theorem rows_deleteWhere (t : Table key) (p : ρ → Bool) :
    (t.deleteWhere p).rows = t.rows.filter fun r => !p r := rfl

theorem eq_of_mem_of_key {r' : ρ} (hr : r ∈ t.rows) (hr' : r' ∈ t.rows)
    (h : key r = key r') : r = r' :=
  inj_on_of_nodup_map t.nodup hr hr' h

variable [DecidableEq κ]

def find? (t : Table key) (k : κ) : Option ρ := t.rows.find? fun r => decide (key r = k)

def update (t : Table key) (k : κ) (f : ρ → ρ) (hf : ∀ r, key (f r) = key r) : Table key :=
  t.updateWhere (fun r => decide (key r = k)) f hf

@[simp] theorem rows_update (t : Table key) (k : κ) (f : ρ → ρ) (hf) :
    (t.update k f hf).rows = t.rows.map fun r => if key r = k then f r else r := by
  simp [update]

def insert (t : Table key) (r : ρ) (h : t.find? (key r) = none) : Table key where
  rows := t.rows ++ [r]
  nodup := by
    rw [find?, List.find?_eq_none] at h
    rw [map_append, nodup_append]
    refine ⟨t.nodup, by simp, fun a ha b hb => ?_⟩
    obtain ⟨r', hr', rfl⟩ := mem_map.mp ha
    obtain rfl : b = key r := by simpa using hb
    simpa using h r' hr'

@[simp] theorem rows_insert (t : Table key) (r : ρ) (h) : (t.insert r h).rows = t.rows ++ [r] := rfl

/-! ### Lookup -/

theorem find?_eq_some (h : t.find? k = some r) : r ∈ t.rows ∧ key r = k :=
  ⟨mem_of_find?_eq_some h, by simpa using List.find?_some h⟩

theorem find?_eq_none :
    t.find? k = none ↔ ∀ r ∈ t.rows, key r ≠ k := by
  simp [find?, List.find?_eq_none]

theorem find?_of_mem (hr : r ∈ t.rows) : t.find? (key r) = some r := by
  rcases h : t.find? (key r) with _ | r'
  · exact absurd rfl (find?_eq_none.mp h r hr)
  · obtain ⟨hr', hkey⟩ := find?_eq_some h
    rw [eq_of_mem_of_key hr hr' hkey.symm]

theorem find?_mapRows (t : Table key) (f : ρ → ρ) (hf) (k : κ) :
    (t.mapRows f hf).find? k = (t.find? k).map f := by
  simp only [find?, rows_mapRows, List.find?_map]
  congr 2
  funext r
  simp [hf]

@[simp] theorem find?_updateWhere (t : Table key) (p : ρ → Bool) (f : ρ → ρ) (hf) (k : κ) :
    (t.updateWhere p f hf).find? k = (t.find? k).map fun r => if p r then f r else r :=
  find?_mapRows ..

theorem find?_update (t : Table key) (k : κ) (f : ρ → ρ) (hf) :
    (t.update k f hf).find? k = (t.find? k).map f := by
  rw [update, find?_updateWhere]
  rcases h : t.find? k with _ | r
  · rfl
  · simp [(find?_eq_some h).2]

theorem find?_update_of_ne {k' : κ} (hne : k' ≠ k) (f : ρ → ρ) (hf) :
    (t.update k f hf).find? k' = t.find? k' := by
  rw [update, find?_updateWhere]
  rcases h : t.find? k' with _ | r
  · rfl
  · simp [(find?_eq_some h).2, hne]

theorem find?_insert (t : Table key) (r : ρ) (h) : (t.insert r h).find? (key r) = some r :=
  find?_of_mem (by simp)

theorem find?_insert_of_ne (hne : key r ≠ k) (h) :
    (t.insert r h).find? k = t.find? k := by
  simp [find?, List.find?_append, hne]

end Table

/-! ### Dictionaries

A dictionary that keeps the insertion order of its keys is a table of pairs: setting a
present key changes the value in place, setting a new key appends. -/

abbrev Dict (κ ν : Type*) := Table (Prod.fst : κ × ν → κ)

namespace Dict

variable {ν : Type*} [DecidableEq κ]

def get? (d : Dict κ ν) (k : κ) : Option ν := (Table.find? d k).map Prod.snd

def set (d : Dict κ ν) (k : κ) (v : ν) : Dict κ ν :=
  if h : Table.find? d k = none then Table.insert d (k, v) h
  else Table.update d k (fun p => (p.1, v)) fun _ => rfl

def erase (d : Dict κ ν) (k : κ) : Dict κ ν := Table.deleteWhere d fun p => decide (p.1 = k)

def size (d : Dict κ ν) : ℕ := d.rows.length

@[simp] theorem get?_empty (k : κ) : get? (Table.empty : Dict κ ν) k = none := rfl

variable {d : Dict κ ν} {k k' : κ} {v : ν}

theorem get?_eq_some : get? d k = some v ↔ (k, v) ∈ d.rows := by
  rw [get?, Option.map_eq_some_iff]
  constructor
  · rintro ⟨⟨k', v'⟩, hfind, rfl⟩
    obtain ⟨hmem, rfl⟩ := Table.find?_eq_some hfind
    exact hmem
  · intro hmem
    exact ⟨(k, v), Table.find?_of_mem hmem, rfl⟩

@[simp] theorem get?_set (d : Dict κ ν) (k : κ) (v : ν) : get? (set d k v) k = some v := by
  rw [get?, set]
  split
  · rw [Table.find?_insert d (k, v)]
    rfl
  · rename_i h
    obtain ⟨p, hp⟩ := Option.ne_none_iff_exists'.mp h
    simp [Table.find?_update, hp]

theorem get?_set_of_ne (hne : k' ≠ k) (v : ν) :
    get? (set d k v) k' = get? d k' := by
  rw [get?, set]
  split
  · rw [Table.find?_insert_of_ne (fun h => hne h.symm), get?]
  · rw [Table.find?_update_of_ne hne, get?]

theorem get?_set_eq (d : Dict κ ν) (k k' : κ) (v : ν) :
    get? (set d k v) k' = if k' = k then some v else get? d k' := by
  split
  · rename_i h
    rw [h, get?_set]
  · rename_i h
    exact get?_set_of_ne h v

theorem get?_set_eq_some {v' : ν} :
    get? (set d k v) k' = some v' ↔ k' = k ∧ v' = v ∨ k' ≠ k ∧ get? d k' = some v' := by
  rw [get?_set_eq]
  by_cases h : k' = k
  · simp [h, eq_comm]
  · simp [h]

theorem exists_get?_set :
    (∃ v', get? (set d k v) k' = some v') ↔ k' = k ∨ ∃ v', get? d k' = some v' := by
  by_cases h : k' = k
  · simp [h]
  · simp [h, get?_set_of_ne]

theorem get?_deleteWhere {p : κ × ν → Bool} :
    get? (Table.deleteWhere d p) k = some v ↔ get? d k = some v ∧ p (k, v) = false := by
  simp only [get?_eq_some, Table.rows_deleteWhere, mem_filter, Bool.not_eq_eq_eq_not, Bool.not_true]

theorem get?_erase_of_ne (hne : k' ≠ k) :
    get? (erase d k) k' = get? d k' := by
  refine Option.ext fun v => ?_
  rw [erase, get?_deleteWhere]
  simp [hne]

@[simp] theorem get?_erase (d : Dict κ ν) (k : κ) : get? (erase d k) k = none := by
  rw [Option.eq_none_iff_forall_ne_some]
  intro v hv
  simp [erase, get?_deleteWhere] at hv

theorem get?_erase_eq (d : Dict κ ν) (k k' : κ) :
    get? (erase d k) k' = if k' = k then none else get? d k' := by
  split
  · rename_i h
    rw [h, get?_erase]
  · rename_i h
    exact get?_erase_of_ne h

theorem get?_erase_eq_some :
    get? (erase d k) k' = some v ↔ k' ≠ k ∧ get? d k' = some v := by
  rw [get?_erase_eq]
  by_cases h : k' = k <;> simp [h]

theorem rows_set_of_get?_eq_none (h : get? d k = none) (v : ν) :
    (set d k v).rows = d.rows ++ [(k, v)] := by
  rw [get?, Option.map_eq_none_iff] at h
  rw [set, dif_pos h, Table.rows_insert]

theorem perm_erase (h : get? d k = some v) :
    d.rows.Perm ((k, v) :: (erase d k).rows) := by
  obtain ⟨front, back, hrows⟩ := append_of_mem (get?_eq_some.mp h)
  have hnodup := d.nodup
  rw [hrows, map_append, map_cons, nodup_middle, nodup_cons, mem_append, not_or] at hnodup
  have hkeep : ∀ l : List (κ × ν), k ∉ l.map Prod.fst →
      l.filter (fun p => !decide (p.1 = k)) = l := by
    intro l hl
    refine filter_eq_self.mpr fun p hp => ?_
    have hne : p.1 ≠ k := fun heq => hl (heq ▸ mem_map_of_mem hp)
    simp [hne]
  have herase : (erase d k).rows = front ++ back := by
    rw [erase, Table.rows_deleteWhere, hrows, filter_append, filter_cons_of_neg (by simp),
      hkeep front hnodup.1.1, hkeep back hnodup.1.2]
  rw [herase, hrows]
  exact perm_middle

theorem filterMap_rows_set {α : Type*} {v' : ν} {f : κ × ν → Option α}
    (h : get? d k = some v) (hf : f (k, v') = f (k, v)) :
    (set d k v').rows.filterMap f = d.rows.filterMap f := by
  have hfind : Table.find? d k ≠ none := by
    intro hnone
    rw [get?, hnone] at h
    cases h
  rw [set, dif_neg hfind, Table.rows_update, filterMap_map]
  refine filterMap_congr fun p hp => ?_
  simp only [Function.comp]
  split
  · rename_i hkey
    obtain ⟨k', w⟩ := p
    obtain rfl : k' = k := hkey
    obtain rfl : w = v := Option.some.inj ((get?_eq_some.mpr hp).symm.trans h)
    exact hf
  · rfl

def merge (d other : Dict κ ν) : Dict κ ν := other.rows.foldl (fun d p => set d p.1 p.2) d

theorem get?_foldl_set {μ : Type*} (f : μ → ν) (other : Dict κ μ) (d : Dict κ ν) (k : κ) :
    get? (other.rows.foldl (fun d p => set d p.1 (f p.2)) d) k =
      ((get? other k).map f).or (get? d k) := by
  obtain ⟨rows, hnodup⟩ := other
  simp only [get?, Table.find?]
  induction rows generalizing d with
  | nil => rfl
  | cons p rows ih =>
    rw [map_cons, nodup_cons] at hnodup
    have hset := get?_set_eq d p.1 k (f p.2)
    rw [get?, get?, Table.find?, Table.find?] at hset
    rw [foldl_cons, ih _ hnodup.2, hset, List.find?_cons]
    by_cases h : k = p.1
    · -- the key is set here, and not again
      subst h
      have hnone : rows.find? (fun r => decide (r.1 = p.1)) = none := by
        rw [List.find?_eq_none]
        intro r hr hkey
        rw [decide_eq_true_eq] at hkey
        exact hnodup.1 (mem_map.mpr ⟨r, hr, hkey⟩)
      simp [hnone]
    · simp [h, Ne.symm h]

theorem get?_merge (d other : Dict κ ν) (k : κ) :
    get? (merge d other) k = (get? other k).or (get? d k) := by
  have h := get?_foldl_set id other d k
  rwa [Option.map_id] at h

def moveToEnd (d : Dict κ ν) (k : κ) : Dict κ ν :=
  match get? d k with
  | some v => set (erase d k) k v
  | none => d

theorem get?_moveToEnd (d : Dict κ ν) (k k' : κ) : get? (moveToEnd d k) k' = get? d k' := by
  rw [moveToEnd]
  split
  · rename_i v hv
    rw [get?_set_eq, get?_erase_eq]
    by_cases h : k' = k
    · rw [if_pos h, h, hv]
    · rw [if_neg h, if_neg h]
  · rfl

def evict (n : ℕ) (d : Dict κ ν) : Dict κ ν where
  rows := d.rows.drop (d.rows.length - n)
  nodup := d.nodup.sublist ((drop_sublist _ _).map _)

theorem get?_of_evict {n : ℕ} (h : get? (evict n d) k = some v) : get? d k = some v :=
  get?_eq_some.mpr (mem_of_mem_drop (get?_eq_some.mp h))

theorem get?_evict_moveToEnd {n : ℕ} (hn : n ≠ 0)
    (h : get? d k = some v) : get? (evict n (moveToEnd d k)) k = some v := by
  have hrows : (moveToEnd d k).rows = (erase d k).rows ++ [(k, v)] := by
    rw [moveToEnd, h]
    exact rows_set_of_get?_eq_none (get?_erase d k) v
  rw [get?_eq_some]
  change (k, v) ∈ (moveToEnd d k).rows.drop ((moveToEnd d k).rows.length - n)
  rw [hrows, length_append, length_singleton, drop_append_of_le_length (by omega)]
  simp

end Dict

/-! ### Sorting -/

theorem insertionSort_concat {r : ρ → ρ → Prop} [DecidableRel r] {l : List ρ} {x : ρ}
    (h : ∀ y ∈ l, r y x) : (l ++ [x]).insertionSort r = l.insertionSort r ++ [x] := by
  have hinsert : ∀ {a : ρ} {m : List ρ}, r a x →
      (m ++ [x]).orderedInsert r a = m.orderedInsert r a ++ [x] := by
    intro a m ha
    induction m with
    | nil => simp [ha]
    | cons b m ih =>
      rw [cons_append, orderedInsert_cons, orderedInsert_cons]
      split
      · rfl
      · rw [ih, cons_append]
  induction l with
  | nil => rfl
  | cons a l ih =>
    rw [cons_append, insertionSort_cons, insertionSort_cons,
      ih fun y hy => h y (mem_cons_of_mem a hy), hinsert (h a mem_cons_self)]

end Foundation
