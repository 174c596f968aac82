import Mathlib.Data.List.Induction
import Mathlib.Data.List.Sort
import ContextLattice.Foundation.Table

/-!
# Gathering by a key

Each item is absorbed into the entry of its key. Where an entry keeps the first of the items with
the greatest score (`bestOf`), the items can as well be gathered in parts.
-/

namespace Foundation

variable {α β κ : Type*}

section

variable [DecidableEq κ] {absorb : Option β → α → β}

def gather (absorb : Option β → α → β) (l : List (κ × α)) : Dict κ β :=
  l.foldl (fun d x => d.set x.1 (absorb (d.get? x.1) x.2)) .empty

def itemsOf (k : κ) (l : List (κ × α)) : List α := (l.filter (·.1 = k)).map Prod.snd

@[simp] theorem mem_itemsOf {k : κ} {l : List (κ × α)} {x : α} : x ∈ itemsOf k l ↔ (k, x) ∈ l := by
  simp only [itemsOf, List.mem_map, List.mem_filter, decide_eq_true_eq]
  constructor
  · rintro ⟨p, ⟨hp, rfl⟩, rfl⟩
    exact hp
  · exact fun h => ⟨(k, x), ⟨h, rfl⟩, rfl⟩

theorem itemsOf_append (k : κ) (l l' : List (κ × α)) :
    itemsOf k (l ++ l') = itemsOf k l ++ itemsOf k l' := by
  rw [itemsOf, List.filter_append, List.map_append, itemsOf, itemsOf]

theorem get?_gather (l : List (κ × α)) (k : κ) :
    Dict.get? (gather absorb l) k = (itemsOf k l).foldl (fun o x => some (absorb o x)) none := by
  induction l using List.reverseRecOn with
  | nil => rfl
  | append_singleton l x ih =>
    have hstep : gather absorb (l ++ [x]) =
        Dict.set (gather absorb l) x.1 (absorb (Dict.get? (gather absorb l) x.1) x.2) :=
      List.foldl_concat ..
    rw [hstep, Dict.get?_set_eq, itemsOf_append, List.foldl_append, ← ih]
    by_cases hk : x.1 = k
    · simp [itemsOf, hk]
    · simp [itemsOf, hk, Ne.symm hk]

theorem mem_keys_gather {l : List (κ × α)} {k : κ} :
    k ∈ (gather absorb l).rows.map Prod.fst ↔ ∃ x, (k, x) ∈ l := by
  have hentry : k ∈ (gather absorb l).rows.map Prod.fst ↔
      ∃ v, Dict.get? (gather absorb l) k = some v := by
    simp [Dict.get?_eq_some]
  have hitems : (∃ x, (k, x) ∈ l) ↔ itemsOf k l ≠ [] := by
    simp only [← mem_itemsOf]
    exact ⟨fun h => h.elim fun _ => List.ne_nil_of_mem, List.exists_mem_of_ne_nil _⟩
  rw [hentry, hitems, get?_gather]
  rcases List.eq_nil_or_concat (itemsOf k l) with hnil | ⟨front, x, hx⟩
  · simp [hnil]
  · simp [hx]

end

section

variable {γ : Type*} [LinearOrder γ] (score : α → γ)

def better (o : Option α) (x : α) : α := o.elim x fun y => if score y < score x then x else y

def bestOf (l : List α) : Option α := l.foldl (fun o x => some (better score o x)) none

def bestOfBoth (o o' : Option α) : Option α := o'.elim o fun x => some (better score o x)

variable {score}

theorem bestOfBoth_assoc (a b c : Option α) :
    bestOfBoth score (bestOfBoth score a b) c = bestOfBoth score a (bestOfBoth score b c) := by
  rcases a with _ | a <;> rcases b with _ | b <;> rcases c with _ | c <;>
    simp only [bestOfBoth, better, Option.elim_none, Option.elim_some]
  split_ifs with hab hbc hac hac hbc
  · rfl
  · exact absurd (hab.trans hbc) hac
  · rfl
  · rfl
  · exact absurd ((not_lt.mp hab).trans_lt hac) hbc
  · rfl
  · rfl

theorem foldl_better (l : List α) (o : Option α) :
    l.foldl (fun o x => some (better score o x)) o = bestOfBoth score o (bestOf score l) := by
  induction l generalizing o with
  | nil => rfl
  | cons x l ih =>
    have hcons : bestOf score (x :: l) = bestOfBoth score (some x) (bestOf score l) := ih (some x)
    rw [List.foldl_cons, ih, hcons, ← bestOfBoth_assoc]
    rfl

theorem bestOf_append (l l' : List α) :
    bestOf score (l ++ l') = bestOfBoth score (bestOf score l) (bestOf score l') := by
  rw [bestOf, List.foldl_append, foldl_better, ← bestOf]

theorem bestOf_flatMap (ls : List (List α)) :
    bestOf score (ls.flatMap fun l => (bestOf score l).toList) = bestOf score ls.flatten := by
  induction ls with
  | nil => rfl
  | cons l ls ih =>
    have hone : ∀ o : Option α, bestOf score o.toList = o := fun o => by cases o <;> rfl
    rw [List.flatMap_cons, bestOf_append, hone, ih, List.flatten_cons, bestOf_append]

theorem bestOf_eq_none {l : List α} : bestOf score l = none ↔ l = [] := by
  cases l with
  | nil => exact iff_of_true rfl rfl
  | cons x l =>
    refine iff_of_false (fun h => ?_) (List.cons_ne_nil _ _)
    rw [bestOf, List.foldl_cons, foldl_better] at h
    cases hl : bestOf score l <;> simp [hl, bestOfBoth] at h

theorem bestOf_eq_some {l : List α} {x : α} (h : bestOf score l = some x) :
    x ∈ l ∧ ∀ y ∈ l, score y ≤ score x := by
  induction l using List.reverseRecOn generalizing x with
  | nil => cases h
  | append_singleton l z ih =>
    cases hl : bestOf score l with
    | none =>
      rw [bestOf_append, hl] at h
      obtain rfl : z = x := Option.some.inj h
      simp [bestOf_eq_none.mp hl]
    | some y =>
      rw [bestOf_append, hl] at h
      obtain ⟨hmem, hmax⟩ := ih hl
      have hx : (if score y < score z then z else y) = x := Option.some.inj h
      split_ifs at hx with hlt
      · subst hx
        exact ⟨by simp, fun w hw => by
          rcases List.mem_append.mp hw with hw | hw
          · exact (hmax w hw).trans hlt.le
          · rw [List.mem_singleton.mp hw]⟩
      · subst hx
        exact ⟨by simp [hmem], fun w hw => by
          rcases List.mem_append.mp hw with hw | hw
          · exact hmax w hw
          · rw [List.mem_singleton.mp hw]
            exact not_lt.mp hlt⟩

end

section

variable {γ : Type*} [LinearOrder γ] {rank : α → γ} {a b : List α}

structure SameUpToTies (rank : α → γ) (a b : List α) : Prop where
  ranks : a.map rank = b.map rank
  left : ∀ x ∈ a, x ∉ b → ∀ y ∈ a, rank x ≤ rank y
  right : ∀ x ∈ b, x ∉ a → ∀ y ∈ b, rank x ≤ rank y

def byRank (rank : α → γ) (l : List α) : List α := l.insertionSort fun x y => rank y ≤ rank x

theorem pairwise_byRank (l : List α) : (byRank rank l).Pairwise fun x y => rank y ≤ rank x :=
  List.pairwise_insertionSort _ l

theorem map_byRank_of_perm (h : a.Perm b) :
    (byRank rank a).map rank = (byRank rank b).map rank := by
  have hperm : ((byRank rank a).map rank).Perm ((byRank rank b).map rank) :=
    (((List.perm_insertionSort _ a).trans h).trans (List.perm_insertionSort _ b).symm).map rank
  have hsorted (l : List α) : ((byRank rank l).map rank).Pairwise fun x y => y ≤ x :=
    List.pairwise_map.mpr (pairwise_byRank l)
  exact hperm.eq_of_pairwise (fun x y _ _ h h' => le_antisymm h' h) (hsorted a) (hsorted b)

theorem rank_le_of_cut (h : a.Perm b) {n : ℕ} {x : α} (hx : x ∈ (byRank rank a).take n)
    (hnot : x ∉ (byRank rank b).take n) : ∀ y ∈ (byRank rank a).take n, rank x ≤ rank y := by
  have hdrop : x ∈ (byRank rank b).drop n := by
    have hmem : x ∈ byRank rank b := (List.perm_insertionSort _ b).symm.subset
      (h.subset ((List.perm_insertionSort _ a).subset (List.mem_of_mem_take hx)))
    rw [← List.take_append_drop n (byRank rank b), List.mem_append] at hmem
    exact hmem.resolve_left hnot
  intro y hy
  have hrank : rank y ∈ ((byRank rank b).take n).map rank := by
    rw [List.map_take, ← map_byRank_of_perm h, ← List.map_take]
    exact List.mem_map_of_mem hy
  obtain ⟨z, hz, hzy⟩ := List.mem_map.mp hrank
  have hsorted : (byRank rank b).Pairwise _ := pairwise_byRank b
  rw [← List.take_append_drop n (byRank rank b)] at hsorted
  rw [← hzy]
  exact (List.pairwise_append.mp hsorted).2.2 z hz x hdrop

theorem sameUpToTies_of_perm (h : a.Perm b) (n : ℕ) :
    SameUpToTies rank ((byRank rank a).take n) ((byRank rank b).take n) where
  ranks := by rw [List.map_take, List.map_take, map_byRank_of_perm h]
  left _ := rank_le_of_cut h
  right _ := rank_le_of_cut h.symm

end

section

variable [DecidableEq α]

theorem eraseDups_cons_eq (x : α) (l : List α) :
    (x :: l).eraseDups = x :: (l.filter (· ≠ x)).eraseDups := by
  rw [List.eraseDups_cons]
  congr 3
  funext y
  rw [beq_eq_decide, decide_not]

theorem nodup_eraseDups (l : List α) : l.eraseDups.Nodup := by
  induction h : l.length using Nat.strong_induction_on generalizing l with
  | _ n ih =>
    cases l with
    | nil => simp
    | cons x l =>
      rw [eraseDups_cons_eq, List.nodup_cons, List.mem_eraseDups]
      refine ⟨by simp, ih _ ?_ _ rfl⟩
      rw [← h, List.length_cons]
      exact Nat.lt_succ_of_le (List.length_filter_le _ l)

theorem eraseDups_of_nodup {l : List α} (h : l.Nodup) : l.eraseDups = l := by
  induction l with
  | nil => simp
  | cons x l ih =>
    obtain ⟨hx, hl⟩ := List.nodup_cons.mp h
    have hfilter : l.filter (· ≠ x) = l :=
      List.filter_eq_self.mpr fun y hy => by simpa using fun heq : y = x => hx (heq ▸ hy)
    rw [eraseDups_cons_eq, hfilter, ih hl]

end

end Foundation
