import Mathlib.Data.Finset.Card
import ContextLattice.Foundation.Run
import ContextLattice.Write.Suppress

/-!
# The duplicate window over a sequence of calls

The duplicate test drops the keys that left the window, looks its key up, records it with the time
of the call, and drops the oldest keys if there are too many.
-/

namespace ContextLattice

open Foundation List

structure DedupeCall where
  key : String
  now : ℚ
deriving DecidableEq

variable (cfg : WriteConfig)

def dedupeMaxKeys : ℕ := max 100 cfg.memoryWriteDedupMaxKeys

def dedupeStep (seen : Dict String ℚ) (c : DedupeCall) : Dict String ℚ :=
  (shouldSkipDuplicateMemoryWrite cfg c.key c.now seen).1

def seenAfter (calls : List DedupeCall) : Dict String ℚ := run (dedupeStep cfg) .empty calls

def windowKeys (calls : List DedupeCall) (now : ℚ) : Finset String :=
  ((calls.filter fun c => decide (now - c.now ≤ cfg.memoryWriteDedupWindowSecs)).map
    DedupeCall.key).toFinset

def WindowsFit (calls : List DedupeCall) : Prop :=
  ∀ pre c post, calls = pre ++ c :: post →
    (windowKeys cfg (pre ++ [c]) c.now).card ≤ dedupeMaxKeys cfg

def InTime (calls : List DedupeCall) : Prop := calls.Pairwise fun a b => a.now ≤ b.now

variable {cfg : WriteConfig} {seen : Dict String ℚ} {c : DedupeCall} {k : String} {t : ℚ}

def liveSeen (cfg : WriteConfig) (seen : Dict String ℚ) (now : ℚ) : Dict String ℚ :=
  Table.deleteWhere seen fun p => decide (p.2 < now - dedupeWindow cfg)

theorem get?_liveSeen {now : ℚ} : Dict.get? (liveSeen cfg seen now) k = some t ↔
    seen.get? k = some t ∧ now - t ≤ dedupeWindow cfg := by
  rw [liveSeen, Dict.get?_deleteWhere, decide_eq_false_iff_not, not_lt, sub_le_comm]

theorem dedupeStep_eq (hactive : dedupeActive cfg = true) :
    dedupeStep cfg seen c =
      let marked := Dict.set (liveSeen cfg seen c.now) c.key c.now
      if dedupeMaxKeys cfg < Dict.size marked then evictOldest (dedupeMaxKeys cfg) marked
      else marked := by
  rw [dedupeStep, shouldSkipDuplicateMemoryWrite, if_pos hactive]
  rfl

private theorem filter_notMem_front (front back : List (String × ℚ))
    (hnodup : ((front ++ back).map Prod.fst).Nodup) :
    (front ++ back).filter (fun p => !decide (p.1 ∈ front.map Prod.fst)) = back := by
  rw [map_append, nodup_append] at hnodup
  rw [filter_append]
  have hfront : front.filter (fun p => !decide (p.1 ∈ front.map Prod.fst)) = [] := by
    refine filter_eq_nil_iff.mpr fun p hp => ?_
    simpa using ⟨p.2, hp⟩
  have hback : back.filter (fun p => !decide (p.1 ∈ front.map Prod.fst)) = back := by
    refine filter_eq_self.mpr fun p hp => ?_
    have hnot : p.1 ∉ front.map Prod.fst := fun hmem =>
      hnodup.2.2 _ hmem _ (mem_map_of_mem hp) rfl
    rw [decide_eq_false hnot, Bool.not_false]
  rw [hfront, hback, nil_append]

theorem size_evictOldest {n : ℕ} {d : Dict String ℚ} (h : n ≤ Dict.size d) :
    Dict.size (evictOldest n d) = n := by
  have hperm : (d.rows.insertionSort fun a b => a.2 ≤ b.2).Perm d.rows := perm_insertionSort ..
  rw [evictOldest, Dict.size, Table.rows_deleteWhere]
  generalize d.rows.insertionSort (fun a b => a.2 ≤ b.2) = sorted at hperm ⊢
  -- the keys that go are those of the first part of the sorted list, and of no other row
  have hsplit := take_append_drop (Dict.size d - n) sorted
  have hkeep := filter_notMem_front (sorted.take (Dict.size d - n))
    (sorted.drop (Dict.size d - n)) (by rw [hsplit]; exact (hperm.map _).nodup_iff.mpr d.nodup)
  rw [hsplit] at hkeep
  rw [(hperm.symm.filter _).length_eq, hkeep, length_drop, hperm.length_eq]
  exact Nat.sub_sub_self h

theorem get?_dedupeStep (hactive : dedupeActive cfg = true)
    (h : Dict.get? (dedupeStep cfg seen c) k = some t) :
    k = c.key ∧ t = c.now ∨ seen.get? k = some t ∧ c.now - t ≤ dedupeWindow cfg := by
  rw [dedupeStep_eq hactive] at h
  have hmarked : Dict.get? (Dict.set (liveSeen cfg seen c.now) c.key c.now) k = some t := by
    dsimp only at h
    split at h
    · exact (Dict.get?_deleteWhere.mp h).1
    · exact h
  rcases Dict.get?_set_eq_some.mp hmarked with hnew | ⟨-, hold⟩
  · exact .inl hnew
  · exact .inr (get?_liveSeen.mp hold)

theorem size_dedupeStep (hactive : dedupeActive cfg = true) :
    Dict.size (dedupeStep cfg seen c) ≤ dedupeMaxKeys cfg := by
  rw [dedupeStep_eq hactive]
  dsimp only
  split
  · exact (size_evictOldest (by omega)).le
  · omega

theorem size_liveSeen_le (now : ℚ) : Dict.size (liveSeen cfg seen now) ≤ Dict.size seen :=
  length_filter_le _ _

theorem size_set_of_get? {d : Dict String ℚ} (h : d.get? k = some t) (t' : ℚ) :
    Dict.size (d.set k t') = Dict.size d := by
  have hfind : Table.find? d k ≠ none := by
    intro hnone
    rw [Dict.get?, hnone] at h
    cases h
  rw [Dict.size, Dict.set, dif_neg hfind, Table.rows_update, length_map, Dict.size]

theorem get?_dedupeStep_self (hactive : dedupeActive cfg = true)
    (hsize : Dict.size seen ≤ dedupeMaxKeys cfg) (htimes : ∀ p ∈ seen.rows, p.2 ≤ c.now) :
    Dict.get? (dedupeStep cfg seen c) c.key = some c.now := by
  rcases hlive : Dict.get? (liveSeen cfg seen c.now) c.key with _ | t
  · -- a new key comes last among the oldest
    refine get?_shouldSkipDuplicate hactive htimes ?_
    rw [Bool.eq_false_iff]
    intro hskip
    obtain ⟨-, t, ht, hwindow⟩ := shouldSkipDuplicate_iff.mp hskip
    rw [get?_liveSeen.mpr ⟨ht, hwindow⟩] at hlive
    cases hlive
  · -- a key that is there again does not make the map overflow
    rw [dedupeStep_eq hactive]
    dsimp only
    rw [if_neg, Dict.get?_set]
    rw [size_set_of_get? hlive, not_lt]
    exact (size_liveSeen_le c.now).trans hsize

/-! ### Sequences of calls -/

variable {calls : List DedupeCall}

theorem seenAfter_concat (cfg : WriteConfig) (calls : List DedupeCall) (c : DedupeCall) :
    seenAfter cfg (calls ++ [c]) = dedupeStep cfg (seenAfter cfg calls) c :=
  run_append ..

theorem call_of_get? (hactive : dedupeActive cfg = true)
    (h : Dict.get? (seenAfter cfg calls) k = some t) : ∃ c ∈ calls, c.key = k ∧ c.now = t := by
  induction calls using List.reverseRecOn with
  | nil => cases h
  | append_singleton calls c ih =>
    rw [seenAfter_concat] at h
    rcases get?_dedupeStep hactive h with ⟨rfl, rfl⟩ | ⟨hold, -⟩
    · exact ⟨c, mem_append_right _ mem_cons_self, rfl, rfl⟩
    · obtain ⟨c', hc', hcall⟩ := ih hold
      exact ⟨c', mem_append_left _ hc', hcall⟩

theorem size_seenAfter (hactive : dedupeActive cfg = true) (calls : List DedupeCall) :
    Dict.size (seenAfter cfg calls) ≤ dedupeMaxKeys cfg := by
  induction calls using List.reverseRecOn with
  | nil => exact Nat.zero_le _
  | append_singleton calls c ih =>
    rw [seenAfter_concat]
    exact size_dedupeStep hactive

theorem InTime.le_last (h : InTime (calls ++ [c])) : ∀ c' ∈ calls, c'.now ≤ c.now :=
  fun _ hc' => (pairwise_append.mp h).2.2 _ hc' c mem_cons_self

theorem size_marked_le (hactive : dedupeActive cfg = true)
    (hwindow : dedupeWindow cfg = cfg.memoryWriteDedupWindowSecs) :
    Dict.size (Dict.set (liveSeen cfg (seenAfter cfg calls) c.now) c.key c.now) ≤
      (windowKeys cfg (calls ++ [c]) c.now).card := by
  set marked := Dict.set (liveSeen cfg (seenAfter cfg calls) c.now) c.key c.now with hmarked
  have hsize : Dict.size marked = (marked.rows.map Prod.fst).toFinset.card := by
    rw [toFinset_card_of_nodup marked.nodup, length_map, Dict.size]
  rw [hsize]
  refine Finset.card_le_card fun k hk => ?_
  obtain ⟨⟨k, t⟩, hp, rfl⟩ := mem_map.mp (mem_toFinset.mp hk)
  have hcall : ∃ c' ∈ calls ++ [c], c'.key = k ∧
      c.now - c'.now ≤ cfg.memoryWriteDedupWindowSecs := by
    rcases Dict.get?_set_eq_some.mp (Dict.get?_eq_some.mpr hp) with ⟨rfl, -⟩ | ⟨-, hold⟩
    · refine ⟨c, mem_append_right _ mem_cons_self, rfl, ?_⟩
      rw [sub_self, ← hwindow]
      exact le_max_left ..
    · obtain ⟨hseen, hlive⟩ := get?_liveSeen.mp hold
      obtain ⟨c', hc', hkey, rfl⟩ := call_of_get? hactive hseen
      exact ⟨c', mem_append_left _ hc', hkey, hwindow ▸ hlive⟩
  obtain ⟨c', hc', hkey, hin⟩ := hcall
  refine mem_toFinset.mpr (mem_map.mpr ⟨c', mem_filter.mpr ⟨hc', ?_⟩, hkey⟩)
  exact decide_eq_true hin

theorem WindowsFit.of_append {post : List DedupeCall} (h : WindowsFit cfg (calls ++ post)) :
    WindowsFit cfg calls := by
  rintro pre c post' rfl
  exact h pre c (post' ++ post) (by simp)

theorem get?_of_call (hactive : dedupeActive cfg = true)
    (hwindow : dedupeWindow cfg = cfg.memoryWriteDedupWindowSecs) (hin : InTime calls)
    (hfit : WindowsFit cfg calls) {now : ℚ} (hnow : ∀ c ∈ calls, c.now ≤ now) :
    ∀ c' ∈ calls, now - c'.now ≤ cfg.memoryWriteDedupWindowSecs →
      ∃ t, Dict.get? (seenAfter cfg calls) c'.key = some t ∧ c'.now ≤ t := by
  induction calls using List.reverseRecOn generalizing now with
  | nil => exact fun c' hc' => absurd hc' not_mem_nil
  | append_singleton calls c ih =>
    intro c' hc' hnear
    have hlast := hnow c (mem_append_right _ mem_cons_self)
    have hle : c'.now ≤ c.now := by
      rcases mem_append.mp hc' with hc' | hc'
      · exact hin.le_last c' hc'
      · rw [mem_singleton.mp hc']
    have hfits := (size_marked_le hactive hwindow).trans (hfit calls c [] rfl)
    rw [seenAfter_concat, dedupeStep_eq hactive]
    dsimp only
    rw [if_neg (by omega), Dict.get?_set_eq]
    by_cases hkey : c'.key = c.key
    · exact ⟨c.now, if_pos hkey, hle⟩
    · -- an earlier call for another key: it is in the window of the last call, too
      have hold : c' ∈ calls := by
        rcases mem_append.mp hc' with hc' | hc'
        · exact hc'
        · exact absurd (congrArg DedupeCall.key (mem_singleton.mp hc')) hkey
      have hbefore : InTime calls := hin.sublist (sublist_append_left ..)
      obtain ⟨t, ht, hlater⟩ := ih hbefore hfit.of_append hin.le_last c' hold (by linarith)
      refine ⟨t, ?_, hlater⟩
      rw [if_neg hkey]
      exact get?_liveSeen.mpr ⟨ht, by rw [hwindow]; linarith⟩

/-- **The duplicate window is exact and bounded**, as long as no window holds more keys than the map
may. -/
theorem duplicate_window_exact (henabled : cfg.memoryWriteDedupEnabled = true)
    (hpos : 0 < cfg.memoryWriteDedupWindowSecs) (hin : InTime (calls ++ [c])) :
    (WindowsFit cfg calls →
        ((shouldSkipDuplicateMemoryWrite cfg c.key c.now (seenAfter cfg calls)).2 = true ↔
          ∃ c' ∈ calls, c'.key = c.key ∧ c.now - c'.now ≤ cfg.memoryWriteDedupWindowSecs)) ∧
      Dict.size (seenAfter cfg (calls ++ [c])) ≤ max 100 cfg.memoryWriteDedupMaxKeys ∧
      Dict.get? (seenAfter cfg (calls ++ [c])) c.key = some c.now := by
  have hwindow : dedupeWindow cfg = cfg.memoryWriteDedupWindowSecs := max_eq_right hpos.le
  have hactive : dedupeActive cfg = true := by
    rw [dedupeActive, henabled, hwindow, Bool.true_and, decide_eq_true hpos]
  refine ⟨fun hfit => ?_, size_seenAfter hactive _, ?_⟩
  · rw [shouldSkipDuplicate_iff]
    constructor
    · rintro ⟨-, t, ht, hnear⟩
      obtain ⟨c', hc', hkey, rfl⟩ := call_of_get? hactive ht
      exact ⟨c', hc', hkey, hwindow ▸ hnear⟩
    · rintro ⟨c', hc', hkey, hnear⟩
      have hbefore : InTime calls := hin.sublist (sublist_append_left ..)
      obtain ⟨t, ht, hlater⟩ := get?_of_call hactive hwindow hbefore hfit hin.le_last c' hc' hnear
      exact ⟨hactive, t, hkey ▸ ht, by rw [hwindow]; linarith⟩
  · rw [seenAfter_concat]
    refine get?_dedupeStep_self hactive (size_seenAfter hactive _) ?_
    rintro ⟨k, t⟩ hp
    obtain ⟨c', hc', -, rfl⟩ := call_of_get? hactive (Dict.get?_eq_some.mpr hp)
    exact hin.le_last c' hc'

theorem windowsFit_of_length (h : calls.length ≤ dedupeMaxKeys cfg) : WindowsFit cfg calls := by
  rintro pre c post rfl
  have hcard : (windowKeys cfg (pre ++ [c]) c.now).card ≤ (pre ++ [c]).length := by
    refine (toFinset_card_le _).trans ?_
    rw [length_map]
    exact length_filter_le _ _
  simp only [length_append, length_cons, length_nil] at h hcard
  omega

theorem duplicate_window_exact_edge :
    let calls : List DedupeCall := [⟨"a", 0⟩, ⟨"b", 50⟩, ⟨"a", 100⟩]
    ((shouldSkipDuplicateMemoryWrite .default "b" 170 (seenAfter .default calls)).2 = true ↔
        ∃ c' ∈ calls, c'.key = "b" ∧ 170 - c'.now ≤ 120) ∧
      Dict.get? (seenAfter .default (calls ++ [⟨"b", 170⟩])) "b" = some 170 := by
  intro calls
  have hin : InTime (calls ++ [⟨"b", 170⟩]) := by
    simp only [InTime, calls]
    decide
  have hfit : WindowsFit .default calls := windowsFit_of_length (by decide)
  have hpos : 0 < WriteConfig.default.memoryWriteDedupWindowSecs := by decide
  obtain ⟨hexact, -, hself⟩ := duplicate_window_exact rfl hpos hin
  exact ⟨hexact hfit, hself⟩

end ContextLattice
