import Mathlib.Data.List.Sort
import Mathlib.Algebra.Order.Ring.Rat
import Mathlib.Tactic.Linarith
import ContextLattice.Write.Request

/-!
# The two suppression maps

A write is suppressed if a hot file was last written with the same hash, or the same content was
written to the file no longer than a window ago. Both tests **record the write as they look it up**.
The maps are bounded.
-/

namespace ContextLattice

open Foundation

/-! ### Keys -/

def buildMemoryWriteDedupeKey (w : PreparedWrite) : String :=
  w.project ++ ":" ++ w.file ++ ":" ++ truncate 32 w.contentHash

def fileKey (project file : String) : String := project ++ ":" ++ file

/-! ### The duplicate-write map -/

variable (cfg : WriteConfig)

def dedupeWindow : ℚ := max 0 cfg.memoryWriteDedupWindowSecs

def dedupeActive : Bool := cfg.memoryWriteDedupEnabled && decide (0 < dedupeWindow cfg)

def evictOldest (maxKeys : ℕ) (seen : Dict String ℚ) : Dict String ℚ :=
  let oldest := (seen.rows.insertionSort fun a b => a.2 ≤ b.2).take (Dict.size seen - maxKeys)
  Table.deleteWhere seen fun p => decide (p.1 ∈ oldest.map Prod.fst)

def shouldSkipDuplicateMemoryWrite (dedupeKey : String) (now : ℚ) (seen : Dict String ℚ) :
    Dict String ℚ × Bool :=
  if dedupeActive cfg then
    let live := Table.deleteWhere seen fun p => decide (p.2 < now - dedupeWindow cfg)
    let previousSeen := Dict.get? live dedupeKey
    let marked := Dict.set live dedupeKey now
    let kept := if max 100 cfg.memoryWriteDedupMaxKeys < Dict.size marked then
      evictOldest (max 100 cfg.memoryWriteDedupMaxKeys) marked else marked
    (kept, previousSeen.any fun t => decide (now - t ≤ dedupeWindow cfg))
  else (seen, false)

/-! ### The latest-hash map -/

def evictLatest (maxKeys : ℕ) (own contentHash : String) :
    ℕ → Dict String String → Dict String String
  | 0, d => d
  | fuel + 1, d =>
    if maxKeys < Dict.size d then
      match d.rows with
      | [] => d
      | [(oldest, _)] =>
        -- the only key is put back if it is the key of the write
        let popped := Dict.erase d oldest
        evictLatest maxKeys own contentHash fuel
          (if oldest = own then Dict.set popped own contentHash else popped)
      | (oldest, _) :: (second, _) :: _ =>
        evictLatest maxKeys own contentHash fuel
          (Dict.erase d (if oldest = own then second else oldest))
    else d

def shouldSkipUnchangedLatestHash (project file contentHash : String)
    (latest : Dict String String) : Dict String String × Bool :=
  if cfg.memoryWriteLatestHashDedupEnabled then
    let key := fileKey project file
    let previousHash := Dict.get? latest key
    let marked := Dict.set latest key contentHash
    (evictLatest (max 1000 cfg.memoryWriteLatestHashDedupMaxKeys) key contentHash
      (Dict.size marked) marked, decide (previousHash = some contentHash))
  else (latest, false)

/-! ### Both tests -/

structure WriteMaps where
  seen : Dict String ℚ
  latest : Dict String String
deriving DecidableEq

inductive Verdict where
  | fresh | unchanged | duplicate
deriving DecidableEq, Repr

def testUnchanged (cfg : WriteConfig) (w : PreparedWrite) (latest : Dict String String) :
    Dict String String × Bool :=
  if w.hot then shouldSkipUnchangedLatestHash cfg w.project w.file w.contentHash latest
  else (latest, false)

def testDuplicate (cfg : WriteConfig) (now : ℚ) (w : PreparedWrite) (seen : Dict String ℚ) :
    Dict String ℚ × Bool :=
  shouldSkipDuplicateMemoryWrite cfg (buildMemoryWriteDedupeKey w) now seen

/-- The tests of `write_memory`, in its order: a write of an unchanged hot file is not recorded in
the duplicate-write map. -/
def checkWrite (cfg : WriteConfig) (now : ℚ) (w : PreparedWrite) (maps : WriteMaps) :
    WriteMaps × Verdict :=
  if (testUnchanged cfg w maps.latest).2 then
    (⟨maps.seen, (testUnchanged cfg w maps.latest).1⟩, .unchanged)
  else
    (⟨(testDuplicate cfg now w maps.seen).1, (testUnchanged cfg w maps.latest).1⟩,
      if (testDuplicate cfg now w maps.seen).2 then .duplicate else .fresh)

/-- The hash of a hot file is the last one recorded, or the content was recorded no longer than the
window ago. -/
def WriteMaps.Has (cfg : WriteConfig) (now : ℚ) (w : PreparedWrite) (maps : WriteMaps) : Prop :=
  (w.hot = true ∧ cfg.memoryWriteLatestHashDedupEnabled = true ∧
      Dict.get? maps.latest (fileKey w.project w.file) = some w.contentHash) ∨
    dedupeActive cfg = true ∧ ∃ t, Dict.get? maps.seen (buildMemoryWriteDedupeKey w) = some t ∧
      now - t ≤ dedupeWindow cfg

/-! ### What the tests answer -/

variable {cfg : WriteConfig} {now : ℚ} {w : PreparedWrite} {maps : WriteMaps}

theorem testUnchanged_iff : (testUnchanged cfg w maps.latest).2 = true ↔
    w.hot = true ∧ cfg.memoryWriteLatestHashDedupEnabled = true ∧
      Dict.get? maps.latest (fileKey w.project w.file) = some w.contentHash := by
  cases hhot : w.hot <;> cases henabled : cfg.memoryWriteLatestHashDedupEnabled <;>
    simp [testUnchanged, shouldSkipUnchangedLatestHash, hhot, henabled]

theorem shouldSkipDuplicate_iff {key : String} {seen : Dict String ℚ} :
    (shouldSkipDuplicateMemoryWrite cfg key now seen).2 = true ↔
      dedupeActive cfg = true ∧ ∃ t, Dict.get? seen key = some t ∧ now - t ≤ dedupeWindow cfg := by
  cases hactive : dedupeActive cfg with
  | false => simp [shouldSkipDuplicateMemoryWrite, hactive]
  | true =>
    simp only [shouldSkipDuplicateMemoryWrite, hactive, if_true, true_and, Option.any_eq_true,
      decide_eq_true_eq]
    constructor
    · rintro ⟨t, hlive, hwindow⟩
      exact ⟨t, (Dict.get?_deleteWhere.mp hlive).1, hwindow⟩
    · -- the stale keys that are dropped first are those outside the window
      rintro ⟨t, hseen, hwindow⟩
      refine ⟨t, Dict.get?_deleteWhere.mpr ⟨hseen, ?_⟩, hwindow⟩
      rw [decide_eq_false_iff_not]
      linarith

theorem checkWrite_fresh_iff : (checkWrite cfg now w maps).2 = .fresh ↔ ¬ maps.Has cfg now w := by
  have hdup : (testDuplicate cfg now w maps.seen).2 = true ↔ dedupeActive cfg = true ∧
      ∃ t, Dict.get? maps.seen (buildMemoryWriteDedupeKey w) = some t ∧
        now - t ≤ dedupeWindow cfg := shouldSkipDuplicate_iff
  rw [WriteMaps.Has, ← testUnchanged_iff, ← hdup, checkWrite]
  cases (testUnchanged cfg w maps.latest).2 <;> cases (testDuplicate cfg now w maps.seen).2 <;> simp

/-! ### What the tests record -/

variable {key : String} {seen : Dict String ℚ}

private theorem get?_live (hactive : dedupeActive cfg = true)
    (hfresh : (shouldSkipDuplicateMemoryWrite cfg key now seen).2 = false) :
    Dict.get? (Table.deleteWhere seen fun p => decide (p.2 < now - dedupeWindow cfg)) key =
      none := by
  rw [Option.eq_none_iff_forall_ne_some]
  intro t ht
  obtain ⟨hseen, hlive⟩ := Dict.get?_deleteWhere.mp ht
  have hwindow : now - t ≤ dedupeWindow cfg := by
    have hlive : ¬ t < now - dedupeWindow cfg := of_decide_eq_false hlive
    linarith
  have hskip := shouldSkipDuplicate_iff.mpr ⟨hactive, t, hseen, hwindow⟩
  rw [hfresh] at hskip
  cases hskip

private theorem get?_evictOldest {d : Dict String ℚ} {maxKeys : ℕ}
    (hmax : 0 < maxKeys) (hnew : Dict.get? d key = none) (htimes : ∀ p ∈ d.rows, p.2 ≤ now) :
    Dict.get? (evictOldest maxKeys (Dict.set d key now)) key = some now := by
  rw [evictOldest, Dict.get?_deleteWhere]
  refine ⟨Dict.get?_set .., ?_⟩
  -- the new key comes last in the sorted list, which is not dropped as a whole
  rw [Dict.size, Dict.rows_set_of_get?_eq_none hnew, insertionSort_concat htimes,
    List.take_append_of_le_length (by simp; omega), decide_eq_false_iff_not]
  intro hmem
  obtain ⟨⟨k, t⟩, hp, rfl : k = key⟩ := List.mem_map.mp hmem
  have hmem : (k, t) ∈ d.rows := (List.mem_insertionSort _).mp (List.mem_of_mem_take hp)
  rw [Dict.get?_eq_some.mpr hmem] at hnew
  cases hnew

theorem get?_shouldSkipDuplicate
    (hactive : dedupeActive cfg = true) (htimes : ∀ p ∈ seen.rows, p.2 ≤ now)
    (hfresh : (shouldSkipDuplicateMemoryWrite cfg key now seen).2 = false) :
    Dict.get? (shouldSkipDuplicateMemoryWrite cfg key now seen).1 key = some now := by
  have hlive := get?_live hactive hfresh
  simp only [shouldSkipDuplicateMemoryWrite, hactive, if_true]
  split
  · exact get?_evictOldest (by omega) hlive fun p hp => htimes p (List.mem_of_mem_filter hp)
  · exact Dict.get?_set ..

theorem shouldSkipDuplicate_of_get?
    (hactive : dedupeActive cfg = true) (h : Dict.get? seen key = some now) :
    (shouldSkipDuplicateMemoryWrite cfg key now seen).2 = true := by
  have hwindow : 0 ≤ dedupeWindow cfg := le_max_left ..
  exact shouldSkipDuplicate_iff.mpr ⟨hactive, now, h, by simpa using hwindow⟩

private theorem get?_evictLatest {own hash : String} {maxKeys fuel : ℕ} {d : Dict String String}
    (h : Dict.get? d own = some hash) :
    Dict.get? (evictLatest maxKeys own hash fuel d) own = some hash := by
  induction fuel generalizing d with
  | zero => exact h
  | succ fuel ih =>
    rw [evictLatest]
    split
    · split
      · exact h
      · rename_i oldest v _
        split
        · exact ih (Dict.get?_set ..)
        · rename_i hne
          exact ih (by rw [Dict.get?_erase_of_ne (Ne.symm hne), h])
      · rename_i oldest v second v' rest hrows
        refine ih ?_
        rw [Dict.get?_erase_of_ne, h]
        split
        · -- the second key differs from the first, which is the key of the write
          rename_i heq
          have hnodup := d.nodup
          rw [hrows] at hnodup
          rintro rfl
          simp [heq] at hnodup
        · rename_i hne
          exact Ne.symm hne
    · exact h

theorem get?_shouldSkipUnchanged (project file hash : String) (latest : Dict String String)
    (henabled : cfg.memoryWriteLatestHashDedupEnabled = true) :
    Dict.get? (shouldSkipUnchangedLatestHash cfg project file hash latest).1
      (fileKey project file) = some hash := by
  simp only [shouldSkipUnchangedLatestHash, henabled, if_true]
  exact get?_evictLatest (Dict.get?_set ..)

theorem checkWrite_eq_fresh (hfresh : (checkWrite cfg now w maps).2 = .fresh) :
    (testUnchanged cfg w maps.latest).2 = false ∧ (testDuplicate cfg now w maps.seen).2 = false ∧
      (checkWrite cfg now w maps).1 =
        ⟨(testDuplicate cfg now w maps.seen).1, (testUnchanged cfg w maps.latest).1⟩ := by
  unfold checkWrite at hfresh ⊢
  cases hhash : (testUnchanged cfg w maps.latest).2 with
  | true => simp [hhash] at hfresh
  | false =>
    cases hdup : (testDuplicate cfg now w maps.seen).2 with
    | true => simp [hhash, hdup] at hfresh
    | false => simp

theorem checkWrite_of_off (hdup : dedupeActive cfg = false)
    (hhash : w.hot = true → cfg.memoryWriteLatestHashDedupEnabled = false) :
    checkWrite cfg now w maps = (maps, .fresh) := by
  have hunchanged : testUnchanged cfg w maps.latest = (maps.latest, false) := by
    cases hhot : w.hot with
    | false => simp [testUnchanged, hhot]
    | true => simp [testUnchanged, hhot, shouldSkipUnchangedLatestHash, hhash hhot]
  simp [checkWrite, hunchanged, testDuplicate, shouldSkipDuplicateMemoryWrite, hdup]

theorem checkWrite_maps_eq_iff (htimes : ∀ p ∈ maps.seen.rows, p.2 ≤ now)
    (hfresh : (checkWrite cfg now w maps).2 = .fresh) :
    (checkWrite cfg now w maps).1 = maps ↔
      dedupeActive cfg = false ∧
        (w.hot = true → cfg.memoryWriteLatestHashDedupEnabled = false) := by
  refine ⟨fun heq => ?_, fun h => by rw [checkWrite_of_off h.1 h.2]⟩
  obtain ⟨hhash, hdup, hmaps⟩ := checkWrite_eq_fresh hfresh
  rw [hmaps] at heq
  have hseen : (testDuplicate cfg now w maps.seen).1 = maps.seen := congrArg WriteMaps.seen heq
  have hlatest : (testUnchanged cfg w maps.latest).1 = maps.latest :=
    congrArg WriteMaps.latest heq
  constructor
  · -- the time of the write would already have been there, and the write a duplicate
    by_contra hactive
    rw [Bool.not_eq_false] at hactive
    have hget := get?_shouldSkipDuplicate hactive htimes hdup
    rw [testDuplicate] at hseen hdup
    rw [hseen] at hget
    rw [shouldSkipDuplicate_of_get? hactive hget] at hdup
    cases hdup
  · -- the hash of the write would already have been there, and the write unchanged
    intro hhot
    by_contra henabled
    rw [Bool.not_eq_false] at henabled
    have hget := get?_shouldSkipUnchanged w.project w.file w.contentHash maps.latest henabled
    rw [testUnchanged, if_pos hhot] at hhash hlatest
    rw [hlatest] at hget
    simp [shouldSkipUnchangedLatestHash, henabled, hget] at hhash

end ContextLattice
