import ContextLattice.Foundation.Search
import ContextLattice.Outbox.System
import ContextLattice.Write.Request

/-!
# Pruning the rows of Letta

`prune_letta_low_value_outbox` judges outstanding rows of Letta first and deletes them **by id**
afterwards, in one transaction or in batches.
-/

namespace ContextLattice

open Foundation List

variable {π : Type*}

/-! ### What is excluded or of low value -/

structure PruneConfig (π : Type*) extends OutboxConfig where
  lib : WriteLib
  lowValueFileSuffixes : List String
  lowValueTopicPrefixes : List String
  lettaExcludedFilePatterns : List String
  lettaExcludedTopicPrefixes : List String
  lettaAdmissionLowValueMinSummaryChars : ℤ
  members : π → List (String × Json)

variable (cfg : PruneConfig π)

def strippedText (py : Python) (value : Option Json) : String :=
  match value with
  | some v => if v.truthy then strip (py.str v) else ""
  | none => ""

def extractSourceKindFromOutboxPayload (payload : FanoutEvent π) : String :=
  let members := cfg.members payload.rest
  let nested := match Json.member members "letta_context" with
    | some (.obj context) => strippedText cfg.lib.py (Json.member context "source_kind")
    | _ => ""
  if nested ≠ "" then nested else strippedText cfg.lib.py (Json.member members "source_kind")

def underTopic (py : Python) (topics : List String) (topicPath : String) : Bool :=
  let normalized := stripList (· = '/') (py.stripLower topicPath).toList
  decide (normalized ≠ []) && topics.any fun topic =>
    decide (normalized = topic.toList) || (topic.toList ++ ['/']).isPrefixOf normalized

def looksLowValueTopicPath (topicPath : String) : Bool :=
  underTopic cfg.lib.py cfg.lowValueTopicPrefixes topicPath

def looksLettaExcludedTopicPath (topicPath : String) : Bool :=
  underTopic cfg.lib.py cfg.lettaExcludedTopicPrefixes topicPath

def looksLowValueFile (fileName : String) : Bool :=
  let lowered := cfg.lib.py.stripLower fileName
  decide (lowered ≠ "") && (isIn "/_rollups/" lowered ||
    cfg.lowValueFileSuffixes.any fun suffix => suffix.toList.isSuffixOf lowered.toList)

def isLettaExcludedMemoryRecord (fileName topicPath : String) : Option String :=
  if matchesAnyGlob cfg.lib fileName cfg.lettaExcludedFilePatterns then
    some "excluded_file_pattern"
  else if looksLettaExcludedTopicPath cfg topicPath then some "excluded_topic_prefix"
  else none

def isLowValueMemoryRecord (fileName topicPath summary sourceKind : String)
    (includeShortSummary : Bool) : Bool :=
  decide (cfg.lib.py.stripLower sourceKind = "high_frequency_rollup") ||
    looksLowValueFile cfg fileName || looksLowValueTopicPath cfg topicPath ||
    (includeShortSummary &&
      let summaryLen : ℤ := (strip summary).toList.length
      let loweredFile := (cfg.lib.py.stripLower fileName).toList
      (".json".toList.isSuffixOf loweredFile || ".log".toList.isSuffixOf loweredFile) &&
        decide (0 < summaryLen ∧ summaryLen ≤ max 1 cfg.lettaAdmissionLowValueMinSummaryChars))

def rowExcluded (r : OutboxRow π) : Bool :=
  (isLettaExcludedMemoryRecord cfg r.file r.topicPath).isSome

def rowLowValue (r : OutboxRow π) : Bool :=
  isLowValueMemoryRecord cfg r.file r.topicPath r.summary
    (extractSourceKindFromOutboxPayload cfg r.payload) true

def rowMatched (r : OutboxRow π) : Bool := rowExcluded cfg r || rowLowValue cfg r

def prunable (statuses : List JobStatus) (r : OutboxRow π) : Bool :=
  decide (r.target = .letta ∧ r.status ∈ statuses) && rowMatched cfg r

/-! ### The scan -/

structure PruneScan where
  scanned : ℕ := 0
  matched : ℕ := 0
  matchedExcluded : ℕ := 0
  matchedLowValue : ℕ := 0
  deleteIds : List ℕ := []

def PruneScan.take (scan : PruneScan) (dryRun : Bool) (r : OutboxRow π) : PruneScan where
  scanned := scan.scanned + 1
  matched := scan.matched + 1
  matchedExcluded := scan.matchedExcluded + if rowExcluded cfg r then 1 else 0
  matchedLowValue := scan.matchedLowValue + if rowLowValue cfg r then 1 else 0
  deleteIds := if dryRun then scan.deleteIds else scan.deleteIds ++ [r.id]

def pruneScan (limit : ℕ) (dryRun : Bool) : List (OutboxRow π) → PruneScan → PruneScan
  | [], scan => scan
  | r :: rows, scan =>
    if rowMatched cfg r then
      if limit ≤ scan.matched + 1 then scan.take cfg dryRun r
      else pruneScan limit dryRun rows (scan.take cfg dryRun r)
    else pruneScan limit dryRun rows { scan with scanned := scan.scanned + 1 }

def pruneRows (statuses : List JobStatus) (ob : Outbox π) : List (OutboxRow π) :=
  (ob.rows.filter fun r => decide (r.target = .letta ∧ r.status ∈ statuses)).insertionSort
    fun a b => newestFirst cfg.toOutboxConfig b a

def pruneLimit (limit : ℤ) : ℕ := (max 1 (min limit 250000)).toNat

variable {cfg}

theorem deleteIds_pruneScan (limit : ℕ) (rows : List (OutboxRow π)) (scan : PruneScan)
    (hlimit : scan.matched < limit) :
    (pruneScan cfg limit false rows scan).deleteIds = scan.deleteIds ++
      ((rows.filter (rowMatched cfg)).take (limit - scan.matched)).map fun r => r.id := by
  induction rows generalizing scan with
  | nil => simp [pruneScan]
  | cons r rows ih =>
    rw [pruneScan]
    split
    · rename_i hmatched
      rw [filter_cons_of_pos hmatched]
      split
      · rename_i hlast
        have hone : limit - scan.matched = 1 := by omega
        simp [hone, PruneScan.take]
      · rename_i hmore
        have hnext : limit - scan.matched = limit - (scan.matched + 1) + 1 := by omega
        have hlt : (scan.take cfg false r).matched < limit := not_le.mp hmore
        rw [ih _ hlt, hnext, take_succ_cons]
        simp [PruneScan.take]
    · rename_i hmatched
      rw [filter_cons_of_neg hmatched]
      exact ih _ hlimit

theorem deleteIds_pruneScan_dry (limit : ℕ) (rows : List (OutboxRow π)) (scan : PruneScan) :
    (pruneScan cfg limit true rows scan).deleteIds = scan.deleteIds := by
  induction rows generalizing scan with
  | nil => rfl
  | cons r rows ih =>
    rw [pruneScan]
    split
    · split
      · rfl
      · rw [ih]
        rfl
    · rw [ih]

theorem deleteIds_eq_pruneIds (statuses : List JobStatus) (limit : ℤ) (ob : Outbox π) :
    (pruneScan cfg (pruneLimit limit) false (pruneRows cfg (pruneStatuses statuses) ob)
      {}).deleteIds = pruneIds cfg.toOutboxConfig statuses limit (rowMatched cfg) ob := by
  have hpos : 0 < pruneLimit limit := by
    unfold pruneLimit
    omega
  rw [deleteIds_pruneScan _ _ _ hpos]
  rfl

/-! ### The prune among the other writers -/

structure PruneState (π : Type*) where
  sys : OutboxState π
  statuses : List JobStatus := []
  limit : ℕ := 0
  ids : List ℕ := []
  removed : List (OutboxRow π) := []

inductive PruneOp (π : Type*) where
  | step (op : OutboxOp π)
  | select (statuses : List JobStatus) (limit : ℤ) (dryRun : Bool)
  | delete (n : ℕ)

def PruneState.empty : PruneState π := { sys := .empty }

variable (cfg : PruneConfig π)

def pruneStep (s : PruneState π) : PruneOp π → PruneState π
  | .step op => { s with sys := outboxStep cfg.toOutboxConfig s.sys op }
  | .select statuses limit dryRun =>
    let statuses := pruneStatuses statuses
    { sys := s.sys
      statuses := statuses
      limit := pruneLimit limit
      ids := (pruneScan cfg (pruneLimit limit) dryRun (pruneRows cfg statuses s.sys.outbox)
        {}).deleteIds }
  | .delete n =>
    -- by id alone
    let batch := s.ids.take n
    { s with
      sys := s.sys.delete fun r => decide (r.id ∈ batch)
      ids := s.ids.drop n
      removed := s.removed ++ s.sys.outbox.rows.filter fun r => decide (r.id ∈ batch) }

/-- Every row deleted was, then, one of Letta in a requested status that is excluded or of low
value. -/
def PrunedJudged (s : PruneState π) : Prop := ∀ r ∈ s.removed, prunable cfg s.statuses r = true

def DeletesJudged (s : PruneState π) : PruneOp π → Prop
  | .delete n => ∀ r ∈ s.sys.outbox.rows, r.id ∈ s.ids.take n → prunable cfg s.statuses r = true
  | _ => True

/-- Another writer leaves the rows that wait for their deletion as the selection judged them. -/
def LeavesJudged (s : PruneState π) : PruneOp π → Prop
  | .step op => ∀ r ∈ (outboxStep cfg.toOutboxConfig s.sys op).outbox.rows, r.id ∈ s.ids →
    prunable cfg s.statuses r = true
  | _ => True

variable {cfg} {s : PruneState π}

theorem prunedJudged_step_iff (hs : PrunedJudged cfg s) (op : PruneOp π) :
    PrunedJudged cfg (pruneStep cfg s op) ↔ DeletesJudged cfg s op := by
  cases op with
  | step op => exact iff_of_true hs trivial
  | select statuses limit dryRun => exact iff_of_true (fun r hr => by cases hr) trivial
  | delete n =>
    constructor
    · intro h r hr hid
      exact h r (mem_append_right _ (mem_filter.mpr ⟨hr, by simpa using hid⟩))
    · intro h r hr
      rcases mem_append.mp hr with hold | hnew
      · exact hs r hold
      · obtain ⟨hrow, hid⟩ := mem_filter.mp hnew
        exact h r hrow (by simpa using hid)

structure StillJudged (cfg : PruneConfig π) (s : PruneState π) : Prop where
  waiting : ∀ r ∈ s.sys.outbox.rows, r.id ∈ s.ids → prunable cfg s.statuses r = true
  removed : PrunedJudged cfg s

theorem prunable_of_mem_deleteIds {statuses : List JobStatus} {limit : ℤ} {dryRun : Bool}
    {ob : Outbox π} {r : OutboxRow π} (hr : r ∈ ob.rows)
    (hid : r.id ∈ (pruneScan cfg (pruneLimit limit) dryRun
      (pruneRows cfg (pruneStatuses statuses) ob) {}).deleteIds) :
    prunable cfg (pruneStatuses statuses) r = true := by
  cases dryRun with
  | true =>
    rw [deleteIds_pruneScan_dry] at hid
    cases hid
  | false =>
    rw [deleteIds_eq_pruneIds] at hid
    obtain ⟨r₀, hr₀, hid⟩ := mem_map.mp hid
    obtain ⟨hsorted, hmatched⟩ := mem_filter.mp (mem_of_mem_take hr₀)
    obtain ⟨hrow, hselected⟩ := mem_filter.mp ((mem_insertionSort _).mp hsorted)
    obtain rfl : r₀ = r := Table.eq_of_mem_of_key hrow hr hid
    rw [prunable, Bool.and_eq_true]
    exact ⟨hselected, hmatched⟩

theorem StillJudged.step (hs : StillJudged cfg s) {op : PruneOp π} (hop : LeavesJudged cfg s op) :
    StillJudged cfg (pruneStep cfg s op) := by
  cases op with
  | step op => exact ⟨hop, hs.removed⟩
  | select statuses limit dryRun =>
    exact ⟨fun r hr hid => prunable_of_mem_deleteIds hr hid, fun r hr => by cases hr⟩
  | delete n =>
    constructor
    · intro r hr hid
      exact hs.waiting r (Outbox.mem_deleteWhere.mp hr).1 (mem_of_mem_drop hid)
    · refine (prunedJudged_step_iff hs.removed (.delete n)).mpr fun r hr hid => ?_
      exact hs.waiting r hr (mem_of_mem_take hid)

theorem stillJudged_step_iff (hs : StillJudged cfg s) (op : PruneOp π) :
    StillJudged cfg (pruneStep cfg s op) ↔ LeavesJudged cfg s op := by
  refine ⟨fun h => ?_, hs.step⟩
  cases op with
  | step op => exact h.waiting
  | select | delete => trivial

/-- A state in which the deletion may come at once. -/
theorem stillJudged_iff :
    StillJudged cfg s ↔ ∀ n, PrunedJudged cfg (pruneStep cfg s (.delete n)) := by
  refine ⟨fun hs n => ((stillJudged_step_iff hs (.delete n)).mpr trivial).removed, fun h => ?_⟩
  refine ⟨fun r hr hid => h s.ids.length r (mem_append_right _ (mem_filter.mpr ⟨hr, ?_⟩)),
    fun r hr => h 0 r (mem_append_left _ hr)⟩
  simpa using hid

theorem Outbox.length_filter_ids_le (ob : Outbox π) (ids : List ℕ) :
    (ob.rows.filter fun r => decide (r.id ∈ ids)).length ≤ ids.length := by
  have hnodup : ((ob.rows.filter fun r => decide (r.id ∈ ids)).map fun r => r.id).Nodup :=
    ob.table.nodup.sublist (filter_sublist.map _)
  have hsubset : ((ob.rows.filter fun r => decide (r.id ∈ ids)).map fun r => r.id) ⊆ ids := by
    intro i hi
    obtain ⟨r, hr, rfl⟩ := mem_map.mp hi
    exact of_decide_eq_true (mem_filter.mp hr).2
  simpa using (hnodup.subperm hsubset).length_le

def WithinLimit (s : PruneState π) : Prop := s.removed.length + s.ids.length ≤ s.limit

theorem WithinLimit.step (hs : WithinLimit s) (op : PruneOp π) :
    WithinLimit (pruneStep cfg s op) := by
  cases op with
  | step op => exact hs
  | select statuses limit dryRun =>
    simp only [WithinLimit, pruneStep, length_nil, Nat.zero_add]
    cases dryRun with
    | true =>
      rw [deleteIds_pruneScan_dry]
      exact Nat.zero_le _
    | false =>
      rw [deleteIds_eq_pruneIds, pruneIds, length_map]
      exact length_take_le ..
  | delete n =>
    have hbatch := s.sys.outbox.length_filter_ids_le (s.ids.take n)
    have hlimit : s.removed.length + s.ids.length ≤ s.limit := hs
    simp only [WithinLimit, pruneStep, length_append, length_drop]
    rw [length_take] at hbatch
    omega

/-- **Pruning** may come to its deletion at any point of a run and deletes only rows that are
excluded or of low value then, exactly if the other writers leave the rows it has selected so; for
the deletions of the run itself it is enough that the rows are so at each of them. It deletes no
more than its limit. -/
theorem prune_judged_iff (cfg : PruneConfig π) (ops : List (PruneOp π)) :
    ((∀ pre post, ops = pre ++ post → ∀ n,
        PrunedJudged cfg (run (pruneStep cfg) .empty (pre ++ [.delete n]))) ↔
      Along (pruneStep cfg) (LeavesJudged cfg) .empty ops) ∧
    ((∀ pre post, ops = pre ++ post → PrunedJudged cfg (run (pruneStep cfg) .empty pre)) ↔
      Along (pruneStep cfg) (DeletesJudged cfg) .empty ops) ∧
    (Along (pruneStep cfg) (LeavesJudged cfg) .empty ops →
      PrunedJudged cfg (run (pruneStep cfg) .empty ops)) ∧
    (run (pruneStep cfg) .empty ops).removed.length ≤ (run (pruneStep cfg) .empty ops).limit := by
  have hiff : ∀ (s : PruneState π) op, PrunedJudged cfg s →
      (PrunedJudged cfg (pruneStep cfg s op) ↔ DeletesJudged cfg s op) :=
    fun s op hs => prunedJudged_step_iff hs op
  have hnone : PrunedJudged cfg (.empty : PruneState π) := fun r hr => by cases hr
  have hempty : StillJudged cfg (.empty : PruneState π) := ⟨(fun r hr => by cases hr), hnone⟩
  have hstill : (∀ pre post, ops = pre ++ post → StillJudged cfg (run (pruneStep cfg) .empty pre)) ↔
      Along (pruneStep cfg) (LeavesJudged cfg) .empty ops :=
    forall_run_iff_along_of_step (P := StillJudged cfg) (fun _ op hs => stillJudged_step_iff hs op)
      hempty
  have hlimit : ∀ (s : PruneState π) op, WithinLimit s → WithinLimit (pruneStep cfg s op) :=
    fun s op hs => hs.step op
  refine ⟨?_, forall_run_iff_along_of_step hiff hnone, fun h => ?_, ?_⟩
  · rw [← hstill]
    simp only [stillJudged_iff, run_append, run_cons, run_nil]
  · exact (hstill.mpr h ops [] (append_nil ops).symm).removed
  · have hwithin : WithinLimit (run (pruneStep cfg) .empty ops) :=
      run_invariant hlimit (le_refl 0) ops
    exact (Nat.le_add_right _ _).trans hwithin

/-! ### Rows that moved on -/

def PruneConfig.default : PruneConfig Unit where
  toOutboxConfig := .default
  lib := ⟨.ascii, id, fun _ _ => false, id, fun _ => false, id⟩
  lowValueFileSuffixes := ["__latest.json", "__rollup.json"]
  lowValueTopicPrefixes := ["telemetry", "metrics", "signals", "overrides", "perf", "tmp"]
  lettaExcludedFilePatterns := ["index__*.json", "*_agg-latest.json", "*__agg-*.json",
    "telemetry__*.json", "*__state__*.json", "*__stats__*.json", "*__snapshots__*.json",
    "*__health__*.json", "*__allocations__*.json"]
  lettaExcludedTopicPrefixes := ["telemetry", "metrics", "signals", "overrides", "perf", "tmp"]
  lettaAdmissionLowValueMinSummaryChars := 96
  members := fun _ => []

def topicEvent (eventId topicPath : String) : FanoutEvent Unit :=
  ⟨eventId, "app", "a.md", "the decision and its reasons", topicPath, [], ()⟩

def prunedAfterCoalescing : List (PruneOp Unit) :=
  [.step (.enqueue (.frozen "10:00:00Z") false "" (topicEvent "e1" "tmp") .letta),
    .select [.pending] 100 false,
    .step (.enqueue (.frozen "10:00:01Z") false "" (topicEvent "e2" "design") .letta),
    .delete 1]

def prunedWhileRunning : List (PruneOp Unit) :=
  [.step (.enqueue (.frozen "10:00:00Z") false "" (topicEvent "e1" "tmp") .letta),
    .select [.pending] 100 false,
    .step (.claim (.frozen "10:00:01Z") 0 24 none none),
    .delete 1]

/-- **Pruned by id**: a coalesced payload that is worth keeping is deleted, and so is a row a worker
holds. -/
theorem prunes_valuable_payload :
    let s := run (pruneStep .default) .empty prunedAfterCoalescing
    let t := run (pruneStep .default) .empty prunedWhileRunning
    (s.sys.outbox.rows = [] ∧
      s.removed.map (fun r => (r.payload.eventId, rowMatched .default r)) = [("e2", false)]) ∧
    (t.sys.outbox.rows = [] ∧ t.statuses = [.pending] ∧
      t.removed.map (fun r => r.status) = [.running]) := by
  decide +kernel

end ContextLattice
