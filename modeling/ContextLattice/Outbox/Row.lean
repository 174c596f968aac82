import Mathlib.Data.List.Sort
import ContextLattice.Basic
import ContextLattice.Foundation.Python

/-!
# The fanout outbox: rows and enqueueing

For each target `enqueue_fanout_outbox` *coalesces* an event into a waiting row of the same file,
which keeps its event id; or finds the *existing* row of the event, reset if the call forces a
requeue; or *inserts* a row. The row ids matter only as the last sort key (`OutboxConfig.rank`).
-/

namespace ContextLattice

open Foundation List

/-! ### Rows -/

inductive FanoutTarget where
  | mongoRaw | qdrant | langfuse | mindsdb | letta
deriving DecidableEq, Repr

def FanoutTarget.name : FanoutTarget → String
  | mongoRaw => "mongo_raw"
  | qdrant => "qdrant"
  | langfuse => "langfuse"
  | mindsdb => "mindsdb"
  | letta => "letta"

inductive JobStatus where
  | pending | retrying | running | succeeded | failed
deriving DecidableEq, Repr

namespace JobStatus

def waiting : JobStatus → Bool
  | pending | retrying => true
  | _ => false

def outstanding : JobStatus → Bool
  | pending | retrying | running => true
  | _ => false

theorem outstanding_of_waiting {s : JobStatus} (h : s.waiting = true) : s.outstanding = true := by
  cases s <;> first | rfl | cases h

end JobStatus

structure FanoutEvent (π : Type*) where
  eventId : String
  project : String
  file : String
  summary : String
  topicPath : String
  topicTags : List String
  rest : π
deriving DecidableEq

structure RowIdent where
  id : ℕ
  eventId : String
  target : FanoutTarget
  project : String
  file : String
  createdAt : Stamp
deriving DecidableEq

def dedupeKeyOf (eventId : String) (target : FanoutTarget) : String :=
  eventId ++ ":" ++ target.name

def RowIdent.dedupeKey (r : RowIdent) : String := dedupeKeyOf r.eventId r.target

structure OutboxRow (π : Type*) extends RowIdent where
  summary : String
  payload : FanoutEvent π
  topicPath : String
  topicTags : List String
  status : JobStatus
  attempts : ℕ
  maxAttempts : ℕ
  nextAttemptAt : Stamp
  lastAttemptAt : Option Stamp
  completedAt : Option Stamp
  lastError : Option String
  updatedAt : Stamp
deriving DecidableEq

theorem FanoutTarget.colon_notMem_name (t : FanoutTarget) : ':' ∉ t.name.toList := by
  cases t <;> decide

theorem FanoutTarget.name_injective : Function.Injective FanoutTarget.name := by
  intro t t' h
  cases t <;> cases t' <;> first | rfl | exact absurd h (by decide)

theorem dedupeKeyOf_inj {e e' : String} {t t' : FanoutTarget} :
    dedupeKeyOf e t = dedupeKeyOf e' t' ↔ e = e' ∧ t = t' := by
  refine ⟨fun h => ?_, fun ⟨he, ht⟩ => he ▸ ht ▸ rfl⟩
  have hlist : e.toList ++ ':' :: t.name.toList = e'.toList ++ ':' :: t'.name.toList := by
    simpa [dedupeKeyOf] using congrArg String.toList h
  obtain ⟨he, ht⟩ := append_cons_inj hlist t.colon_notMem_name t'.colon_notMem_name
  exact ⟨String.toList_inj.mp he, FanoutTarget.name_injective (String.toList_inj.mp ht)⟩

/-! ### The table -/

variable {π : Type*}

structure Outbox (π : Type*) where
  table : Table (fun r : OutboxRow π => r.id)
  nextId : ℕ
  id_lt : ∀ r ∈ table.rows, r.id < nextId
  unique : (table.rows.map fun r => r.dedupeKey).Nodup

namespace Outbox

abbrev rows (ob : Outbox π) : List (OutboxRow π) := ob.table.rows

def empty : Outbox π := ⟨.empty, 1, by simp, by simp⟩

@[simp] theorem rows_empty : (empty : Outbox π).rows = [] := rfl

def updateWhere (ob : Outbox π) (p : OutboxRow π → Bool) (f : OutboxRow π → OutboxRow π)
    (hf : ∀ r, (f r).toRowIdent = r.toRowIdent) : Outbox π where
  table := ob.table.updateWhere p f fun r => congrArg RowIdent.id (hf r)
  nextId := ob.nextId
  id_lt := by
    intro r hr
    obtain ⟨r₀, hr₀, rfl⟩ := mem_map.mp hr
    split
    · rw [congrArg RowIdent.id (hf r₀)]
      exact ob.id_lt r₀ hr₀
    · exact ob.id_lt r₀ hr₀
  unique := by
    have hkeys : ∀ r, (if p r then f r else r).dedupeKey = r.dedupeKey := by
      intro r
      split
      · exact congrArg RowIdent.dedupeKey (hf r)
      · rfl
    simpa [Function.comp_def, hkeys] using ob.unique

def update (ob : Outbox π) (i : ℕ) (f : OutboxRow π → OutboxRow π)
    (hf : ∀ r, (f r).toRowIdent = r.toRowIdent) : Outbox π :=
  ob.updateWhere (fun r => decide (r.id = i)) f hf

def deleteWhere (ob : Outbox π) (p : OutboxRow π → Bool) : Outbox π where
  table := ob.table.deleteWhere p
  nextId := ob.nextId
  id_lt := fun r hr => ob.id_lt r (mem_of_mem_filter hr)
  unique := ob.unique.sublist (filter_sublist.map _)

def findKey? (ob : Outbox π) (key : String) : Option (OutboxRow π) :=
  ob.rows.find? fun r => decide (r.dedupeKey = key)

def find? (ob : Outbox π) (i : ℕ) : Option (OutboxRow π) := ob.table.find? i

private def append (ob : Outbox π) (row : OutboxRow π) (hid : row.id = ob.nextId)
    (hkey : ob.findKey? row.dedupeKey = none) : Outbox π where
  table := ob.table.insert row (Table.find?_eq_none.mpr fun r hr h =>
    (ob.id_lt r hr).ne (h.trans hid))
  nextId := ob.nextId + 1
  id_lt := by
    intro r hr
    rw [Table.rows_insert, mem_append, mem_singleton] at hr
    rcases hr with hr | rfl
    · exact (ob.id_lt r hr).trans (Nat.lt_succ_self _)
    · rw [hid]
      exact Nat.lt_succ_self _
  unique := by
    rw [findKey?, List.find?_eq_none] at hkey
    rw [Table.rows_insert, map_append, nodup_append]
    refine ⟨ob.unique, by simp, fun a ha b hb => ?_⟩
    obtain ⟨r, hr, rfl⟩ := mem_map.mp ha
    obtain rfl : b = row.dedupeKey := by simpa using hb
    simpa using hkey r hr

def insert (ob : Outbox π) (row : OutboxRow π) (hid : row.id = ob.nextId) : Outbox π :=
  if hkey : ob.findKey? row.dedupeKey = none then ob.append row hid hkey else ob

variable {p : OutboxRow π → Bool} {f : OutboxRow π → OutboxRow π} {r : OutboxRow π}

theorem mem_updateWhere {ob : Outbox π} {hf} :
    r ∈ (ob.updateWhere p f hf).rows ↔ ∃ r₀ ∈ ob.rows, r = if p r₀ then f r₀ else r₀ := by
  refine mem_map.trans ⟨?_, ?_⟩
  · rintro ⟨r₀, hr₀, h⟩
    exact ⟨r₀, hr₀, h.symm⟩
  · rintro ⟨r₀, hr₀, h⟩
    exact ⟨r₀, hr₀, h.symm⟩

theorem mem_update {ob : Outbox π} {hf} (hr : r ∈ ob.rows) : f r ∈ (ob.update r.id f hf).rows :=
  mem_updateWhere.mpr ⟨r, hr, by simp⟩

theorem rows_insert {ob : Outbox π} {row : OutboxRow π} {hid : row.id = ob.nextId}
    (hkey : ob.findKey? row.dedupeKey = none) : (ob.insert row hid).rows = ob.rows ++ [row] := by
  simp [insert, hkey, append, rows]

theorem mem_insert {ob : Outbox π} {row : OutboxRow π} {hid : row.id = ob.nextId}
    (hkey : ob.findKey? row.dedupeKey = none) :
    r ∈ (ob.insert row hid).rows ↔ r ∈ ob.rows ∨ r = row := by
  rw [rows_insert hkey, mem_append, mem_singleton]

theorem mem_insert_self (ob : Outbox π) (row : OutboxRow π) (hid : row.id = ob.nextId)
    (hkey : ob.findKey? row.dedupeKey = none) : row ∈ (ob.insert row hid).rows :=
  (mem_insert hkey).mpr (.inr rfl)

theorem mem_insert_of_mem {ob : Outbox π} {row : OutboxRow π} {hid : row.id = ob.nextId}
    (hr : r ∈ ob.rows) : r ∈ (ob.insert row hid).rows := by
  by_cases hkey : ob.findKey? row.dedupeKey = none
  · exact (mem_insert hkey).mpr (.inl hr)
  · rw [insert, dif_neg hkey]
    exact hr

theorem mem_or_eq_of_mem_insert {ob : Outbox π} {row : OutboxRow π} {hid : row.id = ob.nextId}
    (hr : r ∈ (ob.insert row hid).rows) : r ∈ ob.rows ∨ r = row := by
  by_cases hkey : ob.findKey? row.dedupeKey = none
  · exact (mem_insert hkey).mp hr
  · rw [insert, dif_neg hkey] at hr
    exact .inl hr

theorem nextId_le_insert (ob : Outbox π) (row : OutboxRow π) (hid : row.id = ob.nextId) :
    ob.nextId ≤ (ob.insert row hid).nextId := by
  unfold insert
  split
  · exact Nat.le_succ _
  · exact le_rfl

theorem mem_deleteWhere {ob : Outbox π} :
    r ∈ (ob.deleteWhere p).rows ↔ r ∈ ob.rows ∧ p r = false := by
  simp [deleteWhere, rows]

theorem findKey?_eq_some {ob : Outbox π} {key : String} (h : ob.findKey? key = some r) :
    r ∈ ob.rows ∧ r.dedupeKey = key :=
  ⟨mem_of_find?_eq_some h, by simpa using List.find?_some h⟩

end Outbox

/-! ### Enqueueing -/

structure OutboxConfig where
  fanoutCoalesceEnabled : Bool
  fanoutCoalesceWindowSecs : ℚ
  fanoutCoalesceTargets : List FanoutTarget
  fanoutCoalesceStaleTargets : List FanoutTarget
  fanoutMaxAttempts : ℕ
  fanoutRetryBaseSecs : ℚ
  fanoutRetryMaxSecs : ℚ
  rank : ℕ → ℕ

def OutboxConfig.default : OutboxConfig where
  fanoutCoalesceEnabled := true
  fanoutCoalesceWindowSecs := 6
  fanoutCoalesceTargets := [.qdrant, .mindsdb, .letta, .langfuse]
  fanoutCoalesceStaleTargets := [.letta]
  fanoutMaxAttempts := 40
  fanoutRetryBaseSecs := 2
  fanoutRetryMaxSecs := 900
  rank := id

variable (cfg : OutboxConfig) (clk : Clock)

def fanoutCoalescerActiveForTarget (target : FanoutTarget) : Bool :=
  cfg.fanoutCoalesceEnabled && decide (target ∈ cfg.fanoutCoalesceTargets) &&
    decide (0 < max 0 cfg.fanoutCoalesceWindowSecs)

def fanoutCoalescerIgnoresWindowForTarget (target : FanoutTarget) : Bool :=
  cfg.fanoutCoalesceEnabled && decide (target ∈ cfg.fanoutCoalesceStaleTargets)

def effectiveEventId (drawn : String) (event : FanoutEvent π) : String :=
  if event.eventId = "" then drawn else event.eventId

def coalescible (event : FanoutEvent π) (target : FanoutTarget) (r : OutboxRow π) : Bool :=
  decide (r.target = target ∧ r.project = event.project ∧ r.file = event.file) &&
    r.status.waiting &&
    (fanoutCoalescerIgnoresWindowForTarget cfg target ||
      decide (clk.ago (max 0 cfg.fanoutCoalesceWindowSecs) ≤ r.updatedAt))

def newestFirst (a b : OutboxRow π) : Prop :=
  b.updatedAt < a.updatedAt ∨ b.updatedAt = a.updatedAt ∧ cfg.rank b.id ≤ cfg.rank a.id

instance : DecidableRel (@newestFirst π cfg) := fun _ _ => inferInstanceAs (Decidable (_ ∨ _))

def coalesceCandidate (force : Bool) (event : FanoutEvent π) (target : FanoutTarget)
    (ob : Outbox π) : Option (OutboxRow π) :=
  if !force && decide (event.project ≠ "") && decide (event.file ≠ "") &&
      fanoutCoalescerActiveForTarget cfg target then
    ((ob.rows.filter (coalescible cfg clk event target)).insertionSort (newestFirst cfg)).head?
  else none

def coalesceWrite (event : FanoutEvent π) (r : OutboxRow π) : OutboxRow π :=
  { r with
    payload := event
    summary := event.summary
    topicPath := event.topicPath
    topicTags := event.topicTags
    nextAttemptAt := clk.now
    updatedAt := clk.now }

def requeueJobWrite (event : FanoutEvent π) (r : OutboxRow π) : OutboxRow π :=
  { r with
    status := .pending
    attempts := 0
    nextAttemptAt := clk.now
    updatedAt := clk.now
    lastError := none
    completedAt := none
    payload := event
    summary := event.summary
    topicPath := event.topicPath
    topicTags := event.topicTags
    maxAttempts := cfg.fanoutMaxAttempts }

def newJob (id : ℕ) (eventId : String) (event : FanoutEvent π) (target : FanoutTarget) :
    OutboxRow π where
  id := id
  eventId := eventId
  target := target
  project := event.project
  file := event.file
  createdAt := clk.now
  summary := event.summary
  payload := event
  topicPath := event.topicPath
  topicTags := event.topicTags
  status := .pending
  attempts := 0
  maxAttempts := cfg.fanoutMaxAttempts
  nextAttemptAt := clk.now
  lastAttemptAt := none
  completedAt := none
  lastError := none
  updatedAt := clk.now

structure EnqueueResult where
  inserted : ℕ := 0
  requeued : ℕ := 0
  existing : ℕ := 0
  coalesced : ℕ := 0
  coalescedByTarget : Dict FanoutTarget ℕ := .empty

def enqueueTarget (force : Bool) (drawn : String) (event : FanoutEvent π) (target : FanoutTarget)
    (ob : Outbox π) : Outbox π :=
  let eventId := effectiveEventId drawn event
  match coalesceCandidate cfg clk force event target ob with
  | some row =>
    -- the row keeps the event id and the key it was inserted under
    ob.update row.id (coalesceWrite clk event) fun _ => rfl
  | none =>
    match ob.findKey? (dedupeKeyOf eventId target) with
    | some row =>
      -- without force the row is left as it is, whatever its status and payload are by now
      if force then ob.update row.id (requeueJobWrite cfg clk event) fun _ => rfl else ob
    | none => ob.insert (newJob cfg clk ob.nextId eventId event target) rfl

def countTarget (force : Bool) (drawn : String) (event : FanoutEvent π) (target : FanoutTarget)
    (ob : Outbox π) (n : EnqueueResult) : EnqueueResult :=
  match coalesceCandidate cfg clk force event target ob with
  | some _ =>
    { n with
      coalesced := n.coalesced + 1
      coalescedByTarget := n.coalescedByTarget.set target
        ((n.coalescedByTarget.get? target).getD 0 + 1) }
  | none =>
    match ob.findKey? (dedupeKeyOf (effectiveEventId drawn event) target) with
    | some _ =>
      { n with
        existing := n.existing + 1
        requeued := if force then n.requeued + 1 else n.requeued }
    | none => { n with inserted := n.inserted + 1 }

def enqueueFanoutOutbox (force : Bool) (drawn : String) (event : FanoutEvent π)
    (targets : List FanoutTarget) (ob : Outbox π) : Outbox π × EnqueueResult :=
  targets.foldl (fun (ob, n) target =>
    (enqueueTarget cfg clk force drawn event target ob,
      countTarget cfg clk force drawn event target ob n)) (ob, {})

/-! ### What a placement says about the table -/

variable {cfg : OutboxConfig} {clk : Clock} {force : Bool} {drawn eventId : String}
  {event : FanoutEvent π} {target : FanoutTarget} {ob : Outbox π} {row : OutboxRow π}

theorem coalesceCandidate_eq_some (h : coalesceCandidate cfg clk force event target ob = some row) :
    row ∈ ob.rows ∧ row.target = target ∧ row.project = event.project ∧ row.file = event.file ∧
      row.status.waiting = true ∧ force = false := by
  unfold coalesceCandidate at h
  split at h
  · rename_i hactive
    have hmem := (mem_insertionSort _).mp (mem_of_mem_head? h)
    rw [mem_filter] at hmem
    obtain ⟨hrow, hcond⟩ := hmem
    simp only [coalescible, Bool.and_eq_true, decide_eq_true_eq] at hcond
    simp only [Bool.and_eq_true, Bool.not_eq_true'] at hactive
    exact ⟨hrow, hcond.1.1.1, hcond.1.1.2.1, hcond.1.1.2.2, hcond.1.2, hactive.1.1.1⟩
  · cases h

inductive Placed (cfg : OutboxConfig) (clk : Clock) (force : Bool) (drawn : String)
    (event : FanoutEvent π) (target : FanoutTarget) (ob : Outbox π) : Outbox π → Prop
  | coalesced {row : OutboxRow π}
      (h : coalesceCandidate cfg clk force event target ob = some row) :
      Placed cfg clk force drawn event target ob
        (ob.update row.id (coalesceWrite clk event) fun _ => rfl)
  | requeued {row : OutboxRow π} (hforce : force = true)
      (h : ob.findKey? (dedupeKeyOf (effectiveEventId drawn event) target) = some row) :
      Placed cfg clk force drawn event target ob
        (ob.update row.id (requeueJobWrite cfg clk event) fun _ => rfl)
  | existing {row : OutboxRow π} (hforce : force = false)
      (hcandidate : coalesceCandidate cfg clk force event target ob = none)
      (h : ob.findKey? (dedupeKeyOf (effectiveEventId drawn event) target) = some row) :
      Placed cfg clk force drawn event target ob ob
  | inserted (hcandidate : coalesceCandidate cfg clk force event target ob = none)
      (h : ob.findKey? (dedupeKeyOf (effectiveEventId drawn event) target) = none) :
      Placed cfg clk force drawn event target ob
        (ob.insert (newJob cfg clk ob.nextId (effectiveEventId drawn event) event target) rfl)

theorem placed_enqueueTarget (cfg : OutboxConfig) (clk : Clock) (force : Bool) (drawn : String)
    (event : FanoutEvent π) (target : FanoutTarget) (ob : Outbox π) :
    Placed cfg clk force drawn event target ob
      (enqueueTarget cfg clk force drawn event target ob) := by
  -- the two lookups of the loop, in the order it makes them
  rcases hcandidate : coalesceCandidate cfg clk force event target ob with _ | row
  · rcases hkey : ob.findKey? (dedupeKeyOf (effectiveEventId drawn event) target) with _ | row
    · simp only [enqueueTarget, hcandidate, hkey]
      exact .inserted hcandidate hkey
    · simp only [enqueueTarget, hcandidate, hkey]
      split
      · exact .requeued ‹_› hkey
      · exact .existing (Bool.not_eq_true _ ▸ ‹_›) hcandidate hkey
  · simp only [enqueueTarget, hcandidate]
    exact .coalesced hcandidate

end ContextLattice
