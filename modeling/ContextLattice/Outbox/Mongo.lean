import Mathlib.Data.Prod.Lex
import ContextLattice.Foundation.Documents
import ContextLattice.Outbox.MongoEnqueue

/-!
# The outbox in Mongo

The second implementation of each call. An update counts the documents it **modified**, a claim is a
loop of `find_one_and_update`, and recovery makes two updates. The functions here are the calls run
alone.
-/

namespace ContextLattice

open Foundation

/-! ### The collection -/

structure OutboxDoc (ι π : Type*) where
  id : ι
  eventId : String
  target : FanoutTarget
  project : String
  file : String
  summary : String
  payload : FanoutEvent π
  topicPath : String
  topicTags : List String
  status : JobStatus
  attempts : ℕ
  maxAttempts : ℕ
  nextAttemptAt : Stamp
  lastAttemptAt : Option Stamp
  completedAt : Option Stamp
  lastError : Option String
  createdAt : Stamp
  updatedAt : Stamp
  dedupeKey : String
deriving DecidableEq

abbrev OutboxDocs (ι π : Type*) := Table (fun d : OutboxDoc ι π => d.id)

structure MongoOutbox (ι π : Type*) where
  docs : OutboxDocs ι π
  drawn : ℕ

def MongoOutbox.empty {ι π : Type*} : MongoOutbox ι π := ⟨.empty, 1⟩

section

variable {ι π : Type*} [LinearOrder ι] [DecidableEq π] (cfg : OutboxConfig) (clk : Clock)

/-! ### Enqueueing -/

def candidateQuery (event : FanoutEvent π) (target : FanoutTarget) (d : OutboxDoc ι π) : Bool :=
  decide (d.target = target ∧ d.project = event.project ∧ d.file = event.file) &&
    d.status.waiting &&
    (fanoutCoalescerIgnoresWindowForTarget cfg target ||
      decide (clk.ago (max 0 cfg.fanoutCoalesceWindowSecs) ≤ d.updatedAt))

def latestDocFirst (a b : OutboxDoc ι π) : Prop :=
  b.updatedAt < a.updatedAt ∨ b.updatedAt = a.updatedAt ∧ b.id ≤ a.id

instance : DecidableRel (@latestDocFirst ι π _) := fun _ _ => inferInstanceAs (Decidable (_ ∨ _))

def coalesceSet (event : FanoutEvent π) (d : OutboxDoc ι π) : OutboxDoc ι π :=
  { d with
    payload := event
    summary := event.summary
    topicPath := event.topicPath
    topicTags := event.topicTags
    nextAttemptAt := clk.now
    updatedAt := clk.now }

omit [LinearOrder ι] [DecidableEq π] in
@[simp] theorem id_coalesceSet (clk : Clock) (event : FanoutEvent π) (d : OutboxDoc ι π) :
    (coalesceSet clk event d).id = d.id := rfl

def requeueSet (event : FanoutEvent π) (d : OutboxDoc ι π) : OutboxDoc ι π :=
  { d with
    status := .pending
    attempts := 0
    nextAttemptAt := clk.now
    updatedAt := clk.now
    lastError := none
    completedAt := none
    payload := event
    summary := event.summary
    topicPath := event.topicPath
    topicTags := event.topicTags
    maxAttempts := cfg.fanoutMaxAttempts }

omit [LinearOrder ι] [DecidableEq π] in
@[simp] theorem id_requeueSet (cfg : OutboxConfig) (clk : Clock) (event : FanoutEvent π)
    (d : OutboxDoc ι π) : (requeueSet cfg clk event d).id = d.id := rfl

def newDoc (id : ι) (eventId : String) (event : FanoutEvent π) (target : FanoutTarget) :
    OutboxDoc ι π where
  id := id
  eventId := eventId
  target := target
  project := event.project
  file := event.file
  summary := event.summary
  payload := event
  topicPath := event.topicPath
  topicTags := event.topicTags
  status := .pending
  attempts := 0
  maxAttempts := cfg.fanoutMaxAttempts
  nextAttemptAt := clk.now
  lastAttemptAt := none
  completedAt := none
  lastError := none
  createdAt := clk.now
  updatedAt := clk.now
  dedupeKey := dedupeKeyOf eventId target

def findDocKey? (docs : OutboxDocs ι π) (key : String) : Option (OutboxDoc ι π) :=
  docs.rows.find? fun d => decide (d.dedupeKey = key)

def insertOne (docs : OutboxDocs ι π) (d : OutboxDoc ι π) : Option (OutboxDocs ι π) :=
  if h : docs.find? d.id = none then
    if findDocKey? docs d.dedupeKey = none then some (docs.insert d h) else none
  else none

def enqueueKeyMongo (newId : ℕ → ι) (force : Bool) (eventId : String) (event : FanoutEvent π)
    (target : FanoutTarget) (n : EnqueueResult) (m : MongoOutbox ι π) :
    MongoOutbox ι π × EnqueueResult :=
  match findDocKey? m.docs (dedupeKeyOf eventId target) with
  | some d =>
    if force then
      ({ m with docs := (m.docs.updateOne (fun _ => true) (requeueSet cfg clk event)
          (id_requeueSet cfg clk event) d.id).1 }, Settlement.requeued.count target n)
    else (m, Settlement.existing.count target n)
  | none =>
    match insertOne m.docs (newDoc cfg clk (newId m.drawn) eventId event target) with
    | some docs => (⟨docs, m.drawn + 1⟩, Settlement.inserted.count target n)
    | none => ({ m with drawn := m.drawn + 1 }, Settlement.duplicate.count target n)

def enqueueTargetMongo (newId : ℕ → ι) (force : Bool) (eventId : String) (event : FanoutEvent π)
    (target : FanoutTarget) (n : EnqueueResult) (m : MongoOutbox ι π) :
    MongoOutbox ι π × EnqueueResult :=
  let candidate :=
    if !force && decide (event.project ≠ "") && decide (event.file ≠ "") &&
        fanoutCoalescerActiveForTarget cfg target then
      m.docs.findOne (candidateQuery cfg clk event target) latestDocFirst
    else none
  match candidate with
  | some d =>
    let updated := m.docs.updateOne (fun d => d.status.waiting) (coalesceSet clk event)
      (id_coalesceSet clk event) d.id
    if 0 < updated.2 then ({ m with docs := updated.1 }, Settlement.coalesced.count target n)
    else enqueueKeyMongo cfg clk newId force eventId event target n { m with docs := updated.1 }
  | none => enqueueKeyMongo cfg clk newId force eventId event target n m

def enqueueFanoutOutboxMongo (newId : ℕ → ι) (force : Bool) (drawn : String)
    (event : FanoutEvent π) (targets : List FanoutTarget) (m : MongoOutbox ι π) :
    MongoOutbox ι π × EnqueueResult :=
  targets.foldl (fun (m, n) target =>
    enqueueTargetMongo cfg clk newId force (effectiveEventId drawn event) event target n m) (m, {})

/-! ### Claiming and recovery -/

def dueDoc (target excludeTarget : Option FanoutTarget) (d : OutboxDoc ι π) : Bool :=
  d.status.waiting && decide (d.nextAttemptAt ≤ clk.now) &&
    match target, excludeTarget with
    | some t, _ => decide (d.target = t)
    | none, some t => decide (d.target ≠ t)
    | none, none => true

def dueDocFirst (a b : OutboxDoc ι π) : Prop :=
  a.nextAttemptAt < b.nextAttemptAt ∨ a.nextAttemptAt = b.nextAttemptAt ∧ a.id ≤ b.id

instance : DecidableRel (@dueDocFirst ι π _) := fun _ _ => inferInstanceAs (Decidable (_ ∨ _))

def claimSet (d : OutboxDoc ι π) : OutboxDoc ι π :=
  { d with
    status := .running
    lastAttemptAt := some clk.now
    updatedAt := clk.now
    attempts := d.attempts + 1 }

omit [LinearOrder ι] [DecidableEq π] in
@[simp] theorem id_claimSet (clk : Clock) (d : OutboxDoc ι π) : (claimSet clk d).id = d.id := rfl

def claimFanoutBatchMongo (limit : ℤ) (target excludeTarget : Option FanoutTarget)
    (m : MongoOutbox ι π) : MongoOutbox ι π × List (OutboxDoc ι π) :=
  let (docs, taken) := Table.takeBatch (dueDoc clk target excludeTarget) dueDocFirst (claimSet clk)
    (id_claimSet clk) (max 1 (min limit 256)).toNat m.docs
  ({ m with docs }, taken)

def recoverSet (d : OutboxDoc ι π) : OutboxDoc ι π :=
  { d with status := .retrying, nextAttemptAt := clk.now, updatedAt := clk.now }

omit [LinearOrder ι] [DecidableEq π] in
@[simp] theorem id_recoverSet (clk : Clock) (d : OutboxDoc ι π) :
    (recoverSet clk d).id = d.id := rfl

def recoverErrorSet (d : OutboxDoc ι π) : OutboxDoc ι π :=
  { d with lastError := some "Recovered stale running fanout job after worker restart" }

omit [LinearOrder ι] [DecidableEq π] in
@[simp] theorem id_recoverErrorSet (d : OutboxDoc ι π) : (recoverErrorSet d).id = d.id := rfl

def staleDoc (maxAgeSecs : ℤ) (d : OutboxDoc ι π) : Bool :=
  decide (d.status = .running) &&
    d.lastAttemptAt.all fun last => decide (last ≤ clk.ago (max 0 maxAgeSecs : ℤ))

def unexplained (d : OutboxDoc ι π) : Bool :=
  decide (d.status = .retrying) && decide (d.nextAttemptAt = clk.now) &&
    decide (d.lastError.getD "" = "")

def recoverStaleRunningJobsMongo (maxAgeSecs : ℤ) (m : MongoOutbox ι π) : MongoOutbox ι π × ℕ :=
  let recovered := m.docs.updateMany (staleDoc clk maxAgeSecs) (recoverSet clk) (id_recoverSet clk)
  let explained := recovered.1.updateMany (unexplained clk) recoverErrorSet id_recoverErrorSet
  ({ m with docs := explained.1 }, recovered.2)

/-! ### Marks -/

def updateFanoutJobMongo (jobId : ι) (f : OutboxDoc ι π → OutboxDoc ι π)
    (hf : ∀ d, (f d).id = d.id) (m : MongoOutbox ι π) : MongoOutbox ι π :=
  { m with docs := (m.docs.updateOne (fun _ => true) f hf jobId).1 }

def markFanoutSuccessMongo (jobId : ι) (m : MongoOutbox ι π) : MongoOutbox ι π :=
  updateFanoutJobMongo jobId (fun d =>
    { d with
      status := .succeeded
      completedAt := some clk.now
      updatedAt := clk.now
      lastError := none }) (fun _ => rfl) m

def failureSet (error : String) (d : OutboxDoc ι π) : OutboxDoc ι π :=
  { d with
    status := .failed
    nextAttemptAt := clk.now
    completedAt := some clk.now
    updatedAt := clk.now
    lastError := some (truncate 2000 error) }

omit [LinearOrder ι] [DecidableEq π] in
@[simp] theorem id_failureSet (clk : Clock) (error : String) (d : OutboxDoc ι π) :
    (failureSet clk error d).id = d.id := rfl

def markFanoutFailedMongo (jobId : ι) (error : String) (m : MongoOutbox ι π) : MongoOutbox ι π :=
  updateFanoutJobMongo jobId (failureSet clk error) (id_failureSet clk error) m

def failLettaBacklogMongo (error : String) (m : MongoOutbox ι π) : MongoOutbox ι π × ℕ :=
  let updated := m.docs.updateMany (fun d => decide (d.target = .letta) && d.status.outstanding)
    (failureSet clk error) (id_failureSet clk error)
  ({ m with docs := updated.1 }, updated.2)

def markFanoutRetryMongo (job : OutboxDoc ι π) (jitter : ℚ) (error : String)
    (m : MongoOutbox ι π) : MongoOutbox ι π × JobStatus :=
  let maxAttempts := if job.maxAttempts = 0 then cfg.fanoutMaxAttempts else job.maxAttempts
  if job.attempts < maxAttempts then
    (updateFanoutJobMongo job.id (fun d =>
      { d with
        status := .retrying
        nextAttemptAt := clk.after (backoffSeconds cfg job.attempts jitter)
        updatedAt := clk.now
        lastError := some (truncate 2000 error) }) (fun _ => rfl) m, .retrying)
  else
    (updateFanoutJobMongo job.id (fun d =>
      { d with
        status := .failed
        nextAttemptAt := clk.now
        updatedAt := clk.now
        lastError := some (truncate 2000 error)
        completedAt := some clk.now }) (fun _ => rfl) m, .failed)

/-! ### The orders -/

omit [DecidableEq π] in
theorem dueDocFirst_iff {a b : OutboxDoc ι π} : dueDocFirst a b ↔
    toLex (a.nextAttemptAt, a.id) ≤ toLex (b.nextAttemptAt, b.id) := by
  rw [Prod.Lex.toLex_le_toLex]
  rfl

instance : IsTrans (OutboxDoc ι π) dueDocFirst :=
  ⟨fun _ _ _ h h' => dueDocFirst_iff.mpr ((dueDocFirst_iff.mp h).trans (dueDocFirst_iff.mp h'))⟩

instance : Std.Total (@dueDocFirst ι π _) :=
  ⟨fun _ _ => (le_total _ _).imp dueDocFirst_iff.mpr dueDocFirst_iff.mpr⟩

omit [DecidableEq π] in
theorem id_eq_of_dueDocFirst (a b : OutboxDoc ι π) (h : dueDocFirst a b) (h' : dueDocFirst b a) :
    a.id = b.id := by
  have hlex := (dueDocFirst_iff.mp h).antisymm (dueDocFirst_iff.mp h')
  exact congrArg (fun x => (ofLex x).2) hlex

omit [LinearOrder ι] [DecidableEq π] in
end

end ContextLattice
