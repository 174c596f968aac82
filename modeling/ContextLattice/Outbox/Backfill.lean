import ContextLattice.Outbox.LastPayload
import ContextLattice.Write.Bank

/-!
# Backfill from the raw store

`backfill_fanout_from_mongo_raw` reads raw events **newest first** and enqueues each, so of several
events of a file a target gets the oldest one in the end. A row that waits for a retry may come
after all of them.
-/

namespace ContextLattice

open Foundation List

/-! ### Raw events and requests -/

structure RawDoc where
  eventId : String := ""
  source : String := ""
  project : String
  file : String
  contentRaw : String := ""
  summary : String := ""
  topicPath : String := ""
  topicTags : Option (List String) := none
  requestId : Option String := none
  createdAt : ℤ
  updatedAt : ℤ

/-- The members of a backfilled payload that the outbox does not read; `letta_context` repeats the
others. -/
structure BackfillRest where
  content : String
  lettaSession : Option String
  qdrantCollection : String
  rawEvent : RawEvent
deriving DecidableEq

structure BackfillEnv where
  outbox : OutboxConfig
  write : WriteConfig
  lib : WriteLib
  mongoTimestampIso : ℤ → Stamp
  lettaConfigEnabled : Bool
  lettaTargetEnabled : Bool

structure BackfillRequest where
  project : String := ""
  limit : ℕ := 50000
  targets : List String := []
  qdrantCollection : String := ""
  forceRequeue : Bool := false
  maxPendingJobs : ℕ := 6000
  checkInterval : ℕ := 200

def fanoutTargetNamed (name : String) : Option FanoutTarget :=
  [FanoutTarget.mongoRaw, .qdrant, .mindsdb, .letta, .langfuse].find? fun t =>
    decide (t.name = name)

structure BackfillTurn where
  doc : RawDoc
  clk : Clock
  outstanding : ℕ := 0
  persisted : Bool := true
  raises : Option String := none

variable (env : BackfillEnv) (req : BackfillRequest)

def backfillTargets : List FanoutTarget :=
  let requested := req.targets.map env.lib.py.lower
  let chosen := if requested ≠ [] then requested.filterMap fanoutTargetNamed
    else [.qdrant, .mindsdb] ++ if env.lettaTargetEnabled then [.letta] else []
  if env.write.langfuseApiKey && decide (FanoutTarget.langfuse ∉ chosen) then
    chosen ++ [.langfuse]
  else chosen

def newestDocFirst (a b : RawDoc) : Prop := b.updatedAt ≤ a.updatedAt

instance : DecidableRel newestDocFirst := fun _ _ => inferInstanceAs (Decidable (_ ≤ _))

def scanDocs (collection : List RawDoc) : List RawDoc :=
  ((collection.filter fun doc => decide (req.project = "" ∨ doc.project = req.project)
    ).insertionSort newestDocFirst).take req.limit

def backfillEvent (doc : RawDoc) : Except HttpError (Option (FanoutEvent BackfillRest)) := do
  let project := strip doc.project
  let file := strip doc.file
  let content := doc.contentRaw
  let summary := if strip doc.summary ≠ "" then strip doc.summary
    else strip (if content ≠ "" then truncate 600 content else project ++ "/" ++ file)
  if project = "" ∨ file = "" ∨ summary = "" then return none
  let topicPath ← if doc.topicPath ≠ "" then pure doc.topicPath
    else deriveTopicPath env.write env.lib file none
  let topicTags ← match doc.topicTags with
    | some tags => pure ((tags.map strip).filter (· ≠ ""))
    | none => topicTagsForPath env.write env.lib topicPath
  let eventId := if strip doc.eventId ≠ "" then strip doc.eventId
    else truncate 32 (env.lib.sha256 (project ++ ":" ++ file ++ ":" ++
      if content ≠ "" then content else summary))
  return some
    { eventId := eventId
      project := project
      file := file
      summary := summary
      topicPath := topicPath
      topicTags := topicTags
      rest :=
        { content := content
          lettaSession := if env.lettaConfigEnabled then some env.write.lettaAutoSessionId else none
          qdrantCollection := if req.qdrantCollection ≠ "" then req.qdrantCollection
            else env.write.qdrantCollection
          rawEvent :=
            { eventId := eventId
              source := if doc.source ≠ "" then doc.source
                else "maintenance.rehydrate_mongo_raw"
              project := project
              file := file
              contentRaw := content
              summary := summary
              topicPath := topicPath
              topicTags := topicTags
              requestId := doc.requestId
              createdAt := env.mongoTimestampIso doc.createdAt
              updatedAt := env.mongoTimestampIso doc.updatedAt } } }

/-! ### The loop -/

structure BackfillState where
  outbox : Outbox BackfillRest
  scanned : ℕ := 0
  inserted : ℕ := 0
  requeued : ℕ := 0
  existing : ℕ := 0
  skipped : ℕ := 0
  deferredMongo : ℕ := 0
  mongoImmediateSuccess : ℕ := 0
  errors : List String := []
  seenEvents : List String := []
  throttled : Bool := false
  outstandingAtStop : ℕ := 0
  failed : Option HttpError := none
  handled : List (RawDoc × FanoutEvent BackfillRest) := []
  enqueued : List (Enqueue BackfillRest) := []

namespace BackfillState

def live (s : BackfillState) : Bool := !s.throttled && s.failed.isNone

def asks (s : BackfillState) : Bool :=
  decide (0 < req.maxPendingJobs ∧ 0 < s.scanned ∧ s.scanned % req.checkInterval = 0)

def eventTargets (turn : BackfillTurn) : List FanoutTarget :=
  let targets := backfillTargets env req
  if decide (FanoutTarget.mongoRaw ∈ targets) && !req.forceRequeue && turn.persisted then
    targets.filter (· ≠ .mongoRaw)
  else targets

def enqueuesOf (turn : BackfillTurn) (event : FanoutEvent BackfillRest) :
    List (Enqueue BackfillRest) :=
  (eventTargets env req turn).map fun target => ⟨turn.clk, "", event, target⟩

def handle (s : BackfillState) (turn : BackfillTurn) (event : FanoutEvent BackfillRest) :
    BackfillState :=
  let writesRaw := decide (FanoutTarget.mongoRaw ∈ backfillTargets env req) && !req.forceRequeue
  let s := { s with
    seenEvents := s.seenEvents ++ [event.eventId]
    handled := s.handled ++ [(turn.doc, event)]
    mongoImmediateSuccess := s.mongoImmediateSuccess +
      if writesRaw && turn.persisted then 1 else 0
    deferredMongo := s.deferredMongo + if writesRaw && !turn.persisted then 1 else 0 }
  match turn.raises with
  | some exc =>
    { s with
      errors := s.errors ++ [event.project ++ "/" ++ event.file ++ ": enqueue failed (" ++ exc ++
        ")"] }
  | none =>
    let (outbox, result) := enqueueFanoutOutbox env.outbox turn.clk req.forceRequeue "" event
      (eventTargets env req turn) s.outbox
    { s with
      outbox := outbox
      enqueued := s.enqueued ++ enqueuesOf env req turn event
      inserted := s.inserted + result.inserted
      requeued := s.requeued + result.requeued
      existing := s.existing + result.existing
      scanned := s.scanned + 1 }

def consume (s : BackfillState) (turn : BackfillTurn) : BackfillState :=
  match backfillEvent env req turn.doc with
  | .error exc => { s with failed := some exc }
  | .ok none => { s with skipped := s.skipped + 1 }
  | .ok (some event) =>
    if event.eventId ∈ s.seenEvents then { s with skipped := s.skipped + 1 }
    else s.handle env req turn event

def turn (s : BackfillState) (turn : BackfillTurn) : BackfillState :=
  if s.live then
    if s.asks req then
      let s := { s with outstandingAtStop := turn.outstanding }
      if req.maxPendingJobs ≤ turn.outstanding then { s with throttled := true }
      else s.consume env req turn
    else s.consume env req turn
  else s

end BackfillState

def backfillRefused (available : Bool) (scanError : Option String) : Option HttpError :=
  if !available then some ⟨503, "Mongo raw store is unavailable"⟩
  else if backfillTargets env req = [] then
    some ⟨400, "No valid targets selected for mongo raw backfill"⟩
  else scanError.map fun exc => ⟨500, "Mongo raw scan failed: " ++ exc⟩

def backfillFanoutFromMongoRaw (available : Bool) (scanError : Option String)
    (ob : Outbox BackfillRest) (turns : List BackfillTurn) : BackfillState :=
  run (BackfillState.turn env req)
    { outbox := ob, failed := backfillRefused env req available scanError } turns

/-! ### What is delivered last -/

namespace BackfillState

def Covers (s : BackfillState) (lane : Lane) : Prop := ∃ e ∈ s.enqueued, e.lane = lane

def newest (s : BackfillState) (lane : Lane) : Option (RawDoc × FanoutEvent BackfillRest) :=
  s.handled.find? fun x => decide (x.2.project = lane.project ∧ x.2.file = lane.file)

structure Traced (env : BackfillEnv) (req : BackfillRequest) (ob : Outbox BackfillRest)
    (docs : List RawDoc) (s : BackfillState) : Prop where
  outbox : s.outbox = run (enqueueStep env.outbox req.forceRequeue) ob s.enqueued
  handled : (s.handled.map Prod.fst).Sublist docs
  enqueued : ∀ e ∈ s.enqueued, ∃ x ∈ s.handled, e.event = x.2

variable {env : BackfillEnv} {req : BackfillRequest} {ob : Outbox BackfillRest}
  {docs : List RawDoc} {s : BackfillState}

section

variable (hs : Traced env req ob docs s)

include hs

theorem Traced.of_eq {s' : BackfillState} (doc : RawDoc) (houtbox : s'.outbox = s.outbox)
    (hhandled : s'.handled = s.handled) (henqueued : s'.enqueued = s.enqueued) :
    Traced env req ob (docs ++ [doc]) s' where
  outbox := by rw [houtbox, henqueued, hs.outbox]
  handled := by
    rw [hhandled]
    exact hs.handled.trans (sublist_append_left _ _)
  enqueued := by
    rw [henqueued, hhandled]
    exact hs.enqueued

theorem Traced.handle (turn : BackfillTurn) (event : FanoutEvent BackfillRest) :
    Traced env req ob (docs ++ [turn.doc]) (s.handle env req turn event) := by
  have hdocs : ((s.handled ++ [(turn.doc, event)]).map Prod.fst).Sublist (docs ++ [turn.doc]) := by
    rw [map_append]
    exact hs.handled.append (List.Sublist.refl _)
  have hold : ∀ e ∈ s.enqueued, ∃ x ∈ s.handled ++ [(turn.doc, event)], e.event = x.2 := by
    intro e he
    obtain ⟨x, hx, heq⟩ := hs.enqueued e he
    exact ⟨x, mem_append_left _ hx, heq⟩
  unfold BackfillState.handle
  dsimp only
  split
  · exact ⟨hs.outbox, hdocs, hold⟩
  · refine ⟨?_, hdocs, fun e he => ?_⟩
    · rw [run_append, ← hs.outbox, enqueueFanoutOutbox_fst]
      rfl
    · rcases mem_append.mp he with he | he
      · exact hold e he
      · obtain ⟨target, -, rfl⟩ := mem_map.mp he
        exact ⟨(turn.doc, event), by simp, rfl⟩

theorem Traced.consume (turn : BackfillTurn) :
    Traced env req ob (docs ++ [turn.doc]) (s.consume env req turn) := by
  unfold BackfillState.consume
  split
  · exact hs.of_eq turn.doc rfl rfl rfl
  · exact hs.of_eq turn.doc rfl rfl rfl
  · split
    · exact hs.of_eq turn.doc rfl rfl rfl
    · exact hs.handle turn _

theorem Traced.turn (turn : BackfillTurn) :
    Traced env req ob (docs ++ [turn.doc]) (s.turn env req turn) := by
  have hasked : Traced env req ob docs { s with outstandingAtStop := turn.outstanding } :=
    ⟨hs.outbox, hs.handled, hs.enqueued⟩
  unfold BackfillState.turn
  dsimp only
  split
  · split
    · split
      · exact hs.of_eq turn.doc rfl rfl rfl
      · exact hasked.consume turn
    · exact hs.consume turn
  · exact hs.of_eq turn.doc rfl rfl rfl

theorem Traced.run (turns : List BackfillTurn) :
    Traced env req ob (docs ++ turns.map fun t => t.doc)
      (Foundation.run (BackfillState.turn env req) s turns) := by
  induction turns generalizing s docs with
  | nil => simpa using hs
  | cons turn turns ih => simpa using ih (hs.turn turn)

theorem Traced.updatedAt_le_newest (hdocs : docs.Pairwise newestDocFirst) {lane : Lane}
    (hcovers : s.Covers lane) :
    ∃ x ∈ s.newest lane, ∀ y ∈ s.handled, y.2.project = lane.project → y.2.file = lane.file →
      y.1.updatedAt ≤ x.1.updatedAt := by
  obtain ⟨e, he, rfl⟩ := hcovers
  obtain ⟨x₀, hx₀, hevent⟩ := hs.enqueued e he
  have hsome : (s.newest e.lane).isSome := by
    refine List.find?_isSome.mpr ⟨x₀, hx₀, ?_⟩
    simp [Enqueue.lane, FanoutEvent.lane, hevent]
  obtain ⟨x, hx⟩ := Option.isSome_iff_exists.mp hsome
  refine ⟨x, hx, fun y hy hproject hfile => ?_⟩
  -- what comes before the first event of the file is of other files
  obtain ⟨-, front, back, hhandled, hfront⟩ := List.find?_eq_some_iff_append.mp hx
  have hsorted := hdocs.sublist hs.handled
  rw [hhandled, map_append, map_cons, pairwise_append, pairwise_cons] at hsorted
  rw [hhandled, mem_append, mem_cons] at hy
  rcases hy with hy | rfl | hy
  · have hno := hfront y hy
    simp [hproject, hfile] at hno
  · exact le_rfl
  · exact hsorted.2.1.1 y.1 (mem_map_of_mem hy)

end

end BackfillState

theorem pairwise_scanDocs (req : BackfillRequest) (collection : List RawDoc) :
    (scanDocs req collection).Pairwise newestDocFirst := by
  have : IsTrans RawDoc newestDocFirst := ⟨fun _ _ _ h h' => h'.trans h⟩
  have : Std.Total newestDocFirst := ⟨fun a b => le_total b.updatedAt a.updatedAt⟩
  exact (pairwise_insertionSort newestDocFirst _).sublist (take_sublist _ _)

def BackfillEnv.plain : BackfillEnv where
  outbox := .default
  write := .default
  lib := ⟨.ascii, id, fun _ _ => false, id, fun _ => false, id⟩
  mongoTimestampIso := fun _ => ""
  lettaConfigEnabled := false
  lettaTargetEnabled := false

def version (eventId content : String) (updatedAt : ℤ) : RawDoc :=
  { eventId := eventId, project := "app", file := "a.md", contentRaw := content, summary := content,
    topicPath := "notes", topicTags := some ["notes"], createdAt := updatedAt,
    updatedAt := updatedAt }

def qdrantBackfill (force : Bool) : BackfillRequest :=
  { targets := ["qdrant"], forceRequeue := force }

def windowed (now start : Stamp) : Clock := ⟨now, fun _ => now, fun _ => start⟩

def twoVersions : List BackfillTurn :=
  [⟨version "e2" "v2" 2, windowed "10:00:00Z" "09:59:54Z", 0, true, none⟩,
    ⟨version "e1" "v1" 1, windowed "10:00:01Z" "09:59:55Z", 0, true, none⟩]

/-- The outbox after an earlier backfill whose delivery failed: the row waits until 10:05. -/
def retrying (updatedAt : Stamp) : Outbox BackfillRest :=
  (backfillFanoutFromMongoRaw .plain (qdrantBackfill false) true none .empty
    [⟨version "e0" "v0" 0, windowed updatedAt updatedAt, 0, true, none⟩]).outbox.update 1
    (fun r => { r with status := .retrying, attempts := 1, nextAttemptAt := "10:05:00Z" })
    fun _ => rfl

def twoFiles : List BackfillTurn :=
  twoVersions.take 1 ++
    [⟨{ version "f1" "w1" 1 with file := "b.md" }, windowed "10:00:01Z" "09:59:55Z", 0, true, none⟩]

end ContextLattice
