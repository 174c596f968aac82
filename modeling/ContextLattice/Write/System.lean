import ContextLattice.Write.Bank

/-!
# The write path

A request runs in stretches between the points where its handler waits, **workers** take items from
the queue, store and publish them, and histories are read by no operation. A step is one stretch,
one flush, one step of a worker, or one of the outbox; what the environment decides is part of the
step.
-/

namespace ContextLattice

open Foundation

structure WriteEnv where
  cfg : WriteConfig
  outbox : OutboxConfig
  lib : WriteLib

/-! ### Answers -/

structure FanoutReport where
  memoryBank : String
  mongoRaw : String
  qdrant : String
  mindsdb : String
  langfuse : String
  letta : String
deriving DecidableEq

structure WriteResponse where
  eventId : String
  warnings : List String
  fanout : FanoutReport
  deduped : Bool := false
  latestHashUnchanged : Bool := false
  rollupFile : Option String := none
deriving DecidableEq

def wholeSeconds (x : ℚ) : String := toString x.floor

variable (env : WriteEnv)

def buildEventId (w : PreparedWrite) : String :=
  truncate 32 (env.lib.sha256 (w.project ++ ":" ++ w.file ++ ":" ++ w.content))

def duplicateResponse (w : PreparedWrite) : WriteResponse where
  eventId := buildEventId env w
  warnings := ("duplicate memory.write suppressed within " ++
    wholeSeconds (dedupeWindow env.cfg) ++ " seconds") :: w.policyWarning.toList
  fanout := ⟨"skipped", "skipped", "skipped", "skipped", "skipped", "skipped"⟩
  deduped := true

def unchangedResponse (w : PreparedWrite) (eventId : String) : WriteResponse where
  eventId := eventId
  warnings := "latest snapshot unchanged (hash match); memory-bank and fanout writes suppressed" ::
    w.policyWarning.toList
  fanout := ⟨"skipped", "pending", "skipped", "skipped", "skipped", "skipped"⟩
  deduped := true
  latestHashUnchanged := true

def freshResponse (w : PreparedWrite) (eventId : String) : WriteResponse :=
  let hot := w.hotRollupMode env.cfg
  let status := if hot then "deferred_rollup" else "pending"
  { eventId := eventId
    warnings := w.policyWarning.toList
    fanout :=
      { memoryBank := if hot then "queued_rollup" else "queued"
        mongoRaw := "pending"
        qdrant := status
        mindsdb := status
        langfuse := if env.cfg.langfuseApiKey then status else "disabled"
        letta := "disabled" } }

def WriteResponse.noteMongo (r : WriteResponse) : Option String → WriteResponse
  | none => { r with fanout := { r.fanout with mongoRaw := "succeeded" } }
  | some error =>
    { r with
      fanout := { r.fanout with mongoRaw := "retrying" }
      warnings := r.warnings ++ ["raw-event Mongo write deferred; queued for retry (" ++
        (if error = "" then "unknown error" else error) ++ ")"] }

/-- Whether Letta was disabled at run time, and what `_letta_admission_should_enqueue` answers
(`none` if the write is admitted). -/
structure LettaGate where
  disabled : Option String := none
  refused : Option (Option String × ℤ) := none

def lettaTargetEnabled (gate : LettaGate) : Bool :=
  decide (env.cfg.lettaAutoSessionId ≠ "") && !env.cfg.lettaKeyMissing && gate.disabled.isNone

def lettaAdmitted (gate : LettaGate) : Bool := lettaTargetEnabled env gate && gate.refused.isNone

def WriteResponse.noteLetta (r : WriteResponse) (w : PreparedWrite) (gate : LettaGate) :
    WriteResponse :=
  let note (status : String) (warnings : List String) : WriteResponse :=
    { r with fanout := { r.fanout with letta := status }, warnings := r.warnings ++ warnings }
  if env.cfg.lettaAutoSessionId = "" then r
  else if env.cfg.lettaKeyMissing then
    note "disabled"
      ["Letta sync disabled because LETTA_REQUIRE_API_KEY is true and LETTA_API_KEY is empty"]
  else
    match gate.disabled, gate.refused with
    | some reason, _ =>
      note "disabled" ["Letta sync disabled due to permanent fanout error (" ++
        (if reason = "" then "runtime disabled" else reason) ++ ")"]
    | none, none =>
      note (if w.hotRollupMode env.cfg then "deferred_rollup" else "pending") []
    | none, some (reason, backlog) =>
      note "throttled_backlog" ["Letta fanout deferred under backlog (" ++
        (reason.filter (· ≠ "")).getD "backlog" ++ "; outstanding=" ++
        toString (max 0 backlog) ++ ")"]

def lettaContextOf (w : PreparedWrite) : Option LettaContext :=
  if env.cfg.lettaAutoSessionId = "" then none
  else some
    { project := w.project
      file := w.file
      topicPath := w.topicPath
      sourceKind := if w.hotRollupMode env.cfg then "high_frequency_rollup" else "memory_write"
      summary := some w.summary
      contentHash := some w.contentHash
      content := if w.hotRollupMode env.cfg then none else some w.content }

def lettaSessionIf (b : Bool) : Option String :=
  if b then some env.cfg.lettaAutoSessionId else none

structure FanoutCounts where
  retrying : ℕ := 0
  failed : ℕ := 0
  lettaRetrying : ℕ := 0
  lettaFailed : ℕ := 0

def WriteResponse.noteBacklog (r : WriteResponse) (gate : LettaGate) (counts : FanoutCounts) :
    WriteResponse :=
  let enabled := lettaTargetEnabled env gate
  let retrying := if enabled then counts.retrying else counts.retrying - counts.lettaRetrying
  let failed := if enabled then counts.failed else counts.failed - counts.lettaFailed
  if 0 < failed then
    { r with warnings := r.warnings ++ ["fanout currently degraded: " ++ toString failed ++
      " failed and " ++ toString retrying ++
      " retrying jobs; durability outside memory-bank is lagging"] }
  else if 0 < retrying then
    { r with warnings := r.warnings ++ ["fanout backlog detected: " ++ toString retrying ++
      " jobs retrying; writes may be temporarily memory-bank-only"] }
  else r

def WriteResponse.SameKind (r r' : WriteResponse) : Prop :=
  r.eventId = r'.eventId ∧ r.deduped = r'.deduped ∧ r.latestHashUnchanged = r'.latestHashUnchanged

theorem WriteResponse.SameKind.trans {r r' r'' : WriteResponse} (h : r.SameKind r')
    (h' : r'.SameKind r'') : r.SameKind r'' :=
  ⟨h.1.trans h'.1, h.2.1.trans h'.2.1, h.2.2.trans h'.2.2⟩

variable (r : WriteResponse) (w : PreparedWrite) (gate : LettaGate)

theorem sameKind_noteMongo (mongo : Option String) : (r.noteMongo mongo).SameKind r := by
  cases mongo <;> exact ⟨rfl, rfl, rfl⟩

theorem sameKind_noteLetta : (r.noteLetta env w gate).SameKind r := by
  unfold WriteResponse.noteLetta
  repeat' split
  all_goals exact ⟨rfl, rfl, rfl⟩

theorem sameKind_noteBacklog (counts : FanoutCounts) :
    (r.noteBacklog env gate counts).SameKind r := by
  unfold WriteResponse.noteBacklog
  dsimp only
  repeat' split
  all_goals exact ⟨rfl, rfl, rfl⟩

/-! ### The state -/

inductive Stage where
  | unchanged
  | fresh
  | seeding
  | waiting
  | finishing
deriving DecidableEq, Repr

structure PendingWrite where
  write : PreparedWrite
  eventId : String
  rawEvent : RawEvent
  awaited : Bool
  stage : Stage
  response : WriteResponse

structure BankJob where
  item : BankItem
  stored : Bool

structure WriteState where
  maps : WriteMaps
  rollups : Dict String RollupEntry
  queue : BankQueue
  requests : Dict ℕ PendingWrite
  held : Dict ℕ BankJob
  waiters : Dict ℕ (Option String)
  bank : Dict (String × String) Content
  outbox : OutboxState FanoutRest
  stored : List BankItem
  published : List BankItem
  answers : List (ℕ × Except HttpError WriteResponse)

namespace WriteState

def empty : WriteState where
  maps := ⟨.empty, .empty⟩
  rollups := .empty
  queue := .empty
  requests := .empty
  held := .empty
  waiters := .empty
  bank := .empty
  outbox := .empty
  stored := []
  published := []
  answers := []

def answer (s : WriteState) (rid : ℕ) (a : Except HttpError WriteResponse) : WriteState :=
  { s with requests := s.requests.erase rid, answers := s.answers ++ [(rid, a)] }

def setRequest (s : WriteState) (rid : ℕ) (p : PendingWrite) : WriteState :=
  { s with requests := s.requests.set rid p }

def finishJob (s : WriteState) (worker : ℕ) (item : BankItem) (error : Option String) :
    WriteState :=
  { s with
    held := s.held.erase worker
    waiters := match item.waiter with
      | none => s.waiters
      | some rid => s.waiters.set rid error }

end WriteState

inductive WriteOp where
  | receive (rid : ℕ) (clk : Clock) (now : ℚ) (requestId : Option String) (drawn : String)
      (req : MemoryWrite)
  | rawStored (rid : ℕ) (clk : Clock) (mongo : Option String) (gate : LettaGate)
  | seeded (rid : ℕ) (clk : Clock) (gate : LettaGate)
  | finish (rid : ℕ) (gate : LettaGate) (counts : FanoutCounts)
  | flush (clk : Clock) (now : ℚ) (force : Bool) (drawn : String → String)
  | take (worker : ℕ)
  | store (worker : ℕ)
  | publish (worker : ℕ) (clk : Clock) (drawn : String) (gate : LettaGate)
  | fail (worker : ℕ) (error : String)
  | fanout (op : OutboxOp FanoutRest)

/-! ### The handler -/

def buildRawMemoryEvent (clk : Clock) (requestId : Option String) (eventId : String)
    (w : PreparedWrite) : RawEvent where
  eventId := eventId
  source := "memory.write"
  project := w.project
  file := w.file
  contentRaw := w.content
  summary := w.summary
  topicPath := w.topicPath
  topicTags := w.topicTags
  requestId := requestId
  createdAt := clk.now
  updatedAt := clk.now

def receiveWrite (s : WriteState) (rid : ℕ) (clk : Clock) (now : ℚ) (requestId : Option String)
    (drawn : String) (req : MemoryWrite) : WriteState :=
  match prepareWrite env.cfg env.lib req with
  | .error e => s.answer rid (.error e)
  | .ok w =>
    let (maps, verdict) := checkWrite env.cfg now w s.maps
    let s := { s with maps := maps }
    let pending (stage : Stage) (response : WriteResponse) : PendingWrite :=
      { write := w
        eventId := drawn
        rawEvent := buildRawMemoryEvent clk requestId drawn w
        awaited := false
        stage := stage
        response := response }
    match verdict with
    | .duplicate => s.answer rid (.ok (duplicateResponse env w))
    | .unchanged => s.setRequest rid (pending .unchanged (unchangedResponse w drawn))
    | .fresh => s.setRequest rid (pending .fresh (freshResponse env w drawn))

def writeItem (rid : ℕ) (p : PendingWrite) (mongo : Option String) (gate : LettaGate) :
    BankItem where
  ticket := 0
  project := p.write.project
  file := p.write.file
  fileName := p.write.file
  content := .text p.write.content
  summary := p.write.summary
  topicPath := p.write.topicPath
  topicTags := p.write.topicTags
  contentLength := p.write.content.toList.length
  lettaSession := lettaSessionIf env (lettaAdmitted env gate)
  lettaAdmit := lettaAdmitted env gate
  lettaContext := lettaContextOf env p.write
  waiter := if env.cfg.memoryWriteAsync then none else some rid
  eventId := p.eventId
  rawEvent := some p.rawEvent
  mongoPersisted := mongo.isNone
  qdrantCollection := env.cfg.qdrantCollection

def hotWriteOf (p : PendingWrite) (gate : LettaGate) : HotWrite where
  write := p.write
  eventId := p.eventId
  lettaSession := lettaSessionIf env (lettaAdmitted env gate)
  lettaAdmit := lettaAdmitted env gate
  lettaContext := lettaContextOf env p.write
  qdrantCollection := env.cfg.qdrantCollection

def admitWrite (s : WriteState) (rid : ℕ) (p : PendingWrite) (clk : Clock) (mongo : Option String)
    (gate : LettaGate) : WriteState :=
  let response := (p.response.noteMongo mongo).noteLetta env p.write gate
  if p.write.hotRollupMode env.cfg then
    match buildHotMemoryRollupFile env.cfg env.lib p.write.file with
    | .error e => s.answer rid (.error e)
    | .ok rollupFile =>
      WriteState.setRequest
        { s with rollups := enqueueHotMemoryRollup clk (hotWriteOf env p gate) s.rollups } rid
        { p with
          stage := if mongo.isNone then .finishing else .seeding
          response := { response with
            warnings := response.warnings ++ [
              "high-frequency write buffered; rollup flush every " ++
                wholeSeconds (max 1 env.cfg.hotMemoryRollupFlushSecs) ++ "s to " ++ rollupFile]
            rollupFile := some rollupFile } }
  else
    match enqueueMemoryBankWrite env.cfg (writeItem env rid p mongo gate) s.queue with
    | .error e => s.answer rid (.error e)
    | .ok q =>
      WriteState.setRequest { s with queue := q } rid
        { p with
          awaited := !env.cfg.memoryWriteAsync
          stage := if mongo.isSome then .seeding
            else if env.cfg.memoryWriteAsync then .finishing else .waiting
          response := response }

def rawStoredWrite (s : WriteState) (rid : ℕ) (clk : Clock) (mongo : Option String)
    (gate : LettaGate) : WriteState :=
  match s.requests.get? rid with
  | none => s
  | some p =>
    match p.stage with
    | .unchanged =>
      match mongo with
      | none => s.answer rid (.ok (p.response.noteMongo none))
      | some error =>
        s.setRequest rid { p with stage := .seeding, response := p.response.noteMongo (some error) }
    | .fresh => admitWrite env s rid p clk mongo gate
    | _ => s

def seedEvent (p : PendingWrite) (gate : LettaGate) : FanoutEvent FanoutRest where
  eventId := p.eventId
  project := p.write.project
  file := p.write.file
  summary := p.write.summary
  topicPath := p.write.topicPath
  topicTags := p.write.topicTags
  rest :=
    { payload := ⟨p.write.project, p.write.file, none⟩
      lettaSession := lettaSessionIf env (lettaTargetEnabled env gate)
      lettaContext := if p.response.latestHashUnchanged then none else lettaContextOf env p.write
      lettaAdmit := none
      qdrantCollection := env.cfg.qdrantCollection
      rawEvent := some p.rawEvent }

def seededWrite (s : WriteState) (rid : ℕ) (clk : Clock) (gate : LettaGate) : WriteState :=
  match s.requests.get? rid with
  | none => s
  | some p =>
    if p.stage = .seeding then
      let s := { s with
        outbox := outboxStep env.outbox s.outbox
          (.enqueue clk true "" (seedEvent env p gate) .mongoRaw) }
      if p.response.latestHashUnchanged then s.answer rid (.ok p.response)
      else s.setRequest rid { p with stage := if p.awaited then .waiting else .finishing }
    else s

def finishWrite (s : WriteState) (rid : ℕ) (gate : LettaGate) (counts : FanoutCounts) :
    WriteState :=
  match s.requests.get? rid with
  | none => s
  | some p =>
    match p.stage with
    | .finishing => s.answer rid (.ok (p.response.noteBacklog env gate counts))
    | .waiting =>
      match s.waiters.get? rid with
      | none => s
      | some none => s.answer rid (.ok (p.response.noteBacklog env gate counts))
      | some (some error) => s.answer rid (.error ⟨502, "Memory write failed: " ++ error⟩)
    | _ => s

/-! ### The workers -/

def fanoutTargets (item : BankItem) (gate : LettaGate) : List FanoutTarget :=
  (if item.mongoPersisted then [] else [.mongoRaw]) ++ [.qdrant, .mindsdb] ++
    (if item.lettaSession.isSome && lettaTargetEnabled env gate && item.lettaAdmit then [.letta]
      else []) ++
    if env.cfg.langfuseApiKey then [.langfuse] else []

def fanoutEventOf (drawn : String) (item : BankItem) : FanoutEvent FanoutRest where
  eventId := if item.eventId = "" then drawn else item.eventId
  project := item.project
  file := item.file
  summary := item.summary
  topicPath := item.topicPath
  topicTags := item.topicTags
  rest :=
    { payload := item.payload
      lettaSession := item.lettaSession
      lettaContext := item.lettaContext
      lettaAdmit := some item.lettaAdmit
      qdrantCollection := item.qdrantCollection
      rawEvent := item.rawEvent }

def takeItem (s : WriteState) (worker : ℕ) : WriteState :=
  match s.held.get? worker, s.queue.items with
  | none, item :: _ =>
    { s with queue := s.queue.tail, held := s.held.set worker ⟨item, false⟩ }
  | _, _ => s

def storeItem (s : WriteState) (worker : ℕ) : WriteState :=
  match s.held.get? worker with
  | some ⟨item, false⟩ =>
    { s with
      held := s.held.set worker ⟨item, true⟩
      bank := s.bank.set (item.project, item.fileName) item.content
      stored := s.stored ++ [item] }
  | _ => s

def publishItem (s : WriteState) (worker : ℕ) (clk : Clock) (drawn : String) (gate : LettaGate) :
    WriteState :=
  match s.held.get? worker with
  | some ⟨item, true⟩ =>
    WriteState.finishJob
      { s with
        outbox := run (outboxStep env.outbox) s.outbox ((fanoutTargets env item gate).map
          (.enqueue clk false drawn (fanoutEventOf drawn item)))
        published := s.published ++ [item] } worker item none
  | _ => s

def failItem (s : WriteState) (worker : ℕ) (error : String) : WriteState :=
  match s.held.get? worker with
  | some job => s.finishJob worker job.item (some error)
  | none => s

def writeStep (s : WriteState) : WriteOp → WriteState
  | .receive rid clk now requestId drawn req => receiveWrite env s rid clk now requestId drawn req
  | .rawStored rid clk mongo gate => rawStoredWrite env s rid clk mongo gate
  | .seeded rid clk gate => seededWrite env s rid clk gate
  | .finish rid gate counts => finishWrite env s rid gate counts
  | .flush clk now force drawn =>
    let (rollups, queue) :=
      flushHotMemoryRollups env.cfg env.lib clk now force drawn s.rollups s.queue
    { s with rollups := rollups, queue := queue }
  | .take worker => takeItem s worker
  | .store worker => storeItem s worker
  | .publish worker clk drawn gate => publishItem env s worker clk drawn gate
  | .fail worker error => failItem s worker error
  | .fanout op => { s with outbox := outboxStep env.outbox s.outbox op }

/-! ### What the workers leave alone -/

def WriteOp.isWorker : WriteOp → Bool
  | .take .. | .store .. | .publish .. | .fail .. => true
  | .receive .. | .rawStored .. | .seeded .. | .finish .. | .flush .. | .fanout .. => false

def WriteOp.isHandler : WriteOp → Bool
  | .receive .. | .rawStored .. | .seeded .. | .finish .. => true
  | .take .. | .store .. | .publish .. | .fail .. | .flush .. | .fanout .. => false

structure SameHandlers (s s' : WriteState) : Prop where
  requests : s'.requests = s.requests
  answers : s'.answers = s.answers
  maps : s'.maps = s.maps
  rollups : s'.rollups = s.rollups

theorem sameHandlers_of_isWorker (s : WriteState) {op : WriteOp} (hop : op.isWorker = true) :
    SameHandlers s (writeStep env s op) := by
  cases op with
  | take worker => simp only [writeStep, takeItem]; split <;> exact ⟨rfl, rfl, rfl, rfl⟩
  | store worker => simp only [writeStep, storeItem]; split <;> exact ⟨rfl, rfl, rfl, rfl⟩
  | publish worker clk drawn gate =>
    simp only [writeStep, publishItem]
    split <;> exact ⟨rfl, rfl, rfl, rfl⟩
  | fail worker error => simp only [writeStep, failItem]; split <;> exact ⟨rfl, rfl, rfl, rfl⟩
  | receive | rawStored | seeded | finish | flush | fanout => cases hop

/-! ### What the handlers leave alone -/

structure SameCore (s s' : WriteState) : Prop where
  rollups : s'.rollups = s.rollups
  queue : s'.queue = s.queue
  held : s'.held = s.held
  bank : s'.bank = s.bank
  stored : s'.stored = s.stored
  published : s'.published = s.published
  waiters : s'.waiters = s.waiters

theorem SameCore.refl (s : WriteState) : SameCore s s := ⟨rfl, rfl, rfl, rfl, rfl, rfl, rfl⟩

theorem SameCore.trans {s s' s'' : WriteState} (h : SameCore s s') (h' : SameCore s' s'') :
    SameCore s s'' :=
  ⟨h'.rollups.trans h.rollups, h'.queue.trans h.queue, h'.held.trans h.held, h'.bank.trans h.bank,
    h'.stored.trans h.stored, h'.published.trans h.published, h'.waiters.trans h.waiters⟩

theorem sameCore_receive (s : WriteState) (rid : ℕ) (clk : Clock) (now : ℚ)
    (requestId : Option String) (drawn : String) (req : MemoryWrite) :
    SameCore s (receiveWrite env s rid clk now requestId drawn req) := by
  unfold receiveWrite
  repeat' split
  all_goals exact ⟨rfl, rfl, rfl, rfl, rfl, rfl, rfl⟩

theorem sameCore_rawStored {s : WriteState} {rid : ℕ} (clk : Clock) (mongo : Option String)
    (gate : LettaGate) (h : ∀ p, s.requests.get? rid = some p → p.stage ≠ .fresh) :
    SameCore s (rawStoredWrite env s rid clk mongo gate) := by
  unfold rawStoredWrite
  repeat' split
  all_goals first
    | exact ⟨rfl, rfl, rfl, rfl, rfl, rfl, rfl⟩
    | exact absurd ‹_› (h _ ‹_›)

theorem sameCore_seeded (s : WriteState) (rid : ℕ) (clk : Clock) (gate : LettaGate) :
    SameCore s (seededWrite env s rid clk gate) := by
  unfold seededWrite
  repeat' split
  all_goals exact ⟨rfl, rfl, rfl, rfl, rfl, rfl, rfl⟩

theorem sameCore_finish (s : WriteState) (rid : ℕ) (gate : LettaGate) (counts : FanoutCounts) :
    SameCore s (finishWrite env s rid gate counts) := by
  unfold finishWrite
  repeat' split
  all_goals exact ⟨rfl, rfl, rfl, rfl, rfl, rfl, rfl⟩

/-- Only the admission of a fresh write changes what the workers see. -/
theorem handler_cases (s : WriteState) {op : WriteOp} (hop : op.isHandler = true) :
    (SameCore s (writeStep env s op) ∧ ∀ rid p clk mongo gate,
        op = .rawStored rid clk mongo gate → s.requests.get? rid = some p → p.stage ≠ .fresh) ∨
      ∃ rid p clk mongo gate, s.requests.get? rid = some p ∧ p.stage = .fresh ∧
        writeStep env s op = admitWrite env s rid p clk mongo gate := by
  cases op with
  | receive => exact .inl ⟨sameCore_receive .., by simp⟩
  | rawStored rid clk mongo gate =>
    by_cases hfresh : ∃ p, s.requests.get? rid = some p ∧ p.stage = .fresh
    · obtain ⟨p, hp, hfresh⟩ := hfresh
      refine .inr ⟨rid, p, clk, mongo, gate, hp, hfresh, ?_⟩
      simp only [writeStep, rawStoredWrite, hp, hfresh]
    · simp only [not_exists, not_and] at hfresh
      exact .inl ⟨sameCore_rawStored env clk mongo gate hfresh, by grind⟩
  | seeded => exact .inl ⟨sameCore_seeded .., by simp⟩
  | finish => exact .inl ⟨sameCore_finish .., by simp⟩
  | flush | take | store | publish | fail | fanout => cases hop

/-! ### What a step does to the requests -/

def PendingWrite.IsPastStoring (p : PendingWrite) : Prop :=
  p.stage = .waiting ∨ p.stage = .finishing

inductive Secured (s : WriteState) (p : PendingWrite) : WriteOp → Prop
  | stored {rid : ℕ} {clk : Clock} {gate : LettaGate} (hp : s.requests.get? rid = some p)
      (hstage : p.stage = .unchanged ∨ p.stage = .fresh) :
      Secured s p (.rawStored rid clk none gate)
  | seeded {rid : ℕ} {clk : Clock} {gate : LettaGate} (hp : s.requests.get? rid = some p)
      (hstage : p.stage = .seeding) : Secured s p (.seeded rid clk gate)
  | before {op : WriteOp} {rid : ℕ} (hp : s.requests.get? rid = some p)
      (hpast : p.IsPastStoring) : Secured s p op

structure Answered (s : WriteState) (rid : ℕ) (a : Except HttpError WriteResponse)
    (s' : WriteState) : Prop where
  requests : s'.requests = s.requests.erase rid
  answers : s'.answers = s.answers ++ [(rid, a)]

structure GoesOn (s : WriteState) (rid : ℕ) (p : PendingWrite) (s' : WriteState) : Prop where
  requests : s'.requests = s.requests.set rid p
  answers : s'.answers = s.answers

structure PendingWrite.Resumes (p' p : PendingWrite) : Prop where
  write : p'.write = p.write
  eventId : p'.eventId = p.eventId
  rawEvent : p'.rawEvent = p.rawEvent
  response : p'.response.SameKind p.response

variable {s s' : WriteState} {rid rid' : ℕ} {p p' : PendingWrite}
  {a a' : Except HttpError WriteResponse}

theorem Answered.get?_of_get? (h : Answered s rid a s')
    (hp : s'.requests.get? rid' = some p) : s.requests.get? rid' = some p := by
  rw [h.requests] at hp
  exact (Dict.get?_erase_eq_some.mp hp).2

theorem Answered.mem_or (h : Answered s rid a s') (hmem : (rid', a') ∈ s'.answers) :
    (rid', a') ∈ s.answers ∨ rid' = rid ∧ a' = a := by
  rw [h.answers, List.mem_append, List.mem_singleton, Prod.mk.injEq] at hmem
  exact hmem

theorem GoesOn.get?_or (h : GoesOn s rid p s') (hp' : s'.requests.get? rid' = some p') :
    rid' = rid ∧ p' = p ∨ s.requests.get? rid' = some p' := by
  rw [h.requests] at hp'
  rcases Dict.get?_set_eq_some.mp hp' with ⟨hrid, rfl⟩ | ⟨-, hp'⟩
  · exact .inl ⟨hrid, rfl⟩
  · exact .inr hp'

inductive HandlerChange (s : WriteState) : WriteOp → WriteState → Prop
  | same {op : WriteOp} {s' : WriteState} (hrequests : s'.requests = s.requests)
      (hanswers : s'.answers = s.answers) : HandlerChange s op s'
  | rejected {rid : ℕ} {clk : Clock} {now : ℚ} {requestId : Option String} {drawn : String}
      {req : MemoryWrite} {s' : WriteState} (e : HttpError) (h : Answered s rid (.error e) s') :
      HandlerChange s (.receive rid clk now requestId drawn req) s'
  | duplicate {rid : ℕ} {clk : Clock} {now : ℚ} {requestId : Option String} {drawn : String}
      {req : MemoryWrite} {s' : WriteState} (w : PreparedWrite)
      (h : Answered s rid (.ok (duplicateResponse env w)) s')
      (hprepare : prepareWrite env.cfg env.lib req = .ok w) :
      HandlerChange s (.receive rid clk now requestId drawn req) s'
  | received {rid : ℕ} {clk : Clock} {now : ℚ} {requestId : Option String} {drawn : String}
      {req : MemoryWrite} {s' : WriteState} {p : PendingWrite} (h : GoesOn s rid p s')
      (hprepare : prepareWrite env.cfg env.lib req = .ok p.write) (hid : p.eventId = drawn)
      (hraw : p.rawEvent = buildRawMemoryEvent clk requestId drawn p.write)
      (hstage : p.stage = .unchanged ∧ p.response = unchangedResponse p.write drawn ∨
        p.stage = .fresh ∧ p.response = freshResponse env p.write drawn) :
      HandlerChange s (.receive rid clk now requestId drawn req) s'
  | admitted {rid : ℕ} {clk : Clock} {mongo : Option String} {gate : LettaGate} {s' : WriteState}
      {p p' : PendingWrite} (h : GoesOn s rid p' s') (hp : s.requests.get? rid = some p)
      (hfresh : p.stage = .fresh) (hresumes : p'.Resumes p)
      (hstage : p'.stage ≠ .unchanged ∧ p'.stage ≠ .fresh)
      (hplaced : s'.rollups = enqueueHotMemoryRollup clk (hotWriteOf env p gate) s.rollups ∨
        s'.queue = s.queue.put (writeItem env rid p mongo gate))
      (hsecured : p'.IsPastStoring → Secured s p (.rawStored rid clk mongo gate)) :
      HandlerChange s (.rawStored rid clk mongo gate) s'
  | moved {op : WriteOp} {rid : ℕ} {s' : WriteState} {p p' : PendingWrite}
      (h : GoesOn s rid p' s') (hp : s.requests.get? rid = some p) (hresumes : p'.Resumes p)
      (hstage : p.stage = .unchanged ∧ p'.stage = .seeding ∨
        p.stage = .seeding ∧ p.response.latestHashUnchanged = false ∧ p'.stage ≠ .unchanged ∧
          p'.stage ≠ .fresh)
      (hsecured : p'.IsPastStoring → Secured s p op) : HandlerChange s op s'
  | failed {op : WriteOp} {rid : ℕ} {s' : WriteState} {p : PendingWrite} (e : HttpError)
      (h : Answered s rid (.error e) s') (hp : s.requests.get? rid = some p)
      (hstage : p.stage = .fresh ∨ p.stage = .waiting) : HandlerChange s op s'
  | completed {op : WriteOp} {rid : ℕ} {s' : WriteState} {p : PendingWrite} {r : WriteResponse}
      (h : Answered s rid (.ok r) s') (hp : s.requests.get? rid = some p)
      (hstage : p.stage ≠ .fresh) (hkind : r.SameKind p.response) (hsecured : Secured s p op) :
      HandlerChange s op s'

private theorem handlerChange_admitWrite {s : WriteState} {rid : ℕ} {p : PendingWrite}
    (hp : s.requests.get? rid = some p) (hfresh : p.stage = .fresh) (clk : Clock)
    (mongo : Option String) (gate : LettaGate) :
    HandlerChange env s (.rawStored rid clk mongo gate)
      (admitWrite env s rid p clk mongo gate) := by
  have hkind : ((p.response.noteMongo mongo).noteLetta env p.write gate).SameKind p.response :=
    (sameKind_noteLetta ..).trans (sameKind_noteMongo ..)
  -- without a stored event the request goes on to seed the retry
  have hsecured {stage : Stage} (hseeding : mongo ≠ none → stage = .seeding)
      (hpast : stage = .waiting ∨ stage = .finishing) :
      Secured s p (.rawStored rid clk mongo gate) := by
    cases mongo with
    | none => exact .stored hp (.inr hfresh)
    | some => simp [hseeding nofun] at hpast
  unfold admitWrite
  split
  · split
    · exact .failed _ ⟨rfl, rfl⟩ hp (.inl hfresh)
    · refine .admitted ⟨rfl, rfl⟩ hp hfresh ⟨rfl, rfl, rfl, hkind⟩ ?_ (.inl rfl)
        (hsecured fun h => if_neg (by simpa using h))
      split <;> simp
  · split
    · exact .failed _ ⟨rfl, rfl⟩ hp (.inl hfresh)
    · rename_i q hput
      refine .admitted ⟨rfl, rfl⟩ hp hfresh ⟨rfl, rfl, rfl, hkind⟩ ?_ (.inr ?_)
        (hsecured fun h => if_pos (Option.isSome_iff_ne_none.mpr h))
      · dsimp only
        repeat' split
        all_goals simp
      · exact enqueueMemoryBankWrite_eq_ok hput

theorem handlerChange (s : WriteState) (op : WriteOp) :
    HandlerChange env s op (writeStep env s op) := by
  have hworker (h : op.isWorker = true) := sameHandlers_of_isWorker env s h
  cases op with
  | receive rid clk now requestId drawn req =>
    simp only [writeStep, receiveWrite]
    split
    · exact .rejected _ ⟨rfl, rfl⟩
    · rename_i w hprepare
      split
      · exact .duplicate w ⟨rfl, rfl⟩ hprepare
      · exact .received ⟨rfl, rfl⟩ hprepare rfl rfl (.inl ⟨rfl, rfl⟩)
      · exact .received ⟨rfl, rfl⟩ hprepare rfl rfl (.inr ⟨rfl, rfl⟩)
  | rawStored rid clk mongo gate =>
    simp only [writeStep, rawStoredWrite]
    split
    · exact .same rfl rfl
    · rename_i p hp
      split
      · rename_i hstage
        split
        · exact .completed ⟨rfl, rfl⟩ hp (by simp [hstage]) (sameKind_noteMongo ..)
            (.stored hp (.inl hstage))
        · exact .moved ⟨rfl, rfl⟩ hp ⟨rfl, rfl, rfl, sameKind_noteMongo ..⟩ (.inl ⟨hstage, rfl⟩)
            (by simp [PendingWrite.IsPastStoring])
      · exact handlerChange_admitWrite env hp ‹_› clk mongo gate
      · exact .same rfl rfl
  | seeded rid clk gate =>
    simp only [writeStep, seededWrite]
    split
    · exact .same rfl rfl
    · rename_i p hp
      split
      · rename_i hstage
        split
        · exact .completed ⟨rfl, rfl⟩ hp (by simp [hstage]) ⟨rfl, rfl, rfl⟩ (.seeded hp hstage)
        · rename_i hnot
          refine .moved ⟨rfl, rfl⟩ hp ⟨rfl, rfl, rfl, rfl, rfl, rfl⟩
            (.inr ⟨hstage, Bool.eq_false_of_not_eq_true hnot, ?_⟩) fun _ => .seeded hp hstage
          split <;> simp
      · exact .same rfl rfl
  | finish rid gate counts =>
    simp only [writeStep, finishWrite]
    split
    · exact .same rfl rfl
    · rename_i p hp
      split
      · rename_i hstage
        exact .completed ⟨rfl, rfl⟩ hp (by simp [hstage]) (sameKind_noteBacklog ..)
          (.before hp (.inr hstage))
      · rename_i hstage
        split
        · exact .same rfl rfl
        · exact .completed ⟨rfl, rfl⟩ hp (by simp [hstage]) (sameKind_noteBacklog ..)
            (.before hp (.inl hstage))
        · exact .failed _ ⟨rfl, rfl⟩ hp (.inr hstage)
      · exact .same rfl rfl
  | flush | fanout => exact .same rfl rfl
  | take | store | publish | fail => exact .same (hworker rfl).requests (hworker rfl).answers

/-! ### What a step does to the items -/

inductive BankChange (s : WriteState) : WriteOp → WriteState → Prop
  | puts {op : WriteOp} {s' : WriteState} (items : List BankItem)
      (hqueue : s'.queue = items.foldl BankQueue.put s.queue) (hheld : s'.held = s.held)
      (hbank : s'.bank = s.bank) (hstored : s'.stored = s.stored)
      (hpublished : s'.published = s.published) : BankChange s op s'
  | taken {worker : ℕ} {item : BankItem} {rest : List BankItem}
      (hidle : s.held.get? worker = none) (hqueue : s.queue.items = item :: rest) :
      BankChange s (.take worker)
        { s with queue := s.queue.tail, held := s.held.set worker ⟨item, false⟩ }
  | stored {worker : ℕ} {item : BankItem} (hheld : s.held.get? worker = some ⟨item, false⟩) :
      BankChange s (.store worker)
        { s with
          held := s.held.set worker ⟨item, true⟩
          bank := s.bank.set (item.project, item.fileName) item.content
          stored := s.stored ++ [item] }
  | published {worker : ℕ} {clk : Clock} {drawn : String} {gate : LettaGate} {item : BankItem}
      (ob : OutboxState FanoutRest) (hheld : s.held.get? worker = some ⟨item, true⟩) :
      BankChange s (.publish worker clk drawn gate)
        (WriteState.finishJob { s with outbox := ob, published := s.published ++ [item] } worker
          item none)
  | failed {worker : ℕ} {error : String} {job : BankJob}
      (hheld : s.held.get? worker = some job) :
      BankChange s (.fail worker error) (s.finishJob worker job.item (some error))

theorem BankChange.refl (s : WriteState) (op : WriteOp) : BankChange s op s :=
  .puts [] rfl rfl rfl rfl rfl

private theorem bankChange_admitWrite (s : WriteState) (rid : ℕ) (p : PendingWrite) (clk : Clock)
    (mongo : Option String) (gate : LettaGate) (op : WriteOp) :
    BankChange s op (admitWrite env s rid p clk mongo gate) := by
  unfold admitWrite
  split
  · split <;> exact .puts [] rfl rfl rfl rfl rfl
  · split
    · exact .puts [] rfl rfl rfl rfl rfl
    · rename_i hput
      exact .puts [writeItem env rid p mongo gate] (enqueueMemoryBankWrite_eq_ok hput)
        rfl rfl rfl rfl

theorem bankChange (s : WriteState) (op : WriteOp) : BankChange s op (writeStep env s op) := by
  have hhandler (h : op.isHandler = true) := handler_cases env s h
  cases op with
  | receive | rawStored | seeded | finish =>
    rcases hhandler rfl with ⟨h, -⟩ | ⟨rid, p, clk, mongo, gate, -, -, heq⟩
    · exact .puts [] h.queue h.held h.bank h.stored h.published
    · rw [heq]
      exact bankChange_admitWrite ..
  | flush clk now force drawn =>
    obtain ⟨items, hitems⟩ := exists_foldl_put_flush env.cfg env.lib clk now force drawn s.rollups
      s.queue
    exact .puts items hitems rfl rfl rfl rfl
  | take worker =>
    simp only [writeStep, takeItem]
    split
    · exact .taken ‹_› ‹_›
    · exact .refl ..
  | store worker =>
    simp only [writeStep, storeItem]
    split
    · exact .stored ‹_›
    · exact .refl ..
  | publish worker clk drawn gate =>
    simp only [writeStep, publishItem]
    split
    · exact .published _ ‹_›
    · exact .refl ..
  | fail worker error =>
    simp only [writeStep, failItem]
    split
    · exact .failed ‹_›
    · exact .refl ..
  | fanout op => exact .puts [] rfl rfl rfl rfl rfl

/-! ### A process to run -/

def WriteLib.plain : WriteLib where
  py := .ascii
  unquote := id
  fnmatch _ _ := false
  sha256 := id
  containsSensitiveValue _ := false
  redactSensitiveValues := id

def WriteEnv.plain : WriteEnv := ⟨.default, .default, .plain⟩

def requestOps (rid : ℕ) (now : ℚ) (drawn file content : String) : List WriteOp :=
  [.receive rid .noon now none drawn ⟨"docs", file, content, none⟩,
    .rawStored rid .noon none {}, .finish rid {} {}]

def workerOps (worker : ℕ) : List WriteOp :=
  [.take worker, .store worker, .publish worker .noon "" {}]

end ContextLattice
