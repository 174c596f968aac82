import ContextLattice.Foundation.Search
import ContextLattice.Outbox.System

/-!
# Two backends and the switch between them

Which of Mongo and SQLite is **active** is a global that errors switch. The rows stay in the table
they are in, and a mark goes to the table that is active by then.
-/

namespace ContextLattice

open Foundation

variable {π : Type*}

inductive Backend where
  | mongo | sqlite
deriving DecidableEq, Repr

def Backend.other : Backend → Backend
  | mongo => sqlite
  | sqlite => mongo

theorem Backend.eq_other_of_ne {b c : Backend} (h : b ≠ c) : b = c.other := by
  cases b <;> cases c <;> first | rfl | exact absurd rfl h

theorem Backend.other_ne (b : Backend) : b.other ≠ b := by cases b <;> decide

structure SwitchConfig extends OutboxConfig where
  py : Python
  fanoutOutboxFallbackToSqlite : Bool
  fanoutOutboxAutoPromoteMongoOnSqliteIoError : Bool
  mongoRank : ℕ → ℕ
  readMongoId : ℕ → Option ℕ

def SwitchConfig.default : SwitchConfig where
  toOutboxConfig := .default
  py := .ascii
  fanoutOutboxFallbackToSqlite := true
  fanoutOutboxAutoPromoteMongoOnSqliteIoError := true
  mongoRank := id
  readMongoId := fun _ => none

def SwitchConfig.table (cfg : SwitchConfig) : Backend → OutboxConfig
  | .mongo => { cfg.toOutboxConfig with rank := cfg.mongoRank }
  | .sqlite => cfg.toOutboxConfig

def isSqliteDiskIoError (py : Python) (message : String) : Bool :=
  let text := py.lower message
  isIn "disk i/o error" text || isIn "database is locked" text ||
    isIn "unable to open database file" text

/-! ### The two tables -/

structure Backends (π : Type*) where
  mongo : OutboxState π
  sqlite : OutboxState π
  active : Backend

namespace Backends

def get (s : Backends π) : Backend → OutboxState π
  | .mongo => s.mongo
  | .sqlite => s.sqlite

def set (s : Backends π) (b : Backend) (t : OutboxState π) : Backends π :=
  match b with
  | .mongo => { s with mongo := t }
  | .sqlite => { s with sqlite := t }

def fresh (active : Backend) : Backends π := ⟨.empty, .empty, active⟩

@[simp] theorem active_set (s : Backends π) (b : Backend) (t : OutboxState π) :
    (s.set b t).active = s.active := by cases b <;> rfl

@[simp] theorem get_set (s : Backends π) (b c : Backend) (t : OutboxState π) :
    (s.set b t).get c = if c = b then t else s.get c := by cases b <;> cases c <;> rfl

end Backends

inductive BackendOp (π : Type*) where
  | table (b : Backend) (op : OutboxOp π)
  | mark (b origin : Backend) (op : OutboxOp π)
  | demote
  /-- `_promote_outbox_backend_to_mongo_if_sqlite_error`; `connected` is what
  `init_fanout_outbox_mongo_client` answers. -/
  | promote (reason : String) (connected : Bool)

def OutboxOp.isMark : OutboxOp π → Bool
  | .markSuccess .. | .markRetry .. | .markFailed .. => true
  | _ => false

variable (cfg : SwitchConfig)

def demotes (s : Backends π) : Bool :=
  decide (s.active = .mongo) && cfg.fanoutOutboxFallbackToSqlite

def promotes (s : Backends π) (reason : String) (connected : Bool) : Bool :=
  decide (s.active = .sqlite) && cfg.fanoutOutboxAutoPromoteMongoOnSqliteIoError &&
    isSqliteDiskIoError cfg.py reason && connected

def strayId (origin : Backend) (i : ℕ) : Option ℕ :=
  match origin with
  | .mongo => cfg.readMongoId i
  | .sqlite => none

def strayMark (origin : Backend) (source : OutboxState π) (ob : Outbox π) :
    OutboxOp π → Outbox π
  | .markSuccess clk w i =>
    match source.job? w i, strayId cfg origin i with
    | some h, some j => if h.delivered then markFanoutSuccess clk j ob else ob
    | _, _ => ob
  | .markRetry clk w i jitter error =>
    match source.job? w i, strayId cfg origin i with
    | some h, some j =>
      markFanoutRetry cfg.toOutboxConfig clk { h.job with id := j } jitter error ob
    | _, _ => ob
  | .markFailed clk w i error =>
    match source.job? w i, strayId cfg origin i with
    | some _, some j => markFanoutFailed clk j error ob
    | _, _ => ob
  | _ => ob

def tableAfter (s : Backends π) (b : Backend) (op : OutboxOp π) : OutboxState π :=
  if op.isMark then s.get b else outboxStep (cfg.table b) (s.get b) op

def markedTable (s : Backends π) (b origin : Backend) (op : OutboxOp π) : OutboxState π :=
  if !op.isMark then s.get b
  else if b = origin then outboxStep (cfg.table b) (s.get b) op
  else { s.get b with outbox := strayMark cfg origin (s.get origin) (s.get b).outbox op }

def backendStep (s : Backends π) : BackendOp π → Backends π
  | .table b op => s.set b (tableAfter cfg s b op)
  | .mark b origin op => s.set b (markedTable cfg s b origin op)
  | .demote => if demotes cfg s then { s with active := .sqlite } else s
  | .promote reason connected =>
    if promotes cfg s reason connected then { s with active := .mongo } else s

/-! ### The calls -/

/-- Whether and where the calls of the two databases raise, and whether Mongo can be reached for a
promotion. -/
structure Faults where
  mongo : Option (ℕ × String) := none
  sqlite : Option String := none
  connected : Bool := true
  again : Option ℕ := none

def sqliteCall (active : Backend) (full : List (OutboxOp π)) (part : ℕ → List (OutboxOp π))
    (faults : Faults) : List (BackendOp π) :=
  match faults.sqlite with
  | none => full.map (.table .sqlite)
  | some error =>
    .promote error faults.connected ::
      if promotes cfg (Backends.fresh active : Backends π) error faults.connected then
        match faults.again with
        | none => full.map (.table .mongo)
        | some n => (part n).map (.table .mongo)
      else []

/-- `enqueue_fanout_outbox`, `claim_fanout_batch`: the transactions `full`, of which Mongo has run
`part n` when it raises. -/
def outboxCall (active : Backend) (full : List (OutboxOp π)) (part : ℕ → List (OutboxOp π))
    (faults : Faults) : List (BackendOp π) :=
  match active, faults.mongo with
  | .mongo, none => full.map (.table .mongo)
  | .mongo, some (n, _) =>
    (part n).map (.table .mongo) ++ .demote ::
      sqliteCall cfg (if cfg.fanoutOutboxFallbackToSqlite then .sqlite else .mongo) full part faults
  | .sqlite, _ => sqliteCall cfg .sqlite full part faults

def enqueueCall (active : Backend) (clk : Clock) (force : Bool) (drawn : String)
    (event : FanoutEvent π) (targets : List FanoutTarget) (faults : Faults) : List (BackendOp π) :=
  let full : List (OutboxOp π) := targets.map (.enqueue clk force drawn event)
  outboxCall cfg active full full.take faults

def claimCall (active : Backend) (clk : Clock) (w : ℕ) (limit : ℤ)
    (target excludeTarget : Option FanoutTarget) (faults : Faults) : List (BackendOp π) :=
  outboxCall cfg active [.claim clk w limit target excludeTarget]
    (fun n => if n = 0 then [] else [.claim clk w n target excludeTarget, .restart w]) faults

/-- `mark_fanout_success`, `mark_fanout_failed`, `mark_fanout_retry`: one transaction on the active
backend, no fallback. -/
def markCall (active origin : Backend) (op : OutboxOp π) : List (BackendOp π) :=
  [.mark active origin op]

/-! ### What a switch leaves behind -/

variable {cfg : SwitchConfig} {s : Backends π} {op : BackendOp π}

def Done (ob : Outbox π) : Prop := ∀ r ∈ ob.rows, r.status.outstanding = false

def AllClaimable (s : Backends π) : Prop := Done (s.get s.active.other).outbox

/-- Then a row that waits is in the table that the workers claim from, and due when its time has
come. -/
theorem AllClaimable.due (h : AllClaimable s) {b : Backend} {r : OutboxRow π} {clk : Clock}
    (hr : r ∈ (s.get b).outbox.rows) (hwaiting : r.status.waiting = true)
    (hnext : r.nextAttemptAt ≤ clk.now) : b = s.active ∧ dueJob clk none none r = true := by
  refine ⟨?_, by simp [dueJob, hwaiting, hnext]⟩
  by_contra hb
  rw [Backend.eq_other_of_ne hb] at hr
  exact absurd (h r hr) (by simp [JobStatus.outstanding_of_waiting hwaiting])

def MarkApplied (cfg : SwitchConfig) (s : Backends π) : BackendOp π → Prop
  | .mark b origin op => op.isMark = true →
    ((backendStep cfg s (.mark b origin op)).get origin).outbox =
      (outboxStep (cfg.table origin) (s.get origin) op).outbox
  | _ => True

/-- The id under which the table of `b` looks for the row of a job claimed from `origin`. -/
def markedId (cfg : SwitchConfig) (b origin : Backend) (i : ℕ) : Option ℕ :=
  if b = origin then some i else strayId cfg origin i

/-- The operation adds no outstanding row to a table without one: an enqueue finds its key there and
does not force the row. -/
def AddsNone (ob : Outbox π) : OutboxOp π → Prop
  | .enqueue _ force drawn event target => force = false ∧
    ∃ r ∈ ob.rows, r.dedupeKey = dedupeKeyOf (effectiveEventId drawn event) target
  | _ => True

/-- A retry finds no row in the table of `b`, or is for a job without attempts left. -/
def RetriesNone (cfg : SwitchConfig) (s : Backends π) (b origin : Backend) : OutboxOp π → Prop
  | .markRetry _ w i _ _ => ∀ h ∈ (s.get origin).job? w i, ∀ j ∈ markedId cfg b origin i,
    attemptsLeft cfg.toOutboxConfig h.job = false ∨ ∀ r ∈ (s.get b).outbox.rows, r.id ≠ j
  | _ => True

/-- A backend is left when its table has no outstanding row, and the table that is not active (that
of a call made before the switch) gets none. -/
def LeavesDone (cfg : SwitchConfig) (s : Backends π) : BackendOp π → Prop
  | .table b op => b = s.active ∨ AddsNone (s.get b).outbox op
  | .mark b origin op => b = s.active ∨ RetriesNone cfg s b origin op
  | .demote => demotes cfg s = true → Done s.mongo.outbox
  | .promote reason connected => promotes cfg s reason connected = true → Done s.sqlite.outbox

def MarksOrigin (cfg : SwitchConfig) (s : Backends π) : BackendOp π → Prop
  | .mark b origin op => op.isMark = true → b = origin ∨
    (outboxStep (cfg.table origin) (s.get origin) op).outbox = (s.get origin).outbox
  | _ => True

instance (ob : Outbox π) : Decidable (Done ob) :=
  inferInstanceAs (Decidable (∀ r ∈ ob.rows, _))

theorem done_update_iff {ob : Outbox π} (hdone : Done ob) {f : OutboxRow π → OutboxRow π}
    (hf : ∀ r, (f r).toRowIdent = r.toRowIdent) (j : ℕ) : Done (ob.update j f hf) ↔
      ∀ r ∈ ob.rows, r.id = j → (f r).status.outstanding = false := by
  constructor
  · rintro h r hr rfl
    exact h _ (Outbox.mem_update hr)
  · intro h r' hr'
    obtain ⟨r, hr, rfl⟩ := Outbox.mem_updateWhere.mp hr'
    split
    · exact h r hr (of_decide_eq_true ‹_›)
    · exact hdone r hr

theorem done_step_iff {cfg : OutboxConfig} {t : OutboxState π} (hdone : Done t.outbox)
    {op : OutboxOp π} (hmark : op.isMark = false) :
    Done (outboxStep cfg t op).outbox ↔ AddsNone t.outbox op := by
  cases op with
  | enqueue clk force drawn event target =>
    have hplaced := placed_enqueueTarget cfg clk force drawn event target t.outbox
    change Done (enqueueTarget cfg clk force drawn event target t.outbox) ↔ _
    generalize enqueueTarget cfg clk force drawn event target t.outbox = ob' at hplaced ⊢
    cases hplaced with
    | coalesced h =>
      obtain ⟨hrow, -, -, -, hwaiting, -⟩ := coalesceCandidate_eq_some h
      exact absurd (hdone _ hrow) (by simp [JobStatus.outstanding_of_waiting hwaiting])
    | requeued hforce h =>
      refine iff_of_false (fun hd => ?_) (by simp [AddsNone, hforce])
      exact nomatch hd _ (Outbox.mem_update (Outbox.findKey?_eq_some h).1)
    | existing hforce _ h => exact iff_of_true hdone ⟨hforce, _, Outbox.findKey?_eq_some h⟩
    | inserted _ h =>
      refine iff_of_false (fun hd => ?_) ?_
      · exact nomatch hd _ (Outbox.mem_insert_self _ _ _ h)
      · rintro ⟨-, r, hr, hkey⟩
        exact absurd hkey (by simpa using List.find?_eq_none.mp h r hr)
  | markSuccess | markRetry | markFailed => cases hmark
  | _ =>
    refine iff_of_true (fun r' hr' => ?_) trivial
    rcases exists_change_of_mem hr' with ⟨r, hr, hchange⟩ | hinsert
    · have hr := hdone r hr
      cases hchange
      all_goals first
        | exact hr
        | rfl
        | exact absurd (JobStatus.outstanding_of_waiting ‹_›) (by simp [hr])
        | exact absurd hr (by simp [JobStatus.outstanding, *])
    · cases hinsert

theorem done_mark_iff {b : Backend} (hdone : Done (s.get b).outbox) (origin : Backend)
    (op : OutboxOp π) :
    Done (markedTable cfg s b origin op).outbox ↔ RetriesNone cfg s b origin op := by
  cases op with
  | markRetry clk w i jitter error =>
    have hretry : ∀ job, Done (markFanoutRetry cfg.toOutboxConfig clk job jitter error
        (s.get b).outbox) ↔ attemptsLeft cfg.toOutboxConfig job = false ∨
          ∀ r ∈ (s.get b).outbox.rows, r.id ≠ job.id := by
      intro job
      refine (done_update_iff hdone (fun _ => by rfl) job.id).trans ?_
      simp only [retryWrite]
      cases attemptsLeft cfg.toOutboxConfig job <;> simp [JobStatus.outstanding]
    simp only [RetriesNone, markedTable, markedId, OutboxOp.isMark, Bool.not_true,
      Bool.false_eq_true, if_false]
    by_cases hsame : b = origin
    · subst hsame
      have htable : @markFanoutRetry π (cfg.table b) = markFanoutRetry cfg.toOutboxConfig := by
        cases b <;> rfl
      rcases hjob : (s.get b).job? w i with _ | h
      · simpa [outboxStep, hjob] using hdone
      · obtain ⟨-, -, rfl⟩ := OutboxState.job?_eq_some hjob
        simpa [outboxStep, hjob, htable] using hretry h.job
    · rcases hjob : (s.get origin).job? w i with _ | h
      · simpa [hsame, strayMark, hjob] using hdone
      · rcases hid : strayId cfg origin i with _ | j
        · simpa [hsame, strayMark, hjob, hid] using hdone
        · simp only [hsame, strayMark, hjob, hid, if_false, Option.mem_some_iff, forall_eq']
          exact hretry { h.job with id := j }
  | markSuccess | markFailed =>
    refine iff_of_true ?_ trivial
    simp only [markedTable, OutboxOp.isMark, Bool.not_true, Bool.false_eq_true, if_false,
      outboxStep, strayMark]
    repeat' split
    all_goals first
      | exact hdone
      | exact (done_update_iff hdone (fun _ => by rfl) _).mpr fun _ _ _ => by rfl
  | _ => exact iff_of_true hdone trivial

theorem allClaimable_set_iff (h : AllClaimable s) (b : Backend) (t : OutboxState π) :
    AllClaimable (s.set b t) ↔ b = s.active ∨ Done t.outbox := by
  rw [AllClaimable, Backends.active_set, Backends.get_set]
  by_cases hb : b = s.active
  · rw [if_neg (hb ▸ s.active.other_ne)]
    exact iff_of_true h (.inl hb)
  · rw [if_pos (Backend.eq_other_of_ne hb).symm, or_iff_right hb]

theorem allClaimable_step_iff (h : AllClaimable s) (op : BackendOp π) :
    AllClaimable (backendStep cfg s op) ↔ LeavesDone cfg s op := by
  cases op with
  | table b op =>
    refine (allClaimable_set_iff h b _).trans (or_congr_right' fun hb => ?_)
    have hdone : Done (s.get b).outbox := Backend.eq_other_of_ne hb ▸ h
    rw [tableAfter]
    split
    · refine iff_of_true hdone ?_
      cases op <;> trivial
    · exact done_step_iff hdone (Bool.eq_false_of_not_eq_true ‹_›)
  | mark b origin op =>
    refine (allClaimable_set_iff h b _).trans (or_congr_right' fun hb => ?_)
    exact done_mark_iff (Backend.eq_other_of_ne hb ▸ h) origin op
  | demote =>
    rw [backendStep, LeavesDone]
    split
    · rename_i hdemotes
      exact ⟨fun hdone _ => hdone, fun hdone => hdone hdemotes⟩
    · exact iff_of_true h fun hdemotes => absurd hdemotes ‹_›
  | promote reason connected =>
    rw [backendStep, LeavesDone]
    split
    · rename_i hpromotes
      exact ⟨fun hdone _ => hdone, fun hdone => hdone hpromotes⟩
    · exact iff_of_true h fun hpromotes => absurd hpromotes ‹_›

theorem markApplied_iff (op : BackendOp π) : MarkApplied cfg s op ↔ MarksOrigin cfg s op := by
  cases op with
  | mark b origin op =>
    refine forall_congr' fun hmark => ?_
    rw [backendStep, Backends.get_set, markedTable, hmark, Bool.not_true, if_neg Bool.false_ne_true]
    by_cases hb : b = origin
    · subst hb
      simp
    · rw [if_neg (Ne.symm hb), or_iff_right hb]
      exact eq_comm
  | _ => exact Iff.rfl

/-- **Nothing is lost** exactly when no step leaves outstanding rows in a table that is not active
and every mark finds the backend of its job. -/
theorem lostNothing_iff (cfg : SwitchConfig) (active : Backend) (es : List (BackendOp π)) :
    ((∀ pre post, es = pre ++ post → AllClaimable (run (backendStep cfg) (.fresh active) pre)) ∧
      ∀ pre op post, es = pre ++ op :: post →
        MarkApplied cfg (run (backendStep cfg) (.fresh active) pre) op) ↔
      Along (backendStep cfg) (fun s op => LeavesDone cfg s op ∧ MarksOrigin cfg s op)
        (.fresh active) es := by
  have hempty : AllClaimable (.fresh active : Backends π) := by
    cases active <;> exact fun _ => nofun
  generalize (Backends.fresh active : Backends π) = s at hempty ⊢
  have hclaimable : (∀ pre post, es = pre ++ post → AllClaimable (run (backendStep cfg) s pre)) ↔
      Along (backendStep cfg) (LeavesDone cfg) s es :=
    forall_run_iff_along_of_step (P := AllClaimable) (fun _ op h => allClaimable_step_iff h op)
      hempty
  rw [hclaimable, along_iff, along_iff]
  constructor
  · rintro ⟨hleaves, hmarks⟩ pre op post hes
    exact ⟨hleaves pre op post hes, (markApplied_iff op).mp (hmarks pre op post hes)⟩
  · intro h
    exact ⟨fun pre op post hes => (h pre op post hes).1,
      fun pre op post hes => (markApplied_iff op).mpr (h pre op post hes).2⟩

/-! ### A demotion with a batch in flight -/

def memoryEvent (eventId : String) : FanoutEvent Unit :=
  ⟨eventId, "app", "a.md", "note", "", [], ()⟩

def demotedRun (cfg : SwitchConfig) : List (BackendOp Unit) :=
  let clk := Clock.frozen "10:00:00Z"
  enqueueCall cfg .mongo clk false "" (memoryEvent "e1") [.mongoRaw, .qdrant] {} ++
    claimCall cfg .mongo clk 0 1 none none {} ++ [.table .mongo (.deliver 0 1)] ++
    enqueueCall cfg .mongo clk false "" (memoryEvent "e2") [.mongoRaw]
      { mongo := some (0, "connection refused") } ++
    markCall .sqlite .mongo (.markSuccess clk 0 1) ++
    claimCall cfg .sqlite clk 0 24 none none {}

def rowSummary {π : Type*} (t : OutboxState π) : List (ℕ × String × JobStatus) :=
  t.outbox.rows.map fun r => (r.id, r.eventId, r.status)

/-- **Rows are stranded.** The job that was pushed stays running in Mongo, the other row there stays
pending, and the worker claims from SQLite. -/
theorem stranded_by_demotion :
    (run (backendStep .default) (.fresh .mongo) (demotedRun .default)).active = .sqlite ∧
      rowSummary (run (backendStep .default) (.fresh .mongo) (demotedRun .default)).mongo =
        [(1, "e1", .running), (2, "e1", .pending)] ∧
      rowSummary (run (backendStep .default) (.fresh .mongo) (demotedRun .default)).sqlite =
        [(1, "e2", .running)] := by
  decide +kernel

end ContextLattice
