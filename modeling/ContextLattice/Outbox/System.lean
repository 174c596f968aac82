import ContextLattice.Foundation.Run
import ContextLattice.Outbox.Row

/-!
# The outbox with its workers

Workers claim batches of due rows, push the payloads they were handed (each row **as it was
claimed**), and then mark the rows by their id alone. A step is one transaction, or one successful
push; histories are read by no operation.
-/

namespace ContextLattice

open Foundation List

variable {π : Type*}

/-! ### Claiming and recovery -/

variable (cfg : OutboxConfig) (clk : Clock)

def dueJob (target excludeTarget : Option FanoutTarget) (r : OutboxRow π) : Bool :=
  r.status.waiting && decide (r.nextAttemptAt ≤ clk.now) &&
    match target, excludeTarget with
    | some t, _ => decide (r.target = t)
    | none, some t => decide (r.target ≠ t)
    | none, none => true

def dueFirst (a b : OutboxRow π) : Prop :=
  a.nextAttemptAt < b.nextAttemptAt ∨
    a.nextAttemptAt = b.nextAttemptAt ∧ cfg.rank a.id ≤ cfg.rank b.id

instance : DecidableRel (@dueFirst π cfg) := fun _ _ => inferInstanceAs (Decidable (_ ∨ _))

def claimJobWrite (r : OutboxRow π) : OutboxRow π :=
  { r with
    status := .running
    attempts := r.attempts + 1
    lastAttemptAt := some clk.now
    updatedAt := clk.now }

def dueIds (limit : ℤ) (target excludeTarget : Option FanoutTarget) (ob : Outbox π) : List ℕ :=
  (((ob.rows.filter (dueJob clk target excludeTarget)).insertionSort (dueFirst cfg)).take
    (max 1 (min limit 256)).toNat).map fun r => r.id

def claimFanoutBatch (limit : ℤ) (target excludeTarget : Option FanoutTarget) (ob : Outbox π) :
    Outbox π × List (OutboxRow π) :=
  let ids := dueIds cfg clk limit target excludeTarget ob
  let ob' := ob.updateWhere (fun r => decide (r.id ∈ ids)) (claimJobWrite clk) fun _ => rfl
  (ob', ids.filterMap ob'.find?)

def recoverJobWrite (r : OutboxRow π) : OutboxRow π :=
  { r with
    status := .retrying
    nextAttemptAt := clk.now
    updatedAt := clk.now
    lastError := if r.lastError.getD "" = "" then
      some "Recovered stale running fanout job after worker restart" else r.lastError }

def staleRunning (maxAgeSecs : ℤ) (r : OutboxRow π) : Bool :=
  decide (r.status = .running) &&
    r.lastAttemptAt.all fun last => decide (last ≤ clk.ago (max 0 maxAgeSecs : ℤ))

def recoverStaleRunningJobs (maxAgeSecs : ℤ) (ob : Outbox π) : Outbox π :=
  ob.updateWhere (staleRunning clk maxAgeSecs) (recoverJobWrite clk) fun _ => rfl

/-! ### Marks -/

def successWrite (r : OutboxRow π) : OutboxRow π :=
  { r with
    status := .succeeded, completedAt := some clk.now, updatedAt := clk.now, lastError := none }

def markFanoutSuccess (jobId : ℕ) (ob : Outbox π) : Outbox π :=
  ob.update jobId (successWrite clk) fun _ => rfl

def failureWrite (error : String) (r : OutboxRow π) : OutboxRow π :=
  { r with
    status := .failed
    nextAttemptAt := clk.now
    completedAt := some clk.now
    updatedAt := clk.now
    lastError := some (truncate 2000 error) }

def markFanoutFailed (jobId : ℕ) (error : String) (ob : Outbox π) : Outbox π :=
  ob.update jobId (failureWrite clk error) fun _ => rfl

def failLettaBacklog (error : String) (ob : Outbox π) : Outbox π :=
  ob.updateWhere (fun r => decide (r.target = .letta) && r.status.outstanding)
    (failureWrite clk error) fun _ => rfl

def backoffSeconds (attempt : ℕ) (jitter : ℚ) : ℚ :=
  min (cfg.fanoutRetryBaseSecs * 2 ^ (attempt - 1)) cfg.fanoutRetryMaxSecs + jitter

def attemptsLeft (job : OutboxRow π) : Bool :=
  decide (job.attempts < if job.maxAttempts = 0 then cfg.fanoutMaxAttempts else job.maxAttempts)

def retryWrite (job : OutboxRow π) (jitter : ℚ) (error : String) (r : OutboxRow π) :
    OutboxRow π :=
  { r with
    status := if attemptsLeft cfg job then .retrying else .failed
    nextAttemptAt := if attemptsLeft cfg job then
      clk.after (backoffSeconds cfg job.attempts jitter) else clk.now
    updatedAt := clk.now
    lastError := some (truncate 2000 error)
    completedAt := if attemptsLeft cfg job then r.completedAt else some clk.now }

def markFanoutRetry (job : OutboxRow π) (jitter : ℚ) (error : String) (ob : Outbox π) : Outbox π :=
  ob.update job.id (retryWrite cfg clk job jitter error) fun _ => rfl

/-! ### Deletion -/

def outboxGcCutoffIso (hours : ℤ) : Stamp := clk.ago ((max 0 hours : ℤ) * 3600)

def gcExpired (succeededHours failedHours staleHours : ℤ) (staleTargets : List FanoutTarget)
    (r : OutboxRow π) : Bool :=
  match r.status with
  | .succeeded =>
    decide (r.completedAt.getD r.updatedAt < outboxGcCutoffIso clk succeededHours)
  | .failed => decide (r.completedAt.getD r.updatedAt < outboxGcCutoffIso clk failedHours)
  | _ =>
    decide (r.target ∈ staleTargets) &&
      decide (r.lastAttemptAt.getD r.updatedAt < outboxGcCutoffIso clk staleHours)

def pruneStatuses (statuses : List JobStatus) : List JobStatus :=
  let normalized := statuses.filter JobStatus.outstanding
  if normalized = [] then [.pending, .retrying] else normalized

def pruneIds (cfg : OutboxConfig) (statuses : List JobStatus) (limit : ℤ)
    (matched : OutboxRow π → Bool) (ob : Outbox π) : List ℕ :=
  ((((ob.rows.filter fun r => decide (r.target = .letta ∧ r.status ∈ pruneStatuses statuses)
    ).insertionSort fun a b => newestFirst cfg b a).filter matched).take
      (max 1 (min limit 250000)).toNat).map fun r => r.id

/-! ### The system -/

structure HeldJob (π : Type*) where
  worker : ℕ
  job : OutboxRow π
  delivered : Bool

def HeldJob.isJob (h : HeldJob π) (w i : ℕ) : Bool := decide (h.worker = w ∧ h.job.id = i)

structure Replacement (π : Type*) where
  target : FanoutTarget
  old : FanoutEvent π
  new : FanoutEvent π

structure OutboxState (π : Type*) where
  outbox : Outbox π
  held : List (HeldJob π) := []
  delivered : List (FanoutTarget × FanoutEvent π) := []
  replaced : List (Replacement π) := []
  deleted : List (FanoutTarget × FanoutEvent π) := []

namespace OutboxState

def empty : OutboxState π := { outbox := .empty }

def job? (s : OutboxState π) (w i : ℕ) : Option (HeldJob π) :=
  s.held.find? fun h => h.isJob w i

def delete (s : OutboxState π) (p : OutboxRow π → Bool) : OutboxState π :=
  { s with
    outbox := s.outbox.deleteWhere p
    deleted := s.deleted ++ (s.outbox.rows.filter p).map fun r => (r.target, r.payload) }

end OutboxState

inductive OutboxOp (π : Type*) where
  | enqueue (clk : Clock) (force : Bool) (drawn : String) (event : FanoutEvent π)
      (target : FanoutTarget)
  | claim (clk : Clock) (worker : ℕ) (limit : ℤ) (target excludeTarget : Option FanoutTarget)
  | deliver (worker jobId : ℕ)
  | markSuccess (clk : Clock) (worker jobId : ℕ)
  | markRetry (clk : Clock) (worker jobId : ℕ) (jitter : ℚ) (error : String)
  | markFailed (clk : Clock) (worker jobId : ℕ) (error : String)
  | failLetta (clk : Clock) (error : String)
  | recover (clk : Clock) (maxAgeSecs : ℤ)
  | gc (clk : Clock) (succeededHours failedHours staleHours : ℤ)
      (staleTargets : List FanoutTarget)
  | prune (statuses : List JobStatus) (limit : ℤ) (matched : OutboxRow π → Bool)
  | restart (worker : ℕ)

def overwrittenRow (clk : Clock) (force : Bool) (drawn : String) (event : FanoutEvent π)
    (target : FanoutTarget) (ob : Outbox π) : Option (OutboxRow π) :=
  match coalesceCandidate cfg clk force event target ob with
  | some row => some row
  | none => if force then ob.findKey? (dedupeKeyOf (effectiveEventId drawn event) target) else none

def outboxStep (s : OutboxState π) : OutboxOp π → OutboxState π
  | .enqueue clk force drawn event target =>
    { s with
      outbox := enqueueTarget cfg clk force drawn event target s.outbox
      replaced := s.replaced ++
        (overwrittenRow cfg clk force drawn event target s.outbox).toList.map fun row =>
          ⟨target, row.payload, event⟩ }
  | .claim clk worker limit target excludeTarget =>
    let (ob', jobs) := claimFanoutBatch cfg clk limit target excludeTarget s.outbox
    { s with
      outbox := ob'
      -- a worker comes back for a batch when it is done with the last one
      held := s.held.filter (fun h => decide (h.worker ≠ worker)) ++
        jobs.map fun job => ⟨worker, job, false⟩ }
  | .deliver worker jobId =>
    { s with
      held := s.held.map fun h =>
        if h.isJob worker jobId then { h with delivered := true } else h
      delivered := s.delivered ++ (s.held.filter (HeldJob.isJob · worker jobId)).map fun h =>
        (h.job.target, h.job.payload) }
  | .markSuccess clk worker jobId =>
    -- the worker marks what it pushed; the row may have moved on since it was claimed
    match s.job? worker jobId with
    | none => s
    | some h => if h.delivered then { s with outbox := markFanoutSuccess clk jobId s.outbox } else s
  | .markRetry clk worker jobId jitter error =>
    match s.job? worker jobId with
    | none => s
    | some h => { s with outbox := markFanoutRetry cfg clk h.job jitter error s.outbox }
  | .markFailed clk worker jobId error =>
    match s.job? worker jobId with
    | none => s
    | some _ => { s with outbox := markFanoutFailed clk jobId error s.outbox }
  | .failLetta clk error => { s with outbox := failLettaBacklog clk error s.outbox }
  | .recover clk maxAgeSecs => { s with outbox := recoverStaleRunningJobs clk maxAgeSecs s.outbox }
  | .gc clk succeededHours failedHours staleHours staleTargets =>
    s.delete (gcExpired clk succeededHours failedHours staleHours staleTargets)
  | .prune statuses limit matched =>
    let ids := pruneIds cfg statuses limit matched s.outbox
    s.delete fun r => decide (r.id ∈ ids)
  | .restart worker => { s with held := s.held.filter fun h => decide (h.worker ≠ worker) }

/-! ### What a step does to a row -/

inductive JobChange (s : OutboxState π) : OutboxOp π → OutboxRow π → OutboxRow π → Prop
  | same (op : OutboxOp π) (r : OutboxRow π) : JobChange s op r r
  | coalesced {clk : Clock} {force : Bool} {drawn : String} {event : FanoutEvent π}
      {target : FanoutTarget} {r : OutboxRow π}
      (h : coalesceCandidate cfg clk force event target s.outbox = some r) :
      JobChange s (.enqueue clk force drawn event target) r (coalesceWrite clk event r)
  | requeued {clk : Clock} {drawn : String} {event : FanoutEvent π} {target : FanoutTarget}
      {r : OutboxRow π}
      (h : s.outbox.findKey? (dedupeKeyOf (effectiveEventId drawn event) target) = some r) :
      JobChange s (.enqueue clk true drawn event target) r (requeueJobWrite cfg clk event r)
  | claimed {clk : Clock} {worker : ℕ} {limit : ℤ} {target excludeTarget : Option FanoutTarget}
      {r : OutboxRow π} (h : r.status.waiting = true) :
      JobChange s (.claim clk worker limit target excludeTarget) r (claimJobWrite clk r)
  | succeeded {clk : Clock} {worker : ℕ} {r : OutboxRow π} {held : HeldJob π}
      (h : s.job? worker r.id = some held) (hdelivered : held.delivered = true) :
      JobChange s (.markSuccess clk worker r.id) r (successWrite clk r)
  | retried {clk : Clock} {worker : ℕ} {jitter : ℚ} {error : String} {r : OutboxRow π}
      {held : HeldJob π} (h : s.job? worker r.id = some held) :
      JobChange s (.markRetry clk worker r.id jitter error) r
        (retryWrite cfg clk held.job jitter error r)
  | failed {clk : Clock} {worker : ℕ} {error : String} {r : OutboxRow π} {held : HeldJob π}
      (h : s.job? worker r.id = some held) :
      JobChange s (.markFailed clk worker r.id error) r (failureWrite clk error r)
  | lettaFailed {clk : Clock} {error : String} {r : OutboxRow π}
      (h : r.status.outstanding = true) :
      JobChange s (.failLetta clk error) r (failureWrite clk error r)
  | recovered {clk : Clock} {maxAgeSecs : ℤ} {r : OutboxRow π} (h : r.status = .running) :
      JobChange s (.recover clk maxAgeSecs) r (recoverJobWrite clk r)

inductive Inserts (s : OutboxState π) : OutboxOp π → OutboxRow π → Prop
  | mk {clk : Clock} {force : Bool} {drawn : String} {event : FanoutEvent π}
      {target : FanoutTarget}
      (hcandidate : coalesceCandidate cfg clk force event target s.outbox = none)
      (h : s.outbox.findKey? (dedupeKeyOf (effectiveEventId drawn event) target) = none) :
      Inserts s (.enqueue clk force drawn event target)
        (newJob cfg clk s.outbox.nextId (effectiveEventId drawn event) event target)

variable {cfg} {s : OutboxState π} {op : OutboxOp π} {r r' : OutboxRow π}

theorem JobChange.ident (h : JobChange cfg s op r r') : r'.toRowIdent = r.toRowIdent := by
  cases h <;> rfl

variable {h : HeldJob π}

theorem OutboxState.job?_eq_some {w i : ℕ} (hjob : s.job? w i = some h) :
    h ∈ s.held ∧ h.worker = w ∧ h.job.id = i :=
  ⟨mem_of_find?_eq_some hjob, by simpa [HeldJob.isJob] using List.find?_some hjob⟩

inductive TableStep (cfg : OutboxConfig) (s : OutboxState π) (op : OutboxOp π) : Outbox π → Prop
  | same : TableStep cfg s op s.outbox
  | updated {p : OutboxRow π → Bool} {f : OutboxRow π → OutboxRow π}
      (hf : ∀ r, (f r).toRowIdent = r.toRowIdent)
      (h : ∀ r ∈ s.outbox.rows, p r = true → JobChange cfg s op r (f r)) :
      TableStep cfg s op (s.outbox.updateWhere p f hf)
  | inserted {row : OutboxRow π} {hid : row.id = s.outbox.nextId}
      (hkey : s.outbox.findKey? row.dedupeKey = none) (h : Inserts cfg s op row) :
      TableStep cfg s op (s.outbox.insert row hid)
  | deleted {p : OutboxRow π → Bool}
      (h : (outboxStep cfg s op).deleted =
        s.deleted ++ (s.outbox.rows.filter p).map fun r => (r.target, r.payload)) :
      TableStep cfg s op (s.outbox.deleteWhere p)

variable {f : OutboxRow π → OutboxRow π}

theorem TableStep.update {row : OutboxRow π} {hf} (hrow : row ∈ s.outbox.rows)
    (h : JobChange cfg s op row (f row)) : TableStep cfg s op (s.outbox.update row.id f hf) := by
  refine .updated hf fun r hr hp => ?_
  obtain rfl : r = row := Table.eq_of_mem_of_key hr hrow (by simpa using hp)
  exact h

theorem TableStep.mark {i : ℕ} (hf : ∀ r, (f r).toRowIdent = r.toRowIdent)
    (h : ∀ r ∈ s.outbox.rows, r.id = i → JobChange cfg s op r (f r)) :
    TableStep cfg s op (s.outbox.update i f hf) :=
  .updated hf fun r hr hp => h r hr (by simpa using hp)

private theorem tableStep_enqueue (clk : Clock) (force : Bool) (drawn : String)
    (event : FanoutEvent π) (target : FanoutTarget) :
    TableStep cfg s (.enqueue clk force drawn event target)
      (enqueueTarget cfg clk force drawn event target s.outbox) := by
  have hplaced := placed_enqueueTarget cfg clk force drawn event target s.outbox
  generalize enqueueTarget cfg clk force drawn event target s.outbox = ob' at hplaced ⊢
  cases hplaced with
  | coalesced h => exact .update (coalesceCandidate_eq_some h).1 (.coalesced h)
  | requeued hforce h =>
    subst hforce
    exact .update (Outbox.findKey?_eq_some h).1 (.requeued h)
  | existing => exact .same
  | inserted hcandidate h => exact .inserted h (.mk hcandidate h)

variable {excludeTarget target : Option FanoutTarget} {limit : ℤ} {ob : Outbox π}

theorem waiting_of_mem_dueIds {clk : Clock} (hr : r ∈ ob.rows)
    (h : r.id ∈ dueIds cfg clk limit target excludeTarget ob) : r.status.waiting = true := by
  obtain ⟨r₀, hr₀, hid⟩ := mem_map.mp h
  have hmem := (mem_insertionSort _).mp (mem_of_mem_take hr₀)
  rw [mem_filter] at hmem
  obtain rfl : r₀ = r := Table.eq_of_mem_of_key hmem.1 hr hid
  simp only [dueJob, Bool.and_eq_true] at hmem
  exact hmem.2.1.1

theorem mem_claimFanoutBatch {clk : Clock} :
    r' ∈ (claimFanoutBatch cfg clk limit target excludeTarget ob).1.rows ↔
      ∃ r ∈ ob.rows, r' = if r.id ∈ dueIds cfg clk limit target excludeTarget ob then
        claimJobWrite clk r else r := by
  simp only [claimFanoutBatch]
  refine Outbox.mem_updateWhere.trans ?_
  simp only [decide_eq_true_eq]

theorem mem_claimed_of_mem_dueIds {clk : Clock}
    (hr' : r' ∈ (claimFanoutBatch cfg clk limit target excludeTarget ob).1.rows)
    (hid : r'.id ∈ dueIds cfg clk limit target excludeTarget ob) :
    r' ∈ (claimFanoutBatch cfg clk limit target excludeTarget ob).2 :=
  mem_filterMap.mpr ⟨r'.id, hid, Table.find?_of_mem hr'⟩

theorem tableStep (cfg : OutboxConfig) (s : OutboxState π) (op : OutboxOp π) :
    TableStep cfg s op (outboxStep cfg s op).outbox := by
  cases op with
  | enqueue clk force drawn event target =>
    exact tableStep_enqueue clk force drawn event target
  | claim clk worker limit target excludeTarget =>
    refine .updated (f := claimJobWrite clk) (fun _ => rfl) fun r hr hp => .claimed ?_
    exact waiting_of_mem_dueIds hr (by simpa using hp)
  | deliver worker jobId => exact .same
  | markSuccess clk worker jobId =>
    rw [outboxStep]
    split
    · exact .same
    · rename_i h hjob
      split
      · exact .mark (f := successWrite clk) (fun _ => rfl) fun r _ hid =>
          hid ▸ .succeeded (hid ▸ hjob) ‹_›
      · exact .same
  | markRetry clk worker jobId jitter error =>
    rw [outboxStep]
    split
    · exact .same
    · rename_i h hjob
      obtain ⟨-, -, rfl⟩ := OutboxState.job?_eq_some hjob
      exact .mark (f := retryWrite cfg clk h.job jitter error) (fun _ => rfl) fun r _ hid =>
        hid ▸ .retried (hid ▸ hjob)
  | markFailed clk worker jobId error =>
    rw [outboxStep]
    split
    · exact .same
    · rename_i h hjob
      exact .mark (f := failureWrite clk error) (fun _ => rfl) fun r _ hid =>
        hid ▸ .failed (hid ▸ hjob)
  | failLetta clk error =>
    refine .updated (f := failureWrite clk error) (fun _ => rfl) fun r _ hp => .lettaFailed ?_
    rw [Bool.and_eq_true] at hp
    exact hp.2
  | recover clk maxAgeSecs =>
    refine .updated (f := recoverJobWrite clk) (fun _ => rfl) fun r _ hp => .recovered ?_
    simp only [staleRunning, Bool.and_eq_true, decide_eq_true_eq] at hp
    exact hp.1
  | gc | prune => exact .deleted rfl
  | restart worker => exact .same

theorem exists_change_of_mem (hr' : r' ∈ (outboxStep cfg s op).outbox.rows) :
    (∃ r ∈ s.outbox.rows, JobChange cfg s op r r') ∨ Inserts cfg s op r' := by
  have hstep := tableStep cfg s op
  generalize (outboxStep cfg s op).outbox = ob' at hstep hr'
  cases hstep with
  | same => exact .inl ⟨r', hr', .same op r'⟩
  | updated hf h =>
    obtain ⟨r, hr, rfl⟩ := Outbox.mem_updateWhere.mp hr'
    refine .inl ⟨r, hr, ?_⟩
    split
    · exact h r hr ‹_›
    · exact .same op r
  | inserted hkey h =>
    rcases (Outbox.mem_insert hkey).mp hr' with hr | rfl
    · exact .inl ⟨r', hr, .same op r'⟩
    · exact .inr h
  | deleted h => exact .inl ⟨r', (Outbox.mem_deleteWhere.mp hr').1, .same op r'⟩

theorem change_of_mem (cfg : OutboxConfig) (op : OutboxOp π) (hr : r ∈ s.outbox.rows) :
    (∃ r' ∈ (outboxStep cfg s op).outbox.rows, JobChange cfg s op r r') ∨
      ∃ l, (outboxStep cfg s op).deleted = s.deleted ++ l ∧ (r.target, r.payload) ∈ l := by
  have hstep := tableStep cfg s op
  generalize hob : (outboxStep cfg s op).outbox = ob' at hstep ⊢
  cases hstep with
  | same => exact .inl ⟨r, hr, .same op r⟩
  | updated hf h =>
    refine .inl ⟨_, Outbox.mem_updateWhere.mpr ⟨r, hr, rfl⟩, ?_⟩
    split
    · exact h r hr ‹_›
    · exact .same op r
  | inserted hkey => exact .inl ⟨r, (Outbox.mem_insert hkey).mpr (.inl hr), .same op r⟩
  | @deleted p h =>
    rcases hp : p r with _ | _
    · exact .inl ⟨r, Outbox.mem_deleteWhere.mpr ⟨hr, hp⟩, .same op r⟩
    · exact .inr ⟨_, h, mem_map.mpr ⟨r, mem_filter.mpr ⟨hr, hp⟩, rfl⟩⟩

theorem history_mono (cfg : OutboxConfig) (s : OutboxState π) (op : OutboxOp π) :
    s.delivered <+: (outboxStep cfg s op).delivered ∧
      s.replaced <+: (outboxStep cfg s op).replaced ∧
      s.deleted <+: (outboxStep cfg s op).deleted := by
  cases op <;> simp only [outboxStep, OutboxState.delete] <;> (repeat' split) <;> simp

theorem delivered_mono {d : FanoutTarget × FanoutEvent π} (h : d ∈ s.delivered) :
    d ∈ (outboxStep cfg s op).delivered :=
  (history_mono cfg s op).1.subset h

def OutboxOp.claims : OutboxOp π → Prop
  | .claim .. => True
  | _ => False

/-! ### The jobs in the workers' hands -/

theorem nextId_le_step (cfg : OutboxConfig) (s : OutboxState π) (op : OutboxOp π) :
    s.outbox.nextId ≤ (outboxStep cfg s op).outbox.nextId := by
  have hstep := tableStep cfg s op
  generalize (outboxStep cfg s op).outbox = ob' at hstep ⊢
  cases hstep with
  | inserted hkey => exact Outbox.nextId_le_insert ..
  | _ => exact le_rfl

theorem held_of_mem (hh : h ∈ (outboxStep cfg s op).held) :
    (∃ h₀ ∈ s.held, h.job = h₀.job ∧ (h.delivered = true → h₀.delivered = true ∨
        (h.job.target, h.job.payload) ∈ (outboxStep cfg s op).delivered)) ∨
      h.job ∈ (outboxStep cfg s op).outbox.rows ∧ h.delivered = false := by
  cases op with
  | claim clk worker limit target excludeTarget =>
    rcases mem_append.mp hh with hold | hnew
    · exact .inl ⟨h, mem_of_mem_filter hold, rfl, .inl⟩
    · obtain ⟨job, hjob, rfl⟩ := mem_map.mp hnew
      obtain ⟨i, -, hi⟩ := mem_filterMap.mp hjob
      exact .inr ⟨(Table.find?_eq_some hi).1, rfl⟩
  | deliver worker jobId =>
    obtain ⟨h₀, hh₀, rfl⟩ := mem_map.mp hh
    refine .inl ⟨h₀, hh₀, ?_⟩
    split
    · rename_i hjob
      refine ⟨rfl, fun _ => .inr (mem_append_right _ ?_)⟩
      exact mem_map.mpr ⟨h₀, mem_filter.mpr ⟨hh₀, hjob⟩, rfl⟩
    · exact ⟨rfl, .inl⟩
  | restart worker => exact .inl ⟨h, mem_of_mem_filter hh, rfl, .inl⟩
  | markSuccess | markRetry | markFailed =>
    -- a mark leaves the job in the worker's hands
    refine .inl ⟨h, ?_, rfl, .inl⟩
    simp only [outboxStep] at hh
    repeat' split at hh
    all_goals exact hh
  | _ => exact .inl ⟨h, hh, rfl, .inl⟩

/-- Held jobs are rows that were in the table: no other row ever gets their id, and what is marked
as pushed was delivered. -/
structure HeldSound (s : OutboxState π) : Prop where
  id_lt : ∀ h ∈ s.held, h.job.id < s.outbox.nextId
  ident : ∀ h ∈ s.held, ∀ r ∈ s.outbox.rows, r.id = h.job.id → r.toRowIdent = h.job.toRowIdent
  pushed : ∀ h ∈ s.held, h.delivered = true → (h.job.target, h.job.payload) ∈ s.delivered

theorem HeldSound.empty : HeldSound (.empty : OutboxState π) := ⟨by simp [OutboxState.empty],
  by simp [OutboxState.empty], by simp [OutboxState.empty]⟩

theorem HeldSound.step (hs : HeldSound s) (op : OutboxOp π) : HeldSound (outboxStep cfg s op) := by
  refine ⟨fun h hh => ?_, fun h hh r' hr' hid => ?_, fun h hh hdelivered => ?_⟩
  · rcases held_of_mem hh with ⟨h₀, hh₀, hjob, -⟩ | ⟨hmem, -⟩
    · rw [hjob]
      exact (hs.id_lt h₀ hh₀).trans_le (nextId_le_step cfg s op)
    · exact Outbox.id_lt _ _ hmem
  · rcases held_of_mem hh with ⟨h₀, hh₀, hjob, -⟩ | ⟨hmem, -⟩
    · rw [hjob] at hid ⊢
      rcases exists_change_of_mem hr' with ⟨r, hr, hchange⟩ | hinserts
      · rw [hchange.ident] at hid ⊢
        exact hs.ident h₀ hh₀ r hr hid
      · -- a new row has an id no held job can have
        cases hinserts
        exact absurd hid.symm (hs.id_lt h₀ hh₀).ne
    · rw [Table.eq_of_mem_of_key hr' hmem hid]
  · rcases held_of_mem hh with ⟨h₀, hh₀, hjob, hpushed⟩ | ⟨-, hfalse⟩
    · rcases hpushed hdelivered with hold | hnew
      · rw [hjob]
        exact delivered_mono (hs.pushed h₀ hh₀ hold)
      · exact hnew
    · rw [hfalse] at hdelivered
      cases hdelivered

end ContextLattice
