import ContextLattice.Foundation.Search
import ContextLattice.Outbox.System

/-!
# The fanout workers, call by call

The loop body of `_memory_write_worker`, call by call. An **iteration** claims a batch, pushes it in
chunks and marks the jobs one by one; an exception sends *every* job of the chunk to
`_handle_fanout_job_error`. Each step is a list of steps of `OutboxState` (`serviceOps`).
-/

namespace ContextLattice

open Foundation List

/-! ### Settings, error classes, the Letta switch -/

structure WorkerConfig extends OutboxConfig where
  py : Python
  fanoutBulkSize : FanoutTarget → ℤ
  fanoutRunningStaleSecs : ℤ
  mindsdbFailOpenOnPermanentError : Bool
  lettaDisableOnTransientErrors : Bool
  lettaTransientErrorThreshold : ℤ
  lettaConfigEnabled : Bool

def WorkerConfig.default : WorkerConfig where
  toOutboxConfig := .default
  py := .ascii
  fanoutBulkSize
    | .qdrant => 16
    | .mindsdb => 12
    | .mongoRaw => 24
    | .langfuse => 24
    | .letta => 8
  fanoutRunningStaleSecs := 120
  mindsdbFailOpenOnPermanentError := true
  lettaDisableOnTransientErrors := true
  lettaTransientErrorThreshold := 60
  lettaConfigEnabled := true

variable (py : Python)

def statusAt (cs : List Char) : Option ℕ :=
  let digits := (cs.drop 7).take 3
  if "status=".toList <+: cs ∧ digits.length = 3 then py.number digits else none

/-- `re.search(r"status=(\d{3})", text)`. -/
def searchStatus : List Char → Option ℕ
  | [] => none
  | c :: cs => (statusAt py (c :: cs)).or (searchStatus cs)

def isLettaPermanentError (message : String) : Bool :=
  let text := py.lower message
  (searchStatus py text.toList).any (fun status =>
      decide (status ∈ [400, 401, 403, 404, 405, 410, 422])) ||
    isIn "not found" text || isIn "invalid_argument" text

def isLettaTransientServerError (message : String) : Bool :=
  let text := py.lower message
  (searchStatus py text.toList).any (fun status => decide (500 ≤ status ∧ status ≤ 599)) ||
    isIn "unknown error occurred" text || isIn "internal server error" text

def isMindsdbPermanentError (message : String) : Bool :=
  let text := py.lower message
  isIn "file is too small to be a well-formed file" text ||
    isIn "verification of flatbuffer-encoded footer failed" text ||
    isIn "lz4 compressed input contains more than one frame" text ||
    (isIn "expected to read" text && isIn "metadata bytes but got" text) ||
    (isIn "unable to read" text && isIn "from end of file" text)

structure LettaRuntime where
  enabled : Bool := true
  disabledReason : String := ""
  transientErrorStreak : ℕ := 0

namespace LettaRuntime

def setDisabled (reason : String) (g : LettaRuntime) : LettaRuntime :=
  if g.enabled then ⟨false, truncate 240 reason, 0⟩ else g

def resetStreak (g : LettaRuntime) : LettaRuntime := { g with transientErrorStreak := 0 }

end LettaRuntime

variable {π : Type*} (cfg : WorkerConfig)

def lettaSwitchedOn (g : LettaRuntime) : Bool := cfg.lettaConfigEnabled && g.enabled

def recordLettaTransientFailure (error : String) (g : LettaRuntime) : LettaRuntime × Bool :=
  if !cfg.lettaDisableOnTransientErrors then (g, false)
  else if !isLettaTransientServerError cfg.py error then (g.resetStreak, false)
  else
    let streak := g.transientErrorStreak + 1
    ({ g with transientErrorStreak := streak },
      decide (max 1 cfg.lettaTransientErrorThreshold ≤ (streak : ℤ)))

inductive HandlerCall where
  | failLettaBacklog (reason : String)
  | markFanoutSuccess
  | markFanoutFailed
  | markFanoutRetry

/-- A pass through `_handle_fanout_job_error`: the globals when it calls the outbox, the call, and
the globals after it. -/
structure Handling where
  before : LettaRuntime
  call : HandlerCall
  after : LettaRuntime

def handleFanoutJobError (g : LettaRuntime) (job : OutboxRow π) (error : String) : Handling :=
  if job.target = .letta then
    if isLettaPermanentError cfg.py error then
      let disabled := g.setDisabled error
      ⟨disabled, .failLettaBacklog error, disabled.resetStreak⟩
    else
      let recorded := recordLettaTransientFailure cfg error g
      if recorded.2 then
        let reason := "persistent Letta server errors (" ++
          toString recorded.1.transientErrorStreak ++ " consecutive): " ++ truncate 180 error
        ⟨recorded.1.setDisabled reason, .failLettaBacklog reason, recorded.1.setDisabled reason⟩
      else ⟨recorded.1, .markFanoutRetry, recorded.1⟩
  else if decide (job.target = .mindsdb) && isMindsdbPermanentError cfg.py error then
    ⟨g, if cfg.mindsdbFailOpenOnPermanentError then .markFanoutSuccess else .markFanoutFailed, g⟩
  else ⟨g, .markFanoutRetry, g⟩

def HandlerCall.ops (w : ℕ) (clk : Clock) (jitter : ℚ) (job : OutboxRow π) (error : String) :
    HandlerCall → List (OutboxOp π)
  | .failLettaBacklog reason => [.failLetta clk reason]
  | .markFanoutSuccess => [.deliver w job.id, .markSuccess clk w job.id]
  | .markFanoutFailed => [.markFailed clk w job.id error]
  | .markFanoutRetry => [.markRetry clk w job.id jitter error]

/-! ### An iteration -/

def chunkRows {α : Type*} (items : List α) (chunkSize : ℤ) : List (List α) :=
  let size := (max 1 chunkSize).toNat
  (List.range ((items.length + size - 1) / size)).map fun k => (items.drop (k * size)).take size

theorem exists_mem_chunkRows {α : Type*} {items : List α} (chunkSize : ℤ) {x : α}
    (hx : x ∈ items) : ∃ chunk ∈ chunkRows items chunkSize, x ∈ chunk := by
  obtain ⟨i, hi, rfl⟩ := mem_iff_getElem.mp hx
  rw [chunkRows]
  generalize hsize : (max 1 chunkSize).toNat = size
  have hpos : 0 < size := by omega
  refine ⟨_, mem_map.mpr ⟨i / size, mem_range.mpr ?_, rfl⟩, ?_⟩
  · rw [Nat.div_lt_iff_lt_mul hpos]
    have := Nat.div_add_mod (items.length + size - 1) size
    have := Nat.mod_lt (items.length + size - 1) hpos
    rw [Nat.mul_comm]
    omega
  · have hdiv := Nat.div_add_mod i size
    have hmod := Nat.mod_lt i hpos
    rw [Nat.mul_comm] at hdiv
    rw [mem_iff_getElem]
    refine ⟨i % size, ?_, ?_⟩
    · rw [length_take, length_drop]
      omega
    · rw [getElem_take, getElem_drop]
      congr 1

def batchTargets : List FanoutTarget := [.qdrant, .mindsdb, .mongoRaw, .langfuse, .letta]

def batchChunks (cfg : WorkerConfig) (jobs : List (OutboxRow π)) :
    List (FanoutTarget × List (OutboxRow π)) :=
  batchTargets.flatMap fun target =>
    (chunkRows (jobs.filter fun job => decide (job.target = target)) (cfg.fanoutBulkSize target)
      ).map fun chunk => (target, chunk)

inductive Phase (π : Type*) where
  | push (target : FanoutTarget) (chunk : List (OutboxRow π))
  | mark (chunk : List (OutboxRow π)) (job : OutboxRow π) (result : Option String)
      (todo : List (OutboxRow π × Option String))
  | handle (job : OutboxRow π) (todo : List (OutboxRow π)) (error : String)

structure Iteration (π : Type*) where
  phase : Phase π
  rest : List (FanoutTarget × List (OutboxRow π))

namespace Iteration

def ofChunks : List (FanoutTarget × List (OutboxRow π)) → Option (Iteration π)
  | [] => none
  | (target, chunk) :: rest => some ⟨.push target chunk, rest⟩

def marking (chunk : List (OutboxRow π)) (rest : List (FanoutTarget × List (OutboxRow π))) :
    List (OutboxRow π × Option String) → Option (Iteration π)
  | [] => ofChunks rest
  | (job, result) :: todo => some ⟨.mark chunk job result todo, rest⟩

def handling (error : String) (rest : List (FanoutTarget × List (OutboxRow π))) :
    List (OutboxRow π) → Option (Iteration π)
  | [] => ofChunks rest
  | job :: todo => some ⟨.handle job todo error, rest⟩

end Iteration

inductive Answer where
  | returned (failed : ℕ → Option String)
  | raised (error : String) (took : Bool)

def Answer.effect (answer : Answer) (ops : List (OutboxOp π)) : List (OutboxOp π) :=
  match answer with
  | .returned _ => ops
  | .raised _ took => if took then ops else []

structure Outcome (π : Type*) where
  ops : List (OutboxOp π)
  letta : LettaRuntime
  next : Option (Iteration π)

variable (w : ℕ) (clk : Clock) (jitter : ℚ) (g : LettaRuntime)
  (rest : List (FanoutTarget × List (OutboxRow π)))

def proceedPush (target : FanoutTarget) (chunk : List (OutboxRow π)) (answer : Answer) :
    Outcome π :=
  if decide (target = .letta) && !lettaSwitchedOn cfg g then
    let reason := if g.disabledReason = "" then "letta fanout disabled" else g.disabledReason
    -- this call stands outside the `try` of the chunk
    ⟨answer.effect [.failLetta clk reason], g,
      match answer with
      | .returned _ => Iteration.ofChunks rest
      | .raised _ _ => none⟩
  else
    match answer with
    | .returned failed =>
      let results := chunk.map fun job => (job, if target = .letta then failed job.id else none)
      ⟨(results.filter fun p => p.2.isNone).map fun p => .deliver w p.1.id, g,
        Iteration.marking chunk rest results⟩
    | .raised error _ => ⟨[], g, Iteration.handling error rest chunk⟩

def proceedMark (chunk : List (OutboxRow π)) (job : OutboxRow π)
    (todo : List (OutboxRow π × Option String)) (answer : Answer) : Outcome π :=
  ⟨answer.effect [.markSuccess clk w job.id], if job.target = .letta then g.resetStreak else g,
    match answer with
    | .returned _ => Iteration.marking chunk rest todo
    | .raised error _ => Iteration.handling error rest chunk⟩

def proceedHandler (job : OutboxRow π) (error : String) (answer : Answer)
    (onReturn : Option (Iteration π)) (onRaise : String → Option (Iteration π)) : Outcome π :=
  let handling := handleFanoutJobError cfg g job error
  ⟨answer.effect (handling.call.ops w clk jitter job error),
    match answer with
    | .returned _ => handling.after
    | .raised _ _ => handling.before,
    match answer with
    | .returned _ => onReturn
    | .raised e _ => onRaise e⟩

def proceed (it : Iteration π) (answer : Answer) : Outcome π :=
  match it.phase with
  | .push target chunk => proceedPush cfg w clk g it.rest target chunk answer
  | .mark chunk job none todo => proceedMark w clk g it.rest chunk job todo answer
  | .mark chunk job (some error) todo =>
    proceedHandler cfg w clk jitter g job error answer (Iteration.marking chunk it.rest todo)
      fun e => Iteration.handling e it.rest chunk
  | .handle job todo error =>
    -- nothing catches an exception of the handler here but the loop itself
    proceedHandler cfg w clk jitter g job error answer (Iteration.handling error it.rest todo)
      fun _ => none

/-! ### The service -/

structure FanoutService (π : Type*) where
  sys : OutboxState π
  workers : Dict ℕ (Iteration π) := .empty
  letta : LettaRuntime := {}

def FanoutService.fresh {π : Type*} : FanoutService π := { sys := .empty }

def OutboxOp.outside {π : Type*} : OutboxOp π → Bool
  | .enqueue .. | .failLetta .. | .gc .. | .prune .. => true
  | _ => false

inductive ServiceOp (π : Type*) where
  | other (op : OutboxOp π)
  | claim (clk : Clock) (worker : ℕ) (limit : ℤ) (target excludeTarget : Option FanoutTarget)
  | claimRaised (clk : Clock) (worker : ℕ) (taken : ℤ) (target excludeTarget : Option FanoutTarget)
  | proceed (worker : ℕ) (clk : Clock) (jitter : ℚ) (answer : Answer)
  | restart (clk : Clock)

def setIteration (workers : Dict ℕ (Iteration π)) (w : ℕ) (next : Option (Iteration π)) :
    Dict ℕ (Iteration π) :=
  match next with
  | none => workers.erase w
  | some it => workers.set w it

@[simp] theorem get?_setIteration (workers : Dict ℕ (Iteration π)) (w w' : ℕ)
    (next : Option (Iteration π)) :
    Dict.get? (setIteration workers w next) w' =
      if w' = w then next else workers.get? w' := by
  cases next with
  | none => exact Dict.get?_erase_eq ..
  | some it => exact Dict.get?_set_eq ..

def releaseOps (w : ℕ) (next : Option (Iteration π)) : List (OutboxOp π) :=
  if next.isNone then [.restart w] else []

def serviceOps (s : FanoutService π) : ServiceOp π → List (OutboxOp π)
  | .other op => if op.outside then [op] else []
  | .claim clk w limit target excludeTarget =>
    match s.workers.get? w with
    | none => [.claim clk w limit target excludeTarget]
    | some _ => []
  | .claimRaised clk w taken target excludeTarget =>
    match s.workers.get? w with
    | none => [.claim clk w taken target excludeTarget, .restart w]
    | some _ => []
  | .proceed w clk jitter answer =>
    match s.workers.get? w with
    | none => []
    | some it =>
      let o := proceed cfg w clk jitter s.letta it answer
      o.ops ++ releaseOps w o.next
  | .restart clk =>
    s.workers.rows.map (fun p => .restart p.1) ++ [.recover clk cfg.fanoutRunningStaleSecs]

def serviceWorkers (s : FanoutService π) : ServiceOp π → Dict ℕ (Iteration π)
  | .other _ | .claimRaised .. => s.workers
  | .claim clk w limit target excludeTarget =>
    match s.workers.get? w with
    | none => setIteration s.workers w (Iteration.ofChunks (batchChunks cfg
        (claimFanoutBatch cfg.toOutboxConfig clk limit target excludeTarget s.sys.outbox).2))
    | some _ => s.workers
  | .proceed w clk jitter answer =>
    match s.workers.get? w with
    | none => s.workers
    | some it => setIteration s.workers w (proceed cfg w clk jitter s.letta it answer).next
  | .restart _ => .empty

def serviceLetta (s : FanoutService π) : ServiceOp π → LettaRuntime
  | .proceed w clk jitter answer =>
    match s.workers.get? w with
    | none => s.letta
    | some it => (proceed cfg w clk jitter s.letta it answer).letta
  | .restart _ => {}
  | _ => s.letta

def serviceStep (s : FanoutService π) (op : ServiceOp π) : FanoutService π where
  sys := run (outboxStep cfg.toOutboxConfig) s.sys (serviceOps cfg s op)
  workers := serviceWorkers cfg s op
  letta := serviceLetta cfg s op

/-! ### The jobs of an iteration are in the hands of its worker -/

variable {cfg : OutboxConfig} {s s' s'' : OutboxState π} {w i : ℕ}

def OutboxOp.frees (w : ℕ) : OutboxOp π → Prop
  | .claim _ w' _ _ _ => w' = w
  | .restart w' => w' = w
  | _ => False

def Keeps (w : ℕ) (s s' : OutboxState π) : Prop :=
  ∀ i h, s.job? w i = some h →
    ∃ h', s'.job? w i = some h' ∧ h'.job = h.job ∧ (h.delivered = true → h'.delivered = true)

theorem Keeps.refl (w : ℕ) (s : OutboxState π) : Keeps w s s := fun _ h hh => ⟨h, hh, rfl, id⟩

theorem Keeps.trans (h : Keeps w s s') (h' : Keeps w s' s'') : Keeps w s s'' := by
  intro i held hheld
  obtain ⟨held', hheld', hjob, hdelivered⟩ := h i held hheld
  obtain ⟨held'', hheld'', hjob', hdelivered'⟩ := h' i held' hheld'
  exact ⟨held'', hheld'', hjob'.trans hjob, hdelivered' ∘ hdelivered⟩

theorem keeps_of_held (h : s'.held = s.held) : Keeps w s s' := by
  intro i held hheld
  exact ⟨held, by rw [OutboxState.job?, h]; exact hheld, rfl, id⟩

variable {w' : ℕ}

theorem find?_isJob_filter_ne {held : List (HeldJob π)} (hne : w' ≠ w) :
    (held.filter fun h => decide (h.worker ≠ w')).find? (HeldJob.isJob · w i) =
      held.find? (HeldJob.isJob · w i) := by
  rw [List.find?_filter]
  congr 1
  funext h
  rw [HeldJob.isJob]
  by_cases hw : h.worker = w
  · simp [hw, hne.symm]
  · simp [hw]

theorem job?_deliver (w' i' : ℕ) :
    (outboxStep cfg s (.deliver w' i')).job? w i =
      (s.job? w i).map fun h =>
        if h.isJob w' i' then { h with delivered := true } else h := by
  rw [OutboxState.job?, OutboxState.job?, outboxStep, List.find?_map]
  congr 2
  funext h
  by_cases hjob : h.isJob w' i' = true
  · simp only [Function.comp_apply, hjob, if_true]
    rfl
  · simp [hjob]

variable {op : OutboxOp π}

theorem keeps_step (hop : ¬ op.frees w) : Keeps w s (outboxStep cfg s op) := by
  cases op with
  | claim clk w' limit target excludeTarget =>
    intro i h hh
    refine ⟨h, ?_, rfl, id⟩
    rw [OutboxState.job?, outboxStep, List.find?_append, find?_isJob_filter_ne hop]
    rw [OutboxState.job?] at hh
    rw [hh, Option.some_or]
  | restart w' =>
    intro i h hh
    exact ⟨h, (find?_isJob_filter_ne hop).trans hh, rfl, id⟩
  | deliver w' i' =>
    intro i h hh
    rw [job?_deliver, hh]
    refine ⟨_, rfl, ?_⟩
    dsimp only
    split
    · exact ⟨rfl, fun _ => rfl⟩
    · exact ⟨rfl, id⟩
  | markSuccess | markRetry | markFailed =>
    refine keeps_of_held ?_
    rw [outboxStep]
    repeat' split
    all_goals rfl
  | _ => exact keeps_of_held rfl

variable {ops : List (OutboxOp π)}

theorem keeps_run (hops : ∀ op ∈ ops, ¬ op.frees w) : Keeps w s (run (outboxStep cfg) s ops) := by
  induction ops generalizing s with
  | nil => exact .refl w s
  | cons op ops ih =>
    rw [forall_mem_cons] at hops
    exact (keeps_step hops.1).trans (ih hops.2)

theorem delivered_deliver {h : HeldJob π} (hh : s.job? w i = some h) :
    ∃ h', (outboxStep cfg s (.deliver w i)).job? w i = some h' ∧ h'.delivered = true := by
  obtain ⟨-, hw, hid⟩ := OutboxState.job?_eq_some hh
  refine ⟨{ h with delivered := true }, ?_, rfl⟩
  rw [job?_deliver, hh, Option.map_some, if_pos (by simp [HeldJob.isJob, hw, hid])]

variable {job : OutboxRow π}

theorem job?_claim {clk : Clock} {limit : ℤ} {target excludeTarget : Option FanoutTarget}
    (hjob : job ∈ (claimFanoutBatch cfg clk limit target excludeTarget s.outbox).2) :
    (outboxStep cfg s (.claim clk w limit target excludeTarget)).job? w job.id =
      some ⟨w, job, false⟩ := by
  have hnone : (s.held.filter fun h => decide (h.worker ≠ w)).find? (HeldJob.isJob · w job.id) =
      none := by
    rw [List.find?_eq_none]
    intro h hh
    have := of_mem_filter hh
    simp_all [HeldJob.isJob]
  rw [OutboxState.job?, outboxStep, List.find?_append, hnone, Option.none_or, List.find?_map,
    Option.map_eq_some_iff]
  refine ⟨job, ?_, rfl⟩
  -- two claimed rows with one id are one row of the table
  rcases hfind : List.find? _ _ with _ | job'
  · rw [List.find?_eq_none] at hfind
    exact absurd (hfind job hjob) (by simp [HeldJob.isJob])
  · have hjob' := mem_of_find?_eq_some hfind
    have hid : job'.id = job.id := by simpa [HeldJob.isJob] using List.find?_some hfind
    obtain ⟨i, -, hi⟩ := mem_filterMap.mp hjob
    obtain ⟨i', -, hi'⟩ := mem_filterMap.mp hjob'
    rw [Table.eq_of_mem_of_key (Table.find?_eq_some hi').1 (Table.find?_eq_some hi).1 hid]

namespace Phase

def jobs : Phase π → List (OutboxRow π)
  | .push _ chunk => chunk
  | .mark chunk _ _ _ => chunk
  | .handle job todo _ => job :: todo

def owed : Phase π → List (OutboxRow π)
  | .push _ chunk => chunk
  | .mark _ job _ todo => job :: todo.map Prod.fst
  | .handle job todo _ => job :: todo

def pushed : Phase π → List (OutboxRow π)
  | .mark _ job result todo => (((job, result) :: todo).filter fun p => p.2.isNone).map Prod.fst
  | _ => []

def Grouped : Phase π → Prop
  | .push target chunk => ∀ job ∈ chunk, job.target = target
  | .mark chunk job _ todo => job ∈ chunk ∧ ∀ p ∈ todo, p.1 ∈ chunk
  | .handle .. => True

end Phase

namespace Iteration

def later (it : Iteration π) : List (OutboxRow π) := it.rest.flatMap Prod.snd

def owed (it : Iteration π) : List (OutboxRow π) := it.phase.owed ++ it.later

end Iteration

def InHands (s : OutboxState π) (w : ℕ) (job : OutboxRow π) : Prop :=
  ∃ h, s.job? w job.id = some h ∧ h.job = job

def Pushed (s : OutboxState π) (w : ℕ) (job : OutboxRow π) : Prop :=
  ∃ h, s.job? w job.id = some h ∧ h.delivered = true

theorem InHands.mono (h : InHands s w job) (hkeeps : Keeps w s s') : InHands s' w job := by
  obtain ⟨held, hheld, rfl⟩ := h
  obtain ⟨held', hheld', hsame, -⟩ := hkeeps _ held hheld
  exact ⟨held', hheld', hsame⟩

theorem Pushed.mono (h : Pushed s w job) (hkeeps : Keeps w s s') : Pushed s' w job := by
  obtain ⟨held, hheld, hdelivered⟩ := h
  obtain ⟨held', hheld', -, hdelivered'⟩ := hkeeps _ held hheld
  exact ⟨held', hheld', hdelivered' hdelivered⟩

/-- The jobs are in the hands of the worker, those to be marked as succeeded were pushed, and the
chunks are grouped by target. -/
structure Linked (s : OutboxState π) (w : ℕ) (it : Iteration π) : Prop where
  held : ∀ job ∈ it.phase.jobs, InHands s w job
  heldRest : ∀ p ∈ it.rest, ∀ job ∈ p.2, InHands s w job
  pushed : ∀ job ∈ it.phase.pushed, Pushed s w job
  grouped : it.phase.Grouped
  groupedRest : ∀ p ∈ it.rest, ∀ job ∈ p.2, job.target = p.1

theorem Linked.mono {it : Iteration π} (h : Linked s w it) (hkeeps : Keeps w s s') :
    Linked s' w it where
  held job hjob := (h.held job hjob).mono hkeeps
  heldRest p hp job hjob := (h.heldRest p hp job hjob).mono hkeeps
  pushed job hjob := (h.pushed job hjob).mono hkeeps
  grouped := h.grouped
  groupedRest := h.groupedRest

variable {rest : List (FanoutTarget × List (OutboxRow π))} {it : Iteration π}

section

variable (hheld : ∀ p ∈ rest, ∀ job ∈ p.2, InHands s w job)
  (hgrouped : ∀ p ∈ rest, ∀ job ∈ p.2, job.target = p.1)

include hheld hgrouped

theorem linked_ofChunks (h : Iteration.ofChunks rest = some it) : Linked s w it := by
  cases rest with
  | nil => cases h
  | cons p rest =>
    obtain rfl := Option.some.inj h
    rw [forall_mem_cons] at hheld hgrouped
    exact ⟨hheld.1, hheld.2, by simp [Phase.pushed], hgrouped.1, hgrouped.2⟩

theorem linked_marking {chunk : List (OutboxRow π)} {todo : List (OutboxRow π × Option String)}
    (hchunk : ∀ job ∈ chunk, InHands s w job) (htodo : ∀ p ∈ todo, p.1 ∈ chunk)
    (hpushed : ∀ p ∈ todo, p.2 = none → Pushed s w p.1)
    (h : Iteration.marking chunk rest todo = some it) : Linked s w it := by
  cases todo with
  | nil => exact linked_ofChunks hheld hgrouped h
  | cons p todo =>
    obtain rfl := Option.some.inj h
    refine ⟨hchunk, hheld, fun job hjob => ?_, forall_mem_cons.mp htodo, hgrouped⟩
    obtain ⟨q, hq, rfl⟩ := mem_map.mp hjob
    rw [mem_filter, Option.isNone_iff_eq_none] at hq
    exact hpushed q hq.1 hq.2

theorem linked_handling {error : String} {todo : List (OutboxRow π)}
    (htodo : ∀ job ∈ todo, InHands s w job)
    (h : Iteration.handling error rest todo = some it) : Linked s w it := by
  cases todo with
  | nil => exact linked_ofChunks hheld hgrouped h
  | cons job todo =>
    obtain rfl := Option.some.inj h
    exact ⟨htodo, hheld, by simp [Phase.pushed], trivial, hgrouped⟩

end

variable {wcfg : WorkerConfig} {clk : Clock} {jitter : ℚ} {g : LettaRuntime} {it' : Iteration π}
  {answer : Answer}

theorem mem_of_mem_effect (h : op ∈ answer.effect ops) : op ∈ ops := by
  cases answer with
  | returned => exact h
  | raised error took =>
    cases took with
    | true => exact h
    | false => cases h

theorem not_frees_of_mem_proceed (h : op ∈ (proceed wcfg w clk jitter g it answer).ops) :
    ¬ op.frees w' := by
  have hhandler : ∀ (call : HandlerCall) (job : OutboxRow π) (error : String),
      op ∈ call.ops w clk jitter job error → ¬ op.frees w' := by
    intro call job error hop
    cases call <;> simp only [HandlerCall.ops, mem_cons, not_mem_nil, or_false] at hop
    case markFanoutSuccess => rcases hop with rfl | rfl <;> exact id
    all_goals
      subst hop
      exact id
  obtain ⟨phase, rest⟩ := it
  cases phase with
  | push target chunk =>
    simp only [proceed, proceedPush] at h
    split at h
    · have := mem_of_mem_effect h
      simp only [mem_singleton] at this
      subst this
      exact id
    · split at h
      · obtain ⟨p, -, rfl⟩ := mem_map.mp h
        exact id
      · cases h
  | mark chunk job result todo =>
    cases result with
    | none =>
      have := mem_of_mem_effect h
      simp only [mem_singleton] at this
      subst this
      exact id
    | some error => exact hhandler _ job error (mem_of_mem_effect h)
  | handle job todo error => exact hhandler _ job error (mem_of_mem_effect h)

theorem keeps_proceed :
    Keeps w' s (run (outboxStep cfg) s (proceed wcfg w clk jitter g it answer).ops) :=
  keeps_run fun _ hop => not_frees_of_mem_proceed hop

variable {jobs : List (OutboxRow π)}

theorem pushed_run_deliver (hjob : job ∈ jobs) (hholds : InHands s w job) :
    Pushed (run (outboxStep cfg) s (jobs.map fun job => .deliver w job.id)) w job := by
  induction jobs generalizing s with
  | nil => cases hjob
  | cons first jobs ih =>
    have hkeep : ∀ s' : OutboxState π, Keeps w s'
        (run (outboxStep cfg) s' (jobs.map fun job => .deliver w job.id)) := fun s' =>
      keeps_run fun op hop => by
        obtain ⟨job', -, rfl⟩ := mem_map.mp hop
        exact id
    rcases mem_cons.mp hjob with rfl | hmem
    · obtain ⟨h, hh, -⟩ := hholds
      exact Pushed.mono (delivered_deliver hh) (hkeep _)
    · exact ih hmem (hholds.mono (keeps_step id))

theorem Linked.proceed (h : Linked s w it)
    (hnext : (proceed wcfg w clk jitter g it answer).next = some it') :
    Linked (run (outboxStep cfg) s (ContextLattice.proceed wcfg w clk jitter g it answer).ops) w
      it' := by
  have hkept : Linked (run (outboxStep cfg) s
      (ContextLattice.proceed wcfg w clk jitter g it answer).ops) w it := h.mono keeps_proceed
  have hheld := hkept.heldRest
  have hgrouped := hkept.groupedRest
  have hjobs := hkept.held
  have hpushed := hkept.pushed
  obtain ⟨phase, rest⟩ := it
  cases phase with
  | push target chunk =>
    simp only [ContextLattice.proceed, proceedPush] at hnext
    split at hnext
    · cases answer with
      | returned => exact linked_ofChunks hheld hgrouped hnext
      | raised => cases hnext
    · rename_i hon
      cases answer with
      | returned failed =>
        refine linked_marking hheld hgrouped hjobs (fun p hp => ?_) (fun p hp hnone => ?_) hnext
        · obtain ⟨job, hjob, rfl⟩ := mem_map.mp hp
          exact hjob
        · -- the steps of this call are the pushes of the jobs that did not raise
          have hmem := mem_map_of_mem (f := Prod.fst) (mem_filter (p := fun q =>
            Option.isNone q.2).mpr ⟨hp, Option.isNone_iff_eq_none.mpr hnone⟩)
          obtain ⟨job, hjob, rfl⟩ := mem_map.mp hp
          have hrun : Pushed (run (outboxStep cfg) s _) w _ :=
            pushed_run_deliver hmem (h.held job hjob)
          rw [map_map] at hrun
          simp only [ContextLattice.proceed, proceedPush, if_neg hon]
          exact hrun
      | raised error => exact linked_handling hheld hgrouped hjobs hnext
  | mark chunk job result todo =>
    have htodo : ∀ p ∈ todo, p.1 ∈ chunk := h.grouped.2
    have hdone : ∀ p ∈ todo, p.2 = none → Pushed _ w p.1 := fun p hp hnone =>
      hpushed p.1 (mem_map_of_mem (mem_filter.mpr
        ⟨mem_cons_of_mem _ hp, Option.isNone_iff_eq_none.mpr hnone⟩))
    cases result <;> cases answer
    · exact linked_marking hheld hgrouped hjobs htodo hdone hnext
    · exact linked_handling hheld hgrouped hjobs hnext
    · exact linked_marking hheld hgrouped hjobs htodo hdone hnext
    · exact linked_handling hheld hgrouped hjobs hnext
  | handle job todo error =>
    cases answer with
    | returned =>
      exact linked_handling hheld hgrouped (fun j hj => hjobs j (mem_cons_of_mem _ hj)) hnext
    | raised => cases hnext

/-! ### The states of the service -/

variable {cfg : WorkerConfig} {s : FanoutService π}

structure ServiceSound (s : FanoutService π) : Prop where
  held : HeldSound s.sys
  linked : ∀ w it, s.workers.get? w = some it → Linked s.sys w it

theorem ServiceSound.fresh : ServiceSound (.fresh : FanoutService π) :=
  ⟨.empty, fun _ _ hit => absurd (Dict.get?_eq_some.mp hit) not_mem_nil⟩

theorem mem_batchChunks {p : FanoutTarget × List (OutboxRow π)} (hp : p ∈ batchChunks cfg jobs)
    (hjob : job ∈ p.2) : job ∈ jobs ∧ job.target = p.1 := by
  obtain ⟨target, -, hp⟩ := mem_flatMap.mp hp
  obtain ⟨chunk, hchunk, rfl⟩ := mem_map.mp hp
  obtain ⟨k, -, rfl⟩ := mem_map.mp hchunk
  simpa using mem_of_mem_drop (mem_of_mem_take hjob)

theorem exists_mem_batchChunks (cfg : WorkerConfig) (hjob : job ∈ jobs) :
    ∃ p ∈ batchChunks cfg jobs, job ∈ p.2 := by
  have hmem : job ∈ jobs.filter fun j => decide (j.target = job.target) := by simp [hjob]
  obtain ⟨chunk, hchunk, hin⟩ := exists_mem_chunkRows (cfg.fanoutBulkSize job.target) hmem
  refine ⟨(job.target, chunk), mem_flatMap.mpr ⟨job.target, ?_, ?_⟩, hin⟩
  · cases job.target <;> decide
  · exact mem_map.mpr ⟨chunk, hchunk, rfl⟩

theorem keeps_releaseOps {c : OutboxConfig} {sys : OutboxState π} {w w' : ℕ} (hne : w' ≠ w)
    (next : Option (Iteration π)) : Keeps w' sys (run (outboxStep c) sys (releaseOps w next)) := by
  refine keeps_run fun op hop => ?_
  rw [releaseOps] at hop
  split at hop
  · rw [mem_singleton] at hop
    subst hop
    exact hne.symm
  · cases hop

theorem ServiceSound.step (hs : ServiceSound s) (op : ServiceOp π) :
    ServiceSound (serviceStep cfg s op) := by
  refine ⟨run_invariant (fun sys op h => h.step op) hs.held _, fun w it hit => ?_⟩
  cases op with
  | other op =>
    refine (hs.linked w it hit).mono (keeps_run fun op' hop' => ?_)
    simp only [serviceOps] at hop'
    split at hop'
    · rename_i hout
      rw [mem_singleton] at hop'
      subst hop'
      cases op' <;> first | exact id | cases hout
    · cases hop'
  | claim clk w₀ limit target excludeTarget =>
    simp only [serviceStep, serviceWorkers] at hit
    simp only [serviceStep, serviceOps]
    rcases hidle : s.workers.get? w₀ with _ | busy
    · rw [hidle, get?_setIteration] at hit
      split at hit
      · rename_i hw
        subst hw
        refine linked_ofChunks (fun p hp job hjob => ?_)
          (fun p hp job hjob => (mem_batchChunks hp hjob).2) hit
        exact ⟨_, job?_claim (mem_batchChunks hp hjob).1, rfl⟩
      · rename_i hne
        refine (hs.linked w it hit).mono (keeps_run fun op hop => ?_)
        obtain rfl := mem_singleton.mp hop
        exact Ne.symm hne
    · rw [hidle] at hit
      exact hs.linked w it hit
  | claimRaised clk w₀ taken target excludeTarget =>
    have hlinked := hs.linked w it hit
    simp only [serviceStep, serviceOps]
    rcases hidle : s.workers.get? w₀ with _ | busy
    · have hne : w₀ ≠ w := by
        rintro rfl
        rw [show s.workers.get? w₀ = some it from hit] at hidle
        cases hidle
      refine hlinked.mono (keeps_run fun op hop => ?_)
      simp only [mem_cons, not_mem_nil, or_false] at hop
      rcases hop with rfl | rfl <;> exact hne
    · exact hlinked
  | proceed w₀ clk jitter answer =>
    simp only [serviceStep, serviceWorkers] at hit
    simp only [serviceStep, serviceOps]
    rcases hbusy : s.workers.get? w₀ with _ | it₀
    · rw [hbusy] at hit
      exact hs.linked w it hit
    · rw [hbusy, get?_setIteration] at hit
      rw [run_append]
      split at hit
      · rename_i hw
        subst hw
        rw [releaseOps, hit]
        exact (hs.linked w it₀ hbusy).proceed hit
      · exact ((hs.linked w it hit).mono keeps_proceed).mono (keeps_releaseOps ‹_› _)
  | restart clk => exact absurd (Dict.get?_eq_some.mp hit) not_mem_nil

end ContextLattice
