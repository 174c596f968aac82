import Mathlib.Data.List.Sort
import ContextLattice.Foundation.Run
import ContextLattice.Task.Row

/-!
# The operations of the task queue

Approve, update status, requeue and replay change one row from a row they **read before their write
transaction begins** (`seen`). What a step can do to the row of a task is said once, by `TaskChange`
and `taskStep_change`.
-/

namespace ContextLattice

open Foundation List

/-! ### The operations that read early -/

structure StatusUpdate where
  status : TaskStatus
  message : Option String
  metadata : Option Payload
  runAfterOverride : Option Stamp
  result : Option Json

/-- The part of `update_task_status` before the transaction: the status is read, the due time and
the result are taken from the metadata. -/
def prepareStatusUpdate (py : Python) (status : String) (message : Option String)
    (metadata : Option Payload) : Except HttpError StatusUpdate :=
  match TaskStatus.ofText (py.stripLower status) with
  | none => .error ⟨422, "invalid task status '" ++ status ++ "'"⟩
  | some normalized => do
    let override ← match metadata.bind (Dict.get? · "run_after") with
      | some v => if v.truthy then taskParseDatetime py (py.str v) else .ok none
      | none => .ok none
    let payload := metadata.map fun m => (Dict.get? m "result").getD (.obj m.rows)
    .ok
      { status := normalized
        message := message
        metadata := metadata
        runAfterOverride := override.map (· ++ "Z")
        result := match payload with
          | some .null => none
          | v => v }

def failureText (message lastError : Option String) : String :=
  truncate 2000 ((message.filter (· ≠ "")).getD (lastError.getD ""))

def statusWrite (clk : Clock) (u : StatusUpdate) (seen row : TaskRow) : TaskRow :=
  let dropsLease := u.status.terminal || u.status ∈ [.queued, .approved, .blocked]
  { row with
    status := u.status
    updatedAt := clk.now
    runAfter := u.runAfterOverride.or
      (if u.status ∈ [.queued, .approved] then some clk.now else seen.runAfter)
    leaseExpiresAt := if dropsLease then none else seen.leaseExpiresAt
    claimedBy := if dropsLease then none else seen.claimedBy
    completedAt := if u.status.terminal then some clk.now else seen.completedAt
    lastError := if u.status = .failed then some (failureText u.message seen.lastError)
      else seen.lastError
    result := u.result.or seen.result }

def approvedStatus : TaskStatus → TaskStatus
  | .blocked | .queued => .approved
  | s => s

def approveWrite (clk : Clock) (seen row : TaskRow) : TaskRow :=
  { row with
    approved := true
    status := approvedStatus seen.status
    updatedAt := clk.now
    -- `COALESCE(run_after, ?)` reads the row of the transaction, the status the early read
    runAfter := row.runAfter.or (some clk.now) }

def attemptLimit (cfg : TaskConfig) (row : TaskRow) : ℕ :=
  if row.maxAttempts = 0 then cfg.taskDefaultMaxAttempts else row.maxAttempts

def taskRetryDelaySecs (cfg : TaskConfig) (attempt : ℕ) : ℚ :=
  min (cfg.taskRetryBaseSecs * 2 ^ (attempt - 1)) cfg.taskRetryMaxSecs

def exhausted (cfg : TaskConfig) (row : TaskRow) : Prop := attemptLimit cfg row ≤ row.attempts

instance (cfg : TaskConfig) (row : TaskRow) : Decidable (exhausted cfg row) :=
  inferInstanceAs (Decidable (_ ≤ _))

def errorText (error : String) : String :=
  truncate 2000 (if error = "" then "task execution failed" else error)

def requeueWrite (cfg : TaskConfig) (clk : Clock) (error : String) (seen row : TaskRow) :
    TaskRow :=
  { row with
    status := if exhausted cfg seen then .failed else .queued
    runAfter := if exhausted cfg seen then seen.runAfter
      else some (clk.after (taskRetryDelaySecs cfg seen.attempts))
    leaseExpiresAt := none
    claimedBy := none
    updatedAt := clk.now
    completedAt := if exhausted cfg seen then some clk.now else none
    lastError := some (errorText error) }

def replayWrite (clk : Clock) (resetAttempts : Bool) (seen row : TaskRow) : TaskRow :=
  { row with
    status := .queued
    runAfter := some clk.now
    leaseExpiresAt := none
    claimedBy := none
    completedAt := none
    attempts := if resetAttempts then 0 else seen.attempts
    lastError := none
    updatedAt := clk.now }

inductive RowOp where
  | approve (approver note : Option String)
  | update (u : StatusUpdate)
  | requeue (error : String) (worker : Option String)
  | replay (actor note : Option String) (resetAttempts : Bool)

def textOrNull (s : Option String) : Json := (s.map .str).getD .null

namespace RowOp

variable (cfg : TaskConfig) (clk : Clock)

def write : RowOp → TaskRow → TaskRow → TaskRow
  | approve _ _ => approveWrite clk
  | update u => statusWrite clk u
  | requeue error _ => requeueWrite cfg clk error
  | replay _ _ reset => replayWrite clk reset

@[simp] theorem id_write (op : RowOp) (seen row : TaskRow) :
    (op.write cfg clk seen row).id = row.id := by
  cases op <;> rfl

def event (op : RowOp) (seen : TaskRow) : TaskEvent :=
  match op with
  | approve approver note =>
    { taskId := seen.id, timestamp := clk.now, status := .approved
      message := some "Task approved"
      metadata := if approver.getD "" = "" ∧ note.getD "" = "" then none
        else some (.obj [("approver", textOrNull approver), ("note", textOrNull note)]) }
  | update u =>
    { taskId := seen.id, timestamp := clk.now, status := u.status
      message := u.message
      metadata := u.metadata.map fun m => .obj m.rows }
  | requeue error worker =>
    let counts := toString seen.attempts ++ "/" ++ toString (attemptLimit cfg seen)
    { taskId := seen.id, timestamp := clk.now
      status := if exhausted cfg seen then .failed else .queued
      message := some (if exhausted cfg seen then
          "Task failed permanently after " ++ counts ++ " attempts"
        else "Task requeued after failure (attempt " ++ counts ++ ")")
      metadata := some (.obj [("worker", textOrNull worker),
        ("error", .str (errorText error))]) }
  | replay actor note reset =>
    { taskId := seen.id, timestamp := clk.now, status := .queued
      message := some "Task replayed to queue"
      metadata := some (.obj [("actor", textOrNull actor), ("note", textOrNull note),
        ("reset_attempts", .bool reset)]) }

def commit (op : RowOp) (id : String) (seen : TaskRow) (db : TaskDb) : TaskDb :=
  db.write id (op.write cfg clk seen) (fun _ => id_write ..) (op.event cfg clk seen)

def run (op : RowOp) (id : String) (db : TaskDb) : TaskDb :=
  match db.find? id with
  | none => db -- the endpoint answers 404
  | some seen => op.commit cfg clk id seen db

end RowOp

variable (py : Python) (cfg : TaskConfig) (clk : Clock) (id : String)

def approveTaskRecord (approver note : Option String) (db : TaskDb) : TaskDb :=
  (RowOp.approve approver note).run cfg clk id db

def updateTaskStatus (status : String) (message : Option String) (metadata : Option Payload)
    (db : TaskDb) : Except HttpError TaskDb := do
  let u ← prepareStatusUpdate py status message metadata
  .ok ((RowOp.update u).run cfg clk id db)

def requeueTaskForRetry (error : String) (worker : Option String) (db : TaskDb) : TaskDb :=
  (RowOp.requeue error worker).run cfg clk id db

def replayTaskRecord (actor note : Option String) (resetAttempts : Bool) (db : TaskDb) :
    TaskDb :=
  (RowOp.replay actor note resetAttempts).run cfg clk id db

/-! ### Lease recovery -/

def leaseExpired (now : Stamp) (row : TaskRow) : Bool :=
  row.status = .running && row.leaseExpiresAt.any fun lease => decide (lease ≤ now)

def recoverWrite (clk : Clock) (row : TaskRow) : TaskRow :=
  { row with
    status := .queued
    runAfter := some clk.now
    leaseExpiresAt := none
    claimedBy := none
    updatedAt := clk.now
    lastError := row.lastError.or (some "lease expired; requeued") }

@[simp] theorem id_recoverWrite (clk : Clock) (row : TaskRow) :
    (recoverWrite clk row).id = row.id := rfl

def expiredIds (now : Stamp) (limit : ℤ) (db : TaskDb) : List String :=
  (((db.tasks.rows.filter (leaseExpired now)).insertionSort fun a b =>
    a.leaseExpiresAt.getD "" ≤ b.leaseExpiresAt.getD "").take limit.toNat).map TaskRow.id

def recoverOne (clk : Clock) (db : TaskDb) (id : String) : TaskDb :=
  db.write id (recoverWrite clk) (id_recoverWrite clk)
    { taskId := id, timestamp := clk.now, status := .queued
      message := some "Lease expired; requeued by scheduler", metadata := none }

def recoverExpiredTaskLeases (clk : Clock) (limit : ℤ) (db : TaskDb) : TaskDb :=
  (expiredIds clk.now limit db).foldl (recoverOne clk) db

/-! ### Claiming -/

def sqlTrim (s : String) : String := String.ofList (stripList (· == ' ') s.toList)

def sqlLower (s : String) : String := String.ofList (s.toList.map Char.toLower)

def workerName (worker : Option String) : String :=
  let name := strip ((worker.filter (· ≠ "")).getD "external")
  if name = "" then "external" else name

def offeredTo (py : Python) (name : String) (agent : Option String) : Bool :=
  let workerKey := py.lower name
  let internal := "internal-worker".toList.isPrefixOf workerKey.toList
  match agent with
  | none => true
  | some a =>
    sqlTrim a = "" || sqlLower (sqlTrim a) = "any" || sqlLower (sqlTrim a) = workerKey ||
      (internal && sqlLower (sqlTrim a) = "internal") ||
      (!internal && sqlLower (sqlTrim a) = "external")

def claimable (py : Python) (now : Stamp) (name : String) (row : TaskRow) : Bool :=
  (row.status = .queued || row.status = .approved) &&
    (!row.approvalRequired || row.approved) &&
    decide (row.attempts < row.maxAttempts) &&
    (match row.runAfter with
      | none => true
      | some due => decide (due ≤ now)) &&
    offeredTo py name row.agent

def claimOrder (a b : TaskRow) : Bool :=
  ((compare b.priority a.priority).then
    ((compare a.runAfter b.runAfter).then (compare a.createdAt b.createdAt))).isLE

def nextClaimable (py : Python) (now : Stamp) (name : String) (db : TaskDb) : Option TaskRow :=
  ((db.tasks.rows.filter (claimable py now name)).insertionSort (claimOrder · ·)).head?

def claimWrite (cfg : TaskConfig) (clk : Clock) (name : String) (row : TaskRow) : TaskRow :=
  { row with
    status := .running
    updatedAt := clk.now
    leaseExpiresAt := some (clk.after cfg.taskLeaseSecs)
    claimedBy := some name
    -- counted in the database, so a claim never uses a stale number
    attempts := row.attempts + 1 }

@[simp] theorem id_claimWrite (cfg : TaskConfig) (clk : Clock) (name : String) (row : TaskRow) :
    (claimWrite cfg clk name row).id = row.id := rfl

def claimTask (py : Python) (cfg : TaskConfig) (clk : Clock) (worker : Option String)
    (db : TaskDb) : TaskDb × Option String :=
  let name := workerName worker
  match nextClaimable py clk.now name db with
  | none => (db, none)
  | some row =>
    (db.write row.id (claimWrite cfg clk name) (id_claimWrite cfg clk name)
      { taskId := row.id, timestamp := clk.now, status := .running
        message := some ("Claimed by " ++ name)
        metadata := some (.obj [("worker", .str name)]) }, some row.id)

def claimNextTask (py : Python) (cfg : TaskConfig) (clk clkRecover : Clock)
    (worker : Option String) (db : TaskDb) : TaskDb × Option String :=
  claimTask py cfg clk worker (recoverExpiredTaskLeases clkRecover 25 db)

/-! ### What the transactions do to a row -/

variable {py : Python} {cfg : TaskConfig} {clk : Clock} {db : TaskDb} {id : String}

@[simp] theorem find?_commit (op : RowOp) (seen : TaskRow) :
    (op.commit cfg clk id seen db).find? id = (db.find? id).map (op.write cfg clk seen) :=
  TaskDb.find?_write ..

variable {r : TaskRow}

theorem find?_run (op : RowOp) (hr : db.find? id = some r) :
    (op.run cfg clk id db).find? id = some (op.write cfg clk r r) := by
  simp [RowOp.run, hr]

theorem find?_run_of_ne (op : RowOp) {id' : String} (hne : id' ≠ id) :
    (op.run cfg clk id db).find? id' = db.find? id' := by
  unfold RowOp.run
  split
  · rfl
  · exact TaskDb.find?_write_of_ne hne _ _ _

theorem recoverWrite_recoverWrite (r : TaskRow) :
    recoverWrite clk (recoverWrite clk r) = recoverWrite clk r := by
  cases h : r.lastError <;> simp [recoverWrite, h]

private theorem find?_foldl_recoverOne (ids : List String) :
    (ids.foldl (recoverOne clk) db).find? id =
      (db.find? id).map fun r => if id ∈ ids then recoverWrite clk r else r := by
  induction ids generalizing db with
  | nil => simp
  | cons k ids ih =>
    rw [foldl_cons, ih]
    by_cases hk : id = k
    · -- a task listed twice is recovered once
      subst hk
      rw [recoverOne, TaskDb.find?_write, Option.map_map]
      congr 1
      funext r
      by_cases hmem : id ∈ ids <;> simp [hmem, recoverWrite_recoverWrite]
    · rw [recoverOne, TaskDb.find?_write_of_ne hk]
      simp [hk]

theorem find?_recoverExpiredTaskLeases (clk : Clock) (limit : ℤ) (db : TaskDb) (id : String) :
    (recoverExpiredTaskLeases clk limit db).find? id = (db.find? id).map fun r =>
      if id ∈ expiredIds clk.now limit db then recoverWrite clk r else r :=
  find?_foldl_recoverOne _

variable {now : Stamp}

theorem leaseExpired_of_mem_expiredIds {limit : ℤ} (h : id ∈ expiredIds now limit db)
    (hr : db.find? id = some r) : leaseExpired now r = true := by
  obtain ⟨r', hr', rfl⟩ := mem_map.mp h
  have hmem := (mem_insertionSort _).mp (mem_of_mem_take hr')
  rw [mem_filter] at hmem
  rw [TaskDb.find?, Table.find?_of_mem hmem.1] at hr
  obtain rfl := Option.some.inj hr
  exact hmem.2

theorem nextClaimable_eq_some {name : String} (h : nextClaimable py now name db = some r) :
    db.find? r.id = some r ∧ claimable py now name r = true := by
  have hmem := (mem_insertionSort _).mp (mem_of_mem_head? h)
  rw [mem_filter] at hmem
  exact ⟨Table.find?_of_mem hmem.1, hmem.2⟩

theorem find?_claimTask (py : Python) (cfg : TaskConfig) (clk : Clock) (worker : Option String)
    (hr : db.find? id = some r) :
    ((claimTask py cfg clk worker db).2 ≠ some id ∧
        (claimTask py cfg clk worker db).1.find? id = some r) ∨
      (claimTask py cfg clk worker db).2 = some id ∧
        claimable py clk.now (workerName worker) r = true ∧
        (claimTask py cfg clk worker db).1.find? id =
          some (claimWrite cfg clk (workerName worker) r) := by
  rcases hnext : nextClaimable py clk.now (workerName worker) db with _ | row
  · simp [claimTask, hnext, hr]
  · obtain ⟨hrow, hclaimable⟩ := nextClaimable_eq_some hnext
    by_cases hid : row.id = id
    · subst hid
      obtain rfl : row = r := Option.some.inj (hrow.symm.trans hr)
      exact .inr ⟨by simp [claimTask, hnext], hclaimable, by simp [claimTask, hnext, hrow]⟩
    · refine .inl ⟨by simpa [claimTask, hnext] using hid, ?_⟩
      simp only [claimTask, hnext]
      rw [TaskDb.find?_write_of_ne (fun h => hid h.symm)]
      exact hr

/-! ### Runs of the queue -/

inductive TaskOp where
  | create (clk : Clock) (taskId : String) (req : TaskRequest)
  | claim (clk clkRecover : Clock) (worker : Option String)
  | select (clk : Clock) (worker : Option String)
  | recover (clk : Clock) (limit : ℤ)
  | approve (clk : Clock) (id : String) (approver note : Option String)
  | update (clk : Clock) (id status : String) (message : Option String)
      (metadata : Option Payload)
  | requeue (clk : Clock) (id error : String) (worker : Option String)
  | replay (clk : Clock) (id : String) (actor note : Option String) (resetAttempts : Bool)

variable (py : Python) (cfg : TaskConfig)

def taskStep (db : TaskDb) : TaskOp → TaskDb
  | .create clk taskId req =>
    match createTaskRecord py cfg clk taskId req db with
    | .ok (db', _) => db'
    | .error _ => db
  | .claim clk clkRecover worker => (claimNextTask py cfg clk clkRecover worker db).1
  | .select clk worker => (claimTask py cfg clk worker db).1
  | .recover clk limit => recoverExpiredTaskLeases clk limit db
  | .approve clk id approver note => approveTaskRecord cfg clk id approver note db
  | .update clk id status message metadata =>
    match updateTaskStatus py cfg clk id status message metadata db with
    | .ok db' => db'
    | .error _ => db
  | .requeue clk id error worker => requeueTaskForRetry cfg clk id error worker db
  | .replay clk id actor note reset => replayTaskRecord cfg clk id actor note reset db

def handedOut (db : TaskDb) : TaskOp → Option String
  | .claim clk clkRecover worker => (claimNextTask py cfg clk clkRecover worker db).2
  | .select clk worker => (claimTask py cfg clk worker db).2
  | _ => none

def Touches (id : String) (db : TaskDb) : TaskOp → Prop
  | .create .. => False
  | .claim clk clkRecover worker =>
    id ∈ expiredIds clkRecover.now 25 db ∨
      (claimTask py cfg clk worker (recoverExpiredTaskLeases clkRecover 25 db)).2 = some id
  | .select clk worker => (claimTask py cfg clk worker db).2 = some id
  | .recover clk limit => id ∈ expiredIds clk.now limit db
  | .approve _ id' _ _ => id' = id
  | .update _ id' status message metadata =>
    id' = id ∧ ∃ u, prepareStatusUpdate py status message metadata = .ok u
  | .requeue _ id' _ _ => id' = id
  | .replay _ id' _ _ _ => id' = id

inductive TaskChange (id : String) : TaskOp → TaskRow → TaskRow → Prop
  | recovered {clk : Clock} {limit : ℤ} {r : TaskRow} (h : leaseExpired clk.now r = true) :
      TaskChange id (.recover clk limit) r (recoverWrite clk r)
  | selected {clk : Clock} {worker : Option String} {r : TaskRow}
      (h : claimable py clk.now (workerName worker) r = true) :
      TaskChange id (.select clk worker) r (claimWrite cfg clk (workerName worker) r)
  | claimed {clk clkRecover : Clock} {worker : Option String} {r : TaskRow}
      (h : claimable py clk.now (workerName worker) r = true) :
      TaskChange id (.claim clk clkRecover worker) r (claimWrite cfg clk (workerName worker) r)
  | claimRecovered {clk clkRecover : Clock} {worker : Option String} {r : TaskRow}
      (h : leaseExpired clkRecover.now r = true) :
      TaskChange id (.claim clk clkRecover worker) r (recoverWrite clkRecover r)
  | reclaimed {clk clkRecover : Clock} {worker : Option String} {r : TaskRow}
      (h : leaseExpired clkRecover.now r = true)
      (h' : claimable py clk.now (workerName worker) (recoverWrite clkRecover r) = true) :
      TaskChange id (.claim clk clkRecover worker) r
        (claimWrite cfg clk (workerName worker) (recoverWrite clkRecover r))
  | approved {clk : Clock} {approver note : Option String} {r : TaskRow} :
      TaskChange id (.approve clk id approver note) r (approveWrite clk r r)
  | updated {clk : Clock} {status : String} {message : Option String}
      {metadata : Option Payload} {u : StatusUpdate} {r : TaskRow}
      (h : prepareStatusUpdate py status message metadata = .ok u) :
      TaskChange id (.update clk id status message metadata) r (statusWrite clk u r r)
  | requeued {clk : Clock} {error : String} {worker : Option String} {r : TaskRow} :
      TaskChange id (.requeue clk id error worker) r (requeueWrite cfg clk error r r)
  | replayed {clk : Clock} {actor note : Option String} {reset : Bool} {r : TaskRow} :
      TaskChange id (.replay clk id actor note reset) r (replayWrite clk reset r r)

def StepOf (id : String) (db : TaskDb) (op : TaskOp) (r : TaskRow) : Prop :=
  (¬ Touches py cfg id db op ∧ (taskStep py cfg db op).find? id = some r) ∨
    Touches py cfg id db op ∧
      ∃ r', (taskStep py cfg db op).find? id = some r' ∧ TaskChange py cfg id op r r'

variable {py cfg}

theorem taskStep_update {clk : Clock} {id status : String} {message : Option String}
    {metadata : Option Payload} {u : StatusUpdate} {db : TaskDb}
    (h : prepareStatusUpdate py status message metadata = .ok u) :
    taskStep py cfg db (.update clk id status message metadata) =
      (RowOp.update u).run cfg clk id db := by
  simp [taskStep, updateTaskStatus, h, bind, Except.bind]

private theorem stepOf_rowOp (op : RowOp) {clk : Clock} {id id' : String} {db : TaskDb}
    {taskOp : TaskOp} (hr : db.find? id = some r)
    (hstep : taskStep py cfg db taskOp = op.run cfg clk id' db)
    (htouches : Touches py cfg id db taskOp ↔ id' = id)
    (hchange : id' = id → TaskChange py cfg id taskOp r (op.write cfg clk r r)) :
    StepOf py cfg id db taskOp r := by
  rw [StepOf, hstep, htouches]
  by_cases hid : id' = id
  · subst hid
    exact .inr ⟨rfl, _, find?_run op hr, hchange rfl⟩
  · exact .inl ⟨hid, (find?_run_of_ne op fun h => hid h.symm).trans hr⟩

private theorem stepOf_claim {clk clkRecover : Clock} {worker : Option String} {id : String}
    {db : TaskDb} (hr : db.find? id = some r) :
    StepOf py cfg id db (.claim clk clkRecover worker) r := by
  -- first the row as lease recovery leaves it, then what the claim does to that row
  have hrec := find?_recoverExpiredTaskLeases clkRecover 25 db id
  rw [hr, Option.map_some] at hrec
  split at hrec
  · rename_i hmem
    have hexpired := leaseExpired_of_mem_expiredIds hmem hr
    rcases find?_claimTask py cfg clk worker hrec with ⟨-, hfind⟩ | ⟨-, hclaimable, hfind⟩
    · exact .inr ⟨.inl hmem, _, hfind, .claimRecovered hexpired⟩
    · exact .inr ⟨.inl hmem, _, hfind, .reclaimed hexpired hclaimable⟩
  · rename_i hmem
    rcases find?_claimTask py cfg clk worker hrec with ⟨hne, hfind⟩ | ⟨heq, hclaimable, hfind⟩
    · exact .inl ⟨not_or.mpr ⟨hmem, hne⟩, hfind⟩
    · exact .inr ⟨.inr heq, _, hfind, .claimed hclaimable⟩

theorem taskStep_change (py : Python) (cfg : TaskConfig) {id : String} {db : TaskDb} (op : TaskOp)
    (hr : db.find? id = some r) : StepOf py cfg id db op r := by
  cases op with
  | create clk taskId req =>
    refine .inl ⟨not_false, ?_⟩
    rw [taskStep]
    split
    · exact find?_createTaskRecord ‹_› hr
    · exact hr
  | claim clk clkRecover worker => exact stepOf_claim hr
  | select clk worker =>
    rcases find?_claimTask py cfg clk worker hr with ⟨hne, hfind⟩ | ⟨heq, hclaimable, hfind⟩
    · exact .inl ⟨hne, hfind⟩
    · exact .inr ⟨heq, _, hfind, .selected hclaimable⟩
  | recover clk limit =>
    have hrec := find?_recoverExpiredTaskLeases clk limit db id
    rw [hr, Option.map_some] at hrec
    split at hrec
    · rename_i hmem
      exact .inr ⟨hmem, _, hrec, .recovered (leaseExpired_of_mem_expiredIds hmem hr)⟩
    · rename_i hmem
      exact .inl ⟨hmem, hrec⟩
  | approve clk id' approver note =>
    exact stepOf_rowOp (.approve approver note) hr rfl Iff.rfl fun h => h ▸ .approved
  | update clk id' status message metadata =>
    rcases hprep : prepareStatusUpdate py status message metadata with e | u
    · refine .inl ⟨?_, ?_⟩
      · rintro ⟨-, u, hu⟩
        rw [hprep] at hu
        cases hu
      · simpa [taskStep, updateTaskStatus, hprep, bind, Except.bind] using hr
    · refine stepOf_rowOp (.update u) hr (taskStep_update hprep) ?_ fun h => h ▸ .updated hprep
      exact ⟨And.left, fun h => ⟨h, u, hprep⟩⟩
  | requeue clk id' error worker =>
    exact stepOf_rowOp (.requeue error worker) hr rfl Iff.rfl fun h => h ▸ .requeued
  | replay clk id' actor note reset =>
    exact stepOf_rowOp (.replay actor note reset) hr rfl Iff.rfl fun h => h ▸ .replayed

end ContextLattice
