import ContextLattice.Task.Payload

/-!
# Task rows and task creation

The tables `tasks` and `task_events`, and `create_task_record`. A payload and a result are stored as
JSON text and only ever read back, so the rows hold the values themselves.
-/

namespace ContextLattice

open Foundation

/-! ### Rows -/

inductive TaskStatus where
  | queued | approved | running | blocked | succeeded | failed | canceled
deriving DecidableEq, Repr

namespace TaskStatus

def terminal : TaskStatus → Bool
  | succeeded | failed | canceled => true
  | queued | approved | running | blocked => false

def ofText (s : String) : Option TaskStatus :=
  [("queued", queued), ("approved", approved), ("running", running), ("blocked", blocked),
    ("succeeded", succeeded), ("failed", failed), ("canceled", canceled)].lookup s

end TaskStatus

structure TaskRow where
  id : String
  title : String
  status : TaskStatus
  project : Option String
  agent : Option String
  priority : ℤ
  payload : Option Payload
  runAfter : Option Stamp
  attempts : ℕ
  maxAttempts : ℕ
  leaseExpiresAt : Option Stamp
  claimedBy : Option String
  lastError : Option String
  result : Option Json
  completedAt : Option Stamp
  createdAt : Stamp
  updatedAt : Stamp
  approvalRequired : Bool
  approved : Bool
  riskLevel : String
  actionType : Option String

structure TaskEvent where
  taskId : String
  timestamp : Stamp
  status : TaskStatus
  message : Option String
  metadata : Option Json

structure TaskDb where
  tasks : Table TaskRow.id
  events : List TaskEvent

def TaskDb.empty : TaskDb := ⟨.empty, []⟩

def TaskDb.find? (db : TaskDb) (id : String) : Option TaskRow := db.tasks.find? id

def TaskDb.write (db : TaskDb) (id : String) (f : TaskRow → TaskRow)
    (hf : ∀ r, (f r).id = r.id) (event : TaskEvent) : TaskDb :=
  ⟨db.tasks.update id f hf, db.events ++ [event]⟩

@[simp] theorem TaskDb.find?_write (db : TaskDb) (id : String) (f : TaskRow → TaskRow) (hf)
    (event : TaskEvent) : (db.write id f hf event).find? id = (db.find? id).map f :=
  Table.find?_update db.tasks id f hf

theorem TaskDb.find?_write_of_ne {db : TaskDb} {id id' : String} (hne : id' ≠ id)
    (f : TaskRow → TaskRow) (hf) (event : TaskEvent) :
    (db.write id f hf event).find? id' = db.find? id' :=
  Table.find?_update_of_ne hne f hf

/-! ### Creation -/

def isoCandidate (raw : String) : String :=
  if raw.toList.getLast? = some 'Z' then String.ofList raw.toList.dropLast ++ "+00:00" else raw

def taskParseDatetime (py : Python) (value : String) : Except HttpError (Option String) :=
  let raw := strip value
  if raw = "" then .ok none
  else if py.isdigit raw then
    match (py.wholeNumber raw).bind DateTime.utcfromtimestamp with
    | none => .error .internal
    | some parsed => .ok (some parsed.isoformat)
  else
    match py.fromisoformat (isoCandidate raw) with
    | none => .ok none
    | some (parsed, none) => .ok (some parsed.isoformat)
    | some (parsed, some offset) =>
      match DateTime.ofInstant (parsed.micros - offset) with
      | none => .error .internal
      | some utc => .ok (some utc.isoformat)

structure TaskRequest where
  title : String
  project : Option String
  agent : Option String
  priority : ℤ
  payload : Option Payload
  runAfter : Option String
  maxAttempts : Option ℕ

def dueAt (py : Python) (clk : Clock) : Option String → Except HttpError Stamp
  | none => .ok clk.now
  | some runAfter =>
    if runAfter = "" then .ok clk.now
    else do
      match ← taskParseDatetime py runAfter with
      | none => .error ⟨422, "run_after must be ISO-8601 timestamp"⟩
      | some due => .ok (due ++ "Z")

def flag (payload : Payload) (k : String) : Bool := (payload.get? k).any Json.truthy

def approvalRequired (py : Python) (cfg : TaskConfig) (payload : Payload) : Bool :=
  flag payload "approval_required" || requiresApproval py cfg payload

def selfApproved (payload : Payload) : Bool := flag payload "approved" || flag payload "approval"

def newRow (cfg : TaskConfig) (clk : Clock) (taskId : String) (req : TaskRequest) (due : Stamp) :
    TaskRow where
  id := taskId
  title := req.title
  status := .queued
  project := req.project
  agent := req.agent
  priority := req.priority
  payload := none
  runAfter := some due
  attempts := 0
  maxAttempts := max 1 (min (match req.maxAttempts with
    | none | some 0 => cfg.taskDefaultMaxAttempts
    | some n => n) 50)
  leaseExpiresAt := none
  claimedBy := none
  lastError := none
  result := none
  completedAt := none
  createdAt := clk.now
  updatedAt := clk.now
  approvalRequired := false
  approved := false
  riskLevel := "low"
  actionType := none

def newPayloadRow (py : Python) (cfg : TaskConfig) (clk : Clock) (taskId : String)
    (req : TaskRequest) (due : Stamp) (payload : Payload) : TaskRow :=
  { newRow cfg clk taskId req due with
    payload := some payload
    approvalRequired := approvalRequired py cfg payload
    approved := selfApproved payload
    riskLevel := detectRiskLevel py cfg payload
    actionType := (normalizeTaskAction py (payload.get? "action")).or
      (detectActionType py payload) }

def taskRowOf (py : Python) (cfg : TaskConfig) (clk : Clock) (taskId : String)
    (req : TaskRequest) : Except HttpError TaskRow :=
  match req.payload with
  | none => do
    let due ← dueAt py clk req.runAfter
    .ok (newRow cfg clk taskId req due)
  | some payload => do
    let normalized ← validateTaskPayloadContract py cfg payload
    let due ← dueAt py clk req.runAfter
    .ok (newPayloadRow py cfg clk taskId req due normalized)

def createTaskRecord (py : Python) (cfg : TaskConfig) (clk : Clock) (taskId : String)
    (req : TaskRequest) (db : TaskDb) : Except HttpError (TaskDb × TaskRow) := do
  let row ← taskRowOf py cfg clk taskId req
  if h : db.tasks.find? row.id = none then
    .ok (⟨db.tasks.insert row h, db.events ++ [{
      taskId := row.id, timestamp := clk.now, status := .queued,
      message := some ("Task created (due " ++ row.runAfter.getD "" ++ ")"),
      metadata := none }]⟩, row)
  else .error .internal

variable {py : Python} {cfg : TaskConfig} {clk : Clock} {taskId : String} {req : TaskRequest}
  {db db' : TaskDb} {row : TaskRow}

section

variable (h : createTaskRecord py cfg clk taskId req db = .ok (db', row))

include h

theorem createTaskRecord_eq_ok :
    taskRowOf py cfg clk taskId req = .ok row ∧
      ∃ hnew : db.tasks.find? row.id = none, db'.tasks = db.tasks.insert row hnew := by
  rcases hrow : taskRowOf py cfg clk taskId req with e | row'
  · simp [createTaskRecord, hrow, bind, Except.bind] at h
  · simp only [createTaskRecord, hrow, bind, Except.bind] at h
    split at h
    · rename_i hnew
      cases h
      exact ⟨rfl, hnew, rfl⟩
    · cases h

theorem find?_of_createTaskRecord : db'.find? row.id = some row := by
  obtain ⟨-, hnew, htasks⟩ := createTaskRecord_eq_ok h
  rw [TaskDb.find?, htasks]
  exact Table.find?_insert ..

theorem find?_createTaskRecord {id : String} {r : TaskRow} (hr : db.find? id = some r) :
    db'.find? id = some r := by
  obtain ⟨-, hnew, htasks⟩ := createTaskRecord_eq_ok h
  have hne : row.id ≠ id := by
    rintro rfl
    rw [TaskDb.find?, hnew] at hr
    cases hr
  rw [TaskDb.find?, htasks, Table.find?_insert_of_ne hne]
  exact hr

end

theorem taskRowOf_eq_ok {payload : Payload} (hpayload : req.payload = some payload)
    (h : taskRowOf py cfg clk taskId req = .ok row) :
    ∃ normalized due, validateTaskPayloadContract py cfg payload = .ok normalized ∧
      row = newPayloadRow py cfg clk taskId req due normalized := by
  simp only [taskRowOf, hpayload, bind, Except.bind] at h
  split at h
  · cases h
  · rename_i normalized hnormalized
    split at h
    · cases h
    · cases h
      exact ⟨normalized, _, hnormalized, rfl⟩

structure AgentTaskCreate where
  title : String
  project : Option String := none
  agent : Option String := none
  priority : ℤ := 0
  payload : Option Payload := none
  riskLevel : Option String := none
  actionType : Option String := none
  approvalRequired : Option Bool := none
  approved : Option Bool := none
  topicPath : Option String := none
  runAfter : Option String := none
  maxAttempts : Option ℕ := none

def setGiven (payload : Payload) (k : String) : Option Json → Payload
  | none => payload
  | some v => payload.set k v

def givenText (s : Option String) : Option Json := (s.filter (· ≠ "")).map .str

def AgentTaskCreate.taskPayload (req : AgentTaskCreate) : Payload :=
  let p := req.payload.getD .empty
  let p := setGiven p "risk_level" (givenText req.riskLevel)
  let p := setGiven p "action_type" (givenText req.actionType)
  let p := setGiven p "approval_required" (req.approvalRequired.map .bool)
  let p := setGiven p "approved" (req.approved.map .bool)
  setGiven p "topic_path" (givenText req.topicPath)

def createAgentTask (py : Python) (cfg : TaskConfig) (clk : Clock) (taskId : String)
    (req : AgentTaskCreate) (db : TaskDb) : Except HttpError (TaskDb × TaskRow) :=
  createTaskRecord py cfg clk taskId
    { title := req.title
      project := req.project
      agent := req.agent
      priority := req.priority
      payload := if req.taskPayload.rows.isEmpty then none else some req.taskPayload
      runAfter := req.runAfter
      maxAttempts := req.maxAttempts } db

end ContextLattice
