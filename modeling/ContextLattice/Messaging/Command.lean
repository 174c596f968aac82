import ContextLattice.Foundation.Search
import ContextLattice.Secrets.Scrub
import ContextLattice.Write.Request

/-!
# Messaging commands

`_execute_messaging_command` asks the memory or the task queue, writes a text about the answer, and
returns both. On a **strict** channel the text, the file name and the result are redacted last,
after every cut; the project and the topic path are returned as they are.
-/

namespace ContextLattice

open Foundation

/-! ### Settings, commands and calls -/

structure MessagingConfig where
  messagingCommandHandle : String
  messagingDefaultProject : String
  messagingSearchLimit : ℕ
  messagingMaxResponseChars : ℕ
  messagingOpenclawStrictSecurity : Bool
  taskDefaultMaxAttempts : ℤ
  taskProviderChatModel : String
  defaultTopicRoot : String

def MessagingConfig.default : MessagingConfig where
  messagingCommandHandle := "@ContextLattice"
  messagingDefaultProject := "messaging"
  messagingSearchLimit := 4
  messagingMaxResponseChars := 1200
  messagingOpenclawStrictSecurity := true
  taskDefaultMaxAttempts := 4
  taskProviderChatModel := ""
  defaultTopicRoot := "root"

structure MessagingEnv where
  cfg : MessagingConfig
  lib : WriteLib
  words : WordClass
  parseInt : String → Option ℤ
  loads : String → Option Json
  millis : ℕ

inductive MessagingAction where
  | remember | recall | task | status | help
deriving DecidableEq, Repr

structure ParsedCommand where
  action : MessagingAction
  content : String
  directives : List (String × String)
  raw : String

def ParsedCommand.directive (parsed : ParsedCommand) (key : String) : String :=
  (parsed.directives.lookup key).getD ""

structure CommandCall where
  channel : String
  sourceId : String
  defaultProject : String
  topicRoot : String
  projectOverride : Option String
  topicOverride : Option String
  userId : Option String

inductive Question where
  | writeMemory (project file content topicPath : String)
  | searchMemory (query : String) (limit : ℕ) (project topicPath : String)
      (mode userId agent : Option String)
  | createTaskRecord (title project : String) (agent : Option String) (priority : ℤ)
      (payload : List (String × Json)) (runAfter : Option String) (maxAttempts : ℤ)
  | getTaskRecord (taskId : String)
  | getTaskEvents (taskId : String)
  | approveTaskRecord (taskId approver note : String)
  | replayTaskRecord (taskId actor note : String) (resetAttempts : Bool)
  | updateTaskStatus (taskId status message : String) (metadata : List (String × Json))
  | listTaskRecords (status : Option String) (project : String) (agent : Option String) (limit : ℕ)
  | listDeadletterTaskRecords (project : String) (limit : ℕ)
  | getTaskRuntimeSnapshot
  | status

def stripped (s : String) : Option String := some (strip s) |>.filter (· ≠ "")

def splitWord (s : String) : String × String :=
  let cs := s.toList.dropWhile isSpace
  (String.ofList (cs.takeWhile fun c => !isSpace c),
    strip (String.ofList (cs.dropWhile fun c => !isSpace c)))

/-! ### Channels, names and paths -/

section

variable (env : MessagingEnv)

def strictMessagingChannel (channel : String) : Except HttpError Bool :=
  if env.cfg.messagingOpenclawStrictSecurity then do
    let normalized ← normalizeTopicPath env.lib channel
    .ok (decide (normalized ∈ ["openclaw", "zeroclaw", "ironclaw"]))
  else .ok false

def sourceTopicPath (base source : String) : Except HttpError String :=
  if source = "" ∨ source = env.cfg.defaultTopicRoot then .ok base
  else if base = env.cfg.defaultTopicRoot then .ok source
  else normalizeTopicPath env.lib (base ++ "/" ++ source)

def messagingTopicPath (defaultRoot sourceId explicit : String) : Except HttpError String := do
  let normalized ← normalizeTopicPath env.lib explicit
  match decide (normalized = "") with
  | false => .ok normalized
  | true => do
    let base ← normalizeTopicPath env.lib defaultRoot
    let source ← normalizeTopicPath env.lib sourceId
    sourceTopicPath env base source

def messagingFileName (topicPath explicit : String) : Except HttpError String := do
  let normalized ← normalizeMemoryPath env.lib explicit
  match decide (normalized = "") with
  | false => .ok normalized
  | true =>
    let folder := if topicPath = env.cfg.defaultTopicRoot then "channels/messaging" else topicPath
    normalizeMemoryPath env.lib (folder ++ "/msg_" ++ toString env.millis ++ ".md")

def messagingDirectiveInt (parsed : ParsedCommand) (key : String)
    (default minimum maximum : ℤ) : ℤ :=
  match parsed.directives.lookup key with
  | none => default
  | some raw =>
    match env.parseInt (strip raw) with
    | none => default
    | some n => max minimum (min maximum n)

def messagingProject (call : CommandCall) (parsed : ParsedCommand) : String :=
  let names := [call.projectOverride.getD "", parsed.directive "project", call.defaultProject,
    env.cfg.messagingDefaultProject]
  let project := strip ((names.find? (· ≠ "")).getD "")
  if project = "" then env.cfg.messagingDefaultProject else project

structure Scope where
  strict : Bool
  project : String
  topicPath : String

def messagingScope (call : CommandCall) (parsed : ParsedCommand) : Except HttpError Scope := do
  let strict ← strictMessagingChannel env call.channel
  let source ← normalizeTopicPath env.lib call.sourceId
  let explicit := (call.topicOverride.filter (· ≠ "")).getD (parsed.directive "topic")
  let topicPath ← messagingTopicPath env call.topicRoot
    (if source = "" then "default" else source) explicit
  .ok ⟨strict, messagingProject env call parsed, topicPath⟩

def refuseSecret (scope : Scope) (text : String) (what : String) : Except HttpError Unit :=
  if scope.strict && containsSensitiveValue env.words text then
    .error ⟨422, "potential secret detected; " ++ what ++ " blocked on secure messaging surface"⟩
  else .ok ()

def requireText (text message : String) : Except HttpError Unit :=
  if text = "" then .error ⟨400, message⟩ else .ok ()

def messagePayload (call : CommandCall) (scope : Scope) (text : String) : List (String × Json) :=
  [("action", .str "messaging_command"), ("text", .str text), ("channel", .str call.channel),
    ("source_id", .str call.sourceId), ("project", .str scope.project),
    ("topic_path", .str scope.topicPath), ("require_prefix", .bool false)]

def callbackTarget (remainder : String) : String × String :=
  let words := splitWord remainder
  let method := env.lib.py.upper words.1
  if method ∈ ["GET", "POST", "PUT", "PATCH", "DELETE"] then (method, words.2)
  else ("POST", remainder)

def payloadTitle (payload : List (String × Json)) : String :=
  let asked := (Json.orElse (Json.member payload "title") (Json.member payload "name")).filter
    Json.truthy
  let title := strip ((asked.map env.lib.py.str).getD "Queued task")
  if title = "" then "Queued task" else title

def buildMessagingTaskPayload (call : CommandCall) (scope : Scope) (parsed : ParsedCommand)
    (createSpec : String) : Except HttpError (String × List (String × Json)) := do
  let rendered := strip createSpec
  requireText rendered "task create requires a payload or subcommand"
  if rendered.toList.head? = some '\x7b' then
    match env.loads rendered with
    | none => .error ⟨400, "task create payload JSON is invalid"⟩
    | some (.obj payload) => .ok (payloadTitle env payload, payload)
    | some _ => .error ⟨400, "task create JSON payload must be an object"⟩
  else
    let words := splitWord rendered
    let subAction := env.lib.py.lower words.1
    let remainder := words.2
    if subAction ∈ ["remember", "write", "save"] then do
      requireText remainder "task create remember requires content"
      let file ← messagingFileName env scope.topicPath (parsed.directive "file")
      .ok ("Remember: " ++ truncate 72 remainder,
        [("action", .str "memory_write"), ("projectName", .str scope.project),
          ("fileName", .str file), ("content", .str remainder),
          ("topic_path", .str scope.topicPath)])
    else if subAction ∈ ["recall", "search", "find"] then do
      requireText remainder "task create recall requires query"
      .ok ("Recall: " ++ truncate 72 remainder,
        [("action", .str "memory_search"), ("query", .str remainder),
          ("project", .str scope.project), ("topic_path", .str scope.topicPath),
          ("limit",
            .int (messagingDirectiveInt env parsed "limit" env.cfg.messagingSearchLimit 1 50)),
          ("include_preferences", .bool true)])
    else if subAction ∈ ["message", "command", "notify"] then do
      requireText remainder "task create message requires text"
      .ok ("Message: " ++ truncate 72 remainder, messagePayload call scope remainder)
    else if subAction ∈ ["callback", "http"] then do
      requireText remainder "task create callback requires URL"
      let target := callbackTarget env remainder
      requireText target.2 "task create callback requires URL"
      .ok ("Callback: " ++ target.1 ++ " " ++ truncate 60 target.2,
        [("action", .str "http_callback"), ("url", .str target.2), ("method", .str target.1),
          ("body", .obj [("source", .str "messaging_task"), ("channel", .str call.channel),
            ("source_id", .str call.sourceId)])])
    else if subAction ∈ ["provider", "chat"] then do
      requireText remainder "task create provider requires prompt text"
      let model := [parsed.directive "model", env.cfg.taskProviderChatModel].find? (· ≠ "")
      .ok ("Provider chat: " ++ truncate 60 remainder,
        [("action", .str "provider_chat"), ("prompt", .str remainder),
          ("model", (model.map Json.str).getD .null)])
    else .ok ("Task: " ++ truncate 72 rendered, messagePayload call scope rendered)

end

/-! ### Texts about answers -/

section

variable (env : MessagingEnv)

def rstrip (s : String) : String := String.ofList (s.toList.rdropWhile isSpace)

def textOr (t : Json) (alt : String) : String := if t.truthy then env.lib.py.str t else alt

def valueGet (key : String) : Json → Except HttpError Json
  | .obj members => .ok ((Json.member members key).getD .null)
  | _ => .error .internal

def valueAt (key : String) : Json → Except HttpError Json
  | .obj members =>
    match Json.member members key with
    | some t => .ok t
    | none => .error .internal
  | _ => .error .internal

def listItems : Json → Except HttpError (List Json)
  | .arr items => .ok items
  | _ => .error .internal

def truncateMessagingText (text : String) : String :=
  let limit := env.cfg.messagingMaxResponseChars
  let rendered := strip text
  if rendered.length ≤ limit then rendered
  else rstrip (truncate (max 1 (limit - 1)) rendered) ++ "…"

def joinWarnings : Json → Except HttpError String
  | .arr items => .ok (" | ".intercalate ((items.take 2).map env.lib.py.str))
  | .str s => .ok (" | ".intercalate ((s.toList.take 2).map String.singleton))
  | _ => .error .internal

def withWarnings (text head : String) (warnings : Json) : Except HttpError String :=
  if warnings.truthy then (joinWarnings env warnings).map fun joined => text ++ head ++ joined
  else .ok text

def itemText : Json → Except HttpError String
  | .str s => .ok s
  | _ => .error .internal

def joinValue : Json → Except HttpError String
  | .arr items => (items.mapM itemText).map ",".intercalate
  | .str s => .ok (",".intercalate (s.toList.map String.singleton))
  | .obj members => .ok (",".intercalate (members.map Prod.fst))
  | _ => .error .internal

def joinSources (sources : Json) : Except HttpError String :=
  if sources.truthy then joinValue sources else .ok ""

def hitSource (item : Json) : Except HttpError String := do
  let source ← valueGet "source" item
  if source.truthy then .ok (env.lib.py.str source)
  else do
    let sources ← valueGet "sources" item
    let joined ← joinSources sources
    .ok (if joined = "" then "memory" else joined)

def hitSummary (summary : Json) : String :=
  let line := String.ofList ((strip (textOr env summary "")).toList.map fun c =>
    if c = '\n' then ' ' else c)
  let named := if line = "" then "(no summary)" else line
  if named.length > 180 then rstrip (truncate 177 named) ++ "..." else named

def recallLine (hit : Json × ℕ) : Except HttpError String := do
  let summary ← valueGet "summary" hit.1
  let file ← valueGet "file" hit.1
  let source ← hitSource env hit.1
  .ok (toString hit.2 ++ ". [" ++ source ++ "] " ++ textOr env file "-" ++ " -> " ++
    hitSummary env summary)

def noMatchText (scope : Scope) (query : String) : String :=
  "No matching memory found for '" ++ query ++ "' in project '" ++ scope.project ++
    "' topic '" ++ scope.topicPath ++ "'."

def formatRecallResponse (scope : Scope) (query : String) (limit : ℕ) (result : Json) :
    Except HttpError String := do
  let results ← valueGet "results" result
  let warnings ← valueGet "warnings" result
  match results with
  | .arr (item :: items) => do
    let hits := item :: items
    let lines ← ((hits.take limit).zipIdx 1).mapM (recallLine env)
    let head := "Top " ++ toString (min hits.length limit) ++ " memory hits for '" ++ query ++ "':"
    withWarnings env ("\n".intercalate (head :: lines)) "\nWarnings: " warnings
  | _ => withWarnings env (noMatchText scope query) " Warnings: " warnings

def fieldText (key : String) (record : Json) : Except HttpError String :=
  (valueGet key record).map env.lib.py.str

def fieldTextOr (key alt : String) (record : Json) : Except HttpError String :=
  (valueGet key record).map fun t => textOr env t alt

def createdText (task : Json) : Except HttpError String := do
  let taskId ← valueAt "id" task
  let action ← fieldTextOr env "action_type" "custom" task
  let status ← valueAt "status" task
  let maxAttempts ← fieldText env "max_attempts" task
  .ok ("Queued task " ++ env.lib.py.str taskId ++ " (" ++ action ++ ") status=" ++
    env.lib.py.str status ++ " max_attempts=" ++ maxAttempts ++ ".")

def taskStatusText (taskId : String) (task : Json) : Except HttpError String := do
  let status ← fieldText env "status" task
  let attempts ← fieldText env "attempts" task
  let maxAttempts ← fieldText env "max_attempts" task
  let project ← fieldTextOr env "project" "-" task
  let action ← fieldTextOr env "action_type" "-" task
  .ok ("Task " ++ taskId ++ ": status=" ++ status ++ " attempts=" ++ attempts ++ "/" ++
    maxAttempts ++ " project=" ++ project ++ " action=" ++ action ++ ".")

def taskLine (task : Json) : Except HttpError String := do
  let taskId ← fieldText env "id" task
  let status ← fieldText env "status" task
  let priority ← fieldText env "priority" task
  let action ← fieldTextOr env "action_type" "-" task
  let title ← fieldTextOr env "title" "-" task
  .ok ("- " ++ taskId ++ " | " ++ status ++ " | p=" ++ priority ++ " | " ++ action ++ " | " ++
    title)

def deadletterLine (task : Json) : Except HttpError String := do
  let taskId ← fieldText env "id" task
  let status ← fieldText env "status" task
  let attempts ← fieldText env "attempts" task
  let maxAttempts ← fieldText env "max_attempts" task
  let error ← fieldTextOr env "last_error" "-" task
  .ok ("- " ++ taskId ++ " | " ++ status ++ " | attempts=" ++ attempts ++ "/" ++ maxAttempts ++
    " | error=" ++ truncate 70 error)

def taskListText (head none : String) (line : Json → Except HttpError String) (limit : ℕ)
    (tasks : List Json) : Except HttpError String := do
  let lines ← (tasks.take limit).mapM line
  .ok (if tasks.isEmpty then none else
    "\n".intercalate ((head ++ " (" ++ toString tasks.length ++ "):") :: lines))

def runtimeText (runtime : Json) : Except HttpError String := do
  let ready ← fieldText env "queueReady" runtime
  let running ← fieldText env "running" runtime
  let deadletter ← fieldText env "deadletter" runtime
  let workers ← fieldText env "workersRunning" runtime
  let configured ← fieldText env "workersConfigured" runtime
  .ok ("Task runtime: ready=" ++ ready ++ " running=" ++ running ++ " deadletter=" ++ deadletter ++
    " workers=" ++ workers ++ "/" ++ configured ++ ".")

def isHealthy : Json → Bool
  | .obj members => ((Json.member members "healthy").getD .null).truthy
  | _ => false

def serviceCounts : Json → Except HttpError (ℕ × ℕ)
  | .arr items => .ok (items.countP isHealthy, items.length)
  | .str _ => .ok (0, 0)
  | .obj _ => .ok (0, 0)
  | _ => .error .internal

def reportCounts (report : Json) : Except HttpError (ℕ × ℕ) :=
  match report with
  | .obj _ => valueGet "services" report >>= serviceCounts
  | _ => .ok (0, 0)

def statusText (report : Json) : Except HttpError String := do
  let counts ← reportCounts report
  .ok ("Context Lattice status: " ++ toString counts.1 ++ "/" ++ toString counts.2 ++
    " services healthy.")

end

/-! ### Replies -/

inductive TaskSubcommand where
  | create | status | approve | replay | cancel | list | deadletter | runtime | help
deriving DecidableEq, Repr

def TaskSubcommand.name : TaskSubcommand → String
  | create => "create"
  | status => "status"
  | approve => "approve"
  | replay => "replay"
  | cancel => "cancel"
  | list => "list"
  | deadletter => "deadletter"
  | runtime => "runtime"
  | help => "help"

def taskSubcommand (word : String) : TaskSubcommand :=
  if word ∈ ["create", "enqueue", "new"] then .create
  else if word ∈ ["status", "get"] then .status
  else if word = "approve" then .approve
  else if word ∈ ["replay", "retry", "requeue"] then .replay
  else if word = "cancel" then .cancel
  else if word ∈ ["list", "ls"] then .list
  else if word ∈ ["deadletter", "dlq", "failed"] then .deadletter
  else if word ∈ ["runtime", "health"] then .runtime
  else .help

structure Reply where
  subcommand : Option TaskSubcommand
  file : Option String
  text : String
  result : Json

section

variable (env : MessagingEnv) (call : CommandCall) (parsed : ParsedCommand) (scope : Scope)
  (ask : Question → Except HttpError Json)

def commandText : String :=
  if strip parsed.content = "" then strip parsed.raw else strip parsed.content

def writeWarnings : Json → Json
  | .obj members => (Json.member members "warnings").getD .null
  | _ => .null

def rememberReply : Except HttpError Reply := do
  let content := strip parsed.content
  requireText content "remember command requires content"
  refuseSecret env scope content "remember command"
  let file ← messagingFileName env scope.topicPath (parsed.directive "file")
  let written ← ask (.writeMemory scope.project file content scope.topicPath)
  let stored := "Stored memory in project '" ++ scope.project ++ "' at '" ++ file ++ "'."
  let text ← withWarnings env stored " Warnings: " (writeWarnings written)
  .ok ⟨none, some file, truncateMessagingText env text, written⟩

def recallLimit : ℕ :=
  match parsed.directives.lookup "limit" with
  | none => env.cfg.messagingSearchLimit
  | some raw =>
    match env.parseInt raw with
    | none => env.cfg.messagingSearchLimit
    | some n => (max 1 (min 10 n)).toNat

def recallReply : Except HttpError Reply := do
  let query := commandText parsed
  requireText query "recall command requires query text"
  refuseSecret env scope query "recall command"
  let limit := recallLimit env parsed
  let found ← ask (.searchMemory query limit scope.project scope.topicPath
    (stripped (parsed.directive "mode")) call.userId (stripped (parsed.directive "agent")))
  let text ← formatRecallResponse env scope query limit found
  .ok ⟨none, none, truncateMessagingText env text, found⟩

def taskRemainder : String := (splitWord (commandText parsed)).2

def taskIdOf : String :=
  let names := [parsed.directive "task_id", parsed.directive "task", taskRemainder parsed]
  strip ((names.find? (· ≠ "")).getD "")

def requireTask (task : Json) : Except HttpError Unit :=
  if task.truthy then .ok () else .error ⟨404, "task not found"⟩

def taskAnswer (subcommand : TaskSubcommand) (text : String) (members : List (String × Json)) :
    Reply :=
  ⟨some subcommand, none, truncateMessagingText env text, .obj members⟩

def createReply : Except HttpError Reply := do
  refuseSecret env scope (taskRemainder parsed) "task create"
  let spec ← buildMessagingTaskPayload env call scope parsed (taskRemainder parsed)
  let task ← ask (.createTaskRecord spec.1 scope.project (stripped (parsed.directive "agent"))
    (messagingDirectiveInt env parsed "priority" 0 (-20) 20) spec.2
    (stripped (parsed.directive "run_after"))
    (messagingDirectiveInt env parsed "max_attempts" env.cfg.taskDefaultMaxAttempts 1 50))
  let text ← createdText env task
  .ok (taskAnswer env .create text [("task", task)])

def taskStatusReply : Except HttpError Reply := do
  let taskId := taskIdOf parsed
  requireText taskId "task status requires task id"
  let task ← ask (.getTaskRecord taskId)
  requireTask task
  let answer ← ask (.getTaskEvents taskId)
  let events ← listItems answer
  let text ← taskStatusText env taskId task
  .ok (taskAnswer env .status text [("task", task), ("events", .arr (events.take 20))])

def changeReply (subcommand : TaskSubcommand) (question : String → Question)
    (text : String → Json → Except HttpError String) : Except HttpError Reply := do
  let taskId := taskIdOf parsed
  requireText taskId ("task " ++ subcommand.name ++ " requires task id")
  let task ← ask (question taskId)
  requireTask task
  let text ← text taskId task
  .ok (taskAnswer env subcommand text [("task", task)])

def approveReply : Except HttpError Reply :=
  changeReply env parsed ask .approve
    (fun taskId => .approveTaskRecord taskId call.sourceId "approved via messaging")
    fun taskId task => (fieldText env "status" task).map fun status =>
      "Approved task " ++ taskId ++ "; status=" ++ status ++ "."

def replayReply : Except HttpError Reply :=
  changeReply env parsed ask .replay
    (fun taskId => .replayTaskRecord taskId call.sourceId "replayed via messaging" true)
    fun taskId task => (fieldText env "status" task).map fun status =>
      "Replayed task " ++ taskId ++ "; status=" ++ status ++ " attempts reset."

def cancelReply : Except HttpError Reply :=
  changeReply env parsed ask .cancel
    (fun taskId => .updateTaskStatus taskId "canceled" "Task canceled via messaging command"
      [("actor", .str call.sourceId), ("channel", .str call.channel)])
    fun taskId _ => .ok ("Canceled task " ++ taskId ++ ".")

def listLimit : ℕ := (messagingDirectiveInt env parsed "limit" 8 1 25).toNat

def listingReply (subcommand : TaskSubcommand) (question : Question) (head none : String)
    (line : Json → Except HttpError String) : Except HttpError Reply := do
  let answer ← ask question
  let tasks ← listItems answer
  let text ← taskListText head none line (listLimit env parsed) tasks
  .ok (taskAnswer env subcommand text [("tasks", answer)])

def listReply : Except HttpError Reply :=
  listingReply env parsed ask .list
    (.listTaskRecords ((stripped (parsed.directive "status")).map env.lib.py.lower) scope.project
      (stripped (parsed.directive "agent")) (listLimit env parsed))
    "Tasks" "No tasks found." (taskLine env)

def deadletterReply : Except HttpError Reply :=
  listingReply env parsed ask .deadletter
    (.listDeadletterTaskRecords scope.project (listLimit env parsed))
    "Deadletter" "No deadletter tasks." (deadletterLine env)

def runtimeReply : Except HttpError Reply := do
  let runtime ← ask .getTaskRuntimeSnapshot
  let text ← runtimeText env runtime
  .ok (taskAnswer env .runtime text [("runtime", runtime)])

def helpResult : Json := .obj [("help", .bool true)]

def taskHelpReply : Reply :=
  ⟨some .help, none,
    "Task commands: task create <remember|recall|message|callback|provider ...>; " ++
      "task status <id>; task list [status=queued limit=8]; task approve <id>; " ++
      "task replay <id>; task deadletter; task runtime.",
    helpResult⟩

def taskReply : Except HttpError Reply :=
  match taskSubcommand (env.lib.py.lower (splitWord (commandText parsed)).1) with
  | .create => createReply env call parsed scope ask
  | .status => taskStatusReply env parsed ask
  | .approve => approveReply env call parsed ask
  | .replay => replayReply env call parsed ask
  | .cancel => cancelReply env call parsed ask
  | .list => listReply env parsed scope ask
  | .deadletter => deadletterReply env parsed scope ask
  | .runtime => runtimeReply env ask
  | .help => .ok taskHelpReply

def statusReply : Except HttpError Reply := do
  let report ← ask .status
  let text ← statusText report
  .ok ⟨none, none, text, report⟩

def helpReply : Reply :=
  let handle := env.cfg.messagingCommandHandle
  ⟨none, none,
    "Commands: " ++ handle ++ " remember <text>; " ++ handle ++ " recall <query>; " ++
      handle ++ " status; " ++ handle ++ " task <subcommand>. " ++
      "Optional directives: project=<name> topic=<path> limit=<n>.",
    helpResult⟩

def commandReply : Except HttpError Reply :=
  match parsed.action with
  | .remember => rememberReply env parsed scope ask
  | .recall => recallReply env call parsed scope ask
  | .task => taskReply env call parsed scope ask
  | .status => statusReply ask
  | .help => .ok (helpReply env)

end

/-! ### Responses -/

structure MessagingResponse where
  action : MessagingAction
  subcommand : Option TaskSubcommand
  project : String
  topicPath : String
  file : Option String
  responseText : String
  result : Json

section

variable (env : MessagingEnv)

def secureSurfaceResponse (strict : Bool) (r : MessagingResponse) : MessagingResponse :=
  if strict then
    { r with
      responseText := redactSensitiveValues env.words r.responseText
      file := r.file.map (redactSensitiveValues env.words)
      result := scrubSensitivePayload env.words r.result }
  else r

def replyResponse (parsed : ParsedCommand) (scope : Scope) (reply : Reply) : MessagingResponse :=
  ⟨parsed.action, reply.subcommand, scope.project, scope.topicPath, reply.file, reply.text,
    reply.result⟩

def executeMessagingCommand (call : CommandCall) (parsed : ParsedCommand)
    (ask : Question → Except HttpError Json) : Except HttpError MessagingResponse := do
  let scope ← messagingScope env call parsed
  let reply ← commandReply env call parsed scope ask
  .ok (secureSurfaceResponse env scope.strict (replyResponse parsed scope reply))

end

end ContextLattice
