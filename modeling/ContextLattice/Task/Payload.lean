import ContextLattice.Basic
import ContextLattice.Foundation.Python

/-!
# Task payloads: normalisation and risk

`validateTaskPayloadContract` settles the action of a task and writes it **over** `action` and
`action_type`; the risk is read off the result.
-/

namespace ContextLattice

open Foundation

abbrev Payload := Dict String Json

structure TaskConfig where
  highRiskApprovalRequired : Bool
  highRiskActions : List String
  taskAllowedActions : List String
  taskCallbackAllowedHosts : List String
  taskDefaultMaxAttempts : ℕ
  taskLeaseSecs : ℚ
  taskRetryBaseSecs : ℚ
  taskRetryMaxSecs : ℚ

def TaskConfig.default : TaskConfig where
  highRiskApprovalRequired := true
  highRiskActions := ["payment", "transfer_funds", "delete_data", "infra_change",
    "prod_deploy", "send_external_message", "credential_change", "purchase"]
  taskAllowedActions := ["memory_write", "memory_search", "messaging_command",
    "http_callback", "provider_chat"]
  taskCallbackAllowedHosts := ["localhost", "127.0.0.1"]
  taskDefaultMaxAttempts := 4
  taskLeaseSecs := 120
  taskRetryBaseSecs := 2
  taskRetryMaxSecs := 300

variable (py : Python) (cfg : TaskConfig)

def label : Option Json → Option String
  | some (.str s) => if strip s = "" then none else some (py.stripLower s)
  | _ => none

def firstActionLabel : Option Json → Option String
  | some (.arr (.obj members :: _)) =>
    label py (Json.orElse (Json.member members "type")
      (Json.orElse (Json.member members "action") (Json.member members "category")))
  | some (.arr (.str s :: _)) => label py (some (.str s))
  | _ => none

def detectActionType (payload : Payload) : Option String :=
  (label py (Json.orElse (payload.get? "action_type") (payload.get? "actionType"))).or
    (firstActionLabel py (payload.get? "actions"))

def declaredRiskLevel (payload : Payload) : Option String :=
  label py (Json.orElse (payload.get? "risk_level")
    (Json.orElse (payload.get? "riskLevel") (payload.get? "risk")))

def detectRiskLevel (payload : Payload) : String :=
  match declaredRiskLevel py payload with
  | some level => level
  | none =>
    match detectActionType py payload with
    | some action => if action ∈ cfg.highRiskActions then "high" else "low"
    | none => "low"

def requiresApproval (payload : Payload) : Bool :=
  cfg.highRiskApprovalRequired && decide (detectRiskLevel py cfg payload ∈ ["high", "critical"])

def taskActionAlias : List (String × String) :=
  [("write", "memory_write"), ("remember", "memory_write"), ("search", "memory_search"),
    ("recall", "memory_search"), ("message", "messaging_command"),
    ("messaging", "messaging_command"), ("callback", "http_callback"),
    ("http", "http_callback"), ("provider", "provider_chat")]

def normalizeTaskAction : Option Json → Option String
  | none | some .null => none
  | some raw =>
    let action := py.stripLower (py.str raw)
    if action = "" then none else some ((taskActionAlias.lookup action).getD action)

def textOf (x y : Option Json) : String :=
  strip (py.str ((Json.orElse x (Json.orElse y none)).getD (.str "")))

def taskValidateCallbackUrl (url : String) : Except HttpError Unit :=
  match py.urlparse url with
  | none => .error .internal
  | some (scheme, hostname) =>
    let host := py.lower (hostname.getD "")
    if py.lower scheme ∉ ["http", "https"] then
      .error ⟨422, "http_callback requires http/https URL"⟩
    else if host = "" then .error ⟨422, "http_callback URL host is required"⟩
    else if cfg.taskCallbackAllowedHosts ≠ [] ∧ host ∉ cfg.taskCallbackAllowedHosts then
      .error ⟨422, "http_callback host '" ++ host ++ "' not allowlisted"⟩
    else .ok ()

/-- The action the payload contract settles on: the `action` field, else `action_type`, else the
declared type, through the aliases. -/
def settledAction (payload : Payload) : Option String :=
  normalizeTaskAction py (Json.orElse (payload.get? "action")
    (Json.orElse (payload.get? "action_type") ((detectActionType py payload).map .str)))

def validateActionFields (action : String) (p : Payload) : Except HttpError Payload :=
  if action = "memory_write" then
    let projectName := textOf py (p.get? "projectName") (p.get? "project")
    let fileName := textOf py (p.get? "fileName") (p.get? "file")
    let content := textOf py (p.get? "content") none
    if projectName = "" ∨ fileName = "" ∨ content = "" then
      .error ⟨422, "memory_write requires projectName, fileName, and content"⟩
    else
      .ok (Dict.set (Dict.set (p.set "projectName" (.str projectName))
        "fileName" (.str fileName)) "content" (.str content))
  else if action = "memory_search" then
    let query := textOf py (p.get? "query") none
    if query = "" then .error ⟨422, "memory_search requires query"⟩
    else .ok (p.set "query" (.str query))
  else if action = "messaging_command" then
    let text := textOf py (p.get? "text") none
    if text = "" then .error ⟨422, "messaging_command requires text"⟩
    else .ok (p.set "text" (.str text))
  else if action = "http_callback" then
    let callbackUrl := textOf py (p.get? "url") none
    if callbackUrl = "" then .error ⟨422, "http_callback requires url"⟩
    else do
      taskValidateCallbackUrl py cfg callbackUrl
      let method := py.upper (textOf py (p.get? "method") (some (.str "POST")))
      if method ∉ ["GET", "POST", "PUT", "PATCH", "DELETE"] then
        .error ⟨422, "http_callback method '" ++ method ++ "' not allowed"⟩
      else .ok (Dict.set (p.set "url" (.str callbackUrl)) "method" (.str method))
  else if action = "provider_chat" then
    let hasPrompt := textOf py (p.get? "prompt") none != ""
    let hasMessages := match p.get? "messages" with
      | some (.arr items) => !items.isEmpty
      | _ => false
    if !hasPrompt && !hasMessages then
      .error ⟨422, "provider_chat requires prompt or messages"⟩
    else .ok p
  else .ok p

def validateTaskPayloadContract (payload : Payload) : Except HttpError Payload :=
  match settledAction py payload with
  | none => .error ⟨422, "task payload requires action"⟩
  | some action =>
    if action ∉ cfg.taskAllowedActions then
      .error ⟨422, "task action '" ++ action ++ "' is not allowed"⟩
    else
      validateActionFields py cfg action
        (Dict.set (payload.set "action" (.str action)) "action_type" (.str action))

/-! ### What the gate reads in the normalised payload -/

variable {py : Python} {cfg : TaskConfig} {payload p' : Payload} {action : String}

private theorem label_eq_some {v : Option Json} (h : label py v = some action) :
    ∃ s, v = some (.str s) ∧ strip s ≠ "" ∧ action = py.stripLower s := by
  unfold label at h
  split at h
  · rename_i s
    split at h
    · cases h
    · exact ⟨s, rfl, ‹_›, (Option.some.inj h).symm⟩
  · cases h

theorem exists_label_of_detectActionType (h : detectActionType py payload = some action) :
    ∃ s, strip s ≠ "" ∧ action = py.stripLower s := by
  rw [detectActionType, Option.or_eq_some_iff] at h
  rcases h with h | ⟨-, h⟩
  · obtain ⟨s, -, hs⟩ := label_eq_some h
    exact ⟨s, hs⟩
  · unfold firstActionLabel at h
    split at h
    · obtain ⟨s, -, hs⟩ := label_eq_some h
      exact ⟨s, hs⟩
    · obtain ⟨s, -, hs⟩ := label_eq_some h
      exact ⟨s, hs⟩
    · cases h

/-- A settled action is a normalised text, or stands behind an alias. -/
theorem settledAction_eq_some (h : settledAction py payload = some action) :
    (∃ raw, py.stripLower raw = action ∧ action ≠ "" ∧ taskActionAlias.lookup action = none) ∨
      action ∈ taskActionAlias.map Prod.snd := by
  unfold settledAction normalizeTaskAction at h
  split at h
  · cases h
  · cases h
  · rename_i raw _ _
    dsimp only at h
    split at h
    · cases h
    · rename_i hne
      obtain rfl := Option.some.inj h
      rcases hlookup : taskActionAlias.lookup (py.stripLower (py.str raw)) with _ | b
      · exact .inl ⟨py.str raw, rfl, hne, hlookup⟩
      · obtain ⟨l₁, l₂, hsplit, -⟩ := List.lookup_eq_some_iff.mp hlookup
        exact .inr (by simp [hsplit])

theorem settledAction_ne_empty (h : settledAction py payload = some action) : action ≠ "" := by
  rcases settledAction_eq_some h with ⟨-, -, hne, -⟩ | hmem
  · exact hne
  · have halias : ∀ b ∈ taskActionAlias.map Prod.snd, b ≠ "" := by decide
    exact halias action hmem

theorem get?_validateActionFields {k : String}
    (h : validateActionFields py cfg action payload = .ok p')
    (hk : k ∉ ["projectName", "fileName", "content", "query", "text", "url", "method"]) :
    p'.get? k = payload.get? k := by
  simp only [List.mem_cons, not_or] at hk
  obtain ⟨h1, h2, h3, h4, h5, h6, h7, -⟩ := hk
  unfold validateActionFields at h
  simp only [bind, Except.bind] at h
  -- the refusals contradict `h`; each acceptance only sets fields of its own action
  repeat' split at h
  all_goals cases h <;> simp [Dict.get?_set_of_ne, *]

theorem validateActionFields_chat
    (h : validateActionFields py cfg "provider_chat" payload = .ok p') :
    p' = payload ∧ (textOf py (payload.get? "prompt") none ≠ "" ∨
      ∃ items, payload.get? "messages" = some (.arr items) ∧ items ≠ []) := by
  simp only [validateActionFields, String.reduceEq, if_false, if_true] at h
  split at h
  · rename_i items hitems
    split at h
    · exact absurd h (by simp)
    · rename_i hgiven
      refine ⟨(Except.ok.inj h).symm, ?_⟩
      by_cases hprompt : textOf py (payload.get? "prompt") none = ""
      · refine .inr ⟨items, hitems, ?_⟩
        rintro rfl
        simp [hprompt] at hgiven
      · exact .inl hprompt
  · split at h
    · exact absurd h (by simp)
    · rename_i hgiven
      refine ⟨(Except.ok.inj h).symm, .inl fun hprompt => ?_⟩
      simp [hprompt] at hgiven

section

variable (h : validateTaskPayloadContract py cfg payload = .ok p')

include h

theorem validateTaskPayloadContract_eq_ok :
    ∃ action, settledAction py payload = some action ∧ action ∈ cfg.taskAllowedActions ∧
      validateActionFields py cfg action
        (Dict.set (payload.set "action" (.str action)) "action_type" (.str action))
          = .ok p' := by
  unfold validateTaskPayloadContract at h
  split at h
  · cases h
  · rename_i action hsettled
    split at h
    · cases h
    · exact ⟨action, hsettled, not_not.mp ‹_›, h⟩

theorem get?_validateTaskPayloadContract {k : String}
    (hk : k ∉ ["action", "action_type", "projectName", "fileName", "content", "query", "text",
      "url", "method"]) : p'.get? k = payload.get? k := by
  simp only [List.mem_cons, not_or] at hk
  obtain ⟨action, -, -, hfields⟩ := validateTaskPayloadContract_eq_ok h
  rw [get?_validateActionFields hfields (by simp [hk]), Dict.get?_set_of_ne (by simp [hk]),
    Dict.get?_set_of_ne (by simp [hk])]

theorem detectActionType_normalized (hdeclared : detectActionType py payload = some action)
    (hsettled : settledAction py payload = some action) : detectActionType py p' = some action := by
  obtain ⟨s, hs, rfl⟩ := exists_label_of_detectActionType hdeclared
  obtain ⟨a, ha, -, hfields⟩ := validateTaskPayloadContract_eq_ok h
  obtain rfl : py.stripLower s = a := by rw [hsettled] at ha; exact Option.some.inj ha
  have hget : p'.get? "action_type" = some (.str (py.stripLower s)) := by
    rw [get?_validateActionFields hfields (by decide), Dict.get?_set]
  have hne : py.stripLower s ≠ "" := settledAction_ne_empty hsettled
  have hstrip : strip (py.stripLower s) = py.stripLower s := by
    rw [Python.stripLower, py.strip_lower, strip_strip]
  have hlabel : label py (Json.orElse (p'.get? "action_type")
      (p'.get? "actionType")) = some (py.stripLower s) := by
    simp [hget, Json.orElse, Json.truthy, hne, label, hstrip]
  rw [detectActionType, hlabel, Option.some_or]

end

end ContextLattice
