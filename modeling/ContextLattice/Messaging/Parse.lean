import ContextLattice.Messaging.Command
import ContextLattice.Write.System

/-!
# Reading messaging commands

`_parse_messaging_command` cuts a handle off a message, takes the first word as the action, and
deletes the directives `name=value` from the text. What follows the handle is not looked at.
-/

namespace ContextLattice

open Foundation Foundation.Piece

deriving instance DecidableEq for ParsedCommand

/-! ### Handles -/

def isTrim (c : Char) : Bool := c == ' ' || c == '\t' || c == ',' || c == ':' || c == '-'

def appendMissing (handles more : List String) : List String :=
  more.foldl (fun handles handle => if handle ∈ handles then handles else handles ++ [handle])
    handles

variable (env : MessagingEnv) (bot : String)

def configuredHandles : List String :=
  let configured := env.lib.py.stripLower env.cfg.messagingCommandHandle
  let bare := String.ofList (configured.toList.drop 1)
  match configured.toList.head? with
  | none => []
  | some '@' => [configured, bare, "/" ++ bare]
  | some '/' => [configured, bare, "@" ++ bare]
  | some _ => [configured, "@" ++ configured, "/" ++ configured]

def messagingCommandPrefixes : List String :=
  let handles := appendMissing (configuredHandles env)
    ["@contextlattice", "contextlattice", "/contextlattice", "/cl"]
  let botSuffix := env.lib.py.stripLower bot
  if botSuffix = "" then handles
  else appendMissing handles
    ((handles.filter fun handle => handle.toList.head? = some '/').map fun handle =>
      handle ++ "@" ++ botSuffix)

def messagingHandle (lower : List Char) : Option String :=
  ((messagingCommandPrefixes env bot).insertionSort fun a b => b.length ≤ a.length).find?
    fun handle => handle.toList.isPrefixOf lower

def stripMessagingPrefix (requirePrefix : Bool) (text : String) : Option String :=
  let raw := strip text
  if raw = "" then none
  else
    match messagingHandle env bot (env.lib.py.lower raw).toList with
    | some handle =>
      some (String.ofList ((raw.toList.drop handle.toList.length).dropWhile isTrim))
    | none => if requirePrefix then none else some raw

/-! ### Directives -/

def directiveName : Regex :=
  .anyOf (anyCase "project") [anyCase "topic", anyCase "file", anyCase "limit", anyCase "status",
    anyCase "priority", anyCase "max_attempts", anyCase "run_after", anyCase "agent",
    anyCase "task", anyCase "task_id", anyCase "model", anyCase "mode"]

def directiveSeparator : Regex :=
  .seq (.many 0 isSpace) (.seq (.one (· == '=')) (.many 0 isSpace))

def directivePattern : Pattern :=
  ⟨true, .seq (.seq directiveName directiveSeparator) (.many 1 fun c => !isSpace c), false⟩

def directiveGroups (m : List Char) : String × String :=
  (String.ofList (m.takeWhile fun c => !isSpace c && c != '='),
    String.ofList (((m.dropWhile (· != '=')).drop 1).dropWhile isSpace))

def directivePieces (text : String) : List Piece :=
  mark env.words.isWord [] directivePattern 0 none (text.toList.map kept)

def directiveMatches (text : String) : List (List Char) :=
  (directivePieces env text).filterMap fun
    | kept _ => none
    | secret m => some m

def directiveKey (m : List Char) : String := env.lib.py.stripLower (directiveGroups m).1

def messagingDirectives (text : String) : List (String × String) :=
  ((directiveMatches env text).foldl (fun (ds : Dict String String) m =>
    ds.set (directiveKey env m) (env.lib.unquote (strip (directiveGroups m).2))) .empty).rows

def withoutDirectives (text : String) : List Char :=
  directivePattern.sub env.words.isWord [] 0 none text.toList

def messagingAction (word : String) : Option MessagingAction :=
  if word ∈ ["remember", "write", "save"] then some .remember
  else if word ∈ ["recall", "search", "find"] then some .recall
  else if word ∈ ["status", "health"] then some .status
  else if word ∈ ["task", "tasks"] then some .task
  else if word = "help" then some .help
  else none

def parseMessagingBody (body : String) : ParsedCommand :=
  if body = "" then ⟨.help, "", [], ""⟩
  else
    let parts := splitWord body
    match messagingAction (env.lib.py.stripLower parts.1) with
    | none => ⟨.recall, body, [], body⟩
    | some action =>
      ⟨action, String.ofList (stripList isTrim (withoutDirectives env parts.2)),
        messagingDirectives env parts.2, body⟩

def parseMessagingCommand (bot : String) (requirePrefix : Bool) (text : String) :
    Option ParsedCommand :=
  (stripMessagingPrefix env bot requirePrefix text).map (parseMessagingBody env)

/-! ### Telegram -/

structure TelegramConfig where
  messagingIntegrationsEnabled : Bool
  telegramWebhookSecret : String

inductive TelegramIntake where
  | ignored (ok : Bool) (reason : String)
  | command (chatId : String) (parsed : ParsedCommand)

variable (cfg : TelegramConfig)

def strippedMember (members : List (String × Json)) (key : String) : String :=
  strip (env.lib.py.str (((Json.member members key).filter Json.truthy).getD (.str "")))

def telegramMessage (update : List (String × Json)) : Json :=
  ((Json.orElse (Json.member update "message") (Json.member update "edited_message")).filter
    Json.truthy).getD (.obj [])

def telegramChat (message : List (String × Json)) : List (String × Json) :=
  match Json.member message "chat" with
  | some (.obj chat) => chat
  | _ => []

def telegramIntake (received : String) (update : List (String × Json)) :
    Except HttpError TelegramIntake :=
  if cfg.messagingIntegrationsEnabled = false then .ok (.ignored false "messaging_disabled")
  else if cfg.telegramWebhookSecret ≠ "" ∧ strip received ≠ cfg.telegramWebhookSecret then
    .error ⟨401, "invalid telegram webhook secret"⟩
  else
    match telegramMessage update with
    | .obj message =>
      let text := strippedMember env message "text"
      let chatId := strippedMember env (telegramChat message) "id"
      if text = "" then .ok (.ignored true "non_text")
      else if chatId = "" then .ok (.ignored true "missing_chat_id")
      else
        match parseMessagingCommand env bot true text with
        | none => .ok (.ignored true "no_command_prefix")
        | some parsed => .ok (.command chatId parsed)
    | _ => .ok (.ignored true "no_message")

/-! ### What counts as a command -/

variable (text : String)

def endsWord (rest : List Char) : Bool := rest.head?.all fun c => isSpace c || isTrim c

def StartsWith (handle : String) : Prop :=
  strip text ≠ "" ∧ handle.toList <+: (env.lib.py.stripLower text).toList

def StartsWithWord (handle : String) : Prop :=
  strip text ≠ "" ∧ ∃ rest, (env.lib.py.stripLower text).toList = handle.toList ++ rest ∧
    endsWord rest = true

variable {env bot text}

theorem StartsWithWord.startsWith {handle : String} (h : StartsWithWord env text handle) :
    StartsWith env text handle := by
  obtain ⟨hne, rest, hrest, -⟩ := h
  exact ⟨hne, rest, hrest.symm⟩

theorem parseMessagingCommand_isSome :
    (parseMessagingCommand env bot true text).isSome = true ↔
      ∃ handle ∈ messagingCommandPrefixes env bot, StartsWith env text handle := by
  have hparse : (parseMessagingCommand env bot true text).isSome = true ↔ strip text ≠ "" ∧
      (messagingHandle env bot (env.lib.py.stripLower text).toList).isSome = true := by
    rw [parseMessagingCommand, Option.isSome_map, stripMessagingPrefix]
    by_cases hraw : strip text = ""
    · simp [hraw]
    · rw [if_neg hraw, Python.stripLower]
      cases messagingHandle env bot (env.lib.py.lower (strip text)).toList <;> simp [hraw]
  rw [hparse, messagingHandle, List.find?_isSome]
  simp only [List.mem_insertionSort, List.isPrefixOf_iff_prefix]
  constructor
  · rintro ⟨hne, handle, hmem, hstarts⟩
    exact ⟨handle, hmem, hne, hstarts⟩
  · rintro ⟨handle, hmem, hne, hstarts⟩
    exact ⟨hne, handle, hmem, hstarts⟩

theorem telegramIntake_eq_command {cfg : TelegramConfig} {received chatId : String}
    {update : List (String × Json)} {parsed : ParsedCommand}
    (h : telegramIntake env bot cfg received update = .ok (.command chatId parsed)) :
    ∃ message, telegramMessage update = .obj message ∧
      parseMessagingCommand env bot true (strippedMember env message "text") = some parsed := by
  unfold telegramIntake at h
  split at h
  · cases h
  · split at h
    · cases h
    · split at h
      · rename_i message hmessage
        refine ⟨message, hmessage, ?_⟩
        dsimp only at h
        split at h
        · cases h
        · split at h
          · cases h
          · split at h
            · cases h
            · rename_i parsed' hparsed
              obtain ⟨-, rfl⟩ := TelegramIntake.command.inj (Except.ok.inj h)
              exact hparsed
      · cases h

variable (env bot text) in
/-- **Commands and complete words.** Commands are just the messages that start with a handle as a
complete word exactly if letters of a handle never start another word. -/
theorem command_iff_complete_handle :
    ((∃ handle ∈ messagingCommandPrefixes env bot, StartsWithWord env text handle) →
      (parseMessagingCommand env bot true text).isSome = true) ∧
    (((parseMessagingCommand env bot true text).isSome = true ↔
        ∃ handle ∈ messagingCommandPrefixes env bot, StartsWithWord env text handle) ↔
      ∀ handle ∈ messagingCommandPrefixes env bot, StartsWith env text handle →
        ∃ other ∈ messagingCommandPrefixes env bot, StartsWithWord env text other) ∧
    ∀ cfg received update chatId parsed,
      telegramIntake env bot cfg received update = .ok (.command chatId parsed) →
        ∃ message, telegramMessage update = .obj message ∧
          parseMessagingCommand env bot true (strippedMember env message "text") = some parsed := by
  have hcomplete : (∃ handle ∈ messagingCommandPrefixes env bot, StartsWithWord env text handle) →
      (parseMessagingCommand env bot true text).isSome = true := by
    rintro ⟨handle, hmem, hword⟩
    exact parseMessagingCommand_isSome.mpr ⟨handle, hmem, hword.startsWith⟩
  refine ⟨hcomplete, ⟨?_, ?_⟩, fun _ _ _ _ _ => telegramIntake_eq_command⟩
  · intro h handle hmem hstarts
    exact h.mp (parseMessagingCommand_isSome.mpr ⟨handle, hmem, hstarts⟩)
  · refine fun h => ⟨fun hsome => ?_, hcomplete⟩
    obtain ⟨handle, hmem, hstarts⟩ := parseMessagingCommand_isSome.mp hsome
    exact h handle hmem hstarts

theorem startsWithWord_iff {handle : String} : StartsWithWord env text handle ↔
    strip text ≠ "" ∧ handle.toList.isPrefixOf (env.lib.py.stripLower text).toList = true ∧
      endsWord ((env.lib.py.stripLower text).toList.drop handle.toList.length) = true := by
  refine and_congr_right fun _ => ?_
  rw [List.isPrefixOf_iff_prefix]
  constructor
  · rintro ⟨rest, hrest, hends⟩
    rw [hrest, List.drop_left]
    exact ⟨List.prefix_append _ _, hends⟩
  · rintro ⟨⟨rest, hrest⟩, hends⟩
    rw [← hrest, List.drop_left] at hends
    exact ⟨rest, hrest.symm, hends⟩

instance (handle : String) : Decidable (StartsWithWord env text handle) :=
  decidable_of_iff _ startsWithWord_iff.symm

def MessagingEnv.plain : MessagingEnv := ⟨.default, .plain, .latin, fun _ => none, fun _ => none, 0⟩

/-- `/clear`, the command of another bot, starts with `/cl`: it is answered with a search for
`ear`. -/
theorem otherBot_obeyed :
    telegramIntake MessagingEnv.plain "ContextLattice" ⟨true, ""⟩ ""
        [("message", .obj [("text", .str "/clear"), ("chat", .obj [("id", .int 7)])])] =
      .ok (.command "7" ⟨.recall, "ear", [], "ear"⟩) ∧
    ¬ ∃ handle ∈ messagingCommandPrefixes MessagingEnv.plain "ContextLattice",
      StartsWithWord MessagingEnv.plain "/clear" handle := by
  refine ⟨rfl, ?_⟩
  decide +kernel

end ContextLattice
