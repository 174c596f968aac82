import Mathlib.Data.List.Infix
import ContextLattice.Basic
import ContextLattice.Foundation.Python

/-!
# Write requests

What `POST /memory/write` computes from its body before it looks at any state. Percent-decoding,
glob matching, SHA-256 and the recogniser of secrets are functions of a `WriteLib`.
-/

namespace ContextLattice

open Foundation

/-! ### Settings -/

inductive SecretsStorageMode where
  | allow | redact | block
deriving DecidableEq, Repr

structure WriteConfig where
  memoryWriteAsync : Bool
  memoryBankQueueMax : ℕ
  memoryWriteDedupEnabled : Bool
  memoryWriteDedupWindowSecs : ℚ
  memoryWriteDedupMaxKeys : ℕ
  memoryWriteLatestHashDedupEnabled : Bool
  memoryWriteLatestHashDedupMaxKeys : ℕ
  hotMemoryFileSuffixes : List String
  hotMemoryFilePatterns : List String
  hotMemoryRollupEnabled : Bool
  hotMemoryRollupFlushSecs : ℚ
  hotMemoryRollupSuffix : String
  secretsStorageMode : SecretsStorageMode
  defaultTopicRoot : String
  qdrantCollection : String
  langfuseApiKey : Bool
  lettaAutoSessionId : String
  lettaKeyMissing : Bool

def WriteConfig.default : WriteConfig where
  memoryWriteAsync := true
  memoryBankQueueMax := 2000
  memoryWriteDedupEnabled := true
  memoryWriteDedupWindowSecs := 120
  memoryWriteDedupMaxKeys := 10000
  memoryWriteLatestHashDedupEnabled := true
  memoryWriteLatestHashDedupMaxKeys := 50000
  hotMemoryFileSuffixes := ["__latest.json"]
  hotMemoryFilePatterns := ["index__*.json", "*_agg-latest.json", "*__agg-*.json",
    "telemetry__*.json", "*__state__*.json", "*__stats__*.json", "*__snapshots__*.json",
    "*__health__*.json", "*__allocations__*.json"]
  hotMemoryRollupEnabled := true
  hotMemoryRollupFlushSecs := 20
  hotMemoryRollupSuffix := "__rollup.json"
  secretsStorageMode := .redact
  defaultTopicRoot := "root"
  qdrantCollection := "memmcp_notes"
  langfuseApiKey := false
  lettaAutoSessionId := "memmcp-default"
  lettaKeyMissing := false

structure WriteLib where
  py : Python
  unquote : String → String
  fnmatch : String → String → Bool
  sha256 : String → String
  containsSensitiveValue : String → Bool
  redactSensitiveValues : String → String

/-! ### Paths -/

def splitSlash (s : String) : List String := (s.toList.splitOn '/').map String.ofList

def joinSlash (parts : List String) : String :=
  String.ofList (['/'].intercalate (parts.map String.toList))

def squeezeSlashes : List Char → List Char
  | [] => []
  | c :: cs => if c = '/' ∧ cs.head? = some '/' then squeezeSlashes cs else c :: squeezeSlashes cs

variable (cfg : WriteConfig) (lib : WriteLib)

def normalizeMemoryPath (value : String) : Except HttpError String :=
  if value = "" then .ok ""
  else
    let decoded := ((lib.unquote value).toList.map fun c => if c = '\\' then '/' else c).dropWhile
      (· = '/')
    let parts := (splitSlash (String.ofList (squeezeSlashes decoded))).filter fun part =>
      part ≠ "" ∧ part ≠ "."
    if ".." ∈ parts then .error ⟨400, "invalid file path"⟩ else .ok (joinSlash parts)

def normalizeTopicPath (value : String) : Except HttpError String :=
  if value = "" then .ok "" else normalizeMemoryPath lib value

def deriveTopicPath (fileName : String) (explicit : Option String) : Except HttpError String :=
  match explicit.filter (· ≠ "") with
  | some topic => do
    let normalized ← normalizeTopicPath lib topic
    .ok (if normalized = "" then cfg.defaultTopicRoot else normalized)
  | none =>
    let parts := (splitSlash fileName).filter (· ≠ "")
    if '/' ∉ fileName.toList ∨ parts.length ≤ 1 then .ok cfg.defaultTopicRoot
    else
      let topic := joinSlash parts.dropLast
      .ok (if topic = "" then cfg.defaultTopicRoot else topic)

def topicTagsForPath (topicPath : String) : Except HttpError (List String) := do
  let normalized ← normalizeTopicPath lib topicPath
  if normalized = "" ∨ normalized = cfg.defaultTopicRoot then .ok [cfg.defaultTopicRoot]
  else
    let tags := ((splitSlash normalized).filter (· ≠ "")).inits.tail.map joinSlash
    .ok (if tags = [] then [cfg.defaultTopicRoot] else tags)

/-! ### Content -/

def prepareContentForStorage (content : String) : Except HttpError (String × Option String) :=
  if cfg.secretsStorageMode = .allow ∨ lib.containsSensitiveValue content = false then
    .ok (content, none)
  else if cfg.secretsStorageMode = .block then
    .error ⟨422, "potential secret detected; storage blocked by SECRETS_STORAGE_MODE=block"⟩
  else
    let redacted := lib.redactSensitiveValues content
    if redacted ≠ content then
      .ok (redacted,
        some "potential secrets were redacted before storage (SECRETS_STORAGE_MODE=redact)")
    else .ok (content, none)

def summarizeContent (content : String) : String :=
  let cs := content.toList
  if cs.length ≤ 500 then content
  else String.ofList (cs.take 250) ++ "..." ++ String.ofList (cs.drop (cs.length - 250))

def matchesAnyGlob (value : String) (patterns : List String) : Bool :=
  let lowered := lib.py.stripLower value
  decide (lowered ≠ "") && patterns.any fun pattern =>
    let token := lib.py.stripLower pattern
    decide (token ≠ "") && lib.fnmatch lowered token

def isHotMemoryFile (fileName : String) : Bool :=
  let lowered := lib.py.lower fileName
  decide (lowered ≠ "") &&
    (matchesAnyGlob lib lowered cfg.hotMemoryFilePatterns ||
      cfg.hotMemoryFileSuffixes.any fun suffix => suffix.toList.isSuffixOf lowered.toList)

def buildHotMemoryRollupFile (fileName : String) : Except HttpError String := do
  let normalized ← normalizeMemoryPath lib fileName
  if normalized = "" then .ok "_rollups/hot__rollup.json"
  else
    let parts := splitSlash normalized
    let directory := joinSlash parts.dropLast
    let base := parts.getLastD ""
    let rollupName :=
      if cfg.hotMemoryRollupSuffix.toList.isSuffixOf base.toList then base
      else if ".json".toList.isSuffixOf base.toList then
        String.ofList (base.toList.take (base.toList.length - 5)) ++ cfg.hotMemoryRollupSuffix
      else base ++ cfg.hotMemoryRollupSuffix
    .ok (if directory = "" then "_rollups/" ++ rollupName
      else directory ++ "/_rollups/" ++ rollupName)

/-! ### The request -/

structure MemoryWrite where
  projectName : String
  fileName : String
  content : String
  topicPath : Option String := none

structure PreparedWrite where
  project : String
  file : String
  content : String
  contentHash : String
  policyWarning : Option String
  hot : Bool
  topicPath : String
  topicTags : List String
  summary : String
deriving DecidableEq

def prepareWrite (req : MemoryWrite) : Except HttpError PreparedWrite := do
  let file ← normalizeMemoryPath lib req.fileName
  if file = "" then .error ⟨400, "fileName is required"⟩
  else
    let (content, policyWarning) ← prepareContentForStorage cfg lib req.content
    let topicPath ← deriveTopicPath cfg lib file req.topicPath
    let topicTags ← topicTagsForPath cfg lib topicPath
    .ok { project := req.projectName
          file := file
          content := content
          contentHash := lib.sha256 content
          policyWarning := policyWarning
          hot := isHotMemoryFile cfg lib file
          topicPath := topicPath
          topicTags := topicTags
          summary := summarizeContent content }

structure PreparedFrom (req : MemoryWrite) (w : PreparedWrite) : Prop where
  project : w.project = req.projectName
  file : normalizeMemoryPath lib req.fileName = .ok w.file
  file_ne : w.file ≠ ""
  content : prepareContentForStorage cfg lib req.content = .ok (w.content, w.policyWarning)
  contentHash : w.contentHash = lib.sha256 w.content
  hot : w.hot = isHotMemoryFile cfg lib w.file
  topicPath : deriveTopicPath cfg lib w.file req.topicPath = .ok w.topicPath
  topicTags : topicTagsForPath cfg lib w.topicPath = .ok w.topicTags
  summary : w.summary = summarizeContent w.content

variable {cfg lib} in
theorem prepareWrite_spec {req : MemoryWrite} {w : PreparedWrite}
    (h : prepareWrite cfg lib req = .ok w) : PreparedFrom cfg lib req w := by
  simp only [prepareWrite, bind, Except.bind] at h
  split at h
  · cases h
  · rename_i file hfile
    split at h
    · cases h
    · rename_i hne
      split at h
      · cases h
      · rename_i content hcontent
        split at h
        · cases h
        · rename_i topicPath htopic
          split at h
          · cases h
          · rename_i topicTags htags
            obtain rfl := Except.ok.inj h
            exact ⟨rfl, hfile, hne, hcontent, rfl, rfl, htopic, htags, rfl⟩

def PreparedWrite.hotRollupMode (cfg : WriteConfig) (w : PreparedWrite) : Bool :=
  w.hot && cfg.hotMemoryRollupEnabled

end ContextLattice
