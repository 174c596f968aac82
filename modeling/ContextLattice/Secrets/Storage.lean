import ContextLattice.Foundation.Locality
import ContextLattice.Secrets.Redactor
import ContextLattice.Write.Handed

/-!
# What storage shows of a request

Two texts **share** a sensitive value if a pattern matches the same characters in both. A write
hands on its prepared form only. Of a trajectory only the JSON text is checked.

What is handed on comes from the cut of the content into kept characters and secrets (`secretsOf`).
It shares a value with the content only where a name shows one, where a field of kept text runs into
a marker (`MarkedField`), or where the summary is cut (`AtSummaryCut`).
-/

namespace ContextLattice

open Foundation Foundation.Piece List

/-! ### Shared values -/

variable (wc : WordClass)

def Shares (s t : String) : Prop :=
  ∃ r ∈ sensitiveValuePatterns, ∃ m, r.MatchIn wc.isWord none m s.toList ∧
    r.MatchIn wc.isWord none m t.toList

variable {wc}

variable {s : String}

theorem not_shares_left (h : containsSensitiveValue wc s = false) (t : String) :
    ¬ Shares wc s t := by
  rintro ⟨r, hr, m, hm, -⟩
  exact (containsSensitiveValue_eq_false wc).mp h r hr ⟨m, hm⟩

theorem not_shares_right {t : String} (h : containsSensitiveValue wc t = false) (s : String) :
    ¬ Shares wc s t := by
  rintro ⟨r, hr, m, -, hm⟩
  exact (containsSensitiveValue_eq_false wc).mp h r hr ⟨m, hm⟩

/-- The redacted text can share fields only, and only those that run into a marker. -/
theorem shares_redact_iff {t : String} : Shares wc (redactSensitiveValues wc s) t ↔
    ∃ m, MarkedField wc (secretsOf wc s) m ∧ fieldPattern.MatchIn wc.isWord none m t.toList := by
  constructor
  · rintro ⟨r, hr, m, hm, ht⟩
    rcases mem_cons.mp hr with rfl | hr
    · exact ⟨m, (matchIn_redact_iff wc s).mp hm, ht⟩
    · exact absurd ⟨m, hm⟩ (token_not_occurs wc hr s)
  · rintro ⟨m, hm, ht⟩
    exact ⟨fieldPattern, mem_cons_self, m, (matchIn_redact_iff wc s).mpr hm, ht⟩

theorem not_shares_self_iff : ¬ Shares wc s s ↔ containsSensitiveValue wc s = false := by
  refine ⟨fun h => (containsSensitiveValue_eq_false wc).mpr ?_, fun h => not_shares_left h s⟩
  rintro r hr ⟨m, hm⟩
  exact h ⟨r, hr, m, hm, hm⟩

def generatedChars : List Char :=
  ['0', '1', '2', '3', '4', '5', '6', '7', '8', '9', 'a', 'b', 'c', 'd', 'e', 'f', 't', 'r', 'j',
    'o', 'y', '-', '.', 's', 'n']

theorem containsSensitiveValue_generated (h : ∀ c ∈ s.toList, c ∈ generatedChars) :
    containsSensitiveValue wc s = false := by
  have havoids : ∀ r ∈ sensitiveValuePatterns, r.body.avoids generatedChars = true := by decide
  exact containsSensitiveValue_of_avoids wc generatedChars havoids h

/-! ### Writes -/

def WriteEnv.redacting (wc : WordClass) (env : WriteEnv) : WriteEnv :=
  { env with lib := { env.lib with
      containsSensitiveValue := ContextLattice.containsSensitiveValue wc
      redactSensitiveValues := ContextLattice.redactSensitiveValues wc } }

def WriteLib.HexHashes (lib : WriteLib) : Prop :=
  ∀ s, ∀ c ∈ (lib.sha256 s).toList, c ∈ generatedChars

def PreparedWrite.names (cfg : WriteConfig) (lib : WriteLib) (w : PreparedWrite) : List String :=
  [w.project, w.file, w.topicPath] ++ w.topicTags ++
    (buildHotMemoryRollupFile cfg lib w.file).toOption.toList

/-- A match at a cut of the summary: at the gap in the middle, or at the end of the short form. -/
def AtSummaryCut (wc : WordClass) (r : Pattern) (m stored : List Char) : Prop :=
  let summary := (summarizeContent (String.ofList stored)).toList
  500 < stored.length ∧ r.MatchNear wc.isWord 250 253 m summary ∨
    400 < summary.length ∧ r.MatchNear wc.isWord 400 400 m (summary.take 400)

/-- The names show no sensitive value of the content; it does not itself hold a field as one that
runs into a marker would read; and none of its sensitive values is put together at a cut. -/
structure WriteHidden (wc : WordClass) (env : WriteEnv) (req : MemoryWrite) (w : PreparedWrite) :
    Prop where
  names : ∀ name ∈ w.names env.cfg env.lib, ¬ Shares wc name req.content
  marked : ∀ m, MarkedField wc (secretsOf wc req.content) m →
    ¬ fieldPattern.MatchIn wc.isWord none m req.content.toList
  cuts : ∀ r ∈ sensitiveValuePatterns, ∀ m, r.MatchIn wc.isWord none m req.content.toList →
    ¬ AtSummaryCut wc r m (render redactionMarker (secretsOf wc req.content))

variable {env : WriteEnv}

theorem redactSensitiveValues_of_clean (h : containsSensitiveValue wc s = false) :
    redactSensitiveValues wc s = s := by
  rw [redactSensitiveValues, subAll_of_not_occurs ((containsSensitiveValue_eq_false wc).mp h),
    String.ofList_toList]

theorem prepareContentForStorage_eq_ok {content stored : String} {warning : Option String}
    (hmode : env.cfg.secretsStorageMode ≠ .allow)
    (h : prepareContentForStorage env.cfg (env.redacting wc).lib content = .ok (stored, warning)) :
    stored = redactSensitiveValues wc content ∧ (warning = none ↔ stored = content) := by
  simp only [prepareContentForStorage, hmode, false_or] at h
  split at h
  · rename_i hno
    obtain ⟨rfl, rfl⟩ := Prod.mk.inj (Except.ok.inj h)
    exact ⟨(redactSensitiveValues_of_clean hno).symm, by simp⟩
  · split at h
    · cases h
    · split at h
      · rename_i hne
        obtain ⟨rfl, rfl⟩ := Prod.mk.inj (Except.ok.inj h)
        exact ⟨rfl, by simpa using hne⟩
      · rename_i hsame
        obtain ⟨rfl, rfl⟩ := Prod.mk.inj (Except.ok.inj h)
        exact ⟨(not_not.mp hsame).symm, by simp⟩

theorem prepareContentForStorage_of_clean {cfg : WriteConfig} {lib : WriteLib} {content : String}
    (h : lib.containsSensitiveValue content = false) :
    prepareContentForStorage cfg lib content = .ok (content, none) := by
  rw [prepareContentForStorage, if_pos (.inr h)]

variable {w : PreparedWrite}

theorem forall_texts_write {cfg : WriteConfig} {lib : WriteLib} {T : String → Prop} :
    (∀ t ∈ w.texts cfg lib, T t) ↔ (∀ t ∈ w.names cfg lib, T t) ∧ T w.content ∧ T w.contentHash ∧
      T w.summary ∧ T (truncate 400 w.summary) := by
  simp only [PreparedWrite.texts, PreparedWrite.names, forall_mem_append,
    forall_mem_cons, not_mem_nil, false_imp_iff, implies_true, and_true]
  tauto

/-- What the summary and its short form share is shared by the whole text, or stands at a cut. -/
theorem matchIn_summary {r : Pattern} {m stored : List Char}
    (h : r.MatchIn wc.isWord none m (summarizeContent (String.ofList stored)).toList ∨
      r.MatchIn wc.isWord none m (truncate 400 (summarizeContent (String.ofList stored))).toList) :
    r.MatchIn wc.isWord none m stored ∨ AtSummaryCut wc r m stored := by
  have hsummary : r.MatchIn wc.isWord none m (summarizeContent (String.ofList stored)).toList →
      r.MatchIn wc.isWord none m stored ∨ AtSummaryCut wc r m stored := by
    intro hm
    by_cases hlong : stored.length ≤ 500
    · rw [summarizeContent, String.toList_ofList, if_pos hlong, String.toList_ofList] at hm
      exact .inl hm
    · have htext : (summarizeContent (String.ofList stored)).toList =
          stored.take 250 ++ ("...".toList ++ stored.drop (stored.length - 250)) := by
        simp [summarizeContent, hlong]
      rw [htext] at hm
      refine (Pattern.matchIn_elide (by omega) hm).imp_right fun hnear => .inl ⟨by omega, ?_⟩
      rw [htext]
      exact hnear
  rcases h with hm | hm
  · exact hsummary hm
  · rw [truncate, String.toList_ofList] at hm
    rcases Pattern.matchIn_take hm with hm | ⟨hlen, hnear⟩
    · exact hsummary hm
    · exact .inr (.inr ⟨hlen, hnear⟩)

theorem write_hidden_iff (hmode : env.cfg.secretsStorageMode ≠ .allow) (hhash : env.lib.HexHashes)
    {req : MemoryWrite} (h : prepareWrite env.cfg (env.redacting wc).lib req = .ok w) :
    (∀ t ∈ w.texts env.cfg (env.redacting wc).lib, ¬ Shares wc t req.content) ↔
      WriteHidden wc (env.redacting wc) req w := by
  obtain ⟨-, -, -, hcontent, hwhash, -, -, -, hsummary⟩ := prepareWrite_spec h
  have hstored := (prepareContentForStorage_eq_ok hmode hcontent).1
  have hrender : redactSensitiveValues wc req.content =
      String.ofList (render redactionMarker (secretsOf wc req.content)) := by
    rw [render_secretsOf, String.ofList_toList]
  have hhidden : ¬ Shares wc w.contentHash req.content :=
    not_shares_left (containsSensitiveValue_generated (by rw [hwhash]; exact hhash _)) _
  rw [forall_texts_write, hsummary, hstored]
  constructor
  · rintro ⟨hnames, hredacted, -, hlong, hshort⟩
    refine ⟨hnames, fun m hmarked hm => hredacted (shares_redact_iff.mpr ⟨m, hmarked, hm⟩), ?_⟩
    rintro r hr m hm (⟨-, hnear⟩ | ⟨-, hnear⟩)
    · exact hlong ⟨r, hr, m, hrender ▸ hnear.matchIn, hm⟩
    · refine hshort ⟨r, hr, m, ?_, hm⟩
      rw [truncate, String.toList_ofList, hrender]
      exact hnear.matchIn
  · rintro ⟨hnames, hmarked, hcuts⟩
    have hredacted : ¬ Shares wc (redactSensitiveValues wc req.content) req.content := by
      intro hshares
      obtain ⟨m, hm, hin⟩ := shares_redact_iff.mp hshares
      exact hmarked m hm hin
    -- a match in a summary is one of the stored text, or stands at a cut
    have hcut : ∀ r ∈ sensitiveValuePatterns, ∀ m, r.MatchIn wc.isWord none m req.content.toList →
        ¬ (r.MatchIn wc.isWord none m
            (summarizeContent (redactSensitiveValues wc req.content)).toList ∨
          r.MatchIn wc.isWord none m
            (truncate 400 (summarizeContent (redactSensitiveValues wc req.content))).toList) := by
      intro r hr m hm hsum
      rw [hrender] at hsum
      rcases matchIn_summary hsum with hstored | hat
      · exact hredacted ⟨r, hr, m, by rwa [hrender, String.toList_ofList], hm⟩
      · exact hcuts r hr m hm hat
    refine ⟨hnames, hredacted, hhidden, ?_, ?_⟩
    · rintro ⟨r, hr, m, hsum, hm⟩
      exact hcut r hr m hm (.inl hsum)
    · rintro ⟨r, hr, m, hsum, hm⟩
      exact hcut r hr m hm (.inr hsum)

/-! ### Trajectories -/

structure TrajectoryIngest where
  project : String
  summary : String
  trajectory : List (String × Json)

structure JsonLib where
  dumps : List (String × Json) → String
  loads : String → Option Json

structure IngestEffects where
  bank : BankPayload
  qdrantProject : String
  qdrantFile : String
  qdrantSummary : String
  langfuse : Option (String × String × List (String × Json))
  warnings : List String

def IngestEffects.texts (e : IngestEffects) : List String :=
  e.bank.texts ++ [e.qdrantProject, e.qdrantFile, e.qdrantSummary] ++
    e.langfuse.toList.flatMap fun trace => trace.1 :: trace.2.1 :: Json.textsOfMembers trace.2.2

def TrajectoryIngest.sources (body : TrajectoryIngest) : List String :=
  body.summary :: Json.textsOfMembers body.trajectory

variable (cfg : WriteConfig) (lib : WriteLib) (json : JsonLib)

def readBack (stored : String) : List (String × Json) :=
  match json.loads stored with
  | some (.obj members) => members
  | some parsed => [("trajectory", parsed)]
  | none => [("trajectory", .str stored)]

def langfusePayload (trajectory : List (String × Json)) (stored : String) :
    Option String → List (String × Json)
  | none => trajectory
  | some _ => readBack json stored

def ingestTrajectory (drawn : String) (body : TrajectoryIngest) :
    Except HttpError IngestEffects := do
  let (stored, warning) ← prepareContentForStorage cfg lib (json.dumps body.trajectory)
  .ok { bank := ⟨body.project, "trajectory-" ++ drawn ++ ".json", some (.text stored)⟩
        qdrantProject := body.project
        qdrantFile := "trajectory"
        qdrantSummary := body.summary
        langfuse := if cfg.langfuseApiKey then
          some (body.project, body.summary, langfusePayload json body.trajectory stored warning)
          else none
        warnings := warning.toList }

/-- The summary has no sensitive value and the project shows none of the trajectory; no string of it
holds a field as one of its JSON text that runs into a marker would read; and for Langfuse the
strings have none, or, if something was cut out of the text, what is read back shows none. -/
structure TrajectoryHidden (wc : WordClass) (cfg : WriteConfig) (json : JsonLib)
    (body : TrajectoryIngest) : Prop where
  summary : containsSensitiveValue wc body.summary = false
  project : ∀ t ∈ Json.textsOfMembers body.trajectory, ¬ Shares wc body.project t
  marked : ∀ m, MarkedField wc (secretsOf wc (json.dumps body.trajectory)) m →
    ∀ t ∈ Json.textsOfMembers body.trajectory, ¬ fieldPattern.MatchIn wc.isWord none m t.toList
  trace : cfg.langfuseApiKey = true →
    let redacted := render redactionMarker (secretsOf wc (json.dumps body.trajectory))
    if redacted = (json.dumps body.trajectory).toList then
      ∀ t ∈ Json.textsOfMembers body.trajectory, containsSensitiveValue wc t = false
    else ∀ s ∈ Json.textsOfMembers (readBack json (String.ofList redacted)),
      ∀ t ∈ Json.textsOfMembers body.trajectory, ¬ Shares wc s t

variable {json : JsonLib} {drawn : String} {body : TrajectoryIngest} {effects : IngestEffects}

theorem ingestTrajectory_eq_ok {cfg : WriteConfig} {lib : WriteLib}
    (h : ingestTrajectory cfg lib json drawn body = .ok effects) :
    ∃ stored warning,
      prepareContentForStorage cfg lib (json.dumps body.trajectory) = .ok (stored, warning) ∧
      effects.texts = [body.project, "trajectory-" ++ drawn ++ ".json", stored, body.project,
          "trajectory", body.summary] ++
        if cfg.langfuseApiKey then body.project :: body.summary ::
          Json.textsOfMembers (langfusePayload json body.trajectory stored warning) else [] := by
  simp only [ingestTrajectory, bind, Except.bind] at h
  split at h
  · cases h
  · rename_i result hresult
    refine ⟨result.1, result.2, hresult, ?_⟩
    obtain rfl := Except.ok.inj h
    cases cfg.langfuseApiKey <;>
      simp [IngestEffects.texts, BankPayload.texts, Content.texts]

theorem ingestTrajectory_of_clean {cfg : WriteConfig} {lib : WriteLib}
    (hkey : cfg.langfuseApiKey = true)
    (h : lib.containsSensitiveValue (json.dumps body.trajectory) = false) :
    ingestTrajectory cfg lib json drawn body = .ok
      { bank := ⟨body.project, "trajectory-" ++ drawn ++ ".json",
          some (.text (json.dumps body.trajectory))⟩
        qdrantProject := body.project
        qdrantFile := "trajectory"
        qdrantSummary := body.summary
        langfuse := some (body.project, body.summary, body.trajectory)
        warnings := [] } := by
  simp only [ingestTrajectory, prepareContentForStorage_of_clean h, bind, Except.bind, hkey,
    if_true, langfusePayload, Option.toList_none]

/-- What Langfuse gets shares nothing with the strings of the trajectory. -/
theorem trace_hidden_iff (hmode : env.cfg.secretsStorageMode ≠ .allow) {stored : String}
    {warning : Option String} {trajectory : List (String × Json)}
    (h : prepareContentForStorage env.cfg (env.redacting wc).lib (json.dumps trajectory) =
      .ok (stored, warning)) :
    (∀ s ∈ Json.textsOfMembers (langfusePayload json trajectory stored warning),
        ∀ t ∈ Json.textsOfMembers trajectory, ¬ Shares wc s t) ↔
      let redacted := render redactionMarker (secretsOf wc (json.dumps trajectory))
      if redacted = (json.dumps trajectory).toList then
        ∀ t ∈ Json.textsOfMembers trajectory, containsSensitiveValue wc t = false
      else ∀ s ∈ Json.textsOfMembers (readBack json (String.ofList redacted)),
        ∀ t ∈ Json.textsOfMembers trajectory, ¬ Shares wc s t := by
  obtain ⟨hstored, hwarning⟩ := prepareContentForStorage_eq_ok hmode h
  have hrender : render redactionMarker (secretsOf wc (json.dumps trajectory)) =
      stored.toList := by rw [render_secretsOf, hstored]
  simp only [hrender, String.ofList_toList, String.toList_inj, ← hwarning]
  cases warning with
  | some _ => rfl
  | none =>
    constructor
    · exact fun hshares t ht => not_shares_self_iff.mp (hshares t ht t ht)
    · exact fun hclean s hs t _ => not_shares_left (hclean s hs) t

/-- **Trajectories.** What a trajectory hands on shares no sensitive value with the request, exactly
if `TrajectoryHidden`. -/
theorem trajectory_hidden_iff (hmode : env.cfg.secretsStorageMode ≠ .allow)
    (hdrawn : ∀ c ∈ drawn.toList, c ∈ generatedChars)
    (h : ingestTrajectory env.cfg (env.redacting wc).lib json drawn body = .ok effects) :
    (∀ s ∈ effects.texts, ∀ t ∈ body.sources, ¬ Shares wc s t) ↔
      TrajectoryHidden wc env.cfg json body := by
  obtain ⟨stored, warning, hprepare, htexts⟩ := ingestTrajectory_eq_ok h
  have hstored := (prepareContentForStorage_eq_ok hmode hprepare).1
  have htrace := trace_hidden_iff hmode hprepare
  have hfile : containsSensitiveValue wc ("trajectory-" ++ drawn ++ ".json") = false := by
    refine containsSensitiveValue_generated fun c hc => ?_
    simp only [String.toList_append, mem_append] at hc
    rcases hc with (hc | hc) | hc
    · exact all_iff_forall_prop.mp
        (by decide : ("trajectory-".toList.all fun c => c ∈ generatedChars) = true) c hc
    · exact hdrawn c hc
    · exact all_iff_forall_prop.mp
        (by decide : (".json".toList.all fun c => c ∈ generatedChars) = true) c hc
  have hname : containsSensitiveValue wc "trajectory" = false :=
    containsSensitiveValue_generated (all_iff_forall_prop.mp (by decide))
  rw [htexts]
  constructor
  · intro hshares
    have hstring : ∀ s ∈ [body.project, "trajectory-" ++ drawn ++ ".json", stored, body.project,
        "trajectory", body.summary], ∀ t ∈ Json.textsOfMembers body.trajectory, ¬ Shares wc s t :=
      fun s hs t ht => hshares s (mem_append_left _ hs) t (mem_cons_of_mem _ ht)
    refine ⟨?_, hstring body.project (by simp), fun m hm t ht hin => ?_, fun hkey => ?_⟩
    · exact not_shares_self_iff.mp (hshares body.summary (by simp) body.summary mem_cons_self)
    · refine hstring stored (by simp) t ht ?_
      rw [hstored]
      exact shares_redact_iff.mpr ⟨m, hm, hin⟩
    · exact htrace.mp fun s hs t ht => hshares s (by simp [hkey, hs]) t (mem_cons_of_mem _ ht)
  · rintro ⟨hsummary, hproject, hmarked, hlangfuse⟩ s hs t ht
    rcases mem_cons.mp ht with rfl | ht
    · exact not_shares_right hsummary s
    · -- every string that is handed on, against a string of the trajectory
      simp only [mem_append, mem_cons, not_mem_nil, or_false] at hs
      rcases hs with (rfl | rfl | rfl | rfl | rfl | rfl) | hs
      · exact hproject t ht
      · exact not_shares_left hfile t
      · rw [hstored]
        intro hshares
        obtain ⟨m, hm, hin⟩ := shares_redact_iff.mp hshares
        exact hmarked m hm t ht hin
      · exact hproject t ht
      · exact not_shares_left hname t
      · exact not_shares_left hsummary t
      · split at hs
        · rename_i hkey
          rcases mem_cons.mp hs with rfl | hs
          · exact hproject t ht
          · rcases mem_cons.mp hs with rfl | hs
            · exact not_shares_left hsummary t
            · exact htrace.mpr (hlangfuse hkey) s hs t ht
        · cases hs

def WriteEnv.traced : WriteEnv where
  cfg := { WriteConfig.default with langfuseApiKey := true }
  outbox := .default
  lib := { WriteLib.plain with sha256 := fun _ => "0" }

def JsonLib.always (text : String) : JsonLib := ⟨fun _ => text, fun _ => none⟩

def keyJson : JsonLib where
  dumps _ := "\x7b\"log\": \"use sk-aaaaaaaaaaaaaaaaaaaaaaaa now\"\x7d"
  loads _ := some (.obj [("log", .str "use [REDACTED] now")])

def keyTrajectory : TrajectoryIngest :=
  ⟨"docs", "a quiet run", [("log", .str "use sk-aaaaaaaaaaaaaaaaaaaaaaaa now")]⟩

end ContextLattice
