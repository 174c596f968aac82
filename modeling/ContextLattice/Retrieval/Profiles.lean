import ContextLattice.Retrieval.Recall

/-!
# Agent profiles

The fields an object does not set are filled in with the **system's** defaults before it is merged
into the default profile of the file. A profile is normalised again when it is resolved, and when it
is saved and loaded.
-/

namespace ContextLattice

open Foundation List

namespace AgentMemory

/-! ### Fields -/

inductive ProfileField where
  | retrievalMode | sources | sourceWeights | defaultProject | topicPrefixes | autoEscalate
  | queryExpansion | escalateMinResults | escalateMinTopScore
deriving DecidableEq

def ProfileField.all : List ProfileField :=
  [retrievalMode, sources, sourceWeights, defaultProject, topicPrefixes, autoEscalate,
    queryExpansion, escalateMinResults, escalateMinTopScore]

theorem ProfileField.mem_all (f : ProfileField) : f ∈ all := by cases f <;> decide

abbrev ProfileField.Value : ProfileField → Type
  | retrievalMode => RetrievalMode
  | sources => {l : List RetrievalSource // l ≠ [] ∧ l.Nodup}
  | sourceWeights => Option {w : RetrievalSource → ℚ // ∀ s, 0 ≤ w s ∧ w s ≤ 2}
  | defaultProject => {o : Option String // ∀ s ∈ o, s ≠ "" ∧ strip s = s}
  | topicPrefixes => List String
  | autoEscalate | queryExpansion => Bool
  | escalateMinResults => {n : ℤ // 1 ≤ n}
  | escalateMinTopScore => {x : ℚ // 0 ≤ x ∧ x ≤ 1}

/-- What a member of an object is read as: its text (empty if it is false), the items if it is a
list, the entries if it is an object, its truth, or its number if `int` or `float` returns one. -/
abbrev ProfileField.Raw : ProfileField → Type
  | retrievalMode | defaultProject => String
  | sources | topicPrefixes => Option (List String)
  | sourceWeights => Option (List (String × Option FloatValue))
  | autoEscalate | queryExpansion => Bool
  | escalateMinResults => Option ℤ
  | escalateMinTopScore => Option FloatValue

abbrev AgentProfile := (f : ProfileField) → f.Value

abbrev ProfileObject := (f : ProfileField) → Option f.Raw

structure ProfileEnv where
  lib : WriteLib
  pathway : PathwayConfig
  «recall» : RecallConfig
  lower_mode : ∀ m : RetrievalMode, lib.py.stripLower m.text = m.text
  lower_source : ∀ s : RetrievalSource, lib.py.stripLower s.text = s.text

variable (env : ProfileEnv)

theorem normalizeRetrievalSources_spec (cfg : PathwayConfig) (py : Python) (l : List String) :
    normalizeRetrievalSources cfg py l ≠ [] ∧ (normalizeRetrievalSources cfg py l).Nodup := by
  rw [normalizeRetrievalSources]
  split
  · simp
  · rename_i hne
    exact ⟨fun h => hne h, nodup_eraseDups _⟩

theorem clamped_mem (x : FloatValue) : 0 ≤ x.clamped ∧ x.clamped ≤ 2 := by
  cases x <;> simp [FloatValue.clamped]

theorem normalizeRetrievalWeights_mem (py : Python) (custom : List (String × Option FloatValue))
    (s : RetrievalSource) :
    0 ≤ normalizeRetrievalWeights py custom s ∧ normalizeRetrievalWeights py custom s ≤ 2 := by
  refine List.foldlRecOn custom _
    (motive := fun w : RetrievalSource → ℚ => 0 ≤ w s ∧ w s ≤ 2) ?_ ?_
  · cases s <;> norm_num [defaultRetrievalSourceWeights]
  · intro w hw entry _
    cases hfound : retrievalSources.find? fun source => source.text = py.stripLower entry.1 with
    | none => exact hw
    | some source =>
      cases entry.2 with
      | none => exact hw
      | some score =>
        simp only [Function.update_apply]
        split
        · exact clamped_mem score
        · exact hw

def unitClamped : FloatValue → ℚ
  | .finite x => min 1 (max 0 x)
  | .infinity => 1
  | .negInfinity | .nan => 0

theorem unitClamped_mem (x : FloatValue) : 0 ≤ unitClamped x ∧ unitClamped x ≤ 1 := by
  cases x <;> simp [unitClamped]

def normalizedProject (s : String) : Option String :=
  if strip s = "" then none else some (strip s)

theorem normalizedProject_spec (s : String) :
    ∀ p ∈ normalizedProject s, p ≠ "" ∧ strip p = p := by
  intro p hp
  rw [normalizedProject] at hp
  split at hp
  · simp at hp
  · rename_i hne
    obtain rfl := Option.some.inj hp
    exact ⟨hne, strip_strip s⟩

def defaultProfile : AgentProfile
  | .retrievalMode => env.pathway.modeDefault
  | .sources => ⟨_, normalizeRetrievalSources_spec env.pathway env.lib.py []⟩
  | .sourceWeights => none
  | .defaultProject => ⟨none, by simp⟩
  | .topicPrefixes => []
  | .autoEscalate | .queryExpansion => true
  | .escalateMinResults =>
    ⟨env.recall.escalateMinResults, by exact_mod_cast env.recall.one_le_minResults⟩
  | .escalateMinTopScore => ⟨env.recall.escalateMinTopScore, env.recall.minTopScore_nonneg,
      env.recall.minTopScore_le_one⟩

def normalizeField : (f : ProfileField) → Option f.Raw → Option f.Value
  | .retrievalMode, raw =>
    some (normalizeRetrievalMode env.pathway env.lib.py (raw.getD ""))
  | .sources, raw =>
    match raw.join with
    | none => some (defaultProfile env .sources)
    | some l => some ⟨_, normalizeRetrievalSources_spec env.pathway env.lib.py
        (l.filter fun s => strip s ≠ "")⟩
  | .sourceWeights, raw =>
    some (some ⟨_, normalizeRetrievalWeights_mem env.lib.py (raw.join.getD [])⟩)
  | .defaultProject, raw => some ⟨_, normalizedProject_spec (raw.getD "")⟩
  | .topicPrefixes, raw =>
    ((raw.join.getD []).mapM fun s => (normalizeTopicPath env.lib s).toOption).map fun paths =>
      (paths.filter (· ≠ "")).eraseDups
  | .autoEscalate, raw | .queryExpansion, raw => some (raw.getD true)
  | .escalateMinResults, none => some (defaultProfile env .escalateMinResults)
  | .escalateMinResults, some n => n.map fun n => ⟨max 1 n, le_max_left _ _⟩
  | .escalateMinTopScore, none => some (defaultProfile env .escalateMinTopScore)
  | .escalateMinTopScore, some x => x.map fun x => ⟨_, unitClamped_mem x⟩

def normalizeProfilePayload (o : ProfileObject) : Option AgentProfile :=
  if h : ∀ f ∈ ProfileField.all, (normalizeField env f (o f)).isSome then
    some fun f => (normalizeField env f (o f)).get (h f f.mem_all)
  else none

theorem normalizePayload_eq_some {o : ProfileObject} {p : AgentProfile} :
    normalizeProfilePayload env o = some p ↔
      ∀ f, normalizeField env f (o f) = some (p f) := by
  rw [normalizeProfilePayload]
  constructor
  · intro h f
    split at h
    · rw [← Option.some.inj h, Option.some_get]
    · simp at h
  · intro h
    rw [dif_pos fun f _ => by rw [h f]; rfl]
    congr 1
    funext f
    exact Option.get_of_eq_some _ (h f)

def saved : (f : ProfileField) → f.Value → f.Raw
  | .retrievalMode, m => m.text
  | .sources, l => some (l.1.map RetrievalSource.text)
  | .sourceWeights, none => some []
  | .sourceWeights, some w => some (retrievalSources.map fun s => (s.text, some (.finite (w.1 s))))
  | .defaultProject, o => o.1.getD ""
  | .topicPrefixes, l => some l
  | .autoEscalate, b | .queryExpansion, b => b
  | .escalateMinResults, n => some n.1
  | .escalateMinTopScore, x => some (.finite x.1)

def AgentProfile.object (p : AgentProfile) : ProfileObject := fun f => some (saved f (p f))

def fillIn : AgentProfile
  | .sourceWeights => some ⟨_, normalizeRetrievalWeights_mem env.lib.py []⟩
  | f => defaultProfile env f

variable {env}

theorem normalizeField_none (f : ProfileField) :
    normalizeField env f none = some (fillIn env f) := by
  have hempty : strip "" = "" := rfl
  cases f <;> simp [normalizeField, fillIn, defaultProfile, normalizeRetrievalMode,
    normalizedProject, hempty]

theorem normalizeRetrievalMode_text (m : RetrievalMode) :
    normalizeRetrievalMode env.pathway env.lib.py m.text = m := by
  rw [normalizeRetrievalMode, env.lower_mode]
  cases m <;> rfl

theorem find_source (s : RetrievalSource) :
    retrievalSources.find? (fun source => source.text = env.lib.py.stripLower s.text) = some s := by
  rw [env.lower_source]
  cases s <;> rfl

theorem normalizeRetrievalSources_text {l : List RetrievalSource} (hne : l ≠ []) (hl : l.Nodup) :
    normalizeRetrievalSources env.pathway env.lib.py
      ((l.map RetrievalSource.text).filter fun s => strip s ≠ "") = l := by
  have hkept : (l.map RetrievalSource.text).filter (fun s => strip s ≠ "") =
      l.map RetrievalSource.text := by
    refine filter_eq_self.mpr fun t ht => ?_
    obtain ⟨s, -, rfl⟩ := mem_map.mp ht
    cases s <;> rfl
  have hknown : knownSources env.lib.py (l.map RetrievalSource.text) = l := by
    rw [knownSources, filterMap_map]
    simp [find_source, eraseDups_of_nodup hl]
  rw [hkept, normalizeRetrievalSources, if_neg (by simpa using hne), hknown]
  split
  · exact absurd rfl hne
  · rfl

theorem normalizeRetrievalWeights_text (w : {w : RetrievalSource → ℚ // ∀ s, 0 ≤ w s ∧ w s ≤ 2}) :
    normalizeRetrievalWeights env.lib.py
      (retrievalSources.map fun s => (s.text, some (.finite (w.1 s)))) = w.1 := by
  have hclamped (s : RetrievalSource) : (FloatValue.finite (w.1 s)).clamped = w.1 s := by
    rw [FloatValue.clamped, min_eq_left (w.2 s).2, max_eq_right (w.2 s).1]
  rw [normalizeRetrievalWeights, foldl_map]
  simp only [find_source, hclamped]
  funext s
  cases s <;> simp [retrievalSources]

theorem normalizedProject_getD (o : {o : Option String // ∀ s ∈ o, s ≠ "" ∧ strip s = s}) :
    normalizedProject (o.1.getD "") = o.1 := by
  obtain ⟨o, ho⟩ := o
  cases o with
  | none => rfl
  | some s =>
    obtain ⟨hne, hstrip⟩ := ho s rfl
    simp [normalizedProject, hstrip, hne]

theorem normalizeField_object {p : AgentProfile} {f : ProfileField} (hf : f ≠ .topicPrefixes)
    (hweights : f = .sourceWeights → p .sourceWeights ≠ none) :
    normalizeField env f (p.object f) = some (p f) := by
  cases f with
  | retrievalMode => exact congrArg some (normalizeRetrievalMode_text _)
  | sources =>
    exact congrArg some
      (Subtype.ext (normalizeRetrievalSources_text (p .sources).2.1 (p .sources).2.2))
  | sourceWeights =>
    obtain ⟨w, hw⟩ := Option.ne_none_iff_exists'.mp (hweights rfl)
    have hread : normalizeField env .sourceWeights (some (saved .sourceWeights (some w))) =
        some (some w) :=
      congrArg (fun v => some (some v)) (Subtype.ext (normalizeRetrievalWeights_text w))
    rwa [← hw] at hread
  | defaultProject =>
    simp only [AgentProfile.object, saved, normalizeField, Option.getD_some, normalizedProject_getD]
  | topicPrefixes => exact absurd rfl hf
  | autoEscalate | queryExpansion => rfl
  | escalateMinResults =>
    exact congrArg some (Subtype.ext (max_eq_right (p .escalateMinResults).2))
  | escalateMinTopScore =>
    have hclamped (x : {x : ℚ // 0 ≤ x ∧ x ≤ 1}) :
        unitClamped (.finite x.1) = x.1 := by
      rw [unitClamped, max_eq_right x.2.1, min_eq_right x.2.2]
    exact congrArg some (Subtype.ext (hclamped _))

/-! ### The profile file -/

section

variable (env : ProfileEnv)

def normalizeProfileId (agentId : String) : Option String :=
  let text := env.lib.py.stripLower agentId
  if text = "" then some "default"
  else
    let joined := String.ofList (text.toList.map fun c => if c = ' ' then '_' else c)
    (normalizeTopicPath env.lib joined).toOption.map fun id => if id = "" then "default" else id

def mergeProfiles (base : AgentProfile) (override : Option ProfileObject) :
    Option AgentProfile :=
  match override with
  | none => some base
  | some o => normalizeProfilePayload env o

abbrev Profiles := Dict String AgentProfile

abbrev ProfileFile := List (String × Option ProfileObject)

def defaultOf (profiles : Profiles) : AgentProfile :=
  (profiles.get? "default").getD (defaultProfile env)

def loadEntries : Profiles → ProfileFile → Profiles
  | profiles, [] => profiles
  | profiles, (rawId, raw) :: rest =>
    match normalizeProfileId env rawId, raw with
    | none, _ => profiles
    | some _, none => loadEntries profiles rest
    | some id, some o =>
      let base := if id = "default" then defaultProfile env else defaultOf env profiles
      match mergeProfiles env base (some o) with
      | none => profiles
      | some p => loadEntries (profiles.set id p) rest

def loadProfiles (file : ProfileFile) : Profiles :=
  loadEntries env (Dict.set .empty "default" (defaultProfile env)) file

def persistProfiles (profiles : Profiles) : ProfileFile :=
  (profiles.rows.insertionSort fun a b => a.1 ≤ b.1).map fun (id, p) => (id, some p.object)

def resolveProfile (profiles : Profiles) (agentId : String) : Option AgentProfile :=
  (normalizeProfileId env agentId).bind fun id =>
    if id = "default" then some (defaultOf env profiles)
    else mergeProfiles env (defaultOf env profiles)
      ((profiles.get? id).map AgentProfile.object)

/-! ### Inheritance -/

def Readable (file : ProfileFile) : Prop :=
  ∀ e ∈ file, normalizeProfileId env e.1 ≠ none ∧
    ∀ o ∈ e.2, normalizeProfilePayload env o ≠ none

def GivenIn (file : ProfileFile) (id : String) (o : ProfileObject) : Prop :=
  (∃ rawId, (rawId, some o) ∈ file ∧ normalizeProfileId env rawId = some id) ∧
    ∀ rawId o', (rawId, some o') ∈ file → normalizeProfileId env rawId = some id → o' = o

structure Inherits (base : AgentProfile) (o : ProfileObject) (r : AgentProfile) : Prop where
  set : ∀ f raw, o f = some raw → normalizeField env f (some raw) = some (r f)
  unset : ∀ f, o f = none → r f = base f

def again (p : AgentProfile) : Option AgentProfile :=
  normalizeProfilePayload env p.object

def PrefixesStable (p : AgentProfile) : Prop :=
  normalizeField env .topicPrefixes (p.object .topicPrefixes) = some (p .topicPrefixes)

variable {env}

variable {o : ProfileObject} {p : AgentProfile}

theorem weights_ne_none
    (h : normalizeProfilePayload env o = some p) : p .sourceWeights ≠ none := by
  have hfield := (normalizePayload_eq_some env).mp h .sourceWeights
  rw [← Option.some.inj hfield]
  exact Option.some_ne_none _

theorem again_self_iff : again env p = some p ↔
    p .sourceWeights ≠ none ∧ PrefixesStable env p := by
  refine ⟨fun h => ⟨weights_ne_none h, (normalizePayload_eq_some env).mp h _⟩, fun h => ?_⟩
  refine (normalizePayload_eq_some env).mpr fun f => ?_
  by_cases hprefixes : f = .topicPrefixes
  · subst hprefixes
    exact h.2
  · exact normalizeField_object hprefixes fun _ => h.1

/-- What is read back once does not change any more, exactly if this holds of its prefixes. -/
theorem again_again_iff : (∃ q, again env p = some q ∧ again env q = some q) ↔
    ∃ l, normalizeField env .topicPrefixes (some (some (p .topicPrefixes))) = some l ∧
      normalizeField env .topicPrefixes (some (some l)) = some l := by
  constructor
  · rintro ⟨q, hq, hsame⟩
    exact ⟨_, (normalizePayload_eq_some env).mp hq _, (normalizePayload_eq_some env).mp hsame _⟩
  · rintro ⟨l, hl, hstable⟩
    have hsome : ∀ f ∈ ProfileField.all, (normalizeField env f (p.object f)).isSome := by
      intro f _
      by_cases hprefixes : f = .topicPrefixes
      · subst hprefixes
        exact Option.isSome_of_eq_some hl
      · by_cases hweights : f = .sourceWeights
        · subst hweights
          rfl
        · exact Option.isSome_of_eq_some
            (normalizeField_object hprefixes fun h => absurd h hweights)
    obtain ⟨q, hq⟩ : ∃ q, again env p = some q := ⟨_, dif_pos hsome⟩
    obtain rfl : q .topicPrefixes = l :=
      Option.some.inj (((normalizePayload_eq_some env).mp hq _).symm.trans hl)
    exact ⟨q, hq, again_self_iff.mpr ⟨weights_ne_none hq, hstable⟩⟩

theorem again_inherits_iff {base : AgentProfile} (h : normalizeProfilePayload env o = some p) :
    (∃ r, again env p = some r ∧ Inherits env base o r) ↔
      (∀ f, o f = none → base f = fillIn env f) ∧ PrefixesStable env p := by
  have hp := (normalizePayload_eq_some env).mp h
  have hfill {f : ProfileField} (hf : o f = none) : p f = fillIn env f := by
    have hfield := hp f
    rw [hf, normalizeField_none] at hfield
    exact (Option.some.inj hfield).symm
  have hself (hstable : PrefixesStable env p) : again env p = some p :=
    again_self_iff.mpr ⟨weights_ne_none h, hstable⟩
  have hnone (hf : o .topicPrefixes = none) : PrefixesStable env p := by
    have hempty : p .topicPrefixes = [] := hfill hf
    rw [PrefixesStable, AgentProfile.object, hempty]
    rfl
  constructor
  · rintro ⟨r, hr, hset, hunset⟩
    have hstable : PrefixesStable env p := by
      cases hf : o .topicPrefixes with
      | none => exact hnone hf
      | some raw =>
        have hraw := hset _ raw hf
        rw [← hf, hp .topicPrefixes] at hraw
        rw [PrefixesStable, hraw]
        exact (normalizePayload_eq_some env).mp hr .topicPrefixes
    obtain rfl : r = p := Option.some.inj (hr.symm.trans (hself hstable))
    exact ⟨fun f hf => by rw [← hunset f hf, hfill hf], hstable⟩
  · rintro ⟨hbase, hstable⟩
    refine ⟨p, hself hstable, fun f raw hf => ?_, fun f hf => ?_⟩
    · rw [← hf]
      exact hp f
    · rw [hbase f hf, hfill hf]

variable (env) in
theorem get?_loadEntries (profiles : Profiles) (file : ProfileFile) (id : String) :
    (∃ rawId o p, (rawId, some o) ∈ file ∧ normalizeProfileId env rawId = some id ∧
      normalizeProfilePayload env o = some p ∧
        Dict.get? (loadEntries env profiles file) id = some p) ∨
    Dict.get? (loadEntries env profiles file) id = profiles.get? id ∧
      (Readable env file → ∀ rawId o, (rawId, some o) ∈ file →
        normalizeProfileId env rawId ≠ some id) := by
  induction file generalizing profiles with
  | nil => exact .inr ⟨rfl, fun _ _ _ h => absurd h not_mem_nil⟩
  | cons e rest ih =>
    obtain ⟨rawId, raw⟩ := e
    have htail (h : Readable env ((rawId, raw) :: rest)) : Readable env rest :=
      fun e he => h e (mem_cons_of_mem _ he)
    cases hid : normalizeProfileId env rawId with
    | none =>
      refine .inr ⟨by simp [loadEntries, hid], fun hread => ?_⟩
      exact absurd hid (hread _ mem_cons_self).1
    | some i =>
      cases raw with
      | none =>
        simp only [loadEntries, hid]
        rcases ih profiles with ⟨rawId', o, p, hmem, h⟩ | ⟨heq, hno⟩
        · exact .inl ⟨rawId', o, p, mem_cons_of_mem _ hmem, h⟩
        · refine .inr ⟨heq, fun hread rawId' o hmem => hno (htail hread) rawId' o ?_⟩
          simpa using hmem
      | some o =>
        cases hp : normalizeProfilePayload env o with
        | none =>
          refine .inr ⟨by simp [loadEntries, hid, mergeProfiles, hp], fun hread => ?_⟩
          exact absurd hp ((hread _ mem_cons_self).2 o rfl)
        | some p =>
          simp only [loadEntries, hid, mergeProfiles, hp]
          rcases ih (profiles.set i p) with ⟨rawId', o', p', hmem, h⟩ | ⟨heq, hno⟩
          · exact .inl ⟨rawId', o', p', mem_cons_of_mem _ hmem, h⟩
          · by_cases hsame : id = i
            · subst hsame
              exact .inl ⟨rawId, o, p, mem_cons_self, hid, hp, heq.trans (Dict.get?_set ..)⟩
            · refine .inr ⟨heq.trans (Dict.get?_set_of_ne hsame p), fun hread rawId' o' hmem => ?_⟩
              rcases mem_cons.mp hmem with hhead | hmem
              · obtain rfl := (Prod.mk.inj hhead).1
                rw [hid]
                exact fun h => hsame (Option.some.inj h).symm
              · exact hno (htail hread) rawId' o' hmem

variable (env) in
theorem get?_load_default (file : ProfileFile) :
    ∃ p, Dict.get? (loadProfiles env file) "default" = some p := by
  rcases get?_loadEntries env _ file "default" with ⟨_, _, p, _, _, _, h⟩ | ⟨h, -⟩
  · exact ⟨p, h⟩
  · exact ⟨_, h.trans (Dict.get?_set ..)⟩

theorem resolve_of_get? {profiles : Profiles} {agentId id : String}
    (hid : normalizeProfileId env agentId = some id) (hne : id ≠ "default")
    (h : profiles.get? id = some p) :
    resolveProfile env profiles agentId = again env p := by
  rw [resolveProfile, hid, Option.bind_some, if_neg hne, h]
  rfl

theorem get?_load_of_givenIn {file : ProfileFile} {id : String}
    (hread : Readable env file) (h : GivenIn env file id o) :
    ∃ p, normalizeProfilePayload env o = some p ∧
      Dict.get? (loadProfiles env file) id = some p := by
  obtain ⟨⟨rawId, hmem, hid⟩, hunique⟩ := h
  rcases get?_loadEntries env _ file id with
    ⟨rawId', o', p, hmem', hid', hp, hget⟩ | ⟨-, hno⟩
  · rw [hunique rawId' o' hmem' hid'] at hp
    exact ⟨p, hp, hget⟩
  · exact absurd hid (hno hread rawId o hmem)

/-! ### Saving and loading -/

theorem mem_persist {profiles : Profiles} {rawId : String} :
    (rawId, some o) ∈ persistProfiles profiles ↔
      ∃ p, profiles.get? rawId = some p ∧ p.object = o := by
  simp only [persistProfiles, mem_map, mem_insertionSort, Prod.mk.injEq,
    Option.some.injEq, Prod.exists, Dict.get?_eq_some]
  constructor
  · rintro ⟨id, p, hmem, rfl, rfl⟩
    exact ⟨p, hmem, rfl⟩
  · rintro ⟨p, hmem, rfl⟩
    exact ⟨rawId, p, hmem, rfl, rfl⟩

def reloaded (env : ProfileEnv) (profiles : Profiles) : Profiles :=
  loadProfiles env (persistProfiles profiles)

theorem again_default_ne_none : again env (defaultProfile env) ≠ none := by
  intro h
  rw [again, normalizeProfilePayload, dite_eq_right_iff] at h
  refine absurd (h fun f _ => ?_) (Option.some_ne_none _)
  cases f <;> rfl

section

variable {profiles : Profiles} (hids : ∀ id p, profiles.get? id = some p →
  normalizeProfileId env id = some id)

include hids

variable {id : String}

theorem get?_reloaded {p : AgentProfile} (hp : profiles.get? id = some p) :
    (∃ q, again env p = some q ∧ Dict.get? (reloaded env profiles) id = some q) ∨
      Dict.get? (reloaded env profiles) id =
          Dict.get? (Dict.set .empty "default" (defaultProfile env)) id ∧
        ¬ Readable env (persistProfiles profiles) := by
  rcases get?_loadEntries env (Dict.set .empty "default" (defaultProfile env))
    (persistProfiles profiles) id with ⟨rawId, o, q, hmem, hid, hq, hget⟩ | ⟨heq, hno⟩
  · obtain ⟨p', hp', rfl⟩ := mem_persist.mp hmem
    obtain rfl : rawId = id := Option.some.inj ((hids rawId p' hp').symm.trans hid)
    obtain rfl : p' = p := Option.some.inj (hp'.symm.trans hp)
    exact .inl ⟨q, hq, hget⟩
  · have hmem := mem_persist.mpr ⟨p, hp, rfl⟩
    exact .inr ⟨heq, fun hread => hno hread id p.object hmem (hids id p hp)⟩

theorem get?_reloaded_of_again (hagain : ∀ id p, profiles.get? id = some p → again env p ≠ none)
    {p : AgentProfile} (hp : profiles.get? id = some p) :
    ∃ q, again env p = some q ∧ Dict.get? (reloaded env profiles) id = some q := by
  refine (get?_reloaded hids hp).resolve_right fun h => h.2 fun e he => ?_
  obtain ⟨⟨id, p⟩, hmem, rfl⟩ := mem_map.mp he
  have hget := Dict.get?_eq_some.mpr ((mem_insertionSort _).mp hmem)
  refine ⟨by simp [hids id p hget], fun o ho => ?_⟩
  rw [← Option.some.inj ho]
  exact hagain id p hget

theorem get?_reloaded_none (hnone : profiles.get? id = none) (hne : id ≠ "default") :
    Dict.get? (reloaded env profiles) id = none := by
  rcases get?_loadEntries env (Dict.set .empty "default" (defaultProfile env))
    (persistProfiles profiles) id with ⟨rawId, o, q, hmem, hid, -, -⟩ | ⟨heq, -⟩
  · obtain ⟨p', hp', rfl⟩ := mem_persist.mp hmem
    obtain rfl : rawId = id := Option.some.inj ((hids rawId p' hp').symm.trans hid)
    simp [hnone] at hp'
  · exact heq.trans (Dict.get?_set_of_ne hne _)

theorem reload_resolves_iff {base : AgentProfile}
    (hbase : profiles.get? "default" = some base) :
    (∀ agentId, resolveProfile env (reloaded env profiles) agentId =
      resolveProfile env profiles agentId) ↔
      again env base = some base ∧ ∀ id p, profiles.get? id = some p → id ≠ "default" →
        ∃ q, again env p = some q ∧ again env q = some q := by
  have hdefault : defaultOf env profiles = base := by rw [defaultOf, hbase, Option.getD_some]
  constructor
  · intro hsame
    -- an agent whose profile cannot be read again would get the default profile
    have hagents (id p) (hp : profiles.get? id = some p) (hne : id ≠ "default") :
        again env p ≠ none := by
      intro hagain
      have hid := hids id p hp
      have hbefore := resolve_of_get? hid hne hp
      rw [hagain, ← hsame id, resolveProfile, hid, Option.bind_some, if_neg hne] at hbefore
      rcases get?_reloaded hids hp with ⟨q, hq, -⟩ | ⟨heq, -⟩
      · simp [hagain] at hq
      · rw [heq, Dict.get?_set_of_ne hne] at hbefore
        simp [mergeProfiles] at hbefore
    have hown : defaultOf env (reloaded env profiles) = base := by
      have h := hsame "default"
      rw [resolveProfile, resolveProfile, hids _ _ hbase] at h
      simpa [hdefault] using h
    have hbaseAgain : again env base ≠ none := by
      intro hagain
      rcases get?_reloaded hids hbase with ⟨q, hq, -⟩ | ⟨heq, -⟩
      · simp [hagain] at hq
      · rw [defaultOf, heq, Dict.get?_set, Option.getD_some] at hown
        rw [← hown] at hagain
        exact again_default_ne_none hagain
    have hagain (id p) (hp : profiles.get? id = some p) : again env p ≠ none := by
      by_cases hne : id = "default"
      · subst hne
        rwa [← Option.some.inj (hbase.symm.trans hp)]
      · exact hagents id p hp hne
    refine ⟨?_, fun id p hp hne => ?_⟩
    · obtain ⟨q, hq, hreloaded⟩ := get?_reloaded_of_again hids hagain hbase
      rw [defaultOf, hreloaded, Option.getD_some] at hown
      rw [hq, hown]
    · obtain ⟨q, hq, hreloaded⟩ := get?_reloaded_of_again hids hagain hp
      refine ⟨q, hq, ?_⟩
      have hid := hids id p hp
      rw [← resolve_of_get? hid hne hreloaded, hsame, resolve_of_get? hid hne hp, hq]
  · rintro ⟨hstable, hagents⟩ agentId
    have hagain (id p) (hp : profiles.get? id = some p) : again env p ≠ none := by
      by_cases hne : id = "default"
      · subst hne
        simp [← Option.some.inj (hbase.symm.trans hp), hstable]
      · obtain ⟨q, hq, -⟩ := hagents id p hp hne
        simp [hq]
    have hown : defaultOf env (reloaded env profiles) = base := by
      obtain ⟨q, hq, hreloaded⟩ := get?_reloaded_of_again hids hagain hbase
      rw [defaultOf, hreloaded, Option.getD_some, Option.some.inj (hq.symm.trans hstable)]
    cases hid : normalizeProfileId env agentId with
    | none => simp [resolveProfile, hid]
    | some id =>
      by_cases hne : id = "default"
      · simp [resolveProfile, hid, hne, hown, hdefault]
      · cases hp : profiles.get? id with
        | none =>
          rw [resolveProfile, resolveProfile, hid, Option.bind_some,
            Option.bind_some, hown, hdefault, get?_reloaded_none hids hp hne, hp]
        | some p =>
          obtain ⟨q, hq, hreloaded⟩ := get?_reloaded_of_again hids hagain hp
          obtain ⟨q', hq', hstable'⟩ := hagents id p hp hne
          obtain rfl : q = q' := Option.some.inj (hq.symm.trans hq')
          rw [resolve_of_get? hid hne hreloaded, resolve_of_get? hid hne hp, hq, hstable']

end

variable (env) in
/-- **Inheritance, exactly**: from the default profile, and through saving and loading. For the
latter the default profile must have weights and prefixes that are normalised to themselves; those
of the agents must be so after they have been read back once. -/
theorem profile_inheritance_iff {file : ProfileFile} (hread : Readable env file) :
    (∀ id o agentId, id ≠ "default" → GivenIn env file id o →
      normalizeProfileId env agentId = some id →
      ((∃ r, resolveProfile env (loadProfiles env file) agentId = some r ∧
          Inherits env (defaultOf env (loadProfiles env file)) o r) ↔
        (∀ f, o f = none → defaultOf env (loadProfiles env file) f = fillIn env f) ∧
          ∀ p, normalizeProfilePayload env o = some p → PrefixesStable env p)) ∧
    ((∀ id p, Dict.get? (loadProfiles env file) id = some p →
        normalizeProfileId env id = some id) →
      ((∀ agentId,
          resolveProfile env (reloaded env (loadProfiles env file)) agentId =
            resolveProfile env (loadProfiles env file) agentId) ↔
        (defaultOf env (loadProfiles env file) .sourceWeights ≠ none ∧
            PrefixesStable env (defaultOf env (loadProfiles env file))) ∧
          ∀ id p, Dict.get? (loadProfiles env file) id = some p → id ≠ "default" →
            ∃ l, normalizeField env .topicPrefixes (some (some (p .topicPrefixes))) = some l ∧
              normalizeField env .topicPrefixes (some (some l)) = some l)) := by
  refine ⟨fun id o agentId hne hgiven hid => ?_, fun hids => ?_⟩
  · obtain ⟨p, hp, hget⟩ := get?_load_of_givenIn hread hgiven
    rw [resolve_of_get? hid hne hget, again_inherits_iff hp]
    simp [hp]
  · obtain ⟨base, hbase⟩ := get?_load_default env file
    rw [defaultOf, hbase, Option.getD_some]
    exact (reload_resolves_iff hids hbase).trans
      (and_congr again_self_iff (forall₄_congr fun _ _ _ _ => again_again_iff))

end

def ProfileEnv.plain : ProfileEnv where
  lib := .plain
  pathway := .default
  «recall» := .default
  lower_mode m := by cases m <;> decide +kernel
  lower_source s := by cases s <;> decide +kernel

def deepByDefault : ProfileFile :=
  [("default", some fun f => match f with
      | .retrievalMode => some "deep"
      | _ => none),
    ("scout", some fun _ => none)]

theorem profile_inheritance_iff_scout :
    ¬ ∃ r, resolveProfile .plain (loadProfiles .plain deepByDefault) "scout" =
        some r ∧
      Inherits .plain (defaultOf .plain (loadProfiles .plain deepByDefault))
        (fun _ => none) r := by
  have hread : Readable .plain deepByDefault := by
    unfold Readable
    decide +kernel
  have hgiven : GivenIn .plain deepByDefault "scout" fun _ => none := by
    refine ⟨⟨"scout", by simp [deepByDefault], by decide +kernel⟩, fun rawId o hmem hid => ?_⟩
    simp only [deepByDefault, mem_cons, Prod.mk.injEq, Option.some.injEq, not_mem_nil,
      or_false] at hmem
    rcases hmem with ⟨rfl, -⟩ | ⟨-, rfl⟩
    · exact absurd hid (by decide +kernel)
    · rfl
  rw [(profile_inheritance_iff .plain hread).1 "scout" _ "scout" (by decide) hgiven
    (by decide +kernel)]
  have hmode : defaultOf .plain (loadProfiles .plain deepByDefault) .retrievalMode ≠
      fillIn .plain .retrievalMode := by
    decide +kernel
  exact fun h => hmode (h.1 .retrievalMode rfl)

/-- **The default is not inherited**; and a fresh default profile gets weights by being saved and
loaded. -/
theorem scout_not_deep :
    defaultOf .plain (loadProfiles .plain deepByDefault) .retrievalMode = .deep ∧
      ((resolveProfile .plain (loadProfiles .plain deepByDefault)
        "scout").map fun p => p .retrievalMode) = some .balanced ∧
      (defaultOf .plain (loadProfiles .plain []) .sourceWeights).isSome = false ∧
      (defaultOf .plain (reloaded .plain (loadProfiles .plain []))
        .sourceWeights).isSome = true := by
  decide +kernel

end AgentMemory

end ContextLattice
