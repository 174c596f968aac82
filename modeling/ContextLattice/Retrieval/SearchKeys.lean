import Mathlib.Data.Finset.Sort
import Mathlib.Data.String.Basic
import ContextLattice.Foundation.Decimal
import ContextLattice.Foundation.Paths
import ContextLattice.Retrieval.Sources

/-!
# Search keys

Answers of a search are kept under a hash of a text with one line for each argument; the filters may
have line breaks of their own, weights are rounded to four places, and the query is lower-cased.
-/

namespace ContextLattice

open Foundation List

/-! ### Settling the arguments -/

inductive RetrievalMode where
  | fast | balanced | deep
deriving DecidableEq

def RetrievalMode.text : RetrievalMode → String
  | .fast => "fast"
  | .balanced => "balanced"
  | .deep => "deep"

def RetrievalSource.text : RetrievalSource → String
  | .qdrant => "qdrant"
  | .mongoRaw => "mongo_raw"
  | .mindsdb => "mindsdb"
  | .topicRollups => "topic_rollups"
  | .letta => "letta"
  | .memoryBank => "memory_bank"

def retrievalSources : List RetrievalSource :=
  [.qdrant, .mongoRaw, .mindsdb, .letta, .memoryBank, .topicRollups]

inductive FloatValue where
  | finite (x : ℚ)
  | infinity
  | negInfinity
  | nan

structure PathwayConfig where
  modeDefault : RetrievalMode
  sourcesEnv : String
  fastSources : List RetrievalSource
  enableLearningRerank : Bool
  cacheEnabled : Bool
  cacheTtlSecs : ℚ
  cacheMaxKeys : ℕ

def PathwayConfig.default : PathwayConfig where
  modeDefault := .balanced
  sourcesEnv := "qdrant,mongo_raw,mindsdb,topic_rollups,letta,memory_bank"
  fastSources := [.qdrant, .mongoRaw, .mindsdb, .topicRollups]
  enableLearningRerank := true
  cacheEnabled := true
  cacheTtlSecs := 90
  cacheMaxKeys := 2000

structure FederatedRequest where
  query : String
  limit : ℕ
  projectFilter : Option String := none
  topicFilter : Option String := none
  sources : List String := []
  sourceWeights : List (String × Option FloatValue) := []
  positive : List String := []
  negative : List String := []
  rerankWithLearning : Bool := true
  retrievalMode : String := "balanced"

def IsTerm (t : String) : Prop := t ≠ "" ∧ ∀ c ∈ t.toList, isTermChar c = true

@[ext]
structure SearchArguments where
  mode : RetrievalMode
  limit : ℕ
  project : String
  topic : String
  sources : List RetrievalSource
  weights : RetrievalSource → ℚ
  learning : Bool
  positive : Finset String
  negative : Finset String
  query : String
  isTerm_positive : ∀ t ∈ positive, IsTerm t
  isTerm_negative : ∀ t ∈ negative, IsTerm t

variable (cfg : PathwayConfig) (py : Python)

def normalizeRetrievalMode (mode : String) : RetrievalMode :=
  if mode = "" then cfg.modeDefault
  else
    let candidate := py.stripLower mode
    ([.fast, .balanced, .deep].find? fun m : RetrievalMode => m.text = candidate).getD .balanced

def knownSources (requested : List String) : List RetrievalSource :=
  (requested.filterMap fun item =>
    retrievalSources.find? fun source => source.text = py.stripLower item).eraseDups

def normalizeRetrievalSources (sources : List String) : List RetrievalSource :=
  let requested := if sources = [] then
      (cfg.sourcesEnv.toList.splitOn ',').map String.ofList
    else sources
  match knownSources py requested with
  | [] => [.qdrant]
  | known => known

def resolveRetrievalSourcesForMode (mode : RetrievalMode) (sources : List String) :
    List RetrievalSource :=
  if sources ≠ [] then normalizeRetrievalSources cfg py sources
  else if mode = .fast then cfg.fastSources
  else normalizeRetrievalSources cfg py []

def defaultRetrievalSourceWeights : RetrievalSource → ℚ
  | .qdrant => 1
  | .letta => 9 / 10
  | .topicRollups => 88 / 100
  | .mindsdb => 8 / 10
  | .mongoRaw => 75 / 100
  | .memoryBank => 65 / 100

def FloatValue.clamped : FloatValue → ℚ
  | .finite x => max 0 (min x 2)
  | .infinity => 2
  -- `min(nan, 2.0)` is `nan`, and `max(0.0, nan)` is `0.0`
  | .negInfinity | .nan => 0

def normalizeRetrievalWeights (custom : List (String × Option FloatValue)) :
    RetrievalSource → ℚ :=
  custom.foldl (fun weights entry =>
    match retrievalSources.find? fun source => source.text = py.stripLower entry.1, entry.2 with
    | some source, some score => Function.update weights source score.clamped
    | _, _ => weights) defaultRetrievalSourceWeights

def learningStopWords : List String :=
  ["about", "after", "again", "already", "avoid", "from", "into", "just", "like", "more", "only",
    "that", "this", "with", "would"]

def learningTerms (items : List String) : Finset String :=
  (items.flatMap fun value =>
    ((((py.lower value).toList.splitOnP fun c => !isTermChar c).filter fun r => 4 ≤ r.length).map
      String.ofList).filter (· ∉ learningStopWords)).toFinset

variable {t : String}

theorem isTerm_of_mem_learningTerms {items : List String} (h : t ∈ learningTerms py items) :
    IsTerm t := by
  simp only [learningTerms, mem_toFinset, mem_flatMap, mem_filter, mem_map, decide_eq_true_eq] at h
  obtain ⟨value, -, ⟨r, ⟨hpiece, hlength⟩, rfl⟩, -⟩ := h
  refine ⟨fun hempty => ?_, fun c hc => ?_⟩
  · have hnil : r = [] := by simpa using congrArg String.toList hempty
    simp [hnil] at hlength
  · rw [String.toList_ofList] at hc
    simpa using eq_false_of_mem_splitOnP hpiece c hc

def federatedArguments (req : FederatedRequest) : SearchArguments :=
  let mode := normalizeRetrievalMode cfg py req.retrievalMode
  let positive := learningTerms py req.positive
  let negative := learningTerms py req.negative
  { mode := mode
    limit := req.limit
    project := req.projectFilter.getD ""
    topic := req.topicFilter.getD ""
    sources := resolveRetrievalSourcesForMode cfg py mode req.sources
    weights := normalizeRetrievalWeights py req.sourceWeights
    learning := req.rerankWithLearning && cfg.enableLearningRerank &&
      decide (positive ≠ ∅ ∨ negative ≠ ∅)
    positive := positive
    negative := negative
    query := req.query
    isTerm_positive := fun _ => isTerm_of_mem_learningTerms py
    isTerm_negative := fun _ => isTerm_of_mem_learningTerms py }

/-! ### The keys -/

def squeezeSpaces : Bool → List Char → List Char
  | _, [] => []
  | inside, c :: cs =>
    if isSpace c then
      if inside then squeezeSpaces true cs else ' ' :: squeezeSpaces true cs
    else c :: squeezeSpaces false cs

variable (env : RetrievalEnv)

def keyQuery (query : String) : List Char :=
  squeezeSpaces false (env.lib.py.stripLower query).toList

def roundedWeight (w : ℚ) : ℕ := (roundHalfEven (w * 10 ^ 4)).toNat

def sortedSources : List RetrievalSource :=
  [.letta, .memoryBank, .mindsdb, .mongoRaw, .qdrant, .topicRollups]

def weightEntry (weights : RetrievalSource → ℚ) (source : RetrievalSource) : String :=
  source.text ++ ":" ++ String.ofList (decimalText 4 (roundedWeight (weights source)))

def retrievalWeightSignature (weights : RetrievalSource → ℚ) : String :=
  joinText "," (sortedSources.map (weightEntry weights))

def pathwayParts (a : SearchArguments) : List String :=
  [a.mode.text, toString a.limit, a.project, a.topic,
    joinText "," (a.sources.map RetrievalSource.text), retrievalWeightSignature a.weights,
    if a.learning then "True" else "False", joinText "," a.positive.sort,
    joinText "," a.negative.sort, String.ofList (keyQuery env a.query)]

def retrievalPathwayCacheKey (a : SearchArguments) : String :=
  env.sha1 (joinText "\n" (pathwayParts env a))

/-! ### Texts in lines -/

def keyLines (s : String) : List (List Char) := s.toList.splitOn '\n'

theorem keyLines_of_notMem {s : String} (h : '\n' ∉ s.toList) : keyLines s = [s.toList] :=
  splitOn_eq_singleton h

theorem toList_joinText_newline (ps : List String) :
    (joinText "\n" ps).toList = joined '\n' (ps.map String.toList) := by
  rw [joinText, String.toList_ofList]
  rfl

theorem toList_joinText_comma (ps : List String) :
    (joinText "," ps).toList = joined ',' (ps.map String.toList) := by
  rw [joinText, String.toList_ofList]
  rfl

variable {ps qs : List String}

theorem joinText_newline_eq_iff (hps : ps ≠ []) (hqs : qs ≠ []) :
    joinText "\n" ps = joinText "\n" qs ↔ ps.flatMap keyLines = qs.flatMap keyLines := by
  rw [← String.toList_inj, toList_joinText_newline, toList_joinText_newline,
    joined_eq_joined_iff (by simpa using hps) (by simpa using hqs), flatMap_map,
    flatMap_map]
  rfl

theorem joinText_comma_inj (hps : ∀ p ∈ ps, p ≠ "" ∧ ',' ∉ p.toList)
    (hqs : ∀ q ∈ qs, q ≠ "" ∧ ',' ∉ q.toList) : joinText "," ps = joinText "," qs ↔ ps = qs := by
  have hback : ∀ {rs : List String}, (∀ r ∈ rs, r ≠ "" ∧ ',' ∉ r.toList) →
      segments ',' (joinText "," rs).toList = rs.map String.toList := by
    intro rs hrs
    rw [toList_joinText_comma, segments_joined]
    simpa using hrs
  refine ⟨fun h => ?_, fun h => by rw [h]⟩
  have hlists := (hback hps).symm.trans ((congrArg (segments ',' ∘ String.toList) h).trans
    (hback hqs))
  exact (map_injective_iff.mpr fun _ _ => String.toList_inj.mp) hlists

theorem newline_notMem_joinText {ps : List String} (h : ∀ p ∈ ps, '\n' ∉ p.toList) :
    '\n' ∉ (joinText "," ps).toList := by
  rw [toList_joinText_comma, mem_joined_iff (by decide)]
  rintro ⟨p, hp, hmem⟩
  obtain ⟨q, hq, rfl⟩ := mem_map.mp hp
  exact h q hq hmem

theorem newline_notMem_toString (n : ℕ) : '\n' ∉ (toString n).toList := by
  rw [Nat.toString_eq_repr, Nat.toList_repr]
  exact fun h => absurd (Nat.isDigit_of_mem_toDigits (by decide) (by decide) h) (by decide)

theorem toString_inj {m n : ℕ} (h : toString m = toString n) : m = n := by
  have hdigits : Nat.toDigits 10 m = Nat.toDigits 10 n := by
    simpa only [Nat.toString_eq_repr, Nat.toList_repr] using congrArg String.toList h
  simpa using congrArg (fun digits => Nat.ofDigitChars 10 digits 0) hdigits

/-! ### The parts of a key -/

theorem newline_notMem_of_isTerm (h : IsTerm t) : '\n' ∉ t.toList :=
  fun hmem => absurd (h.2 _ hmem) (by decide)

theorem comma_notMem_of_isTerm (h : IsTerm t) : ',' ∉ t.toList :=
  fun hmem => absurd (h.2 _ hmem) (by decide)

theorem sort_inj {s t : Finset String} (hs : ∀ x ∈ s, IsTerm x) (ht : ∀ x ∈ t, IsTerm x) :
    joinText "," s.sort = joinText "," t.sort ↔ s = t := by
  rw [joinText_comma_inj]
  · refine ⟨fun h => ?_, fun h => by rw [h]⟩
    rw [← Finset.sort_toFinset s (· ≤ ·), h, Finset.sort_toFinset]
  · intro p hp
    have hterm := hs p (by simpa using hp)
    exact ⟨hterm.1, comma_notMem_of_isTerm hterm⟩
  · intro q hq
    have hterm := ht q (by simpa using hq)
    exact ⟨hterm.1, comma_notMem_of_isTerm hterm⟩

theorem RetrievalSource.text_word (source : RetrievalSource) :
    source.text ≠ "" ∧ ',' ∉ source.text.toList ∧ '\n' ∉ source.text.toList := by
  cases source <;> decide

theorem RetrievalSource.text_injective : Function.Injective RetrievalSource.text := by
  intro a b h
  cases a <;> cases b <;> first | rfl | exact absurd h (by decide)

theorem RetrievalMode.text_injective : Function.Injective RetrievalMode.text := by
  intro a b h
  cases a <;> cases b <;> first | rfl | exact absurd h (by decide)

theorem sources_inj {ss ts : List RetrievalSource} :
    joinText "," (ss.map RetrievalSource.text) = joinText "," (ts.map RetrievalSource.text) ↔
      ss = ts := by
  have hword : ∀ rs : List RetrievalSource, ∀ p ∈ rs.map RetrievalSource.text,
      p ≠ "" ∧ ',' ∉ p.toList := by
    intro rs p hp
    obtain ⟨r, -, rfl⟩ := mem_map.mp hp
    exact ⟨r.text_word.1, r.text_word.2.1⟩
  rw [joinText_comma_inj (hword ss) (hword ts)]
  exact (map_injective_iff.mpr RetrievalSource.text_injective).eq_iff

variable {source : RetrievalSource} {c : Char}

theorem mem_weightEntry {weights : RetrievalSource → ℚ}
    (h : c ∈ (weightEntry weights source).toList) :
    c ∈ source.text.toList ∨ c = ':' ∨ c = '.' ∨ c.isDigit = true := by
  simp only [weightEntry, String.toList_append, mem_append, String.toList_ofList] at h
  rcases h with (h | h) | h
  · exact Or.inl h
  · exact Or.inr (Or.inl (by simpa using h))
  · exact Or.inr (Or.inr (mem_decimalText h))

theorem weightEntry_word (weights : RetrievalSource → ℚ) (source : RetrievalSource) :
    weightEntry weights source ≠ "" ∧ ',' ∉ (weightEntry weights source).toList ∧
      '\n' ∉ (weightEntry weights source).toList := by
  refine ⟨fun h => ?_, fun h => ?_, fun h => ?_⟩
  · have hlist := congrArg String.toList h
    simp [weightEntry] at hlist
  · rcases mem_weightEntry h with h | h | h | h
    · exact source.text_word.2.1 h
    all_goals exact absurd h (by decide)
  · rcases mem_weightEntry h with h | h | h | h
    · exact source.text_word.2.2 h
    all_goals exact absurd h (by decide)

variable {v w : RetrievalSource → ℚ}

theorem weightEntry_inj :
    weightEntry v source = weightEntry w source ↔
      roundedWeight (v source) = roundedWeight (w source) := by
  rw [weightEntry, weightEntry, ← String.toList_inj]
  simp [decimalText_inj]

theorem retrievalWeightSignature_inj :
    retrievalWeightSignature v = retrievalWeightSignature w ↔
      ∀ source, roundedWeight (v source) = roundedWeight (w source) := by
  have hword : ∀ u : RetrievalSource → ℚ, ∀ p ∈ sortedSources.map (weightEntry u),
      p ≠ "" ∧ ',' ∉ p.toList := by
    intro u p hp
    obtain ⟨source, -, rfl⟩ := mem_map.mp hp
    exact ⟨(weightEntry_word u source).1, (weightEntry_word u source).2.1⟩
  have hall : ∀ source, source ∈ sortedSources := by
    intro source
    cases source <;> decide
  rw [retrievalWeightSignature, retrievalWeightSignature, joinText_comma_inj (hword v) (hword w),
    map_inj_left]
  simp only [weightEntry_inj, hall, forall_const]

theorem eq_blank_of_mem_squeezeSpaces {inside : Bool} {l : List Char}
    (h : c ∈ squeezeSpaces inside l) (hc : isSpace c = true) : c = ' ' := by
  induction l generalizing inside with
  | nil => cases h
  | cons d l ih =>
    rw [squeezeSpaces] at h
    split at h
    · split at h
      · exact ih h
      · rcases mem_cons.mp h with rfl | h
        · rfl
        · exact ih h
    · rename_i hd
      rcases mem_cons.mp h with rfl | h
      · exact absurd hc hd
      · exact ih h

theorem newline_notMem_keyQuery (env : RetrievalEnv) (query : String) : '\n' ∉ keyQuery env query :=
  fun h => absurd (eq_blank_of_mem_squeezeSpaces h (by decide)) (by decide)

/-! ### Equal keys -/

variable {env : RetrievalEnv}

structure KeyAgree (env : RetrievalEnv) (a b : SearchArguments) : Prop where
  mode : a.mode = b.mode
  limit : a.limit = b.limit
  filters : keyLines a.project ++ keyLines a.topic = keyLines b.project ++ keyLines b.topic
  sources : a.sources = b.sources
  weights : ∀ source, roundedWeight (a.weights source) = roundedWeight (b.weights source)
  learning : a.learning = b.learning
  positive : a.positive = b.positive
  negative : a.negative = b.negative
  query : keyQuery env a.query = keyQuery env b.query

theorem flatMap_pathwayParts (a : SearchArguments) :
    (pathwayParts env a).flatMap keyLines =
      [a.mode.text.toList, (toString a.limit).toList] ++
        ((keyLines a.project ++ keyLines a.topic) ++
          ([joinText "," (a.sources.map RetrievalSource.text), retrievalWeightSignature a.weights,
            if a.learning then "True" else "False", joinText "," a.positive.sort,
            joinText "," a.negative.sort, String.ofList (keyQuery env a.query)].map
              String.toList)) := by
  have hmode : '\n' ∉ a.mode.text.toList := by
    cases a.mode <;> decide
  have hlimit := newline_notMem_toString a.limit
  have hsources : '\n' ∉ (joinText "," (a.sources.map RetrievalSource.text)).toList := by
    refine newline_notMem_joinText fun p hp => ?_
    obtain ⟨source, -, rfl⟩ := mem_map.mp hp
    exact source.text_word.2.2
  have hweights : '\n' ∉ (retrievalWeightSignature a.weights).toList := by
    refine newline_notMem_joinText fun p hp => ?_
    obtain ⟨source, -, rfl⟩ := mem_map.mp hp
    exact (weightEntry_word a.weights source).2.2
  have hlearning : '\n' ∉ (if a.learning then "True" else "False" : String).toList := by
    cases a.learning <;> decide
  have hpositive : '\n' ∉ (joinText "," a.positive.sort).toList :=
    newline_notMem_joinText fun p hp =>
      newline_notMem_of_isTerm (a.isTerm_positive p (by simpa using hp))
  have hnegative : '\n' ∉ (joinText "," a.negative.sort).toList :=
    newline_notMem_joinText fun p hp =>
      newline_notMem_of_isTerm (a.isTerm_negative p (by simpa using hp))
  have hquery : '\n' ∉ (String.ofList (keyQuery env a.query)).toList := by
    rw [String.toList_ofList]
    exact newline_notMem_keyQuery env a.query
  simp only [pathwayParts, flatMap_cons, flatMap_nil, keyLines_of_notMem hmode,
    keyLines_of_notMem hlimit, keyLines_of_notMem hsources, keyLines_of_notMem hweights,
    keyLines_of_notMem hlearning, keyLines_of_notMem hpositive, keyLines_of_notMem hnegative,
    keyLines_of_notMem hquery]
  simp

theorem retrievalPathwayCacheKey_eq_iff (hsha : Function.Injective env.sha1)
    (a b : SearchArguments) :
    retrievalPathwayCacheKey env a = retrievalPathwayCacheKey env b ↔ KeyAgree env a b := by
  have hne : ∀ c : SearchArguments, pathwayParts env c ≠ [] := fun c => by simp [pathwayParts]
  rw [retrievalPathwayCacheKey, retrievalPathwayCacheKey, hsha.eq_iff,
    joinText_newline_eq_iff (hne a) (hne b), flatMap_pathwayParts, flatMap_pathwayParts]
  constructor
  · intro h
    obtain ⟨hhead, hrest⟩ := append_inj h
      (by simp only [length_cons, length_nil])
    obtain ⟨hfilters, htail⟩ := append_inj' hrest
      (by simp only [length_map, length_cons, length_nil])
    have htexts := (map_injective_iff.mpr fun _ _ => String.toList_inj.mp) htail
    simp only [List.cons.injEq, String.toList_inj, and_true] at hhead htexts
    obtain ⟨hsources, hweights, hlearning, hpositive, hnegative, hquery⟩ := htexts
    refine ⟨RetrievalMode.text_injective hhead.1, ?_, hfilters, sources_inj.mp hsources,
      retrievalWeightSignature_inj.mp hweights, ?_, ?_, ?_, ?_⟩
    · exact toString_inj hhead.2
    · cases ha : a.learning <;> cases hb : b.learning <;> simp [ha, hb] at hlearning ⊢
    · exact (sort_inj a.isTerm_positive b.isTerm_positive).mp hpositive
    · exact (sort_inj a.isTerm_negative b.isTerm_negative).mp hnegative
    · simpa using congrArg String.toList hquery
  · intro h
    rw [h.mode, h.limit, h.filters, h.sources, retrievalWeightSignature_inj.mpr h.weights,
      h.learning, h.positive, h.negative, h.query]

/-! ### Letta -/

@[ext]
structure LettaArguments where
  query : String
  limit : ℕ
  project : String
  topic : String

def lettaArguments (req : SearchRequest) : LettaArguments :=
  ⟨req.query, max 1 req.limit, req.projectFilter.getD "", req.topicFilter.getD ""⟩

def lettaLines (env : RetrievalEnv) (a : LettaArguments) : List (List Char) :=
  keyLines a.query ++ ([(toString a.limit).toList, (toString (lettaTopK env a.limit)).toList] ++
    (keyLines a.project ++ keyLines a.topic))

theorem lettaRequestKey_eq_iff (hsha : Function.Injective env.sha1) (r r' : SearchRequest) :
    lettaRequestKey env r = lettaRequestKey env r' ↔
      lettaLines env (lettaArguments r) = lettaLines env (lettaArguments r') := by
  have hnumber : ∀ n : ℕ, keyLines (toString n) = [(toString n).toList] :=
    fun n => keyLines_of_notMem (newline_notMem_toString n)
  rw [lettaRequestKey, lettaRequestKey, lettaSearchCacheKey, lettaSearchCacheKey, hsha.eq_iff,
    joinText_newline_eq_iff (by simp) (by simp)]
  simp only [flatMap_cons, flatMap_nil, hnumber, append_cancel_left_eq, lettaLines,
    lettaArguments, append_nil, cons_append, nil_append]

/-! ### The cache of the federated search -/

structure CachedBundle where
  computedFor : SearchArguments
  expiresAt : ℚ

abbrev PathwayCache := Dict String CachedBundle

inductive PathwayOp where
  | ask (req : FederatedRequest) (now : ℚ)
  | computed (req : FederatedRequest) (now : ℚ)

def PathwayOp.request : PathwayOp → FederatedRequest
  | .ask req _ | .computed req _ => req

structure PathwayState where
  cache : PathwayCache
  answers : List (SearchArguments × SearchArguments)

def PathwayState.empty : PathwayState := ⟨.empty, []⟩

variable (env : RetrievalEnv)

def pathwayCacheActive : Bool :=
  cfg.cacheEnabled && decide (0 < cfg.cacheTtlSecs) && decide (0 < cfg.cacheMaxKeys)

def retrievalPathwayCacheGet (key : String) (now : ℚ) (cache : PathwayCache) :
    Option SearchArguments × PathwayCache :=
  if pathwayCacheActive cfg then
    match cache.get? key with
    | none => (none, cache)
    | some entry =>
      if entry.expiresAt ≤ now then (none, cache.erase key)
      else (some entry.computedFor, Dict.moveToEnd cache key)
  else (none, cache)

def retrievalPathwayCacheSet (key : String) (a : SearchArguments) (now : ℚ)
    (cache : PathwayCache) : PathwayCache :=
  if pathwayCacheActive cfg then
    Dict.evict cfg.cacheMaxKeys
      (Dict.moveToEnd (cache.set key ⟨a, now + cfg.cacheTtlSecs⟩) key)
  else cache

def pathwayStep (s : PathwayState) : PathwayOp → PathwayState
  | .ask req now =>
    let a := federatedArguments cfg env.lib.py req
    let found := retrievalPathwayCacheGet cfg (retrievalPathwayCacheKey env a) now s.cache
    ⟨found.2, s.answers ++ (found.1.map fun b => (a, b)).toList⟩
  | .computed req now =>
    let a := federatedArguments cfg env.lib.py req
    ⟨retrievalPathwayCacheSet cfg (retrievalPathwayCacheKey env a) a now s.cache,
      s.answers ++ [(a, a)]⟩

/-- Every entry was computed for a request of `S` that has its key, and every answer for one that
has the key of what was asked. -/
structure KeptByKey (S : Set FederatedRequest) (s : PathwayState) : Prop where
  cache : ∀ key entry, s.cache.get? key = some entry →
    ∃ req ∈ S, entry.computedFor = federatedArguments cfg env.lib.py req ∧
      key = retrievalPathwayCacheKey env entry.computedFor
  answers : ∀ answer ∈ s.answers, ∃ req ∈ S, ∃ req' ∈ S,
    answer.1 = federatedArguments cfg env.lib.py req ∧
      answer.2 = federatedArguments cfg env.lib.py req' ∧
      retrievalPathwayCacheKey env answer.1 = retrievalPathwayCacheKey env answer.2

variable {cfg : PathwayConfig} {env : RetrievalEnv} {S : Set FederatedRequest} {s : PathwayState}

theorem retrievalPathwayCacheGet_spec (key : String) (now : ℚ) (cache : PathwayCache) :
    (∀ key' entry, Dict.get? (retrievalPathwayCacheGet cfg key now cache).2 key' = some entry →
        cache.get? key' = some entry) ∧
      ∀ b, (retrievalPathwayCacheGet cfg key now cache).1 = some b →
        ∃ entry, cache.get? key = some entry ∧ entry.computedFor = b := by
  rw [retrievalPathwayCacheGet]
  split
  · split
    · exact ⟨fun _ _ h => h, fun _ h => by cases h⟩
    · rename_i entry hentry
      split
      · exact ⟨fun _ _ h => (Dict.get?_erase_eq_some.mp h).2, fun _ h => by cases h⟩
      · refine ⟨fun _ _ h => by rwa [Dict.get?_moveToEnd] at h, fun b hb => ?_⟩
        exact ⟨entry, hentry, Option.some.inj hb⟩
  · exact ⟨fun _ _ h => h, fun _ h => by cases h⟩

theorem get?_retrievalPathwayCacheSet {key key' : String} {a : SearchArguments} {now : ℚ}
    {cache : PathwayCache} {entry : CachedBundle}
    (h : Dict.get? (retrievalPathwayCacheSet cfg key a now cache) key' = some entry) :
    key' = key ∧ entry.computedFor = a ∨ cache.get? key' = some entry := by
  rw [retrievalPathwayCacheSet] at h
  split at h
  · have hset := Dict.get?_of_evict h
    rw [Dict.get?_moveToEnd, Dict.get?_set_eq_some] at hset
    rcases hset with ⟨rfl, rfl⟩ | ⟨-, hold⟩
    · exact Or.inl ⟨rfl, rfl⟩
    · exact Or.inr hold
  · exact Or.inr h

theorem KeptByKey.step (hs : KeptByKey cfg env S s) {op : PathwayOp} (hop : op.request ∈ S) :
    KeptByKey cfg env S (pathwayStep cfg env s op) := by
  cases op with
  | ask req now =>
    obtain ⟨hcache, hfound⟩ := @retrievalPathwayCacheGet_spec cfg
      (retrievalPathwayCacheKey env (federatedArguments cfg env.lib.py req)) now s.cache
    refine ⟨fun key entry hget => hs.cache key entry (hcache key entry hget), ?_⟩
    intro answer hanswer
    rcases mem_append.mp hanswer with hold | hnew
    · exact hs.answers answer hold
    · rw [Option.mem_toList, Option.map_eq_some_iff] at hnew
      obtain ⟨b, hb, rfl⟩ := hnew
      obtain ⟨entry, hentry, rfl⟩ := hfound b hb
      obtain ⟨req', hreq', hcomputed, hkey⟩ := hs.cache _ entry hentry
      exact ⟨req, hop, req', hreq', rfl, hcomputed, hkey⟩
  | computed req now =>
    refine ⟨fun key entry hget => ?_, fun answer hanswer => ?_⟩
    · rcases get?_retrievalPathwayCacheSet hget with ⟨rfl, hcomputed⟩ | hold
      · exact ⟨req, hop, hcomputed, by rw [hcomputed]⟩
      · exact hs.cache key entry hold
    · rcases mem_append.mp hanswer with hold | hnew
      · exact hs.answers answer hold
      · rw [mem_singleton.mp hnew]
        exact ⟨req, hop, req, hop, rfl, rfl, rfl⟩

theorem keptByKey_run {ops : List PathwayOp} (hops : ∀ op ∈ ops, op.request ∈ S) :
    KeptByKey cfg env S (run (pathwayStep cfg env) .empty ops) := by
  have hempty : KeptByKey cfg env S .empty := by
    refine ⟨fun key entry h => ?_, fun _ h => (not_mem_nil h).elim⟩
    cases h
  have hall : Along (pathwayStep cfg env) (fun _ op => op.request ∈ S) .empty ops := by
    refine along_iff.mpr ?_
    rintro pre op post rfl
    exact hops op (by simp)
  exact hall.invariant (fun s op hs hop => hs.step hop) hempty

theorem answers_of_same_key (hactive : pathwayCacheActive cfg = true) {req req' : FederatedRequest}
    (hkey : retrievalPathwayCacheKey env (federatedArguments cfg env.lib.py req') =
      retrievalPathwayCacheKey env (federatedArguments cfg env.lib.py req)) :
    (federatedArguments cfg env.lib.py req', federatedArguments cfg env.lib.py req) ∈
      (run (pathwayStep cfg env) .empty [.computed req 0, .ask req' 0]).answers := by
  obtain ⟨⟨-, httl⟩, hkeys⟩ : (cfg.cacheEnabled = true ∧ 0 < cfg.cacheTtlSecs) ∧
      0 < cfg.cacheMaxKeys := by
    simpa [pathwayCacheActive] using hactive
  have hget : ∀ (key : String) (a : SearchArguments),
      Dict.get? (retrievalPathwayCacheSet cfg key a 0 .empty) key =
        some ⟨a, 0 + cfg.cacheTtlSecs⟩ := by
    intro key a
    rw [retrievalPathwayCacheSet, if_pos hactive]
    exact Dict.get?_evict_moveToEnd hkeys.ne' (Dict.get?_set ..)
  have hlive : ¬ cfg.cacheTtlSecs ≤ 0 := not_le.mpr httl
  simp [pathwayStep, PathwayState.empty, retrievalPathwayCacheGet, hactive, hkey, hget, hlive]

theorem own_of_inactive (hoff : pathwayCacheActive cfg = false) (ops : List PathwayOp) :
    ∀ answer ∈ (run (pathwayStep cfg env) .empty ops).answers, answer.1 = answer.2 := by
  have hstep : ∀ (s : PathwayState) (op : PathwayOp),
      (∀ answer ∈ s.answers, answer.1 = answer.2) →
      ∀ answer ∈ (pathwayStep cfg env s op).answers, answer.1 = answer.2 := by
    intro s op hs answer hmem
    cases op with
    | ask req now =>
      have hmem' : answer ∈ s.answers := by
        simpa [pathwayStep, retrievalPathwayCacheGet, hoff] using hmem
      exact hs answer hmem'
    | computed req now =>
      rcases mem_append.mp hmem with hold | hnew
      · exact hs answer hold
      · rw [mem_singleton.mp hnew]
  exact run_invariant hstep (fun _ h => (not_mem_nil h).elim) ops

/-! ### Collisions -/

def Collides (env : RetrievalEnv) (a b : SearchArguments) : Prop :=
  KeyAgree env a b ∧
    (a.query ≠ b.query ∨ a.weights ≠ b.weights ∨ a.project ≠ b.project ∨ a.topic ≠ b.topic)

def LettaCollides (env : RetrievalEnv) (a b : LettaArguments) : Prop :=
  lettaLines env a = lettaLines env b ∧ a ≠ b

variable {a b : SearchArguments}

theorem not_collides_iff : ¬ Collides env a b ↔ (KeyAgree env a b → a = b) := by
  constructor
  · intro h hagree
    have hrest : a.query = b.query ∧ a.weights = b.weights ∧ a.project = b.project ∧
        a.topic = b.topic := by
      by_contra hne
      refine h ⟨hagree, ?_⟩
      tauto
    obtain ⟨hquery, hweights, hproject, htopic⟩ := hrest
    exact SearchArguments.ext hagree.mode hagree.limit hproject htopic hagree.sources hweights
      hagree.learning hagree.positive hagree.negative hquery
  · rintro h ⟨hagree, hne⟩
    obtain rfl := h hagree
    simp at hne

/-- The query in lower case with single blanks, weights with at most four places, and no line break
in the project filter. -/
structure Plain (env : RetrievalEnv) (a : SearchArguments) : Prop where
  query : keyQuery env a.query = a.query.toList
  weights : ∀ source, a.weights source = roundedWeight (a.weights source) / 10 ^ 4
  project : '\n' ∉ a.project.toList

theorem keyLines_injective : Function.Injective keyLines := by
  intro s t h
  rw [← String.toList_inj]
  calc s.toList
      = ['\n'].intercalate (keyLines s) := (intercalate_splitOn '\n').symm
    _ = ['\n'].intercalate (keyLines t) := by rw [h]
    _ = t.toList := intercalate_splitOn '\n'

theorem not_collides_of_plain (ha : Plain env a) (hb : Plain env b) : ¬ Collides env a b := by
  rintro ⟨hagree, hne⟩
  have hquery : a.query = b.query := by
    rw [← String.toList_inj, ← ha.query, ← hb.query, hagree.query]
  have hweights : a.weights = b.weights := by
    funext source
    rw [ha.weights, hb.weights, hagree.weights]
  have hfilters := hagree.filters
  rw [keyLines_of_notMem ha.project, keyLines_of_notMem hb.project, singleton_append,
    singleton_append, List.cons.injEq, String.toList_inj] at hfilters
  have htopic := keyLines_injective hfilters.2
  simp [hquery, hweights, hfilters.1, htopic] at hne

/-- **Search caching.** Every search is answered with what was computed for its own arguments,
exactly if nothing is cached or no two searches collide. -/
theorem searchCache_transparent_iff (cfg : PathwayConfig) (env : RetrievalEnv)
    (hsha : Function.Injective env.sha1) :
    (∀ r r' : FederatedRequest,
      (retrievalPathwayCacheKey env (federatedArguments cfg env.lib.py r) =
          retrievalPathwayCacheKey env (federatedArguments cfg env.lib.py r') →
        federatedArguments cfg env.lib.py r = federatedArguments cfg env.lib.py r') ↔
      ¬ Collides env (federatedArguments cfg env.lib.py r)
          (federatedArguments cfg env.lib.py r')) ∧
    (∀ r r' : SearchRequest,
      (lettaRequestKey env r = lettaRequestKey env r' → lettaArguments r = lettaArguments r') ↔
      ¬ LettaCollides env (lettaArguments r) (lettaArguments r')) ∧
    ∀ S : Set FederatedRequest,
      (∀ ops : List PathwayOp, (∀ op ∈ ops, op.request ∈ S) →
        ∀ answer ∈ (run (pathwayStep cfg env) .empty ops).answers, answer.1 = answer.2) ↔
      pathwayCacheActive cfg = false ∨ ∀ r ∈ S, ∀ r' ∈ S,
        ¬ Collides env (federatedArguments cfg env.lib.py r)
          (federatedArguments cfg env.lib.py r') := by
  refine ⟨fun r r' => ?_, fun r r' => ?_, fun S => ⟨fun h => ?_, fun h ops hops answer hmem => ?_⟩⟩
  · rw [retrievalPathwayCacheKey_eq_iff hsha, not_collides_iff]
  · rw [lettaRequestKey_eq_iff hsha, LettaCollides]
    tauto
  · by_contra hnot
    rw [not_or, Bool.not_eq_false] at hnot
    obtain ⟨hactive, hcollide⟩ := hnot
    refine hcollide fun r hr r' hr' hclash => ?_
    -- the second request is answered with what was computed for the first
    have hkey := (retrievalPathwayCacheKey_eq_iff hsha _ _).mpr hclash.1
    have hops : ∀ op ∈ [PathwayOp.computed r' 0, .ask r 0], op.request ∈ S := by
      simp [PathwayOp.request, hr, hr']
    have hsame := h _ hops _ (answers_of_same_key hactive hkey)
    exact not_collides_iff.mpr (fun _ => hsame) hclash
  · obtain ⟨r, hr, r', hr', hasked, hcomputed, hkey⟩ := (keptByKey_run hops).answers answer hmem
    rcases h with hoff | hnone
    · exact own_of_inactive hoff ops answer hmem
    · rw [retrievalPathwayCacheKey_eq_iff hsha, hasked, hcomputed] at hkey
      rw [hasked, hcomputed]
      exact not_collides_iff.mp (hnone r hr r' hr') hkey

def notesSearch : FederatedRequest := { query := "notes", limit := 5, projectFilter := some "a" }

theorem searchCache_transparent_iff_notes :
    Function.Injective RetrievalEnv.plain.sha1 ∧
    (retrievalPathwayCacheKey .plain (federatedArguments .default .ascii notesSearch) =
        retrievalPathwayCacheKey .plain
          (federatedArguments .default .ascii { notesSearch with projectFilter := some "b" }) →
      federatedArguments .default .ascii notesSearch =
        federatedArguments .default .ascii { notesSearch with projectFilter := some "b" }) := by
  have hquery : keyQuery .plain notesSearch.query = notesSearch.query.toList := by decide
  have hweights : ∀ source, defaultRetrievalSourceWeights source =
      roundedWeight (defaultRetrievalSourceWeights source) / 10 ^ 4 := by
    intro source
    cases source <;> decide +kernel
  have hplain : ∀ p : String, '\n' ∉ p.toList →
      Plain .plain (federatedArguments .default .ascii
        { notesSearch with projectFilter := some p }) :=
    fun _ hp => ⟨hquery, hweights, hp⟩
  exact ⟨fun _ _ h => h, ((searchCache_transparent_iff .default .plain fun _ _ h => h).1 _ _).mpr
    (not_collides_of_plain (hplain "a" (by decide)) (hplain "b" (by decide)))⟩

def twoLineTopic : FederatedRequest :=
  { query := "notes", limit := 5, projectFilter := some "a", topicFilter := some "b\nc" }

def twoLineProject : FederatedRequest :=
  { query := "notes", limit := 5, projectFilter := some "a\nb", topicFilter := some "c" }

def heavierLetta : FederatedRequest :=
  { notesSearch with sourceWeights := [("letta", some (.finite (90004 / 100000)))] }

/-- Searches of different projects have one key; so have different weights, and queries that differ
in case. -/
theorem projects_share_key :
    (retrievalPathwayCacheKey .plain (federatedArguments .default .ascii twoLineTopic) =
        retrievalPathwayCacheKey .plain (federatedArguments .default .ascii twoLineProject) ∧
      twoLineTopic.projectFilter ≠ twoLineProject.projectFilter) ∧
    (lettaRequestKey .plain ⟨"notes", 5, some "a", some "b\nc", none, 0⟩ =
        lettaRequestKey .plain ⟨"notes", 5, some "a\nb", some "c", none, 0⟩) ∧
    (retrievalPathwayCacheKey .plain (federatedArguments .default .ascii notesSearch) =
        retrievalPathwayCacheKey .plain (federatedArguments .default .ascii heavierLetta) ∧
      (federatedArguments .default .ascii notesSearch).weights .letta ≠
        (federatedArguments .default .ascii heavierLetta).weights .letta) ∧
    retrievalPathwayCacheKey .plain (federatedArguments .default .ascii notesSearch) =
      retrievalPathwayCacheKey .plain
        (federatedArguments .default .ascii { notesSearch with query := "Notes" }) := by
  have hid : Function.Injective RetrievalEnv.plain.sha1 := fun _ _ h => h
  refine ⟨⟨?_, by decide⟩, ?_, ⟨?_, by decide +kernel⟩, ?_⟩
  · rw [retrievalPathwayCacheKey_eq_iff hid]
    exact ⟨rfl, rfl, by decide, rfl, fun _ => rfl, rfl, rfl, rfl, rfl⟩
  · rw [lettaRequestKey_eq_iff hid]
    decide +kernel
  · rw [retrievalPathwayCacheKey_eq_iff hid]
    refine ⟨rfl, rfl, rfl, rfl, fun source => ?_, rfl, rfl, rfl, rfl⟩
    cases source <;> decide +kernel
  · rw [retrievalPathwayCacheKey_eq_iff hid]
    exact ⟨rfl, rfl, rfl, rfl, fun _ => rfl, rfl, rfl, rfl, by decide⟩

end ContextLattice
