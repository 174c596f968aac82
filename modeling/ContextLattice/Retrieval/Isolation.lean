import Mathlib.Data.List.ReduceOption
import ContextLattice.Retrieval.Sources

/-!
# Project isolation

Four sources compare the project filter with the stored project. Letta goes by the tag and the first
line of a passage, the memory bank, when a read fails, by a cache, and Letta's answers are cached
themselves.
-/

namespace ContextLattice

open Foundation List

variable {env : RetrievalEnv} {st : Stores} {caches : Caches} {req : SearchRequest} {p : String}

def Isolated (env : RetrievalEnv) (st : Stores) (caches : Caches) (now : ℚ) (p : String) : Prop :=
  ∀ answers req, req.projectFilter = some p → now ≤ req.now →
    ∀ source, ∀ hit ∈ sourceHits env st caches answers req source, hit.origin = some p

/-! ### Sources that compare the stored project -/

section

variable (hp : p ≠ "") (hfilter : req.projectFilter = some p)
include hp hfilter

theorem qdrant_origin {answer : QdrantAnswer} {hit : Hit}
    (h : hit ∈ (searchQdrant st answer req).getD []) : hit.origin = some p := by
  rw [searchQdrant] at h
  cases hfound : answer.select (st.points.filter (qdrantAccepts req)) with
  | none => simp [hfound] at h
  | some found =>
    rw [hfound] at h
    obtain ⟨point, hpoint, rfl⟩ := mem_map.mp h
    have hmem := answer.select_mem hfound point (mem_of_mem_take hpoint)
    have haccept := (mem_filter.mp hmem).2
    rw [qdrantAccepts, hfilter, given_some hp, Bool.and_eq_true] at haccept
    simpa using haccept.1

theorem mongo_origin {up : Bool} {hit : Hit} (h : hit ∈ searchMongoRaw env st up req) :
    hit.origin = some p := by
  rw [searchMongoRaw] at h
  split at h
  · obtain ⟨doc, hdoc, hhit⟩ := mem_filterMap.mp (mem_of_mem_ranked h)
    have hmem := (mem_insertionSort _).mp (mem_of_mem_take hdoc)
    have haccept := (mem_filter.mp hmem).2
    rw [mongoAccepts, hfilter, given_some hp, Bool.and_eq_true] at haccept
    rw [mongoHit] at hhit
    split at hhit
    · exact absurd hhit nofun
    · rw [← Option.some.inj hhit]
      simpa using haccept.1
  · exact absurd h not_mem_nil

theorem mindsdb_origin {up : Bool} {hit : Hit} (h : hit ∈ searchMindsdbMemory env st up req) :
    hit.origin = some p := by
  rw [searchMindsdbMemory] at h
  split at h
  · obtain ⟨row, hrow, hhit⟩ := mem_filterMap.mp (mem_of_mem_ranked h)
    have hmem := (mem_insertionSort _).mp (mem_of_mem_take hrow)
    have haccept := (mem_filter.mp hmem).2
    rw [mindsdbAccepts, Bool.and_eq_true, Bool.and_eq_true, mindsdbProjectAccepts, hfilter,
      given_some hp] at haccept
    have hproject : row.project = p := by
      -- the literal in the statement reads back as the filter
      simpa [String.toList_inj] using haccept.1.1
    rw [mindsdbHit] at hhit
    split at hhit
    · exact absurd hhit nofun
    · rw [← Option.some.inj hhit, ← hproject]
  · exact absurd h not_mem_nil

theorem rollup_origin {hits : List Hit} (hok : searchTopicRollups env st req = .ok hits)
    {hit : Hit} (h : hit ∈ hits) : hit.origin = some p := by
  rw [searchTopicRollups, hfilter, given_some hp] at hok
  cases hrows : (st.rollups.filter fun q => (some p).all (q.1 = ·)).mapM
      fun q => q.2.mapM (rollupHit env req q.1) with
  | error e => rw [hrows] at hok; exact absurd hok nofun
  | ok rows =>
    rw [hrows] at hok
    rw [← Except.ok.inj hok] at h
    obtain ⟨topicHits, htopics, hmem⟩ := mem_flatMap.mp (mem_of_mem_ranked h)
    obtain ⟨⟨project, topics⟩, hproject, hloop⟩ := (mem_mapM_iff hrows).mp htopics
    obtain rfl : project = p := by simpa using (mem_filter.mp hproject).2
    obtain ⟨topic, -, htopic⟩ := (mem_mapM_iff hloop).mp (reduceOption_mem_iff.mp hmem)
    rw [rollupHit] at htopic
    cases hpath : normalizeTopicPath env.lib topic.path with
    | error e => rw [hpath] at htopic; exact absurd htopic nofun
    | ok path =>
      rw [hpath] at htopic
      have hrow : rollupRow env req project path topic = some hit := Except.ok.inj htopic
      rw [rollupRow] at hrow
      split at hrow
      · exact absurd hrow nofun
      · rw [← Option.some.inj hrow]

end

/-! ### The memory bank -/

def CacheGrew (cache cache' : ReadCache) (p : String) : Prop :=
  ∀ key entry, cache'.get? key = some entry →
    cache.get? key = some entry ∨ entry.text.project = p

variable {now : ℚ} {text : FileText} {c : Candidate} {hit : Hit} {answer : BankAnswer}

theorem Serves.of_grew {cache cache' : ReadCache} (hgrew : CacheGrew cache cache' p)
    {project file : String}
    (h : Serves env cache' project file now text) :
    text.project = p ∨ Serves env cache project file now text := by
  obtain ⟨hopen, hkeys, key, entry, hkey, hentry, husable, rfl⟩ := h
  rcases hgrew key entry hentry with hold | hown
  · exact Or.inr ⟨hopen, hkeys, key, entry, hkey, hold, husable, rfl⟩
  · exact Or.inl hown

theorem bankHit_eq_some (h : bankHit env req c text = some hit) :
    text.content ≠ "" ∧ hit.origin = some text.project := by
  rw [bankHit] at h
  split at h
  · exact absurd h nofun
  · rename_i hrow
    rw [← Option.some.inj h]
    exact ⟨fun hempty => hrow (Or.inl hempty), rfl⟩

theorem exists_bankHit (env : RetrievalEnv) (req : SearchRequest)
    (hscore : 0 < c.nameScore) (hne : text.content ≠ "") :
    ∃ hit, bankHit env req c text = some hit ∧ hit.origin = some text.project := by
  rw [bankHit, if_neg]
  · exact ⟨_, rfl, rfl⟩
  · rintro (hempty | hlow)
    · exact hne hempty
    · exact absurd (lt_of_lt_of_le hscore (le_max_left _ _)) (not_lt.mpr hlow)

theorem inspect_spec (env : RetrievalEnv) (st : Stores) (req : SearchRequest) (answer : BankAnswer)
    (c : Candidate) (cache : ReadCache) :
    (∀ hit, (inspect env st answer req c cache).1 = some hit → hit.origin = some c.project ∨
      ∃ text, Serves env cache c.project c.file req.now text ∧ text.content ≠ "" ∧
        hit.origin = some text.project) ∧
      CacheGrew cache (inspect env st answer req c cache).2 c.project := by
  rw [inspect]
  split
  · refine ⟨fun hit hhit => ?_, fun _ _ hentry => .inl hentry⟩
    cases hhit
  have hspec : ReadSpec env c.project c.file req.now cache _ :=
    readProjectFile_spec (readRemote st answer c.project c.file) false none c.project c.file req.now
      cache
  constructor
  · intro hit hhit
    obtain ⟨text, htext, hrow⟩ := Option.bind_eq_some_iff.mp hhit
    obtain ⟨hne, horigin⟩ := bankHit_eq_some hrow
    rcases hspec.text text (toOption_eq_some.mp htext) with hown | hserved
    · exact Or.inl (by rw [horigin, hown.1])
    · exact Or.inr ⟨text, hserved, hne, horigin⟩
  · exact fun key entry hentry => (hspec.cache key entry hentry).imp_right fun h => h.2.1

theorem inspectAll_spec (answer : BankAnswer) {cs : List Candidate}
    (hcs : ∀ c ∈ cs, c.project = p) (cache : ReadCache) :
    ∀ hit ∈ (inspectAll env st answer req cs cache).1, hit.origin = some p ∨
      ∃ c ∈ cs, ∃ text, Serves env cache p c.file req.now text ∧ text.content ≠ "" ∧
        hit.origin = some text.project := by
  induction cs generalizing cache with
  | nil => exact fun _ h => absurd h not_mem_nil
  | cons c cs ih =>
    intro hit hmem
    obtain ⟨hrow, hgrew⟩ := inspect_spec env st req answer c cache
    have hproject : c.project = p := hcs c mem_cons_self
    rw [hproject] at hgrew
    rcases mem_append.mp hmem with hfirst | hrest
    · rcases hrow hit (Option.mem_toList.mp hfirst) with hown | ⟨text, hserved, hne, horigin⟩
      · exact Or.inl (by rw [hown, hproject])
      · rw [hproject] at hserved
        exact Or.inr ⟨c, mem_cons_self, text, hserved, hne, horigin⟩
    · rcases ih (fun c' hc' => hcs c' (mem_cons_of_mem c hc')) _ hit hrest with
        hown | ⟨c', hc', text, hserved, hne, horigin⟩
      · exact Or.inl hown
      · rcases Serves.of_grew hgrew hserved with hown | hserved
        · exact Or.inl (by rw [horigin, hown])
        · exact Or.inr ⟨c', mem_cons_of_mem c hc', text, hserved, hne, horigin⟩

theorem mem_bankCandidates (hp : p ≠ "") (hfilter : req.projectFilter = some p) (h : c ∈
    bankCandidates env st answer req) : c.project = p ∧ c.file ∈ scannedFiles env st answer req p ∧
    0 < nameScore env req p c.file := by
  obtain ⟨hmem, hscore⟩ := mem_filter.mp h
  obtain ⟨project, hproject, hfile⟩ := mem_flatMap.mp (mem_of_mem_take hmem)
  rw [scannedProjects, hfilter, given_some hp] at hproject
  obtain rfl : project = p := mem_singleton.mp (mem_of_mem_take hproject)
  obtain ⟨file, hscanned, rfl⟩ := mem_map.mp hfile
  exact ⟨rfl, hscanned, by simpa using hscore⟩

def ReadsKept (env : RetrievalEnv) (st : Stores) (cache : ReadCache) (now : ℚ) (p : String) :
    Prop :=
  ∀ answer req, req.projectFilter = some p → now ≤ req.now →
    queryTerms env.lib.py req.query 8 ≠ [] →
    ∀ file ∈ scannedFiles env st answer req p, 0 < nameScore env req p file →
      ∀ text, Serves env cache p file req.now text → text.content ≠ "" → text.project = p

theorem bank_origin (hp : p ≠ "") (hfilter : req.projectFilter = some p) (hnow : now ≤ req.now)
    (hkept : ReadsKept env st caches.read now p) (h : hit ∈ (searchMemoryBankLexical env st answer
    req caches.read).1) : hit.origin = some p := by
  rw [searchMemoryBankLexical] at h
  split at h
  · exact absurd h not_mem_nil
  · rename_i hterms
    have hcandidate : ∀ c ∈ answer.finished (ranked Candidate.nameScore (scanLimit env req)
        (bankCandidates env st answer req)), c ∈ bankCandidates env st answer req :=
      fun c hc => mem_of_mem_ranked (answer.finished_mem _ c hc)
    rcases inspectAll_spec answer
      (fun c hc => (mem_bankCandidates hp hfilter (hcandidate c hc)).1) caches.read hit
      (mem_of_mem_ranked h) with hown | ⟨c, hc, text, hserved, hne, horigin⟩
    · exact hown
    · obtain ⟨-, hscanned, hscore⟩ := mem_bankCandidates hp hfilter (hcandidate c hc)
      rw [horigin, hkept answer req hfilter hnow hterms c.file hscanned hscore text hserved hne]

def QdrantAnswer.silent : QdrantAnswer := ⟨fun _ => none, nofun⟩

def LettaAnswer.silent : LettaAnswer := ⟨false, fun _ => none, nofun⟩

def BankAnswer.silent : BankAnswer where
  projects := []
  lists _ := false
  qdrantLists := false
  namesSeen := 0
  fault _ _ := none
  missing := .internal
  finished _ := []
  finished_mem := nofun

/-- The bank is unavailable for a moment. -/
def unavailable : HttpError := ⟨503, "memory_bank_read failed: temporarily unavailable"⟩

def BankAnswer.onlyUnavailable (answer : BankAnswer) (names : ℕ) (c : Candidate) : BankAnswer :=
  { answer with
    namesSeen := names
    fault := fun _ _ => some (.http unavailable)
    finished := fun cs => if c ∈ cs then [c] else []
    finished_mem := by
      intro cs c' hc'
      split at hc'
      · rename_i hc
        rwa [mem_singleton.mp hc']
      · exact absurd hc' not_mem_nil }

theorem mem_bankCandidates_of_scanned (hp : p ≠ "") (hfilter : req.projectFilter = some p) {file :
    String} (hscanned : file ∈ scannedFiles env st answer req p) (hscore : 0 < nameScore env req p
    file) (hseen : (scannedFiles env st answer req p).length ≤ answer.namesSeen) : (⟨nameScore env
    req p file, p, file⟩ : Candidate) ∈ bankCandidates env st answer req := by
  have hprojects : scannedProjects env answer req = [p] := by
    rw [scannedProjects, hfilter, given_some hp]
    exact take_of_length_le (by simp [projectCap])
  rw [bankCandidates, hprojects]
  refine mem_filter.mpr ⟨?_, by simpa using hscore⟩
  rw [take_of_length_le (by simpa using hseen)]
  exact mem_flatMap.mpr ⟨p, mem_singleton_self p, mem_map_of_mem hscanned⟩

theorem readsKept_of_isolated (hp : p ≠ "") (h : Isolated env st caches now p) :
    ReadsKept env st caches.read now p := by
  intro answer req hfilter hnow hterms file hscanned hscore text hserved hne
  set c : Candidate := ⟨nameScore env req p file, p, file⟩
  set answer' := answer.onlyUnavailable (scannedFiles env st answer req p).length c
  -- the limit is large enough for every candidate to be selected
  set req' : SearchRequest := { req with limit := (bankCandidates env st answer' req).length + 1 }
  have hc : c ∈ bankCandidates env st answer' req' :=
    mem_bankCandidates_of_scanned hp hfilter hscanned hscore le_rfl
  have hselected : c ∈ ranked Candidate.nameScore (scanLimit env req')
      (bankCandidates env st answer' req') := by
    refine (mem_ranked_iff ?_).mpr hc
    have hlen : (bankCandidates env st answer' req').length + 1 = req'.limit := rfl
    have hscan : 2 * req'.limit ≤ scanLimit env req' := by simp [scanLimit]
    omega
  have hopen : failsOpen env (.http unavailable) = true := by
    simp [failsOpen, hserved.1, isTransientMemoryReadHttpError, unavailable]
  obtain ⟨_, hread, -⟩ := readProjectFile_of_serves hopen hserved false none
  obtain ⟨hit, hrow, horigin⟩ := exists_bankHit env req' (c := c) hscore hne
  have hfirst : (inspect env st answer' req' c caches.read).1 = some hit := by
    have hfault : readRemote st answer' c.project c.file = .error (.http unavailable) := rfl
    exact Option.bind_eq_some_iff.mpr ⟨text, by rw [hread]; rfl, hrow⟩
  have hmem : hit ∈ (searchMemoryBankLexical env st answer' req' caches.read).1 := by
    have hfinished : answer'.finished (ranked Candidate.nameScore (scanLimit env req')
        (bankCandidates env st answer' req')) = [c] := if_pos hselected
    have hall : (inspectAll env st answer' req' [c] caches.read).1 = [hit] := by
      simp [inspectAll, hfirst]
    rw [searchMemoryBankLexical, if_neg hterms]
    simp only [hfinished, hall]
    exact (mem_ranked_iff (Nat.succ_le_succ (Nat.zero_le _))).mpr (mem_singleton_self hit)
  have hisolated :=
    h ⟨.silent, answer', false, false, .silent⟩ req' hfilter hnow .memoryBank hit hmem
  rw [horigin] at hisolated
  exact Option.some.inj hisolated

/-! ### Letta -/

/-- The passages with the tag of `p` that a search takes for passages of `p` were stored for `p`; a
passage no query finds is left out. -/
def PassagesKept (env : RetrievalEnv) (st : Stores) (p : String) : Prop :=
  ∀ passage ∈ st.passages, lettaProjectTag p ∈ passage.tags → passage.Names env p →
    (∃ query, 0 < textMatchScore env.lib.py query (lettaHaystack env p passage)) →
      passage.project = some p

def AnswersKept (env : RetrievalEnv) (cache : LettaCache) (now : ℚ) (p : String) : Prop :=
  lettaCacheActive env = true → ∀ query limit topic entry, 1 ≤ limit →
    cache.get? (lettaSearchCacheKey env query limit (lettaTopK env limit) (some p) topic) =
      some entry → now < entry.expiresAt → ∀ hit ∈ entry.hits.take limit, hit.origin = some p

theorem lettaSearchCacheGet_some {key : String} {cache : LettaCache} {hits : List Hit}
    (h : (lettaSearchCacheGet env key now cache).1 = some hits) :
    lettaCacheActive env = true ∧
      ∃ entry, cache.get? key = some entry ∧ now < entry.expiresAt ∧ entry.hits = hits := by
  rw [lettaSearchCacheGet] at h
  split at h
  · rename_i hactive
    split at h
    · cases h
    · rename_i entry hentry
      split at h
      · cases h
      · rename_i hlive
        exact ⟨hactive, entry, hentry, not_le.mp hlive, Option.some.inj h⟩
  · cases h

theorem letta_hit_cases (hp : p ≠ "") (hfilter : req.projectFilter = some p) {answer : LettaAnswer}
    (h : hit ∈ (searchLettaArchival env st.passages answer req caches.letta).1) : lettaConfigEnabled
    env = true ∧ ((∃ hits, (lettaSearchCacheGet env (lettaRequestKey env req) req.now
    caches.letta).1 = some hits ∧ hit ∈ hits.take (max 1 req.limit)) ∨ ∃ passage ∈ st.passages,
    lettaProjectTag p ∈ passage.tags ∧ passage.Names env p ∧ 0 < textMatchScore env.lib.py req.query
    (lettaHaystack env p passage) ∧ hit.origin = passage.project) := by
  rw [searchLettaArchival] at h
  split at h
  · rename_i hon
    rw [Bool.and_eq_true] at hon
    refine ⟨hon.1, ?_⟩
    dsimp only at h
    split at h
    · rename_i hits hget
      exact Or.inl ⟨hits, hget, h⟩
    · split at h
      · exact absurd h not_mem_nil
      · rename_i results hselect
        obtain ⟨passage, hresult, hhit⟩ := mem_filterMap.mp (mem_of_mem_ranked h)
        have htagged := answer.select_mem hselect passage hresult
        rw [taggedPassages, hfilter, given_some hp] at htagged
        obtain ⟨hmem, htag⟩ := mem_filter.mp htagged
        obtain ⟨horigin, hnames, hscore⟩ := lettaHit_origin hp hfilter hhit
        exact Or.inr ⟨passage, hmem, of_decide_eq_true htag, hnames, hscore, horigin⟩
  · exact absurd h not_mem_nil

theorem letta_origin (hp : p ≠ "") (hfilter : req.projectFilter = some p)
    (hnow : now ≤ req.now)
    (hkept : lettaConfigEnabled env = true →
      PassagesKept env st p ∧ AnswersKept env caches.letta now p)
    {answer : LettaAnswer}
    (h : hit ∈ (searchLettaArchival env st.passages answer req caches.letta).1) :
    hit.origin = some p := by
  obtain ⟨hon, hits | hpassage⟩ := letta_hit_cases hp hfilter h
  · obtain ⟨hits, hget, hmem⟩ := hits
    obtain ⟨hactive, entry, hentry, hlive, rfl⟩ := lettaSearchCacheGet_some hget
    rw [lettaRequestKey, hfilter] at hentry
    exact (hkept hon).2 hactive req.query _ req.topicFilter entry (le_max_left 1 _) hentry
      (hnow.trans_lt hlive) hit hmem
  · obtain ⟨passage, hmem, htag, hnames, hscore, horigin⟩ := hpassage
    rw [horigin]
    exact (hkept hon).1 passage hmem htag hnames ⟨req.query, hscore⟩

theorem exists_expired (cache : LettaCache) (now : ℚ) :
    ∃ later, now ≤ later ∧ ∀ entry ∈ cache.rows, entry.2.expiresAt ≤ later := by
  generalize cache.rows = rows
  induction rows with
  | nil => exact ⟨now, le_rfl, fun _ h => absurd h not_mem_nil⟩
  | cons entry rows ih =>
    obtain ⟨later, hnow, hrows⟩ := ih
    refine ⟨max later entry.2.expiresAt, hnow.trans (le_max_left _ _), fun e he => ?_⟩
    rcases mem_cons.mp he with rfl | he
    · exact le_max_right _ _
    · exact (hrows e he).trans (le_max_left _ _)

def LettaAnswer.only (passage : LettaPassage) : LettaAnswer where
  agentResolved := true
  select ps := some (if passage ∈ ps then [passage] else [])
  select_mem := by
    intro ps found hfound p hp
    rw [← Option.some.inj hfound] at hp
    split at hp
    · rename_i hmem
      rwa [mem_singleton.mp hp]
    · exact absurd hp not_mem_nil

theorem passagesKept_of_isolated (hp : p ≠ "") (hon : lettaConfigEnabled env = true)
    (h : Isolated env st caches now p) : PassagesKept env st p := by
  rintro passage hmem htag hnames ⟨query, hscore⟩
  obtain ⟨later, hnow, hexpired⟩ := exists_expired caches.letta now
  set req : SearchRequest := { query := query, limit := 1, projectFilter := some p, now := later }
  obtain ⟨hit, hhit, horigin⟩ : ∃ hit, lettaHit env req passage = some hit ∧
      hit.origin = passage.project := by
    rw [lettaHit, (lettaProject_eq_iff passage).mpr hnames, if_neg]
    · exact ⟨_, rfl, rfl⟩
    · simp [req, hp, lettaTopicAccepts, hscore]
  have htagged : passage ∈ taggedPassages req.projectFilter st.passages := by
    rw [taggedPassages, given_some hp]
    exact mem_filter.mpr ⟨hmem, by simpa using htag⟩
  have hselect : (LettaAnswer.only passage).select (taggedPassages req.projectFilter st.passages) =
      some [passage] := congrArg some (if_pos htagged)
  have hmiss : (lettaSearchCacheGet env (lettaRequestKey env req) later caches.letta).1 = none := by
    rw [Option.eq_none_iff_forall_ne_some]
    intro hits hsome
    obtain ⟨-, entry, hentry, hlive, -⟩ := lettaSearchCacheGet_some hsome
    exact absurd (hexpired _ (Dict.get?_eq_some.mp hentry)) (not_le.mpr hlive)
  have hfound : hit ∈ (searchLettaArchival env st.passages (.only passage) req caches.letta).1 := by
    rw [searchLettaArchival, hon, if_pos (by rfl)]
    simp only [req, hmiss, hselect]
    rw [lettaSearchRowsFromPayload, filterMap_cons, hhit]
    exact (mem_ranked_iff le_rfl).mpr (mem_singleton_self hit)
  have hisolated := h ⟨.silent, .silent, false, false, .only passage⟩ req rfl hnow .letta hit hfound
  rw [← horigin, hisolated]

theorem answersKept_of_isolated (hon : lettaConfigEnabled env = true)
    (h : Isolated env st caches now p) : AnswersKept env caches.letta now p := by
  intro hactive query limit topic entry hlimit hentry hlive hit hmem
  set req : SearchRequest :=
    { query := query, limit := limit, projectFilter := some p, topicFilter := topic, now := now }
  have hkey : lettaRequestKey env req =
      lettaSearchCacheKey env query limit (lettaTopK env limit) (some p) topic := by
    rw [lettaRequestKey, max_eq_right hlimit]
  have hget : (lettaSearchCacheGet env (lettaRequestKey env req) now caches.letta).1 =
      some entry.hits := by
    rw [lettaSearchCacheGet, if_pos hactive, hkey, hentry]
    exact congrArg Prod.fst (if_neg (not_le.mpr hlive))
  have hfound : hit ∈ (searchLettaArchival env st.passages ⟨true, fun _ => none, nofun⟩ req
      caches.letta).1 := by
    rw [searchLettaArchival, hon, if_pos (by rfl)]
    have hnow : req.now = now := rfl
    simp only [hnow, hget]
    rwa [max_eq_right hlimit]
  exact h ⟨.silent, .silent, false, false, ⟨true, fun _ => none, nofun⟩⟩ req rfl le_rfl .letta hit
    hfound

/-! ### Isolation -/

/-- **Project isolation.** The searches for `p` return rows of `p` only, exactly if the cached
texts, the tagged passages and the cached answers for `p` are of `p`. -/
theorem isolated_iff (env : RetrievalEnv) (st : Stores) (caches : Caches) (now : ℚ) {p : String}
    (hp : p ≠ "") : Isolated env st caches now p ↔
      ReadsKept env st caches.read now p ∧ (lettaConfigEnabled env = true →
        PassagesKept env st p ∧ AnswersKept env caches.letta now p) := by
  constructor
  · intro h
    exact ⟨readsKept_of_isolated hp h,
      fun hon => ⟨passagesKept_of_isolated hp hon h, answersKept_of_isolated hon h⟩⟩
  · rintro ⟨hreads, hletta⟩ answers req hfilter hnow source hit hhit
    cases source with
    | qdrant => exact qdrant_origin hp hfilter hhit
    | mongoRaw => exact mongo_origin hp hfilter hhit
    | mindsdb => exact mindsdb_origin hp hfilter hhit
    | topicRollups =>
      rw [sourceHits] at hhit
      split at hhit
      · rename_i hits hok
        exact rollup_origin hp hfilter hok hhit
      · exact absurd hhit not_mem_nil
    | letta => exact letta_origin hp hfilter hnow hletta hhit
    | memoryBank => exact bank_origin hp hfilter hnow hreads hhit

def notePassage (project : String) : LettaPassage :=
  pushToLetta .plain "rotate the keys" ⟨project, "a.md", "root", "memory_write", none, none, none,
    none⟩ "p1" "2025-01-01T12:00:00Z"

theorem isolated_iff_docs :
    "docs" ≠ "" ∧ Isolated .plain { passages := [notePassage "docs"] } .empty 0 "docs" := by
  refine ⟨by decide, (isolated_iff _ _ _ _ (by decide)).mpr ⟨?_, fun _ => ⟨?_, ?_⟩⟩⟩
  · rintro answer req - - - file - - text ⟨-, -, key, entry, -, hentry, -⟩
    exact absurd hentry nofun
  · rintro passage hmem - - -
    rw [mem_singleton.mp hmem]
    rfl
  · rintro - query limit topic entry - hentry
    exact absurd hentry nofun

def docsSearch : SearchRequest where
  query := "rotate"
  limit := 10
  projectFilter := some "docs"
  now := 100

def BankAnswer.failing : BankAnswer where
  projects := []
  lists _ := true
  qdrantLists := false
  namesSeen := 1
  fault _ _ := some (.http unavailable)
  missing := .internal
  finished cs := cs
  finished_mem _ _ h := h

def docsRead : ReadCache :=
  (readProjectFile .plain (.ok "the keys of Docs") false none "Docs" "rotate.md" 50 .empty).2

/-- A passage of the project ` docs` is returned as one of `docs`; and while reads fail, the text of
`Docs/rotate.md` is returned for `docs/rotate.md`. -/
theorem other_projects_returned :
    (∃ hit ∈ sourceHits .plain { passages := [notePassage " docs"] } .empty
      ⟨.silent, .silent, false, false, .only (notePassage " docs")⟩ docsSearch .letta,
        hit.row.project = some "docs" ∧ hit.origin = some " docs") ∧
    ∃ hit ∈ sourceHits .plain { files := [⟨"docs", "rotate.md", "the keys of docs"⟩] }
      ⟨docsRead, .empty⟩ ⟨.silent, .failing, false, false, .silent⟩ docsSearch .memoryBank,
        hit.row.project = some "docs" ∧ hit.row.summary = some "the keys of Docs" ∧
          hit.origin = some "Docs" := by
  decide +kernel

end ContextLattice
