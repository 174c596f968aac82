import ContextLattice.Retrieval.Rows
import ContextLattice.Write.Bank

/-!
# Letta archival memory

`push_to_letta` writes the names of a memory into the first line of a **passage** and into its tags;
a search reads them back from the first line. A passage carries the project it was stored for, which
the search does not see.
-/

namespace ContextLattice

open Foundation

/-! ### Passages -/

structure LettaPassage where
  id : Option String
  timestamp : Option String
  content : Option String
  text : Option String := none
  tags : List String
  project : Option String
deriving DecidableEq

def LettaPassage.body (passage : LettaPassage) : String :=
  ((given passage.content).or passage.text).getD ""

structure ParsedPassage where
  project : String
  file : String
  topicPath : String
  summary : String
deriving DecidableEq

variable (env : RetrievalEnv)

def namedOr (s : Option String) : String := (s.filter (· ≠ "-")).getD ""

def parseLettaArchivalContent (text : String) : ParsedPassage :=
  let lines := textLines text
  let header := (lines.headD "").toList
  let labelled := (lines.tail.find? fun line => startswith (env.lib.py.lower line) "summary:").map
    fun line => strip (String.ofList (line.toList.dropWhile (· ≠ ':')).tail)
  { project := namedOr (headerField ['p', 'r', 'o', 'j', 'e', 'c', 't', '='] header)
    file := namedOr (headerField ['f', 'i', 'l', 'e', '='] header)
    topicPath := namedOr (headerField ['t', 'o', 'p', 'i', 'c', '='] header)
    summary := (given labelled).getD (truncate 500 text) }

/-! ### Writing a passage -/

def lettaProjectTag (project : String) : String := "project:" ++ truncate 120 project

def lettaTags (c : LettaContext) : List String :=
  let project := strip c.project
  let file := strip c.file
  (["contextlattice"] ++ (if project = "" then [] else [lettaProjectTag project]) ++
    (if file = "" then [] else ["file:" ++ truncate 180 file])).take 8

def lettaMetadata (c : LettaContext) : List (String × String) :=
  [("source_kind", c.sourceKind)] ++ c.contentHash.toList.map (("content_hash", ·)) ++
    c.rollupFile.toList.map (("rollup_file", ·))

def shortened (n : ℕ) (s : String) : String := if s.length ≤ n then s else truncate n s ++ "..."

def orDash (s : String) : String := if s = "" then "-" else s

def buildLettaArchivalText (summary : String) (c : LettaContext) : String :=
  let header := if c.project = "" ∧ c.file = "" ∧ c.topicPath = "" then [] else
    ["project=" ++ orDash c.project ++ " file=" ++ orDash c.file ++ " topic=" ++ orDash c.topicPath]
  let summaryLine := if summary = "" then [] else ["summary: " ++ shortened 240 summary]
  let snippet := match given c.content with
    | some content =>
      if env.search.lettaArchivalIncludeContent then ["content_snippet: " ++ shortened 220 content]
      else []
    | none => []
  let metadata := ["metadata: " ++ truncate 180 (env.dumps (lettaMetadata c))]
  let text := strip (joinText "\n" (header ++ summaryLine ++ snippet ++ metadata))
  truncate env.search.lettaArchivalMaxChars
    (if text = "" then (if summary = "" then "memory update" else summary) else text)

def pushToLetta (summary : String) (c : LettaContext) (id timestamp : String) : LettaPassage where
  id := some id
  timestamp := some timestamp
  content := some (buildLettaArchivalText env summary c)
  tags := lettaTags c
  project := given (some c.project)

/-! ### Rows of an answer -/

def lettaTopicAccepts (topicFilter : Option String) (topicPath : String) : Bool :=
  topicPath = "" || (given topicFilter).all fun filter => startswith topicPath filter

def lettaHaystack (project : String) (passage : LettaPassage) : String :=
  let parsed := parseLettaArchivalContent env passage.body
  let summary := if parsed.summary = "" then truncate 500 passage.body else parsed.summary
  project ++ "\n" ++ parsed.file ++ "\n" ++ summary ++ "\n" ++ passage.body

def lettaProject (projectFilter : Option String) (passage : LettaPassage) : String :=
  ((given (some (parseLettaArchivalContent env passage.body).project)).or projectFilter).getD ""

def lettaHit (req : SearchRequest) (passage : LettaPassage) : Option Hit :=
  let parsed := parseLettaArchivalContent env passage.body
  let project := lettaProject env req.projectFilter passage
  let summary := if parsed.summary = "" then truncate 500 passage.body else parsed.summary
  let score := textMatchScore env.lib.py req.query (lettaHaystack env project passage)
  if (given req.projectFilter).any (fun filter => project ≠ "" ∧ project ≠ filter) ∨
      lettaTopicAccepts req.topicFilter parsed.topicPath = false ∨ score ≤ 0 then none
  else some
    { row :=
        { project := given (some project)
          file := given (some parsed.file)
          summary := some summary
          score := some score
          source := some .letta
          topicPath := given (some parsed.topicPath)
          createdAt := passage.timestamp
          lettaPassageId := passage.id }
      origin := passage.project }

def lettaSearchRowsFromPayload (req : SearchRequest) (limit : ℕ) (results : List LettaPassage) :
    List Hit :=
  rankedHits limit (results.filterMap (lettaHit env req))

/-! ### The cache and the search -/

structure CachedHits where
  hits : List Hit
  expiresAt : ℚ

abbrev LettaCache := Dict String CachedHits

def lettaSearchCacheKey (query : String) (limit topK : ℕ)
    (projectFilter topicFilter : Option String) : String :=
  env.sha1 (joinText "\n" [env.cfg.lettaAutoSessionId, query, toString limit, toString topK,
    projectFilter.getD "", topicFilter.getD ""])

def lettaCacheActive : Bool :=
  env.search.lettaCacheEnabled && decide (0 < env.search.lettaCacheTtlSecs) &&
    decide (0 < env.search.lettaCacheMaxKeys)

def lettaSearchCacheGet (key : String) (now : ℚ) (cache : LettaCache) :
    Option (List Hit) × LettaCache :=
  if lettaCacheActive env then
    match cache.get? key with
    | none => (none, cache)
    | some entry =>
      if entry.expiresAt ≤ now then (none, cache.erase key)
      else (some entry.hits, cache.moveToEnd key)
  else (none, cache)

def lettaSearchCacheSet (key : String) (hits : List Hit) (now : ℚ) (cache : LettaCache) :
    LettaCache :=
  if lettaCacheActive env then
    ((cache.set key ⟨hits, now + env.search.lettaCacheTtlSecs⟩).moveToEnd key).evict
      env.search.lettaCacheMaxKeys
  else cache

def lettaConfigEnabled : Bool :=
  decide (env.cfg.lettaAutoSessionId ≠ "") && !env.cfg.lettaKeyMissing

def lettaTopK (limit : ℕ) : ℕ :=
  min (max limit ⌊limit * max 1 env.search.lettaTopKFactor⌋₊) env.search.lettaTopKCap

/-- What Letta answers to one search: whether the agent is known, and which of the passages with the
tag it returns; `none` if the call fails. -/
structure LettaAnswer where
  agentResolved : Bool
  select : List LettaPassage → Option (List LettaPassage)
  select_mem : ∀ {ps found}, select ps = some found → ∀ p ∈ found, p ∈ ps

def taggedPassages (projectFilter : Option String) (passages : List LettaPassage) :
    List LettaPassage :=
  match given projectFilter with
  | some project => passages.filter fun p => lettaProjectTag project ∈ p.tags
  | none => passages

def lettaRequestKey (req : SearchRequest) : String :=
  lettaSearchCacheKey env req.query (max 1 req.limit) (lettaTopK env (max 1 req.limit))
    req.projectFilter req.topicFilter

def searchLettaArchival (passages : List LettaPassage) (answer : LettaAnswer) (req : SearchRequest)
    (cache : LettaCache) : List Hit × LettaCache :=
  if lettaConfigEnabled env && answer.agentResolved then
    let limit := max 1 req.limit
    let key := lettaRequestKey env req
    let cached := lettaSearchCacheGet env key req.now cache
    match cached.1 with
    | some hits => (hits.take limit, cached.2)
    | none =>
      match answer.select (taggedPassages req.projectFilter passages) with
      | none => ([], cached.2)
      | some results =>
        let hits := lettaSearchRowsFromPayload env req limit results
        (hits, lettaSearchCacheSet env key hits req.now cached.2)
  else ([], cache)

/-! ### What a row says of its passage -/

variable {env}

def LettaPassage.Names (env : RetrievalEnv) (passage : LettaPassage) (project : String) : Prop :=
  (parseLettaArchivalContent env passage.body).project = "" ∨
    (parseLettaArchivalContent env passage.body).project = project

variable {p : String}

theorem lettaProject_eq_iff (passage : LettaPassage) :
    lettaProject env (some p) passage = p ↔ passage.Names env p := by
  rw [lettaProject, LettaPassage.Names]
  by_cases hnone : (parseLettaArchivalContent env passage.body).project = "" <;> simp [hnone]

theorem lettaProject_ne (hp : p ≠ "") (passage : LettaPassage) :
    lettaProject env (some p) passage ≠ "" := by
  rw [lettaProject]
  by_cases hnone : (parseLettaArchivalContent env passage.body).project = ""
  · simp [hnone, hp]
  · simp [hnone]

theorem lettaHit_origin {req : SearchRequest} (hp : p ≠ "") (hfilter : req.projectFilter = some p)
    {passage : LettaPassage} {hit : Hit} (h : lettaHit env req passage = some hit) :
    hit.origin = passage.project ∧ passage.Names env p ∧
      0 < textMatchScore env.lib.py req.query (lettaHaystack env p passage) := by
  simp only [lettaHit, hfilter, given_some hp, Option.any_some, decide_eq_true_eq] at h
  split at h
  · exact absurd h nofun
  · rename_i haccept
    simp only [not_or, not_and, not_le, ne_eq, Decidable.not_not] at haccept
    have hproject := haccept.1 (lettaProject_ne hp passage)
    rw [hproject] at haccept
    rw [← Option.some.inj h]
    exact ⟨rfl, (lettaProject_eq_iff passage).mp hproject, haccept.2.2⟩

end ContextLattice
