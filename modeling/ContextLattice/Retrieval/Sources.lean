import ContextLattice.Retrieval.Letta
import ContextLattice.Retrieval.Reads
import ContextLattice.Write.System

/-!
# The sources of a search

The six sources of a search. What the services decide is a parameter: which points or passages are
selected, which calls fail, how many files are looked at, and in which order concurrent reads
finish.
-/

namespace ContextLattice

open Foundation

/-! ### Records -/

structure QdrantPoint where
  project : Option String
  file : Option String
  summary : Option String
  topicTags : List String

structure BankFile where
  project : String
  file : String
  content : String

structure TopicRollup where
  path : String
  summarySnippets : List String
  numericValues : List String
  figures : RollupFigures

structure RawDocument where
  eventId : Option String
  project : Option String
  file : Option String
  summary : Option String
  contentRaw : Option String
  topicPath : Option String
  createdAt : Option String
  updatedAt : Option String

structure MindsdbRow where
  project : String
  file : String
  summary : String
  createdAt : String

structure Stores where
  points : List QdrantPoint := []
  files : List BankFile := []
  rollups : List (String × List TopicRollup) := []
  documents : List RawDocument := []
  memories : List MindsdbRow := []
  passages : List LettaPassage := []

variable (env : RetrievalEnv) (st : Stores)

/-! ### Qdrant -/

/-- What Qdrant selects of the points that pass the filter, with their scores; `none` if the search
fails. -/
structure QdrantAnswer where
  select : List QdrantPoint → Option (List (QdrantPoint × Option ℚ))
  select_mem : ∀ {ps found}, select ps = some found → ∀ p ∈ found, p.1 ∈ ps

def qdrantTopicAccepts (topicFilter : Option String) (topicTags : List String) : Bool :=
  (given topicFilter).all fun topic => topic ∈ topicTags

def qdrantAccepts (req : SearchRequest) (point : QdrantPoint) : Bool :=
  ((given req.projectFilter).all fun project => point.project = some project) &&
    qdrantTopicAccepts req.topicFilter point.topicTags

def searchQdrant (answer : QdrantAnswer) (req : SearchRequest) : Option (List Hit) :=
  (answer.select (st.points.filter (qdrantAccepts req))).map fun found =>
    (found.take req.limit).map fun p =>
      { row := { project := p.1.project, file := p.1.file, summary := p.1.summary, score := p.2 }
        origin := p.1.project }

/-! ### The memory bank -/

structure Candidate where
  nameScore : ℚ
  project : String
  file : String
deriving DecidableEq

structure BankAnswer where
  projects : List String
  lists : String → Bool
  qdrantLists : Bool
  namesSeen : ℕ
  fault : String → String → Option ReadFault
  missing : HttpError
  finished : List Candidate → List Candidate
  finished_mem : ∀ cs, ∀ c ∈ finished cs, c ∈ cs

def listQdrantFiles (project : String) : List String :=
  let points := (st.points.filter fun p => p.project = some project).take 1000
  ((points.filterMap fun p => given p.file).eraseDups).insertionSort (· ≤ ·)

def listFiles (answer : BankAnswer) (project : String) : List String :=
  let names := if answer.lists project then
    (st.files.filter fun f => f.project = project).map BankFile.file else []
  if names ≠ [] then names
  else if answer.qdrantLists then listQdrantFiles st project else []

def bankBudget (req : SearchRequest) : ℚ :=
  max (3 / 4) (req.timeBudgetSecs.getD env.search.memoryTimeoutSecs)

def projectCap (req : SearchRequest) : ℕ :=
  min (max 1 env.search.memoryProjectLimit) (max 1 ⌈bankBudget env req * (5 / 2)⌉₊)

def filesPerProject (req : SearchRequest) : ℕ :=
  min (max 1 env.search.memoryFilesPerProject) (max 6 ⌈bankBudget env req * 10⌉₊)

def scanLimit (req : SearchRequest) : ℕ :=
  min (max (2 * req.limit) env.search.memoryScanLimit)
    (max (2 * req.limit) ⌈bankBudget env req * 16⌉₊)

def bankTopicAccepts (topicFilter : Option String) (file : String) : Bool :=
  (given topicFilter).all fun topic =>
    match deriveTopicPath env.cfg env.lib file none with
    | .ok path => startswith path topic
    | .error _ => false

def scannedFiles (answer : BankAnswer) (req : SearchRequest) (project : String) : List String :=
  ((listFiles st answer project).filter (bankTopicAccepts env req.topicFilter)).take
    (filesPerProject env req)

def scannedProjects (answer : BankAnswer) (req : SearchRequest) : List String :=
  (match given req.projectFilter with
    | some project => [project]
    | none => answer.projects).take (projectCap env req)

def nameScore (req : SearchRequest) (project file : String) : ℚ :=
  textMatchScore env.lib.py req.query (project ++ "\n" ++ file)

def bankCandidates (answer : BankAnswer) (req : SearchRequest) : List Candidate :=
  let names := (scannedProjects env answer req).flatMap fun project =>
    (scannedFiles env st answer req project).map fun file =>
      (⟨nameScore env req project file, project, file⟩ : Candidate)
  (names.take answer.namesSeen).filter fun c => 0 < c.nameScore

def readRemote (answer : BankAnswer) (project file : String) : Except ReadFault String :=
  match answer.fault project file with
  | some fault => .error fault
  | none =>
    match st.files.find? fun f => f.project = project ∧ f.file = file with
    | some f => .ok f.content
    | none => .error (.http answer.missing)

def bankHit (req : SearchRequest) (c : Candidate) (text : FileText) : Option Hit :=
  let summary := summarizeContent text.content
  let score := max c.nameScore (textMatchScore env.lib.py req.query (c.file ++ "\n" ++ summary))
  if text.content = "" ∨ score ≤ 0 then none
  else some
    { row :=
        { project := some c.project
          file := some c.file
          summary := some summary
          score := some score
          source := some .memoryBank }
      origin := some text.project }

/-- `_inspect` reads a candidate. Its own time limit is never longer than the one of the read, so
that a read that times out is given up before it can turn to the cache. -/
def inspect (answer : BankAnswer) (req : SearchRequest) (c : Candidate) (cache : ReadCache) :
    Option Hit × ReadCache :=
  match readRemote st answer c.project c.file with
  | .error .timeout => (none, cache)
  | remote =>
    let out := readProjectFile env remote false none c.project c.file req.now cache
    (out.1.toOption.bind (bankHit env req c), out.2)

def inspectAll (answer : BankAnswer) (req : SearchRequest) :
    List Candidate → ReadCache → List Hit × ReadCache
  | [], cache => ([], cache)
  | c :: cs, cache =>
    let first := inspect env st answer req c cache
    let rest := inspectAll answer req cs first.2
    (first.1.toList ++ rest.1, rest.2)

def searchMemoryBankLexical (answer : BankAnswer) (req : SearchRequest) (cache : ReadCache) :
    List Hit × ReadCache :=
  if queryTerms env.lib.py req.query 8 = [] then ([], cache)
  else
    let selected :=
      ranked Candidate.nameScore (scanLimit env req) (bankCandidates env st answer req)
    let out := inspectAll env st answer req (answer.finished selected) cache
    (rankedHits req.limit out.1, out.2)

/-! ### Topic rollups -/

def splitWords (s : String) : List String :=
  ((s.toList.splitOnP isSpace).filter (· ≠ [])).map String.ofList

def topicRollupSanitizeText (value : String) (maxChars : ℕ) : String :=
  let text := joinText " " (splitWords value)
  if 0 < maxChars ∧ maxChars < text.length then truncate (maxChars - 3) text ++ "..." else text

def pathAccepts (topicFilter : Option String) (path : String) : Bool :=
  (given topicFilter).all fun topic => startswith path topic

def rollupSummary (path : String) (snippets values : List String) : String :=
  match snippets, values with
  | snippet :: _, _ => snippet
  | [], [] => "Topic rollup available for " ++ path
  | [], values => "Numeric facts: " ++ joinText ", " (values.take 6)

def rollupRow (req : SearchRequest) (project path : String) (topic : TopicRollup) : Option Hit :=
  let values := topic.numericValues.filter (· ≠ "")
  let score := textMatchScore env.lib.py req.query
    (joinText "\n" ([project, path] ++ topic.summarySnippets ++ values))
  if path = "" ∨ pathAccepts req.topicFilter path = false ∨ score ≤ 0 then none
  else some
    { row :=
        { project := some project
          file := some ("_rollups/topics/" ++ path ++ ".json")
          summary := some
            (topicRollupSanitizeText (rollupSummary path topic.summarySnippets values) 320)
          score := some score
          source := some .topicRollups
          topicPath := some path
          topicRollup := some topic.figures }
      origin := some project }

def rollupHit (req : SearchRequest) (project : String) (topic : TopicRollup) :
    Except HttpError (Option Hit) :=
  (normalizeTopicPath env.lib topic.path).map fun path => rollupRow env req project path topic

def searchTopicRollups (req : SearchRequest) : Except HttpError (List Hit) := do
  let projects := st.rollups.filter fun p => (given req.projectFilter).all (p.1 = ·)
  let rows ← projects.mapM fun p => p.2.mapM (rollupHit env req p.1)
  .ok (rankedHits req.limit (rows.flatMap fun hits => hits.reduceOption))

/-! ### Mongo -/

def mongoTopicAccepts (topicFilter topicPath : Option String) : Bool :=
  (given topicFilter).all fun topic => topicPath.any fun path => startswith path topic

def mongoAccepts (req : SearchRequest) (doc : RawDocument) : Bool :=
  ((given req.projectFilter).all fun project => doc.project = some project) &&
    mongoTopicAccepts req.topicFilter doc.topicPath

def mongoHit (req : SearchRequest) (doc : RawDocument) : Option Hit :=
  let snippet := (given doc.summary).getD (truncate 500 (doc.contentRaw.getD ""))
  let score := textMatchScore env.lib.py req.query
    (joinText "\n" [doc.project.getD "", doc.file.getD "", doc.topicPath.getD "", snippet])
  if score ≤ 0 ∧ queryTerms env.lib.py req.query 8 ≠ [] then none
  else some
    { row :=
        { project := doc.project
          file := doc.file
          summary := some snippet
          score := some score
          source := some .mongoRaw
          eventId := doc.eventId
          topicPath := doc.topicPath
          createdAt := doc.createdAt }
      origin := doc.project }

def searchMongoRaw (up : Bool) (req : SearchRequest) : List Hit :=
  if up then
    let found := ((st.documents.filter (mongoAccepts req)).insertionSort
      fun a b => b.updatedAt.getD "" ≤ a.updatedAt.getD "").take
        (max (req.limit * 12) env.search.mongoScanLimit)
    rankedHits req.limit (found.filterMap (mongoHit env req))
  else []

/-! ### MindsDB -/

def mindsdbTopicAccepts (topicFilter : Option String) (file : String) : Bool :=
  (given topicFilter).all fun topic =>
    like (literalValue (topic.toList ++ ['/', '%'])) file.toList ||
      like (literalValue (topic.toList ++ ['%'])) file.toList

def mindsdbProjectAccepts (projectFilter : Option String) (project : String) : Bool :=
  (given projectFilter).all fun filter => project.toList = literalValue filter.toList

def mindsdbTermAccepts (terms : List String) (row : MindsdbRow) : Bool :=
  terms.isEmpty || [row.summary, row.file].any fun column => terms.any fun term =>
    like (literalValue ('%' :: (env.lib.py.lower term).toList ++ ['%']))
      (env.lib.py.lower column).toList

def mindsdbAccepts (req : SearchRequest) (row : MindsdbRow) : Bool :=
  mindsdbProjectAccepts req.projectFilter row.project &&
    mindsdbTopicAccepts req.topicFilter row.file &&
    mindsdbTermAccepts env (queryTerms env.lib.py req.query 6) row

def mindsdbHit (req : SearchRequest) (row : MindsdbRow) : Option Hit :=
  let score := textMatchScore env.lib.py req.query
    (row.project ++ "\n" ++ row.file ++ "\n" ++ row.summary)
  if score ≤ 0 ∧ queryTerms env.lib.py req.query 6 ≠ [] then none
  else some
    { row :=
        { project := some row.project
          file := some row.file
          summary := some row.summary
          score := some score
          source := some .mindsdb
          createdAt := some row.createdAt }
      origin := some row.project }

def searchMindsdbMemory (up : Bool) (req : SearchRequest) : List Hit :=
  if env.search.mindsdbEnabled && up then
    let found := ((st.memories.filter (mindsdbAccepts env req)).insertionSort
      fun a b => b.createdAt ≤ a.createdAt).take
        (max (req.limit * 12) env.search.mindsdbScanLimit)
    rankedHits req.limit (found.filterMap (mindsdbHit env req))
  else []

/-! ### All sources -/

structure Answers where
  qdrant : QdrantAnswer
  bank : BankAnswer
  mongo : Bool
  mindsdb : Bool
  letta : LettaAnswer

structure Caches where
  read : ReadCache
  letta : LettaCache

def sourceHits (caches : Caches) (answers : Answers) (req : SearchRequest) :
    RetrievalSource → List Hit
  | .qdrant => (searchQdrant st answers.qdrant req).getD []
  | .mongoRaw => searchMongoRaw env st answers.mongo req
  | .mindsdb => searchMindsdbMemory env st answers.mindsdb req
  | .topicRollups =>
    match searchTopicRollups env st req with
    | .ok hits => hits
    | .error _ => []
  | .letta => (searchLettaArchival env st.passages answers.letta req caches.letta).1
  | .memoryBank => (searchMemoryBankLexical env st answers.bank req caches.read).1

def RetrievalEnv.plain : RetrievalEnv where
  cfg := .default
  lib := .plain
  search := .default
  sha1 := id
  dumps _ := ""

def Caches.empty : Caches := ⟨.empty, .empty⟩

end ContextLattice
