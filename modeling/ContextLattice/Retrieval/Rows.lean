import Mathlib.Data.Rat.Floor
import ContextLattice.Foundation.Search
import ContextLattice.Write.Request

/-!
# Search requests, rows and scores

A member of a row that is missing, or `None`, is `none`. A **hit** is a row together with the
project of its record, which the source code does not compute. Scores are exact rationals.
-/

namespace ContextLattice

open Foundation

/-! ### Settings and requests -/

structure RetrievalConfig where
  memoryTimeoutSecs : ℚ
  memoryProjectLimit : ℕ
  memoryFilesPerProject : ℕ
  memoryScanLimit : ℕ
  mongoScanLimit : ℕ
  mindsdbEnabled : Bool
  mindsdbScanLimit : ℕ
  lettaTopKFactor : ℚ
  lettaTopKCap : ℕ
  lettaCacheEnabled : Bool
  lettaCacheTtlSecs : ℚ
  lettaCacheMaxKeys : ℕ
  lettaArchivalIncludeContent : Bool
  lettaArchivalMaxChars : ℕ
  readFailOpenEnabled : Bool
  readCacheMaxKeys : ℕ
  readCacheFreshTtlSecs : ℚ
  readCacheStaleMaxSecs : ℚ

def RetrievalConfig.default : RetrievalConfig where
  memoryTimeoutSecs := 3
  memoryProjectLimit := 12
  memoryFilesPerProject := 40
  memoryScanLimit := 36
  mongoScanLimit := 400
  mindsdbEnabled := true
  mindsdbScanLimit := 300
  lettaTopKFactor := 2
  lettaTopKCap := 24
  lettaCacheEnabled := true
  lettaCacheTtlSecs := 120
  lettaCacheMaxKeys := 2000
  lettaArchivalIncludeContent := false
  lettaArchivalMaxChars := 400
  readFailOpenEnabled := true
  readCacheMaxKeys := 20000
  readCacheFreshTtlSecs := 900
  readCacheStaleMaxSecs := 86400

/-- The settings and libraries of the write path, its own settings, `hashlib.sha1` and `json.dumps`.
-/
structure RetrievalEnv where
  cfg : WriteConfig
  lib : WriteLib
  search : RetrievalConfig
  sha1 : String → String
  dumps : List (String × String) → String

structure SearchRequest where
  query : String
  limit : ℕ
  projectFilter : Option String := none
  topicFilter : Option String := none
  timeBudgetSecs : Option ℚ := none
  now : ℚ

def given (s : Option String) : Option String := s.filter (· ≠ "")

@[simp] theorem given_none : given none = none := rfl

@[simp] theorem given_empty : given (some "") = none := rfl

@[simp] theorem given_some {s : String} (h : s ≠ "") : given (some s) = some s := by
  simp [given, h]

/-! ### Rows -/

inductive RetrievalSource where
  | qdrant | mongoRaw | mindsdb | topicRollups | letta | memoryBank
deriving DecidableEq, Repr

structure RollupFigures where
  eventCount : ℤ
  recentEventCount : ℤ
  uniqueFileCount : ℤ
  latestTimestamp : Option String
deriving DecidableEq

structure SearchRow where
  project : Option String
  file : Option String
  summary : Option String
  score : Option ℚ
  source : Option RetrievalSource := none
  eventId : Option String := none
  topicPath : Option String := none
  createdAt : Option String := none
  topicRollup : Option RollupFigures := none
  lettaPassageId : Option String := none
deriving DecidableEq

def SearchRow.rank (row : SearchRow) : ℚ := row.score.getD 0

structure Hit where
  row : SearchRow
  origin : Option String
deriving DecidableEq

def rankedHits (limit : ℕ) (hits : List Hit) : List Hit := ranked (fun h => h.row.rank) limit hits

/-! ### The lexical score -/

def isTermChar (c : Char) : Bool :=
  c.isAlphanum || c = '_' || c = ':' || c = '/' || c = '.' || c = '-'

variable (py : Python)

def queryTerms (query : String) (maxTerms : ℕ) : List String :=
  let runs := (py.lower query).toList.splitOnP fun c => !isTermChar c
  (((runs.filter fun r => 3 ≤ r.length).map String.ofList).eraseDups).take maxTerms

def textMatchScore (query text : String) : ℚ :=
  let queryText := py.stripLower query
  let body := py.lower text
  if queryText = "" ∨ body = "" then 0
  else if isIn queryText body then 1
  else
    let terms := queryTerms py queryText 10
    let hits := (terms.filter fun term => isIn term body).length
    if hits = 0 then 0
    else
      let density : ℚ := min 1 (body.length / 4000)
      min (95 / 100) (hits / (max 1 terms.length : ℕ) * (55 / 100 + 45 / 100 * density))

end ContextLattice
