import ContextLattice.Foundation.Paths
import ContextLattice.Retrieval.Numbers
import ContextLattice.Retrieval.Sources

/-!
# Numeric grounding

`_build_grounding_payload` lists the numbers of the summaries, read from a snippet: the summary with
its white space collapsed, and cut.
-/

namespace ContextLattice

open Foundation List

/-! ### The payload -/

structure GroundingConfig where
  snippetChars : ℕ
  numericFactsMax : ℕ
  le_snippetChars : 80 ≤ snippetChars
  le_numericFactsMax : 4 ≤ numericFactsMax

def GroundingConfig.default : GroundingConfig := ⟨280, 80, by decide, by decide⟩

structure GroundingSource where
  project : Option String
  file : Option String
  source : Option RetrievalSource
  topicPath : Option String
  timestamp : Option String
deriving DecidableEq

structure GroundingFact where
  id : String
  snippet : String
  score : ℚ
  source : GroundingSource
  numericValues : List String
deriving DecidableEq

structure NumericFact where
  value : List Char
  snippet : String
  source : GroundingSource
  row : SearchRow
  start : ℕ
deriving DecidableEq

structure GroundingPayload where
  facts : List GroundingFact
  numericFacts : List NumericFact

section

variable (cfg : GroundingConfig) (d : DigitClass) (timestampIso : SearchRow → Option String)

def keptMatches : List (List Char) → List NumberMatch → List NumberMatch
  | _, [] => []
  | seen, m :: ms =>
    if m.token ∈ seen then keptMatches seen ms
    else if max 1 cfg.numericFactsMax ≤ seen.length + 1 then [m]
    else m :: keptMatches (m.token :: seen) ms

def extractNumericValuesVerbatim (text : String) : List NumberMatch :=
  keptMatches cfg [] (numberMatches d true 0 0 none text.toList)

def groundingSnippet (row : SearchRow) : String :=
  topicRollupSanitizeText (row.summary.getD "") cfg.snippetChars

def groundingSource (row : SearchRow) : GroundingSource where
  project := row.project
  file := row.file
  source := row.source
  topicPath := row.topicPath
  timestamp := timestampIso row

def addNumericFacts (row : SearchRow) :
    List NumberMatch → List NumericFact × List String → List NumericFact × List String
  | [], st => st
  | m :: ms, (facts, seen) =>
    let snippet := groundingSnippet cfg row
    let key := joinText "|" [String.ofList m.token, row.project.getD "", row.file.getD "", snippet]
    if key ∈ seen then addNumericFacts row ms (facts, seen)
    else
      let facts := facts ++
        [⟨m.token, snippet, groundingSource timestampIso row, row, m.start⟩]
      if cfg.numericFactsMax ≤ facts.length then (facts, key :: seen)
      else addNumericFacts row ms (facts, key :: seen)

def addRows : ℕ → List SearchRow → List NumericFact × List String → GroundingPayload
  | _, [], st => ⟨[], st.1⟩
  | index, row :: rows, st =>
    let snippet := groundingSnippet cfg row
    if snippet = "" then addRows (index + 1) rows st
    else
      let values := extractNumericValuesVerbatim cfg d snippet
      let rest := addRows (index + 1) rows (addNumericFacts cfg timestampIso row values st)
      { rest with
        facts := ⟨"fact_" ++ toString index, snippet, row.rank, groundingSource timestampIso row,
          values.map fun m => String.ofList m.token⟩ :: rest.facts }

def buildGroundingPayload (results : List SearchRow) : GroundingPayload :=
  addRows cfg d timestampIso 1 (results.take (max 1 (min results.length 64))) ([], [])

end

/-! ### Whole numbers -/

def oneLine (summary : Option String) : List Char :=
  (joinText " " (splitWords (summary.getD ""))).toList

theorem oneLine_eq (summary : Option String) :
    oneLine summary =
      [' '].intercalate (((summary.getD "").toList.splitOnP isSpace).filter (· ≠ [])) := by
  simp [oneLine, joinText, splitWords]

section

variable (d : DigitClass)

def commasInside : List Char → Bool
  | [] => true
  | c :: cs => (c != ',' || cs.head?.any d.isDigit) && commasInside cs

/-- The number does not begin inside a word, every comma of it is followed by a digit, and the line
does not continue it. -/
structure WholeAt (line : List Char) (start : ℕ) (v : List Char) : Prop where
  found : (line.drop start).take v.length = v
  begins : (line.take start).getLast?.any asciiWord = false
  commas : commasInside d v = true
  stops : continues d v (line.drop (start + v.length)) = false

def Written (summary : Option String) (v : List Char) : Prop :=
  ∃ word ∈ splitWords (summary.getD ""), ∃ a b, word.toList = a ++ v ++ b ∧
    commasInside d v = true ∧ continues d v b = false

/-- The number that the pattern reads at a place of a text. -/
def numberIn (text : List Char) (start : ℕ) : List Char :=
  (text.drop start).take (((numberRegex d true).ends (text.drop start)).head?.getD 0)

/-- The line is cut for its snippet, right behind the number or one character later. -/
def AtCut (cfg : GroundingConfig) (line : List Char) (start : ℕ) (v : List Char) : Prop :=
  cfg.snippetChars < line.length ∧ cfg.snippetChars ≤ start + v.length + 4

variable {d}

variable {v : List Char} {m : NumberMatch} {row : SearchRow}

variable {b b' : List Char}

theorem continues_congr (h : b.take 2 = b'.take 2) : continues d v b = continues d v b' := by
  have hhead : b.head? = b'.head? := by
    have := congrArg List.head? h
    simpa [List.head?_take] using this
  have htail : b.tail.head? = b'.tail.head? := by
    have := congrArg (fun l : List Char => l.tail.head?) h
    rcases b with _ | ⟨x, _ | ⟨y, b⟩⟩ <;> rcases b' with _ | ⟨x', _ | ⟨y', b'⟩⟩ <;> simp_all
  rw [continues, continues, hhead, htail]

theorem continues_of_prefix (hpre : b' <+: b) (h : continues d v b = false) :
    continues d v b' = false := by
  obtain ⟨rest, rfl⟩ := hpre
  rw [continues, Bool.and_eq_false_iff] at h ⊢
  refine h.imp_right fun h => ?_
  rcases b' with _ | ⟨x, _ | ⟨y, b'⟩⟩ <;> simp_all

variable {cfg : GroundingConfig}

theorem toList_groundingSnippet (row : SearchRow) :
    (groundingSnippet cfg row).toList =
      if cfg.snippetChars < (oneLine row.summary).length then
        (oneLine row.summary).take (cfg.snippetChars - 3) ++ ['.', '.', '.']
      else oneLine row.summary := by
  have hpos : 0 < cfg.snippetChars := by
    have := cfg.le_snippetChars
    omega
  rw [groundingSnippet, topicRollupSanitizeText]
  simp only [hpos, true_and, oneLine, String.length_toList]
  split
  · simp [truncate]
  · rfl

variable {ms : List NumberMatch}

theorem mem_of_mem_keptMatches {seen : List (List Char)} (h : m ∈
    keptMatches cfg seen ms) : m ∈ ms := by
  induction ms generalizing seen with
  | nil => cases h
  | cons m' ms ih =>
    rw [keptMatches] at h
    split at h
    · exact mem_cons_of_mem _ (ih h)
    · split at h
      · rw [mem_singleton.mp h]
        exact mem_cons_self
      · rcases mem_cons.mp h with rfl | h
        · exact mem_cons_self
        · exact mem_cons_of_mem _ (ih h)

theorem read_of_mem_extract {text : String} (h : m ∈ extractNumericValuesVerbatim cfg d text) :
    ' ' ∉ m.token ∧ (text.toList.drop m.start).take m.token.length = m.token ∧
      (text.toList.take m.start).getLast?.any asciiWord = false ∧
      EndsHere d m.token (text.toList.drop (m.start + m.token.length)) := by
  obtain ⟨k, n, hstart, hat, htoken⟩ := mem_numberMatches (mem_of_mem_keptMatches h)
  rw [Nat.zero_add] at hstart
  have hends := endsHere_of_numberAt hat
  have hlength : m.token.length = n := by
    rw [htoken, length_take_of_le ((accepts_of_numberAt hat).1)]
  refine ⟨htoken ▸ blank_not_mem_of_numberAt hat, by rw [hlength, hstart, htoken], ?_, ?_⟩
  · rw [numberAt] at hat
    split at hat
    · cases hat
    · rename_i hprev
      rw [hstart]
      simpa [lastChar] using hprev
  · rw [hlength, htoken, hstart, ← drop_drop]
    exact hends

theorem numberIn_of_mem_extract {text : String}
    (h : m ∈ extractNumericValuesVerbatim cfg d text) :
    numberIn d text.toList m.start = m.token := by
  obtain ⟨k, n, hstart, hat, htoken⟩ := mem_numberMatches (mem_of_mem_keptMatches h)
  rw [Nat.zero_add] at hstart
  rw [numberAt] at hat
  split at hat
  · cases hat
  · rw [numberIn, hstart, hat, Option.getD_some, htoken]

theorem take_drop_cut {line dots : List Char} {k i n : ℕ} (hk : k ≤ line.length)
    (h : i + n ≤ k) : ((line.take k ++ dots).drop i).take n = (line.drop i).take n := by
  have hlen : (line.take k).length = k := length_take_of_le hk
  have hdrop : ((line.take k).drop i).length = k - i := by rw [length_drop, hlen]
  rw [drop_append_of_le_length (by omega), take_append_of_le_length (by omega),
    drop_take, take_take, min_eq_left (by omega)]

variable {start : ℕ}

theorem getLast?_token_of_cut {front token : List Char} (hne : token ≠ [])
    (hread : ((front ++ ['.', '.', '.']).drop start).take token.length = token)
    (hlt : front.length < start + token.length) : token.getLast? = some '.' := by
  have hpos : 0 < token.length := length_pos_iff.mpr hne
  have hlen := congrArg List.length hread
  rw [length_take, length_drop, length_append] at hlen
  have hthree : (['.', '.', '.'] : List Char).length = 3 := rfl
  have hindex : token[token.length - 1]? =
      (front ++ ['.', '.', '.'])[start + (token.length - 1)]? := by
    conv_lhs => rw [← hread]
    rw [length_take, length_drop, length_append, List.getElem?_take_of_lt (by omega),
      List.getElem?_drop]
    congr 2
    omega
  rw [List.getLast?_eq_getElem?, hindex, List.getElem?_append_right (by omega)]
  obtain ⟨j, hj, hj3⟩ : ∃ j, start + (token.length - 1) - front.length = j ∧ j < 3 :=
    ⟨_, rfl, by omega⟩
  rw [hj]
  rcases j with _ | _ | _ | j
  · rfl
  · rfl
  · rfl
  · omega

/-- **A number read from a snippet** is whole exactly when its commas are inside it and the line
does not continue it. -/
theorem whole_iff_of_mem_extract
    (h : m ∈ extractNumericValuesVerbatim cfg d (groundingSnippet cfg row)) :
    WholeAt d (oneLine row.summary) m.start m.token ↔ commasInside d m.token = true ∧
      (AtCut cfg (oneLine row.summary) m.start m.token →
        continues d m.token ((oneLine row.summary).drop (m.start + m.token.length)) = false) := by
  obtain ⟨-, hread, hbegins, hends⟩ := read_of_mem_extract h
  have hlarge := cfg.le_snippetChars
  rw [toList_groundingSnippet] at hread hbegins hends
  generalize oneLine row.summary = line at hread hbegins hends ⊢
  split at hread
  · rename_i hcut
    -- the line is cut at `k`, and a number does not reach into the points behind the cut
    simp only [if_pos hcut] at hbegins hends
    obtain ⟨k, hk⟩ : ∃ k, cfg.snippetChars = k + 3 := ⟨cfg.snippetChars - 3, by omega⟩
    rw [hk, Nat.add_sub_cancel] at hread hbegins hends
    have hklen : (line.take k).length = k := length_take_of_le (by omega)
    have hend : m.start + m.token.length ≤ k := by
      by_contra hbehind
      exact hends.last (getLast?_token_of_cut hends.nonempty hread (by omega))
    rw [take_drop_cut (by omega) hend] at hread
    rw [take_append_of_le_length (by omega), take_take, min_eq_left (by omega)]
      at hbegins
    refine ⟨fun hwhole => ⟨hwhole.commas, fun _ => hwhole.stops⟩, fun hok => ?_⟩
    refine ⟨hread, hbegins, hok.1, ?_⟩
    by_cases hnear : k ≤ m.start + m.token.length + 1
    · exact hok.2 ⟨hcut, by omega⟩
    · have hnext : ((line.take k ++ ['.', '.', '.']).drop (m.start + m.token.length)).take 2 =
          (line.drop (m.start + m.token.length)).take 2 := take_drop_cut (by omega) (by omega)
      rw [← continues_congr hnext]
      exact hends.stops
  · rename_i hcut
    simp only [if_neg hcut] at hbegins hends
    refine ⟨fun hwhole => ⟨hwhole.commas, fun _ => hwhole.stops⟩, fun hok => ?_⟩
    exact ⟨hread, hbegins, hok.1, hends.stops⟩

theorem WholeAt.written {summary : Option String} (h : WholeAt d (oneLine summary) start v)
    (hblank : ' ' ∉ v) (hne : v ≠ []) : Written d summary v := by
  obtain ⟨words, hwords⟩ : ∃ words,
      ((summary.getD "").toList.splitOnP isSpace).filter (· ≠ []) = words := ⟨_, rfl⟩
  have hline : oneLine summary = [' '].intercalate words := by rw [oneLine_eq, hwords]
  have hword : ∀ word ∈ words, ' ' ∉ word := by
    intro word hmem hspace
    rw [← hwords] at hmem
    cases eq_false_of_mem_splitOnP (mem_of_mem_filter hmem) ' ' hspace
  have hsplit : oneLine summary = (oneLine summary).take start ++ v ++
      (oneLine summary).drop (start + v.length) := by
    conv_lhs => rw [← take_append_drop start (oneLine summary),
      ← take_append_drop v.length ((oneLine summary).drop start), h.found, drop_drop]
    rw [append_assoc]
  have hwordsne : words ≠ [] := by
    rintro rfl
    have hlength := congrArg List.length hsplit
    rw [hline, length_append, length_append] at hlength
    have := length_pos_iff.mpr hne
    simp at hlength
    omega
  obtain ⟨a, b, hmem, hpre⟩ := exists_piece_of_not_mem hblank ((oneLine summary).take start)
    ((oneLine summary).drop (start + v.length))
  rw [← hsplit, hline, splitOn_intercalate ' ' hword hwordsne, ← hwords] at hmem
  exact ⟨_, mem_map_of_mem hmem, a, b, String.toList_ofList, h.commas,
    continues_of_prefix hpre h.stops⟩

/-! ### The facts of an answer -/

variable {timestampIso : SearchRow → Option String}

def ReadFrom (cfg : GroundingConfig) (d : DigitClass) (fact : NumericFact) : Prop :=
  (⟨fact.start, fact.value⟩ : NumberMatch) ∈
    extractNumericValuesVerbatim cfg d (groundingSnippet cfg fact.row)

variable {st : List NumericFact × List String}

theorem readFrom_addNumericFacts
    (hms : ∀ m ∈ ms, m ∈ extractNumericValuesVerbatim cfg d (groundingSnippet cfg row))
    (hst : ∀ fact ∈ st.1, ReadFrom cfg d fact) :
    ∀ fact ∈ (addNumericFacts cfg timestampIso row ms st).1, ReadFrom cfg d fact := by
  induction ms generalizing st with
  | nil => exact hst
  | cons m ms ih =>
    obtain ⟨hm, hms⟩ := forall_mem_cons.mp hms
    rw [addNumericFacts]
    split
    · exact ih hms hst
    · have hadded : ∀ fact ∈ st.1 ++ [⟨m.token, groundingSnippet cfg row,
          groundingSource timestampIso row, row, m.start⟩], ReadFrom cfg d fact := by
        intro fact hfact
        rcases mem_append.mp hfact with hfact | hfact
        · exact hst fact hfact
        · rw [mem_singleton.mp hfact]
          exact hm
      dsimp only
      split
      · exact hadded
      · exact ih hms hadded

theorem readFrom_addRows {index : ℕ} {rows : List SearchRow}
    (hst : ∀ fact ∈ st.1, ReadFrom cfg d fact) :
    ∀ fact ∈ (addRows cfg d timestampIso index rows st).numericFacts, ReadFrom cfg d fact := by
  induction rows generalizing index st with
  | nil => exact hst
  | cons row rows ih =>
    rw [addRows]
    split
    · exact ih hst
    · exact ih (readFrom_addNumericFacts (fun _ hm => hm) hst)

/-- Of a row and a place in its snippet: the number that stands there takes no comma along that ends
a clause, and, at the cut, the summary does not continue it. -/
def StandsWhole (cfg : GroundingConfig) (d : DigitClass) (row : SearchRow) (start : ℕ) : Prop :=
  let v := numberIn d (groundingSnippet cfg row).toList start
  commasInside d v = true ∧ (AtCut cfg (oneLine row.summary) start v →
    continues d v ((oneLine row.summary).drop (start + v.length)) = false)

variable (cfg d timestampIso) in
/-- **Numeric facts are whole numbers** exactly when, at every place they are listed for, no comma
stands behind the number without a digit and the cut is not inside the number. -/
theorem numericFacts_whole_iff (results : List SearchRow) :
    (∀ fact ∈ (buildGroundingPayload cfg d timestampIso results).numericFacts,
        WholeAt d (oneLine fact.row.summary) fact.start fact.value ∧
          Written d fact.row.summary fact.value) ↔
      ∀ fact ∈ (buildGroundingPayload cfg d timestampIso results).numericFacts,
        StandsWhole cfg d fact.row fact.start := by
  refine forall₂_congr fun fact hfact => ?_
  have hread : ReadFrom cfg d fact := readFrom_addRows (by simp) fact hfact
  obtain ⟨hblank, -, -, hends⟩ := read_of_mem_extract hread
  have hiff := whole_iff_of_mem_extract hread
  rw [StandsWhole, numberIn_of_mem_extract hread]
  exact ⟨fun h => hiff.mp h.1,
    fun h => ⟨hiff.mpr h, (hiff.mpr h).written hblank hends.nonempty⟩⟩

variable (timestampIso) in
theorem exists_fact_of_one_number
    (hne : groundingSnippet cfg row ≠ "")
    (h : extractNumericValuesVerbatim cfg d (groundingSnippet cfg row) = [m]) :
    ∃ fact ∈ (buildGroundingPayload cfg d timestampIso [row]).numericFacts,
      fact.value = m.token ∧ fact.start = m.start ∧ fact.row = row := by
  refine ⟨⟨m.token, groundingSnippet cfg row, groundingSource timestampIso row, row, m.start⟩,
    ?_, rfl, rfl, rfl⟩
  simp [buildGroundingPayload, addRows, addNumericFacts, h, hne]

def groundedRow (summary : String) : SearchRow :=
  ⟨some "p", some "a.md", some summary, some 1, none, none, none, none, none, none⟩

def GroundingConfig.short : GroundingConfig := ⟨80, 80, by decide, by decide⟩

def longLine : List Char := List.replicate 72 'x' ++ " 123456 end".toList

/-- A clause ends behind the number 12, and the listed value is `12,`. The snippet ends inside the
number 123456, and the listed value is `1234`. -/
theorem comma_listed_number_cut :
    (∃ fact ∈ (buildGroundingPayload .default .latin (fun _ => none)
        [groundedRow "Sold 12, then 5 more"]).numericFacts, fact.value = ['1', '2', ','] ∧
      ¬ WholeAt .latin (oneLine fact.row.summary) fact.start fact.value) ∧
    ∃ fact ∈ (buildGroundingPayload .short .latin (fun _ => none)
        [groundedRow (String.ofList longLine)]).numericFacts, fact.value = ['1', '2', '3', '4'] ∧
      ¬ WholeAt .latin (oneLine fact.row.summary) fact.start fact.value := by
  constructor
  · have hlisted : ∃ fact ∈ (buildGroundingPayload .default .latin (fun _ => none)
        [groundedRow "Sold 12, then 5 more"]).numericFacts,
        fact.value = ['1', '2', ','] ∧ commasInside .latin fact.value = false := by
      decide +kernel
    obtain ⟨fact, hmem, hvalue, hcommas⟩ := hlisted
    exact ⟨fact, hmem, hvalue, fun h => Bool.false_ne_true (hcommas.symm.trans h.commas)⟩
  · -- what is evaluated is a list of characters
    have hwords : [' '].intercalate ((longLine.splitOnP isSpace).filter (· ≠ [])) = longLine := by
      decide +kernel
    have hline : oneLine (groundedRow (String.ofList longLine)).summary = longLine := by
      simp only [oneLine_eq, groundedRow, Option.getD_some, String.toList_ofList, hwords]
    have hcut : (if GroundingConfig.short.snippetChars < longLine.length then
        longLine.take (GroundingConfig.short.snippetChars - 3) ++ ['.', '.', '.'] else longLine) =
          longLine.take 77 ++ ['.', '.', '.'] := by
      decide +kernel
    have hsnippet : (groundingSnippet .short (groundedRow (String.ofList longLine))).toList =
        longLine.take 77 ++ ['.', '.', '.'] := by
      simp only [toList_groundingSnippet, hline, hcut]
    have hkept : keptMatches .short [] (numberMatches .latin true 0 0 none
        (longLine.take 77 ++ ['.', '.', '.'])) = [⟨73, ['1', '2', '3', '4']⟩] := by
      decide +kernel
    have hread : extractNumericValuesVerbatim .short .latin (groundingSnippet .short
        (groundedRow (String.ofList longLine))) = [⟨73, ['1', '2', '3', '4']⟩] := by
      simp only [extractNumericValuesVerbatim, hsnippet, hkept]
    have hcontinues : continues .latin ['1', '2', '3', '4'] (longLine.drop 77) = true := by
      decide +kernel
    have hne : groundingSnippet .short (groundedRow (String.ofList longLine)) ≠ "" := by
      intro hempty
      simp [hempty] at hsnippet
    obtain ⟨fact, hmem, hfact⟩ := exists_fact_of_one_number (fun _ => none) hne hread
    refine ⟨fact, hmem, hfact.1, fun h => ?_⟩
    have hstops := h.stops
    simp only [hfact, hline] at hstops
    exact Bool.false_ne_true (hstops.symm.trans hcontinues)

end

/-! ### The length of the list -/

section

variable {cfg : GroundingConfig} {d : DigitClass} {timestampIso : SearchRow → Option String}

def NumericFact.key (fact : NumericFact) : String :=
  joinText "|" [String.ofList fact.value, fact.row.project.getD "", fact.row.file.getD "",
    fact.snippet]

variable (cfg timestampIso) in
def numericFactOf (row : SearchRow) (m : NumberMatch) : NumericFact :=
  ⟨m.token, groundingSnippet cfg row, groundingSource timestampIso row, row, m.start⟩

def Remembers (st : List NumericFact × List String) : Prop :=
  ∀ key, key ∈ st.2 ↔ key ∈ st.1.map NumericFact.key

theorem Remembers.append {facts : List NumericFact} {seen : List String}
    (h : Remembers (facts, seen)) (fact : NumericFact) :
    Remembers (facts ++ [fact], fact.key :: seen) := by
  intro key
  have hold := h key
  rw [mem_cons, hold, map_append, mem_append, map_singleton, mem_singleton, or_comm]

theorem addNumericFacts_cons (row : SearchRow) (m : NumberMatch) (ms : List NumberMatch)
    (facts : List NumericFact) (seen : List String) :
    addNumericFacts cfg timestampIso row (m :: ms) (facts, seen) =
      let fact := numericFactOf cfg timestampIso row m
      if fact.key ∈ seen then addNumericFacts cfg timestampIso row ms (facts, seen)
      else if cfg.numericFactsMax ≤ (facts ++ [fact]).length then
        (facts ++ [fact], fact.key :: seen)
      else addNumericFacts cfg timestampIso row ms (facts ++ [fact], fact.key :: seen) :=
  rfl

/-- Below the limit the list stays within it, and a full list is left as it is exactly when every
number of the row is listed. -/
structure RowAdded (cfg : GroundingConfig) (timestampIso : SearchRow → Option String)
    (row : SearchRow) (ms : List NumberMatch) (st st' : List NumericFact × List String) :
    Prop where
  remembers : Remembers st'
  grows : st.1.length ≤ st'.1.length
  capped : st.1.length < cfg.numericFactsMax → st'.1.length ≤ cfg.numericFactsMax
  full : cfg.numericFactsMax ≤ st.1.length → (st'.1.length ≤ st.1.length ↔
    ∀ m ∈ ms, (numericFactOf cfg timestampIso row m).key ∈ st.1.map NumericFact.key)

theorem rowAdded_addNumericFacts (row : SearchRow) (ms : List NumberMatch)
    {st : List NumericFact × List String} (hst : Remembers st) :
    RowAdded cfg timestampIso row ms st (addNumericFacts cfg timestampIso row ms st) := by
  induction ms generalizing st with
  | nil => exact ⟨hst, le_rfl, fun h => h.le, fun _ => by simp [addNumericFacts]⟩
  | cons m ms ih =>
    obtain ⟨facts, seen⟩ := st
    have hkey := hst (numericFactOf cfg timestampIso row m).key
    rw [addNumericFacts_cons]
    dsimp only
    split
    · rename_i hseen
      obtain ⟨hremembers, hgrows, hcapped, hfull⟩ := ih hst
      refine ⟨hremembers, hgrows, hcapped, fun h => (hfull h).trans ?_⟩
      rw [forall_mem_cons]
      exact (and_iff_right (hkey.mp hseen)).symm
    · rename_i hnew
      have hst' := hst.append (numericFactOf cfg timestampIso row m)
      have hlen : (facts ++ [numericFactOf cfg timestampIso row m]).length = facts.length + 1 :=
        length_append
      split
      · rename_i hend
        refine ⟨hst', by simp, fun h => ?_, fun _ => ?_⟩
        · have hbelow : facts.length < cfg.numericFactsMax := h
          simp only [hlen]
          omega
        · simp only [hlen, forall_mem_cons, ← hkey, hnew, false_and, iff_false]
          omega
      · rename_i hroom
        obtain ⟨hremembers, hgrows, hcapped, -⟩ := ih hst'
        simp only [hlen] at hroom hgrows hcapped
        have hbelow : facts.length < cfg.numericFactsMax := by omega
        exact ⟨hremembers, by simp only; omega, fun _ => hcapped (by omega),
          fun h => absurd h (Nat.not_le.mpr hbelow)⟩

variable (cfg d timestampIso) in
def listedFacts (rows : List SearchRow) : List NumericFact × List String :=
  rows.foldl (fun st row => addNumericFacts cfg timestampIso row
    (extractNumericValuesVerbatim cfg d (groundingSnippet cfg row)) st) ([], [])

theorem numericFacts_addRows (index : ℕ) (rows : List SearchRow)
    (st : List NumericFact × List String) :
    (addRows cfg d timestampIso index rows st).numericFacts =
      (rows.foldl (fun st row => addNumericFacts cfg timestampIso row
        (extractNumericValuesVerbatim cfg d (groundingSnippet cfg row)) st) st).1 := by
  induction rows generalizing index st with
  | nil => rfl
  | cons row rows ih =>
    rw [addRows, foldl_cons]
    split
    · rename_i hempty
      rw [hempty]
      exact ih (index + 1) st
    · exact ih (index + 1) _

theorem numericFacts_buildGroundingPayload (results : List SearchRow) :
    (buildGroundingPayload cfg d timestampIso results).numericFacts =
      (listedFacts cfg d timestampIso (results.take 64)).1 := by
  have htake : results.take (max 1 (min results.length 64)) = results.take 64 := by
    rcases results with _ | ⟨row, rows⟩
    · rfl
    · rw [take_eq_take_iff, length_cons]
      omega
  rw [buildGroundingPayload, htake]
  exact numericFacts_addRows 1 _ _

theorem listedFacts_concat (rows : List SearchRow) (row : SearchRow) :
    listedFacts cfg d timestampIso (rows ++ [row]) = addNumericFacts cfg timestampIso row
      (extractNumericValuesVerbatim cfg d (groundingSnippet cfg row))
      (listedFacts cfg d timestampIso rows) :=
  foldl_concat ..

theorem remembers_listedFacts (rows : List SearchRow) :
    Remembers (listedFacts cfg d timestampIso rows) := by
  induction rows using List.reverseRecOn with
  | nil => exact fun _ => Iff.rfl
  | append_singleton rows row ih =>
    rw [listedFacts_concat]
    exact (rowAdded_addNumericFacts row _ ih).remembers

variable (cfg d timestampIso) in
def NumbersListed (facts : List NumericFact) (row : SearchRow) : Prop :=
  ∀ m ∈ extractNumericValuesVerbatim cfg d (groundingSnippet cfg row),
    (numericFactOf cfg timestampIso row m).key ∈ facts.map NumericFact.key

theorem length_listedFacts_le_iff (rows : List SearchRow) :
    (listedFacts cfg d timestampIso rows).1.length ≤ cfg.numericFactsMax ↔
      ∀ pre row post, rows = pre ++ row :: post →
        cfg.numericFactsMax ≤ (listedFacts cfg d timestampIso pre).1.length →
        NumbersListed cfg d timestampIso (listedFacts cfg d timestampIso pre).1 row := by
  induction rows using List.reverseRecOn with
  | nil => simp [listedFacts]
  | append_singleton rows last ih =>
    obtain ⟨-, hgrows, hcapped, hlast⟩ :=
      rowAdded_addNumericFacts last _ (remembers_listedFacts (d := d) rows)
    rw [← listedFacts_concat] at hgrows hcapped hlast
    constructor
    · intro hle pre row post hsplit hfull
      have hrows := ih.mp (hgrows.trans hle)
      rcases eq_nil_or_concat post with rfl | ⟨post, row', rfl⟩
      · obtain ⟨rfl, hrow⟩ := append_inj' hsplit rfl
        obtain rfl : last = row := by simpa using hrow
        exact (hlast hfull).mp (hle.trans hfull)
      · rw [concat_eq_append, ← cons_append, ← append_assoc] at hsplit
        exact hrows pre row post (append_inj' hsplit rfl).1 hfull
    · intro h
      have hrows := ih.mpr fun pre row post hsplit => h pre row (post ++ [last]) (by simp [hsplit])
      rcases hrows.lt_or_eq with hlt | heq
      · exact hcapped hlt
      · exact ((hlast heq.ge).mpr (h rows last [] rfl heq.ge)).trans heq.le

variable (cfg d timestampIso) in
/-- **The list of numeric facts keeps its limit** exactly when no row that comes with a full list
has a number that is not listed. -/
theorem numericFacts_capped_iff (results : List SearchRow) :
    (buildGroundingPayload cfg d timestampIso results).numericFacts.length ≤
        cfg.numericFactsMax ↔
      ∀ pre row post, results.take 64 = pre ++ row :: post →
        cfg.numericFactsMax ≤
          (buildGroundingPayload cfg d timestampIso pre).numericFacts.length →
        NumbersListed cfg d timestampIso
          (buildGroundingPayload cfg d timestampIso pre).numericFacts row := by
  rw [numericFacts_buildGroundingPayload, length_listedFacts_le_iff]
  refine forall_congr' fun pre => forall_congr' fun row => forall_congr' fun post =>
    forall_congr' fun hsplit => ?_
  have hpre : pre.take 64 = pre := by
    have hlength := congrArg List.length hsplit
    rw [length_take, length_append] at hlength
    exact take_of_length_le (by omega)
  rw [numericFacts_buildGroundingPayload, hpre]

def GroundingConfig.smallest : GroundingConfig := ⟨80, 4, by decide, by decide⟩

/-- One row with four numbers fills a list of four, and the number of the next row is listed all the
same. -/
theorem fifth_fact_listed :
    GroundingConfig.smallest.numericFactsMax = 4 ∧
      (buildGroundingPayload .smallest .latin (fun _ => none)
        [groundedRow "1 2 3 4", groundedRow "5"]).numericFacts.length = 5 := by
  decide +kernel

end

end ContextLattice
