import ContextLattice.Retrieval.Sources

/-!
# Inserts into MindsDB

Rows are inserted in batches, into a table that is given up when an insert finds it **corrupt**.
-/

namespace ContextLattice

open Foundation List

/-! ### Batch inserts -/

/-- The database and the table of an insert. They are settings, and no quoted names. -/
structure TableName where
  text : String
  plain : ∀ c ∈ text.toList, c ≠ '\'' ∧ c ≠ ';'

variable (table : TableName) (now : String)

def sqlLiteral (value : String) : List Char := '\'' :: (escapeQuotes value.toList ++ ['\''])

def MindsdbRow.created (r : MindsdbRow) : String := if r.createdAt = "" then now else r.createdAt

def MindsdbRow.tuple (r : MindsdbRow) : List Char :=
  '(' :: (sqlLiteral r.project ++ ',' :: ' ' :: (sqlLiteral r.file ++ ',' :: ' ' ::
    (sqlLiteral r.summary ++ ',' :: ' ' :: (sqlLiteral (r.created now) ++ [')']))))

def insertHead : List Char :=
  "INSERT INTO ".toList ++ table.text.toList ++
    " (project, file, summary, created_at) VALUES ".toList

def mindsdbInsertManyQuery (rows : List MindsdbRow) : List Char :=
  insertHead table ++ ([',', ' '].intercalate (rows.map (·.tuple now)) ++ [';'])

inductive SqlToken where
  | literal (text : String)
  | mark (c : Char)
  deriving DecidableEq

theorem length_readLiteral {cs text rest : List Char} (h : readLiteral cs = some (text, rest)) :
    rest.length < cs.length := by
  fun_induction readLiteral cs generalizing text <;> grind [Option.map_eq_some_iff]

/-- A literal is closed by a quote that is not doubled; every other character that is not blank is a
token of its own. -/
def sqlTokens : List Char → Option (List SqlToken)
  | [] => some []
  | c :: cs =>
    if c = '\'' then
      match _h : readLiteral cs with
      | none => none
      | some (text, rest) => (sqlTokens rest).map (.literal (String.ofList text) :: ·)
    else if c.isWhitespace then sqlTokens cs
    else (sqlTokens cs).map (.mark c :: ·)
termination_by cs => cs.length
decreasing_by
  · exact (length_readLiteral _h).trans (Nat.lt_succ_self _)
  all_goals simp

/-- Each statement is closed by a semicolon, and nothing follows the last one. -/
def sqlStatements (text : List Char) : Option (List (List SqlToken)) := do
  let statements := (← sqlTokens text).splitOnP (· = .mark ';')
  if statements.getLast? = some [] then some statements.dropLast else none

def marks (text : List Char) : List SqlToken := (text.filter (!·.isWhitespace)).map .mark

def readTuples (tuple : List String) : List SqlToken → Option (List (List String))
  | .literal s :: .mark ',' :: rest => readTuples (tuple ++ [s]) rest
  | [.literal s, .mark ')'] => some [tuple ++ [s]]
  | .literal s :: .mark ')' :: .mark ',' :: .mark '(' :: rest =>
    (readTuples [] rest).map ((tuple ++ [s]) :: ·)
  | _ => none

def insertedRows (statement : List SqlToken) : Option (List (List String)) :=
  if marks (insertHead table) <+: statement then
    match statement.drop (marks (insertHead table)).length with
    | [] => some []
    | .mark '(' :: rest => readTuples [] rest
    | _ => none
  else none

theorem sqlTokens_plain {l : List Char} (h : '\'' ∉ l) (rest : List Char) :
    sqlTokens (l ++ rest) = (sqlTokens rest).map (marks l ++ ·) := by
  induction l with
  | nil => cases hrest : sqlTokens rest <;> simp [marks, hrest]
  | cons c l ih =>
    obtain ⟨hc, hl⟩ := not_or.mp (mem_cons.not.mp h)
    rw [cons_append, sqlTokens, if_neg (Ne.symm hc), ih hl]
    cases hrest : sqlTokens rest <;> by_cases hblank : c.isWhitespace <;> simp [marks, hblank]

theorem sqlTokens_literal (s : String) {rest : List Char} (hrest : rest.head? ≠ some '\'') :
    sqlTokens (sqlLiteral s ++ rest) = (sqlTokens rest).map (.literal s :: ·) := by
  have hread := readLiteral_escapeQuotes s.toList hrest
  rw [sqlLiteral, cons_append, append_assoc, singleton_append, sqlTokens, if_pos rfl]
  split
  · rename_i h
    cases h.symm.trans hread
  · rename_i h
    cases h.symm.trans hread
    rw [String.ofList_toList]

variable {now}

def MindsdbRow.values (r : MindsdbRow) (now : String) : List String :=
  [r.project, r.file, r.summary, r.created now]

/-- The tokens of the tuple behind its opening bracket, and what follows. -/
def MindsdbRow.tokens (r : MindsdbRow) (now : String) (rest : List SqlToken) : List SqlToken :=
  .literal r.project :: .mark ',' :: .literal r.file :: .mark ',' :: .literal r.summary ::
    .mark ',' :: .literal (r.created now) :: .mark ')' :: rest

theorem sqlTokens_tuple (r : MindsdbRow) (rest : List Char) :
    sqlTokens (r.tuple now ++ rest) = (sqlTokens rest).map (.mark '(' :: r.tokens now ·) := by
  have hmark {c : Char} (hc : c ≠ '\'' ∧ c.isWhitespace = false) (rest : List Char) :
      sqlTokens (c :: rest) = (sqlTokens rest).map (.mark c :: ·) := by
    rw [sqlTokens, if_neg hc.1, hc.2, if_neg Bool.false_ne_true]
  have hblank (rest : List Char) : sqlTokens (' ' :: rest) = sqlTokens rest := by
    rw [sqlTokens, if_neg (by decide), if_pos (by decide)]
  simp only [MindsdbRow.tuple, cons_append, append_assoc, nil_append]
  rw [hmark (by decide), sqlTokens_literal _ (by simp), hmark (by decide), hblank,
    sqlTokens_literal _ (by simp), hmark (by decide), hblank, sqlTokens_literal _ (by simp),
    hmark (by decide), hblank, sqlTokens_literal _ (by simp), hmark (by decide)]
  simp only [Option.map_map]
  rfl

theorem exists_tokens (r : MindsdbRow) (rows : List MindsdbRow) :
    ∃ tokens, (∀ rest, sqlTokens ([',', ' '].intercalate ((r :: rows).map (·.tuple now)) ++ rest) =
        (sqlTokens rest).map (.mark '(' :: tokens ++ ·)) ∧
      readTuples [] tokens = some ((r :: rows).map (·.values now)) ∧ .mark ';' ∉ tokens := by
  induction rows generalizing r with
  | nil =>
    refine ⟨r.tokens now [], fun rest => ?_, rfl, by simp [MindsdbRow.tokens]⟩
    rw [map_singleton, intercalate_singleton, sqlTokens_tuple]
    rfl
  | cons r' rows ih =>
    obtain ⟨tokens, htokens, hread, hone⟩ := ih r'
    refine ⟨r.tokens now (.mark ',' :: .mark '(' :: tokens), fun rest => ?_, ?_, ?_⟩
    · rw [map_cons, map_cons, intercalate_cons_cons, ← map_cons, append_assoc, append_assoc,
        sqlTokens_tuple, sqlTokens_plain (by decide), htokens, Option.map_map, Option.map_map]
      rfl
    · change (readTuples [] tokens).map (r.values now :: ·) = _
      rw [hread]
      rfl
    · simp [MindsdbRow.tokens, hone]

/-- **Batch inserts are read back** as one insert into the table, with the rows as its tuples. -/
theorem insertMany_reads_back (table : TableName) (now : String) (rows : List MindsdbRow) :
    (sqlStatements (mindsdbInsertManyQuery table now rows)).map (·.map (insertedRows table)) =
      some [some (rows.map (·.values now))] := by
  have hhead {c : Char} (hc : c = '\'' ∨ c = ';') : c ∉ insertHead table := by
    have htable : c ∉ table.text.toList := fun h => hc.elim (table.plain c h).1 (table.plain c h).2
    unfold insertHead
    rw [mem_append, mem_append, not_or, not_or]
    refine ⟨⟨?_, htable⟩, ?_⟩
    · rcases hc with rfl | rfl <;> decide +kernel
    · rcases hc with rfl | rfl <;> decide +kernel
  -- the tokens of the statement, with a semicolon behind them
  obtain ⟨tokens, htokens, hread, hone⟩ : ∃ tokens,
      sqlTokens (mindsdbInsertManyQuery table now rows) =
        some (marks (insertHead table) ++ tokens ++ .mark ';' :: []) ∧
      insertedRows table (marks (insertHead table) ++ tokens) = some (rows.map (·.values now)) ∧
        .mark ';' ∉ marks (insertHead table) ++ tokens := by
    have hlast : sqlTokens [';'] = some [.mark ';'] := by simp [sqlTokens]
    have hmarks : .mark ';' ∉ marks (insertHead table) := by simp [marks, hhead]
    have hnil := sqlTokens_plain (hhead (.inl rfl))
    cases rows with
    | nil =>
      refine ⟨[], ?_, by simp [insertedRows], by simpa⟩
      simp [mindsdbInsertManyQuery, hnil, hlast]
    | cons r rows =>
      obtain ⟨tokens, htokens, hread, hone⟩ := @exists_tokens now r rows
      refine ⟨.mark '(' :: tokens, ?_, ?_, by simp [hmarks, hone]⟩
      · rw [mindsdbInsertManyQuery, hnil, htokens, hlast]
        simp
      · simp [insertedRows, hread]
  have hsplit := splitOnP_append_cons_of_forall_mem (p := (· = SqlToken.mark ';'))
    (fun x hx => decide_eq_false fun h => hone (h ▸ hx)) (.mark ';') (by simp) []
  rw [sqlStatements, htokens, Option.bind_eq_bind, Option.bind_some, hsplit]
  simp [hread]

/-! ### Fallback tables -/

structure MindsdbNames where
  base : String
  suffix : String
  py : Python := .ascii

namespace MindsdbNames

variable (names : MindsdbNames)

def fallbackTableName : String :=
  if names.suffix.toList <:+ names.base.toList then names.base else names.base ++ names.suffix

def revised (revision : ℕ) : String := names.fallbackTableName ++ "_r" ++ revision.repr

/-- The revision of a table named `{first}_r(\d+)$`: the text may end with a line break. -/
def revision? (table : String) : Option ℕ :=
  let mark := (names.fallbackTableName ++ "_r").toList
  let rest := table.toList.drop mark.length
  let digits := if rest.getLast? = some '\n' then rest.dropLast else rest
  if mark <+: table.toList ∧ digits ≠ [] then names.py.number digits else none

def nextFallbackTable (clock : ℕ) (table : String) : String :=
  if table = "" ∨ table = names.base then names.fallbackTableName
  else if table = names.fallbackTableName then names.revised 1
  else names.revised ((names.revision? table).elim clock (· + 1))

end MindsdbNames

inductive TableAnswer where
  | created
  | corrupt
  | failed
  deriving DecidableEq

/-- The table that inserts go to, the tables of the inserts under way and of the calls that are
about to switch, and the tables that inserts have found corrupt. -/
structure MindsdbState where
  target : String
  ready : Bool := false
  inserts : Dict ℕ String := .empty
  reports : Dict ℕ String := .empty
  corrupt : List String := []

inductive MindsdbOp where
  | insert (id : ℕ)
  | found (id : ℕ)
  | switch (id clock : ℕ) (answers : List TableAnswer)
  | ensure (id : ℕ) (answer : TableAnswer)

variable (names : MindsdbNames)

def activated (clock : ℕ) (candidate : String) : List TableAnswer → Option String
  | .created :: _ => some candidate
  | .corrupt :: answers => activated clock (names.nextFallbackTable clock candidate) answers
  | .failed :: _ | [] => none

def seedTable (s : MindsdbState) (table : String) : String :=
  if table ≠ "" then table else if s.target ≠ "" then s.target else names.base

def mindsdbStep (s : MindsdbState) : MindsdbOp → MindsdbState
  | .insert id =>
    { s with inserts := s.inserts.set id (if s.target ≠ "" then s.target else names.base) }
  | .found id =>
    match s.inserts.get? id with
    | none => s
    | some table =>
      { s with
        inserts := s.inserts.erase id
        reports := s.reports.set id table
        corrupt := table :: s.corrupt }
  | .switch id clock answers =>
    match s.reports.get? id with
    | none => s
    | some table =>
      let first := names.nextFallbackTable clock (seedTable names s table)
      { s with
        target := (activated names clock first (answers.take 12)).getD s.target
        ready := s.ready || (activated names clock first (answers.take 12)).isSome
        reports := s.reports.erase id }
  | .ensure id answer =>
    if s.ready then s
    else
      match answer with
      | .created => { s with target := names.base, ready := true }
      | .corrupt => { s with reports := s.reports.set id names.base }
      | .failed => s

def MindsdbState.start : MindsdbState := { target := names.base }

/-- The step does not set the target to a table that an insert has found corrupt. -/
def StaysAway (s : MindsdbState) (op : MindsdbOp) : Prop :=
  (mindsdbStep names s op).target ∈ s.corrupt → (mindsdbStep names s op).target = s.target
  deriving Decidable

/-- A report is about the table that is the target by then. -/
def ReportsTarget (s : MindsdbState) : MindsdbOp → Prop
  | .switch id _ _ => ∀ table ∈ s.reports.get? id, seedTable names s table = s.target
  | _ => True

instance (s : MindsdbState) : ∀ op, Decidable (ReportsTarget names s op)
  | .switch id _ _ => by unfold ReportsTarget; infer_instance
  | .insert _ | .found _ | .ensure _ _ => .isTrue trivial

/-- The tables in the order the fallbacks are tried. -/
def fallbackChain (n : ℕ) : String :=
  if names.fallbackTableName = names.base then names.base
  else match n with
    | 0 => names.base
    | 1 => names.fallbackTableName
    | n + 2 => names.revised (n + 1)

variable {names}

theorem toList_revised (n : ℕ) :
    (names.revised n).toList = (names.fallbackTableName ++ "_r").toList ++ Nat.toDigits 10 n := by
  rw [MindsdbNames.revised, String.toList_append, Nat.repr_eq_ofList_toDigits, String.toList_ofList]

theorem revision?_revised (n : ℕ) : names.revision? (names.revised n) = some n := by
  have hdigits : ∀ c ∈ Nat.toDigits 10 n, c.isDigit = true := fun c hc =>
    Nat.isDigit_of_mem_toDigits (by decide) (by decide) hc
  have hne : Nat.toDigits 10 n ≠ [] := Nat.toDigits_ne_nil
  have hend : (Nat.toDigits 10 n).getLast? ≠ some '\n' := fun h =>
    absurd (hdigits _ (mem_of_getLast? h)) (by decide)
  rw [MindsdbNames.revision?, toList_revised]
  simp only [drop_left, hend, hne, prefix_append, ne_eq, not_false_eq_true, and_self, if_true,
    if_false, Python.number_toDigits]

theorem length_fallbackTableName (h : names.fallbackTableName ≠ names.base) :
    names.base.length < names.fallbackTableName.length := by
  unfold MindsdbNames.fallbackTableName at h ⊢
  split_ifs at h ⊢ with hsuffix
  · exact absurd rfl h
  · rw [String.length_append]
    refine Nat.lt_add_of_pos_right (Nat.pos_of_ne_zero fun hzero => hsuffix ?_)
    rw [String.length_eq_zero_iff.mp hzero]
    exact nil_suffix

theorem length_revised (n : ℕ) : names.fallbackTableName.length < (names.revised n).length := by
  have hr : "_r".length = 2 := rfl
  rw [MindsdbNames.revised, String.length_append, String.length_append]
  omega

theorem fallbackChain_zero : fallbackChain names 0 = names.base := by
  unfold fallbackChain
  split_ifs <;> rfl

theorem nextFallbackTable_chain (clock n : ℕ) :
    names.nextFallbackTable clock (fallbackChain names n) = fallbackChain names (n + 1) := by
  unfold fallbackChain
  by_cases hsame : names.fallbackTableName = names.base
  · simp [hsame, MindsdbNames.nextFallbackTable]
  · have hlen := length_fallbackTableName hsame
    have hnext := @length_revised names
    rw [if_neg hsame, if_neg hsame]
    match n with
    | 0 => simp [MindsdbNames.nextFallbackTable]
    | 1 =>
      have hne : names.fallbackTableName ≠ "" := by
        rintro h
        simp [h] at hlen
      simp [MindsdbNames.nextFallbackTable, hne, hsame]
    | n + 2 =>
      have hne : names.revised (n + 1) ≠ "" ∧ names.revised (n + 1) ≠ names.base ∧
          names.revised (n + 1) ≠ names.fallbackTableName := by
        have hlater := hnext (n + 1)
        refine ⟨?_, ?_, ?_⟩ <;> intro h <;> simp only [h, String.length_empty] at hlater <;> omega
      simp [MindsdbNames.nextFallbackTable, hne, revision?_revised]

theorem fallbackChain_injective (hsame : names.fallbackTableName ≠ names.base) :
    Function.Injective (fallbackChain names) := by
  have hlen := length_fallbackTableName hsame
  have hnext := @length_revised names
  intro m k h
  unfold fallbackChain at h
  rw [if_neg hsame, if_neg hsame] at h
  match m, k with
  | 0, 0 | 1, 1 => rfl
  | 0, 1 => exact absurd h.symm hsame
  | 1, 0 => exact absurd h hsame
  | 0, k + 2 | 1, k + 2 =>
    have := hnext (k + 1)
    simp only at h
    rw [← h] at this
    omega
  | m + 2, 0 | m + 2, 1 =>
    have := hnext (m + 1)
    simp only at h
    rw [h] at this
    omega
  | m + 2, k + 2 =>
    have := congrArg names.revision? h
    simpa [revision?_revised] using this

theorem fallbackTableName_eq_base_iff :
    names.fallbackTableName = names.base ↔ names.suffix.toList <:+ names.base.toList := by
  unfold MindsdbNames.fallbackTableName
  split_ifs with hsuffix
  · exact iff_of_true rfl hsuffix
  · refine iff_of_false (fun h => hsuffix ?_) hsuffix
    rw [String.append_eq_left_iff.mp h]
    exact nil_suffix

/-- The tables one gets from the base table, with the clock of each call. -/
def MindsdbNames.fallbackTables (names : MindsdbNames) (clocks : ℕ → ℕ) : ℕ → String
  | 0 => names.base
  | n + 1 => names.nextFallbackTable (clocks n) (names.fallbackTables clocks n)

theorem fallbackTables_eq (clocks : ℕ → ℕ) (n : ℕ) :
    names.fallbackTables clocks n = fallbackChain names n := by
  induction n with
  | zero => exact fallbackChain_zero.symm
  | succ n ih => rw [MindsdbNames.fallbackTables, ih, nextFallbackTable_chain]

/-- **Fallback tables never repeat** exactly if the base table does not end with the suffix. -/
theorem fallback_tables_differ_iff (names : MindsdbNames) (clocks : ℕ → ℕ) :
    (Function.Injective (names.fallbackTables clocks) ∧
        ∀ n, names.fallbackTables clocks (n + 1) ≠ names.fallbackTables clocks n) ↔
      ¬ names.suffix.toList <:+ names.base.toList := by
  have hchain : names.fallbackTables clocks = fallbackChain names :=
    funext (fallbackTables_eq clocks)
  rw [hchain, ← fallbackTableName_eq_base_iff]
  constructor
  · rintro ⟨-, hnext⟩ hsame
    refine hnext 0 ?_
    simp [fallbackChain, hsame]
  · intro hsame
    have hinjective := fallbackChain_injective hsame
    exact ⟨hinjective, fun n => hinjective.ne n.succ_ne_self⟩

/-- A base table that ends with the suffix is its own fallback. -/
theorem versioned_base_repeats :
    MindsdbNames.fallbackTables { base := "events_v2", suffix := "_v2" } (fun _ => 0) 1 =
      MindsdbNames.fallbackTables { base := "events_v2", suffix := "_v2" } (fun _ => 0) 0 := by
  decide +kernel

theorem fallbackChain_later {m n k : ℕ} (hm : m ≤ n) (hk : n < k)
    (h : fallbackChain names k = fallbackChain names m) :
    fallbackChain names k = fallbackChain names n := by
  by_cases hsame : names.fallbackTableName = names.base
  · simp [fallbackChain, hsame]
  · have := fallbackChain_injective hsame h
    omega

variable {answers : List TableAnswer}

theorem activated_chain {clock n : ℕ} {table : String}
    (h : activated names clock (fallbackChain names n) answers = some table) :
    ∃ k ≥ n, table = fallbackChain names k := by
  induction answers generalizing n with
  | nil => cases h
  | cons a answers ih =>
    cases a with
    | created => exact ⟨n, le_rfl, (Option.some.inj h).symm⟩
    | corrupt =>
      rw [activated, nextFallbackTable_chain] at h
      obtain ⟨k, hk, rfl⟩ := ih h
      exact ⟨k, (Nat.le_succ n).trans hk, rfl⟩
    | failed => cases h

/-- The target is the `n`-th table of the chain, and no insert has used or is using a later one. -/
structure Progressing (names : MindsdbNames) (n : ℕ) (s : MindsdbState) : Prop where
  target : s.target = fallbackChain names n
  waiting : s.ready = false → s.target = names.base
  corrupt : ∀ table ∈ s.corrupt, ∃ m ≤ n, table = fallbackChain names m
  inserts : ∀ id table, s.inserts.get? id = some table → ∃ m ≤ n, table = fallbackChain names m

variable {s : MindsdbState} {n : ℕ}

section

variable (h : Progressing names n s)

include h

theorem Progressing.insert (id : ℕ) : Progressing names n (mindsdbStep names s (.insert id)) := by
  refine { h with inserts := fun id' table hget => ?_ }
  rcases Dict.get?_set_eq_some.mp hget with ⟨-, rfl⟩ | ⟨-, hget⟩
  · split_ifs
    · exact ⟨n, le_rfl, h.target⟩
    · exact ⟨0, n.zero_le, fallbackChain_zero.symm⟩
  · exact h.inserts id' table hget

theorem Progressing.found (id : ℕ) : Progressing names n (mindsdbStep names s (.found id)) := by
  simp only [mindsdbStep]
  split
  · exact h
  · next table hget =>
    refine { h with corrupt := ?_, inserts := fun id' table' hget' => ?_ }
    · exact forall_mem_cons.mpr ⟨h.inserts id table hget, h.corrupt⟩
    · exact h.inserts id' table' (Dict.get?_erase_eq_some.mp hget').2

theorem Progressing.ensure (id : ℕ) (answer : TableAnswer) :
    Progressing names n (mindsdbStep names s (.ensure id answer)) ∧
      (mindsdbStep names s (.ensure id answer)).target = s.target := by
  simp only [mindsdbStep]
  split_ifs with hready
  · exact ⟨h, rfl⟩
  · have hbase := h.waiting (Bool.eq_false_iff.mpr hready)
    cases answer with
    | created =>
      refine ⟨{ h with target := hbase ▸ h.target, waiting := fun _ => rfl }, hbase.symm⟩
    | corrupt => exact ⟨{ h with }, rfl⟩
    | failed => exact ⟨h, rfl⟩

theorem Progressing.switch {id clock : ℕ} (hok : ReportsTarget names s (.switch id clock answers)) :
    StaysAway names s (.switch id clock answers) ∧
      ∃ k, Progressing names k (mindsdbStep names s (.switch id clock answers)) := by
  simp only [StaysAway, mindsdbStep]
  cases hreport : s.reports.get? id with
  | none => exact ⟨fun _ => rfl, n, h⟩
  | some table =>
    have hfirst : names.nextFallbackTable clock (seedTable names s table) =
        fallbackChain names (n + 1) := by
      rw [hok table hreport, h.target, nextFallbackTable_chain]
    simp only [hfirst]
    cases hactive : activated names clock (fallbackChain names (n + 1)) (answers.take 12) with
    | none => exact ⟨fun _ => rfl, n, { h with waiting := by simpa using h.waiting }⟩
    | some t =>
      obtain ⟨k, hk, rfl⟩ := activated_chain hactive
      have hn : n ≤ k := (Nat.le_succ n).trans hk
      refine ⟨fun hmem => ?_, k, ?_⟩
      · obtain ⟨m, hm, htable⟩ := h.corrupt _ hmem
        exact (fallbackChain_later hm hk htable).trans h.target.symm
      · refine ⟨rfl, by simp, fun t ht => ?_, fun id' t ht => ?_⟩
        · obtain ⟨m, hm, rfl⟩ := h.corrupt t ht
          exact ⟨m, hm.trans hn, rfl⟩
        · obtain ⟨m, hm, rfl⟩ := h.inserts id' t ht
          exact ⟨m, hm.trans hn, rfl⟩

theorem Progressing.step {op : MindsdbOp} (hok : ReportsTarget names s op) :
    StaysAway names s op ∧ ∃ k, Progressing names k (mindsdbStep names s op) := by
  cases op with
  | insert id => exact ⟨fun _ => rfl, n, h.insert id⟩
  | found id =>
    refine ⟨fun _ => ?_, n, h.found id⟩
    rw [(h.found id).target, h.target]
  | switch id clock answers => exact h.switch hok
  | ensure id answer => exact ⟨fun _ => (h.ensure id answer).2, n, (h.ensure id answer).1⟩

end

/-- **No way back to a corrupt table.** If every switch is made for the table that is the target by
then, no step of a run makes a table the target again that an insert has found corrupt. -/
theorem mindsdb_never_back (names : MindsdbNames) (ops : List MindsdbOp)
    (hops : Along (mindsdbStep names) (ReportsTarget names) (.start names) ops) :
    Along (mindsdbStep names) (StaysAway names) (.start names) ops := by
  have hstart : ∃ n, Progressing names n (.start names) := by
    refine ⟨0, fallbackChain_zero.symm, fun _ => rfl, fun _ h => ?_, fun _ _ h => ?_⟩ <;> cases h
  rw [along_iff] at hops ⊢
  rintro pre op post rfl
  have hpre : Along (mindsdbStep names) (ReportsTarget names) (.start names) pre :=
    (along_append.mp (along_iff.mpr hops)).1
  have hkeep (s : MindsdbState) (op : MindsdbOp) (hs : ∃ n, Progressing names n s)
      (hok : ReportsTarget names s op) : ∃ n, Progressing names n (mindsdbStep names s op) :=
    hs.elim fun _ h => (h.step hok).2
  obtain ⟨n, h⟩ := hpre.invariant hkeep hstart
  exact (h.step (hops pre op post rfl)).1

def memoryEvents : MindsdbNames := { base := "memory_events", suffix := "_v2" }

/-- Two inserts into the first table, and one into the second, find their table corrupt. -/
def twoCorrupt : List MindsdbOp :=
  [.insert 1, .insert 2, .found 1, .switch 1 0 [.created], .insert 3, .found 3,
    .switch 3 0 [.created]]

theorem mindsdb_never_back_memoryEvents :
    Along (mindsdbStep memoryEvents) (StaysAway memoryEvents) (.start memoryEvents) twoCorrupt := by
  refine mindsdb_never_back memoryEvents twoCorrupt ?_
  decide +kernel

/-- The second insert reports the first table last, and the target is the second table again. -/
theorem late_report_goes_back :
    ¬ Along (mindsdbStep memoryEvents) (StaysAway memoryEvents) (.start memoryEvents)
      (twoCorrupt ++ [.found 2, .switch 2 0 [.created]]) := by
  decide +kernel

end ContextLattice
