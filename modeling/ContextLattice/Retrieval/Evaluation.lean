import Mathlib.Algebra.Order.Field.Basic
import Mathlib.Algebra.Order.Field.Rat
import Mathlib.Tactic.Linarith
import ContextLattice.Foundation.Search
import ContextLattice.Write.System

/-!
# Recall evaluation

`evaluate_memory_recall` runs the searches of its cases and reports how many of them find what they
expect within the first `k` rows, at which rank, and how many expected numbers.
-/

namespace ContextLattice

open Foundation List

structure EvalRow where
  file : String
  project : String
  source : String
  summary : String

/-- A case with the answer of its search: the rows, some of them no objects, and the values of the
numeric facts. -/
structure EvalCase where
  expectedFiles : List String
  expectedSubstrings : List String
  expectedNumeric : List String
  results : List (Option EvalRow)
  factValues : List String

structure RecallTally where
  hits : ℕ := 0
  reciprocalRanks : ℚ := 0
  evaluated : ℕ := 0
  numericExpected : ℕ := 0
  numericMatched : ℕ := 0

variable (lib : WriteLib)

def normalizeExpectedFileToken (file : String) : Except HttpError String :=
  (normalizeMemoryPath lib file).map lib.py.stripLower

def resultHitsExpectations (files terms : List String) (row : EvalRow) : Except HttpError Bool := do
  let rowFile ← normalizeExpectedFileToken lib row.file
  let haystack := joinText "\n"
    (rowFile :: [row.project, row.source, row.summary].map lib.py.stripLower)
  .ok ((rowFile ≠ "" ∧ ∃ f ∈ files, f.toList <:+ rowFile.toList) ∨
    ∃ t ∈ terms, t ≠ "" ∧ isIn t haystack)

def matchRank (hit : EvalRow → Except HttpError Bool) :
    ℕ → List (Option EvalRow) → Except HttpError (Option ℕ)
  | _, [] => .ok none
  | index, none :: rows => matchRank hit (index + 1) rows
  | index, some row :: rows => do
    if ← hit row then .ok (some index) else matchRank hit (index + 1) rows

def matchRankWithinK (results : List (Option EvalRow)) (files terms : List String) (k : ℕ) :
    Except HttpError (Option ℕ) :=
  if files = [] ∧ terms = [] then .ok none
  else matchRank (resultHitsExpectations lib files terms) 1 (results.take (max 1 k))

def reciprocalRank (rank : Option ℕ) : ℚ := rank.elim 0 (1 / ·)

def evaluateCase (k : ℕ) (t : RecallTally) (c : EvalCase) : Except HttpError RecallTally := do
  let tokens ← c.expectedFiles.mapM (normalizeExpectedFileToken lib)
  let files := tokens.filter (· ≠ "")
  let terms := (c.expectedSubstrings.filter (strip · ≠ "")).map lib.py.stripLower
  let numeric := ((c.expectedNumeric.map strip).filter (· ≠ "")).eraseDups
  let rank ← matchRankWithinK lib c.results files terms k
  let t := { t with
    numericExpected := t.numericExpected + numeric.length
    numericMatched := t.numericMatched + (numeric.filter (· ∈ c.factValues.map strip)).length }
  .ok <| if files = [] ∧ terms = [] then t else { t with
    hits := t.hits + rank.isSome.toNat
    reciprocalRanks := t.reciprocalRanks + reciprocalRank rank
    evaluated := t.evaluated + 1 }

def evalK (k : ℕ) : ℕ := max 1 (min k 20)

def evaluateMemoryRecall (k : ℕ) (cases : List EvalCase) : Except HttpError RecallTally :=
  if cases = [] then .error ⟨400, "at least one evaluation case is required"⟩
  else cases.foldlM (evaluateCase lib (evalK k)) {}

namespace RecallTally

variable (t : RecallTally)

def recallAtK : ℚ := if 0 < t.evaluated then t.hits / t.evaluated else 0

def mrr : ℚ := if 0 < t.evaluated then t.reciprocalRanks / t.evaluated else 0

def numericExactness : ℚ :=
  if 0 < t.numericExpected then t.numericMatched / t.numericExpected else 1

def passed (minRecallAtK minMrr minNumericExactness : ℚ) : Prop :=
  0 < t.evaluated ∧ minRecallAtK ≤ t.recallAtK ∧ minMrr ≤ t.mrr ∧
    minNumericExactness ≤ t.numericExactness

structure Coherent (k : ℕ) : Prop where
  nonneg : 0 ≤ t.reciprocalRanks
  le_hits : t.reciprocalRanks ≤ t.hits
  hits_le : t.hits ≤ t.evaluated
  hits_le_mul : t.hits ≤ k * t.reciprocalRanks
  matched_le : t.numericMatched ≤ t.numericExpected

end RecallTally

variable {lib} {t t' : RecallTally} {k : ℕ}

theorem matchRank_bounds {hit : EvalRow → Except HttpError Bool} {rows : List (Option EvalRow)}
    {index r : ℕ} (h : matchRank hit index rows = .ok (some r)) :
    index ≤ r ∧ r < index + rows.length := by
  induction rows generalizing index with
  | nil => cases h
  | cons row rows ih =>
    rw [length_cons]
    cases row with
    | none =>
      have := ih h
      omega
    | some row =>
      obtain ⟨b, -, h⟩ := bind_eq_ok h
      cases b with
      | true =>
        cases h
        omega
      | false =>
        have := ih h
        omega

theorem matchRankWithinK_bounds {results : List (Option EvalRow)} {files terms : List String}
    {r : ℕ} (hk : 0 < k) (h : matchRankWithinK lib results files terms k = .ok (some r)) :
    0 < r ∧ r ≤ k := by
  unfold matchRankWithinK at h
  split_ifs at h
  · cases h
  · have hr := matchRank_bounds h
    have hlength := length_take_le (max 1 k) results
    omega

/-- A rank within the first `k` is a hit, whose reciprocal is at most one and at least the `k`-th
part of one. -/
theorem reciprocal_bounds {rank : Option ℕ} (h : ∀ r ∈ rank, 0 < r ∧ r ≤ k) :
    0 ≤ reciprocalRank rank ∧ reciprocalRank rank ≤ rank.isSome.toNat ∧
      rank.isSome.toNat ≤ k * reciprocalRank rank := by
  cases rank with
  | none => simp [reciprocalRank]
  | some r =>
    obtain ⟨hr, hrk⟩ := h r rfl
    have hpos : (0 : ℚ) < r := Nat.cast_pos.mpr hr
    have hle : (r : ℚ) ≤ k := Nat.cast_le.mpr hrk
    have hone : (1 : ℚ) ≤ r := Nat.one_le_cast.mpr hr
    refine ⟨one_div_nonneg.mpr hpos.le, ?_, ?_⟩
    · simpa [reciprocalRank] using (div_le_one hpos).mpr hone
    · simpa [reciprocalRank, ← div_eq_mul_inv] using (one_le_div hpos).mpr hle

theorem RecallTally.Coherent.step (hk : 0 < k) (h : t.Coherent k) {c : EvalCase}
    (hok : evaluateCase lib k t c = .ok t') : t'.Coherent k := by
  obtain ⟨tokens, -, hok⟩ := bind_eq_ok hok
  obtain ⟨rank, hrank, hok⟩ := bind_eq_ok hok
  obtain ⟨h0, h1, h2⟩ := reciprocal_bounds fun r hr =>
    matchRankWithinK_bounds hk (hrank.trans (congrArg _ hr))
  have hmatched (l : List String) (p : String → Bool) :
      t.numericMatched + (l.filter p).length ≤ t.numericExpected + l.length :=
    Nat.add_le_add h.matched_le (length_filter_le ..)
  have hsome : rank.isSome.toNat ≤ 1 := Bool.toNat_le _
  cases hok
  split_ifs
  · exact { h with matched_le := hmatched _ _ }
  · refine ⟨add_nonneg h.nonneg h0, ?_, Nat.add_le_add h.hits_le hsome, ?_, hmatched _ _⟩
    · push_cast
      exact add_le_add h.le_hits h1
    · push_cast
      rw [mul_add]
      exact add_le_add h.hits_le_mul h2

theorem coherent_evaluateMemoryRecall {cases : List EvalCase}
    (h : evaluateMemoryRecall lib k cases = .ok t) : t.Coherent (evalK k) := by
  have hk : 0 < evalK k := lt_of_lt_of_le one_pos (le_max_left ..)
  have hrun (cases : List EvalCase) (s : RecallTally) (hs : s.Coherent (evalK k))
      (h : cases.foldlM (evaluateCase lib (evalK k)) s = .ok t) : t.Coherent (evalK k) := by
    induction cases generalizing s with
    | nil =>
      cases h
      exact hs
    | cons c cases ih =>
      rw [foldlM_cons] at h
      obtain ⟨next, hnext, h⟩ := bind_eq_ok h
      exact ih next (hs.step hk hnext) h
  unfold evaluateMemoryRecall at h
  split_ifs at h
  exact hrun cases _ ⟨le_rfl, le_rfl, le_rfl, by simp, le_rfl⟩ h

/-- **Recall metrics are coherent**, for every list of cases and every answer to their searches, and
lower gates never fail an evaluation that has passed. -/
theorem recall_metrics_coherent {cases : List EvalCase}
    (h : evaluateMemoryRecall lib k cases = .ok t) :
    (0 ≤ t.mrr ∧ t.mrr ≤ t.recallAtK ∧ t.recallAtK ≤ 1 ∧ t.recallAtK ≤ evalK k * t.mrr) ∧
      (0 ≤ t.numericExactness ∧ t.numericExactness ≤ 1) ∧
      ∀ r m n r' m' n', r' ≤ r → m' ≤ m → n' ≤ n → t.passed r m n → t.passed r' m' n' := by
  have hc := coherent_evaluateMemoryRecall h
  refine ⟨?_, ?_, ?_⟩
  · unfold RecallTally.mrr RecallTally.recallAtK
    split_ifs with hpos
    · have hpos : (0 : ℚ) < t.evaluated := Nat.cast_pos.mpr hpos
      refine ⟨div_nonneg hc.nonneg hpos.le, div_le_div_of_nonneg_right hc.le_hits hpos.le,
        (div_le_one hpos).mpr (Nat.cast_le.mpr hc.hits_le), ?_⟩
      rw [← mul_div_assoc]
      exact div_le_div_of_nonneg_right hc.hits_le_mul hpos.le
    · simp
  · unfold RecallTally.numericExactness
    split_ifs with hpos
    · have hpos : (0 : ℚ) < t.numericExpected := Nat.cast_pos.mpr hpos
      exact ⟨by positivity, (div_le_one hpos).mpr (Nat.cast_le.mpr hc.matched_le)⟩
    · simp
  · rintro r m n r' m' n' hr hm hn ⟨heval, hr', hm', hn'⟩
    exact ⟨heval, hr.trans hr', hm.trans hm', hn.trans hn'⟩

def evalCase : EvalCase where
  expectedFiles := ["notes/a.md"]
  expectedSubstrings := []
  expectedNumeric := ["42", "7"]
  results := [none, some ⟨"notes/A.md", "docs", "qdrant", "text"⟩]
  factValues := ["42"]

theorem recall_metrics_coherent_second :
    ∃ t, evaluateMemoryRecall .plain 5 [evalCase] = .ok t ∧
      t.mrr ≤ t.recallAtK ∧ t.recallAtK ≤ evalK 5 * t.mrr := by
  have hok : evaluateMemoryRecall .plain 5 [evalCase] = .ok _ := rfl
  obtain ⟨⟨-, hle, -, hmul⟩, -⟩ := recall_metrics_coherent hok
  exact ⟨_, hok, hle, hmul⟩

end ContextLattice
