import Mathlib.Data.Prod.Lex
import ContextLattice.Retrieval.Fusion

/-!
# The recall pipeline

`_run_memory_recall_pipeline` searches for every variant of a query, and again in a deeper mode as
long as the answer misses the thresholds. The answers of a variant (its **hops**) are merged to
three times the limit, the variants to the limit.
-/

namespace ContextLattice

open Foundation List

/-! ### Ranked merges -/

variable (env : RetrievalEnv)

def MergedRow.rank (r : MergedRow) : Lex (ℚ × ℚ) := toLex (r.score, r.baseScore)

def mergeRankedResultSets (drawn : ℕ → String) (resultSets : List (List MergedRow)) (limit : ℕ) :
    List MergedRow :=
  let merged := gather (better MergedRow.score) (keyed env MergedRow.row drawn resultSets.flatten)
  (byRank MergedRow.rank (merged.rows.map Prod.snd)).take (max 1 limit)

variable {env} {drawn : ℕ → String} {sets : List (List MergedRow)} {limit : ℕ}

def bestRows (env : RetrievalEnv) (rows : List MergedRow) : List MergedRow :=
  (gather (better MergedRow.score) (rows.map fun r => (identityOf env r.row, r))).rows.map
    Prod.snd

theorem mergeRanked_eq (h : ∀ r ∈ sets.flatten, Identified env r.row) :
    mergeRankedResultSets env drawn sets limit =
      (byRank MergedRow.rank (bestRows env sets.flatten)).take (max 1 limit) := by
  rw [mergeRankedResultSets, keyed_of_identified h, bestRows]

def rowsOf (env : RetrievalEnv) (key : String) (rows : List MergedRow) : List MergedRow :=
  rows.filter fun r => identityOf env r.row = key

theorem itemsOf_map (key : String) (rows : List MergedRow) :
    itemsOf key (rows.map fun r => (identityOf env r.row, r)) = rowsOf env key rows := by
  rw [itemsOf, filter_map, map_map, rowsOf]
  exact map_id _

theorem get?_gather_rows (rows : List MergedRow) (key : String) :
    Dict.get? (gather (better MergedRow.score) (rows.map fun r => (identityOf env r.row, r))) key =
      bestOf MergedRow.score (rowsOf env key rows) := by
  rw [get?_gather, itemsOf_map, bestOf]

variable {rows : List MergedRow} {r : MergedRow}

theorem mem_bestRows :
    r ∈ bestRows env rows ↔
      bestOf MergedRow.score (rowsOf env (identityOf env r.row) rows) = some r := by
  constructor
  · intro h
    obtain ⟨⟨key, r⟩, hmem, rfl⟩ := mem_map.mp h
    have hbest := Dict.get?_eq_some.mpr hmem
    rw [get?_gather_rows] at hbest
    obtain rfl : identityOf env r.row = key := by
      simpa using (mem_filter.mp (bestOf_eq_some hbest).1).2
    exact hbest
  · intro h
    rw [← get?_gather_rows] at h
    exact mem_map.mpr ⟨_, Dict.get?_eq_some.mp h, rfl⟩

theorem nodup_bestRows (rows : List MergedRow) :
    ((bestRows env rows).map fun r => identityOf env r.row).Nodup := by
  have hkeys : (bestRows env rows).map (fun r => identityOf env r.row) =
      (gather (better MergedRow.score) (rows.map fun r => (identityOf env r.row, r))).rows.map
        Prod.fst := by
    rw [bestRows, map_map]
    refine map_congr_left fun p hp => ?_
    have hbest := Dict.get?_eq_some.mpr hp
    rw [get?_gather_rows] at hbest
    simpa using (mem_filter.mp (bestOf_eq_some hbest).1).2
  rw [hkeys]
  exact Table.nodup _

theorem bestRows_subset (h : r ∈ bestRows env rows) : r ∈ rows :=
  mem_of_mem_filter (bestOf_eq_some (mem_bestRows.mp h)).1

theorem length_bestRows_le (rows : List MergedRow) : (bestRows env rows).length ≤ rows.length := by
  have hnodup : (bestRows env rows).Nodup := List.Nodup.of_map _ (nodup_bestRows rows)
  exact (hnodup.subperm fun r hr => bestRows_subset hr).length_le

theorem rowsOf_perm_bestRows {rows l : List MergedRow} (h : l.Perm (bestRows env rows))
    (key : String) :
    rowsOf env key l = (bestOf MergedRow.score (rowsOf env key rows)).toList := by
  have hnodup : (rowsOf env key l).Nodup :=
    (h.nodup_iff.mpr (List.Nodup.of_map _ (nodup_bestRows rows))).filter _
  have hmem (r : MergedRow) : r ∈ rowsOf env key l ↔
      r ∈ (bestOf MergedRow.score (rowsOf env key rows)).toList := by
    rw [rowsOf, mem_filter, h.mem_iff, mem_bestRows, decide_eq_true_eq, Option.mem_toList]
    constructor
    · rintro ⟨hbest, rfl⟩
      exact hbest
    · intro hbest
      obtain rfl : identityOf env r.row = key := by
        simpa using (mem_filter.mp (bestOf_eq_some hbest).1).2
      exact ⟨hbest, rfl⟩
  have htoList (o : Option MergedRow) : o.toList.Nodup := by cases o <;> simp
  have hperm := (perm_ext_iff_of_nodup hnodup (htoList _)).mpr hmem
  cases hbest : bestOf MergedRow.score (rowsOf env key rows) with
  | none => exact perm_nil.mp (by simpa [hbest] using hperm)
  | some r => exact perm_singleton.mp (by simpa [hbest] using hperm)

theorem perm_two_stage {parts : List (List MergedRow)} {merged : List (List MergedRow)}
    (h : List.Forall₂ (fun l rows => l.Perm (bestRows env rows)) merged parts) :
    (bestRows env merged.flatten).Perm (bestRows env parts.flatten) := by
  suffices hbest : ∀ key, bestOf MergedRow.score (rowsOf env key merged.flatten) =
      bestOf MergedRow.score (rowsOf env key parts.flatten) by
    refine (perm_ext_iff_of_nodup (List.Nodup.of_map _ (nodup_bestRows _))
      (List.Nodup.of_map _ (nodup_bestRows _))).mpr fun r => ?_
    rw [mem_bestRows, mem_bestRows, hbest]
  intro key
  have hparts : rowsOf env key merged.flatten =
      (parts.map (rowsOf env key)).flatMap fun l => (bestOf MergedRow.score l).toList := by
    induction h with
    | nil => rfl
    | cons hperm _ ih =>
      rw [flatten_cons, rowsOf, filter_append, ← rowsOf, ← rowsOf, ih,
        rowsOf_perm_bestRows hperm, map_cons, flatMap_cons]
  have hflat : rowsOf env key parts.flatten = (parts.map (rowsOf env key)).flatten := by
    rw [rowsOf, filter_flatten]
    rfl
  rw [hparts, bestOf_flatMap, hflat]

/-- The rows are ranked, no two have the same identity, there are not more than the limit, and the
first has the best score of all. -/
structure RankedBest (env : RetrievalEnv) (limit : ℕ) (rows merged : List MergedRow) : Prop where
  sorted : merged.Pairwise fun a b => b.score ≤ a.score
  nodup : (merged.map fun r => identityOf env r.row).Nodup
  length_le : merged.length ≤ limit
  top : ∀ r ∈ rows, ∃ first ∈ merged.head?, first ∈ rows ∧ r.score ≤ first.score

theorem MergedRow.score_le_of_rank_le {a b : MergedRow} (h : a.rank ≤ b.rank) :
    a.score ≤ b.score := by
  rcases Prod.Lex.le_iff.mp h with h | h
  · exact h.le
  · exact h.1.le

theorem rankedBest_take {rows best : List MergedRow} (hperm : best.Perm (bestRows env rows))
    (hlimit : 1 ≤ limit) :
    RankedBest env limit rows ((byRank MergedRow.rank best).take limit) := by
  have hsorted : (byRank MergedRow.rank best).Pairwise _ := pairwise_byRank best
  have hall : (byRank MergedRow.rank best).Perm (bestRows env rows) :=
    (perm_insertionSort _ best).trans hperm
  refine ⟨?_, ?_, length_take_le .., fun r hr => ?_⟩
  · exact (hsorted.imp fun h => MergedRow.score_le_of_rank_le h).sublist (take_sublist ..)
  · exact ((hall.map _).nodup_iff.mpr (nodup_bestRows rows)).sublist
      ((take_sublist ..).map _)
  · obtain ⟨b, hbest⟩ : ∃ b, bestOf MergedRow.score (rowsOf env (identityOf env r.row) rows) =
        some b := by
      refine Option.ne_none_iff_exists'.mp fun hnone => ?_
      have hmem : r ∈ rowsOf env (identityOf env r.row) rows := by simp [rowsOf, hr]
      simp [bestOf_eq_none.mp hnone] at hmem
    obtain ⟨hb, hmax⟩ := bestOf_eq_some hbest
    have hsame : identityOf env b.row = identityOf env r.row := by
      simpa using (mem_filter.mp hb).2
    have hmem : b ∈ byRank MergedRow.rank best :=
      hall.mem_iff.mpr (mem_bestRows.mpr (hsame ▸ hbest))
    cases hlist : byRank MergedRow.rank best with
    | nil => simp [hlist] at hmem
    | cons first rest =>
      obtain ⟨n, rfl⟩ : ∃ n, limit = n + 1 := ⟨limit - 1, by omega⟩
      have hfirst : first ∈ bestRows env rows := hall.mem_iff.mp (by simp [hlist])
      refine ⟨first, by simp, bestRows_subset hfirst, ?_⟩
      have hle : b.score ≤ first.score := by
        rw [hlist] at hmem hsorted
        rcases mem_cons.mp hmem with rfl | hmem
        · exact le_rfl
        · exact MergedRow.score_le_of_rank_le ((pairwise_cons.mp hsorted).1 b hmem)
      exact (hmax r (by simp [rowsOf, hr])).trans hle

/-! ### Hops -/

structure RecallConfig where
  escalationEnabled : Bool
  escalateMinResults : ℕ
  escalateMinTopScore : ℚ
  maxEscalationSteps : ℕ
  one_le_minResults : 1 ≤ escalateMinResults
  minTopScore_nonneg : 0 ≤ escalateMinTopScore
  minTopScore_le_one : escalateMinTopScore ≤ 1
  one_le_steps : 1 ≤ maxEscalationSteps

structure RecallThresholds where
  minResults : ℕ
  minTopScore : ℚ
  one_le_minResults : 1 ≤ minResults
  nonneg : 0 ≤ minTopScore
  le_one : minTopScore ≤ 1

structure Hop where
  mode : RetrievalMode
  results : List MergedRow

variable (cfg : RecallConfig)

def topResultScore (results : List MergedRow) : ℚ := ((results.map MergedRow.score).max?).getD 0

def recallShouldEscalate (minResults : ℕ) (minTopScore : ℚ) (results : List MergedRow) : Bool :=
  results.length < max 1 minResults || topResultScore results < min 1 (max 0 minTopScore)

def nextRetrievalMode : RetrievalMode → RetrievalMode
  | .fast => .balanced
  | _ => .deep

def usedMinResults (profile : Option RecallThresholds) : ℕ :=
  ((profile.map (·.minResults)).filter (· ≠ 0)).getD cfg.escalateMinResults

def usedMinTopScore (profile : Option RecallThresholds) : ℚ :=
  ((profile.map (·.minTopScore)).filter (· ≠ 0)).getD cfg.escalateMinTopScore

def recallHops (escalates : List MergedRow → Bool) (search : RetrievalMode → List MergedRow) :
    ℕ → ℕ → RetrievalMode → List Hop
  | 0, _, _ => []
  | turns + 1, hopCount, mode =>
    ⟨mode, search mode⟩ ::
      if escalates (search mode) ∧ mode ≠ .deep ∧ hopCount + 1 < cfg.maxEscalationSteps then
        recallHops escalates search turns (hopCount + 1) (nextRetrievalMode mode)
      else []

def variantHops (autoEscalate : Bool) (profile : Option RecallThresholds) (start : RetrievalMode)
    (search : RetrievalMode → List MergedRow) : List Hop :=
  recallHops cfg (fun results => cfg.escalationEnabled && autoEscalate &&
    recallShouldEscalate (usedMinResults cfg profile) (usedMinTopScore cfg profile) results)
    search 3 0 start

def RetrievalMode.depth : RetrievalMode → ℕ
  | .fast => 0
  | .balanced => 1
  | .deep => 2

variable {mode : RetrievalMode}

theorem RetrievalMode.depth_next (h : mode ≠ .deep) :
    (nextRetrievalMode mode).depth = mode.depth + 1 := by
  cases mode with
  | deep => exact absurd rfl h
  | fast | balanced => rfl

/-- The loop takes a turn, at most one for each mode that is left; the modes get deeper; and it goes
on exactly if the answer asks for it and a mode and a turn are left. -/
structure Escalates (E : List MergedRow → Bool) (k : ℕ) (mode : RetrievalMode)
    (hops : List Hop) : Prop where
  ne_nil : hops ≠ []
  modes : hops.length + mode.depth ≤ 3
  steps : k + hops.length ≤ cfg.maxEscalationSteps
  from_mode : ∀ hop ∈ hops, mode.depth ≤ hop.mode.depth
  deeper : hops.Pairwise fun a b => a.mode.depth < b.mode.depth
  further : ∀ pre hop post, hops = pre ++ hop :: post →
    (post ≠ [] ↔ E hop.results = true ∧ hop.mode ≠ .deep ∧
      k + pre.length + 1 < cfg.maxEscalationSteps)

variable {cfg}

variable {turns k : ℕ}

theorem escalates_recallHops (E : List MergedRow → Bool) (search : RetrievalMode → List MergedRow)
    (hturns : 3 ≤ turns + mode.depth) (hk : k < cfg.maxEscalationSteps) :
    Escalates cfg E k mode (recallHops cfg E search turns k mode) := by
  induction turns generalizing k mode with
  | zero => cases mode <;> simp [RetrievalMode.depth] at hturns
  | succ turns ih =>
    rw [recallHops]
    split
    · rename_i hgo
      obtain ⟨hescalates, hdeep, hsteps⟩ := hgo
      have hdepth := RetrievalMode.depth_next hdeep
      have hnext : 3 ≤ turns + (nextRetrievalMode mode).depth := by omega
      obtain ⟨hne, hmodes, hlength, hdeeper, hpairwise, hfurther⟩ := ih hnext hsteps
      refine ⟨cons_ne_nil _ _, by simp only [length_cons]; omega,
        by simp only [length_cons]; omega, ?_, ?_, ?_⟩
      · rintro hop (_ | ⟨_, hop⟩)
        · exact le_rfl
        · have := hdeeper _ hop
          omega
      · refine pairwise_cons.mpr ⟨fun hop hhop => ?_, hpairwise⟩
        have := hdeeper hop hhop
        simp only
        omega
      · rintro (_ | ⟨first, pre⟩) hop post hsplit
        · obtain ⟨rfl, rfl⟩ := List.cons.inj hsplit
          exact iff_of_true hne ⟨hescalates, hdeep, hsteps⟩
        · have hrest := hfurther pre hop post (List.cons.inj hsplit).2
          rw [hrest, length_cons]
          simp only [Nat.add_assoc, Nat.add_comm 1]
    · rename_i hstop
      have hlast : mode.depth ≤ 2 := by cases mode <;> decide
      refine ⟨cons_ne_nil _ _, by rw [length_singleton]; omega, hk, by simp, by simp, ?_⟩
      rintro (_ | ⟨first, pre⟩) hop post hsplit
      · obtain ⟨rfl, rfl⟩ := List.cons.inj hsplit
        simpa using hstop
      · simp at hsplit

/-! ### The profile -/

def Missed (p : RecallThresholds) (results : List MergedRow) : Prop :=
  results.length < p.minResults ∨ topResultScore results < p.minTopScore

/-- At most three searches, in deeper and deeper modes, and a further one exactly if the answer
misses a threshold, a deeper mode remains and the limit is not reached. -/
structure ObeysProfile (cfg : RecallConfig) (p : RecallThresholds) (hops : List Hop) : Prop where
  three : hops.length ≤ 3
  steps : hops.length ≤ cfg.maxEscalationSteps
  deeper : hops.Pairwise fun a b => a.mode.depth < b.mode.depth
  further : ∀ pre hop post, hops = pre ++ hop :: post →
    (post ≠ [] ↔ Missed p hop.results ∧ hop.mode ≠ .deep ∧ pre.length + 1 < cfg.maxEscalationSteps)

theorem recallShouldEscalate_iff (p : RecallThresholds) (results : List MergedRow) :
    recallShouldEscalate p.minResults p.minTopScore results = true ↔ Missed p results := by
  simp [recallShouldEscalate, Missed, max_eq_right p.one_le_minResults, max_eq_right p.nonneg,
    min_eq_right p.le_one]

theorem usedMinResults_some (p : RecallThresholds) :
    usedMinResults cfg (some p) = p.minResults := by
  have := p.one_le_minResults
  simp [usedMinResults, Option.filter, Nat.ne_of_gt this]

def blankRow : MergedRow := ⟨groundedRow "", ∅, 0, 0, 0, 0, 0, 0, 0, 0, 0, 0, 0, 0⟩

theorem topResultScore_replicate {n : ℕ} (hn : 1 ≤ n) :
    topResultScore (List.replicate n blankRow) = 0 := by
  obtain ⟨n, rfl⟩ : ∃ m, n = m + 1 := ⟨n - 1, by omega⟩
  simp [topResultScore, blankRow]

theorem escalates_variantHops (hon : cfg.escalationEnabled = true) (p : RecallThresholds)
    (start : RetrievalMode) (search : RetrievalMode → List MergedRow) :
    Escalates cfg (recallShouldEscalate p.minResults (usedMinTopScore cfg (some p))) 0 start
      (variantHops cfg true (some p) start search) := by
  have hE : (fun results => cfg.escalationEnabled && true && recallShouldEscalate
      (usedMinResults cfg (some p)) (usedMinTopScore cfg (some p)) results) =
        recallShouldEscalate p.minResults (usedMinTopScore cfg (some p)) := by
    funext results
    rw [hon, usedMinResults_some, Bool.and_self, Bool.true_and]
  rw [variantHops, hE]
  exact escalates_recallHops _ search (by omega) cfg.one_le_steps

variable (cfg) in
/-- **Escalation obeys the profile** exactly when its score threshold is not zero, or the default is
zero as well, or a second search is out of the question. -/
theorem escalation_obeys_profile_iff (p : RecallThresholds) (start : RetrievalMode)
    (hon : cfg.escalationEnabled = true) :
    (∀ search, ObeysProfile cfg p (variantHops cfg true (some p) start search)) ↔
      p.minTopScore ≠ 0 ∨ cfg.escalateMinTopScore = 0 ∨ cfg.maxEscalationSteps = 1 ∨
        start = .deep := by
  constructor
  · intro hall
    by_contra hnot
    simp only [not_or, not_not] at hnot
    obtain ⟨hzero, hdefault, hsteps, hdeep⟩ := hnot
    -- answers that meet the profile, with a top score below the default
    have hused : usedMinTopScore cfg (some p) = cfg.escalateMinTopScore := by
      simp [usedMinTopScore, Option.filter, hzero]
    have hpos : 0 < cfg.escalateMinTopScore :=
      lt_of_le_of_ne cfg.minTopScore_nonneg (Ne.symm hdefault)
    have hlong := cfg.one_le_steps
    obtain ⟨post, hhops⟩ : ∃ post, variantHops cfg true (some p) start
        (fun _ => List.replicate p.minResults blankRow) =
          [] ++ ⟨start, List.replicate p.minResults blankRow⟩ :: post := ⟨_, rfl⟩
    have hcode := (escalates_variantHops hon p start _).further [] _ post hhops
    have hown := (hall _).further [] _ post hhops
    have htop := topResultScore_replicate p.one_le_minResults
    have hescalates : recallShouldEscalate p.minResults (usedMinTopScore cfg (some p))
        (List.replicate p.minResults blankRow) = true := by
      simp [recallShouldEscalate, htop, hused, hpos]
    have hleft : 0 + ([] : List Hop).length + 1 < cfg.maxEscalationSteps := by
      rw [length_nil]
      omega
    rcases (hown.mp (hcode.mpr ⟨hescalates, hdeep, hleft⟩)).1 with hless | hless
    · simp at hless
    · rw [htop, hzero] at hless
      exact lt_irrefl _ hless
  · intro hcond search
    obtain ⟨-, hmodes, hsteps, hfrom, hdeeper, hfurther⟩ := escalates_variantHops hon p start search
    refine ⟨by omega, by omega, hdeeper, fun pre hop post hsplit => ?_⟩
    rw [hfurther pre hop post hsplit, Nat.zero_add]
    refine and_congr_left fun ⟨hdeep, hleft⟩ => ?_
    have hsame : usedMinTopScore cfg (some p) = p.minTopScore := by
      by_cases hzero : p.minTopScore = 0
      · rcases hcond with h | h | h | rfl
        · exact absurd hzero h
        · simp [usedMinTopScore, Option.filter, hzero, h]
        · omega
        · have := hfrom hop (by simp [hsplit])
          cases hmode : hop.mode <;> simp [hmode, RetrievalMode.depth] at this hdeep
      · simp [usedMinTopScore, Option.filter, hzero]
    rw [hsame, recallShouldEscalate_iff]

def RecallConfig.default : RecallConfig where
  escalationEnabled := true
  escalateMinResults := 4
  escalateMinTopScore := 18 / 25
  maxEscalationSteps := 2
  one_le_minResults := by decide
  minTopScore_nonneg := by norm_num
  minTopScore_le_one := by norm_num
  one_le_steps := by decide

def RecallThresholds.half : RecallThresholds :=
  ⟨1, 1 / 2, le_rfl, by norm_num, by norm_num⟩

theorem escalation_obeys_profile_iff_half :
    ObeysProfile .default .half (variantHops .default true (some .half) .fast fun _ => []) :=
  (escalation_obeys_profile_iff .default .half .fast rfl).mpr
    (.inl (by norm_num [RecallThresholds.half])) _

def RecallThresholds.zero : RecallThresholds := ⟨1, 0, le_rfl, le_rfl, zero_le_one⟩

/-- The first answer has the row that the profile asks for, and the search is made again. -/
theorem content_profile_escalates :
    ¬ Missed .zero [blankRow] ∧
      (variantHops .default true (some .zero) .fast fun _ => [blankRow]).map Hop.mode =
        [.fast, .balanced] := by
  constructor
  · rintro (h | h)
    · exact absurd h (by decide)
    · exact lt_irrefl _ h
  · decide +kernel

/-! ### The pipeline -/

variable (env : RetrievalEnv) (cfg : RecallConfig) (drawn : ℕ → String) (limit : ℕ)
  (autoEscalate : Bool) (profile : Option RecallThresholds) (start : RetrievalMode)

def mergedVariant (hops : List Hop) : List MergedRow :=
  mergeRankedResultSets env drawn (hops.map Hop.results) (max (limit * 3) limit)

def pipelineHops : List (RetrievalMode → List MergedRow) → List (List Hop)
  | [] => []
  | first :: rest =>
    let hops := variantHops cfg autoEscalate profile start first
    if recallShouldEscalate (max 1 (min limit (usedMinResults cfg profile)))
        (usedMinTopScore cfg profile) (mergedVariant env drawn limit hops) then
      hops :: rest.map (variantHops cfg autoEscalate profile start)
    else [hops]

def runMemoryRecallPipeline (searches : List (RetrievalMode → List MergedRow)) : List MergedRow :=
  let hops := pipelineHops env cfg drawn limit autoEscalate profile start searches
  mergeRankedResultSets env drawn (hops.map (mergedVariant env drawn limit)) limit

variable {env cfg drawn limit autoEscalate profile start}

variable {searches : List (RetrievalMode → List MergedRow)}

theorem mem_pipelineHops {hops : List Hop}
    (h : hops ∈ pipelineHops env cfg drawn limit autoEscalate profile start searches) :
    ∃ search ∈ searches, hops = variantHops cfg autoEscalate profile start search := by
  cases searches with
  | nil => simp [pipelineHops] at h
  | cons first rest =>
    simp only [pipelineHops] at h
    split at h
    · simpa [eq_comm] using h
    · exact ⟨first, mem_cons_self, mem_singleton.mp h⟩

theorem mem_recallHops {E : List MergedRow → Bool} {search : RetrievalMode → List MergedRow}
    {hop : Hop} (h : hop ∈ recallHops cfg E search turns k mode) :
    hop.results = search hop.mode := by
  induction turns generalizing k mode with
  | zero => simp [recallHops] at h
  | succ turns ih =>
    rcases mem_cons.mp h with rfl | h
    · rfl
    · split at h
      · exact ih h
      · simp at h

theorem length_variantHops_le (search : RetrievalMode → List MergedRow) :
    (variantHops cfg autoEscalate profile start search).length ≤ 3 := by
  have := (escalates_recallHops (fun results => cfg.escalationEnabled && autoEscalate &&
    recallShouldEscalate (usedMinResults cfg profile) (usedMinTopScore cfg profile) results)
    search (show 3 ≤ 3 + start.depth by omega) cfg.one_le_steps).modes
  rw [variantHops]
  omega

structure HopsWithin (env : RetrievalEnv) (limit : ℕ) (variant : List Hop) : Prop where
  three : variant.length ≤ 3
  length_le : ∀ hop ∈ variant, hop.results.length ≤ limit
  identified : ∀ r ∈ (variant.map Hop.results).flatten, Identified env r.row

variable {variant : List Hop}

theorem hopsWithin_pipelineHops
    (hsearches : ∀ search ∈ searches, ∀ mode, (search mode).length ≤ limit ∧
      ∀ r ∈ search mode, Identified env r.row)
    (h : variant ∈ pipelineHops env cfg drawn limit autoEscalate profile start searches) :
    HopsWithin env limit variant := by
  obtain ⟨search, hsearch, rfl⟩ := mem_pipelineHops h
  refine ⟨length_variantHops_le search, fun hop hhop => ?_, fun r hr => ?_⟩
  · rw [mem_recallHops hhop]
    exact (hsearches search hsearch hop.mode).1
  · obtain ⟨rows, hrows, hr⟩ := mem_flatten.mp hr
    obtain ⟨hop, hhop, rfl⟩ := mem_map.mp hrows
    rw [mem_recallHops hhop] at hr
    exact (hsearches search hsearch hop.mode).2 r hr

theorem HopsWithin.merged_perm (h : HopsWithin env limit variant) :
    (mergedVariant env drawn limit variant).Perm
      (bestRows env (variant.map Hop.results).flatten) := by
  have hrows : (variant.map Hop.results).flatten.length ≤ limit * 3 := by
    have hsum := sum_le_card_nsmul (variant.map (List.length ∘ Hop.results)) limit
      (by simpa using h.length_le)
    rw [length_map, nsmul_eq_mul, Nat.cast_id, Nat.mul_comm] at hsum
    rw [length_flatten, map_map]
    exact hsum.trans (Nat.mul_le_mul_left limit h.three)
  have hbest : (bestRows env (variant.map Hop.results).flatten).length ≤ limit * 3 :=
    (length_bestRows_le _).trans hrows
  rw [mergedVariant, mergeRanked_eq h.identified, take_of_length_le]
  · exact perm_insertionSort _ _
  · rw [byRank, length_insertionSort]
    omega

variable (env cfg drawn autoEscalate profile start) in
/-- **Recall keeps the best hits**: the pipeline gives, up to ties, what one merge of all hops
gives. -/
theorem recall_merges_as_one (hlimit : 1 ≤ limit) (searches : List (RetrievalMode → List MergedRow))
    (hsearches : ∀ search ∈ searches, ∀ mode, (search mode).length ≤ limit ∧
      ∀ r ∈ search mode, Identified env r.row) :
    let hops := (pipelineHops env cfg drawn limit autoEscalate profile start searches).flatten
    let results :=
      runMemoryRecallPipeline env cfg drawn limit autoEscalate profile start searches
    (∀ drawn', SameUpToTies MergedRow.rank results
        (mergeRankedResultSets env drawn' (hops.map Hop.results) limit)) ∧
      RankedBest env limit (hops.map Hop.results).flatten results := by
  intro hops results
  have hvariants (variant : List Hop) (h : variant ∈ pipelineHops env cfg drawn limit autoEscalate
      profile start searches) : HopsWithin env limit variant :=
    hopsWithin_pipelineHops hsearches h
  have hflat : (hops.map Hop.results).flatten =
      ((pipelineHops env cfg drawn limit autoEscalate profile start searches).map fun variant =>
        (variant.map Hop.results).flatten).flatten := by
    rw [map_flatten, flatten_flatten, map_map]
    rfl
  have hidentified : ∀ r ∈ (hops.map Hop.results).flatten, Identified env r.row := by
    intro r hr
    rw [hflat] at hr
    obtain ⟨rows, hrows, hr⟩ := mem_flatten.mp hr
    obtain ⟨variant, hvariant, rfl⟩ := mem_map.mp hrows
    exact (hvariants variant hvariant).identified r hr
  have hmerged : ∀ r ∈ ((pipelineHops env cfg drawn limit autoEscalate profile start searches).map
      (mergedVariant env drawn limit)).flatten, Identified env r.row := by
    intro r hr
    obtain ⟨rows, hrows, hr⟩ := mem_flatten.mp hr
    obtain ⟨variant, hvariant, rfl⟩ := mem_map.mp hrows
    have hwithin := hvariants variant hvariant
    exact hwithin.identified r (bestRows_subset (hwithin.merged_perm.subset hr))
  have hperm : (bestRows env ((pipelineHops env cfg drawn limit autoEscalate profile start
      searches).map (mergedVariant env drawn limit)).flatten).Perm
        (bestRows env (hops.map Hop.results).flatten) := by
    rw [hflat]
    refine perm_two_stage (forall₂_map_left_iff.mpr (forall₂_map_right_iff.mpr ?_))
    exact forall₂_same.mpr fun variant hvariant => (hvariants variant hvariant).merged_perm
  have hresults : results = (byRank MergedRow.rank (bestRows env ((pipelineHops env cfg drawn limit
      autoEscalate profile start searches).map (mergedVariant env drawn limit)).flatten)).take
        limit := by
    simp only [results, runMemoryRecallPipeline]
    rw [mergeRanked_eq hmerged, max_eq_right hlimit]
  rw [hresults]
  refine ⟨fun drawn' => ?_, rankedBest_take hperm hlimit⟩
  rw [mergeRanked_eq hidentified, max_eq_right hlimit]
  exact sameUpToTies_of_perm hperm limit

def notedRow : MergedRow := { blankRow with row := groundedRow "ship 12 boxes" }

theorem recall_merges_as_one_noted :
    RankedBest .plain 1
      ((pipelineHops .plain .default (fun _ => "") 1 true none .balanced
        [fun _ => [notedRow]]).flatten.map Hop.results).flatten
      (runMemoryRecallPipeline .plain .default (fun _ => "") 1 true none .balanced
        [fun _ => [notedRow]]) := by
  have hidentified : Identified .plain notedRow.row := by decide +kernel
  refine (recall_merges_as_one .plain .default (fun _ => "") true none .balanced le_rfl
    [fun _ => [notedRow]] fun search hsearch mode => ?_).2
  rw [mem_singleton.mp hsearch]
  exact ⟨le_rfl, fun r hr => by rwa [mem_singleton.mp hr]⟩

/-! ### Query expansion -/

section

/-- `substitute token synonym text` is `re.sub` for the first occurrence of the word `token`; `none`
if the synonym is no valid template. -/
structure ExpansionConfig where
  enabled : Bool := true
  maxVariants : ℕ
  maxTerms : ℕ
  synonyms : Dict String (List String)
  substitute : String → String → String → Option String

variable (py : Python) (cfg : ExpansionConfig)

def singleBlanks (text : String) : String := joinText " " (splitWords text)

def replaceBlanks (c : Char) (text : String) : String :=
  String.ofList (text.toList.map fun x => if x = ' ' then c else x)

/-- Both loops of `_expand_query_variants`: the maximum is tested behind an append only. -/
def addVariants : List (Option String) → List String → Option (List String)
  | [], variants => some variants
  | none :: _, _ => none
  | some candidate :: rest, variants =>
    if candidate = "" ∨ py.lower candidate ∈ variants.map py.lower then addVariants rest variants
    else if cfg.maxVariants ≤ variants.length + 1 then some (variants ++ [candidate])
    else addVariants rest (variants ++ [candidate])

def variantCandidates (normalized : String) : List (Option String) :=
  (if ' ' ∈ normalized.toList ∧ '/' ∉ normalized.toList then
    [some (replaceBlanks '/' normalized), some (replaceBlanks '_' normalized)] else []) ++
  (queryTerms py normalized cfg.maxTerms).flatMap fun token =>
    ((cfg.synonyms.get? token).getD []).map fun synonym =>
      (cfg.substitute token synonym normalized).map singleBlanks

def expandQueryVariants (query : String) : Option (List String) :=
  let normalized := singleBlanks query
  if normalized = "" then some []
  else if cfg.enabled = false then some [normalized]
  else addVariants py cfg (variantCandidates py cfg normalized) [normalized]

variable {py cfg} {variants result : List String}

theorem addVariants_spec {candidates : List (Option String)}
    (h : addVariants py cfg candidates variants = some result)
    (hnodup : (variants.map py.lower).Nodup) :
    variants <+: result ∧ (result.map py.lower).Nodup ∧
      (variants.length < cfg.maxVariants → result.length ≤ cfg.maxVariants) ∧
      (cfg.maxVariants ≤ variants.length → (result.length ≤ variants.length ↔
        ∀ c, some c ∈ candidates → c = "" ∨ py.lower c ∈ variants.map py.lower)) := by
  induction candidates generalizing variants with
  | nil =>
    cases h
    exact ⟨prefix_rfl, hnodup, le_of_lt, by simp⟩
  | cons candidate rest ih =>
    cases candidate with
    | none => cases h
    | some c =>
      rw [addVariants] at h
      by_cases hold : c = "" ∨ py.lower c ∈ variants.map py.lower
      · rw [if_pos hold] at h
        simpa only [mem_cons, forall_eq_or_imp, Option.some.injEq, hold, true_and] using ih h hnodup
      have hnew : ((variants ++ [c]).map py.lower).Nodup := by
        rw [map_append, map_singleton, nodup_append]
        refine ⟨hnodup, nodup_singleton _, fun x hx y hy hxy => hold (.inr ?_)⟩
        rwa [← mem_singleton.mp hy, ← hxy]
      split_ifs at h with hfull
      · cases h
        refine ⟨prefix_append .., hnew, fun hlt => ?_, fun _ => ?_⟩
        · rwa [length_append, length_singleton]
        · exact iff_of_false (by simp) fun hall => hold (hall c mem_cons_self)
      · obtain ⟨hstart, hnodup', hlength, -⟩ := ih h hnew
        refine ⟨(prefix_append ..).trans hstart, hnodup', fun _ => hlength ?_, fun hle => ?_⟩
        · rw [length_append, length_singleton]
          omega
        · omega

/-- **Query expansion is bounded** exactly if the query is not blank, and the maximum is not one or
there is nothing to add. -/
theorem expansion_bounded_iff {query : String} (hmax : 1 ≤ cfg.maxVariants)
    (h : expandQueryVariants py cfg query = some variants) :
    (variants.head? = some (singleBlanks query) ∧ (variants.map py.lower).Nodup ∧
        variants.length ≤ cfg.maxVariants) ↔
      singleBlanks query ≠ "" ∧ (2 ≤ cfg.maxVariants ∨ cfg.enabled = false ∨
        ∀ c, some c ∈ variantCandidates py cfg (singleBlanks query) →
          c = "" ∨ py.lower c = py.lower (singleBlanks query)) := by
  unfold expandQueryVariants at h
  dsimp only at h
  split_ifs at h with hblank hoff
  · cases h
    simp [hblank]
  · cases h
    simp [hblank, hoff, hmax]
  · obtain ⟨⟨rest, rfl⟩, hnodup, hlength, hnone⟩ := addVariants_spec h (nodup_singleton _)
    simp only [length_singleton, map_singleton, mem_singleton] at hlength hnone
    have hhead : ([singleBlanks query] ++ rest).head? = some (singleBlanks query) := rfl
    simp only [hhead, hnodup, hblank, true_and, ne_eq, not_false_eq_true]
    by_cases htwo : 2 ≤ cfg.maxVariants
    · exact iff_of_true (hlength htwo) (.inl htwo)
    · have hone : cfg.maxVariants = 1 := by omega
      rw [or_iff_right htwo, or_iff_right hoff, hone]
      exact hnone hone.le

def twoWords (maxVariants : ℕ) : Option (List String) :=
  expandQueryVariants .ascii ⟨true, maxVariants, 6, .empty, fun _ _ text => some text⟩ " a  b "

theorem expansion_bounded_iff_words :
    ["a b", "a/b"].head? = some (singleBlanks " a  b ") ∧
      (["a b", "a/b"].map Python.ascii.lower).Nodup ∧ ["a b", "a/b"].length ≤ 2 :=
  have hvariants : twoWords 2 = some ["a b", "a/b"] := by decide +kernel
  (expansion_bounded_iff one_le_two hvariants).mpr ⟨by decide +kernel, .inl le_rfl⟩

theorem expansion_above_maximum :
    twoWords 1 = some ["a b", "a/b"] ∧ ¬["a b", "a/b"].length ≤ 1 := by
  decide +kernel

end

end ContextLattice
