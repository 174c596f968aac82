import Mathlib.Order.Bounds.Basic
import ContextLattice.Foundation.Gather
import ContextLattice.Retrieval.Grounding
import ContextLattice.Retrieval.Identity
import ContextLattice.Retrieval.SearchKeys

/-!
# Fusing the rows of the sources

`_merge_federated_rows` gathers rows by their identity, with the greatest **composite score** and
the set of their sources. The score of a row is compared with a rounded one; rounding is monotone
and idempotent.
-/

namespace ContextLattice

open Foundation List

/-! ### Composite scores -/

structure FusionConfig where
  positiveBoost : ℚ
  negativePenalty : ℚ
  enabled : Bool
  lexicalBoost : ℚ
  consensusBoost : ℚ
  numericMatchEnabled : Bool
  numericMatchBoost : ℚ
  numericMissPenalty : ℚ

structure FusionArguments where
  query : String
  sourceWeights : RetrievalSource → ℚ
  sourceQualityMultipliers : RetrievalSource → ℚ
  positiveTerms : Finset String
  negativeTerms : Finset String
  learningEnabled : Bool
  lifecycleAdjustment : String → ℚ

structure MergedRow where
  row : SearchRow
  sources : Finset RetrievalSource
  baseScore : ℚ
  sourceWeight : ℚ
  qualityMultiplier : ℚ
  learningAdjustment : ℚ
  fusionAdjustment : ℚ
  lexicalAdjustment : ℚ
  numericAdjustment : ℚ
  numericMatchRatio : ℚ
  lifecycleAdjustment : ℚ
  preConsensusScore : ℚ
  consensusAdjustment : ℚ
  score : ℚ

variable (env : RetrievalEnv) (d : DigitClass) (cfg : FusionConfig) (args : FusionArguments)

def fusionNumbers (text : String) : Finset String :=
  ((extractNumericValuesVerbatim ⟨80, 16, GroundingConfig.short.le_snippetChars, by decide⟩ d
    text).map fun m => String.ofList m.token).toFinset

def textBlob (row : SearchRow) : String :=
  env.lib.py.lower (joinText "\n" [row.project.getD "", row.file.getD "", row.summary.getD ""])

def numericAdjustment (query blob : String) : ℚ × ℚ :=
  let asked := fusionNumbers d query
  let found := fusionNumbers d blob
  if cfg.numericMatchEnabled = false ∨ asked = ∅ then (0, 0)
  else if found = ∅ then (-cfg.numericMissPenalty, 0)
  else
    let ratio : ℚ := (asked ∩ found).card / asked.card
    (ratio * cfg.numericMatchBoost -
      ((asked.card - (asked ∩ found).card : ℕ) : ℚ) / asked.card * cfg.numericMissPenalty, ratio)

def normalizedRow (key : String) (source : RetrievalSource) (row : SearchRow) : ℚ × MergedRow :=
  let query := String.ofList (keyQuery env args.query)
  let blob := textBlob env row
  let hits (terms : Finset String) : ℚ := (terms.filter fun term => isIn term blob = true).card
  let learning := if args.learningEnabled then hits args.positiveTerms * cfg.positiveBoost -
    hits args.negativeTerms * cfg.negativePenalty else 0
  let fuse := cfg.enabled && decide (query ≠ "")
  let lexical := if fuse then textMatchScore env.lib.py query blob * cfg.lexicalBoost else 0
  let (numeric, ratio) := if fuse then numericAdjustment d cfg query blob else (0, 0)
  let lifecycle := args.lifecycleAdjustment key
  let weight := args.sourceWeights source
  let quality := args.sourceQualityMultipliers source
  let composite := row.rank * weight * quality + learning + (lexical + numeric) + lifecycle
  (composite,
    { row := { row with source := some source }
      sources := {source}
      baseScore := roundTo 6 row.rank
      sourceWeight := roundTo 4 weight
      qualityMultiplier := roundTo 6 quality
      learningAdjustment := roundTo 6 learning
      fusionAdjustment := roundTo 6 (lexical + numeric)
      lexicalAdjustment := roundTo 6 lexical
      numericAdjustment := roundTo 6 numeric
      numericMatchRatio := roundTo 6 ratio
      lifecycleAdjustment := roundTo 6 lifecycle
      preConsensusScore := roundTo 6 composite
      consensusAdjustment := 0
      score := roundTo 6 composite })

/-! ### The merge -/

def keyed {α : Type*} (rowOf : α → SearchRow) (drawn : ℕ → String) (rows : List α) :
    List (String × α) :=
  rows.zipIdx.map fun (x, i) => (resultIdentity env (drawn i) (rowOf x), x)

def absorbRow : Option MergedRow → ℚ × MergedRow → MergedRow
  | none, (_, new) => new
  | some existing, (composite, new) =>
    let sources := existing.sources ∪ new.sources
    if composite > existing.preConsensusScore then { new with sources := sources }
    else { existing with sources := sources }

def consensusBoostOf (n : ℕ) : ℚ :=
  if cfg.enabled ∧ 1 < n then ((n : ℚ) - 1) * cfg.consensusBoost else 0

def withConsensus (r : MergedRow) : MergedRow :=
  let consensus := consensusBoostOf cfg r.sources.card
  { r with
    consensusAdjustment := roundTo 6 consensus
    score := roundTo 6 (r.preConsensusScore + consensus) }

def sourceRows (results : List (RetrievalSource × List SearchRow)) :
    List (RetrievalSource × SearchRow) :=
  results.flatMap fun (source, rows) => rows.map fun row => (source, row)

def mergeFederatedRows (drawn : ℕ → String) (results : List (RetrievalSource × List SearchRow)) :
    List MergedRow :=
  let items := (keyed env Prod.snd drawn (sourceRows results)).map fun (key, source, row) =>
    (key, normalizedRow env d cfg args key source row)
  (gather absorbRow items).rows.map fun p => withConsensus cfg p.2

/-! ### Order -/

def Identified (row : SearchRow) : Prop :=
  ∃ name ∈ [row.project, row.file, row.summary], env.lib.py.stripLower (name.getD "") ≠ ""

instance (row : SearchRow) : Decidable (Identified env row) :=
  inferInstanceAs (Decidable (∃ name ∈ [row.project, row.file, row.summary],
    env.lib.py.stripLower (name.getD "") ≠ ""))

def identityOf (row : SearchRow) : String := resultIdentity env "" row

variable {env d cfg args}

theorem resultIdentity_of_identified {row : SearchRow} (h : Identified env row) (drawn : String) :
    resultIdentity env drawn row = identityOf env row := by
  simp only [Identified, mem_cons, not_mem_nil, or_false, exists_eq_or_imp, exists_eq_left] at h
  simp only [identityOf, resultIdentity]
  split
  · rfl
  · rename_i hnone
    rw [if_neg (by tauto), if_neg (by tauto)]

theorem keyed_of_identified {α : Type*} {rowOf : α → SearchRow} {rows : List α}
    (h : ∀ x ∈ rows, Identified env (rowOf x)) (drawn : ℕ → String) :
    keyed env rowOf drawn rows = rows.map fun x => (identityOf env (rowOf x), x) := by
  have hrows : rows.zipIdx.map Prod.fst = rows := zipIdx_map_fst 0 rows
  conv_rhs => rw [← hrows, map_map]
  refine map_congr_left fun p hp => ?_
  have hmem : p.1 ∈ rows := fst_mem_of_mem_zipIdx hp
  simp [resultIdentity_of_identified (h p.1 hmem)]

structure Absorbed (l : List (ℚ × MergedRow)) (e : MergedRow) : Prop where
  row : ∃ x ∈ l, e.row = x.2.row
  sources : ∀ s, s ∈ e.sources ↔ ∃ x ∈ l, s ∈ x.2.sources
  score : IsGreatest {q | ∃ x ∈ l, q = roundTo 6 x.1} e.preConsensusScore

variable {l : List (ℚ × MergedRow)} {e : MergedRow} {x : ℚ × MergedRow}

theorem Absorbed.absorb (h : Absorbed l e) (hx : x.2.preConsensusScore = roundTo 6 x.1) :
    Absorbed (l ++ [x]) (absorbRow (some e) x) := by
  obtain ⟨⟨y, hy, hrow⟩, hsources, ⟨z, hz, hscore⟩, hbound⟩ := h
  have hsame : roundTo 6 e.preConsensusScore = e.preConsensusScore := by
    rw [hscore, roundTo_roundTo]
  have hbelow : ∀ w ∈ l, roundTo 6 w.1 ≤ e.preConsensusScore := fun w hw => hbound ⟨w, hw, rfl⟩
  have hmem : ∀ s, s ∈ e.sources ∪ x.2.sources ↔ ∃ w ∈ l ++ [x], s ∈ w.2.sources := by
    intro s
    simp [hsources, or_and_right, exists_or]
  rw [absorbRow]
  split
  · rename_i hgreater
    have hle := roundTo_mono 6 hgreater.le
    rw [hsame] at hle
    refine ⟨⟨x, by simp, rfl⟩, hmem, ⟨x, by simp, hx⟩, ?_⟩
    rintro q ⟨w, hw, rfl⟩
    change roundTo 6 w.1 ≤ x.2.preConsensusScore
    rw [hx]
    rcases mem_append.mp hw with hw | hw
    · exact (hbelow w hw).trans hle
    · rw [mem_singleton.mp hw]
  · rename_i hless
    have hle := roundTo_mono 6 (not_lt.mp hless)
    rw [hsame] at hle
    refine ⟨⟨y, by simp [hy], hrow⟩, hmem, ⟨z, by simp [hz], hscore⟩, ?_⟩
    rintro q ⟨w, hw, rfl⟩
    rcases mem_append.mp hw with hw | hw
    · exact hbelow w hw
    · rw [mem_singleton.mp hw]
      exact hle

theorem absorbed_foldl (hl : l ≠ []) (hround : ∀ x ∈ l, x.2.preConsensusScore = roundTo 6 x.1) :
    ∃ e, l.foldl (fun o x => some (absorbRow o x)) none = some e ∧ Absorbed l e := by
  induction l using List.reverseRecOn with
  | nil => exact absurd rfl hl
  | append_singleton l x ih =>
    rw [foldl_concat]
    have hx := hround x (by simp)
    by_cases hempty : l = []
    · subst hempty
      refine ⟨x.2, rfl, ⟨x, by simp, rfl⟩, by simp, ⟨x, by simp, hx⟩, ?_⟩
      rintro q ⟨w, hw, rfl⟩
      rw [mem_singleton.mp hw, hx]
    · obtain ⟨e, he, habsorbed⟩ := ih hempty fun y hy => hround y (by simp [hy])
      rw [he]
      exact ⟨_, rfl, habsorbed.absorb hx⟩

variable (env) in
def MergedRow.verdict (r : MergedRow) : String × Finset RetrievalSource × ℚ :=
  (identityOf env r.row, r.sources, r.score)

variable (env d cfg args) in
def roundedScores (rows : List (RetrievalSource × SearchRow)) (key : String) : Set ℚ :=
  {q | ∃ p ∈ rows, identityOf env p.2 = key ∧
    q = roundTo 6 (normalizedRow env d cfg args key p.1 p.2).1}

variable (env d cfg args) in
/-- One row for each identity, with the sources that have returned it, and with its largest rounded
score, boosted and rounded once more. -/
structure FusedFrom (rows : List (RetrievalSource × SearchRow)) (merged : List MergedRow) :
    Prop where
  nodup : (merged.map fun r => identityOf env r.row).Nodup
  identities : ∀ key, key ∈ merged.map (fun r => identityOf env r.row) ↔
    ∃ p ∈ rows, identityOf env p.2 = key
  sources : ∀ r ∈ merged, ∀ s, s ∈ r.sources ↔
    ∃ p ∈ rows, identityOf env p.2 = identityOf env r.row ∧ p.1 = s
  score : ∀ r ∈ merged, ∃ pre, IsGreatest (roundedScores env d cfg args rows
    (identityOf env r.row)) pre ∧ r.score = roundTo 6 (pre + consensusBoostOf cfg r.sources.card)

variable {rows rows' : List (RetrievalSource × SearchRow)} {merged merged' : List MergedRow}

variable (env d cfg args) in
def fusionItems (rows : List (RetrievalSource × SearchRow)) : List (String × (ℚ × MergedRow)) :=
  rows.map fun p => (identityOf env p.2, normalizedRow env d cfg args (identityOf env p.2) p.1 p.2)

variable {key : String}

theorem mem_itemsOf_fusionItems :
    x ∈ itemsOf key (fusionItems env d cfg args rows) ↔
      ∃ p ∈ rows, identityOf env p.2 = key ∧ normalizedRow env d cfg args key p.1 p.2 = x := by
  simp only [mem_itemsOf, fusionItems, mem_map, Prod.mk.injEq]
  constructor
  · rintro ⟨p, hp, rfl, rfl⟩
    exact ⟨p, hp, rfl, rfl⟩
  · rintro ⟨p, hp, rfl, rfl⟩
    exact ⟨p, hp, rfl, rfl⟩

theorem absorbed_of_mem (h : (key, e) ∈ (gather absorbRow (fusionItems env d cfg args rows)).rows) :
    identityOf env e.row = key ∧ Absorbed (itemsOf key (fusionItems env d cfg args rows)) e := by
  have hget := Dict.get?_eq_some.mpr h
  rw [get?_gather] at hget
  have hne : itemsOf key (fusionItems env d cfg args rows) ≠ [] := by
    intro hnil
    rw [hnil] at hget
    cases hget
  obtain ⟨e', he', habsorbed⟩ := absorbed_foldl hne fun x hx => by
    obtain ⟨p, -, -, rfl⟩ := mem_itemsOf_fusionItems.mp hx
    rfl
  obtain rfl : e = e' := Option.some.inj (hget.symm.trans he')
  obtain ⟨x, hx, hrow⟩ := habsorbed.row
  obtain ⟨p, -, rfl, rfl⟩ := mem_itemsOf_fusionItems.mp hx
  refine ⟨?_, habsorbed⟩
  rw [hrow]
  rfl

theorem fusedFrom_gather (rows : List (RetrievalSource × SearchRow)) :
    FusedFrom env d cfg args rows ((gather absorbRow (fusionItems env d cfg args rows)).rows.map
      fun p => withConsensus cfg p.2) := by
  have hidentities : ((gather absorbRow (fusionItems env d cfg args rows)).rows.map
      fun p => withConsensus cfg p.2).map (fun r => identityOf env r.row) =
        (gather absorbRow (fusionItems env d cfg args rows)).rows.map Prod.fst := by
    rw [map_map]
    exact map_congr_left fun p hp => (absorbed_of_mem hp).1
  refine ⟨?_, fun key => ?_, fun r hr s => ?_, fun r hr => ?_⟩
  · rw [hidentities]
    exact (gather absorbRow _).nodup
  · rw [hidentities, mem_keys_gather]
    simp only [← mem_itemsOf, mem_itemsOf_fusionItems]
    constructor
    · rintro ⟨_, p, hp, hkey, -⟩
      exact ⟨p, hp, hkey⟩
    · rintro ⟨p, hp, hkey⟩
      exact ⟨_, p, hp, hkey, rfl⟩
  · obtain ⟨⟨key, e⟩, he, rfl⟩ := mem_map.mp hr
    obtain ⟨hkey, habsorbed⟩ := absorbed_of_mem he
    have hsame : identityOf env (withConsensus cfg e).row = key := hkey
    rw [hsame]
    refine (habsorbed.sources s).trans ?_
    simp only [mem_itemsOf_fusionItems]
    constructor
    · rintro ⟨x, ⟨p, hp, hid, rfl⟩, hs⟩
      exact ⟨p, hp, hid, (Finset.mem_singleton.mp hs).symm⟩
    · rintro ⟨p, hp, hid, rfl⟩
      exact ⟨_, ⟨p, hp, hid, rfl⟩, Finset.mem_singleton_self _⟩
  · obtain ⟨⟨key, e⟩, he, rfl⟩ := mem_map.mp hr
    obtain ⟨hkey, habsorbed⟩ := absorbed_of_mem he
    refine ⟨e.preConsensusScore, ?_, rfl⟩
    have hscores : roundedScores env d cfg args rows (identityOf env (withConsensus cfg e).row) =
        {q | ∃ x ∈ itemsOf key (fusionItems env d cfg args rows), q = roundTo 6 x.1} := by
      ext q
      have hsame : identityOf env (withConsensus cfg e).row = key := hkey
      simp only [roundedScores, hsame, Set.mem_ofPred_eq, mem_itemsOf_fusionItems]
      constructor
      · rintro ⟨p, hp, hid, hq⟩
        exact ⟨_, ⟨p, hp, hid, rfl⟩, hq⟩
      · rintro ⟨_, ⟨p, hp, hid, rfl⟩, hq⟩
        exact ⟨p, hp, hid, hq⟩
    rw [hscores]
    exact habsorbed.score

section

variable (h : FusedFrom env d cfg args rows merged) (h' : FusedFrom env d cfg args rows' merged')
  (hrows : ∀ p, p ∈ rows ↔ p ∈ rows')

include h h' hrows

theorem FusedFrom.subset :
    merged.map (MergedRow.verdict env) ⊆ merged'.map (MergedRow.verdict env) := by
  intro v hv
  obtain ⟨r, hr, rfl⟩ := mem_map.mp hv
  have hkey := (h.identities _).mp (mem_map_of_mem hr)
  simp only [hrows] at hkey
  obtain ⟨r', hr', hsame⟩ := mem_map.mp ((h'.identities _).mpr hkey)
  have hsources : r'.sources = r.sources := by
    ext s
    rw [h.sources r hr, h'.sources r' hr']
    simp only [hsame, hrows]
  obtain ⟨pre, hpre, hscore⟩ := h.score r hr
  obtain ⟨pre', hpre', hscore'⟩ := h'.score r' hr'
  have hsets : roundedScores env d cfg args rows' (identityOf env r'.row) =
      roundedScores env d cfg args rows (identityOf env r.row) := by
    simp only [roundedScores, hsame, hrows]
  rw [hsets] at hpre'
  refine mem_map.mpr ⟨r', hr', ?_⟩
  simp only [MergedRow.verdict, hsame, hsources, hscore, hscore', hpre'.unique hpre]

theorem FusedFrom.perm :
    (merged.map (MergedRow.verdict env)).Perm (merged'.map (MergedRow.verdict env)) := by
  have hnodup {l : List MergedRow} (hl : (l.map fun r => identityOf env r.row).Nodup) :
      (l.map (MergedRow.verdict env)).Nodup := by
    refine List.Nodup.of_map Prod.fst ?_
    rwa [map_map]
  refine (perm_ext_iff_of_nodup (hnodup h.nodup) (hnodup h'.nodup)).mpr fun v => ⟨?_, ?_⟩
  · exact fun hv => h.subset h' hrows hv
  · exact fun hv => h'.subset h (fun p => (hrows p).symm) hv

end

variable (env d cfg args) in
/-- **Fusion does not depend on the order** in which rows come in. -/
theorem fusion_order_free {results : List (RetrievalSource × List SearchRow)}
    (hidentified : ∀ p ∈ sourceRows results, Identified env p.2) (drawn : ℕ → String) :
    FusedFrom env d cfg args (sourceRows results)
        (mergeFederatedRows env d cfg args drawn results) ∧
      ∀ results' drawn', (sourceRows results').Perm (sourceRows results) →
        ((mergeFederatedRows env d cfg args drawn' results').map (MergedRow.verdict env)).Perm
          ((mergeFederatedRows env d cfg args drawn results).map (MergedRow.verdict env)) := by
  have hfused (results' : List (RetrievalSource × List SearchRow)) (drawn' : ℕ → String)
      (h : ∀ p ∈ sourceRows results', Identified env p.2) :
      FusedFrom env d cfg args (sourceRows results')
        (mergeFederatedRows env d cfg args drawn' results') := by
    rw [mergeFederatedRows, keyed_of_identified h, map_map]
    exact fusedFrom_gather _
  refine ⟨hfused results drawn hidentified, fun results' drawn' hperm => ?_⟩
  have hidentified' : ∀ p ∈ sourceRows results', Identified env p.2 :=
    fun p hp => hidentified p (hperm.subset hp)
  exact (hfused results' drawn' hidentified').perm (hfused results drawn hidentified)
    fun p => hperm.mem_iff

def FusionConfig.default : FusionConfig :=
  ⟨6 / 100, 8 / 100, true, 16 / 100, 2 / 100, true, 8 / 100, 3 / 100⟩

def FusionArguments.plain (query : String) : FusionArguments :=
  ⟨query, defaultRetrievalSourceWeights, fun _ => 1, ∅, ∅, false, fun _ => 0⟩

def notedTwice : List (RetrievalSource × List SearchRow) :=
  [(.qdrant, [groundedRow "ship 12 boxes"]), (.letta, [groundedRow "ship 12 boxes today"])]

theorem fusion_order_free_notedTwice :
    (∀ p ∈ sourceRows notedTwice, Identified .plain p.2) ∧
      FusedFrom .plain .latin .default (.plain "12 boxes") (sourceRows notedTwice)
        (mergeFederatedRows .plain .latin .default (.plain "12 boxes") (fun _ => "")
          notedTwice) := by
  have hidentified : ∀ p ∈ sourceRows notedTwice, Identified .plain p.2 := by decide +kernel
  exact ⟨hidentified, (fusion_order_free .plain .latin .default (.plain "12 boxes") hidentified
    fun _ => "").1⟩

end ContextLattice
