import ContextLattice.Retrieval.Rollups

/-!
# The saved topic tree, and backfills

Updates of the topic tree copy it under a lock, and threads write the copies to the file: the file
is current if the copies are written in the order they were taken (`saved_topics_current`).

A backfill builds the whole rollup index anew, from the stored rows of one project and the tree.
`mem_snapshotProjects` says what the index then has for each project: its topics in the tree
(`TopicNode.Below`) with their counts, and its own rows recorded over them. So the other projects
are left with what the tree alone gives (`OfTree`).
-/

namespace ContextLattice

open Foundation List

/-! ### The saved index -/

/-- The tree in memory and in the file, the calls that copy the tree next, and the copies that
threads have yet to write, oldest first. -/
structure TopicIndex where
  tree : Dict String TopicNode := .empty
  saved : Option (Dict String TopicNode) := none
  counted : List ℕ := []
  copies : List (ℕ × Dict String TopicNode) := []

inductive TopicOp where
  | count (call : ℕ) (project topicPath : String)
  | copy (call : ℕ)
  | save (call : ℕ)

def topicStep (s : TopicIndex) : TopicOp → TopicIndex
  | .count call project topicPath =>
    { s with tree := updateTopicTree s.tree project topicPath, counted := call :: s.counted }
  | .copy call =>
    if call ∈ s.counted then
      { s with counted := s.counted.erase call, copies := s.copies ++ [(call, s.tree)] }
    else s
  | .save call =>
    match s.copies.find? (·.1 = call) with
    | none => s
    | some copy => { s with saved := some copy.2, copies := s.copies.eraseP (·.1 = call) }

/-- A thread writes the oldest copy that is still to be written. -/
def SavesInOrder (s : TopicIndex) : TopicOp → Prop
  | .save call => ∀ copy ∈ s.copies.head?, copy.1 = call
  | _ => True

/-- A call is about to copy the tree, or the newest copy, or else the file, is the tree. -/
def Current (s : TopicIndex) : Prop :=
  s.counted ≠ [] ∨ (s.copies.getLast?.map Prod.snd).or s.saved = some s.tree

theorem current_step {s : TopicIndex} {op : TopicOp} (hs : Current s) (hok : SavesInOrder s op) :
    Current (topicStep s op) := by
  cases op with
  | count call project topicPath => exact .inl (cons_ne_nil _ _)
  | copy call =>
    simp only [topicStep]
    split_ifs
    · exact .inr (by simp)
    · exact hs
  | save call =>
    cases hcopies : s.copies with
    | nil => simpa [topicStep, hcopies] using hs
    | cons copy rest =>
      have hcall : copy.1 = call := hok copy (by simp [hcopies])
      refine hs.imp (fun h => by simpa [topicStep, hcopies, hcall] using h) fun h => ?_
      -- the file gets the copy that was the newest, or a newer one is left
      rw [hcopies] at h
      cases rest <;> simpa [topicStep, hcopies, hcall, getLast?_cons] using h

/-- **The saved topic index is current** if the copies are written in the order they were taken. -/
theorem saved_topics_current (s : TopicIndex) (ops : List TopicOp)
    (hcount : ∃ call project topicPath, .count call project topicPath ∈ ops)
    (horder : Along topicStep SavesInOrder s ops)
    (hend : (run topicStep s ops).counted = [] ∧ (run topicStep s ops).copies = []) :
    (run topicStep s ops).saved = some (run topicStep s ops).tree := by
  obtain ⟨call, project, topicPath, hmem⟩ := hcount
  obtain ⟨pre, post, rfl⟩ := append_of_mem hmem
  obtain ⟨-, -, hpost⟩ := along_append.mp horder
  rw [run_append, run_cons] at hend ⊢
  have hfirst : Current (topicStep (run topicStep s pre) (.count call project topicPath)) :=
    .inl (cons_ne_nil _ _)
  have hlast := Along.invariant (fun _ _ => current_step) hfirst hpost
  simpa [Current, hend] using hlast

def twoUpdates (saves : List TopicOp) : List TopicOp :=
  [.count 1 "notes" "plans/q3", .copy 1, .count 2 "notes" "plans/q3", .copy 2] ++ saves

/-- Two copies, written in the order they were taken. -/
theorem saved_topics_current_twice :
    (run topicStep {} (twoUpdates [.save 1, .save 2])).saved =
      some (run topicStep {} (twoUpdates [.save 1, .save 2])).tree := by
  refine saved_topics_current _ _ ⟨1, "notes", "plans/q3", by simp [twoUpdates]⟩
    ⟨trivial, trivial, trivial, trivial, ?_, ?_, trivial⟩ ⟨rfl, rfl⟩
  · rintro copy ⟨⟩
    rfl
  · rintro copy ⟨⟩
    rfl

/-- Both updates are counted, and the copy with the first alone is written last. -/
theorem older_topics_saved_last :
    let s := run topicStep {} (twoUpdates [.save 2, .save 1])
    s.counted = [] ∧ s.copies = [] ∧ s.saved ≠ some s.tree := by
  refine ⟨rfl, rfl, fun h => ?_⟩
  have hcount := congrArg (fun t => (t.bind (·.get? "notes")).map (·.count)) h
  revert hcount
  decide +kernel

/-! ### Backfills of one project -/

inductive BackfillSource where
  | qdrant
  | mongoRaw
  | history
  deriving DecidableEq

variable (cfg : RollupConfig) (d : DigitClass) (env : RetrievalEnv)

/-- The rows in the order the source gives them. The history is not restricted to the project. -/
def backfillRows (stored : List HistoryRow) (scanLimit : ℕ) (project : Option String) :
    BackfillSource → List HistoryRow
  | .history => lastRows (max 1 scanLimit) stored
  | .qdrant | .mongoRaw =>
    (stored.filter fun row => (given project).all (· = row.project)).take (max 1 scanLimit)

/-- The index that takes the place of the whole index before. -/
def backfillTopicRollupsOnce (tree : Dict String TopicNode) (stored : List HistoryRow)
    (source : BackfillSource) (scanLimit : ℕ) (project : Option String) :
    Except HttpError (List (String × List TopicRollup)) := do
  let built ← (backfillRows stored scanLimit project source).foldlM (addHistoryRow cfg d env)
    ⟨seedTopicRollupsFromTree tree, []⟩
  .ok (snapshotProjects cfg built.topics)

/-! ### What a backfill builds -/

def busierFirst (a b : TopicRollup) : Prop :=
  a.figures.eventCount > b.figures.eventCount ∨
    a.figures.eventCount = b.figures.eventCount ∧
      (a.figures.recentEventCount > b.figures.recentEventCount ∨
        a.figures.recentEventCount = b.figures.recentEventCount ∧ a.path ≤ b.path)

instance : DecidableRel busierFirst := fun _ _ => inferInstanceAs (Decidable (_ ∨ _))

/-- The topics of one project as the index lists them: the busiest first, each path once. -/
structure ListsTopics (P : TopicRollup → Prop) (topics : List TopicRollup) : Prop where
  sorted : topics.Pairwise busierFirst
  nodup : (topics.map (·.path)).Nodup
  mem : ∀ t, t ∈ topics ↔ P t

/-- A topic of the tree alone: its path and its count, without snippets, facts, files, recent count
and time stamp. -/
def OfTree (node : TopicNode) (t : TopicRollup) : Prop :=
  ∃ count : ℕ, IsGreatest {k | node.Below "" t.path k} count ∧
    t = ⟨t.path, [], [], ⟨count, 0, 0, none⟩⟩

/-- A topic of the tree or of some of the rows: the rows at its path recorded in their order, over
the count of the tree. -/
def OfTreeAndRows (node : TopicNode) (rows : List HistoryRow) (t : TopicRollup) : Prop :=
  let records := itemsOf t.path (rows.flatMap (rowRecords cfg d env))
  ((∃ k, node.Below "" t.path k) ∨ records ≠ []) ∧
    ∃ count : ℕ, IsLUB {k | node.Below "" t.path k} count ∧
      t = finalizeTopicRollupEntry cfg t.path
        (records.foldl (fun entry r => entry.record cfg r) { eventCount := count })

variable {cfg d env}

theorem listsTopics_finalizedTopics (entries : Dict String TopicEntry) :
    ListsTopics (fun t => ∃ e, entries.get? t.path = some e ∧
      t = finalizeTopicRollupEntry cfg t.path e) (finalizedTopics cfg entries) := by
  refine ⟨?_, ?_, fun t => ?_⟩
  · have : Std.Total busierFirst := ⟨fun a b => by
      have := le_total a.path b.path
      grind [busierFirst]⟩
    have : IsTrans TopicRollup busierFirst := ⟨fun a b c hab hbc => by
      have := @le_trans _ _ a.path b.path c.path
      grind [busierFirst]⟩
    exact pairwise_insertionSort busierFirst _
  · refine ((perm_insertionSort _ _).map _).nodup_iff.mpr ?_
    rw [map_map]
    exact entries.nodup
  · rw [finalizedTopics, mem_insertionSort, mem_map]
    constructor
    · rintro ⟨p, hp, rfl⟩
      exact ⟨p.2, Dict.get?_eq_some.mpr hp, rfl⟩
    · rintro ⟨e, he, ht⟩
      exact ⟨(t.path, e), Dict.get?_eq_some.mp he, ht.symm⟩

theorem ListsTopics.unique {P : TopicRollup → Prop} {topics topics' : List TopicRollup}
    (h : ListsTopics P topics) (h' : ListsTopics P topics') : topics = topics' := by
  have hperm : topics ~ topics' :=
    (perm_ext_iff_of_nodup h.nodup.of_map h'.nodup.of_map).mpr fun t =>
      (h.mem t).trans (h'.mem t).symm
  refine hperm.eq_of_pairwise (fun a b ha hb hab hba => ?_) h.sorted h'.sorted
  have hpath : a.path = b.path := by
    have := @le_antisymm _ _ a.path b.path
    grind [busierFirst]
  exact inj_on_of_nodup_map h.nodup ha ((h.mem b).mpr ((h'.mem b).mp hb)) hpath

theorem finalizedTopics_eq_iff {entries : Dict String TopicEntry} {topics : List TopicRollup} :
    finalizedTopics cfg entries = topics ↔ ListsTopics (fun t => ∃ e,
      entries.get? t.path = some e ∧ t = finalizeTopicRollupEntry cfg t.path e) topics :=
  ⟨fun h => h ▸ listsTopics_finalizedTopics entries,
    fun h => (listsTopics_finalizedTopics entries).unique h⟩

theorem enteredRows_sublist (seen : List String) (rows : List HistoryRow) :
    (enteredRows env seen rows).Sublist rows := by
  induction rows generalizing seen with
  | nil => exact .slnil
  | cons row rows ih =>
    rw [enteredRows]
    split
    · exact (ih seen).cons row
    · exact (ih _).cons_cons row

variable {q : String}

theorem mem_snapshotProjects {tree : Dict String TopicNode} {rows : List HistoryRow}
    {built : RollupBuild} {topics : List TopicRollup}
    (h : rows.foldlM (addHistoryRow cfg d env) ⟨seedTopicRollupsFromTree tree, []⟩ = .ok built) :
    (q, topics) ∈ snapshotProjects cfg built.topics ↔
      ((∃ node, tree.get? q = some node) ∨ projectRows env [] rows q ≠ []) ∧
        ListsTopics (OfTreeAndRows cfg d env ((tree.get? q).getD .empty)
          (projectRows env [] rows q)) topics := by
  obtain ⟨hnone, hget⟩ := get?_foldlM_addHistoryRow (q := q) h
  have hknown : built.topics.get? q ≠ none ↔
      (∃ node, tree.get? q = some node) ∨ projectRows env [] rows q ≠ [] := by
    rw [ne_eq, hnone, get?_seedTopicRollupsFromTree, Option.map_eq_none_iff, not_and_or,
      ← ne_eq (tree.get? q), Option.ne_none_iff_exists']
  have hmem : (q, topics) ∈ snapshotProjects cfg built.topics ↔
      built.topics.get? q ≠ none ∧
        finalizedTopics cfg ((built.topics.get? q).getD .empty) = topics := by
    simp only [snapshotProjects, mem_map, Prod.mk.injEq, Prod.exists, ← Dict.get?_eq_some]
    constructor
    · rintro ⟨name, entries, hentries, rfl, rfl⟩
      simp [hentries]
    · rintro ⟨hne, rfl⟩
      obtain ⟨entries, hentries⟩ := Option.ne_none_iff_exists'.mp hne
      exact ⟨q, entries, hentries, rfl, by rw [hentries, Option.getD_some]⟩
  rw [hmem, hknown, finalizedTopics_eq_iff, hget, getD_seedTopicRollupsFromTree]
  refine and_congr_right fun _ => iff_of_eq (congrArg (ListsTopics · topics) (funext fun t => ?_))
  simp only [get?_rolledUp, OfTreeAndRows, eq_iff_iff]
  constructor
  · rintro ⟨_, ⟨hpath, count, hcount, rfl⟩, ht⟩
    exact ⟨hpath, count, hcount, ht⟩
  · rintro ⟨hpath, count, hcount, ht⟩
    exact ⟨_, ⟨hpath, count, hcount, rfl⟩, ht⟩

/-- Without rows, a topic is one of the tree alone. -/
theorem ofTreeAndRows_nil {node : TopicNode} : OfTreeAndRows cfg d env node [] = OfTree node := by
  funext t
  rw [eq_iff_iff, OfTreeAndRows, OfTree]
  constructor
  · rintro ⟨hbelow, count, hlub, ht⟩
    obtain ⟨k, hk⟩ := hbelow.resolve_right fun h => h rfl
    simp only [← mem_walk] at hk hlub ⊢
    rcases get?_foldl_seedPath t.path (node.walk "") with ⟨-, hno⟩ | ⟨count', hgreatest, -⟩
    · exact absurd hk (hno k)
    · rw [hlub.unique hgreatest.isLUB] at ht
      exact ⟨count', hgreatest, ht.trans (by simp [finalizeTopicRollupEntry, itemsOf])⟩
  · rintro ⟨count, hgreatest, ht⟩
    exact ⟨.inl ⟨count, hgreatest.1⟩, count, hgreatest.isLUB, ht.trans (by
      simp [finalizeTopicRollupEntry, itemsOf])⟩

def planRow : HistoryRow := ⟨"2026-03-01T10:00:00Z", "plans", "q3.md", "roadmap", "ship it"⟩

end ContextLattice
