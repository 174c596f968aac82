import ContextLattice.Foundation.Gather
import ContextLattice.Retrieval.Numbers
import ContextLattice.Retrieval.Topics
import ContextLattice.Write.Carried
import ContextLattice.Write.Paths

/-!
# Rebuilding the rollup index

From `memory_write_history` and `topic_tree`, `rebuild_topic_rollups_once` builds the rollup index.
A topic path is percent-decoded each time it is normalised, and an exception stops the rebuild, or
the listing, for all projects.
-/

namespace ContextLattice

open Foundation List

/-! ### The history and the tree -/

structure RollupConfig where
  historyLimit : ℕ
  scanLimit : ℕ
  maxSnippets : ℕ
  maxFacts : ℕ

def RollupConfig.default : RollupConfig := ⟨200, 600, 8, 16⟩

structure HistoryRow where
  timestamp : String
  project : String
  file : String
  topicPath : String
  summary : String
deriving DecidableEq

structure IndexState where
  writes : WriteState
  history : List HistoryRow
  tree : Dict String TopicNode

def IndexState.empty : IndexState := ⟨.empty, [], .empty⟩

inductive IndexOp where
  | write (op : WriteOp)
  | append (worker : ℕ) (timestamp : String)
  | count (worker : ℕ)

section

variable (cfg : RollupConfig) (env : RetrievalEnv) (outbox : OutboxConfig)

def lastRows {α : Type} (n : ℕ) (l : List α) : List α := l.drop (l.length - n)

def historyRow (timestamp : String) (item : BankItem) : HistoryRow :=
  ⟨timestamp, item.project, item.file, item.topicPath, item.summary⟩

def indexStep (s : IndexState) : IndexOp → IndexState
  | .write op => { s with writes := writeStep ⟨env.cfg, outbox, env.lib⟩ s.writes op }
  | .append worker timestamp =>
    match s.writes.held.get? worker with
    | some ⟨item, true⟩ =>
      { s with history := lastRows cfg.historyLimit (s.history ++ [historyRow timestamp item]) }
    | _ => s
  | .count worker =>
    match s.writes.held.get? worker with
    | some ⟨item, true⟩ =>
      { s with
        tree := updateTopicTree s.tree item.project
          (if item.topicPath = "" then env.cfg.defaultTopicRoot else item.topicPath) }
    | _ => s

end

/-! ### The index -/

structure RollupFact where
  value : String
  sourceFile : String
  topicPath : String
  timestamp : Option String
  snippet : String

def RollupFact.key (fact : RollupFact) : String :=
  joinText "|" [fact.value, fact.sourceFile, fact.snippet]

structure TopicEntry where
  eventCount : ℕ := 0
  recentEventCount : ℕ := 0
  files : List String := []
  latestTimestamp : Option String := none
  snippets : List String := []
  facts : List RollupFact := []

structure RowRecord where
  file : String
  timestamp : Option String
  snippet : String
  facts : List RollupFact

mutual

def TopicNode.walk : String → TopicNode → List (String × ℕ)
  | above, .node _ children => TopicNode.walkChildren above children

def TopicNode.walkChildren : String → List (String × TopicNode) → List (String × ℕ)
  | _, [] => []
  | above, (segment, child) :: rest =>
    (pathBelow above segment, child.count) ::
      (TopicNode.walk (pathBelow above segment) child ++ TopicNode.walkChildren above rest)

end

abbrev RollupEntries := Dict String (Dict String TopicEntry)

def seedPath (topics : Dict String TopicEntry) (visit : String × ℕ) : Dict String TopicEntry :=
  match topics.get? visit.1 with
  | none => topics.set visit.1 { eventCount := visit.2 }
  | some entry =>
    topics.set visit.1 { entry with eventCount := max entry.eventCount visit.2 }

def seedTopicRollupsFromTree (tree : Dict String TopicNode) : RollupEntries :=
  tree.rows.foldl (fun seeded p => seeded.set p.1 ((p.2.walk "").foldl seedPath .empty)) .empty

section

variable (cfg : RollupConfig) (d : DigitClass) (env : RetrievalEnv)

def rollupFacts (summary file topicPath : String) (timestamp : Option String) :
    List NumberMatch → List String → List RollupFact → List RollupFact
  | [], _, facts => facts
  | m :: ms, seen, facts =>
    let around := (summary.toList.take (m.start + m.token.length + 28)).drop (m.start - 28)
    let snippet := topicRollupSanitizeText (String.ofList around) 96
    let key := joinText "|" [String.ofList m.token, snippet]
    if key ∈ seen then rollupFacts summary file topicPath timestamp ms seen facts
    else
      let facts := facts ++ [⟨String.ofList m.token, file, topicPath, timestamp, snippet⟩]
      if cfg.maxFacts ≤ facts.length then facts
      else rollupFacts summary file topicPath timestamp ms (key :: seen) facts

def addFacts : List RollupFact → List RollupFact → List RollupFact
  | [], facts => facts
  | fact :: rest, facts =>
    if fact.key ∈ facts.map RollupFact.key then addFacts rest facts
    else if cfg.maxFacts ≤ facts.length then facts
    else addFacts rest (facts ++ [fact])

def TopicEntry.record (r : RowRecord) (entry : TopicEntry) : TopicEntry where
  recentEventCount := entry.recentEventCount + 1
  eventCount := max entry.eventCount (entry.recentEventCount + 1)
  files := if r.file = "" ∨ r.file ∈ entry.files then entry.files else entry.files ++ [r.file]
  latestTimestamp := match r.timestamp with
    | some t => if entry.latestTimestamp.all (· < t) then some t else entry.latestTimestamp
    | none => entry.latestTimestamp
  snippets :=
    if r.snippet = "" ∨ r.snippet ∈ entry.snippets ∨ cfg.maxSnippets ≤ entry.snippets.length
    then entry.snippets else entry.snippets ++ [r.snippet]
  facts := addFacts cfg r.facts entry.facts

def recordPath (r : RowRecord) (topics : Dict String TopicEntry) (path : String) :
    Dict String TopicEntry :=
  topics.set path (((topics.get? path).getD {}).record cfg r)

structure RollupBuild where
  topics : RollupEntries
  seen : List String

def rowSignature (row : HistoryRow) : String :=
  env.sha1 (joinText "\n" [strip row.project, strip row.file, row.summary])

def rowRecord (row : HistoryRow) (topicPath : String) : RowRecord :=
  let timestamp := given (some (strip row.timestamp))
  { file := strip row.file
    timestamp := timestamp
    snippet := topicRollupSanitizeText row.summary 260
    facts := rollupFacts cfg row.summary (strip row.file) topicPath timestamp
      (numberMatches d false 0 0 none row.summary.toList) [] [] }

def addHistoryRow (st : RollupBuild) (row : HistoryRow) : Except HttpError RollupBuild :=
  let project := strip row.project
  if project = "" then .ok st
  else if rowSignature env row ∈ st.seen then .ok st
  else do
    let topicPath ← rowTopic env row.topicPath (strip row.file)
    let paths ← topicRollupPathPrefixes env topicPath
    .ok { topics := st.topics.set project (paths.foldl
            (recordPath cfg (rowRecord cfg d row topicPath))
            ((st.topics.get? project).getD .empty))
          seen := rowSignature env row :: st.seen }

def finalizeTopicRollupEntry (path : String) (entry : TopicEntry) : TopicRollup where
  path := path
  summarySnippets := entry.snippets.take cfg.maxSnippets
  numericValues := (entry.facts.take cfg.maxFacts).map (·.value)
  figures :=
    { eventCount := entry.eventCount
      recentEventCount := entry.recentEventCount
      uniqueFileCount := (entry.files.filter (· ≠ "")).length
      latestTimestamp := entry.latestTimestamp }

def finalizedTopics (topics : Dict String TopicEntry) : List TopicRollup :=
  (topics.rows.map fun p => finalizeTopicRollupEntry cfg p.1 p.2).insertionSort fun a b =>
    a.figures.eventCount > b.figures.eventCount ∨
      a.figures.eventCount = b.figures.eventCount ∧
        (a.figures.recentEventCount > b.figures.recentEventCount ∨
          a.figures.recentEventCount = b.figures.recentEventCount ∧ a.path ≤ b.path)

def snapshotProjects (topics : RollupEntries) : List (String × List TopicRollup) :=
  topics.rows.map fun p => (p.1, finalizedTopics cfg p.2)

/-- `rebuild_topic_rollups_once`, and in it `_build_topic_rollup_snapshot_from_entries`: the member
`projects` of the new index. -/
def rebuildTopicRollupsOnce (s : IndexState) :
    Except HttpError (List (String × List TopicRollup)) := do
  let built ← (lastRows cfg.scanLimit s.history).foldlM (addHistoryRow cfg d env)
    ⟨seedTopicRollupsFromTree s.tree, []⟩
  .ok (snapshotProjects cfg built.topics)

end

/-! ### What the index has -/

def HasPath (topics : RollupEntries) (path : String) : Prop :=
  ∃ project entries entry, topics.get? project = some entries ∧
    entries.get? path = some entry

/-- The nodes below a node of the topic tree, each with its path and its count. -/
inductive TopicNode.Below : TopicNode → String → String → ℕ → Prop
  | child {n : TopicNode} {above segment : String} {c : TopicNode} (h : (segment, c) ∈ n.children) :
    Below n above (pathBelow above segment) c.count
  | deeper {n : TopicNode} {above segment path : String} {c : TopicNode} {count : ℕ}
      (h : (segment, c) ∈ n.children) (hbelow : Below c (pathBelow above segment) path count) :
    Below n above path count

section

variable {cfg : RollupConfig} {d : DigitClass} {env : RetrievalEnv}

variable {path : String} {k : ℕ}

mutual

theorem mem_walk (above : String) (n : TopicNode) :
    (path, k) ∈ n.walk above ↔ n.Below above path k :=
  match n with
  | .node count children => by
    rw [TopicNode.walk, mem_walkChildren above children]
    constructor
    · rintro ⟨p, hp, ⟨rfl, rfl⟩ | hbelow⟩
      · exact .child hp
      · exact .deeper hp hbelow
    · rintro (hp | ⟨hp, hbelow⟩)
      · exact ⟨_, hp, .inl ⟨rfl, rfl⟩⟩
      · exact ⟨_, hp, .inr hbelow⟩

theorem mem_walkChildren (above : String) (children : List (String × TopicNode)) :
    (path, k) ∈ TopicNode.walkChildren above children ↔
      ∃ p ∈ children, path = pathBelow above p.1 ∧ k = p.2.count ∨
        p.2.Below (pathBelow above p.1) path k :=
  match children with
  | [] => by simp [TopicNode.walkChildren]
  | (segment, child) :: rest => by
    rw [TopicNode.walkChildren, mem_cons, mem_append, mem_walk _ child, mem_walkChildren above rest,
      exists_mem_cons_iff, Prod.mk.injEq, or_assoc]

end

variable (path) in
theorem get?_foldl_seedPath (visits : List (String × ℕ)) :
    (Dict.get? (visits.foldl seedPath .empty) path = none ∧ ∀ k, (path, k) ∉ visits) ∨
      ∃ count, IsGreatest {k | (path, k) ∈ visits} count ∧
        Dict.get? (visits.foldl seedPath .empty) path = some { eventCount := count } := by
  induction visits using reverseRecOn with
  | nil => exact .inl ⟨rfl, by simp⟩
  | append_singleton visits visit ih =>
    obtain ⟨name, count⟩ := visit
    by_cases hname : path = name
    · subst hname
      refine .inr ?_
      rcases ih with ⟨hnone, hno⟩ | ⟨count', hgreatest, hsome⟩
      · refine ⟨count, ⟨by simp, ?_⟩, by simp [seedPath, hnone]⟩
        intro k hk
        rcases mem_append.mp hk with hk | hk
        · exact absurd hk (hno k)
        · exact (Prod.mk.inj (mem_singleton.mp hk)).2.le
      · refine ⟨max count' count, ⟨?_, ?_⟩, by simp [seedPath, hsome]⟩
        · rcases max_choice count' count with h | h <;> rw [h]
          · exact mem_append_left _ hgreatest.1
          · simp
        · intro k hk
          rcases mem_append.mp hk with hk | hk
          · exact (hgreatest.2 hk).trans (le_max_left _ _)
          · exact (Prod.mk.inj (mem_singleton.mp hk)).2.le.trans (le_max_right _ _)
    · have hget : Dict.get? (seedPath (visits.foldl seedPath .empty) (name, count)) path =
          Dict.get? (visits.foldl seedPath .empty) path := by
        rw [seedPath]
        split <;> exact Dict.get?_set_of_ne hname _
      simpa [hget, hname] using ih

theorem get?_foldl_recordPath (records : List (String × RowRecord))
    (topics : Dict String TopicEntry) :
    Dict.get? (records.foldl (fun topics x => recordPath cfg x.2 topics x.1) topics) path =
      (itemsOf path records).foldl (fun o r => some ((o.getD {}).record cfg r))
        (topics.get? path) := by
  induction records generalizing topics with
  | nil => rfl
  | cons x records ih =>
    rw [foldl_cons, ih, recordPath, Dict.get?_set_eq]
    by_cases hpath : x.1 = path
    · simp [itemsOf, hpath]
    · simp [itemsOf, hpath, Ne.symm hpath]

theorem foldl_record (records : List RowRecord) (o : Option TopicEntry) :
    records.foldl (fun o r => some ((o.getD {}).record cfg r)) o =
      if records = [] then o
      else some (records.foldl (fun entry r => entry.record cfg r) (o.getD {})) := by
  induction records generalizing o with
  | nil => rfl
  | cons r records ih =>
    rw [foldl_cons, ih, if_neg (cons_ne_nil _ _), foldl_cons, Option.getD_some]
    split
    · rename_i h
      rw [h]
      rfl
    · rfl

theorem exists_isLUB_below (node : TopicNode) (path : String) :
    ∃ count, IsLUB {k | node.Below "" path k} count := by
  simp only [← mem_walk]
  rcases get?_foldl_seedPath path (node.walk "") with ⟨-, hno⟩ | ⟨count, hgreatest, -⟩
  · exact ⟨0, by simp [hno]⟩
  · exact ⟨count, hgreatest.isLUB⟩

/-- The entry of a path, from the nodes of the tree and the records at the path. -/
theorem get?_rolledUp (node : TopicNode) (records : List (String × RowRecord)) (e : TopicEntry) :
    Dict.get? (records.foldl (fun topics x => recordPath cfg x.2 topics x.1)
        ((node.walk "").foldl seedPath .empty)) path = some e ↔
      ((∃ k, node.Below "" path k) ∨ itemsOf path records ≠ []) ∧
        ∃ count, IsLUB {k | node.Below "" path k} count ∧
          e = (itemsOf path records).foldl (fun entry r => entry.record cfg r)
            { eventCount := count } := by
  simp only [← mem_walk]
  rw [get?_foldl_recordPath, foldl_record]
  rcases get?_foldl_seedPath path (node.walk "") with ⟨hnone, hno⟩ | ⟨count, hgreatest, hsome⟩
  · have hempty : {k | (path, k) ∈ node.walk ""} = ∅ := by simp [hno]
    rw [hnone, hempty]
    simp only [hno, exists_false, false_or, isLUB_empty_iff, isBot_iff_eq_bot, exists_eq_left]
    by_cases hrecords : itemsOf path records = []
    · simp [hrecords]
    · simp [hrecords, eq_comm]
  · have hlub : ∀ n, IsLUB {k | (path, k) ∈ node.walk ""} n ↔ n = count := fun n =>
      ⟨fun h => h.unique hgreatest.isLUB, fun h => h ▸ hgreatest.isLUB⟩
    rw [hsome]
    have hbelow : ∃ k, (path, k) ∈ node.walk "" := ⟨count, hgreatest.1⟩
    simp only [hlub, exists_eq_left, hbelow, true_or, true_and]
    by_cases hrecords : itemsOf path records = [] <;> simp [hrecords, eq_comm]

/-! ### The rows of the history -/

variable (env) in
def rowPaths (row : HistoryRow) : Except HttpError (List String) := do
  let topicPath ← rowTopic env row.topicPath (strip row.file)
  topicRollupPathPrefixes env topicPath

variable (env) in
/-- The rows that count: with a project, and the first of their signature. -/
def enteredRows : List String → List HistoryRow → List HistoryRow
  | _, [] => []
  | seen, row :: rows =>
    if strip row.project = "" ∨ rowSignature env row ∈ seen then enteredRows seen rows
    else row :: enteredRows (rowSignature env row :: seen) rows

variable (cfg d env) in
/-- What a row of the history records, once for every path that leads to its topic. -/
def rowRecords (row : HistoryRow) : List (String × RowRecord) :=
  match rowTopic env row.topicPath (strip row.file) with
  | .error _ => []
  | .ok topicPath => ((topicRollupPathPrefixes env topicPath).toOption.getD []).map fun path =>
    (path, rowRecord cfg d row topicPath)

variable (env) in
def projectRows (seen : List String) (rows : List HistoryRow) (q : String) : List HistoryRow :=
  (enteredRows env seen rows).filter fun row => decide (strip row.project = q)

variable {st st' : RollupBuild} {row : HistoryRow}

variable (cfg d) in
theorem exists_mem_rowRecords :
    (∃ r, (path, r) ∈ rowRecords cfg d env row) ↔
      ∃ paths, rowPaths env row = .ok paths ∧ path ∈ paths := by
  rw [rowRecords, rowPaths]
  rcases rowTopic env row.topicPath (strip row.file) with e | topicPath
  · simp [bind, Except.bind]
  · simp only [bind, Except.bind]
    rcases topicRollupPathPrefixes env topicPath with e | paths <;> simp [Except.toOption]

/-- **One row.** -/
theorem addHistoryRow_eq (st : RollupBuild) (row : HistoryRow) :
    addHistoryRow cfg d env st row =
      if strip row.project = "" ∨ rowSignature env row ∈ st.seen then .ok st
      else (rowPaths env row).map fun _ =>
        ⟨st.topics.set (strip row.project) ((rowRecords cfg d env row).foldl
          (fun topics x => recordPath cfg x.2 topics x.1)
            ((st.topics.get? (strip row.project)).getD .empty)),
          rowSignature env row :: st.seen⟩ := by
  rw [addHistoryRow, rowRecords, rowPaths]
  by_cases hblank : strip row.project = ""
  · simp [hblank]
  · by_cases hseen : rowSignature env row ∈ st.seen
    · simp [hblank, hseen]
    · simp only [hblank, hseen, if_false, or_self]
      rcases rowTopic env row.topicPath (strip row.file) with e | topicPath
      · rfl
      · simp only [bind, Except.bind]
        rcases topicRollupPathPrefixes env topicPath with e | paths
        · rfl
        · simp [Except.map, Except.toOption, foldl_map]

variable (cfg d env) in
/-- **The rows of the history.** The loop goes through exactly if the paths of every row entered
do. -/
theorem exists_foldlM_iff (rows : List HistoryRow) (st : RollupBuild) :
    (∃ st', rows.foldlM (addHistoryRow cfg d env) st = .ok st') ↔
      ∀ row ∈ enteredRows env st.seen rows, ∃ paths, rowPaths env row = .ok paths := by
  induction rows generalizing st with
  | nil => simp [enteredRows, pure, Except.pure]
  | cons row rows ih =>
    rw [foldlM_cons, enteredRows, addHistoryRow_eq]
    split
    · exact ih st
    · rw [forall_mem_cons]
      rcases rowPaths env row with e | paths
      · simp [Except.map, bind, Except.bind]
      · simpa [Except.map, bind, Except.bind] using ih _

variable {q : String}

/-- **The rows of a project.** No other row touches its topics. -/
theorem get?_foldlM_addHistoryRow {rows : List HistoryRow}
    (h : rows.foldlM (addHistoryRow cfg d env) st = .ok st') :
    (st'.topics.get? q = none ↔ st.topics.get? q = none ∧ projectRows env st.seen rows q = []) ∧
      (st'.topics.get? q).getD .empty =
        ((projectRows env st.seen rows q).flatMap (rowRecords cfg d env)).foldl
          (fun topics x => recordPath cfg x.2 topics x.1) ((st.topics.get? q).getD .empty) := by
  induction rows generalizing st with
  | nil =>
    cases h
    simp [projectRows, enteredRows]
  | cons row rows ih =>
    obtain ⟨next, hnext, h⟩ := bind_eq_ok h
    rw [addHistoryRow_eq] at hnext
    rw [projectRows, enteredRows]
    split at hnext
    · rename_i hskip
      cases hnext
      rw [if_pos hskip]
      exact ih h
    · rename_i hskip
      obtain ⟨paths, hpaths⟩ : ∃ paths, rowPaths env row = .ok paths := by
        rcases hpaths : rowPaths env row with e | paths
        · rw [hpaths] at hnext
          cases hnext
        · exact ⟨paths, rfl⟩
      rw [hpaths] at hnext
      cases hnext
      obtain ⟨hnone, hget⟩ := ih h
      rw [if_neg hskip, filter_cons]
      by_cases hq : strip row.project = q
      · subst hq
        simp only [Dict.get?_set, projectRows, Option.getD_some] at hnone hget
        simp [hnone, hget]
      · rw [Dict.get?_set_of_ne (Ne.symm hq)] at hnone hget
        rw [if_neg (by simpa using hq)]
        exact ⟨hnone, hget⟩

theorem get?_seedTopicRollupsFromTree (tree : Dict String TopicNode) :
    (seedTopicRollupsFromTree tree).get? q =
      (tree.get? q).map fun node => (node.walk "").foldl seedPath .empty := by
  have h := Dict.get?_foldl_set (fun node : TopicNode => (node.walk "").foldl seedPath .empty) tree
    .empty q
  rwa [Dict.get?_empty, Option.or_none] at h

theorem getD_seedTopicRollupsFromTree (tree : Dict String TopicNode) :
    ((seedTopicRollupsFromTree tree).get? q).getD .empty =
      (((tree.get? q).getD .empty).walk "").foldl seedPath .empty := by
  rw [get?_seedTopicRollupsFromTree]
  cases tree.get? q <;> rfl

/-- The paths of the index are those of the tree and of the rows entered. -/
theorem hasPath_iff {tree : Dict String TopicNode} {rows : List HistoryRow} {built : RollupBuild}
    (h : rows.foldlM (addHistoryRow cfg d env) ⟨seedTopicRollupsFromTree tree, []⟩ = .ok built) :
    HasPath built.topics path ↔
      (∃ p ∈ tree.rows, ∃ k, p.2.Below "" path k) ∨
        ∃ row ∈ enteredRows env [] rows, ∃ paths, rowPaths env row = .ok paths ∧ path ∈ paths := by
  have hentry : HasPath built.topics path ↔ ∃ q,
      (∃ k, ((tree.get? q).getD .empty).Below "" path k) ∨
      itemsOf path ((projectRows env [] rows q).flatMap (rowRecords cfg d env)) ≠ [] := by
    have hget := fun q => (get?_foldlM_addHistoryRow (q := q) h).2
    simp only [getD_seedTopicRollupsFromTree] at hget
    constructor
    · rintro ⟨q, entries, entry, hq, hentry⟩
      have hq' := hget q
      rw [hq, Option.getD_some] at hq'
      rw [hq', get?_rolledUp] at hentry
      exact ⟨q, hentry.1⟩
    · rintro ⟨q, hpath⟩
      obtain ⟨count, hcount⟩ := exists_isLUB_below ((tree.get? q).getD .empty) path
      have hentry := (get?_rolledUp _ _ (itemsOf path _ |>.foldl
        (fun entry r => entry.record cfg r) _)).mpr ⟨hpath, count, hcount, rfl⟩
      rw [← hget q] at hentry
      cases hq : Dict.get? built.topics q with
      | none =>
        rw [hq] at hentry
        cases hentry
      | some entries =>
        rw [hq] at hentry
        exact ⟨q, entries, _, hq, hentry⟩
  rw [hentry, exists_or]
  refine or_congr ?_ ?_
  · constructor
    · rintro ⟨q, k, hbelow⟩
      cases hq : tree.get? q with
      | none =>
        rw [hq] at hbelow
        cases hbelow with
        | child hmem => cases hmem
        | deeper hmem => cases hmem
      | some node =>
        rw [hq] at hbelow
        exact ⟨(q, node), Dict.get?_eq_some.mp hq, k, hbelow⟩
    · rintro ⟨p, hp, k, hbelow⟩
      exact ⟨p.1, k, by rwa [Dict.get?_eq_some.mpr hp]⟩
  · simp only [← exists_mem_rowRecords cfg d]
    constructor
    · rintro ⟨q, hne⟩
      obtain ⟨r, hr⟩ := exists_mem_of_ne_nil _ hne
      obtain ⟨row, hrow, hmem⟩ := mem_flatMap.mp (mem_itemsOf.mp hr)
      exact ⟨row, mem_of_mem_filter hrow, r, hmem⟩
    · rintro ⟨row, hrow, r, hmem⟩
      refine ⟨strip row.project, ne_nil_of_mem (mem_itemsOf.mpr (mem_flatMap.mpr ⟨row, ?_, hmem⟩))⟩
      exact mem_filter.mpr ⟨hrow, by simp⟩

end

/-! ### The paths of the tree -/

inductive TopicNode.Named (L : String → Prop) : TopicNode → Prop
  | node {count : ℕ} {children : List (String × TopicNode)} (hname : ∀ p ∈ children, L p.1)
      (hchild : ∀ p ∈ children, Named L p.2) : Named L (.node count children)

def StaysInside (path : String) : Prop := ∀ piece ∈ segments '/' path.toList, ¬ Climbs piece

namespace TopicNode

variable {L : String → Prop} {n : TopicNode}

theorem Named.name (h : n.Named L) : ∀ p ∈ n.children, L p.1 := by
  cases h with
  | node hname hchild => exact hname

theorem Named.child (h : n.Named L) : ∀ p ∈ n.children, p.2.Named L := by
  cases h with
  | node hname hchild => exact hchild

theorem named_empty : empty.Named L := .node (by simp) (by simp)

theorem mem_or_eq_of_mem_setChild {segment : String} {c : TopicNode} {l : List (String × TopicNode)}
    {p : String × TopicNode} (h : p ∈ setChild segment c l) : p ∈ l ∨ p = (segment, c) := by
  induction l with
  | nil => exact .inr (mem_singleton.mp h)
  | cons q l ih =>
    rw [setChild] at h
    split at h
    · rcases mem_cons.mp h with rfl | h
      · exact .inr rfl
      · exact .inl (mem_cons_of_mem q h)
    · rcases mem_cons.mp h with rfl | h
      · exact .inl mem_cons_self
      · exact (ih h).imp_left (mem_cons_of_mem q)

theorem Named.bump {parts : List String} (hparts : ∀ s ∈ parts, L s) (h : n.Named L) :
    (n.bump parts).Named L := by
  induction parts generalizing n with
  | nil => exact .node h.name h.child
  | cons part parts ih =>
    obtain ⟨hpart, hrest⟩ := forall_mem_cons.mp hparts
    have hold : (n.child part).Named L := by
      rw [TopicNode.child]
      cases hfind : n.children.find? fun p => decide (p.1 = part) with
      | none => exact named_empty
      | some p => exact h.child p (mem_of_find?_eq_some hfind)
    have hnew := ih hrest hold
    refine .node (fun p hp => ?_) fun p hp => ?_
    · rcases mem_or_eq_of_mem_setChild hp with hp | rfl
      · exact h.name p hp
      · exact hpart
    · rcases mem_or_eq_of_mem_setChild hp with hp | rfl
      · exact h.child p hp
      · exact hnew

end TopicNode

theorem StaysInside.pathBelow {above segment : String} (habove : StaysInside above)
    (hsegment : StaysInside segment) : StaysInside (pathBelow above segment) := by
  rw [ContextLattice.pathBelow]
  split
  · exact hsegment
  · intro piece hpiece
    have htext : (above ++ "/" ++ segment).toList = above.toList ++ '/' :: segment.toList := by
      simp
    rw [htext, segments_append_sep, mem_append] at hpiece
    exact hpiece.elim (habove piece) (hsegment piece)

theorem staysInside_below {n : TopicNode} (h : n.Named StaysInside) {above : String}
    (habove : StaysInside above) {path : String} {k : ℕ} (hbelow : n.Below above path k) :
    StaysInside path := by
  induction hbelow with
  | child hmem => exact habove.pathBelow (h.name _ hmem)
  | deeper hmem _ ih => exact ih (h.child _ hmem) (habove.pathBelow (h.name _ hmem))

theorem staysInside_parts {path : String} (h : StaysInside path) :
    ∀ s ∈ (splitSlash path).filter (· ≠ ""), StaysInside s := by
  intro s hs piece hpiece
  obtain ⟨hmem, hne⟩ := mem_filter.mp hs
  have hpart := isPart_of_mem_splitSlash hmem (of_decide_eq_true hne)
  have hs' : s.toList ∈ segments '/' path.toList := by
    rw [← map_toList_parts]
    exact mem_map_of_mem hs
  rw [segments_of_not_mem hpart.2 fun hnil => hpart.1 (String.toList_eq_nil_iff.mp hnil),
    mem_singleton] at hpiece
  rw [hpiece]
  exact h _ hs'

/-! ### Reading the index -/

def Survives (env : RetrievalEnv) (row : HistoryRow) : Prop :=
  ∃ topicPath normalized, rowTopic env row.topicPath (strip row.file) = .ok topicPath ∧
    normalizeTopicPath env.lib topicPath = .ok normalized ∧
    ∃ path, normalizeTopicPath env.lib
      (if normalized = "" then env.cfg.defaultTopicRoot else normalized) = .ok path

def IndexCompletes (cfg : RollupConfig) (d : DigitClass) (env : RetrievalEnv) (s : IndexState) :
    Prop :=
  ∃ rollups, rebuildTopicRollupsOnce cfg d env s = .ok rollups ∧
    (∀ project above limit minCount, (∃ a, normalizedAbove env.lib above = .ok a) →
      ∃ listing, listTopicRollupsSnapshot env.lib rollups project above limit minCount =
        .ok listing) ∧
    ∀ (stores : Stores) (req : SearchRequest), stores.rollups = rollups →
      ∃ hits, searchTopicRollups env stores req = .ok hits

section

variable {cfg : RollupConfig} {env : RetrievalEnv} {rollups : List (String × List TopicRollup)}

theorem exists_matchingRollups_iff {project above : Option String} {minCount : ℕ} :
    (∃ items, matchingRollups env.lib rollups project above minCount = .ok items) ↔
      ∀ p ∈ rollups, (given project).all (p.1 = ·) = true → ∀ topic ∈ p.2,
        ∃ path, normalizeTopicPath env.lib topic.path = .ok path := by
  have hrow : ∀ (name : String) (topic : TopicRollup),
      (∃ item : Option ListedRollup, (do
        let path ← normalizeTopicPath env.lib topic.path
        .ok (if path = "" ∨ pathAccepts above path = false ∨
            topic.figures.eventCount < (minCount : ℤ) then none else some ⟨name, topic⟩)) =
          Except.ok item) ↔ ∃ path, normalizeTopicPath env.lib topic.path = .ok path := by
    intro name topic
    rcases normalizeTopicPath env.lib topic.path with e | path <;> simp [bind, Except.bind]
  constructor
  · rintro ⟨items, h⟩ p hp hproject topic htopic
    obtain ⟨rows, hrows, -⟩ := bind_eq_ok h
    obtain ⟨hits, hhits⟩ := exists_ok_of_mapM hrows (mem_filter.mpr ⟨hp, hproject⟩)
    exact (hrow p.1 topic).mp (exists_ok_of_mapM hhits htopic)
  · intro h
    obtain ⟨rows, hrows⟩ := exists_mapM_eq_ok_iff.mpr fun p hp => exists_mapM_eq_ok_iff.mpr
      fun topic htopic => (hrow p.1 topic).mpr (h p (mem_filter.mp hp).1
        (mem_filter.mp hp).2 topic htopic)
    refine ⟨rows.flatMap fun items => items.reduceOption, ?_⟩
    rw [matchingRollups, hrows]
    rfl

theorem exists_searchTopicRollups {stores : Stores}
    (h : ∀ p ∈ stores.rollups, ∀ topic ∈ p.2,
      ∃ path, normalizeTopicPath env.lib topic.path = .ok path) (req : SearchRequest) :
    ∃ hits, searchTopicRollups env stores req = .ok hits := by
  have hhit : ∀ p ∈ stores.rollups, ∀ topic ∈ p.2,
      ∃ hit, rollupHit env req p.1 topic = .ok hit := by
    intro p hp topic htopic
    obtain ⟨path, hpath⟩ := h p hp topic htopic
    rw [rollupHit, hpath]
    exact ⟨_, rfl⟩
  obtain ⟨rows, hrows⟩ := exists_mapM_eq_ok_iff.mpr fun p hp => exists_mapM_eq_ok_iff.mpr
    fun topic htopic => hhit p (mem_of_mem_filter hp) topic htopic
  refine ⟨rankedHits req.limit (rows.flatMap fun hits => hits.reduceOption), ?_⟩
  rw [searchTopicRollups, hrows]
  rfl

theorem reads_complete_iff :
    ((∀ project above limit minCount, (∃ a, normalizedAbove env.lib above = .ok a) →
        ∃ listing, listTopicRollupsSnapshot env.lib rollups project above limit minCount =
          .ok listing) ∧
      ∀ (stores : Stores) (req : SearchRequest), stores.rollups = rollups →
        ∃ hits, searchTopicRollups env stores req = .ok hits) ↔
      ∀ p ∈ rollups, ∀ topic ∈ p.2, ∃ path, normalizeTopicPath env.lib topic.path = .ok path := by
  constructor
  · rintro ⟨hlist, -⟩
    obtain ⟨listing, hlisting⟩ := hlist none none 1 1 ⟨none, rfl⟩
    obtain ⟨above, -, hitems⟩ := bind_eq_ok hlisting
    obtain ⟨items, hmatching, -⟩ := bind_eq_ok hitems
    intro p hp
    exact exists_matchingRollups_iff.mp ⟨items, hmatching⟩ p hp rfl
  · intro hall
    refine ⟨?_, ?_⟩
    · rintro project above limit minCount ⟨a, ha⟩
      obtain ⟨items, hitems⟩ : ∃ items,
          matchingRollups env.lib rollups project a (max 1 minCount) = .ok items :=
        exists_matchingRollups_iff.mpr fun p hp _ => hall p hp
      rw [listTopicRollupsSnapshot, ha]
      simp only [bind, Except.bind, hitems]
      exact ⟨_, rfl⟩
    · rintro stores req rfl
      exact exists_searchTopicRollups hall req

theorem forall_finalized_iff {topics : RollupEntries} {P : String → Prop} :
    (∀ p ∈ snapshotProjects cfg topics, ∀ topic ∈ p.2, P topic.path) ↔
      ∀ path, HasPath topics path → P path := by
  have hmem : ∀ (entries : Dict String TopicEntry) (topic : TopicRollup),
      topic ∈ finalizedTopics cfg entries ↔
        ∃ q ∈ entries.rows, finalizeTopicRollupEntry cfg q.1 q.2 = topic := by
    intro entries topic
    rw [finalizedTopics, mem_insertionSort, mem_map]
  constructor
  · rintro h path ⟨project, entries, entry, hproject, hentry⟩
    have hp := mem_map_of_mem (f := fun p => (p.1, finalizedTopics cfg p.2))
      (Dict.get?_eq_some.mp hproject)
    exact h _ hp _ ((hmem entries _).mpr ⟨_, Dict.get?_eq_some.mp hentry, rfl⟩)
  · intro h p hp topic htopic
    obtain ⟨⟨project, entries⟩, hentries, rfl⟩ := mem_map.mp hp
    obtain ⟨⟨path, entry⟩, hentry, rfl⟩ := (hmem entries topic).mp htopic
    exact h path ⟨project, entries, entry, Dict.get?_eq_some.mpr hentries,
      Dict.get?_eq_some.mpr hentry⟩

end

/-! ### Runs -/

section

variable {cfg : RollupConfig} {d : DigitClass} {env : RetrievalEnv} {outbox : OutboxConfig}

theorem defaultTopicRoot_of_derive_empty {file : String} {explicit : Option String}
    (h : deriveTopicPath env.cfg env.lib file explicit = .ok "") :
    env.cfg.defaultTopicRoot = "" := by
  rw [deriveTopicPath] at h
  split at h
  · obtain ⟨normalized, -, h⟩ := bind_eq_ok h
    have h := Except.ok.inj h
    split at h
    · exact h
    · exact absurd h ‹_›
  · dsimp only at h
    split at h
    · exact Except.ok.inj h
    · have h := Except.ok.inj h
      split at h
      · exact h
      · exact absurd h ‹_›

variable (env outbox) in
def carriedTopics : Carried ⟨env.cfg, outbox, env.lib⟩ where
  write w := StaysInside w.topicPath ∧ (w.topicPath = "" → env.cfg.defaultTopicRoot = "")
  raw _ := True
  entry e := StaysInside e.topicPath ∧ (e.topicPath = "" → env.cfg.defaultTopicRoot = "")
  item i := StaysInside i.topicPath ∧ (i.topicPath = "" → env.cfg.defaultTopicRoot = "")
  raw_build _ _ _ _ := trivial
  item_write _ _ _ hwrite _ := hwrite
  entry_new _ _ hwrite := hwrite
  entry_record _ _ hwrite _ := hwrite
  entry_flushed _ hentry := hentry
  entry_restored _ hentry := hentry
  item_rollup _ _ hentry hitem := by
    obtain ⟨rollupFile, -, hitem⟩ := bind_eq_ok hitem
    rw [← Except.ok.inj hitem]
    exact hentry
  item_numbered _ hitem := hitem

structure TopicsInside (env : RetrievalEnv) (outbox : OutboxConfig) (s : IndexState) : Prop where
  writes : (carriedTopics env outbox).Everywhere s.writes
  tree : ∀ p ∈ s.tree.rows, p.2.Named StaysInside

theorem forall_mem_prefixes_iff {topicPath normalized : String} {paths : List String}
    (hnormalized : normalizeTopicPath env.lib topicPath = .ok normalized)
    (hpaths : topicRollupPathPrefixes env topicPath = .ok paths) :
    (∀ path ∈ paths, StaysInside path) ↔
      StaysInside (if normalized = "" then env.cfg.defaultTopicRoot else normalized) := by
  rw [topicRollupPathPrefixes_eq hnormalized] at hpaths
  rw [← Except.ok.inj hpaths]
  split
  · rw [forall_mem_singleton]
  · rename_i hempty
    have hform := normalizeTopicPath_wellFormed hnormalized hempty
    constructor
    · intro hall
      exact hall normalized (mem_prefixChain_iff.mpr ⟨hform, prefix_rfl⟩)
    · intro hinside path hpath piece hpiece
      exact hinside piece ((mem_prefixChain_iff.mp hpath).2.subset hpiece)

section

variable (hlib : env.lib.unquote = unquote)

include hlib

theorem bringsIn_carriedTopics (op : WriteOp) : (carriedTopics env outbox).BringsIn op := by
  cases op with
  | receive rid clk now requestId drawn req =>
    intro w hw
    have hprepared := prepareWrite_spec hw
    obtain ⟨normalized, hnormalized, -⟩ := bind_eq_ok hprepared.topicTags
    refine ⟨(exists_normalizeTopicPath_iff hlib).mp ⟨normalized, hnormalized⟩, fun hempty => ?_⟩
    exact defaultTopicRoot_of_derive_empty (hempty ▸ hprepared.topicPath)
  | rawStored | seeded | finish | flush | take | store | publish | fail | fanout => trivial

theorem TopicsInside.step {s : IndexState} (hs : TopicsInside env outbox s) (op : IndexOp) :
    TopicsInside env outbox (indexStep cfg env outbox s op) := by
  cases op with
  | write op => exact ⟨hs.writes.step (bringsIn_carriedTopics hlib op), hs.tree⟩
  | append worker timestamp =>
    rw [indexStep]
    split <;> exact ⟨hs.writes, hs.tree⟩
  | count worker =>
    rw [indexStep]
    split
    · rename_i item hheld
      refine ⟨hs.writes, ?_⟩
      obtain ⟨hinside, hempty⟩ := hs.writes.held worker _ hheld
      have htopic : StaysInside
          (if item.topicPath = "" then env.cfg.defaultTopicRoot else item.topicPath) := by
        split
        · rename_i htopic
          rw [hempty htopic, ← htopic]
          exact hinside
        · exact hinside
      rintro ⟨project, node⟩ hp
      rcases Dict.get?_set_eq_some.mp (Dict.get?_eq_some.mpr hp) with ⟨-, rfl⟩ | ⟨-, hold⟩
      · refine TopicNode.Named.bump (staysInside_parts htopic) ?_
        cases hget : s.tree.get? item.project with
        | none => exact TopicNode.named_empty
        | some node => exact hs.tree _ (Dict.get?_eq_some.mp hget)
      · exact hs.tree _ (Dict.get?_eq_some.mp hold)
    · exact hs

variable (cfg outbox) in
theorem staysInside_of_tree (ops : List IndexOp) :
    ∀ p ∈ (run (indexStep cfg env outbox) .empty ops).tree.rows, ∀ path k,
      p.2.Below "" path k → StaysInside path := by
  have hinside : TopicsInside env outbox (run (indexStep cfg env outbox) .empty ops) := by
    refine run_invariant (fun s op hs => hs.step hlib op) ⟨.empty, ?_⟩ ops
    intro p hp
    cases hp
  intro p hp path k hbelow
  refine staysInside_below (hinside.tree p hp) ?_ hbelow
  intro piece hpiece
  simp at hpiece

theorem survives_iff (row : HistoryRow) :
    Survives env row ↔
      ∃ paths, rowPaths env row = .ok paths ∧ ∀ path ∈ paths, StaysInside path := by
  constructor
  · rintro ⟨topicPath, normalized, htopic, hnormalized, hread⟩
    obtain ⟨paths, hpaths⟩ : ∃ paths, topicRollupPathPrefixes env topicPath = .ok paths := by
      rw [topicRollupPathPrefixes, hnormalized]
      exact ⟨_, rfl⟩
    refine ⟨paths, ?_, ?_⟩
    · rw [rowPaths, htopic]
      exact hpaths
    · exact (forall_mem_prefixes_iff hnormalized hpaths).mpr
        ((exists_normalizeTopicPath_iff hlib).mp hread)
  · rintro ⟨paths, hrow, hinside⟩
    obtain ⟨topicPath, htopic, hpaths⟩ := bind_eq_ok hrow
    obtain ⟨normalized, hnormalized, -⟩ := bind_eq_ok hpaths
    refine ⟨topicPath, normalized, htopic, hnormalized, ?_⟩
    exact (exists_normalizeTopicPath_iff hlib).mpr
      ((forall_mem_prefixes_iff hnormalized hpaths).mp hinside)

theorem indexCompletes_iff (s : IndexState) :
    IndexCompletes cfg d env s ↔
      ∃ built, (lastRows cfg.scanLimit s.history).foldlM (addHistoryRow cfg d env)
          ⟨seedTopicRollupsFromTree s.tree, []⟩ = .ok built ∧
        ∀ path, HasPath built.topics path → StaysInside path := by
  have hread : ∀ topics : RollupEntries,
      (∀ p ∈ snapshotProjects cfg topics, ∀ topic ∈ p.2,
        ∃ path, normalizeTopicPath env.lib topic.path = .ok path) ↔
      ∀ path, HasPath topics path → StaysInside path := by
    intro topics
    refine (forall_finalized_iff
      (P := fun path => ∃ p, normalizeTopicPath env.lib path = .ok p)).trans ?_
    exact forall₂_congr fun path _ => exists_normalizeTopicPath_iff hlib
  constructor
  · rintro ⟨rollups, hrebuild, hreads⟩
    obtain ⟨built, hbuilt, hrollups⟩ := bind_eq_ok hrebuild
    refine ⟨built, hbuilt, (hread built.topics).mp ?_⟩
    rw [Except.ok.inj hrollups]
    exact reads_complete_iff.mp hreads
  · rintro ⟨built, hbuilt, hinside⟩
    refine ⟨snapshotProjects cfg built.topics, ?_,
      reads_complete_iff.mpr ((hread built.topics).mpr hinside)⟩
    rw [rebuildTopicRollupsOnce, hbuilt]
    rfl

/-- **The topic index** can be rebuilt, listed and searched exactly if every row entered from the
history survives. -/
theorem topicIndex_complete_iff (ops : List IndexOp) :
    IndexCompletes cfg d env (run (indexStep cfg env outbox) .empty ops) ↔
      ∀ row ∈ enteredRows env [] (lastRows cfg.scanLimit
        (run (indexStep cfg env outbox) .empty ops).history), Survives env row := by
  have htree := staysInside_of_tree cfg outbox hlib ops
  generalize run (indexStep cfg env outbox) .empty ops = s at htree ⊢
  have hloop := exists_foldlM_iff cfg d env (lastRows cfg.scanLimit s.history)
    ⟨seedTopicRollupsFromTree s.tree, []⟩
  rw [indexCompletes_iff hlib]
  constructor
  · rintro ⟨built, hbuilt, hinside⟩ row hrow
    obtain ⟨paths, hpaths⟩ := hloop.mp ⟨built, hbuilt⟩ row hrow
    refine (survives_iff hlib row).mpr ⟨paths, hpaths, fun path hpath => ?_⟩
    exact hinside path ((hasPath_iff hbuilt).mpr (.inr ⟨row, hrow, paths, hpaths, hpath⟩))
  · intro hsurvive
    obtain ⟨built, hbuilt⟩ := hloop.mpr fun row hrow =>
      ((survives_iff hlib row).mp (hsurvive row hrow)).imp fun _ h => h.1
    refine ⟨built, hbuilt, fun path hpath => ?_⟩
    rcases (hasPath_iff hbuilt).mp hpath with ⟨p, hp, k, hbelow⟩ | ⟨row, hrow, paths, hpaths, hmem⟩
    · exact htree p hp path k hbelow
    · obtain ⟨paths', hpaths', hinside⟩ := (survives_iff hlib row).mp (hsurvive row hrow)
      obtain rfl : paths = paths' := Except.ok.inj (hpaths.symm.trans hpaths')
      exact hinside path hmem

end

end

/-! ### A topic that is escaped too often -/

def RetrievalEnv.decoding : RetrievalEnv := { RetrievalEnv.plain with lib := .decoding }

def topicOps (topicPath : String) : List IndexOp :=
  [.write (.receive 1 .noon 0 none "e"
      ⟨"docs", "a.md", "text", some topicPath⟩),
    .write (.rawStored 1 .noon none {}), .write (.finish 1 {} {}),
    .write (.take 0), .write (.store 0), .append 0 "2025-01-01T12:00:00Z", .count 0]

def topicState (topicPath : String) : IndexState :=
  run (indexStep .default .decoding .default) .empty (topicOps topicPath)

theorem topicIndex_complete_iff_notes :
    IndexCompletes .default .latin .decoding (topicState "notes/my%20days") := by
  refine (topicIndex_complete_iff rfl (topicOps "notes/my%20days")).mpr fun row hrow => ?_
  have hrows : enteredRows .decoding [] (lastRows RollupConfig.default.scanLimit
      (topicState "notes/my%20days").history) =
        [⟨"2025-01-01T12:00:00Z", "docs", "a.md", "notes/my days", "text"⟩] := by
    decide +kernel
  obtain rfl := mem_singleton.mp (hrows ▸ hrow)
  exact ⟨"notes/my days", "notes/my days", by decide +kernel, by decide +kernel, "notes/my days",
    by decide +kernel⟩

/-- With dots that are escaped three times the rebuild raises; with four, the listing does. -/
theorem escaped_topic_breaks_index :
    (((topicState "%25252e%25252e").writes.answers.map fun a => a.2.toBool) = [true] ∧
      (rebuildTopicRollupsOnce .default .latin .decoding
        (topicState "%25252e%25252e")).toBool = false ∧
      ((topicState "%2525252e%2525252e").writes.answers.map fun a => a.2.toBool) = [true] ∧
      ((rebuildTopicRollupsOnce .default .latin .decoding
        (topicState "%2525252e%2525252e")).toOption.map fun rollups =>
          (listTopicRollupsSnapshot .decoding rollups none none 200 1).toBool) = some false) ∧
      ¬ IndexCompletes .default .latin .decoding (topicState "%25252e%25252e") := by
  refine ⟨by decide +kernel, ?_⟩
  rintro ⟨rollups, h, -⟩
  have hrebuild : (rebuildTopicRollupsOnce .default .latin .decoding
      (topicState "%25252e%25252e")).toBool = false := by
    decide +kernel
  rw [h] at hrebuild
  cases hrebuild

/-! ### Tags -/

section

variable {env : RetrievalEnv}

variable {req : MemoryWrite} {w : PreparedWrite}

theorem topicPath_kept (hlib : env.lib.unquote = unquote)
    (hw : prepareWrite env.cfg env.lib req = .ok w)
    (hroot : w.topicPath ≠ env.cfg.defaultTopicRoot) :
    ∃ ps : List (List Char), ps ≠ [] ∧ (∀ piece ∈ ps, KeptSegment piece) ∧ ['.', '.'] ∉ ps ∧
      w.topicPath = String.ofList (joined '/' ps) := by
  obtain ⟨-, hfile, -, -, -, -, htopic, -⟩ := prepareWrite_spec hw
  rw [deriveTopicPath] at htopic
  split at htopic
  · obtain ⟨normalized, hnormalized, hpath⟩ := bind_eq_ok htopic
    have hpath := Except.ok.inj hpath
    split at hpath
    · exact absurd hpath.symm hroot
    · rename_i hne
      rw [normalizeTopicPath] at hnormalized
      split at hnormalized
      · exact absurd (Except.ok.inj hnormalized).symm hne
      · obtain ⟨hup, rfl⟩ := (normalizeMemoryPath_eq_ok_iff hlib).mp hnormalized
        refine ⟨_, ?_, fun _ => keptSegment_of_mem, hup, hpath.symm⟩
        rintro hnil
        rw [hnil] at hne
        exact hne rfl
  · obtain ⟨hup, hfile⟩ := (normalizeMemoryPath_eq_ok_iff hlib).mp hfile
    obtain ⟨ps, hps⟩ : ∃ ps, keptSegments (unquoteChars req.fileName.toList) = ps := ⟨_, rfl⟩
    have hkept : ∀ piece ∈ ps, KeptSegment piece := fun _ h => keptSegment_of_mem (hps ▸ h)
    rw [hps] at hup hfile
    have hparts : (splitSlash w.file).filter (· ≠ "") = ps.map String.ofList := by
      have hsegments : segments '/' w.file.toList = ps := by
        rw [hfile, String.toList_ofList, segments_joined fun piece h => (hkept piece h).1]
      have hmap := congrArg (List.map String.ofList) ((map_toList_parts w.file).trans hsegments)
      rwa [map_map, String.ofList_comp_toList, map_id] at hmap
    dsimp only at htopic
    split at htopic
    · exact absurd (Except.ok.inj htopic).symm hroot
    · rename_i hlong
      have hpath := Except.ok.inj htopic
      split at hpath
      · exact absurd hpath.symm hroot
      · rename_i hne
        rw [hparts, ← map_dropLast] at hpath hne
        have hjoin : joinSlash (ps.dropLast.map String.ofList) =
            String.ofList (joined '/' ps.dropLast) := by
          rw [joinSlash, map_map, String.toList_comp_ofList, map_id, joined]
        rw [hjoin] at hpath hne
        have hsub : ∀ piece ∈ ps.dropLast, piece ∈ ps := fun _ h => dropLast_subset _ h
        refine ⟨ps.dropLast, ?_, fun piece h => hkept piece (hsub piece h),
          fun h => hup (hsub _ h), hpath.symm⟩
        intro hnil
        rw [hnil] at hne
        exact hne rfl

theorem normalize_topicPath_self_iff (hlib : env.lib.unquote = unquote)
    (hw : prepareWrite env.cfg env.lib req = .ok w)
    (hroot : w.topicPath ≠ env.cfg.defaultTopicRoot) :
    w.topicPath ≠ "" ∧ (normalizeTopicPath env.lib w.topicPath = .ok w.topicPath ↔
      hasEscape w.topicPath.toList = false) := by
  obtain ⟨ps, hps, hkept, hup, hpath⟩ := topicPath_kept hlib hw hroot
  have hne : w.topicPath ≠ "" := by
    intro hempty
    have hjoined : joined '/' ps = [] := String.ofList_inj.mp (hpath.symm.trans hempty)
    refine hps ?_
    rw [← segments_joined fun piece h => (hkept piece h).1, hjoined, segments_nil]
  rw [normalizeTopicPath, if_neg hne, hpath, String.toList_ofList]
  exact ⟨hpath ▸ hne, normalizeMemoryPath_joined_iff hlib hkept hup⟩

structure TagsMatch (env : RetrievalEnv) (w : PreparedWrite) : Prop where
  chain : w.topicTags = prefixChain w.topicPath
  last : w.topicTags.getLast? = some w.topicPath
  rollups : topicRollupPathPrefixes env w.topicPath = .ok w.topicTags

def PlainRoot (env : RetrievalEnv) : Prop :=
  IsPart env.cfg.defaultTopicRoot ∧
    (normalizeTopicPath env.lib env.cfg.defaultTopicRoot = .ok env.cfg.defaultTopicRoot ∨
      normalizeTopicPath env.lib env.cfg.defaultTopicRoot = .ok "")

theorem prefixChain_eq_singleton_iff {path : String} : prefixChain path = [path] ↔ IsPart path := by
  constructor
  · intro h
    have hlength : ((splitSlash path).filter (· ≠ "")).length = 1 := by
      simpa [prefixChain] using congrArg List.length h
    obtain ⟨part, hpart⟩ := length_eq_one_iff.mp hlength
    rw [prefixChain, hpart] at h
    obtain rfl : part = path := by simpa [joinSlash] using h
    have hmem := hpart ▸ mem_singleton_self part
    obtain ⟨hsplit, hne⟩ := mem_filter.mp hmem
    exact isPart_of_mem_splitSlash hsplit (of_decide_eq_true hne)
  · rintro ⟨hne, hslash⟩
    have hsplit : splitSlash path = [path] := by
      rw [splitSlash, splitOn_eq_singleton hslash, map_singleton, String.ofList_toList]
    simp [prefixChain, hsplit, hne, joinSlash]

/-- **The tags of an accepted write match its topic path** exactly when the path holds no percent
escape, or is the root and the root is plain. -/
theorem tags_match_iff (hlib : env.lib.unquote = unquote) {req : MemoryWrite} {w : PreparedWrite}
    (hw : prepareWrite env.cfg env.lib req = .ok w) :
    TagsMatch env w ↔
      if w.topicPath = env.cfg.defaultTopicRoot then PlainRoot env
      else hasEscape w.topicPath.toList = false := by
  have htags := (prepareWrite_spec hw).topicTags
  obtain ⟨v, hv, -⟩ := bind_eq_ok htags
  have hrollups := topicRollupPathPrefixes_eq hv
  rw [topicTagsForPath_eq hv] at htags
  have htags := (Except.ok.inj htags).symm
  -- the last tag is the path as it is after one more normalisation
  have hlast : ¬ (v = "" ∨ v = env.cfg.defaultTopicRoot) → w.topicTags.getLast? = some v := by
    intro hother
    rw [htags, if_neg hother]
    exact getLast?_prefixChain (normalizeTopicPath_wellFormed hv fun h => hother (.inl h))
  split
  · rename_i hroot
    rw [hroot] at hv hrollups
    by_cases hdefault : v = "" ∨ v = env.cfg.defaultTopicRoot
    · rw [if_pos hdefault] at htags
      constructor
      · rintro ⟨hchain, -, -⟩
        rw [htags, hroot] at hchain
        refine ⟨prefixChain_eq_singleton_iff.mp hchain.symm, ?_⟩
        rcases hdefault with rfl | rfl
        · exact .inr hv
        · exact .inl hv
      · rintro ⟨hpart, -⟩
        have hchain := prefixChain_eq_singleton_iff.mpr hpart
        refine ⟨by rw [htags, hroot, hchain], by rw [htags, hroot]; rfl, ?_⟩
        rw [hroot, hrollups, htags]
        rcases hdefault with rfl | rfl
        · rw [if_pos rfl]
        · rw [if_neg hpart.1, hchain]
    · constructor
      · rintro ⟨-, hpath, -⟩
        rw [hlast hdefault, hroot] at hpath
        exact absurd (.inr (Option.some.inj hpath)) hdefault
      · rintro ⟨-, hplain⟩
        rw [hv] at hplain
        exact absurd (hplain.symm.imp Except.ok.inj Except.ok.inj) hdefault
  · rename_i hroot
    obtain ⟨hne, hself⟩ := normalize_topicPath_self_iff hlib hw hroot
    rw [← hself]
    constructor
    · rintro ⟨-, hpath, -⟩
      by_cases hdefault : v = "" ∨ v = env.cfg.defaultTopicRoot
      · rw [htags, if_pos hdefault] at hpath
        exact absurd (Option.some.inj hpath).symm hroot
      · rw [hlast hdefault] at hpath
        rwa [Option.some.inj hpath] at hv
    · intro hsame
      obtain rfl : v = w.topicPath := Except.ok.inj (hv.symm.trans hsame)
      have hother := not_or.mpr ⟨hne, hroot⟩
      rw [if_neg hother] at htags
      rw [if_neg hne, ← htags] at hrollups
      exact ⟨htags, hlast hother, hrollups⟩

theorem tags_match_iff_blank :
    ∃ w, prepareWrite RetrievalEnv.decoding.cfg RetrievalEnv.decoding.lib
        ⟨"docs", "a.md", "text", some "notes/my%20days"⟩ = .ok w ∧
      w.topicTags = ["notes", "notes/my days"] ∧ TagsMatch .decoding w := by
  have hw : ∃ w ∈ (prepareWrite RetrievalEnv.decoding.cfg RetrievalEnv.decoding.lib
      ⟨"docs", "a.md", "text", some "notes/my%20days"⟩).toOption,
        w.topicPath = "notes/my days" ∧ w.topicTags = ["notes", "notes/my days"] := by
    decide +kernel
  obtain ⟨w, hmem, hpath, htags⟩ := hw
  have hprepare := toOption_eq_some.mp hmem
  refine ⟨w, hprepare, htags, (tags_match_iff rfl hprepare).mpr ?_⟩
  rw [hpath, if_neg (by decide +kernel)]
  decide +kernel

/-- A topic that is escaped twice is stored with an escape, and its tags are decoded once more: the
path is `%41`, and the tag is `A`. -/
theorem escaped_topic_tagged :
    (prepareWrite RetrievalEnv.decoding.cfg RetrievalEnv.decoding.lib
        ⟨"docs", "a.md", "text", some "%2541"⟩).toOption.map
          (fun w => (w.topicPath, w.topicTags)) = some ("%41", ["A"]) ∧
      prefixChain "%41" = ["%41"] ∧
      topicRollupPathPrefixes .decoding "%41" = .ok ["A"] := by
  decide +kernel

end

end ContextLattice
