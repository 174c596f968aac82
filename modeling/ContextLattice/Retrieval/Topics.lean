import Mathlib.Data.List.ReduceOption
import ContextLattice.Foundation.Paths
import ContextLattice.Retrieval.Sources

/-!
# Topic filters

Eight readers take a topic filter, and each has its own view of the topic: the topic path itself,
the directory of the file, the path normalised again, or what is read back from the passage. Only
Qdrant compares segments.
-/

namespace ContextLattice

open Foundation List

/-! ### The topic tree -/

inductive TopicNode where
  | node (count : ℕ) (children : List (String × TopicNode))

namespace TopicNode

def count : TopicNode → ℕ
  | node count _ => count

def children : TopicNode → List (String × TopicNode)
  | node _ children => children

def empty : TopicNode := node 0 []

def setChild (segment : String) (child : TopicNode) :
    List (String × TopicNode) → List (String × TopicNode)
  | [] => [(segment, child)]
  | (s, c) :: rest =>
    if s = segment then (segment, child) :: rest else (s, c) :: setChild segment child rest

def child (n : TopicNode) (segment : String) : TopicNode :=
  ((n.children.find? fun p => p.1 = segment).map Prod.snd).getD empty

def bump : List String → TopicNode → TopicNode
  | [], n => node (n.count + 1) n.children
  | segment :: rest, n =>
    node (n.count + 1) (setChild segment (bump rest (n.child segment)) n.children)

def iterTopicPaths : ℕ → String → TopicNode → List (String × ℕ)
  | 0, _, _ => []
  | depth + 1, above, n => n.children.flatMap fun p =>
    let path := if above = "" then p.1 else above ++ "/" ++ p.1
    (path, p.2.count) :: iterTopicPaths depth path p.2

end TopicNode

def updateTopicTree (tree : Dict String TopicNode) (project topicPath : String) :
    Dict String TopicNode :=
  tree.set project
    (((tree.get? project).getD .empty).bump ((splitSlash topicPath).filter (· ≠ "")))

/-! ### The listings -/

structure ListedTopic where
  project : String
  path : String
  count : ℕ

def matchingTopics (tree : Dict String TopicNode) (project above : Option String)
    (minCount depth : ℕ) : List ListedTopic :=
  let nodes := match given project with
    | some name => [(name, (tree.get? name).getD .empty)]
    | none => tree.rows
  nodes.flatMap fun p =>
    (((p.2.iterTopicPaths depth "").filter fun q => minCount ≤ q.2).filter
      fun q => pathAccepts above q.1).map fun q => ⟨p.1, q.1, q.2⟩

structure Listing (ι : Type) where
  items : List ι
  total : ℕ
  limit : ℕ
  minCount : ℕ
  project : Option String
  above : Option String

def normalizedAbove (lib : WriteLib) (above : Option String) : Except HttpError (Option String) :=
  match given above with
  | some topic => (normalizeTopicPath lib topic).map some
  | none => .ok none

def listTopicsSnapshot (lib : WriteLib) (tree : Dict String TopicNode)
    (project above : Option String) (limit minCount depth : ℕ) :
    Except HttpError (Listing ListedTopic) := do
  let depth := max 1 (min depth 16)
  let limit := max 1 (min limit 5000)
  let minCount := max 1 minCount
  let above ← normalizedAbove lib above
  let topics := matchingTopics tree project above minCount depth
  .ok { items := (topics.insertionSort fun a b => a.count > b.count ∨ a.count = b.count ∧
          (a.project < b.project ∨ a.project = b.project ∧ a.path ≤ b.path)).take limit
        total := topics.length
        limit := limit
        minCount := minCount
        project := given project
        above := given above }

structure ListedRollup where
  project : String
  topic : TopicRollup

def matchingRollups (lib : WriteLib) (rollups : List (String × List TopicRollup))
    (project above : Option String) (minCount : ℕ) : Except HttpError (List ListedRollup) := do
  let projects := rollups.filter fun p => (given project).all (p.1 = ·)
  let rows ← projects.mapM fun p => p.2.mapM fun topic => do
    let path ← normalizeTopicPath lib topic.path
    .ok (if path = "" ∨ pathAccepts above path = false ∨
        topic.figures.eventCount < (minCount : ℤ) then none else some ⟨p.1, topic⟩)
  .ok (rows.flatMap fun items => items.reduceOption)

def listTopicRollupsSnapshot (lib : WriteLib) (rollups : List (String × List TopicRollup))
    (project above : Option String) (limit minCount : ℕ) :
    Except HttpError (Listing ListedRollup) := do
  let limit := max 1 (min limit 5000)
  let minCount := max 1 minCount
  let above ← normalizedAbove lib above
  let items ← matchingRollups lib rollups project above minCount
  .ok { items := (items.insertionSort fun a b =>
          let x := a.topic.figures
          let y := b.topic.figures
          x.eventCount > y.eventCount ∨ x.eventCount = y.eventCount ∧
            (x.recentEventCount > y.recentEventCount ∨ x.recentEventCount = y.recentEventCount ∧
              (a.project < b.project ∨ a.project = b.project ∧ a.topic.path ≤ b.topic.path))).take
          limit
        total := items.length
        limit := limit
        minCount := minCount
        project := given project
        above := given above }

/-! ### The views of a topic -/

variable (env : RetrievalEnv)

def topicRollupPathPrefixes (topicPath : String) : Except HttpError (List String) := do
  let normalized ← normalizeTopicPath env.lib topicPath
  let parts := (splitSlash normalized).filter (· ≠ "")
  .ok (if normalized = "" ∨ parts = [] then [env.cfg.defaultTopicRoot]
    else parts.inits.tail.map joinSlash)

def rowTopic (topicPath fileName : String) : Except HttpError String :=
  match normalizeTopicPath env.lib topicPath with
  | .error e => .error e
  | .ok normalized =>
    if normalized = "" then deriveTopicPath env.cfg env.lib fileName none else .ok normalized

def rollupTopic (w : PreparedWrite) : Except HttpError String :=
  rowTopic env w.topicPath (strip w.file)

def rollupView (w : PreparedWrite) : Except HttpError String := do
  let topicPath ← rollupTopic env w
  let paths ← topicRollupPathPrefixes env topicPath
  normalizeTopicPath env.lib (paths.getLastD "")

def bankView (file : String) : String :=
  match deriveTopicPath env.cfg env.lib file none with
  | .ok path => path
  | .error _ => ""

def lettaView (passage : LettaPassage) : String :=
  (parseLettaArchivalContent env passage.body).topicPath

inductive TopicReader where
  | qdrant | memoryBank | topicRollups | mongoRaw | mindsdb | letta
  | topicListing | rollupListing
deriving DecidableEq

def topicAccepts (w : PreparedWrite) (passage : LettaPassage) (f : String) : TopicReader → Bool
  | .qdrant => qdrantTopicAccepts (some f) w.topicTags
  | .memoryBank => bankTopicAccepts env (some f) w.file
  | .mongoRaw => mongoTopicAccepts (some f) (some w.topicPath)
  | .mindsdb => mindsdbTopicAccepts (some f) w.file
  | .letta => lettaTopicAccepts (some f) (lettaView env passage)
  | .topicListing => pathAccepts (some f) w.topicPath
  | .topicRollups | .rollupListing =>
    (rollupView env w).toOption.any fun path => path ≠ "" && pathAccepts (some f) path

/-! ### The shape of paths -/

variable {cfg : WriteConfig} {lib : WriteLib}

def IsPart (s : String) : Prop := s ≠ "" ∧ '/' ∉ s.toList

theorem isPart_of_mem_splitSlash {x s : String} (h : s ∈ splitSlash x) (hne : s ≠ "") :
    IsPart s := by
  obtain ⟨piece, hpiece, rfl⟩ := mem_map.mp h
  refine ⟨hne, ?_⟩
  rw [String.toList_ofList]
  exact not_mem_of_mem_splitOn hpiece

theorem toList_joinSlash (parts : List String) :
    (joinSlash parts).toList = joined '/' (parts.map String.toList) := by
  rw [joinSlash, String.toList_ofList, joined]

theorem toList_parts {parts : List String} (h : ∀ s ∈ parts, IsPart s) :
    ∀ p ∈ parts.map String.toList, p ≠ [] ∧ '/' ∉ p := by
  intro p hp
  obtain ⟨s, hs, rfl⟩ := mem_map.mp hp
  exact ⟨fun hempty => (h s hs).1 (String.toList_eq_nil_iff.mp hempty), (h s hs).2⟩

theorem wellFormed_joinSlash {parts : List String} (h : ∀ s ∈ parts, IsPart s) (hne : parts ≠ []) :
    WellFormed '/' (joinSlash parts).toList := by
  rw [toList_joinSlash]
  exact wellFormed_joined (toList_parts h) (by simpa using hne)

theorem segments_joinSlash {parts : List String} (h : ∀ s ∈ parts, IsPart s) :
    segments '/' (joinSlash parts).toList = parts.map String.toList := by
  rw [toList_joinSlash, segments_joined (toList_parts h)]

variable {value s : String}

theorem normalizeMemoryPath_wellFormed (h : normalizeMemoryPath lib value = .ok s) (hne : s ≠ "") :
    WellFormed '/' s.toList := by
  rw [normalizeMemoryPath] at h
  split at h
  · exact absurd (Except.ok.inj h).symm hne
  · dsimp only at h
    split at h
    · exact absurd h nofun
    · rw [← Except.ok.inj h]
      refine wellFormed_joinSlash (fun s hs => ?_) ?_
      · obtain ⟨hmem, hpart⟩ := mem_filter.mp hs
        exact isPart_of_mem_splitSlash hmem (of_decide_eq_true hpart).1
      · intro hparts
        rw [hparts] at h
        exact hne (Except.ok.inj h).symm

theorem normalizeTopicPath_wellFormed (h : normalizeTopicPath lib value = .ok s) (hne : s ≠ "") :
    WellFormed '/' s.toList := by
  rw [normalizeTopicPath] at h
  split at h
  · exact absurd (Except.ok.inj h).symm hne
  · exact normalizeMemoryPath_wellFormed h hne

theorem deriveTopicPath_wellFormed (hroot : WellFormed '/' cfg.defaultTopicRoot.toList)
    {file t : String} {explicit : Option String}
    (h : deriveTopicPath cfg lib file explicit = .ok t) : WellFormed '/' t.toList := by
  rw [deriveTopicPath] at h
  split at h
  · obtain ⟨normalized, hnormalized, ht⟩ := bind_eq_ok h
    rw [← Except.ok.inj ht]
    split
    · exact hroot
    · rename_i hne
      exact normalizeTopicPath_wellFormed hnormalized hne
  · dsimp only at h
    split at h
    · rw [← Except.ok.inj h]
      exact hroot
    · rename_i hlong
      rw [← Except.ok.inj h]
      split
      · exact hroot
      · refine wellFormed_joinSlash (fun s hs => ?_) ?_
        · obtain ⟨hmem, hpart⟩ := mem_filter.mp (dropLast_subset _ hs)
          exact isPart_of_mem_splitSlash hmem (of_decide_eq_true hpart)
        · simp only [not_or, not_le] at hlong
          intro hparts
          have hlen := congrArg List.length hparts
          rw [length_dropLast, length_nil] at hlen
          omega

theorem deriveTopicPath_none (file : String) : ∃ t, deriveTopicPath cfg lib file none = .ok t := by
  rw [deriveTopicPath]
  dsimp only [Option.filter_none]
  split <;> exact ⟨_, rfl⟩

/-! ### What the listings select -/

theorem TopicNode.count_bump (parts : List String) (n : TopicNode) :
    (n.bump parts).count = n.count + 1 := by
  cases parts <;> rfl

theorem TopicNode.mem_setChild (part : String) (c : TopicNode) (l : List (String × TopicNode)) :
    (part, c) ∈ setChild part c l := by
  induction l with
  | nil => exact mem_singleton_self _
  | cons p l ih =>
    rw [setChild]
    split
    · exact mem_cons_self
    · exact mem_cons_of_mem p ih

def pathBelow (above path : String) : String := if above = "" then path else above ++ "/" ++ path

theorem joinSlash_cons {part : String} {parts : List String} (h : parts ≠ []) :
    joinSlash (part :: parts) = part ++ "/" ++ joinSlash parts := by
  rw [← String.toList_inj, String.toList_append, String.toList_append, toList_joinSlash,
    toList_joinSlash, ← singleton_append, map_append,
    joined_append (by simp) (by simpa using h)]
  simp [joined]

variable {depth : ℕ}

theorem TopicNode.mem_iterTopicPaths_bump {parts : List String} (hparts : ∀ s ∈ parts, IsPart s)
    (hne : parts ≠ []) (n : TopicNode) (above : String) (hdepth : parts.length ≤ depth) :
    ∃ count, 1 ≤ count ∧ (pathBelow above (joinSlash parts), count) ∈
      (n.bump parts).iterTopicPaths depth above := by
  induction parts generalizing n above depth with
  | nil => exact absurd rfl hne
  | cons part rest ih =>
    cases depth with
    | zero => exact absurd hdepth (by simp)
    | succ depth =>
      have hchild := mem_setChild part ((n.child part).bump rest) n.children
      by_cases hrest : rest = []
      · refine ⟨((n.child part).bump rest).count, by simp [count_bump], ?_⟩
        rw [iterTopicPaths, mem_flatMap]
        refine ⟨_, hchild, mem_cons.mpr (Or.inl ?_)⟩
        simp [hrest, pathBelow, joinSlash]
      · have hpart : part ≠ "" := (hparts part mem_cons_self).1
        have hbelow : pathBelow above part ≠ "" := by
          rw [pathBelow]
          split
          · exact hpart
          · intro hempty
            simpa using congrArg String.toList hempty
        have hpath : pathBelow (pathBelow above part) (joinSlash rest) =
            pathBelow above (joinSlash (part :: rest)) := by
          rw [pathBelow, if_neg hbelow, joinSlash_cons hrest]
          simp only [pathBelow]
          split
          · rfl
          · simp [String.append_assoc]
        obtain ⟨count, hcount, hmem⟩ := ih (fun s hs => hparts s (mem_cons_of_mem part hs))
          hrest (n.child part) (pathBelow above part) (Nat.le_of_succ_le_succ hdepth)
        refine ⟨count, hcount, ?_⟩
        rw [iterTopicPaths, mem_flatMap, ← hpath]
        exact ⟨_, hchild, mem_cons_of_mem _ hmem⟩

theorem map_toList_parts (v : String) :
    ((splitSlash v).filter (· ≠ "")).map String.toList = segments '/' v.toList := by
  rw [splitSlash, segments, filter_map, map_map]
  have hid : String.toList ∘ String.ofList = id := funext fun l => String.toList_ofList
  rw [hid, map_id]
  congr 1
  funext l
  simp

theorem joinSlash_parts {t : String} (ht : WellFormed '/' t.toList) :
    joinSlash ((splitSlash t).filter (· ≠ "")) = t := by
  rw [← String.toList_inj, toList_joinSlash, map_toList_parts, joined_segments ht]

theorem topic_listed_iff (tree : Dict String TopicNode) {project t f : String}
    (hproject : project ≠ "") (ht : WellFormed '/' t.toList)
    (hdepth : (segments '/' t.toList).length ≤ depth) :
    (∃ count, ⟨project, t, count⟩ ∈
        matchingTopics (updateTopicTree tree project t) (some project) (some f) 1 depth) ↔
      pathAccepts (some f) t = true := by
  have hparts : ∀ s ∈ (splitSlash t).filter (· ≠ ""), IsPart s := fun s hs =>
    isPart_of_mem_splitSlash (mem_filter.mp hs).1 (of_decide_eq_true (mem_filter.mp hs).2)
  rw [← map_toList_parts, length_map] at hdepth
  constructor
  · rintro ⟨count, hmem⟩
    obtain ⟨p, -, hmem⟩ := mem_flatMap.mp hmem
    obtain ⟨q, hq, heq⟩ := mem_map.mp hmem
    rw [ListedTopic.mk.injEq] at heq
    rw [← heq.2.1]
    exact (mem_filter.mp hq).2
  · intro haccept
    have hne : (splitSlash t).filter (· ≠ "") ≠ [] := by
      intro hempty
      have hsegments := map_toList_parts t
      rw [hempty] at hsegments
      exact segments_ne_nil ht hsegments.symm
    obtain ⟨count, hcount, hmem⟩ := TopicNode.mem_iterTopicPaths_bump hparts hne
      ((tree.get? project).getD .empty) "" hdepth
    rw [pathBelow, if_pos rfl, joinSlash_parts ht] at hmem
    simp only [matchingTopics, given_some hproject, updateTopicTree, Dict.get?_set]
    refine ⟨count, mem_flatMap.mpr ⟨_, mem_singleton_self _, ?_⟩⟩
    refine mem_map.mpr ⟨(t, count), mem_filter.mpr ⟨?_, haccept⟩, rfl⟩
    exact mem_filter.mpr ⟨hmem, by simpa using hcount⟩

theorem mem_matchingRollups {lib : WriteLib} {rollups : List (String × List TopicRollup)}
    {project above : Option String} {minCount : ℕ} {items : List ListedRollup}
    (h : matchingRollups lib rollups project above minCount = .ok items) {item : ListedRollup} :
    item ∈ items ↔ (given project).all (item.project = ·) = true ∧
      ∃ topics, (item.project, topics) ∈ rollups ∧ item.topic ∈ topics ∧
        ∃ path, normalizeTopicPath lib item.topic.path = .ok path ∧ path ≠ "" ∧
          pathAccepts above path = true ∧ (minCount : ℤ) ≤ item.topic.figures.eventCount := by
  obtain ⟨rows, hrows, hitems⟩ := bind_eq_ok h
  rw [← Except.ok.inj hitems, mem_flatMap]
  constructor
  · rintro ⟨hits, hhits, hmem⟩
    obtain ⟨⟨name, topics⟩, hproject, hloop⟩ := (mem_mapM_iff hrows).mp hhits
    obtain ⟨hmember, hfilter⟩ := mem_filter.mp hproject
    obtain ⟨topic, htopic, hstep⟩ := (mem_mapM_iff hloop).mp (reduceOption_mem_iff.mp hmem)
    obtain ⟨path, hpath, hsome⟩ := bind_eq_ok hstep
    have hselected := Except.ok.inj hsome
    split at hselected
    · exact absurd hselected nofun
    · rename_i hpass
      simp only [not_or, not_lt, Bool.not_eq_false] at hpass
      rw [← Option.some.inj hselected]
      exact ⟨hfilter, topics, hmember, htopic, path, hpath, hpass⟩
  · rintro ⟨hfilter, topics, hmember, htopic, path, hpath, hne, haccept, hcount⟩
    have hproject :
        (item.project, topics) ∈ rollups.filter fun p => (given project).all (p.1 = ·) :=
      mem_filter.mpr ⟨hmember, hfilter⟩
    obtain ⟨hits, hloop⟩ := exists_ok_of_mapM hrows hproject
    refine ⟨hits, (mem_mapM_iff hrows).mpr ⟨_, hproject, hloop⟩, reduceOption_mem_iff.mpr ?_⟩
    refine (mem_mapM_iff hloop).mpr ⟨item.topic, htopic, ?_⟩
    rw [hpath]
    refine congrArg Except.ok (if_neg ?_)
    simp [hne, haccept, hcount]

/-! ### What a filter means -/

def Under (f t : String) : Prop := segments '/' f.toList <+: segments '/' t.toList

instance (f t : String) : Decidable (Under f t) := inferInstanceAs (Decidable (_ <+: _))

/-- The prefix test on `v` tells whether `t` is under `f`: it is sharp and `v` and `t` agree, or the
two errors make up for each other. -/
def ReadsAs (f v t : String) : Prop :=
  Sharp '/' f.toList v.toList ↔ (Under f v ↔ Under f t)

theorem startswith_under_iff {f v t : String} (hv : WellFormed '/' v.toList) (hf : f ≠ "") :
    (startswith v f = true ↔ Under f t) ↔ ReadsAs f v t := by
  have hsharp := prefix_iff_iff (f := f.toList) hv fun h => hf (String.toList_eq_nil_iff.mp h)
  rw [startswith_iff, ReadsAs, ← hsharp, ← Under]
  by_cases hpre : f.toList <+: v.toList <;> by_cases hunder : Under f v <;>
    by_cases ht : Under f t <;> simp [hpre, hunder, ht]

theorem readsAs_self {f t : String} : ReadsAs f t t ↔ Sharp '/' f.toList t.toList := by
  rw [ReadsAs, iff_self, iff_true]

def LikeOnly (f file : String) : Prop :=
  ¬ f.toList <+: file.toList ∧ ∃ u, u <+: file.toList ∧ like f.toList u = true

variable {env : RetrievalEnv} {req : MemoryWrite} {w : PreparedWrite} {f : String}

/-- What the reader compares the filter with tells whether the topic is under it. Letta keeps a
passage without a topic, and a topic that is not written as a path is compared as a text. -/
def SharpFor (env : RetrievalEnv) (w : PreparedWrite) (passage : LettaPassage) (f : String) :
    TopicReader → Prop
  | .mongoRaw | .topicListing => Sharp '/' f.toList w.topicPath.toList
  | .memoryBank => ReadsAs f (bankView env w.file) w.topicPath
  | .topicRollups | .rollupListing =>
    match rollupView env w with
    | .ok v => if v = "" then ¬ Under f w.topicPath else ReadsAs f v w.topicPath
    | .error _ => ¬ Under f w.topicPath
  | .mindsdb => (LikeOnly f w.file → Under f w.topicPath) ∧
    (¬ LikeOnly f w.file → ReadsAs f w.file w.topicPath)
  | .letta =>
    if lettaView env passage = "" then Under f w.topicPath
    else if WellFormed '/' (lettaView env passage).toList then
      ReadsAs f (lettaView env passage) w.topicPath
    else if Under f w.topicPath then f.toList <+: (lettaView env passage).toList
    else ¬ f.toList <+: (lettaView env passage).toList
  | .qdrant =>
    match normalizeTopicPath env.lib w.topicPath with
    | .ok v =>
      if v = "" ∨ v = env.cfg.defaultTopicRoot then
        (f = env.cfg.defaultTopicRoot ↔ Under f w.topicPath)
      else (WellFormed '/' f.toList ∧ Under f v ↔ Under f w.topicPath)
    | .error _ => ¬ Under f w.topicPath

theorem pathAccepts_some (hf : f ≠ "") (v : String) : pathAccepts (some f) v = startswith v f := by
  rw [pathAccepts, given_some hf, Option.all_some]

variable {t path topicPath : String} {parts : List String}

theorem accepts_view_iff (hf : f ≠ "") {v : String} (hv : WellFormed '/' v.toList) :
    (pathAccepts (some f) v = true ↔ Under f t) ↔ ReadsAs f v t := by
  rw [pathAccepts_some hf, startswith_under_iff hv hf]

theorem accepts_bank_iff (hroot : WellFormed '/' env.cfg.defaultTopicRoot.toList) (hf : f ≠ "") :
    (bankTopicAccepts env (some f) w.file = true ↔ Under f w.topicPath) ↔
      ReadsAs f (bankView env w.file) w.topicPath := by
  obtain ⟨t, ht⟩ : ∃ t, deriveTopicPath env.cfg env.lib w.file none = .ok t :=
    deriveTopicPath_none w.file
  rw [bankTopicAccepts, given_some hf, Option.all_some, bankView, ht]
  exact startswith_under_iff (deriveTopicPath_wellFormed hroot ht) hf

theorem mindsdbTopicAccepts_iff (hf : f ≠ "") (file : String) :
    mindsdbTopicAccepts (some f) file = true ↔ f.toList <+: file.toList ∨ LikeOnly f file := by
  have hboth : mindsdbTopicAccepts (some f) file = true ↔
      ∃ u, u <+: file.toList ∧ like f.toList u = true := by
    rw [mindsdbTopicAccepts, given_some hf, Option.all_some, Bool.or_eq_true, literalValue_eq,
      literalValue_eq, like_append_any]
    refine or_iff_right_of_imp fun h => ?_
    -- what matches with a slash behind the filter matches without
    obtain ⟨u, v, hfile, hu, -⟩ := like_append.mp h
    exact ⟨u, ⟨v, hfile.symm⟩, hu⟩
  rw [hboth, LikeOnly]
  constructor
  · intro h
    by_cases hpre : f.toList <+: file.toList
    · exact Or.inl hpre
    · exact Or.inr ⟨hpre, h⟩
  · rintro (hpre | ⟨-, h⟩)
    · exact ⟨f.toList, hpre, like_self _⟩
    · exact h

theorem mem_tail_inits {l : List String} :
    l ∈ parts.inits.tail ↔ l ≠ [] ∧ l <+: parts := by
  cases parts with
  | nil => simp
  | cons p ps =>
    rw [inits_cons, tail_cons, mem_map]
    constructor
    · rintro ⟨rest, hrest, rfl⟩
      exact ⟨cons_ne_nil _ _, cons_prefix_cons.mpr ⟨rfl, (mem_inits _ _).mp hrest⟩⟩
    · rintro ⟨hne, hpre⟩
      obtain ⟨q, rest, rfl⟩ := exists_cons_of_ne_nil hne
      obtain ⟨rfl, hrest⟩ := cons_prefix_cons.mp hpre
      exact ⟨rest, (mem_inits _ _).mpr hrest, rfl⟩

theorem mem_tags_iff (hparts : ∀ s ∈ parts, IsPart s) :
    f ∈ parts.inits.tail.map joinSlash ↔
      WellFormed '/' f.toList ∧ segments '/' f.toList <+: parts.map String.toList := by
  rw [mem_map]
  constructor
  · rintro ⟨l, hl, rfl⟩
    obtain ⟨hne, hpre⟩ := mem_tail_inits.mp hl
    have hl' : ∀ s ∈ l, IsPart s := fun s hs => hparts s (hpre.subset hs)
    rw [segments_joinSlash hl']
    exact ⟨wellFormed_joinSlash hl' hne, hpre.map String.toList⟩
  · rintro ⟨hform, hpre⟩
    obtain ⟨l, hl, hsegments⟩ := prefix_map_iff.mp hpre
    refine ⟨l, mem_tail_inits.mpr ⟨?_, hl⟩, ?_⟩
    · rintro rfl
      exact segments_ne_nil hform hsegments
    · rw [← String.toList_inj, toList_joinSlash, ← hsegments, joined_segments hform]

def prefixChain (path : String) : List String :=
  ((splitSlash path).filter (· ≠ "")).inits.tail.map joinSlash

theorem getLast?_map_joinSlash_inits (h : parts ≠ []) :
    (parts.inits.tail.map joinSlash).getLast? = some (joinSlash parts) := by
  obtain ⟨front, last, rfl⟩ := eq_nil_or_concat' parts |>.resolve_left h
  have hne : front.inits ≠ [] := ne_nil_of_mem ((mem_inits _ _).mpr nil_prefix)
  simp [inits_append, tail_append_of_ne_nil hne]

theorem parts_ne_nil (h : WellFormed '/' path.toList) :
    (splitSlash path).filter (· ≠ "") ≠ [] := by
  intro hnil
  have hpath : segments '/' path.toList = [] := by rw [← map_toList_parts, hnil, map_nil]
  exact segments_ne_nil h hpath

theorem getLast?_prefixChain (h : WellFormed '/' path.toList) :
    (prefixChain path).getLast? = some path := by
  rw [prefixChain, getLast?_map_joinSlash_inits (parts_ne_nil h), joinSlash_parts h]

variable {normalized : String}

theorem topicRollupPathPrefixes_eq (h : normalizeTopicPath env.lib topicPath = .ok normalized) :
    topicRollupPathPrefixes env topicPath =
      .ok (if normalized = "" then [env.cfg.defaultTopicRoot] else prefixChain normalized) := by
  rw [topicRollupPathPrefixes, h]
  refine congrArg Except.ok ?_
  by_cases hempty : normalized = ""
  · rw [if_pos (.inl hempty), if_pos hempty]
  · have hne := parts_ne_nil (normalizeTopicPath_wellFormed h hempty)
    rw [if_neg (not_or.mpr ⟨hempty, hne⟩), if_neg hempty, prefixChain]

theorem topicTagsForPath_eq (h : normalizeTopicPath env.lib topicPath = .ok normalized) :
    topicTagsForPath env.cfg env.lib topicPath =
      .ok (if normalized = "" ∨ normalized = env.cfg.defaultTopicRoot then
        [env.cfg.defaultTopicRoot] else prefixChain normalized) := by
  rw [topicTagsForPath, h]
  change (if normalized = "" ∨ normalized = env.cfg.defaultTopicRoot then _ else
    Except.ok (if prefixChain normalized = [] then _ else prefixChain normalized)) = _
  split
  · rfl
  · rename_i hother
    have hlast := getLast?_prefixChain
      (normalizeTopicPath_wellFormed h fun hempty => hother (.inl hempty))
    have hne : prefixChain normalized ≠ [] := fun hnil => by simp [hnil] at hlast
    rw [if_neg hne]

theorem mem_prefixChain_iff :
    f ∈ prefixChain path ↔ WellFormed '/' f.toList ∧ Under f path := by
  have hparts : ∀ s ∈ (splitSlash path).filter (· ≠ ""), IsPart s := fun s hs =>
    isPart_of_mem_splitSlash (mem_filter.mp hs).1
      (of_decide_eq_true (mem_filter.mp hs).2)
  rw [prefixChain, mem_tags_iff hparts, map_toList_parts, Under]

theorem accepts_rollup_iff (hf : f ≠ "") :
    (((rollupView env w).toOption.any fun path => path ≠ "" && pathAccepts (some f) path) = true ↔
        Under f t) ↔
      match rollupView env w with
      | .ok v => if v = "" then ¬ Under f t else ReadsAs f v t
      | .error _ => ¬ Under f t := by
  cases hview : rollupView env w with
  | error e => simp [Except.toOption]
  | ok v =>
    by_cases hempty : v = ""
    · simp [Except.toOption, hempty]
    · have hform : WellFormed '/' v.toList := by
        obtain ⟨topicPath, -, hrest⟩ := bind_eq_ok hview
        obtain ⟨paths, -, hlast⟩ := bind_eq_ok hrest
        exact normalizeTopicPath_wellFormed hlast hempty
      simpa [Except.toOption, hempty] using accepts_view_iff hf hform

/-! ### All readers -/

/-- **Topic filters.** All eight readers compare segments if and only if the filter is sharp for
each of them. -/
theorem topicFilters_agree_iff {env : RetrievalEnv} {req : MemoryWrite} {w : PreparedWrite}
    (hw : prepareWrite env.cfg env.lib req = .ok w)
    (hroot : WellFormed '/' env.cfg.defaultTopicRoot.toList) (passage : LettaPassage) {f : String}
    (hf : f ≠ "") :
    (∀ reader, topicAccepts env w passage f reader = true ↔ Under f w.topicPath) ↔
      ∀ reader, SharpFor env w passage f reader := by
  have hspec := prepareWrite_spec hw
  have htopic := deriveTopicPath_wellFormed hroot hspec.topicPath
  have hfile := normalizeMemoryPath_wellFormed hspec.file hspec.file_ne
  refine forall_congr' fun reader => ?_
  cases reader with
  | qdrant =>
    obtain ⟨v, hv, -⟩ := bind_eq_ok hspec.topicTags
    have htags := hspec.topicTags
    rw [topicTagsForPath_eq hv] at htags
    rw [topicAccepts, SharpFor, hv, qdrantTopicAccepts, given_some hf, Option.all_some,
      decide_eq_true_eq, ← Except.ok.inj htags]
    dsimp only
    split
    · rw [mem_singleton]
    · rw [mem_prefixChain_iff]
  | memoryBank => exact accepts_bank_iff hroot hf
  | topicRollups => exact accepts_rollup_iff hf
  | mongoRaw =>
    rw [topicAccepts, SharpFor, mongoTopicAccepts, given_some hf, Option.all_some, Option.any_some,
      startswith_under_iff htopic hf, readsAs_self]
  | mindsdb =>
    rw [topicAccepts, SharpFor, mindsdbTopicAccepts_iff hf]
    by_cases hlike : LikeOnly f w.file
    · simp [hlike]
    · rw [or_iff_left hlike, ← startswith_iff, startswith_under_iff hfile hf]
      simp [hlike]
  | letta =>
    rw [topicAccepts, SharpFor, lettaTopicAccepts, given_some hf, Option.all_some]
    by_cases hempty : lettaView env passage = ""
    · simp [hempty]
    · rw [if_neg hempty, decide_eq_false hempty, Bool.false_or]
      split
      · rename_i hform
        exact startswith_under_iff hform hf
      · rw [startswith_iff]
        split <;> simp [*]
  | topicListing => rw [topicAccepts, SharpFor, accepts_view_iff hf htopic, readsAs_self]
  | rollupListing => exact accepts_rollup_iff hf

def keysWrite (file : String) (topicPath : Option String) : MemoryWrite :=
  ⟨"docs", file, "rotate the keys", topicPath⟩

def keysPrepared (file topicPath : String) (topicTags : List String) : PreparedWrite where
  project := "docs"
  file := file
  content := "rotate the keys"
  contentHash := "rotate the keys"
  policyWarning := none
  hot := false
  topicPath := topicPath
  topicTags := topicTags
  summary := "rotate the keys"

def keysPassage (file topicPath : String) : LettaPassage :=
  pushToLetta .plain "rotate the keys" ⟨"docs", file, topicPath, "memory_write", none, none, none,
    none⟩ "p1" "2025-01-01T12:00:00Z"

theorem topicFilters_agree_iff_directory :
    let w := keysPrepared "notes/api/keys.md" "notes/api" ["notes", "notes/api"]
    prepareWrite RetrievalEnv.plain.cfg RetrievalEnv.plain.lib
      (keysWrite "notes/api/keys.md" none) =
        .ok w ∧
      WellFormed '/' RetrievalEnv.plain.cfg.defaultTopicRoot.toList ∧
      ∀ reader, SharpFor .plain w (keysPassage "notes/api/keys.md" "notes/api") "notes" reader := by
  intro w
  have hw : prepareWrite RetrievalEnv.plain.cfg RetrievalEnv.plain.lib
      (keysWrite "notes/api/keys.md" none) = .ok w := by decide +kernel
  have hroot : WellFormed '/' RetrievalEnv.plain.cfg.defaultTopicRoot.toList := by decide +kernel
  refine ⟨hw, hroot, (topicFilters_agree_iff hw hroot _ (by decide)).mp ?_⟩
  intro reader
  cases reader <;> decide +kernel

def siblingWrite : PreparedWrite :=
  keysPrepared "notes/apiary/bees.md" "notes/apiary" ["notes", "notes/apiary"]

def explicitWrite : PreparedWrite := keysPrepared "keys.md" "notes/api" ["notes", "notes/api"]

def patternWrite : PreparedWrite := keysPrepared "api-v1/keys.md" "api-v1" ["api-v1"]

/-- Mongo and the topic listing accept a sibling topic, the memory bank refuses what it should
accept, and `_` matches any character of a file name. -/
theorem sibling_topics_accepted :
    (prepareWrite RetrievalEnv.plain.cfg RetrievalEnv.plain.lib
          (keysWrite "notes/apiary/bees.md" none) = .ok siblingWrite ∧
      ¬ Under "notes/api" siblingWrite.topicPath ∧
      ∀ reader ∈ [TopicReader.mongoRaw, .topicListing], topicAccepts .plain siblingWrite
        (keysPassage "notes/apiary/bees.md" "notes/apiary") "notes/api" reader = true) ∧
    (prepareWrite RetrievalEnv.plain.cfg RetrievalEnv.plain.lib
          (keysWrite "keys.md" (some "notes/api")) = .ok explicitWrite ∧
      Under "notes" explicitWrite.topicPath ∧
      topicAccepts .plain explicitWrite (keysPassage "keys.md" "notes/api") "notes" .memoryBank =
        false) ∧
    (prepareWrite RetrievalEnv.plain.cfg RetrievalEnv.plain.lib (keysWrite "api-v1/keys.md" none) =
          .ok patternWrite ∧
      ¬ Under "api_v1" patternWrite.topicPath ∧
      topicAccepts .plain patternWrite (keysPassage "api-v1/keys.md" "api-v1") "api_v1" .mindsdb =
        true) := by
  decide +kernel

end ContextLattice
