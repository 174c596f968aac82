import ContextLattice.Retrieval.Topics

/-!
# Names of rollup files

The rollup of a hot file depends only on its directory and its **stem**, the name without the rollup
suffix or else without `.json`.
-/

namespace ContextLattice

open Foundation List

variable (cfg : WriteConfig)

def directoryParts (n : String) : List String := (splitSlash n).dropLast

def rollupStem (n : String) : List Char :=
  let base := ((splitSlash n).getLastD "").toList
  if cfg.hotMemoryRollupSuffix.toList.isSuffixOf base then
    base.take (base.length - cfg.hotMemoryRollupSuffix.toList.length)
  else if ".json".toList.isSuffixOf base then base.take (base.length - 5)
  else base

def rollupName (n : String) : List Char :=
  if n = "" then "hot__rollup.json".toList
  else rollupStem cfg n ++ cfg.hotMemoryRollupSuffix.toList

variable {cfg : WriteConfig} {lib : WriteLib} {a n r : String}

private theorem take_append_of_isSuffixOf {s l : List Char} (h : s.isSuffixOf l = true) :
    l.take (l.length - s.length) ++ s = l := by
  obtain ⟨front, rfl⟩ := isSuffixOf_iff_suffix.mp h
  rw [length_append, Nat.add_sub_cancel, take_left']
  rfl

theorem slash_not_mem_of_mem_splitSlash {part : String} (h : part ∈ splitSlash n) :
    '/' ∉ part.toList := by
  obtain ⟨piece, hpiece, rfl⟩ := mem_map.mp h
  rw [String.toList_ofList]
  exact not_mem_of_mem_splitOn hpiece

theorem slash_not_mem_base (n : String) : '/' ∉ ((splitSlash n).getLastD "").toList := by
  rw [getLastD_eq_getLast?]
  rcases hlast : (splitSlash n).getLast? with _ | base
  · simp
  · exact slash_not_mem_of_mem_splitSlash (mem_of_getLast? hlast)

theorem slash_not_mem_rollupStem (cfg : WriteConfig) (n : String) : '/' ∉ rollupStem cfg n := by
  have hbase := slash_not_mem_base n
  unfold rollupStem
  dsimp only
  repeat' split
  · exact fun h => hbase (mem_of_mem_take h)
  · exact fun h => hbase (mem_of_mem_take h)
  · exact hbase

theorem toList_sourceName (cfg : WriteConfig) (n : String) :
    let base := (splitSlash n).getLastD ""
    (if cfg.hotMemoryRollupSuffix.toList.isSuffixOf base.toList then base
      else if ".json".toList.isSuffixOf base.toList then
        String.ofList (base.toList.take (base.toList.length - 5)) ++ cfg.hotMemoryRollupSuffix
      else base ++ cfg.hotMemoryRollupSuffix).toList =
      rollupStem cfg n ++ cfg.hotMemoryRollupSuffix.toList := by
  intro base
  simp only [rollupStem]
  split
  · rename_i hsuffix
    exact (take_append_of_isSuffixOf hsuffix).symm
  · split <;> simp [base]

theorem isPart_directoryParts (hn : normalizeMemoryPath lib a = .ok n) (hne : n ≠ "") :
    ∀ part ∈ directoryParts n, IsPart part := by
  intro part hpart
  have hmem : part ∈ splitSlash n := mem_of_mem_dropLast hpart
  refine isPart_of_mem_splitSlash hmem fun hempty => ?_
  subst hempty
  obtain ⟨piece, hpiece, hempty⟩ := mem_map.mp hmem
  rw [String.ofList_eq_empty_iff] at hempty
  exact normalizeMemoryPath_wellFormed hn hne (hempty ▸ hpiece)

theorem joinSlash_eq_empty_iff {parts : List String} (h : ∀ part ∈ parts, IsPart part) :
    joinSlash parts = "" ↔ parts = [] := by
  constructor
  · intro hempty
    have hsegments := segments_joinSlash h
    rw [hempty] at hsegments
    simpa using hsegments.symm
  · rintro rfl
    rfl

theorem toList_rollupFile (hn : normalizeMemoryPath lib a = .ok n)
    (h : buildHotMemoryRollupFile cfg lib a = .ok r) :
    r.toList = joined '/' ((directoryParts n).map String.toList ++ ["_rollups".toList]) ++
      '/' :: rollupName cfg n := by
  simp only [buildHotMemoryRollupFile, hn, bind, Except.bind] at h
  by_cases hempty : n = ""
  · subst hempty
    rw [if_pos rfl] at h
    rw [← Except.ok.inj h]
    rfl
  · rw [if_neg hempty] at h
    have hname := toList_sourceName cfg n
    dsimp only at hname
    rw [rollupName, if_neg hempty, ← hname, ← Except.ok.inj h]
    have hdirectory : joinSlash (splitSlash n).dropLast = "" ↔ directoryParts n = [] :=
      joinSlash_eq_empty_iff (isPart_directoryParts hn hempty)
    by_cases hdir : directoryParts n = []
    · rw [if_pos (hdirectory.mpr hdir), hdir]
      simp [joined]
    · rw [if_neg (mt hdirectory.mp hdir), joined_append (by simpa using hdir) (by simp)]
      simp [joined, joinSlash, directoryParts]

def rollupPath (directories : List String) (name : List Char) : List Char :=
  joined '/' (directories.map String.toList ++ ["_rollups".toList]) ++ '/' :: name

theorem rollupPath_injective {ds es : List String} {x y : List Char}
    (hds : ∀ d ∈ ds, '/' ∉ d.toList) (hes : ∀ e ∈ es, '/' ∉ e.toList) (hx : '/' ∉ x)
    (hy : '/' ∉ y) (h : rollupPath ds x = rollupPath es y) : ds = es ∧ x = y := by
  -- the path is the joining of its parts, from which it can be split again
  have hsplit : ∀ {ds : List String} {x : List Char}, (∀ d ∈ ds, '/' ∉ d.toList) → '/' ∉ x →
      (rollupPath ds x).splitOn '/' = (ds.map String.toList ++ ["_rollups".toList]) ++ [x] := by
    intro ds x hds hx
    have hjoined : rollupPath ds x =
        joined '/' ((ds.map String.toList ++ ["_rollups".toList]) ++ [x]) := by
      rw [joined_append (by simp) (by simp), rollupPath]
      simp [joined]
    rw [hjoined]
    refine splitOn_intercalate '/' (fun p hp => ?_) (by simp)
    simp only [mem_append, mem_map, mem_singleton] at hp
    rcases hp with (⟨d, hd, rfl⟩ | rfl) | rfl
    · exact hds d hd
    · decide
    · exact hx
  have hparts := congrArg (List.splitOn '/') h
  rw [hsplit hds hx, hsplit hes hy] at hparts
  obtain ⟨hfront, hlast⟩ := append_inj' hparts rfl
  have hmap := (append_inj' hfront rfl).1
  have hinj : Function.Injective String.toList := fun _ _ => String.toList_inj.mp
  exact ⟨hinj.list_map hmap, singleton_inj.mp hlast⟩

theorem slash_not_mem_directoryParts (n : String) : ∀ d ∈ directoryParts n, '/' ∉ d.toList :=
  fun _ hd => slash_not_mem_of_mem_splitSlash (mem_of_mem_dropLast hd)

theorem rollupPath_ne_fixed (hslash : '/' ∈ cfg.hotMemoryRollupSuffix.toList) (hn : n ≠ "") :
    rollupPath (directoryParts n) (rollupName cfg n) ≠
      rollupPath (directoryParts "") (rollupName cfg "") := by
  intro h
  have hcount := congrArg (List.count '/') h
  have hfixed : (rollupPath (directoryParts "") (rollupName cfg "")).count '/' = 1 := by
    rw [rollupName, if_pos rfl]
    decide
  have hsuffix := count_pos_iff.mpr hslash
  rw [hfixed, rollupPath, rollupName, if_neg hn] at hcount
  simp only [count_append, count_cons_self] at hcount
  omega

theorem rollupPath_eq_iff {m : String} :
    rollupPath (directoryParts m) (rollupName cfg m) =
        rollupPath (directoryParts n) (rollupName cfg n) ↔
      directoryParts m = directoryParts n ∧ rollupName cfg m = rollupName cfg n := by
  refine ⟨fun h => ?_, fun h => by rw [h.1, h.2]⟩
  have hstem (k : String) := slash_not_mem_rollupStem cfg k
  by_cases hslash : '/' ∈ cfg.hotMemoryRollupSuffix.toList
  · by_cases hm : m = ""
    · by_cases hn : n = ""
      · rw [hm, hn]
        exact ⟨rfl, rfl⟩
      · subst hm
        exact absurd h.symm (rollupPath_ne_fixed hslash hn)
    · by_cases hn : n = ""
      · subst hn
        exact absurd h (rollupPath_ne_fixed hslash hm)
      · -- both paths end with the suffix
        have hcut : rollupPath (directoryParts m) (rollupStem cfg m) =
            rollupPath (directoryParts n) (rollupStem cfg n) := by
          simp only [rollupName, if_neg hm, if_neg hn, rollupPath] at h ⊢
          refine (append_left_inj cfg.hotMemoryRollupSuffix.toList).mp ?_
          simpa using h
        obtain ⟨hdirectory, hsame⟩ := rollupPath_injective (slash_not_mem_directoryParts m)
          (slash_not_mem_directoryParts n) (hstem m) (hstem n) hcut
        exact ⟨hdirectory, by rw [rollupName, rollupName, if_neg hm, if_neg hn, hsame]⟩
  · have hname (k : String) : '/' ∉ rollupName cfg k := by
      unfold rollupName
      split
      · decide
      · rw [mem_append, not_or]
        exact ⟨hstem k, hslash⟩
    exact rollupPath_injective (slash_not_mem_directoryParts m) (slash_not_mem_directoryParts n)
      (hname m) (hname n) h

/-- **Rollup files, exactly**: they differ if and only if the names, decoded once more, differ in
their directories or without the rollup suffix or `.json`. -/
theorem rollup_files_differ_iff {b m ra rb : String} (hm : normalizeMemoryPath lib a = .ok m)
    (hn : normalizeMemoryPath lib b = .ok n) (hra : buildHotMemoryRollupFile cfg lib a = .ok ra)
    (hrb : buildHotMemoryRollupFile cfg lib b = .ok rb) :
    ra ≠ rb ↔ directoryParts m ≠ directoryParts n ∨ rollupName cfg m ≠ rollupName cfg n := by
  rw [← not_and_or, not_iff_not, ← rollupPath_eq_iff, ← String.toList_inj,
    toList_rollupFile hm hra, toList_rollupFile hn hrb]
  rfl

/-! ### Two hot files with one rollup -/

def starMatch : List Char → List Char → Bool
  | [], cs => cs.isEmpty
  | p :: ps, cs =>
    if p = '*' then cs.tails.any (starMatch ps)
    else match cs with
      | [] => false
      | c :: cs => decide (p = c) && starMatch ps cs

def WriteLib.globbing : WriteLib :=
  { WriteLib.plain with fnmatch := fun name pattern => starMatch pattern.toList name.toList }

theorem rollup_files_differ_iff_telemetry :
    let a := "telemetry__a.json"
    let b := "telemetry__b.json"
    let ra := "_rollups/telemetry__a__rollup.json"
    let rb := "_rollups/telemetry__b__rollup.json"
    buildHotMemoryRollupFile .default .globbing a = .ok ra ∧
      buildHotMemoryRollupFile .default .globbing b = .ok rb ∧
      (ra ≠ rb ↔ directoryParts a ≠ directoryParts b ∨
        rollupName .default a ≠ rollupName .default b) := by
  intro a b ra rb
  have hm : normalizeMemoryPath .globbing a = .ok a := by decide
  have hn : normalizeMemoryPath .globbing b = .ok b := by decide
  have hra : buildHotMemoryRollupFile .default .globbing a = .ok ra := by decide
  have hrb : buildHotMemoryRollupFile .default .globbing b = .ok rb := by decide
  exact ⟨hra, hrb, rollup_files_differ_iff hm hn hra hrb⟩

def overwritingRun : List WriteOp :=
  requestOps 1 0 "e1" "telemetry__a.json" "one" ++
    requestOps 2 1 "e2" "telemetry__a__rollup.json" "two" ++
    [.flush .noon 100 true id] ++ workerOps 0 ++ workerOps 0

/-- **One rollup overwrites another**: both names are hot, and their rollup files are the same. -/
theorem rollup_overwritten :
    let a := "telemetry__a.json"
    let b := "telemetry__a__rollup.json"
    let r := "_rollups/telemetry__a__rollup.json"
    let s := run (writeStep ⟨.default, .default, .globbing⟩) .empty overwritingRun
    a ≠ b ∧ normalizeMemoryPath .globbing a = .ok a ∧ normalizeMemoryPath .globbing b = .ok b ∧
      isHotMemoryFile .default .globbing a = true ∧ isHotMemoryFile .default .globbing b = true ∧
      buildHotMemoryRollupFile .default .globbing a = .ok r ∧
      buildHotMemoryRollupFile .default .globbing b = .ok r ∧
      s.stored.map (fun item => (item.file, item.fileName)) = [(a, r), (b, r)] ∧
      s.bank.rows.map Prod.fst = [("docs", r)] := by
  decide +kernel

end ContextLattice
