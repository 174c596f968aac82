import ContextLattice.Retrieval.Reads
import ContextLattice.Write.System

/-!
# The keys of a memory

Five keys stand for a memory. All of them join its project and file by colons, and none escapes a
colon in a name. Hashes are taken as free of collisions.
-/

namespace ContextLattice

open Foundation List

/-! ### Names and rows -/

structure MemoryName where
  project : String
  file : String
deriving DecidableEq

def PreparedWrite.name (w : PreparedWrite) : MemoryName := ⟨w.project, w.file⟩

def resultIdentity (env : RetrievalEnv) (drawn : String) (row : SearchRow) : String :=
  let project := env.lib.py.stripLower (row.project.getD "")
  let file := env.lib.py.stripLower (row.file.getD "")
  let summary := env.lib.py.stripLower (row.summary.getD "")
  if project ≠ "" ∨ file ≠ "" then project ++ ":" ++ file
  else if summary = "" then drawn else env.sha1 summary

def eventText (w : PreparedWrite) : String := w.project ++ ":" ++ w.file ++ ":" ++ w.content

structure KeysDiffer (wenv : WriteEnv) (env : RetrievalEnv) (a b : MemoryName) : Prop where
  duplicate : ∀ w w' : PreparedWrite, w.name = a → w'.name = b →
    w.contentHash = wenv.lib.sha256 w.content → w'.contentHash = wenv.lib.sha256 w'.content →
    buildMemoryWriteDedupeKey w ≠ buildMemoryWriteDedupeKey w'
  latest : fileKey a.project a.file ≠ fileKey b.project b.file
  read : ∀ key, memoryReadCacheKey env a.project a.file = .ok key →
    memoryReadCacheKey env b.project b.file ≠ .ok key
  event : ∀ w w' : PreparedWrite, w.name = a → w'.name = b →
    (buildEventId wenv w = buildEventId wenv w' → eventText w = eventText w') →
    buildEventId wenv w ≠ buildEventId wenv w'
  row : ∀ (r r' : SearchRow) (drawn drawn' : String), r.project = some a.project →
    r.file = some a.file → r'.project = some b.project → r'.file = some b.file →
    ':' ∉ drawn.toList → ':' ∉ drawn'.toList →
      resultIdentity env drawn r ≠ resultIdentity env drawn' r'

def MemoryName.stem (a : MemoryName) : List Char :=
  a.project.toList ++ ':' :: (a.file.toList ++ [':'])

structure Apart (env : RetrievalEnv) (a b : MemoryName) : Prop where
  names : ¬ Confused [':'] a.project.toList a.file.toList b.project.toList b.file.toList
  reads : ∀ f g, normalizeMemoryPath env.lib a.file = .ok f →
    normalizeMemoryPath env.lib b.file = .ok g →
      ¬ Confused [':', ':'] (env.lib.py.stripLower a.project).toList
        (env.lib.py.stripLower f).toList (env.lib.py.stripLower b.project).toList
        (env.lib.py.stripLower g).toList
  events : ¬ a.stem <+: b.stem ∧ ¬ b.stem <+: a.stem
  rows : ¬ Confused [':'] (env.lib.py.stripLower a.project).toList
    (env.lib.py.stripLower a.file).toList (env.lib.py.stripLower b.project).toList
    (env.lib.py.stripLower b.file).toList

def blankWrite (a : MemoryName) (content : String) : PreparedWrite :=
  ⟨a.project, a.file, content, "", none, false, "", [], ""⟩

def rowOf (a : MemoryName) : SearchRow :=
  ⟨some a.project, some a.file, none, none, none, none, none, none, none, none⟩

/-! ### The keys, one by one -/

variable {wenv : WriteEnv} {env : RetrievalEnv} {a b : MemoryName}

variable {x y drawn file project : String} {row : SearchRow}

theorem joinedText_eq_iff (sep : String) {x' y' : String} :
    x ++ sep ++ y = x' ++ sep ++ y' ↔
      Confused sep.toList x.toList y.toList x'.toList y'.toList := by
  rw [← String.toList_inj, String.toList_append, String.toList_append, String.toList_append,
    String.toList_append, append_assoc, append_assoc, joined_eq_iff]

theorem fileKey_eq_iff : fileKey a.project a.file = fileKey b.project b.file ↔
    Confused [':'] a.project.toList a.file.toList b.project.toList b.file.toList :=
  joinedText_eq_iff ":"

theorem fileKey_eq_of_dedupeKey {w w' : PreparedWrite} (hw : ':' ∉ w.contentHash.toList)
    (hw' : ':' ∉ w'.contentHash.toList)
    (h : buildMemoryWriteDedupeKey w = buildMemoryWriteDedupeKey w') :
    fileKey w.project w.file = fileKey w'.project w'.file := by
  have hlist := congrArg String.toList h
  have hcut : ∀ {s : String}, ':' ∉ s.toList → ':' ∉ (truncate 32 s).toList := by
    intro s hs hmem
    rw [truncate, String.toList_ofList] at hmem
    exact hs (mem_of_mem_take hmem)
  simp only [buildMemoryWriteDedupeKey, String.toList_append] at hlist
  rw [append_assoc, append_assoc (w'.project.toList ++ _ ++ _)] at hlist
  refine String.toList_inj.mp ?_
  simpa [fileKey] using (append_cons_inj hlist (hcut hw) (hcut hw')).1

theorem eventText_toList (w : PreparedWrite) :
    (eventText w).toList = w.name.stem ++ w.content.toList := by
  simp [eventText, MemoryName.stem, PreparedWrite.name]

theorem resultIdentity_eq (hproject : row.project = some project) (hfile : row.file = some file)
    (h : env.lib.py.stripLower project ≠ "" ∨ env.lib.py.stripLower file ≠ "") :
    resultIdentity env drawn row =
      env.lib.py.stripLower project ++ ":" ++ env.lib.py.stripLower file := by
  simp only [resultIdentity, hproject, hfile, Option.getD_some]
  rw [if_pos h]

theorem resultIdentity_of_unnamed
    (hproject : row.project = some project) (hfile : row.file = some file)
    (h : ¬ (env.lib.py.stripLower project ≠ "" ∨ env.lib.py.stripLower file ≠ "")) :
    resultIdentity env drawn row =
      if env.lib.py.stripLower (row.summary.getD "") = "" then drawn
      else env.sha1 (env.lib.py.stripLower (row.summary.getD "")) := by
  simp only [resultIdentity, hproject, hfile, Option.getD_some]
  rw [if_neg h]

theorem colon_not_mem (hsha1 : ∀ s, ':' ∉ (env.sha1 s).toList) (hdrawn : ':' ∉ drawn.toList)
    (hproject : row.project = some project) (hfile : row.file = some file) (h : ¬
    (env.lib.py.stripLower project ≠ "" ∨ env.lib.py.stripLower file ≠ "")) : ':' ∉ (resultIdentity
    env drawn row).toList := by
  rw [resultIdentity_of_unnamed hproject hfile h]
  split
  · exact hdrawn
  · exact hsha1 _

theorem readKey_eq_ok {key : String} (h : memoryReadCacheKey env a.project a.file = .ok key) :
    ∃ f, normalizeMemoryPath env.lib a.file = .ok f ∧
      key = env.lib.py.stripLower a.project ++ "::" ++ env.lib.py.stripLower f := by
  obtain ⟨f, hf, hkey⟩ := bind_eq_ok h
  exact ⟨f, hf, (Except.ok.inj hkey).symm⟩

theorem joinedText_ne {z : String} (hz : ':' ∉ z.toList) : x ++ ":" ++ y ≠ z := by
  rintro rfl
  exact hz (by simp)

theorem Apart.keysDiffer (h : Apart env a b) (hsha256 : ∀ s, ':' ∉ (wenv.lib.sha256 s).toList)
    (hsha1 : ∀ s, ':' ∉ (env.sha1 s).toList) : KeysDiffer wenv env a b where
  duplicate := by
    rintro w w' rfl rfl hw hw' hkey
    have hfile := fileKey_eq_of_dedupeKey (by rw [hw]; exact hsha256 _)
      (by rw [hw']; exact hsha256 _)
      hkey
    exact h.names (fileKey_eq_iff.mp hfile)
  latest := fun hkey => h.names (fileKey_eq_iff.mp hkey)
  read := by
    intro key ha hb
    obtain ⟨f, hf, rfl⟩ := readKey_eq_ok ha
    obtain ⟨g, hg, hkey⟩ := readKey_eq_ok hb
    exact h.reads f g hf hg ((joinedText_eq_iff "::").mp hkey)
  event := by
    rintro w w' rfl rfl hcollision hid
    have htext := congrArg String.toList (hcollision hid)
    rw [eventText_toList, eventText_toList] at htext
    have hw : w.name.stem <+: w'.name.stem ++ w'.content.toList := ⟨_, htext⟩
    rcases prefix_or_prefix_of_prefix hw (prefix_append _ _) with hle | hle
    · exact h.events.1 hle
    · exact h.events.2 hle
  row := by
    intro r r' drawn drawn' hp hf hp' hf' hdrawn hdrawn' hid
    by_cases ha : env.lib.py.stripLower a.project ≠ "" ∨ env.lib.py.stripLower a.file ≠ ""
    · by_cases hb : env.lib.py.stripLower b.project ≠ "" ∨ env.lib.py.stripLower b.file ≠ ""
      · rw [resultIdentity_eq hp hf ha, resultIdentity_eq hp' hf' hb] at hid
        exact h.rows ((joinedText_eq_iff ":").mp hid)
      · rw [resultIdentity_eq hp hf ha] at hid
        exact joinedText_ne (colon_not_mem hsha1 hdrawn' hp' hf' hb) hid
    · by_cases hb : env.lib.py.stripLower b.project ≠ "" ∨ env.lib.py.stripLower b.file ≠ ""
      · rw [resultIdentity_eq hp' hf' hb] at hid
        exact joinedText_ne (colon_not_mem hsha1 hdrawn hp hf ha) hid.symm
      · push Not at ha hb
        refine h.rows (.inl ⟨?_, ?_⟩)
        · rw [ha.1, hb.1]
        · rw [ha.2, hb.2]

theorem named_iff : (x ≠ "" ∨ y ≠ "") ↔ x ++ ":" ++ y ≠ ":" := by
  rw [← not_iff_not]
  push Not
  constructor
  · rintro ⟨rfl, rfl⟩
    rfl
  · intro h
    have hlen := congrArg (fun s => s.toList.length) h
    simp only [String.toList_append, length_append] at hlen
    have hone : (":" : String).toList.length = 1 := rfl
    constructor <;> exact String.toList_eq_nil_iff.mp (length_eq_zero_iff.mp (by omega))

theorem KeysDiffer.apart (h : KeysDiffer wenv env a b) : Apart env a b where
  names := fun hnames => h.latest (fileKey_eq_iff.mpr hnames)
  reads := by
    intro f g hf hg hreads
    have hkey : ∀ {m : MemoryName} {file : String}, normalizeMemoryPath env.lib m.file = .ok file →
        memoryReadCacheKey env m.project m.file =
          .ok (env.lib.py.stripLower m.project ++ "::" ++ env.lib.py.stripLower file) := by
      intro m file hfile
      rw [memoryReadCacheKey, hfile]
      rfl
    have heq := (joinedText_eq_iff "::").mpr hreads
    exact h.read _ (hkey hf) (by rw [hkey hg, heq])
  events := by
    have hevent : ∀ {m n : MemoryName} {t : List Char}, m.stem ++ t = n.stem →
        eventText (blankWrite m (String.ofList t)) = eventText (blankWrite n "") := by
      intro m n t ht
      refine String.toList_inj.mp ?_
      rw [eventText_toList, eventText_toList]
      simpa [blankWrite, PreparedWrite.name] using ht
    constructor
    · rintro ⟨t, ht⟩
      refine h.event (blankWrite a (String.ofList t)) (blankWrite b "") rfl rfl
        (fun _ => hevent ht) ?_
      exact congrArg (fun s => truncate 32 (wenv.lib.sha256 s)) (hevent ht)
    · rintro ⟨t, ht⟩
      refine h.event (blankWrite a "") (blankWrite b (String.ofList t)) rfl rfl
        (fun _ => (hevent ht).symm) ?_
      exact congrArg (fun s => truncate 32 (wenv.lib.sha256 s)) (hevent ht).symm
  rows := by
    intro hrows
    have heq := (joinedText_eq_iff ":").mpr hrows
    refine h.row (rowOf a) (rowOf b) "" "" rfl rfl rfl rfl (by simp) (by simp) ?_
    by_cases ha : env.lib.py.stripLower a.project ≠ "" ∨ env.lib.py.stripLower a.file ≠ ""
    · have hb := named_iff.mpr (heq ▸ named_iff.mp ha)
      rw [resultIdentity_eq rfl rfl ha, resultIdentity_eq rfl rfl hb, heq]
    · have hb : ¬ (env.lib.py.stripLower b.project ≠ "" ∨ env.lib.py.stripLower b.file ≠ "") :=
        fun hb => ha (named_iff.mpr (heq ▸ named_iff.mp hb))
      rw [resultIdentity_of_unnamed rfl rfl ha, resultIdentity_of_unnamed rfl rfl hb]
      rfl

/-- **Keys.** The keys of two memories all differ exactly if the two names are apart. -/
theorem keysDiffer_iff_apart (wenv : WriteEnv) (env : RetrievalEnv)
    (hsha256 : ∀ s, ':' ∉ (wenv.lib.sha256 s).toList) (hsha1 : ∀ s, ':' ∉ (env.sha1 s).toList)
    (a b : MemoryName) : KeysDiffer wenv env a b ↔ Apart env a b :=
  ⟨fun h => h.apart, fun h => h.keysDiffer hsha256 hsha1⟩

/-! ### Names that are apart, and names that are not -/

def digitLib : WriteLib := { WriteLib.plain with sha256 := fun _ => "0" }

def digitWrites : WriteEnv := ⟨.default, .default, digitLib⟩

def digitReads : RetrievalEnv := ⟨.default, digitLib, .default, fun _ => "0", fun _ => ""⟩

theorem keysDiffer_iff_apart_projects :
    KeysDiffer digitWrites digitReads ⟨"docs", "plan.md"⟩ ⟨"notes", "plan.md"⟩ := by
  refine (keysDiffer_iff_apart digitWrites digitReads (by simp [digitWrites, digitLib])
    (by simp [digitReads]) _ _).mpr ⟨by decide +kernel, ?_, by decide +kernel, by decide +kernel⟩
  have hfile : normalizeMemoryPath digitReads.lib "plan.md" = .ok "plan.md" := by decide +kernel
  intro f g hf hg
  rw [hfile] at hf hg
  rw [← Except.ok.inj hf, ← Except.ok.inj hg]
  decide +kernel

/-- Two names have one key, so a write to the second is taken for a duplicate; and capital letters
are lost in the read cache and in the identity of a row. -/
theorem names_confused :
    fileKey "a:b" "c" = fileKey "a" "b:c" ∧
    (checkWrite .default 1 (blankWrite ⟨"a", "b:c"⟩ "x")
      (checkWrite .default 0 (blankWrite ⟨"a:b", "c"⟩ "x") ⟨.empty, .empty⟩).1).2 = .duplicate ∧
    eventText (blankWrite ⟨"a", "b"⟩ "c:x") = eventText (blankWrite ⟨"a", "b:c"⟩ "x") ∧
    memoryReadCacheKey digitReads "docs" "Plan.md" =
      memoryReadCacheKey digitReads "docs" "plan.md" ∧
    resultIdentity digitReads "" (rowOf ⟨"docs", "Plan.md"⟩) =
      resultIdentity digitReads "" (rowOf ⟨"docs", "plan.md"⟩) := by
  refine ⟨?_, ?_, ?_, ?_, ?_⟩ <;> decide +kernel

end ContextLattice
