import Mathlib.Data.Bool.AllAny
import ContextLattice.Retrieval.Sources

/-!
# Reading a passage back

`_build_letta_archival_text` writes the names unquoted into one line, and
`_parse_letta_archival_content` searches that line for `project=`, `file=` and `topic=`. The summary
is read up to its first line break.
-/

namespace ContextLattice

open Foundation List

/-! ### Fields of a line -/

variable (name : List Char)

def fieldRun (l : List Char) : List Char :=
  if name <+: l then (l.drop name.length).takeWhile fun c => !isSpace c else []

variable {name}

theorem headerField_cons (c : Char) (l : List Char) : headerField name (c :: l) =
    if fieldRun name (c :: l) = [] then headerField name l
    else some (String.ofList (fieldRun name (c :: l))) :=
  rfl

variable {l : List Char}

theorem not_isSpace_of_mem_fieldRun {c : Char} (h : c ∈ fieldRun name l) : isSpace c = false := by
  rw [fieldRun] at h
  split at h
  · simpa using mem_takeWhile_imp h
  · cases h

variable {v : String}

theorem headerField_eq_some (h : headerField name l = some v) :
    v ≠ "" ∧ ∀ c ∈ v.toList, isSpace c = false := by
  induction l with
  | nil => cases h
  | cons c l ih =>
    rw [headerField_cons] at h
    split at h
    · exact ih h
    · rename_i hrun
      obtain rfl := Option.some.inj h
      rw [String.toList_ofList]
      exact ⟨by simpa using hrun, fun d => not_isSpace_of_mem_fieldRun⟩

theorem fieldRun_append_blank (hname : ∀ c ∈ name, isSpace c = false) (a b : List Char) :
    fieldRun name (a ++ ' ' :: b) = fieldRun name a := by
  have hblank : isSpace ' ' = true := by decide
  by_cases hfront : name <+: a
  · have hlen := hfront.length_le
    rw [fieldRun, if_pos (hfront.trans (prefix_append _ _)), fieldRun, if_pos hfront,
      drop_append_of_le_length hlen, takeWhile_append]
    split
    · rename_i hall
      have hself := ( takeWhile_prefix fun c => !isSpace c).eq_of_length hall
      simp [hself, hblank]
    · rfl
  · rw [fieldRun, fieldRun, if_neg hfront, if_neg]
    rintro ⟨t, ht⟩
    rcases append_eq_append_iff.mp ht with ⟨u, hu, -⟩ | ⟨_ | ⟨d, u⟩, hu, hrest⟩
    · exact hfront ⟨u, hu.symm⟩
    · exact hfront (by rw [hu, append_nil])
    · obtain ⟨rfl, -⟩ := List.cons.inj hrest
      rw [hname ' ' (by rw [hu]; simp)] at hblank
      cases hblank

theorem headerField_append_blank (hne : name ≠ []) (hname : ∀ c ∈ name, isSpace c = false)
    (a b : List Char) :
    headerField name (a ++ ' ' :: b) = (headerField name a).or (headerField name b) := by
  induction a with
  | nil =>
    have hnil : fieldRun name [] = [] := by simp [fieldRun, hne]
    have hrun := fieldRun_append_blank hname [] b
    rw [nil_append] at hrun ⊢
    rw [headerField_cons, if_pos (hrun.trans hnil)]
    rfl
  | cons c a ih =>
    have hrun := fieldRun_append_blank hname (c :: a) b
    rw [cons_append] at hrun ⊢
    rw [headerField_cons, headerField_cons, hrun, ih]
    split <;> rfl

theorem headerField_append (hne : name ≠ []) (hv : v ≠ "")
    (hspace : ∀ c ∈ v.toList, isSpace c = false) :
    headerField name (name ++ v.toList) = some v := by
  have hrun : fieldRun name (name ++ v.toList) = v.toList := by
    rw [fieldRun, if_pos (prefix_append _ _), drop_left, takeWhile_eq_self_iff]
    simpa using hspace
  obtain ⟨c, name', rfl⟩ := exists_cons_of_ne_nil hne
  rw [cons_append] at hrun ⊢
  rw [headerField_cons, hrun, if_neg (by simpa using hv), String.ofList_toList]

/-! ### Lines -/

def firstLine (cs : List Char) : List Char := cs.takeWhile fun c => !isLineBreak c

theorem isSpace_of_isLineBreak {c : Char} (h : isLineBreak c = true) : isSpace c = true := by
  simp only [isLineBreak, Bool.or_eq_true, Bool.and_eq_true, decide_eq_true_eq, beq_iff_eq] at h
  simp only [isSpace, Bool.or_eq_true, Bool.and_eq_true, decide_eq_true_eq, beq_iff_eq]
  omega

theorem textLines_append_cons {c : Char} (hc : isLineBreak c = true) (a b : List Char) :
    textLines (String.ofList (a ++ c :: b)) =
      textLines (String.ofList a) ++ textLines (String.ofList b) := by
  simp only [textLines, String.toList_ofList]
  rw [splitOnP_append_cons a b hc, map_append, filter_append]

theorem splitOnP_eq_firstLine_cons (cs : List Char) :
    ∃ rest, cs.splitOnP isLineBreak = firstLine cs :: rest := by
  induction cs with
  | nil => exact ⟨[], rfl⟩
  | cons c cs ih =>
    obtain ⟨rest, hrest⟩ := ih
    rw [splitOnP_cons_eq_if_modifyHead, firstLine]
    by_cases hc : isLineBreak c = true
    · rw [if_pos hc, takeWhile_cons_of_neg (by simpa using hc)]
      exact ⟨_, rfl⟩
    · rw [if_neg hc, takeWhile_cons_of_pos (by simpa using hc), hrest]
      exact ⟨rest, rfl⟩

variable {cs : List Char}

theorem textLines_eq_cons (h : strip (String.ofList (firstLine cs)) ≠ "") :
    ∃ rest, textLines (String.ofList cs) = strip (String.ofList (firstLine cs)) :: rest := by
  obtain ⟨rest, hrest⟩ := splitOnP_eq_firstLine_cons cs
  refine ⟨(rest.map fun l => strip (String.ofList l)).filter (· ≠ ""), ?_⟩
  rw [textLines, String.toList_ofList, hrest, map_cons,
    filter_cons_of_pos (by simpa using h)]

variable {a b : List Char}

theorem rdropWhile_append {p : Char → Bool} (h : (∃ c ∈ b, p c = false) ∨ a.rdropWhile p = a) :
    (a ++ b).rdropWhile p = a ++ b.rdropWhile p := by
  induction b using List.reverseRecOn with
  | nil =>
    rcases h with ⟨c, hc, -⟩ | h
    · cases hc
    · rw [append_nil, rdropWhile_nil, append_nil, h]
  | append_singleton b d ih =>
    rw [← append_assoc]
    by_cases hd : p d = true
    · rw [rdropWhile_concat_pos p _ d hd, rdropWhile_concat_pos p _ d hd]
      refine ih (h.imp_left ?_)
      rintro ⟨c, hc, hpc⟩
      rcases mem_append.mp hc with hc | hc
      · exact ⟨c, hc, hpc⟩
      · obtain rfl := mem_singleton.mp hc
        rw [hd] at hpc
        cases hpc
    · rw [rdropWhile_concat_neg p _ d hd, rdropWhile_concat_neg p _ d hd, append_assoc]

theorem stripList_append (ha : a.head?.any (fun c => !isSpace c) = true)
    (h : (∃ c ∈ b, isSpace c = false) ∨ a.rdropWhile isSpace = a) :
    stripList isSpace (a ++ b) = a ++ b.rdropWhile isSpace := by
  have hfront : (a ++ b).dropWhile isSpace = a ++ b := by
    cases a with
    | nil => cases ha
    | cons x a => exact dropWhile_cons_of_neg (by simpa using ha)
  rw [stripList, hfront, rdropWhile_append h]

theorem stripList_rdropWhile (p : Char → Bool) (l : List Char) :
    stripList p (l.rdropWhile p) = stripList p l := by
  induction l using List.reverseRecOn with
  | nil => rfl
  | append_singleton l c ih =>
    by_cases hc : p c = true
    · rw [rdropWhile_concat_pos p _ c hc, ih, stripList_concat hc]
    · rw [rdropWhile_concat_neg p _ c hc]

/-! ### The text of a passage -/

def projectMark : List Char := ['p', 'r', 'o', 'j', 'e', 'c', 't', '=']

def fileMark : List Char := ['f', 'i', 'l', 'e', '=']

def topicMark : List Char := ['t', 'o', 'p', 'i', 'c', '=']

def headerLine (c : LettaContext) : List Char :=
  projectMark ++ c.project.toList ++
    ' ' :: (fileMark ++ c.file.toList ++ ' ' :: (topicMark ++ c.topicPath.toList))

def RetrievalEnv.withLettaLimit (env : RetrievalEnv) (n : ℕ) : RetrievalEnv :=
  { env with search := { env.search with lettaArchivalMaxChars := n } }

def LettaTextFits (env : RetrievalEnv) (summary : String) (c : LettaContext) : Prop :=
  ∀ n, (buildLettaArchivalText (env.withLettaLimit n) summary c).toList.length ≤
    env.search.lettaArchivalMaxChars

variable {env : RetrievalEnv} {summary : String} {c : LettaContext}

theorem mem_intercalate_concat {sep l : List Char} {x : Char} (h : x ∈ l)
    (ls : List (List Char)) : x ∈ sep.intercalate (ls ++ [l]) := by
  induction ls with
  | nil => simpa using h
  | cons l' ls ih =>
    rw [cons_append, intercalate_cons_of_ne_nil (by simp)]
    exact mem_append_right _ ih

variable (env) in
theorem buildLettaArchivalText_eq (hproject : c.project ≠ "") (hfile : c.file ≠ "")
    (htopic : c.topicPath ≠ "") (hsummary : summary ≠ "") :
    ∃ rest, ∀ n, buildLettaArchivalText (env.withLettaLimit n) summary c =
      truncate n (String.ofList (headerLine c ++ '\n' ::
        ("summary: ".toList ++ (shortened 240 summary).toList ++ '\n' :: rest))) := by
  have hdash : ∀ {s : String}, s ≠ "" → orDash s = s := fun h => if_neg h
  have hempty : ¬ (c.project = "" ∧ c.file = "" ∧ c.topicPath = "") := fun h => hproject h.1
  -- the lines behind the summary; the last one is the metadata
  obtain ⟨snippet, hbuild⟩ : ∃ snippet : List String, ∀ n,
      buildLettaArchivalText (env.withLettaLimit n) summary c = truncate n
        (let text := strip (joinText "\n" (("project=" ++ c.project ++ " file=" ++ c.file ++
            " topic=" ++ c.topicPath) :: ("summary: " ++ shortened 240 summary) :: (snippet ++
            ["metadata: " ++ truncate 180 (env.dumps (lettaMetadata c))])))
         if text = "" then (if summary = "" then "memory update" else summary) else text) := by
    cases hcontent : given c.content with
    | none =>
      refine ⟨[], fun n => ?_⟩
      rw [buildLettaArchivalText, hcontent, if_neg hempty, if_neg hsummary, hdash hproject,
        hdash hfile, hdash htopic]
      rfl
    | some content =>
      refine ⟨if env.search.lettaArchivalIncludeContent then
        ["content_snippet: " ++ shortened 220 content] else [], fun n => ?_⟩
      rw [buildLettaArchivalText, hcontent, if_neg hempty, if_neg hsummary, hdash hproject,
        hdash hfile, hdash htopic]
      rfl
  generalize hmetadata : "metadata: " ++ truncate 180 (env.dumps (lettaMetadata c)) = metadata
    at hbuild
  obtain ⟨rest, hrest⟩ : ∃ rest, "\n".toList.intercalate
      ((snippet ++ [metadata]).map String.toList) = rest := ⟨_, rfl⟩
  have hletter : ∃ x ∈ rest, isSpace x = false := by
    refine ⟨'m', ?_, by decide⟩
    rw [← hrest, map_append, map_singleton]
    exact mem_intercalate_concat (by simp [← hmetadata]) _
  have hjoin : (joinText "\n" (("project=" ++ c.project ++ " file=" ++ c.file ++ " topic=" ++
      c.topicPath) :: ("summary: " ++ shortened 240 summary) :: (snippet ++ [metadata]))).toList =
        headerLine c ++ '\n' ::
          ("summary: ".toList ++ (shortened 240 summary).toList ++ ['\n']) ++ rest := by
    rw [joinText, String.toList_ofList, map_cons, map_cons, intercalate_cons_cons,
      intercalate_cons_of_ne_nil (by simp), hrest]
    simp [headerLine, projectMark, fileMark, topicMark]
  refine ⟨rest.rdropWhile isSpace, fun n => ?_⟩
  rw [hbuild, strip, hjoin, stripList_append rfl (.inl hletter), if_neg (by simp)]
  simp

theorem lettaTextFits_of_lt (hproject : c.project ≠ "") (hfile : c.file ≠ "")
    (htopic : c.topicPath ≠ "") (hsummary : summary ≠ "")
    (h : (buildLettaArchivalText env summary c).toList.length <
      env.search.lettaArchivalMaxChars) : LettaTextFits env summary c := by
  obtain ⟨rest, hbuild⟩ := buildLettaArchivalText_eq env hproject hfile htopic hsummary
  have hlength (n : ℕ) := congrArg (fun text => text.toList.length) (hbuild n)
  simp only [truncate, String.toList_ofList, length_take] at hlength
  have hfull := hlength env.search.lettaArchivalMaxChars
  rw [show env.withLettaLimit env.search.lettaArchivalMaxChars = env from rfl] at hfull
  intro n
  rw [hlength]
  omega

/-! ### Reading it back -/

def KeepsSmall (py : Python) : Prop :=
  ∀ a s : String, (∀ c ∈ a.toList, c.toNat < 128 ∧ c.toLower = c) →
    a.toList <+: (py.lower (a ++ s)).toList

def PlainField (s : String) : Prop := s ≠ "-" ∧ ∀ c ∈ s.toList, isSpace c = false

instance (s : String) : Decidable (PlainField s) :=
  @instDecidableAnd _ _ _ (decidableBAll _ _)

structure Readable (summary : String) (c : LettaContext) : Prop where
  plain : ∀ s ∈ [c.project, c.file, c.topicPath], PlainField s
  file : (headerField fileMark c.project.toList).getD c.file = c.file
  topic : ((headerField topicMark c.project.toList).or
    (headerField topicMark c.file.toList)).getD c.topicPath = c.topicPath
  summary : strip (shortened 240 summary) = shortened 240 summary ∧
    ∀ ch ∈ (shortened 240 summary).toList, isLineBreak ch = false

variable {s : String}

theorem namedOr_eq_iff {o : Option String} (hs : s ≠ "") :
    namedOr o = s ↔ o = some s ∧ s ≠ "-" := by
  rcases o with _ | v
  · simpa [namedOr] using hs.symm
  · by_cases hv : v = "-"
    · have hnone : namedOr (some v) = "" := by simp [namedOr, Option.filter_some, hv]
      rw [hnone, Option.some.injEq, hv]
      exact ⟨fun h => absurd h.symm hs, fun h => absurd h.1.symm h.2⟩
    · have hsome : namedOr (some v) = v := by simp [namedOr, Option.filter_some, hv]
      rw [hsome, Option.some.injEq]
      exact ⟨fun h => ⟨h, h ▸ hv⟩, fun h => h.1⟩

theorem plainField_of_namedOr (name : List Char) (hs : s ≠ "")
    (h : namedOr (headerField name l) = s) : PlainField s := by
  obtain ⟨hfield, hdash⟩ := (namedOr_eq_iff hs).mp h
  exact ⟨hdash, (headerField_eq_some hfield).2⟩

theorem plainField_of_parse {text : String} {p : ParsedPassage}
    (h : parseLettaArchivalContent env text = p) (hproject : p.project ≠ "") (hfile : p.file ≠ "")
    (htopic : p.topicPath ≠ "") : ∀ s ∈ [p.project, p.file, p.topicPath], PlainField s := by
  obtain ⟨header, hp, hf, ht⟩ : ∃ header, namedOr (headerField projectMark header) = p.project ∧
      namedOr (headerField fileMark header) = p.file ∧
      namedOr (headerField topicMark header) = p.topicPath := by
    subst h
    refine ⟨((textLines text).headD "").toList, ?_⟩
    simp only [parseLettaArchivalContent, projectMark, fileMark, topicMark, and_self]
  simp [plainField_of_namedOr projectMark hproject hp, plainField_of_namedOr fileMark hfile hf,
    plainField_of_namedOr topicMark htopic ht]

private theorem not_isSpace_mark : ∀ name ∈ [projectMark, fileMark, topicMark],
    name ≠ [] ∧ ∀ c ∈ name, isSpace c = false := by
  have hmarks : ∀ name ∈ [projectMark, fileMark, topicMark],
      name ≠ [] ∧ (name.all fun c => isSpace c = false) = true := by decide
  exact fun name h => ⟨(hmarks name h).1, all_iff_forall_prop.mp (hmarks name h).2⟩

theorem headerField_headerLine (hproject : c.project ≠ "") (hfile : c.file ≠ "")
    (htopic : c.topicPath ≠ "") (hplain : ∀ s ∈ [c.project, c.file, c.topicPath], PlainField s) :
    headerField projectMark (headerLine c) = some c.project ∧
      headerField fileMark (headerLine c) =
        some ((headerField fileMark c.project.toList).getD c.file) ∧
      headerField topicMark (headerLine c) =
        some (((headerField topicMark c.project.toList).or
          (headerField topicMark c.file.toList)).getD c.topicPath) := by
  have hp := (hplain c.project (by simp)).2
  have hf := (hplain c.file (by simp)).2
  have ht := (hplain c.topicPath (by simp)).2
  have hprojectMark := not_isSpace_mark projectMark (by simp)
  have hfileMark := not_isSpace_mark fileMark (by simp)
  have htopicMark := not_isSpace_mark topicMark (by simp)
  -- no mark begins in the mark of another field
  have hskip : headerField fileMark (projectMark ++ c.project.toList) =
        headerField fileMark c.project.toList ∧
      headerField topicMark (projectMark ++ c.project.toList) =
        headerField topicMark c.project.toList ∧
      headerField topicMark (fileMark ++ c.file.toList) = headerField topicMark c.file.toList := by
    simp [headerField, projectMark, fileMark, topicMark]
  rw [headerLine, headerField_append_blank hprojectMark.1 hprojectMark.2,
    headerField_append_blank hfileMark.1 hfileMark.2,
    headerField_append_blank htopicMark.1 htopicMark.2,
    headerField_append_blank hfileMark.1 hfileMark.2,
    headerField_append_blank htopicMark.1 htopicMark.2, hskip.1, hskip.2.1, hskip.2.2,
    headerField_append hprojectMark.1 hproject hp, headerField_append hfileMark.1 hfile hf,
    headerField_append htopicMark.1 htopic ht]
  refine ⟨rfl, ?_, ?_⟩
  · cases headerField fileMark c.project.toList <;> rfl
  · cases headerField topicMark c.project.toList <;>
      cases headerField topicMark c.file.toList <;> rfl

theorem mem_headerLine (hplain : ∀ s ∈ [c.project, c.file, c.topicPath], PlainField s) {ch : Char}
    (h : ch ∈ headerLine c) : ch = ' ' ∨ isSpace ch = false := by
  have hmark : ∀ name ∈ [projectMark, fileMark, topicMark], ch ∈ name → isSpace ch = false :=
    fun name hname => (not_isSpace_mark name hname).2 ch
  have hfield : ∀ s ∈ [c.project, c.file, c.topicPath], ch ∈ s.toList → isSpace ch = false :=
    fun s hs => (hplain s hs).2 ch
  simp only [headerLine, mem_append, mem_cons] at h
  rcases h with (h | h) | h | (h | h) | h | h | h
  · exact .inr (hmark projectMark (by simp) h)
  · exact .inr (hfield c.project (by simp) h)
  · exact .inl h
  · exact .inr (hmark fileMark (by simp) h)
  · exact .inr (hfield c.file (by simp) h)
  · exact .inl h
  · exact .inr (hmark topicMark (by simp) h)
  · exact .inr (hfield c.topicPath (by simp) h)

theorem textLines_headerLine (htopic : c.topicPath ≠ "")
    (hplain : ∀ s ∈ [c.project, c.file, c.topicPath], PlainField s) :
    textLines (String.ofList (headerLine c)) = [String.ofList (headerLine c)] := by
  have hbreak : ∀ ch ∈ headerLine c, isLineBreak ch = false := by
    intro ch hch
    rcases mem_headerLine hplain hch with rfl | hspace
    · decide
    · by_contra hb
      rw [isSpace_of_isLineBreak (by simpa using hb)] at hspace
      cases hspace
  have htopicSpace := (hplain c.topicPath (by simp)).2
  have hstrip : stripList isSpace (headerLine c) = headerLine c := by
    obtain ⟨ch, rest, hcons⟩ := exists_cons_of_ne_nil
      (fun h => htopic (String.toList_eq_nil_iff.mp h) : c.topicPath.toList ≠ [])
    have hback : c.topicPath.toList.rdropWhile isSpace = c.topicPath.toList := by
      rw [rdropWhile_eq_self_iff]
      intro hne
      rw [htopicSpace _ (getLast_mem hne)]
      exact Bool.false_ne_true
    have hsplit : headerLine c = projectMark ++ c.project.toList ++
        ' ' :: (fileMark ++ c.file.toList ++ ' ' :: topicMark) ++ c.topicPath.toList := by
      simp [headerLine]
    have hmem : ch ∈ c.topicPath.toList := by
      rw [hcons]
      exact mem_cons_self
    rw [hsplit, stripList_append rfl (.inl ⟨ch, hmem, htopicSpace ch hmem⟩), hback]
  rw [textLines, String.toList_ofList, splitOnP_eq_singleton hbreak, map_singleton, strip,
    String.toList_ofList, hstrip, filter_cons_of_pos, filter_nil]
  simp [headerLine, projectMark]

theorem summaryLine_eq (cs : List Char) : ∃ x,
    (strip (String.ofList (firstLine ("summary: ".toList ++ cs)))).toList =
        "summary:".toList ++ x ∧
      stripList isSpace x = stripList isSpace (firstLine cs) := by
  have hfirst : firstLine ("summary: ".toList ++ cs) = "summary:".toList ++ ' ' :: firstLine cs :=
    rfl
  refine ⟨(' ' :: firstLine cs).rdropWhile isSpace, ?_, ?_⟩
  · rw [strip, String.toList_ofList, String.toList_ofList, hfirst,
      stripList_append (by decide) (.inr (by decide))]
  · rw [stripList_rdropWhile]
    rfl

theorem parse_of_plain (hlower : KeepsSmall env.lib.py) (hproject : c.project ≠ "")
    (hfile : c.file ≠ "") (htopic : c.topicPath ≠ "")
    (hplain : ∀ s ∈ [c.project, c.file, c.topicPath], PlainField s) (cs rest : List Char) :
    parseLettaArchivalContent env (String.ofList (headerLine c ++ '\n' ::
        ("summary: ".toList ++ cs ++ '\n' :: rest))) =
      { project := c.project
        file := namedOr (some ((headerField fileMark c.project.toList).getD c.file))
        topicPath := namedOr (some (((headerField topicMark c.project.toList).or
          (headerField topicMark c.file.toList)).getD c.topicPath))
        summary := (given (some (strip (String.ofList (firstLine cs))))).getD
          (truncate 500 (String.ofList (headerLine c ++ '\n' ::
            ("summary: ".toList ++ cs ++ '\n' :: rest)))) } := by
  obtain ⟨x, hline, hstrip⟩ := summaryLine_eq cs
  have hnonempty : strip (String.ofList (firstLine ("summary: ".toList ++ cs))) ≠ "" := by
    intro hempty
    rw [hempty] at hline
    simp at hline
  obtain ⟨more, hmore⟩ := textLines_eq_cons hnonempty
  have hbreak : isLineBreak '\n' = true := by decide
  have hlines : textLines (String.ofList (headerLine c ++ '\n' ::
      ("summary: ".toList ++ cs ++ '\n' :: rest))) = String.ofList (headerLine c) ::
        strip (String.ofList (firstLine ("summary: ".toList ++ cs))) ::
          (more ++ textLines (String.ofList rest)) := by
    rw [textLines_append_cons hbreak, textLines_append_cons hbreak, textLines_headerLine htopic
      hplain, hmore]
    rfl
  -- the line is found by its label, and the label ends at its first colon
  have hlabel : startswith (env.lib.py.lower
      (strip (String.ofList (firstLine ("summary: ".toList ++ cs))))) "summary:" = true := by
    have hsplit : strip (String.ofList (firstLine ("summary: ".toList ++ cs))) =
        "summary:" ++ String.ofList x := by
      rw [← String.toList_inj, hline, String.toList_append, String.toList_ofList (l := x)]
    rw [startswith, decide_eq_true_eq, hsplit]
    exact hlower "summary:" (String.ofList x) (all_iff_forall_prop.mp (by decide))
  have hvalue : strip (String.ofList
      (((strip (String.ofList (firstLine ("summary: ".toList ++ cs)))).toList.dropWhile
        (· ≠ ':')).tail)) = strip (String.ofList (firstLine cs)) := by
    have hcolon : ("summary:".toList ++ x).dropWhile (· ≠ ':') = ':' :: x := rfl
    rw [hline, hcolon, tail_cons, strip, strip, String.toList_ofList, String.toList_ofList, hstrip]
  obtain ⟨hp, hf, ht⟩ := headerField_headerLine hproject hfile htopic hplain
  have hname : namedOr (some c.project) = c.project :=
    (namedOr_eq_iff hproject).mpr ⟨rfl, (hplain c.project (by simp)).1⟩
  simp only [parseLettaArchivalContent, hlines, headD_cons, tail_cons, List.find?_cons, hlabel,
    Option.map_some, String.toList_ofList, hvalue]
  rw [← projectMark, hp, ← fileMark, hf, ← topicMark, ht, hname]

theorem summary_read_iff (c : LettaContext) (rest : List Char) (hcs : cs ≠ []) :
    (given (some (strip (String.ofList (firstLine cs))))).getD
        (truncate 500 (String.ofList (headerLine c ++ rest))) = String.ofList cs ↔
      strip (String.ofList cs) = String.ofList cs ∧ ∀ ch ∈ cs, isLineBreak ch = false := by
  have hfront : firstLine cs <+: cs := takeWhile_prefix _
  constructor
  · intro h
    by_cases hblank : strip (String.ofList (firstLine cs)) = ""
    · -- the whole text is taken, which begins with a letter
      rw [hblank, given_empty, Option.getD_none, truncate, String.toList_ofList] at h
      obtain ⟨t, ht⟩ : ∃ t, cs = 'p' :: t := ⟨_, (String.ofList_injective h).symm⟩
      have hline : firstLine cs = ['p'] ++ firstLine t := by
        rw [ht]
        rfl
      rw [strip, String.toList_ofList, hline, stripList_append rfl (.inr rfl)] at hblank
      simp at hblank
    · rw [given_some hblank, Option.getD_some] at h
      have hlen : cs.length ≤ (firstLine cs).length := by
        rw [strip, String.toList_ofList] at h
        calc cs.length = (stripList isSpace (firstLine cs)).length := by
              rw [String.ofList_injective h]
          _ ≤ ((firstLine cs).dropWhile isSpace).length := ( rdropWhile_prefix _ _).length_le
          _ ≤ (firstLine cs).length := (dropWhile_suffix _).length_le
      have hself := hfront.eq_of_length_le hlen
      refine ⟨by rwa [hself] at h, fun ch hch => ?_⟩
      rw [← hself] at hch
      simpa using mem_takeWhile_imp hch
  · rintro ⟨hstrip, hbreak⟩
    have hself : firstLine cs = cs := takeWhile_eq_self_iff.mpr (by simpa using hbreak)
    rw [hself, hstrip, given_some (by simpa using hcs), Option.getD_some]

/-- **Reading a passage back**: its fields are read back, the summary up to its cut, exactly if they
are `Readable`. -/
theorem passage_read_back_iff (hlower : KeepsSmall env.lib.py) (hproject : c.project ≠ "")
    (hfile : c.file ≠ "") (htopic : c.topicPath ≠ "") (hsummary : summary ≠ "")
    (hfits : LettaTextFits env summary c) :
    parseLettaArchivalContent env (buildLettaArchivalText env summary c) =
        ⟨c.project, c.file, c.topicPath, shortened 240 summary⟩ ↔
      Readable summary c := by
  obtain ⟨rest, hbuild⟩ := buildLettaArchivalText_eq env hproject hfile htopic hsummary
  have hcs : (shortened 240 summary).toList ≠ [] := by
    rw [shortened]
    split
    · simpa using hsummary
    · simp
  -- the text is not cut
  have htext : buildLettaArchivalText env summary c = String.ofList (headerLine c ++ '\n' ::
      ("summary: ".toList ++ (shortened 240 summary).toList ++ '\n' :: rest)) := by
    have hsame : env.withLettaLimit env.search.lettaArchivalMaxChars = env := rfl
    rw [← hsame, hbuild]
    generalize headerLine c ++ '\n' ::
      ("summary: ".toList ++ (shortened 240 summary).toList ++ '\n' :: rest) = text at hbuild ⊢
    have hlen := hfits text.length
    rw [hbuild, truncate, String.toList_ofList, String.toList_ofList, take_length] at hlen
    rw [truncate, String.toList_ofList, take_of_length_le hlen]
  rw [htext]
  constructor
  · intro h
    have hplain := plainField_of_parse h hproject hfile htopic
    rw [parse_of_plain hlower hproject hfile htopic hplain, ParsedPassage.mk.injEq] at h
    obtain ⟨-, hf, ht, hs⟩ := h
    have hreads := (summary_read_iff c _ hcs).mp (hs.trans (String.ofList_toList).symm)
    rw [String.ofList_toList] at hreads
    exact ⟨hplain, Option.some.inj ((namedOr_eq_iff hfile).mp hf).1,
      Option.some.inj ((namedOr_eq_iff htopic).mp ht).1, hreads⟩
  · rintro ⟨hplain, hf, ht, hreads⟩
    have hread := (summary_read_iff c ('\n' :: ("summary: ".toList ++
      (shortened 240 summary).toList ++ '\n' :: rest)) hcs).mpr (by rwa [String.ofList_toList])
    rw [parse_of_plain hlower hproject hfile htopic hplain, ParsedPassage.mk.injEq, hf, ht]
    exact ⟨rfl, (namedOr_eq_iff hfile).mpr ⟨rfl, (hplain c.file (by simp)).1⟩,
      (namedOr_eq_iff htopic).mpr ⟨rfl, (hplain c.topicPath (by simp)).1⟩,
      hread.trans String.ofList_toList⟩

theorem keepsSmall_ascii : KeepsSmall Python.ascii := by
  intro a s ha
  have hself : a.toList.map Char.toLower = a.toList :=
    (map_congr_left fun c hc => (ha c hc).2).trans (map_id _)
  have hlower : (Python.ascii.lower (a ++ s)).toList =
      a.toList.map Char.toLower ++ s.toList.map Char.toLower := by
    rw [← map_append, ← String.toList_append]
    exact String.toList_ofList
  rw [hlower, hself]
  exact prefix_append _ _

def planContext (project : String) : LettaContext where
  project := project
  file := "plan.md"
  topicPath := "notes"
  sourceKind := "memory_write"

theorem planContext_fits {project : String} (hproject : project ≠ "")
    (h : (buildLettaArchivalText .plain "ship it" (planContext project)).toList.length < 400) :
    LettaTextFits .plain "ship it" (planContext project) :=
  lettaTextFits_of_lt hproject (by decide +kernel : "plan.md" ≠ "")
    (by decide +kernel : "notes" ≠ "") (by decide +kernel) h

theorem passage_read_back_iff_atlas :
    parseLettaArchivalContent RetrievalEnv.plain
        (buildLettaArchivalText RetrievalEnv.plain "ship it" (planContext "atlas")) =
      ⟨"atlas", "plan.md", "notes", shortened 240 "ship it"⟩ := by
  have hplain : ∀ s ∈ ["atlas", "plan.md", "notes"], PlainField s :=
    all_iff_forall_prop.mp (by decide +kernel)
  have hline : ∀ ch ∈ "ship it".toList, isLineBreak ch = false :=
    all_iff_forall_prop.mp (by decide +kernel)
  have hshort : shortened 240 "ship it" = "ship it" := by decide +kernel
  have hreadable : Readable "ship it" (planContext "atlas") :=
    { plain := hplain
      file := by decide +kernel
      topic := by decide +kernel
      summary := by
        exact ⟨by decide +kernel, hline⟩ }
  have hlower : KeepsSmall RetrievalEnv.plain.lib.py := keepsSmall_ascii
  have hfits : LettaTextFits .plain "ship it" (planContext "atlas") :=
    planContext_fits (by decide +kernel) (by decide +kernel)
  exact (passage_read_back_iff hlower (by decide +kernel) (by decide +kernel) (by decide +kernel)
    (by decide +kernel) hfits).mpr hreadable

/-- Of a project with a blank in its name only the first word is read back. -/
theorem spaced_project_lost :
    LettaTextFits RetrievalEnv.plain "ship it" (planContext "my project") ∧
      parseLettaArchivalContent RetrievalEnv.plain
          (buildLettaArchivalText RetrievalEnv.plain "ship it" (planContext "my project")) =
        ⟨"my", "plan.md", "notes", "ship it"⟩ :=
  ⟨planContext_fits (by decide +kernel) (by decide +kernel), by decide +kernel⟩

end ContextLattice
