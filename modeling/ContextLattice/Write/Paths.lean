import ContextLattice.Foundation.Paths
import ContextLattice.Foundation.Percent
import ContextLattice.Write.System

/-!
# Normalised paths

`normalize_memory_path` decodes percent escapes **once**, takes backslashes for slashes, drops empty
and single-dot segments, and refuses a path with a double-dot segment.
-/

namespace ContextLattice

open Foundation List

def slashed (cs : List Char) : List Char := cs.map fun c => if c = '\\' then '/' else c

def keptSegments (cs : List Char) : List (List Char) :=
  (segments '/' (slashed cs)).filter (· ≠ ['.'])

theorem segments_slash (cs : List Char) : segments '/' ('/' :: cs) = segments '/' cs := by
  have hsplit : segments '/' ([] ++ '/' :: cs) = _ := segments_append_sep [] cs
  simpa using hsplit

theorem segments_append_squeezeSlashes (a cs : List Char) :
    segments '/' (a ++ squeezeSlashes cs) = segments '/' (a ++ cs) := by
  induction cs generalizing a with
  | nil => rfl
  | cons c cs ih =>
    rw [squeezeSlashes]
    split
    · rename_i h
      obtain ⟨rfl, hhead⟩ := h
      obtain ⟨rest, rfl⟩ : ∃ rest, cs = '/' :: rest := by
        cases cs with
        | nil => cases hhead
        | cons d rest => exact ⟨rest, by rw [Option.some.inj hhead]⟩
      rw [ih, segments_append_sep, segments_append_sep, segments_slash]
    · simpa using ih (a ++ [c])

theorem segments_dropWhile_slash (cs : List Char) :
    segments '/' (cs.dropWhile (· = '/')) = segments '/' cs := by
  induction cs with
  | nil => rfl
  | cons c cs ih =>
    by_cases hc : c = '/'
    · subst hc
      rw [dropWhile_cons_of_pos (by simp), ih, segments_slash]
    · rw [dropWhile_cons_of_neg (by simpa using hc)]

variable {lib : WriteLib}

theorem normalizeMemoryPath_eq (hempty : lib.unquote "" = "") (value : String) :
    normalizeMemoryPath lib value =
      if ['.', '.'] ∈ keptSegments (lib.unquote value).toList then
        .error ⟨400, "invalid file path"⟩
      else .ok (String.ofList (joined '/' (keptSegments (lib.unquote value).toList))) := by
  by_cases hvalue : value = ""
  · subst hvalue
    rw [hempty]
    rfl
  have hparts : (splitSlash (String.ofList (squeezeSlashes
      ((slashed (lib.unquote value).toList).dropWhile (· = '/'))))).filter (fun part =>
        part ≠ "" ∧ part ≠ ".") = (keptSegments (lib.unquote value).toList).map String.ofList := by
    have hsegments := segments_append_squeezeSlashes []
      ((slashed (lib.unquote value).toList).dropWhile (· = '/'))
    rw [nil_append, nil_append, segments_dropWhile_slash] at hsegments
    rw [keptSegments, ← hsegments, splitSlash, String.toList_ofList, segments, filter_map,
      filter_filter]
    congr 1
    refine filter_congr fun part _ => ?_
    have hdot : String.ofList part = "." ↔ part = ['.'] := String.ofList_inj
    have hnil : String.ofList part = "" ↔ part = [] := String.ofList_inj
    simp [hdot, hnil, Bool.and_comm]
  have hmem : ".." ∈ (keptSegments (lib.unquote value).toList).map String.ofList ↔
      ['.', '.'] ∈ keptSegments (lib.unquote value).toList :=
    mem_map_of_injective (fun _ _ h => String.ofList_inj.mp h)
  have hjoin : ∀ ps : List (List Char), joinSlash (ps.map String.ofList) =
      String.ofList (joined '/' ps) := by
    intro ps
    simp [joinSlash, joined, Function.comp_def]
  rw [normalizeMemoryPath, if_neg hvalue]
  simp only [slashed] at hparts
  simp only [hparts, hmem, hjoin]

/-- A text, with slashes of either kind, has a segment of two dots. -/
def LeadsUp (cs : List Char) : Prop := ['.', '.'] ∈ (slashed cs).splitOn '/'

theorem leadsUp_iff (cs : List Char) : LeadsUp cs ↔ ['.', '.'] ∈ keptSegments cs := by
  simp [LeadsUp, keptSegments, segments]

def Climbs (piece : List Char) : Prop := ['.', '.'] ∈ keptSegments (unquoteChars piece)

instance (piece : List Char) : Decidable (Climbs piece) :=
  inferInstanceAs (Decidable (['.', '.'] ∈ keptSegments (unquoteChars piece)))

theorem keptSegments_append_slash (a b : List Char) :
    keptSegments (a ++ '/' :: b) = keptSegments a ++ keptSegments b := by
  have hslashed : slashed (a ++ '/' :: b) = slashed a ++ '/' :: slashed b := by simp [slashed]
  rw [keptSegments, hslashed, segments_append_sep, filter_append, ← keptSegments, ← keptSegments]

theorem climbs_iff (cs : List Char) : Climbs cs ↔ ∃ piece ∈ segments '/' cs, Climbs piece := by
  -- by induction on the number of segments, the last one apart
  induction hlength : cs.length using Nat.strong_induction_on generalizing cs with
  | _ n ih =>
    rcases last_piece '/' cs with hnot | ⟨front, piece, rfl, hpiece⟩
    · by_cases hempty : cs = []
      · subst hempty
        have hnil : unquoteChars [] = [] := rfl
        simp [Climbs, hnil, keptSegments, slashed]
      · simp [segments_of_not_mem hnot hempty]
    · have hfront := ih front.length (by simp [← hlength]) front rfl
      have hsplit : Climbs (front ++ '/' :: piece) ↔ Climbs front ∨ Climbs piece := by
        rw [Climbs, unquoteChars_append_slash, keptSegments_append_slash, mem_append]
        rfl
      have hlast : Climbs piece ↔ ∃ q ∈ segments '/' piece, Climbs q := by
        refine ih piece.length ?_ piece rfl
        rw [← hlength, length_append, length_cons]
        omega
      rw [hsplit, segments_append_sep, hfront, hlast]
      simp only [mem_append, or_and_right, exists_or]

/-! ### Safe paths -/

def pathSegments (p : String) : List String := if p = "" then [] else splitSlash p

/-- A path that stays below its root: no segment is empty or made of dots, and there is no backslash
and no leading slash. -/
structure SafePath (p : String) : Prop where
  segments : ∀ part ∈ pathSegments p, part ≠ "" ∧ part ≠ "." ∧ part ≠ ".."
  backslash : '\\' ∉ p.toList
  slash : p.toList.head? ≠ some '/'

section

variable {value p : String}

theorem backslash_not_mem_slashed (cs : List Char) : '\\' ∉ slashed cs := by
  intro hmem
  obtain ⟨c, -, hc⟩ := mem_map.mp hmem
  split at hc
  · cases hc
  · exact absurd hc ‹_›

theorem slashed_of_not_mem {cs : List Char} (h : '\\' ∉ cs) : slashed cs = cs := by
  have hsame : slashed cs = cs.map id := by
    refine map_congr_left fun c hc => if_neg ?_
    rintro rfl
    exact h hc
  rw [hsame, map_id]

def KeptSegment (piece : List Char) : Prop :=
  (piece ≠ [] ∧ '/' ∉ piece) ∧ piece ≠ ['.'] ∧ '\\' ∉ piece

theorem keptSegment_of_mem {cs piece : List Char} (h : piece ∈ keptSegments cs) :
    KeptSegment piece := by
  obtain ⟨hmem, hdot⟩ := mem_filter.mp h
  obtain ⟨hsplit, hne⟩ := mem_filter.mp hmem
  have hback : '\\' ∉ piece := by
    intro hback
    have hjoined : joined '/' ((slashed cs).splitOn '/') = slashed cs :=
      intercalate_splitOn '/'
    refine backslash_not_mem_slashed cs ?_
    rw [← hjoined, mem_joined_iff (by decide)]
    exact ⟨piece, hsplit, hback⟩
  exact ⟨⟨by simpa using hne, not_mem_of_mem_splitOn hsplit⟩, by simpa using hdot, hback⟩

variable {ps : List (List Char)}

section

variable (h : ∀ piece ∈ ps, KeptSegment piece)

include h

theorem backslash_not_mem_joined : '\\' ∉ joined '/' ps := by
  rw [mem_joined_iff (by decide)]
  rintro ⟨piece, hpiece, hback⟩
  exact (h piece hpiece).2.2 hback

theorem keptSegments_joined : keptSegments (joined '/' ps) = ps := by
  rw [keptSegments, slashed_of_not_mem (backslash_not_mem_joined h),
    segments_joined fun piece hpiece => (h piece hpiece).1, filter_eq_self]
  exact fun piece hpiece => by simpa using (h piece hpiece).2.1

theorem safePath_joined (hup : ['.', '.'] ∉ ps) :
    SafePath (String.ofList (joined '/' ps)) where
  segments := by
    intro part hpart
    rw [pathSegments] at hpart
    split at hpart
    · cases hpart
    · rename_i hne
      have hps : ps ≠ [] := by
        rintro rfl
        exact hne rfl
      rw [splitSlash, String.toList_ofList, joined,
        splitOn_intercalate '/' (fun piece hpiece => (h piece hpiece).1.2) hps] at hpart
      obtain ⟨piece, hpiece, rfl⟩ := mem_map.mp hpart
      have hkept := h piece hpiece
      refine ⟨fun heq => hkept.1.1 (String.ofList_inj.mp heq),
        fun heq => hkept.2.1 (String.ofList_inj.mp heq), fun heq => hup ?_⟩
      have hdots : piece = ['.', '.'] := String.ofList_inj.mp heq
      exact hdots ▸ hpiece
  backslash := by
    rw [String.toList_ofList]
    exact backslash_not_mem_joined h
  slash := by
    rw [String.toList_ofList]
    rcases ps with _ | ⟨piece, ps⟩
    · simp [joined]
    · obtain ⟨⟨hne, hslash⟩, -⟩ := h piece mem_cons_self
      obtain ⟨c, cs, rfl⟩ := exists_cons_of_ne_nil hne
      have hhead : (joined '/' ((c :: cs) :: ps)).head? = some c := by
        cases ps with
        | nil => simp [joined]
        | cons q qs => rw [joined_cons_cons, cons_append, List.head?_cons]
      rw [hhead]
      rintro ⟨⟩
      exact hslash mem_cons_self

end

theorem length_joined_keptSegments (cs : List Char) :
    (joined '/' (keptSegments cs)).length ≤ cs.length := by
  have hsub : (keptSegments cs).Sublist ((slashed cs).splitOn '/') :=
    filter_sublist.trans filter_sublist
  have hjoined : joined '/' ((slashed cs).splitOn '/') = slashed cs :=
    intercalate_splitOn '/'
  have hle : (joined '/' (keptSegments cs)).length ≤
      (joined '/' ((slashed cs).splitOn '/')).length := length_joined_le hsub
  rw [hjoined, slashed, length_map] at hle
  exact hle

theorem hasEscape_slashed (cs : List Char) : hasEscape (slashed cs) = hasEscape cs := by
  have hhex : ∀ c, hexValue (if c = '\\' then '/' else c) = hexValue c := by
    intro c
    split
    · rename_i hc
      subst hc
      decide
    · rfl
  have hpercent : ∀ c : Char, (if c = '\\' then '/' else c) = '%' ↔ c = '%' := by
    intro c
    split
    · rename_i hc
      subst hc
      decide
    · rfl
  have hbyte : ∀ cs, escapeByte (slashed cs) = escapeByte cs := by
    intro cs
    rcases cs with _ | ⟨c, _ | ⟨a, _ | ⟨b, cs⟩⟩⟩
    · rfl
    · rfl
    · rfl
    · simp only [slashed, map_cons, escapeByte, hhex, hpercent]
  induction cs with
  | nil => rfl
  | cons c cs ih =>
    have hcons : slashed (c :: cs) = (if c = '\\' then '/' else c) :: slashed cs := rfl
    rw [hcons, hasEscape, ← hcons, hbyte, ih, hasEscape]

theorem hasEscape_joined (ps : List (List Char)) :
    hasEscape (joined '/' ps) = ps.any hasEscape := by
  induction ps with
  | nil => rfl
  | cons p ps ih =>
    cases ps with
    | nil => simp [joined]
    | cons q qs =>
      rw [joined_cons_cons, hasEscape_append_slash, ih]
      rfl

theorem hasEscape_joined_keptSegments (cs : List Char) :
    hasEscape (joined '/' (keptSegments cs)) = hasEscape cs := by
  have hjoined : joined '/' ((slashed cs).splitOn '/') = slashed cs := intercalate_splitOn '/'
  -- the segments that are dropped hold no escape
  rw [← hasEscape_slashed cs, ← hjoined, hasEscape_joined, hasEscape_joined, keptSegments, segments,
    filter_filter, Bool.eq_iff_iff, any_eq_true, any_eq_true]
  refine exists_congr fun piece => ?_
  rw [mem_filter, and_assoc]
  refine and_congr_right fun _ => ⟨fun h => h.2, fun h => ⟨?_, h⟩⟩
  rw [Bool.and_eq_true, decide_eq_true_iff, decide_eq_true_iff]
  constructor <;> rintro rfl <;> cases h

variable (hlib : lib.unquote = unquote)

include hlib

theorem normalizeMemoryPath_eq_ok_iff :
    normalizeMemoryPath lib value = .ok p ↔ ['.', '.'] ∉ keptSegments (unquoteChars value.toList) ∧
      p = String.ofList (joined '/' (keptSegments (unquoteChars value.toList))) := by
  have hempty : lib.unquote "" = "" := by rw [hlib]; rfl
  rw [normalizeMemoryPath_eq hempty, hlib, unquote, String.toList_ofList]
  split
  · rename_i hup
    simp [hup]
  · rename_i hup
    simp [hup, eq_comm]

theorem exists_normalizeTopicPath_iff :
    (∃ p, normalizeTopicPath lib value = .ok p) ↔
      ∀ piece ∈ segments '/' value.toList, ¬ Climbs piece := by
  have hclimbs : (∀ piece ∈ segments '/' value.toList, ¬ Climbs piece) ↔ ¬ Climbs value.toList := by
    rw [climbs_iff]
    simp
  rw [hclimbs, normalizeTopicPath]
  split
  · rename_i hempty
    subst hempty
    exact ⟨fun _ => by decide, fun _ => ⟨"", rfl⟩⟩
  · simp only [normalizeMemoryPath_eq_ok_iff hlib, exists_and_left, exists_eq, and_true]
    rfl

theorem safePath_normalizeMemoryPath (h : normalizeMemoryPath lib value = .ok p) :
    SafePath p := by
  obtain ⟨hup, rfl⟩ := (normalizeMemoryPath_eq_ok_iff hlib).mp h
  exact safePath_joined (fun _ => keptSegment_of_mem) hup

theorem normalizeMemoryPath_joined_iff (h : ∀ piece ∈ ps, KeptSegment piece)
    (hup : ['.', '.'] ∉ ps) :
    normalizeMemoryPath lib (String.ofList (joined '/' ps)) = .ok (String.ofList (joined '/' ps)) ↔
      hasEscape (joined '/' ps) = false := by
  rw [normalizeMemoryPath_eq_ok_iff hlib, String.toList_ofList]
  constructor
  · rintro ⟨-, hsame⟩
    -- an escape would make the path shorter for good
    by_contra hescape
    have hlt := length_unquote_lt (eq_true_of_ne_false hescape)
    have hle := length_joined_keptSegments (unquoteChars (joined '/' ps))
    rw [← String.ofList_inj.mp hsame] at hle
    omega
  · intro hescape
    rw [unquoteChars_of_not_hasEscape hescape, keptSegments_joined h]
    exact ⟨hup, rfl⟩

theorem normalizeMemoryPath_idem_iff (h : normalizeMemoryPath lib value = .ok p) :
    normalizeMemoryPath lib p = .ok p ↔ hasEscape p.toList = false := by
  obtain ⟨hup, rfl⟩ := (normalizeMemoryPath_eq_ok_iff hlib).mp h
  rw [String.toList_ofList]
  exact normalizeMemoryPath_joined_iff hlib (fun _ => keptSegment_of_mem) hup

/-- **Normalised paths, exactly**: stable under decoding and normalising again if and only if the
value, decoded once, leads upwards (and is refused) or holds no percent escape. -/
theorem normalize_stable_iff (value : String) :
    (∀ p, normalizeMemoryPath lib value = .ok p → SafePath p) ∧
      ((∀ p, normalizeMemoryPath lib value = .ok p →
          SafePath (unquote p) ∧ normalizeMemoryPath lib p = .ok p) ↔
        LeadsUp (unquoteChars value.toList) ∨ hasEscape (unquoteChars value.toList) = false) := by
  refine ⟨fun p h => safePath_normalizeMemoryPath hlib h, fun hstable => ?_, fun hvalue p h => ?_⟩
  · rw [leadsUp_iff, or_iff_not_imp_left]
    intro hup
    have hok := (normalizeMemoryPath_eq_ok_iff hlib).mpr ⟨hup, rfl⟩
    have hescape := (normalizeMemoryPath_idem_iff hlib hok).mp (hstable _ hok).2
    rwa [String.toList_ofList, hasEscape_joined_keptSegments] at hescape
  · obtain ⟨hup, rfl⟩ := (normalizeMemoryPath_eq_ok_iff hlib).mp h
    have hnone := hvalue.resolve_left fun hleads => hup ((leadsUp_iff _).mp hleads)
    rw [← hasEscape_joined_keptSegments, ← String.toList_ofList (l := joined _ _)] at hnone
    rw [unquote_eq_self_iff.mpr hnone]
    exact ⟨safePath_normalizeMemoryPath hlib h, (normalizeMemoryPath_idem_iff hlib h).mpr hnone⟩

end

def WriteLib.decoding : WriteLib := { WriteLib.plain with unquote := Foundation.unquote }

theorem normalize_stable_iff_blank :
    normalizeMemoryPath .decoding "/notes//my%20day.md" = .ok "notes/my day.md" ∧
      ∀ p, normalizeMemoryPath .decoding "/notes//my%20day.md" = .ok p →
        SafePath (unquote p) ∧ normalizeMemoryPath .decoding p = .ok p := by
  have hpath : normalizeMemoryPath .decoding "/notes//my%20day.md" = .ok "notes/my day.md" := by
    decide +kernel
  exact ⟨hpath, (normalize_stable_iff rfl _).2.mpr (.inr (by decide +kernel))⟩

/-- Dots that are escaped twice are accepted, and the path returned decodes to one that leads
upwards. -/
theorem escaped_twice_accepted :
    normalizeMemoryPath .decoding "%252e%252e/secret.md" = .ok "%2e%2e/secret.md" ∧
      unquote "%2e%2e/secret.md" = "../secret.md" ∧ ".." ∈ pathSegments "../secret.md" ∧
      normalizeMemoryPath .decoding "%2e%2e/secret.md" = .error ⟨400, "invalid file path"⟩ := by
  decide +kernel

end ContextLattice
