import ContextLattice.Foundation.Search

/-!
# Lists of names in tool answers

Adapters give a list of names as entries with a text, as one separated text, as JSON in a text, and
with wrappers around it. The recursion goes through `json.loads` and has a fuel; the size of the
value is enough.
-/

namespace ContextLattice

open Foundation List

variable (loads : String → Option Json)

/-! ### The reader -/

def isNameSeparator (c : Char) : Bool := c = ',' ∨ c = '\n'

def plainNameTokens (text : String) : List String :=
  if text.toList.any isNameSeparator then
    ((text.toList.splitOnP isNameSeparator).map fun part => strip (String.ofList part)).filter
      (· ≠ "")
  else [text]

def OpensJson (text : String) : Prop :=
  text.toList.head? = some '{' ∨ text.toList.head? = some '['

instance (text : String) : Decidable (OpensJson text) := inferInstanceAs (Decidable (_ ∨ _))

def stringMembers (members : List (String × Json)) (keys : List String) : List String :=
  (keys.filterMap fun key => match Json.member members key with
    | some (.str s) => some (strip s)
    | _ => none).filter (· ≠ "")

def errorKeys : List String := ["error", "message", "detail"]

def nameKeys : List String := ["name", "file", "fileName", "path", "project", "projectName"]

def nestedKeys : List String := ["text", "value", "content"]

def coerceMcpNameTokens : ℕ → Json → Option (List String)
  | 0, _ => none
  | fuel + 1, .str value =>
    let text := strip value
    if text = "" then some []
    else
      match if OpensJson text then loads text else none with
      | none | some .null => some (plainNameTokens text)
      | some parsed => coerceMcpNameTokens fuel parsed
  | fuel + 1, .arr items => (items.mapM (coerceMcpNameTokens fuel)).map List.flatten
  | fuel + 1, .obj members =>
    if stringMembers members errorKeys ≠ [] then some []
    else ((nestedKeys.filterMap (Json.member members)).mapM (coerceMcpNameTokens fuel)).map
      fun nested => stringMembers members nameKeys ++ nested.flatten
  | _ + 1, _ => some []

attribute [grind =] coerceMcpNameTokens

def mcpContentEntries : Option Json → List Json
  | some (.arr entries) => entries
  | none | some .null => []
  | some content => [content]

def parseMcpNameList (fuel : ℕ) (content : Option Json) : Option (List String) :=
  ((mcpContentEntries content).mapM (coerceMcpNameTokens loads fuel)).map fun names =>
    ((names.flatten.map strip).filter (· ≠ "")).eraseDups

/-! ### Encodings -/

structure CleanName (n : String) : Prop where
  ne_empty : n ≠ ""
  strip_eq : strip n = n
  not_json : ¬ OpensJson n
  no_separator : ∀ c ∈ n.toList, isNameSeparator c = false

inductive JoinedNames : List String → String → Prop
  | one (n : String) : JoinedNames [n] n
  | cons (n : String) {sep : Char} (hsep : isNameSeparator sep = true) {ns : List String}
      {text : String} (h : JoinedNames ns text) :
      JoinedNames (n :: ns) (n ++ String.singleton sep ++ text)

def OnlyMember (members : List (String × Json)) (key : String) (value : Json) : Prop :=
  Json.member members key = some value ∧
    ∀ other ∈ errorKeys ++ nameKeys ++ nestedKeys, other ≠ key → Json.member members other = none

/-- A separated text, an object with a name, an array of encodings; an encoding as the text or
content of an object, or as a JSON text. -/
inductive EncodesNames : List String → Json → Prop
  | joined {ns : List String} {text : String} (h : JoinedNames ns text) :
      EncodesNames ns (.str text)
  | named {n : String} {members : List (String × Json)}
      (h : OnlyMember members "name" (.str n)) : EncodesNames [n] (.obj members)
  | nil : EncodesNames [] (.arr [])
  | cons {ns ms : List String} {v : Json} {items : List Json} (h : EncodesNames ns v)
      (hrest : EncodesNames ms (.arr items)) : EncodesNames (ns ++ ms) (.arr (v :: items))
  | wrapped {key : String} (hkey : key = "text" ∨ key = "content") {ns : List String} {v : Json}
      {members : List (String × Json)} (h : OnlyMember members key v) (hv : EncodesNames ns v) :
      EncodesNames ns (.obj members)
  | asText {ns : List String} {text : String} {v : Json} (hopens : OpensJson (strip text))
      (hloads : loads (strip text) = some v) (hv : EncodesNames ns v) :
      EncodesNames ns (.str text)

variable {loads} {ns : List String} {text : String} {v : Json} {members : List (String × Json)}

/-! ### Reading an encoding -/

variable {n : String}

theorem CleanName.split_eq (h : CleanName n) : n.toList.splitOnP isNameSeparator = [n.toList] :=
  splitOnP_eq_singleton h.no_separator

theorem JoinedNames.spec (h : JoinedNames ns text) (hclean : ∀ n ∈ ns, CleanName n) :
    text ≠ "" ∧ strip text = text ∧ ¬ OpensJson text ∧
      (text.toList.splitOnP isNameSeparator).map String.ofList = ns := by
  induction h with
  | one n =>
    have hn := hclean n mem_cons_self
    refine ⟨hn.ne_empty, hn.strip_eq, hn.not_json, ?_⟩
    simp [hn.split_eq]
  | cons n hsep h ih =>
    obtain ⟨hne, hstrip, -, hsplit⟩ := ih fun m hm => hclean m (mem_cons_of_mem n hm)
    have hn := hclean n mem_cons_self
    have hnil : n.toList ≠ [] := fun h => hn.ne_empty (String.toList_eq_nil_iff.mp h)
    refine ⟨by simp [hne], strip_append _ hn.strip_eq hstrip hn.ne_empty hne, ?_, ?_⟩
    · have := hn.not_json
      simpa [OpensJson, List.head?_append_of_ne_nil _ hnil] using this
    · rw [String.toList_append, String.toList_append, String.toList_singleton, append_assoc,
        singleton_append, splitOnP_append_cons _ _ hsep, hn.split_eq,
        map_append, hsplit]
      simp

theorem strip_clean_names (hclean : ∀ n ∈ ns, CleanName n) :
    (ns.map strip).filter (· ≠ "") = ns := by
  have hstripped : ns.map strip = ns := by
    conv_rhs => rw [← map_id ns]
    exact map_congr_left fun n hn => (hclean n hn).strip_eq
  rw [hstripped, filter_eq_self]
  exact fun n hn => decide_eq_true (hclean n hn).ne_empty

theorem JoinedNames.plainNameTokens_eq (h : JoinedNames ns text)
    (hclean : ∀ n ∈ ns, CleanName n) : plainNameTokens text = ns := by
  obtain ⟨-, hstrip, -, hsplit⟩ := h.spec hclean
  unfold plainNameTokens
  split
  · rw [← strip_clean_names hclean, ← hsplit, map_map]
    rfl
  · -- a text without a separator is one name
    rename_i hnone
    have hsingle := splitOnP_eq_singleton (by simpa using hnone)
    rw [← hsplit, hsingle, map_singleton, String.ofList_toList]

theorem stringMembers_eq_nil {keys : List String}
    (h : ∀ key ∈ keys, Json.member members key = none) : stringMembers members keys = [] := by
  have hnone : (keys.filterMap fun key => match Json.member members key with
      | some (.str s) => some (strip s)
      | _ => none) = [] :=
    filterMap_eq_nil_iff.mpr fun key hkey => by rw [h key hkey]
  rw [stringMembers, hnone, filter_nil]

variable {key : String}

theorem OnlyMember.no_error (h : OnlyMember members key v) (hkey : key ∉ errorKeys) :
    stringMembers members errorKeys = [] :=
  stringMembers_eq_nil fun other hother =>
    h.2 other (by simp [hother]) fun heq => hkey (heq ▸ hother)

def Reads (loads : String → Option Json) (v : Json) (ns : List String) : Prop :=
  ∃ n, ∀ fuel ≥ n, coerceMcpNameTokens loads (fuel + 1) v = some ns

theorem Reads.succ {w : Json} (h : Reads loads v ns)
    (hstep : ∀ fuel, coerceMcpNameTokens loads fuel v = some ns →
      coerceMcpNameTokens loads (fuel + 1) w = some ns) : Reads loads w ns := by
  obtain ⟨n, hn⟩ := h
  refine ⟨n + 1, fun fuel hfuel => ?_⟩
  obtain ⟨fuel, rfl⟩ := Nat.exists_eq_add_of_le' (Nat.le_of_add_left_le hfuel)
  exact hstep _ (hn fuel (by omega))

theorem reads_joined (h : JoinedNames ns text) (hclean : ∀ n ∈ ns, CleanName n) :
    Reads loads (.str text) ns := by
  obtain ⟨hne, hstrip, hjson, -⟩ := h.spec hclean
  refine ⟨0, fun fuel _ => ?_⟩
  rw [coerceMcpNameTokens, hstrip]
  simp only [hne, hjson, if_false]
  rw [h.plainNameTokens_eq hclean]

theorem reads_named (h : OnlyMember members "name" (.str n)) (hn : CleanName n) :
    Reads loads (.obj members) [n] := by
  have hnone (key) (hkey : key ∈ errorKeys ++ nameKeys ++ nestedKeys) (hne : key ≠ "name") :=
    h.2 key hkey hne
  have hnames : stringMembers members nameKeys = [n] := by
    simp [stringMembers, nameKeys, h.1, hnone "file" (by decide) (by decide),
      hnone "fileName" (by decide) (by decide), hnone "path" (by decide) (by decide),
      hnone "project" (by decide) (by decide), hnone "projectName" (by decide) (by decide),
      hn.strip_eq, hn.ne_empty]
  have hnested : nestedKeys.filterMap (Json.member members) = [] :=
    filterMap_eq_nil_iff.mpr fun key hkey =>
      hnone key (by simp [hkey]) fun heq => absurd (heq ▸ hkey) (by decide)
  refine ⟨0, fun fuel _ => ?_⟩
  rw [coerceMcpNameTokens, h.no_error (by decide), hnames, hnested]
  simp

theorem reads_wrapped (hkey : key = "text" ∨ key = "content") (h : OnlyMember members key v)
    (hv : Reads loads v ns) : Reads loads (.obj members) ns := by
  have hnames : stringMembers members nameKeys = [] := stringMembers_eq_nil fun other hother =>
    h.2 other (by simp [hother]) fun heq =>
      absurd (heq ▸ hother) (by rcases hkey with rfl | rfl <;> decide)
  have hnested : nestedKeys.filterMap (Json.member members) = [v] := by
    have hvalue := h.2 "value" (by decide)
    rcases hkey with rfl | rfl
    · simp [nestedKeys, h.1, hvalue (by decide), h.2 "content" (by decide) (by decide)]
    · simp [nestedKeys, h.1, hvalue (by decide), h.2 "text" (by decide) (by decide)]
  have hno : key ∉ errorKeys := by rcases hkey with rfl | rfl <;> decide
  refine hv.succ fun fuel hfuel => ?_
  rw [coerceMcpNameTokens, h.no_error hno, hnames, hnested, mapM_cons, hfuel]
  simp

variable {items : List Json}

theorem reads_cons {ms : List String} (hv : Reads loads v ns)
    (hrest : Reads loads (.arr items) ms) : Reads loads (.arr (v :: items)) (ns ++ ms) := by
  obtain ⟨n, hn⟩ := hv
  obtain ⟨m, hm⟩ := hrest
  refine ⟨n + m + 1, fun fuel hfuel => ?_⟩
  obtain ⟨fuel, rfl⟩ := Nat.exists_eq_add_of_le' (Nat.le_of_add_left_le hfuel)
  have hitems := hm (fuel + 1) (by omega)
  rw [coerceMcpNameTokens] at hitems ⊢
  obtain ⟨read, hread, rfl⟩ := Option.map_eq_some_iff.mp hitems
  rw [mapM_cons, hn fuel (by omega), hread]
  simp

theorem reads_asText (hopens : OpensJson (strip text)) (hloads : loads (strip text) = some v)
    (h : EncodesNames loads ns v) (hv : Reads loads v ns) : Reads loads (.str text) ns := by
  have hne : strip text ≠ "" := by
    intro hempty
    simp [OpensJson, hempty] at hopens
  refine hv.succ fun fuel hfuel => ?_
  rw [coerceMcpNameTokens]
  simp only [hne, if_false, if_pos hopens, hloads]
  -- an encoding is not `null`
  cases h <;> exact hfuel

theorem reads_encoded (h : EncodesNames loads ns v) (hclean : ∀ n ∈ ns, CleanName n) :
    Reads loads v ns := by
  induction h with
  | joined h => exact reads_joined h hclean
  | named h => exact reads_named h (hclean _ mem_cons_self)
  | nil => exact ⟨0, fun fuel _ => by simp [coerceMcpNameTokens]⟩
  | cons h hrest ih ihrest =>
    exact reads_cons (ih fun n hn => hclean n (mem_append_left _ hn))
      (ihrest fun n hn => hclean n (mem_append_right _ hn))
  | wrapped hkey h hv ih => exact reads_wrapped hkey h (ih hclean)
  | asText hopens hloads hv ih => exact reads_asText hopens hloads hv (ih hclean)

theorem parse_of_reads (hclean : ∀ n ∈ ns, CleanName n) {names : List (List String)} {fuel : ℕ}
    (hread : (mcpContentEntries (some v)).mapM (coerceMcpNameTokens loads fuel) = some names)
    (hnames : names.flatten = ns) : parseMcpNameList loads fuel (some v) = some ns.eraseDups := by
  rw [parseMcpNameList, hread, Option.map_some, hnames, strip_clean_names hclean]

/-- **All answer shapes give the same names**, in their order and without the later repetitions. -/
theorem parse_encoded_names (hclean : ∀ n ∈ ns, CleanName n) (h : EncodesNames loads ns v) :
    ∃ n, ∀ fuel ≥ n, parseMcpNameList loads fuel (some v) = some ns.eraseDups := by
  obtain ⟨n, hn⟩ := reads_encoded h hclean
  have hentry (hv : mcpContentEntries (some v) = [v]) :
      ∃ n, ∀ fuel ≥ n, parseMcpNameList loads fuel (some v) = some ns.eraseDups := by
    refine ⟨n + 1, fun fuel hfuel => ?_⟩
    obtain ⟨fuel, rfl⟩ := Nat.exists_eq_add_of_le' (Nat.le_of_add_left_le hfuel)
    refine parse_of_reads hclean (show _ = some [ns] from ?_) (by simp)
    rw [hv, mapM_cons, hn fuel (by omega)]
    rfl
  cases h with
  | nil | cons =>
    refine ⟨n, fun fuel hfuel => ?_⟩
    have hitems := hn fuel hfuel
    rw [coerceMcpNameTokens] at hitems
    obtain ⟨read, hread, hflat⟩ := Option.map_eq_some_iff.mp hitems
    exact parse_of_reads hclean hread hflat
  | joined | named | wrapped | asText => exact hentry rfl

theorem parse_encoded_names_entry :
    ∃ n, ∀ fuel ≥ n, parseMcpNameList (fun _ => none) fuel
      (some (.arr [.obj [("type", .str "text"), ("text", .str "a,b")]])) =
        some ["a", "b"].eraseDups := by
  have hclean : ∀ n ∈ ["a", "b"], CleanName n := by
    simp only [forall_mem_cons, not_mem_nil, false_implies, implies_true, and_true]
    exact ⟨⟨by decide, by decide +kernel, by decide, by simp [isNameSeparator]⟩,
      ⟨by decide, by decide +kernel, by decide, by simp [isNameSeparator]⟩⟩
  have hjoined : JoinedNames ["a", "b"] "a,b" :=
    JoinedNames.cons "a" (show isNameSeparator ',' = true from rfl) (.one "b")
  have hentry : EncodesNames (fun _ => none) ["a", "b"]
      (.obj [("type", .str "text"), ("text", .str "a,b")]) :=
    .wrapped (.inl rfl) ⟨rfl, by decide⟩ (.joined hjoined)
  exact parse_encoded_names hclean (EncodesNames.cons hentry .nil)

/-! ### How deep the reader goes -/

theorem length_strip_le (s : String) : (strip s).length ≤ s.length := by
  rw [strip, ← String.length_toList, String.toList_ofList, ← String.length_toList]
  exact ( rdropWhile_prefix isSpace _).length_le.trans (dropWhile_suffix isSpace).length_le

def CleanTokens (tokens : List String) : Prop := ∀ token ∈ tokens, token ≠ "" ∧ strip token = token

/-- The value is read as clean tokens, and the recursion is at most `depth` deep. -/
def ReadsWithin (loads : String → Option Json) (depth : ℕ) (v : Json) : Prop :=
  ∃ tokens, (∀ fuel ≥ depth, coerceMcpNameTokens loads fuel v = some tokens) ∧ CleanTokens tokens

theorem clean_filter (l : List String) : CleanTokens ((l.map strip).filter (· ≠ "")) := by
  intro token htoken
  obtain ⟨hmem, hne⟩ := mem_filter.mp htoken
  obtain ⟨s, -, rfl⟩ := mem_map.mp hmem
  exact ⟨of_decide_eq_true hne, strip_strip s⟩

theorem clean_plainNameTokens (hne : strip text ≠ "") :
    CleanTokens (plainNameTokens (strip text)) := by
  unfold plainNameTokens
  split
  · have h := clean_filter (((strip text).toList.splitOnP isNameSeparator).map String.ofList)
    rwa [map_map] at h
  · exact forall_mem_singleton.mpr ⟨hne, strip_strip text⟩

theorem clean_stringMembers (members : List (String × Json)) (keys : List String) :
    CleanTokens (stringMembers members keys) := by
  intro token htoken
  obtain ⟨hmem, hne⟩ := mem_filter.mp htoken
  obtain ⟨key, -, hkey⟩ := mem_filterMap.mp hmem
  split at hkey
  · cases hkey
    exact ⟨of_decide_eq_true hne, strip_strip _⟩
  · cases hkey

theorem readsWithin_items {depth : ℕ} (h : ∀ v ∈ items, ReadsWithin loads depth v) :
    ∃ names, (∀ fuel ≥ depth, items.mapM (coerceMcpNameTokens loads fuel) = some names) ∧
      CleanTokens names.flatten := by
  induction items with
  | nil => exact ⟨[], fun _ _ => rfl, forall_mem_nil _⟩
  | cons v items ih =>
    obtain ⟨⟨tokens, hread, hclean⟩, hitems⟩ := forall_mem_cons.mp h
    obtain ⟨names, hnames, hflat⟩ := ih hitems
    refine ⟨tokens :: names, fun fuel hfuel => ?_, forall_mem_append.mpr ⟨hclean, hflat⟩⟩
    rw [mapM_cons, hread fuel hfuel, hnames fuel hfuel]
    rfl

theorem readsWithin_of_size_le (hloads : ∀ text v, loads text = some v → v.size ≤ text.length)
    (depth : ℕ) : ∀ v, v.size ≤ depth → ReadsWithin loads depth v := by
  induction depth with
  | zero => exact fun v h => absurd v.size_pos (by omega)
  | succ depth ih =>
    have hsucc {v : Json} {tokens : List String}
        (h : ∀ fuel ≥ depth, coerceMcpNameTokens loads (fuel + 1) v = some tokens) :
        ∀ fuel ≥ depth + 1, coerceMcpNameTokens loads fuel v = some tokens := by
      rintro (_ | fuel) hfuel
      · omega
      · exact h fuel (by omega)
    intro v h
    cases v with
    | str s =>
      rw [Json.size] at h
      by_cases hempty : strip s = ""
      · exact ⟨[], hsucc fun _ _ => by simp [coerceMcpNameTokens, hempty], forall_mem_nil _⟩
      -- a text that is JSON is read as what it encodes, and any other one is cut at the separators
      have hplain (hparsed : ∀ v ∈ if OpensJson (strip s) then loads (strip s) else none,
          v = .null) : ReadsWithin loads (depth + 1) (.str s) := by
        refine ⟨_, hsucc fun fuel _ => ?_, clean_plainNameTokens hempty⟩
        rw [coerceMcpNameTokens]
        simp only [hempty, if_false]
        split
        · rfl
        · rfl
        · next parsed hne h => exact absurd (hparsed parsed h) hne
      cases hparsed : if OpensJson (strip s) then loads (strip s) else none with
      | none => exact hplain (by simp [hparsed])
      | some v =>
        by_cases hnull : v = .null
        · exact hplain (by simp [hparsed, hnull])
        have hsize : v.size ≤ s.length := by
          split at hparsed
          · exact (hloads _ v hparsed).trans (length_strip_le s)
          · cases hparsed
        obtain ⟨tokens, hread, hclean⟩ := ih v (by omega)
        refine ⟨tokens, hsucc fun fuel hfuel => ?_, hclean⟩
        rw [coerceMcpNameTokens]
        simp only [hempty, if_false, hparsed]
        rw [← hread fuel hfuel]
    | arr items =>
      rw [Json.size] at h
      have hitems : ∀ v ∈ items, ReadsWithin loads depth v := fun v hv =>
        ih v ((Json.size_le_of_mem hv).trans (by omega))
      obtain ⟨names, hnames, hclean⟩ := readsWithin_items hitems
      refine ⟨names.flatten, hsucc fun fuel hfuel => ?_, hclean⟩
      rw [coerceMcpNameTokens, hnames fuel hfuel, Option.map_some]
    | obj members =>
      rw [Json.size] at h
      have hnested : ∀ v ∈ nestedKeys.filterMap (Json.member members),
          ReadsWithin loads depth v := by
        intro v hv
        obtain ⟨key, -, hkey⟩ := mem_filterMap.mp hv
        exact ih v ((Json.size_le_of_member hkey).trans (by omega))
      obtain ⟨names, hnames, hclean⟩ := readsWithin_items hnested
      by_cases herror : stringMembers members errorKeys = []
      · refine ⟨_, hsucc fun fuel hfuel => ?_,
          forall_mem_append.mpr ⟨clean_stringMembers members nameKeys, hclean⟩⟩
        rw [coerceMcpNameTokens, if_neg (not_not.mpr herror), hnames fuel hfuel, Option.map_some]
      · refine ⟨[], hsucc fun fuel _ => ?_, forall_mem_nil _⟩
        rw [coerceMcpNameTokens, if_pos herror]
    | null | bool | int | float => exact ⟨[], hsucc fun _ _ => rfl, forall_mem_nil _⟩

/-- **The name reader ends.** If a value that is decoded from a text is not larger than the text,
the recursion for a value is at most as deep as the value is large, and the tokens are clean. -/
theorem name_tokens_end (hloads : ∀ text v, loads text = some v → v.size ≤ text.length) (v : Json) :
    ∃ tokens, (∀ fuel ≥ v.size, coerceMcpNameTokens loads fuel v = some tokens) ∧
      CleanTokens tokens :=
  readsWithin_of_size_le hloads v.size v le_rfl

theorem name_tokens_end_nested :
    let loads text := if text = "[\"a, b\"]" then some (Json.arr [.str "a, b"]) else none
    ∃ tokens, (∀ fuel ≥ (Json.str "[\"a, b\"]").size,
      coerceMcpNameTokens loads fuel (.str "[\"a, b\"]") = some tokens) ∧ CleanTokens tokens := by
  refine name_tokens_end (fun text v h => ?_) _
  split at h
  · subst text
    cases h
    decide
  · cases h

end ContextLattice
