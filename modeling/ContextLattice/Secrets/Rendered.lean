import ContextLattice.Secrets.Scrub
import ContextLattice.Secrets.Storage

/-!
# Secrets in rendered JSON

A trajectory is written with `json.dumps(·, indent=2)`, and the text is redacted. JSON puts a
quotation mark behind a key, so no match reaches from a key into its value.
-/

namespace ContextLattice

open Foundation Foundation.Piece List

/-! ### `json.dumps` -/

def hexEscape (n : ℕ) : List Char :=
  ['\\', 'u', (n / 4096 % 16).digitChar, (n / 256 % 16).digitChar, (n / 16 % 16).digitChar,
    (n % 16).digitChar]

def escapeChar (c : Char) : List Char :=
  if c = '"' ∨ c = '\\' then ['\\', c]
  else if c = '\n' then ['\\', 'n']
  else if c = '\r' then ['\\', 'r']
  else if c = '\t' then ['\\', 't']
  else if c.toNat = 12 then ['\\', 'f']
  else if c.toNat = 8 then ['\\', 'b']
  else if 32 ≤ c.toNat ∧ c.toNat ≤ 126 then [c]
  else if c.toNat < 0x10000 then hexEscape c.toNat
  else hexEscape (0xD800 + (c.toNat - 0x10000) / 0x400) ++
    hexEscape (0xDC00 + (c.toNat - 0x10000) % 0x400)

def escaped (s : String) : List Char := s.toList.flatMap escapeChar

def quoted (s : String) : List Char := '"' :: (escaped s ++ ['"'])

def jsonFloat (r : String) : String :=
  if r = "nan" then "NaN" else if r = "inf" then "Infinity"
  else if r = "-inf" then "-Infinity" else r

def newline (level : ℕ) : List Char := '\n' :: List.replicate (2 * level) ' '

mutual

def dumps (level : ℕ) : Json → List Char
  | .null => "null".toList
  | .bool b => if b then "true".toList else "false".toList
  | .int n => (toString n).toList
  | .float r => (jsonFloat r).toList
  | .str s => quoted s
  | .arr items =>
    if items.isEmpty then ['[', ']']
    else dumpsItems (level + 1) (newline level ++ [']']) '[' items
  | .obj members =>
    if members.isEmpty then ['\x7b', '\x7d']
    else dumpsMembers (level + 1) (newline level ++ ['\x7d']) '\x7b' members

def dumpsItems (level : ℕ) (close : List Char) (sep : Char) : List Json → List Char
  | [] => close
  | j :: js => sep :: newline level ++ dumps level j ++ dumpsItems level close ',' js

def dumpsMembers (level : ℕ) (close : List Char) (sep : Char) : List (String × Json) → List Char
  | [] => close
  | (key, nested) :: ms =>
    sep :: newline level ++ quoted key ++ [':', ' '] ++ dumps level nested ++
      dumpsMembers level close ',' ms

end

/-! ### The places of string values -/

structure Place where
  before : List Char
  value : String
  after : List Char
  named : Bool

namespace Place

def text (p : Place) : List Char := p.before ++ (escaped p.value ++ p.after)

def within (pre post : List Char) (p : Place) : Place :=
  { p with before := pre ++ p.before, after := p.after ++ post }

theorem text_within (pre post : List Char) (p : Place) :
    (p.within pre post).text = pre ++ p.text ++ post := by
  simp [text, within]

/-- Before the value stand a character that is not part of a field name or a separator, and white
space; behind it a separator or a line break. -/
structure Fenced (p : Place) : Prop where
  before : ∃ a c t, p.before = a ++ c :: (t ++ ['"']) ∧ c ∈ ['"', '[', ','] ∧
    (∀ x ∈ t, x ∈ [':', ' ', '\n']) ∧ ∃ x ∈ t, isSpace x = true
  after : ∃ d b, p.after = '"' :: d :: b ∧ d ∈ [',', '\n']

theorem Fenced.within {p : Place} (h : p.Fenced) (pre post : List Char) :
    (p.within pre post).Fenced := by
  obtain ⟨⟨a, c, t, hbefore, hc⟩, d, b, hafter, hd⟩ := h
  refine ⟨⟨pre ++ a, c, t, ?_, hc⟩, d, b ++ post, ?_, hd⟩
  · rw [Place.within, hbefore, append_assoc]
  · rw [Place.within, hafter]
    rfl

end Place

variable (w : WordClass)

mutual

def places (named : Bool) (level : ℕ) : Json → List Place
  | .str s => [⟨['"'], s, ['"'], named⟩]
  | .arr items => placesOfItems named (level + 1) (newline level ++ [']']) '[' items
  | .obj members => placesOfMembers named (level + 1) (newline level ++ ['\x7d']) '\x7b' members
  | .null | .bool _ | .int _ | .float _ => []

def placesOfItems (named : Bool) (level : ℕ) (close : List Char) (sep : Char) :
    List Json → List Place
  | [] => []
  | j :: js =>
    (places named level j).map
        (Place.within (sep :: newline level) (dumpsItems level close ',' js)) ++
      (placesOfItems named level close ',' js).map
        (Place.within (sep :: newline level ++ dumps level j) [])

def placesOfMembers (named : Bool) (level : ℕ) (close : List Char) (sep : Char) :
    List (String × Json) → List Place
  | [] => []
  | (key, nested) :: ms =>
    (places (named || namesSecret w key) level nested).map
        (Place.within (sep :: newline level ++ quoted key ++ [':', ' '])
          (dumpsMembers level close ',' ms)) ++
      (placesOfMembers named level close ',' ms).map
        (Place.within (sep :: newline level ++ quoted key ++ [':', ' '] ++ dumps level nested) [])

end

private theorem head_dumps (level : ℕ) {close : List Char} (hclose : close.head? = some '\n') :
    (∀ js, ∃ d b, dumpsItems level close ',' js = d :: b ∧ d ∈ [',', '\n']) ∧
      ∀ ms, ∃ d b, dumpsMembers level close ',' ms = d :: b ∧ d ∈ [',', '\n'] := by
  obtain ⟨b, rfl⟩ := List.head?_eq_some_iff.mp hclose
  refine ⟨fun js => ?_, fun ms => ?_⟩
  · cases js with
    | nil => exact ⟨'\n', b, rfl, by simp⟩
    | cons j js => exact ⟨',', _, rfl, by simp⟩
  · cases ms with
    | nil => exact ⟨'\n', b, rfl, by simp⟩
    | cons m ms => exact ⟨',', _, rfl, by simp⟩

private theorem mem_newline {level : ℕ} {x : Char} (h : x ∈ newline level) :
    x ∈ [':', ' ', '\n'] := by
  rcases mem_cons.mp h with rfl | h
  · simp
  · simp [eq_of_mem_replicate h]

mutual

theorem spec_of_mem_places {named : Bool} {level : ℕ} {j : Json} {p : Place}
    (h : p ∈ places w named level j) :
    p.text = dumps level j ∧ (p.Fenced ∨ ∃ s, p = ⟨['"'], s, ['"'], named⟩) :=
  match j, h with
  | .str s, h => by
    obtain rfl := mem_singleton.mp h
    exact ⟨by rw [dumps, quoted, Place.text, singleton_append], .inr ⟨s, rfl⟩⟩
  | .arr [], h => by cases h
  | .arr (_ :: _), h => (spec_of_mem_placesOfItems rfl (by simp) h).imp_right .inl
  | .obj [], h => by cases h
  | .obj (_ :: _), h => (spec_of_mem_placesOfMembers rfl h).imp_right .inl

theorem spec_of_mem_placesOfItems {named : Bool} {level : ℕ} {close : List Char} {sep : Char}
    (hclose : close.head? = some '\n') (hsep : sep ∈ ['"', '[', ',']) {js : List Json} {p : Place}
    (h : p ∈ placesOfItems w named level close sep js) :
    p.text = dumpsItems level close sep js ∧ p.Fenced :=
  match js, h with
  | [], h => by cases h
  | j :: js, h => by
    rw [placesOfItems, mem_append, mem_map, mem_map] at h
    rcases h with ⟨q, hq, rfl⟩ | ⟨q, hq, rfl⟩
    · obtain ⟨htext, hfenced | ⟨s, rfl⟩⟩ := spec_of_mem_places hq
      · exact ⟨by rw [Place.text_within, htext, dumpsItems], hfenced.within _ _⟩
      · obtain ⟨d, b, hrest, hd⟩ := (head_dumps level hclose).1 js
        refine ⟨by rw [Place.text_within, htext, dumpsItems], ⟨[], sep, newline level,
          by simp [Place.within], hsep, fun x => mem_newline, '\n', mem_cons_self, by decide⟩,
          d, b, by simp [Place.within, hrest], hd⟩
    · obtain ⟨htext, hfenced⟩ := spec_of_mem_placesOfItems hclose (by simp) hq
      exact ⟨by rw [Place.text_within, htext, dumpsItems, append_nil], hfenced.within _ _⟩

theorem spec_of_mem_placesOfMembers {named : Bool} {level : ℕ} {close : List Char} {sep : Char}
    (hclose : close.head? = some '\n') {ms : List (String × Json)} {p : Place}
    (h : p ∈ placesOfMembers w named level close sep ms) :
    p.text = dumpsMembers level close sep ms ∧ p.Fenced :=
  match ms, h with
  | [], h => by cases h
  | (key, nested) :: ms, h => by
    rw [placesOfMembers, mem_append, mem_map, mem_map] at h
    rcases h with ⟨q, hq, rfl⟩ | ⟨q, hq, rfl⟩
    · obtain ⟨htext, hfenced | ⟨s, rfl⟩⟩ := spec_of_mem_places hq
      · exact ⟨by rw [Place.text_within, htext, dumpsMembers], hfenced.within _ _⟩
      · obtain ⟨d, b, hrest, hd⟩ := (head_dumps level hclose).2 ms
        refine ⟨by rw [Place.text_within, htext, dumpsMembers],
          ⟨sep :: newline level ++ '"' :: escaped key, '"', [':', ' '],
            by simp [Place.within, quoted], by simp, by simp, ' ', by simp, by decide⟩,
          d, b, by simp [Place.within, hrest], hd⟩
    · obtain ⟨htext, hfenced⟩ := spec_of_mem_placesOfMembers hclose hq
      exact ⟨by rw [Place.text_within, htext, dumpsMembers, append_nil], hfenced.within _ _⟩

end

/-! ### No match crosses a quotation mark -/

variable {w : WordClass}

private theorem isWord_of_mem_marks {c : Char} (h : c ∈ ['"', '[', ','] ++ [':', ' ', '\n']) :
    w.isWord c = false := by
  have hmarks : ∀ c ∈ ['"', '[', ','] ++ [':', ' ', '\n'],
      c.toNat < 128 ∧ (c.isAlphanum || c == '_') = false :=
    all_iff_forall_prop.mp (by decide)
  obtain ⟨hlt, hno⟩ := hmarks c h
  rw [w.ascii c hlt, hno]

private theorem exists_of_lt {x d : Char} {t m rest b : List Char}
    (h : x :: (t ++ d :: b) = m ++ rest) (hlt : t.length + 1 < m.length) :
    ∃ m', m = x :: t ++ d :: m' := by
  rw [← cons_append] at h
  rcases append_eq_append_iff.mp h with ⟨_ | ⟨d', m'⟩, rfl, hm'⟩ | ⟨t', hxt, -⟩
  · simp at hlt
  · obtain ⟨rfl, -⟩ := List.cons.inj hm'
    exact ⟨m', rfl⟩
  · have hlen := congrArg List.length hxt
    simp only [length_cons, length_append] at hlen
    omega

private theorem split_map_kept {cs : List Char} {a₀ a₁ : List Piece} {x : Char}
    (h : cs.map kept = a₀ ++ kept x :: a₁) :
    ∃ u t, cs = u ++ x :: t ∧ a₁ = t.map kept := by
  obtain ⟨u, v, rfl, -, hv⟩ := map_eq_append_iff.mp h
  obtain ⟨x', t, rfl, hx, rfl⟩ := map_eq_cons_iff.mp hv
  cases hx
  exact ⟨u, t, rfl, rfl⟩

theorem local_field_before {a t : List Char} {c : Char} (b : List Piece)
    (hc : c ∈ ['"', '[', ',']) (ht : ∀ x ∈ t, x ∈ [':', ' ', '\n'])
    (hspace : ∃ x ∈ t, isSpace x = true) :
    Local w.isWord redactionMarker fieldPattern ((a ++ c :: t).map kept) (kept '"' :: b) := by
  refine local_of_le (by simpa using isWord_of_mem_marks (by simp)) ?_
  intro a₀ x a₁ m rest ha haccepts hm
  obtain ⟨u, t', hsplit, rfl⟩ := split_map_kept ha
  rw [render_append, render_map_kept, render_kept] at hm
  rw [render_map_kept]
  by_contra hlt
  obtain ⟨m', rfl⟩ := exists_of_lt hm (by omega)
  have hword : w.isWord x = true :=
    (sensitive_opens w (r := fieldPattern) mem_cons_self).word x
      (Regex.first_of_accepts haccepts)
  -- the match begins with a letter, hence before the character `c`
  rcases append_eq_append_iff.mp hsplit with ⟨q, -, hq⟩ | ⟨q, -, hq⟩
  · have hmem : x ∈ c :: t := by rw [hq]; simp
    have hmarks : x ∈ ['"', '[', ','] ++ [':', ' ', '\n'] := by
      rcases mem_cons.mp hmem with rfl | hmem
      · exact mem_append_left _ hc
      · exact mem_append_right _ (ht x hmem)
    rw [isWord_of_mem_marks hmarks] at hword
    cases hword
  · obtain ⟨y, hy, hblank⟩ := hspace
    have hname : ∀ c ∈ ['"', '[', ','], (Regex.seq fieldName fieldSeparator).alphabet c = false :=
      all_iff_forall_prop.mp (by decide)
    have hmatch : x :: t' ++ '"' :: m' = q ++ c :: (t ++ '"' :: m') := by
      rw [hq, append_assoc, cons_append]
    have hvalue := Regex.tail_of_seq_many haccepts hmatch (hname c hc) y
      (mem_append_left _ hy)
    simp [fieldValueChar, hblank] at hvalue

theorem local_field_after (v : List Char) {d : Char} (b : List Piece) (hd : d ∈ [',', '\n']) :
    Local w.isWord redactionMarker fieldPattern ((v ++ ['"']).map kept) (kept d :: b) := by
  have hmark : w.isWord d = false ∧ fieldValueChar d = false := by
    rcases mem_pair.mp hd with rfl | rfl <;> exact ⟨isWord_of_mem_marks (by simp), by decide⟩
  refine local_of_le (by simpa using hmark.1) ?_
  intro a₀ x a₁ m rest ha haccepts hm
  obtain ⟨u, t, hsplit, rfl⟩ := split_map_kept ha
  rw [render_append, render_map_kept, render_kept] at hm
  rw [render_map_kept]
  by_contra hlt
  obtain ⟨m', rfl⟩ := exists_of_lt hm (by omega)
  -- the stretch ends with the quotation mark
  obtain ⟨m₁, hm₁⟩ : ∃ m₁, x :: t = m₁ ++ ['"'] := by
    rcases (x :: t).eq_nil_or_concat with hnil | ⟨m₁, e, he⟩
    · cases hnil
    · rw [concat_eq_append] at he
      rw [he, ← append_assoc] at hsplit
      obtain ⟨-, hlast⟩ := append_inj' hsplit rfl
      exact ⟨m₁, by rw [he, hlast]⟩
  have hmatch : x :: t ++ d :: m' = m₁ ++ '"' :: d :: m' := by
    rw [hm₁, append_assoc]
    rfl
  have hvalue := Regex.tail_of_seq_many haccepts hmatch (by decide) d mem_cons_self
  rw [hmark.2] at hvalue
  cases hvalue

theorem secretsOf_ofList (cs : List Char) : secretsOf w (String.ofList cs) =
    cut w.isWord redactionMarker tokenPatterns
      (mark w.isWord redactionMarker fieldPattern 0 none (cs.map kept)) := by
  rw [secretsOf, String.toList_ofList]
  rfl

section

variable {a t v b : List Char} {c d : Char} (hc : c ∈ ['"', '[', ','])
  (ht : ∀ x ∈ t, x ∈ [':', ' ', '\n']) (hspace : ∃ x ∈ t, isSpace x = true)
  (hd : d ∈ [',', '\n'])

include hc ht hspace hd

theorem secretsOf_enclosed :
    secretsOf w (String.ofList (a ++ c :: (t ++ '"' :: (v ++ '"' :: d :: b)))) =
      secretsOf w (String.ofList (a ++ c :: t)) ++
        kept '"' :: (secretsOf w (String.ofList (v ++ ['"'])) ++
          kept d :: secretsOf w (String.ofList b)) := by
  have hquote : w.isWord '"' = false := isWord_of_mem_marks (by simp)
  have hstop : w.isWord d = false := by
    rcases mem_pair.mp hd with rfl | rfl <;> exact isWord_of_mem_marks (by simp)
  have hopens : Opens w.isWord fieldPattern := sensitive_opens w mem_cons_self
  have htext : (a ++ c :: (t ++ '"' :: (v ++ '"' :: d :: b))).map kept =
      (a ++ c :: t).map kept ++ kept '"' :: ((v ++ ['"']).map kept ++ kept d :: b.map kept) := by
    simp
  -- the field pattern, on the text as it is
  have hfield : mark w.isWord redactionMarker fieldPattern 0 none
      ((a ++ c :: (t ++ '"' :: (v ++ '"' :: d :: b))).map kept) =
        mark w.isWord redactionMarker fieldPattern 0 none ((a ++ c :: t).map kept) ++
          kept '"' :: (mark w.isWord redactionMarker fieldPattern 0 none ((v ++ ['"']).map kept) ++
            kept d :: mark w.isWord redactionMarker fieldPattern 0 none (b.map kept)) := by
    rw [htext, mark_append (fits_map_kept _) (local_field_before _ hc ht hspace) (Nat.zero_le _),
      hopens.mark_kept hquote, mark_append (fits_map_kept _) (local_field_after v _ hd)
        (Nat.zero_le _), hopens.mark_kept hstop]
  have hclosed : Closed '"' ((v ++ ['"']).map kept) := by
    intro a' p hp
    rw [map_append, map_singleton] at hp
    exact .inl (List.cons.inj (append_inj' hp rfl).2).1.symm
  have htokens : ∀ r ∈ tokenPatterns, Tight w.isWord redactionMarker r ∧ Opens w.isWord r ∧
      r.body.alphabet '"' = false := fun r hr =>
    ⟨token_tight w hr, sensitive_opens w (mem_cons_of_mem _ hr),
      (by decide : ∀ r ∈ tokenPatterns, r.body.alphabet '"' = false) r hr⟩
  rw [secretsOf_ofList, secretsOf_ofList, secretsOf_ofList, secretsOf_ofList, hfield,
    cut_enclosed redactionMarker_ne_nil hquote hstop htokens
      ((marks_mark (fits_map_kept _) none).closed hclosed)]

theorem veilText_enclosed :
    veilText w (String.ofList (a ++ c :: (t ++ '"' :: (v ++ '"' :: d :: b)))) =
      veilText w (String.ofList (a ++ c :: t)) ++
        .clear '"' :: (veilText w (String.ofList (v ++ ['"'])) ++
          .clear d :: veilText w (String.ofList b)) := by
  rw [veilText, secretsOf_enclosed hc ht hspace hd]
  simp only [veilText, veil, flatMap_append, flatMap_cons, Piece.cells, singleton_append]

end

/-! ### What is hidden -/

variable (w : WordClass)

def Place.cells (p : Place) : List Cell :=
  ((veilText w (String.ofList p.text)).drop p.before.length).take (escaped p.value).length

def Place.Hidden (p : Place) : Prop := ∀ cell ∈ p.cells w, cell.isClear = false

def Place.Shown (p : Place) : Prop := ∀ cell ∈ p.cells w, cell.isClear = true

def GivesItselfAway (value : String) : Prop :=
  ∀ cell ∈ (veilText w (String.ofList (escaped value ++ ['"']))).take (escaped value).length,
    cell.isClear = false

variable {w}

theorem Place.Fenced.cells_eq {p : Place} (h : p.Fenced) : p.cells w =
    (veilText w (String.ofList (escaped p.value ++ ['"']))).take (escaped p.value).length := by
  obtain ⟨⟨a, c, t, hbefore, hc, ht, hspace⟩, d, b, hafter, hd⟩ := h
  have htext : p.text = a ++ c :: (t ++ '"' :: (escaped p.value ++ '"' :: d :: b)) := by
    rw [Place.text, hbefore, hafter]
    simp
  have hlen : p.before.length = (veilText w (String.ofList (a ++ c :: t))).length + 1 := by
    rw [length_veilText, hbefore, String.toList_ofList]
    simp
    omega
  have hown : (escaped p.value).length ≤
      (veilText w (String.ofList (escaped p.value ++ ['"']))).length := by
    rw [length_veilText, String.toList_ofList, length_append]
    omega
  rw [Place.cells, htext, veilText_enclosed hc ht hspace hd, hlen, drop_length_add_append,
    drop_one, tail_cons, take_append_of_le_length hown]

theorem worded_secretsOf (s : String) : Worded w.isWord (secretsOf w s) := by
  have hfield : Opens w.isWord fieldPattern := sensitive_opens w mem_cons_self
  rw [← String.ofList_toList (s := s), secretsOf_ofList]
  refine Worded.cut ((marks_mark (fits_map_kept _) none).worded hfield (worded_map_kept _))
    redactionMarker_ne_nil fun r hr => ?_
  exact ⟨token_tight w hr, sensitive_opens w (mem_cons_of_mem _ hr)⟩

theorem clean_of_secretsOf {s : String} (h : secretsOf w s = s.toList.map kept) : Clean w s := by
  refine (containsSensitiveValue_eq_false w).mpr ?_
  rintro r hr ⟨m, a, b, hsplit, hat⟩
  refine not_keptIn_secretsOf w hr s ⟨a.map kept, (m ++ b).map kept, ?_, m, b.map kept, ?_, ?_⟩
  · rw [h, hsplit, map_append]
  · rw [map_append]
  · simpa using hat

theorem Place.Fenced.shown_iff {p : Place} (h : p.Fenced) :
    p.Shown w ↔ Clean w (String.ofList (escaped p.value ++ ['"'])) := by
  rw [Place.Shown, h.cells_eq]
  constructor
  · intro hclear
    have hquote : w.isWord '"' = false := isWord_of_mem_marks (by simp)
    rw [veilText] at hclear
    have hkept := (worded_secretsOf _).eq_map_kept hquote
      (by rw [source_secretsOf, String.toList_ofList]) hclear
    exact clean_of_secretsOf (by rw [hkept, String.toList_ofList])
  · intro hclean cell hcell
    rw [veilText_of_clean hclean] at hcell
    obtain ⟨c, -, rfl⟩ := mem_map.mp (mem_of_mem_take hcell)
    rfl

theorem prepareContentForStorage_redact {cfg : WriteConfig} (env : WriteEnv)
    (hmode : cfg.secretsStorageMode = .redact) (content : String) :
    ∃ warning, prepareContentForStorage cfg (env.redacting w).lib content =
      .ok (String.ofList (uncover redactionMarker (veilText w content)), warning) := by
  obtain ⟨⟨stored, warning⟩, h⟩ : ∃ r, prepareContentForStorage cfg (env.redacting w).lib content =
      .ok r := by
    rw [prepareContentForStorage, if_neg (by simp [hmode] : cfg.secretsStorageMode ≠ .block)]
    split
    · exact ⟨_, rfl⟩
    · dsimp only
      split <;> exact ⟨_, rfl⟩
  have hallow : cfg.secretsStorageMode ≠ .allow := by
    rw [hmode]
    decide
  obtain ⟨rfl, -⟩ := @prepareContentForStorage_eq_ok w { env with cfg := cfg } _ _ _ hallow h
  exact ⟨warning, by rw [h, uncover_veilText, String.ofList_toList]⟩

/-- A place of the scrubbed value shows the marker, or a text of the value, redacted, that no
sensitive key names. -/
def Scrubbed (w : WordClass) (ps : List Place) (q : Place) : Prop :=
  q.value = String.ofList redactionMarker ∨
    ∃ p ∈ ps, p.named = false ∧ q.value = redactSensitiveValues w p.value

theorem Scrubbed.within {ps ps' : List Place} {q : Place} (h : Scrubbed w ps q)
    {pre post : List Char} (hps : ps.map (Place.within pre post) ⊆ ps') (pre' post' : List Char) :
    Scrubbed w ps' (q.within pre' post') := by
  refine h.imp id ?_
  rintro ⟨p, hp, hnamed, hvalue⟩
  exact ⟨_, hps (mem_map_of_mem hp), hnamed, hvalue⟩

mutual

theorem value_of_mem_places_scrub {named : Bool} {level : ℕ} {j : Json} {q : Place}
    (h : q ∈ places w named level (scrubSensitivePayload w j)) :
    Scrubbed w (places w false level j) q :=
  match j, h with
  | .str s, h => by
    obtain rfl := mem_singleton.mp h
    exact .inr ⟨_, mem_singleton_self _, rfl, rfl⟩
  | .arr items, h => value_of_mem_placesOfItems_scrub h
  | .obj members, h => value_of_mem_placesOfMembers_scrub h

theorem value_of_mem_placesOfItems_scrub {named : Bool} {level : ℕ} {close : List Char}
    {sep : Char} {js : List Json} {q : Place}
    (h : q ∈ placesOfItems w named level close sep (scrubItems w js)) :
    Scrubbed w (placesOfItems w false level close sep js) q :=
  match js, h with
  | [], h => by cases h
  | j :: js, h => by
    rw [scrubItems, placesOfItems, mem_append, mem_map, mem_map] at h
    rw [placesOfItems]
    rcases h with ⟨q, hq, rfl⟩ | ⟨q, hq, rfl⟩
    · exact (value_of_mem_places_scrub hq).within (subset_append_left ..) _ _
    · exact (value_of_mem_placesOfItems_scrub hq).within (subset_append_right ..) _ _

theorem value_of_mem_placesOfMembers_scrub {named : Bool} {level : ℕ} {close : List Char}
    {sep : Char} {ms : List (String × Json)} {q : Place}
    (h : q ∈ placesOfMembers w named level close sep (scrubMembers w ms)) :
    Scrubbed w (placesOfMembers w false level close sep ms) q :=
  match ms, h with
  | [], h => by cases h
  | (key, nested) :: ms, h => by
    rw [scrubMembers, placesOfMembers, mem_append, mem_map, mem_map] at h
    rw [placesOfMembers]
    rcases h with ⟨q, hq, rfl⟩ | ⟨q, hq, rfl⟩
    · by_cases hkey : namesSecret w key = true
      · rw [if_pos hkey] at hq
        obtain rfl := mem_singleton.mp hq
        exact .inl rfl
      · rw [if_neg hkey] at hq
        rw [Bool.eq_false_iff.mpr hkey]
        exact (value_of_mem_places_scrub hq).within (subset_append_left ..) _ _
    · exact (value_of_mem_placesOfMembers_scrub hq).within (subset_append_right ..) _ _

end

def inkLength (s : String) : ℕ := (s.toList.filter fun c => !isSpace c).length

/-- **Structured secrets in rendered text** are hidden exactly if the patterns recognise them
without their key. The scrubber shows none of them. -/
theorem structured_secrets_hidden_iff (w : WordClass) (env : WriteEnv)
    (members : List (String × Json)) :
    let content := String.ofList (dumps 0 (.obj members))
    let found := places w false 0 (.obj members)
    (∀ q ∈ places w false 0 (scrubSensitivePayload w (.obj members)),
      q.value = String.ofList redactionMarker ∨
        ∃ p ∈ found, p.named = false ∧ q.value = redactSensitiveValues w p.value) ∧
      (∃ warning, prepareContentForStorage { env.cfg with secretsStorageMode := .redact }
          (env.redacting w).lib content =
        .ok (String.ofList (uncover redactionMarker (veilText w content)), warning)) ∧
      (∀ p ∈ found, String.ofList p.text = content ∧
        (p.Hidden w ↔ GivesItselfAway w p.value) ∧
        (p.Shown w ↔ Clean w (String.ofList (escaped p.value ++ ['"'])))) ∧
      ((∀ p ∈ found, p.named = true → 8 ≤ inkLength p.value → p.Hidden w) ↔
        ∀ p ∈ found, p.named = true → 8 ≤ inkLength p.value → GivesItselfAway w p.value) := by
  intro content found
  have hhidden : ∀ p ∈ found, (p.Hidden w ↔ GivesItselfAway w p.value) := by
    intro p hp
    rw [Place.Hidden, (spec_of_mem_placesOfMembers w rfl hp).2.cells_eq, GivesItselfAway]
  refine ⟨fun q hq => value_of_mem_places_scrub hq,
    prepareContentForStorage_redact env rfl content, fun p hp => ⟨?_, hhidden p hp, ?_⟩, ?_⟩
  · exact congrArg String.ofList (spec_of_mem_places w hp).1
  · exact (spec_of_mem_placesOfMembers w rfl hp).2.shown_iff
  · exact forall₂_congr fun p hp => imp_congr_right fun _ => imp_congr_right fun _ => hhidden p hp

/-- A nested password: the scrubber hides it, and the trajectory is stored as it is. -/
theorem password_stored :
    let members : List (String × Json) := [("db", .obj [("password", .str "hunter2secret")])]
    let content := "\x7b\n  \"db\": \x7b\n    \"password\": \"hunter2secret\"\n  \x7d\n\x7d"
    scrubMembers .latin members = [("db", .obj [("password", redactedValue)])] ∧
      String.ofList (dumps 0 (.obj members)) = content ∧
      prepareContentForStorage WriteEnv.traced.cfg (WriteEnv.traced.redacting .latin).lib content =
        .ok (content, none) ∧
      ∃ p ∈ places .latin false 0 (.obj members), p.value = "hunter2secret" ∧ p.named = true ∧
        8 ≤ inkLength p.value ∧ p.Shown .latin ∧ ¬ p.Hidden .latin := by
  intro members content
  have hplace : ∃ p, places .latin false 0 (.obj members) = [p] ∧ p.value = "hunter2secret" ∧
      p.named = true := ⟨_, rfl, rfl, by decide +kernel⟩
  obtain ⟨p, hp, hvalue, hnamed⟩ := hplace
  have hmem : p ∈ places .latin false 0 (.obj members) := by
    rw [hp]
    exact mem_singleton_self p
  have hfenced := (spec_of_mem_placesOfMembers .latin rfl hmem).2
  have hshown : p.Shown .latin := by
    rw [hfenced.shown_iff, hvalue]
    decide +kernel
  have hclean : (WriteEnv.traced.redacting .latin).lib.containsSensitiveValue content = false := by
    decide +kernel
  refine ⟨?_, by decide +kernel, prepareContentForStorage_of_clean hclean, p, hmem, hvalue, hnamed,
    by rw [hvalue]; decide +kernel, hshown, fun hhidden => ?_⟩
  · have hkeys : namesSecret .latin "db" = false ∧ namesSecret .latin "password" = true := by
      decide +kernel
    simp [members, scrubMembers, scrubSensitivePayload, hkeys]
  · -- the value is not empty
    have hcells := hfenced.cells_eq (w := .latin)
    rw [hvalue] at hcells
    have hne : p.cells .latin ≠ [] := by
      rw [hcells, ← length_pos_iff, length_take, length_veilText]
      decide +kernel
    obtain ⟨cell, cells, hcons⟩ := exists_cons_of_ne_nil hne
    have hcell : cell ∈ p.cells .latin := by rw [hcons]; exact mem_cons_self
    have hclear := hshown cell hcell
    rw [hhidden cell hcell] at hclear
    cases hclear

end ContextLattice
