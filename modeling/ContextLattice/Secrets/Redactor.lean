import Mathlib.Data.Bool.AllAny
import ContextLattice.Foundation.Python
import ContextLattice.Foundation.Redaction

/-!
# The redactor

`_redact_sensitive_values` runs seven patterns over a text. The last six are tight. The first can
leave a field name in place because its value is short, and a later substitution makes the value
long enough (`Exposed`).
-/

namespace ContextLattice

open Foundation Foundation.Piece List

/-! ### The patterns -/

def ignoringCase (c x : Char) : Bool :=
  x == c || x == c.toUpper || (c == 'i' && (x == 'İ' || x == 'ı')) || (c == 's' && x == 'ſ') ||
    (c == 'k' && x == 'K')

def anyCase (s : String) : Regex := .chars (s.toList.map ignoringCase)

def keyName (s : String) : Regex :=
  .seq (anyCase s) (.seq (.opt fun c => c == '_' || c == '-') (anyCase "key"))

def fieldName : Regex :=
  .anyOf (keyName "api") [anyCase "token", anyCase "secret", anyCase "password",
    anyCase "passwd", keyName "private", keyName "access"]

def fieldSeparator : Regex :=
  .seq (.many 0 isSpace) (.seq (.one fun c => c == ':' || c == '=') (.many 0 isSpace))

def fieldValueChar (c : Char) : Bool := !isSpace c && c != ',' && c != ';'

def bearerChar (c : Char) : Bool :=
  c.isAlphanum || "-._~+/İıſK".toList.contains c

def fieldPattern : Pattern :=
  ⟨true, .seq (.seq fieldName fieldSeparator) (.many 8 fieldValueChar), false⟩

def bearerPattern : Pattern :=
  ⟨true, .seq (.seq (.seq (anyCase "bearer") (.many 1 isSpace)) (.many 1 bearerChar))
    (.many 0 (· == '=')), false⟩

def awsKeyPattern : Pattern :=
  ⟨true, .seq (.literal "AKIA") (.chars (List.replicate 16 fun c => c.isDigit || c.isUpper)), true⟩

def skPattern : Pattern := ⟨true, .seq (.literal "sk-") (.many 20 Char.isAlphanum), true⟩

def slackPattern : Pattern :=
  ⟨true, .seq (.literal "xox") (.seq (.one fun c => ['b', 'a', 'p', 'r', 's'].contains c)
    (.seq (.literal "-") (.many 10 fun c => c.isAlphanum || c == '-'))), true⟩

def githubPattern : Pattern :=
  ⟨true, .seq (.literal "gh") (.seq (.one fun c => ['p', 'o', 'u', 's', 'r'].contains c)
    (.seq (.literal "_") (.many 20 Char.isAlphanum))), true⟩

def base64Char (c : Char) : Bool := c.isAlphanum || c == '_' || c == '-'

def jwtPattern : Pattern :=
  ⟨true, .seq (.literal "eyJ") (.seq (.many 8 base64Char) (.seq (.literal ".")
    (.seq (.many 8 base64Char) (.seq (.literal ".") (.many 8 base64Char))))), true⟩

def tokenPatterns : List Pattern :=
  [bearerPattern, awsKeyPattern, skPattern, slackPattern, githubPattern, jwtPattern]

def sensitiveValuePatterns : List Pattern := fieldPattern :: tokenPatterns

def redactionMarker : List Char := ['[', 'R', 'E', 'D', 'A', 'C', 'T', 'E', 'D', ']']

variable (w : WordClass)

def containsSensitiveValue (text : String) : Bool :=
  sensitiveValuePatterns.any fun pattern => pattern.search w.isWord none text.toList

def redactSensitiveValues (text : String) : String :=
  String.ofList (subAll w.isWord redactionMarker sensitiveValuePatterns text.toList)

def secretsOf (text : String) : List Piece :=
  cut w.isWord redactionMarker sensitiveValuePatterns (text.toList.map kept)

def OpenField (prev : Option Char) (u : List Char) : Prop :=
  ∃ k v, u = k ++ v ∧ (Regex.seq fieldName fieldSeparator).accepts k ∧
    wordBoundary w.isWord prev k.head? = true ∧ ∀ c ∈ v, fieldValueChar c = true

def Exposed (ps : List Piece) : Prop :=
  ∃ a u s b, ps = a ++ (u.map kept ++ secret s :: b) ∧
    OpenField w (lastChar none (render redactionMarker a)) u

/-- A field in the output that begins with kept text and runs into a marker. -/
def MarkedField (ps : List Piece) (m : List Char) : Prop :=
  ∃ a u s b m' rest, ps = a ++ (u.map kept ++ secret s :: b) ∧ m = u ++ m' ∧ m' ≠ [] ∧
    redactionMarker ++ render redactionMarker b = m' ++ rest ∧
    fieldPattern.MatchAt w.isWord (lastChar none (render redactionMarker a)) m rest.head?

/-! ### What the patterns can begin with -/

def firstChars : List Char :=
  ['a', 'A', 't', 'T', 's', 'S', 'ſ', 'p', 'P', 'b', 'B', 'x', 'g', 'e']

variable {c : Char}

private theorem fieldName_first (h : fieldName.first c = true) : c ∈ firstChars := by
  simp only [fieldName, Regex.anyOf, keyName, Regex.first, anyCase, Regex.first_chars_map] at h
  simp [ignoringCase, Regex.chars, Regex.nullable] at h
  simp only [firstChars, mem_cons, not_mem_nil, or_false]
  tauto

theorem first_mem {r : Pattern} (hr : r ∈ sensitiveValuePatterns) (h : r.body.first c = true) :
    c ∈ firstChars := by
  simp only [sensitiveValuePatterns, tokenPatterns, mem_cons, not_mem_nil, or_false] at hr
  rcases hr with rfl | rfl | rfl | rfl | rfl | rfl | rfl
  · have hname : fieldName.nullable = false := by decide
    simp only [fieldPattern, Regex.first, Regex.nullable, hname, Bool.false_and, Bool.or_false] at h
    exact fieldName_first h
  · simp [bearerPattern, Regex.first, anyCase, Regex.nullable, Regex.chars, ignoringCase] at h
    rcases h with rfl | rfl <;> decide
  all_goals
    simp [awsKeyPattern, skPattern, slackPattern, githubPattern, jwtPattern, Regex.first,
      Regex.literal, Regex.nullable, Regex.chars] at h
    subst h
    decide

theorem isWord_of_mem_firstChars (h : c ∈ firstChars) : w.isWord c = true := by
  by_cases hc : c = 'ſ'
  · rw [hc, w.longS]
  · have hascii :
        ∀ c ∈ firstChars, c ≠ 'ſ' → c.toNat < 128 ∧ (c.isAlphanum || c == '_') = true :=
      all_iff_forall_prop.mp (by decide)
    obtain ⟨hlt, halnum⟩ := hascii c h hc
    rw [w.ascii c hlt, halnum]

variable {r : Pattern}

theorem sensitive_opens (hr : r ∈ sensitiveValuePatterns) : Opens w.isWord r := by
  refine ⟨?_, ?_, fun c hc => isWord_of_mem_firstChars w (first_mem hr hc)⟩
  · exact (by decide : ∀ r ∈ sensitiveValuePatterns, r.startBoundary = true) r hr
  · exact (by decide : ∀ r ∈ sensitiveValuePatterns, r.body.nullable = false) r hr

/-! ### The marker -/

theorem redactionMarker_ne_nil : redactionMarker ≠ [] := by simp [redactionMarker]

theorem sensitive_inert (hr : r ∈ sensitiveValuePatterns) :
    Inert w.isWord redactionMarker r := by
  refine (sensitive_opens w hr).inert fun a c b hmarker hc => ?_
  have hmem := first_mem hr hc
  have hsplit : ∀ n < 10, (redactionMarker.drop n).head?.any (· ∈ firstChars) →
      (redactionMarker.take n).getLast?.any (fun c => c.isAlphanum && c.toNat < 128) = true := by
    decide
  have hlen : a.length < 10 := by
    have := congrArg List.length hmarker
    simp [redactionMarker] at this
    omega
  have hlast := hsplit a.length hlen (by simp [hmarker, hmem])
  rw [hmarker, take_left] at hlast
  rcases hlast' : a.getLast? with _ | d
  · rw [hlast'] at hlast
    cases hlast
  · rw [hlast'] at hlast
    simp only [Option.any_some, Bool.and_eq_true, decide_eq_true_eq] at hlast ⊢
    rw [w.ascii d hlast.2, hlast.1, Bool.true_or]

theorem token_tight (hr : r ∈ tokenPatterns) : Tight w.isWord redactionMarker r := by
  refine ⟨?_, sensitive_inert w (mem_cons_of_mem _ hr)⟩
  rintro _ ⟨⟩
  exact (by decide : ∀ r ∈ tokenPatterns, r.body.alphabet '[' = false) r hr

/-! ### Where the matches end -/

theorem field_seals (hr : r ∈ sensitiveValuePatterns) :
    Seals w.isWord fieldPattern r := by
  intro prev xs n c hmatch hhead hc
  obtain ⟨i, -, rfl⟩ := Regex.head_ends_seq_many (Pattern.head_ends_of_matchLength rfl hmatch)
  rw [← drop_drop] at hhead
  have hno := Regex.head_drop_takeWhile hhead
  have hvalue : ∀ c ∈ firstChars, fieldValueChar c = true :=
    all_iff_forall_prop.mp (by decide)
  rw [hvalue c (first_mem hr hc)] at hno
  cases hno

theorem bearer_seals (hr : r ∈ sensitiveValuePatterns) :
    Seals w.isWord bearerPattern r := by
  intro prev xs n c hmatch hhead hc
  obtain ⟨i, hi, hn⟩ := Regex.head_ends_seq_star (Pattern.head_ends_of_matchLength rfl hmatch)
  by_cases hsigns : (xs.drop i).takeWhile (· == '=') = []
  · -- no equals sign: the next character is one the token would have taken
    rw [hsigns, length_nil, Nat.add_zero] at hn
    obtain ⟨j, -, rfl⟩ := Regex.head_ends_seq_many hi
    rw [hn, ← drop_drop] at hhead
    have hno := Regex.head_drop_takeWhile hhead
    have hbearer : ∀ c ∈ firstChars, bearerChar c = true :=
      all_iff_forall_prop.mp (by decide)
    rw [hbearer c (first_mem hr hc)] at hno
    cases hno
  · obtain ⟨d, hlast, hd⟩ := lastChar_takeWhile prev hsigns
    obtain rfl := beq_iff_eq.mp hd
    rw [hn, hlast, Option.any_some, w.ascii '=' (by decide)]
    decide

theorem sensitive_seals {q : Pattern} (hq : q ∈ sensitiveValuePatterns)
    (hr : r ∈ sensitiveValuePatterns) : Seals w.isWord q r := by
  have hstop : ∀ q ∈ sensitiveValuePatterns, q.endBoundary = false →
      q = fieldPattern ∨ q = bearerPattern := by
    intro q hq hend
    simp only [sensitiveValuePatterns, tokenPatterns, mem_cons, not_mem_nil, or_false] at hq
    rcases hq with rfl | rfl | rfl | rfl | rfl | rfl | rfl
    · exact .inl rfl
    · exact .inr rfl
    all_goals cases hend
  cases hend : q.endBoundary with
  | true => exact (sensitive_opens w hr).seals_of_endBoundary hend
  | false =>
    rcases hstop q hq hend with rfl | rfl
    · exact field_seals w hr
    · exact bearer_seals w hr

/-! ### The output -/

theorem source_secretsOf (text : String) : source (secretsOf w text) = text.toList := by
  rw [secretsOf, sensitiveValuePatterns, cut, foldl_cons, ← cut,
    source_cut redactionMarker_ne_nil (fun r hr => token_tight w hr),
    (marks_mark (fits_map_kept _) none).source_eq, source_map_kept]

theorem render_secretsOf (text : String) :
    render redactionMarker (secretsOf w text) = (redactSensitiveValues w text).toList := by
  have hmarks : Marks w.isWord redactionMarker fieldPattern none (text.toList.map kept) _ :=
    marks_mark (fits_map_kept _) none
  have hfirst := hmarks.render_eq (by simp)
  rw [render_map_kept] at hfirst
  rw [redactSensitiveValues, String.toList_ofList, secretsOf, sensitiveValuePatterns, cut,
    foldl_cons, ← cut, render_cut redactionMarker_ne_nil (fun r hr => token_tight w hr),
    hfirst]
  rfl

theorem not_keptIn_secretsOf (hr : r ∈ sensitiveValuePatterns) (text : String) :
    ¬ KeptIn w.isWord redactionMarker r none (secretsOf w text) := by
  rw [secretsOf, sensitiveValuePatterns, cut, foldl_cons, ← cut]
  have htoken : ∀ q ∈ tokenPatterns, q ∈ sensitiveValuePatterns :=
    fun q hq => mem_cons_of_mem _ hq
  refine not_keptIn_cut redactionMarker_ne_nil
    (fun q hq => ⟨token_tight w hq, sensitive_opens w (htoken q hq)⟩) (sensitive_opens w hr)
    (fun q hq => sensitive_seals w (htoken q hq) hr) ?_
  rcases mem_cons.mp hr with rfl | hmem
  · exact .inr (not_keptIn_mark_self redactionMarker_ne_nil (sensitive_opens w hr)
      (sensitive_seals w hr hr) (fits_map_kept _))
  · exact .inl hmem

theorem token_not_occurs (hr : r ∈ tokenPatterns) (text : String) :
    ¬ r.Occurs w.isWord none (redactSensitiveValues w text).toList := by
  have hmem : r ∈ sensitiveValuePatterns := mem_cons_of_mem _ hr
  rw [← render_secretsOf]
  exact (token_tight w hr).not_occurs_render redactionMarker_ne_nil (sensitive_opens w hmem)
    (not_keptIn_secretsOf w hmem text)

variable {ps : List Piece}

theorem Exposed.occurs (h : Exposed w ps) :
    fieldPattern.Occurs w.isWord none (render redactionMarker ps) := by
  obtain ⟨a, u, s, b, rfl, k, v, rfl, hk, hboundary, hv⟩ := h
  refine ⟨k ++ (v ++ redactionMarker), render redactionMarker a, render redactionMarker b,
    by simp, ⟨k, v ++ redactionMarker, rfl, hk, ?_, ?_⟩, fun _ => ?_, fun h => by cases h⟩
  · rw [length_append]
    exact le_add_left (by decide)
  · intro c hc
    rcases mem_append.mp hc with hc | hc
    · exact hv c hc
    · have hmarker : ∀ c ∈ redactionMarker, fieldValueChar c = true :=
        all_iff_forall_prop.mp (by decide)
      exact hmarker c hc
  · -- the field name is not empty
    have hnull : (Regex.seq fieldName fieldSeparator).nullable = false := by decide
    rcases k with _ | ⟨c, k⟩
    · have := Regex.nullable_of_accepts_nil hk
      rw [hnull] at this
      cases this
    · exact hboundary

/-- **A field in the output** runs from kept text into a marker. -/
theorem matchIn_render_iff (hkept : ¬ KeptIn w.isWord redactionMarker fieldPattern none ps)
    {m : List Char} :
    fieldPattern.MatchIn w.isWord none m (render redactionMarker ps) ↔ MarkedField w ps m := by
  have hfield : fieldPattern ∈ sensitiveValuePatterns := mem_cons_self
  constructor
  · intro hm
    obtain ⟨a, x, b, rest, rfl, hrest, hat⟩ :=
      (sensitive_inert w hfield).matchIn_render (sensitive_opens w hfield) hm
    rcases split_render hrest with ⟨b', hb', rfl⟩ | ⟨u, s, b', m', hb', hum, hne, hmarker⟩
    · exact absurd ⟨a, _, rfl, m, b', hb', hat⟩ hkept
    · exact ⟨a, u, s, b', m', rest, by rw [hb'], hum, hne, hmarker, hat⟩
  · rintro ⟨a, u, s, b, m', rest, rfl, rfl, -, hmarker, hat⟩
    exact ⟨render redactionMarker a, rest, by simp [hmarker], hat⟩

/-- If the field pattern matches in the output, then a secret was cut out of the value of a field
whose name was kept. -/
theorem MarkedField.exposed {m : List Char} (h : MarkedField w ps m) : Exposed w ps := by
  obtain ⟨a, u, s, b, m', rest, rfl, hum, hne, hmarker, hat⟩ := h
  obtain ⟨k, v, rfl, hk, hlen, hv⟩ := hat.accepts
  have hstart := hat.start rfl
  -- the match runs into the marker behind the field name and its separator
  obtain ⟨t, rfl, hvt⟩ : ∃ t, u = k ++ t ∧ v = t ++ m' := by
    rcases append_eq_append_iff.mp hum with ⟨t, ht, hvt⟩ | ⟨t, rfl, hvt⟩
    · exact ⟨t, ht, hvt⟩
    · rcases t with _ | ⟨c, t⟩
      · exact ⟨[], (append_nil _).symm.trans (append_nil _).symm, hvt.symm⟩
      · rw [hvt, redactionMarker] at hmarker
        obtain ⟨rfl, -⟩ := List.cons.inj hmarker
        have halpha := Regex.alphabet_of_accepts hk '[' (by simp)
        rw [(by decide : (Regex.seq fieldName fieldSeparator).alphabet '[' = false)] at halpha
        cases halpha
  refine ⟨a, k ++ t, s, b, rfl, k, t, rfl, hk, ?_, fun c hc => hv c (by simp [hvt, hc])⟩
  rcases k with _ | ⟨c, k⟩
  · have hnull := Regex.nullable_of_accepts_nil hk
    rw [(by decide : (Regex.seq fieldName fieldSeparator).nullable = false)] at hnull
    cases hnull
  · exact hstart

theorem matchIn_redact_iff (text : String) {m : List Char} :
    fieldPattern.MatchIn w.isWord none m (redactSensitiveValues w text).toList ↔
      MarkedField w (secretsOf w text) m := by
  rw [← render_secretsOf]
  exact matchIn_render_iff w (not_keptIn_secretsOf w mem_cons_self text)

variable {text : String}

theorem containsSensitiveValue_eq_false :
    containsSensitiveValue w text = false ↔
      ∀ r ∈ sensitiveValuePatterns, ¬ r.Occurs w.isWord none text.toList := by
  simp only [containsSensitiveValue, any_eq_false, Pattern.search_iff]

theorem containsSensitiveValue_of_avoids (cs : List Char)
    (hcs : ∀ r ∈ sensitiveValuePatterns, r.body.avoids cs = true)
    (htext : ∀ c ∈ text.toList, c ∈ cs) : containsSensitiveValue w text = false := by
  rw [containsSensitiveValue_eq_false]
  rintro r hr ⟨m, a, b, hsplit, hat⟩
  obtain ⟨c, hc, hnot⟩ := Regex.exists_not_mem_of_avoids (hcs r hr) hat.accepts
  exact hnot (htext c (by rw [hsplit]; simp [hc]))

/-- **What the redactor leaves behind** is clean and stable exactly if no secret is cut out of the
value of a field whose name is kept. -/
theorem redacted_clean_iff (text : String) :
    (containsSensitiveValue w (redactSensitiveValues w text) = false ∧
      redactSensitiveValues w (redactSensitiveValues w text) = redactSensitiveValues w text) ↔
      ¬ Exposed w (secretsOf w text) := by
  have hfield : fieldPattern ∈ sensitiveValuePatterns := mem_cons_self
  constructor
  · rintro ⟨hclean, -⟩ hexposed
    have hoccurs := hexposed.occurs
    rw [render_secretsOf] at hoccurs
    exact (containsSensitiveValue_eq_false w).mp hclean fieldPattern hfield hoccurs
  · intro hexposed
    have hclean : ∀ r ∈ sensitiveValuePatterns,
        ¬ r.Occurs w.isWord none (redactSensitiveValues w text).toList := by
      intro r hr
      rcases mem_cons.mp hr with rfl | hr
      · rintro ⟨m, hm⟩
        exact hexposed ((matchIn_redact_iff w text).mp hm).exposed
      · exact token_not_occurs w hr text
    refine ⟨(containsSensitiveValue_eq_false w).mpr hclean, ?_⟩
    rw [redactSensitiveValues, subAll_of_not_occurs hclean, String.ofList_toList]

/-- A short bearer token in a field: the marker that replaces it makes the field match. -/
theorem marker_in_field :
    redactSensitiveValues .latin "token: bearer x" = "token: [REDACTED]" ∧
      containsSensitiveValue .latin "token: [REDACTED]" = true ∧
      redactSensitiveValues .latin "token: [REDACTED]" = "[REDACTED]" := by
  decide +kernel

end ContextLattice
