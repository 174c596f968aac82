import Mathlib.Data.List.Basic

/-!
# Percent-decoding

`unquote` replaces each escape by the byte it names and reads the bytes as UTF-8, each run of ASCII
characters on its own. What is not UTF-8 becomes U+FFFD, one for each maximal piece that a longer
text could have continued.
-/

namespace Foundation

open List

/-! ### Escapes -/

def hexValue (c : Char) : Option ℕ :=
  if '0' ≤ c ∧ c ≤ '9' then some (c.toNat - 48)
  else if 'a' ≤ c ∧ c ≤ 'f' then some (c.toNat - 87)
  else if 'A' ≤ c ∧ c ≤ 'F' then some (c.toNat - 55)
  else none

def escapeByte : List Char → Option ℕ
  | c :: a :: b :: _ =>
    if c = '%' then (hexValue a).bind fun x => (hexValue b).map fun y => 16 * x + y else none
  | _ => none

def hasEscape : List Char → Bool
  | [] => false
  | c :: cs => (escapeByte (c :: cs)).isSome || hasEscape cs

inductive UrlPiece where
  | byte (b : ℕ)
  | char (c : Char)

def plainPiece (c : Char) : UrlPiece := if c.toNat < 0x80 then .byte c.toNat else .char c

def pieces : List Char → List UrlPiece
  | [] => []
  | [c] => [plainPiece c]
  | [c, d] => [plainPiece c, plainPiece d]
  | c :: a :: b :: cs =>
    match escapeByte (c :: a :: b :: cs) with
    | some n => .byte n :: pieces cs
    | none => plainPiece c :: pieces (a :: b :: cs)

variable {cs : List Char}

theorem pieces_cons {c : Char} (h : escapeByte (c :: cs) = none) :
    pieces (c :: cs) = plainPiece c :: pieces cs := by
  rcases cs with _ | ⟨a, _ | ⟨b, cs⟩⟩
  · rfl
  · rfl
  · rw [pieces, h]

theorem pieces_escape {c : Char} {n : ℕ} (h : escapeByte (c :: cs) = some n) :
    ∃ a b rest, cs = a :: b :: rest ∧ pieces (c :: cs) = .byte n :: pieces rest := by
  rcases cs with _ | ⟨a, _ | ⟨b, cs⟩⟩
  · cases h
  · cases h
  · exact ⟨a, b, cs, rfl, by rw [pieces, h]⟩

theorem pieces_of_not_hasEscape (h : hasEscape cs = false) :
    pieces cs = cs.map plainPiece := by
  induction cs with
  | nil => rfl
  | cons c cs ih =>
    rw [hasEscape, Bool.or_eq_false_iff, Option.isSome_eq_false_iff, Option.isNone_iff_eq_none] at h
    rw [pieces_cons h.1, ih h.2, map_cons]

theorem length_pieces_le (cs : List Char) : (pieces cs).length ≤ cs.length := by
  induction cs using pieces.induct with
  | case1 | case2 | case3 => exact Nat.le_refl _
  | case4 c a b cs n h ih =>
    rw [pieces, h]
    simp only [length_cons]
    omega
  | case5 c a b cs h ih =>
    rw [pieces, h]
    simp only [length_cons] at ih ⊢
    omega

theorem length_pieces_lt (h : hasEscape cs = true) :
    (pieces cs).length < cs.length := by
  induction cs with
  | nil => cases h
  | cons c cs ih =>
    rcases hbyte : escapeByte (c :: cs) with _ | n
    · have hrest : hasEscape cs = true := by simpa [hasEscape, hbyte] using h
      rw [pieces_cons hbyte]
      simpa using ih hrest
    · obtain ⟨a, b, rest, rfl, hpieces⟩ := pieces_escape hbyte
      have hle := length_pieces_le rest
      rw [hpieces]
      simp only [length_cons]
      omega

/-! ### Bytes as UTF-8 -/

/-- A character of which some bytes were read: how many it still needs, its value so far, and
between which bounds the next byte must lie. -/
structure Begun where
  need : ℕ
  value : ℕ
  low : ℕ
  high : ℕ
  le_low : 0x80 ≤ low

def leadByte (b : ℕ) : Option Begun :=
  if 0xC2 ≤ b ∧ b ≤ 0xDF then some ⟨1, b - 0xC0, 0x80, 0xBF, Nat.le_refl _⟩
  else if b = 0xE0 then some ⟨2, 0, 0xA0, 0xBF, by decide⟩
  else if b = 0xED then some ⟨2, 0xD, 0x80, 0x9F, Nat.le_refl _⟩
  else if 0xE1 ≤ b ∧ b ≤ 0xEF then some ⟨2, b - 0xE0, 0x80, 0xBF, Nat.le_refl _⟩
  else if b = 0xF0 then some ⟨3, 0, 0x90, 0xBF, by decide⟩
  else if 0xF1 ≤ b ∧ b ≤ 0xF3 then some ⟨3, b - 0xF0, 0x80, 0xBF, Nat.le_refl _⟩
  else if b = 0xF4 then some ⟨3, 4, 0x80, 0x8F, Nat.le_refl _⟩
  else none

def replacement : Char := Char.ofNat 0xFFFD

def startByte (b : ℕ) : List Char × Option Begun :=
  if b < 0x80 then ([Char.ofNat b], none)
  else
    match leadByte b with
    | some p => ([], some p)
    | none => ([replacement], none)

def flush : Option Begun → List Char
  | none => []
  | some _ => [replacement]

def takeByte : Option Begun → ℕ → List Char × Option Begun
  | none, b => startByte b
  | some p, b =>
    if p.low ≤ b ∧ b ≤ p.high then
      let value := p.value * 64 + (b - 0x80)
      if p.need ≤ 1 then ([Char.ofNat value], none)
      else ([], some ⟨p.need - 1, value, 0x80, 0xBF, Nat.le_refl _⟩)
    else (flush (some p) ++ (startByte b).1, (startByte b).2)

def decodePieces : Option Begun → List UrlPiece → List Char
  | st, [] => flush st
  | st, .byte b :: ps => (takeByte st b).1 ++ decodePieces (takeByte st b).2 ps
  | st, .char c :: ps => flush st ++ c :: decodePieces none ps

theorem length_startByte (b : ℕ) : (startByte b).1.length + (flush (startByte b).2).length ≤ 1 := by
  rw [startByte]
  split
  · exact Nat.le_refl _
  · split <;> exact Nat.le_refl _

theorem length_takeByte (st : Option Begun) (b : ℕ) :
    (takeByte st b).1.length + (flush (takeByte st b).2).length ≤ (flush st).length + 1 := by
  have hstart := length_startByte b
  cases st with
  | none => simpa [takeByte, flush] using hstart
  | some p =>
    simp only [takeByte]
    split
    · split <;> simp [flush]
    · simp only [length_append, flush, length_singleton]
      simp only [flush] at hstart
      omega

theorem length_decodePieces (st : Option Begun) (ps : List UrlPiece) :
    (decodePieces st ps).length ≤ (flush st).length + ps.length := by
  induction ps generalizing st with
  | nil => simp [decodePieces]
  | cons p ps ih =>
    cases p with
    | byte b =>
      have hbyte := length_takeByte st b
      have hrest := ih (takeByte st b).2
      simp only [decodePieces, length_append, length_cons]
      omega
    | char c =>
      have hrest := ih none
      simp only [flush, length_nil] at hrest
      simp only [decodePieces, length_append, length_cons]
      omega

theorem decodePieces_plain (st : Option Begun) (c : Char) (ps : List UrlPiece) :
    decodePieces st (plainPiece c :: ps) = flush st ++ c :: decodePieces none ps := by
  by_cases hc : c.toNat < 0x80
  · have hstart : startByte c.toNat = ([c], none) := by
      rw [startByte, if_pos hc, Char.ofNat_toNat]
    have htake : takeByte st c.toNat = (flush st ++ [c], none) := by
      cases st with
      | none => simpa [takeByte, flush] using hstart
      | some p =>
        have hlow : ¬ (p.low ≤ c.toNat ∧ c.toNat ≤ p.high) := by
          have := p.le_low
          omega
        rw [takeByte, if_neg hlow, hstart]
    rw [plainPiece, if_pos hc, decodePieces, htake, append_assoc, singleton_append]
  · rw [plainPiece, if_neg hc, decodePieces]

theorem decodePieces_map_plain (cs : List Char) : decodePieces none (cs.map plainPiece) = cs := by
  induction cs with
  | nil => rfl
  | cons c cs ih =>
    rw [map_cons, decodePieces_plain, ih]
    rfl

/-! ### Decoding a text -/

def unquoteChars (cs : List Char) : List Char := decodePieces none (pieces cs)

def unquote (s : String) : String := String.ofList (unquoteChars s.toList)

theorem unquoteChars_of_not_hasEscape (h : hasEscape cs = false) :
    unquoteChars cs = cs := by
  rw [unquoteChars, pieces_of_not_hasEscape h, decodePieces_map_plain]

theorem length_unquote_lt (h : hasEscape cs = true) :
    (unquoteChars cs).length < cs.length := by
  have hdecode := length_decodePieces none (pieces cs)
  have hpieces := length_pieces_lt h
  simp only [flush, length_nil] at hdecode
  rw [unquoteChars]
  omega

theorem unquote_eq_self_iff {s : String} : unquote s = s ↔ hasEscape s.toList = false := by
  constructor
  · intro h
    by_contra hescape
    have hlt := length_unquote_lt (eq_true_of_ne_false hescape)
    have hchars : unquoteChars s.toList = s.toList := by
      rw [← String.toList_ofList (l := unquoteChars s.toList), ← unquote, h]
    rw [hchars] at hlt
    exact Nat.lt_irrefl _ hlt
  · intro h
    rw [unquote, unquoteChars_of_not_hasEscape h, String.ofList_toList]

/-! ### Slashes -/

theorem escapeByte_append_slash (c : Char) (cs ds : List Char) :
    escapeByte (c :: (cs ++ '/' :: ds)) = escapeByte (c :: cs) := by
  have hslash : hexValue '/' = none := by decide
  rcases cs with _ | ⟨a, _ | ⟨b, cs⟩⟩
  · rcases ds with _ | ⟨d, ds⟩
    · rfl
    · simp [escapeByte, hslash]
  · cases ha : hexValue a <;> simp [escapeByte, hslash, ha]
  · rfl

theorem hasEscape_append_slash (cs ds : List Char) :
    hasEscape (cs ++ '/' :: ds) = (hasEscape cs || hasEscape ds) := by
  induction cs with
  | nil =>
    have hslash : escapeByte ('/' :: ds) = none := by
      rcases ds with _ | ⟨a, _ | ⟨b, ds⟩⟩ <;> rfl
    simp [hasEscape, hslash]
  | cons c cs ih =>
    rw [cons_append, hasEscape, escapeByte_append_slash, ih, hasEscape, Bool.or_assoc]

theorem pieces_append_slash (cs ds : List Char) :
    pieces (cs ++ '/' :: ds) = pieces cs ++ plainPiece '/' :: pieces ds := by
  have hslash : ∀ ds, pieces ('/' :: ds) = plainPiece '/' :: pieces ds := by
    intro ds
    refine pieces_cons ?_
    rcases ds with _ | ⟨a, _ | ⟨b, ds⟩⟩ <;> rfl
  induction cs using pieces.induct with
  | case1 => exact hslash ds
  | case2 c =>
    have hc : escapeByte (c :: '/' :: ds) = none := escapeByte_append_slash c [] ds
    rw [singleton_append, pieces_cons hc, hslash]
    rfl
  | case3 c d =>
    have hc : escapeByte (c :: d :: '/' :: ds) = none := escapeByte_append_slash c [d] ds
    have hd : escapeByte (d :: '/' :: ds) = none := escapeByte_append_slash d [] ds
    simp only [cons_append, nil_append]
    rw [pieces_cons hc, pieces_cons hd, hslash]
    rfl
  | case4 c a b cs n h ih =>
    have h' : escapeByte (c :: a :: b :: (cs ++ '/' :: ds)) = some n := h
    simp only [cons_append]
    rw [pieces, h', pieces, h, ih, cons_append]
  | case5 c a b cs h ih =>
    have h' : escapeByte (c :: a :: b :: (cs ++ '/' :: ds)) = none := h
    simp only [cons_append] at ih ⊢
    rw [pieces_cons h', pieces_cons h, ih, cons_append]

theorem decodePieces_append_plain (st : Option Begun) (ps qs : List UrlPiece) (c : Char) :
    decodePieces st (ps ++ plainPiece c :: qs) =
      decodePieces st ps ++ c :: decodePieces none qs := by
  induction ps generalizing st with
  | nil => exact decodePieces_plain st c qs
  | cons p ps ih => cases p <;> simp [decodePieces, ih]

theorem unquoteChars_append_slash (cs ds : List Char) :
    unquoteChars (cs ++ '/' :: ds) = unquoteChars cs ++ '/' :: unquoteChars ds := by
  rw [unquoteChars, pieces_append_slash, decodePieces_append_plain, unquoteChars, unquoteChars]

end Foundation
