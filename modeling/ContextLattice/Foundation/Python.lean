import Mathlib.Data.List.DropRight
import Mathlib.Data.String.Basic
import ContextLattice.Foundation.Calendar
import ContextLattice.Foundation.Table

/-!
# Python values: text and JSON

Python's texts and JSON values. `str.lower()`, the `str()` of a value and the readers of dates and
URLs are functions of a structure `Python`, with the laws the development relies on.
-/

namespace Foundation

open List

/-! ### Text -/

def isSpace (c : Char) : Bool :=
  let n := c.toNat
  (9 ≤ n && n ≤ 13) || (28 ≤ n && n ≤ 32) || n == 0x85 || n == 0xA0 || n == 0x1680 ||
    (0x2000 ≤ n && n ≤ 0x200A) || n == 0x2028 || n == 0x2029 || n == 0x202F ||
    n == 0x205F || n == 0x3000

def stripList (p : Char → Bool) (l : List Char) : List Char := (l.dropWhile p).rdropWhile p

def strip (s : String) : String := String.ofList (stripList isSpace s.toList)

theorem stripList_stripList (p : Char → Bool) (l : List Char) :
    stripList p (stripList p l) = stripList p l := by
  have hfront : (stripList p l).dropWhile p = stripList p l := by
    rw [dropWhile_eq_self_iff]
    intro hlen
    -- the first character kept is the first one that survives on the left
    have hpre : stripList p l <+: l.dropWhile p := rdropWhile_prefix p _
    have hlen' : 0 < (l.dropWhile p).length := hlen.trans_le hpre.length_le
    rw [hpre.getElem hlen]
    exact dropWhile_get_zero_not p l hlen'
  rw [stripList, hfront, stripList, rdropWhile_idempotent]

def truncate (n : ℕ) (s : String) : String := String.ofList (s.toList.take n)

@[simp] theorem strip_strip (s : String) : strip (strip s) = strip s := by
  simp [strip, stripList_stripList]

theorem stripList_eq_self_iff {p : Char → Bool} {l : List Char} :
    stripList p l = l ↔ l.dropWhile p = l ∧ l.rdropWhile p = l := by
  constructor
  · intro h
    have hfront : l.dropWhile p = l := by
      refine (dropWhile_suffix p).eq_of_length_le ?_
      calc l.length = (stripList p l).length := by rw [h]
        _ ≤ (l.dropWhile p).length := ( rdropWhile_prefix p _).length_le
    refine ⟨hfront, ?_⟩
    rwa [stripList, hfront] at h
  · rintro ⟨hfront, hback⟩
    rw [stripList, hfront, hback]

theorem stripList_concat {p : Char → Bool} {c : Char} (hc : p c = true) (l : List Char) :
    stripList p (l ++ [c]) = stripList p l := by
  rw [stripList, stripList, dropWhile_append]
  split
  · rename_i h
    rw [isEmpty_iff.mp h]
    simp [hc]
  · exact rdropWhile_concat_pos p _ c hc

theorem stripList_stripList_of_imp {p q : Char → Bool} (hqp : ∀ c, q c = true → p c = true)
    (l : List Char) : stripList p (stripList q l) = stripList p l := by
  have hfront : stripList p (l.dropWhile q) = stripList p l := by
    have hdrop : (l.dropWhile q).dropWhile p = l.dropWhile p := by
      conv_rhs => rw [← takeWhile_append_dropWhile (p := q) (l := l)]
      rw [dropWhile_append_of_pos fun c hc => hqp c (mem_takeWhile_imp hc)]
    rw [stripList, hdrop, stripList]
  have hback : ∀ m : List Char, stripList p (m.rdropWhile q) = stripList p m := by
    intro m
    induction m using List.reverseRecOn with
    | nil => rfl
    | append_singleton m c ih =>
      rw [rdropWhile_concat]
      split
      · rename_i hc
        rw [ih, stripList_concat (hqp c hc)]
      · rfl
  calc stripList p (stripList q l) = stripList p (l.dropWhile q) := hback _
    _ = stripList p l := hfront

theorem strip_eq_self_iff {s : String} :
    strip s = s ↔ stripList isSpace s.toList = s.toList := by
  rw [strip, ← String.toList_inj, String.toList_ofList]

theorem strip_of_not_isSpace {s : String} (h : ∀ c ∈ s.toList, isSpace c = false) :
    strip s = s := by
  rw [strip_eq_self_iff, stripList_eq_self_iff, dropWhile_eq_self_iff, rdropWhile_eq_self_iff]
  constructor
  · intro hlen
    rw [h _ (getElem_mem hlen)]
    exact Bool.false_ne_true
  · intro hne
    rw [h _ (getLast_mem hne)]
    exact Bool.false_ne_true

theorem strip_append {a b : String} (m : String) (ha : strip a = a) (hb : strip b = b)
    (hane : a ≠ "") (hbne : b ≠ "") : strip (a ++ m ++ b) = a ++ m ++ b := by
  obtain ⟨hfront, -⟩ := stripList_eq_self_iff.mp (strip_eq_self_iff.mp ha)
  obtain ⟨-, hback⟩ := stripList_eq_self_iff.mp (strip_eq_self_iff.mp hb)
  rw [strip_eq_self_iff, stripList_eq_self_iff, String.toList_append, String.toList_append]
  constructor
  · rw [append_assoc, dropWhile_append, hfront, if_neg]
    simpa using hane
  · have hlast : b.toList ≠ [] := fun h => hbne (String.toList_eq_nil_iff.mp h)
    rw [rdropWhile_eq_self_iff] at hback ⊢
    intro _
    rw [getLast_append_right hlast]
    exact hback hlast

theorem append_cons_inj {α : Type*} {c : α} {a b n m : List α} (h : a ++ c :: n = b ++ c :: m)
    (hn : c ∉ n) (hm : c ∉ m) : a = b ∧ n = m := by
  induction a generalizing b with
  | nil =>
    cases b with
    | nil => exact ⟨rfl, (List.cons.inj h).2⟩
    | cons y b =>
      obtain ⟨-, rfl⟩ := List.cons.inj h
      simp at hn
  | cons x a ih =>
    cases b with
    | nil =>
      obtain ⟨-, rfl⟩ := List.cons.inj h
      simp at hm
    | cons y b =>
      obtain ⟨rfl, htail⟩ := List.cons.inj h
      obtain ⟨rfl, rfl⟩ := ih htail
      exact ⟨rfl, rfl⟩

/-! ### JSON -/

inductive Json where
  | null
  | bool (b : Bool)
  | int (n : ℤ)
  | float (repr : String)
  | str (s : String)
  | arr (items : List Json)
  | obj (members : List (String × Json))

namespace Json

def truthy : Json → Bool
  | null => false
  | bool b => b
  | int n => n != 0
  | float r => r != "0.0" && r != "-0.0"
  | str s => s != ""
  | arr items => !items.isEmpty
  | obj members => !members.isEmpty

def member (members : List (String × Json)) (k : String) : Option Json :=
  (members.find? fun p => decide (p.1 = k)).map Prod.snd

def orElse (x y : Option Json) : Option Json := if x.any truthy then x else y

mutual

def texts : Json → List String
  | str s => [s]
  | arr items => textsOfItems items
  | obj members => textsOfMembers members
  | null | bool _ | int _ | float _ => []

def textsOfItems : List Json → List String
  | [] => []
  | v :: vs => v.texts ++ textsOfItems vs

def textsOfMembers : List (String × Json) → List String
  | [] => []
  | (k, v) :: ms => k :: (v.texts ++ textsOfMembers ms)

end

mutual

/-- The number of values and of characters in texts. -/
def size : Json → ℕ
  | str s => s.length + 1
  | arr items => sizeOfItems items + 1
  | obj members => sizeOfMembers members + 1
  | null | bool _ | int _ | float _ => 1

def sizeOfItems : List Json → ℕ
  | [] => 0
  | v :: vs => v.size + sizeOfItems vs

def sizeOfMembers : List (String × Json) → ℕ
  | [] => 0
  | (_, v) :: ms => v.size + sizeOfMembers ms

end

variable {v : Json}

theorem size_pos (v : Json) : 0 < v.size := by
  cases v <;> simp [size]

theorem size_le_of_mem {items : List Json} (h : v ∈ items) : v.size ≤ sizeOfItems items := by
  induction items with
  | nil => cases h
  | cons w items ih =>
    rcases mem_cons.mp h with rfl | h
    · exact Nat.le_add_right ..
    · exact (ih h).trans (Nat.le_add_left ..)

theorem size_le_of_member {members : List (String × Json)} {key : String}
    (h : member members key = some v) : v.size ≤ sizeOfMembers members := by
  induction members with
  | nil => cases h
  | cons m members ih =>
    by_cases hkey : m.1 = key
    · simp only [member, find?_cons, hkey, decide_true, Option.map_some] at h
      cases h
      exact Nat.le_add_right ..
    · simp only [member, find?_cons, hkey, decide_false] at h
      exact (ih h).trans (Nat.le_add_left ..)

end Json

/-! ### The interpreter -/

structure Python where
  lower : String → String
  lower_lower : ∀ s, lower (lower s) = lower s
  strip_lower : ∀ s, strip (lower s) = lower (strip s)
  upper : String → String
  print : Json → String
  isdigit : String → Bool
  decimal : Char → Option ℕ
  decimal_ascii : ∀ c, c.isDigit = true → decimal c = some (c.toNat - '0'.toNat)
  /-- `datetime.fromisoformat(s)`: the fields, and the microseconds the local time is ahead of UTC
  if the text gives an offset; `none` if it raises. -/
  fromisoformat : String → Option (DateTime × Option ℤ)
  urlparse : String → Option (String × Option String)

namespace Python

def str (py : Python) : Json → String
  | .str s => s
  | v => py.print v

def stripLower (py : Python) (s : String) : String := py.lower (strip s)

@[simp] theorem stripLower_stripLower (py : Python) (s : String) :
    py.stripLower (py.stripLower s) = py.stripLower s := by
  rw [stripLower, stripLower, py.strip_lower, strip_strip, py.lower_lower]

/-- The number a run of `\d` stands for. -/
def number (py : Python) (digits : List Char) : Option ℕ :=
  (digits.mapM py.decimal).map fun ds => ds.foldl (fun n d => 10 * n + d) 0

def wholeNumber (py : Python) (s : String) : Option ℕ := py.number s.toList

theorem number_toDigits (py : Python) (n : ℕ) : py.number (Nat.toDigits 10 n) = some n := by
  have hread : ∀ digits : List Char, (∀ c ∈ digits, c.isDigit = true) →
      digits.mapM py.decimal = some (digits.map fun c => c.toNat - '0'.toNat) := by
    intro digits h
    induction digits with
    | nil => rfl
    | cons c digits ih =>
      rw [forall_mem_cons] at h
      simp [py.decimal_ascii c h.1, ih h.2]
  rw [number, hread _ fun c hc => Nat.isDigit_of_mem_toDigits (by decide) (by decide) hc,
    Option.map_some, foldl_map]
  exact congrArg some Nat.ofDigitChars_ten_toDigits

def LowersAscii (py : Python) : Prop :=
  ∀ s : String, (∀ c ∈ s.toList, c.toNat < 128) →
    py.lower s = String.ofList (s.toList.map Char.toLower)

/-! ### An ASCII interpreter -/

theorem toNat_toLower (c : Char) :
    c.toLower.toNat = if 65 ≤ c.toNat ∧ c.toNat ≤ 90 then c.toNat + 32 else c.toNat := by
  have hiff : (c.val ≥ 'A'.val ∧ c.val ≤ 'Z'.val) ↔ 65 ≤ c.toNat ∧ c.toNat ≤ 90 := by
    simp only [ge_iff_le, UInt32.le_iff_toNat_le]
    exact Iff.rfl
  delta Char.toLower
  split
  · rename_i h
    have hle : c.toNat ≤ 90 := (hiff.mp h).2
    rw [if_pos (hiff.mp h)]
    change (c.val + ('a'.val - 'A'.val)).toNat = c.toNat + 32
    rw [UInt32.toNat_add]
    change (c.toNat + 32) % 2 ^ 32 = c.toNat + 32
    omega
  · rename_i h
    rw [if_neg fun h' => h (hiff.mpr h')]

theorem isSpace_toLower (c : Char) : isSpace c.toLower = isSpace c := by
  simp only [isSpace, toNat_toLower]
  split
  · rename_i h
    have hfalse : ∀ n : ℕ, 65 ≤ n ∧ n ≤ 122 → ((9 ≤ n && n ≤ 13) || (28 ≤ n && n ≤ 32) ||
        n == 0x85 || n == 0xA0 || n == 0x1680 || (0x2000 ≤ n && n ≤ 0x200A) || n == 0x2028 ||
        n == 0x2029 || n == 0x202F || n == 0x205F || n == 0x3000) = false := by
      intro n hn
      simp only [Bool.or_eq_false_iff, Bool.and_eq_false_iff, decide_eq_false_iff_not,
        beq_eq_false_iff_ne]
      omega
    rw [hfalse _ (by omega), hfalse _ (by omega)]
  · rfl

private theorem toLower_toLower (c : Char) : c.toLower.toLower = c.toLower := by
  refine Char.toNat_inj.mp ?_
  rw [toNat_toLower, if_neg]
  rw [toNat_toLower]
  split <;> omega

private theorem stripList_map (f : Char → Char) {p : Char → Bool} (hp : ∀ c, p (f c) = p c)
    (l : List Char) : stripList p (l.map f) = (stripList p l).map f := by
  have hcomp : p ∘ f = p := funext hp
  simp [stripList, List.rdropWhile, dropWhile_map, ← map_reverse, hcomp]

def ascii : Python where
  lower s := String.ofList (s.toList.map Char.toLower)
  lower_lower s := by
    have hcomp : Char.toLower ∘ Char.toLower = Char.toLower := funext toLower_toLower
    rw [String.toList_ofList, map_map, hcomp]
  strip_lower s := by simp [strip, stripList_map _ isSpace_toLower]
  upper s := String.ofList (s.toList.map Char.toUpper)
  isdigit s := !s.toList.isEmpty && s.toList.all Char.isDigit
  decimal c := if c.isDigit then some (c.toNat - 48) else none
  decimal_ascii c hc := if_pos hc
  fromisoformat _ := none
  urlparse _ := none
  print
    | .null => "None"
    | .bool b => if b then "True" else "False"
    | .int n => toString n
    | .float r => r
    | _ => ""

theorem lowersAscii_ascii : ascii.LowersAscii := fun _ _ => rfl

end Python

end Foundation
