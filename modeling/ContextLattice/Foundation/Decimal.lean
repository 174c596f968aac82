import Mathlib.Data.List.DropRight
import Mathlib.Data.Rat.Floor
import ContextLattice.Foundation.Calendar

/-!
# Decimals

A number is rounded to a number of places, half to even, and written with a point; zeros at the end
are left out but for one.
-/

namespace Foundation

open List

def roundHalfEven (x : ℚ) : ℤ :=
  if x - ⌊x⌋ < 1 / 2 ∨ x - ⌊x⌋ = 1 / 2 ∧ ⌊x⌋ % 2 = 0 then ⌊x⌋ else ⌊x⌋ + 1

def roundTo (places : ℕ) (x : ℚ) : ℚ := roundHalfEven (x * 10 ^ places) / 10 ^ places

theorem roundHalfEven_intCast (n : ℤ) : roundHalfEven n = n := by
  simp [roundHalfEven]

variable {x y : ℚ}

theorem roundHalfEven_mono (h : x ≤ y) : roundHalfEven x ≤ roundHalfEven y := by
  have hle : ∀ z : ℚ, ⌊z⌋ ≤ roundHalfEven z ∧ roundHalfEven z ≤ ⌊z⌋ + 1 := by
    intro z
    rw [roundHalfEven]
    split <;> omega
  rcases (Int.floor_le_floor h).lt_or_eq with hlt | heq
  · exact (hle x).2.trans ((Int.add_one_le_iff.mpr hlt).trans (hle y).1)
  · rw [roundHalfEven, roundHalfEven, ← heq]
    split_ifs with hx hy hy
    · exact le_rfl
    · omega
    · -- a number below one that is rounded down is rounded down
      refine absurd ?_ hx
      rcases hy with hy | ⟨hy, heven⟩
      · exact .inl (by linarith)
      · rcases (sub_le_sub_right h _).trans_eq hy |>.lt_or_eq with hlt | hhalf
        · exact .inl hlt
        · exact .inr ⟨hhalf, heven⟩
    · exact le_rfl

theorem roundTo_mono (places : ℕ) (h : x ≤ y) : roundTo places x ≤ roundTo places y := by
  rw [roundTo, roundTo]
  gcongr
  exact_mod_cast roundHalfEven_mono (mul_le_mul_of_nonneg_right h (by positivity))

theorem roundTo_roundTo (places : ℕ) (x : ℚ) :
    roundTo places (roundTo places x) = roundTo places x := by
  have hne : (10 : ℚ) ^ places ≠ 0 := by positivity
  rw [roundTo, roundTo, div_mul_cancel₀ _ hne, roundHalfEven_intCast]

def trimZeros (l : List Char) : List Char := l.take 1 ++ (l.drop 1).rdropWhile (· = '0')

def decimalText (places n : ℕ) : List Char :=
  Nat.toDigits 10 (n / 10 ^ places) ++ '.' :: trimZeros (padded places (n % 10 ^ places))

theorem length_padded (width n : ℕ) : (padded width n).length = width := by
  induction width generalizing n with
  | zero => rfl
  | succ width ih => simp [padded, ih]

theorem padded_inj {width m n : ℕ} (hm : m < 10 ^ width) (hn : n < 10 ^ width)
    (h : padded width m = padded width n) : m = n := by
  have hlt := padded_lt_iff hm hn [] []
  have hgt := padded_lt_iff hn hm [] []
  simp only [h, lt_self_iff_false, and_false, or_false, false_iff, not_lt] at hlt hgt
  exact le_antisymm hgt hlt

variable {c : Char}

theorem isDigit_of_mem_padded {width n : ℕ} (h : c ∈ padded width n) : c.isDigit = true := by
  induction width generalizing n with
  | zero => cases h
  | succ width ih =>
    rw [padded, mem_append, mem_singleton] at h
    rcases h with h | rfl
    · exact ih h
    · have hall : ∀ d < 10, (digitChar d).isDigit = true := by decide
      exact hall _ (Nat.mod_lt _ (by decide))

theorem rdropWhile_inj {α : Type*} [DecidableEq α] {a : α} {l l' : List α}
    (hlength : l.length = l'.length)
    (h : l.rdropWhile (· = a) = l'.rdropWhile (· = a)) : l = l' := by
  have hsplit : ∀ k : List α, k = k.rdropWhile (· = a) ++
      List.replicate (k.length - (k.rdropWhile (· = a)).length) a := by
    intro k
    have hrest : k.rtakeWhile (· = a) = List.replicate (k.rtakeWhile (· = a)).length a :=
      eq_replicate_of_mem fun x hx => by simpa using mem_rtakeWhile_imp hx
    have hk : k.rdropWhile (· = a) ++ k.rtakeWhile (· = a) = k :=
      rdropWhile_append_rtakeWhile
    have hlen : k.length - (k.rdropWhile (· = a)).length = (k.rtakeWhile (· = a)).length := by
      rw [← congrArg List.length hk, length_append, Nat.add_sub_cancel_left]
    rw [hlen, ← hrest, hk]
  rw [hsplit l, hsplit l', h, hlength]

theorem trimZeros_inj {l l' : List Char} (hlength : l.length = l'.length)
    (h : trimZeros l = trimZeros l') : l = l' := by
  obtain ⟨hfirst, hrest⟩ := append_inj h (by simp [hlength])
  rw [← take_append_drop 1 l, ← take_append_drop 1 l', hfirst,
    rdropWhile_inj (by simp [hlength]) hrest]

variable {places n : ℕ}

theorem isDigit_of_mem_trimZeros (h : c ∈ trimZeros (padded places n)) : c.isDigit = true := by
  rw [trimZeros, mem_append] at h
  rcases h with h | h
  · exact isDigit_of_mem_padded (mem_of_mem_take h)
  · exact isDigit_of_mem_padded (mem_of_mem_drop (( rdropWhile_prefix _ _).subset h))

theorem mem_decimalText (h : c ∈ decimalText places n) : c = '.' ∨ c.isDigit = true := by
  rw [decimalText, mem_append, mem_cons] at h
  rcases h with h | rfl | h
  · exact Or.inr (Nat.isDigit_of_mem_toDigits (by decide) (by decide) h)
  · exact Or.inl rfl
  · exact Or.inr (isDigit_of_mem_trimZeros h)

theorem decimalText_inj {places m n : ℕ} : decimalText places m = decimalText places n ↔ m = n := by
  refine ⟨fun h => ?_, fun h => by rw [h]⟩
  have hpoint : ∀ {l : List Char}, (∀ c ∈ l, c.isDigit = true) → '.' ∉ l :=
    fun hl hmem => absurd (hl '.' hmem) (by decide)
  obtain ⟨hwhole, -, hfraction⟩ := (append_cons_inj_of_notMem
    (hpoint fun c hc => Nat.isDigit_of_mem_toDigits (by decide) (by decide) hc)
    (hpoint fun c hc => isDigit_of_mem_trimZeros hc)).mp h
  have hdiv : m / 10 ^ places = n / 10 ^ places := by
    have hread := congrArg (fun digits => Nat.ofDigitChars 10 digits 0) hwhole
    simpa using hread
  have hpos : 0 < 10 ^ places := Nat.pow_pos (by decide)
  have hmod : m % 10 ^ places = n % 10 ^ places :=
    padded_inj (Nat.mod_lt _ hpos) (Nat.mod_lt _ hpos)
      (trimZeros_inj (by rw [length_padded, length_padded]) hfraction)
  rw [← Nat.div_add_mod m (10 ^ places), hdiv, hmod, Nat.div_add_mod]

example : decimalText 4 8800 = ['0', '.', '8', '8'] ∧ decimalText 4 10000 = ['1', '.', '0'] := by
  decide

end Foundation
