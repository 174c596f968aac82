import Mathlib.Data.List.Basic
import Mathlib.Data.List.TakeWhile

/-!
# Backtracking regular expressions

The part of Python's `re` that patterns for tokens use. `Regex.ends` lists where a match can end
**in the order the backtracking matcher tries the ends**; `Regex.accepts` and `Pattern.MatchAt` are
the matches without any order.
-/

namespace Foundation

open List

/-! ### Expressions -/

inductive Regex where
  | eps
  | one (p : Char → Bool)
  | opt (p : Char → Bool)
  | many (min : ℕ) (p : Char → Bool)
  | seq (a b : Regex)
  | alt (a b : Regex)

namespace Regex

def chars : List (Char → Bool) → Regex
  | [] => eps
  | p :: ps => seq (one p) (chars ps)

def literal (s : String) : Regex := chars (s.toList.map fun c x => x == c)

def anyOf : Regex → List Regex → Regex
  | a, [] => a
  | a, b :: rs => alt a (anyOf b rs)

def accepts : Regex → List Char → Prop
  | eps, cs => cs = []
  | one p, cs => ∃ c, cs = [c] ∧ p c = true
  | opt p, cs => cs = [] ∨ ∃ c, cs = [c] ∧ p c = true
  | many n p, cs => n ≤ cs.length ∧ ∀ c ∈ cs, p c = true
  | seq a b, cs => ∃ x y, cs = x ++ y ∧ a.accepts x ∧ b.accepts y
  | alt a b, cs => a.accepts cs ∨ b.accepts cs

def ends : Regex → List Char → List ℕ
  | eps, _ => [0]
  | one _, [] => []
  | one p, x :: _ => if p x then [1] else []
  | opt _, [] => [0]
  | opt p, x :: _ => if p x then [1, 0] else [0]
  | many n p, xs => (List.range' n ((xs.takeWhile p).length + 1 - n)).reverse
  | seq a b, xs => (a.ends xs).flatMap fun i => (b.ends (xs.drop i)).map (i + ·)
  | alt a b, xs => a.ends xs ++ b.ends xs

def alphabet : Regex → Char → Bool
  | eps, _ => false
  | one p, c => p c
  | opt p, c => p c
  | many _ p, c => p c
  | seq a b, c => a.alphabet c || b.alphabet c
  | alt a b, c => a.alphabet c || b.alphabet c

def nullable : Regex → Bool
  | eps => true
  | one _ => false
  | opt _ => true
  | many n _ => n == 0
  | seq a b => a.nullable && b.nullable
  | alt a b => a.nullable || b.nullable

def first : Regex → Char → Bool
  | eps, _ => false
  | one p, c => p c
  | opt p, c => p c
  | many _ p, c => p c
  | seq a b, c => a.first c || (a.nullable && b.first c)
  | alt a b, c => a.first c || b.first c

theorem first_chars_map (f : Char → Char → Bool) (cs : List Char) (c : Char) :
    (chars (cs.map f)).first c = cs.head?.any (f · c) := by
  cases cs <;> simp [chars, first, nullable]

def avoids (l : List Char) : Regex → Bool
  | eps => false
  | one p => l.all fun c => !p c
  | opt _ => false
  | many n p => n != 0 && l.all fun c => !p c
  | seq a b => a.avoids l || b.avoids l
  | alt a b => a.avoids l && b.avoids l

variable {p : Char → Bool} {xs cs : List Char} {n m : ℕ} {a : Regex}

theorem le_length_takeWhile {i : ℕ} :
    i ≤ (xs.takeWhile p).length ↔ i ≤ xs.length ∧ ∀ c ∈ xs.take i, p c = true := by
  induction xs generalizing i with
  | nil => simp
  | cons x xs ih =>
    cases i with
    | zero => simp
    | succ i =>
      by_cases hx : p x = true
      · simp [hx, ih]
      · simp [hx]

theorem mem_ends {r : Regex} :
    n ∈ r.ends xs ↔ n ≤ xs.length ∧ r.accepts (xs.take n) := by
  induction r generalizing xs n with
  | eps =>
    cases xs <;> cases n <;> simp [ends, accepts]
  | one p =>
    rcases xs with _ | ⟨x, xs⟩
    · cases n <;> simp [ends, accepts]
    · by_cases hx : p x = true <;> rcases n with _ | _ | n <;> simp [ends, accepts, hx]
      rintro hlen rfl
      simp at hlen
  | opt p =>
    rcases xs with _ | ⟨x, xs⟩
    · cases n <;> simp [ends, accepts]
    · by_cases hx : p x = true <;> rcases n with _ | _ | n <;> simp [ends, accepts, hx]
      rintro hlen rfl
      simp at hlen
  | many m p =>
    simp only [ends, accepts, mem_reverse, mem_range'_1]
    have hle : n ≤ (xs.takeWhile p).length ↔ n ≤ xs.length ∧ ∀ c ∈ xs.take n, p c = true :=
      le_length_takeWhile
    constructor
    · rintro ⟨hmin, hlt⟩
      obtain ⟨hlen, hall⟩ := hle.mp (by omega)
      exact ⟨hlen, by rw [length_take]; omega, hall⟩
    · rintro ⟨hlen, hmin, hall⟩
      have := hle.mpr ⟨hlen, hall⟩
      rw [length_take] at hmin
      omega
  | seq a b iha ihb =>
    simp only [ends, accepts, mem_flatMap, mem_map]
    constructor
    · rintro ⟨i, hi, j, hj, rfl⟩
      obtain ⟨hilen, ha⟩ := iha.mp hi
      obtain ⟨hjlen, hb⟩ := ihb.mp hj
      rw [length_drop] at hjlen
      exact ⟨by omega, _, _, take_add, ha, hb⟩
    · rintro ⟨hlen, x, y, hxy, ha, hb⟩
      have hn : x.length + y.length = n := by
        rw [← length_append, ← hxy, length_take]
        omega
      have hx : xs.take x.length = x := by
        have := congrArg (List.take x.length) hxy
        rwa [take_take, min_eq_left (by omega), take_left] at this
      have hy : (xs.drop x.length).take y.length = y := by
        have := congrArg (List.drop x.length) hxy
        rwa [drop_take, drop_left, ← hn, Nat.add_sub_cancel_left] at this
      refine ⟨x.length, iha.mpr ⟨by omega, by rwa [hx]⟩, y.length, ihb.mpr ⟨?_, by rwa [hy]⟩, hn⟩
      rw [length_drop]
      omega
  | alt a b iha ihb =>
    simp only [ends, accepts, mem_append, iha, ihb]
    tauto

theorem alphabet_of_accepts {r : Regex} (h : r.accepts cs) :
    ∀ c ∈ cs, r.alphabet c = true := by
  induction r generalizing cs with
  | eps =>
    obtain rfl := h
    simp
  | one p =>
    obtain ⟨c, rfl, hc⟩ := h
    simpa [alphabet] using hc
  | opt p =>
    rcases h with rfl | ⟨c, rfl, hc⟩
    · simp
    · simpa [alphabet] using hc
  | many n p => exact h.2
  | seq a b iha ihb =>
    obtain ⟨x, y, rfl, ha, hb⟩ := h
    intro c hc
    rcases mem_append.mp hc with hc | hc
    · simp [alphabet, iha ha c hc]
    · simp [alphabet, ihb hb c hc]
  | alt a b iha ihb =>
    intro c hc
    rcases h with h | h
    · simp [alphabet, iha h c hc]
    · simp [alphabet, ihb h c hc]

theorem exists_not_mem_of_avoids {l : List Char} {r : Regex}
    (hr : r.avoids l = true) (h : r.accepts cs) : ∃ c ∈ cs, c ∉ l := by
  have hclass : ∀ {p : Char → Bool} {c : Char}, (l.all fun c => !p c) = true → p c = true →
      c ∉ l := by
    intro p c hall hp hmem
    have := all_eq_true.mp hall c hmem
    rw [hp] at this
    cases this
  induction r generalizing cs with
  | eps | opt => cases hr
  | one p =>
    obtain ⟨c, rfl, hc⟩ := h
    exact ⟨c, mem_cons_self, hclass hr hc⟩
  | many n p =>
    rw [avoids, Bool.and_eq_true] at hr
    rcases cs with _ | ⟨c, cs⟩
    · have hn := h.1
      simp_all
    · exact ⟨c, mem_cons_self, hclass hr.2 (h.2 c mem_cons_self)⟩
  | seq a b iha ihb =>
    obtain ⟨x, y, rfl, ha, hb⟩ := h
    rw [avoids, Bool.or_eq_true] at hr
    rcases hr with hr | hr
    · obtain ⟨c, hc, hnot⟩ := iha hr ha
      exact ⟨c, mem_append_left _ hc, hnot⟩
    · obtain ⟨c, hc, hnot⟩ := ihb hr hb
      exact ⟨c, mem_append_right _ hc, hnot⟩
  | alt a b iha ihb =>
    rw [avoids, Bool.and_eq_true] at hr
    rcases h with h | h
    · exact iha hr.1 h
    · exact ihb hr.2 h

theorem nullable_of_accepts_nil {r : Regex} (h : r.accepts []) : r.nullable = true := by
  induction r with
  | eps => rfl
  | one p =>
    obtain ⟨c, hc, -⟩ := h
    cases hc
  | opt p => rfl
  | many n p => simpa [nullable] using Nat.le_zero.mp h.1
  | seq a b iha ihb =>
    obtain ⟨x, y, hxy, ha, hb⟩ := h
    obtain ⟨rfl, rfl⟩ := append_eq_nil_iff.mp hxy.symm
    simp [nullable, iha ha, ihb hb]
  | alt a b iha ihb =>
    rcases h with h | h
    · simp [nullable, iha h]
    · simp [nullable, ihb h]

theorem first_of_accepts {r : Regex} {c : Char} (h : r.accepts (c :: cs)) :
    r.first c = true := by
  induction r generalizing cs with
  | eps => cases h
  | one p =>
    obtain ⟨c, hc, hp⟩ := h
    obtain ⟨rfl, -⟩ := List.cons.inj hc
    exact hp
  | opt p =>
    obtain hc | ⟨c, hc, hp⟩ := h
    · cases hc
    · obtain ⟨rfl, -⟩ := List.cons.inj hc
      exact hp
  | many n p => exact h.2 c mem_cons_self
  | seq a b iha ihb =>
    obtain ⟨x, y, hxy, ha, hb⟩ := h
    rcases x with _ | ⟨d, x⟩
    · rw [nil_append] at hxy
      subst hxy
      simp [first, nullable_of_accepts_nil ha, ihb hb]
    · obtain ⟨rfl, -⟩ := List.cons.inj hxy
      simp [first, iha ha]
  | alt a b iha ihb =>
    rcases h with h | h
    · simp [first, iha h]
    · simp [first, ihb h]

/-! ### Greedy ends -/

theorem head_ends_many
    (h : ((many n p).ends xs).head? = some m) : m = (xs.takeWhile p).length := by
  rw [ends, List.head?_reverse, List.getLast?_eq_getElem?, length_range',
    List.getElem?_eq_some_iff] at h
  obtain ⟨hlt, rfl⟩ := h
  rw [length_range'] at hlt
  rw [getElem_range']
  omega

theorem head_ends_seq {b : Regex} (h : ((seq a b).ends xs).head? = some m) :
    ∃ i ∈ a.ends xs, ∃ j, (b.ends (xs.drop i)).head? = some j ∧ m = i + j := by
  rw [ends] at h
  generalize a.ends xs = is at h
  induction is with
  | nil => cases h
  | cons i is ih =>
    rw [flatMap_cons, List.head?_append] at h
    rcases hhead : ((b.ends (xs.drop i)).map (i + ·)).head? with _ | k
    · rw [hhead, Option.none_or] at h
      obtain ⟨i', hi', hm⟩ := ih h
      exact ⟨i', mem_cons_of_mem _ hi', hm⟩
    · rw [hhead, Option.some_or] at h
      obtain rfl := Option.some.inj h
      rw [List.head?_map, Option.map_eq_some_iff] at hhead
      obtain ⟨j, hj, rfl⟩ := hhead
      exact ⟨i, mem_cons_self, j, hj, rfl⟩

theorem head_ends_seq_of_total {b : Regex} (hb : ∀ ys, b.ends ys ≠ []) (h : ((seq a b).ends
    xs).head? = some m) : ∃ i j, (a.ends xs).head? = some i ∧ (b.ends (xs.drop i)).head? = some j ∧
    m = i + j := by
  rw [ends] at h
  generalize a.ends xs = is at h ⊢
  rcases is with _ | ⟨i, is⟩
  · cases h
  · obtain ⟨j, js, hjs⟩ := exists_cons_of_ne_nil (hb (xs.drop i))
    rw [flatMap_cons, hjs, map_cons, cons_append, List.head?_cons] at h
    exact ⟨i, j, rfl, by rw [hjs, List.head?_cons], (Option.some.inj h).symm⟩

theorem head_ends_seq_many (h : ((seq a (many n p)).ends xs).head? = some m) :
    ∃ i ∈ a.ends xs, m = i + ((xs.drop i).takeWhile p).length := by
  obtain ⟨i, hi, j, hj, rfl⟩ := head_ends_seq h
  exact ⟨i, hi, by rw [head_ends_many hj]⟩

theorem ends_star_ne_nil (p : Char → Bool) (xs : List Char) : (many 0 p).ends xs ≠ [] := by
  simp [ends]

theorem head_ends_seq_star (h : ((seq a (many 0 p)).ends xs).head? = some m) :
    ∃ i, (a.ends xs).head? = some i ∧ m = i + ((xs.drop i).takeWhile p).length := by
  obtain ⟨i, j, hi, hj, rfl⟩ := head_ends_seq_of_total (ends_star_ne_nil p) h
  exact ⟨i, hi, by rw [head_ends_many hj]⟩

theorem head_drop_takeWhile {c : Char}
    (h : (xs.drop (xs.takeWhile p).length).head? = some c) : p c = false := by
  induction xs with
  | nil => cases h
  | cons x xs ih =>
    by_cases hx : p x = true
    · rw [takeWhile_cons, if_pos hx, length_cons, drop_succ_cons] at h
      exact ih h
    · rw [takeWhile_cons, if_neg hx] at h
      obtain rfl := Option.some.inj h
      simpa using hx

end Regex

/-! ### Patterns -/

def lastChar (prev : Option Char) (cs : List Char) : Option Char := cs.getLast?.or prev

@[simp] theorem lastChar_nil (prev : Option Char) : lastChar prev [] = prev := rfl

@[simp] theorem lastChar_concat (prev : Option Char) (cs : List Char) (c : Char) :
    lastChar prev (cs ++ [c]) = some c := by
  simp [lastChar]

@[simp] theorem lastChar_append (prev : Option Char) (a b : List Char) :
    lastChar prev (a ++ b) = lastChar (lastChar prev a) b := by
  rcases b.eq_nil_or_concat with rfl | ⟨b, c, rfl⟩
  · simp
  · rw [concat_eq_append, ← append_assoc, lastChar_concat, lastChar_concat]

@[simp] theorem lastChar_cons (prev : Option Char) (c : Char) (cs : List Char) :
    lastChar prev (c :: cs) = lastChar (some c) cs :=
  lastChar_append prev [c] cs

theorem lastChar_takeWhile {p : Char → Bool} {xs : List Char} {i : ℕ} (prev : Option Char)
    (h : (xs.drop i).takeWhile p ≠ []) :
    ∃ c, lastChar prev (xs.take (i + ((xs.drop i).takeWhile p).length)) = some c ∧ p c = true := by
  have htake := (prefix_iff_eq_take.mp ( takeWhile_prefix p (l := xs.drop i))).symm
  obtain ⟨cs, c, hcs⟩ := (eq_nil_or_concat _).resolve_left h
  refine ⟨c, ?_, mem_takeWhile_imp (l := xs.drop i) (by rw [hcs]; simp)⟩
  rw [take_add, htake, hcs, concat_eq_append, ← append_assoc, lastChar_concat]

theorem lastChar_of_ne_nil {cs : List Char} (h : cs ≠ []) (prev prev' : Option Char) :
    lastChar prev cs = lastChar prev' cs := by
  obtain ⟨c, cs, rfl⟩ := exists_cons_of_ne_nil h
  rw [lastChar_cons, lastChar_cons]

def wordBoundary (w : Char → Bool) (prev next : Option Char) : Bool := prev.any w != next.any w

structure WordClass where
  isWord : Char → Bool
  ascii : ∀ c : Char, c.toNat < 128 → isWord c = (c.isAlphanum || c == '_')
  longS : isWord 'ſ' = true

def WordClass.latin : WordClass where
  isWord c := c.isAlphanum || c == '_' || c == 'ſ'
  ascii c hc := by
    have hne : (c == 'ſ') = false := by
      rw [beq_eq_false_iff_ne]
      rintro rfl
      exact absurd hc (by decide)
    rw [hne, Bool.or_false]
  longS := rfl

structure Pattern where
  startBoundary : Bool
  body : Regex
  endBoundary : Bool

namespace Pattern

variable (w : Char → Bool) (r : Pattern)

structure MatchAt (prev : Option Char) (cs : List Char) (next : Option Char) : Prop where
  accepts : r.body.accepts cs
  start : r.startBoundary = true → wordBoundary w prev (cs.head?.or next) = true
  stop : r.endBoundary = true → wordBoundary w (lastChar prev cs) next = true

def MatchIn (prev : Option Char) (cs xs : List Char) : Prop :=
  ∃ a b, xs = a ++ (cs ++ b) ∧ r.MatchAt w (lastChar prev a) cs b.head?

def Occurs (prev : Option Char) (xs : List Char) : Prop := ∃ cs, r.MatchIn w prev cs xs

def matchLength (prev : Option Char) (xs : List Char) : Option ℕ :=
  if r.startBoundary && !wordBoundary w prev xs.head? then none
  else (r.body.ends xs).find? fun n =>
    !r.endBoundary || wordBoundary w (lastChar prev (xs.take n)) (xs.drop n).head?

def search : Option Char → List Char → Bool
  | prev, [] => (r.matchLength w prev []).isSome
  | prev, x :: xs => (r.matchLength w prev (x :: xs)).isSome || search (some x) xs

def sub (repl : List Char) : ℕ → Option Char → List Char → List Char
  | _, _, [] => []
  | 0, prev, x :: xs =>
    match r.matchLength w prev (x :: xs) with
    | some (n + 1) => repl ++ sub repl n (some x) xs
    | _ => x :: sub repl 0 (some x) xs
  | skip + 1, _, x :: xs => sub repl skip (some x) xs

variable {w r}

variable {prev : Option Char} {xs : List Char}

theorem matchAt_of_matchLength {n : ℕ} (h : r.matchLength w prev xs = some n) :
    n ≤ xs.length ∧ r.MatchAt w prev (xs.take n) (xs.drop n).head? := by
  rw [matchLength] at h
  split at h
  · cases h
  · rename_i hstart
    obtain ⟨hlen, haccepts⟩ := Regex.mem_ends.mp (mem_of_find?_eq_some h)
    have hhead : (xs.take n).head?.or (xs.drop n).head? = xs.head? := by
      rw [← List.head?_append, take_append_drop]
    refine ⟨hlen, haccepts, fun hb => ?_, fun hb => ?_⟩
    · rw [hhead]
      simpa [hb] using hstart
    · simpa [hb] using List.find?_some h

theorem head_ends_of_matchLength (hr : r.endBoundary = false) {n : ℕ} (h : r.matchLength w prev xs =
    some n) : (r.body.ends xs).head? = some n := by
  rw [matchLength] at h
  split at h
  · cases h
  · simp only [hr, Bool.not_false, Bool.true_or] at h
    generalize r.body.ends xs = is at h ⊢
    rcases is with _ | ⟨m, ms⟩
    · cases h
    · simpa using h

theorem matchLength_eq_none :
    r.matchLength w prev xs = none ↔
      ∀ cs b, xs = cs ++ b → ¬ r.MatchAt w prev cs b.head? := by
  constructor
  · rintro h cs b rfl hmatch
    rw [matchLength] at h
    split at h
    · rename_i hstart
      rw [List.head?_append] at hstart
      cases hb : r.startBoundary with
      | false => simp [hb] at hstart
      | true => simp [hb, hmatch.start hb] at hstart
    · rw [List.find?_eq_none] at h
      have hmem : cs.length ∈ r.body.ends (cs ++ b) :=
        Regex.mem_ends.mpr ⟨by simp, by simpa using hmatch.accepts⟩
      have hno := h _ hmem
      rw [take_left, drop_left] at hno
      cases hb : r.endBoundary with
      | false => simp [hb] at hno
      | true => simp [hb, hmatch.stop hb] at hno
  · intro h
    rcases hlen : r.matchLength w prev xs with _ | n
    · rfl
    · exact absurd (matchAt_of_matchLength hlen).2 (h _ _ (take_append_drop n xs).symm)

theorem search_iff :
    r.search w prev xs = true ↔ r.Occurs w prev xs := by
  have hhere : ∀ {prev : Option Char} {xs : List Char},
      (r.matchLength w prev xs).isSome = true ↔
        ∃ cs b, xs = cs ++ b ∧ r.MatchAt w prev cs b.head? := by
    intro prev xs
    rw [Option.isSome_iff_ne_none, ne_eq, matchLength_eq_none]
    push Not
    rfl
  induction xs generalizing prev with
  | nil =>
    rw [search, hhere]
    constructor
    · rintro ⟨cs, b, h, hmatch⟩
      exact ⟨cs, [], b, h, hmatch⟩
    · rintro ⟨cs, a, b, h, hmatch⟩
      obtain ⟨rfl, hnil⟩ := append_eq_nil_iff.mp h.symm
      exact ⟨cs, b, hnil.symm, hmatch⟩
  | cons x xs ih =>
    rw [search, Bool.or_eq_true]
    refine (or_congr hhere ih).trans ?_
    constructor
    · rintro (⟨cs, b, h, hmatch⟩ | ⟨cs, a, b, rfl, hmatch⟩)
      · exact ⟨cs, [], b, h, hmatch⟩
      · exact ⟨cs, x :: a, b, rfl, by rwa [lastChar_cons]⟩
    · rintro ⟨cs, _ | ⟨y, a⟩, b, h, hmatch⟩
      · exact .inl ⟨cs, b, h, hmatch⟩
      · obtain ⟨rfl, rfl⟩ := List.cons.inj h
        exact .inr ⟨cs, a, b, rfl, by rwa [lastChar_cons] at hmatch⟩

variable {repl : List Char}

theorem sub_skip {n : ℕ} (h : n ≤ xs.length) :
    r.sub w repl n prev xs = r.sub w repl 0 (lastChar prev (xs.take n)) (xs.drop n) := by
  induction n generalizing prev xs with
  | zero => simp
  | succ n ih =>
    rcases xs with _ | ⟨x, xs⟩
    · cases h
    · rw [sub, ih (Nat.le_of_succ_le_succ h), take_succ_cons, lastChar_cons, drop_succ_cons]

theorem sub_of_match {n : ℕ} {x : Char} (h : r.matchLength w prev (x :: xs) = some (n + 1)) :
    r.sub w repl 0 prev (x :: xs) =
      repl ++ r.sub w repl 0 (lastChar (some x) (xs.take n)) (xs.drop n) := by
  have hlen : n ≤ xs.length := by
    have := (matchAt_of_matchLength h).1
    rw [length_cons] at this
    omega
  rw [← sub_skip hlen, sub, h]

theorem sub_of_no_match {x : Char} (h : ∀ n, r.matchLength w prev (x :: xs) ≠ some (n + 1)) :
    r.sub w repl 0 prev (x :: xs) = x :: r.sub w repl 0 (some x) xs := by
  rw [sub]
  split
  · exact absurd ‹_› (h _)
  · rfl

theorem sub_of_not_occurs (h : ¬ r.Occurs w prev xs) :
    r.sub w repl 0 prev xs = xs := by
  rw [← search_iff] at h
  induction xs generalizing prev with
  | nil => rfl
  | cons x xs ih =>
    rw [search, Bool.or_eq_true, not_or] at h
    rw [sub_of_no_match (fun n hn => h.1 (by rw [hn]; rfl)), ih h.2]

end Pattern

end Foundation
