import ContextLattice.Foundation.Regex

/-!
# Numbers in a text

Numbers are read by the pattern `(?<![A-Za-z0-9_])[-+]?\$?\d[\d,]*(?:\.\d+)?%?`, for the rollup
index without `\$?`. A match is never a piece of a longer number, but may take the comma that ends a
clause.
-/

namespace ContextLattice

open Foundation List

structure DigitClass where
  isDigit : Char → Bool
  ascii : ∀ c : Char, c.toNat < 128 → isDigit c = c.isDigit

def DigitClass.latin : DigitClass := ⟨Char.isDigit, fun _ _ => rfl⟩

/-! ### The pattern -/

variable (d : DigitClass) (dollar : Bool)

def numberSign : Regex :=
  let sign := Regex.opt fun c => c == '-' || c == '+'
  if dollar then .seq sign (.opt (· == '$')) else sign

def digitOrComma (c : Char) : Bool := d.isDigit c || c == ','

def numberFraction : Regex := .alt (.seq (.one (· == '.')) (.many 1 d.isDigit)) .eps

def numberTail : Regex := .seq (numberFraction d) (.opt (· == '%'))

def numberRegex : Regex :=
  .seq (numberSign dollar)
    (.seq (.one d.isDigit) (.seq (.many 0 (digitOrComma d)) (numberTail d)))

def asciiWord (c : Char) : Bool := c.isAlphanum || c == '_'

def numberAt (prev : Option Char) (xs : List Char) : Option ℕ :=
  if prev.any asciiWord then none else ((numberRegex d dollar).ends xs).head?

structure NumberMatch where
  start : ℕ
  token : List Char
deriving DecidableEq

def numberMatches : ℕ → ℕ → Option Char → List Char → List NumberMatch
  | _, _, _, [] => []
  | skip + 1, pos, _, x :: xs => numberMatches skip (pos + 1) (some x) xs
  | 0, pos, prev, x :: xs =>
    match numberAt d dollar prev (x :: xs) with
    | some (n + 1) => ⟨pos, (x :: xs).take (n + 1)⟩ :: numberMatches n (pos + 1) (some x) xs
    | _ => numberMatches 0 (pos + 1) (some x) xs

def continues (v b : List Char) : Bool :=
  v.getLast? != some '%' &&
    (b.head?.any (fun c => d.isDigit c || c == '%') ||
      (!v.contains '.' && (b.head?.any fun c => c == '.' || c == ',') &&
        b.tail.head?.any d.isDigit))

/-! ### What is matched -/

variable {d : DigitClass} {dollar : Bool}

variable {prev : Option Char} {xs : List Char} {n : ℕ}

theorem mem_numberMatches {skip pos : ℕ} {m : NumberMatch}
    (h : m ∈ numberMatches d dollar skip pos prev xs) :
    ∃ k n, m.start = pos + k ∧ numberAt d dollar (lastChar prev (xs.take k)) (xs.drop k) = some n ∧
      m.token = (xs.drop k).take n := by
  induction xs generalizing skip pos prev with
  | nil => cases skip <;> cases h
  | cons x xs ih =>
    have hlater : ∀ {skip : ℕ}, m ∈ numberMatches d dollar skip (pos + 1) (some x) xs →
        ∃ k n, m.start = pos + k ∧
          numberAt d dollar (lastChar prev ((x :: xs).take k)) ((x :: xs).drop k) = some n ∧
          m.token = ((x :: xs).drop k).take n := by
      intro skip hmem
      obtain ⟨k, n, hstart, hat, htoken⟩ := ih hmem
      refine ⟨k + 1, n, by omega, ?_, ?_⟩
      · rwa [take_succ_cons, lastChar_cons, drop_succ_cons]
      · rwa [drop_succ_cons]
    cases skip with
    | succ skip => exact hlater h
    | zero =>
      rw [numberMatches] at h
      split at h
      · rename_i n hat
        rcases mem_cons.mp h with rfl | h
        · exact ⟨0, n + 1, rfl, by simpa using hat, rfl⟩
        · exact hlater h
      · exact hlater h

variable (d) in
theorem isDigit_point : d.isDigit '.' = false := d.ascii '.' (by decide)

theorem head_ends_numberTail {ys : List Char} {t : ℕ}
    (h : ((numberTail d).ends ys).head? = some t) :
    ∃ f p, t = f + p ∧ ((numberFraction d).ends ys).head? = some f ∧
      ((p = 1 ∧ (ys.drop f).head? = some '%') ∨ (p = 0 ∧ (ys.drop f).head? ≠ some '%')) := by
  have htotal : ∀ zs, (Regex.opt (· == '%')).ends zs ≠ [] := by
    intro zs
    rcases zs with _ | ⟨z, zs⟩
    · simp [Regex.ends]
    · by_cases hz : (z == '%') = true <;> simp [Regex.ends, hz]
  obtain ⟨f, p, hf, hp, rfl⟩ := Regex.head_ends_seq_of_total htotal h
  refine ⟨f, p, rfl, hf, ?_⟩
  rcases hdrop : ys.drop f with _ | ⟨z, zs⟩
  · simp_all [Regex.ends]
  · by_cases hz : z = '%' <;> simp_all [Regex.ends]

theorem head_ends_numberFraction {ys : List Char} {f : ℕ}
    (h : ((numberFraction d).ends ys).head? = some f) :
    (∃ zs, ys = '.' :: zs ∧ f = 1 + (zs.takeWhile d.isDigit).length ∧
        zs.takeWhile d.isDigit ≠ []) ∨
      (f = 0 ∧ ∀ zs, ys = '.' :: zs → zs.head?.any d.isDigit = false) := by
  have hends : ∀ y zs, (Regex.seq (.one (· == '.')) (.many 1 d.isDigit)).ends (y :: zs) =
      if y = '.' then ((Regex.many 1 d.isDigit).ends zs).map (1 + ·) else [] := by
    intro y zs
    by_cases hy : y = '.' <;> simp [Regex.ends, hy]
  rw [numberFraction, Regex.ends, List.head?_append] at h
  rcases ys with _ | ⟨y, zs⟩
  · exact .inr ⟨by simpa [Regex.ends] using h.symm, fun zs hzs => by cases hzs⟩
  rw [hends] at h
  by_cases hy : y = '.'
  · rw [if_pos hy, List.head?_map] at h
    rcases hdigits : ((Regex.many 1 d.isDigit).ends zs).head? with _ | n
    · -- no digit follows the point
      rw [hdigits] at h
      refine .inr ⟨by simpa [Regex.ends] using h.symm, ?_⟩
      intro zs' hzs
      obtain rfl := (List.cons.inj hzs).2
      rcases zs with _ | ⟨z, zs⟩
      · rfl
      · by_cases hz : d.isDigit z = true
        · simp [Regex.ends, hz] at hdigits
        · simpa using hz
    · rw [hdigits] at h
      refine .inl ⟨zs, by rw [hy], ?_, ?_⟩
      · rw [← Regex.head_ends_many hdigits]
        simpa using h.symm
      · intro hempty
        have hmem := mem_of_mem_head? hdigits
        simp [Regex.ends, hempty] at hmem
  · rw [if_neg hy] at h
    refine .inr ⟨by simpa [Regex.ends] using h.symm, fun zs' hzs => ?_⟩
    exact absurd (List.cons.inj hzs).1 hy

section

variable (h : numberAt d dollar prev xs = some n)

include h

theorem accepts_of_numberAt : n ≤ xs.length ∧ (numberRegex d dollar).accepts (xs.take n) := by
  rw [numberAt] at h
  split at h
  · cases h
  · exact Regex.mem_ends.mp (mem_of_mem_head? h)

theorem blank_not_mem_of_numberAt : ' ' ∉ xs.take n := by
  intro hmem
  have hblank : d.isDigit ' ' = false := d.ascii ' ' (by decide)
  have halphabet := Regex.alphabet_of_accepts (accepts_of_numberAt h).2 ' ' hmem
  cases dollar <;>
    simp [numberRegex, numberSign, numberTail, numberFraction, digitOrComma, Regex.alphabet,
      hblank] at halphabet

theorem numberAt_shape :
    ∃ lead c run ys t, xs = lead ++ c :: (run ++ ys) ∧ d.isDigit c = true ∧
      (∀ x ∈ run, digitOrComma d x = true) ∧ ys.head?.any (digitOrComma d) = false ∧
      ((numberTail d).ends ys).head? = some t ∧ n = lead.length + (1 + (run.length + t)) := by
  rw [numberAt] at h
  split at h
  · cases h
  obtain ⟨i, hi, j, hj, rfl⟩ := Regex.head_ends_seq h
  obtain ⟨hilen, -⟩ := Regex.mem_ends.mp hi
  obtain ⟨k, hk, l, hl, rfl⟩ := Regex.head_ends_seq hj
  obtain ⟨hklen, c, hkc, hc⟩ := Regex.mem_ends.mp hk
  have htotal : ∀ zs, (numberTail d).ends zs ≠ [] := by
    intro zs
    have hzero : 0 ∈ (numberTail d).ends zs :=
      Regex.mem_ends.mpr ⟨Nat.zero_le _, [], [], rfl, .inr rfl, .inl rfl⟩
    exact ne_nil_of_mem hzero
  obtain ⟨r, t, hr, ht, rfl⟩ := Regex.head_ends_seq_of_total htotal hl
  obtain rfl := Regex.head_ends_many hr
  -- the digit is the first character behind the sign
  obtain ⟨cs, hcs⟩ : ∃ cs, xs.drop i = c :: cs := by
    rcases hdrop : xs.drop i with _ | ⟨x, cs⟩
    · rw [hdrop, take_nil] at hkc
      cases hkc
    · rw [hdrop] at hkc
      rcases k with _ | k
      · cases hkc
      · exact ⟨cs, by rw [(List.cons.inj hkc).1]⟩
  have hk1 : k = 1 := by
    have hlen := congrArg List.length hkc
    rw [length_take, length_singleton] at hlen
    omega
  subst hk1
  rw [hcs, drop_succ_cons, drop_zero] at hr ht ⊢
  refine ⟨xs.take i, c, cs.takeWhile (digitOrComma d),
    cs.drop (cs.takeWhile (digitOrComma d)).length, t, ?_, hc, ?_, ?_, ht, ?_⟩
  · have hsplit : cs.takeWhile (digitOrComma d) ++
        cs.drop (cs.takeWhile (digitOrComma d)).length = cs := by
      conv_rhs => rw [← take_append_drop (cs.takeWhile (digitOrComma d)).length cs]
      rw [← prefix_iff_eq_take.mp ( takeWhile_prefix _)]
    rw [hsplit, ← hcs, take_append_drop]
  · intro x hx
    exact mem_takeWhile_imp hx
  · rcases hhead : (cs.drop (cs.takeWhile (digitOrComma d)).length).head? with _ | x
    · rfl
    · exact Regex.head_drop_takeWhile hhead
  · rw [length_take_of_le hilen]

end

structure EndsHere (d : DigitClass) (v b : List Char) : Prop where
  nonempty : v ≠ []
  last : v.getLast? ≠ some '.'
  stops : continues d v b = false

theorem continues_eq_false {v b : List Char}
    (hhead : b.head?.any (fun c => d.isDigit c || c == '%') = false)
    (hnext : '.' ∈ v ∨
      (b.head?.any (fun c => c == '.' || c == ',') && b.tail.head?.any d.isDigit) = false) :
    continues d v b = false := by
  rw [continues, hhead]
  rcases hnext with hpoint | hnext
  · simp [hpoint]
  · rw [Bool.and_assoc, hnext]
    simp

theorem endsHere_of_numberAt
    (h : numberAt d dollar prev xs = some n) : EndsHere d (xs.take n) (xs.drop n) := by
  obtain ⟨lead, c, run, ys, t, rfl, hc, hrun, hys, ht, rfl⟩ := numberAt_shape h
  obtain ⟨f, p, rfl, hf, hp⟩ := head_ends_numberTail ht
  have hxs : lead ++ c :: (run ++ ys) = (lead ++ c :: run) ++ ys := by simp
  have hn : lead.length + (1 + (run.length + (f + p))) = (lead ++ c :: run).length + (f + p) := by
    simp only [length_append, length_cons]
    omega
  rw [hxs, hn, take_length_add_append, drop_length_add_append]
  have hne : ∀ u : List Char, (lead ++ c :: run) ++ u ≠ [] := by simp
  rcases hp with ⟨rfl, hpercent⟩ | ⟨rfl, hpercent⟩
  · -- a percent sign ends every number
    have hsplit : ys.take (f + 1) = ys.take f ++ ['%'] := by
      obtain ⟨zs, hzs⟩ := List.head?_eq_some_iff.mp hpercent
      rw [take_add, hzs, take_succ_cons, take_zero]
    have hlast : ((lead ++ c :: run) ++ ys.take (f + 1)).getLast? = some '%' := by
      rw [hsplit, ← append_assoc, List.getLast?_concat]
    exact ⟨hne _, by rw [hlast]; decide, by rw [continues, hlast]; rfl⟩
  rw [Nat.add_zero]
  rcases head_ends_numberFraction hf with ⟨zs, rfl, rfl, hdigits⟩ | ⟨rfl, hpoint⟩
  · -- the fraction has all its digits
    have htake : ('.' :: zs).take (1 + (zs.takeWhile d.isDigit).length) =
        '.' :: zs.takeWhile d.isDigit := by
      rw [Nat.add_comm, take_succ_cons, ← prefix_iff_eq_take.mp ( takeWhile_prefix _)]
    have hdrop : ('.' :: zs).drop (1 + (zs.takeWhile d.isDigit).length) =
        zs.drop (zs.takeWhile d.isDigit).length := by
      rw [Nat.add_comm, drop_succ_cons]
    rw [hdrop] at hpercent
    rw [htake, hdrop]
    refine ⟨hne _, ?_, continues_eq_false ?_ (.inl (by simp))⟩
    · obtain ⟨us, u, hu⟩ := (eq_nil_or_concat _).resolve_left hdigits
      have hdigit : d.isDigit u = true := mem_takeWhile_imp (l := zs) (by rw [hu]; simp)
      have hlast : ((lead ++ c :: run) ++ '.' :: zs.takeWhile d.isDigit).getLast? = some u := by
        rw [hu, concat_eq_append, ← cons_append, ← append_assoc, List.getLast?_concat]
      rw [hlast]
      rintro ⟨⟩
      rw [isDigit_point] at hdigit
      cases hdigit
    · rcases hhead : (zs.drop (zs.takeWhile d.isDigit).length).head? with _ | x
      · rfl
      · have hx : x ≠ '%' := fun hx => hpercent (by rw [hhead, hx])
        simp [Regex.head_drop_takeWhile hhead, hx]
  · -- no fraction: the run of digits and commas ends here, and no point and digit follow
    rw [drop_zero] at hpercent ⊢
    rw [take_zero, append_nil]
    refine ⟨by simp, ?_, continues_eq_false ?_ (.inr ?_)⟩
    · intro hlast
      rw [List.getLast?_append_of_ne_nil _ (cons_ne_nil c run)] at hlast
      have hmem : digitOrComma d '.' = true := by
        rcases mem_cons.mp (mem_of_getLast? hlast) with rfl | hmem
        · simp [digitOrComma, hc]
        · exact hrun _ hmem
      simp [digitOrComma, isDigit_point] at hmem
    · rcases hhead : ys.head? with _ | x
      · rfl
      · rw [hhead] at hys hpercent
        simp_all [digitOrComma]
    · rcases ys with _ | ⟨y, zs⟩
      · rfl
      · by_cases hy : y = '.'
        · subst hy
          have := hpoint zs rfl
          simpa using this
        · simp_all [digitOrComma]

end ContextLattice
