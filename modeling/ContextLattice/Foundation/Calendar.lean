import Mathlib.Algebra.BigOperators.Intervals
import Mathlib.Algebra.Order.BigOperators.Group.Finset
import Mathlib.Data.String.Basic

/-!
# Calendar instants and their texts

A `DateTime` is an instant of the proleptic Gregorian calendar, `micros` its place in time.
`isoformat` leaves the fraction out when it is zero, so the texts are ordered by the second, and
within a second by the text of the fraction.
-/

namespace Foundation

open List

/-! ### Days, months and years -/

def isLeap (year : ℕ) : Bool := year % 4 = 0 && (year % 100 ≠ 0 || year % 400 = 0)

def daysInMonth (year month : ℕ) : ℕ :=
  if month = 2 then (if isLeap year then 29 else 28)
  else if month ∈ [4, 6, 9, 11] then 30 else 31

def daysBeforeMonth (year month : ℕ) : ℕ := ∑ m ∈ Finset.Ico 1 month, daysInMonth year m

def daysInYear (year : ℕ) : ℕ := daysBeforeMonth year 13

def daysBeforeYear (year : ℕ) : ℕ := ∑ y ∈ Finset.Ico 1 year, daysInYear y

structure DateTime where
  year : ℕ
  month : ℕ
  day : ℕ
  hour : ℕ
  minute : ℕ
  second : ℕ
  microsecond : ℕ
  year_pos : 1 ≤ year := by decide
  year_lt : year < 10 ^ 4 := by decide
  month_pos : 1 ≤ month := by decide
  month_le : month ≤ 12 := by decide
  day_pos : 1 ≤ day := by decide
  day_le : day ≤ daysInMonth year month := by decide
  hour_lt : hour < 24 := by decide
  minute_lt : minute < 60 := by decide
  second_lt : second < 60 := by decide
  microsecond_lt : microsecond < 10 ^ 6 := by decide

namespace DateTime

def days (t : DateTime) : ℕ :=
  daysBeforeYear t.year + (daysBeforeMonth t.year t.month + (t.day - 1))

def seconds (t : DateTime) : ℕ := ((t.days * 24 + t.hour) * 60 + t.minute) * 60 + t.second

def micros (t : DateTime) : ℕ := t.seconds * 10 ^ 6 + t.microsecond

end DateTime

/-- **Intervals.** Where the intervals `[S i, S (i + 1))` follow one another, positions are ordered
by the interval and then by the offset in it. -/
theorem lex_of_steps {S : ℕ → ℕ} (hS : Monotone S) {i j r r' : ℕ} (hr : S i + r < S (i + 1))
    (hr' : S j + r' < S (j + 1)) : S i + r < S j + r' ↔ i < j ∨ i = j ∧ r < r' := by
  rcases lt_trichotomy i j with hij | rfl | hij
  · have hle : S (i + 1) ≤ S j := hS hij
    omega
  · omega
  · have hle : S (j + 1) ≤ S i := hS hij
    omega

theorem daysInMonth_le (year month : ℕ) : daysInMonth year month ≤ 31 := by
  unfold daysInMonth
  split_ifs <;> decide

theorem monotone_sum_Ico (f : ℕ → ℕ) : Monotone fun n => ∑ k ∈ Finset.Ico 1 n, f k := by
  intro m n hmn
  exact Finset.sum_le_sum_of_subset (Finset.Ico_subset_Ico_right hmn)

theorem daysBeforeMonth_succ (year : ℕ) {month : ℕ} (h : 1 ≤ month) :
    daysBeforeMonth year (month + 1) = daysBeforeMonth year month + daysInMonth year month :=
  Finset.sum_Ico_succ_top h _

theorem daysBeforeYear_succ {year : ℕ} (h : 1 ≤ year) :
    daysBeforeYear (year + 1) = daysBeforeYear year + daysInYear year :=
  Finset.sum_Ico_succ_top h _

namespace DateTime

variable (a b : DateTime)

theorem day_before_month (t : DateTime) :
    daysBeforeMonth t.year t.month + (t.day - 1) < daysBeforeMonth t.year (t.month + 1) := by
  have hpos := t.day_pos
  have hle := t.day_le
  rw [daysBeforeMonth_succ _ t.month_pos]
  omega

theorem days_before_year (t : DateTime) : t.days < daysBeforeYear (t.year + 1) := by
  have hmonth := t.day_before_month
  have hyear : daysBeforeMonth t.year (t.month + 1) ≤ daysInYear t.year :=
    monotone_sum_Ico (daysInMonth t.year) (Nat.succ_le_succ t.month_le)
  rw [daysBeforeYear_succ t.year_pos, days]
  omega

theorem days_lt_iff :
    a.days < b.days ↔ a.year < b.year ∨ a.year = b.year ∧
      (a.month < b.month ∨ a.month = b.month ∧ a.day < b.day) := by
  have hyears := lex_of_steps (monotone_sum_Ico daysInYear) a.days_before_year b.days_before_year
  refine hyears.trans (or_congr Iff.rfl (and_congr_right fun hyear => ?_))
  have ha := a.day_before_month
  have hb := b.day_before_month
  rw [← hyear] at hb ⊢
  refine (lex_of_steps (monotone_sum_Ico (daysInMonth a.year)) ha hb).trans ?_
  have hpos := a.day_pos
  have hpos' := b.day_pos
  omega

theorem seconds_lt_iff :
    a.seconds < b.seconds ↔ a.days < b.days ∨ a.days = b.days ∧
      (a.hour < b.hour ∨ a.hour = b.hour ∧
        (a.minute < b.minute ∨ a.minute = b.minute ∧ a.second < b.second)) := by
  have := a.hour_lt
  have := b.hour_lt
  have := a.minute_lt
  have := b.minute_lt
  have := a.second_lt
  have := b.second_lt
  unfold seconds
  omega

end DateTime

/-! ### Texts of fixed width -/

def digitChar (d : ℕ) : Char := Char.ofNat (48 + d)

def padded : ℕ → ℕ → List Char
  | 0, _ => []
  | width + 1, n => padded width (n / 10) ++ [digitChar (n % 10)]

theorem digitChar_lt_iff {d e : ℕ} (hd : d < 10) (he : e < 10) :
    digitChar d < digitChar e ↔ d < e := by
  have hall : ∀ d < 10, ∀ e < 10, (digitChar d < digitChar e ↔ d < e) := by decide
  exact hall d hd e he

theorem digitChar_inj {d e : ℕ} (hd : d < 10) (he : e < 10) :
    digitChar d = digitChar e ↔ d = e := by
  have hall : ∀ d < 10, ∀ e < 10, (digitChar d = digitChar e ↔ d = e) := by decide
  exact hall d hd e he

theorem padded_lt_iff {width m n : ℕ} (hm : m < 10 ^ width) (hn : n < 10 ^ width)
    (u v : List Char) :
    padded width m ++ u < padded width n ++ v ↔ m < n ∨ m = n ∧ u < v := by
  induction width generalizing m n u v with
  | zero =>
    have hzero : m = 0 ∧ n = 0 := by omega
    simp [padded, hzero]
  | succ width ih =>
    have hm' : m / 10 < 10 ^ width := by omega
    have hn' : n / 10 < 10 ^ width := by omega
    have hmod : m % 10 < 10 ∧ n % 10 < 10 := by omega
    simp only [padded, append_assoc, singleton_append]
    rw [ih hm' hn', cons_lt_cons_iff, digitChar_lt_iff hmod.1 hmod.2, digitChar_inj hmod.1 hmod.2]
    constructor
    · rintro (h | ⟨h, h' | ⟨h', huv⟩⟩)
      · exact .inl (by omega)
      · exact .inl (by omega)
      · exact .inr ⟨by omega, huv⟩
    · rintro (h | ⟨rfl, huv⟩)
      · by_cases hdiv : m / 10 = n / 10
        · exact .inr ⟨hdiv, .inl (by omega)⟩
        · exact .inl (by omega)
      · exact .inr ⟨rfl, .inr ⟨rfl, huv⟩⟩

/-! ### The instant at a place in time -/

def stepAt (S : ℕ → ℕ) (n d : ℕ) : ℕ := Nat.findGreatest (fun i => S i ≤ d) n

theorem stepAt_spec {S : ℕ → ℕ} {n d : ℕ} (hn : 1 ≤ n) (hfirst : S 1 ≤ d) (hlast : d < S (n + 1)) :
    1 ≤ stepAt S n d ∧ stepAt S n d ≤ n ∧ S (stepAt S n d) ≤ d ∧ d < S (stepAt S n d + 1) := by
  have hle : stepAt S n d ≤ n := Nat.findGreatest_le n
  refine ⟨Nat.le_findGreatest hn hfirst, hle,
    Nat.findGreatest_spec (P := fun i => S i ≤ d) hn hfirst, ?_⟩
  rcases hle.eq_or_lt with h | h
  · rwa [h]
  · have hgreatest : ¬ S (stepAt S n d + 1) ≤ d :=
      Nat.findGreatest_is_greatest (P := fun i => S i ≤ d) (Nat.lt_succ_self _) h
    exact not_le.mp hgreatest

theorem daysInYear_eq (year : ℕ) : daysInYear year = 365 + if isLeap year then 1 else 0 := by
  simp only [daysInYear, daysBeforeMonth, daysInMonth]
  split <;> decide

theorem daysBeforeYear_eq {y : ℕ} (h : 1 ≤ y) :
    daysBeforeYear y + (y - 1) / 100 = 365 * (y - 1) + (y - 1) / 4 + (y - 1) / 400 := by
  induction y, h using Nat.le_induction with
  | base => rfl
  | succ year hpos ih =>
    have hleap : (if isLeap year then 1 else 0) + (year - 1) / 4 + year / 100 + (year - 1) / 400 =
        year / 4 + (year - 1) / 100 + year / 400 := by
      simp only [isLeap, Bool.and_eq_true, Bool.or_eq_true, decide_eq_true_eq]
      split <;> omega
    rw [daysBeforeYear_succ hpos, daysInYear_eq, Nat.add_sub_cancel]
    omega

def endDays : ℕ := 3652059

def epochDays : ℕ := 719162

theorem daysBeforeYear_end : daysBeforeYear 10000 = endDays := by
  have h := daysBeforeYear_eq (y := 10000) (by decide)
  unfold endDays
  omega

def yearAt (d : ℕ) : ℕ := stepAt daysBeforeYear 9999 d

def monthAt (year d : ℕ) : ℕ := stepAt (daysBeforeMonth year) 12 d

theorem yearAt_spec {d : ℕ} (h : d < endDays) :
    1 ≤ yearAt d ∧ yearAt d ≤ 9999 ∧ daysBeforeYear (yearAt d) ≤ d ∧
      d - daysBeforeYear (yearAt d) < daysInYear (yearAt d) := by
  rw [← daysBeforeYear_end] at h
  obtain ⟨hpos, hle, hstart, hend⟩ := stepAt_spec (by decide) (Nat.zero_le d) h
  rw [daysBeforeYear_succ hpos] at hend
  exact ⟨hpos, hle, hstart, by unfold yearAt; omega⟩

theorem monthAt_spec {year d : ℕ} (h : d < daysInYear year) :
    1 ≤ monthAt year d ∧ monthAt year d ≤ 12 ∧ daysBeforeMonth year (monthAt year d) ≤ d ∧
      d - daysBeforeMonth year (monthAt year d) < daysInMonth year (monthAt year d) := by
  obtain ⟨hpos, hle, hstart, hend⟩ := stepAt_spec (by decide) (Nat.zero_le d) h
  rw [daysBeforeMonth_succ _ hpos] at hend
  exact ⟨hpos, hle, hstart, by unfold monthAt; omega⟩

namespace DateTime

def ofMicros (m : ℕ) : Option DateTime :=
  let d := m / 10 ^ 6 / 86400
  if h : d < endDays then
    let year := yearAt d
    let rest := d - daysBeforeYear year
    have hyear := yearAt_spec h
    have hmonth := monthAt_spec hyear.2.2.2
    some
      { year := year
        month := monthAt year rest
        day := rest - daysBeforeMonth year (monthAt year rest) + 1
        hour := m / 10 ^ 6 / 3600 % 24
        minute := m / 10 ^ 6 / 60 % 60
        second := m / 10 ^ 6 % 60
        microsecond := m % 10 ^ 6
        year_pos := hyear.1
        year_lt := Nat.lt_of_le_of_lt hyear.2.1 (by decide)
        month_pos := hmonth.1
        month_le := hmonth.2.1
        day_pos := Nat.le_add_left 1 _
        day_le := hmonth.2.2.2
        hour_lt := Nat.mod_lt _ (by decide)
        minute_lt := Nat.mod_lt _ (by decide)
        second_lt := Nat.mod_lt _ (by decide)
        microsecond_lt := Nat.mod_lt _ (by decide) }
  else none

theorem ofMicros_eq_none_iff {m : ℕ} :
    ofMicros m = none ↔ endDays * 86400 * 10 ^ 6 ≤ m := by
  unfold ofMicros
  dsimp only
  split
  · simp only [reduceCtorEq, false_iff]
    omega
  · simp only [true_iff]
    omega

theorem micros_of_ofMicros {m : ℕ} {t : DateTime} (h : ofMicros m = some t) : t.micros = m := by
  unfold ofMicros at h
  dsimp only at h
  split at h
  · rename_i hd
    obtain ⟨-, -, hyear, hrest⟩ := yearAt_spec hd
    obtain ⟨-, -, hmonth, -⟩ := monthAt_spec hrest
    have hdays : t.days = m / 10 ^ 6 / 86400 := by
      rw [← Option.some.inj h]
      dsimp only [days]
      omega
    have hfields : t.hour = m / 10 ^ 6 / 3600 % 24 ∧ t.minute = m / 10 ^ 6 / 60 % 60 ∧
        t.second = m / 10 ^ 6 % 60 ∧ t.microsecond = m % 10 ^ 6 := by
      rw [← Option.some.inj h]
      exact ⟨rfl, rfl, rfl, rfl⟩
    obtain ⟨hhour, hminute, hsecond, hmicro⟩ := hfields
    rw [micros, seconds, hdays, hhour, hminute, hsecond, hmicro]
    omega
  · cases h

def ofInstant (z : ℤ) : Option DateTime := if 0 ≤ z then ofMicros z.toNat else none

theorem ofInstant_eq_none_iff {z : ℤ} :
    ofInstant z = none ↔ z < 0 ∨ (endDays * 86400 * 10 ^ 6 : ℕ) ≤ z := by
  unfold ofInstant
  split
  · rw [ofMicros_eq_none_iff]
    omega
  · simp only [true_iff]
    omega

theorem micros_of_ofInstant {z : ℤ} {t : DateTime} (h : ofInstant z = some t) :
    (t.micros : ℤ) = z := by
  unfold ofInstant at h
  split at h
  · rw [micros_of_ofMicros h]
    omega
  · cases h

end DateTime

namespace DateTime

def epochMicros (n : ℕ) : ℕ := (epochDays * 86400 + n) * 10 ^ 6

def utcfromtimestamp (n : ℕ) : Option DateTime := ofMicros (epochMicros n)

theorem utcfromtimestamp_eq_none_iff {n : ℕ} :
    utcfromtimestamp n = none ↔ 253402300799 < n := by
  have hcut : ∀ e p : ℕ, e = 3652059 → p = 719162 →
      (e * 86400 * 10 ^ 6 ≤ (p * 86400 + n) * 10 ^ 6 ↔ 253402300799 < n) := by
    intro e p he hp
    omega
  exact ofMicros_eq_none_iff.trans (hcut endDays epochDays rfl rfl)

end DateTime

/-! ### Instants as text -/

namespace DateTime

def fraction (t : DateTime) : List Char :=
  if t.microsecond = 0 then [] else '.' :: padded 6 t.microsecond

def isoChars (t : DateTime) : List Char :=
  padded 4 t.year ++ '-' :: (padded 2 t.month ++ '-' :: (padded 2 t.day ++ 'T' ::
    (padded 2 t.hour ++ ':' :: (padded 2 t.minute ++ ':' :: (padded 2 t.second ++ t.fraction)))))

def isoformat (t : DateTime) : String := String.ofList t.isoChars

variable (a b : DateTime)

theorem isoChars_lt_iff (u v : List Char) :
    a.isoChars ++ u < b.isoChars ++ v ↔
      a.seconds < b.seconds ∨ a.seconds = b.seconds ∧ a.fraction ++ u < b.fraction ++ v := by
  have hmonth : ∀ t : DateTime, t.month < 10 ^ 2 := fun t => lt_of_le_of_lt t.month_le (by decide)
  have hday : ∀ t : DateTime, t.day < 10 ^ 2 := fun t =>
    lt_of_le_of_lt (t.day_le.trans (daysInMonth_le ..)) (by decide)
  have hhour : ∀ t : DateTime, t.hour < 10 ^ 2 := fun t => t.hour_lt.trans (by decide)
  have hminute : ∀ t : DateTime, t.minute < 10 ^ 2 := fun t => t.minute_lt.trans (by decide)
  have hsecond : ∀ t : DateTime, t.second < 10 ^ 2 := fun t => t.second_lt.trans (by decide)
  simp only [isoChars, append_assoc, cons_append]
  rw [padded_lt_iff a.year_lt b.year_lt, cons_lt_cons_self,
    padded_lt_iff (hmonth a) (hmonth b), cons_lt_cons_self,
    padded_lt_iff (hday a) (hday b), cons_lt_cons_self,
    padded_lt_iff (hhour a) (hhour b), cons_lt_cons_self,
    padded_lt_iff (hminute a) (hminute b), cons_lt_cons_self,
    padded_lt_iff (hsecond a) (hsecond b)]
  have hlt := a.seconds_lt_iff b
  have hgt := b.seconds_lt_iff a
  have hdays := a.days_lt_iff b
  have hdays' := b.days_lt_iff a
  generalize (a.fraction ++ u < b.fraction ++ v) = p
  by_cases hp : p <;> simp only [hp, and_true, and_false, or_false]
  all_goals omega

end DateTime

end Foundation
