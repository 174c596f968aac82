import Mathlib.Data.List.Find
import ContextLattice.Foundation.Veil

/-!
# Redaction is local

What a redactor cuts out of a stretch of a text is what it would cut out of the stretch alone, as
long as no match reaches over its borders. A stretch is **closed** if it ends with a character that
no match contains, or with a marker.
-/

namespace Foundation

open Piece List

/-! ### Matches at the front of a longer text -/

private theorem filter_range'_le (n m k : ℕ) :
    (List.range' n (m + 1 - n)).filter (fun i => i ≤ k) = List.range' n (min m k + 1 - n) := by
  obtain ⟨d, hd⟩ := Nat.exists_eq_add_of_le (by omega : min m k + 1 - n ≤ m + 1 - n)
  rw [hd, ← List.range'_append_1, filter_append, filter_eq_self.mpr,
    filter_eq_nil_iff.mpr, append_nil]
  · intro i hi
    rw [mem_range'_1] at hi
    simp only [decide_eq_true_eq]
    omega
  · intro i hi
    rw [mem_range'_1] at hi
    simp only [decide_eq_true_eq]
    omega

theorem Regex.filter_ends_append (r : Regex) (xs ys : List Char) :
    (r.ends (xs ++ ys)).filter (fun n => n ≤ xs.length) = r.ends xs := by
  induction r generalizing xs with
  | eps => simp [ends]
  | one p | opt p =>
    rcases xs with _ | ⟨x, xs⟩
    · cases ys with
      | nil => simp [ends]
      | cons y ys => by_cases hy : p y = true <;> simp [ends, hy]
    · by_cases hx : p x = true <;> simp [ends, hx]
  | many m p =>
    have hlen : min ((xs ++ ys).takeWhile p).length xs.length = (xs.takeWhile p).length := by
      refine Nat.le_antisymm ?_ (le_min ?_ ( takeWhile_prefix p).length_le)
      · rw [le_length_takeWhile]
        refine ⟨min_le_right _ _, fun c hc => ?_⟩
        have hmin := min_le_left ((xs ++ ys).takeWhile p).length xs.length
        refine (le_length_takeWhile.mp hmin).2 c ?_
        rwa [take_append_of_le_length (min_le_right _ _)]
      · rw [le_length_takeWhile, length_append]
        have hself := le_length_takeWhile.mp (le_refl (xs.takeWhile p).length)
        refine ⟨by omega, fun c hc => hself.2 c ?_⟩
        rwa [take_append_of_le_length hself.1] at hc
    rw [ends, ends, filter_reverse, filter_range'_le, hlen]
  | seq a b iha ihb =>
    rw [ends, ends, ← iha xs, filter_flatMap]
    generalize a.ends (xs ++ ys) = is
    induction is with
    | nil => rfl
    | cons i is ih =>
      rw [flatMap_cons, ih]
      by_cases hi : i ≤ xs.length
      · -- the second part begins in the first text
        have hdrop := ihb (xs.drop i)
        rw [length_drop] at hdrop
        rw [filter_cons_of_pos (by simpa using hi), flatMap_cons, ← hdrop,
          filter_map, drop_append_of_le_length hi]
        congr 2
        refine filter_congr fun j _ => ?_
        simp only [Function.comp_apply, decide_eq_decide]
        omega
      · rw [filter_cons_of_neg (by simpa using hi), filter_eq_nil_iff.mpr,
          nil_append]
        intro n hn
        obtain ⟨j, -, rfl⟩ := mem_map.mp hn
        simp only [decide_eq_true_eq]
        omega
  | alt a b iha ihb => rw [ends, ends, filter_append, iha, ihb]

variable {n : ℕ}

theorem Regex.tail_of_seq_many {a : Regex} {p : Char → Bool} {m m₁ m₂ : List Char} {c : Char}
    (h : (seq a (many n p)).accepts m) (hm : m = m₁ ++ c :: m₂) (hc : a.alphabet c = false) :
    ∀ d ∈ m₂, p d = true := by
  obtain ⟨k, v, rfl, hk, -, hv⟩ := h
  rcases append_eq_append_iff.mp hm with ⟨t, -, rfl⟩ | ⟨t, rfl, ht⟩
  · exact fun d hd => hv d (by simp [hd])
  · rcases t with _ | ⟨c', t⟩
    · obtain rfl := ht.symm
      exact fun d hd => hv d (mem_cons_of_mem _ hd)
    · obtain ⟨rfl, -⟩ := List.cons.inj ht
      have halpha := alphabet_of_accepts hk c (by simp)
      rw [hc] at halpha
      cases halpha

namespace Pattern

variable {w : Char → Bool} {r : Pattern}

theorem any_lastChar {prev prev' : Option Char} (h : prev.any w = prev'.any w) (cs : List Char) :
    (lastChar prev cs).any w = (lastChar prev' cs).any w := by
  rcases cs.eq_nil_or_concat with rfl | ⟨cs, c, rfl⟩
  · exact h
  · rw [concat_eq_append, lastChar_concat, lastChar_concat]

theorem matchLength_congr {prev prev' : Option Char} (h : prev.any w = prev'.any w)
    (xs : List Char) : r.matchLength w prev xs = r.matchLength w prev' xs := by
  have hboundary : ∀ cs next,
      wordBoundary w (lastChar prev cs) next = wordBoundary w (lastChar prev' cs) next := by
    intro cs next
    rw [wordBoundary, wordBoundary, any_lastChar h]
  have hstart := hboundary [] xs.head?
  rw [lastChar_nil, lastChar_nil] at hstart
  simp only [matchLength, hstart, hboundary]

theorem matchLength_append {prev : Option Char} {xs ys : List Char}
    (hends : ∀ n ∈ r.body.ends (xs ++ ys), n ≤ xs.length) (hys : ys.head?.any w = false) :
    r.matchLength w prev (xs ++ ys) = r.matchLength w prev xs := by
  have hsame : r.body.ends (xs ++ ys) = r.body.ends xs := by
    rw [← Regex.filter_ends_append r.body xs ys, filter_eq_self.mpr]
    simpa using hends
  -- what follows a part of the first text, or nothing
  have hhead : ∀ zs : List Char, (zs ++ ys).head?.any w = zs.head?.any w := by
    intro zs
    cases zs with
    | nil => exact hys
    | cons z zs => rfl
  rw [matchLength, matchLength, wordBoundary, wordBoundary, hhead, hsame]
  congr 1
  refine List.find?_congr fun n hn => ?_
  have hn' : n ≤ xs.length := hends n (hsame ▸ hn)
  rw [take_append_of_le_length hn', drop_append_of_le_length hn', wordBoundary, wordBoundary, hhead]

end Pattern

/-! ### Borders -/

variable (w : Char → Bool) (marker : List Char)

def Local (r : Pattern) (a b : List Piece) : Prop :=
  ∀ a₀ x a₁ prev, a = a₀ ++ kept x :: a₁ →
    r.matchLength w prev (x :: render marker (a₁ ++ b)) =
      r.matchLength w prev (x :: render marker a₁)

def Closed (q : Char) (ps : List Piece) : Prop :=
  ∀ a p, ps = a ++ [p] → p = kept q ∨ ∃ s, p = secret s

variable {w marker} {r : Pattern}

variable {a b ps qs : List Piece} {prev : Option Char} {q : Char}

theorem local_of_le (hb : (render marker b).head?.any w = false)
    (h : ∀ a₀ x a₁ m rest, a = a₀ ++ kept x :: a₁ → r.body.accepts m →
      x :: render marker (a₁ ++ b) = m ++ rest → m.length ≤ (render marker a₁).length + 1) :
    Local w marker r a b := by
  intro a₀ x a₁ prev ha
  rw [render_append, ← cons_append]
  refine Pattern.matchLength_append (fun n hn => ?_) hb
  obtain ⟨hlen, haccepts⟩ := Regex.mem_ends.mp hn
  have hsplit := (take_append_drop n (x :: render marker a₁ ++ render marker b)).symm
  have hle := h a₀ x a₁ _ _ ha haccepts
    (by rw [render_append, ← cons_append]; exact hsplit)
  rwa [length_take, min_eq_left hlen] at hle

theorem mark_append (hfits : Fits w marker r a) (hlocal : Local w marker r a b)
    (hn : n ≤ a.length) (prev : Option Char) :
    mark w marker r n prev (a ++ b) =
      mark w marker r n prev a ++ mark w marker r 0 (lastChar prev (render marker a)) b := by
  induction a generalizing n prev with
  | nil =>
    obtain rfl := Nat.le_zero.mp hn
    rfl
  | cons p a ih =>
    have hfits' : Fits w marker r a := hfits.of_append (a := [p])
    have hlocal' : Local w marker r a b := by
      intro a₀ x a₁ prev ha
      exact hlocal (p :: a₀) x a₁ prev (by rw [ha, cons_append])
    rcases n with _ | n
    · cases p with
      | kept x =>
        have hsame := hlocal [] x a prev rfl
        rw [cons_append, mark, mark, hsame, render_kept, lastChar_cons]
        split
        · rename_i n hmatch
          -- the match takes the same leading characters
          have hfit := hfits [] x a prev n rfl hmatch
          have hlead : (lead (a ++ b)).take n = (lead a).take n := by
            have ha := take_lead hfit
            have hlen : ((lead a).take n).length = n := by simp [hfit]
            rw [ha, append_assoc, lead_map_kept_append, take_left' hlen, ← ha]
          have hle : n ≤ a.length := by
            have hcount := congrArg List.length (take_lead hfit)
            simp only [length_append, length_map, length_take, length_drop]
              at hcount
            omega
          rw [hlead, ih hfits' hlocal' hle, cons_append]
        · rw [ih hfits' hlocal' (Nat.zero_le _), cons_append]
      | secret s =>
        rw [cons_append, mark, mark, ih hfits' hlocal' (Nat.zero_le _), render_secret,
          lastChar_append, cons_append]
    · rw [cons_append, mark, mark, ih hfits' hlocal' (Nat.le_of_succ_le_succ hn), ← lastChar_append]
      rfl

theorem mark_congr {prev' : Option Char} (h : prev.any w = prev'.any w) (n : ℕ)
    (ps : List Piece) : mark w marker r n prev ps = mark w marker r n prev' ps := by
  induction ps generalizing n prev prev' with
  | nil => cases n <;> rfl
  | cons p ps ih =>
    rcases n with _ | n
    · cases p with
      | kept x => rw [mark, mark, Pattern.matchLength_congr h]
      | secret s => rw [mark, mark, ih (Pattern.any_lastChar h _)]
    · rw [mark, mark, ih (Pattern.any_lastChar h _)]

theorem Opens.mark_kept (hr : Opens w r) (hq : w q = false) (prev : Option Char) (ps : List Piece) :
    mark w marker r 0 prev (kept q :: ps) = kept q :: mark w marker r 0 none ps := by
  have hno : ∀ n, r.matchLength w prev (q :: render marker ps) ≠ some (n + 1) := by
    intro n hn
    have haccepts := (Pattern.matchAt_of_matchLength hn).2.accepts
    have hword := hr.word q (Regex.first_of_accepts haccepts)
    rw [hq] at hword
    cases hword
  rw [mark]
  split
  · exact absurd ‹_› (hno _)
  · have hsame : (some q).any w = (none : Option Char).any w := by
      rw [Option.any_some, hq, Option.any_none]
    rw [mark_congr hsame]

theorem Closed.of_append (h : Closed q (a ++ b)) : Closed q b :=
  fun a' p hb => h (a ++ a') p (by rw [hb, append_assoc])

theorem Closed.cons {p : Piece} (h : Closed q ps)
    (hp : ps = [] → p = kept q ∨ ∃ s, p = secret s) : Closed q (p :: ps) := by
  intro a p' hps
  rcases a with _ | ⟨_, a⟩
  · obtain ⟨rfl, hnil⟩ := List.cons.inj hps
    exact hp hnil
  · exact h a p' (List.cons.inj hps).2

theorem Marks.closed
    (h : Marks w marker r prev ps qs) (hps : Closed q ps) : Closed q qs := by
  induction h with
  | nil => exact hps
  | @passed prev s ps qs _ ih =>
    exact (ih (hps.of_append (a := [secret s]))).cons fun _ => .inr ⟨s, rfl⟩
  | @found prev x m ps qs _ _ ih =>
    have hrest : Closed q ps := Closed.of_append (a := kept x :: m.map kept) hps
    exact (ih hrest).cons fun _ => .inr ⟨_, rfl⟩
  | @left prev x ps qs _ hrest ih =>
    refine (ih (hps.of_append (a := [kept x]))).cons ?_
    rintro rfl
    cases hrest
    exact hps [] (kept x) rfl

theorem Closed.exists_not_alphabet (h : Closed q ps)
    (hne : ps ≠ []) (hr : Tight w marker r) (hmarker : marker ≠ [])
    (hq : r.body.alphabet q = false) :
    ∃ c ∈ render marker ps, r.body.alphabet c = false := by
  obtain ⟨a, p, hps⟩ := (eq_nil_or_concat ps).resolve_left hne
  rw [concat_eq_append] at hps
  subst hps
  rcases h a p rfl with rfl | ⟨s, rfl⟩
  · exact ⟨q, by simp, hq⟩
  · obtain ⟨c, marker', rfl⟩ := exists_cons_of_ne_nil hmarker
    exact ⟨c, by simp, hr.avoids c rfl⟩

def Worded (w : Char → Bool) (ps : List Piece) : Prop :=
  ∀ s, secret s ∈ ps → ∃ c t, s = c :: t ∧ w c = true

theorem worded_map_kept (cs : List Char) : Worded w (cs.map kept) := by
  intro s hs
  obtain ⟨c, -, hc⟩ := mem_map.mp hs
  cases hc

theorem Marks.accepts_of_mem
    (h : Marks w marker r prev ps qs) {s : List Char} (hs : secret s ∈ qs) :
    secret s ∈ ps ∨ r.body.accepts s := by
  induction h with
  | nil => cases hs
  | passed _ ih =>
    rcases mem_cons.mp hs with hs | hs
    · exact .inl (mem_cons.mpr (.inl hs))
    · exact (ih hs).imp_left (mem_cons_of_mem _)
  | @found prev x m ps qs hmatch _ ih =>
    rcases mem_cons.mp hs with hs | hs
    · have haccepts := (Pattern.matchAt_of_matchLength hmatch).2.accepts
      rw [take_succ_cons, take_left] at haccepts
      exact .inr (secret.inj hs ▸ haccepts)
    · exact (ih hs).imp_left fun hs => by simp [hs]
  | left _ _ ih =>
    rcases mem_cons.mp hs with hs | hs
    · cases hs
    · exact (ih hs).imp_left (mem_cons_of_mem _)

theorem Marks.worded (h : Marks w marker r prev ps qs)
    (hr : Opens w r) (hps : Worded w ps) : Worded w qs := by
  intro s hs
  rcases h.accepts_of_mem hs with hs | haccepts
  · exact hps s hs
  · obtain ⟨c, t, rfl, hc⟩ := hr.cons haccepts
    exact ⟨c, t, rfl, hr.word c hc⟩

variable {rs : List Pattern}

theorem Worded.cut (h : Worded w ps) (hmarker : marker ≠ [])
    (hrs : ∀ r ∈ rs, Tight w marker r ∧ Opens w r) : Worded w (cut w marker rs ps) := by
  induction rs generalizing ps with
  | nil => exact h
  | cons r rs ih =>
    obtain ⟨ht, hr⟩ := hrs r mem_cons_self
    exact ih ((marks_mark (ht.fits hmarker ps) none).worded hr h)
      fun r' hr' => hrs r' (mem_cons_of_mem _ hr')

theorem Worded.eq_map_kept (h : Worded w ps) {v : List Char}
    (hq : w q = false) (hsource : source ps = v ++ [q])
    (hclear : ∀ cell ∈ (veil ps).take v.length, cell.isClear = true) :
    ps = (v ++ [q]).map kept := by
  induction ps generalizing v with
  | nil => simp at hsource
  | cons p ps ih =>
    have htail : Worded w ps := fun s hs => h s (mem_cons_of_mem _ hs)
    cases p with
    | kept c =>
      rcases v with _ | ⟨d, v⟩
      · obtain ⟨rfl, hnil⟩ := List.cons.inj hsource
        rcases ps with _ | ⟨c' | s, ps⟩
        · rfl
        · cases hnil
        · obtain ⟨d, t, rfl, -⟩ := htail s mem_cons_self
          cases hnil
      · obtain ⟨rfl, hrest⟩ := List.cons.inj hsource
        rw [ih htail hrest fun cell hcell => hclear cell (mem_cons_of_mem _ hcell)]
        rfl
    | secret s =>
      obtain ⟨c, t, rfl, hc⟩ := h s mem_cons_self
      rcases v with _ | ⟨d, v⟩
      · obtain ⟨rfl, -⟩ := List.cons.inj hsource
        rw [hq] at hc
        cases hc
      · -- the first character is hidden
        have hhidden := hclear (.hidden true) mem_cons_self
        cases hhidden

/-! ### Tight patterns between borders -/

theorem local_kept (hw : w q = false) (hq : r.body.alphabet q = false)
    (a b : List Piece) : Local w marker r a (kept q :: b) := by
  refine local_of_le (by simpa using hw) ?_
  rintro a₀ x a₁ m rest - haccepts hm
  rw [render_append, render_kept, ← cons_append] at hm
  rcases append_eq_append_iff.mp hm with ⟨t, rfl, ht⟩ | ⟨t, hxa, -⟩
  · -- a match that is longer contains `q`
    rcases t with _ | ⟨c, t⟩
    · simp
    · obtain ⟨rfl, -⟩ := List.cons.inj ht
      have halpha := Regex.alphabet_of_accepts haccepts q (by simp)
      rw [hq] at halpha
      cases halpha
  · have hlen := congrArg List.length hxa
    simp only [length_cons, length_append] at hlen
    omega

theorem Closed.local (h : Closed q a) (hr : Tight w marker r)
    (hmarker : marker ≠ []) (hq : r.body.alphabet q = false)
    (hb : (render marker b).head?.any w = false) : Local w marker r a b := by
  refine local_of_le hb ?_
  rintro a₀ x a₁ m rest rfl haccepts hm
  rw [render_append, ← cons_append] at hm
  rcases append_eq_append_iff.mp hm with ⟨t, rfl, -⟩ | ⟨t, hxa, -⟩
  · have hclosed : Closed q (kept x :: a₁) := h.of_append
    obtain ⟨c, hc, hno⟩ := hclosed.exists_not_alphabet (cons_ne_nil _ _) hr hmarker hq
    have halpha := Regex.alphabet_of_accepts haccepts c (mem_append_left t hc)
    rw [hno] at halpha
    cases halpha
  · have hlen := congrArg List.length hxa
    simp only [length_cons, length_append] at hlen
    omega

variable {d : Char} {m : List Piece}

theorem Tight.mark_enclosed (ht : Tight w marker r) (hr : Opens w r) (hmarker : marker ≠ [])
    (hw : w q = false) (hq : r.body.alphabet q = false) (hd : w d = false) (hm : Closed q m)
    (a b : List Piece) :
    mark w marker r 0 none (a ++ kept q :: (m ++ kept d :: b)) =
      mark w marker r 0 none a ++
        kept q :: (mark w marker r 0 none m ++ kept d :: mark w marker r 0 none b) := by
  rw [mark_append (ht.fits hmarker a) (local_kept hw hq a _) (Nat.zero_le _),
    hr.mark_kept hw, mark_append (ht.fits hmarker m)
      (hm.local ht hmarker hq (by simpa using hd)) (Nat.zero_le _), hr.mark_kept hd]

theorem cut_enclosed (hmarker : marker ≠ []) (hw : w q = false) (hd : w d = false)
    (hrs : ∀ r ∈ rs, Tight w marker r ∧ Opens w r ∧ r.body.alphabet q = false) (hm : Closed q m)
    (a b : List Piece) :
    cut w marker rs (a ++ kept q :: (m ++ kept d :: b)) =
      cut w marker rs a ++ kept q :: (cut w marker rs m ++ kept d :: cut w marker rs b) := by
  induction rs generalizing a m b with
  | nil => rfl
  | cons r rs ih =>
    obtain ⟨ht, hr, hq⟩ := hrs r mem_cons_self
    have hclosed := (marks_mark (ht.fits hmarker m) none).closed hm
    have hrest := ih (fun r' hr' => hrs r' (mem_cons_of_mem _ hr')) hclosed
      (mark w marker r 0 none a) (mark w marker r 0 none b)
    rw [← ht.mark_enclosed hr hmarker hw hq hd hm] at hrest
    exact hrest

/-! ### Matches in a text that was cut -/

namespace Pattern

variable (w : Char → Bool) (r : Pattern)

/-- A match that touches the places from `i` to `j`. -/
def MatchNear (i j : ℕ) (cs xs : List Char) : Prop :=
  ∃ a b, xs = a ++ (cs ++ b) ∧ r.MatchAt w (lastChar none a) cs b.head? ∧ a.length ≤ j ∧
    i ≤ a.length + cs.length

variable {w r} {cs a b xs : List Char}

theorem MatchNear.matchIn {i j : ℕ} (h : r.MatchNear w i j cs xs) : r.MatchIn w none cs xs := by
  obtain ⟨a, b, hxs, hat, -⟩ := h
  exact ⟨a, b, hxs, hat⟩

theorem MatchAt.matchIn_of_take (hat : r.MatchAt w (lastChar none a) cs b.head?) {ys : List Char}
    (hys : ys.take (a.length + cs.length + 1) = (a ++ (cs ++ b)).take (a.length + cs.length + 1)) :
    r.MatchIn w none cs ys := by
  have hfront : ys.take (a.length + cs.length) = a ++ cs := by
    have h := congrArg (take (a.length + cs.length)) hys
    rw [take_take, take_take, min_eq_left (Nat.le_succ _)] at h
    rw [h, ← append_assoc, ← length_append, take_left]
  have hnext : (ys.drop (a.length + cs.length)).head? = b.head? := by
    have h := congrArg (fun l => l[a.length + cs.length]?) hys
    simp only [getElem?_take, Nat.lt_succ_self, if_true] at h
    rw [head?_drop, h, ← append_assoc, ← length_append, getElem?_append_right le_rfl, Nat.sub_self,
      head?_eq_getElem?]
  refine ⟨a, ys.drop (a.length + cs.length), ?_, by rwa [hnext]⟩
  rw [← append_assoc, ← hfront, take_append_drop]

/-- A match in a text that was cut off at `n` is one of the whole text, or stands at the end. -/
theorem matchIn_take {n : ℕ} (h : r.MatchIn w none cs (xs.take n)) :
    r.MatchIn w none cs xs ∨ n < xs.length ∧ r.MatchNear w n n cs (xs.take n) := by
  obtain ⟨a, b, hxs, hat⟩ := h
  have hlen := congrArg length hxs
  simp only [length_take, length_append] at hlen
  by_cases hn : n < xs.length
  · by_cases hend : n ≤ a.length + cs.length
    · exact .inr ⟨hn, a, b, hxs, hat, by omega, hend⟩
    · refine .inl (hat.matchIn_of_take ?_)
      rw [← hxs, take_take, min_eq_left (by omega)]
  · rw [take_of_length_le (not_lt.mp hn)] at hxs
    exact .inl ⟨a, b, hxs, hat⟩

/-- A match in a text whose middle was left out is one of the whole text, or stands at the gap. -/
theorem matchIn_elide {i k : ℕ} {dots : List Char} (hi : i ≤ xs.length)
    (h : r.MatchIn w none cs (xs.take i ++ (dots ++ xs.drop k))) :
    r.MatchIn w none cs xs ∨
      r.MatchNear w i (i + dots.length) cs (xs.take i ++ (dots ++ xs.drop k)) := by
  obtain ⟨a, b, hxs, hat⟩ := h
  by_cases hnear : a.length ≤ i + dots.length ∧ i ≤ a.length + cs.length
  · exact .inr ⟨a, b, hxs, hat, hnear⟩
  · refine .inl ?_
    by_cases hbefore : a.length + cs.length < i
    · refine hat.matchIn_of_take ?_
      rw [← hxs, take_append_of_le_length (by rw [length_take]; omega), take_take,
        min_eq_left (by omega)]
    · -- the match begins behind the first character of the second part
      have hlong : (xs.take i ++ dots).length < a.length := by
        rw [length_append, length_take]
        omega
      rw [← append_assoc] at hxs
      rcases append_eq_append_iff.mp hxs with ⟨c, rfl, hc⟩ | ⟨c, hc, -⟩
      · have hne : c ≠ [] := by
          rintro rfl
          simp at hlong
        refine ⟨xs.take k ++ c, b, ?_, ?_⟩
        · rw [append_assoc, ← hc, take_append_drop]
        · rwa [lastChar_append, lastChar_of_ne_nil hne _ (lastChar none (xs.take k)),
            ← lastChar_append] at hat
      · rw [hc, length_append] at hlong
        omega

end Pattern

end Foundation
