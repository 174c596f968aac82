import ContextLattice.Foundation.Regex

/-!
# Redaction: replacing tokens by a marker

A redactor runs patterns over a text, one substitution after another. The text is kept as
**pieces**: characters that are still there, and secrets that have been cut out. A pattern is
**tight** when its matches cannot touch a marker, and **seals** another when its matches never end
in the middle of a word the other could begin with.
-/

namespace Foundation

open List

inductive Piece where
  | kept (c : Char)
  | secret (cs : List Char)

namespace Piece

def original : Piece → List Char
  | kept c => [c]
  | secret cs => cs

def shown (marker : List Char) : Piece → List Char
  | kept c => [c]
  | secret _ => marker

end Piece

open Piece

def source (ps : List Piece) : List Char := ps.flatMap Piece.original

def lead : List Piece → List Char
  | kept c :: ps => c :: lead ps
  | _ => []

section

variable (marker : List Char)

def render (ps : List Piece) : List Char := ps.flatMap (Piece.shown marker)

@[simp] theorem render_nil : render marker [] = [] := rfl

@[simp] theorem render_kept (c : Char) (ps : List Piece) :
    render marker (kept c :: ps) = c :: render marker ps := rfl

@[simp] theorem render_secret (cs : List Char) (ps : List Piece) :
    render marker (secret cs :: ps) = marker ++ render marker ps := rfl

@[simp] theorem render_append (a b : List Piece) :
    render marker (a ++ b) = render marker a ++ render marker b :=
  flatMap_append

@[simp] theorem render_map_kept (cs : List Char) : render marker (cs.map kept) = cs := by
  induction cs with
  | nil => rfl
  | cons c cs ih => rw [map_cons, render_kept, ih]

end

@[simp] theorem source_nil : source [] = [] := rfl

@[simp] theorem source_kept (c : Char) (ps : List Piece) :
    source (kept c :: ps) = c :: source ps := rfl

@[simp] theorem source_secret (cs : List Char) (ps : List Piece) :
    source (secret cs :: ps) = cs ++ source ps := rfl

@[simp] theorem source_append (a b : List Piece) : source (a ++ b) = source a ++ source b :=
  flatMap_append

@[simp] theorem source_map_kept (cs : List Char) : source (cs.map kept) = cs := by
  induction cs with
  | nil => rfl
  | cons c cs ih => rw [map_cons, source_kept, ih]

theorem take_lead {n : ℕ} {ps : List Piece} (h : n ≤ (lead ps).length) :
    ps = ((lead ps).take n).map kept ++ ps.drop n := by
  induction n generalizing ps with
  | zero => rfl
  | succ n ih =>
    match ps, h with
    | kept c :: ps, h =>
      have hrest := ih (Nat.le_of_succ_le_succ h)
      rw [lead, take_succ_cons, map_cons, drop_succ_cons, cons_append, ← hrest]

@[simp] theorem lead_map_kept_append (cs : List Char) (b : List Piece) :
    lead (cs.map kept ++ b) = cs ++ lead b := by
  induction cs with
  | nil => rfl
  | cons c cs ih => rw [map_cons, cons_append, lead, ih, cons_append]

theorem split_render {marker m rest : List Char} {ps : List Piece}
    (h : render marker ps = m ++ rest) :
    (∃ b, ps = m.map kept ++ b ∧ render marker b = rest) ∨
      ∃ u s b m', ps = u.map kept ++ secret s :: b ∧ m = u ++ m' ∧ m' ≠ [] ∧
        marker ++ render marker b = m' ++ rest := by
  induction m generalizing ps with
  | nil => exact .inl ⟨ps, rfl, h⟩
  | cons c m ih =>
    match ps, h with
    | kept d :: ps, h =>
      obtain ⟨rfl, hrest⟩ := List.cons.inj h
      rcases ih hrest with ⟨b, rfl, hb⟩ | ⟨u, s, b, m', rfl, rfl, hm', hb⟩
      · exact .inl ⟨b, rfl, hb⟩
      · exact .inr ⟨d :: u, s, b, m', rfl, rfl, hm', hb⟩
    | secret s :: ps, h => exact .inr ⟨[], s, ps, c :: m, rfl, rfl, by simp, h⟩

/-! ### Cutting out the matches of one pattern -/

section

variable (w : Char → Bool) (marker : List Char)

def mark (r : Pattern) : ℕ → Option Char → List Piece → List Piece
  | _, _, [] => []
  | 0, prev, kept x :: ps =>
    match r.matchLength w prev (x :: render marker ps) with
    | some (n + 1) => secret (x :: (lead ps).take n) :: mark r n (some x) ps
    | _ => kept x :: mark r 0 (some x) ps
  | 0, prev, secret cs :: ps => secret cs :: mark r 0 (lastChar prev marker) ps
  | skip + 1, prev, p :: ps => mark r skip (lastChar prev (p.shown marker)) ps

def Fits (r : Pattern) (ps : List Piece) : Prop :=
  ∀ a x b prev n, ps = a ++ kept x :: b →
    r.matchLength w prev (x :: render marker b) = some (n + 1) → n ≤ (lead b).length

def Inert (r : Pattern) : Prop :=
  ∀ a c b prev rest, marker = a ++ c :: b →
    r.matchLength w (lastChar prev a) (c :: (b ++ rest)) = none

structure Tight (r : Pattern) : Prop where
  avoids : ∀ c, marker.head? = some c → r.body.alphabet c = false
  inert : Inert w marker r

variable {w marker} {r : Pattern}

theorem Fits.of_append {a b : List Piece} (h : Fits w marker r (a ++ b)) : Fits w marker r b :=
  fun a' x b' prev n hb => h (a ++ a') x b' prev n (by rw [hb, append_assoc])

theorem fits_map_kept (cs : List Char) : Fits w marker r (cs.map kept) := by
  rintro a x b prev n hb hmatch
  obtain ⟨a', b', -, -, hb'⟩ := map_eq_append_iff.mp hb
  obtain ⟨x', b'', -, -, rfl⟩ := map_eq_cons_iff.mp hb'
  have hlen := (Pattern.matchAt_of_matchLength hmatch).1
  have hlead : lead (b''.map kept) = b'' := by simpa [lead] using lead_map_kept_append b'' []
  rw [render_map_kept, length_cons] at hlen
  rw [hlead]
  omega

variable {ps : List Piece} {prev : Option Char}

theorem Tight.split (h : Tight w marker r) (hmarker : marker ≠ []) {m rest : List Char} (hm :
    r.body.accepts m) (hps : render marker ps = m ++ rest) : ∃ b, ps = m.map kept ++ b ∧ render
    marker b = rest := by
  rcases split_render hps with hkept | ⟨u, s, b, m', -, rfl, hne, hb⟩
  · exact hkept
  · -- the match would contain the first character of the marker
    obtain ⟨c, marker', rfl⟩ := exists_cons_of_ne_nil hmarker
    obtain ⟨d, m'', rfl⟩ := exists_cons_of_ne_nil hne
    obtain ⟨rfl, -⟩ := List.cons.inj hb
    have halpha := Regex.alphabet_of_accepts hm c (by simp)
    rw [h.avoids c rfl] at halpha
    cases halpha

theorem Tight.fits (h : Tight w marker r) (hmarker : marker ≠ []) (ps : List Piece) :
    Fits w marker r ps := by
  rintro a x b prev n - hmatch
  obtain ⟨hlen, hat⟩ := Pattern.matchAt_of_matchLength hmatch
  have hsplit : render marker (kept x :: b) = _ := (take_append_drop (n + 1) _).symm
  obtain ⟨b', hb', -⟩ := h.split hmarker hat.accepts hsplit
  have hlead := congrArg (fun ps => (lead ps).length) hb'
  simp only [lead, lead_map_kept_append, length_cons, length_append, length_take]
    at hlead hlen
  omega

theorem mark_skip {n : ℕ} (h : n ≤ (lead ps).length) :
    mark w marker r n prev ps =
      mark w marker r 0 (lastChar prev ((lead ps).take n)) (ps.drop n) := by
  induction n generalizing prev ps with
  | zero => rfl
  | succ n ih =>
    match ps, h with
    | kept c :: ps, h =>
      rw [mark, ih (Nat.le_of_succ_le_succ h), lead, take_succ_cons, lastChar_cons, drop_succ_cons]
      rfl

variable (w marker r) in
inductive Marks : Option Char → List Piece → List Piece → Prop
  | nil {prev : Option Char} : Marks prev [] []
  | passed {prev : Option Char} {cs : List Char} {ps qs : List Piece}
      (hrest : Marks (lastChar prev marker) ps qs) : Marks prev (secret cs :: ps) (secret cs :: qs)
  | found {prev : Option Char} {x : Char} {m : List Char} {ps qs : List Piece}
      (hmatch : r.matchLength w prev (x :: (m ++ render marker ps)) = some (m.length + 1))
      (hrest : Marks (lastChar (some x) m) ps qs) :
      Marks prev (kept x :: (m.map kept ++ ps)) (secret (x :: m) :: qs)
  | left {prev : Option Char} {x : Char} {ps qs : List Piece}
      (hno : ∀ n, r.matchLength w prev (x :: render marker ps) ≠ some (n + 1))
      (hrest : Marks (some x) ps qs) : Marks prev (kept x :: ps) (kept x :: qs)

theorem marks_mark (hfits : Fits w marker r ps) (prev : Option Char) :
    Marks w marker r prev ps (mark w marker r 0 prev ps) := by
  -- a match takes several pieces at once, so the induction is on the number of pieces
  induction hk : ps.length using Nat.strong_induction_on generalizing ps prev with
  | _ k ih =>
    subst hk
    match ps, hfits with
    | [], _ => exact .nil
    | secret cs :: ps, hfits =>
      exact .passed (ih ps.length (by simp) (hfits.of_append (a := [secret cs])) _ rfl)
    | kept x :: ps, hfits =>
      rw [mark]
      split
      · rename_i n hn
        have hfit := hfits [] x ps prev n rfl hn
        have hps := take_lead hfit
        have hlen : ((lead ps).take n).length = n := by simp [hfit]
        have hfits' : Fits w marker r (ps.drop n) :=
          Fits.of_append (a := kept x :: ((lead ps).take n).map kept) (by
            rwa [cons_append, ← hps])
        have hrest := ih (ps.drop n).length
          (by rw [length_drop, length_cons]; omega) hfits'
          (lastChar (some x) ((lead ps).take n)) rfl
        have hrender := congrArg (render marker) hps
        rw [render_append, render_map_kept] at hrender
        rw [mark_skip hfit]
        have hfound := Marks.found (by rw [hlen, ← hrender]; exact hn) hrest
        rwa [← hps] at hfound
      · rename_i hno
        exact .left hno (ih ps.length (by simp) (hfits.of_append (a := [kept x])) _ rfl)

theorem Inert.sub_marker (h : Inert w marker r) (prev : Option Char) (rest : List Char) :
    r.sub w marker 0 prev (marker ++ rest) =
      marker ++ r.sub w marker 0 (lastChar prev marker) rest := by
  have hpart : ∀ b a, marker = a ++ b → r.sub w marker 0 (lastChar prev a) (b ++ rest) =
      b ++ r.sub w marker 0 (lastChar prev marker) rest := by
    intro b
    induction b with
    | nil =>
      rintro a rfl
      simp
    | cons c b ih =>
      intro a hab
      have hnone := h a c b prev rest hab
      have hrest := ih (a ++ [c]) (by rw [hab, append_assoc]; rfl)
      rw [lastChar_concat] at hrest
      rw [cons_append, Pattern.sub_of_no_match (fun n hn => by rw [hnone] at hn; cases hn),
        hrest, cons_append]
  exact hpart marker [] rfl

variable {qs : List Piece}

theorem Marks.render_eq (h : Marks w marker r prev ps qs)
    (hinert : ∀ cs, secret cs ∈ ps → Inert w marker r) :
    render marker qs = r.sub w marker 0 prev (render marker ps) := by
  induction h with
  | nil => rfl
  | @passed prev cs ps qs _ ih =>
    have hrest := ih fun cs' h => hinert cs' (mem_cons_of_mem _ h)
    rw [render_secret, render_secret, (hinert cs mem_cons_self).sub_marker, hrest]
  | @found prev x m ps qs hmatch _ ih =>
    have hrest := ih fun cs h => hinert cs (by simp [h])
    rw [render_secret, render_kept, render_append, render_map_kept, Pattern.sub_of_match hmatch,
      take_left, drop_left, hrest]
  | left hno _ ih =>
    have hrest := ih fun cs h => hinert cs (mem_cons_of_mem _ h)
    rw [render_kept, render_kept, Pattern.sub_of_no_match hno, hrest]

theorem Marks.source_eq (h : Marks w marker r prev ps qs) : source qs = source ps := by
  induction h with
  | nil => rfl
  | passed _ ih => rw [source_secret, source_secret, ih]
  | found _ _ ih => simp [ih]
  | left _ _ ih => rw [source_kept, source_kept, ih]

end

/-! ### Matches among the kept characters -/

section

variable (w : Char → Bool) (marker : List Char)

structure Opens (r : Pattern) : Prop where
  boundary : r.startBoundary = true
  nonempty : r.body.nullable = false
  word : ∀ c, r.body.first c = true → w c = true

def Seals (q r : Pattern) : Prop :=
  ∀ prev xs n c, q.matchLength w prev xs = some n → (xs.drop n).head? = some c →
    r.body.first c = true → (lastChar prev (xs.take n)).any w = false

def KeptAt (r : Pattern) (prev : Option Char) (ps : List Piece) : Prop :=
  ∃ cs b, ps = cs.map kept ++ b ∧ r.MatchAt w prev cs (render marker b).head?

def KeptIn (r : Pattern) (prev : Option Char) (ps : List Piece) : Prop :=
  ∃ a b, ps = a ++ b ∧ KeptAt w marker r (lastChar prev (render marker a)) b

variable {w marker} {q r : Pattern}

theorem Opens.cons (h : Opens w r) {cs : List Char} (hcs : r.body.accepts cs) :
    ∃ c cs', cs = c :: cs' ∧ r.body.first c = true := by
  rcases cs with _ | ⟨c, cs⟩
  · have hnull := Regex.nullable_of_accepts_nil hcs
    rw [h.nonempty] at hnull
    cases hnull
  · exact ⟨c, cs, rfl, Regex.first_of_accepts hcs⟩

variable {prev : Option Char} {ps : List Piece}

theorem Opens.not_keptAt_nil (h : Opens w r) :
    ¬ KeptAt w marker r prev [] := by
  rintro ⟨cs, b, hnil, hat⟩
  obtain ⟨c, cs', rfl, -⟩ := h.cons hat.accepts
  cases hnil

theorem Opens.not_keptAt_secret (h : Opens w r) {s : List Char} : ¬ KeptAt w marker r prev (secret s
    :: ps) := by
  rintro ⟨cs, b, hnil, hat⟩
  obtain ⟨c, cs', rfl, -⟩ := h.cons hat.accepts
  cases hnil

theorem Opens.inert (hr : Opens w r) (h : ∀ a c b, marker = a ++ c :: b →
    r.body.first c = true → a.getLast?.any w = true) : Inert w marker r := by
  intro a c b prev rest hmarker
  rw [Pattern.matchLength_eq_none]
  intro m rest' hm hat
  obtain ⟨d, m', rfl, hd⟩ := hr.cons hat.accepts
  obtain ⟨rfl, -⟩ := List.cons.inj hm
  have hlast := h a c b hmarker hd
  have hstart := hat.start hr.boundary
  rcases hgetLast : a.getLast? with _ | e
  · rw [hgetLast] at hlast
    cases hlast
  · rw [hgetLast] at hlast
    rw [lastChar, hgetLast] at hstart
    simp_all [wordBoundary, hr.word c hd]

theorem Opens.seals_of_endBoundary (hr : Opens w r) (hq : q.endBoundary = true) : Seals w q r := by
  intro prev xs n c hmatch hc hfirst
  have hstop := (Pattern.matchAt_of_matchLength hmatch).2.stop hq
  rw [hc] at hstop
  simpa [wordBoundary, hr.word c hfirst] using hstop

theorem keptIn_cons {p : Piece} :
    KeptIn w marker r prev (p :: ps) ↔ KeptAt w marker r prev (p :: ps) ∨
      KeptIn w marker r (lastChar prev (p.shown marker)) ps := by
  constructor
  · rintro ⟨_ | ⟨p', a⟩, b, hab, hat⟩
    · rw [nil_append] at hab
      exact .inl (hab ▸ hat)
    · obtain ⟨rfl, rfl⟩ := List.cons.inj hab
      refine .inr ⟨a, b, rfl, ?_⟩
      rwa [← lastChar_append]
  · rintro (hat | ⟨a, b, rfl, hat⟩)
    · exact ⟨[], _, rfl, hat⟩
    · refine ⟨p :: a, b, rfl, ?_⟩
      rwa [← lastChar_append] at hat

theorem Marks.lead {qs b : List Piece} {cs : List Char}
    (hmarker : marker ≠ []) (hq : Opens w q) (h : Marks w marker q prev ps qs)
    (hqs : qs = cs.map kept ++ b) :
    ∃ b', ps = cs.map kept ++ b' ∧ ((render marker b').head? = (render marker b).head? ∨
      wordBoundary w (lastChar prev cs) (render marker b').head? = true) := by
  induction h generalizing cs b with
  | nil =>
    obtain ⟨hcs, rfl⟩ := append_eq_nil_iff.mp hqs.symm
    obtain rfl := map_eq_nil_iff.mp hcs
    exact ⟨[], rfl, .inl rfl⟩
  | @passed prev s ps qs _ _ =>
    rcases cs with _ | ⟨c, cs⟩
    · obtain ⟨c, marker', rfl⟩ := exists_cons_of_ne_nil hmarker
      obtain rfl := hqs.symm
      exact ⟨secret s :: ps, rfl, .inl rfl⟩
    · cases hqs
  | @found prev x m ps qs hmatch _ _ =>
    rcases cs with _ | ⟨c, cs⟩
    · refine ⟨_, rfl, .inr ?_⟩
      have hstart := (Pattern.matchAt_of_matchLength hmatch).2.start hq.boundary
      rwa [← List.head?_append, take_append_drop] at hstart
    · cases hqs
  | @left prev x ps qs _ _ ih =>
    rcases cs with _ | ⟨c, cs⟩
    · obtain rfl := hqs.symm
      exact ⟨kept x :: ps, rfl, .inl rfl⟩
    · obtain ⟨hx, hrest⟩ := List.cons.inj hqs
      cases hx
      obtain ⟨b', rfl, hb'⟩ := ih hrest
      exact ⟨b', rfl, by rwa [lastChar_cons]⟩

/-- **No new matches.** Cutting out the matches of `q` leaves `r` no kept characters to match if it
had none before. -/
theorem Marks.not_keptIn {prev' : Option Char} {qs : List Piece} (hmarker : marker ≠ [])
    (hq : Opens w q) (hr : Opens w r) (hseals : Seals w q r) (h : Marks w marker q prev ps qs)
    (hno : ∀ a x b, ps = a ++ kept x :: b →
      (∀ n, q.matchLength w (lastChar prev (render marker a)) (x :: render marker b) ≠
        some (n + 1)) → ¬ KeptAt w marker r (lastChar prev (render marker a)) (kept x :: b))
    (hprev : ∀ c, r.body.first c = true → (render marker ps).head? = some c →
      wordBoundary w prev' (some c) = true → wordBoundary w prev (some c) = true) :
    ¬ KeptIn w marker r prev' qs := by
  induction h generalizing prev' with
  | nil =>
    rintro ⟨a, b, hab, hat⟩
    obtain ⟨rfl, rfl⟩ := append_eq_nil_iff.mp hab.symm
    exact hr.not_keptAt_nil hat
  | @passed prev s ps qs _ ih =>
    rw [keptIn_cons]
    refine not_or.mpr ⟨hr.not_keptAt_secret, ih ?_ ?_⟩
    · intro a x b hps hnone hat
      refine hno (secret s :: a) x b (by rw [hps]; rfl) ?_ ?_ <;>
        rwa [render_secret, lastChar_append]
    · intro c _ _ hb
      rwa [Piece.shown, lastChar_of_ne_nil hmarker prev' prev] at hb
  | @found prev x m ps qs hmatch _ ih =>
    rw [keptIn_cons]
    refine not_or.mpr ⟨hr.not_keptAt_secret, ih ?_ ?_⟩
    · intro a y b hps hnone hat
      refine hno (kept x :: (m.map kept ++ a)) y b (by rw [hps]; simp) ?_ ?_ <;>
        simpa using ‹_›
    · -- `q` seals `r`: the match ends with a character that is no word character
      intro c hc hhead _
      have hlast := hseals _ _ _ c hmatch (by simpa using hhead) hc
      simp only [take_succ_cons, take_left, lastChar_cons] at hlast
      simp [wordBoundary, hlast, hr.word c hc]
  | @left prev x ps qs hnone hrest ih =>
    rw [keptIn_cons]
    refine not_or.mpr ⟨?_, ih ?_ fun c _ _ hb => hb⟩
    · rintro ⟨cs, b, hcs, hat⟩
      obtain ⟨c, cs', rfl, hc⟩ := hr.cons hat.accepts
      obtain ⟨hx, hqs⟩ := List.cons.inj hcs
      cases hx
      obtain ⟨b', rfl, hb'⟩ := hrest.lead hmarker hq hqs
      refine hno [] x (cs'.map kept ++ b') rfl hnone ⟨x :: cs', b', rfl, hat.accepts, ?_, ?_⟩
      · exact fun hb => hprev x hc rfl (hat.start hb)
      · intro hb
        have hstop := hat.stop hb
        rw [lastChar_cons] at hstop ⊢
        rcases hb' with hhead | hboundary
        · rwa [hhead]
        · exact hboundary
    · intro a y b hps hnone' hat
      refine hno (kept x :: a) y b (by rw [hps]; rfl) ?_ ?_ <;> rwa [render_kept, lastChar_cons]

theorem not_keptIn_mark_self (hmarker : marker ≠ [])
    (hr : Opens w r) (hseals : Seals w r r) (hfits : Fits w marker r ps) :
    ¬ KeptIn w marker r prev (mark w marker r 0 prev ps) := by
  refine (marks_mark hfits prev).not_keptIn hmarker hr hr hseals ?_ fun c _ _ hb => hb
  rintro a x b - hnone ⟨cs, b', hcs, hat⟩
  have hrender := congrArg (render marker) hcs
  rw [render_kept, render_append, render_map_kept] at hrender
  rcases hlen : r.matchLength w (lastChar prev (render marker a)) (x :: render marker b) with _ | n
  · exact Pattern.matchLength_eq_none.mp hlen cs _ hrender hat
  · rcases n with _ | n
    · -- the pattern does not match the empty text
      obtain ⟨c, cs', hnil, -⟩ := hr.cons (Pattern.matchAt_of_matchLength hlen).2.accepts
      cases hnil
    · exact hnone n hlen

theorem Inert.matchIn_render (h : Inert w marker r) (hr : Opens w r)
    {m : List Char} (hm : r.MatchIn w prev m (render marker ps)) :
    ∃ a x b rest, ps = a ++ kept x :: b ∧ render marker (kept x :: b) = m ++ rest ∧
      r.MatchAt w (lastChar prev (render marker a)) m rest.head? := by
  induction ps generalizing prev with
  | nil =>
    obtain ⟨a, b, hab, hat⟩ := hm
    obtain ⟨c, m', rfl, -⟩ := hr.cons hat.accepts
    simp at hab
  | cons p ps ih =>
    -- a match that begins behind the piece `p` is a match in the rest
    have hbehind : r.MatchIn w (lastChar prev (p.shown marker)) m (render marker ps) →
        ∃ a x b rest, p :: ps = a ++ kept x :: b ∧ render marker (kept x :: b) = m ++ rest ∧
          r.MatchAt w (lastChar prev (render marker a)) m rest.head? := by
      intro hm
      obtain ⟨a, x, b, rest, rfl, hrest, hat⟩ := ih hm
      refine ⟨p :: a, x, b, rest, rfl, hrest, ?_⟩
      rwa [← lastChar_append] at hat
    obtain ⟨a, b, hab, hat⟩ := hm
    cases p with
    | kept x =>
      rcases a with _ | ⟨y, a⟩
      · exact ⟨[], x, ps, b, rfl, hab, hat⟩
      · obtain ⟨rfl, hrest⟩ := List.cons.inj hab
        exact hbehind ⟨a, b, hrest, by rwa [lastChar_cons] at hat⟩
    | secret s =>
      rcases append_eq_append_iff.mp hab with ⟨a', rfl, hrest⟩ | ⟨m', hmarker, hrest⟩
      · exact hbehind ⟨a', b, hrest, by rwa [lastChar_append] at hat⟩
      · rcases m' with _ | ⟨c, m'⟩
        · rw [append_nil] at hmarker
          subst hmarker
          exact hbehind ⟨[], b, hrest.symm, hat⟩
        · -- the match would begin inside the marker
          have hnone := h a c m' prev (render marker ps) hmarker
          exact absurd hat (Pattern.matchLength_eq_none.mp hnone m b hrest.symm)

theorem Tight.not_occurs_render (h : Tight w marker r) (hmarker : marker ≠ []) (hr : Opens w r)
    (hps : ¬ KeptIn w marker r prev ps) : ¬ r.Occurs w prev (render marker ps) := by
  rintro ⟨m, hm⟩
  obtain ⟨a, x, b, rest, rfl, hrest, hat⟩ := h.inert.matchIn_render hr hm
  obtain ⟨b', hb', rfl⟩ := h.split hmarker hat.accepts hrest
  exact hps ⟨a, _, rfl, m, b', hb', hat⟩

end

/-! ### A list of patterns -/

section

variable (w : Char → Bool) (marker : List Char)

def subAll (rs : List Pattern) (xs : List Char) : List Char :=
  rs.foldl (fun xs r => r.sub w marker 0 none xs) xs

def cut (rs : List Pattern) (ps : List Piece) : List Piece :=
  rs.foldl (fun ps r => mark w marker r 0 none ps) ps

variable {w marker} {rs : List Pattern}

variable {xs : List Char}

theorem subAll_of_not_occurs (h : ∀ r ∈ rs, ¬ r.Occurs w none xs) : subAll w marker rs xs = xs := by
  induction rs with
  | nil => rfl
  | cons r rs ih =>
    rw [subAll, foldl_cons, Pattern.sub_of_not_occurs (h r mem_cons_self)]
    exact ih fun r' hr' => h r' (mem_cons_of_mem _ hr')

theorem mark_of_not_occurs {r : Pattern} {prev : Option Char} (h : ¬ r.Occurs w prev xs) :
    mark w marker r 0 prev (xs.map kept) = xs.map kept := by
  rw [← Pattern.search_iff] at h
  induction xs generalizing prev with
  | nil => rfl
  | cons x xs ih =>
    rw [Pattern.search, Bool.or_eq_true, not_or] at h
    rw [map_cons, mark, render_map_kept, ih h.2]
    split
    · rename_i n hn
      exact absurd (by rw [hn]; rfl) h.1
    · rfl

theorem cut_of_not_occurs (h : ∀ r ∈ rs, ¬ r.Occurs w none xs) :
    cut w marker rs (xs.map kept) = xs.map kept := by
  induction rs with
  | nil => rfl
  | cons r rs ih =>
    rw [cut, foldl_cons, mark_of_not_occurs (h r mem_cons_self)]
    exact ih fun r' hr' => h r' (mem_cons_of_mem _ hr')

theorem render_cut (hmarker : marker ≠ []) (h : ∀ r ∈ rs, Tight w marker r) (ps : List Piece) :
    render marker (cut w marker rs ps) = subAll w marker rs (render marker ps) := by
  induction rs generalizing ps with
  | nil => rfl
  | cons r rs ih =>
    have htight := h r mem_cons_self
    have hone := (marks_mark (htight.fits hmarker ps) none).render_eq fun _ _ => htight.inert
    rw [subAll, foldl_cons, ← hone]
    exact ih (fun r' hr' => h r' (mem_cons_of_mem _ hr')) _

theorem source_cut (hmarker : marker ≠ []) (h : ∀ r ∈ rs, Tight w marker r) (ps : List Piece) :
    source (cut w marker rs ps) = source ps := by
  induction rs generalizing ps with
  | nil => rfl
  | cons r rs ih =>
    have hfits := (h r mem_cons_self).fits hmarker ps
    exact (ih (fun r' hr' => h r' (mem_cons_of_mem _ hr')) _).trans
      (marks_mark hfits none).source_eq

/-- **Nothing is left to match** behind a run of tight patterns, for them and for a pattern that did
not match before. -/
theorem not_keptIn_cut (hmarker : marker ≠ []) (h : ∀ q ∈ rs, Tight w marker q ∧ Opens w q)
    {r : Pattern} (hr : Opens w r) (hseals : ∀ q ∈ rs, Seals w q r) {ps : List Piece}
    (hbefore : r ∈ rs ∨ ¬ KeptIn w marker r none ps) :
    ¬ KeptIn w marker r none (cut w marker rs ps) := by
  induction rs generalizing ps with
  | nil => exact hbefore.resolve_left not_mem_nil
  | cons q rs ih =>
    obtain ⟨htight, hq⟩ := h q mem_cons_self
    have hfits := htight.fits hmarker ps
    refine ih (fun q' hq' => h q' (mem_cons_of_mem _ hq'))
      (fun q' hq' => hseals q' (mem_cons_of_mem _ hq')) ?_
    rcases hbefore with hmem | hno
    · rcases mem_cons.mp hmem with rfl | hmem
      · exact .inr (not_keptIn_mark_self hmarker hr (hseals r mem_cons_self) hfits)
      · exact .inl hmem
    · refine .inr ((marks_mark hfits _).not_keptIn hmarker hq hr (hseals q mem_cons_self) ?_
        fun c _ _ hb => hb)
      rintro a x b rfl - hat
      exact hno ⟨a, kept x :: b, rfl, hat⟩

end

end Foundation
