import Mathlib.Data.List.Basic

/-!
# Words

The words of a text are what stands between its blanks.
-/

namespace Foundation

open List

variable {α : Type*} (blank : α → Bool)

def wordsOf (l : List α) : List (List α) := (l.splitOnP blank).filter fun word => !word.isEmpty

def letters (l : List α) : List α := l.filter fun x => !blank x

variable {blank}

variable {x : α}

theorem letters_cons_of_blank (hx : blank x = true) (l : List α) :
    letters blank (x :: l) = letters blank l :=
  filter_cons_of_neg (by simpa using hx)

theorem letters_cons (hx : blank x = false) (l : List α) :
    letters blank (x :: l) = x :: letters blank l :=
  filter_cons_of_pos (by simpa using hx)

@[simp] theorem letters_append (l m : List α) :
    letters blank (l ++ m) = letters blank l ++ letters blank m :=
  filter_append ..

theorem letters_eq_nil {l : List α} : letters blank l = [] ↔ ∀ x ∈ l, blank x = true := by
  simp [letters]

theorem wordsOf_append_cons (hx : blank x = true) (l m : List α) :
    wordsOf blank (l ++ x :: m) = wordsOf blank l ++ wordsOf blank m := by
  rw [wordsOf, splitOnP_append_cons l m hx, filter_append, wordsOf, wordsOf]

theorem wordsOf_cons_of_blank (hx : blank x = true) (l : List α) :
    wordsOf blank (x :: l) = wordsOf blank l :=
  wordsOf_append_cons hx [] l

theorem flatten_wordsOf (l : List α) : (wordsOf blank l).flatten = letters blank l := by
  induction l with
  | nil => rfl
  | cons x l ih =>
    by_cases hx : blank x = true
    · rw [wordsOf_cons_of_blank hx, ih, letters_cons_of_blank hx]
    · obtain ⟨first, rest, hsplit⟩ := exists_cons_of_ne_nil (splitOnP_ne_nil blank l)
      rw [wordsOf, hsplit] at ih
      rw [wordsOf, splitOnP_cons_eq_if_modifyHead, if_neg hx, hsplit, modifyHead_cons,
        letters_cons (Bool.eq_false_iff.mpr hx), ← ih]
      cases first <;> simp

theorem wordsOf_blanks_append {a : List α} (ha : ∀ x ∈ a, blank x = true) (l : List α) :
    wordsOf blank (a ++ l) = wordsOf blank l := by
  induction a with
  | nil => rfl
  | cons x a ih =>
    rw [cons_append, wordsOf_cons_of_blank (ha x mem_cons_self),
      ih fun y hy => ha y (mem_cons_of_mem _ hy)]

theorem wordsOf_append_blanks {b : List α} (hb : ∀ x ∈ b, blank x = true) (l : List α) :
    wordsOf blank (l ++ b) = wordsOf blank l := by
  rcases b with _ | ⟨x, b⟩
  · rw [append_nil]
  · have hnone := wordsOf_blanks_append (fun y hy => hb y (mem_cons_of_mem _ hy)) []
    rw [append_nil] at hnone
    rw [wordsOf_append_cons (hb x mem_cons_self), hnone]
    exact append_nil _

end Foundation
