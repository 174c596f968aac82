import ContextLattice.Foundation.Python
import ContextLattice.Foundation.Redaction

/-!
# Texts under a veil

Under the **veil** a character of a text is a `Cell`: in the clear, or hidden. `uncover` prints
cells, with a marker for every hidden stretch.
-/

namespace Foundation

open Piece

/-! ### Cells -/

inductive Cell where
  | clear (c : Char)
  | hidden (first : Bool)
deriving DecidableEq

namespace Cell

def isClear : Cell → Bool
  | clear _ => true
  | hidden _ => false

def shown (marker : List Char) : Cell → List Char
  | clear c => [c]
  | hidden first => if first then marker else []

end Cell

def Piece.cells : Piece → List Cell
  | kept c => [.clear c]
  | secret [] => []
  | secret (_ :: cs) => .hidden true :: cs.map fun _ => .hidden false

def veil (ps : List Piece) : List Cell := ps.flatMap Piece.cells

def uncover (marker : List Char) (cells : List Cell) : List Char :=
  cells.flatMap (Cell.shown marker)

@[simp] theorem veil_nil : veil [] = [] := rfl

@[simp] theorem veil_cons (p : Piece) (ps : List Piece) : veil (p :: ps) = p.cells ++ veil ps := rfl

@[simp] theorem veil_map_kept (cs : List Char) : veil (cs.map kept) = cs.map Cell.clear := by
  induction cs with
  | nil => rfl
  | cons c cs ih => rw [List.map_cons, veil_cons, ih]; rfl

def Proper (ps : List Piece) : Prop := ∀ cs, secret cs ∈ ps → cs ≠ []

variable {ps : List Piece} {marker : List Char}

theorem Proper.tail {p : Piece} (h : Proper (p :: ps)) : Proper ps :=
  fun cs hcs => h cs (List.mem_cons_of_mem _ hcs)

theorem proper_map_kept (cs : List Char) : Proper (cs.map kept) := by
  intro s hs
  obtain ⟨c, -, hc⟩ := List.mem_map.mp hs
  cases hc

variable {w : Char → Bool}

theorem Proper.mark {r : Pattern} (h : Proper ps) (n : ℕ) (prev : Option Char) :
    Proper (mark w marker r n prev ps) := by
  induction ps generalizing n prev with
  | nil => cases n <;> exact h
  | cons p ps ih =>
    rcases n with _ | n
    · rcases p with x | cs
      · rw [Foundation.mark]
        split
        · intro cs hcs
          rcases List.mem_cons.mp hcs with hcs | hcs
          · rw [Piece.secret.inj hcs]
            exact List.cons_ne_nil _ _
          · exact ih h.tail _ _ cs hcs
        · intro cs hcs
          rcases List.mem_cons.mp hcs with hcs | hcs
          · cases hcs
          · exact ih h.tail _ _ cs hcs
      · intro s hs
        rcases List.mem_cons.mp hs with hs | hs
        · exact h s (hs ▸ List.mem_cons_self)
        · exact ih h.tail _ _ s hs
    · rw [Foundation.mark]
      exact ih h.tail _ _

theorem Proper.cut (h : Proper ps) (rs : List Pattern) : Proper (cut w marker rs ps) := by
  induction rs generalizing ps with
  | nil => exact h
  | cons r rs ih => exact ih (h.mark 0 none)

theorem uncover_veil (h : Proper ps) :
    uncover marker (veil ps) = render marker ps := by
  induction ps with
  | nil => rfl
  | cons p ps ih =>
    rw [veil_cons, uncover, List.flatMap_append, ← uncover, ← uncover, ih h.tail]
    match p, h with
    | kept c, _ => rfl
    | secret [], h => exact absurd rfl (h [] List.mem_cons_self)
    | secret (c :: cs), _ =>
      have hrest : uncover marker (cs.map fun _ => .hidden false) = [] := by
        simp [uncover, Cell.shown]
      rw [Piece.cells, uncover, List.flatMap_cons, ← uncover, hrest, List.append_nil]
      rfl

theorem length_veil (ps : List Piece) : (veil ps).length = (source ps).length := by
  induction ps with
  | nil => rfl
  | cons p ps ih =>
    match p with
    | kept c => simp [Piece.cells, ih]
    | secret [] => simp [Piece.cells, ih]
    | secret (c :: cs) => simp [Piece.cells, ih]

end Foundation
