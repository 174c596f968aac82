import Mathlib.Data.List.Basic

/-!
# Runs of a deterministic machine

A run is the left fold of a step function over a list of events. Nondeterminism is carried by the
events. `Along step Ok s es`: every event of the run is taken in a state that meets `Ok`.
-/

namespace Foundation

variable {σ ε : Type*}

def run (step : σ → ε → σ) (s : σ) (es : List ε) : σ := es.foldl step s

variable (step : σ → ε → σ) (s : σ)

@[simp] theorem run_nil : run step s [] = s := rfl

@[simp] theorem run_cons (e : ε) (es : List ε) :
    run step s (e :: es) = run step (step s e) es := rfl

@[simp] theorem run_append (xs ys : List ε) : run step s (xs ++ ys) = run step (run step s xs) ys :=
  List.foldl_append

def Along (step : σ → ε → σ) (Ok : σ → ε → Prop) : σ → List ε → Prop
  | _, [] => True
  | s, e :: es => Ok s e ∧ Along step Ok (step s e) es

variable {step : σ → ε → σ} {Ok : σ → ε → Prop} {s : σ}

instance [∀ s e, Decidable (Ok s e)] : ∀ (s : σ) (es : List ε), Decidable (Along step Ok s es)
  | _, [] => isTrue trivial
  | s, e :: es =>
    have : Decidable (Along step Ok (step s e) es) := instDecidableAlong (step s e) es
    inferInstanceAs (Decidable (Ok s e ∧ Along step Ok (step s e) es))

@[simp] theorem along_nil : Along step Ok s [] := trivial

@[simp] theorem along_cons {e : ε} {es : List ε} :
    Along step Ok s (e :: es) ↔ Ok s e ∧ Along step Ok (step s e) es := Iff.rfl

@[simp] theorem along_append {xs ys : List ε} :
    Along step Ok s (xs ++ ys) ↔ Along step Ok s xs ∧ Along step Ok (run step s xs) ys := by
  induction xs generalizing s with
  | nil => simp
  | cons e xs ih => simp [ih, and_assoc]

theorem Along.step_of_append {pre post : List ε} {e : ε} (h : Along step Ok s (pre ++ e :: post)) :
    Along step Ok s pre ∧ Ok (run step s pre) e := by
  rw [along_append] at h
  exact ⟨h.1, h.2.1⟩

variable {es : List ε}

theorem along_iff :
    Along step Ok s es ↔ ∀ pre e post, es = pre ++ e :: post → Ok (run step s pre) e := by
  refine ⟨?_, fun h => ?_⟩
  · rintro h pre e post rfl
    exact h.step_of_append.2
  · induction es generalizing s with
    | nil => trivial
    | cons e es ih =>
      refine ⟨h [] e es rfl, ih fun pre e' post hes => ?_⟩
      simpa using h (e :: pre) e' post (by simp [hes])

theorem Along.invariant {Inv : σ → Prop} (hstep : ∀ s e, Inv s → Ok s e → Inv (step s e))
    (hs : Inv s) (h : Along step Ok s es) : Inv (run step s es) := by
  induction es generalizing s with
  | nil => exact hs
  | cons e es ih => exact ih (hstep s e hs h.1) h.2

/-- **Exact conditions.** If a step keeps `P` exactly when `Ok` is met, the states of a run all meet
`P` exactly when the run is permitted. -/
theorem forall_run_iff_along {Inv P : σ → Prop}
    (hiff : ∀ s e, Inv s → P s → (P (step s e) ↔ Ok s e))
    (hinv : ∀ s e, Inv s → P (step s e) → Inv (step s e)) (hs : Inv s) (hP : P s) :
    (∀ pre post, es = pre ++ post → P (run step s pre)) ↔ Along step Ok s es := by
  induction es generalizing s with
  | nil =>
    refine ⟨fun _ => trivial, fun _ pre post h => ?_⟩
    obtain ⟨rfl, -⟩ := List.append_eq_nil_iff.mp h.symm
    exact hP
  | cons e es ih =>
    constructor
    · intro h
      have hstep : P (step s e) := h [e] es rfl
      refine ⟨(hiff s e hs hP).mp hstep, (ih (hinv s e hs hstep) hstep).mp ?_⟩
      rintro pre post rfl
      exact h (e :: pre) post rfl
    · rintro ⟨hok, hes⟩ pre post h
      have hstep : P (step s e) := (hiff s e hs hP).mpr hok
      cases pre with
      | nil => exact hP
      | cons e' pre =>
        obtain ⟨rfl, rfl⟩ := List.cons.inj h
        exact (ih (hinv s e hs hstep) hstep).mpr hes pre post rfl

theorem forall_run_iff_along_of_step {P : σ → Prop} (hiff : ∀ s e, P s → (P (step s e) ↔ Ok s e))
    (hP : P s) : (∀ pre post, es = pre ++ post → P (run step s pre)) ↔ Along step Ok s es :=
  forall_run_iff_along (fun s e (_ : True) => hiff s e) (fun _ _ _ _ => trivial) trivial hP

theorem run_invariant_of_mem {step : σ → ε → σ} {P : σ → Prop} {s : σ} {es : List ε}
    (hstep : ∀ s, ∀ e ∈ es, P s → P (step s e)) (hs : P s) : P (run step s es) := by
  induction es generalizing s with
  | nil => exact hs
  | cons e es ih =>
    exact ih (fun s e' he' => hstep s e' (.tail e he')) (hstep s e (.head es) hs)

theorem run_invariant {step : σ → ε → σ} {Inv : σ → Prop}
    (hstep : ∀ s e, Inv s → Inv (step s e)) {s : σ} (hs : Inv s) (es : List ε) :
    Inv (run step s es) :=
  run_invariant_of_mem (fun s e _ => hstep s e) hs

end Foundation
