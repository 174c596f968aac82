import ContextLattice.Foundation.Run

/-!
# Handing out

A machine hands things out in some steps, by their keys, and gets them back in others. `HandedOnce`:
a key is released between two steps that hand it out.
-/

namespace Foundation

variable {σ ε κ : Type*}

structure HandedOnce (step : σ → ε → σ) (handed : σ → ε → List κ) (releases : σ → ε → κ → Prop)
    (s : σ) (es : List ε) : Prop where
  nodup : ∀ pre e post, es = pre ++ e :: post → (handed (run step s pre) e).Nodup
  released : ∀ pre e mid e' post k, es = pre ++ e :: (mid ++ e' :: post) →
    k ∈ handed (run step s pre) e → k ∈ handed (run step s (pre ++ e :: mid)) e' →
      ∃ mid₁ r mid₂, mid = mid₁ ++ r :: mid₂ ∧ releases (run step s (pre ++ e :: mid₁)) r k

variable {step : σ → ε → σ} {handed : σ → ε → List κ} {releases : σ → ε → κ → Prop}
  {taken : σ → κ → Prop} {Ok : ε → Prop}

theorem exists_release (hfree : ∀ s e k, k ∈ handed s e → ¬ taken s k)
    (hkeeps : ∀ s e k, Ok e → taken s k → ¬ releases s e k → taken (step s e) k) {s : σ} {k : κ}
    {mid : List ε} {e' : ε} (hok : ∀ e ∈ mid, Ok e) (hs : taken s k)
    (h : k ∈ handed (run step s mid) e') :
    ∃ mid₁ r mid₂, mid = mid₁ ++ r :: mid₂ ∧ releases (run step s mid₁) r k := by
  induction mid generalizing s with
  | nil => exact absurd hs (hfree s e' k h)
  | cons r mid ih =>
    by_cases hr : releases s r k
    · exact ⟨[], r, mid, rfl, hr⟩
    · have hnext := hkeeps s r k (hok r List.mem_cons_self) hs hr
      obtain ⟨mid₁, r', mid₂, rfl, hr'⟩ :=
        ih (fun e he => hok e (List.mem_cons_of_mem r he)) hnext h
      exact ⟨r :: mid₁, r', mid₂, rfl, hr'⟩

/-- **Rule.** If a step hands out only what is not taken, and takes it, and only releases give it
back, a run hands out once. -/
theorem handedOnce_of_taken (hnodup : ∀ s e, (handed s e).Nodup)
    (hfree : ∀ s e k, k ∈ handed s e → ¬ taken s k)
    (htakes : ∀ s e k, k ∈ handed s e → taken (step s e) k)
    (hkeeps : ∀ s e k, Ok e → taken s k → ¬ releases s e k → taken (step s e) k) {s : σ}
    {es : List ε} (hok : ∀ e ∈ es, Ok e) : HandedOnce step handed releases s es := by
  refine ⟨fun pre e post _ => hnodup _ e, ?_⟩
  rintro pre e mid e' post k rfl h h'
  have hmid : ∀ r ∈ mid, Ok r := fun r hr => hok r (by simp [hr])
  rw [run_append, run_cons] at h'
  obtain ⟨mid₁, r, mid₂, rfl, hr⟩ := exists_release hfree hkeeps hmid (htakes _ e k h) h'
  refine ⟨mid₁, r, mid₂, rfl, ?_⟩
  rw [run_append, run_cons]
  exact hr

end Foundation
