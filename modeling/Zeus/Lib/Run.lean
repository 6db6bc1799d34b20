import Mathlib.Data.List.Induction

namespace Run

variable {σ α : Type*} {step : σ → α → σ}

theorem exists_breaking_action {P : σ → Prop} {s : σ} {actions : List α} (start : P s)
    (ends : ¬ P (actions.foldl step s)) :
    ∃ before action after, actions = before ++ action :: after ∧
      P (before.foldl step s) ∧
      ¬ P (step (before.foldl step s) action) := by
  induction actions generalizing s with
  | nil => exact absurd start ends
  | cons action actions rest =>
    by_cases still : P (step s action)
    · obtain ⟨before, breaking, after, split, held, broken⟩ := rest still ends
      exact ⟨action :: before, breaking, after, by rw [split, List.cons_append], held, broken⟩
    · exact ⟨[], action, actions, rfl, start, still⟩

theorem related_iff_steps {R : σ → σ → Prop} (refl : ∀ s, R s s)
    (trans : ∀ {s t u}, R s t → R t u → R s u) (s : σ) (actions : List α) :
    (∀ front middle, front ++ middle <+: actions →
          R (front.foldl step s) ((front ++ middle).foldl step s)) ↔
      ∀ front action, front ++ [action] <+: actions →
        R (front.foldl step s) (step (front.foldl step s) action) := by
  constructor
  · intro related front action taken
    have across := related front [action] taken
    rw [List.foldl_append] at across
    exact across
  · intro related front middle
    induction middle using List.reverseRecOn with
    | nil =>
      intro _
      rw [List.append_nil]
      exact refl _
    | append_singleton middle action ih =>
      intro taken
      rw [← List.append_assoc] at taken ⊢
      rw [List.foldl_append]
      exact trans (ih ((List.prefix_append _ _).trans taken)) (related _ action taken)

end Run
