import Mathlib.Data.List.Forall2

namespace Talbot
namespace Foundations

/-!
Labelled machines and forward simulation.

A run lists the labels of its steps.  Two machines may speak about the same
things under different names, so the labels of a step and of the step that
matches it are related rather than equal.
-/

variable {Label Label' σ σ' : Type}

inductive Run (step : Label -> σ -> σ -> Prop) : List Label -> σ -> σ -> Prop where
  | nil (state : σ) : Run step [] state state
  | cons {label : Label} {labels : List Label} {state middle final : σ} (first : step label state middle)
      (rest : Run step labels middle final) : Run step (label :: labels) state final

/-- Every step from a related state is matched by one under a related label. -/
def Simulates (step : Label -> σ -> σ -> Prop) (step' : Label' -> σ' -> σ' -> Prop)
    (names : Label -> Label' -> Prop) (relates : σ -> σ' -> Prop) : Prop :=
  ∀ label state final state', relates state state' -> step label state final ->
    ∃ label' final', names label label' ∧ step' label' state' final' ∧ relates final final'

theorem Simulates.run {step : Label -> σ -> σ -> Prop} {step' : Label' -> σ' -> σ' -> Prop}
    {names : Label -> Label' -> Prop} {relates : σ -> σ' -> Prop} (simulates : Simulates step step' names relates)
    {labels : List Label} {state final : σ} {state' : σ'} (related : relates state state')
    (run : Run step labels state final) :
    ∃ labels' final', List.Forall₂ names labels labels' ∧ Run step' labels' state' final' ∧ relates final final' := by
  induction run generalizing state' with
  | nil state => exact ⟨[], state', .nil, .nil state', related⟩
  | cons first rest inductionHypothesis =>
      rcases simulates _ _ _ state' related first with ⟨label', middle', named, matching, relatedMiddle⟩
      rcases inductionHypothesis relatedMiddle with ⟨labels', final', allNamed, run', relatedFinal⟩
      exact ⟨label' :: labels', final', .cons named allNamed, .cons matching run', relatedFinal⟩

end Foundations
end Talbot
