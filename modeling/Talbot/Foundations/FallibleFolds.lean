import Mathlib.Data.List.Basic

namespace Talbot
namespace Foundations

/-!
Loops that an exception can end.

If one step succeeds on the good elements and nowhere else, a loop succeeds where
all elements are good, and is then the loop of what the steps return.
-/

variable {Failure State Element Result : Type}

theorem ok_eq_ok {value result : Result} : (Except.ok value : Except Failure Result) = .ok result ↔ result = value :=
  ⟨fun found => (Except.ok.inj found).symm, fun same => congrArg Except.ok same.symm⟩

theorem bind_eq_ok {first : Except Failure State} {second : State -> Except Failure Result} {result : Result} :
    first >>= second = .ok result ↔ ∃ value, first = .ok value ∧ second value = .ok result := by
  cases first with
  | error failure =>
      refine iff_of_false (fun impossible => by cases impossible) ?_
      rintro ⟨_, impossible, _⟩
      cases impossible
  | ok value =>
      constructor
      · exact fun found => ⟨value, rfl, found⟩
      · rintro ⟨_, ⟨⟩, found⟩
        exact found

theorem foldlM_eq_ok {step : State -> Element -> Except Failure State} {next : State -> Element -> State}
    {good : Element -> Prop}
    (steps : ∀ state element result, step state element = .ok result ↔ good element ∧ result = next state element)
    {elements : List Element} {state result : State} :
    elements.foldlM step state = .ok result ↔
      (∀ element, element ∈ elements -> good element) ∧ result = elements.foldl next state := by
  induction elements generalizing state with
  | nil =>
      rw [List.foldlM_nil, List.foldl_nil, and_iff_right fun _ impossible => absurd impossible List.not_mem_nil]
      exact ok_eq_ok
  | cons element rest inductionHypothesis =>
      rw [List.foldlM_cons, bind_eq_ok, List.forall_mem_cons, and_assoc, List.foldl_cons]
      constructor
      · rintro ⟨middle, stepped, later⟩
        rcases (steps _ _ _).mp stepped with ⟨here, rfl⟩
        exact ⟨here, inductionHypothesis.mp later⟩
      · rintro ⟨here, later⟩
        exact ⟨_, (steps _ _ _).mpr ⟨here, rfl⟩, inductionHypothesis.mpr later⟩

theorem mapM_eq_ok {step : Element -> Except Failure Result} {value : Element -> Result} {good : Element -> Prop}
    (steps : ∀ element result, step element = .ok result ↔ good element ∧ result = value element)
    {elements : List Element} {results : List Result} :
    elements.mapM step = .ok results ↔
      (∀ element, element ∈ elements -> good element) ∧ results = elements.map value := by
  induction elements generalizing results with
  | nil =>
      rw [List.mapM_nil, List.map_nil, and_iff_right fun _ impossible => absurd impossible List.not_mem_nil]
      exact ok_eq_ok
  | cons element rest inductionHypothesis =>
      rw [List.mapM_cons, bind_eq_ok, List.forall_mem_cons, and_assoc, List.map_cons]
      constructor
      · rintro ⟨first, stepped, later⟩
        rcases bind_eq_ok.mp later with ⟨others, mapped, ⟨⟩⟩
        rcases (steps _ _).mp stepped with ⟨here, rfl⟩
        rcases inductionHypothesis.mp mapped with ⟨all, rfl⟩
        exact ⟨here, all, rfl⟩
      · rintro ⟨here, all, rfl⟩
        exact ⟨_, (steps _ _).mpr ⟨here, rfl⟩, bind_eq_ok.mpr ⟨_, inductionHypothesis.mpr ⟨all, rfl⟩, rfl⟩⟩

end Foundations
end Talbot
