import Talbot.Foundations.Behaviours

namespace Talbot
namespace Foundations

/-!
Programs that run through a list of stages.

What a program leaves behind when it is stopped, or faults, in the middle of a
stage is what the stages before it have left.  `Throughout` therefore asks a
property before the first stage and after every one, also after those of a run
that never reaches the end.
-/

namespace Program

variable {I : Interface} {α σ : Type}

/-- One stage after the other. -/
def runStages : List (α -> Program I α) -> α -> Program I α
  | [], value => return value
  | stage :: rest, value => do
      let value ← stage value
      runStages rest value

/-- However the machine chooses, `holds` holds at the beginning and after every
stage that is reached. -/
def Throughout (may : Behaviour I σ) (holds : α -> σ -> Prop) : List (α -> Program I α) -> α -> σ -> Prop
  | [], value, state => holds value state
  | stage :: rest, value, state => holds value state ∧
      Ensures may (fun _ _ => True) True (stage value) state fun value final => Throughout may holds rest value final

theorem runStages_append (first second : List (α -> Program I α)) (value : α) :
    runStages (first ++ second) value = runStages first value >>= runStages second := by
  induction first generalizing value with
  | nil => rfl
  | cons stage rest inductionHypothesis =>
      rw [List.cons_append, runStages, runStages, bind_assoc]
      exact congrArg _ (funext inductionHypothesis)

/-- A loop that never breaks is a list of stages. -/
theorem forRange_eq_runStages (stage : Nat -> α -> Program I α) (start count : Nat) (value : α) :
    forRange (fun index value => do
      let value ← stage index value
      return .next value) start count value = runStages ((List.range' start count).map stage) value := by
  induction count generalizing start value with
  | zero => rfl
  | succ count inductionHypothesis =>
      rw [forRange, List.range'_succ, List.map_cons, runStages, bind_assoc]
      exact congrArg _ (funext fun value => inductionHypothesis (start + 1) value)

section Throughout

variable {may : Behaviour I σ} {holds : α -> σ -> Prop} {value : α} {state : σ}

/-- What holds throughout holds at the end. -/
theorem Throughout.atEnd {stages : List (α -> Program I α)} (throughout : Throughout may holds stages value state) :
    Ensures may (fun _ _ => True) True (runStages stages value) state holds := by
  induction stages generalizing value state with
  | nil => exact throughout
  | cons stage rest inductionHypothesis =>
      exact ensures_bind.mpr (throughout.2.mono fun _ _ later => inductionHypothesis later)

/-- Stages that keep an invariant, each under its own step. -/
theorem Throughout.through {first second : List (α -> Program I α)} (invariant : Nat -> α -> σ -> Prop)
    (initially : invariant 0 value state)
    (step : ∀ index stage, first[index]? = some stage -> ∀ value state, invariant index value state ->
      holds value state ∧ Ensures may (fun _ _ => True) True (stage value) state (invariant (index + 1)))
    (rest : ∀ value state, invariant first.length value state -> Throughout may holds second value state) :
    Throughout may holds (first ++ second) value state := by
  induction first generalizing value state invariant with
  | nil => exact rest value state initially
  | cons stage later inductionHypothesis =>
      rcases step 0 stage rfl value state initially with ⟨here, kept⟩
      refine ⟨here, kept.mono fun value final next => ?_⟩
      exact inductionHypothesis (fun index => invariant (index + 1)) next
        (fun index stage found => step (index + 1) stage found) rest

/-- Stages that each add at most `cost` to a size. -/
theorem Throughout.adding {first second : List (α -> Program I α)} (size : α -> Nat) (kept : α -> Prop)
    {cost base : Nat} (initially : kept value) (before : size value ≤ base)
    (step : ∀ stage, stage ∈ first -> ∀ value state, kept value ->
      Ensures may (fun _ _ => True) True (stage value) state fun next _ => kept next ∧ size next ≤ size value + cost)
    (room : ∀ value state, kept value -> size value ≤ base + first.length * cost -> holds value state)
    (rest : ∀ value state, kept value -> size value ≤ base + first.length * cost ->
      Throughout may holds second value state) : Throughout may holds (first ++ second) value state := by
  apply Throughout.through (fun index value _ => kept value ∧ size value ≤ base + index * cost)
    ⟨initially, Nat.le_add_right_of_le before⟩
  · rintro index stage found value state ⟨holds, small⟩
    rcases List.getElem?_eq_some_iff.mp found with ⟨inside, rfl⟩
    refine ⟨room value state holds ?_, (step _ (List.getElem_mem inside) value state holds).mono ?_⟩
    · exact Nat.le_trans small (Nat.add_le_add_left (Nat.mul_le_mul_right cost (Nat.le_of_lt inside)) base)
    · rintro next _ ⟨holds, added⟩
      refine ⟨holds, ?_⟩
      rw [Nat.succ_mul]
      omega
  · exact fun value state invariant => rest value state invariant.1 invariant.2

end Throughout

/-- Stages that can all be passed can be passed one after the other. -/
theorem reaches_runStages {may : Behaviour I σ} {first second : List (α -> Program I α)} {value : α} {state : σ}
    {post : α -> σ -> Prop} (invariant : Nat -> α -> σ -> Prop) (initially : invariant 0 value state)
    (step : ∀ index stage, first[index]? = some stage -> ∀ value state, invariant index value state ->
      Reaches may (stage value) state (invariant (index + 1)))
    (rest : ∀ value state, invariant first.length value state -> Reaches may (runStages second value) state post) :
    Reaches may (runStages (first ++ second) value) state post := by
  induction first generalizing value state invariant with
  | nil => exact rest value state initially
  | cons stage later inductionHypothesis =>
      rw [List.cons_append, runStages, reaches_bind]
      apply (step 0 stage rfl value state initially).mono
      intro value final next
      exact inductionHypothesis (fun index => invariant (index + 1)) next
        (fun index stage found => step (index + 1) stage found) rest

/-- Stages that can each add exactly `cost`. -/
theorem reaches_adding {may : Behaviour I σ} {first second : List (α -> Program I α)} {value : α} {state : σ}
    {post : α -> σ -> Prop} (size : α -> Nat) (kept : α -> Prop) {cost base : Nat} (initially : kept value)
    (before : size value = base)
    (step : ∀ stage, stage ∈ first -> ∀ value state, kept value ->
      Reaches may (stage value) state fun next _ => kept next ∧ size next = size value + cost)
    (rest : ∀ value state, kept value -> size value = base + first.length * cost ->
      Reaches may (runStages second value) state post) :
    Reaches may (runStages (first ++ second) value) state post := by
  apply reaches_runStages (fun index value _ => kept value ∧ size value = base + index * cost)
  · exact ⟨initially, by rw [Nat.zero_mul, before, Nat.add_zero]⟩
  · rintro index stage found value state ⟨holds, size_eq⟩
    rcases List.getElem?_eq_some_iff.mp found with ⟨inside, rfl⟩
    apply (step _ (List.getElem_mem inside) value state holds).mono
    rintro next _ ⟨holds, added⟩
    refine ⟨holds, ?_⟩
    rw [added, size_eq, Nat.succ_mul, Nat.add_assoc]
  · exact fun value state invariant => rest value state invariant.1 invariant.2

end Program
end Foundations
end Talbot
