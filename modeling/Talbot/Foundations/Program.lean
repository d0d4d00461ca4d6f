import Mathlib.Data.Nat.Notation
import Mathlib.Tactic.Common

namespace Talbot
namespace Foundations

/-!
Programs over an interface of operations.

A program is the tree of the operations it issues: each node names one
operation and continues with the response.  The meaning of an operation is
supplied separately by a handler on a state type, so the text of a program is
written once and can be run on several machines.  A `while` loop carries an
explicit bound; a program that exhausts it is `stuck`, which no handler can
continue.
-/

/-- The operations a program may issue, with the type of each response.  Everything
else about an operation is left to the machine that the program runs on. -/
structure Interface where
  Op : Type
  Response : Op -> Type

variable {I : Interface}

/-- A finitely deep tree of operations. -/
inductive Program (I : Interface) (α : Type) : Type where
  | ret (value : α) : Program I α
  | call (op : I.Op) (next : I.Response op -> Program I α) : Program I α
  | stuck : Program I α

namespace Program

variable {α β γ : Type}

protected def bind : Program I α -> (α -> Program I β) -> Program I β
  | ret value, continuation => continuation value
  | call op next, continuation => call op (fun response => (next response).bind continuation)
  | stuck, _ => stuck

instance : Monad (Program I) where
  pure := ret
  bind := Program.bind

@[simp] theorem pure_eq (value : α) : (pure value : Program I α) = ret value :=
  rfl

@[simp] theorem ret_bind (value : α) (continuation : α -> Program I β) :
    (ret value >>= continuation) = continuation value :=
  rfl

@[simp] theorem call_bind (op : I.Op) (next : I.Response op -> Program I α)
    (continuation : α -> Program I β) :
    (call op next >>= continuation) = call op (fun response => next response >>= continuation) :=
  rfl

@[simp] theorem stuck_bind (continuation : α -> Program I β) :
    ((stuck : Program I α) >>= continuation) = stuck :=
  rfl

@[simp] theorem bind_ret (program : Program I α) : (program >>= ret) = program := by
  induction program with
  | ret value => rfl
  | call op next inductionHypothesis =>
      rw [call_bind]
      exact congrArg (call op) (funext inductionHypothesis)
  | stuck => rfl

theorem bind_assoc (program : Program I α) (first : α -> Program I β)
    (second : β -> Program I γ) :
    (program >>= first >>= second) = program >>= fun value => first value >>= second := by
  induction program with
  | ret value => rfl
  | call op next inductionHypothesis =>
      simp only [call_bind]
      exact congrArg (call op) (funext inductionHypothesis)
  | stuck => rfl

instance : LawfulMonad (Program I) :=
  LawfulMonad.mk' (Program I)
    (fun program => bind_ret program)
    (fun _ _ => rfl)
    (fun program first second => bind_assoc program first second)

/-! ## Loops -/

/-- What one iteration of a loop body decides. -/
inductive Iteration (α : Type) : Type where
  | next (value : α)
  | done (value : α)

def Iteration.map (project : α -> β) : Iteration α -> Iteration β
  | next value => next (project value)
  | done value => done (project value)

/-- `for(index = start; index < start + count; index++)`, with `break`. -/
def forRange (body : Nat -> α -> Program I (Iteration α)) : Nat -> Nat -> α -> Program I α
  | _, 0, value => ret value
  | start, count + 1, value => do
      match ← body start value with
      | .next value => forRange body (start + 1) count value
      | .done value => ret value

/-- A loop that carries more than another one, and does the same. -/
theorem forRange_project (project : α -> β) {body : Nat -> α -> Program I (Iteration α)}
    {other : Nat -> β -> Program I (Iteration β)}
    (same : ∀ index value, (body index value >>= fun iteration => ret (iteration.map project)) =
      other index (project value)) (start count : Nat) (value : α) :
    (forRange body start count value >>= fun result => ret (project result)) =
      forRange other start count (project value) := by
  induction count generalizing start value with
  | zero => rfl
  | succ count inductionHypothesis =>
      rw [forRange, forRange, ← same, bind_assoc, bind_assoc]
      congr 1
      funext iteration
      cases iteration with
      | next value => exact inductionHypothesis (start + 1) value
      | done value => rfl

/-- `while(condition)`, stopped as `stuck` once `bound` iterations did not
suffice. -/
def whileLoop (condition : α -> Bool) (body : α -> Program I α) : Nat -> α -> Program I α
  | 0, value => if condition value then stuck else ret value
  | bound + 1, value =>
      if condition value then do
        let value ← body value
        whileLoop condition body bound value
      else ret value

theorem whileLoop_stop {condition : α -> Bool} {body : α -> Program I α} {bound : Nat} {value : α}
    (stops : condition value = false) : whileLoop condition body bound value = ret value := by
  cases bound <;> rw [whileLoop, stops, if_neg Bool.false_ne_true]

theorem whileLoop_next {condition : α -> Bool} {body : α -> Program I α} {bound : Nat} {value : α}
    (continues : condition value = true) :
    whileLoop condition body (bound + 1) value = body value >>= fun value => whileLoop condition body bound value := by
  rw [whileLoop, if_pos continues]

end Program

/-! ## Handlers and runs -/

/-- The meaning of every operation on a state.  A missing result is a fault:
the machine does not continue. -/
def Handler (I : Interface) (σ : Type) : Type :=
  (op : I.Op) -> σ -> Option (I.Response op × σ)

namespace Program

variable {α β γ σ : Type}

/-- The result of a program on a machine, if it neither faults nor gets stuck. -/
def run (handler : Handler I σ) : Program I α -> σ -> Option (α × σ)
  | ret value, state => some (value, state)
  | call op next, state =>
      match handler op state with
      | some (response, state) => (next response).run handler state
      | none => none
  | stuck, _ => none

/-- Every operation issued along the run, with the state it is issued in.  The
operation that faults is still listed. -/
def issued (handler : Handler I σ) : Program I α -> σ -> List (σ × I.Op)
  | ret _, _ => []
  | call op next, state =>
      (state, op) :: match handler op state with
        | some (response, state) => (next response).issued handler state
        | none => []
  | stuck, _ => []

/-- Total correctness: the program returns, and its result and the final state
satisfy `post`. A program that gets stuck, or whose operation faults, does not
return. -/
def Returns (handler : Handler I σ) (program : Program I α) (state : σ)
    (post : α -> σ -> Prop) : Prop :=
  ∃ value final, program.run handler state = some (value, final) ∧ post value final

section Returns

variable {handler : Handler I σ} {state : σ} {post : α -> σ -> Prop}

@[simp] theorem returns_ret (value : α) :
    Returns handler (ret value) state post ↔ post value state := by
  constructor
  · rintro ⟨value', final, same, holds⟩
    cases same
    exact holds
  · intro holds
    exact ⟨value, state, rfl, holds⟩

theorem returns_call {op : I.Op} {next : I.Response op -> Program I α}
    {response : I.Response op} {final : σ} (handled : handler op state = some (response, final)) :
    Returns handler (call op next) state post ↔ Returns handler (next response) final post := by
  unfold Returns
  rw [run, handled]

theorem run_bind (program : Program I α) (continuation : α -> Program I β) (state : σ) :
    (program >>= continuation).run handler state =
      (program.run handler state).bind fun result => (continuation result.1).run handler result.2 := by
  induction program generalizing state with
  | ret value => rfl
  | call op next inductionHypothesis =>
      rw [call_bind, run, run]
      cases handled : handler op state with
      | none => rfl
      | some result => exact inductionHypothesis result.1 result.2
  | stuck => rfl

theorem returns_bind {program : Program I α} {continuation : α -> Program I β}
    {post : β -> σ -> Prop} :
    Returns handler (program >>= continuation) state post ↔
      Returns handler program state fun value final =>
        Returns handler (continuation value) final post := by
  unfold Returns
  rw [run_bind]
  constructor
  · rintro ⟨value, final, same, holds⟩
    obtain ⟨middle, first, second⟩ := Option.bind_eq_some_iff.mp same
    exact ⟨middle.1, middle.2, first, value, final, second, holds⟩
  · rintro ⟨middle, between, first, value, final, second, holds⟩
    exact ⟨value, final, by rw [first]; exact second, holds⟩

theorem Returns.mono {program : Program I α} {weaker : α -> σ -> Prop}
    (returns : Returns handler program state post)
    (weaken : ∀ value final, post value final -> weaker value final) :
    Returns handler program state weaker := by
  obtain ⟨value, final, same, holds⟩ := returns
  exact ⟨value, final, same, weaken value final holds⟩

/-- A program has one result, so a second postcondition is a question about it. -/
theorem Returns.value_iff {program : Program I α} {known : α} {question : α -> Prop}
    (returns : Returns handler program state fun value _ => value = known) :
    Returns handler program state (fun value _ => question value) ↔ question known := by
  rcases returns with ⟨value, final, same, rfl⟩
  constructor
  · rintro ⟨value', final', same', holds⟩
    rw [same] at same'
    cases same'
    exact holds
  · exact fun holds => ⟨value, final, same, holds⟩

/-- A loop that never breaks, with an invariant indexed by the loop variable. -/
theorem returns_forRange {body : Nat -> α -> Program I (Iteration α)}
    (invariant : Nat -> α -> σ -> Prop) (start count : Nat) (value : α) (state : σ)
    (initially : invariant start value state)
    (step : ∀ index value state, start ≤ index -> index < start + count ->
      invariant index value state ->
      Returns handler (body index value) state fun iteration final =>
        ∃ value, iteration = .next value ∧ invariant (index + 1) value final) :
    Returns handler (forRange body start count value) state
      (invariant (start + count)) := by
  induction count generalizing start value state with
  | zero =>
      rw [forRange, returns_ret]
      exact initially
  | succ count inductionHypothesis =>
      rw [forRange, returns_bind]
      apply (step start value state (Nat.le_refl _) (by omega) initially).mono
      rintro iteration final ⟨value, rfl, holds⟩
      rw [show start + (count + 1) = start + 1 + count by omega]
      apply inductionHypothesis (start + 1) value final holds
      intro index value state lower upper
      exact step index value state (by omega) (by omega)

/-- A loop with `break`: `invariant` while it goes on, `finished` once it broke
or ran to its end. -/
theorem returns_forRange_break {body : Nat -> α -> Program I (Iteration α)}
    (invariant : Nat -> α -> σ -> Prop) {finished : α -> σ -> Prop}
    (start count : Nat) (value : α) (state : σ)
    (initially : invariant start value state)
    (step : ∀ index value state, start ≤ index -> index < start + count ->
      invariant index value state ->
      Returns handler (body index value) state fun iteration final =>
        match iteration with
        | .next value => invariant (index + 1) value final
        | .done value => finished value final)
    (atEnd : ∀ value state, invariant (start + count) value state -> finished value state) :
    Returns handler (forRange body start count value) state finished := by
  induction count generalizing start value state with
  | zero =>
      rw [forRange, returns_ret]
      exact atEnd value state initially
  | succ count inductionHypothesis =>
      rw [forRange, returns_bind]
      apply (step start value state (Nat.le_refl _) (by omega) initially).mono
      intro iteration final holds
      cases iteration with
      | next value =>
          apply inductionHypothesis (start + 1) value final holds
          · intro index value state lower upper
            exact step index value state (by omega) (by omega)
          · intro value state
            rw [show start + 1 + count = start + (count + 1) by omega]
            exact atEnd value state
      | done value =>
          rw [returns_ret]
          exact holds

/-- Where the operations of a concrete machine follow those of an abstract one,
a program returns the same on both. -/
theorem Returns.follow {τ : Type} {concrete : Handler I τ} {related : τ -> σ -> Prop} {program : Program I α}
    {below : τ} (returns : Returns handler program state post) (start : related below state)
    (step : ∀ op below state response final, related below state -> handler op state = some (response, final) ->
      ∃ next, concrete op below = some (response, next) ∧ related next final) :
    Returns concrete program below fun value final => ∃ state, related final state ∧ post value state := by
  induction program generalizing state below with
  | ret value => exact (returns_ret value).mpr ⟨state, start, (returns_ret value).mp returns⟩
  | call op next inductionHypothesis =>
      rcases returns with ⟨value, final, same, holds⟩
      rw [run] at same
      cases handled : handler op state with
      | none =>
          rw [handled] at same
          cases same
      | some result =>
          rw [handled] at same
          rcases step op below state result.1 result.2 start handled with ⟨after, followed, kept⟩
          exact (returns_call followed).mpr (inductionHypothesis result.1 ⟨value, final, same, holds⟩ kept)
  | stuck =>
      rcases returns with ⟨value, final, impossible, _⟩
      cases impossible

end Returns

end Program
end Foundations
end Talbot
