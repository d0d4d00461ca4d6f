import Talbot.Foundations.Program

namespace Talbot
namespace Foundations

/-!
Programs on machines that choose.

A behaviour relates an operation and a state to the responses and states that
may follow.  `Ensures` holds of a program if its postcondition holds however the
machine chooses, and every operation it issues on the way meets a guard;
`Reaches` holds if the machine can choose so that the program returns.  Where no
choice blocks, the first gives the second.
-/

/-- What a machine may do on every operation.  Unlike a handler it may leave the
response and the next state open, as a processor does with the translations that it
uses. -/
def Behaviour (I : Interface) (σ : Type) : Type :=
  (op : I.Op) -> σ -> I.Response op -> σ -> Prop

namespace Program

variable {I : Interface} {α β σ : Type}

/-- However the machine chooses, every operation meets `guard` in the state it is
issued in and every result meets `post`.  `exhausted` is what is asked of a loop
that uses up its bound: `False` rules it out, `True` accepts it. -/
def Ensures (may : Behaviour I σ) (guard : σ -> I.Op -> Prop) (exhausted : Prop) :
    Program I α -> σ -> (α -> σ -> Prop) -> Prop
  | ret value, state, post => post value state
  | call op next, state, post =>
      guard state op ∧ ∀ response final, may op state response final ->
        (next response).Ensures may guard exhausted final post
  | stuck, _, _ => exhausted

/-- The machine can choose so that the program returns with `post`. This is the
other side of `Ensures`: what is reached somewhere cannot be excluded everywhere. -/
def Reaches (may : Behaviour I σ) : Program I α -> σ -> (α -> σ -> Prop) -> Prop
  | ret value, state, post => post value state
  | call op next, state, post =>
      ∃ response final, may op state response final ∧ (next response).Reaches may final post
  | stuck, _, _ => False

section Ensures

variable {may : Behaviour I σ} {guard : σ -> I.Op -> Prop} {exhausted : Prop} {state : σ}

@[simp] theorem ensures_ret {value : α} {post : α -> σ -> Prop} :
    Ensures may guard exhausted (ret value : Program I α) state post ↔ post value state :=
  Iff.rfl

theorem ensures_bind {program : Program I α} {continuation : α -> Program I β} {post : β -> σ -> Prop} :
    Ensures may guard exhausted (program >>= continuation) state post ↔
      Ensures may guard exhausted program state fun value final =>
        Ensures may guard exhausted (continuation value) final post := by
  induction program generalizing state with
  | ret value => rfl
  | call op next inductionHypothesis =>
      rw [call_bind]
      simp only [Ensures, inductionHypothesis]
  | stuck => rfl

theorem Ensures.mono {program : Program I α} {post weaker : α -> σ -> Prop}
    (ensures : Ensures may guard exhausted program state post)
    (weaken : ∀ value final, post value final -> weaker value final) :
    Ensures may guard exhausted program state weaker := by
  induction program generalizing state with
  | ret value => exact weaken value state ensures
  | call op next inductionHypothesis =>
      exact ⟨ensures.1, fun response final allowed =>
        inductionHypothesis response (ensures.2 response final allowed)⟩
  | stuck => exact ensures

theorem Ensures.and {program : Program I α} {post other : α -> σ -> Prop}
    (first : Ensures may guard exhausted program state post)
    (second : Ensures may guard exhausted program state other) :
    Ensures may guard exhausted program state fun value final => post value final ∧ other value final := by
  induction program generalizing state with
  | ret value => exact ⟨first, second⟩
  | call op next inductionHypothesis =>
      exact ⟨first.1, fun response final allowed =>
        inductionHypothesis response (first.2 response final allowed) (second.2 response final allowed)⟩
  | stuck => exact first

/-- A sequence ensures what its second part ensures wherever the first one leads. -/
theorem ensures_then {program : Program I α} {continuation : α -> Program I β} {between : α -> σ -> Prop}
    {post : β -> σ -> Prop} (first : Ensures may guard exhausted program state between)
    (rest : ∀ value middle, between value middle -> Ensures may guard exhausted (continuation value) middle post) :
    Ensures may guard exhausted (program >>= continuation) state post :=
  ensures_bind.mpr (first.mono rest)

/-- A machine that may do less ensures at least as much. -/
theorem Ensures.restrict {program : Program I α} {post : α -> σ -> Prop} {fewer : Behaviour I σ}
    (ensures : Ensures may guard exhausted program state post)
    (within : ∀ op state response final, fewer op state response final -> may op state response final) :
    Ensures fewer guard exhausted program state post := by
  induction program generalizing state with
  | ret value => exact ensures
  | call op next inductionHypothesis =>
      exact ⟨ensures.1, fun response final allowed =>
        inductionHypothesis response (ensures.2 response final (within op state response final allowed))⟩
  | stuck => exact ensures

/-- An invariant that the admitted operations keep holds all along. -/
theorem Ensures.keeping {program : Program I α} {post : α -> σ -> Prop} (invariant : σ -> Prop)
    (ensures : Ensures may guard exhausted program state post) (initially : invariant state)
    (kept : ∀ op state response final, guard state op -> invariant state -> may op state response final ->
      invariant final) :
    Ensures may (fun state op => invariant state ∧ guard state op) exhausted program state
      fun value final => post value final ∧ invariant final := by
  induction program generalizing state with
  | ret value => exact ⟨ensures, initially⟩
  | call op next inductionHypothesis =>
      exact ⟨⟨initially, ensures.1⟩, fun response final allowed => inductionHypothesis response
        (ensures.2 response final allowed) (kept op state response final ensures.1 initially allowed)⟩
  | stuck => exact ensures

/-- Without a guard every program ensures the trivial postcondition. -/
theorem ensures_trivial (program : Program I α) :
    Ensures may (fun _ _ => True) True program state fun _ _ => True := by
  induction program generalizing state with
  | ret value => trivial
  | call op next inductionHypothesis => exact ⟨trivial, fun response final _ => inductionHypothesis response⟩
  | stuck => trivial

/-- A loop with `break`: `invariant` while it goes on, `finished` once it broke or
ran to its end. -/
theorem ensures_forRange_break {body : Nat -> α -> Program I (Iteration α)}
    (invariant : Nat -> α -> σ -> Prop) {finished : α -> σ -> Prop} (start count : Nat) (value : α) (state : σ)
    (initially : invariant start value state)
    (step : ∀ index value state, start ≤ index -> index < start + count -> invariant index value state ->
      Ensures may guard exhausted (body index value) state fun iteration final =>
        match iteration with
        | .next value => invariant (index + 1) value final
        | .done value => finished value final)
    (atEnd : ∀ value state, invariant (start + count) value state -> finished value state) :
    Ensures may guard exhausted (forRange body start count value) state finished := by
  induction count generalizing start value state with
  | zero => exact atEnd value state initially
  | succ count inductionHypothesis =>
      have ending : start + (count + 1) = start + 1 + count := by omega
      rw [ending] at step atEnd
      rw [forRange, ensures_bind]
      apply (step start value state (Nat.le_refl _) (by omega) initially).mono
      intro iteration final holds
      cases iteration with
      | next value =>
          exact inductionHypothesis (start + 1) value final holds
            (fun index value state lower => step index value state (Nat.le_of_succ_le lower)) atEnd
      | done value => exact holds

/-- A loop that never breaks. -/
theorem ensures_forRange {body : Nat -> α -> Program I (Iteration α)} (invariant : Nat -> α -> σ -> Prop)
    (start count : Nat) (value : α) (state : σ) (initially : invariant start value state)
    (step : ∀ index value state, start ≤ index -> index < start + count -> invariant index value state ->
      Ensures may guard exhausted (body index value) state fun iteration final =>
        ∃ value, iteration = .next value ∧ invariant (index + 1) value final) :
    Ensures may guard exhausted (forRange body start count value) state (invariant (start + count)) := by
  apply ensures_forRange_break invariant start count value state initially _ fun _ _ holds => holds
  intro index value state lower upper holds
  apply (step index value state lower upper holds).mono
  rintro iteration final ⟨value, rfl, holds⟩
  exact holds

/-- A loop that keeps its invariant whether it breaks or not. -/
theorem ensures_forRange_kept {body : Nat -> α -> Program I (Iteration α)} (invariant : α -> σ -> Prop)
    (start count : Nat) (value : α) (state : σ) (initially : invariant value state)
    (step : ∀ index value state, start ≤ index -> index < start + count -> invariant value state ->
      Ensures may guard exhausted (body index value) state fun iteration final =>
        ∃ value, (iteration = .next value ∨ iteration = .done value) ∧ invariant value final) :
    Ensures may guard exhausted (forRange body start count value) state invariant := by
  apply ensures_forRange_break (fun _ => invariant) start count value state initially _ fun _ _ holds => holds
  intro index value state lower upper holds
  apply (step index value state lower upper holds).mono
  rintro iteration final ⟨value, rfl | rfl, holds⟩ <;> exact holds

/-- A loop that may use up its bound. -/
theorem ensures_whileLoop {condition : α -> Bool} {body : α -> Program I α} (invariant : α -> σ -> Prop)
    (accepted : exhausted) (bound : Nat) (value : α) (state : σ) (initially : invariant value state)
    (step : ∀ value state, invariant value state -> condition value = true ->
      Ensures may guard exhausted (body value) state invariant) :
    Ensures may guard exhausted (whileLoop condition body bound value) state fun value final =>
      invariant value final ∧ condition value = false := by
  induction bound generalizing value state with
  | zero =>
      rw [whileLoop]
      cases test : condition value with
      | true => exact accepted
      | false => exact ⟨initially, test⟩
  | succ bound inductionHypothesis =>
      rw [whileLoop]
      cases test : condition value with
      | true =>
          rw [if_pos rfl, ensures_bind]
          exact (step value state initially test).mono fun value final holds =>
            inductionHypothesis value final holds
      | false => exact ⟨initially, test⟩

/-- Where every admitted operation has some outcome, a program that must return can. -/
theorem Ensures.reaches {program : Program I α} {post : α -> σ -> Prop}
    (ensures : Ensures may guard False program state post)
    (live : ∀ op state, guard state op -> ∃ response final, may op state response final) :
    Reaches may program state post := by
  induction program generalizing state with
  | ret value => exact ensures
  | call op next inductionHypothesis =>
      rcases live op state ensures.1 with ⟨response, final, allowed⟩
      exact ⟨response, final, allowed, inductionHypothesis response (ensures.2 response final allowed)⟩
  | stuck => exact ensures.elim

/-- A result that can be reached meets what every result meets. -/
theorem Ensures.of_reaches {program : Program I α} {post reached : α -> σ -> Prop}
    (ensures : Ensures may guard exhausted program state post) (reaches : Reaches may program state reached) :
    ∃ value final, post value final ∧ reached value final := by
  induction program generalizing state with
  | ret value => exact ⟨value, state, ensures, reaches⟩
  | call op next inductionHypothesis =>
      rcases reaches with ⟨response, final, allowed, reaches⟩
      exact inductionHypothesis response (ensures.2 response final allowed) reaches
  | stuck => exact reaches.elim

/-- What is ensured of a sequence is ensured of its rest, wherever its first part can lead. -/
theorem Ensures.rest {program : Program I α} {continuation : α -> Program I β} {post : β -> σ -> Prop}
    {reached : α -> σ -> Prop} (ensures : Ensures may guard exhausted (program >>= continuation) state post)
    (reaches : Reaches may program state reached) :
    ∃ value final, reached value final ∧ Ensures may guard exhausted (continuation value) final post := by
  rcases (ensures_bind.mp ensures).of_reaches reaches with ⟨value, final, holds, reached⟩
  exact ⟨value, final, reached, holds⟩

/-- The first iteration of a loop meets the guard. -/
theorem Ensures.forRange_first {body : Nat -> α -> Program I (Iteration α)} {start count : Nat} {value : α}
    {post : α -> σ -> Prop} (ensures : Ensures may guard exhausted (forRange body start count value) state post)
    (positive : 1 ≤ count) : ∃ between, Ensures may guard exhausted (body start value) state between := by
  rcases Nat.exists_eq_add_of_le' positive with ⟨rest, rfl⟩
  rw [forRange, ensures_bind] at ensures
  exact ⟨_, ensures⟩

end Ensures

section Reaches

variable {may : Behaviour I σ} {state : σ}

@[simp] theorem reaches_ret {value : α} {post : α -> σ -> Prop} :
    Reaches may (ret value : Program I α) state post ↔ post value state :=
  Iff.rfl

theorem reaches_bind {program : Program I α} {continuation : α -> Program I β} {post : β -> σ -> Prop} :
    Reaches may (program >>= continuation) state post ↔
      Reaches may program state fun value final => Reaches may (continuation value) final post := by
  induction program generalizing state with
  | ret value => rfl
  | call op next inductionHypothesis =>
      rw [call_bind]
      simp only [Reaches, inductionHypothesis]
  | stuck => rfl

theorem Reaches.mono {program : Program I α} {post weaker : α -> σ -> Prop} (reaches : Reaches may program state post)
    (weaken : ∀ value final, post value final -> weaker value final) : Reaches may program state weaker := by
  induction program generalizing state with
  | ret value => exact weaken value state reaches
  | call op next inductionHypothesis =>
      rcases reaches with ⟨response, final, allowed, reaches⟩
      exact ⟨response, final, allowed, inductionHypothesis response reaches⟩
  | stuck => exact reaches

/-- A loop with `break` can be passed if each of its iterations can. -/
theorem reaches_forRange_break {body : Nat -> α -> Program I (Iteration α)}
    (invariant : Nat -> α -> σ -> Prop) {finished : α -> σ -> Prop} (start count : Nat) (value : α) (state : σ)
    (initially : invariant start value state)
    (step : ∀ index value state, start ≤ index -> index < start + count -> invariant index value state ->
      Reaches may (body index value) state fun iteration final =>
        match iteration with
        | .next value => invariant (index + 1) value final
        | .done value => finished value final)
    (atEnd : ∀ value state, invariant (start + count) value state -> finished value state) :
    Reaches may (forRange body start count value) state finished := by
  induction count generalizing start value state with
  | zero => exact atEnd value state initially
  | succ count inductionHypothesis =>
      have ending : start + (count + 1) = start + 1 + count := by omega
      rw [ending] at step atEnd
      rw [forRange, reaches_bind]
      apply (step start value state (Nat.le_refl _) (by omega) initially).mono
      intro iteration final holds
      cases iteration with
      | next value =>
          exact inductionHypothesis (start + 1) value final holds
            (fun index value state lower => step index value state (Nat.le_of_succ_le lower)) atEnd
      | done value => exact holds

theorem reaches_forRange {body : Nat -> α -> Program I (Iteration α)} (invariant : Nat -> α -> σ -> Prop)
    (start count : Nat) (value : α) (state : σ) (initially : invariant start value state)
    (step : ∀ index value state, start ≤ index -> index < start + count -> invariant index value state ->
      Reaches may (body index value) state fun iteration final =>
        ∃ value, iteration = .next value ∧ invariant (index + 1) value final) :
    Reaches may (forRange body start count value) state (invariant (start + count)) := by
  apply reaches_forRange_break invariant start count value state initially _ fun _ _ holds => holds
  intro index value state lower upper holds
  apply (step index value state lower upper holds).mono
  rintro iteration final ⟨value, rfl, holds⟩
  exact holds

end Reaches

end Program
end Foundations
end Talbot
