import Talbot.Foundations.Behaviours
import Talbot.Foundations.Responses

namespace Talbot
namespace Foundations

/-!
Monitors of programs.

A monitor is an automaton that reads the operations of a program and forbids
some of them, depending on what it has read.  A program obeys it if no
operation is forbidden, whatever the responses are.  Since nothing about the
responses enters, obedience is a fact about the text of the program, and it
carries over to every machine that runs it.
-/

structure Monitor (I : Interface) where
  State : Type
  next : State -> I.Op -> State
  permits : State -> I.Op -> Prop

namespace Monitor

variable {I : Interface} {α β σ : Type} (monitor : Monitor I)

/-- Every response may follow; only the operations are kept track of. -/
def watched : Behaviour I monitor.State :=
  fun op state _ final => final = monitor.next state op

/-- No operation of the program is forbidden, and every result meets `post`. -/
abbrev Obeys (program : Program I α) (state : monitor.State) (post : α -> monitor.State -> Prop) : Prop :=
  Program.Ensures monitor.watched monitor.permits True program state post

/-- The state after some operations. -/
def after (state : monitor.State) (ops : List I.Op) : monitor.State :=
  ops.foldl monitor.next state

variable {monitor} {state : monitor.State}

@[simp] theorem after_nil : monitor.after state [] = state :=
  rfl

@[simp] theorem after_cons (op : I.Op) (ops : List I.Op) :
    monitor.after state (op :: ops) = monitor.after (monitor.next state op) ops :=
  rfl

theorem after_append (first second : List I.Op) :
    monitor.after state (first ++ second) = monitor.after (monitor.after state first) second :=
  List.foldl_append

theorem obeys_call {op : I.Op} {next : I.Response op -> Program I α} {post : α -> monitor.State -> Prop} :
    monitor.Obeys (.call op next) state post ↔
      monitor.permits state op ∧ ∀ response, monitor.Obeys (next response) (monitor.next state op) post := by
  constructor
  · intro obeys
    exact ⟨obeys.1, fun response => obeys.2 response _ rfl⟩
  · rintro ⟨permitted, rest⟩
    refine ⟨permitted, ?_⟩
    rintro response final rfl
    exact rest response

theorem obeys_op {op : I.Op} {post : I.Response op -> monitor.State -> Prop} :
    monitor.Obeys (.call op .ret) state post ↔
      monitor.permits state op ∧ ∀ response, post response (monitor.next state op) :=
  obeys_call

theorem obeys_seq {program : Program I α} {continuation : α -> Program I β} {post : β -> monitor.State -> Prop} :
    monitor.Obeys (program >>= continuation) state post ↔
      monitor.Obeys program state fun value final => monitor.Obeys (continuation value) final post :=
  Program.ensures_bind

/-- Operations that are permitted in a state and keep it. -/
theorem obeys_of_always {program : Program I α} {post : α -> Prop}
    (always : Program.Always (fun op => monitor.permits state op ∧ monitor.next state op = state) program post) :
    monitor.Obeys program state fun value final => post value ∧ final = state := by
  induction program with
  | ret value => exact ⟨always, rfl⟩
  | call op next inductionHypothesis =>
      rcases always with ⟨⟨permitted, kept⟩, rest⟩
      apply obeys_call.mpr
      rw [kept]
      exact ⟨permitted, fun response => inductionHypothesis response (rest response)⟩
  | stuck => trivial

/-! ## What a machine sees of it -/

variable {handler : Handler I σ}

/-- Each operation that a run issues is permitted after those before it. -/
theorem permits_of_issued {program : Program I α} {post : α -> monitor.State -> Prop} {machine : σ}
    (obeys : monitor.Obeys program state post) {before after : List (σ × I.Op)} {entry : σ × I.Op}
    (split : program.issued handler machine = before ++ entry :: after) :
    monitor.permits (monitor.after state (before.map Prod.snd)) entry.2 := by
  induction program generalizing state machine before with
  | ret value => simp [Program.issued] at split
  | call op next inductionHypothesis =>
      rcases obeys_call.mp obeys with ⟨permitted, rest⟩
      rw [Program.issued] at split
      cases before with
      | nil =>
          rcases List.cons.inj split with ⟨rfl, _⟩
          exact permitted
      | cons first others =>
          rcases List.cons.inj split with ⟨rfl, later⟩
          cases handled : handler op machine with
          | none =>
              rw [handled] at later
              simp at later
          | some result =>
              rw [handled] at later
              exact inductionHypothesis result.1 (rest result.1) later
  | stuck => simp [Program.issued] at split

/-- At the end of a run the monitor is in a state that `post` allows. -/
theorem post_of_run {program : Program I α} {post : α -> monitor.State -> Prop} {machine : σ} {value : α} {final : σ}
    (obeys : monitor.Obeys program state post) (returned : program.run handler machine = some (value, final)) :
    post value (monitor.after state ((program.issued handler machine).map Prod.snd)) := by
  induction program generalizing state machine with
  | ret result =>
      cases returned
      exact obeys
  | call op next inductionHypothesis =>
      rw [Program.run] at returned
      rw [Program.issued]
      cases handled : handler op machine with
      | none =>
          rw [handled] at returned
          cases returned
      | some result =>
          rw [handled] at returned
          exact inductionHypothesis result.1 ((obeys_call.mp obeys).2 result.1) returned
  | stuck => cases returned

end Monitor

end Foundations
end Talbot
