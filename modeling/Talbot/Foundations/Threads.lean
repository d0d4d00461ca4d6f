import Mathlib.Logic.Function.Basic
import Mathlib.Logic.Relation
import Talbot.Foundations.Program

namespace Talbot
namespace Foundations

/-!
Threads that share a state.

Each thread runs a program, and the threads take turns after every operation.
What an operation does is a relation, so it may block, and the machine may
choose among several responses.  A snapshot also keeps the trace of everything
performed so far, and a run may be limited to steps that a condition on the
trace allows.

Two methods reason about runs.  A protocol says what a thread may do next
depending on what it did before; a program is checked against its protocol once,
and an invariant of all runs then only speaks about protocols.  Conversely, a
program that can be performed alone yields a run.
-/

variable {I : Interface} {ι σ α β Q : Type}

/-- One operation of one thread. -/
structure Event (I : Interface) (ι : Type) where
  thread : ι
  op : I.Op
  response : I.Response op

/-- The meaning of each operation of a thread: state before, response, state
after. -/
abbrev Effects (I : Interface) (ι σ : Type) : Type :=
  ι -> (op : I.Op) -> σ -> I.Response op -> σ -> Prop

structure Snapshot (I : Interface) (ι σ : Type) where
  programs : ι -> Program I Unit
  shared : σ
  trace : List (Event I ι)

/-! ## Protocols -/

/-- The operations that a thread may perform in a phase, with the responses and
the phases they lead to. -/
abbrev Protocol (I : Interface) (Q : Type) : Type :=
  Q -> (op : I.Op) -> I.Response op -> Q -> Prop

namespace Program

variable {protocol : Protocol I Q} {phase : Q}

/-- Whatever the responses are, the program stays within the protocol, and its
results satisfy `post`. -/
def Obeys (protocol : Protocol I Q) : Program I α -> Q -> (α -> Q -> Prop) -> Prop
  | ret value, phase, post => post value phase
  | call op next, phase, post =>
      ∀ response, ∃ after, protocol phase op response after ∧ (next response).Obeys protocol after post
  | stuck, _, _ => True

@[simp] theorem obeys_ret {value : α} {post : α -> Q -> Prop} :
    Obeys protocol (ret value : Program I α) phase post ↔ post value phase :=
  Iff.rfl

theorem obeys_call {op : I.Op} {next : I.Response op -> Program I α} {post : α -> Q -> Prop} :
    Obeys protocol (call op next) phase post ↔
      ∀ response, ∃ after, protocol phase op response after ∧ Obeys protocol (next response) after post :=
  Iff.rfl

theorem obeys_bind {program : Program I α} {continuation : α -> Program I β} {post : β -> Q -> Prop} :
    Obeys protocol (program >>= continuation) phase post ↔
      Obeys protocol program phase fun value phase => Obeys protocol (continuation value) phase post := by
  induction program generalizing phase with
  | ret value => rfl
  | call op next inductionHypothesis =>
      rw [call_bind]
      exact forall_congr' fun response => exists_congr fun _ => and_congr_right fun _ =>
        inductionHypothesis response
  | stuck => rfl

theorem Obeys.mono {program : Program I α} {post weaker : α -> Q -> Prop}
    (obeys : Obeys protocol program phase post) (weaken : ∀ value phase, post value phase -> weaker value phase) :
    Obeys protocol program phase weaker := by
  induction program generalizing phase with
  | ret value => exact weaken value phase obeys
  | call op next inductionHypothesis =>
      intro response
      rcases obeys response with ⟨after, move, rest⟩
      exact ⟨after, move, inductionHypothesis response rest⟩
  | stuck => trivial

/-- A loop that never breaks. -/
theorem obeys_forRange {body : Nat -> α -> Program I (Iteration α)} (invariant : Nat -> α -> Q -> Prop)
    (start count : Nat) (value : α) (phase : Q) (initially : invariant start value phase)
    (step : ∀ index value phase, start ≤ index -> index < start + count -> invariant index value phase ->
      Obeys protocol (body index value) phase fun iteration phase =>
        ∃ value, iteration = .next value ∧ invariant (index + 1) value phase) :
    Obeys protocol (forRange body start count value) phase (invariant (start + count)) := by
  induction count generalizing start value phase with
  | zero => exact initially
  | succ count inductionHypothesis =>
      have ending : start + (count + 1) = start + 1 + count := by omega
      rw [forRange, obeys_bind, ending]
      apply (step start value phase (Nat.le_refl _) (by omega) initially).mono
      rintro iteration phase ⟨value, rfl, holds⟩
      apply inductionHypothesis (start + 1) value phase holds
      intro index value phase lower upper
      exact step index value phase (by omega) (by omega)

end Program

/-! ## Runs -/

section Runs

variable [DecidableEq ι]

/-- One thread performs its next operation. -/
inductive Snapshot.Step (effects : Effects I ι σ) : Snapshot I ι σ -> Event I ι -> Snapshot I ι σ -> Prop
  | perform {snapshot : Snapshot I ι σ} {event : Event I ι} {next : I.Response event.op -> Program I Unit}
      {shared : σ} (runs : snapshot.programs event.thread = .call event.op next)
      (effect : effects event.thread event.op snapshot.shared event.response shared) :
      Step effects snapshot event
        ⟨Function.update snapshot.programs event.thread (next event.response), shared, snapshot.trace ++ [event]⟩

/-- The snapshots of the runs whose steps are all allowed.  Which steps are allowed
may depend on the trace so far; any thread may make the next one. -/
def Snapshot.Reaches (effects : Effects I ι σ) (allowed : List (Event I ι) -> Event I ι -> Prop) :
    Snapshot I ι σ -> Snapshot I ι σ -> Prop :=
  Relation.ReflTransGen fun before after =>
    ∃ event, allowed before.trace event ∧ before.Step effects event after

namespace Snapshot

variable {effects : Effects I ι σ} {allowed weaker : List (Event I ι) -> Event I ι -> Prop}
  {first last : Snapshot I ι σ}

theorem Reaches.mono (reaches : Reaches effects allowed first last)
    (weaken : ∀ trace event, allowed trace event -> weaker trace event) : Reaches effects weaker first last :=
  Relation.ReflTransGen.mono (fun _ _ ⟨event, step⟩ => ⟨event, weaken _ _ step.1, step.2⟩) _ _ reaches

/-- Every thread is within its protocol, and the invariant holds of the phases
they are in. -/
def Within {Q : ι -> Type} (protocol : (thread : ι) -> Protocol I (Q thread))
    (final : (thread : ι) -> Q thread -> Prop)
    (invariant : ((thread : ι) -> Q thread) -> σ -> List (Event I ι) -> Prop) (snapshot : Snapshot I ι σ) : Prop :=
  ∃ phases, (∀ thread, (snapshot.programs thread).Obeys (protocol thread) (phases thread)
    fun _ phase => final thread phase) ∧ invariant phases snapshot.shared snapshot.trace

/-- An invariant that every permitted operation preserves holds along every run
of threads that follow their protocols. -/
theorem Reaches.within {Q : ι -> Type} {protocol : (thread : ι) -> Protocol I (Q thread)}
    {final : (thread : ι) -> Q thread -> Prop}
    {invariant : ((thread : ι) -> Q thread) -> σ -> List (Event I ι) -> Prop}
    (step : ∀ phases shared trace (event : Event I ι) phase after, invariant phases shared trace ->
      allowed trace event -> protocol event.thread (phases event.thread) event.op event.response phase ->
      effects event.thread event.op shared event.response after ->
      invariant (Function.update phases event.thread phase) after (trace ++ [event]))
    (initially : Within protocol final invariant first) (reaches : Reaches effects allowed first last) :
    Within protocol final invariant last := by
  induction reaches with
  | refl => exact initially
  | tail _ taken inductionHypothesis =>
      rcases taken with ⟨event, permitted, taken⟩
      cases taken with
      | perform runs effect =>
          rcases inductionHypothesis with ⟨phases, obeys, holds⟩
          have here := obeys event.thread
          rw [runs] at here
          rcases here event.response with ⟨phase, move, here⟩
          refine ⟨_, fun thread => ?_, step phases _ _ event phase _ holds permitted move effect⟩
          by_cases same : thread = event.thread
          · subst same
            dsimp only
            rw [Function.update_self, Function.update_self]
            exact here
          · dsimp only
            rw [Function.update_of_ne same, Function.update_of_ne same]
            exact obeys thread

end Snapshot

end Runs

/-! ## One thread alone -/

namespace Program

variable {effects : Effects I ι σ} {allowed : List (Event I ι) -> Event I ι -> Prop} {thread : ι} {shared : σ}
  {trace : List (Event I ι)}

/-- The thread can perform the program without the others, so that the result,
the shared state and the trace satisfy `post`. -/
def Performs (effects : Effects I ι σ) (allowed : List (Event I ι) -> Event I ι -> Prop) (thread : ι) :
    Program I α -> σ -> List (Event I ι) -> (α -> σ -> List (Event I ι) -> Prop) -> Prop
  | ret value, shared, trace, post => post value shared trace
  | call op next, shared, trace, post =>
      ∃ response after, allowed trace ⟨thread, op, response⟩ ∧ effects thread op shared response after ∧
        (next response).Performs effects allowed thread after (trace ++ [⟨thread, op, response⟩]) post
  | stuck, _, _, _ => False

@[simp] theorem performs_ret {value : α} {post : α -> σ -> List (Event I ι) -> Prop} :
    Performs effects allowed thread (ret value) shared trace post ↔ post value shared trace :=
  Iff.rfl

theorem performs_call {op : I.Op} {next : I.Response op -> Program I α}
    {post : α -> σ -> List (Event I ι) -> Prop} :
    Performs effects allowed thread (call op next) shared trace post ↔
      ∃ response after, allowed trace ⟨thread, op, response⟩ ∧ effects thread op shared response after ∧
        Performs effects allowed thread (next response) after (trace ++ [⟨thread, op, response⟩]) post :=
  Iff.rfl

theorem performs_bind {program : Program I α} {continuation : α -> Program I β}
    {post : β -> σ -> List (Event I ι) -> Prop} :
    Performs effects allowed thread (program >>= continuation) shared trace post ↔
      Performs effects allowed thread program shared trace fun value shared trace =>
        Performs effects allowed thread (continuation value) shared trace post := by
  induction program generalizing shared trace with
  | ret value => rfl
  | call op next inductionHypothesis =>
      rw [call_bind]
      exact exists_congr fun response => exists_congr fun after => and_congr_right fun _ =>
        and_congr_right fun _ => inductionHypothesis response
  | stuck => rfl

theorem Performs.mono {program : Program I α} {post weaker : α -> σ -> List (Event I ι) -> Prop}
    (performs : Performs effects allowed thread program shared trace post)
    (weaken : ∀ value shared trace, post value shared trace -> weaker value shared trace) :
    Performs effects allowed thread program shared trace weaker := by
  induction program generalizing shared trace with
  | ret value => exact weaken value shared trace performs
  | call op next inductionHypothesis =>
      rcases performs with ⟨response, after, permitted, effect, rest⟩
      exact ⟨response, after, permitted, effect, inductionHypothesis response rest⟩
  | stuck => exact performs

/-- A weaker condition on the steps allows it as well. -/
theorem Performs.allow {weaker : List (Event I ι) -> Event I ι -> Prop} {program : Program I α}
    {post : α -> σ -> List (Event I ι) -> Prop} (performs : Performs effects allowed thread program shared trace post)
    (weaken : ∀ trace event, allowed trace event -> weaker trace event) :
    Performs effects weaker thread program shared trace post := by
  induction program generalizing shared trace with
  | ret value => exact performs
  | call op next inductionHypothesis =>
      rcases performs with ⟨response, after, permitted, effect, rest⟩
      exact ⟨response, after, weaken _ _ permitted, effect, inductionHypothesis response rest⟩
  | stuck => exact performs

theorem performs_forRange {body : Nat -> α -> Program I (Iteration α)}
    (invariant : Nat -> α -> σ -> List (Event I ι) -> Prop) (start count : Nat) (value : α)
    (initially : invariant start value shared trace)
    (step : ∀ index value shared trace, start ≤ index -> index < start + count ->
      invariant index value shared trace ->
      Performs effects allowed thread (body index value) shared trace fun iteration shared trace =>
        ∃ value, iteration = .next value ∧ invariant (index + 1) value shared trace) :
    Performs effects allowed thread (forRange body start count value) shared trace
      (invariant (start + count)) := by
  induction count generalizing start value shared trace with
  | zero => exact initially
  | succ count inductionHypothesis =>
      have ending : start + (count + 1) = start + 1 + count := by omega
      rw [forRange, performs_bind, ending]
      apply (step start value shared trace (Nat.le_refl _) (by omega) initially).mono
      rintro iteration shared trace ⟨value, rfl, holds⟩
      apply inductionHypothesis (start + 1) value holds
      intro index value shared trace lower upper
      exact step index value shared trace (by omega) (by omega)

/-- All the while only this thread is active. -/
theorem Performs.alone {program : Program I α} {post : α -> σ -> List (Event I ι) -> Prop}
    (performs : Performs effects allowed thread program shared trace post) :
    Performs effects allowed thread program shared trace fun value shared trace' =>
      post value shared trace' ∧ ∃ later, trace' = trace ++ later ∧ ∀ event, event ∈ later -> event.thread = thread := by
  induction program generalizing shared trace with
  | ret value => exact ⟨performs, [], (List.append_nil trace).symm, fun _ impossible =>
      (List.not_mem_nil impossible).elim⟩
  | call op next inductionHypothesis =>
      rcases performs with ⟨response, after, permitted, effect, rest⟩
      refine ⟨response, after, permitted, effect, (inductionHypothesis response rest).mono ?_⟩
      rintro value shared trace' ⟨holds, later, rfl, own⟩
      refine ⟨holds, ⟨thread, op, response⟩ :: later, List.append_assoc _ _ _, fun event member => ?_⟩
      rcases List.mem_cons.mp member with rfl | member
      · rfl
      · exact own event member
  | stuck => exact performs

end Program

/-! ## Building runs -/

namespace Snapshot

variable [DecidableEq ι] {effects : Effects I ι σ} {allowed : List (Event I ι) -> Event I ι -> Prop}
  {snapshot : Snapshot I ι σ} {goal later : Snapshot I ι σ -> Prop}

/-- Some run gets there. -/
def CanReach (effects : Effects I ι σ) (allowed : List (Event I ι) -> Event I ι -> Prop)
    (snapshot : Snapshot I ι σ) (goal : Snapshot I ι σ -> Prop) : Prop :=
  ∃ last, snapshot.Reaches effects allowed last ∧ goal last

theorem CanReach.here (holds : goal snapshot) : snapshot.CanReach effects allowed goal :=
  ⟨snapshot, .refl, holds⟩

theorem CanReach.trans (first : snapshot.CanReach effects allowed goal)
    (second : ∀ middle, goal middle -> middle.CanReach effects allowed later) :
    snapshot.CanReach effects allowed later := by
  rcases first with ⟨middle, reaches, holds⟩
  rcases second middle holds with ⟨last, reaches', holds'⟩
  exact ⟨last, Relation.ReflTransGen.trans reaches reaches', holds'⟩

/-- Stage after stage. -/
theorem CanReach.rounds (stage : Nat -> Snapshot I ι σ -> Prop) (count : Nat)
    (step : ∀ index snapshot, index < count -> stage index snapshot ->
      snapshot.CanReach effects allowed (stage (index + 1))) (initially : stage 0 snapshot) :
    snapshot.CanReach effects allowed (stage count) := by
  induction count with
  | zero => exact .here initially
  | succ count inductionHypothesis =>
      apply (inductionHypothesis fun index snapshot before =>
        step index snapshot (Nat.lt_succ_of_lt before)).trans
      exact fun middle => step count middle (Nat.lt_succ_self count)

/-- A program that can be performed alone begins a run of the whole system. -/
theorem CanReach.alone {thread : ι} {program : Program I α} {continuation : α -> Program I Unit}
    {post : α -> σ -> List (Event I ι) -> Prop}
    (performs : program.Performs effects allowed thread snapshot.shared snapshot.trace post)
    (runs : snapshot.programs thread = program >>= continuation)
    (next : ∀ value shared trace, post value shared trace ->
      CanReach effects allowed
        ⟨Function.update snapshot.programs thread (continuation value), shared, trace⟩ goal) :
    snapshot.CanReach effects allowed goal := by
  induction program generalizing snapshot with
  | ret value =>
      have same := next value snapshot.shared snapshot.trace performs
      rw [Program.ret_bind] at runs
      rw [← runs, Function.update_eq_self] at same
      exact same
  | call op program inductionHypothesis =>
      rcases performs with ⟨response, after, permitted, effect, rest⟩
      rw [Program.call_bind] at runs
      let middle : Snapshot I ι σ := ⟨Function.update snapshot.programs thread (program response >>= continuation),
        after, snapshot.trace ++ [⟨thread, op, response⟩]⟩
      have taken : snapshot.Step effects ⟨thread, op, response⟩ middle :=
        @Snapshot.Step.perform _ _ _ _ effects snapshot ⟨thread, op, response⟩ _ _ runs effect
      have continued : middle.CanReach effects allowed goal := by
        apply @inductionHypothesis response middle rest (Function.update_self _ _ _)
        intro value shared trace holds
        change CanReach effects allowed ⟨Function.update (Function.update snapshot.programs thread
          (program response >>= continuation)) thread (continuation value), shared, trace⟩ goal
        rw [Function.update_idem]
        exact next value shared trace holds
      rcases continued with ⟨last, reaches, holds⟩
      exact ⟨last, Relation.ReflTransGen.head ⟨_, permitted, taken⟩ reaches, holds⟩
  | stuck => exact performs.elim

end Snapshot
end Foundations
end Talbot
