import Talbot.Foundations.Responses

namespace Talbot
namespace Foundations

/-!
Runs together with the operations they issue.

`Traces` is total correctness with one more thing to talk about: the list of all
operations of the run, in order.  A sequence issues what its parts issue, one
after the other, and a loop is described by an invariant on what it has issued
so far.
-/

namespace Program

variable {I : Interface} {α β σ : Type}

/-- The program returns, and its result, its final state and the operations it has
issued satisfy `post`. -/
def Traces (handler : Handler I σ) : Program I α -> σ -> (α -> σ -> List I.Op -> Prop) -> Prop
  | ret value, state, post => post value state []
  | call op next, state, post =>
      ∃ response final, handler op state = some (response, final) ∧
        (next response).Traces handler final fun value final later => post value final (op :: later)
  | stuck, _, _ => False

section Traces

variable {handler : Handler I σ} {state : σ}

@[simp] theorem traces_ret {value : α} {post : α -> σ -> List I.Op -> Prop} :
    Traces handler (ret value) state post ↔ post value state [] :=
  Iff.rfl

theorem traces_call {op : I.Op} {next : I.Response op -> Program I α} {response : I.Response op} {final : σ}
    {post : α -> σ -> List I.Op -> Prop} (handled : handler op state = some (response, final)) :
    Traces handler (call op next) state post ↔
      Traces handler (next response) final fun value final later => post value final (op :: later) := by
  constructor
  · rintro ⟨response', final', same, traces⟩
    rw [handled] at same
    cases same
    exact traces
  · exact fun traces => ⟨response, final, handled, traces⟩

theorem Traces.mono {program : Program I α} {post weaker : α -> σ -> List I.Op -> Prop}
    (traces : Traces handler program state post)
    (weaken : ∀ value final issued, post value final issued -> weaker value final issued) :
    Traces handler program state weaker := by
  induction program generalizing state post weaker with
  | ret value => exact weaken value state [] traces
  | call op next inductionHypothesis =>
      rcases traces with ⟨response, final, handled, rest⟩
      exact ⟨response, final, handled, inductionHypothesis response rest fun value final later =>
        weaken value final (op :: later)⟩
  | stuck => exact traces

theorem traces_bind {program : Program I α} {continuation : α -> Program I β}
    {post : β -> σ -> List I.Op -> Prop} :
    Traces handler (program >>= continuation) state post ↔
      Traces handler program state fun value final first =>
        Traces handler (continuation value) final fun value final second => post value final (first ++ second) := by
  induction program generalizing state post with
  | ret value => rfl
  | call op next inductionHypothesis =>
      rw [call_bind]
      simp only [Traces, inductionHypothesis, List.cons_append]
  | stuck => rfl

/-- One operation and the rest of the program. -/
theorem traces_then {op : I.Op} {continuation : I.Response op -> Program I α} {response : I.Response op} {final : σ}
    {post : α -> σ -> List I.Op -> Prop} (handled : handler op state = some (response, final)) :
    Traces handler (call op ret >>= continuation) state post ↔
      Traces handler (continuation response) final fun value final later => post value final (op :: later) :=
  traces_call handled

/-- What is known of all operations of a program, and of its result. -/
theorem Returns.traces {program : Program I α} {guard : I.Op -> Prop} {post : α -> σ -> Prop}
    (returns : Returns handler program state post) (always : Always guard program fun _ => True) :
    Traces handler program state fun value final issued => post value final ∧ ∀ op, op ∈ issued -> guard op := by
  induction program generalizing state with
  | ret value => exact ⟨(returns_ret value).mp returns, fun _ impossible => (List.not_mem_nil impossible).elim⟩
  | call op next inductionHypothesis =>
      rcases returns with ⟨value, final, same, holds⟩
      rw [run] at same
      cases handled : handler op state with
      | none =>
          rw [handled] at same
          cases same
      | some result =>
          rw [handled] at same
          refine ⟨result.1, result.2, handled, ?_⟩
          refine (inductionHypothesis result.1 ⟨value, final, same, holds⟩ (always.2 result.1)).mono ?_
          rintro value final later ⟨holds, safe⟩
          exact ⟨holds, List.forall_mem_cons.mpr ⟨always.1, safe⟩⟩
  | stuck =>
      rcases returns with ⟨_, _, same, _⟩
      cases same

theorem Traces.and {program : Program I α} {post other : α -> σ -> List I.Op -> Prop}
    (first : Traces handler program state post) (second : Traces handler program state other) :
    Traces handler program state fun value final issued => post value final issued ∧ other value final issued := by
  induction program generalizing state post other with
  | ret value => exact ⟨first, second⟩
  | call op next inductionHypothesis =>
      rcases first with ⟨response, final, handled, rest⟩
      exact ⟨response, final, handled, inductionHypothesis response rest ((traces_call handled).mp second)⟩
  | stuck => exact first

/-- A loop that never breaks, with an invariant on what it has issued so far. -/
theorem traces_forRange {body : Nat -> α -> Program I (Iteration α)}
    (invariant : Nat -> α -> σ -> List I.Op -> Prop) (start count : Nat) (value : α) (state : σ)
    (before : List I.Op) (initially : invariant start value state before)
    (step : ∀ index value state before, start ≤ index -> index < start + count -> invariant index value state before ->
      Traces handler (body index value) state fun iteration final issued =>
        ∃ value, iteration = .next value ∧ invariant (index + 1) value final (before ++ issued)) :
    Traces handler (forRange body start count value) state fun value final issued =>
      invariant (start + count) value final (before ++ issued) := by
  induction count generalizing start value state before with
  | zero =>
      rw [forRange, traces_ret, List.append_nil]
      exact initially
  | succ count inductionHypothesis =>
      have ending : start + (count + 1) = start + 1 + count := by omega
      rw [forRange, traces_bind]
      apply (step start value state before (Nat.le_refl _) (by omega) initially).mono
      rintro iteration final issued ⟨value, rfl, holds⟩
      rw [ending] at step ⊢
      simp only [← List.append_assoc]
      exact inductionHypothesis (start + 1) value final (before ++ issued) holds
        fun index value state before lower => step index value state before (Nat.le_of_succ_le lower)

end Traces

/-! ## Single operations of a run -/

/-- The run issues the operation, whether it returns or not. -/
def Issues (handler : Handler I σ) (program : Program I α) (state : σ) (op : I.Op) : Prop :=
  op ∈ (program.issued handler state).map Prod.snd

section Issues

variable {handler : Handler I σ} {state : σ} {op : I.Op}

@[simp] theorem issues_ret {value : α} : ¬ Issues handler (ret value : Program I α) state op :=
  List.not_mem_nil

theorem issues_call {first : I.Op} {next : I.Response first -> Program I α} {response : I.Response first} {final : σ}
    (handled : handler first state = some (response, final)) :
    Issues handler (call first next) state op ↔ op = first ∨ Issues handler (next response) final op := by
  unfold Issues
  rw [issued, handled, List.map_cons, List.mem_cons]

/-- The first part of a sequence issues what it issues alone. -/
theorem Issues.bind {program : Program I α} (issues : Issues handler program state op)
    (continuation : α -> Program I β) : Issues handler (program >>= continuation) state op := by
  induction program generalizing state with
  | ret value => exact absurd issues issues_ret
  | call first next inductionHypothesis =>
      rw [call_bind]
      unfold Issues at issues ⊢
      rw [issued, List.map_cons, List.mem_cons] at issues ⊢
      refine issues.imp_right fun later => ?_
      cases handled : handler first state with
      | none =>
          rw [handled] at later
          exact later
      | some result =>
          rw [handled] at later
          exact inductionHypothesis result.1 later
  | stuck => exact issues

/-- Once the first part returns, the second one issues its operations. -/
theorem Returns.issues_bind {program : Program I α} {continuation : α -> Program I β} {post : α -> σ -> Prop}
    (returns : Returns handler program state post)
    (later : ∀ value final, post value final -> Issues handler (continuation value) final op) :
    Issues handler (program >>= continuation) state op := by
  induction program generalizing state with
  | ret value => exact later value state ((returns_ret value).mp returns)
  | call first next inductionHypothesis =>
      rw [call_bind]
      rcases returns with ⟨value, final, same, holds⟩
      rw [run] at same
      cases handled : handler first state with
      | none =>
          rw [handled] at same
          cases same
      | some result =>
          rw [handled] at same
          exact (issues_call handled).mpr (Or.inr (inductionHypothesis result.1 ⟨value, final, same, holds⟩))
  | stuck =>
      rcases returns with ⟨_, _, same, _⟩
      cases same

/-- What is known of the operations of a run that returns is known of each of them. -/
theorem Traces.issued {program : Program I α} {post : α -> σ -> List I.Op -> Prop}
    (traces : Traces handler program state post) :
    ∃ value final ops, post value final ops ∧ ∀ op, Issues handler program state op ↔ op ∈ ops := by
  induction program generalizing state post with
  | ret value => exact ⟨value, state, [], traces, fun _ => Iff.rfl⟩
  | call first next inductionHypothesis =>
      rcases traces with ⟨response, middle, handled, rest⟩
      rcases inductionHypothesis response rest with ⟨value, final, ops, holds, same⟩
      refine ⟨value, final, first :: ops, holds, fun op => ?_⟩
      rw [issues_call handled, same, List.mem_cons]
  | stuck => exact traces.elim

end Issues

end Program
end Foundations
end Talbot
