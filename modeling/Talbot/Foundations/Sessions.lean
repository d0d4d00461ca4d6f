import Talbot.Foundations.Behaviours

namespace Talbot
namespace Foundations

/-!
Programs that run one after the other.

A machine that serves one request after the other starts each of them in the state
the last one has left.  What may happen during a request, and what is asked of its
operations, depends on the request: `EnsuresEach` takes a behaviour and a guard for
every one of them, so that an assumption about one request restricts the runs of
that request only.
-/

namespace Program

variable {I : Interface} {ι α σ : Type}

/-- However the machine chooses, the operations of every request meet the guard of
the request, and the state after the last one meets `post`. -/
def EnsuresEach (may : ι -> Behaviour I σ) (guard : ι -> σ -> I.Op -> Prop) (exhausted : Prop)
    (program : ι -> Program I α) : List ι -> σ -> (σ -> Prop) -> Prop
  | [], state, post => post state
  | request :: rest, state, post =>
      Ensures (may request) (guard request) exhausted (program request) state fun _ final =>
        EnsuresEach may guard exhausted program rest final post

section EnsuresEach

variable {may : ι -> Behaviour I σ} {guard : ι -> σ -> I.Op -> Prop} {exhausted : Prop} {program : ι -> Program I α}
  {requests : List ι} {state : σ} {post : σ -> Prop}

theorem EnsuresEach.mono {weaker : σ -> Prop} (ensures : EnsuresEach may guard exhausted program requests state post)
    (weaken : ∀ final, post final -> weaker final) : EnsuresEach may guard exhausted program requests state weaker := by
  induction requests generalizing state with
  | nil => exact weaken state ensures
  | cons request rest inductionHypothesis =>
      exact Ensures.mono ensures fun _ final holds => inductionHypothesis holds

/-- An invariant that every request restores holds after all of them. -/
theorem ensuresEach_of_step (invariant : σ -> Prop) (initially : invariant state)
    (step : ∀ request, request ∈ requests -> ∀ state, invariant state ->
      Ensures (may request) (guard request) exhausted (program request) state fun _ final => invariant final) :
    EnsuresEach may guard exhausted program requests state invariant := by
  induction requests generalizing state with
  | nil => exact initially
  | cons request rest inductionHypothesis =>
      refine Ensures.mono (step request List.mem_cons_self state initially) fun _ final holds => ?_
      exact inductionHypothesis holds fun later inside => step later (List.mem_cons_of_mem _ inside)

end EnsuresEach

end Program
end Foundations
end Talbot
