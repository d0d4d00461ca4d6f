import Talbot.CrossHyperthread.Runs

namespace Talbot
namespace CrossHyperthread

/-!
No stuck handshake.

The first call whose threads run keeps its counters in step until a thread ends,
and whoever ends leaves the completion that the other one waits for saturated.
Later calls only find saturated completions, on which no wait blocks.
-/

open Foundations

/-- The next operation of the thread waits, without a timeout, for a completion
that nobody signalled. -/
def Blocked (snapshot : HandshakeSnapshot) (thread : ThreadName) : Prop :=
  ∃ completion next, snapshot.programs thread = .call (HandshakeOp.waitForCompletion completion) next ∧
    (snapshot.shared.completions completion).done = 0

def Returned (snapshot : HandshakeSnapshot) (thread : ThreadName) : Prop :=
  snapshot.programs thread = .ret ()

/-- Neither thread of the call can go on: both are blocked, or one is blocked and
the other has returned. -/
def Stuck (snapshot : HandshakeSnapshot) (number : Nat) : Prop :=
  Blocked snapshot (.main number) ∧ Blocked snapshot (.sub number) ∨
    Blocked snapshot (.main number) ∧ Returned snapshot (.sub number) ∨
    Returned snapshot (.main number) ∧ Blocked snapshot (.sub number)

/-- A call begins when the threads of the earlier calls have ended.  Nothing is said
about the order of steps within a call, and the caller may leave a call while its
threads still run. -/
def Sequential (trace : List HandshakeEvent) : HandshakeEvent -> Prop
  | ⟨_, .newThreadData _ _, _⟩ => AllEnded trace
  | _ => True

theorem Punctual.sequential {trace : List HandshakeEvent} {event : HandshakeEvent}
    (punctual : Punctual trace event) : Sequential trace event := by
  unfold Sequential
  split
  · exact punctual
  · trivial

/-! ## Saturation -/

/-- The completions that no call initialises again. -/
def CompletionName.Static : CompletionName -> Prop
  | .setup | .desynchronization | .pcidSwitching => True
  | _ => False

/-- Only an initialisation ends the saturation of a completion.  Signals keep the
counter where it is, and a wait takes nothing from a saturated one. -/
theorem Shared.effect_saturated {shared after : Shared} {op : HandshakeOp} {response : op.Response}
    (name : CompletionName) (effect : shared.effect op response after)
    (saturated : (shared.completions name).done = uintMax) (kept : op ≠ .initCompletion name) :
    (after.completions name).done = uintMax := by
  by_cases target : op.target = some name
  · have change : ∀ update : Completion -> Completion,
        ((shared.updateCompletion name update).completions name).done = (update (shared.completions name)).done :=
      fun update => congrArg Completion.done (Function.update_self name _ shared.completions)
    cases op with
    | complete other =>
        cases target
        rw [show after = _ from effect, change, Completion.complete_saturated saturated]
        exact saturated
    | completeAll other =>
        cases target
        rw [show after = _ from effect, change]
        rfl
    | waitForCompletion other =>
        cases target
        rw [effect.2, change, Completion.consume_saturated saturated]
        exact saturated
    | waitForCompletionTimeout other =>
        cases target
        cases response with
        | true =>
            rw [effect.2, change, Completion.consume_saturated saturated]
            exact saturated
        | false => exact effect.2 ▸ saturated
    | initCompletion other =>
        cases target
        exact absurd rfl kept
    | _ => cases target
  · rw [Shared.effect_completion name effect target]
    exact saturated

/-- The caller initialises none of the static completions. -/
theorem CallerMove.no_init {total : Nat} {phase after : CallerPhase} {op : HandshakeOp} {response : op.Response}
    (move : CallerMove total phase op response after) (name : CompletionName) (static : name.Static) :
    op ≠ .initCompletion name := by
  cases move with
  | resetMain =>
      rintro ⟨⟩
      exact static
  | resetSub =>
      rintro ⟨⟩
      exact static
  | _ => nofun

theorem CallerMove.wakes_sub {total number : Nat} {phase after : CallerPhase}
    {response : (HandshakeOp.wakeUpProcess (.sub number)).Response}
    (move : CallerMove total phase (.wakeUpProcess (.sub number)) response after) :
    number = phase.call ∧ phase.point = .mainAwake := by
  cases move
  exact ⟨rfl, rfl⟩

theorem CallerMove.wakes_call {total : Nat} {phase after : CallerPhase} {thread : ThreadName}
    {response : (HandshakeOp.wakeUpProcess thread).Response}
    (move : CallerMove total phase (.wakeUpProcess thread) response after) : after.call = phase.call := by
  cases move <;> rfl

theorem CallerMove.mainAwake {total : Nat} {phase after : CallerPhase} {op : HandshakeOp} {response : op.Response}
    (move : CallerMove total phase op response after) (point : after.point = .mainAwake) :
    after.call = phase.call ∧
      (⟨.caller, op, response⟩ : HandshakeEvent) = ⟨.caller, .wakeUpProcess (.main phase.call), ()⟩ := by
  cases move with
  | wakeMain => exact ⟨rfl, rfl⟩
  | _ => cases point

/-- Within a call, or between two, the caller does not forget which call it is. -/
theorem CallerMove.stays {total : Nat} {phase after : CallerPhase} {op : HandshakeOp} {response : op.Response}
    (move : CallerMove total phase op response after) (noAllocation : ∀ number level, op ≠ .newThreadData number level)
    {number : Nat} (current : number = phase.call ∨ phase.point = .between) :
    number = after.call ∨ after.point = .between := by
  cases move with
  | allocate more level => exact absurd rfl (noAllocation _ level)
  | noMain => exact Or.inr rfl
  | noSub => exact Or.inr rfl
  | free => exact Or.inr rfl
  | _ => exact current.imp id nofun

/-- Every static completion is saturated.  `complete_all` has then been called on
each of them, and no wait for one of them blocks any more. -/
def AllSaturated (completions : CompletionName -> Completion) : Prop :=
  ∀ name : CompletionName, name.Static -> (completions name).done = uintMax

/-! ## The invariant of one call -/

/-- The counters of the call, and what the threads that went on left behind.  Where
a thread has passed its last use of a completion it has called `complete_all`, so
the other thread cannot be left waiting for it. -/
structure InStep (main : MainPhase) (sub : SubPhase) (completions : CompletionName -> Completion) : Prop where
  mainBounded : main.Bounded
  subBounded : sub.Bounded
  counters : Counters main sub completions
  setup : sub ≠ .starting -> (completions .setup).done = uintMax
  desynchronization : main.closed = true -> (completions .desynchronization).done = uintMax
  pcidSwitching : sub.closed = true -> (completions .pcidSwitching).done = uintMax

namespace InStep

variable {number : Nat} {main main' : MainPhase} {sub sub' : SubPhase} {shared after : Shared} {op : HandshakeOp}
  {response : op.Response}

theorem main_move (inStep : InStep main sub shared.completions) (move : MainMove number main op response main')
    (effect : shared.effect op response after) : InStep main' sub after.completions where
  mainBounded := move.bounded inStep.mainBounded
  subBounded := inStep.subBounded
  counters := inStep.counters.main_move move effect inStep.mainBounded inStep.subBounded
  setup := fun begun => Shared.effect_saturated _ effect (inStep.setup begun) (move.no_init _)
  desynchronization := by
    intro closed
    cases move with
    | close =>
        rw [show after = _ from effect]
        rfl
    | awaitSub inTime => exact Shared.effect_saturated _ effect (inStep.desynchronization rfl) nofun
    | announce => exact Shared.effect_saturated _ effect (inStep.desynchronization rfl) nofun
    | _ => cases closed
  pcidSwitching := fun closed => Shared.effect_saturated _ effect (inStep.pcidSwitching closed) (move.no_init _)

theorem sub_move (inStep : InStep main sub shared.completions) (move : SubMove sub op response sub')
    (effect : shared.effect op response after) : InStep main sub' after.completions where
  mainBounded := inStep.mainBounded
  subBounded := move.bounded inStep.subBounded
  counters := inStep.counters.sub_move move effect inStep.mainBounded inStep.subBounded
  setup := by
    intro begun
    cases move with
    | getCr3 cr3 => exact absurd rfl begun
    | setUp =>
        rw [show after = _ from effect]
        rfl
    | _ => exact Shared.effect_saturated _ effect (inStep.setup nofun) nofun
  desynchronization := fun closed => Shared.effect_saturated _ effect (inStep.desynchronization closed) (move.no_init _)
  pcidSwitching := by
    intro closed
    cases move with
    | close =>
        rw [show after = _ from effect]
        rfl
    | announce => exact Shared.effect_saturated _ effect (inStep.pcidSwitching rfl) nofun
    | _ => cases closed

theorem caller_move {total : Nat} {phase phase' : CallerPhase} (inStep : InStep main sub shared.completions)
    (move : CallerMove total phase op response phase') (effect : shared.effect op response after) :
    InStep main sub after.completions where
  mainBounded := inStep.mainBounded
  subBounded := inStep.subBounded
  counters := by
    refine ⟨?_, ?_⟩
    · rw [Shared.effect_completion _ effect move.no_handshake.1]
      exact inStep.counters.desynchronization
    · rw [Shared.effect_completion _ effect move.no_handshake.2]
      exact inStep.counters.pcidSwitching
  setup := fun begun => Shared.effect_saturated _ effect (inStep.setup begun) (move.no_init _ trivial)
  desynchronization := fun closed =>
    Shared.effect_saturated _ effect (inStep.desynchronization closed) (move.no_init _ trivial)
  pcidSwitching := fun closed =>
    Shared.effect_saturated _ effect (inStep.pcidSwitching closed) (move.no_init _ trivial)

/-- Threads that ended leave everything saturated. -/
theorem all_saturated (inStep : InStep .returned .returned shared.completions) :
    AllSaturated shared.completions := by
  intro name static
  cases name with
  | setup => exact inStep.setup nofun
  | desynchronization => exact inStep.desynchronization rfl
  | pcidSwitching => exact inStep.pcidSwitching rfl
  | _ => exact static.elim

end InStep

/-! ## The invariant of a run -/

/-- Who is awake and how far the threads are, whatever the counters.  A thread that
was never woken is still at its start, and one that has signalled its end has
returned. -/
structure Roster (phases : Phases) (shared : Shared) (trace : List HandshakeEvent) : Prop where
  asleep : ∀ number, shared.awake (.main number) = false -> phases.main number = .starting
  subAsleep : ∀ number, shared.awake (.sub number) = false -> phases.sub number = .starting
  woken : ∀ number, shared.awake (.main number) = true ∨ shared.awake (.sub number) = true -> Woken number trace
  mainEnded : ∀ number, ⟨.main number, .completeAll .mainDone, ()⟩ ∈ trace -> phases.main number = .returned
  subEnded : ∀ number, ⟨.sub number, .completeAll .subDone, ()⟩ ∈ trace -> phases.sub number = .returned
  mainFirst : phases.caller.point = .mainAwake -> Woken phases.caller.call trace

namespace Roster

variable {phases : Phases} {shared after : Shared} {trace : List HandshakeEvent} {op : HandshakeOp}
  {response : op.Response}

theorem main_move (roster : Roster phases shared trace) {number : Nat} {phase : MainPhase}
    (awake : shared.awake (.main number) = true) (move : MainMove number (phases.main number) op response phase)
    (effect : shared.effect op response after) :
    Roster (Function.update phases (.main number) phase) after (trace ++ [⟨.main number, op, response⟩]) := by
  have same : ∀ thread, after.awake thread = shared.awake thread := fun thread =>
    Shared.effect_awake _ effect (move.no_wake _)
  constructor
  case asleep =>
    intro other still
    rw [same] at still
    have different : other ≠ number := by
      rintro rfl
      rw [awake] at still
      cases still
    rw [Phases.main_update_other phase different]
    exact roster.asleep other still
  case subAsleep =>
    intro other still
    rw [Phases.sub_update_main]
    exact roster.subAsleep other (same _ ▸ still)
  case woken =>
    intro other woken
    rw [same, same] at woken
    exact List.mem_append_left _ (roster.woken other woken)
  case mainEnded =>
    intro other ended
    rcases List.mem_append.mp ended with before | now
    · have returned := roster.mainEnded other before
      have different : other ≠ number := by
        rintro rfl
        exact move.not_returned returned
      rw [Phases.main_update_other phase different]
      exact returned
    · cases List.mem_singleton.mp now
      rw [Phases.main_update_main]
      exact move.ended
  case subEnded =>
    intro other ended
    rw [Phases.sub_update_main]
    rcases List.mem_append.mp ended with before | now
    · exact roster.subEnded other before
    · cases List.mem_singleton.mp now
  case mainFirst =>
    rw [Phases.caller_update_main]
    exact fun point => List.mem_append_left _ (roster.mainFirst point)

theorem sub_move (roster : Roster phases shared trace) {number : Nat} {phase : SubPhase}
    (awake : shared.awake (.sub number) = true) (move : SubMove (phases.sub number) op response phase)
    (effect : shared.effect op response after) :
    Roster (Function.update phases (.sub number) phase) after (trace ++ [⟨.sub number, op, response⟩]) := by
  have same : ∀ thread, after.awake thread = shared.awake thread := fun thread =>
    Shared.effect_awake _ effect (move.no_wake _)
  constructor
  case asleep =>
    intro other still
    rw [Phases.main_update_sub]
    exact roster.asleep other (same _ ▸ still)
  case subAsleep =>
    intro other still
    rw [same] at still
    have different : other ≠ number := by
      rintro rfl
      rw [awake] at still
      cases still
    rw [Phases.sub_update_other phase different]
    exact roster.subAsleep other still
  case woken =>
    intro other woken
    rw [same, same] at woken
    exact List.mem_append_left _ (roster.woken other woken)
  case mainEnded =>
    intro other ended
    rw [Phases.main_update_sub]
    rcases List.mem_append.mp ended with before | now
    · exact roster.mainEnded other before
    · cases List.mem_singleton.mp now
  case subEnded =>
    intro other ended
    rcases List.mem_append.mp ended with before | now
    · have returned := roster.subEnded other before
      have different : other ≠ number := by
        rintro rfl
        exact move.not_returned returned
      rw [Phases.sub_update_other phase different]
      exact returned
    · cases List.mem_singleton.mp now
      rw [Phases.sub_update_sub]
      exact move.ended
  case mainFirst =>
    rw [Phases.caller_update_sub]
    exact fun point => List.mem_append_left _ (roster.mainFirst point)

theorem caller_move (roster : Roster phases shared trace) {total : Nat} {phase : CallerPhase}
    (move : CallerMove total phases.caller op response phase) (effect : shared.effect op response after) :
    Roster (Function.update phases .caller phase) after (trace ++ [⟨.caller, op, response⟩]) := by
  have still : ∀ thread, after.awake thread = false -> shared.awake thread = false := by
    intro thread still
    by_contra woken
    rw [Shared.effect_stays thread effect (Or.inl (Bool.eq_true_of_not_eq_false woken))] at still
    cases still
  constructor
  case asleep =>
    intro number asleep
    rw [Phases.main_update_caller]
    exact roster.asleep number (still _ asleep)
  case subAsleep =>
    intro number asleep
    rw [Phases.sub_update_caller]
    exact roster.subAsleep number (still _ asleep)
  case woken =>
    intro number woken
    by_cases wakes : op = .wakeUpProcess (.main number)
    · subst wakes
      exact List.mem_append_right _ List.mem_cons_self
    · apply List.mem_append_left
      by_cases wakesSub : op = .wakeUpProcess (.sub number)
      · subst wakesSub
        rcases move.wakes_sub with ⟨rfl, point⟩
        exact roster.mainFirst point
      · rw [Shared.effect_awake _ effect wakes, Shared.effect_awake _ effect wakesSub] at woken
        exact roster.woken number woken
  case mainEnded =>
    intro number ended
    rw [Phases.main_update_caller]
    rcases List.mem_append.mp ended with before | now
    · exact roster.mainEnded number before
    · cases List.mem_singleton.mp now
  case subEnded =>
    intro number ended
    rw [Phases.sub_update_caller]
    rcases List.mem_append.mp ended with before | now
    · exact roster.subEnded number before
    · cases List.mem_singleton.mp now
  case mainFirst =>
    rw [Phases.caller_update_caller]
    intro point
    rcases move.mainAwake point with ⟨same, event⟩
    rw [same, event]
    exact List.mem_append_right _ List.mem_cons_self

end Roster

/-- The threads of the call have not been woken, or it is the call that the caller
is in, or the last one before. -/
def Current (phases : Phases) (shared : Shared) (number : Nat) : Prop :=
  shared.awake (.main number) = true ∨ shared.awake (.sub number) = true ->
    number = phases.caller.call ∨ phases.caller.point = .between

/-- Either nothing blocks any more, or only one call had its threads run.  This is
the invariant of all runs; the first case is reached when both threads of a call
have ended. -/
structure Progress (phases : Phases) (shared : Shared) (trace : List HandshakeEvent) : Prop where
  roster : Roster phases shared trace
  progress : AllSaturated shared.completions ∨ ∃ number, InStep (phases.main number) (phases.sub number)
    shared.completions ∧ Current phases shared number ∧
    ∀ other, other ≠ number -> shared.awake (.main other) = false ∧ shared.awake (.sub other) = false

theorem progress_loaded : Progress startPhase Shared.loaded [] where
  roster := ⟨fun _ _ => rfl, fun _ _ => rfl, nofun, nofun, nofun, nofun⟩
  progress := Or.inr ⟨0, ⟨trivial, trivial, ⟨fun _ => rfl, fun _ => rfl⟩, fun begun => absurd rfl begun, nofun, nofun⟩,
    nofun, fun _ _ => ⟨rfl, rfl⟩⟩

namespace Progress

variable {phases : Phases} {shared after : Shared} {trace : List HandshakeEvent} {op : HandshakeOp}
  {response : op.Response}

/-- A move of a thread that runs: its call is the one whose threads ran. -/
theorem thread_move (progress : Progress phases shared trace) {number : Nat} {next : Phases}
    (awake : shared.awake (.main number) = true ∨ shared.awake (.sub number) = true)
    (same : ∀ thread, after.awake thread = shared.awake thread) (caller : next.caller = phases.caller)
    (saturates : AllSaturated shared.completions -> AllSaturated after.completions)
    (steps : InStep (phases.main number) (phases.sub number) shared.completions ->
      InStep (next.main number) (next.sub number) after.completions) :
    AllSaturated after.completions ∨ ∃ number, InStep (next.main number) (next.sub number) after.completions ∧
      Current next after number ∧
      ∀ other, other ≠ number -> after.awake (.main other) = false ∧ after.awake (.sub other) = false := by
  rcases progress.progress with saturated | ⟨first, inStep, current, others⟩
  · exact Or.inl (saturates saturated)
  · have here : number = first := by
      by_contra different
      rcases others number different with ⟨mainAsleep, subAsleep⟩
      rw [mainAsleep, subAsleep] at awake
      exact awake.elim Bool.false_ne_true Bool.false_ne_true
    subst here
    refine Or.inr ⟨number, steps inStep, ?_, fun other different => ?_⟩
    · unfold Current
      rw [same, same, caller]
      exact current
    · rw [same, same]
      exact others other different

theorem main_move (progress : Progress phases shared trace) {number : Nat} {phase : MainPhase}
    (awake : shared.awake (.main number) = true) (move : MainMove number (phases.main number) op response phase)
    (effect : shared.effect op response after) :
    Progress (Function.update phases (.main number) phase) after (trace ++ [⟨.main number, op, response⟩]) where
  roster := progress.roster.main_move awake move effect
  progress := by
    apply progress.thread_move (Or.inl awake) (fun thread => Shared.effect_awake _ effect (move.no_wake _))
      (Phases.caller_update_main phase)
    · exact fun saturated name static => Shared.effect_saturated name effect (saturated name static) (move.no_init name)
    · intro inStep
      rw [Phases.main_update_main, Phases.sub_update_main]
      exact inStep.main_move move effect

theorem sub_move (progress : Progress phases shared trace) {number : Nat} {phase : SubPhase}
    (awake : shared.awake (.sub number) = true) (move : SubMove (phases.sub number) op response phase)
    (effect : shared.effect op response after) :
    Progress (Function.update phases (.sub number) phase) after (trace ++ [⟨.sub number, op, response⟩]) where
  roster := progress.roster.sub_move awake move effect
  progress := by
    apply progress.thread_move (Or.inr awake) (fun thread => Shared.effect_awake _ effect (move.no_wake _))
      (Phases.caller_update_sub phase)
    · exact fun saturated name static => Shared.effect_saturated name effect (saturated name static) (move.no_init name)
    · intro inStep
      rw [Phases.main_update_sub, Phases.sub_update_sub]
      exact inStep.sub_move move effect

/-- A new call finds the threads of the last one ended, or none was woken yet. -/
theorem allocate (progress : Progress phases shared trace) (ended : AllEnded trace)
    {number level : Nat} {response : (HandshakeOp.newThreadData number level).Response}
    (effect : shared.effect (.newThreadData number level) response after) :
    AllSaturated after.completions ∨ ∃ first, InStep (phases.main first) (phases.sub first) after.completions ∧
      (∀ other, after.awake (.main other) = false ∧ after.awake (.sub other) = false) := by
  rcases effect with ⟨mm, rfl⟩
  rcases progress.progress with saturated | ⟨first, inStep, current, others⟩
  · exact Or.inl saturated
  · by_cases woken : shared.awake (.main first) = true ∨ shared.awake (.sub first) = true
    · have endings := ended first (progress.roster.woken first woken)
      rw [progress.roster.mainEnded first endings.1, progress.roster.subEnded first endings.2] at inStep
      exact Or.inl inStep.all_saturated
    · refine Or.inr ⟨first, inStep, fun other => ?_⟩
      rcases not_or.mp woken with ⟨mainAsleep, subAsleep⟩
      by_cases same : other = first
      · rw [same]
        exact ⟨Bool.eq_false_iff.mpr mainAsleep, Bool.eq_false_iff.mpr subAsleep⟩
      · exact others other same

/-- The threads that the caller wakes belong to the only call, or to the first. -/
theorem wake (progress : Progress phases shared trace) {total : Nat} {phase : CallerPhase} {thread : ThreadName}
    {response : (HandshakeOp.wakeUpProcess thread).Response}
    (move : CallerMove total phases.caller (.wakeUpProcess thread) response phase) :
    AllSaturated shared.completions ∨
      InStep (phases.main phases.caller.call) (phases.sub phases.caller.call) shared.completions ∧
        ∀ other, other ≠ phases.caller.call ->
          shared.awake (.main other) = false ∧ shared.awake (.sub other) = false := by
  rcases progress.progress with saturated | ⟨first, inStep, current, others⟩
  · exact Or.inl saturated
  · refine Or.inr ?_
    by_cases same : phases.caller.call = first
    · rw [same]
      exact ⟨inStep, others⟩
    · have asleep : shared.awake (.main first) = false ∧ shared.awake (.sub first) = false := by
        refine (not_or.mp fun woken => ?_).imp Bool.eq_false_iff.mpr Bool.eq_false_iff.mpr
        exact (current woken).elim (fun here => same here.symm) move.wakes.1
      have here := others _ same
      rw [progress.roster.asleep _ asleep.1, progress.roster.subAsleep _ asleep.2] at inStep
      rw [progress.roster.asleep _ here.1, progress.roster.subAsleep _ here.2]
      refine ⟨inStep, fun other _ => ?_⟩
      by_cases again : other = first
      · rw [again]
        exact asleep
      · exact others other again

theorem caller_move (progress : Progress phases shared trace) {total : Nat} {phase : CallerPhase}
    (sequential : Sequential trace ⟨.caller, op, response⟩)
    (move : CallerMove total phases.caller op response phase) (effect : shared.effect op response after) :
    Progress (Function.update phases .caller phase) after (trace ++ [⟨.caller, op, response⟩]) where
  roster := progress.roster.caller_move move effect
  progress := by
    simp only [Current, Phases.main_update_caller, Phases.sub_update_caller, Phases.caller_update_caller]
    by_cases wakes : ∃ thread, op = .wakeUpProcess thread
    · rcases wakes with ⟨thread, rfl⟩
      rcases progress.wake move with saturated | ⟨inStep, others⟩
      · exact Or.inl fun name static => Shared.effect_saturated name effect (saturated name static) nofun
      · have woken := move.wakes.2
        refine Or.inr ⟨_, inStep.caller_move move effect, fun _ => Or.inl move.wakes_call.symm, fun other different => ?_⟩
        rw [Shared.effect_awake _ effect, Shared.effect_awake _ effect]
        · exact others other different
        · rintro ⟨⟩
          rcases woken with same | same <;> cases same
          exact different rfl
        · rintro ⟨⟩
          rcases woken with same | same <;> cases same
          exact different rfl
    · have same : ∀ thread, after.awake thread = shared.awake thread := fun thread =>
        Shared.effect_awake _ effect fun woken => wakes ⟨thread, woken⟩
      by_cases allocates : ∃ number level, op = .newThreadData number level
      · rcases allocates with ⟨number, level, rfl⟩
        rcases progress.allocate sequential effect with saturated | ⟨first, inStep, asleep⟩
        · exact Or.inl saturated
        · refine Or.inr ⟨first, inStep, fun woken => ?_, fun other _ => asleep other⟩
          rw [(asleep first).1, (asleep first).2] at woken
          rcases woken with impossible | impossible <;> cases impossible
      · rcases progress.progress with saturated | ⟨first, inStep, current, others⟩
        · exact Or.inl fun name static =>
            Shared.effect_saturated name effect (saturated name static) (move.no_init name static)
        · refine Or.inr ⟨first, inStep.caller_move move effect, fun woken => ?_, fun other different => ?_⟩
          · rw [same, same] at woken
            exact move.stays (fun number level allocation => allocates ⟨number, level, allocation⟩) (current woken)
          · rw [same, same]
            exact others other different

end Progress

/-! ## The result -/

section Result

variable {phases : Phases} {shared : Shared} {total : Nat}

theorem MainMove.waits {number : Nat} {phase after : MainPhase} {name : CompletionName}
    {response : (HandshakeOp.waitForCompletion name).Response}
    (move : MainMove number phase (.waitForCompletion name) response after) :
    name = .setup ∧ phase = .starting ∨ name = .pcidSwitching ∧ ∃ i, phase = .iterating i .signalled := by
  cases move with
  | setUp => exact Or.inl ⟨rfl, rfl⟩
  | await => exact Or.inr ⟨rfl, _, rfl⟩

theorem SubMove.waits {phase after : SubPhase} {name : CompletionName}
    {response : (HandshakeOp.waitForCompletion name).Response}
    (move : SubMove phase (.waitForCompletion name) response after) :
    name = .desynchronization ∧ ∃ j, phase = .waiting j := by
  cases move with
  | await more => exact ⟨rfl, _, rfl⟩

/-- A `main` in step is not blocked by a `sub` that waits or has ended. -/
theorem InStep.main_unblocked {main : MainPhase} {sub : SubPhase} {completions : CompletionName -> Completion}
    (inStep : InStep main sub completions) {name : CompletionName} (zero : (completions name).done = 0)
    (waits : name = .setup ∧ main = .starting ∨ name = .pcidSwitching ∧ ∃ i, main = .iterating i .signalled)
    (other : (∃ j, sub = .waiting j ∧ (completions .desynchronization).done = 0) ∨ sub = .returned) : False := by
  have begun : sub ≠ .starting := by
    rcases other with ⟨j, rfl, _⟩ | rfl <;> nofun
  rcases waits with ⟨rfl, rfl⟩ | ⟨rfl, i, rfl⟩
  · rw [inStep.setup begun] at zero
    cases zero
  · rcases other with ⟨j, rfl, empty⟩ | rfl
    · have signalled : (completions .desynchronization).done + j = i + 1 := inStep.counters.desynchronization rfl
      have swept : (completions .pcidSwitching).done + i = j := inStep.counters.pcidSwitching rfl
      omega
    · rw [inStep.pcidSwitching rfl] at zero
      cases zero

section Obeying

variable {snapshot : HandshakeSnapshot} {number : Nat}

/-- A blocked thread waits for a completion that its phase waits for. -/
theorem blocked_main {phase : MainPhase} (obeys : Program.Obeys (MainMove number) (snapshot.programs (.main number))
      phase fun _ phase => phase = .returned) (blocked : Blocked snapshot (.main number)) :
    ∃ name, (snapshot.shared.completions name).done = 0 ∧
      (name = .setup ∧ phase = .starting ∨ name = .pcidSwitching ∧ ∃ i, phase = .iterating i .signalled) := by
  rcases blocked with ⟨name, next, runs, zero⟩
  rw [runs] at obeys
  rcases obeys () with ⟨_, move, _⟩
  exact ⟨name, zero, move.waits⟩

theorem blocked_sub {phase : SubPhase} (obeys : Program.Obeys SubMove (snapshot.programs (.sub number))
      phase fun _ phase => phase = .returned) (blocked : Blocked snapshot (.sub number)) :
    (snapshot.shared.completions .desynchronization).done = 0 ∧ ∃ j, phase = .waiting j := by
  rcases blocked with ⟨name, next, runs, zero⟩
  rw [runs] at obeys
  rcases obeys () with ⟨_, move, _⟩
  rcases move.waits with ⟨rfl, waiting⟩
  exact ⟨zero, waiting⟩

/-- Where the threads of a call are if they are stuck. -/
theorem stuck_phases {main : MainPhase} {sub : SubPhase}
    (mainObeys : Program.Obeys (MainMove number) (snapshot.programs (.main number)) main fun _ phase =>
      phase = .returned)
    (subObeys : Program.Obeys SubMove (snapshot.programs (.sub number)) sub fun _ phase => phase = .returned)
    (stuck : Stuck snapshot number) :
    (∃ name, (snapshot.shared.completions name).done = 0 ∧
      (name = .setup ∧ main = .starting ∨ name = .pcidSwitching ∧ ∃ i, main = .iterating i .signalled) ∧
      ((∃ j, sub = .waiting j ∧ (snapshot.shared.completions .desynchronization).done = 0) ∨ sub = .returned)) ∨
    main = .returned ∧ (snapshot.shared.completions .desynchronization).done = 0 := by
  rcases stuck with ⟨blocked, blocked'⟩ | ⟨blocked, returned⟩ | ⟨returned, blocked⟩
  · rcases blocked_main mainObeys blocked with ⟨name, zero, waits⟩
    rcases blocked_sub subObeys blocked' with ⟨empty, j, waiting⟩
    exact Or.inl ⟨name, zero, waits, Or.inl ⟨j, waiting, empty⟩⟩
  · rcases blocked_main mainObeys blocked with ⟨name, zero, waits⟩
    rw [returned] at subObeys
    exact Or.inl ⟨name, zero, waits, Or.inr subObeys⟩
  · rw [returned] at mainObeys
    exact Or.inr ⟨mainObeys, (blocked_sub subObeys blocked).1⟩

end Obeying

/-- No run in which the calls are made one after the other gets stuck: in no state
that is reached are both threads of a call blocked, or one of them blocked after the
other has returned.  A call is only made once the threads of the ones before have
ended; timed waits may expire at any time, and the creation of a thread may fail.
While one call is under way, the threads of the others have ended or have not begun. -/
theorem testHyperthreadedPcidSupport_never_stuck (configuration : Configuration) (levels : List Nat)
    (snapshot : HandshakeSnapshot)
    (reaches : (afterLoading configuration levels).Reaches effects Sequential snapshot) (number : Nat) :
    ¬ Stuck snapshot number := by
  have within : snapshot.Within (protocols levels.length) (Ended levels.length) Progress := by
    apply reaches.within
    · rintro phases shared trace ⟨thread, op, response⟩ phase after progress sequential move ⟨awake, effect⟩
      cases thread with
      | caller => exact progress.caller_move sequential move effect
      | main number => exact progress.main_move awake move effect
      | sub number => exact progress.sub_move awake move effect
    · exact ⟨startPhase, obeys_afterLoading levels, progress_loaded⟩
  rcases within with ⟨(phases : Phases), obeys, progress⟩
  intro stuck
  have place := stuck_phases (obeys (.main number)) (obeys (.sub number)) stuck
  rcases progress.progress with saturated | ⟨first, inStep, _, others⟩
  · rcases place with ⟨name, zero, waits, _⟩ | ⟨_, zero⟩
    · have static : name.Static := by
        rcases waits with ⟨rfl, _⟩ | ⟨rfl, _⟩ <;> trivial
      rw [saturated name static] at zero
      cases zero
    · rw [saturated .desynchronization trivial] at zero
      cases zero
  · by_cases same : number = first
    · subst same
      rcases place with ⟨name, zero, waits, other⟩ | ⟨returned, zero⟩
      · exact inStep.main_unblocked zero waits other
      · rw [inStep.desynchronization (by rw [show phases.main number = _ from returned]; rfl)] at zero
        cases zero
    · have mainStarting := progress.roster.asleep number (others number same).1
      have subStarting := progress.roster.subAsleep number (others number same).2
      rcases place with ⟨name, _, _, ⟨j, waiting, _⟩ | returned⟩ | ⟨returned, _⟩
      · rw [show phases.sub number = _ from waiting] at subStarting
        cases subStarting
      · rw [show phases.sub number = _ from returned] at subStarting
        cases subStarting
      · rw [show phases.main number = _ from returned] at mainStarting
        cases mainStarting

/-- After a whole call, the threads have returned. -/
theorem testHyperthreadedPcidSupport_never_stuck_alternating :
    ∃ snapshot, (afterLoading defaultConfiguration [2, 2]).Reaches effects Sequential snapshot ∧
      snapshot.programs .caller = successiveCalls 1 [2] ∧ ¬ Stuck snapshot 0 := by
  rcases canReach_firstCallDone defaultConfiguration 2 [2] with ⟨snapshot, reaches, done⟩
  have sequential := Snapshot.Reaches.mono reaches fun _ _ => Punctual.sequential
  exact ⟨snapshot, sequential, done.caller,
    testHyperthreadedPcidSupport_never_stuck defaultConfiguration [2, 2] snapshot sequential 0⟩

end Result

end CrossHyperthread
end Talbot
