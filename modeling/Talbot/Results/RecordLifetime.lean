import Talbot.CrossHyperthread.RecordUse
import Talbot.CrossHyperthread.Runs

namespace Talbot
namespace CrossHyperthread

/-!
Whether the caller collects the record only after `main` is done with it.

The caller waits for `main_done` with a timeout, and does not look at whether the
wait expired.  As long as it does not expire before the last access of `main`,
and no `main` signals the `main_done` of a later call, the record is safe.
-/

open Foundations
open Foundations.Program (Performs performs_bind performs_call)

/-- A wait for `main_done` only expires when every `main` that was woken made
its last access, and `main` signals the `main_done` of its own call. -/
def Timely (trace : List HandshakeEvent) : HandshakeEvent -> Prop
  | ⟨_, .waitForCompletionTimeout .mainDone, inTime⟩ =>
      inTime = false -> ∀ number, Woken number trace -> switchesOf number trace = 2 * iterations
  | ⟨.main number, .completeAll .mainDone, _⟩ => ¬ Reinitialised number trace
  | _ => True

theorem Punctual.timely {trace : List HandshakeEvent} {event : HandshakeEvent} (punctual : Punctual trace event) :
    Timely trace event := by
  unfold Timely
  split
  · intro expired
    rw [show _ = true from punctual] at expired
    cases expired
  · exact punctual
  · trivial

/-! ## The caller -/

namespace CallerPoint

/-- `main` of the call was woken and its record is not freed yet. -/
def Running : CallerPoint -> Prop
  | mainAwake | waiting | reading | freeing => True
  | _ => False

/-- `main_done` was initialised for the call and not waited for yet. -/
def Armed : CallerPoint -> Prop
  | mainReset | reset | mainAwake | waiting => True
  | _ => False

/-- The wait for `main_done` is over. -/
def Passed : CallerPoint -> Prop
  | reading | freeing => True
  | _ => False

end CallerPoint

/-- Call `number` reached the points, or is over. -/
def CallerPhase.Reached (phase : CallerPhase) (points : CallerPoint -> Prop) (number : Nat) : Prop :=
  number < phase.call ∨ number = phase.call ∧ points phase.point

namespace CallerMove

variable {total number : Nat} {phase phase' : CallerPhase} {op : HandshakeOp} {response : op.Response}

theorem reached_running (move : CallerMove total phase op response phase')
    (reached : phase.Reached CallerPoint.Running number) : phase'.Reached CallerPoint.Running number := by
  rcases reached with before | ⟨rfl, running⟩
  · cases move with
    | noMain => exact Or.inl (Nat.lt_succ_of_lt before)
    | noSub => exact Or.inl (Nat.lt_succ_of_lt before)
    | free => exact Or.inl (Nat.lt_succ_of_lt before)
    | _ => exact Or.inl before
  · cases move with
    | free => exact Or.inl (Nat.lt_succ_self _)
    | wakeSub => exact Or.inr ⟨rfl, trivial⟩
    | await inTime => exact Or.inr ⟨rfl, trivial⟩
    | read misses => exact Or.inr ⟨rfl, trivial⟩
    | _ => exact running.elim

/-- What is past the wait was so before, or the wait ended just now, or `main` was
never woken. -/
theorem reached_passed (move : CallerMove total phase op response phase')
    (reached : phase'.Reached CallerPoint.Passed number) : phase.Reached CallerPoint.Passed number ∨
      number = phase.call ∧ (¬ phase.point.Running ∨ phase.point = .waiting ∧ ∃ inTime : Bool,
        (⟨.caller, op, response⟩ : HandshakeEvent) = ⟨.caller, .waitForCompletionTimeout .mainDone, inTime⟩) := by
  rcases reached with before | ⟨rfl, passed⟩
  · cases move with
    | noMain => exact (Nat.lt_succ_iff_lt_or_eq.mp before).imp Or.inl fun same => ⟨same, Or.inl id⟩
    | noSub => exact (Nat.lt_succ_iff_lt_or_eq.mp before).imp Or.inl fun same => ⟨same, Or.inl id⟩
    | free => exact Or.inl ((Nat.lt_succ_iff_lt_or_eq.mp before).imp id fun same => ⟨same, trivial⟩)
    | _ => exact Or.inl (Or.inl before)
  · cases move with
    | await inTime => exact Or.inr ⟨rfl, Or.inr ⟨rfl, inTime, rfl⟩⟩
    | read misses => exact Or.inl (Or.inr ⟨rfl, trivial⟩)
    | _ => exact passed.elim

/-- `main_done` is initialised when the caller arms it. -/
theorem armed (move : CallerMove total phase op response phase') (armed : phase'.point.Armed) :
    phase'.call = phase.call ∧ (op = .initCompletion .mainDone ∧ phase.point = .created ∨
      phase.point.Armed ∧ op.target ≠ some .mainDone) := by
  cases move with
  | resetMain => exact ⟨rfl, Or.inl ⟨rfl, rfl⟩⟩
  | resetSub => exact ⟨rfl, Or.inr ⟨trivial, nofun⟩⟩
  | wakeMain => exact ⟨rfl, Or.inr ⟨trivial, nofun⟩⟩
  | wakeSub => exact ⟨rfl, Or.inr ⟨trivial, nofun⟩⟩
  | _ => exact armed.elim

theorem running (move : CallerMove total phase op response phase') (running : phase'.point.Running) :
    phase'.call = phase.call ∧ (op = .wakeUpProcess (.main phase.call) ∨ phase.point.Running) := by
  cases move with
  | wakeMain => exact ⟨rfl, Or.inl rfl⟩
  | wakeSub => exact ⟨rfl, Or.inr trivial⟩
  | await inTime => exact ⟨rfl, Or.inr trivial⟩
  | read misses => exact ⟨rfl, Or.inr trivial⟩
  | _ => exact running.elim

/-- Inside a call the record is allocated. -/
theorem inside (move : CallerMove total phase op response phase') (inside : phase'.point ≠ .between) :
    phase'.call = phase.call ∧ ((∃ level, op = .newThreadData phase.call level) ∨
      phase.point ≠ .between ∧ ∀ number, CrossHyperthread.frees number op = false) := by
  cases move with
  | allocate more level => exact ⟨rfl, Or.inl ⟨level, rfl⟩⟩
  | noMain => exact absurd rfl inside
  | noSub => exact absurd rfl inside
  | free => exact absurd rfl inside
  | _ => exact ⟨rfl, Or.inr ⟨nofun, fun _ => rfl⟩⟩

theorem wakes_main (move : CallerMove total phase op response phase') (wakes : op = .wakeUpProcess (.main number)) :
    number = phase.call ∧ phase' = ⟨phase.call, .mainAwake⟩ := by
  cases move with
  | wakeMain =>
      cases wakes
      exact ⟨rfl, rfl⟩
  | _ => cases wakes

theorem reads (move : CallerMove total phase op response phase') (reads : op = .readMisses number) :
    number = phase.call ∧ phase.point = .reading := by
  cases move with
  | read misses =>
      cases reads
      exact ⟨rfl, rfl⟩
  | _ => cases reads

/-- The caller uses the record of the call it is in. -/
theorem uses (move : CallerMove total phase op response phase') (use : usesRecord number op = true) :
    number = phase.call := by
  cases move with
  | allocate more level => exact (of_decide_eq_true use).symm
  | read misses => exact (of_decide_eq_true use).symm
  | free => exact (of_decide_eq_true use).symm
  | _ => cases use

theorem collects (move : CallerMove total phase op response phase') (collect : collects number op = true) :
    phase'.Reached (· = .freeing) number := by
  cases move with
  | read misses => exact Or.inr ⟨(of_decide_eq_true collect).symm, rfl⟩
  | free => exact Or.inl (of_decide_eq_true collect ▸ Nat.lt_succ_self _)
  | _ => cases collect

theorem frees (move : CallerMove total phase op response phase') (free : frees number op = true) :
    number < phase'.call := by
  cases move with
  | free => exact of_decide_eq_true free ▸ Nat.lt_succ_self _
  | _ => cases free

theorem call_le (move : CallerMove total phase op response phase') : phase.call ≤ phase'.call := by
  cases move with
  | noMain => exact Nat.le_succ _
  | noSub => exact Nat.le_succ _
  | free => exact Nat.le_succ _
  | _ => exact Nat.le_refl _

theorem reached_freeing (move : CallerMove total phase op response phase')
    (reached : phase.Reached (· = .freeing) number) : phase'.Reached (· = .freeing) number := by
  rcases reached with before | ⟨rfl, same⟩
  · exact Or.inl (Nat.lt_of_lt_of_le before move.call_le)
  · cases move with
    | free => exact Or.inl (Nat.lt_succ_self _)
    | _ => cases same

end CallerMove

/-! ## The invariant -/

/-- Who may still use which record: the invariant of all timely runs.  A record is
allocated while its call is under way, `main` may use it from its waking to its last
access, and it is only collected once the wait for `main_done` is over. -/
structure Custody (phases : Phases) (shared : Shared) (trace : List HandshakeEvent) : Prop where
  ledger : ∀ number, Ledger number (phases.main number) shared.records trace
  woken : ∀ number, shared.awake (.main number) = true -> Woken number trace
  asleep : ∀ number, shared.awake (.main number) = false -> phases.main number = .starting
  begun : ∀ number, shared.awake (.main number) = true -> phases.caller.Reached CallerPoint.Running number
  awake : phases.caller.point.Running -> shared.awake (.main phases.caller.call) = true
  stale : ∀ number, shared.awake (.main number) = true -> number < phases.caller.call ->
    phases.caller.point.Armed -> Reinitialised number trace
  signalled : phases.caller.point.Armed -> (shared.completions .mainDone).done ≠ 0 ->
    (phases.main phases.caller.call).Finished
  finished : ∀ number, shared.awake (.main number) = true -> phases.caller.Reached CallerPoint.Passed number ->
    (phases.main number).Finished
  allocated : phases.caller.point ≠ .between -> ∃ data, shared.records phases.caller.call = some data
  collected : ∀ event, event ∈ trace -> ∀ number, collects number event.op = true ->
    phases.caller.Reached (· = .freeing) number
  freed : ∀ event, event ∈ trace -> ∀ number, frees number event.op = true -> number < phases.caller.call
  safe : RecordSafe trace

theorem custody_loaded : Custody startPhase Shared.loaded [] where
  ledger := fun _ => ⟨rfl, rfl, trivial, nofun⟩
  woken := nofun
  asleep := fun _ _ => rfl
  begun := nofun
  awake := False.elim
  stale := nofun
  signalled := False.elim
  finished := nofun
  allocated := fun impossible => absurd rfl impossible
  collected := nofun
  freed := nofun
  safe := ⟨List.Pairwise.nil, fun _ before _ _ same => by cases before <;> cases same⟩

/-- A move of `main` does not undo the last access of any call. -/
theorem MainMove.finished_update {number other : Nat} {phases : Phases} {op : HandshakeOp} {response : op.Response}
    {phase : MainPhase} (move : MainMove number (phases.main number) op response phase)
    (finished : (phases.main other).Finished) :
    (Phases.main (Function.update phases (.main number) phase) other).Finished := by
  by_cases same : other = number
  · subst same
    rw [Phases.main_update_main]
    exact move.finished finished
  · rw [Phases.main_update_other phase same]
    exact finished

namespace Custody

variable {total : Nat} {phases : Phases} {shared after : Shared} {trace : List HandshakeEvent} {op : HandshakeOp}
  {response : op.Response}

/-- A record that is collected is no longer used by a `main` that takes part. -/
theorem collected_finished (custody : Custody phases shared trace) {number : Nat}
    (reached : phases.caller.Reached (· = .freeing) number) (awake : shared.awake (.main number) = true) :
    (phases.main number).Finished :=
  custody.finished number awake (reached.imp id fun ⟨same, point⟩ => ⟨same, point ▸ trivial⟩)

theorem collected_append (custody : Custody phases shared trace) {event : HandshakeEvent}
    (quiet : ∀ number, collects number event.op = false) : ∀ earlier, earlier ∈ trace ++ [event] ->
      ∀ number, collects number earlier.op = true -> phases.caller.Reached (· = .freeing) number := by
  intro earlier member number collect
  rcases List.mem_append.mp member with before | now
  · exact custody.collected earlier before number collect
  · rw [List.mem_singleton.mp now, quiet] at collect
    cases collect

theorem freed_append (custody : Custody phases shared trace) {event : HandshakeEvent}
    (quiet : ∀ number, frees number event.op = false) : ∀ earlier, earlier ∈ trace ++ [event] ->
      ∀ number, frees number earlier.op = true -> number < phases.caller.call := by
  intro earlier member number free
  rcases List.mem_append.mp member with before | now
  · exact custody.freed earlier before number free
  · rw [List.mem_singleton.mp now, quiet] at free
    cases free

/-- A signal on `main_done` is for the call that waits. -/
theorem signalled_main (custody : Custody phases shared trace) {number : Nat} {phase : MainPhase}
    (timely : Timely trace ⟨.main number, op, response⟩) (awake : shared.awake (.main number) = true)
    (move : MainMove number (phases.main number) op response phase) (effect : shared.effect op response after)
    (armed : phases.caller.point.Armed) (signalled : (after.completions .mainDone).done ≠ 0) :
    (Phases.main (Function.update phases (.main number) phase) phases.caller.call).Finished := by
  by_cases target : op.target = some .mainDone
  · rcases move.announces target with ⟨rfl, event⟩
    rw [event] at timely
    rcases custody.begun number awake with before | ⟨same, _⟩
    · exact absurd (custody.stale number awake before armed) timely
    · rw [← same, Phases.main_update_main]
      trivial
  · rw [Shared.effect_completion _ effect target] at signalled
    exact move.finished_update (custody.signalled armed signalled)

/-- `main` does not use a record that is collected or freed. -/
theorem safe_main (custody : Custody phases shared trace) {number : Nat} {phase : MainPhase}
    (awake : shared.awake (.main number) = true) (move : MainMove number (phases.main number) op response phase) :
    RecordSafe (trace ++ [⟨.main number, op, response⟩]) := by
  refine custody.safe.append (fun earlier member => ⟨fun other collect _ => ?_, fun other free => ?_⟩)
    (fun other misses same => by cases same)
  · refine Bool.eq_false_iff.mpr fun use => ?_
    rcases move.uses use with ⟨rfl, busy⟩
    exact busy (custody.collected_finished (custody.collected earlier member _ collect) awake)
  · refine Bool.eq_false_iff.mpr fun use => ?_
    rcases move.uses use with ⟨rfl, busy⟩
    exact busy (custody.collected_finished (Or.inl (custody.freed earlier member _ free)) awake)

theorem main_move (custody : Custody phases shared trace) {number : Nat} {phase : MainPhase}
    (timely : Timely trace ⟨.main number, op, response⟩) (awake : shared.awake (.main number) = true)
    (move : MainMove number (phases.main number) op response phase) (effect : shared.effect op response after) :
    Custody (Function.update phases (.main number) phase) after (trace ++ [⟨.main number, op, response⟩]) := by
  have sameAwake : ∀ other, after.awake (.main other) = shared.awake (.main other) := fun other =>
    Shared.effect_awake _ effect (move.no_wake _)
  constructor
  case ledger =>
    intro other
    by_cases same : other = number
    · subst same
      rw [Phases.main_update_main]
      exact (custody.ledger other).main_move move effect
    · rw [Phases.main_update_other phase same]
      have unused : usesRecord other op = false :=
        Bool.eq_false_iff.mpr fun use => same (move.uses use).1
      exact (custody.ledger other).other _ (move.no_read same) (move.no_switch same)
        fun data known => (Shared.effect_record other effect unused).symm.trans known
  case woken =>
    intro other woken
    exact List.mem_append_left _ (custody.woken other (sameAwake other ▸ woken))
  case asleep =>
    intro other still
    rw [sameAwake] at still
    have different : other ≠ number := by
      rintro rfl
      rw [awake] at still
      cases still
    rw [Phases.main_update_other phase different]
    exact custody.asleep other still
  case begun =>
    intro other woken
    rw [Phases.caller_update_main]
    exact custody.begun other (sameAwake other ▸ woken)
  case awake =>
    rw [Phases.caller_update_main, sameAwake]
    exact custody.awake
  case stale =>
    rw [Phases.caller_update_main]
    intro other woken before armed
    exact reinitialised_append.mpr (Or.inl (custody.stale other (sameAwake other ▸ woken) before armed))
  case signalled =>
    rw [Phases.caller_update_main]
    exact custody.signalled_main timely awake move effect
  case finished =>
    intro other woken
    rw [Phases.caller_update_main]
    exact fun passed => move.finished_update (custody.finished other (sameAwake other ▸ woken) passed)
  case allocated =>
    rw [Phases.caller_update_main]
    exact fun inside => Shared.effect_allocated _ effect (move.no_free _) (custody.allocated inside)
  case collected =>
    rw [Phases.caller_update_main]
    exact custody.collected_append move.no_collect
  case freed =>
    rw [Phases.caller_update_main]
    exact custody.freed_append move.no_free
  case safe => exact custody.safe_main awake move

theorem sub_move (custody : Custody phases shared trace) {number : Nat} {phase : SubPhase}
    (move : SubMove (phases.sub number) op response phase) (effect : shared.effect op response after) :
    Custody (Function.update phases (.sub number) phase) after (trace ++ [⟨.sub number, op, response⟩]) := by
  have sameAwake : ∀ other, after.awake (.main other) = shared.awake (.main other) := fun other =>
    Shared.effect_awake _ effect (move.no_wake _)
  have sameRecord : ∀ other, after.records other = shared.records other := fun other =>
    Shared.effect_record other effect (move.no_use other).1
  constructor
  case ledger =>
    intro other
    rw [Phases.main_update_sub]
    exact (custody.ledger other).other _ rfl rfl fun data known => (sameRecord other).symm.trans known
  case woken =>
    intro other woken
    exact List.mem_append_left _ (custody.woken other (sameAwake other ▸ woken))
  case asleep =>
    intro other still
    rw [Phases.main_update_sub]
    exact custody.asleep other (sameAwake other ▸ still)
  case begun =>
    intro other woken
    rw [Phases.caller_update_sub]
    exact custody.begun other (sameAwake other ▸ woken)
  case awake =>
    rw [Phases.caller_update_sub, sameAwake]
    exact custody.awake
  case stale =>
    rw [Phases.caller_update_sub]
    intro other woken before armed
    exact reinitialised_append.mpr (Or.inl (custody.stale other (sameAwake other ▸ woken) before armed))
  case signalled =>
    rw [Phases.caller_update_sub, Phases.main_update_sub, Shared.effect_completion _ effect move.no_mainDone]
    exact custody.signalled
  case finished =>
    intro other woken
    rw [Phases.caller_update_sub, Phases.main_update_sub]
    exact custody.finished other (sameAwake other ▸ woken)
  case allocated =>
    rw [Phases.caller_update_sub, sameRecord]
    exact custody.allocated
  case collected =>
    rw [Phases.caller_update_sub]
    exact custody.collected_append fun other => (move.no_use other).2.1
  case freed =>
    rw [Phases.caller_update_sub]
    exact custody.freed_append fun other => (move.no_use other).2.2
  case safe =>
    refine custody.safe.append (fun earlier member => ⟨fun other _ _ => ?_, fun other _ => ?_⟩)
      (fun other misses same => by cases same)
    · exact (move.no_use other).1
    · exact (move.no_use other).1

/-- While the caller works on a record, `main` did not start or is finished.  This
is the step of the invariant for the moves of the caller, of which only the wait for
`main_done` depends on the other threads. -/
theorem ledger_caller (custody : Custody phases shared trace) {phase : CallerPhase}
    (move : CallerMove total phases.caller op response phase) (effect : shared.effect op response after)
    (number : Nat) :
    Ledger number (phases.main number) after.records (trace ++ [⟨.caller, op, response⟩]) := by
  have ledger := custody.ledger number
  by_cases use : usesRecord number op = true
  · have asleep : phases.caller.point = .between -> number = phases.caller.call ->
        phases.main number = .starting := by
      intro between here
      apply custody.asleep
      by_contra woken
      rcases custody.begun number (Bool.eq_true_of_not_eq_false woken) with before | ⟨_, running⟩
      · exact Nat.lt_irrefl _ (here ▸ before)
      · rw [between] at running
        exact running
    have here := move.uses use
    generalize phases.caller = before at move asleep here
    cases move with
    | allocate more level =>
        rcases effect with ⟨mm, rfl⟩
        cases here
        rw [asleep rfl rfl] at ledger ⊢
        exact ledger.allocate rfl rfl
    | read misses =>
        rw [effect.2]
        exact ledger.other _ rfl rfl fun _ known => known
    | free =>
        cases here
        rw [show after = _ from effect]
        refine ledger.other _ rfl rfl fun data known => ?_
        rw [Shared.updateRecord_self] at known
        cases known
    | _ => cases use
  · exact ledger.other _ rfl rfl fun data known =>
      (Shared.effect_record number effect (Bool.eq_false_iff.mpr use)).symm.trans known

/-- The wait for `main_done` ends after the last access. -/
theorem finished_caller (custody : Custody phases shared trace) {phase : CallerPhase}
    (timely : Timely trace ⟨.caller, op, response⟩) (move : CallerMove total phases.caller op response phase)
    (effect : shared.effect op response after) {number : Nat} (woken : shared.awake (.main number) = true)
    (passed : phase.Reached CallerPoint.Passed number) : (phases.main number).Finished := by
  rcases move.reached_passed passed with before | ⟨here, idle | ⟨waiting, inTime, event⟩⟩
  · exact custody.finished number woken before
  · rcases custody.begun number woken with before | ⟨_, running⟩
    · exact absurd here (Nat.ne_of_lt before)
    · exact absurd running idle
  · cases event
    cases inTime with
    | true =>
        rw [here]
        exact custody.signalled (waiting ▸ trivial) effect.1
    | false =>
        apply MainPhase.finished_of_switches (custody.ledger number).bounded
        rw [← (custody.ledger number).switches]
        exact timely rfl number (custody.woken number woken)

/-- The caller frees a record after all calls before, and collects what was counted. -/
theorem safe_caller (custody : Custody phases shared trace) {phase : CallerPhase}
    (move : CallerMove total phases.caller op response phase) (effect : shared.effect op response after) :
    RecordSafe (trace ++ [⟨.caller, op, response⟩]) := by
  refine custody.safe.append (fun earlier member => ⟨?_, ?_⟩) ?_
  · intro number _ impossible
    cases impossible
  · refine fun number free => Bool.eq_false_iff.mpr fun use => ?_
    exact absurd (move.uses use) (Nat.ne_of_lt (custody.freed earlier member number free))
  · rintro number misses ⟨⟩
    rcases move.reads rfl with ⟨rfl, reading⟩
    have running : phases.caller.point.Running := reading ▸ trivial
    rcases custody.allocated (reading ▸ nofun) with ⟨data, known⟩
    rw [effect.1 data known]
    exact (custody.ledger _).all_counted
      (custody.finished _ (custody.awake running) (Or.inr ⟨rfl, reading ▸ trivial⟩)) known

theorem caller_move (custody : Custody phases shared trace) {phase : CallerPhase}
    (timely : Timely trace ⟨.caller, op, response⟩) (move : CallerMove total phases.caller op response phase)
    (effect : shared.effect op response after) :
    Custody (Function.update phases .caller phase) after (trace ++ [⟨.caller, op, response⟩]) := by
  have wakes : ∀ number, after.awake (.main number) = true -> shared.awake (.main number) = true ∨
      op = .wakeUpProcess (.main number) := by
    intro number woken
    by_cases wakes : op = .wakeUpProcess (.main number)
    · exact Or.inr wakes
    · exact Or.inl ((Shared.effect_awake _ effect wakes).symm.trans woken)
  constructor
  case ledger =>
    intro number
    rw [Phases.main_update_caller]
    exact custody.ledger_caller move effect number
  case woken =>
    intro number woken
    rcases wakes number woken with before | rfl
    · exact List.mem_append_left _ (custody.woken number before)
    · exact List.mem_append_right _ List.mem_cons_self
  case asleep =>
    intro number still
    rw [Phases.main_update_caller]
    apply custody.asleep
    by_contra woken
    rw [Shared.effect_stays _ effect (Or.inl (Bool.eq_true_of_not_eq_false woken))] at still
    cases still
  case begun =>
    intro number woken
    rw [Phases.caller_update_caller]
    rcases wakes number woken with before | now
    · exact move.reached_running (custody.begun number before)
    · rcases move.wakes_main now with ⟨rfl, rfl⟩
      exact Or.inr ⟨rfl, trivial⟩
  case awake =>
    rw [Phases.caller_update_caller]
    intro running
    rcases move.running running with ⟨same, now | before⟩
    · exact Shared.effect_stays _ effect (Or.inr (same ▸ now))
    · exact Shared.effect_stays _ effect (Or.inl (same ▸ custody.awake before))
  case stale =>
    rw [Phases.caller_update_caller]
    intro number woken before armed
    rcases move.armed armed with ⟨same, ⟨rfl, _⟩ | ⟨armed, _⟩⟩
    · exact reinitialised_append.mpr (Or.inr ⟨rfl, custody.woken number ((wakes number woken).resolve_right nofun)⟩)
    · rcases wakes number woken with earlier | now
      · exact reinitialised_append.mpr (Or.inl (custody.stale number earlier (same ▸ before) armed))
      · exact absurd ((move.wakes_main now).1.trans same.symm) (Nat.ne_of_lt before)
  case signalled =>
    rw [Phases.caller_update_caller, Phases.main_update_caller]
    intro armed signalled
    rcases move.armed armed with ⟨same, ⟨rfl, _⟩ | ⟨armed, other⟩⟩
    · rw [show after = _ from effect] at signalled
      exact absurd rfl signalled
    · rw [same]
      rw [Shared.effect_completion _ effect other] at signalled
      exact custody.signalled armed signalled
  case finished =>
    intro number woken passed
    rw [Phases.caller_update_caller] at passed
    rw [Phases.main_update_caller]
    rcases wakes number woken with before | now
    · exact custody.finished_caller timely move effect before passed
    · rcases move.wakes_main now with ⟨rfl, rfl⟩
      exact absurd passed (fun | .inl before => Nat.lt_irrefl _ before | .inr both => both.2)
  case allocated =>
    rw [Phases.caller_update_caller]
    intro within
    rcases move.inside within with ⟨same, ⟨level, rfl⟩ | ⟨before, kept⟩⟩
    · rcases effect with ⟨mm, rfl⟩
      rw [same]
      exact ⟨_, Shared.updateRecord_self _ _ _⟩
    · exact same ▸ Shared.effect_allocated _ effect (kept _) (custody.allocated before)
  case collected =>
    rw [Phases.caller_update_caller]
    intro event member number collect
    rcases List.mem_append.mp member with before | now
    · exact move.reached_freeing (custody.collected event before number collect)
    · rw [List.mem_singleton.mp now] at collect
      exact move.collects collect
  case freed =>
    rw [Phases.caller_update_caller]
    intro event member number free
    rcases List.mem_append.mp member with before | now
    · exact Nat.lt_of_lt_of_le (custody.freed event before number free) move.call_le
    · rw [List.mem_singleton.mp now] at free
      exact move.frees free
  case safe => exact custody.safe_caller move effect

end Custody

/-! ## The result -/

section Result

variable {configuration : Configuration} {levels : List Nat} {snapshot : HandshakeSnapshot}

/-- In every run in which the waits for `main_done` do not expire too early, every
record is collected after its last use and holds the whole count.  The condition is
on the steps of the run alone, and every `main` signals the completion of its own
call.  Nothing else is assumed of the interleaving: the other waits may expire at
any time, and threads of earlier calls may still run. -/
theorem testHyperthreadedPcidSupport_recordSafe (configuration : Configuration) (levels : List Nat)
    (snapshot : HandshakeSnapshot) (reaches : (afterLoading configuration levels).Reaches effects Timely snapshot) :
    RecordSafe snapshot.trace := by
  have within : snapshot.Within (protocols levels.length) (Ended levels.length) Custody := by
    apply reaches.within
    · rintro phases shared trace ⟨thread, op, response⟩ phase after custody timely move ⟨awake, effect⟩
      cases thread with
      | caller => exact custody.caller_move timely move effect
      | main number => exact custody.main_move timely awake move effect
      | sub number => exact custody.sub_move move effect
    · exact ⟨startPhase, obeys_afterLoading levels, custody_loaded⟩
  rcases within with ⟨_, _, custody⟩
  exact custody.safe

/-- A whole call for level 2 whose threads alternate. -/
theorem testHyperthreadedPcidSupport_recordSafe_alternating :
    ∃ snapshot, (afterLoading defaultConfiguration [2]).Reaches effects Timely snapshot ∧
      snapshot.programs .caller = .ret () ∧ RecordSafe snapshot.trace := by
  rcases canReach_firstCallDone defaultConfiguration 2 [] with ⟨snapshot, reaches, done⟩
  have timely := Snapshot.Reaches.mono reaches fun _ _ => Punctual.timely
  exact ⟨snapshot, timely, done.caller, testHyperthreadedPcidSupport_recordSafe _ _ snapshot timely⟩

/-- If the wait expires, the caller reads and frees the record. -/
theorem performs_collectMisses_expired {number : Nat} {shared : Shared} {trace : List HandshakeEvent}
    {data : ThreadData} (awake : shared.awake .caller = true) (record : shared.records number = some data)
    (unsignalled : (shared.completions .mainDone).done = 0) :
    Performs effects (fun _ _ => True) .caller (collectMisses number) shared trace fun _ after trace' =>
      after.awake = shared.awake ∧ ⟨.caller, .kfree number, ()⟩ ∈ trace' := by
  simp only [collectMisses, performs_call, Program.pure_eq, Program.call_bind, Program.ret_bind]
  refine ⟨false, shared, trivial, ⟨awake, unsignalled, rfl⟩, data.misses, _, trivial, ⟨awake, ?_, rfl⟩, (), _, trivial,
    ⟨awake, rfl⟩, rfl, List.mem_append_right _ List.mem_cons_self⟩
  intro other known
  rw [record] at known
  cases known
  rfl

/-- `main` begins by reading the record, whether it is still there or not. -/
theorem performs_readMm {number : Nat} {shared : Shared} {trace : List HandshakeEvent}
    (awake : shared.awake (.main number) = true) :
    Performs effects (fun _ _ => True) (.main number) (do
      let cr3 ← onMachine getCr3
      let _ ← readMm number
      return cr3) shared trace fun _ _ trace' =>
        ∃ cr3 mm : Nat, trace' =
          trace ++ [⟨.main number, .machine .getCr3, cr3⟩] ++ [⟨.main number, .readMm number, mm⟩] := by
  simp only [onMachine_getCr3, performs_call, Program.pure_eq, Program.call_bind, Program.ret_bind]
  let mm : Nat := ((shared.records number).map ThreadData.mm).getD 0
  refine ⟨(0 : Nat), _, trivial, ⟨awake, rfl⟩, mm, _, trivial, ⟨awake, ?_, rfl⟩, 0, mm, rfl⟩
  intro data known
  rw [show mm = ((shared.records number).map ThreadData.mm).getD 0 from rfl, known]
  rfl

/-- The wait of a single call expires before `main` was scheduled at all: the
record is freed, and `main` reads it afterwards. -/
theorem testHyperthreadedPcidSupport_frees_early :
    ¬ ∀ snapshot, (afterLoading defaultConfiguration [2]).Reaches effects (fun _ _ => True) snapshot ->
      RecordSafe snapshot.trace := by
  intro all
  have reaches : (afterLoading defaultConfiguration [2]).CanReach effects (fun _ _ => True)
      fun snapshot => ¬ RecordSafe snapshot.trace := by
    have nobody : AllEnded [] := fun _ impossible => (List.not_mem_nil impossible).elim
    apply Snapshot.CanReach.alone ((performs_startThreads 2 rfl nobody).allow fun _ _ _ => trivial)
      (successiveCalls_cons 0 2 [])
    rintro _ started trace ⟨rfl, _, _, ⟨data, record⟩, awake, completions⟩
    have callerAwake : started.awake .caller = true := by
      rw [awake]
      rfl
    have unsignalled : (started.completions .mainDone).done = 0 := by
      rw [completions]
      rfl
    apply Snapshot.CanReach.alone (performs_collectMisses_expired callerAwake record unsignalled)
      (Function.update_self ThreadName.caller (collectMisses 0 >>= fun _ => successiveCalls 1 [])
        (afterLoading defaultConfiguration [2]).programs)
    rintro _ freed trace ⟨same, free⟩
    have mainAwake : freed.awake (.main 0) = true := by
      rw [same, awake]
      rfl
    apply Snapshot.CanReach.alone (performs_readMm mainAwake) rfl
    rintro _ _ _ ⟨cr3, mm, rfl⟩
    refine .here fun safe => ?_
    have ordered := (List.pairwise_append.mp safe.ordered).2.2 _ (List.mem_append_left _ free) _ List.mem_cons_self
    have unused : true = false := ordered.alive 0 rfl
    cases unused
  rcases reaches with ⟨snapshot, reaches, fails⟩
  exact fails (all snapshot reaches)

end Result

end CrossHyperthread
end Talbot
