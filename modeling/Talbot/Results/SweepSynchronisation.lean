import Talbot.CrossHyperthread.Runs

namespace Talbot
namespace CrossHyperthread

/-!
Whether a measurement of `main` waits for a sweep of `sub`.

In the first call after loading the two threads run in lock step.  They end with
`complete_all` on both completions, which stay saturated, and only `main_done`
and `sub_done` are initialised again: from the second call on no wait blocks,
and `main` may measure before `sub` did anything.
-/

open Foundations
open Foundations.Program (Performs performs_bind)

/-- Before each measurement, `sub` of the same call performed a whole sweep that
began after the first switch of that iteration.  An iteration reads twice; the
second read is the measurement. -/
def Synchronised (trace : List HandshakeEvent) : Prop :=
  ∀ number i before event after, trace = before ++ event :: after ->
    (mainRead number event).isSome = true -> (readsOf number before).length = 2 * i + 1 ->
    SweptSince number i before

theorem Synchronised.append {trace : List HandshakeEvent} {event : HandshakeEvent}
    (synchronised : Synchronised trace)
    (last : ∀ number i, (mainRead number event).isSome = true -> (readsOf number trace).length = 2 * i + 1 ->
      SweptSince number i trace) : Synchronised (trace ++ [event]) := by
  intro number i before event' after same read odd
  rcases List.eq_nil_or_concat after with rfl | ⟨rest, final, rfl⟩
  · rcases List.append_inj' same rfl with ⟨rfl, single⟩
    cases single
    exact last number i read odd
  · rw [List.concat_eq_append, ← List.cons_append, ← List.append_assoc] at same
    rcases List.append_inj' same rfl with ⟨rfl, _⟩
    exact synchronised number i before event' rest rfl read odd

/-! ## A single call -/

section FirstCall

variable {phases : Phases} {shared after : Shared} {trace : List HandshakeEvent}

/-- What holds while only the first call started threads.  Its two threads are in
lock step, the threads of the others are asleep, and all measurements so far had
their sweep. -/
structure FirstCall (total : Nat) (phases : Phases) (shared : Shared) (trace : List HandshakeEvent) : Prop where
  lockStep : LockStep 0 (phases.main 0) (phases.sub 0) shared.completions trace
  asleep : ∀ number, number ≠ 0 -> shared.awake (.main number) = false ∧ shared.awake (.sub number) = false
  calls : phases.caller.point ≠ .between -> phases.caller.call < total
  reads : ∀ number, number ≠ 0 -> readsOf number trace = []
  synchronised : Synchronised trace

namespace FirstCall

variable {total : Nat} {op : HandshakeOp} {response : op.Response}

theorem caller_move (first : FirstCall total phases shared trace) (single : total ≤ 1) {phase : CallerPhase}
    (move : CallerMove total phases.caller op response phase) (effect : shared.effect op response after) :
    FirstCall total (Function.update phases .caller phase) after (trace ++ [⟨.caller, op, response⟩]) where
  lockStep := by
    rw [Phases.main_update_caller, Phases.sub_update_caller]
    exact first.lockStep.other _ rfl rfl rfl (Shared.effect_completion _ effect move.no_handshake.1)
      (Shared.effect_completion _ effect move.no_handshake.2)
  asleep := by
    intro number different
    have stays : ∀ thread, thread = .main number ∨ thread = .sub number -> op ≠ .wakeUpProcess thread := by
      rintro thread other rfl
      have woken := move.wakes
      rw [Nat.lt_one_iff.mp (Nat.lt_of_lt_of_le (first.calls woken.1) single)] at woken
      rcases other with rfl | rfl
      · rcases woken.2 with same | same <;> cases same
        exact different rfl
      · rcases woken.2 with same | same <;> cases same
        exact different rfl
    rw [Shared.effect_awake _ effect (stays _ (Or.inl rfl)), Shared.effect_awake _ effect (stays _ (Or.inr rfl))]
    exact first.asleep number different
  calls := by
    rw [Phases.caller_update_caller]
    exact move.call_lt first.calls
  reads := by
    intro number different
    rw [readsOf_same rfl]
    exact first.reads number different
  synchronised := first.synchronised.append fun _ _ read => by cases read

theorem main_move (first : FirstCall total phases shared trace) {number : Nat}
    (awake : shared.awake (.main number) = true) {phase : MainPhase}
    (move : MainMove number (phases.main number) op response phase) (effect : shared.effect op response after) :
    FirstCall total (Function.update phases (.main number) phase) after
      (trace ++ [⟨.main number, op, response⟩]) := by
  have zero : number = 0 := by
    by_contra different
    rw [(first.asleep number different).1] at awake
    cases awake
  subst zero
  constructor
  case lockStep =>
    rw [Phases.main_update_main, Phases.sub_update_main]
    exact first.lockStep.main_move move effect
  case asleep =>
    intro number different
    rw [Shared.effect_awake _ effect (move.no_wake _), Shared.effect_awake _ effect (move.no_wake _)]
    exact first.asleep number different
  case calls =>
    rw [Phases.caller_update_main]
    exact first.calls
  case reads =>
    intro number different
    rw [readsOf_same (move.no_read different)]
    exact first.reads number different
  case synchronised =>
    apply first.synchronised.append
    intro number i read odd
    by_cases same : number = 0
    · subst same
      exact first.lockStep.measured move read odd
    · rw [move.no_read same] at read
      cases read

theorem sub_move (first : FirstCall total phases shared trace) {number : Nat}
    (awake : shared.awake (.sub number) = true) {phase : SubPhase}
    (move : SubMove (phases.sub number) op response phase) (effect : shared.effect op response after) :
    FirstCall total (Function.update phases (.sub number) phase) after
      (trace ++ [⟨.sub number, op, response⟩]) := by
  have zero : number = 0 := by
    by_contra different
    rw [(first.asleep number different).2] at awake
    cases awake
  subst zero
  constructor
  case lockStep =>
    rw [Phases.main_update_sub, Phases.sub_update_sub]
    exact first.lockStep.sub_move move effect
  case asleep =>
    intro number different
    rw [Shared.effect_awake _ effect (move.no_wake _), Shared.effect_awake _ effect (move.no_wake _)]
    exact first.asleep number different
  case calls =>
    rw [Phases.caller_update_sub]
    exact first.calls
  case reads =>
    intro number different
    rw [readsOf_same rfl]
    exact first.reads number different
  case synchronised =>
    exact first.synchronised.append fun _ _ read => by cases read

end FirstCall

theorem firstCall_loaded (total : Nat) : FirstCall total startPhase Shared.loaded [] where
  lockStep := {
    reads := rfl
    switches := rfl
    mainBounded := trivial
    subBounded := trivial
    counters := ⟨fun _ => rfl, fun _ => rfl⟩
    exchanged := fun i impossible => absurd impossible (Nat.not_lt_zero i)
    swept := fun i impossible => absurd impossible (Nat.not_lt_zero i)
    sweeping := fun _ _ impossible => by cases impossible }
  asleep := fun _ _ => ⟨rfl, rfl⟩
  calls := fun impossible => absurd rfl impossible
  reads := fun _ _ => rfl
  synchronised := by
    intro number i before event after same
    cases before <;> cases same

/-- Every run of at most one call is synchronised. -/
theorem synchronised_single {configuration : Configuration} {levels : List Nat} (single : levels.length ≤ 1)
    {allowed : List HandshakeEvent -> HandshakeEvent -> Prop} {snapshot : HandshakeSnapshot}
    (reaches : (afterLoading configuration levels).Reaches effects allowed snapshot) :
    Synchronised snapshot.trace := by
  have within : snapshot.Within (protocols levels.length) (Ended levels.length)
      (FirstCall levels.length) := by
    apply reaches.within
    · rintro phases shared trace ⟨thread, op, response⟩ phase after first _ move ⟨awake, effect⟩
      cases thread with
      | caller => exact first.caller_move single move effect
      | main number => exact first.main_move awake move effect
      | sub number => exact first.sub_move awake move effect
    · exact ⟨startPhase, obeys_afterLoading levels, firstCall_loaded _⟩
  rcases within with ⟨_, _, first⟩
  exact first.synchronised

end FirstCall

/-! ## The second call -/

section SecondCall

variable {configuration : Configuration} {number : Nat} {trace : List HandshakeEvent}

theorem readsOf_none (quiet : ∀ event, event ∈ trace -> event.thread ≠ .main number) : readsOf number trace = [] := by
  apply List.filterMap_eq_nil_iff.mpr
  rintro ⟨thread, op, response⟩ member
  unfold mainRead
  split
  · rename_i other address value same
    cases same
    exact if_neg fun same => quiet _ member (congrArg ThreadName.main same)
  · rfl

theorem pcidsOf_none (quiet : ∀ event, event ∈ trace -> event.thread ≠ .sub number) : pcidsOf number trace = [] := by
  apply List.filterMap_eq_nil_iff.mpr
  rintro ⟨thread, op, response⟩ member
  unfold subPcid
  split
  · rename_i other value same
    cases same
    exact if_neg fun same => quiet _ member (congrArg ThreadName.sub same)
  · rfl

/-- Without an event of `sub` there was no sweep. -/
theorem SweptSince.sub_took_part {i : Nat} (swept : SweptSince number i trace)
    (quiet : ∀ event, event ∈ trace -> event.thread ≠ .sub number) : False := by
  rcases swept with ⟨after, ⟨before, event, rfl, _, _⟩, sweep⟩
  have silent : pcidsOf number after = [] := pcidsOf_none fun event member =>
    quiet event (List.mem_append_right _ (List.mem_cons_of_mem _ member))
  rw [silent, List.infix_nil] at sweep
  cases sweep

/-- The start of `main`, up to the end of its first iteration. -/
def firstIteration (configuration : Configuration) (number : Nat) : Thread Nat := do
  let cr3 ← mainStart number
  let prepared ← prepareMeasurement configuration number cr3
  measureTarget number cr3 prepared
  return cr3

theorem hyperthreadPcidMain_firstIteration :
    hyperthreadPcidMain configuration number =
      firstIteration configuration number >>= fun cr3 => mainFrom configuration number cr3 1 := by
  have first : hyperthreadPcidMain configuration number =
      mainStart number >>= fun cr3 => mainFrom configuration number cr3 0 := rfl
  have more : 0 < iterations := by decide
  rw [first, firstIteration]
  simp only [mainFrom_succ number _ more, Program.bind_assoc, Program.pure_eq, Program.ret_bind]

/-- On saturated completions `main` needs no other thread. -/
theorem performs_firstIteration {shared : Shared} {data : ThreadData} (awake : shared.awake (.main number) = true)
    (record : shared.records number = some data) (setup : (shared.completions .setup).done = uintMax)
    (pcidSwitching : (shared.completions .pcidSwitching).done = uintMax) :
    Performs effects Punctual (.main number) (firstIteration configuration number) shared trace
      fun _ _ trace' => ∃ before cr3 prepared, trace' = before ++ measurementEvents number cr3 prepared ∧
        (readsOf number before).length = (readsOf number trace).length + 1 := by
  rw [firstIteration, performs_bind]
  apply (performs_mainStart awake record setup).mono
  rintro cr3 shared started ⟨rfl, reads⟩
  rw [performs_bind]
  apply (performs_prepareMeasurement cr3 awake record).mono
  rintro prepared prepare before ⟨same, read⟩
  rw [performs_bind]
  have still : prepare.awake (.main number) = true := by
    rw [same]
    exact awake
  have ready : (prepare.completions .pcidSwitching).done ≠ 0 := by
    rw [same]
    exact pcidSwitching ▸ (by decide : uintMax ≠ 0)
  apply (performs_measureTarget cr3 prepared still ready).mono
  rintro _ _ _ ⟨rfl, rfl⟩
  exact ⟨before, cr3, prepared, rfl, read.trans (congrArg (List.length · + 1) reads)⟩

/-- After the first call `main` of the second one measures at once. Neither of its
two threads took part in the run before, and the completions of the first call are
still complete. -/
theorem canReach_unsynchronised (configuration : Configuration) (first second : Nat) (levels : List Nat) :
    (afterLoading configuration (first :: second :: levels)).CanReach effects Punctual
      fun snapshot => ¬ Synchronised snapshot.trace := by
  apply (canReach_firstCallDone configuration first (second :: levels)).trans
  intro done firstCall
  apply Snapshot.CanReach.alone (performs_startThreads second firstCall.awake firstCall.ended).alone
    (firstCall.caller.trans (successiveCalls_cons 1 second levels))
  rintro _ started _ ⟨⟨rfl, _, _, ⟨data, record⟩, awake, completions⟩, starting, rfl, startingOwn⟩
  have mainAwake : started.awake (.main 1) = true := by
    rw [awake]
    rfl
  have setup : (started.completions .setup).done = uintMax := by
    rw [completions]
    exact firstCall.setup
  have pcidSwitching : (started.completions .pcidSwitching).done = uintMax := by
    rw [completions]
    exact firstCall.pcidSwitching
  let waiting : Thread Unit := collectMisses 1 >>= fun _ => successiveCalls 2 levels
  let middle : HandshakeSnapshot := ⟨Function.update done.programs .caller waiting, started, done.trace ++ starting⟩
  have runs : middle.programs (.main 1) =
      firstIteration configuration 1 >>= fun cr3 => mainFrom configuration 1 cr3 1 :=
    (Function.update_of_ne (nofun : ThreadName.main 1 ≠ .caller) waiting done.programs).trans
      ((firstCall.later 1 (by decide)).trans hyperthreadPcidMain_firstIteration)
  change middle.CanReach effects Punctual _
  apply Snapshot.CanReach.alone (performs_firstIteration mainAwake record setup pcidSwitching).alone runs
  rintro _ _ _ ⟨⟨before, cr3, prepared, rfl, count⟩, measuring, same, measuringOwn⟩
  refine .here fun synchronised => ?_
  have earlier : ∀ thread, thread = .main 1 ∨ thread = .sub 1 ->
      ∀ event, event ∈ done.trace ++ starting -> event.thread ≠ thread := by
    rintro thread other event member rfl
    rcases List.mem_append.mp member with before | now
    · rcases firstCall.events event before with same | same | same <;> rw [same] at other <;>
        rcases other with other | other <;> cases other
    · rw [startingOwn event now] at other
      rcases other with other | other <;> cases other
  rw [readsOf_none (earlier _ (Or.inl rfl))] at count
  have swept := synchronised 1 0 (before ++ [⟨.main 1, .waitForCompletion .pcidSwitching, ()⟩])
    ⟨.main 1, .machine (.readData prepared.1), (0 : Nat)⟩ _
    (by rw [List.append_assoc]; rfl) rfl (by rw [readsOf_append, List.length_append, count]; rfl)
  apply swept.sub_took_part
  intro event member
  have inTrace : event ∈ done.trace ++ starting ++ measuring := by
    rw [← same]
    rcases List.mem_append.mp member with before | wait
    · exact List.mem_append_left _ before
    · exact List.mem_append_right _ (List.mem_of_mem_head? (List.mem_singleton.mp wait ▸ rfl))
  rcases List.mem_append.mp inTrace with before | now
  · exact earlier _ (Or.inr rfl) event before
  · rw [measuringOwn event now]
    nofun

end SecondCall

/-- All runs of a sequence of calls are synchronised exactly if there is at most one
call.  The completions are static and were completed for good by the first call;
only `main_done` and `sub_done` are initialised again, so `main` of a later call
does not wait for the sweep.  Runs are arbitrary interleavings in which every wait
may expire. -/
theorem testHyperthreadedPcidSupport_synchronised_iff (configuration : Configuration) (levels : List Nat) :
    (∀ snapshot, (afterLoading configuration levels).Reaches effects (fun _ _ => True) snapshot ->
      Synchronised snapshot.trace) ↔ levels.length ≤ 1 := by
  constructor
  · intro all
    match levels with
    | [] => exact Nat.zero_le 1
    | [_] => exact Nat.le_refl 1
    | first :: second :: levels =>
        rcases canReach_unsynchronised configuration first second levels with ⟨snapshot, reaches, fails⟩
        exact absurd (all snapshot (reaches.mono fun _ _ _ => trivial)) fails
  · intro single snapshot reaches
    exact synchronised_single single reaches

/-- `device_read` begins with two calls for level 2.  Even if no timed wait expires
and the threads of the first end before, `main` of the second one can measure
without a sweep. -/
theorem testHyperthreadedPcidSupport_measures_unswept :
    ¬ ∀ snapshot, (afterLoading defaultConfiguration [2, 2]).Reaches effects Punctual snapshot ->
      Synchronised snapshot.trace := by
  intro all
  rcases canReach_unsynchronised defaultConfiguration 2 2 [] with ⟨snapshot, reaches, fails⟩
  exact fails (all snapshot reaches)

end CrossHyperthread
end Talbot
