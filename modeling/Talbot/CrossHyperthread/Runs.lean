import Talbot.CrossHyperthread.LockStep

namespace Talbot
namespace CrossHyperthread

/-!
Runs of the experiment: each part of a thread performed alone, and from these a
whole call in which the threads alternate and no timed wait expires.
-/

open Foundations
open Foundations.Program (Performs forRange performs_bind performs_call performs_forRange)

/-- The caller woke `main` of the call. -/
def Woken (number : Nat) (trace : List HandshakeEvent) : Prop :=
  ⟨.caller, .wakeUpProcess (.main number), ()⟩ ∈ trace

/-- After `main` of the call was woken, `main_done` was initialised again, for a
later call. -/
def Reinitialised (number : Nat) (trace : List HandshakeEvent) : Prop :=
  ∃ before after, trace = before ++ ⟨.caller, .wakeUpProcess (.main number), ()⟩ :: after ∧
    ⟨.caller, .initCompletion .mainDone, ()⟩ ∈ after

/-- The threads that the caller woke have performed their last operations, which are
the signals of `main_done` and `sub_done`. -/
def AllEnded (trace : List HandshakeEvent) : Prop :=
  ∀ number, Woken number trace -> ⟨.main number, .completeAll .mainDone, ()⟩ ∈ trace ∧
    ⟨.sub number, .completeAll .subDone, ()⟩ ∈ trace

/-- No timed wait expires, a call begins when the threads of the earlier calls have
ended, and `main` signals the `main_done` of its own call. -/
def Punctual (trace : List HandshakeEvent) : HandshakeEvent -> Prop
  | ⟨_, .waitForCompletionTimeout _, inTime⟩ => inTime = true
  | ⟨_, .newThreadData _ _, _⟩ => AllEnded trace
  | ⟨.main number, .completeAll .mainDone, _⟩ => ¬ Reinitialised number trace
  | _ => True

theorem reinitialised_append {number : Nat} {trace : List HandshakeEvent} {event : HandshakeEvent} :
    Reinitialised number (trace ++ [event]) ↔
      Reinitialised number trace ∨ event = ⟨.caller, .initCompletion .mainDone, ()⟩ ∧ Woken number trace := by
  constructor
  · rintro ⟨before, after, same, member⟩
    rcases List.eq_nil_or_concat after with rfl | ⟨rest, last, rfl⟩
    · cases member
    · rw [List.concat_eq_append, ← List.cons_append, ← List.append_assoc] at same
      rcases List.append_inj' same rfl with ⟨rfl, final⟩
      cases final
      rcases List.mem_append.mp (List.concat_eq_append ▸ member) with earlier | now
      · exact Or.inl ⟨before, rest, rfl, earlier⟩
      · exact Or.inr ⟨(List.mem_singleton.mp now).symm, List.mem_append_right _ List.mem_cons_self⟩
  · rintro (⟨before, after, rfl, member⟩ | ⟨rfl, woken⟩)
    · exact ⟨before, after ++ [event], by rw [List.append_assoc, List.cons_append], List.mem_append_left _ member⟩
    · rcases List.append_of_mem woken with ⟨before, after, rfl⟩
      exact ⟨before, after ++ [_], by rw [List.append_assoc, List.cons_append],
        List.mem_append_right _ (List.mem_singleton_self _)⟩

theorem not_reinitialised_append {number : Nat} {trace later : List HandshakeEvent}
    (current : ¬ Reinitialised number trace)
    (quiet : ⟨.caller, .initCompletion .mainDone, ()⟩ ∉ later) : ¬ Reinitialised number (trace ++ later) := by
  induction later generalizing trace with
  | nil => exact (List.append_nil trace).symm ▸ current
  | cons event later inductionHypothesis =>
      rw [← List.singleton_append, ← List.append_assoc]
      rcases not_or.mp (fun member => quiet (List.mem_cons.mpr member)) with ⟨different, quiet⟩
      apply inductionHypothesis _ quiet
      rw [reinitialised_append]
      rintro (before | ⟨rfl, _⟩)
      · exact current before
      · exact different rfl

section Parts

variable {configuration : Configuration} {number : Nat} {shared : Shared} {trace : List HandshakeEvent}

theorem performs_startThreads (level : Nat) (awake : shared.awake .caller = true) (ended : AllEnded trace) :
    Performs effects Punctual .caller (startThreads number level) shared trace fun started after trace' =>
      started = true ∧ (∀ n, Woken n trace' -> Woken n trace ∨ n = number) ∧
      (¬ Woken number trace -> ¬ Reinitialised number trace -> ¬ Reinitialised number trace') ∧
      (∃ data, after.records number = some data) ∧
      after.awake = Function.update (Function.update shared.awake (.main number) true) (.sub number) true ∧
      after.completions = Function.update (Function.update shared.completions .mainDone Completion.fresh)
        .subDone Completion.fresh := by
  simp only [startThreads, performs_call, Program.pure_eq, Program.call_bind, Program.ret_bind]
  refine ⟨(), _, ended, ⟨awake, 0, rfl⟩, true, _, trivial, ⟨awake, rfl⟩, true, _, trivial, ⟨awake, rfl⟩,
    (), _, trivial, ⟨awake, rfl⟩, (), _, trivial, ⟨awake, rfl⟩, (), _, trivial, ⟨awake, rfl⟩, (), _, trivial, ⟨?_, rfl⟩,
    rfl, ?_, ?_, ?_, rfl, rfl⟩
  · exact (Function.update_of_ne (ThreadName.caller_ne_main number) true shared.awake).trans awake
  · intro n woken
    simpa [Woken] using woken
  · intro asleep current
    simp only [reinitialised_append]
    simpa [Woken, current] using asleep
  · exact ⟨_, Function.update_self _ _ _⟩

/-- A wait on a saturated completion passes and changes nothing. -/
theorem updateCompletion_saturated {name : CompletionName} (saturated : (shared.completions name).done = uintMax) :
    (shared.completions name).done ≠ 0 ∧ shared = shared.updateCompletion name Completion.consume := by
  constructor
  · rw [saturated]
    decide
  · unfold Shared.updateCompletion
    rw [Completion.consume_saturated saturated, Function.update_eq_self]

variable {data : ThreadData}

theorem performs_mainStart (awake : shared.awake (.main number) = true) (record : shared.records number = some data)
    (started : (shared.completions .setup).done = uintMax) :
    Performs effects Punctual (.main number) (mainStart number) shared trace fun _ after trace' =>
      after = shared ∧ readsOf number trace' = readsOf number trace := by
  simp only [mainStart, onMachine_getCr3, performs_call, Program.pure_eq, Program.call_bind, Program.ret_bind]
  refine ⟨(0 : Nat), _, trivial, ⟨awake, rfl⟩, data.mm, _, trivial, ⟨awake, ?_, rfl⟩, (), shared, trivial,
    ⟨awake, updateCompletion_saturated started⟩, rfl, ?_⟩
  · intro other known
    rw [record] at known
    cases known
    rfl
  · simp [readsOf, List.filterMap_cons, mainRead]

theorem performs_prepareMeasurement (cr3 : Nat) (awake : shared.awake (.main number) = true)
    (record : shared.records number = some data) :
    Performs effects Punctual (.main number) (prepareMeasurement configuration number cr3) shared trace
      fun _ after trace' => after = shared.updateCompletion .desynchronization Completion.complete ∧
        (readsOf number trace').length = (readsOf number trace).length + 1 := by
  have level : ∀ other, shared.records number = some other -> data.level = other.level := by
    intro other known
    rw [record] at known
    cases known
    rfl
  let walk : PageTableWalk := ⟨fun _ => none⟩
  simp only [prepareMeasurement, onMachine_getRandomLong, onMachine_walkPair, onMachine_writeData, onMachine_setCr3,
    onMachine_flushMmuCaches, onMachine_readData, performs_call, Program.pure_eq, Program.call_bind,
    Program.ret_bind]
  refine ⟨data.level, _, trivial, ⟨awake, level, rfl⟩, (0 : Nat), _, trivial, ⟨awake, rfl⟩, data.level, _, trivial,
    ⟨awake, level, rfl⟩, data.level, _, trivial, ⟨awake, level, rfl⟩, walk, _, trivial, ⟨awake, rfl⟩, walk, _,
    trivial, ⟨awake, rfl⟩, (), _, trivial, ⟨awake, rfl⟩, (), _, trivial, ⟨awake, rfl⟩, (), _, trivial, ⟨awake, rfl⟩,
    (), _, trivial, ⟨awake, rfl⟩, (), _, trivial, ⟨awake, rfl⟩, (0 : Nat), _, trivial, ⟨awake, rfl⟩, (), _, trivial,
    ⟨awake, rfl⟩, (), _, trivial, ⟨awake, rfl⟩, rfl, ?_⟩
  simp [readsOf, List.filterMap_cons, mainRead]

/-- What the wait and the measurement add to the trace; the word read is zero, so
nothing is counted. -/
def measurementEvents (number cr3 : Nat) (prepared : Nat × PageTableWalk × PageTableWalk) : List HandshakeEvent :=
  [⟨.main number, .waitForCompletion .pcidSwitching, ()⟩, ⟨.main number, .machine (.readData prepared.1), (0 : Nat)⟩,
    ⟨.main number, .switchPageTableEntries number prepared.2.1 prepared.2.2, ()⟩,
    ⟨.main number, .machine (.setCr3 cr3), ()⟩, ⟨.main number, .machine .flushMmuCaches, ()⟩]

theorem performs_measureTarget (cr3 : Nat) (prepared : Nat × PageTableWalk × PageTableWalk)
    (awake : shared.awake (.main number) = true) (ready : (shared.completions .pcidSwitching).done ≠ 0) :
    Performs effects Punctual (.main number) (measureTarget number cr3 prepared) shared trace fun _ after trace' =>
      after = shared.updateCompletion .pcidSwitching Completion.consume ∧
        trace' = trace ++ measurementEvents number cr3 prepared := by
  have unseen : ¬ (0 : Nat) = signal := by decide
  simp only [measureTarget, onMachine_setCr3, onMachine_flushMmuCaches, onMachine_readData, performs_call,
    Program.call_bind, Program.ret_bind]
  refine ⟨(), _, trivial, ⟨awake, ready, rfl⟩, (0 : Nat), _, trivial, ⟨awake, rfl⟩, ?_⟩
  rw [if_neg unseen]
  simp only [performs_call]
  refine ⟨(), _, trivial, ⟨awake, rfl⟩, (), _, trivial, ⟨awake, rfl⟩, (), _, trivial, ⟨awake, rfl⟩, rfl, ?_⟩
  simp only [List.append_assoc]
  rfl

theorem performs_mainEnd (awake : shared.awake (.main number) = true)
    (ready : (shared.completions .subDone).done = uintMax) (current : ¬ Reinitialised number trace) :
    Performs effects Punctual (.main number) mainEnd shared trace fun _ after trace' =>
      after = (shared.updateCompletion .desynchronization fun _ => Completion.completeAll).updateCompletion .mainDone
        (fun _ => Completion.completeAll) ∧ ⟨.main number, .completeAll .mainDone, ()⟩ ∈ trace' ∧ trace ⊆ trace' := by
  have still : ((shared.updateCompletion .desynchronization fun _ => Completion.completeAll).completions
      .subDone).done = uintMax := ready
  simp only [mainEnd, performs_call, Program.call_bind, Program.ret_bind]
  refine ⟨(), _, trivial, ⟨awake, rfl⟩, true, _, rfl, ⟨awake, updateCompletion_saturated still⟩, (), _, ?_,
    ⟨awake, rfl⟩, rfl, List.mem_append_right _ List.mem_cons_self, ?_⟩
  · rw [List.append_assoc]
    exact not_reinitialised_append current (by simp)
  · rw [List.append_assoc, List.append_assoc]
    exact List.subset_append_left _ _

theorem performs_subStart (awake : shared.awake (.sub number) = true) :
    Performs effects Punctual (.sub number) subStart shared trace fun _ after _ =>
      after = shared.updateCompletion .setup fun _ => Completion.completeAll := by
  simp only [subStart, onMachine_getCr3, performs_call, Program.pure_eq, Program.call_bind, Program.ret_bind]
  exact ⟨(0 : Nat), _, trivial, ⟨awake, rfl⟩, (), _, trivial, ⟨awake, rfl⟩, rfl⟩

theorem performs_subIteration (cr3 : Nat) (awake : shared.awake (.sub number) = true)
    (ready : (shared.completions .desynchronization).done ≠ 0) :
    Performs effects Punctual (.sub number) (subIteration cr3) shared trace fun _ after _ =>
      after = (shared.updateCompletion .desynchronization Completion.consume).updateCompletion .pcidSwitching
        Completion.complete := by
  simp only [subIteration, performs_call, Program.call_bind, Program.ret_bind]
  refine ⟨(), _, trivial, ⟨awake, ready, rfl⟩, ?_⟩
  rw [performs_bind]
  apply (performs_forRange (fun _ _ after _ =>
    after = shared.updateCompletion .desynchronization Completion.consume) 1 4095 () rfl _).mono
  · rintro _ _ trace rfl
    exact ⟨(), _, trivial, ⟨awake, rfl⟩, rfl⟩
  · rintro pcid _ _ trace _ _ rfl
    exact ⟨(), _, trivial, ⟨awake, rfl⟩, (), rfl, rfl⟩

theorem performs_subEnd (awake : shared.awake (.sub number) = true) :
    Performs effects Punctual (.sub number) subEnd shared trace fun _ after trace' =>
      after = (shared.updateCompletion .pcidSwitching fun _ => Completion.completeAll).updateCompletion .subDone
        (fun _ => Completion.completeAll) ∧ ⟨.sub number, .completeAll .subDone, ()⟩ ∈ trace' := by
  simp only [subEnd, performs_call, Program.call_bind, Program.ret_bind]
  exact ⟨(), _, trivial, ⟨awake, rfl⟩, (), _, trivial, ⟨awake, rfl⟩, rfl, List.mem_append_right _ List.mem_cons_self⟩

theorem performs_collectMisses (awake : shared.awake .caller = true) (record : shared.records number = some data)
    (ready : (shared.completions .mainDone).done = uintMax) :
    Performs effects Punctual .caller (collectMisses number) shared trace fun _ after trace' =>
      after = shared.updateRecord number none ∧ trace ⊆ trace' ∧ ∀ n, Woken n trace' -> Woken n trace := by
  simp only [collectMisses, performs_call, Program.pure_eq, Program.call_bind, Program.ret_bind]
  refine ⟨true, shared, rfl, ⟨awake, updateCompletion_saturated ready⟩, data.misses, _, trivial,
    ⟨awake, ?_, rfl⟩, (), _, trivial, ⟨awake, rfl⟩, rfl, ?_, fun n woken => ?_⟩
  · intro other known
    rw [record] at known
    cases known
    rfl
  · rw [List.append_assoc, List.append_assoc]
    exact List.subset_append_left _ _
  · simpa [Woken] using woken

end Parts

/-! ## The first call -/

section FirstCall

variable {configuration : Configuration} {level : Nat} {levels : List Nat}

/-- The loop of `main` from iteration `i` on, and what follows it. -/
def mainFrom (configuration : Configuration) (number cr3 i : Nat) : Thread Unit := do
  forRange (fun _ _ => do
    mainIteration configuration number cr3
    return .next ()) i (iterations - i) ()
  mainEnd

def subFrom (cr3 i : Nat) : Thread Unit := do
  forRange (fun _ _ => do
    subIteration cr3
    return .next ()) i (iterations - i) ()
  subEnd

theorem mainFrom_succ (number cr3 : Nat) {i : Nat} (more : i < iterations) :
    mainFrom configuration number cr3 i = prepareMeasurement configuration number cr3 >>= fun prepared =>
      measureTarget number cr3 prepared >>= fun _ => mainFrom configuration number cr3 (i + 1) := by
  have left : iterations - i = iterations - (i + 1) + 1 := by omega
  unfold mainFrom mainIteration
  rw [left, forRange]
  simp only [Program.bind_assoc, Program.pure_eq, Program.ret_bind]

theorem subFrom_succ (cr3 : Nat) {i : Nat} (more : i < iterations) :
    subFrom cr3 i = subIteration cr3 >>= fun _ => subFrom cr3 (i + 1) := by
  have left : iterations - i = iterations - (i + 1) + 1 := by omega
  unfold subFrom
  rw [left, forRange]
  simp only [Program.bind_assoc, Program.pure_eq, Program.ret_bind]

/-- The first call waits for `main_done`, and its two threads are where
`mainProgram` and `subProgram` say. -/
structure Stage (configuration : Configuration) (levels : List Nat) (mainProgram subProgram : Thread Unit)
    (snapshot : HandshakeSnapshot) : Prop where
  caller : snapshot.programs .caller = collectMisses 0 >>= fun _ => successiveCalls 1 levels
  main : snapshot.programs (.main 0) = mainProgram
  sub : snapshot.programs (.sub 0) = subProgram
  later : ∀ number, number ≠ 0 -> snapshot.programs (.main number) = hyperthreadPcidMain configuration number
  awake : snapshot.shared.awake = Function.update (Function.update Shared.loaded.awake (.main 0) true) (.sub 0) true
  record : ∃ data, snapshot.shared.records 0 = some data
  events : ∀ event, event ∈ snapshot.trace ->
    event.thread = .caller ∨ event.thread = .main 0 ∨ event.thread = .sub 0
  woken : ∀ number, Woken number snapshot.trace -> number = 0
  current : ¬ Reinitialised 0 snapshot.trace

variable {mainProgram subProgram next : Thread Unit} {snapshot : HandshakeSnapshot} {after : Shared}
  {later : List HandshakeEvent}

theorem Stage.events_append (stage : Stage configuration levels mainProgram subProgram snapshot) {thread : ThreadName}
    (own : ∀ event, event ∈ later -> event.thread = thread) (inside : thread = .main 0 ∨ thread = .sub 0) :
    (∀ event, event ∈ snapshot.trace ++ later ->
      event.thread = .caller ∨ event.thread = .main 0 ∨ event.thread = .sub 0) ∧
    (∀ number, Woken number (snapshot.trace ++ later) -> number = 0) ∧
    ¬ Reinitialised 0 (snapshot.trace ++ later) := by
  refine ⟨?_, ?_, ?_⟩
  · intro event member
    rcases List.mem_append.mp member with before | now
    · exact stage.events event before
    · rw [own event now]
      exact Or.inr inside
  · intro number woken
    rcases List.mem_append.mp woken with before | now
    · exact stage.woken number before
    · rcases inside with rfl | rfl <;> cases own _ now
  · apply not_reinitialised_append stage.current
    intro member
    rcases inside with rfl | rfl <;> cases own _ member

theorem Stage.main_step (stage : Stage configuration levels mainProgram subProgram snapshot)
    (awake : after.awake = snapshot.shared.awake) (records : after.records = snapshot.shared.records)
    (own : ∀ event, event ∈ later -> event.thread = .main 0) :
    Stage configuration levels next subProgram
      ⟨Function.update snapshot.programs (.main 0) next, after, snapshot.trace ++ later⟩ where
  caller := (Function.update_of_ne (ThreadName.caller_ne_main 0) next snapshot.programs).trans stage.caller
  main := Function.update_self (ThreadName.main 0) next snapshot.programs
  sub := (Function.update_of_ne (nofun : ThreadName.sub 0 ≠ .main 0) next snapshot.programs).trans stage.sub
  later := fun number different => (Function.update_of_ne (fun same => different (ThreadName.main.inj same))
    next snapshot.programs).trans (stage.later number different)
  awake := awake.trans stage.awake
  record := records ▸ stage.record
  events := (stage.events_append own (Or.inl rfl)).1
  woken := (stage.events_append own (Or.inl rfl)).2.1
  current := (stage.events_append own (Or.inl rfl)).2.2

theorem Stage.sub_step (stage : Stage configuration levels mainProgram subProgram snapshot)
    (awake : after.awake = snapshot.shared.awake) (records : after.records = snapshot.shared.records)
    (own : ∀ event, event ∈ later -> event.thread = .sub 0) :
    Stage configuration levels mainProgram next
      ⟨Function.update snapshot.programs (.sub 0) next, after, snapshot.trace ++ later⟩ where
  caller := (Function.update_of_ne (ThreadName.caller_ne_sub 0) next snapshot.programs).trans stage.caller
  main := (Function.update_of_ne (nofun : ThreadName.main 0 ≠ .sub 0) next snapshot.programs).trans stage.main
  sub := Function.update_self (ThreadName.sub 0) next snapshot.programs
  later := fun number different =>
    (Function.update_of_ne (nofun : ThreadName.main number ≠ .sub 0) next snapshot.programs).trans
      (stage.later number different)
  awake := awake.trans stage.awake
  record := records ▸ stage.record
  events := (stage.events_append own (Or.inr rfl)).1
  woken := (stage.events_append own (Or.inr rfl)).2.1
  current := (stage.events_append own (Or.inr rfl)).2.2

theorem Stage.all_awake (stage : Stage configuration levels mainProgram subProgram snapshot) :
    snapshot.shared.awake .caller = true ∧ snapshot.shared.awake (.main 0) = true ∧
      snapshot.shared.awake (.sub 0) = true := by
  rw [stage.awake]
  exact ⟨rfl, rfl, rfl⟩

section Alone

variable {α : Type} {program : Thread α} {continuation : α -> Thread Unit} {goal : HandshakeSnapshot -> Prop}
  {post : α -> Shared -> List HandshakeEvent -> Prop}

/-- `main` performs the next part of its program. -/
theorem Stage.reach_main (stage : Stage configuration levels mainProgram subProgram snapshot)
    (performs : Performs effects Punctual (.main 0) program snapshot.shared snapshot.trace post)
    (runs : mainProgram = program >>= continuation)
    (keeps : ∀ value after trace, post value after trace ->
      after.awake = snapshot.shared.awake ∧ after.records = snapshot.shared.records)
    (next : ∀ value (middle : HandshakeSnapshot), post value middle.shared middle.trace ->
      Stage configuration levels (continuation value) subProgram middle ->
      middle.CanReach effects Punctual goal) : snapshot.CanReach effects Punctual goal := by
  apply Snapshot.CanReach.alone performs.alone (stage.main.trans runs)
  rintro value after _ ⟨holds, later, rfl, own⟩
  have kept := keeps value after _ holds
  exact next value _ holds (stage.main_step kept.1 kept.2 own)

/-- `sub` performs the next part of its program. -/
theorem Stage.reach_sub (stage : Stage configuration levels mainProgram subProgram snapshot)
    (performs : Performs effects Punctual (.sub 0) program snapshot.shared snapshot.trace post)
    (runs : subProgram = program >>= continuation)
    (keeps : ∀ value after trace, post value after trace ->
      after.awake = snapshot.shared.awake ∧ after.records = snapshot.shared.records)
    (next : ∀ value (middle : HandshakeSnapshot), post value middle.shared middle.trace ->
      Stage configuration levels mainProgram (continuation value) middle ->
      middle.CanReach effects Punctual goal) : snapshot.CanReach effects Punctual goal := by
  apply Snapshot.CanReach.alone performs.alone (stage.sub.trans runs)
  rintro value after _ ⟨holds, later, rfl, own⟩
  have kept := keeps value after _ holds
  exact next value _ holds (stage.sub_step kept.1 kept.2 own)

end Alone

/-- The threads are about to begin iteration `i`. -/
def AtRound (configuration : Configuration) (levels : List Nat) (i : Nat) (snapshot : HandshakeSnapshot) : Prop :=
  ∃ cr3 cr3', Stage configuration levels (mainFrom configuration 0 cr3 i) (subFrom cr3' i) snapshot ∧
    (snapshot.shared.completions .setup).done = uintMax ∧
    (snapshot.shared.completions .desynchronization).done = 0 ∧
    (snapshot.shared.completions .pcidSwitching).done = 0

theorem done_complete {completion : Completion} {count : Nat} (same : completion.done = count)
    (small : count < uintMax) : completion.complete.done = count + 1 :=
  (Completion.complete_done (same ▸ small)).trans (congrArg (· + 1) same)

theorem done_consume {completion : Completion} {count : Nat} (same : completion.done = count)
    (small : count < uintMax) : completion.consume.done = count - 1 :=
  (Completion.consume_done (same ▸ small)).trans (congrArg (· - 1) same)

/-- One iteration: `main` prepares, `sub` sweeps, `main` measures. -/
theorem canReach_round {i : Nat} (more : i < iterations) (atRound : AtRound configuration levels i snapshot) :
    snapshot.CanReach effects Punctual (AtRound configuration levels (i + 1)) := by
  rcases atRound with ⟨cr3, cr3', stage, setup, desync, pcid⟩
  rcases stage.record with ⟨data, record⟩
  apply stage.reach_main (performs_prepareMeasurement cr3 stage.all_awake.2.1 record) (mainFrom_succ 0 cr3 more)
  · rintro _ after _ ⟨rfl, _⟩
    exact ⟨rfl, rfl⟩
  rintro prepared prepare ⟨prepareShared, _⟩ stage
  have signalled : (prepare.shared.completions .desynchronization).done = 1 := by
    rw [prepareShared]
    exact done_complete desync (by decide)
  apply stage.reach_sub (performs_subIteration cr3' stage.all_awake.2.2 (by rw [signalled]; decide))
    (subFrom_succ cr3' more)
  · rintro _ after _ rfl
    exact ⟨rfl, rfl⟩
  rintro _ swept sweptShared stage
  have answered : (swept.shared.completions .pcidSwitching).done = 1 := by
    rw [sweptShared, prepareShared]
    exact done_complete pcid (by decide)
  apply stage.reach_main (performs_measureTarget cr3 prepared stage.all_awake.2.1 (by rw [answered]; decide)) rfl
  · rintro _ after _ ⟨rfl, _⟩
    exact ⟨rfl, rfl⟩
  rintro _ measured ⟨measuredShared, _⟩ stage
  refine .here ⟨cr3, cr3', stage, ?_, ?_, ?_⟩
  · rw [measuredShared, sweptShared, prepareShared]
    exact setup
  · rw [measuredShared, sweptShared]
    exact done_consume signalled (by decide)
  · rw [measuredShared]
    exact done_consume answered (by decide)

/-- The first call has returned, and its threads have ended. -/
structure FirstCallDone (configuration : Configuration) (levels : List Nat) (snapshot : HandshakeSnapshot) : Prop where
  caller : snapshot.programs .caller = successiveCalls 1 levels
  later : ∀ number, number ≠ 0 -> snapshot.programs (.main number) = hyperthreadPcidMain configuration number
  awake : snapshot.shared.awake .caller = true
  setup : (snapshot.shared.completions .setup).done = uintMax
  pcidSwitching : (snapshot.shared.completions .pcidSwitching).done = uintMax
  events : ∀ event, event ∈ snapshot.trace ->
    event.thread = .caller ∨ event.thread = .main 0 ∨ event.thread = .sub 0
  ended : AllEnded snapshot.trace

theorem canReach_end (atRound : AtRound configuration levels iterations snapshot) :
    snapshot.CanReach effects Punctual (FirstCallDone configuration levels) := by
  rcases atRound with ⟨cr3, cr3', stage, setup, _, _⟩
  apply stage.reach_sub (performs_subEnd stage.all_awake.2.2) (Program.bind_ret subEnd).symm
  · rintro _ after _ ⟨rfl, _⟩
    exact ⟨rfl, rfl⟩
  rintro _ subEnded ⟨subShared, subAnnounced⟩ stage
  have subDone : (subEnded.shared.completions .subDone).done = uintMax := by
    rw [subShared]
    rfl
  apply stage.reach_main (performs_mainEnd stage.all_awake.2.1 subDone stage.current)
    (Program.bind_ret mainEnd).symm
  · rintro _ after _ ⟨rfl, _⟩
    exact ⟨rfl, rfl⟩
  rintro _ mainEnded ⟨mainShared, mainAnnounced, kept⟩ stage
  have mainDone : (mainEnded.shared.completions .mainDone).done = uintMax := by
    rw [mainShared]
    rfl
  rcases stage.record with ⟨data, record⟩
  apply Snapshot.CanReach.alone (performs_collectMisses stage.all_awake.1 record mainDone).alone stage.caller
  rintro misses _ _ ⟨⟨rfl, kept', woken⟩, later, rfl, own⟩
  refine .here ⟨Function.update_self ThreadName.caller (successiveCalls 1 levels) mainEnded.programs, ?_,
    stage.all_awake.1, ?_, ?_, ?_, ?_⟩
  · intro number different
    exact (Function.update_of_ne (nofun : ThreadName.main number ≠ .caller) (successiveCalls 1 levels)
      mainEnded.programs).trans (stage.later number different)
  · change (mainEnded.shared.completions .setup).done = uintMax
    rw [mainShared, subShared]
    exact setup
  · change (mainEnded.shared.completions .pcidSwitching).done = uintMax
    rw [mainShared, subShared]
    rfl
  · intro event member
    rcases List.mem_append.mp member with before | now
    · exact stage.events event before
    · exact Or.inl (own event now)
  · intro number known
    rw [stage.woken number (woken number known)]
    exact ⟨kept' mainAnnounced, kept' (kept subAnnounced)⟩

theorem successiveCalls_cons (number level : Nat) (levels : List Nat) :
    successiveCalls number (level :: levels) = startThreads number level >>= fun started =>
      if started = false then successiveCalls (number + 1) levels
      else collectMisses number >>= fun _ => successiveCalls (number + 1) levels := by
  rw [successiveCalls, testHyperthreadedPcidSupport, Program.bind_assoc]
  congr 1
  funext started
  cases started with
  | false => rfl
  | true => exact Program.bind_assoc _ _ _

theorem canReach_firstRound (configuration : Configuration) (level : Nat) (levels : List Nat) :
    (afterLoading configuration (level :: levels)).CanReach effects Punctual (AtRound configuration levels 0) := by
  have nobody : AllEnded [] := fun _ impossible => (List.not_mem_nil impossible).elim
  apply Snapshot.CanReach.alone (performs_startThreads level rfl nobody).alone (successiveCalls_cons 0 level levels)
  rintro _ started trace ⟨⟨rfl, woken, current, record, awake, completions⟩, _, rfl, own⟩
  let waiting : Thread Unit := collectMisses 0 >>= fun _ => successiveCalls 1 levels
  have others : ∀ thread, thread ≠ .caller ->
      Function.update (afterLoading configuration (level :: levels)).programs .caller waiting thread =
        (afterLoading configuration (level :: levels)).programs thread :=
    fun thread different => Function.update_of_ne different _ _
  have stage : Stage configuration levels (hyperthreadPcidMain configuration 0) hyperthreadPcidSub
      ⟨Function.update (afterLoading configuration (level :: levels)).programs .caller waiting, started, trace⟩ := by
    refine ⟨Function.update_self ThreadName.caller waiting (afterLoading configuration (level :: levels)).programs,
      others (.main 0) (nofun : ThreadName.main 0 ≠ .caller), others (.sub 0) (nofun : ThreadName.sub 0 ≠ .caller),
      fun number _ => others (.main number) (nofun : ThreadName.main number ≠ .caller), awake, record,
      fun event member => Or.inl (own event member), fun number known => ?_, current List.not_mem_nil ?_⟩
    · exact (woken number known).resolve_left List.not_mem_nil
    rintro ⟨before, after, same, _⟩
    cases before <;> cases same
  apply stage.reach_sub (performs_subStart stage.all_awake.2.2) rfl
  · rintro _ after _ rfl
    exact ⟨rfl, rfl⟩
  rintro cr3' subStarted subShared stage
  have setup : (subStarted.shared.completions .setup).done = uintMax := by
    rw [subShared]
    rfl
  rcases stage.record with ⟨data, record⟩
  apply stage.reach_main (performs_mainStart stage.all_awake.2.1 record setup) rfl
  · rintro _ after _ ⟨rfl, _⟩
    exact ⟨rfl, rfl⟩
  rintro cr3 mainStarted ⟨mainShared, _⟩ stage
  refine .here ⟨cr3, cr3', stage, ?_, ?_, ?_⟩
  · rw [mainShared]
    exact setup
  · rw [mainShared, subShared]
    change (started.completions .desynchronization).done = 0
    rw [completions]
    rfl
  · rw [mainShared, subShared]
    change (started.completions .pcidSwitching).done = 0
    rw [completions]
    rfl

/-- The whole first call. -/
theorem canReach_firstCallDone (configuration : Configuration) (level : Nat) (levels : List Nat) :
    (afterLoading configuration (level :: levels)).CanReach effects Punctual
      (FirstCallDone configuration levels) := by
  apply (canReach_firstRound configuration level levels).trans
  intro started atRound
  apply (Snapshot.CanReach.rounds (AtRound configuration levels) iterations
    (fun i snapshot more atRound => canReach_round more atRound) atRound).trans
  exact fun ended atRound => canReach_end atRound

end FirstCall

end CrossHyperthread
end Talbot
