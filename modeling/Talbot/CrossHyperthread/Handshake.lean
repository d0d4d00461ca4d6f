import Talbot.Foundations.Completion
import Talbot.Foundations.Threads
import Talbot.Kernel.Operations

namespace Talbot
namespace CrossHyperthread

/-!
The cross-hyperthread experiment (`hyperthreaded.c`, `experiments.c`).

Each call of `test_hyperthreaded_pcid_support` starts two kernel threads that
share five completions and a record.  Three of the completions are static: they
start at zero when the module is loaded and no later call resets them.

Calls are numbered, so the threads and the record of a call carry its number.
What the measured memory, the page tables and the random numbers are is left to
the machine, which responds as it likes.
-/

open Foundations
open Foundations.Program (forRange)

/-- The completions of `hyperthreaded.c`. They are static, so the threads of all
calls share them; only `main_done` and `sub_done` are initialised again by every
call. -/
inductive CompletionName where
  | setup
  | desynchronization
  | pcidSwitching
  | mainDone
  | subDone
  deriving DecidableEq, Repr

inductive ThreadName where
  | caller
  | main (call : Nat)
  | sub (call : Nat)
  deriving DecidableEq, Repr

theorem ThreadName.caller_ne_main (call : Nat) : caller ≠ main call :=
  nofun

theorem ThreadName.caller_ne_sub (call : Nat) : caller ≠ sub call :=
  nofun

/-- `struct thread_data`; `mm` is the address of the memory descriptor. -/
structure ThreadData where
  misses : Nat
  level : Nat
  mm : Nat
  deriving DecidableEq, Repr

inductive HandshakeOp where
  /-- An operation on memory, page tables or registers. -/
  | machine (op : KernelOp)
  | complete (completion : CompletionName)
  | completeAll (completion : CompletionName)
  | waitForCompletion (completion : CompletionName)
  | waitForCompletionTimeout (completion : CompletionName)
  | initCompletion (completion : CompletionName)
  /-- `kmalloc` and the three assignments that fill the record. -/
  | newThreadData (call level : Nat)
  | readMm (call : Nat)
  | readLevel (call : Nat)
  /-- The switch of the two entries that the walks found for `data->level`. -/
  | switchPageTableEntries (call : Nat) (target complementary : PageTableWalk)
  | incrementMisses (call : Nat)
  | readMisses (call : Nat)
  | kfree (call : Nat)
  | kthreadCreate (thread : ThreadName)
  | wakeUpProcess (thread : ThreadName)

/-- A wait answers whether the completion was signalled in time, a creation whether
there is a thread. -/
@[reducible] def HandshakeOp.Response : HandshakeOp -> Type
  | machine op => op.Response
  | complete _ => Unit
  | completeAll _ => Unit
  | waitForCompletion _ => Unit
  | waitForCompletionTimeout _ => Bool
  | initCompletion _ => Unit
  | newThreadData _ _ => Unit
  | readMm _ => Nat
  | readLevel _ => Nat
  | switchPageTableEntries _ _ _ => Unit
  | incrementMisses _ => Unit
  | readMisses _ => Nat
  | kfree _ => Unit
  | kthreadCreate _ => Bool
  | wakeUpProcess _ => Unit

@[reducible] def handshakeInterface : Interface where
  Op := HandshakeOp
  Response := HandshakeOp.Response

abbrev Thread (α : Type) : Type :=
  Program handshakeInterface α

/-- A part of a thread that only works on memory, page tables and registers. -/
def onMachine {α : Type} : Kernel α -> Thread α
  | .ret value => .ret value
  | .call op next => .call (HandshakeOp.machine op) fun response => onMachine (next response)
  | .stuck => .stuck

section OnMachine

variable (address : Nat)

@[simp] theorem onMachine_readData : onMachine (readData address) = .call (.machine (.readData address)) .ret :=
  rfl

@[simp] theorem onMachine_writeData (data : Nat) :
    onMachine (writeData address data) = .call (.machine (.writeData address data)) .ret :=
  rfl

@[simp] theorem onMachine_flushMmuCaches : onMachine flushMmuCaches = .call (.machine .flushMmuCaches) .ret :=
  rfl

@[simp] theorem onMachine_getCr3 : onMachine getCr3 = .call (.machine .getCr3) .ret :=
  rfl

@[simp] theorem onMachine_setCr3 (value : Nat) : onMachine (setCr3 value) = .call (.machine (.setCr3 value)) .ret :=
  rfl

@[simp] theorem onMachine_getRandomLong : onMachine getRandomLong = .call (.machine .getRandomLong) .ret :=
  rfl

@[simp] theorem onMachine_walkPair (complementary : Nat) :
    onMachine (walkPair address complementary) = (do
      let targetWalk ← .call (HandshakeOp.machine (.walkPageTable address)) .ret
      let complementaryWalk ← .call (HandshakeOp.machine (.walkPageTable complementary)) .ret
      .call (HandshakeOp.machine (.clearNx targetWalk)) .ret
      .call (HandshakeOp.machine (.clearNx complementaryWalk)) .ret
      return (targetWalk, complementaryWalk)) :=
  rfl

end OnMachine

abbrev complete (completion : CompletionName) : Thread Unit :=
  .call (HandshakeOp.complete completion) .ret

abbrev completeAll (completion : CompletionName) : Thread Unit :=
  .call (HandshakeOp.completeAll completion) .ret

abbrev waitForCompletion (completion : CompletionName) : Thread Unit :=
  .call (HandshakeOp.waitForCompletion completion) .ret

abbrev waitForCompletionTimeout (completion : CompletionName) : Thread Bool :=
  .call (HandshakeOp.waitForCompletionTimeout completion) .ret

abbrev initCompletion (completion : CompletionName) : Thread Unit :=
  .call (HandshakeOp.initCompletion completion) .ret

abbrev newThreadData (call level : Nat) : Thread Unit :=
  .call (HandshakeOp.newThreadData call level) .ret

abbrev readMm (call : Nat) : Thread Nat :=
  .call (HandshakeOp.readMm call) .ret

abbrev readLevel (call : Nat) : Thread Nat :=
  .call (HandshakeOp.readLevel call) .ret

abbrev switchPageTableEntries (call : Nat) (target complementary : PageTableWalk) : Thread Unit :=
  .call (HandshakeOp.switchPageTableEntries call target complementary) .ret

abbrev incrementMisses (call : Nat) : Thread Unit :=
  .call (HandshakeOp.incrementMisses call) .ret

abbrev readMisses (call : Nat) : Thread Nat :=
  .call (HandshakeOp.readMisses call) .ret

abbrev kfree (call : Nat) : Thread Unit :=
  .call (HandshakeOp.kfree call) .ret

abbrev kthreadCreate (thread : ThreadName) : Thread Bool :=
  .call (HandshakeOp.kthreadCreate thread) .ret

abbrev wakeUpProcess (thread : ThreadName) : Thread Unit :=
  .call (HandshakeOp.wakeUpProcess thread) .ret

/-! ## The threads -/

section Threads

variable (configuration : Configuration)

/-- The body of the loop of `hyperthread_pcid_main`, up to the signal for `sub`.
The record is accessed where the source evaluates `data->level` and
`data->misses`. -/
def prepareMeasurement (call cr3 : Nat) : Thread (Nat × PageTableWalk × PageTableWalk) := do
  let level ← readLevel call
  let random ← onMachine getRandomLong
  let shiftLevel ← readLevel call
  let targetAddress := baseAddress +
    ((random % configuration.pageTableEntries level) <<< pageTableIndexShift shiftLevel)
  let prefixLevel ← readLevel call
  let prefixAlignedAddress := targetAddress + (0x1ff <<< pageTableIndexShift (prefixLevel - 1))
  let walks ← onMachine (walkPair targetAddress (complementaryOf targetAddress))
  onMachine (writeData targetAddress prefixAlignedAddress)
  onMachine (setCr3 cr3)
  onMachine flushMmuCaches
  let p ← onMachine (readData targetAddress)
  switchPageTableEntries call walks.1 walks.2
  complete .desynchronization
  return (p, walks)

/-- The rest of the body. -/
def measureTarget (call cr3 : Nat) (prepared : Nat × PageTableWalk × PageTableWalk) : Thread Unit := do
  let (p, walks) := prepared
  waitForCompletion .pcidSwitching
  let value ← onMachine (readData p)
  if value = signal then
    incrementMisses call
  switchPageTableEntries call walks.1 walks.2
  onMachine (setCr3 cr3)
  onMachine flushMmuCaches

def mainIteration (call cr3 : Nat) : Thread Unit := do
  let prepared ← prepareMeasurement configuration call cr3
  measureTarget call cr3 prepared

/-- What `main` does after its loop. -/
def mainEnd : Thread Unit := do
  completeAll .desynchronization
  let _ ← waitForCompletionTimeout .subDone
  completeAll .mainDone

/-- What it does before. -/
def mainStart (call : Nat) : Thread Nat := do
  let cr3 ← onMachine getCr3
  let _ ← readMm call
  waitForCompletion .setup
  return (cr3 >>> 12) <<< 12

def hyperthreadPcidMain (call : Nat) : Thread Unit := do
  let cr3 ← mainStart call
  forRange (fun _ _ => do
    mainIteration configuration call cr3
    return .next ()) 0 iterations ()
  mainEnd

/-- `for(int pcid = 1; pcid < 4096; pcid++) set_cr3(cr3 | pcid);` -/
def sweepPcids (cr3 : Nat) : Thread Unit :=
  forRange (fun pcid _ => do
    onMachine (setCr3 (cr3 ||| pcid))
    return .next ()) 1 4095 ()

def subIteration (cr3 : Nat) : Thread Unit := do
  waitForCompletion .desynchronization
  sweepPcids cr3
  complete .pcidSwitching

/-- What `sub` does after its loop. -/
def subEnd : Thread Unit := do
  completeAll .pcidSwitching
  completeAll .subDone

def subStart : Thread Nat := do
  let cr3 ← onMachine getCr3
  completeAll .setup
  return (cr3 >>> 12) <<< 12

def hyperthreadPcidSub : Thread Unit := do
  let cr3 ← subStart
  forRange (fun _ _ => do
    subIteration cr3
    return .next ()) 0 iterations ()
  subEnd

/-- The first part of `test_hyperthreaded_pcid_support`: whether both threads could
be created, and then were woken. -/
def startThreads (call level : Nat) : Thread Bool := do
  newThreadData call level
  let mainCreated ← kthreadCreate (.main call)
  if mainCreated = false then
    return false
  let subCreated ← kthreadCreate (.sub call)
  if subCreated = false then
    return false
  initCompletion .mainDone
  initCompletion .subDone
  wakeUpProcess (.main call)
  wakeUpProcess (.sub call)
  return true

/-- The second part: whether the wait was in time is not looked at. -/
def collectMisses (call : Nat) : Thread Nat := do
  let _ ← waitForCompletionTimeout .mainDone
  let misses ← readMisses call
  kfree call
  return misses

/-- `none` stands for the source's `-1`. -/
def testHyperthreadedPcidSupport (call level : Nat) : Thread (Option Nat) := do
  let started ← startThreads call level
  if started = false then
    return none
  let misses ← collectMisses call
  return some misses

/-- One call after the other, from number `call` on. -/
def successiveCalls : Nat -> List Nat -> Thread Unit
  | _, [] => return ()
  | call, level :: levels => do
      let _ ← testHyperthreadedPcidSupport call level
      successiveCalls (call + 1) levels

end Threads

/-! ## What the operations do -/

/-- The state that the threads share.  A record that was never allocated or is
already freed is `none`. -/
structure Shared where
  completions : CompletionName -> Completion
  records : Nat -> Option ThreadData
  awake : ThreadName -> Bool

namespace Shared

def updateCompletion (shared : Shared) (name : CompletionName) (change : Completion -> Completion) : Shared :=
  { shared with completions := Function.update shared.completions name (change (shared.completions name)) }

def updateRecord (shared : Shared) (call : Nat) (record : Option ThreadData) : Shared :=
  { shared with records := Function.update shared.records call record }

@[simp] theorem updateRecord_self (shared : Shared) (call : Nat) (record : Option ThreadData) :
    (shared.updateRecord call record).records call = record :=
  Function.update_self _ _ _

theorem updateRecord_other (shared : Shared) {call other : Nat} (different : other ≠ call)
    (record : Option ThreadData) : (shared.updateRecord call record).records other = shared.records other :=
  Function.update_of_ne different _ _

/-- The effect of an operation of a thread that runs.  A wait is blocked while
its counter is zero, and a timed one may then expire; a read of a freed record
gives anything. -/
def effect (shared : Shared) : (op : HandshakeOp) -> op.Response -> Shared -> Prop
  | .machine _, _, after => after = shared
  | .complete name, _, after => after = shared.updateCompletion name Completion.complete
  | .completeAll name, _, after => after = shared.updateCompletion name fun _ => Completion.completeAll
  | .waitForCompletion name, _, after =>
      (shared.completions name).done ≠ 0 ∧ after = shared.updateCompletion name Completion.consume
  | .waitForCompletionTimeout name, true, after =>
      (shared.completions name).done ≠ 0 ∧ after = shared.updateCompletion name Completion.consume
  | .waitForCompletionTimeout name, false, after => (shared.completions name).done = 0 ∧ after = shared
  | .initCompletion name, _, after => after = shared.updateCompletion name fun _ => Completion.fresh
  | .newThreadData call level, _, after =>
      ∃ mm, after = shared.updateRecord call (some ⟨0, level, mm⟩)
  | .readMm call, mm, after => (∀ data, shared.records call = some data -> mm = data.mm) ∧ after = shared
  | .readLevel call, level, after =>
      (∀ data, shared.records call = some data -> level = data.level) ∧ after = shared
  | .switchPageTableEntries _ _ _, _, after => after = shared
  | .incrementMisses call, _, after =>
      after = shared.updateRecord call
        ((shared.records call).map fun data => { data with misses := data.misses + 1 })
  | .readMisses call, misses, after =>
      (∀ data, shared.records call = some data -> misses = data.misses) ∧ after = shared
  | .kfree call, _, after => after = shared.updateRecord call none
  | .kthreadCreate _, _, after => after = shared
  | .wakeUpProcess thread, _, after => after = { shared with awake := Function.update shared.awake thread true }

/-- As the module is loaded: only the caller runs. -/
def loaded : Shared where
  completions := fun _ => Completion.fresh
  records := fun _ => none
  awake := fun thread => decide (thread = .caller)

end Shared

/-! ### Frames -/

/-- The completion that an operation works on. -/
def HandshakeOp.target : HandshakeOp -> Option CompletionName
  | .complete name | .completeAll name | .waitForCompletion name | .waitForCompletionTimeout name
  | .initCompletion name => some name
  | _ => none

/-- The other completions keep their counters. -/
theorem Shared.effect_completion {shared after : Shared} {op : HandshakeOp} {response : op.Response}
    (name : CompletionName) (effect : shared.effect op response after) (other : op.target ≠ some name) :
    after.completions name = shared.completions name := by
  have untouched : ∀ target change, some target ≠ some name ->
      (shared.updateCompletion target change).completions name = shared.completions name := by
    intro target change different
    exact Function.update_of_ne (fun same => different (congrArg some same.symm)) _ _
  cases op with
  | complete target => rw [show after = _ from effect, untouched _ _ other]
  | completeAll target => rw [show after = _ from effect, untouched _ _ other]
  | waitForCompletion target => rw [effect.2, untouched _ _ other]
  | waitForCompletionTimeout target =>
      cases response with
      | true => rw [effect.2, untouched _ _ other]
      | false => rw [effect.2]
  | initCompletion target => rw [show after = _ from effect, untouched _ _ other]
  | newThreadData number level =>
      rcases effect with ⟨mm, rfl⟩
      rfl
  | readMm number => rw [effect.2]
  | readLevel number => rw [effect.2]
  | readMisses number => rw [effect.2]
  | _ => rw [show after = _ from effect] <;> rfl

/-- Only waking a thread makes it take part. -/
theorem Shared.effect_awake {shared after : Shared} {op : HandshakeOp} {response : op.Response}
    (thread : ThreadName) (effect : shared.effect op response after) (noWake : op ≠ .wakeUpProcess thread) :
    after.awake thread = shared.awake thread := by
  cases op with
  | waitForCompletion target => exact effect.2 ▸ rfl
  | waitForCompletionTimeout target => cases response <;> exact effect.2 ▸ rfl
  | newThreadData number level =>
      rcases effect with ⟨mm, rfl⟩
      rfl
  | readMm number => rw [effect.2]
  | readLevel number => rw [effect.2]
  | readMisses number => rw [effect.2]
  | wakeUpProcess woken =>
      rw [show after = _ from effect]
      exact Function.update_of_ne (fun same => noWake (congrArg HandshakeOp.wakeUpProcess same.symm)) _ _
  | _ => rw [show after = _ from effect] <;> rfl

/-- Nothing puts a thread to sleep again. -/
theorem Shared.effect_stays {shared after : Shared} {op : HandshakeOp} {response : op.Response}
    (thread : ThreadName) (effect : shared.effect op response after)
    (woken : shared.awake thread = true ∨ op = .wakeUpProcess thread) : after.awake thread = true := by
  by_cases wakes : op = .wakeUpProcess thread
  · subst wakes
    rw [show after = _ from effect]
    exact Function.update_self _ _ _
  · exact (Shared.effect_awake _ effect wakes).trans (woken.resolve_right wakes)

/-- A thread takes part once it was woken.  What its operation then does to the
shared state is the same for all threads. -/
def effects : Effects handshakeInterface ThreadName Shared :=
  fun thread op shared response after => shared.awake thread = true ∧ shared.effect op response after

abbrev HandshakeEvent : Type :=
  Event handshakeInterface ThreadName

abbrev HandshakeSnapshot : Type :=
  Snapshot handshakeInterface ThreadName Shared

/-- The freshly loaded module, about to be called once for each level.  The threads
of all calls are there from the start and sleep until their call wakes them. -/
def afterLoading (configuration : Configuration) (levels : List Nat) : HandshakeSnapshot where
  programs
    | .caller => successiveCalls 0 levels
    | .main call => hyperthreadPcidMain configuration call
    | .sub _ => hyperthreadPcidSub
  shared := Shared.loaded
  trace := []

end CrossHyperthread
end Talbot
