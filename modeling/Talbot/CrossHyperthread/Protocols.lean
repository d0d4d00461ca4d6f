import Talbot.CrossHyperthread.Handshake

namespace Talbot
namespace CrossHyperthread

/-!
The order in which each thread of the experiment performs its operations.

A protocol forgets what the threads compute and keeps where they are: the
iteration, and the point inside it.  The programs are checked against the
protocols here; what holds along all runs is proved from the protocols alone.
-/

open Foundations
open Foundations.Program (Obeys forRange obeys_bind obeys_call obeys_forRange)

/-! ## The phases -/

/-- The points of an iteration of `main`, each named after what was done last. -/
inductive MainPoint where
  | prepare
  | targetRead
  | exchanged
  | signalled
  | swept
  | measured (value : Nat)
  | counted
  deriving DecidableEq, Repr

inductive MainPhase where
  | starting
  | iterating (iteration : Nat) (point : MainPoint)
  | closing
  | announcing
  | returned
  deriving DecidableEq, Repr

inductive SubPhase where
  | starting
  | waiting (iteration : Nat)
  | sweeping (iteration pcids : Nat)
  | closing
  | returned
  deriving DecidableEq, Repr

inductive CallerPoint where
  | between
  | allocated
  | mainCreated
  | created
  | mainReset
  | reset
  | mainAwake
  | waiting
  | reading
  | freeing
  deriving DecidableEq, Repr

structure CallerPhase where
  call : Nat
  point : CallerPoint
  deriving DecidableEq, Repr

def Phase : ThreadName -> Type
  | .caller => CallerPhase
  | .main _ => MainPhase
  | .sub _ => SubPhase

abbrev Phases : Type :=
  (thread : ThreadName) -> Phase thread

namespace Phases

variable (phases : Phases)

def caller : CallerPhase :=
  phases .caller

def main (number : Nat) : MainPhase :=
  phases (.main number)

def sub (number : Nat) : SubPhase :=
  phases (.sub number)

section Update

variable {phases} {number other : Nat}

@[simp] theorem caller_update_caller (phase : CallerPhase) :
    caller (Function.update phases .caller phase) = phase :=
  Function.update_self _ _ _

@[simp] theorem main_update_caller (phase : CallerPhase) :
    main (Function.update phases .caller phase) number = phases.main number :=
  Function.update_of_ne (nofun : ThreadName.main number ≠ .caller) _ _

@[simp] theorem sub_update_caller (phase : CallerPhase) :
    sub (Function.update phases .caller phase) number = phases.sub number :=
  Function.update_of_ne (nofun : ThreadName.sub number ≠ .caller) _ _

@[simp] theorem caller_update_main (phase : MainPhase) :
    caller (Function.update phases (.main number) phase) = phases.caller :=
  Function.update_of_ne (ThreadName.caller_ne_main number) _ _

@[simp] theorem main_update_main (phase : MainPhase) :
    main (Function.update phases (.main number) phase) number = phase :=
  Function.update_self _ _ _

theorem main_update_other (phase : MainPhase) (different : other ≠ number) :
    main (Function.update phases (.main number) phase) other = phases.main other :=
  Function.update_of_ne (fun same => different (ThreadName.main.inj same)) _ _

@[simp] theorem sub_update_main (phase : MainPhase) :
    sub (Function.update phases (.main number) phase) other = phases.sub other :=
  Function.update_of_ne (nofun : ThreadName.sub other ≠ .main number) _ _

@[simp] theorem caller_update_sub (phase : SubPhase) :
    caller (Function.update phases (.sub number) phase) = phases.caller :=
  Function.update_of_ne (ThreadName.caller_ne_sub number) _ _

@[simp] theorem main_update_sub (phase : SubPhase) :
    main (Function.update phases (.sub number) phase) other = phases.main other :=
  Function.update_of_ne (nofun : ThreadName.main other ≠ .sub number) _ _

@[simp] theorem sub_update_sub (phase : SubPhase) :
    sub (Function.update phases (.sub number) phase) number = phase :=
  Function.update_self _ _ _

theorem sub_update_other (phase : SubPhase) (different : other ≠ number) :
    sub (Function.update phases (.sub number) phase) other = phases.sub other :=
  Function.update_of_ne (fun same => different (ThreadName.sub.inj same)) _ _

end Update

end Phases

/-! ## The protocols -/

def isRead : KernelOp -> Bool
  | .readData _ => true
  | _ => false

/-- The moves of `main`.  Its iterations are numbered from zero, and the record is
only accessed by the moves that name it. -/
inductive MainMove (number : Nat) : MainPhase -> (op : HandshakeOp) -> op.Response -> MainPhase -> Prop
  | getCr3 (cr3 : Nat) : MainMove number .starting (.machine .getCr3) cr3 .starting
  | readMm (mm : Nat) : MainMove number .starting (.readMm number) mm .starting
  | setUp : MainMove number .starting (.waitForCompletion .setup) () (.iterating 0 .prepare)
  | readLevel {i : Nat} (more : i < iterations) (level : Nat) :
      MainMove number (.iterating i .prepare) (.readLevel number) level (.iterating i .prepare)
  | work {i : Nat} {op : KernelOp} (noRead : isRead op = false) (response : op.Response) :
      MainMove number (.iterating i .prepare) (.machine op) response (.iterating i .prepare)
  | readTarget {i : Nat} (more : i < iterations) (address value : Nat) :
      MainMove number (.iterating i .prepare) (.machine (.readData address)) value (.iterating i .targetRead)
  | exchange {i : Nat} (target complementary : PageTableWalk) :
      MainMove number (.iterating i .targetRead) (.switchPageTableEntries number target complementary) ()
        (.iterating i .exchanged)
  | signal {i : Nat} : MainMove number (.iterating i .exchanged) (.complete .desynchronization) ()
      (.iterating i .signalled)
  | await {i : Nat} : MainMove number (.iterating i .signalled) (.waitForCompletion .pcidSwitching) ()
      (.iterating i .swept)
  | measure {i : Nat} (address value : Nat) :
      MainMove number (.iterating i .swept) (.machine (.readData address)) value (.iterating i (.measured value))
  | count {i : Nat} : MainMove number (.iterating i (.measured signal)) (.incrementMisses number) ()
      (.iterating i .counted)
  | restore {i : Nat} {point : MainPoint} (target complementary : PageTableWalk)
      (last : point = .counted ∨ ∃ value, value ≠ signal ∧ point = .measured value) :
      MainMove number (.iterating i point) (.switchPageTableEntries number target complementary) ()
        (.iterating (i + 1) .prepare)
  | close : MainMove number (.iterating iterations .prepare) (.completeAll .desynchronization) () .closing
  | awaitSub (inTime : Bool) : MainMove number .closing (.waitForCompletionTimeout .subDone) inTime .announcing
  | announce : MainMove number .announcing (.completeAll .mainDone) () .returned

/-- The moves of `sub`.  A sweep writes the PCIDs in order; the PCID is the low
twelve bits. -/
inductive SubMove : SubPhase -> (op : HandshakeOp) -> op.Response -> SubPhase -> Prop
  | getCr3 (cr3 : Nat) : SubMove .starting (.machine .getCr3) cr3 .starting
  | setUp : SubMove .starting (.completeAll .setup) () (.waiting 0)
  | await {j : Nat} (more : j < iterations) :
      SubMove (.waiting j) (.waitForCompletion .desynchronization) () (.sweeping j 0)
  | sweep {j pcids value : Nat} (next : value % 4096 = pcids + 1) (more : pcids < 4095) :
      SubMove (.sweeping j pcids) (.machine (.setCr3 value)) () (.sweeping j (pcids + 1))
  | signal {j : Nat} : SubMove (.sweeping j 4095) (.complete .pcidSwitching) () (.waiting (j + 1))
  | close : SubMove (.waiting iterations) (.completeAll .pcidSwitching) () .closing
  | announce : SubMove .closing (.completeAll .subDone) () .returned

/-- The moves of the caller, which makes `total` calls. -/
inductive CallerMove (total : Nat) : CallerPhase -> (op : HandshakeOp) -> op.Response -> CallerPhase -> Prop
  | allocate {number : Nat} (more : number < total) (level : Nat) :
      CallerMove total ⟨number, .between⟩ (.newThreadData number level) () ⟨number, .allocated⟩
  | createMain {number : Nat} :
      CallerMove total ⟨number, .allocated⟩ (.kthreadCreate (.main number)) true ⟨number, .mainCreated⟩
  | noMain {number : Nat} :
      CallerMove total ⟨number, .allocated⟩ (.kthreadCreate (.main number)) false ⟨number + 1, .between⟩
  | createSub {number : Nat} :
      CallerMove total ⟨number, .mainCreated⟩ (.kthreadCreate (.sub number)) true ⟨number, .created⟩
  | noSub {number : Nat} :
      CallerMove total ⟨number, .mainCreated⟩ (.kthreadCreate (.sub number)) false ⟨number + 1, .between⟩
  | resetMain {number : Nat} :
      CallerMove total ⟨number, .created⟩ (.initCompletion .mainDone) () ⟨number, .mainReset⟩
  | resetSub {number : Nat} :
      CallerMove total ⟨number, .mainReset⟩ (.initCompletion .subDone) () ⟨number, .reset⟩
  | wakeMain {number : Nat} :
      CallerMove total ⟨number, .reset⟩ (.wakeUpProcess (.main number)) () ⟨number, .mainAwake⟩
  | wakeSub {number : Nat} :
      CallerMove total ⟨number, .mainAwake⟩ (.wakeUpProcess (.sub number)) () ⟨number, .waiting⟩
  | await {number : Nat} (inTime : Bool) :
      CallerMove total ⟨number, .waiting⟩ (.waitForCompletionTimeout .mainDone) inTime ⟨number, .reading⟩
  | read {number : Nat} (misses : Nat) :
      CallerMove total ⟨number, .reading⟩ (.readMisses number) misses ⟨number, .freeing⟩
  | free {number : Nat} : CallerMove total ⟨number, .freeing⟩ (.kfree number) () ⟨number + 1, .between⟩

/-! ### What moves cannot do -/

theorem MainMove.no_wake {number : Nat} {phase after : MainPhase} {op : HandshakeOp} {response : op.Response}
    (move : MainMove number phase op response after) (thread : ThreadName) : op ≠ .wakeUpProcess thread := by
  cases move <;> nofun

theorem SubMove.no_wake {phase after : SubPhase} {op : HandshakeOp} {response : op.Response}
    (move : SubMove phase op response after) (thread : ThreadName) : op ≠ .wakeUpProcess thread := by
  cases move <;> nofun

/-- The last operation of `main`, and that of `sub`. -/
theorem MainMove.ended {number : Nat} {phase after : MainPhase}
    {response : (HandshakeOp.completeAll .mainDone).Response}
    (move : MainMove number phase (.completeAll .mainDone) response after) : after = .returned := by
  cases move
  rfl

theorem SubMove.ended {phase after : SubPhase} {response : (HandshakeOp.completeAll .subDone).Response}
    (move : SubMove phase (.completeAll .subDone) response after) : after = .returned := by
  cases move
  rfl

theorem MainMove.not_returned {number : Nat} {phase after : MainPhase} {op : HandshakeOp} {response : op.Response}
    (move : MainMove number phase op response after) : phase ≠ .returned := by
  cases move with
  | restore target complementary last => nofun
  | _ => nofun

theorem SubMove.not_returned {phase after : SubPhase} {op : HandshakeOp} {response : op.Response}
    (move : SubMove phase op response after) : phase ≠ .returned := by
  cases move <;> nofun

/-- The threads initialise no completion. -/
theorem MainMove.no_init {number : Nat} {phase after : MainPhase} {op : HandshakeOp} {response : op.Response}
    (move : MainMove number phase op response after) (name : CompletionName) : op ≠ .initCompletion name := by
  cases move <;> nofun

theorem SubMove.no_init {phase after : SubPhase} {op : HandshakeOp} {response : op.Response}
    (move : SubMove phase op response after) (name : CompletionName) : op ≠ .initCompletion name := by
  cases move <;> nofun

/-- The caller only wakes the threads of the call it is in. -/
theorem CallerMove.wakes {total : Nat} {phase after : CallerPhase} {thread : ThreadName}
    {response : (HandshakeOp.wakeUpProcess thread).Response}
    (move : CallerMove total phase (.wakeUpProcess thread) response after) :
    phase.point ≠ .between ∧ (thread = .main phase.call ∨ thread = .sub phase.call) := by
  cases move with
  | wakeMain => exact ⟨nofun, Or.inl rfl⟩
  | wakeSub => exact ⟨nofun, Or.inr rfl⟩

/-- The caller leaves the completions of the iterations alone. -/
theorem CallerMove.no_handshake {total : Nat} {phase after : CallerPhase} {op : HandshakeOp}
    {response : op.Response} (move : CallerMove total phase op response after) :
    op.target ≠ some .desynchronization ∧ op.target ≠ some .pcidSwitching := by
  cases move <;> exact ⟨nofun, nofun⟩

/-- Inside a call its number is below the number of calls. -/
theorem CallerMove.call_lt {total : Nat} {phase after : CallerPhase} {op : HandshakeOp} {response : op.Response}
    (move : CallerMove total phase op response after)
    (below : phase.point ≠ .between -> phase.call < total) : after.point ≠ .between -> after.call < total := by
  cases move with
  | allocate more level => exact fun _ => more
  | noMain => exact fun impossible => absurd rfl impossible
  | noSub => exact fun impossible => absurd rfl impossible
  | free => exact fun impossible => absurd rfl impossible
  | _ => exact fun _ => below nofun

def protocols (total : Nat) : (thread : ThreadName) -> Protocol handshakeInterface (Phase thread)
  | .caller => CallerMove total
  | .main number => MainMove number
  | .sub _ => SubMove

def startPhase : Phases
  | .caller => (⟨0, .between⟩ : CallerPhase)
  | .main _ => MainPhase.starting
  | .sub _ => SubPhase.starting

/-- Where a thread ends. -/
def Ended (total : Nat) : (thread : ThreadName) -> Phase thread -> Prop
  | .caller, phase => phase = (⟨total, .between⟩ : CallerPhase)
  | .main _, phase => phase = MainPhase.returned
  | .sub _, phase => phase = SubPhase.returned

/-! ## The programs follow them -/

section Follow

variable {configuration : Configuration} {number : Nat}

/-- One iteration of `main` obeys the protocol. The operations up to the measurement
are matched one by one, in the order of the source. -/
theorem obeys_mainIteration (cr3 : Nat) {i : Nat} (more : i < iterations) :
    Obeys (MainMove number) (mainIteration configuration number cr3) (.iterating i .prepare)
      fun _ phase => phase = .iterating (i + 1) .prepare := by
  simp only [mainIteration, prepareMeasurement, measureTarget, onMachine_getRandomLong, onMachine_walkPair,
    onMachine_writeData, onMachine_setCr3, onMachine_flushMmuCaches, onMachine_readData, obeys_call, Program.pure_eq, Program.call_bind, Program.ret_bind]
  refine fun level => ⟨_, .readLevel more level, fun random => ⟨_, .work rfl _,
    fun shiftLevel => ⟨_, .readLevel more shiftLevel, fun prefixLevel => ⟨_, .readLevel more prefixLevel,
    fun targetWalk => ⟨_, .work rfl _, fun complementaryWalk => ⟨_, .work rfl _,
    fun _ => ⟨_, .work rfl _, fun _ => ⟨_, .work rfl _, fun _ => ⟨_, .work rfl _,
    fun _ => ⟨_, .work rfl _, fun _ => ⟨_, .work rfl _, fun p => ⟨_, .readTarget more _ p,
    fun _ => ⟨_, .exchange _ _, fun _ => ⟨_, .signal, fun _ => ⟨_, .await, fun value => ⟨_, .measure p value,
    ?_⟩⟩⟩⟩⟩⟩⟩⟩⟩⟩⟩⟩⟩⟩⟩⟩
  by_cases measured : value = signal
  · rw [if_pos measured, measured]
    simp only [obeys_call]
    exact fun _ => ⟨_, .count, fun _ => ⟨_, .restore _ _ (Or.inl rfl), fun _ => ⟨_, .work rfl _,
      fun _ => ⟨_, .work rfl _, rfl⟩⟩⟩⟩
  · rw [if_neg measured]
    simp only [obeys_call]
    exact fun _ => ⟨_, .restore _ _ (Or.inr ⟨value, measured, rfl⟩), fun _ => ⟨_, .work rfl _,
      fun _ => ⟨_, .work rfl _, rfl⟩⟩⟩

theorem obeys_hyperthreadPcidMain :
    Obeys (MainMove number) (hyperthreadPcidMain configuration number) .starting
      fun _ phase => phase = .returned := by
  simp only [hyperthreadPcidMain, mainStart, onMachine_getCr3, obeys_call, Program.pure_eq, Program.call_bind,
    Program.ret_bind]
  refine fun cr3 => ⟨_, .getCr3 cr3, fun mm => ⟨_, .readMm mm, fun _ => ⟨_, .setUp, ?_⟩⟩⟩
  rw [obeys_bind]
  apply (obeys_forRange (fun i _ phase => phase = .iterating i .prepare) 0 iterations () _ rfl _).mono
  · rintro _ _ rfl
    simp only [mainEnd, obeys_call, Program.call_bind, Program.ret_bind, Nat.zero_add]
    exact fun _ => ⟨_, .close, fun inTime => ⟨_, .awaitSub inTime, fun _ => ⟨_, .announce, rfl⟩⟩⟩
  · rintro i _ _ _ more rfl
    rw [Nat.zero_add] at more
    rw [obeys_bind]
    exact (obeys_mainIteration _ more).mono fun _ _ same => ⟨(), rfl, same⟩

theorem or_pcid_mod (cr3 : Nat) {pcid : Nat} (small : pcid < 4096) :
    ((cr3 >>> 12) <<< 12 ||| pcid) % 4096 = pcid := by
  have shifted : pcid < 2 ^ 12 := small
  rw [← Nat.shiftLeft_add_eq_or_of_lt shifted, Nat.shiftLeft_eq]
  exact (Nat.mul_add_mod' _ _ _).trans (Nat.mod_eq_of_lt small)

theorem obeys_sweepPcids (cr3 j : Nat) :
    Obeys SubMove (sweepPcids ((cr3 >>> 12) <<< 12)) (.sweeping j 0)
      fun _ phase => phase = .sweeping j 4095 := by
  apply (obeys_forRange (fun pcid _ phase => phase = .sweeping j (pcid - 1)) 1 4095 () _ rfl _).mono
  · rintro _ _ rfl
    rfl
  · rintro pcid _ _ positive upper rfl
    have next : ((cr3 >>> 12) <<< 12 ||| pcid) % 4096 = pcid - 1 + 1 := by
      rw [or_pcid_mod cr3 (by omega), Nat.sub_add_cancel positive]
    simp only [onMachine_setCr3, obeys_call, Program.call_bind, Program.ret_bind]
    refine fun _ => ⟨_, .sweep next (by omega), (), rfl, ?_⟩
    rw [Nat.sub_add_cancel positive, Nat.add_sub_cancel]

theorem obeys_hyperthreadPcidSub :
    Obeys SubMove hyperthreadPcidSub .starting fun _ phase => phase = .returned := by
  simp only [hyperthreadPcidSub, subStart, onMachine_getCr3, obeys_call, Program.pure_eq, Program.call_bind,
    Program.ret_bind]
  refine fun cr3 => ⟨_, .getCr3 cr3, fun _ => ⟨_, .setUp, ?_⟩⟩
  rw [obeys_bind]
  apply (obeys_forRange (fun j _ phase => phase = .waiting j) 0 iterations () _ rfl _).mono
  · rintro _ _ rfl
    simp only [subEnd, obeys_call, Program.call_bind, Program.ret_bind, Nat.zero_add]
    exact fun _ => ⟨_, .close, fun _ => ⟨_, .announce, rfl⟩⟩
  · rintro j _ _ _ more rfl
    rw [Nat.zero_add] at more
    simp only [subIteration, obeys_call, Program.call_bind, Program.ret_bind]
    refine fun _ => ⟨_, .await more, ?_⟩
    rw [obeys_bind, obeys_bind]
    apply (obeys_sweepPcids cr3 j).mono
    rintro _ _ rfl
    exact fun _ => ⟨_, .signal, (), rfl, rfl⟩

theorem obeys_testHyperthreadedPcidSupport {total : Nat} (level : Nat) (more : number < total) :
    Obeys (CallerMove total) (testHyperthreadedPcidSupport number level) ⟨number, .between⟩
      fun _ phase => phase = ⟨number + 1, .between⟩ := by
  simp only [testHyperthreadedPcidSupport, startThreads, collectMisses, obeys_call, Program.pure_eq,
    Program.call_bind, Program.ret_bind]
  refine fun _ => ⟨_, .allocate more level, fun mainCreated => ?_⟩
  cases mainCreated with
  | false => exact ⟨_, .noMain, rfl⟩
  | true =>
      refine ⟨_, .createMain, fun subCreated => ?_⟩
      cases subCreated with
      | false => exact ⟨_, .noSub, rfl⟩
      | true =>
          exact ⟨_, .createSub, fun _ => ⟨_, .resetMain, fun _ => ⟨_, .resetSub, fun _ => ⟨_, .wakeMain,
            fun _ => ⟨_, .wakeSub, fun inTime => ⟨_, .await inTime, fun misses => ⟨_, .read misses,
            fun _ => ⟨_, .free, rfl⟩⟩⟩⟩⟩⟩⟩⟩

theorem obeys_successiveCalls (levels : List Nat) {total : Nat} (all : number + levels.length = total) :
    Obeys (CallerMove total) (successiveCalls number levels) ⟨number, .between⟩
      fun _ phase => phase = ⟨total, .between⟩ := by
  induction levels generalizing number with
  | nil => exact congrArg (fun call => CallerPhase.mk call .between) all
  | cons level levels inductionHypothesis =>
      rw [List.length_cons] at all
      rw [successiveCalls, obeys_bind]
      apply (obeys_testHyperthreadedPcidSupport level (by omega)).mono
      rintro _ _ rfl
      exact inductionHypothesis (by omega)

/-- Every thread of the module follows its protocol from the start. -/
theorem obeys_afterLoading (levels : List Nat) (thread : ThreadName) :
    Obeys (protocols levels.length thread) ((afterLoading configuration levels).programs thread)
      (startPhase thread) fun _ phase => Ended levels.length thread phase := by
  cases thread with
  | caller => exact obeys_successiveCalls levels (Nat.zero_add _)
  | main number => exact obeys_hyperthreadPcidMain
  | sub number => exact obeys_hyperthreadPcidSub

end Follow

end CrossHyperthread
end Talbot
