import Talbot.Kernel.EvictionSets
import Talbot.Kernel.Replacement
import Talbot.Machine.Phases

namespace Talbot

/-!
Programs that keep the complementary window marked.

The words the experiments write are addresses below the complementary window, so
as long as every write ends where its address says, base slots hold such
addresses and complementary slots hold `signal`.  There is one rule for each
operation in each phase, and from them the chain builders and the steps between
two exchanges follow.
-/

open Foundations Program Paging

/-- What has to hold in every state of a run: outside an exchange the page tables
are as they were set up, and `signal` marks exactly the complementary slots. -/
structure SignalMarks (state : Paging) : Prop where
  entries : ¬ state.Exchanged -> state.machine.entries = EntryLocation.index
  base : ∀ address, address < complementaryBaseAddress -> state.machine.memory address ≠ signal
  complementary : ∀ address, complementaryBaseAddress ≤ address -> state.machine.memory address = signal

/-- The words the experiments write: addresses below the complementary window, and
0. None of them can be mistaken for the signal. -/
def Pointer (word : Nat) : Prop :=
  word ≠ signal ∧ word < complementaryBaseAddress

/-- The addresses of the base and huge windows.  All of them lie below the
complementary windows. -/
def InBase (address : Nat) : Prop :=
  baseAddress ≤ address ∧ address < complementaryBaseAddress

def InWindow (configuration : Configuration) (level address : Nat) : Prop :=
  baseAddress ≤ address ∧ address < windowEnd configuration level

/-- Every level has entries to draw from, and the base windows end below the huge
ones.  The sizes the repository ships with are of this kind. -/
structure WindowsApart (configuration : Configuration) : Prop where
  drawable : ∀ level, IsLevel level -> 0 < drawableEntries configuration level
  apart : ∀ level, IsLevel level -> windowEnd configuration level ≤ huge2MBBaseAddress

theorem windowsApart_default : WindowsApart defaultConfiguration := by
  constructor <;>
  · rintro level ⟨lower, upper⟩
    interval_cases level <;> decide

/-- Base slots hold pointers, complementary slots `signal`. -/
structure Sound (memory : Nat -> Nat) : Prop where
  base : ∀ address, address < complementaryBaseAddress -> Pointer (memory address)
  complementary : ∀ address, complementaryBaseAddress ≤ address -> memory address = signal

/-! ## Addresses -/

theorem pointer_zero : Pointer 0 := by
  unfold Pointer
  decide

theorem InBase.pointer {address : Nat} (inside : InBase address) : Pointer address := by
  refine ⟨?_, inside.2⟩
  rintro rfl
  exact absurd inside.1 (by decide)

theorem physicalSlot_lt {address : Nat} (below : address < complementaryBaseAddress) :
    physicalSlot address < complementaryBaseAddress := by
  unfold physicalSlot
  split
  · exact Nat.lt_of_lt_of_le (Nat.add_lt_add_left (Nat.mod_lt _ (Nat.two_pow_pos _)) _) (by decide)
  · split
    · exact Nat.lt_of_lt_of_le (Nat.add_lt_add_left (Nat.mod_lt _ (Nat.two_pow_pos _)) _) (by decide)
    · exact below

section Addresses

variable {configuration : Configuration} {level address : Nat}

theorem shiftLeft_le_two_pow {page : Nat} (isLevel : IsLevel level) (small : page ≤ 512) :
    page <<< pageTableIndexShift (level - 1) ≤ 2 ^ 39 := by
  have shift := pageTableIndexShift_succ isLevel
  have bounded := pageTableIndexShift_le isLevel
  rw [Nat.shiftLeft_eq]
  calc
    page * 2 ^ pageTableIndexShift (level - 1) ≤ 2 ^ 9 * 2 ^ pageTableIndexShift (level - 1) :=
      Nat.mul_le_mul_right _ small
    _ = 2 ^ (pageTableIndexShift (level - 1) + 9) := by rw [← Nat.pow_add, Nat.add_comm]
    _ ≤ 2 ^ 39 := Nat.pow_le_pow_right (by decide) (by omega)

/-- The pages of a window's entries are base addresses. -/
theorem InWindow.page (windows : WindowsApart configuration) (isLevel : IsLevel level)
    (inside : InWindow configuration level address) {page : Nat} (small : page ≤ 512) :
    InBase (address + (page <<< pageTableIndexShift (level - 1))) := by
  have offset := shiftLeft_le_two_pow isLevel small
  have ends := windows.apart level isLevel
  rcases inside with ⟨lower, upper⟩
  generalize page <<< pageTableIndexShift (level - 1) = bytes at offset ⊢
  unfold InBase
  unfold huge2MBBaseAddress at ends
  unfold baseAddress at lower ⊢
  unfold complementaryBaseAddress
  omega

theorem InWindow.inBase (windows : WindowsApart configuration) (isLevel : IsLevel level)
    (inside : InWindow configuration level address) : InBase address := by
  have first := inside.page windows isLevel (Nat.zero_le 512)
  rwa [Nat.zero_shiftLeft, Nat.add_zero] at first

theorem insideWindow_inWindow (inside : insideWindow configuration level address = true) :
    InWindow configuration level address := by
  rw [insideWindow, Bool.and_eq_true, decide_eq_true_eq, decide_eq_true_eq] at inside
  exact ⟨Nat.le_of_lt inside.1, inside.2⟩

theorem drawn_inWindow {modulus : Nat} (positive : 0 < modulus) (fewer : modulus ≤ configuration.pageTableEntries level)
    (random : Nat) :
    InWindow configuration level (baseAddress + ((random % modulus) <<< pageTableIndexShift level)) := by
  refine ⟨Nat.le_add_right _ _, Nat.add_lt_add_left ?_ _⟩
  rw [Nat.shiftLeft_eq, Nat.shiftLeft_eq]
  exact Nat.mul_lt_mul_of_pos_right (Nat.lt_of_lt_of_le (Nat.mod_lt _ positive) fewer) (Nat.two_pow_pos _)

end Addresses

/-! ## Phases with sound memory -/

/-- Nothing is exchanged, every translation is the original one, and the memory is
sound.  This is what holds between two experiments. -/
def Quiet (state : Paging) : Prop :=
  ∃ memory, Sound memory ∧ Calm memory state

/-- Two entries are exchanged. -/
def Exposed (first second : EntryLocation) (state : Paging) : Prop :=
  ∃ memory, Sound memory ∧ Open memory first second state

/-- The two entries are back in place, but translations may still be stale until the
next flush.  An access through one of the two may then end in the page of the other. -/
def Restored (first second : EntryLocation) (state : Paging) : Prop :=
  ∃ memory, Sound memory ∧ Stale memory first second state

/-- A phase that reading does not end, and in which `signal` marks the complementary slots. -/
structure Stable (phase : Paging -> Prop) : Prop where
  marks : ∀ state, phase state -> SignalMarks state
  access : ∀ state address value, phase state ->
    phase { state with history := state.history.access address value }

theorem Sound.marks {memory : Nat -> Nat} {state : Paging} (sound : Sound memory)
    (memory_eq : state.machine.memory = memory)
    (entries : ¬ state.Exchanged -> state.machine.entries = EntryLocation.index) : SignalMarks state where
  entries := entries
  base address below := by
    rw [memory_eq]
    exact (sound.base address below).1
  complementary address above := by
    rw [memory_eq]
    exact sound.complementary address above

theorem stable_ready : Stable Quiet where
  marks := by
    rintro state ⟨memory, sound, calm⟩
    exact sound.marks calm.memory_eq fun _ => calm.settled.entries_eq
  access := by
    rintro state address value ⟨memory, sound, calm⟩
    exact ⟨memory, sound, calm.access address value⟩

theorem stable_exposed (first second : EntryLocation) : Stable (Exposed first second) where
  marks := by
    rintro state ⟨memory, sound, opened⟩
    exact sound.marks opened.memory_eq fun closed => absurd opened.opened closed
  access := by
    rintro state address value ⟨memory, sound, opened⟩
    exact ⟨memory, sound, opened.access address value⟩

theorem stable_restored (first second : EntryLocation) : Stable (Restored first second) where
  marks := by
    rintro state ⟨memory, sound, stale⟩
    exact sound.marks stale.memory_eq fun _ => stale.restored
  access := by
    rintro state address value ⟨memory, sound, stale⟩
    exact ⟨memory, sound, stale.access address value⟩

theorem Sound.store {memory : Nat -> Nat} (sound : Sound memory) {address data : Nat}
    (below : address < complementaryBaseAddress) (pointer : Pointer data) :
    Sound (Function.update memory (physicalSlot address) data) := by
  have slot := physicalSlot_lt below
  constructor
  · intro other small
    by_cases same : other = physicalSlot address
    · rw [same, Function.update_self]
      exact pointer
    · rw [Function.update_of_ne same]
      exact sound.base other small
  · intro other large
    rw [Function.update_of_ne (Nat.ne_of_gt (Nat.lt_of_lt_of_le slot large))]
    exact sound.complementary other large

/-- Every state of a run of the program marks the complementary slots with `signal`. -/
abbrev Safely (configuration : Configuration) {α : Type} (program : Kernel α) (state : Paging)
    (post : α -> Paging -> Prop) : Prop :=
  Ensures (may (InWindow configuration)) (fun state _ => SignalMarks state) True program state post

section Rules

variable {configuration : Configuration} {state : Paging} {phase : Paging -> Prop} {first second : EntryLocation}

theorem safely_access (stable : Stable phase) (holds : phase state) (access : MemoryAccess) (address : Nat) :
    Safely configuration (access.access address) state fun _ final => phase final :=
  ensures_access access (stable.marks state holds) fun _ _ => stable.access state _ _ holds

theorem safely_followChain (stable : Stable phase) (holds : phase state) (access : MemoryAccess)
    (bound start stop : Nat) : Safely configuration (followChain access bound start stop) state fun _ final => phase final :=
  (ensures_whileLoop (fun _ state => phase state) trivial bound start state holds fun address _ holds _ =>
    safely_access stable holds access address).mono fun _ _ both => both.1

theorem safely_drawAddress (stable : Stable phase) (holds : phase state) {modulus level : Nat} (positive : 0 < modulus)
    (fewer : modulus ≤ configuration.pageTableEntries level) :
    Safely configuration (drawAddress modulus level) state fun address final =>
      InWindow configuration level address ∧ phase final :=
  ensures_drawAddress (stable.marks state holds) fun random => ⟨drawn_inWindow positive fewer random, holds⟩

/-- While nothing is exchanged, a pointer is read from the slot of the address itself. -/
theorem safely_readData (ready : Quiet state) {address : Nat} (below : address < complementaryBaseAddress) :
    Safely configuration (readData address) state fun value final => Pointer value ∧ Quiet final := by
  refine ensures_access .readData (stable_ready.marks state ready) fun slot inside => ?_
  rcases ready with ⟨memory, sound, calm⟩
  rw [calm.targets_eq, List.mem_singleton] at inside
  subst inside
  refine ⟨?_, memory, sound, calm.access _ _⟩
  rw [calm.memory_eq]
  exact sound.base _ (physicalSlot_lt below)

/-- Writing a pointer while nothing is exchanged. -/
theorem safely_writeData (ready : Quiet state) {address data : Nat} (below : address < complementaryBaseAddress)
    (pointer : Pointer data) : Safely configuration (writeData address data) state fun _ final => Quiet final := by
  refine ensures_writeData (stable_ready.marks state ready) fun slot inside => ?_
  rcases ready with ⟨memory, sound, calm⟩
  rw [calm.targets_eq, List.mem_singleton] at inside
  subst inside
  exact ⟨_, sound.store below pointer, calm.store _ _⟩

theorem safely_flush_ready (ready : Quiet state) :
    Safely configuration flushMmuCaches state fun _ final => Quiet final := by
  refine ensures_flushMmuCaches (stable_ready.marks state ready) ?_
  rcases ready with ⟨memory, sound, calm⟩
  exact ⟨memory, sound, calm.flush⟩

theorem safely_flush_restored (restored : Restored first second state) :
    Safely configuration flushMmuCaches state fun _ final => Quiet final := by
  refine ensures_flushMmuCaches ((stable_restored first second).marks state restored) ?_
  rcases restored with ⟨memory, sound, stale⟩
  exact ⟨memory, sound, stale.flush⟩

theorem safely_enter (ready : Quiet state) (user : StructureUser) (cache : TranslationCache) (level : Nat) :
    Safely configuration (enter user cache level) state fun _ final => Quiet final :=
  ensures_enter (stable_ready.marks state ready) ready

theorem safely_walkPageTable (ready : Quiet state) (address : Nat) :
    Safely configuration (walkPageTable address) state fun walk final => walk = walkTo address ∧ Quiet final := by
  have marks := stable_ready.marks state ready
  rcases ready with ⟨memory, sound, calm⟩
  exact ensures_walkPageTable calm.settled marks ⟨rfl, memory, sound, calm⟩

theorem safely_clearNx (ready : Quiet state) (walk : PageTableWalk) :
    Safely configuration (clearNx walk) state fun _ final => Quiet final :=
  ensures_clearNx (stable_ready.marks state ready) ready

theorem safely_walkPair (ready : Quiet state) (target complementary : Nat) :
    Safely configuration (walkPair target complementary) state fun walks final =>
      walks = (walkTo target, walkTo complementary) ∧ Quiet final := by
  have marks := stable_ready.marks state ready
  rcases ready with ⟨memory, sound, calm⟩
  exact ensures_walkPair calm.settled (fun _ _ => marks) (fun _ => marks) ⟨rfl, memory, sound, calm⟩

theorem safely_callHash (ready : Quiet state) (pointer : HashPointer) (target offset setBits level : Nat) :
    Safely configuration (callHash pointer target offset setBits level) state fun address final =>
      InWindow configuration level address ∧ Quiet final :=
  ensures_callHash (stable_ready.marks state ready) fun _ _ inside => ⟨inside, ready⟩

/-- The first exchange of an experiment. -/
theorem safely_switch_ready (ready : Quiet state) (level target complementary : Nat) :
    Safely configuration (switchLevel level (walkTo target, walkTo complementary)) state fun _ final =>
      Exposed ⟨level, entryOf level target⟩ ⟨level, entryOf level complementary⟩ final := by
  refine ensures_switchLevel (stable_ready.marks state ready) ?_
  rcases ready with ⟨memory, sound, calm⟩
  exact ⟨memory, sound, calm.exchange _ _⟩

/-- The second one. -/
theorem safely_switch_exposed {level target complementary : Nat}
    (exposed : Exposed ⟨level, entryOf level target⟩ ⟨level, entryOf level complementary⟩ state) :
    Safely configuration (switchLevel level (walkTo target, walkTo complementary)) state fun _ final =>
      Restored ⟨level, entryOf level target⟩ ⟨level, entryOf level complementary⟩ final := by
  refine ensures_switchLevel ((stable_exposed _ _).marks state exposed) ?_
  rcases exposed with ⟨memory, sound, opened⟩
  exact ⟨memory, sound, opened.exchange⟩

end Rules

/-! ## Chains -/

section Chains

variable {configuration : Configuration} {state : Paging} {level : Nat}

theorem safely_extendChain (windows : WindowsApart configuration) (isLevel : IsLevel level) (ready : Quiet state)
    {last : Nat} (inBase : InBase last) (link : Nat) :
    Safely configuration (extendChain configuration level last link) state fun iteration final =>
      ∃ last, (iteration = .next last ∨ iteration = .done last) ∧ InBase last ∧ Quiet final := by
  unfold extendChain
  split
  case isTrue inside =>
    have linkInBase := (insideWindow_inWindow inside).inBase windows isLevel
    exact ensures_then (safely_writeData ready inBase.2 linkInBase.pointer) fun _ _ ready =>
      ⟨link, Or.inl rfl, linkInBase, ready⟩
  case isFalse => exact ⟨last, Or.inr rfl, inBase, ready⟩

theorem safely_buildPointerChain (windows : WindowsApart configuration) (isLevel : IsLevel level) (ready : Quiet state)
    {start stop length : Nat} (inBase : InBase start) (pointer : Pointer stop) :
    Safely configuration (buildPointerChain configuration start stop length level) state fun _ final => Quiet final := by
  unfold buildPointerChain
  refine ensures_then (ensures_forRange_kept (fun last state => InBase last ∧ Quiet state) 0 length start state
    ⟨inBase, ready⟩ fun _ last state _ _ holds => safely_extendChain windows isLevel holds.2 holds.1 _) ?_
  rintro last middle ⟨lastInBase, ready⟩
  exact safely_writeData ready lastInBase.2 pointer

/-- The loop that the chain builders with a hash function share. -/
theorem safely_hashLoop (windows : WindowsApart configuration) (isLevel : IsLevel level) (ready : Quiet state)
    {first : Nat} (inBase : InBase first) (pointer : HashPointer) (start length setBits : Nat) :
    Safely configuration (forRange (fun i lastChainLink => do
      let chainLink ← callHash pointer start (i + 1) setBits level
      extendChain configuration level lastChainLink chainLink) 0 length first) state fun last final =>
        InBase last ∧ Quiet final := by
  refine ensures_forRange_kept (fun last state => InBase last ∧ Quiet state) 0 length first state
    ⟨inBase, ready⟩ fun index last state _ _ holds => ?_
  refine ensures_then (safely_callHash holds.2 pointer _ _ _ _) ?_
  rintro link middle ⟨_, ready⟩
  exact safely_extendChain windows isLevel ready holds.1 link

theorem safely_buildPointerChainFromHash (windows : WindowsApart configuration) (isLevel : IsLevel level)
    (ready : Quiet state) {start stop length setBits : Nat} {pointer : HashPointer} (inBase : InBase start)
    (endsAt : Pointer stop) :
    Safely configuration (buildPointerChainFromHash configuration start stop length pointer setBits level) state
      fun _ final => Quiet final := by
  unfold buildPointerChainFromHash
  refine ensures_then (safely_hashLoop windows isLevel ready inBase pointer start length setBits) ?_
  rintro last middle ⟨lastInBase, ready⟩
  exact safely_writeData ready lastInBase.2 endsAt

theorem safely_buildPointerChainFromHashSingle (windows : WindowsApart configuration) (isLevel : IsLevel level)
    (ready : Quiet state) {start stop length setBits : Nat} {pointer : HashPointer}
    (inWindow : InWindow configuration level start) (endsAt : Pointer stop) :
    Safely configuration (buildPointerChainFromHashSingle configuration start stop length pointer setBits level) state
      fun _ final => Quiet final := by
  have secondPage := inWindow.page windows isLevel (show 1 ≤ 512 by decide)
  unfold buildPointerChainFromHashSingle
  refine ensures_then (safely_writeData ready (inWindow.inBase windows isLevel).2 secondPage.pointer) ?_
  intro _ middle ready
  refine ensures_then (safely_hashLoop windows isLevel ready secondPage pointer start length setBits) ?_
  rintro last middle ⟨lastInBase, ready⟩
  exact safely_writeData ready lastInBase.2 endsAt

end Chains

/-! ## The parts that experiments share -/

section Parts

variable {configuration : Configuration} {state : Paging} {level target complementary : Nat}

/-- From one exchange to the next: a traversal and the final access. -/
theorem safely_look {α : Type} {post : α -> Paging -> Prop} (ready : Quiet state) (chain last : MemoryAccess)
    (bound start stop : Nat) {rest : Nat -> Kernel α}
    (holds : ∀ value final, Restored ⟨level, entryOf level target⟩ ⟨level, entryOf level complementary⟩ final ->
      Safely configuration (rest value) final post) :
    Safely configuration (do
      switchLevel level (walkTo target, walkTo complementary)
      let p ← followChain chain bound start stop
      let value ← last.access p
      switchLevel level (walkTo target, walkTo complementary)
      rest value) state post := by
  refine ensures_then (safely_switch_ready ready level target complementary) fun _ _ exposed => ?_
  refine ensures_then (safely_followChain (stable_exposed _ _) exposed chain bound start stop) fun p _ exposed => ?_
  refine ensures_then (safely_access (stable_exposed _ _) exposed last p) fun value _ exposed => ?_
  exact ensures_then (safely_switch_exposed exposed) fun _ final restored => holds value final restored

/-- The same without a traversal. -/
theorem safely_glance {α : Type} {post : α -> Paging -> Prop} (ready : Quiet state) (address : Nat)
    {rest : Nat -> Kernel α}
    (holds : ∀ value final, Restored ⟨level, entryOf level target⟩ ⟨level, entryOf level complementary⟩ final ->
      Safely configuration (rest value) final post) :
    Safely configuration (do
      switchLevel level (walkTo target, walkTo complementary)
      let value ← readData address
      switchLevel level (walkTo target, walkTo complementary)
      rest value) state post := by
  refine ensures_then (safely_switch_ready ready level target complementary) fun _ _ exposed => ?_
  refine ensures_then (safely_access (stable_exposed _ _) exposed .readData address) fun value _ exposed => ?_
  exact ensures_then (safely_switch_exposed exposed) fun _ final restored => holds value final restored

/-- The flush that ends an iteration. -/
theorem safely_finish {first second : EntryLocation} (restored : Restored first second state) (misses : Nat) :
    Safely configuration (do
      flushMmuCaches
      return Iteration.next misses) state fun iteration final =>
        ∃ value, (iteration = .next value ∨ iteration = .done value) ∧ Quiet final :=
  ensures_then (safely_flush_restored restored) fun _ _ ready => ⟨misses, Or.inl rfl, ready⟩

/-- An experiment is its iteration, many times. -/
theorem safely_iterations {body : Nat -> Nat -> Kernel (Iteration Nat)} (count : Nat) (ready : Quiet state)
    (step : ∀ index misses state, Quiet state -> Safely configuration (body index misses) state
      fun iteration final => ∃ value, (iteration = .next value ∨ iteration = .done value) ∧ Quiet final) :
    Safely configuration (forRange body 0 count 0) state fun _ final => Quiet final :=
  ensures_forRange_kept (fun _ state => Quiet state) 0 count 0 state ready
    fun index misses state _ _ ready => step index misses state ready

variable (windows : WindowsApart configuration) (isLevel : IsLevel level)

include windows isLevel

/-- A target of the level. -/
theorem safely_drawTarget {phase : Paging -> Prop} (stable : Stable phase) (holds : phase state) :
    Safely configuration (drawAddress (configuration.pageTableEntries level) level) state fun address final =>
      InWindow configuration level address ∧ phase final :=
  safely_drawAddress stable holds
    (Nat.lt_of_lt_of_le (windows.drawable level isLevel) (Nat.div_le_self _ _)) (Nat.le_refl _)

/-- A target with room for a chain above it. -/
theorem safely_drawStart (ready : Quiet state) :
    Safely configuration (drawAddress (drawableEntries configuration level) level) state fun address final =>
      InWindow configuration level address ∧ Quiet final :=
  safely_drawAddress stable_ready ready (windows.drawable level isLevel) (Nat.div_le_self _ _)

theorem prefixAligned_inBase {address : Nat} (inside : InWindow configuration level address) :
    InBase (prefixAligned address level) :=
  inside.page windows isLevel (by decide)

end Parts

end Talbot
