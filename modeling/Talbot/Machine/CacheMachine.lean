import Talbot.Foundations.Chain
import Talbot.Kernel.Module

namespace Talbot

/-!
A machine with translation caches, on which the kernel module's programs run.

The experiments exchange one page table entry of their level with the entry of
the complementary window.  What a later access through that entry sees depends
on whether the caches still hold the old translation; how they decide that is
left to a `TranslationModel`.
-/

open Foundations Program

/-- The translation caches as the experiments can observe them: what an access
does to them, and whether an address would still be translated the old way. -/
structure TranslationModel where
  State : Type
  empty : State
  access : State -> Nat -> State
  holds : State -> Nat -> Bool

/-- `memory` is what the slots of the base and huge windows hold, by address;
`complementary` is what the complementary slot of a base address holds. -/
structure Machine (model : TranslationModel) where
  memory : Nat -> Nat
  complementary : Nat -> Nat
  exchanged : Option Nat
  cached : model.State
  randoms : Nat -> Nat

namespace Machine

variable {model : TranslationModel}

/-- The machine as the user-space trigger leaves it: base and huge slots hold 0,
complementary slots hold `signal`. -/
def afterTrigger (model : TranslationModel) (randoms : Nat -> Nat) : Machine model where
  memory _ := 0
  complementary _ := signal
  exchanged := none
  cached := model.empty
  randoms := randoms

/-- Whether an access to the address ends in the complementary window: its
entry is exchanged and the old translation is gone. -/
def diverted (level : Nat) (machine : Machine model) (address : Nat) : Bool :=
  machine.exchanged == some (entryOf level address) && !model.holds machine.cached address

def content (level : Nat) (machine : Machine model) (address : Nat) : Nat :=
  if machine.diverted level address then machine.complementary address else machine.memory address

/-- Every access looks the address up and fills the caches. -/
def touch (machine : Machine model) (address : Nat) : Machine model :=
  { machine with cached := model.access machine.cached address }

def store (level : Nat) (machine : Machine model) (address data : Nat) : Machine model :=
  if machine.diverted level address then
    { machine with complementary := Function.update machine.complementary address data }
  else { machine with memory := Function.update machine.memory address data }

/-- The entry is exchanged with the complementary one. -/
def swap (machine : Machine model) (entry : Nat) : Machine model :=
  { machine with exchanged := some entry }

/-- No entry is exchanged any more. -/
def restore (machine : Machine model) : Machine model :=
  { machine with exchanged := none }

/-- Exchanging the entries of two addresses of the level, or undoing it. -/
def exchange (level : Nat) (machine : Machine model) : Option EntryLocation -> Option EntryLocation ->
    Option (Machine model)
  | some first, some second =>
      if first.level = level ∧ second.level = level then
        match machine.exchanged with
        | none => some (machine.swap first.index)
        | some _ => some machine.restore
      else none
  | _, _ => none

def flush (machine : Machine model) : Machine model :=
  { machine with cached := model.empty }

/-- One operation of the kernel module.  Calling a hash function through an
unset pointer faults; the operations on CR3 belong to experiments that this
machine does not run. -/
def handle (level : Nat) : Handler kernelInterface (Machine model)
  | .readData address, machine => some (machine.content level address, machine.touch address)
  | .fetchInstruction address, machine => some (machine.content level address, machine.touch address)
  | .writeData address data, machine => some ((), (machine.store level address data).touch address)
  | .walkPageTable address, machine =>
      some (⟨fun level => some ⟨level, entryOf level address⟩⟩, machine)
  | .clearNx _, machine => some ((), machine)
  | .switchPageTableEntries first second, machine =>
      (machine.exchange level first second).map fun machine => ((), machine)
  | .flushMmuCaches, machine => some ((), machine.flush)
  | .getCr3, _ => none
  | .setCr3 _, _ => none
  | .getRandomLong, machine =>
      some (machine.randoms 0, { machine with randoms := fun n => machine.randoms (n + 1) })
  | .kmalloc, machine => some (fun _ => 0, machine)
  | .callHash (.to hash) target offset setBits level, machine =>
      some (hash.apply target offset setBits level, machine)
  | .callHash _ _ _ _ _, _ => none
  | .enter _ _ _, machine => some ((), machine)

/-- Accessing several addresses, in order. -/
def touchAll (machine : Machine model) (addresses : List Nat) : Machine model :=
  { machine with cached := addresses.foldl model.access machine.cached }

/-! ## One rule for each operation -/

section Operations

variable {level : Nat} {machine : Machine model}

@[simp] theorem returns_readData {address : Nat} {post : Nat -> Machine model -> Prop} :
    Returns (handle level) (readData address) machine post ↔
      post (machine.content level address) (machine.touch address) :=
  (returns_call rfl).trans (returns_ret _)

@[simp] theorem returns_fetchInstruction {address : Nat} {post : Nat -> Machine model -> Prop} :
    Returns (handle level) (fetchInstruction address) machine post ↔
      post (machine.content level address) (machine.touch address) :=
  (returns_call rfl).trans (returns_ret _)

@[simp] theorem returns_access (access : MemoryAccess) {address : Nat}
    {post : Nat -> Machine model -> Prop} :
    Returns (handle level) (access.access address) machine post ↔
      post (machine.content level address) (machine.touch address) := by
  cases access with
  | readData => exact returns_readData
  | fetchInstruction => exact returns_fetchInstruction

@[simp] theorem returns_writeData {address data : Nat} {post : Unit -> Machine model -> Prop} :
    Returns (handle level) (writeData address data) machine post ↔
      post () ((machine.store level address data).touch address) :=
  (returns_call rfl).trans (returns_ret _)

@[simp] theorem returns_flushMmuCaches {post : Unit -> Machine model -> Prop} :
    Returns (handle level) flushMmuCaches machine post ↔
      post () machine.flush :=
  (returns_call rfl).trans (returns_ret _)

@[simp] theorem returns_getRandomLong {post : Nat -> Machine model -> Prop} :
    Returns (handle level) getRandomLong machine post ↔
      post (machine.randoms 0) { machine with randoms := fun n => machine.randoms (n + 1) } :=
  (returns_call rfl).trans (returns_ret _)

@[simp] theorem returns_kmalloc {post : (Nat -> Nat) -> Machine model -> Prop} :
    Returns (handle level) kmalloc machine post ↔ post (fun _ => 0) machine :=
  (returns_call rfl).trans (returns_ret _)

@[simp] theorem returns_callHash {hash : HashFunction} {target offset setBits hashLevel : Nat}
    {post : Nat -> Machine model -> Prop} :
    Returns (handle level) (callHash (.to hash) target offset setBits hashLevel) machine post ↔
      post (hash.apply target offset setBits hashLevel) machine :=
  (returns_call rfl).trans (returns_ret _)

/-- Programs that only call hash functions leave the machine as it is. -/
theorem returns_of_evaluates {α : Type} {program : Kernel α} {value : α} (evaluates : Evaluates program value)
    {post : α -> Machine model -> Prop} (holds : post value machine) : Returns (handle level) program machine post := by
  induction evaluates with
  | ret value => exact (returns_ret _).mpr holds
  | callHash _ inductionHypothesis => exact (returns_call rfl).mpr (inductionHypothesis holds)

@[simp] theorem returns_enter {user : StructureUser} {cache : TranslationCache} {cacheLevel : Nat}
    {post : Unit -> Machine model -> Prop} :
    Returns (handle level) (enter user cache cacheLevel) machine post ↔ post () machine :=
  (returns_call rfl).trans (returns_ret _)

@[simp] theorem returns_drawAddress {modulus drawLevel : Nat} {post : Nat -> Machine model -> Prop} :
    Returns (handle level) (drawAddress modulus drawLevel) machine post ↔
      post (baseAddress + ((machine.randoms 0 % modulus) <<< pageTableIndexShift drawLevel))
        { machine with randoms := fun n => machine.randoms (n + 1) } := by
  unfold drawAddress
  rw [returns_bind, returns_getRandomLong]
  exact returns_ret _

@[simp] theorem returns_walkPageTable {address : Nat} {post : PageTableWalk -> Machine model -> Prop} :
    Returns (handle level) (walkPageTable address) machine post ↔
      post ⟨fun level => some ⟨level, entryOf level address⟩⟩ machine :=
  (returns_call rfl).trans (returns_ret _)

@[simp] theorem returns_clearNx {walk : PageTableWalk} {post : Unit -> Machine model -> Prop} :
    Returns (handle level) (clearNx walk) machine post ↔ post () machine :=
  (returns_call rfl).trans (returns_ret _)

/-- The walks to a target and to its complementary address. -/
def walksTo (target complementary : Nat) : PageTableWalk × PageTableWalk :=
  (⟨fun level => some ⟨level, entryOf level target⟩⟩,
    ⟨fun level => some ⟨level, entryOf level complementary⟩⟩)

@[simp] theorem returns_walkPair {target complementary : Nat}
    {post : PageTableWalk × PageTableWalk -> Machine model -> Prop} :
    Returns (handle level) (walkPair target complementary) machine post ↔
      post (walksTo target complementary) machine := by
  unfold walkPair
  simp only [returns_bind, returns_walkPageTable, returns_clearNx]
  exact returns_ret _

/-- Exchanging the entry of the target. -/
theorem returns_switchLevel_idle {target complementary : Nat} {post : Unit -> Machine model -> Prop}
    (idle : machine.exchanged = none) :
    Returns (handle level) (switchLevel level (walksTo target complementary)) machine post ↔
      post () (machine.swap (entryOf level target)) := by
  have handled : handle level (.switchPageTableEntries (some ⟨level, entryOf level target⟩)
      (some ⟨level, entryOf level complementary⟩)) machine =
      some ((), machine.swap (entryOf level target)) := by
    simp only [handle, exchange, and_self, if_true, idle, Option.map_some]
  exact (returns_call handled).trans (returns_ret _)

/-- Exchanging it back. -/
theorem returns_switchLevel_back {target complementary entry : Nat} {post : Unit -> Machine model -> Prop}
    (exchanged : machine.exchanged = some entry) :
    Returns (handle level) (switchLevel level (walksTo target complementary)) machine post ↔
      post () machine.restore := by
  have handled : handle level (.switchPageTableEntries (some ⟨level, entryOf level target⟩)
      (some ⟨level, entryOf level complementary⟩)) machine =
      some ((), machine.restore) := by
    simp only [handle, exchange, and_self, if_true, exchanged, Option.map_some]
  exact (returns_call handled).trans (returns_ret _)

end Operations

end Machine
end Talbot
