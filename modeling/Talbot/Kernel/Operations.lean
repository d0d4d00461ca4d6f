import Talbot.Foundations.Program
import Talbot.HashFunctions

namespace Talbot

/-!
The operations that the kernel module performs on the machine, and the data
they pass around.

Only operations with an effect on memory, page tables, translation caches or
control flow appear.  `fence`, `claim_cpu`, `release_cpu`, `disable_smep`,
`printk` and `kfree` order or protect these effects and have no response of
their own, so the programs leave them out.
-/

open Foundations

/-- Where a page table entry is stored.  Entries of a level are numbered by the
addresses that they translate while nothing is exchanged. -/
structure EntryLocation where
  level : Nat
  index : Nat
  deriving DecidableEq, Repr

/-- `struct page_table_walk`: one pointer per level, unset where the walk
stopped above it. -/
structure PageTableWalk where
  pageTableEntries : Nat -> Option EntryLocation

/-- A `HashFunction` variable.  A local that is never assigned holds whatever
the stack held before: zero, one of the hashes, or some other word. -/
inductive HashPointer where
  | null
  | garbage (word : Nat)
  | to (hash : HashFunction)
  deriving DecidableEq, Repr

/-- `struct translation_cache`. -/
structure TranslationCache where
  setBits : Nat
  ways : Nat
  hashFunction : HashPointer
  deriving DecidableEq, Repr

/-- The functions of the source that are handed a structure and rely on its
`set_bits` and `ways`. -/
inductive StructureUser where
  | evictionSetAlignsWithHashFunction
  | calculatePermutationVectors
  | determineReplacementOrder
  | testNesting
  deriving DecidableEq, Repr

inductive KernelOp where
  | readData (address : Nat)
  | fetchInstruction (address : Nat)
  | writeData (address data : Nat)
  | walkPageTable (address : Nat)
  | clearNx (walk : PageTableWalk)
  | switchPageTableEntries (first second : Option EntryLocation)
  | flushMmuCaches
  | getCr3
  | setCr3 (value : Nat)
  | getRandomLong
  /-- A fresh array of words; the response is what it holds before any write. -/
  | kmalloc
  /-- A call through a function pointer. -/
  | callHash (pointer : HashPointer) (targetAddress offset setBits level : Nat)
  /-- Marks that a function starts to use a structure.  It has no effect on the
  machine; it makes the use visible among the issued operations. -/
  | enter (user : StructureUser) (cache : TranslationCache) (level : Nat)

@[reducible] def KernelOp.Response : KernelOp -> Type
  | readData _ => Nat
  | fetchInstruction _ => Nat
  | writeData _ _ => Unit
  | walkPageTable _ => PageTableWalk
  | clearNx _ => Unit
  | switchPageTableEntries _ _ => Unit
  | flushMmuCaches => Unit
  | getCr3 => Nat
  | setCr3 _ => Unit
  | getRandomLong => Nat
  | kmalloc => Nat -> Nat
  | callHash _ _ _ _ _ => Nat
  | enter _ _ _ => Unit

@[reducible] def kernelInterface : Interface where
  Op := KernelOp
  Response := KernelOp.Response

/-- A function of the kernel module. -/
abbrev Kernel (α : Type) : Type :=
  Program kernelInterface α

def readData (address : Nat) : Kernel Nat :=
  .call (KernelOp.readData address) .ret

def fetchInstruction (address : Nat) : Kernel Nat :=
  .call (KernelOp.fetchInstruction address) .ret

def writeData (address data : Nat) : Kernel Unit :=
  .call (KernelOp.writeData address data) .ret

def walkPageTable (address : Nat) : Kernel PageTableWalk :=
  .call (KernelOp.walkPageTable address) .ret

def clearNx (walk : PageTableWalk) : Kernel Unit :=
  .call (KernelOp.clearNx walk) .ret

def switchPageTableEntries (first second : Option EntryLocation) : Kernel Unit :=
  .call (KernelOp.switchPageTableEntries first second) .ret

def flushMmuCaches : Kernel Unit :=
  .call KernelOp.flushMmuCaches .ret

def getCr3 : Kernel Nat :=
  .call KernelOp.getCr3 .ret

def setCr3 (value : Nat) : Kernel Unit :=
  .call (KernelOp.setCr3 value) .ret

def getRandomLong : Kernel Nat :=
  .call KernelOp.getRandomLong .ret

def kmalloc : Kernel (Nat -> Nat) :=
  .call KernelOp.kmalloc .ret

def callHash (pointer : HashPointer) (targetAddress offset setBits level : Nat) : Kernel Nat :=
  .call (KernelOp.callHash pointer targetAddress offset setBits level) .ret

def enter (user : StructureUser) (cache : TranslationCache) (level : Nat) : Kernel Unit :=
  .call (KernelOp.enter user cache level) .ret

/-- `unsigned long (*access_memory)(volatile unsigned long)`. -/
inductive MemoryAccess where
  | readData
  | fetchInstruction
  deriving DecidableEq, Repr

def MemoryAccess.access : MemoryAccess -> Nat -> Kernel Nat
  | readData, address => Talbot.readData address
  | fetchInstruction, address => Talbot.fetchInstruction address

/-- `while(p != stop) p = access(p);`. The bound is the fuel of the loop; a program
that runs out of it is stuck, so whatever is shown to return has had enough. -/
def followChain (access : MemoryAccess) (bound start stop : Nat) : Kernel Nat :=
  Program.whileLoop (fun p => p != stop) access.access bound start

@[simp] theorem followChain_stop {access : MemoryAccess} {bound stop : Nat} :
    followChain access bound stop stop = .ret stop :=
  Program.whileLoop_stop (bne_self_eq_false stop)

theorem followChain_next {access : MemoryAccess} {bound start stop : Nat} (different : start ≠ stop) :
    followChain access (bound + 1) start stop = access.access start >>= fun p => followChain access bound p stop :=
  Program.whileLoop_next (bne_iff_ne.mpr different)

/-- `BASE_ADDRESS + (get_random_long() % modulus) << PAGE_TABLE_INDEX_SHIFT[level]`. -/
def drawAddress (modulus level : Nat) : Kernel Nat := do
  let random ← getRandomLong
  return baseAddress + ((random % modulus) <<< pageTableIndexShift level)

def prefixAligned (targetAddress level : Nat) : Nat :=
  targetAddress + (0x1ff <<< pageTableIndexShift (level - 1))

def complementaryOf (targetAddress : Nat) : Nat :=
  complementaryBaseAddress + (targetAddress - baseAddress)

/-- Walk to the target and to its complementary address, then clear both. -/
def walkPair (targetAddress complementaryAddress : Nat) :
    Kernel (PageTableWalk × PageTableWalk) := do
  let targetWalk ← walkPageTable targetAddress
  let complementaryWalk ← walkPageTable complementaryAddress
  clearNx targetWalk
  clearNx complementaryWalk
  return (targetWalk, complementaryWalk)

def switchLevel (level : Nat) (walks : PageTableWalk × PageTableWalk) : Kernel Unit :=
  switchPageTableEntries (walks.1.pageTableEntries level) (walks.2.pageTableEntries level)

/-- `if(value == SIGNAL) misses += 1;` -/
def countMiss (value misses : Nat) : Nat :=
  if value = signal then misses + 1 else misses

/-- The program calls hash functions and nothing else, and returns the value.  Calls
through an unset pointer do not evaluate to anything. -/
inductive Evaluates {α : Type} : Kernel α -> α -> Prop where
  | ret (value : α) : Evaluates (.ret value) value
  | callHash {hash : HashFunction} {target offset setBits level : Nat} {next : Nat -> Kernel α} {value : α}
      (rest : Evaluates (next (hash.apply target offset setBits level)) value) :
      Evaluates (.call (.callHash (.to hash) target offset setBits level) next) value

theorem Evaluates.bind {α β : Type} {program : Kernel α} {continuation : α -> Kernel β} {value : α} {result : β}
    (first : Evaluates program value) (second : Evaluates (continuation value) result) :
    Evaluates (program >>= continuation) result := by
  induction first with
  | ret value => exact second
  | callHash rest inductionHypothesis => exact .callHash (inductionHypothesis second)

end Talbot
