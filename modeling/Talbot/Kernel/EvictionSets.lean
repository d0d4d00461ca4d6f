import Talbot.Kernel.PointerChasing

namespace Talbot

/-!
The eviction set search of `eviction_sets.c`.

Both searches use the measurement `chain_evicts` and nothing else about the
caches, so they take it as an argument; the functions under the source's names
pass the real measurement.
-/

open Foundations Program

section EvictionSets

variable (configuration : Configuration)

/-- One iteration of `chain_evicts`; `bound` limits the traversal of the chain,
see `followChain`. -/
def probeChain (bound targetAddress prefixAlignedAddress level : Nat) (accessMemory : MemoryAccess)
    (complementaryWalk : PageTableWalk) (misses : Nat) : Kernel Nat := do
  let targetWalk ← walkPageTable targetAddress
  clearNx targetWalk
  flushMmuCaches
  let p ← accessMemory.access targetAddress
  switchLevel level (targetWalk, complementaryWalk)
  let p ← followChain accessMemory bound p prefixAlignedAddress
  let value ← accessMemory.access p
  switchLevel level (targetWalk, complementaryWalk)
  flushMmuCaches
  return countMiss value misses

def chainEvicts (bound targetAddress prefixAlignedAddress level : Nat)
    (accessMemory : MemoryAccess) : Kernel Bool := do
  let complementaryWalk ← walkPageTable (complementaryOf targetAddress)
  clearNx complementaryWalk
  let misses ← forRange (fun _ misses => do
    let misses ← probeChain bound targetAddress prefixAlignedAddress level accessMemory complementaryWalk misses
    return .next misses) 0 iterations 0
  return reachesThreshold misses iterations

/-- The measurement as the searches call it: target, prefix-aligned address
and level. -/
abbrev ChainMeasurement : Type :=
  Nat -> Nat -> Nat -> Kernel Bool

/-- What a deletion loop carries: where it writes the next link, and the size
it counted. -/
structure DeletionState where
  lastMandatoryAddress : Nat
  size : Nat

/-- The loop that tries longer and longer chains; it ends with the length it
reached. -/
def growChain (chainEvicts : ChainMeasurement) (targetAddress level : Nat) : Kernel Nat :=
  let prefixAlignedAddress := prefixAligned targetAddress level
  forRange (fun length _ => do
    buildPointerChain configuration targetAddress prefixAlignedAddress length level
    if ← chainEvicts targetAddress prefixAlignedAddress level then return .done length
    else return .next (length + 1)) 2 (512 - 2) 2

/-- The loop that leaves out one link after the other and puts back those
without which the chain stops evicting. -/
def deleteLinks (chainEvicts : ChainMeasurement) (targetAddress level length : Nat) :
    Kernel DeletionState :=
  let prefixAlignedAddress := prefixAligned targetAddress level
  forRange (fun i (state : DeletionState) => do
    writeData state.lastMandatoryAddress
      (targetAddress + ((i + 1) <<< pageTableIndexShift level))
    if !(← chainEvicts targetAddress prefixAlignedAddress level) then
      writeData state.lastMandatoryAddress (targetAddress + (i <<< pageTableIndexShift level))
      return .next {
        lastMandatoryAddress := targetAddress + (i <<< pageTableIndexShift level) +
          (0x1 <<< pageTableIndexShift (level - 1))
        size := state.size + 1 }
    else return .next state) 1 (length - 1) { lastMandatoryAddress := targetAddress, size := 2 }

/-- Where the source returns `-1` there is no size. -/
def findMinimalEvictionSetWith (chainEvicts : ChainMeasurement) (targetAddress level : Nat) :
    Kernel (Option Nat) := do
  let prefixAlignedAddress := prefixAligned targetAddress level
  let length ← growChain configuration chainEvicts targetAddress level
  if !(← chainEvicts targetAddress prefixAlignedAddress level) then
    return none
  let final ← deleteLinks chainEvicts targetAddress level length
  return some final.size

/-- The deletion loop of the alignment check: it compares every link that it has
to keep with the next address the hash function enumerates.  The state `none`
stands for the early `return 0`. -/
def compareLinks (chainEvicts : ChainMeasurement) (targetAddress level : Nat) (hash : HashPointer)
    (setBits length : Nat) : Kernel (Option DeletionState) :=
  let prefixAlignedAddress := prefixAligned targetAddress level
  forRange (fun i (state : Option DeletionState) =>
    match state with
    | none => return .done none
    | some state => do
        writeData state.lastMandatoryAddress
          (targetAddress + ((i + 1) <<< pageTableIndexShift level))
        if !(← chainEvicts targetAddress prefixAlignedAddress level) then
          let member ← callHash hash targetAddress (state.size - 1) setBits level
          if member ≠ targetAddress + (i <<< pageTableIndexShift level) then
            return .done none
          writeData state.lastMandatoryAddress (targetAddress + (i <<< pageTableIndexShift level))
          return .next (some {
            lastMandatoryAddress := targetAddress + (i <<< pageTableIndexShift level) +
              (0x1 <<< pageTableIndexShift (level - 1))
            size := state.size + 1 })
        else return .next (some state)) 1 (length - 1)
    (some { lastMandatoryAddress := targetAddress, size := 2 })

def evictionSetAlignsWithHashFunctionWith (chainEvicts : ChainMeasurement)
    (targetAddress level : Nat) (hash : HashPointer) (setBits ways : Nat) : Kernel Bool := do
  enter .evictionSetAlignsWithHashFunction ⟨setBits, ways, hash⟩ level
  let prefixAlignedAddress := prefixAligned targetAddress level
  let length := (1 <<< setBits) * ways
  buildPointerChain configuration targetAddress prefixAlignedAddress length level
  if !(← chainEvicts targetAddress prefixAlignedAddress level) then
    return hash == .null
  match ← compareLinks chainEvicts targetAddress level hash setBits length with
  | none => return false
  | some state => return state.size == ways + 1

def findMinimalEvictionSet (bound targetAddress level : Nat) (accessMemory : MemoryAccess) :
    Kernel (Option Nat) :=
  findMinimalEvictionSetWith configuration
    (fun target prefixAlignedAddress level =>
      chainEvicts bound target prefixAlignedAddress level accessMemory) targetAddress level

def evictionSetAlignsWithHashFunction (bound targetAddress level : Nat)
    (accessMemory : MemoryAccess) (hash : HashPointer) (setBits ways : Nat) : Kernel Bool :=
  evictionSetAlignsWithHashFunctionWith configuration
    (fun target prefixAlignedAddress level =>
      chainEvicts bound target prefixAlignedAddress level accessMemory)
    targetAddress level hash setBits ways

end EvictionSets

end Talbot
