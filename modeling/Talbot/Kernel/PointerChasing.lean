import Talbot.Kernel.Operations

namespace Talbot

/-!
The chain builders of `pointer_chasing.c`.

Each builder carries the last link it wrote through its loop and leaves the
loop at the first link outside the base window; the end address then closes
whatever has been built.
-/

open Foundations Program

section PointerChasing

variable (configuration : Configuration)

/-- Write one link and make it the last one, or leave the loop. -/
def extendChain (level lastChainLink chainLink : Nat) : Kernel (Iteration Nat) :=
  if insideWindow configuration level chainLink then do
    writeData lastChainLink chainLink
    return .next chainLink
  else return .done lastChainLink

def buildPointerChain (startAddress endAddress length level : Nat) : Kernel Unit := do
  let lastChainLink ← forRange (fun i lastChainLink =>
    extendChain configuration level lastChainLink
      (startAddress + ((i + 1) <<< pageTableIndexShift level))) 0 length startAddress
  writeData lastChainLink endAddress

/-- The links of a huge chain move through the page in steps of 16 bytes, the size
of a record, so that they stay apart in the one physical page that all huge pages
share. -/
def buildHugeChain (startAddress endAddress length level : Nat) : Kernel Unit := do
  let (_, lastChainLink) ← forRange (fun i (pageOffset, lastChainLink) => do
    let chainLink := startAddress + ((i + 1) <<< pageTableIndexShift level) + pageOffset
    writeData lastChainLink chainLink
    return .next (pageOffset + 16, chainLink)) 0 length (0, startAddress)
  writeData lastChainLink endAddress

def buildPointerChainFromHash (startAddress endAddress length : Nat) (hashFunction : HashPointer)
    (setBits level : Nat) : Kernel Unit := do
  let lastChainLink ← forRange (fun i lastChainLink => do
    let chainLink ← callHash hashFunction startAddress (i + 1) setBits level
    extendChain configuration level lastChainLink chainLink) 0 length startAddress
  writeData lastChainLink endAddress

/-- As above, with the second page of the first entry as an additional link
before all others. -/
def buildPointerChainFromHashSingle (startAddress endAddress length : Nat)
    (hashFunction : HashPointer) (setBits level : Nat) : Kernel Unit := do
  writeData startAddress (startAddress + (0x1 <<< pageTableIndexShift (level - 1)))
  let lastChainLink ← forRange (fun i lastChainLink => do
    let chainLink ← callHash hashFunction startAddress (i + 1) setBits level
    extendChain configuration level lastChainLink chainLink) 0 length
    (startAddress + (0x1 <<< pageTableIndexShift (level - 1)))
  writeData lastChainLink endAddress

end PointerChasing

end Talbot
