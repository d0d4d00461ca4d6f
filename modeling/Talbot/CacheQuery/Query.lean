import Talbot.Kernel.Replacement

namespace Talbot
namespace CacheQuery

/-!
The query of the CacheQuery module (`query.c`).

Its helpers for paging, memory accesses and hash functions are copies of the
ones in the Talbot module, so the programs below use the same operations.
Letters are the bytes of the query string.
-/

open Foundations Program

/-- `LEVEL` -/
def queryLevel : Nat := 2

/-- `SET_BITS` -/
def querySetBits : Nat := 3

/-- `WAYS` -/
def queryWays : Nat := 4

/-- `static HashFunction hash` -/
def hash : HashPointer := .to .linShiftHash

structure AddressMapEntry where
  letter : Nat
  address : Nat
  deriving DecidableEq, Repr

abbrev AddressMap : Type :=
  List AddressMapEntry

def addressMapContainsLetter (letter : Nat) (map : AddressMap) : Bool :=
  map.any fun entry => entry.letter == letter

section Query

variable (configuration : Configuration)

/-- The map is searched from its last entry to its first one. -/
def getNextAddress (letter : Nat) (map : AddressMap) (amountUniqueLetters : Nat) : Kernel Nat :=
  match map with
  | [] => drawAddress (drawableEntries configuration queryLevel) queryLevel
  | first :: _ =>
      match map.reverse.find? fun entry => entry.letter == letter with
      | some entry => return entry.address + (0x1 <<< pageTableIndexShift (queryLevel - 1))
      | none => callHash hash first.address (amountUniqueLetters - 1) querySetBits queryLevel

/-- `for` every letter: note it if it is new, and append its next address. -/
def mapLetters : List Nat -> List Nat × AddressMap -> Kernel (List Nat × AddressMap)
  | [], state => return state
  | letter :: rest, (uniqueLetters, map) => do
      let uniqueLetters :=
        if addressMapContainsLetter letter map then uniqueLetters else uniqueLetters ++ [letter]
      let address ← getNextAddress configuration letter map uniqueLetters.length
      mapLetters rest (uniqueLetters, map ++ [⟨letter, address⟩])

/-- Link every entry to the next one; the result is the last link. -/
def linkEntries : Nat -> AddressMap -> Kernel Nat
  | lastChainLink, [] => return lastChainLink
  | lastChainLink, entry :: rest => do
      writeData lastChainLink entry.address
      linkEntries entry.address rest

/-- The address of the first entry; `query_cache` only builds chains of non-empty maps. -/
def firstAddress (map : AddressMap) : Nat :=
  (map.map AddressMapEntry.address).headD 0

def buildChainFromAddressMap (map : AddressMap) (target : Nat) : Kernel Unit := do
  let lastChainLink ← linkEntries (firstAddress map) map.tail
  writeData lastChainLink target

/-- The first address that the map has for a letter.  The source keeps its
previous target if there is none. -/
def targetOf (letter : Nat) (map : AddressMap) (previous : Nat) : Nat :=
  match map.find? fun entry => entry.letter == letter with
  | some entry => entry.address
  | none => previous

/-- One iteration of the measurement of a letter: the chain of the whole query is
followed, and then the page that the letter is probed with is read after the
exchange. -/
def replayQuery (bound : Nat) (map : AddressMap) (prefixAlignedAddress : Nat)
    (walks : PageTableWalk × PageTableWalk) (misses : Nat) : Kernel Nat := do
  flushMmuCaches
  warmUp configuration queryLevel (queryWays * (1 <<< querySetBits) * 4)
  let p ← readData (firstAddress map)
  let p ← followChain .readData bound p prefixAlignedAddress
  switchLevel queryLevel walks
  let value ← readData p
  switchLevel queryLevel walks
  return countMiss value misses

def probeLetter (bound : Nat) (map : AddressMap) (targetAddress : Nat) : Kernel Nat := do
  let prefixAlignedAddress := prefixAligned targetAddress queryLevel
  let walks ← walkPair targetAddress (complementaryOf targetAddress)
  buildChainFromAddressMap map prefixAlignedAddress
  forRange (fun _ misses => do
    let misses ← replayQuery configuration bound map prefixAlignedAddress walks misses
    return .next misses) 0 iterations 0

/-- The loop over the letters, with the array of the report, its length and the
last target. -/
def probeLetters (bound : Nat) (map : AddressMap) :
    List Nat -> (Nat -> Nat) × Nat × Nat -> Kernel ((Nat -> Nat) × Nat × Nat)
  | [], state => return state
  | letter :: rest, (finalState, finalStateLength, previous) => do
      let targetAddress := targetOf letter map previous
      let misses ← probeLetter configuration bound map targetAddress
      if reachesThreshold misses iterations then
        probeLetters bound map rest (finalState, finalStateLength, targetAddress)
      else
        probeLetters bound map rest
          (Function.update finalState finalStateLength letter, finalStateLength + 1, targetAddress)

/-- `finalState` is the array of the report as `kmalloc` hands it out; the result
is the same array with the report and its terminator. -/
def queryCache (bound : Nat) (finalState : Nat -> Nat) (query : List Nat) : Kernel (Nat -> Nat) := do
  let (uniqueLetters, map) ← mapLetters configuration query ([], [])
  let (finalState, finalStateLength, _) ← probeLetters configuration bound map uniqueLetters (finalState, 0, 0)
  return Function.update finalState finalStateLength 0

end Query

end CacheQuery
end Talbot
