import Talbot.Kernel.PointerChasing

namespace Talbot

/-!
The experiments of `experiments.c`.

Every experiment repeats one pattern: prepare a chain, flush, access the target
so that its translation is cached, exchange the target's page table entry with
the complementary one, access more addresses, and read once more through the
exchanged entry.  Seeing `signal` there means that the cached translation is
gone.  The entries are exchanged back before the next iteration.

`bound` limits every traversal of a chain; see `followChain`.
-/

open Foundations Program

section Experiments

variable (configuration : Configuration)

/-- The number of entries that start addresses are drawn from, so that there
is room for a chain above each of them: `PAGE_TABLE_ENTRIES[level] / (1 << (7 - level))`. -/
def drawableEntries (level : Nat) : Nat :=
  configuration.pageTableEntries level / (1 <<< (7 - level))

def testCacheExistence (level : Nat) : Kernel Nat :=
  forRange (fun _ misses => do
    let targetAddress ← drawAddress (configuration.pageTableEntries level) level
    let prefixAlignedAddress := prefixAligned targetAddress level
    let walks ← walkPair targetAddress (complementaryOf targetAddress)
    writeData targetAddress prefixAlignedAddress
    flushMmuCaches
    let p ← readData targetAddress
    switchLevel level walks
    let value ← readData p
    switchLevel level walks
    flushMmuCaches
    return .next (countMiss value misses)) 0 iterations 0

/-- The two split-layer experiments differ only in which side fetches
instructions: the target or the chain. -/
def testSplitLayer (bound level : Nat) (accessTarget accessChain : MemoryAccess) : Kernel Nat :=
  forRange (fun _ misses => do
    let targetAddress ← drawAddress (configuration.pageTableEntries level) level
    let prefixAlignedAddress := prefixAligned targetAddress level
    let walks ← walkPair targetAddress (complementaryOf targetAddress)
    buildPointerChain configuration targetAddress prefixAlignedAddress maximumEntries level
    flushMmuCaches
    let _ ← forRange (fun _ _ => do
      let address ← drawAddress (configuration.pageTableEntries level) level
      let _ ← readData address
      return .next ()) 0 128 ()
    let p ← accessTarget.access targetAddress
    switchLevel level walks
    let p ← followChain accessChain bound p prefixAlignedAddress
    let value ← accessTarget.access p
    switchLevel level walks
    flushMmuCaches
    return .next (countMiss value misses)) 0 iterations 0

def testSplitLayerInstructions (bound level : Nat) : Kernel Nat :=
  testSplitLayer configuration bound level .fetchInstruction .readData

def testSplitLayerData (bound level : Nat) : Kernel Nat :=
  testSplitLayer configuration bound level .readData .fetchInstruction

def testSharedLayer (level : Nat) : Kernel Nat :=
  forRange (fun _ misses => do
    let targetAddress ← drawAddress (configuration.pageTableEntries level) level
    let walks ← walkPair targetAddress (complementaryOf targetAddress)
    writeData targetAddress (prefixAligned targetAddress level)
    flushMmuCaches
    let p ← fetchInstruction targetAddress
    switchLevel level walks
    let value ← readData p
    switchLevel level walks
    flushMmuCaches
    return .next (countMiss value misses)) 0 iterations 0

/-- One pass of `test_hash_function`'s inner loop, for one member of the set:
access the whole chain, then look at that member.  The loop ends at the first
member that misses. -/
def probeMember (bound ways setBits : Nat) (hashFunction : HashPointer) (level startAddress j misses : Nat) :
    Kernel (Iteration Nat) := do
  let targetAddress ← callHash hashFunction startAddress j setBits level
  if windowEnd configuration level ≤ targetAddress then
    return .next misses
  let prefixAlignedAddress := prefixAligned targetAddress level
  let walks ← walkPair targetAddress (complementaryOf targetAddress)
  buildPointerChainFromHash configuration startAddress prefixAlignedAddress ways hashFunction
    setBits level
  flushMmuCaches
  let p ← readData startAddress
  let p ← followChain .readData bound p prefixAlignedAddress
  switchLevel level walks
  let value ← readData p
  if value = signal then
    switchLevel level walks
    flushMmuCaches
    return .done (misses + 1)
  switchLevel level walks
  flushMmuCaches
  return .next misses

def testHashFunction (bound ways setBits : Nat) (hashFunction : HashPointer) (level : Nat) :
    Kernel Nat :=
  forRange (fun _ misses => do
    let startAddress ← drawAddress (drawableEntries configuration level) level
    let misses ← forRange (fun j misses =>
      probeMember configuration bound ways setBits hashFunction level startAddress j misses)
      0 ways misses
    return .next misses) 0 iterations 0

/-- The target with everything below its upper entry cleared.  The chain of the
nesting test starts there, so that none of its links shares the upper entry of the
target. -/
def isolatedUpperLevelTarget (level targetAddress : Nat) : Nat :=
  targetAddress &&& ((2 ^ 64 - 1) ^^^ ((1 <<< pageTableIndexShift (level + 1)) - 1))

/-- Clearing the lower bits of an entry's address leaves its upper entry. -/
theorem isolated_eq {level entry : Nat} (isLevel : IsLevel level) (upperLevel : IsLevel (level + 1))
    (fits : pageAddress level entry 0 < 2 ^ 64) :
    isolatedUpperLevelTarget level (pageAddress level entry 0) = pageAddress (level + 1) (entry / 512) 0 := by
  have shift : pageTableIndexShift (level + 1) = pageTableIndexShift level + 9 :=
    pageTableIndexShift_succ upperLevel
  have shifted : pageAddress level entry 0 >>> pageTableIndexShift level = entry :=
    entryOf_pageAddress isLevel (by decide)
  rw [isolatedUpperLevelTarget, clear_low_eq _ fits, pageAddress_zero (level + 1), shift, Nat.shiftRight_add, shifted,
    Nat.shiftRight_eq_div_pow]

/-- The body of `test_nesting`'s loop: the chain evicts the upper entry of the
target, and the target itself is looked at on its own level. -/
def nestingIteration (bound level : Nat) (inclusive : TranslationCache) (misses : Nat) : Kernel Nat := do
  let targetAddress ← drawAddress (drawableEntries configuration level) level
  let isolatedTarget := isolatedUpperLevelTarget level targetAddress
  let prefixAlignedAddress := prefixAligned targetAddress level
  let walks ← walkPair targetAddress (complementaryOf targetAddress)
  buildPointerChainFromHash configuration isolatedTarget prefixAlignedAddress inclusive.ways
    inclusive.hashFunction inclusive.setBits (level + 1)
  let firstLink ← readData isolatedTarget
  writeData targetAddress firstLink
  flushMmuCaches
  let p ← readData targetAddress
  switchLevel level walks
  let p ← followChain .readData bound p prefixAlignedAddress
  let value ← readData p
  switchLevel level walks
  flushMmuCaches
  return countMiss value misses

/-- `none` stands for the source's `-1`. -/
def testNesting (bound level : Nat) (translationCaches : Nat -> TranslationCache) :
    Kernel (Option Nat) := do
  let inclusive := translationCaches (level + 1)
  if 3 < level then
    return none
  if inclusive.hashFunction = .null then
    return none
  enter .testNesting inclusive (level + 1)
  let misses ← forRange (fun _ misses => do
    let misses ← nestingIteration configuration bound level inclusive misses
    return .next misses) 0 iterations 0
  return some misses

def hugeBase (level : Nat) : Nat :=
  if level = 2 then huge2MBBaseAddress else huge1GBBaseAddress

def amountHugePages (level : Nat) : Nat :=
  if level = 2 then amount2MPages else amount1GPages

def testHugeTlb (bound level : Nat) : Kernel (Option Nat) := do
  if level ≠ 2 ∧ level ≠ 3 then
    return none
  let misses ← forRange (fun _ misses => do
    let targetAddress ← drawAddress (configuration.pageTableEntries level) level
    let prefixAlignedAddress := prefixAligned targetAddress level
    let walks ← walkPair targetAddress (complementaryOf targetAddress)
    buildHugeChain (hugeBase level) prefixAlignedAddress (amountHugePages level - 1) level
    writeData targetAddress (hugeBase level)
    flushMmuCaches
    let p ← readData targetAddress
    switchLevel level walks
    let p ← followChain .readData bound p prefixAlignedAddress
    let value ← readData p
    switchLevel level walks
    flushMmuCaches
    return .next (countMiss value misses)) 0 iterations 0
  flushMmuCaches
  return some misses

/-- The number of misses is only printed by the source. -/
def testHugePageEviction (bound level : Nat) : Kernel Nat :=
  forRange (fun _ misses => do
    let targetPage := hugeBase level
    let walks ← walkPair targetPage (complementaryBaseAddress + (targetPage - hugeBase level))
    buildHugeChain targetPage targetPage (amountHugePages level - 1) level
    flushMmuCaches
    let p ← readData targetPage
    switchLevel level walks
    let p ← followChain .readData bound p targetPage
    let value ← readData p
    switchLevel level walks
    flushMmuCaches
    return .next (countMiss value misses)) 0 iterations 0

/-- `CR3_NOFLUSH` of the Linux headers. -/
def cr3NoFlush : Nat :=
  1 <<< 63

def testSupportedPcids (level amountPcids : Nat) (noflush : Bool) : Kernel Nat := do
  let cr3 ← getCr3
  let cr3 := (cr3 >>> 12) <<< 12
  let noflushBit := if noflush then cr3NoFlush else 0
  forRange (fun _ misses => do
    let targetAddress ← drawAddress (configuration.pageTableEntries level) level
    let prefixAlignedAddress := prefixAligned targetAddress level
    let walks ← walkPair targetAddress (complementaryOf targetAddress)
    writeData targetAddress prefixAlignedAddress
    setCr3 cr3
    flushMmuCaches
    let p ← readData targetAddress
    switchLevel level walks
    let _ ← forRange (fun pcid _ => do
      setCr3 (cr3 ||| pcid ||| noflushBit)
      return .next ()) 1 amountPcids ()
    setCr3 (cr3 ||| noflushBit)
    let value ← readData p
    switchLevel level walks
    setCr3 cr3
    flushMmuCaches
    return .next (countMiss value misses)) 0 iterations 0

/-- `do pcid = get_random_long() % 4096; while(pcid == 0);` -/
def drawPcid (bound : Nat) : Kernel Nat := do
  let random ← getRandomLong
  whileLoop (fun pcid => pcid == 0) (fun _ => do
    let random ← getRandomLong
    return random % 4096) bound (random % 4096)

def testPcidRespect (bound level : Nat) : Kernel Nat := do
  let cr3 ← getCr3
  let cr3 := (cr3 >>> 12) <<< 12
  forRange (fun _ misses => do
    let targetAddress ← drawAddress (configuration.pageTableEntries level) level
    let prefixAlignedAddress := prefixAligned targetAddress level
    let pcid ← drawPcid bound
    let walks ← walkPair targetAddress (complementaryOf targetAddress)
    writeData targetAddress prefixAlignedAddress
    setCr3 cr3
    flushMmuCaches
    let p ← readData targetAddress
    switchLevel level walks
    setCr3 (cr3 ||| pcid ||| cr3NoFlush)
    let value ← readData p
    switchLevel level walks
    setCr3 cr3
    flushMmuCaches
    return .next (countMiss value misses)) 0 iterations 0

end Experiments

end Talbot
