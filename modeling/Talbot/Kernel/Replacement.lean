import Talbot.Kernel.Experiments

namespace Talbot

/-!
The replacement policy measurement of `replacement.c`.

Arrays obtained from `kmalloc` start with whatever the allocation holds; the
programs below read them before every slot has been written, exactly where the
source does.
-/

open Foundations Program

section Replacement

variable (configuration : Configuration)

/-- Whether the source's skip loop finds the member among the `ways` slots of
the result, written or not. -/
def alreadyPlaced (ways : Nat) (replacementOrder : Nat -> Nat) (member : Nat) : Bool :=
  (List.range ways).any fun i => member == replacementOrder i

/-- `while(p != 0) { last_address = p; p = read_data(p); }` -/
def lastLink (bound setStart : Nat) : Kernel Nat := do
  let (_, lastAddress) ← whileLoop (fun (p, _) => p != 0) (fun (p, _) => do
    let next ← readData p
    return (next, p)) bound (setStart, setStart)
  return lastAddress

/-- Read random entries of the level. -/
def warmUp (level count : Nat) : Kernel Unit :=
  forRange (fun _ _ => do
    let address ← drawAddress (configuration.pageTableEntries level) level
    let _ ← readData address
    return .next ()) 0 count ()

/-- One iteration of the measurement: access the set chain and the filler chain,
then look at the target. -/
def probeAfterFillers (bound : Nat) (cache : TranslationCache) (level setStart lastAddress
    prefixAlignedAddress : Nat) (walks : PageTableWalk × PageTableWalk) (misses : Nat) : Kernel Nat := do
  flushMmuCaches
  warmUp configuration level (cache.ways * (1 <<< cache.setBits) * 4)
  let p ← followChain .readData bound setStart lastAddress
  let p ← readData p
  switchLevel level walks
  let p ← followChain .readData bound p prefixAlignedAddress
  let value ← readData p
  switchLevel level walks
  return countMiss value misses

/-- The measurement of one candidate at one position. -/
def probeReplacement (bound : Nat) (cache : TranslationCache) (level setStart lastAddress nextAddress
    targetAddress position : Nat) : Kernel Nat := do
  let prefixAlignedAddress := prefixAligned targetAddress level
  let walks ← walkPair targetAddress (complementaryOf targetAddress)
  buildPointerChainFromHashSingle configuration nextAddress prefixAlignedAddress
    (cache.ways - position - 1) cache.hashFunction cache.setBits level
  let misses ← forRange (fun _ misses => do
    let misses ← probeAfterFillers configuration bound cache level setStart lastAddress
      prefixAlignedAddress walks misses
    return .next misses) 0 iterations 0
  flushMmuCaches
  return misses

/-- The first candidate whose misses reach the threshold takes the position.  If
there is none the position keeps what the array held. -/
def placeMember (ways position : Nat) (addressSet misses replacementOrder : Nat -> Nat) :
    Nat -> Nat :=
  match (List.range ways).find? fun i => reachesThreshold (misses i) iterations with
  | some i => Function.update replacementOrder position (addressSet i)
  | none => replacementOrder

/-- Every position keeps what it holds or takes one of the members. -/
theorem placeMember_cases (ways position : Nat) (addressSet misses replacementOrder : Nat -> Nat) (other : Nat) :
    placeMember ways position addressSet misses replacementOrder other = replacementOrder other ∨
      ∃ chosen, chosen < ways ∧
        placeMember ways position addressSet misses replacementOrder other = addressSet chosen := by
  unfold placeMember
  cases found : (List.range ways).find? fun i => reachesThreshold (misses i) iterations with
  | none => exact Or.inl rfl
  | some chosen =>
      by_cases same : other = position
      · subst same
        exact Or.inr ⟨chosen, List.mem_range.mp (List.mem_of_find?_eq_some found), Function.update_self _ _ _⟩
      · exact Or.inl (Function.update_of_ne same _ _)

/-- One more entry of the address set. -/
theorem update_agrees {index : Nat} {filled member : Nat -> Nat}
    (agrees : ∀ target, target < index -> filled target = member target) :
    ∀ target, target < index + 1 -> Function.update filled index (member index) target = member target := by
  intro target below
  rcases Nat.lt_succ_iff_lt_or_eq.mp below with before | rfl
  · rw [Function.update_of_ne (Nat.ne_of_lt before)]
    exact agrees target before
  · exact Function.update_self _ _ _

/-- The body of the loop over positions, which the source counts downwards.  A
position whose candidates all stay below the threshold keeps the word it had. -/
def resolvePosition (bound : Nat) (cache : TranslationCache) (level setStart lastAddress nextAddress : Nat)
    (addressSet : Nat -> Nat) (position : Nat) (arrays : (Nat -> Nat) × (Nat -> Nat)) :
    Kernel ((Nat -> Nat) × (Nat -> Nat)) := do
  let (replacementOrder, stale) := arrays
  let cleared := fun i => if i < cache.ways then 0 else stale i
  let misses ← forRange (fun target misses => do
    if alreadyPlaced cache.ways replacementOrder (addressSet target) then
      return .next misses
    let count ← probeReplacement configuration bound cache level setStart lastAddress nextAddress
      (addressSet target) position
    return .next (Function.update misses target count)) 0 cache.ways cleared
  return (placeMember cache.ways position addressSet misses replacementOrder, misses)

def determineReplacementOrder (bound : Nat) (translationCaches : Nat -> TranslationCache)
    (setStart level : Nat) : Kernel (Nat -> Nat) := do
  let cache := translationCaches level
  enter .determineReplacementOrder cache level
  let addressSet ← kmalloc
  let replacementOrder ← kmalloc
  let misses ← kmalloc
  let lastAddress ← lastLink bound setStart
  let addressSet ← forRange (fun i addressSet => do
    let member ← callHash cache.hashFunction setStart i cache.setBits level
    return .next (Function.update addressSet i member)) 0 cache.ways addressSet
  let nextAddress ← callHash cache.hashFunction setStart cache.ways cache.setBits level
  writeData lastAddress nextAddress
  let (replacementOrder, _) ← forRange (fun index arrays => do
    let arrays ← resolvePosition configuration bound cache level setStart lastAddress nextAddress
      addressSet (cache.ways - 1 - index) arrays
    return .next arrays) 0 cache.ways (replacementOrder, misses)
  return replacementOrder

/-- One row of the permutation vectors: where the entries of the current order
stood in the initial one, `-1` for those that did not occur there. -/
def permutationRow (ways : Nat) (initialOrder currentOrder : Nat -> Nat) (row : Nat -> Int) :
    Nat -> Int :=
  fun j =>
    if j < ways then
      match (List.range ways).find? fun k => initialOrder k == currentOrder j with
      | some k => (k : Int)
      | none => row j
    else row j

/-- The extra address of a row is in the third page of its entry, since the first
two were accessed before. -/
def calculatePermutationVectors (bound : Nat) (translationCaches : Nat -> TranslationCache)
    (level : Nat) : Kernel (Nat -> Nat -> Int) := do
  let cache := translationCaches level
  enter .calculatePermutationVectors cache level
  let permutationVectors : Nat -> Nat -> Int := fun _ _ => -1
  let targetAddress ← drawAddress (drawableEntries configuration level) level
  buildPointerChainFromHashSingle configuration targetAddress 0 (cache.ways - 1)
    cache.hashFunction cache.setBits level
  let initialOrder ← determineReplacementOrder configuration bound translationCaches targetAddress level
  forRange (fun i permutationVectors => do
    if initialOrder i = 0x0 then
      return .next permutationVectors
    let extraAddress := initialOrder i + (0x2 <<< pageTableIndexShift (level - 1))
    buildPointerChainFromHashSingle configuration targetAddress extraAddress (cache.ways - 1)
      cache.hashFunction cache.setBits level
    writeData extraAddress 0
    let currentOrder ← determineReplacementOrder configuration bound translationCaches targetAddress level
    return .next (Function.update permutationVectors i
      (permutationRow cache.ways initialOrder currentOrder (permutationVectors i))))
    0 cache.ways permutationVectors

end Replacement

end Talbot
