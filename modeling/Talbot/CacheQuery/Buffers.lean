import Talbot.CacheQuery.Query
import Talbot.Foundations.Marks

namespace Talbot
namespace CacheQuery

/-!
The arrays of a query.

`query_cache` allocates three arrays for the query it is given, and fills them
behind counters of its own.  The programs below are those of the query with a
mark for each element that is written.
-/

open Foundations Program

inductive QueryArray where
  | uniqueLetters
  | map
  | finalState
  deriving DecidableEq, Repr

/-- How many elements `query_cache` allocates for an array. -/
def QueryArray.elements (querySize : Nat) : QueryArray -> Nat
  | uniqueLetters => querySize
  | map => querySize
  | finalState => querySize

structure ElementWrite where
  array : QueryArray
  index : Nat
  deriving DecidableEq, Repr

/-- The element lies inside the allocation. -/
def ElementWrite.InBounds (querySize : Nat) (write : ElementWrite) : Prop :=
  write.index < write.array.elements querySize

instance (querySize : Nat) (write : ElementWrite) : Decidable (write.InBounds querySize) :=
  inferInstanceAs (Decidable (_ < _))

abbrev MarkedKernel (α : Type) : Type :=
  Program (kernelInterface.marked ElementWrite) α

def writeElement (array : QueryArray) (index : Nat) : MarkedKernel Unit :=
  mark ⟨array, index⟩

section Query

variable (configuration : Configuration)

/-- Note a letter if the map does not have it. -/
def noteLetterMarked (letter : Nat) (uniqueLetters : List Nat) (map : AddressMap) : MarkedKernel (List Nat) :=
  if addressMapContainsLetter letter map then return uniqueLetters
  else do
    writeElement .uniqueLetters uniqueLetters.length
    return uniqueLetters ++ [letter]

/-- `mapLetters`, where the letter and the address of an entry are written one after
the other. -/
def mapLettersMarked : List Nat -> List Nat × AddressMap -> MarkedKernel (List Nat × AddressMap)
  | [], state => return state
  | letter :: rest, (uniqueLetters, map) => do
      let uniqueLetters ← noteLetterMarked letter uniqueLetters map
      writeElement .map map.length
      let address ← (getNextAddress configuration letter map uniqueLetters.length).lift
      writeElement .map map.length
      mapLettersMarked rest (uniqueLetters, map ++ [⟨letter, address⟩])

/-- `probeLetters` -/
def probeLettersMarked (bound : Nat) (map : AddressMap) :
    List Nat -> (Nat -> Nat) × Nat × Nat -> MarkedKernel ((Nat -> Nat) × Nat × Nat)
  | [], state => return state
  | letter :: rest, (finalState, finalStateLength, previous) => do
      let targetAddress := targetOf letter map previous
      let misses ← (probeLetter configuration bound map targetAddress).lift
      if reachesThreshold misses iterations then
        probeLettersMarked bound map rest (finalState, finalStateLength, targetAddress)
      else do
        writeElement .finalState finalStateLength
        probeLettersMarked bound map rest
          (Function.update finalState finalStateLength letter, finalStateLength + 1, targetAddress)

/-- `queryCache` -/
def queryCacheMarked (bound : Nat) (finalState : Nat -> Nat) (query : List Nat) : MarkedKernel (Nat -> Nat) := do
  let (uniqueLetters, map) ← mapLettersMarked configuration query ([], [])
  let (finalState, finalStateLength, _) ← probeLettersMarked configuration bound map uniqueLetters (finalState, 0, 0)
  writeElement .finalState finalStateLength
  return Function.update finalState finalStateLength 0

variable {configuration}

/-! ## The query without marks -/

theorem erase_noteLetterMarked (letter : Nat) (uniqueLetters : List Nat) (map : AddressMap) :
    (noteLetterMarked letter uniqueLetters map).erase =
      ret (if addressMapContainsLetter letter map then uniqueLetters else uniqueLetters ++ [letter]) := by
  unfold noteLetterMarked
  split <;> rfl

theorem erase_mapLettersMarked (query : List Nat) (state : List Nat × AddressMap) :
    (mapLettersMarked configuration query state).erase = mapLetters configuration query state := by
  induction query generalizing state with
  | nil => rfl
  | cons letter rest inductionHypothesis =>
      rcases state with ⟨uniqueLetters, map⟩
      rw [mapLettersMarked, mapLetters]
      simp only [erase_bind, erase_noteLetterMarked, ret_bind, writeElement, erase_mark, erase_lift,
        inductionHypothesis]

theorem erase_probeLettersMarked (bound : Nat) (map : AddressMap) (letters : List Nat)
    (state : (Nat -> Nat) × Nat × Nat) :
    (probeLettersMarked configuration bound map letters state).erase =
      probeLetters configuration bound map letters state := by
  induction letters generalizing state with
  | nil => rfl
  | cons letter rest inductionHypothesis =>
      rcases state with ⟨finalState, finalStateLength, previous⟩
      rw [probeLettersMarked, probeLetters]
      simp only [erase_bind, erase_lift]
      congr 1
      funext misses
      cases reachesThreshold misses iterations with
      | true => exact inductionHypothesis _
      | false => exact inductionHypothesis _

/-- The marked query is the query. -/
theorem erase_queryCacheMarked (bound : Nat) (finalState : Nat -> Nat) (query : List Nat) :
    (queryCacheMarked configuration bound finalState query).erase =
      queryCache configuration bound finalState query := by
  unfold queryCacheMarked queryCache
  simp only [erase_bind, erase_mapLettersMarked, erase_probeLettersMarked, writeElement, erase_mark, ret_bind,
    pure_eq, erase_ret]

end Query

end CacheQuery
end Talbot
