import Talbot.CacheQuery.Query

namespace Talbot
namespace CacheQuery

/-!
The read handler of the CacheQuery module (`module.c`).

Measuring and reporting are separate: what is measured does not depend on the
array that the report is written to, and the report is a function of the
measurements and of what that array held before.
-/

open Foundations Program

section Module

variable (configuration : Configuration)

/-- The bytes that are copied back to the user; `fresh` is what the array of the
report holds when it is allocated. -/
def deviceRead (bound : Nat) (fresh : Nat -> Nat) (query : List Nat) : Kernel (List Nat) := do
  let finalCacheState ← queryCache configuration bound fresh query
  return (List.range query.length).map finalCacheState

/-! ## Measuring and reporting -/

/-- What one letter of a query was measured with. -/
structure LetterMeasurement where
  letter : Nat
  misses : Nat
  deriving DecidableEq, Repr

/-- The measurements of the loop over the letters, and the last target. -/
def measureLetters (bound : Nat) (map : AddressMap) :
    List Nat -> Nat -> Kernel (List LetterMeasurement × Nat)
  | [], previous => return ([], previous)
  | letter :: rest, previous => do
      let targetAddress := targetOf letter map previous
      let misses ← probeLetter configuration bound map targetAddress
      let (later, last) ← measureLetters bound map rest targetAddress
      return (⟨letter, misses⟩ :: later, last)

/-- All measurements of a query. -/
def measureQuery (bound : Nat) (query : List Nat) : Kernel (List LetterMeasurement) := do
  let (uniqueLetters, map) ← mapLetters configuration query ([], [])
  let (measured, _) ← measureLetters configuration bound map uniqueLetters 0
  return measured

end Module

/-- The letters that did not miss often enough to count as replaced.  They are
reported in the order in which the query uses them first. -/
def residentLetters (measured : List LetterMeasurement) : List Nat :=
  (measured.filter fun measurement => !reachesThreshold measurement.misses iterations).map
    LetterMeasurement.letter

/-- Writing letters one after the other into the array of the report. -/
def appendLetters (finalState : Nat -> Nat) (length : Nat) : List Nat -> Nat -> Nat
  | [] => finalState
  | letter :: rest => appendLetters (Function.update finalState length letter) (length + 1) rest

/-- The array with the report and its terminator. -/
def reportOf (fresh : Nat -> Nat) (letters : List Nat) : Nat -> Nat :=
  Function.update (appendLetters fresh 0 letters) letters.length 0

theorem appendLetters_before (finalState : Nat -> Nat) {length index : Nat} (letters : List Nat)
    (before : index < length) : appendLetters finalState length letters index = finalState index := by
  induction letters generalizing finalState length with
  | nil => rfl
  | cons letter rest inductionHypothesis =>
      rw [appendLetters, inductionHypothesis _ (Nat.lt_succ_of_lt before),
        Function.update_of_ne (Nat.ne_of_lt before)]

theorem appendLetters_after (finalState : Nat -> Nat) {length index : Nat} (letters : List Nat)
    (after : length + letters.length ≤ index) : appendLetters finalState length letters index = finalState index := by
  induction letters generalizing finalState length with
  | nil => rfl
  | cons letter rest inductionHypothesis =>
      rw [List.length_cons] at after
      rw [appendLetters, inductionHypothesis _ (by omega), Function.update_of_ne (by omega)]

theorem map_appendLetters (finalState : Nat -> Nat) (length : Nat) (letters : List Nat) :
    (List.range' length letters.length).map (appendLetters finalState length letters) = letters := by
  induction letters generalizing finalState length with
  | nil => rfl
  | cons letter rest inductionHypothesis =>
      rw [List.length_cons, List.range'_succ, List.map_cons, appendLetters, inductionHypothesis,
        appendLetters_before _ rest (Nat.lt_succ_self length), Function.update_self]

theorem map_reportOf (fresh : Nat -> Nat) (letters : List Nat) :
    (List.range letters.length).map (reportOf fresh letters) = letters := by
  calc
    _ = (List.range letters.length).map (appendLetters fresh 0 letters) :=
        List.map_congr_left fun index inside =>
          Function.update_of_ne (Nat.ne_of_lt (List.mem_range.mp inside)) _ _
    _ = letters := by rw [List.range_eq_range', map_appendLetters]

@[simp] theorem reportOf_terminator (fresh : Nat -> Nat) (letters : List Nat) :
    reportOf fresh letters letters.length = 0 :=
  Function.update_self _ _ _

/-- Behind the terminator the array stays as it was allocated. -/
theorem reportOf_after (fresh : Nat -> Nat) {letters : List Nat} {index : Nat} (after : letters.length < index) :
    reportOf fresh letters index = fresh index := by
  unfold reportOf
  rw [Function.update_of_ne (Nat.ne_of_gt after), appendLetters_after _ _ (by omega)]

/-- Up to the terminator nothing of the allocation is left. -/
theorem reportOf_congr (fresh other : Nat -> Nat) {letters : List Nat} {index : Nat}
    (written : index ≤ letters.length) : reportOf fresh letters index = reportOf other letters index := by
  rcases Nat.eq_or_lt_of_le written with rfl | before
  · rw [reportOf_terminator, reportOf_terminator]
  · have same := (map_reportOf fresh letters).trans (map_reportOf other letters).symm
    exact List.map_inj_left.mp same index (List.mem_range.mpr before)

variable {configuration : Configuration}

theorem residentLetters_cons (letter misses : Nat) (measured : List LetterMeasurement) :
    residentLetters (⟨letter, misses⟩ :: measured) =
      if reachesThreshold misses iterations then residentLetters measured
      else letter :: residentLetters measured := by
  unfold residentLetters
  cases reached : reachesThreshold misses iterations with
  | true =>
      rw [if_pos rfl, List.filter_cons_of_neg]
      simp only [reached, Bool.not_true, Bool.false_eq_true, not_false_eq_true]
  | false =>
      rw [if_neg Bool.false_ne_true, List.filter_cons_of_pos, List.map_cons]
      simp only [reached, Bool.not_false]

/-- The loop over the letters writes the resident ones among those it measures. -/
theorem probeLetters_eq (bound : Nat) (map : AddressMap) (letters : List Nat) (finalState : Nat -> Nat)
    (length previous : Nat) :
    probeLetters configuration bound map letters (finalState, length, previous) =
      measureLetters configuration bound map letters previous >>= fun result =>
        ret (appendLetters finalState length (residentLetters result.1),
          length + (residentLetters result.1).length, result.2) := by
  induction letters generalizing finalState length previous with
  | nil => rfl
  | cons letter rest inductionHypothesis =>
      rw [probeLetters, measureLetters]
      simp only [bind_assoc, pure_eq, ret_bind, residentLetters_cons]
      congr 1
      funext misses
      cases reachesThreshold misses iterations with
      | true =>
          simp only [if_true]
          exact inductionHypothesis finalState length _
      | false =>
          simp only [Bool.false_eq_true, if_false, appendLetters, List.length_cons]
          rw [inductionHypothesis]
          congr 1
          funext result
          rw [Nat.add_assoc, Nat.add_comm 1]

/-- The query measures first and reports then. -/
theorem queryCache_eq (bound : Nat) (fresh : Nat -> Nat) (query : List Nat) :
    queryCache configuration bound fresh query =
      measureQuery configuration bound query >>= fun measured => ret (reportOf fresh (residentLetters measured)) := by
  unfold queryCache measureQuery
  simp only [probeLetters_eq, bind_assoc, pure_eq, ret_bind, Nat.zero_add]
  rfl

theorem deviceRead_eq (bound : Nat) (fresh : Nat -> Nat) (query : List Nat) :
    deviceRead configuration bound fresh query =
      measureQuery configuration bound query >>= fun measured =>
        ret ((List.range query.length).map (reportOf fresh (residentLetters measured))) := by
  unfold deviceRead
  rw [queryCache_eq, bind_assoc]
  rfl

end CacheQuery
end Talbot
