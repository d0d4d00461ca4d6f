import Talbot.CacheQuery.Buffers
import Talbot.Foundations.Recency
import Talbot.Machine.Responses

namespace Talbot
namespace CacheQuery

/-!
The bounds of the arrays of a query.

The letters and the entries of the map are at most as many as the characters.  So
are the resident letters, but the report also needs an element for its
terminator.
-/

open Foundations Program

section Bounds

variable {configuration : Configuration} {bound : Nat} {query : List Nat}

theorem addressMapContainsLetter_iff {letter : Nat} {map : AddressMap} :
    addressMapContainsLetter letter map = true ↔ letter ∈ map.map AddressMapEntry.letter := by
  simp only [addressMapContainsLetter, List.any_eq_true, beq_iff_eq, List.mem_map]

/-- Exactly the repeated letters are no first uses. -/
theorem firstUses_length_lt_iff : (firstUses query).length < query.length ↔ ¬ query.Nodup := by
  have lengths : (firstUses query).length = query.reverse.dedup.length := List.length_reverse
  have total : query.length = query.reverse.length := List.length_reverse.symm
  have kept := List.dedup_sublist query.reverse
  rw [lengths, total, ← List.nodup_reverse, ← List.dedup_eq_self]
  constructor
  · intro fewer equal
    rw [equal] at fewer
    exact Nat.lt_irrefl _ fewer
  · exact fun differ => Nat.lt_of_le_of_ne kept.length_le fun same => differ (kept.eq_of_length same)

/-! ## Repeated letters leave room for the terminator -/

/-- A letter is noted if it has not been read before. -/
theorem noteLetterMarked_eq {read : List Nat} {map : AddressMap} (letters : map.map AddressMapEntry.letter = read)
    (letter : Nat) :
    noteLetterMarked letter (firstUses read) map =
      if letter ∈ read then ret (firstUses (read ++ [letter]))
      else writeElement .uniqueLetters (firstUses read).length >>= fun _ => ret (firstUses (read ++ [letter])) := by
  unfold noteLetterMarked
  rw [firstUses_concat, ← letters]
  by_cases known : letter ∈ map.map AddressMapEntry.letter
  · rw [if_pos (addressMapContainsLetter_iff.mpr known), if_pos known, if_pos known]
    rfl
  · rw [if_neg fun contains => known (addressMapContainsLetter_iff.mp contains), if_neg known, if_neg known]
    rfl

theorem keepsMarks_noteLetter {read : List Nat} {map : AddressMap} (letters : map.map AddressMapEntry.letter = read)
    {size : Nat} (room : read.length < size) (letter : Nat) :
    KeepsMarks (ElementWrite.InBounds size) (noteLetterMarked letter (firstUses read) map) fun uniqueLetters =>
      uniqueLetters = firstUses (read ++ [letter]) := by
  rw [noteLetterMarked_eq letters]
  split
  · rfl
  · exact keepsMarks_bind.mpr (keepsMarks_mark.mpr ⟨Nat.lt_of_le_of_lt firstUses_length_le room, rfl⟩)

/-- The loop over the characters, once some of them have been read. -/
theorem keepsMarks_mapLetters {read rest : List Nat} (split : query = read ++ rest) {map : AddressMap}
    (letters : map.map AddressMapEntry.letter = read) :
    KeepsMarks (ElementWrite.InBounds query.length) (mapLettersMarked configuration rest (firstUses read, map))
      fun state => state.1 = firstUses query := by
  induction rest generalizing read map with
  | nil =>
      rw [List.append_nil] at split
      exact congrArg firstUses split.symm
  | cons letter rest inductionHypothesis =>
      have room : read.length < query.length := by
        rw [split, List.length_append, List.length_cons]
        omega
      have entry : ElementWrite.InBounds query.length ⟨.map, map.length⟩ := by
        have count : map.length = read.length := by rw [← letters, List.length_map]
        exact Nat.lt_of_le_of_lt (Nat.le_of_eq count) room
      rw [mapLettersMarked]
      refine keepsMarks_bind.mpr ((keepsMarks_noteLetter letters room letter).mono ?_)
      rintro _ rfl
      refine keepsMarks_bind.mpr (keepsMarks_mark.mpr ⟨entry, keepsMarks_then fun address => ?_⟩)
      refine keepsMarks_bind.mpr (keepsMarks_mark.mpr ⟨entry, ?_⟩)
      apply inductionHypothesis
      · rw [split, List.append_assoc, List.singleton_append]
      · rw [List.map_append, letters]
        rfl

/-- The report holds at most one element for each letter that is probed. -/
theorem keepsMarks_probeLetters {map : AddressMap} {letters : List Nat} {size : Nat} (finalState : Nat -> Nat)
    {finalStateLength : Nat} (room : finalStateLength + letters.length ≤ size) (previous : Nat) :
    KeepsMarks (ElementWrite.InBounds size)
      (probeLettersMarked configuration bound map letters (finalState, finalStateLength, previous))
      fun result => result.2.1 ≤ finalStateLength + letters.length := by
  induction letters generalizing finalState finalStateLength previous with
  | nil => exact Nat.le_refl _
  | cons letter rest inductionHypothesis =>
      rw [List.length_cons] at room ⊢
      rw [probeLettersMarked]
      refine keepsMarks_then fun misses => ?_
      cases reachesThreshold misses iterations with
      | true => exact (inductionHypothesis finalState (by omega) _).mono fun result few => by omega
      | false =>
          refine keepsMarks_bind.mpr (keepsMarks_mark.mpr ⟨show finalStateLength < size by omega, ?_⟩)
          exact (inductionHypothesis _ (by omega) _).mono fun result few => by omega

/-- With a repeated letter all writes are in bounds. -/
theorem inBounds_of_repeated (repeated : ¬ query.Nodup) (finalState : Nat -> Nat) :
    KeepsMarks (ElementWrite.InBounds query.length) (queryCacheMarked configuration bound finalState query)
      fun _ => True := by
  have fewer : (firstUses query).length < query.length := firstUses_length_lt_iff.mpr repeated
  unfold queryCacheMarked
  have mapped : KeepsMarks (ElementWrite.InBounds query.length) (mapLettersMarked configuration query ([], []))
      fun state => state.1 = firstUses query := keepsMarks_mapLetters (List.nil_append query).symm rfl
  refine keepsMarks_bind.mpr (mapped.mono ?_)
  rintro ⟨uniqueLetters, map⟩ rfl
  refine keepsMarks_bind.mpr ((keepsMarks_probeLetters finalState ?_ 0).mono ?_)
  · exact Nat.le_trans (Nat.le_of_eq (Nat.zero_add _)) (Nat.le_of_lt fewer)
  · rintro ⟨finalState, finalStateLength, previous⟩ few
    refine keepsMarks_bind.mpr (keepsMarks_mark.mpr ⟨?_, trivial⟩)
    rw [Nat.zero_add] at few
    exact Nat.lt_of_le_of_lt few fewer

/-! ## Without repeated letters the terminator has no room -/

theorem possibly_noteLetter {read : List Nat} {map : AddressMap} (letters : map.map AddressMapEntry.letter = read)
    (letter : Nat) :
    Possibly (noteLetterMarked letter (firstUses read) map) fun uniqueLetters =>
      uniqueLetters = firstUses (read ++ [letter]) := by
  rw [noteLetterMarked_eq letters]
  split
  · rfl
  · exact possibly_bind.mpr (possibly_mark.mpr rfl)

theorem possibly_getNextAddress (letter : Nat) (map : AddressMap) (amountUniqueLetters : Nat) :
    Possibly (getNextAddress configuration letter map amountUniqueLetters) fun _ => True := by
  unfold getNextAddress
  cases map with
  | nil => exact possibly_drawAddress
  | cons first others =>
      dsimp only
      cases (first :: others).reverse.find? fun entry => entry.letter == letter with
      | none => exact possibly_callHash.mpr ⟨0, trivial⟩
      | some entry => trivial

theorem possibly_mapLetters {read rest : List Nat} (split : query = read ++ rest) {map : AddressMap}
    (letters : map.map AddressMapEntry.letter = read) :
    Possibly (mapLettersMarked configuration rest (firstUses read, map)) fun state => state.1 = firstUses query := by
  induction rest generalizing read map with
  | nil =>
      rw [List.append_nil] at split
      exact congrArg firstUses split.symm
  | cons letter rest inductionHypothesis =>
      rw [mapLettersMarked]
      refine possibly_bind.mpr ((possibly_noteLetter letters letter).mono ?_)
      rintro _ rfl
      refine possibly_bind.mpr (possibly_mark.mpr (possibly_bind.mpr (possibly_lift.mpr ?_)))
      refine (possibly_getNextAddress _ _ _).mono fun address _ => ?_
      refine possibly_bind.mpr (possibly_mark.mpr ?_)
      apply inductionHypothesis
      · rw [split, List.append_assoc, List.singleton_append]
      · rw [List.map_append, letters]
        rfl

theorem possibly_linkEntries (last : Nat) (map : AddressMap) : Possibly (linkEntries last map) fun _ => True := by
  induction map generalizing last with
  | nil => trivial
  | cons entry rest inductionHypothesis => exact possibly_bind.mpr (possibly_writeData.mpr (inductionHypothesis _))

/-- An iteration need not miss: the first read may end the traversal, and the last
one may return anything. -/
theorem possibly_replayQuery (map : AddressMap) (stop : Nat) (walks : PageTableWalk × PageTableWalk) (misses : Nat) :
    Possibly (replayQuery configuration bound map stop walks misses) fun result => result = misses := by
  have warm : Possibly (warmUp configuration queryLevel (queryWays * (1 <<< querySetBits) * 4)) fun _ => True :=
    possibly_loop fun _ _ => possibly_bind.mpr (possibly_drawAddress.mono fun _ _ => ⟨0, trivial⟩)
  unfold replayQuery
  refine possibly_bind.mpr (possibly_flushMmuCaches.mpr (possibly_bind.mpr (warm.mono fun _ _ => ?_)))
  refine possibly_bind.mpr (possibly_readData.mpr ⟨stop, ?_⟩)
  rw [followChain_stop]
  refine possibly_bind.mpr (possibly_switchLevel.mpr (possibly_bind.mpr (possibly_readData.mpr ⟨0, ?_⟩)))
  exact possibly_bind.mpr (possibly_switchLevel.mpr rfl)

/-- A letter can survive all iterations. -/
theorem possibly_probeLetter (map : AddressMap) (target : Nat) :
    Possibly (probeLetter configuration bound map target) fun misses => misses = 0 := by
  unfold probeLetter
  refine possibly_bind.mpr (possibly_walkPair.mono fun walks _ => possibly_bind.mpr ?_)
  refine possibly_bind.mpr ((possibly_linkEntries _ _).mono fun _ _ => possibly_writeData.mpr ?_)
  apply possibly_forRange (fun _ misses => misses = 0) 0 iterations 0 rfl
  rintro _ _ _ _ rfl
  exact possibly_bind.mpr ((possibly_replayQuery _ _ _ 0).mono fun result survives => ⟨result, rfl, survives⟩)

/-- All letters can survive. -/
theorem possibly_probeLetters (map : AddressMap) (letters : List Nat) (finalState : Nat -> Nat)
    (finalStateLength previous : Nat) :
    Possibly (probeLettersMarked configuration bound map letters (finalState, finalStateLength, previous))
      fun result => result.2.1 = finalStateLength + letters.length := by
  induction letters generalizing finalState finalStateLength previous with
  | nil => rfl
  | cons letter rest inductionHypothesis =>
      have survives : reachesThreshold 0 iterations = false := by decide
      rw [probeLettersMarked]
      refine possibly_bind.mpr (possibly_lift.mpr ((possibly_probeLetter _ _).mono ?_))
      rintro _ rfl
      simp only [survives, Bool.false_eq_true, if_false]
      refine possibly_bind.mpr (possibly_mark.mpr ((inductionHypothesis _ _ _).mono fun result length => ?_))
      rw [length, List.length_cons, Nat.add_assoc, Nat.add_comm 1]

/-- If all writes are in bounds, some letter is repeated. -/
theorem repeated_of_inBounds {finalState : Nat -> Nat}
    (inBounds : KeepsMarks (ElementWrite.InBounds query.length)
      (queryCacheMarked configuration bound finalState query) fun _ => True) : ¬ query.Nodup := by
  have mapped : Possibly (mapLettersMarked configuration query ([], [])) fun state => state.1 = firstUses query :=
    possibly_mapLetters (List.nil_append query).symm rfl
  unfold queryCacheMarked at inBounds
  rcases inBounds.rest mapped with ⟨⟨_, map⟩, rfl, later⟩
  rcases KeepsMarks.rest later (possibly_probeLetters map (firstUses query) finalState 0 0) with
    ⟨⟨_, _, _⟩, rfl, terminator⟩
  have inside := (keepsMarks_mark.mp (keepsMarks_bind.mp terminator)).1
  rw [← firstUses_length_lt_iff]
  rwa [ElementWrite.InBounds, Nat.zero_add] at inside

end Bounds

/-- For every query and all outcomes of its measurements: the marked query is the
query, and it writes inside its three arrays exactly if some letter of the query is
repeated.  Without a repetition all letters may be resident, and the terminator is
then written behind the last element.  The marks say only where an element is
written and change nothing else. -/
theorem queryCache_inBounds_iff (configuration : Configuration) (bound : Nat) (finalState : Nat -> Nat)
    (query : List Nat) :
    (queryCacheMarked configuration bound finalState query).erase =
      queryCache configuration bound finalState query ∧
    (KeepsMarks (ElementWrite.InBounds query.length) (queryCacheMarked configuration bound finalState query)
      (fun _ => True) ↔ ¬ query.Nodup) :=
  ⟨erase_queryCacheMarked bound finalState query, repeated_of_inBounds, fun repeated =>
    inBounds_of_repeated repeated finalState⟩

/-- The query `A`: if the letter survives, the terminator is written behind the one
element of the report. -/
theorem queryCache_outOfBounds :
    ¬ KeepsMarks (ElementWrite.InBounds [65].length)
      (queryCacheMarked defaultConfiguration 1 (fun _ => 0) [65]) (fun _ => True) :=
  fun inBounds => repeated_of_inBounds inBounds (List.nodup_singleton 65)

end CacheQuery
end Talbot
