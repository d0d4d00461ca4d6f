import Talbot.CacheQuery.AddressMap
import Talbot.Machine.SetChains

namespace Talbot
namespace CacheQuery

/-!
The addresses that a query gets.

The first letter gets the start address that is drawn, every further letter the
first page of the next entry of the same set, and every further use of a letter
the next page of its entry.  Mapping the letters only calls the hash function, so
the result does not depend on the machine.
-/

open Foundations Program Machine

/-- A level-2 cache with the sets of the configured hash function. -/
def queryGeometry (ways : Nat) : CacheGeometry :=
  ⟨.linShiftHash, querySetBits, ways⟩

/-- The page for a use of a letter.  Letters are numbered by their first use; each
has an entry of its own, and each of its uses has the next page there. -/
def queryPage (ways entry : Nat) (query : List Nat) (letter use : Nat) : Nat :=
  (queryGeometry ways).memberPage queryLevel entry ((firstUses query).idxOf letter) use

theorem isLevel_query : IsLevel queryLevel := by
  decide

section Mapping

variable {configuration : Configuration} {ways entry : Nat} {query : List Nat}

theorem queryPage_succ (letter use : Nat) :
    queryPage ways entry query letter use + (0x1 <<< pageTableIndexShift (queryLevel - 1)) =
      queryPage ways entry query letter (use + 1) := by
  simp only [queryPage, CacheGeometry.memberPage, pageAddress, Nat.shiftLeft_eq]
  ring

theorem firstUses_mapped (read : List Nat) (letter : Nat) (map : AddressMap)
    (known : addressMapContainsLetter letter map = true ↔ letter ∈ read) :
    (if addressMapContainsLetter letter map then firstUses read else firstUses read ++ [letter]) =
      firstUses (read ++ [letter]) := by
  rw [firstUses_concat]
  exact if_congr known rfl rfl

/-- The next address, once the first letter has been placed. -/
theorem evaluates_getNextAddress {read rest : List Nat} {letter : Nat} (split : query = read ++ letter :: rest)
    (started : read ≠ []) (fits : pageAddress queryLevel entry 0 < 2 ^ 64) :
    Evaluates (getNextAddress configuration letter (replay (queryPage ways entry query) [] read)
      (firstUses (read ++ [letter])).length) (queryPage ways entry query letter (read.count letter)) := by
  obtain ⟨first, others, rfl⟩ := List.exists_cons_of_ne_nil started
  have start : queryPage ways entry query first 0 = pageAddress queryLevel entry 0 := by
    have number : (firstUses query).idxOf first = 0 := by
      rw [split]
      exact idxOf_firstUses_new (List.not_mem_nil)
    rw [queryPage, number, CacheGeometry.memberPage, CacheGeometry.member_zero]
  have last := find_replay_reverse (queryPage ways entry query) (first :: others) letter
  rw [replay, List.count_nil, start] at last ⊢
  unfold getNextAddress
  simp only [last]
  by_cases known : letter ∈ first :: others
  · rw [if_pos known]
    have used : (first :: others).count letter - 1 + 1 = (first :: others).count letter :=
      Nat.sub_add_cancel (List.count_pos_iff.mpr known)
    dsimp only
    rw [queryPage_succ, used]
    exact .ret _
  · rw [if_neg known]
    have number : (firstUses query).idxOf letter = (firstUses (first :: others)).length := by
      rw [split]
      exact idxOf_firstUses_new known
    rw [firstUses_concat, if_neg known, List.length_append, List.length_singleton, Nat.add_sub_cancel,
      ← number, List.count_eq_zero_of_not_mem known]
    refine .callHash ?_
    rw [HashFunction.apply_aligned _ _ _ isLevel_query fits]
    exact .ret _

/-- The loop over the letters, once the first one has been placed. -/
theorem evaluates_mapLetters {read rest : List Nat} (split : query = read ++ rest) (started : read ≠ [])
    (fits : pageAddress queryLevel entry 0 < 2 ^ 64) :
    Evaluates (mapLetters configuration rest (firstUses read, replay (queryPage ways entry query) [] read))
      (firstUses query, replay (queryPage ways entry query) [] query) := by
  induction rest generalizing read with
  | nil =>
      rw [List.append_nil] at split
      rw [← split]
      exact .ret _
  | cons letter rest inductionHypothesis =>
      rw [mapLetters]
      simp only [firstUses_mapped read letter _ (addressMapContainsLetter_replay _ [] read letter)]
      refine (evaluates_getNextAddress split started fits).bind ?_
      have later := replay_concat (queryPage ways entry query) [] read letter
      rw [List.nil_append] at later
      rw [← later]
      apply inductionHypothesis
      · rw [split, List.append_assoc, List.singleton_append]
      · exact List.append_ne_nil_of_right_ne_nil _ (List.cons_ne_nil _ _)

end Mapping

/-! ## The addresses of a query -/

section Addresses

variable (ways entry : Nat) (query : List Nat)

def queryMap : AddressMap :=
  replay (queryPage ways entry query) [] query

def queryAddresses : List Nat :=
  (queryMap ways entry query).map AddressMapEntry.address

/-- The entry of a letter. -/
def letterEntry (letter : Nat) : Nat :=
  (queryGeometry ways).member entry ((firstUses query).idxOf letter)

variable {ways entry query}

theorem entryOf_queryPage {letter use : Nat} (small : use < 512) :
    entryOf queryLevel (queryPage ways entry query letter use) = letterEntry ways entry query letter :=
  CacheGeometry.entryOf_memberPage isLevel_query small

theorem letterEntry_injective {letter other : Nat} (known : letter ∈ query)
    (same : letterEntry ways entry query letter = letterEntry ways entry query other) : letter = other := by
  have numbers := (queryGeometry ways).member_injective entry same
  exact (List.idxOf_inj (mem_firstUses.mpr known)).mp numbers

/-- With the shipped sizes, the entries of 256 letters fit into the window behind every
start entry. -/
theorem letterEntry_lt_default {start letter : Nat} (drawn : start < drawableEntries defaultConfiguration queryLevel)
    (number : (firstUses query).idxOf letter < 256) :
    letterEntry ways (baseEntry queryLevel + start) query letter <
      baseEntry queryLevel + defaultConfiguration.pageTableEntries queryLevel := by
  have draws : drawableEntries defaultConfiguration queryLevel = 512 := rfl
  have entries : defaultConfiguration.pageTableEntries queryLevel = 16384 := rfl
  have halves := Nat.div_add_mod (baseEntry queryLevel + start) 2
  change 2 * ((baseEntry queryLevel + start) / 2 +
    2 ^ 3 * (((firstUses query).idxOf letter + (baseEntry queryLevel + start) % 2) / 2)) +
      ((firstUses query).idxOf letter + (baseEntry queryLevel + start) % 2) % 2 < _
  omega

theorem queryPage_injective {letter other use use' : Nat} (known : letter ∈ query) (small : use < 512)
    (small' : use' < 512) (same : queryPage ways entry query letter use = queryPage ways entry query other use') :
    letter = other ∧ use = use' := by
  have digits := CacheGeometry.memberPage_injective isLevel_query small small' same
  exact ⟨(List.idxOf_inj (mem_firstUses.mpr known)).mp digits.1, digits.2⟩

section Bounded

variable (few : ∀ letter, query.count letter ≤ 511)

include few

theorem mem_queryAddresses {node : Nat} (inside : node ∈ queryAddresses ways entry query) :
    ∃ letter use, letter ∈ query ∧ use < 511 ∧ queryPage ways entry query letter use = node := by
  rcases List.mem_map.mp inside with ⟨mapped, known, rfl⟩
  rcases mem_replay known with ⟨inQuery, use, _, below, same⟩
  exact ⟨mapped.letter, use, inQuery, Nat.lt_of_lt_of_le below (few mapped.letter), same.symm⟩

theorem queryAddresses_nodup : (queryAddresses ways entry query).Nodup := by
  apply replay_nodup
  intro first known second _ use use' below below' same
  have bound := few first
  have bound' := few second
  exact queryPage_injective known (by omega) (by omega) same

theorem entries_queryAddresses :
    (queryAddresses ways entry query).map (entryOf queryLevel) =
      query.map (letterEntry ways entry query) := by
  have letters : ∀ mapped, mapped ∈ queryMap ways entry query ->
      entryOf queryLevel mapped.address = letterEntry ways entry query mapped.letter := by
    intro mapped known
    rcases mem_replay known with ⟨_, use, _, below, same⟩
    have bound := few mapped.letter
    rw [List.nil_append] at below
    rw [same, entryOf_queryPage (by omega)]
  calc
    (queryAddresses ways entry query).map (entryOf queryLevel) =
        (queryMap ways entry query).map (entryOf queryLevel ∘ AddressMapEntry.address) := List.map_map
    _ = (queryMap ways entry query).map (letterEntry ways entry query ∘ AddressMapEntry.letter) :=
        List.map_congr_left letters
    _ = query.map (letterEntry ways entry query) := by
        rw [← List.map_map, queryMap, replay_letters]

/-- The end of a letter's chain is no node of it. -/
theorem stop_notMem (letter : Nat) : queryPage ways entry query letter 511 ∉ queryAddresses ways entry query := by
  intro inside
  rcases mem_queryAddresses few inside with ⟨other, use, known, below, same⟩
  have digits := queryPage_injective known (by omega) (by decide) same
  omega

end Bounded

end Addresses

end CacheQuery
end Talbot
