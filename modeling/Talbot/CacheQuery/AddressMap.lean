import Mathlib.Data.List.Count
import Mathlib.Data.List.Induction
import Talbot.CacheQuery.Query
import Talbot.Foundations.Recency

namespace Talbot
namespace CacheQuery

/-!
The address map of a query.

The `n`-th use of a letter gets the `n`-th page of the letter's entry.  So two
characters share an entry exactly if they are equal, and no address repeats.
-/

open Foundations

/-- The map of the remaining letters, after some letters have been read.
`address` gives the page of a letter for each of its uses. -/
def replay (address : Nat -> Nat -> Nat) : List Nat -> List Nat -> AddressMap
  | _, [] => []
  | before, letter :: rest =>
      ⟨letter, address letter (before.count letter)⟩ :: replay address (before ++ [letter]) rest

variable (address : Nat -> Nat -> Nat)

theorem replay_concat (before query : List Nat) (letter : Nat) :
    replay address before (query ++ [letter]) =
      replay address before query ++ [⟨letter, address letter ((before ++ query).count letter)⟩] := by
  induction query generalizing before with
  | nil =>
      rw [List.nil_append, List.append_nil]
      rfl
  | cons first rest inductionHypothesis =>
      rw [List.cons_append, replay, replay, inductionHypothesis, List.append_assoc, List.singleton_append,
        List.cons_append]

@[simp] theorem replay_letters (before query : List Nat) :
    (replay address before query).map AddressMapEntry.letter = query := by
  induction query generalizing before with
  | nil => rfl
  | cons letter rest inductionHypothesis => rw [replay, List.map_cons, inductionHypothesis]

theorem replay_length (before query : List Nat) : (replay address before query).length = query.length := by
  rw [← List.length_map AddressMapEntry.letter, replay_letters]

variable {address} in
/-- Every entry of the map is one use of its letter. -/
theorem mem_replay {before query : List Nat} {entry : AddressMapEntry}
    (inside : entry ∈ replay address before query) :
    entry.letter ∈ query ∧ ∃ use, before.count entry.letter ≤ use ∧
      use < (before ++ query).count entry.letter ∧ entry.address = address entry.letter use := by
  induction query generalizing before with
  | nil => exact (List.not_mem_nil inside).elim
  | cons letter rest inductionHypothesis =>
      rw [replay] at inside
      rcases List.mem_cons.mp inside with rfl | later
      · refine ⟨List.mem_cons_self, before.count letter, Nat.le_refl _, ?_, rfl⟩
        simp only [List.count_append, List.count_cons_self]
        omega
      · rcases inductionHypothesis later with ⟨known, use, atLeast, below, same⟩
        refine ⟨List.mem_cons_of_mem _ known, use, ?_, ?_, same⟩
        · exact Nat.le_trans (by rw [List.count_append]; exact Nat.le_add_right _ _) atLeast
        · rwa [List.append_assoc, List.singleton_append] at below

theorem addressMapContainsLetter_replay (before query : List Nat) (letter : Nat) :
    addressMapContainsLetter letter (replay address before query) = true ↔ letter ∈ query := by
  rw [addressMapContainsLetter, List.any_eq_true]
  constructor
  · rintro ⟨entry, inside, same⟩
    rw [← beq_iff_eq.mp same]
    exact (mem_replay inside).1
  · intro known
    rw [← replay_letters address before query] at known
    rcases List.mem_map.mp known with ⟨entry, inside, same⟩
    exact ⟨entry, inside, beq_iff_eq.mpr same⟩

variable {address} in
/-- The first entry of a letter is its first use. -/
theorem find_replay {before query : List Nat} {letter : Nat} (known : letter ∈ query) :
    (replay address before query).find? (fun entry => entry.letter == letter) =
      some ⟨letter, address letter (before.count letter)⟩ := by
  induction query generalizing before with
  | nil => exact (List.not_mem_nil known).elim
  | cons first rest inductionHypothesis =>
      rw [replay]
      by_cases same : first = letter
      · subst same
        exact List.find?_cons_of_pos (beq_self_eq_true first)
      · have differs : (first == letter) = false := beq_eq_false_iff_ne.mpr same
        simp only [List.find?_cons, differs]
        rw [inductionHypothesis ((List.mem_cons.mp known).resolve_left fun equal => same equal.symm),
          List.count_append, List.count_singleton, if_neg (fun equal => same (beq_iff_eq.mp equal)),
          Nat.add_zero]

/-- The last entry of a letter is its last use. -/
theorem find_replay_reverse (query : List Nat) (letter : Nat) :
    (replay address [] query).reverse.find? (fun entry => entry.letter == letter) =
      if letter ∈ query then some ⟨letter, address letter (query.count letter - 1)⟩ else none := by
  induction query using List.reverseRecOn with
  | nil => rfl
  | append_singleton query last inductionHypothesis =>
      rw [replay_concat, List.reverse_append, List.reverse_singleton, List.singleton_append, List.nil_append]
      by_cases same : last = letter
      · subst same
        simp only [List.find?_cons, beq_self_eq_true]
        rw [if_pos (List.mem_append_right _ List.mem_cons_self), List.count_append,
          List.count_singleton_self, Nat.add_sub_cancel]
      · have old : letter ∈ query ++ [last] ↔ letter ∈ query := by
          rw [List.mem_append, List.mem_singleton]
          exact or_iff_left fun equal => same equal.symm
        have differs : (last == letter) = false := beq_eq_false_iff_ne.mpr same
        simp only [List.find?_cons, differs]
        rw [inductionHypothesis, List.count_append, List.count_singleton, if_neg (fun equal => same (beq_iff_eq.mp equal)),
          Nat.add_zero]
        exact if_congr old.symm rfl rfl

variable {address} in
/-- No address repeats, if different uses have different pages. -/
theorem replay_nodup {query : List Nat}
    (apart : ∀ first, first ∈ query -> ∀ second, second ∈ query -> ∀ use use',
      use < query.count first -> use' < query.count second -> address first use = address second use' ->
        first = second ∧ use = use') :
    ((replay address [] query).map AddressMapEntry.address).Nodup := by
  induction query using List.reverseRecOn with
  | nil => exact List.nodup_nil
  | append_singleton query last inductionHypothesis =>
      have counts : ∀ letter, query.count letter ≤ (query ++ [last]).count letter := fun letter => by
        rw [List.count_append]
        exact Nat.le_add_right _ _
      rw [replay_concat, List.map_append, List.nil_append]
      refine List.nodup_append'.mpr ⟨?_, List.nodup_singleton _, ?_⟩
      · apply inductionHypothesis
        intro first known second known' use use' below below'
        exact apart first (List.mem_append_left _ known) second (List.mem_append_left _ known') use use'
          (Nat.lt_of_lt_of_le below (counts first)) (Nat.lt_of_lt_of_le below' (counts second))
      · intro page inside single
        rcases List.mem_map.mp inside with ⟨entry, known, rfl⟩
        rcases mem_replay known with ⟨inQuery, use, _, below, same⟩
        have lastUse : query.count last < (query ++ [last]).count last := by
          rw [List.count_append, List.count_singleton_self]
          exact Nat.lt_succ_self _
        have equal := apart entry.letter (List.mem_append_left _ inQuery) last
          (List.mem_append_right _ List.mem_cons_self) use (query.count last)
          (Nat.lt_of_lt_of_le below (counts _)) lastUse (same.symm.trans (List.mem_singleton.mp single))
        rw [List.nil_append, equal.1, equal.2] at below
        exact Nat.lt_irrefl _ below

end CacheQuery
end Talbot
