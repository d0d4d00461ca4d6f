import Mathlib.Data.List.MinMax
import Talbot.Foundations.Recency

namespace Talbot
namespace Foundations

/-!
Counting in the order of first appearance.

A tally counts how often each key has been seen, and lists the keys in the order
in which they were first seen.  A most frequent key of a tally is the first one
of the input that nothing exceeds: its count does not depend on the order of the
input, but where keys are level, the choice between them does.
-/

abbrev Tally (Key : Type) : Type :=
  List (Key × Nat)

namespace Tally

variable {Key : Type} [DecidableEq Key]

/-- Count a key once more; a new key comes last. -/
def add (key : Key) : Tally Key -> Tally Key
  | [] => [(key, 1)]
  | (first, amount) :: rest =>
      if first = key then (first, amount + 1) :: rest else (first, amount) :: add key rest

/-- How often a key has been counted. -/
def count (key : Key) : Tally Key -> Nat
  | [] => 0
  | (first, amount) :: rest => if first = key then amount else count key rest

/-- The first key with the largest count.  Among equal counts the key that was
counted first wins, as with `max` over a dictionary. -/
def most (tally : Tally Key) : Option Key :=
  (List.argmax Prod.snd tally).map Prod.fst

/-- The tally of some keys, which are counted one after the other. -/
def ofKeys (keys : List Key) : Tally Key :=
  keys.foldl (fun tally key => tally.add key) []

/-! ## Keys with their counts -/

theorem add_map (keys : List Key) (amount : Key -> Nat) (key : Key) (distinct : keys.Nodup) :
    add key (keys.map fun other => (other, amount other)) =
      if key ∈ keys then keys.map fun other => (other, if other = key then amount other + 1 else amount other)
      else keys.map (fun other => (other, amount other)) ++ [(key, 1)] := by
  induction keys with
  | nil => rfl
  | cons first rest inductionHypothesis =>
      rcases List.nodup_cons.mp distinct with ⟨new, distinct⟩
      rw [List.map_cons, add, inductionHypothesis distinct]
      by_cases here : first = key
      · subst here
        have others : ∀ other, other ∈ rest -> other ≠ first := fun other inside same => new (same ▸ inside)
        rw [if_pos rfl, if_pos List.mem_cons_self, List.map_cons, if_pos rfl]
        congr 1
        exact List.map_congr_left fun other inside => by rw [if_neg (others other inside)]
      · have same : key ∈ first :: rest ↔ key ∈ rest :=
          List.mem_cons.trans (or_iff_right fun equal => here equal.symm)
        rw [if_neg here]
        by_cases known : key ∈ rest
        · rw [if_pos known, if_pos (same.mpr known), List.map_cons, if_neg here]
        · rw [if_neg known, if_neg fun inside => known (same.mp inside), List.cons_append]

theorem count_map (keys : List Key) (amount : Key -> Nat) (key : Key) :
    count key (keys.map fun other => (other, amount other)) = if key ∈ keys then amount key else 0 := by
  induction keys with
  | nil => rfl
  | cons first rest inductionHypothesis =>
      rw [List.map_cons, count, inductionHypothesis]
      by_cases here : first = key
      · subst here
        rw [if_pos rfl, if_pos List.mem_cons_self]
      · have same : key ∈ first :: rest ↔ key ∈ rest :=
          List.mem_cons.trans (or_iff_right fun equal => here equal.symm)
        rw [if_neg here]
        exact if_congr same.symm rfl rfl

/-! ## The first largest key -/

/-- The first largest element is the first one that nothing exceeds. -/
theorem argmax_eq_find {Element : Type} [DecidableEq Element] (elements : List Element) (amount : Element -> Nat) :
    elements.argmax amount =
      elements.find? fun element => decide (∀ other, other ∈ elements -> amount other ≤ amount element) := by
  cases largest : elements.argmax amount with
  | none =>
      rw [List.argmax_eq_none.mp largest]
      rfl
  | some element =>
      rcases List.argmax_eq_some_iff.mp largest with ⟨inside, above, earliest⟩
      rcases List.eq_append_cons_of_mem inside with ⟨before, after, split, new⟩
      symm
      rw [List.find?_eq_some_iff_append]
      refine ⟨decide_eq_true above, before, after, split, ?_⟩
      intro other early
      have known : other ∈ elements := by
        rw [split]
        exact List.mem_append_left _ early
      have place : elements.idxOf other < elements.idxOf element := by
        rw [split, List.idxOf_append_of_mem early, List.idxOf_append_of_notMem new, List.idxOf_cons_self]
        exact List.idxOf_lt_length_of_mem early
      rw [Bool.not_eq_true', decide_eq_false_iff_not]
      exact fun level => absurd (earliest other known (level element inside)) (Nat.not_le.mpr place)

/-- Repetitions do not change what is found first. -/
theorem find_firstUses (keys : List Key) (accepts : Key -> Bool) :
    (firstUses keys).find? accepts = keys.find? accepts := by
  induction keys using List.reverseRecOn with
  | nil => rfl
  | append_singleton keys key inductionHypothesis =>
      rw [firstUses_concat, List.find?_append]
      by_cases known : key ∈ keys
      · rw [if_pos known, inductionHypothesis]
        cases found : keys.find? accepts with
        | some first => rfl
        | none =>
            have rejected := List.find?_eq_none.mp found key known
            rw [List.find?_cons_of_neg rejected]
            rfl
      · rw [if_neg known, List.find?_append, inductionHypothesis]

/-! ## The tally of some keys -/

variable [BEq Key]

/-- Nothing is counted more often. -/
def Leads (keys : List Key) (key : Key) : Prop :=
  ∀ other, other ∈ keys -> keys.count other ≤ keys.count key

instance (keys : List Key) (key : Key) : Decidable (Leads keys key) :=
  inferInstanceAs (Decidable (∀ other, other ∈ keys -> _))

variable [LawfulBEq Key]

/-- Every key is listed once, where it first appeared, with the number of its
appearances. -/
theorem ofKeys_eq (keys : List Key) : ofKeys keys = (firstUses keys).map fun key => (key, keys.count key) := by
  induction keys using List.reverseRecOn with
  | nil => rfl
  | append_singleton keys key inductionHypothesis =>
      unfold ofKeys at inductionHypothesis ⊢
      rw [List.foldl_append, inductionHypothesis]
      change add key _ = _
      have counts : ∀ other, (keys ++ [key]).count other =
          if other = key then keys.count other + 1 else keys.count other := by
        intro other
        rw [List.count_append, List.count_singleton]
        by_cases same : other = key
        · rw [if_pos same, if_pos (beq_iff_eq.mpr same.symm)]
        · rw [if_neg same, if_neg fun equal => same (beq_iff_eq.mp equal).symm, Nat.add_zero]
      rw [add_map _ _ _ (firstUses_nodup keys), firstUses_concat]
      by_cases known : key ∈ keys
      · rw [if_pos (mem_firstUses.mpr known), if_pos known]
        exact List.map_congr_left fun other _ => by rw [counts]
      · rw [if_neg fun inside => known (mem_firstUses.mp inside), if_neg known, List.map_append]
        congr 1
        · refine List.map_congr_left fun other inside => ?_
          have differs : other ≠ key := fun same => known (same ▸ mem_firstUses.mp inside)
          rw [counts, if_neg differs]
        · rw [List.map_singleton, counts, if_pos rfl, List.count_eq_zero_of_not_mem known]

/-- A tally counts appearances. -/
theorem count_ofKeys (keys : List Key) (key : Key) : (ofKeys keys).count key = keys.count key := by
  rw [ofKeys_eq, count_map]
  split
  · rfl
  · rename_i absent
    exact (List.count_eq_zero_of_not_mem fun inside => absent (mem_firstUses.mpr inside)).symm

/-- The most frequent key is the first one of the input that nothing exceeds. -/
theorem most_ofKeys (keys : List Key) : (ofKeys keys).most = keys.find? fun key => decide (Leads keys key) := by
  have same : ∀ key, (∀ entry, entry ∈ (firstUses keys).map (fun key => (key, keys.count key)) ->
      entry.2 ≤ keys.count key) ↔ Leads keys key := by
    intro key
    constructor
    · exact fun level other inside => level _ (List.mem_map_of_mem (mem_firstUses.mpr inside))
    · intro leads entry inside
      rcases List.mem_map.mp inside with ⟨other, known, rfl⟩
      exact leads other (mem_firstUses.mp known)
  rw [most, ofKeys_eq, argmax_eq_find, List.find?_map, Option.map_map, ← find_firstUses keys]
  have predicates : ((fun entry => decide (∀ other, other ∈ (firstUses keys).map (fun key => (key, keys.count key)) ->
      other.2 ≤ entry.2)) ∘ fun key => (key, keys.count key)) = fun key => decide (Leads keys key) :=
    funext fun key => decide_eq_decide.mpr (same key)
  rw [predicates]
  exact congrFun Option.map_id _

theorem leads_of_most {keys : List Key} {key : Key} (wins : (ofKeys keys).most = some key) : Leads keys key := by
  rw [most_ofKeys] at wins
  have accepted := List.find?_some wins
  exact of_decide_eq_true accepted

/-- Some key is the most frequent one, unless nothing was counted. -/
theorem most_ofKeys_eq_none {keys : List Key} : (ofKeys keys).most = none ↔ keys = [] := by
  rw [most, Option.map_eq_none_iff, List.argmax_eq_none, ofKeys_eq, List.map_eq_nil_iff]
  constructor
  · intro empty
    refine List.eq_nil_iff_forall_not_mem.mpr fun key inside => ?_
    rw [← mem_firstUses, empty] at inside
    exact List.not_mem_nil inside
  · rintro rfl
    rfl

end Tally
end Foundations
end Talbot
