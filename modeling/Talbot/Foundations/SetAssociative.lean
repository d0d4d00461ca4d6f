import Mathlib.Data.List.Dedup
import Mathlib.Data.List.Perm.Subperm

namespace Talbot
namespace Foundations

/-!
Set-associative caches with an arbitrary deterministic replacement policy.

The policy sees every access since the cache was emptied and names the entry
to evict; the only thing required of it is that it names a resident entry of
the set that is full.  Two consequences do not depend on the policy: a set
whose accesses never exceed its ways loses nothing, and one access too many
loses exactly one entry.
-/

variable {Entry Index : Type} [DecidableEq Entry] [DecidableEq Index]

/-- A cache geometry with its replacement policy.  Histories list the accesses
since the cache was emptied, the last one first. -/
structure SetAssociative (Entry Index : Type) where
  index : Entry -> Index
  ways : Nat
  victim : List Entry -> Entry

namespace SetAssociative

variable (cache : SetAssociative Entry Index)

/-- The entries of one set among a list. -/
def inSet (set : Index) (entries : List Entry) : List Entry :=
  entries.filter fun entry => cache.index entry = set

/-- What is resident after a history of accesses. -/
def resident : List Entry -> List Entry
  | [] => []
  | entry :: earlier =>
      let held := resident earlier
      if entry ∈ held then held
      else if (cache.inSet (cache.index entry) held).length < cache.ways then entry :: held
      else entry :: held.erase (cache.victim (entry :: earlier))

/-- The policy names a resident entry of the full set. -/
def LegalVictim : Prop :=
  ∀ entry earlier, entry ∉ cache.resident earlier ->
    cache.ways ≤ (cache.inSet (cache.index entry) (cache.resident earlier)).length ->
    cache.victim (entry :: earlier) ∈ cache.resident earlier ∧
      cache.index (cache.victim (entry :: earlier)) = cache.index entry

/-- An access makes its entry resident. -/
theorem mem_resident_cons_self (entry : Entry) (earlier : List Entry) :
    entry ∈ cache.resident (entry :: earlier) := by
  rw [resident]
  by_cases held : entry ∈ cache.resident earlier
  · rw [if_pos held]
    exact held
  · rw [if_neg held]
    by_cases room : (cache.inSet (cache.index entry) (cache.resident earlier)).length < cache.ways
    · rw [if_pos room]
      exact List.mem_cons_self
    · rw [if_neg room]
      exact List.mem_cons_self

/-- An access keeps everything but its victim. -/
theorem mem_resident_cons {other entry : Entry} {earlier : List Entry}
    (member : other ∈ cache.resident earlier) (spared : other ≠ cache.victim (entry :: earlier)) :
    other ∈ cache.resident (entry :: earlier) := by
  rw [resident]
  by_cases held : entry ∈ cache.resident earlier
  · rw [if_pos held]
    exact member
  · rw [if_neg held]
    by_cases room : (cache.inSet (cache.index entry) (cache.resident earlier)).length < cache.ways
    · rw [if_pos room]
      exact List.mem_cons_of_mem _ member
    · rw [if_neg room]
      exact List.mem_cons_of_mem _ ((List.mem_erase_of_ne spared).mpr member)

theorem resident_nodup (history : List Entry) : (cache.resident history).Nodup := by
  induction history with
  | nil => exact List.nodup_nil
  | cons entry earlier inductionHypothesis =>
      rw [resident]
      by_cases held : entry ∈ cache.resident earlier
      · rw [if_pos held]
        exact inductionHypothesis
      · rw [if_neg held]
        by_cases room : (cache.inSet (cache.index entry) (cache.resident earlier)).length < cache.ways
        · rw [if_pos room]
          exact List.nodup_cons.mpr ⟨held, inductionHypothesis⟩
        · rw [if_neg room]
          exact List.nodup_cons.mpr
            ⟨fun member => held (List.mem_of_mem_erase member), inductionHypothesis.erase _⟩

theorem resident_subset (history : List Entry) : cache.resident history ⊆ history := by
  induction history with
  | nil => exact List.Subset.refl _
  | cons entry earlier inductionHypothesis =>
      intro other
      rw [resident]
      by_cases held : entry ∈ cache.resident earlier
      · rw [if_pos held]
        exact fun member => List.mem_cons_of_mem _ (inductionHypothesis member)
      · rw [if_neg held]
        by_cases room : (cache.inSet (cache.index entry) (cache.resident earlier)).length < cache.ways
        · rw [if_pos room]
          exact fun member => List.cons_subset_cons entry inductionHypothesis member
        · rw [if_neg room]
          intro member
          rcases List.mem_cons.mp member with same | member
          · exact List.mem_cons.mpr (Or.inl same)
          · exact List.mem_cons_of_mem _ (inductionHypothesis (List.mem_of_mem_erase member))

/-- Distinct entries of a set that were accessed bound what the set holds. -/
theorem inSet_resident_length_le (set : Index) (history : List Entry) :
    (cache.inSet set (cache.resident history)).length ≤ (cache.inSet set history).dedup.length := by
  apply List.Subperm.length_le
  apply List.subperm_of_subset ((cache.resident_nodup history).filter _)
  intro entry member
  rw [List.mem_dedup]
  exact List.mem_filter.mpr ⟨cache.resident_subset history (List.mem_filter.mp member).1,
    (List.mem_filter.mp member).2⟩

theorem inSet_cons_dedup_length (entry : Entry) (earlier : List Entry) (fresh : entry ∉ earlier) :
    (cache.inSet (cache.index entry) (entry :: earlier)).dedup.length =
      (cache.inSet (cache.index entry) earlier).dedup.length + 1 := by
  unfold inSet
  rw [List.filter_cons_of_pos (by simp), List.dedup_cons_of_notMem, List.length_cons]
  exact fun member => fresh (List.mem_filter.mp member).1

theorem inSet_dedup_length_le (set : Index) (entry : Entry) (earlier : List Entry) :
    (cache.inSet set earlier).dedup.length ≤ (cache.inSet set (entry :: earlier)).dedup.length := by
  apply List.Subperm.length_le
  apply List.subperm_of_subset (List.nodup_dedup _)
  intro other member
  rw [List.mem_dedup] at member ⊢
  have parts := List.mem_filter.mp member
  exact List.mem_filter.mpr ⟨List.mem_cons_of_mem _ parts.1, parts.2⟩

/-- A set that has seen no more distinct entries than it has ways still holds all of
them, whatever the other sets did. A full set that receives a new entry has seen
more entries than it has ways. -/
theorem resident_of_few (legal : cache.LegalVictim) (set : Index) (history : List Entry)
    (few : (cache.inSet set history).dedup.length ≤ cache.ways) :
    ∀ entry, entry ∈ history -> cache.index entry = set -> entry ∈ cache.resident history := by
  induction history with
  | nil =>
      intro entry accessed
      cases accessed
  | cons last earlier inductionHypothesis =>
      have before := inductionHypothesis
        (Nat.le_trans (cache.inSet_dedup_length_le set last earlier) few)
      intro entry accessed inside
      rw [resident]
      by_cases held : last ∈ cache.resident earlier
      · rw [if_pos held]
        rcases List.mem_cons.mp accessed with rfl | accessed
        · exact held
        · exact before entry accessed inside
      · rw [if_neg held]
        by_cases room : (cache.inSet (cache.index last) (cache.resident earlier)).length < cache.ways
        · rw [if_pos room]
          rcases List.mem_cons.mp accessed with rfl | accessed
          · exact List.mem_cons_self
          · exact List.mem_cons_of_mem _ (before entry accessed inside)
        · rw [if_neg room]
          rcases List.mem_cons.mp accessed with rfl | accessed
          · exact List.mem_cons_self
          · apply List.mem_cons_of_mem
            have chosen := legal last earlier held (Nat.le_of_not_lt room)
            have other : entry ≠ cache.victim (last :: earlier) := by
              intro same
              have sameSet : cache.index last = set := by rw [← chosen.2, ← same, inside]
              have fresh : last ∉ earlier := fun again => held (before last again sameSet)
              have more := cache.inSet_cons_dedup_length last earlier fresh
              have full := cache.inSet_resident_length_le (cache.index last) earlier
              rw [← sameSet] at few
              omega
            exact (List.mem_erase_of_ne other).mpr (before entry accessed inside)

/-- Filling a set with its ways and accessing one more of its entries evicts
exactly one of the earlier ones. -/
theorem one_too_many (legal : cache.LegalVictim) (set : Index) (last : Entry) (earlier : List Entry)
    (distinct : (last :: earlier).Nodup) (inside : ∀ entry, entry ∈ last :: earlier -> cache.index entry = set)
    (full : earlier.length = cache.ways) :
    ∃ victim, victim ∈ earlier ∧
      ∀ entry, entry ∈ earlier -> (entry ∈ cache.resident (last :: earlier) ↔ entry ≠ victim) := by
  have parts := List.nodup_cons.mp distinct
  have allInside : cache.inSet set earlier = earlier := by
    apply List.filter_eq_self.mpr
    intro entry member
    exact decide_eq_true (inside entry (List.mem_cons_of_mem _ member))
  have filled : ∀ entry, entry ∈ earlier -> entry ∈ cache.resident earlier := by
    intro entry member
    apply cache.resident_of_few legal set earlier _ entry member (inside entry (List.mem_cons_of_mem _ member))
    rw [allInside, parts.2.dedup]
    exact Nat.le_of_eq full
  have held : last ∉ cache.resident earlier :=
    fun member => parts.1 (cache.resident_subset earlier member)
  have lastSet : cache.index last = set := inside last List.mem_cons_self
  have noRoom : cache.ways ≤ (cache.inSet (cache.index last) (cache.resident earlier)).length := by
    rw [← full]
    apply List.Subperm.length_le
    apply List.subperm_of_subset parts.2
    intro entry member
    refine List.mem_filter.mpr ⟨filled entry member, decide_eq_true ?_⟩
    rw [inside entry (List.mem_cons_of_mem _ member), lastSet]
  have chosen := legal last earlier held noRoom
  refine ⟨cache.victim (last :: earlier), cache.resident_subset earlier chosen.1, ?_⟩
  intro entry member
  have different : entry ≠ last := by
    rintro rfl
    exact parts.1 member
  rw [resident, if_neg held, if_neg (Nat.not_lt_of_ge noRoom), List.mem_cons]
  constructor
  · rintro (same | kept) rfl
    · exact different same
    · exact (cache.resident_nodup earlier).not_mem_erase kept
  · intro other
    exact Or.inr ((List.mem_erase_of_ne other).mpr (filled entry member))

/-! ## A legal policy -/

/-- Evict the entry of the set that was used last. -/
def mostRecent [Inhabited Entry] (index : Entry -> Index) : List Entry -> Entry
  | [] => default
  | entry :: earlier => (earlier.find? fun other => decide (index other = index entry)).getD entry

variable [Inhabited Entry] (index : Entry -> Index) (ways : Nat)

/-- The entry of a set that was used last is still resident. A victim is chosen in
the set of the new entry, and there the new entry is the one that was used last. -/
theorem mostRecent_resident {set : Index} {recent : Entry} (history : List Entry)
    (found : history.find? (fun other => decide (index other = set)) = some recent) :
    recent ∈ (SetAssociative.mk index ways (mostRecent index)).resident history := by
  have recentInside : index recent = set := by simpa only [decide_eq_true_eq] using List.find?_some found
  induction history with
  | nil => cases found
  | cons entry earlier inductionHypothesis =>
      by_cases inside : index entry = set
      · simp only [List.find?_cons, decide_eq_true inside, Option.some.injEq] at found
        subst found
        exact mem_resident_cons_self _ _ _
      · simp only [List.find?_cons, decide_eq_false inside] at found
        apply mem_resident_cons _ (inductionHypothesis found)
        intro same
        have victim : recent = (earlier.find? fun other => decide (index other = index entry)).getD entry := same
        cases other : earlier.find? fun other => decide (index other = index entry) with
        | none =>
            rw [other, Option.getD_none] at victim
            exact inside (victim ▸ recentInside)
        | some chosen =>
            rw [other, Option.getD_some] at victim
            have chosenInside : index chosen = index entry := by
              simpa only [decide_eq_true_eq] using List.find?_some other
            exact inside (chosenInside.symm.trans (victim ▸ recentInside))

theorem mostRecent_legal (positive : 0 < ways) :
    (SetAssociative.mk index ways (mostRecent index)).LegalVictim := by
  intro entry earlier _ full
  rcases List.exists_mem_of_length_pos (Nat.lt_of_lt_of_le positive full) with ⟨other, member⟩
  have held := (List.mem_filter.mp member).1
  cases found : earlier.find? fun other => decide (index other = index entry) with
  | none =>
      exact (List.find?_eq_none.mp found other (resident_subset _ earlier held)
        (List.mem_filter.mp member).2).elim
  | some victim =>
      have chosen : mostRecent index (entry :: earlier) = victim := by
        rw [mostRecent, found, Option.getD_some]
      rw [show (SetAssociative.mk index ways (mostRecent index)).victim (entry :: earlier) = victim from chosen]
      refine ⟨mostRecent_resident index ways earlier found, ?_⟩
      simpa only [decide_eq_true_eq] using List.find?_some found

end SetAssociative
end Foundations
end Talbot
