import Talbot.Foundations.NestedCaches
import Talbot.Machine.TranslationCaches

namespace Talbot

/-!
The translation caches of two consecutive levels.

Every access uses its entry of the lower level and the entry above it.  The
chain of the nesting experiment visits the first lower entry of each of its
upper entries, and so it uses the lower cache as well.
-/

open Foundations

/-- The structures of two consecutive levels, and whether the lower cache is
nested in the upper one. -/
structure NestingGeometry where
  lower : CacheGeometry
  upper : CacheGeometry
  nested : Bool

namespace NestingGeometry

variable (geometry : NestingGeometry)

/-- 512 entries share the entry above them.  Both caches keep the indices and the
ways of their own geometry; only what an eviction in the upper one takes with it
depends on `nested`. -/
def hierarchy : CacheHierarchy Nat Nat Nat Nat where
  parent entry := entry / 512
  index := geometry.lower.index
  ways := geometry.lower.ways
  parentIndex := geometry.upper.index
  parentWays := geometry.upper.ways
  nested := geometry.nested

/-- Both caches are emptied together; the lower one decides what a probe of its
level finds. -/
@[reducible] def model (level : Nat) : TranslationModel where
  State := HierarchyState Nat Nat Nat Nat
  empty := CacheHierarchy.empty
  access state address := geometry.hierarchy.access state (entryOf level address)
  holds state address :=
    decide (entryOf level address ∈ state.lower (geometry.lower.index (entryOf level address)))

/-- The upper entries of the chain that starts above a lower entry. -/
def upperLinks (entry : Nat) : List Nat :=
  (List.range geometry.upper.ways).map fun i =>
    geometry.upper.hash.entry geometry.upper.setBits (entry / 512) (i + 1)

/-- The lower entries that this chain accesses. -/
def lowerLinks (entry : Nat) : List Nat :=
  (geometry.upperLinks entry).map (· * 512)

/-- So many links fall into the target's lower set that they fill it.  The lower
cache then loses the target by itself, whether or not the levels are nested. -/
def Crowded (entry : Nat) : Prop :=
  geometry.lower.ways ≤
    ((geometry.lowerLinks entry).filter fun other =>
      geometry.lower.index other = geometry.lower.index entry).length

instance (entry : Nat) : Decidable (geometry.Crowded entry) :=
  inferInstanceAs (Decidable (_ ≤ _))

theorem upperLinks_nodup (entry : Nat) : (entry / 512 :: geometry.upperLinks entry).Nodup := by
  have enumerated : entry / 512 :: geometry.upperLinks entry = (List.range (geometry.upper.ways + 1)).map
      (geometry.upper.hash.entry geometry.upper.setBits (entry / 512)) := by
    rw [List.range_succ_eq_map, List.map_cons, HashFunction.entry_zero, List.map_map]
    rfl
  rw [enumerated]
  exact List.nodup_range.map (geometry.upper.hash.entry_strictMono _ _).injective

theorem lowerLinks_parents (entry : Nat) :
    (entry :: geometry.lowerLinks entry).map geometry.hierarchy.parent =
      entry / 512 :: geometry.upperLinks entry := by
  rw [List.map_cons, lowerLinks, List.map_map]
  congr 1
  refine (List.map_congr_left fun upper _ => ?_).trans (List.map_id _)
  exact Nat.mul_div_cancel upper (by decide)

theorem lowerLinks_nodup (entry : Nat) : (entry :: geometry.lowerLinks entry).Nodup := by
  apply List.Nodup.of_map geometry.hierarchy.parent
  rw [lowerLinks_parents]
  exact geometry.upperLinks_nodup entry

/-! ## What the chain does to the target -/

/-- The upper entry of the target is gone after the chain. -/
theorem upper_evicted (entry : Nat) :
    entry / 512 ∉ ((entry :: geometry.lowerLinks entry).foldl geometry.hierarchy.access
      CacheHierarchy.empty).upper (geometry.upper.index (entry / 512)) := by
  have sameSet : (geometry.upperLinks entry).filter (fun upper =>
      geometry.upper.index upper = geometry.upper.index (entry / 512)) = geometry.upperLinks entry := by
    apply List.filter_eq_self.mpr
    intro upper known
    rcases List.mem_map.mp known with ⟨i, _, rfl⟩
    exact decide_eq_true (geometry.upper.hash.set_entry _ _ _)
  have full : (geometry.upperLinks entry).length = geometry.upper.ways := by
    rw [upperLinks, List.length_map, List.length_range]
  rw [CacheHierarchy.foldl_upper, lowerLinks_parents]
  intro survives
  have few := (lru_holds_first geometry.upper.index geometry.upper.ways (geometry.upperLinks_nodup entry)).mp survives
  rw [sameSet, full] at few
  exact Nat.lt_irrefl _ few

variable {geometry} {level entry : Nat}

/-- The target itself is gone if the hierarchy is nested, or if the links of the
chain fill its lower set. -/
theorem lower_evicted_iff (positive : 0 < geometry.upper.ways) (entry : Nat) :
    entry ∉ ((entry :: geometry.lowerLinks entry).foldl geometry.hierarchy.access
        CacheHierarchy.empty).lower (geometry.lower.index entry) ↔
      geometry.nested = true ∨ geometry.Crowded entry := by
  cases verdict : geometry.nested with
  | true =>
      have inclusive : geometry.hierarchy.Inclusive
          ((entry :: geometry.lowerLinks entry).foldl geometry.hierarchy.access CacheHierarchy.empty) :=
        CacheHierarchy.inclusive_empty.foldl verdict positive _
      refine iff_of_true (fun held => ?_) (Or.inl rfl)
      have parent := inclusive _ entry held
      exact geometry.upper_evicted entry parent
  | false =>
      have survives := lru_holds_first geometry.lower.index geometry.lower.ways (geometry.lowerLinks_nodup entry)
      rw [CacheHierarchy.foldl_lower verdict, Crowded, ← Nat.not_lt]
      simp only [Bool.false_eq_true, false_or]
      exact not_congr survives

/-- For the structures that the evaluation can record, all links fall into the
first lower set. -/
theorem crowded_iff (recorded : geometry.lower.hash = .linHash ∨ geometry.lower.hash = .linShiftHash)
    (few : geometry.lower.setBits ≤ 8) (positive : 0 < geometry.lower.ways) :
    geometry.Crowded entry ↔
      geometry.lower.index entry = 0 ∧ geometry.lower.ways ≤ geometry.upper.ways := by
  have first : ∀ upper, geometry.lower.index (upper * 512) = 0 := by
    intro upper
    have sets : 2 ^ geometry.lower.setBits ∣ 256 :=
      Nat.pow_dvd_pow 2 few
    unfold CacheGeometry.index
    rcases recorded with linear | shifted
    · rw [linear, HashFunction.set]
      exact Nat.mod_eq_zero_of_dvd (dvd_mul_of_dvd_right (sets.trans (by decide)) upper)
    · rw [shifted, HashFunction.set, show upper * 512 / 2 = upper * 256 by omega]
      exact Nat.mod_eq_zero_of_dvd (dvd_mul_of_dvd_right sets upper)
  have length : (geometry.lowerLinks entry).length = geometry.upper.ways := by
    rw [lowerLinks, upperLinks, List.length_map, List.length_map, List.length_range]
  have inFirst : ∀ other, other ∈ geometry.lowerLinks entry -> geometry.lower.index other = 0 := by
    intro other known
    rcases List.mem_map.mp known with ⟨upper, _, rfl⟩
    exact first upper
  unfold Crowded
  by_cases target : geometry.lower.index entry = 0
  · rw [List.filter_eq_self.mpr, length]
    · exact ⟨fun full => ⟨target, full⟩, fun both => both.2⟩
    · intro other known
      exact decide_eq_true ((inFirst other known).trans target.symm)
  · rw [List.filter_eq_nil_iff.mpr, List.length_nil]
    · exact iff_of_false (Nat.not_le.mpr positive) fun both => target both.1
    · intro other known same
      exact target ((of_decide_eq_true same).symm.trans (inFirst other known))

/-! ## The same on addresses -/

/-- An upper entry starts where the first lower entry under it starts. -/
theorem pageAddress_succ (isLevel : IsLevel level) (upper : Nat) :
    pageAddress (level + 1) upper 0 = pageAddress level (upper * 512) 0 := by
  rcases isLevel with ⟨least, most⟩
  interval_cases level <;>
  · simp only [pageAddress_zero, Nat.shiftLeft_eq, pageTableIndexShift]
    ring

end NestingGeometry

end Talbot
