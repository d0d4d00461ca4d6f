import Mathlib.Data.List.Perm.Subperm
import Talbot.Foundations.NestedCaches

namespace Talbot
namespace Foundations

/-!
A cache behind smaller ones.

A small cache only passes on the accesses that it does not answer itself.  Of
distinct accesses it answers at most as many as it holds entries, so a burst of
enough distinct accesses still drives everything else out of the cache behind it.
-/

variable {Entry : Type} [DecidableEq Entry]

/-- The accesses that a cache of `ways` entries passes on. -/
def passed (ways : Nat) : List Entry -> List Entry -> List Entry
  | _, [] => []
  | held, entry :: rest =>
      if entry ∈ held then passed ways (accessSet ways held entry) rest
      else entry :: passed ways (accessSet ways held entry) rest

theorem passed_sublist (ways : Nat) (held accesses : List Entry) : (passed ways held accesses).Sublist accesses := by
  induction accesses generalizing held with
  | nil => exact List.Sublist.refl _
  | cons entry rest inductionHypothesis =>
      rw [passed]
      split
      · exact (inductionHypothesis _).cons entry
      · exact (inductionHypothesis _).cons_cons entry

/-- Only what was held from the beginning is answered. -/
theorem length_le_passed_add {ways : Nat} {held accesses : List Entry} (distinct : accesses.Nodup) :
    accesses.length ≤ (passed ways held accesses).length + accesses.countP fun entry => decide (entry ∈ held) := by
  induction accesses generalizing held with
  | nil => exact Nat.zero_le _
  | cons entry rest inductionHypothesis =>
      rcases List.nodup_cons.mp distinct with ⟨fresh, distinct⟩
      have later := @inductionHypothesis (accessSet ways held entry) distinct
      have fewer : (rest.countP fun other => decide (other ∈ accessSet ways held entry)) ≤
          rest.countP fun other => decide (other ∈ held) := by
        apply List.countP_mono_left
        intro other inside known
        apply decide_eq_true
        rcases mem_of_mem_accessSet (of_decide_eq_true known) with rfl | old
        · exact absurd inside fresh
        · exact old
      rw [passed, List.length_cons, List.countP_cons]
      by_cases answered : entry ∈ held
      · rw [if_pos answered, decide_eq_true answered, if_pos rfl]
        omega
      · rw [if_neg answered, decide_eq_false answered, if_neg Bool.false_ne_true, List.length_cons]
        omega

theorem length_le_passed {ways : Nat} {held accesses : List Entry} (distinct : accesses.Nodup) :
    accesses.length ≤ (passed ways held accesses).length + held.length := by
  have answered : (accesses.countP fun entry => decide (entry ∈ held)) ≤ held.length := by
    rw [List.countP_eq_length_filter]
    apply ((distinct.filter _).subperm _).length_le
    intro entry inside
    exact of_decide_eq_true (List.mem_filter.mp inside).2
  have bound := @length_le_passed_add _ _ ways held accesses distinct
  omega

theorem accessSet_length_le (ways : Nat) (held : List Entry) (entry : Entry) :
    (accessSet ways held entry).length ≤ ways :=
  List.length_take_le _ _

theorem mem_accessSet_self_iff {ways : Nat} {held : List Entry} {entry : Entry} :
    entry ∈ accessSet ways held entry ↔ 0 < ways := by
  constructor
  · intro known
    apply Nat.pos_of_ne_zero
    rintro rfl
    rw [accessSet, List.take_zero] at known
    cases known
  · exact mem_accessSet_self

/-- An entry stays until as many others have come as there are ways. -/
theorem mem_flooded {ways : Nat} {held accesses : List Entry} {entry : Entry} (distinct : held.Nodup)
    (fresh : entry ∉ accesses) (apart : accesses.Nodup) :
    entry ∈ accesses.foldl (accessSet ways) (accessSet ways held entry) ↔ accesses.length < ways := by
  rw [accessSet, foldl_accessSet, mem_take_touchAll distinct fresh, apart.dedup]

end Foundations
end Talbot
