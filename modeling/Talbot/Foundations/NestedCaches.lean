import Talbot.Foundations.Recency

namespace Talbot
namespace Foundations

/-!
Two least-recently-used caches of one hierarchy.

Every entry of the lower cache has a parent in the upper one, and every access
uses both.  In a nested hierarchy the upper cache takes the entries below a
parent along when it evicts that parent; otherwise the two caches do not affect
each other.
-/

/-- What the two caches hold. -/
structure HierarchyState (Index Entry ParentIndex Parent : Type) where
  lower : LruState Index Entry
  upper : LruState ParentIndex Parent

structure CacheHierarchy (Index Entry ParentIndex Parent : Type) where
  parent : Entry -> Parent
  index : Entry -> Index
  ways : Nat
  parentIndex : Parent -> ParentIndex
  parentWays : Nat
  nested : Bool

section Membership

variable {Entry : Type} [DecidableEq Entry] {ways : Nat} {held : List Entry} {entry other : Entry}

theorem mem_accessSet_self (positive : 0 < ways) : entry ∈ accessSet ways held entry := by
  rw [accessSet, touch, List.take_cons positive]
  exact List.mem_cons_self

theorem mem_of_mem_accessSet (inside : other ∈ accessSet ways held entry) : other = entry ∨ other ∈ held := by
  rcases List.mem_cons.mp (List.mem_of_mem_take inside) with same | old
  · exact Or.inl same
  · exact Or.inr (List.mem_of_mem_erase old)

end Membership

namespace CacheHierarchy

variable {Index Entry ParentIndex Parent : Type}
  [DecidableEq Index] [DecidableEq Entry] [DecidableEq ParentIndex] [DecidableEq Parent]
  (hierarchy : CacheHierarchy Index Entry ParentIndex Parent)

def empty : HierarchyState Index Entry ParentIndex Parent where
  lower _ := []
  upper _ := []

/-- The parents that the upper cache evicts on an access. -/
def evicted (state : HierarchyState Index Entry ParentIndex Parent) (entry : Entry) : List Parent :=
  let held := state.upper (hierarchy.parentIndex (hierarchy.parent entry))
  held.filter fun parent => decide (parent ∉ accessSet hierarchy.parentWays held (hierarchy.parent entry))

/-- What is left of the lower cache after the upper one has made room. -/
def surviving (state : HierarchyState Index Entry ParentIndex Parent) (entry : Entry) :
    LruState Index Entry :=
  if hierarchy.nested then
    fun set => (state.lower set).filter fun other =>
      decide (hierarchy.parent other ∉ hierarchy.evicted state entry)
  else state.lower

def access (state : HierarchyState Index Entry ParentIndex Parent) (entry : Entry) :
    HierarchyState Index Entry ParentIndex Parent where
  lower := accessLru hierarchy.index hierarchy.ways (hierarchy.surviving state entry) entry
  upper := accessLru hierarchy.parentIndex hierarchy.parentWays state.upper (hierarchy.parent entry)

variable {hierarchy} {state : HierarchyState Index Entry ParentIndex Parent} {entry : Entry}

@[simp] theorem access_lower : (hierarchy.access state entry).lower =
    accessLru hierarchy.index hierarchy.ways (hierarchy.surviving state entry) entry :=
  rfl

@[simp] theorem access_upper : (hierarchy.access state entry).upper =
    accessLru hierarchy.parentIndex hierarchy.parentWays state.upper (hierarchy.parent entry) :=
  rfl

/-- The upper cache only sees the parents. -/
theorem foldl_upper (accesses : List Entry) (state : HierarchyState Index Entry ParentIndex Parent) :
    (accesses.foldl hierarchy.access state).upper =
      (accesses.map hierarchy.parent).foldl (accessLru hierarchy.parentIndex hierarchy.parentWays)
        state.upper := by
  induction accesses generalizing state with
  | nil => rfl
  | cons entry rest inductionHypothesis =>
      rw [List.foldl_cons, inductionHypothesis, access_upper, List.map_cons, List.foldl_cons]

/-- Without nesting the lower cache is on its own. -/
theorem foldl_lower (independent : hierarchy.nested = false) (accesses : List Entry)
    (state : HierarchyState Index Entry ParentIndex Parent) :
    (accesses.foldl hierarchy.access state).lower =
      accesses.foldl (accessLru hierarchy.index hierarchy.ways) state.lower := by
  induction accesses generalizing state with
  | nil => rfl
  | cons entry rest inductionHypothesis =>
      rw [List.foldl_cons, inductionHypothesis, access_lower, surviving, independent]
      rfl

/-! ## Inclusion -/

/-- Whatever the lower cache holds, the upper one holds its parent.  Only nested
caches keep this: when the upper one evicts an entry, the lower one drops the
children of this entry. -/
def Inclusive (hierarchy : CacheHierarchy Index Entry ParentIndex Parent)
    (state : HierarchyState Index Entry ParentIndex Parent) : Prop :=
  ∀ set entry, entry ∈ state.lower set ->
    hierarchy.parent entry ∈ state.upper (hierarchy.parentIndex (hierarchy.parent entry))

omit [DecidableEq Index] [DecidableEq Entry] [DecidableEq ParentIndex] [DecidableEq Parent] in
theorem inclusive_empty : hierarchy.Inclusive (empty : HierarchyState Index Entry ParentIndex Parent) :=
  fun _ _ impossible => (List.not_mem_nil impossible).elim

/-- An access keeps the hierarchy inclusive. An older entry is there because it has
survived, so its parent was not the one that was evicted; the entry that was
accessed has its parent from the same access. -/
theorem Inclusive.access
    (inclusive : hierarchy.Inclusive state) (nested : hierarchy.nested = true)
    (positive : 0 < hierarchy.parentWays) (entry : Entry) :
    hierarchy.Inclusive (hierarchy.access state entry) := by
  have own : hierarchy.parent entry ∈
      (hierarchy.access state entry).upper (hierarchy.parentIndex (hierarchy.parent entry)) := by
    rw [access_upper, accessLru, Function.update_self]
    exact mem_accessSet_self positive
  have older : ∀ set other, other ∈ hierarchy.surviving state entry set -> hierarchy.parent other ∈
      (hierarchy.access state entry).upper (hierarchy.parentIndex (hierarchy.parent other)) := by
    intro set other survivor
    rw [surviving, if_pos nested] at survivor
    rcases List.mem_filter.mp survivor with ⟨held, kept⟩
    have known := inclusive set other held
    rw [access_upper, accessLru]
    by_cases same : hierarchy.parentIndex (hierarchy.parent other) =
        hierarchy.parentIndex (hierarchy.parent entry)
    · rw [same] at known ⊢
      rw [Function.update_self]
      by_contra gone
      exact of_decide_eq_true kept (List.mem_filter.mpr ⟨known, decide_eq_true gone⟩)
    · rw [Function.update_of_ne same]
      exact known
  intro set other inside
  rw [access_lower, accessLru] at inside
  by_cases same : set = hierarchy.index entry
  · subst same
    rw [Function.update_self] at inside
    rcases mem_of_mem_accessSet inside with rfl | old
    · exact own
    · exact older _ other old
  · rw [Function.update_of_ne same] at inside
    exact older set other inside

/-- A nested hierarchy stays inclusive. -/
theorem Inclusive.foldl
    (inclusive : hierarchy.Inclusive state) (nested : hierarchy.nested = true)
    (positive : 0 < hierarchy.parentWays) (accesses : List Entry) :
    hierarchy.Inclusive (accesses.foldl hierarchy.access state) := by
  induction accesses generalizing state with
  | nil => exact inclusive
  | cons entry rest inductionHypothesis => exact inductionHypothesis (inclusive.access nested positive entry)

end CacheHierarchy

end Foundations
end Talbot
