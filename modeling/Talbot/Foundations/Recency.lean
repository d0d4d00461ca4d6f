import Mathlib.Data.List.Dedup
import Mathlib.Data.List.Nodup
import Mathlib.Logic.Function.Basic

namespace Talbot
namespace Foundations

/-!
Least-recently-used replacement.

A recency list holds distinct entries, the most recently used one first.  Using
an entry moves it to the front.  A cache set with `ways` places that replaces
its least recently used entry holds exactly the first `ways` entries of that
list, so what survives a sequence of accesses is decided by the order in which
the distinct entries were used last.
-/

variable {Entry : Type} [DecidableEq Entry]

/-- Use an entry. -/
def touch (recent : List Entry) (entry : Entry) : List Entry :=
  entry :: recent.erase entry

/-- Use several entries, the first one first. -/
def touchAll (recent accesses : List Entry) : List Entry :=
  accesses.foldl touch recent

@[simp] theorem touchAll_nil (recent : List Entry) : touchAll recent [] = recent :=
  rfl

@[simp] theorem touchAll_cons (recent rest : List Entry) (entry : Entry) :
    touchAll recent (entry :: rest) = touchAll (touch recent entry) rest :=
  rfl

theorem touchAll_append (recent first second : List Entry) :
    touchAll recent (first ++ second) = touchAll (touchAll recent first) second :=
  List.foldl_append

theorem touch_nodup {recent : List Entry} (entry : Entry) (distinct : recent.Nodup) :
    (touch recent entry).Nodup :=
  List.nodup_cons.mpr ⟨distinct.not_mem_erase, distinct.erase entry⟩

theorem touchAll_nodup {recent : List Entry} (accesses : List Entry) (distinct : recent.Nodup) :
    (touchAll recent accesses).Nodup := by
  induction accesses generalizing recent with
  | nil => exact distinct
  | cons entry rest inductionHypothesis => exact inductionHypothesis (touch_nodup entry distinct)

/-- After any accesses, the entries used come first, ordered by their last use;
the others follow in their old order. -/
theorem touchAll_eq {recent : List Entry} (accesses : List Entry) (distinct : recent.Nodup) :
    touchAll recent accesses =
      accesses.dedup.reverse ++ recent.filter fun entry => decide (entry ∉ accesses) := by
  induction accesses generalizing recent with
  | nil =>
      simp only [touchAll_nil, List.dedup_nil, List.reverse_nil, List.nil_append, List.not_mem_nil,
        not_false_eq_true, decide_true, List.filter_true]
  | cons entry rest inductionHypothesis =>
      rw [touchAll_cons, inductionHypothesis (touch_nodup entry distinct), touch,
        distinct.erase_eq_filter, List.filter_cons, List.filter_filter]
      have others : (recent.filter fun other => decide (other ∉ rest) && (other != entry)) =
          recent.filter fun other => decide (other ∉ entry :: rest) := by
        apply List.filter_congr
        intro other _
        by_cases same : other = entry
        · subst same
          simp only [bne_self_eq_false, Bool.and_false, List.mem_cons_self, not_true_eq_false, decide_false]
        · simp only [List.mem_cons, same, false_or, bne_iff_ne.mpr same, Bool.and_true]
      by_cases later : entry ∈ rest
      · rw [List.dedup_cons_of_mem later, others]
        simp only [later, not_true_eq_false, decide_false, Bool.false_eq_true, if_false]
      · rw [List.dedup_cons_of_notMem later, others]
        simp only [later, not_false_eq_true, decide_true, if_true, List.reverse_cons, List.append_assoc,
          List.singleton_append]

/-- What was accessed last comes first, whatever happened before. -/
theorem dedup_append_reverse (before recent : List Entry) :
    (before ++ recent).dedup.reverse =
      recent.dedup.reverse ++ before.dedup.reverse.filter fun entry => decide (entry ∉ recent) := by
  have all := touchAll_eq (before ++ recent) List.nodup_nil
  have first := touchAll_eq before List.nodup_nil
  rw [List.filter_nil, List.append_nil] at all first
  rw [← all, touchAll_append, touchAll_eq recent (touchAll_nodup before List.nodup_nil), first]

/-- Enough recent entries hide all earlier ones. -/
theorem take_recent {ways : Nat} (before recent : List Entry) (enough : ways ≤ recent.dedup.length) :
    (before ++ recent).dedup.reverse.take ways = recent.dedup.reverse.take ways := by
  rw [dedup_append_reverse, List.take_append_of_le_length]
  rwa [List.length_reverse]

omit [DecidableEq Entry] in
/-- With a full set in a known order and some fresh entries after it, as many
entries at the front of the order are gone as fresh ones came. -/
theorem mem_take_after_fresh {ways : Nat} {order fresh : List Entry} {entry : Entry}
    (distinct : order.Nodup) (full : order.length = ways) (few : fresh.length ≤ ways)
    (member : entry ∈ order) (known : entry ∉ fresh) :
    entry ∈ (order ++ fresh).reverse.take ways ↔ entry ∉ order.take fresh.length := by
  have split : (order ++ fresh).reverse.take ways =
      fresh.reverse ++ (order.drop fresh.length).reverse := by
    rw [List.reverse_append, List.take_append, List.length_reverse, List.take_of_length_le
      (by rw [List.length_reverse]; exact few), List.take_reverse, full]
    congr 3
    omega
  have pieces := List.take_append_drop fresh.length order
  rw [← pieces] at distinct member
  have apart := List.disjoint_of_nodup_append distinct
  rw [split, List.mem_append, List.mem_reverse, List.mem_reverse]
  constructor
  · rintro (unknown | later) early
    · exact known unknown
    · exact apart early later
  · intro notEarly
    exact Or.inr ((List.mem_append.mp member).resolve_left notEarly)

/-- Renaming entries apart does not change which ones come last. -/
theorem dedup_map_on {Name : Type} [DecidableEq Name] (rename : Entry -> Name) {accesses : List Entry}
    (apart : ∀ first, first ∈ accesses -> ∀ second, second ∈ accesses ->
      rename first = rename second -> first = second) :
    (accesses.map rename).dedup = accesses.dedup.map rename := by
  induction accesses with
  | nil => rfl
  | cons entry rest inductionHypothesis =>
      have tail := inductionHypothesis fun first known second known' =>
        apart first (List.mem_cons_of_mem _ known) second (List.mem_cons_of_mem _ known')
      rw [List.map_cons]
      by_cases later : entry ∈ rest
      · rw [List.dedup_cons_of_mem later, List.dedup_cons_of_mem (List.mem_map_of_mem later), tail]
      · have fresh : rename entry ∉ rest.map rename := by
          intro known
          rcases List.mem_map.mp known with ⟨other, inRest, same⟩
          rw [apart other (List.mem_cons_of_mem _ inRest) entry List.mem_cons_self same] at inRest
          exact later inRest
        rw [List.dedup_cons_of_notMem later, List.dedup_cons_of_notMem fresh, tail, List.map_cons]

/-- A recent entry is only hidden by other recent ones. -/
theorem mem_take_recent {ways : Nat} {before recent : List Entry} {entry : Entry} (known : entry ∈ recent) :
    entry ∈ (before ++ recent).dedup.reverse.take ways ↔ entry ∈ recent.dedup.reverse.take ways := by
  rw [dedup_append_reverse, List.take_append, List.mem_append]
  constructor
  · rintro (recently | earlier)
    · exact recently
    · exact (of_decide_eq_true (List.mem_filter.mp (List.mem_of_mem_take earlier)).2 known).elim
  · exact Or.inl

/-- What was used once stays among the first `ways` entries until as many others
have been used. -/
theorem mem_take_touchAll {ways : Nat} {recent accesses : List Entry} {entry : Entry} (distinct : recent.Nodup)
    (fresh : entry ∉ accesses) :
    entry ∈ (touchAll (touch recent entry) accesses).take ways ↔ accesses.dedup.length < ways := by
  have later : entry ∉ accesses.dedup.reverse := fun known =>
    fresh (List.mem_dedup.mp (List.mem_reverse.mp known))
  rw [touchAll_eq _ (touch_nodup entry distinct), touch, List.filter_cons, if_pos (decide_eq_true fresh),
    List.take_append, List.length_reverse, List.mem_append]
  constructor
  · rintro (early | last)
    · exact (later (List.mem_of_mem_take early)).elim
    · by_contra full
      rw [Nat.sub_eq_zero_of_le (Nat.le_of_not_lt full), List.take_zero] at last
      exact List.not_mem_nil last
  · intro few
    right
    rw [List.take_cons (Nat.sub_pos_of_lt few)]
    exact List.mem_cons_self

/-! ## The order of first use -/

/-- The distinct entries of a list of accesses, ordered by their first use.
Deduplication keeps the last occurrence, so the list is reversed for it. -/
def firstUses (accesses : List Entry) : List Entry :=
  accesses.reverse.dedup.reverse

@[simp] theorem firstUses_nil : firstUses ([] : List Entry) = [] :=
  rfl

theorem firstUses_nodup (accesses : List Entry) : (firstUses accesses).Nodup :=
  List.nodup_reverse.mpr (List.nodup_dedup _)

@[simp] theorem mem_firstUses {accesses : List Entry} {entry : Entry} :
    entry ∈ firstUses accesses ↔ entry ∈ accesses := by
  rw [firstUses, List.mem_reverse, List.mem_dedup, List.mem_reverse]

theorem firstUses_length_le {accesses : List Entry} : (firstUses accesses).length ≤ accesses.length := by
  calc
    (firstUses accesses).length = accesses.reverse.dedup.length := List.length_reverse
    _ ≤ accesses.reverse.length := (List.dedup_sublist _).length_le
    _ = accesses.length := List.length_reverse

theorem firstUses_concat (accesses : List Entry) (entry : Entry) :
    firstUses (accesses ++ [entry]) =
      if entry ∈ accesses then firstUses accesses else firstUses accesses ++ [entry] := by
  unfold firstUses
  rw [List.reverse_append, List.reverse_singleton, List.singleton_append]
  by_cases known : entry ∈ accesses
  · rw [if_pos known, List.dedup_cons_of_mem (List.mem_reverse.mpr known)]
  · rw [if_neg known, List.dedup_cons_of_notMem (fun inside => known (List.mem_reverse.mp inside)),
      List.reverse_cons]

theorem firstUses_prefix (accesses later : List Entry) :
    firstUses accesses <+: firstUses (accesses ++ later) := by
  induction later generalizing accesses with
  | nil => exact (List.append_nil accesses).symm ▸ List.prefix_refl _
  | cons entry rest inductionHypothesis =>
      have step : firstUses accesses <+: firstUses (accesses ++ [entry]) := by
        rw [firstUses_concat]
        by_cases known : entry ∈ accesses
        · exact (if_pos known).symm ▸ List.prefix_refl _
        · rw [if_neg known]
          exact List.prefix_append _ _
      rw [← List.singleton_append, ← List.append_assoc]
      exact step.trans (inductionHypothesis (accesses ++ [entry]))

/-- A new entry gets the next number. -/
theorem idxOf_firstUses_new {accesses later : List Entry} {entry : Entry} (fresh : entry ∉ accesses) :
    (firstUses (accesses ++ entry :: later)).idxOf entry = (firstUses accesses).length := by
  have begins := firstUses_prefix (accesses ++ [entry]) later
  rw [firstUses_concat, if_neg fresh, List.append_assoc, List.singleton_append] at begins
  rcases begins with ⟨rest, same⟩
  rw [← same, List.append_assoc, List.idxOf_append_of_notMem (fun known => fresh (mem_firstUses.mp known)),
    List.singleton_append, List.idxOf_cons_self, Nat.add_zero]

/-! ## One set of a cache -/

/-- Access an entry of a set with `ways` places.  The entry used last comes first,
so what no longer fits is the entry that was used least recently. -/
def accessSet (ways : Nat) (held : List Entry) (entry : Entry) : List Entry :=
  (touch held entry).take ways

theorem accessSet_nodup {ways : Nat} {held : List Entry} (distinct : held.Nodup) (entry : Entry) :
    (accessSet ways held entry).Nodup :=
  (touch_nodup entry distinct).sublist (List.take_sublist _ _)

theorem take_erase_take (ways : Nat) (recent : List Entry) (entry : Entry) :
    ((recent.take (ways + 1)).erase entry).take ways = (recent.erase entry).take ways := by
  induction recent generalizing ways with
  | nil => simp only [List.take_nil, List.erase_nil]
  | cons head tail inductionHypothesis =>
      rw [List.take_succ_cons]
      by_cases same : head = entry
      · subst same
        rw [List.erase_cons_head, List.erase_cons_head, List.take_take, Nat.min_self]
      · have different : ¬ (head == entry) = true := by simpa only [beq_iff_eq] using same
        rw [List.erase_cons_tail different, List.erase_cons_tail different]
        cases ways with
        | zero => simp only [List.take_zero]
        | succ ways => rw [List.take_succ_cons, List.take_succ_cons, inductionHypothesis]

/-- Holding only the first `ways` entries loses nothing that a later access
could bring back: the set is the front of the full recency list. -/
theorem accessSet_take (ways : Nat) (recent : List Entry) (entry : Entry) :
    accessSet ways (recent.take ways) entry = (touch recent entry).take ways := by
  cases ways with
  | zero => simp only [accessSet, List.take_zero]
  | succ ways =>
      unfold accessSet touch
      rw [List.take_succ_cons, List.take_succ_cons, take_erase_take]

theorem foldl_accessSet (ways : Nat) (recent accesses : List Entry) :
    accesses.foldl (accessSet ways) (recent.take ways) = (touchAll recent accesses).take ways := by
  induction accesses generalizing recent with
  | nil => rfl
  | cons entry rest inductionHypothesis =>
      rw [List.foldl_cons, accessSet_take, inductionHypothesis, touchAll_cons]

/-! ## A set-associative cache -/

variable {Index : Type} [DecidableEq Index]

/-- What every set holds, most recently used first. -/
abbrev LruState (Index Entry : Type) : Type :=
  Index -> List Entry

def accessLru (index : Entry -> Index) (ways : Nat) (state : LruState Index Entry) (entry : Entry) :
    LruState Index Entry :=
  Function.update state (index entry) (accessSet ways (state (index entry)) entry)

/-- Each set only sees the accesses to its own entries. -/
theorem foldl_accessLru (index : Entry -> Index) (ways : Nat) (state : LruState Index Entry)
    (accesses : List Entry) (set : Index) :
    accesses.foldl (accessLru index ways) state set =
      (accesses.filter fun entry => index entry = set).foldl (accessSet ways) (state set) := by
  induction accesses generalizing state with
  | nil => rfl
  | cons entry rest inductionHypothesis =>
      rw [List.foldl_cons, inductionHypothesis]
      by_cases same : index entry = set
      · subst same
        rw [List.filter_cons_of_pos (by simp), List.foldl_cons, accessLru, Function.update_self]
      · rw [List.filter_cons_of_neg (by simpa using same), accessLru,
          Function.update_of_ne (fun equal => same equal.symm)]

/-- Starting from an empty cache, a set holds the `ways` entries of that set
that were used last. -/
theorem lru_holds (index : Entry -> Index) (ways : Nat) (accesses : List Entry) (set : Index) :
    accesses.foldl (accessLru index ways) (fun _ => []) set =
      ((accesses.filter fun entry => index entry = set).dedup.reverse).take ways := by
  have front := foldl_accessSet ways [] (accesses.filter fun entry => index entry = set)
  rw [List.take_nil, touchAll_eq _ List.nodup_nil, List.filter_nil, List.append_nil] at front
  rw [foldl_accessLru, front]

/-- An entry that is accessed once, at the beginning, survives fewer than `ways`
others of its set. -/
theorem lru_holds_first (index : Entry -> Index) (ways : Nat) {first : Entry} {rest : List Entry}
    (distinct : (first :: rest).Nodup) :
    first ∈ (first :: rest).foldl (accessLru index ways) (fun _ => []) (index first) ↔
      (rest.filter fun entry => index entry = index first).length < ways := by
  have fresh : first ∉ rest.filter fun entry => index entry = index first := fun known =>
    (List.nodup_cons.mp distinct).1 (List.mem_of_mem_filter known)
  have once : ((first :: rest).filter fun entry => index entry = index first).dedup.reverse =
      (rest.filter fun entry => index entry = index first).reverse ++ [first] := by
    rw [(distinct.filter _).dedup, List.filter_cons, if_pos (decide_eq_true rfl), List.reverse_cons]
  rw [lru_holds, once, List.take_append, List.length_reverse, List.mem_append]
  constructor
  · rintro (early | last)
    · exact (fresh (List.mem_reverse.mp (List.mem_of_mem_take early))).elim
    · by_contra full
      rw [Nat.sub_eq_zero_of_le (Nat.le_of_not_lt full), List.take_zero] at last
      exact List.not_mem_nil last
  · intro few
    right
    rw [List.take_cons (Nat.sub_pos_of_lt few)]
    exact List.mem_cons_self

end Foundations
end Talbot
