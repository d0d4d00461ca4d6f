import Mathlib.Data.List.Induction
import Talbot.Foundations.Recency

namespace Talbot
namespace Foundations

/-!
Maps that remember the order of their keys.

A map is changed at one key at a time, and a new key starts from a fresh value and
comes last.  After any changes the keys are those of the changes in the order of
their first use, and the value of a key is what its own changes make of the fresh
value.
-/

abbrev OrderedMap (Key Value : Type) : Type :=
  List (Key × Value)

namespace OrderedMap

variable {Key Value : Type} [DecidableEq Key] (fresh : Value)

def change (key : Key) (alter : Value -> Value) : OrderedMap Key Value -> OrderedMap Key Value
  | [] => [(key, alter fresh)]
  | (first, value) :: rest =>
      if first = key then (first, alter value) :: rest else (first, value) :: change key alter rest

/-- The map that some changes make of the empty one. -/
def collect (changes : List (Key × (Value -> Value))) : OrderedMap Key Value :=
  changes.foldl (fun map made => map.change fresh made.1 made.2) []

/-- What the changes of a key make of the fresh value. -/
def valueOf (changes : List (Key × (Value -> Value))) (key : Key) : Value :=
  (changes.filter fun made => decide (made.1 = key)).foldl (fun value made => made.2 value) fresh

variable {fresh}

theorem change_map (keys : List Key) (value : Key -> Value) (key : Key) (alter : Value -> Value) (distinct : keys.Nodup) :
    change fresh key alter (keys.map fun other => (other, value other)) =
      if key ∈ keys then keys.map fun other => (other, if other = key then alter (value other) else value other)
      else keys.map (fun other => (other, value other)) ++ [(key, alter fresh)] := by
  induction keys with
  | nil => rfl
  | cons first rest inductionHypothesis =>
      rcases List.nodup_cons.mp distinct with ⟨new, distinct⟩
      rw [List.map_cons, change, inductionHypothesis distinct]
      by_cases here : first = key
      · subst here
        have others : ∀ other, other ∈ rest -> other ≠ first := fun other inside same => new (same ▸ inside)
        rw [if_pos rfl, if_pos List.mem_cons_self, List.map_cons, if_pos rfl]
        congr 1
        exact List.map_congr_left fun other inside => by rw [if_neg (others other inside)]
      · have same : key ∈ first :: rest ↔ key ∈ rest :=
          List.mem_cons.trans (or_iff_right fun equal => here equal.symm)
        rw [if_neg here]
        by_cases known : key ∈ rest
        · rw [if_pos known, if_pos (same.mpr known), List.map_cons, if_neg here]
        · rw [if_neg known, if_neg fun inside => known (same.mp inside), List.cons_append]

/-- Two changes of one key are one. -/
theorem change_change (map : OrderedMap Key Value) (key : Key) (first second : Value -> Value) :
    (map.change fresh key first).change fresh key second = map.change fresh key (second ∘ first) := by
  induction map with
  | nil =>
      simp only [change, if_true, Function.comp_apply]
  | cons entry rest inductionHypothesis =>
      by_cases here : entry.1 = key
      · simp only [change, if_pos here, Function.comp_apply]
      · simp only [change, if_neg here, inductionHypothesis]

@[simp] theorem valueOf_nil (key : Key) : valueOf fresh [] key = fresh :=
  rfl

theorem valueOf_concat (changes : List (Key × (Value -> Value))) (made : Key × (Value -> Value)) (key : Key) :
    valueOf fresh (changes ++ [made]) key =
      if key = made.1 then made.2 (valueOf fresh changes key) else valueOf fresh changes key := by
  unfold valueOf
  rw [List.filter_append, List.foldl_append, List.filter_cons, List.filter_nil]
  by_cases same : key = made.1
  · rw [if_pos same, if_pos (decide_eq_true same.symm)]
    rfl
  · rw [if_neg same, if_neg fun equal => same (of_decide_eq_true equal).symm]
    rfl

theorem valueOf_of_not_mem {changes : List (Key × (Value -> Value))} {key : Key}
    (unused : key ∉ changes.map Prod.fst) : valueOf fresh changes key = fresh := by
  rw [valueOf, List.filter_eq_nil_iff.mpr, List.foldl_nil]
  intro made inside same
  exact unused (List.mem_map.mpr ⟨made, inside, of_decide_eq_true same⟩)

theorem collect_eq (changes : List (Key × (Value -> Value))) : collect fresh changes =
    (firstUses (changes.map Prod.fst)).map fun key => (key, valueOf fresh changes key) := by
  induction changes using List.reverseRecOn with
  | nil => rfl
  | append_singleton changes made inductionHypothesis =>
      have alterKnown : ∀ key, (key, valueOf fresh (changes ++ [made]) key) =
          (key, if key = made.1 then made.2 (valueOf fresh changes key) else valueOf fresh changes key) :=
        fun key => congrArg (Prod.mk key) (valueOf_concat changes made key)
      unfold collect at inductionHypothesis ⊢
      rw [List.foldl_append, inductionHypothesis, List.foldl_cons, List.foldl_nil,
        change_map _ _ _ _ (firstUses_nodup _), List.map_append, List.map_singleton, firstUses_concat]
      by_cases known : made.1 ∈ changes.map Prod.fst
      · rw [if_pos (mem_firstUses.mpr known), if_pos known]
        exact List.map_congr_left fun key _ => (alterKnown key).symm
      · rw [if_neg fun inside => known (mem_firstUses.mp inside), if_neg known, List.map_append]
        congr 1
        · refine List.map_congr_left fun key inside => ?_
          have differs : key ≠ made.1 := fun same => known (same ▸ mem_firstUses.mp inside)
          rw [alterKnown, if_neg differs]
        · rw [List.map_singleton, alterKnown, if_pos rfl, valueOf_of_not_mem known]

end OrderedMap

/-- Sorting elements by a value, one value after the other. -/
theorem flatMap_filter_perm {Element Value : Type} [DecidableEq Value] (value : Element -> Value) {values : List Value}
    (distinct : values.Nodup) {elements : List Element} (all : ∀ element, element ∈ elements -> value element ∈ values) :
    (values.flatMap fun wanted => elements.filter fun element => decide (value element = wanted)).Perm elements := by
  induction values generalizing elements with
  | nil =>
      cases elements with
      | nil => exact List.Perm.refl _
      | cons element rest => exact absurd (all element List.mem_cons_self) List.not_mem_nil
  | cons first rest inductionHypothesis =>
      rcases List.nodup_cons.mp distinct with ⟨new, distinct⟩
      have others : ∀ wanted, wanted ∈ rest ->
          (elements.filter fun element => decide (value element = wanted)) =
            (elements.filter fun element => !decide (value element = first)).filter
              fun element => decide (value element = wanted) := by
        intro wanted inside
        rw [List.filter_filter]
        apply List.filter_congr
        intro element _
        by_cases same : value element = wanted
        · have differs : value element ≠ first := fun equal => new (equal ▸ same ▸ inside)
          rw [decide_eq_true same, decide_eq_false differs]
          rfl
        · rw [decide_eq_false same, Bool.false_and]
      rw [List.flatMap_cons, List.flatMap_congr others]
      refine (List.Perm.append_left _ (inductionHypothesis distinct fun element inside => ?_)).trans
        (List.filter_append_perm _ _)
      rcases List.mem_filter.mp inside with ⟨inside, differs⟩
      rcases List.mem_cons.mp (all element inside) with same | known
      · rw [decide_eq_true same] at differs
        cases differs
      · exact known

end Foundations
end Talbot
