import Mathlib.Data.Finset.Card
import Mathlib.Data.Finset.Filter
import Mathlib.Data.List.Perm.Basic

namespace Talbot
namespace Foundations

/-!
Orders that settle questions.

Items may favour or oppose questions, and a question is settled by the first item
that does either.  Putting an item first is harmless as long as it opposes none of
the open questions, so an order that settles all questions well is found greedily;
what stops the search is a set of questions that no item favours without opposing
some of them.
-/

section Precedence

variable {Item Question : Type} (favours opposes : Question -> Item -> Prop)

/-- The first item that speaks about the question favours it. -/
def SettledWell (question : Question) : List Item -> Prop
  | [] => False
  | item :: rest => favours question item ∨ ¬ opposes question item ∧ SettledWell question rest

/-- Every item that favours one of the questions opposes one of them. -/
def Blocks (items : List Item) (questions : Finset Question) : Prop :=
  ∀ item, item ∈ items -> (∃ question, question ∈ questions ∧ favours question item) ->
    ∃ question, question ∈ questions ∧ opposes question item

variable {favours opposes}

/-- A question that some item favours and none opposes is settled well. -/
theorem settledWell_of_unopposed {order : List Item} {question : Question}
    (unopposed : ∀ item, item ∈ order -> ¬ opposes question item)
    (favoured : ∃ item, item ∈ order ∧ favours question item) : SettledWell favours opposes question order := by
  induction order with
  | nil =>
      rcases favoured with ⟨item, inside, _⟩
      exact absurd inside List.not_mem_nil
  | cons first rest inductionHypothesis =>
      by_cases now : favours question first
      · exact Or.inl now
      · rcases favoured with ⟨item, inside, favoured⟩
        have later : item ∈ rest := (List.mem_cons.mp inside).resolve_left fun same => now (same ▸ favoured)
        exact Or.inr ⟨unopposed first List.mem_cons_self, inductionHypothesis
          (fun item inside => unopposed item (List.mem_cons_of_mem _ inside)) ⟨item, later, favoured⟩⟩

/-- A set of questions that blocks is never settled well as a whole. The first item
opposes none of the questions, so it would have to favour none either. -/
theorem not_settledWell_of_blocks (apart : ∀ question item, favours question item -> ¬ opposes question item)
    {order : List Item} {questions : Finset Question} (nonempty : questions.Nonempty)
    (blocks : Blocks favours opposes order questions) :
    ¬ ∀ question, question ∈ questions -> SettledWell favours opposes question order := by
  intro settled
  induction order with
  | nil =>
      rcases nonempty with ⟨question, inside⟩
      exact settled question inside
  | cons first rest inductionHypothesis =>
      have unopposed : ∀ question, question ∈ questions -> ¬ opposes question first := by
        intro question inside
        rcases settled question inside with favoured | ⟨unopposed, _⟩
        · exact apart question first favoured
        · exact unopposed
      have unfavoured : ∀ question, question ∈ questions -> ¬ favours question first := by
        intro question inside favoured
        rcases blocks first List.mem_cons_self ⟨question, inside, favoured⟩ with ⟨other, inside', opposed⟩
        exact unopposed other inside' opposed
      refine inductionHypothesis (fun item inside => blocks item (List.mem_cons_of_mem _ inside))
        fun question inside => ?_
      exact ((settled question inside).resolve_left (unfavoured question inside)).2

/-- Unless some of the questions block, an order settles all of them well. -/
theorem exists_order [DecidableEq Item] {items : List Item} {questions : Finset Question}
    (free : ∀ some, some ⊆ questions -> some.Nonempty -> ¬ Blocks favours opposes items some) :
    ∃ order, order.Perm items ∧ ∀ question, question ∈ questions -> SettledWell favours opposes question order := by
  classical
  induction size : questions.card using Nat.strong_induction_on generalizing items questions with
  | _ amount inductionHypothesis =>
      rcases Finset.eq_empty_or_nonempty questions with rfl | nonempty
      · exact ⟨items, .refl items, fun question inside => absurd inside (Finset.notMem_empty question)⟩
      · have harmless : ∃ item, item ∈ items ∧ (∃ question, question ∈ questions ∧ favours question item) ∧
            ∀ question, question ∈ questions -> ¬ opposes question item := by
          by_contra none
          refine free questions (Finset.Subset.refl questions) nonempty fun item inside favoured => ?_
          by_contra unopposed
          exact none ⟨item, inside, favoured, fun question known opposed => unopposed ⟨question, known, opposed⟩⟩
        rcases harmless with ⟨first, inside, ⟨question, open', favoured⟩, unopposed⟩
        have fewer : (questions.filter fun other => ¬ favours other first).card < amount := by
          rw [← size]
          refine Finset.card_lt_card (Finset.filter_ssubset.mpr ⟨question, open', ?_⟩)
          exact fun unfavoured => unfavoured favoured
        have stays : ∀ some, some ⊆ questions.filter (fun other => ¬ favours other first) -> some.Nonempty ->
            ¬ Blocks favours opposes (items.erase first) some := by
          intro some later nonempty blocks
          refine free some (later.trans (Finset.filter_subset _ _)) nonempty fun item known favoured => ?_
          by_cases same : item = first
          · rcases favoured with ⟨other, inSome, favoured⟩
            rw [same] at favoured
            exact absurd favoured (Finset.mem_filter.mp (later inSome)).2
          · exact blocks item ((List.mem_erase_of_ne same).mpr known) favoured
        rcases inductionHypothesis _ fewer stays rfl with ⟨order, same, settled⟩
        refine ⟨first :: order, (same.cons first).trans (List.perm_cons_erase inside).symm, fun other known => ?_⟩
        by_cases now : favours other first
        · exact Or.inl now
        · exact Or.inr ⟨unopposed other known, settled other (Finset.mem_filter.mpr ⟨known, now⟩)⟩

/-- All questions can be settled well exactly if none of their sets blocks. -/
theorem exists_order_iff [DecidableEq Item] (apart : ∀ question item, favours question item -> ¬ opposes question item)
    {items : List Item} {questions : Finset Question} :
    (∃ order, order.Perm items ∧ ∀ question, question ∈ questions -> SettledWell favours opposes question order) ↔
      ∀ some, some ⊆ questions -> some.Nonempty -> ¬ Blocks favours opposes items some := by
  constructor
  · rintro ⟨order, same, settled⟩ some fewer nonempty blocks
    have blocked : Blocks favours opposes order some := fun item inside => blocks item (same.mem_iff.mp inside)
    exact not_settledWell_of_blocks apart nonempty blocked fun question inside => settled question (fewer inside)
  · exact exists_order

end Precedence

end Foundations
end Talbot
