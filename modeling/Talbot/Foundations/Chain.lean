import Mathlib.Data.List.Basic
import Mathlib.Data.List.Nodup
import Mathlib.Data.List.Range
import Mathlib.Logic.Function.Basic

namespace Talbot
namespace Foundations

/-!
Singly linked chains in a memory that holds, in each slot, the address of the
next slot.

A chain is written from its first node on, each pointer through the node
written before it.  Once no node repeats, reading the pointers back visits
exactly the nodes, in order.
-/

variable {α : Type}

/-- Following `memory` from `start` visits exactly `nodes` and arrives at `stop`.
Nodes may repeat; that a traversal ends needs `stop` not to be one of them. -/
def Path (memory : α -> α) : α -> List α -> α -> Prop
  | start, [], stop => start = stop
  | start, node :: rest, stop => start = node ∧ Path memory (memory node) rest stop

theorem path_append {memory : α -> α} {start stop : α} {before after : List α} :
    Path memory start (before ++ after) stop ↔
      ∃ middle, Path memory start before middle ∧ Path memory middle after stop := by
  induction before generalizing start with
  | nil =>
      constructor
      · intro path
        exact ⟨start, rfl, path⟩
      · rintro ⟨middle, same, path⟩
        rw [show start = middle from same]
        exact path
  | cons node rest inductionHypothesis =>
      simp only [List.cons_append, Path, inductionHypothesis]
      constructor
      · rintro ⟨same, middle, first, second⟩
        exact ⟨middle, ⟨same, first⟩, second⟩
      · rintro ⟨middle, ⟨same, first⟩, second⟩
        exact ⟨same, middle, first, second⟩

/-- A path only depends on the slots of its own nodes. -/
theorem Path.congr {memory other : α -> α} {start stop : α} {nodes : List α}
    (path : Path memory start nodes stop) (agree : ∀ node, node ∈ nodes -> memory node = other node) :
    Path other start nodes stop := by
  induction nodes generalizing start with
  | nil => exact path
  | cons node rest inductionHypothesis =>
      refine ⟨path.1, ?_⟩
      rw [← agree node List.mem_cons_self]
      exact inductionHypothesis path.2 fun later member =>
        agree later (List.mem_cons_of_mem node member)

/-- A path is determined by its ends if it does not visit the last one. -/
theorem Path.unique {memory : α -> α} {start stop : α} {nodes others : List α}
    (path : Path memory start nodes stop) (other : Path memory start others stop)
    (ends : stop ∉ nodes) (otherEnds : stop ∉ others) : nodes = others := by
  induction nodes generalizing start others with
  | nil =>
      obtain rfl : start = stop := path
      cases others with
      | nil => rfl
      | cons node rest => exact (otherEnds (other.1 ▸ List.mem_cons_self)).elim
  | cons node rest inductionHypothesis =>
      obtain ⟨rfl, path⟩ := path
      cases others with
      | nil =>
          obtain rfl : start = stop := other
          exact (ends List.mem_cons_self).elim
      | cons node rest =>
          obtain ⟨rfl, other⟩ := other
          rw [inductionHypothesis path other (fun member => ends (List.mem_cons_of_mem _ member))
            (fun member => otherEnds (List.mem_cons_of_mem _ member))]

/-- A path through consecutively numbered nodes, slot by slot. The path behind a
node is the path that starts at the next one. -/
theorem path_map_range' {memory : α -> α} {stop : α} (node : Nat -> α) (first count : Nat) :
    Path memory (node first) ((List.range' first (count + 1)).map node) stop ↔
      (∀ index, first ≤ index -> index < first + count -> memory (node index) = node (index + 1)) ∧
        memory (node (first + count)) = stop := by
  induction count generalizing first with
  | zero =>
      constructor
      · rintro ⟨_, closes⟩
        exact ⟨fun index lower upper => by omega, closes⟩
      · rintro ⟨_, closes⟩
        exact ⟨rfl, closes⟩
  | succ count inductionHypothesis =>
      rw [List.range'_succ, List.map_cons]
      have shifted := inductionHypothesis (first + 1)
      rw [show first + 1 + count = first + (count + 1) by omega] at shifted
      constructor
      · rintro ⟨_, path⟩
        have next : memory (node first) = node (first + 1) := by
          rw [List.range'_succ, List.map_cons] at path
          exact path.1
        rw [next] at path
        obtain ⟨steps, closes⟩ := shifted.mp path
        refine ⟨?_, closes⟩
        intro index lower upper
        rcases Nat.eq_or_lt_of_le lower with rfl | later
        · exact next
        · exact steps index later upper
      · rintro ⟨steps, closes⟩
        refine ⟨rfl, ?_⟩
        rw [steps first (Nat.le_refl _) (by omega)]
        exact shifted.mpr ⟨fun index lower upper => steps index (by omega) upper, closes⟩

variable [DecidableEq α]

/-- Write the pointers from `first` through `rest`, leaving the last node open. -/
def writeLinks (memory : α -> α) (first : α) : List α -> (α -> α)
  | [] => memory
  | next :: rest => writeLinks (Function.update memory first next) next rest

/-- Write the pointers and close the chain with `stop`. Every node is written once,
in order, so a repeated node would hold its last pointer. -/
def writeChain (memory : α -> α) (first : α) (rest : List α) (stop : α) : α -> α :=
  Function.update (writeLinks memory first rest) (rest.getLastD first) stop

/-- Writing links leaves every slot alone that is no node before the last. -/
theorem writeLinks_frame (memory : α -> α) (first : α) (rest : List α) {slot : α}
    (outside : slot ∉ (first :: rest).dropLast) : writeLinks memory first rest slot = memory slot := by
  induction rest generalizing memory first with
  | nil => rfl
  | cons next rest inductionHypothesis =>
      rw [List.dropLast_cons_of_ne_nil (List.cons_ne_nil _ _)] at outside
      rw [writeLinks, inductionHypothesis _ _ (fun member => outside (List.mem_cons_of_mem _ member))]
      apply Function.update_of_ne
      rintro rfl
      exact outside List.mem_cons_self

theorem writeChain_frame (memory : α -> α) (first : α) (rest : List α) (stop : α) {slot : α}
    (outside : slot ∉ first :: rest) : writeChain memory first rest stop slot = memory slot := by
  have last : slot ≠ rest.getLastD first := by
    intro same
    rw [same] at outside
    exact outside List.getLastD_mem_cons
  rw [writeChain, Function.update_of_ne last]
  exact writeLinks_frame memory first rest fun member => outside (List.dropLast_subset _ member)

theorem writeChain_cons (memory : α -> α) (first next : α) (rest : List α) (stop : α) :
    writeChain memory first (next :: rest) stop =
      writeChain (Function.update memory first next) next rest stop := by
  rw [writeChain, writeChain, writeLinks, List.getLastD_cons]

/-- Reading back a chain without repeated nodes. -/
theorem writeChain_path (memory : α -> α) (first : α) (rest : List α) (stop : α)
    (distinct : (first :: rest).Nodup) :
    Path (writeChain memory first rest stop) first (first :: rest) stop := by
  induction rest generalizing memory first with
  | nil => exact ⟨rfl, Function.update_self _ _ _⟩
  | cons next rest inductionHypothesis =>
      have parts := List.nodup_cons.mp distinct
      refine ⟨rfl, ?_⟩
      rw [writeChain_cons, writeChain_frame _ _ _ _ parts.1, Function.update_self]
      exact inductionHypothesis _ _ parts.2

end Foundations
end Talbot
