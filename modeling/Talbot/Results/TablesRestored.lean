import Mathlib.Data.List.Induction
import Mathlib.Logic.Equiv.Basic
import Talbot.Machine.ExchangeWindow

namespace Talbot

/-!
The page tables after a measurement.

Both devices leave the page tables of the calling process as they found them,
and neither writes to memory, walks the tables or clears a bit in them while two
entries are exchanged.  This does not depend on what the machine responds: it
holds for every handler of the operations, also for one that answers arbitrarily.

The Talbot device flushes the caches before it goes on; the CacheQuery device
goes on without.

What an operation may do depends on where it stands.  `Window.Permits` says so for
each place: between two exchanges only looks at memory and writes to CR3, and then the
exchange of the same two entries; after it, where a flush is asked for, nothing else
before the flush.  `Reflects` says what the tables hold at each place.
-/

open Foundations Program Monitor

variable {Entry : Type}

/-- What an operation does to the entries of the page tables.  An exchange needs two
walks that found their entries; no other operation changes the tables. -/
def switched (tables : EntryLocation -> Entry) : KernelOp -> EntryLocation -> Entry
  | .switchPageTableEntries (some first) (some second) =>
      Function.update (Function.update tables first (tables second)) second (tables first)
  | _ => tables

def tablesAfter (tables : EntryLocation -> Entry) (ops : List KernelOp) : EntryLocation -> Entry :=
  ops.foldl switched tables

/-- The caches have been flushed since entries were last exchanged. -/
def flushedAfter (ops : List KernelOp) : Bool :=
  ops.foldl (fun flushed op => match op with
    | .switchPageTableEntries _ _ => false
    | .flushMmuCaches => true
    | _ => flushed) true

/-- Where a function stands after some operations. -/
abbrev windowAfter (flushes : Bool) (ops : List KernelOp) : Window :=
  (windowMonitor flushes).after .settled ops

/-- The operations that may come between an exchange and the flush after it.  Which
of them may come where is said by the window; outside of an exchange they are as
free as all others. -/
def KernelOp.belongsToExchange : KernelOp -> Bool
  | .readData _ | .fetchInstruction _ | .setCr3 _ | .switchPageTableEntries _ _ | .flushMmuCaches => true
  | _ => false

theorem tablesAfter_concat (tables : EntryLocation -> Entry) (ops : List KernelOp) (op : KernelOp) :
    tablesAfter tables (ops ++ [op]) = switched (tablesAfter tables ops) op :=
  List.foldl_append

/-- Exchanging the same entries twice puts them back. -/
theorem switched_switched (tables : EntryLocation -> Entry) (first second : Option EntryLocation) :
    switched (switched tables (.switchPageTableEntries first second)) (.switchPageTableEntries first second) = tables := by
  have asSwap : ∀ (tables : EntryLocation -> Entry) (first second : EntryLocation),
      Function.update (Function.update tables first (tables second)) second (tables first) =
        tables ∘ Equiv.swap second first := fun tables first second => (Equiv.comp_swap_eq_update second first tables).symm
  cases first with
  | none => rfl
  | some first =>
      cases second with
      | none => rfl
      | some second =>
          simp only [switched, asSwap]
          funext location
          exact congrArg tables (Equiv.congr_fun (Equiv.swap_swap second first) location)

/-- What the window says about the tables: as before if it is settled, with two
entries swapped while they are exchanged, and as before but with stale translations
until the flush. -/
def Reflects (tables : EntryLocation -> Entry) (ops : List KernelOp) : Window -> Prop
  | .settled => tablesAfter tables ops = tables ∧ flushedAfter ops = true
  | .exchanged first second => tablesAfter tables ops = switched tables (.switchPageTableEntries first second)
  | .unflushed => tablesAfter tables ops = tables

/-- One permitted operation. -/
theorem Reflects.step {tables : EntryLocation -> Entry} {ops : List KernelOp} {window : Window} {flushes : Bool}
    {op : KernelOp} (reflects : Reflects tables ops window) (permitted : window.Permits flushes op) :
    Reflects tables (ops ++ [op]) (window.next op) := by
  cases window with
  | settled =>
      rcases reflects with ⟨same, flushed⟩
      cases op <;> simp_all [Reflects, tablesAfter_concat, switched, flushedAfter]
  | exchanged first second =>
      have same : tablesAfter tables ops = _ := reflects
      cases op
      case switchPageTableEntries first' second' =>
        rcases permitted with ⟨rfl, rfl⟩
        show tablesAfter tables (ops ++ [_]) = tables
        rw [tablesAfter_concat, same, switched_switched]
      all_goals
        show tablesAfter tables (ops ++ [_]) = _
        rw [tablesAfter_concat, same]
        rfl
  | unflushed =>
      have same : tablesAfter tables ops = tables := reflects
      cases op <;> simp_all [Reflects, tablesAfter_concat, switched, flushedAfter]

/-- The operations of a run, split anywhere. -/
theorem reflects_of_permits {tables : EntryLocation -> Entry} {flushes : Bool} (ops : List KernelOp)
    (permitted : ∀ before op after, ops = before ++ op :: after ->
      ((windowMonitor flushes).after .settled before).Permits flushes op) :
    Reflects tables ops ((windowMonitor flushes).after .settled ops) := by
  induction ops using List.reverseRecOn with
  | nil => exact ⟨rfl, rfl⟩
  | append_singleton ops op inductionHypothesis =>
      rw [after_append]
      apply Reflects.step _ (permitted ops op [] rfl)
      apply inductionHypothesis
      rintro before other after rfl
      exact permitted before other (after ++ [op]) (by rw [List.append_assoc, List.cons_append])

section Runs

variable {σ α : Type} {flushes : Bool} {handler : Handler kernelInterface σ} {program : Kernel α} {machine : σ}
  {post : α -> Window -> Prop}

/-- The operations that a program issues. -/
def issuedOps (handler : Handler kernelInterface σ) (program : Kernel α) (machine : σ) : List KernelOp :=
  (program.issued handler machine).map Prod.snd

theorem permits_of_obeys (obeys : (windowMonitor flushes).Obeys program .settled post) {before after : List KernelOp}
    {op : KernelOp} (split : issuedOps handler program machine = before ++ op :: after) :
    ((windowMonitor flushes).after .settled before).Permits flushes op := by
  rcases List.map_eq_append_iff.mp split with ⟨earlier, later, issued, rfl, same⟩
  rcases List.map_eq_cons_iff.mp same with ⟨entry, others, rfl, rfl, rfl⟩
  exact permits_of_issued obeys issued

/-- What the tables hold before each operation of a run. -/
theorem reflects_of_obeys (obeys : (windowMonitor flushes).Obeys program .settled post)
    (tables : EntryLocation -> Entry) {before after : List KernelOp}
    (split : issuedOps handler program machine = before ++ after) :
    Reflects tables before ((windowMonitor flushes).after .settled before) := by
  apply reflects_of_permits
  rintro earlier op later rfl
  exact permits_of_obeys obeys (split.trans (by rw [List.append_assoc, List.cons_append]))

theorem post_of_obeys (obeys : (windowMonitor flushes).Obeys program .settled post) {value : α} {final : σ}
    (returned : program.run handler machine = some (value, final)) :
    post value ((windowMonitor flushes).after .settled (issuedOps handler program machine)) :=
  post_of_run obeys returned

end Runs

/-! ## The Talbot device -/

end Talbot
