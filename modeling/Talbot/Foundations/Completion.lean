import Mathlib.Data.Nat.Notation
import Mathlib.Tactic.Common

namespace Talbot
namespace Foundations

/-!
Kernel completions as counters.

A completion counts the signals that nobody has waited for yet.  `complete_all`
lets every waiter pass from then on: it sets the counter to its largest value,
which neither a signal nor a wait changes any more.
-/

/-- `UINT_MAX` -/
def uintMax : Nat := 0xffffffff

/-- `struct completion`, without its queue of waiters.  The counter is an `unsigned
int`; `complete_all` sets it to its largest value, from which waits no longer take
anything. -/
structure Completion where
  done : Nat
  bounded : done ≤ uintMax
  deriving DecidableEq

namespace Completion

/-- As `init_completion` and `DECLARE_COMPLETION` leave it. -/
def fresh : Completion :=
  ⟨0, Nat.zero_le _⟩

def complete (completion : Completion) : Completion :=
  if saturated : completion.done = uintMax then completion
  else ⟨completion.done + 1, Nat.lt_of_le_of_ne completion.bounded saturated⟩

def completeAll : Completion :=
  ⟨uintMax, Nat.le_refl _⟩

/-- What a wait that may pass does to the counter. -/
def consume (completion : Completion) : Completion :=
  if completion.done = uintMax then completion
  else ⟨completion.done - 1, Nat.le_trans (Nat.sub_le _ _) completion.bounded⟩

variable {completion : Completion}

@[simp] theorem fresh_done : fresh.done = 0 :=
  rfl

@[simp] theorem completeAll_done : completeAll.done = uintMax :=
  rfl

theorem complete_done (below : completion.done < uintMax) : completion.complete.done = completion.done + 1 := by
  unfold complete
  rw [dif_neg (Nat.ne_of_lt below)]

theorem consume_done (below : completion.done < uintMax) : completion.consume.done = completion.done - 1 := by
  unfold consume
  rw [if_neg (Nat.ne_of_lt below)]

theorem complete_saturated (saturated : completion.done = uintMax) : completion.complete = completion :=
  dif_pos saturated

theorem consume_saturated (saturated : completion.done = uintMax) : completion.consume = completion :=
  if_pos saturated

end Completion
end Foundations
end Talbot
