import Mathlib.Tactic.IntervalCases
import Mathlib.Tactic.Linarith
import Mathlib.Tactic.Ring

namespace Talbot

/-!
The constants shared by the kernel module and its user-space trigger
(`shared/include/definitions.h`).

Addresses and 64-bit words are natural numbers.  Arithmetic on them is exact:
every address the tools form from a mapped window lies far below `2 ^ 64`, so
the fixed-width results of the source agree with the exact ones.
-/

def baseAddress : Nat := 0x100000000000
def huge2MBBaseAddress : Nat := 0x200000000000
def huge1GBBaseAddress : Nat := 0x300000000000
def complementaryBaseAddress : Nat := 0x700000000000

def amount2MPages : Nat := 2048
def amount1GPages : Nat := 64

/-- The word every complementary page is initialised with.  No address that a chain
is made of equals it, so a read that returns it was translated by the exchanged
entry. -/
def signal : Nat := 0x1337

def iterations : Nat := 1000

/-- How many addresses count as many when touching many addresses. -/
def maximumEntries : Nat := 512

/-- `PAGE_TABLE_INDEX_SHIFT`: the lowest address bit that a level indexes. -/
def pageTableIndexShift : Nat -> Nat
  | 1 => 12
  | 2 => 21
  | 3 => 30
  | 4 => 39
  | 5 => 48
  | _ => 0

/-- The number of entries the user maps on each level
(`PAGE_TABLE_ENTRIES`, which the README allows to change). -/
structure Configuration where
  pageTableEntries : Nat -> Nat

/-- The sizes the repository ships with. -/
def defaultConfiguration : Configuration where
  pageTableEntries
    | 2 => 512 * 32
    | 3 => 512
    | 4 => 32
    | _ => 0

/-- `misses >= total * THRESHOLD`, with the threshold `.8` as a ratio.  The
comparison is exact, as it is in the source for all totals that occur. -/
def reachesThreshold (misses total : Nat) : Bool :=
  decide (total * 8 ≤ misses * 10)

/-- The levels the experiments run on.  Level 1 is the lowest table, which only
gives the pages inside of an entry. -/
def IsLevel (level : Nat) : Prop :=
  2 ≤ level ∧ level ≤ 4

instance (level : Nat) : Decidable (IsLevel level) :=
  inferInstanceAs (Decidable (_ ∧ _))

/-- The entry of a level's page tables that translates an address.  Entries are
numbered through all tables of the level, so two addresses have the same one exactly
if they only differ below it. -/
def entryOf (level address : Nat) : Nat :=
  address >>> pageTableIndexShift level

/-- The page with index `page` of the lower level inside an entry.  All addresses
that the experiments use are of this form, up to an offset in the page. -/
def pageAddress (level entry page : Nat) : Nat :=
  (entry <<< pageTableIndexShift level) + (page <<< pageTableIndexShift (level - 1))

/-- The end of the base window on a level.  The builders check their links against
it; it depends on the level, since the windows of all levels begin at the same
address. -/
def windowEnd (configuration : Configuration) (level : Nat) : Nat :=
  baseAddress + (configuration.pageTableEntries level <<< pageTableIndexShift level)

/-- The chain builders' check that a link may be written: strictly above the
base address and below the end of the window. -/
def insideWindow (configuration : Configuration) (level address : Nat) : Bool :=
  decide (baseAddress < address) && decide (address < windowEnd configuration level)

/-! ## Entries and the pages inside them -/

theorem pageTableIndexShift_succ {level : Nat} (isLevel : IsLevel level) :
    pageTableIndexShift level = pageTableIndexShift (level - 1) + 9 := by
  obtain ⟨lower, upper⟩ := isLevel
  interval_cases level <;> rfl

theorem pageTableIndexShift_le {level : Nat} (isLevel : IsLevel level) :
    pageTableIndexShift level ≤ 39 := by
  obtain ⟨lower, upper⟩ := isLevel
  interval_cases level <;> decide

theorem le_pageTableIndexShift {level : Nat} (isLevel : IsLevel level) :
    12 ≤ pageTableIndexShift (level - 1) := by
  obtain ⟨lower, upper⟩ := isLevel
  interval_cases level <;> decide

/-- Entry and page number are the two digits of a page's address. -/
theorem pageAddress_eq {level : Nat} (isLevel : IsLevel level) (entry page : Nat) :
    pageAddress level entry page =
      (entry * 512 + page) * 2 ^ pageTableIndexShift (level - 1) := by
  unfold pageAddress
  rw [pageTableIndexShift_succ isLevel, Nat.shiftLeft_eq, Nat.shiftLeft_eq, Nat.pow_add]
  ring

theorem entryOf_pageAddress {level entry page : Nat} (isLevel : IsLevel level) (small : page < 512) :
    entryOf level (pageAddress level entry page) = entry := by
  unfold entryOf
  rw [pageAddress_eq isLevel, Nat.shiftRight_eq_div_pow, pageTableIndexShift_succ isLevel,
    Nat.pow_add, ← Nat.div_div_eq_div_mul, Nat.mul_div_cancel _ (Nat.two_pow_pos _)]
  omega

theorem pageAddress_injective {level entry page entry' page' : Nat} (isLevel : IsLevel level)
    (small : page < 512) (small' : page' < 512)
    (same : pageAddress level entry page = pageAddress level entry' page') :
    entry = entry' ∧ page = page' := by
  rw [pageAddress_eq isLevel, pageAddress_eq isLevel] at same
  have digits := Nat.eq_of_mul_eq_mul_right (Nat.two_pow_pos _) same
  omega

theorem pageAddress_zero (level entry : Nat) :
    pageAddress level entry 0 = entry <<< pageTableIndexShift level := by
  simp only [pageAddress, Nat.zero_shiftLeft, Nat.add_zero]

theorem pageAddress_add (level entry page : Nat) :
    pageAddress level entry 0 + (page <<< pageTableIndexShift (level - 1)) =
      pageAddress level entry page := by
  rw [pageAddress_zero, pageAddress]

/-- The entry that starts the base window on a level. -/
def baseEntry (level : Nat) : Nat :=
  entryOf level baseAddress

theorem baseAddress_eq {level : Nat} (isLevel : IsLevel level) :
    baseAddress = pageAddress level (baseEntry level) 0 := by
  obtain ⟨lower, upper⟩ := isLevel
  interval_cases level <;> decide

theorem baseEntry_succ {level : Nat} (isLevel : IsLevel level) (upperLevel : IsLevel (level + 1)) :
    baseEntry level = baseEntry (level + 1) * 512 := by
  rcases isLevel with ⟨least, _⟩
  rcases upperLevel with ⟨_, most⟩
  have below : level ≤ 3 := Nat.le_of_succ_le_succ most
  interval_cases level <;> decide

theorem baseAddress_add {level : Nat} (isLevel : IsLevel level) (index : Nat) :
    baseAddress + (index <<< pageTableIndexShift level) =
      pageAddress level (baseEntry level + index) 0 := by
  have base := baseAddress_eq isLevel
  rw [pageAddress_zero, Nat.shiftLeft_eq] at base ⊢
  rw [Nat.shiftLeft_eq, Nat.add_mul, ← base]

theorem windowEnd_eq {level : Nat} (isLevel : IsLevel level) (configuration : Configuration) :
    windowEnd configuration level =
      pageAddress level (baseEntry level + configuration.pageTableEntries level) 0 :=
  baseAddress_add isLevel _

theorem pageAddress_lt_iff (level entry entry' : Nat) :
    pageAddress level entry 0 < pageAddress level entry' 0 ↔ entry < entry' := by
  rw [pageAddress_zero, pageAddress_zero, Nat.shiftLeft_eq, Nat.shiftLeft_eq]
  exact Nat.mul_lt_mul_right (Nat.two_pow_pos _)

/-- On entry-aligned addresses the window check compares entry numbers. -/
theorem insideWindow_iff {level : Nat} (isLevel : IsLevel level) (configuration : Configuration)
    (entry : Nat) :
    insideWindow configuration level (pageAddress level entry 0) = true ↔
      baseEntry level < entry ∧
        entry < baseEntry level + configuration.pageTableEntries level := by
  unfold insideWindow
  rw [Bool.and_eq_true, decide_eq_true_eq, decide_eq_true_eq, windowEnd_eq isLevel]
  conv => lhs; lhs; rw [baseAddress_eq isLevel]
  rw [pageAddress_lt_iff, pageAddress_lt_iff]

end Talbot
