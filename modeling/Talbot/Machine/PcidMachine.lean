import Mathlib.Data.Nat.Bitwise
import Talbot.Foundations.Recency
import Talbot.Kernel.Evaluation
import Talbot.Machine.Probes

namespace Talbot

/-!
A processor with process-context identifiers.

The twelve lowest bits of CR3 name a context.  Writing CR3 drops the
translations of the context that it names unless bit 63 is set; that bit is not
stored.  A translation cache that respects PCIDs keeps the entries of several
contexts apart, and gives up those of the context that was named least recently
once there are too many.  One that does not respect them uses every entry in
every context.

Here an entry of the cache also remembers where it leads, because contexts
outlive the exchanges: what one iteration of an experiment leaves behind in a
foreign context is still there in the next one.
-/

open Foundations Program

/-- Where a translation leads while two entries are exchanged: to the page that the
address had from the set-up on, or to the one of its complementary address. -/
inductive Side where
  | own
  | complementary
  deriving DecidableEq, Repr

/-- `ways` entries of a level are kept for each of `contexts` contexts.  A cache
that does not respect PCIDs files all entries under the context 0. -/
structure PcidCache where
  ways : Nat
  contexts : Nat
  respects : Bool
  someWay : 0 < ways
  someContext : 0 < contexts

/-- The context that a value of CR3 stands for. -/
def PcidCache.context (cache : PcidCache) (cr3 : Nat) : Nat :=
  if cache.respects then cr3 % 4096 else 0

/-- Memory, registers and the cache of one level.  `recent` are the contexts with
entries, the one named last first; the context that is dropped when too many are
named loses its entries. -/
structure PcidMachine where
  memory : Nat -> Nat
  complementary : Nat -> Nat
  exchanged : Option Nat
  cr3 : Nat
  recent : List Nat
  cached : Nat -> List (Nat × Side)
  randoms : Nat -> Nat

namespace PcidMachine

variable (cache : PcidCache) (level : Nat)

/-- The entries that the running context uses. -/
def held (machine : PcidMachine) : List (Nat × Side) :=
  machine.cached (cache.context machine.cr3)

/-- Where an access goes. -/
def side (machine : PcidMachine) (address : Nat) : Side :=
  match (machine.held cache).lookup (entryOf level address) with
  | some side => side
  | none => if machine.exchanged = some (entryOf level address) then .complementary else .own

def content (machine : PcidMachine) (address : Nat) : Nat :=
  match machine.side cache level address with
  | .own => machine.memory address
  | .complementary => machine.complementary address

/-- The translation that was used is kept. -/
def touch (machine : PcidMachine) (address : Nat) : PcidMachine :=
  { machine with
    cached := Function.update machine.cached (cache.context machine.cr3)
      (((entryOf level address, machine.side cache level address) ::
        (machine.held cache).filter fun entry => entry.1 != entryOf level address).take cache.ways) }

def store (machine : PcidMachine) (address data : Nat) : PcidMachine :=
  match machine.side cache level address with
  | .own => { machine with memory := Function.update machine.memory address data }
  | .complementary => { machine with complementary := Function.update machine.complementary address data }

/-- `mov %0, %%cr3` -/
def setCr3 (machine : PcidMachine) (value : Nat) : PcidMachine :=
  let recent := accessSet cache.contexts machine.recent (cache.context value)
  { machine with
    cr3 := value % 2 ^ 63
    recent := recent
    cached := fun context =>
      if context ∈ recent ∧ (context = cache.context value -> value.testBit 63 = true) then machine.cached context
      else [] }

/-- Exchanging the entries of two addresses of the level, or undoing it. -/
def exchange (machine : PcidMachine) : Option EntryLocation -> Option EntryLocation -> Option PcidMachine
  | some first, some second =>
      if first.level = level ∧ second.level = level then
        match machine.exchanged with
        | none => some { machine with exchanged := some first.index }
        | some _ => some { machine with exchanged := none }
      else none
  | _, _ => none

/-- `flush_mmu_caches` writes back the CR3 that it reads. -/
def handle : Handler kernelInterface PcidMachine
  | .readData address, machine => some (machine.content cache level address, machine.touch cache level address)
  | .fetchInstruction address, machine => some (machine.content cache level address, machine.touch cache level address)
  | .writeData address data, machine => some ((), (machine.store cache level address data).touch cache level address)
  | .walkPageTable address, machine => some (⟨fun level => some ⟨level, entryOf level address⟩⟩, machine)
  | .clearNx _, machine => some ((), machine)
  | .switchPageTableEntries first second, machine =>
      (machine.exchange level first second).map fun machine => ((), machine)
  | .flushMmuCaches, machine => some ((), machine.setCr3 cache machine.cr3)
  | .getCr3, machine => some (machine.cr3, machine)
  | .setCr3 value, machine => some ((), machine.setCr3 cache value)
  | .getRandomLong, machine =>
      some (machine.randoms 0, { machine with randoms := fun n => machine.randoms (n + 1) })
  | .kmalloc, machine => some (fun _ => 0, machine)
  | .callHash (.to hash) target offset setBits level, machine =>
      some (hash.apply target offset setBits level, machine)
  | .callHash _ _ _ _ _, _ => none
  | .enter _ _ _, machine => some ((), machine)

/-- As the trigger leaves it.  The processor runs in the context that CR3 names, which
is not the context 0 of the experiments as a rule. -/
def afterTrigger (cr3 : Nat) (randoms : Nat -> Nat) : PcidMachine where
  memory _ := 0
  complementary _ := signal
  exchanged := none
  cr3 := cr3
  recent := [cache.context cr3]
  cached _ := []
  randoms := randoms

section Operations

variable {cache : PcidCache} {level : Nat} {machine : PcidMachine}

/-! ## What the operations leave alone -/

@[simp] theorem touch_exchanged {address : Nat} :
    (machine.touch cache level address).exchanged = machine.exchanged :=
  rfl

@[simp] theorem touch_memory {address : Nat} : (machine.touch cache level address).memory = machine.memory :=
  rfl

@[simp] theorem touch_cr3 {address : Nat} : (machine.touch cache level address).cr3 = machine.cr3 :=
  rfl

@[simp] theorem touch_randoms {address : Nat} : (machine.touch cache level address).randoms = machine.randoms :=
  rfl

@[simp] theorem setCr3_exchanged {value : Nat} : (machine.setCr3 cache value).exchanged = machine.exchanged :=
  rfl

@[simp] theorem setCr3_memory {value : Nat} : (machine.setCr3 cache value).memory = machine.memory :=
  rfl

@[simp] theorem setCr3_cr3 {value : Nat} : (machine.setCr3 cache value).cr3 = value % 2 ^ 63 :=
  rfl

@[simp] theorem setCr3_randoms {value : Nat} : (machine.setCr3 cache value).randoms = machine.randoms :=
  rfl

@[simp] theorem setCr3_recent {value : Nat} :
    (machine.setCr3 cache value).recent = accessSet cache.contexts machine.recent (cache.context value) :=
  rfl

/-! ## One rule for each operation -/

theorem returns_readData {address : Nat} {post : Nat -> PcidMachine -> Prop} :
    Returns (handle cache level) (readData address) machine post ↔
      post (machine.content cache level address) (machine.touch cache level address) :=
  (returns_call rfl).trans (returns_ret _)

theorem returns_writeData {address data : Nat} {post : Unit -> PcidMachine -> Prop} :
    Returns (handle cache level) (writeData address data) machine post ↔
      post () ((machine.store cache level address data).touch cache level address) :=
  (returns_call rfl).trans (returns_ret _)

theorem returns_getCr3 {post : Nat -> PcidMachine -> Prop} :
    Returns (handle cache level) getCr3 machine post ↔ post machine.cr3 machine :=
  (returns_call rfl).trans (returns_ret _)

theorem returns_setCr3 {value : Nat} {post : Unit -> PcidMachine -> Prop} :
    Returns (handle cache level) (Talbot.setCr3 value) machine post ↔ post () (machine.setCr3 cache value) :=
  (returns_call rfl).trans (returns_ret _)

theorem returns_flushMmuCaches {post : Unit -> PcidMachine -> Prop} :
    Returns (handle cache level) flushMmuCaches machine post ↔ post () (machine.setCr3 cache machine.cr3) :=
  (returns_call rfl).trans (returns_ret _)

/-- The machine after a random word was taken. -/
def drawn (machine : PcidMachine) : PcidMachine :=
  { machine with randoms := fun n => machine.randoms (n + 1) }

theorem returns_getRandomLong {post : Nat -> PcidMachine -> Prop} :
    Returns (handle cache level) getRandomLong machine post ↔ post (machine.randoms 0) machine.drawn :=
  (returns_call rfl).trans (returns_ret _)

theorem returns_drawAddress {modulus drawLevel : Nat} {post : Nat -> PcidMachine -> Prop} :
    Returns (handle cache level) (drawAddress modulus drawLevel) machine post ↔
      post (baseAddress + ((machine.randoms 0 % modulus) <<< pageTableIndexShift drawLevel)) machine.drawn := by
  unfold drawAddress
  rw [returns_bind, returns_getRandomLong]
  exact returns_ret _

theorem returns_walkPair {target complementary : Nat}
    {post : PageTableWalk × PageTableWalk -> PcidMachine -> Prop} :
    Returns (handle cache level) (walkPair target complementary) machine post ↔
      post (Machine.walksTo target complementary) machine := by
  unfold walkPair
  rw [returns_bind]
  refine (returns_call rfl).trans ((returns_ret _).trans ?_)
  rw [returns_bind]
  refine (returns_call rfl).trans ((returns_ret _).trans ?_)
  rw [returns_bind]
  refine (returns_call rfl).trans ((returns_ret _).trans ?_)
  rw [returns_bind]
  refine (returns_call rfl).trans ((returns_ret _).trans ?_)
  exact returns_ret _

theorem returns_switchLevel_idle {target complementary : Nat} {post : Unit -> PcidMachine -> Prop}
    (idle : machine.exchanged = none) :
    Returns (handle cache level) (switchLevel level (Machine.walksTo target complementary)) machine post ↔
      post () { machine with exchanged := some (entryOf level target) } := by
  have handled : handle cache level (.switchPageTableEntries (some ⟨level, entryOf level target⟩)
      (some ⟨level, entryOf level complementary⟩)) machine =
      some ((), { machine with exchanged := some (entryOf level target) }) := by
    simp only [handle, exchange, and_self, if_true, idle, Option.map_some]
  exact (returns_call handled).trans (returns_ret _)

theorem returns_switchLevel_back {target complementary entry : Nat} {post : Unit -> PcidMachine -> Prop}
    (exchanged : machine.exchanged = some entry) :
    Returns (handle cache level) (switchLevel level (Machine.walksTo target complementary)) machine post ↔
      post () { machine with exchanged := none } := by
  have handled : handle cache level (.switchPageTableEntries (some ⟨level, entryOf level target⟩)
      (some ⟨level, entryOf level complementary⟩)) machine = some ((), { machine with exchanged := none }) := by
    simp only [handle, exchange, and_self, if_true, exchanged, Option.map_some]
  exact (returns_call handled).trans (returns_ret _)

end Operations

/-! ## Values of CR3 -/

/-- `(get_cr3() >> 12) << 12` -/
def tableBase (cr3 : Nat) : Nat :=
  (cr3 >>> 12) <<< 12

/-- `cr3 | pcid | noflush_bit` -/
def cr3Of (cr3 pcid : Nat) (noflush : Bool) : Nat :=
  tableBase cr3 ||| pcid ||| if noflush then cr3NoFlush else 0

variable {cr3 pcid : Nat}

theorem tableBase_lt (small : cr3 < 2 ^ 63) : tableBase cr3 < 2 ^ 63 := by
  apply Nat.lt_of_le_of_lt _ small
  rw [tableBase, Nat.shiftLeft_eq, Nat.shiftRight_eq_div_pow]
  exact Nat.div_mul_le_self _ _

theorem tableBase_or_lt (small : cr3 < 2 ^ 63) (isPcid : pcid < 4096) : tableBase cr3 ||| pcid < 2 ^ 63 :=
  Nat.or_lt_two_pow (tableBase_lt small) (Nat.lt_trans isPcid (by decide))

theorem tableBase_or_mod (isPcid : pcid < 4096) : (tableBase cr3 ||| pcid) % 4096 = pcid := by
  rw [tableBase, ← Nat.shiftLeft_add_eq_or_of_lt (show pcid < 2 ^ 12 from isPcid), Nat.shiftLeft_eq]
  exact (Nat.mul_add_mod' _ _ _).trans (Nat.mod_eq_of_lt isPcid)

theorem tableBase_mod (cr3 : Nat) : tableBase cr3 % 4096 = 0 := by
  rw [tableBase, Nat.shiftLeft_eq]
  exact Nat.mul_mod_left _ _

theorem testBit_cr3Of (small : cr3 < 2 ^ 63) (isPcid : pcid < 4096) (noflush : Bool) :
    (cr3Of cr3 pcid noflush).testBit 63 = noflush := by
  rw [cr3Of, Nat.testBit_or, Nat.testBit_lt_two_pow (tableBase_or_lt small isPcid), Bool.false_or]
  cases noflush <;> decide

/-- The context does not depend on whether bit 63 is set. -/
theorem cr3Of_context (isPcid : pcid < 4096) (noflush : Bool) :
    cr3Of cr3 pcid noflush % 4096 = pcid := by
  rw [cr3Of, show 4096 = 2 ^ 12 from rfl, Nat.or_mod_two_pow, show 2 ^ 12 = 4096 from rfl, tableBase_or_mod isPcid]
  cases noflush <;> exact Nat.or_zero _

end PcidMachine

end Talbot
