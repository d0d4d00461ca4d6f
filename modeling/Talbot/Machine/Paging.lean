import Talbot.Foundations.Behaviours
import Talbot.Kernel.Experiments

namespace Talbot

/-!
A machine whose translations may be stale.

Every page table entry of the levels 2 to 4 keeps what it held since the last
flush, and each access may use any of it, level by level.  A physical slot is
named by the address that shows it while no entry is exchanged; the pages of a
huge region share one physical page.

Nothing is assumed about which translation an access picks, so whatever is shown
here holds for every way in which the caches may keep old entries.
-/

open Foundations Program

/-- The address in the pages that belonged to the entry with the given index. -/
def redirect (level index address : Nat) : Nat :=
  (index <<< pageTableIndexShift level) + address % 2 ^ pageTableIndexShift level

theorem redirect_self (level address : Nat) : redirect level (entryOf level address) address = address := by
  unfold redirect entryOf
  rw [Nat.shiftLeft_eq, Nat.shiftRight_eq_div_pow, Nat.mul_comm]
  exact Nat.div_add_mod _ _

/-- The slot an address shows while no entry is exchanged.  Only the pages of the
two huge regions share their slots; everywhere else an address is its own slot. -/
def physicalSlot (address : Nat) : Nat :=
  if huge2MBBaseAddress ≤ address ∧ address < huge2MBBaseAddress + (amount2MPages <<< pageTableIndexShift 2) then
    huge2MBBaseAddress + address % 2 ^ pageTableIndexShift 2
  else if huge1GBBaseAddress ≤ address ∧ address < huge1GBBaseAddress + (amount1GPages <<< pageTableIndexShift 3) then
    huge1GBBaseAddress + address % 2 ^ pageTableIndexShift 3
  else address

/-- `entries` is what an entry holds, as the index of the entry that held it when
the tables were set up; `live` is all it has held since the last flush. -/
structure PagedMachine where
  memory : Nat -> Nat
  entries : EntryLocation -> Nat
  live : EntryLocation -> List Nat

namespace PagedMachine

/-- The addresses that an access may end in, resolving the given levels.  Every
entry on the way may still be used as it was at any time since the last flush. -/
def targetsThrough (live : EntryLocation -> List Nat) : List Nat -> Nat -> List Nat
  | [], address => [address]
  | level :: lower, address =>
      (live ⟨level, entryOf level address⟩).flatMap fun index =>
        targetsThrough live lower (redirect level index address)

def targets (machine : PagedMachine) (address : Nat) : List Nat :=
  targetsThrough machine.live [4, 3, 2] address

/-- The walk through the page tables themselves. -/
def located (machine : PagedMachine) (address : Nat) : Nat -> EntryLocation
  | 2 =>
      let below := redirect 4 (machine.entries ⟨4, entryOf 4 address⟩) address
      let below := redirect 3 (machine.entries ⟨3, entryOf 3 below⟩) below
      ⟨2, entryOf 2 below⟩
  | 3 =>
      let below := redirect 4 (machine.entries ⟨4, entryOf 4 address⟩) address
      ⟨3, entryOf 3 below⟩
  | level => ⟨level, entryOf level address⟩

def exchange (machine : PagedMachine) (first second : EntryLocation) : PagedMachine where
  memory := machine.memory
  entries := Function.update (Function.update machine.entries first (machine.entries second)) second
    (machine.entries first)
  live := Function.update (Function.update machine.live first (machine.entries second :: machine.live first)) second
    (machine.entries first :: machine.live second)

def flush (machine : PagedMachine) : PagedMachine :=
  { machine with live := fun location => [machine.entries location] }

def store (machine : PagedMachine) (slot data : Nat) : PagedMachine :=
  { machine with memory := Function.update machine.memory (physicalSlot slot) data }

/-- The tables as they were set up, and no other translation in use.  Every access
then ends in the slot of its own address. -/
structure Settled (machine : PagedMachine) : Prop where
  entries_eq : machine.entries = EntryLocation.index
  live_eq : machine.live = fun location => [location.index]

/-- Translations that were never exchanged lead to the address itself. -/
theorem targetsThrough_self {live : EntryLocation -> List Nat} {levels : List Nat} {address : Nat}
    (alone : ∀ level, level ∈ levels -> live ⟨level, entryOf level address⟩ = [entryOf level address]) :
    targetsThrough live levels address = [address] := by
  induction levels with
  | nil => rfl
  | cons level lower inductionHypothesis =>
      have here := alone level List.mem_cons_self
      rw [targetsThrough, here, List.flatMap_singleton, redirect_self]
      exact inductionHypothesis fun other inside => alone other (List.mem_cons_of_mem _ inside)

variable {machine : PagedMachine}

theorem Settled.targets_eq (settled : machine.Settled) (address : Nat) : machine.targets address = [address] := by
  unfold targets
  rw [settled.live_eq]
  exact targetsThrough_self fun _ _ => rfl

theorem Settled.located_eq (settled : machine.Settled) (address : Nat) :
    machine.located address = fun level => ⟨level, entryOf level address⟩ := by
  funext level
  unfold located
  rw [settled.entries_eq]
  simp only [redirect_self]
  split <;> rfl

/-- Exchanging the same entries twice puts them back. -/
theorem exchange_exchange_entries (first second : EntryLocation) :
    ((machine.exchange first second).exchange first second).entries = machine.entries := by
  funext location
  unfold exchange
  by_cases atSecond : location = second
  · subst atSecond
    by_cases same : first = location
    · subst same
      simp only [Function.update_self]
    · simp only [Function.update_self, Function.update_of_ne same]
  · by_cases atFirst : location = first
    · subst atFirst
      simp only [Function.update_self, Function.update_of_ne atSecond]
    · simp only [Function.update_of_ne atSecond, Function.update_of_ne atFirst]

theorem settled_flush (restored : machine.entries = EntryLocation.index) : machine.flush.Settled :=
  ⟨restored, by rw [flush, restored]⟩

theorem Settled.store (settled : machine.Settled) (slot data : Nat) : (machine.store slot data).Settled :=
  ⟨settled.entries_eq, settled.live_eq⟩

end PagedMachine

/-! ## The history of a run -/

/-- `entered` is what the last access before the latest exchange returned, and
`accessed` are the addresses accessed since. -/
structure History where
  exchanges : Nat
  last : Nat
  entered : Nat
  accessed : List Nat

namespace History

def start : History := ⟨0, 0, 0, []⟩

def access (history : History) (address value : Nat) : History :=
  { history with last := value, accessed := history.accessed ++ [address] }

def exchange (history : History) : History :=
  { history with exchanges := history.exchanges + 1, entered := history.last, accessed := [] }

end History

structure Paging where
  machine : PagedMachine
  history : History

/-- The machine as the trigger sets it up. -/
def afterSetup : Paging where
  machine := {
    memory := fun address => if complementaryBaseAddress ≤ address then signal else 0
    entries := EntryLocation.index
    live := fun location => [location.index] }
  history := History.start

namespace Paging

/-- An entry is exchanged between the first and the second of two calls of
`switch_page_table_entries`. -/
def Exchanged (state : Paging) : Prop :=
  state.history.exchanges % 2 = 1

/-- One operation of the kernel module.  `admitted` restricts the addresses that
the hash functions produce, level by level. -/
def may (admitted : Nat -> Nat -> Prop) : Behaviour kernelInterface Paging :=
  fun op state response final =>
    match op, response with
    | .readData address, response =>
        (∃ slot, slot ∈ state.machine.targets address ∧ response = state.machine.memory (physicalSlot slot)) ∧
          final = { state with history := state.history.access address response }
    | .fetchInstruction address, response =>
        (∃ slot, slot ∈ state.machine.targets address ∧ response = state.machine.memory (physicalSlot slot)) ∧
          final = { state with history := state.history.access address response }
    | .writeData address data, _ =>
        ∃ slot, slot ∈ state.machine.targets address ∧ final = { state with machine := state.machine.store slot data }
    | .walkPageTable address, response =>
        response = ⟨fun level => some (state.machine.located address level)⟩ ∧ final = state
    | .switchPageTableEntries (some first) (some second), _ =>
        final = ⟨state.machine.exchange first second, state.history.exchange⟩
    | .switchPageTableEntries _ _, _ => False
    | .flushMmuCaches, _ => final = { state with machine := state.machine.flush }
    | .kmalloc, response => response = (fun _ => 0) ∧ final = state
    | .callHash pointer target offset setBits level, response =>
        ∃ hash, pointer = .to hash ∧ response = hash.apply target offset setBits level ∧ admitted level response ∧
          final = state
    | _, _ => final = state

section Rules

variable {admitted : Nat -> Nat -> Prop} {guard : Paging -> KernelOp -> Prop} {exhausted : Prop} {state : Paging}

/-- The operation that an access performs. -/
def accessOp : MemoryAccess -> Nat -> KernelOp
  | .readData, address => .readData address
  | .fetchInstruction, address => .fetchInstruction address

theorem ensures_access (access : MemoryAccess) {address : Nat} {post : Nat -> Paging -> Prop}
    (permitted : guard state (accessOp access address))
    (holds : ∀ slot, slot ∈ state.machine.targets address ->
      post (state.machine.memory (physicalSlot slot))
        { state with history := state.history.access address (state.machine.memory (physicalSlot slot)) }) :
    Ensures (may admitted) guard exhausted (access.access address) state post := by
  cases access with
  | readData =>
      refine ⟨permitted, ?_⟩
      rintro _ _ ⟨⟨slot, inside, rfl⟩, rfl⟩
      exact holds slot inside
  | fetchInstruction =>
      refine ⟨permitted, ?_⟩
      rintro _ _ ⟨⟨slot, inside, rfl⟩, rfl⟩
      exact holds slot inside

theorem ensures_writeData {address data : Nat} {post : Unit -> Paging -> Prop}
    (permitted : guard state (.writeData address data))
    (holds : ∀ slot, slot ∈ state.machine.targets address ->
      post () { state with machine := state.machine.store slot data }) :
    Ensures (may admitted) guard exhausted (writeData address data) state post := by
  refine ⟨permitted, ?_⟩
  rintro _ _ ⟨slot, inside, rfl⟩
  exact holds slot inside

theorem ensures_flushMmuCaches {post : Unit -> Paging -> Prop} (permitted : guard state .flushMmuCaches)
    (holds : post () { state with machine := state.machine.flush }) :
    Ensures (may admitted) guard exhausted flushMmuCaches state post := by
  refine ⟨permitted, ?_⟩
  rintro _ _ rfl
  exact holds

theorem ensures_kmalloc {post : (Nat -> Nat) -> Paging -> Prop} (permitted : guard state .kmalloc)
    (holds : post (fun _ => 0) state) : Ensures (may admitted) guard exhausted kmalloc state post := by
  refine ⟨permitted, ?_⟩
  rintro _ _ ⟨rfl, rfl⟩
  exact holds

theorem ensures_enter {user : StructureUser} {cache : TranslationCache} {level : Nat} {post : Unit -> Paging -> Prop}
    (permitted : guard state (.enter user cache level)) (holds : post () state) :
    Ensures (may admitted) guard exhausted (enter user cache level) state post := by
  refine ⟨permitted, ?_⟩
  rintro _ _ rfl
  exact holds

theorem ensures_callHash {pointer : HashPointer} {target offset setBits level : Nat} {post : Nat -> Paging -> Prop}
    (permitted : guard state (.callHash pointer target offset setBits level))
    (holds : ∀ hash, pointer = .to hash -> admitted level (hash.apply target offset setBits level) ->
      post (hash.apply target offset setBits level) state) :
    Ensures (may admitted) guard exhausted (callHash pointer target offset setBits level) state post := by
  refine ⟨permitted, ?_⟩
  rintro _ _ ⟨hash, same, rfl, inside, rfl⟩
  exact holds hash same inside

theorem ensures_drawAddress {modulus level : Nat} {post : Nat -> Paging -> Prop}
    (permitted : guard state .getRandomLong)
    (holds : ∀ random, post (baseAddress + ((random % modulus) <<< pageTableIndexShift level)) state) :
    Ensures (may admitted) guard exhausted (drawAddress modulus level) state post := by
  refine ⟨permitted, ?_⟩
  rintro random _ rfl
  exact holds random

/-- Where an address is translated, level by level, while no entry is exchanged. -/
def walkTo (address : Nat) : PageTableWalk :=
  ⟨fun level => some ⟨level, entryOf level address⟩⟩

theorem ensures_walkPageTable {address : Nat} {post : PageTableWalk -> Paging -> Prop}
    (settled : state.machine.Settled) (permitted : guard state (.walkPageTable address))
    (holds : post (walkTo address) state) :
    Ensures (may admitted) guard exhausted (walkPageTable address) state post := by
  refine ⟨permitted, ?_⟩
  rintro _ _ ⟨rfl, rfl⟩
  rw [settled.located_eq]
  exact holds

theorem ensures_clearNx {walk : PageTableWalk} {post : Unit -> Paging -> Prop} (permitted : guard state (.clearNx walk))
    (holds : post () state) : Ensures (may admitted) guard exhausted (clearNx walk) state post := by
  refine ⟨permitted, ?_⟩
  rintro _ _ rfl
  exact holds

theorem ensures_walkPair {target complementary : Nat} {post : PageTableWalk × PageTableWalk -> Paging -> Prop}
    (settled : state.machine.Settled)
    (walks : ∀ address, address = target ∨ address = complementary -> guard state (.walkPageTable address))
    (clears : ∀ walk, guard state (.clearNx walk)) (holds : post (walkTo target, walkTo complementary) state) :
    Ensures (may admitted) guard exhausted (walkPair target complementary) state post := by
  unfold walkPair
  refine ensures_bind.mpr (ensures_walkPageTable settled (walks _ (Or.inl rfl)) ?_)
  refine ensures_bind.mpr (ensures_walkPageTable settled (walks _ (Or.inr rfl)) ?_)
  exact ensures_bind.mpr (ensures_clearNx (clears _) (ensures_bind.mpr (ensures_clearNx (clears _) holds)))

/-- Exchanging the entries of two walks. -/
theorem ensures_switchLevel {level target complementary : Nat} {post : Unit -> Paging -> Prop}
    (permitted : guard state (.switchPageTableEntries (some ⟨level, entryOf level target⟩)
      (some ⟨level, entryOf level complementary⟩)))
    (holds : post () ⟨state.machine.exchange ⟨level, entryOf level target⟩ ⟨level, entryOf level complementary⟩,
      state.history.exchange⟩) :
    Ensures (may admitted) guard exhausted (switchLevel level (walkTo target, walkTo complementary)) state post := by
  refine ⟨permitted, ?_⟩
  rintro _ _ rfl
  exact holds

end Rules

end Paging

end Talbot
