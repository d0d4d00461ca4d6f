import Talbot.Foundations.Simulation
import Talbot.Machine.Paging
import Talbot.Machine.TableWalks

namespace Talbot
namespace PageTables

/-!
A machine with the page tables themselves.

The entries are words in memory, the kernel module finds them by walking the
tables and writes them through the pointers it found, and the processor may use
every word that an entry has held since the last flush.  `PagedMachine` knows the
entries by the addresses that they translated when the tables were set up.  Both
are driven by the same events, with pointers on one side and names on the other.

A process has more pages than those of the windows, and the kernel's half of its
address space shows much of memory a second time.  Everything is therefore said about
the addresses in use only: the experiments access and walk no others, and they
exchange entries only if these were set up to translate used addresses at the same
places, as those of a target and of its complementary address are.
-/

open Foundations TableFormat

/-- What the kernel module does to the page tables and through them.  An event
carries what was observed, so a run is a list of events that the machine admits. -/
inductive PagingEvent (Pointer : Type) where
  | access (address value : Nat)
  | store (address data : Nat)
  /-- The pointer of a level is taken from a walk. -/
  | find (address level : Nat) (pointer : Pointer)
  | clearNx (address : Nat)
  | exchange (level : Nat) (first second : Pointer)
  | flush

/-- Memory with the tables, the entries that may still be in use, and the pages
behind them.  `found` are the pointers that earlier walks returned, with their
levels. -/
structure TableMachine where
  memory : Pointer -> Word
  live : Pointer -> List Word
  ram : Nat -> Nat
  found : List (Nat × Pointer)

/-- The address has one digit at the top. -/
def Canonical (top address : Nat) : Prop :=
  radix.leading top address < 2 ^ radix.bits

section Use

variable (used : Nat -> Prop)

/-- Some used address is translated through the entry with this name.  Nothing is
asked of any other entry. -/
def Relevant (level index : Nat) : Prop :=
  ∃ address, used address ∧ radix.leading level address = index

/-- Behind both names the same places are used.  Exchanging the two entries then
leads used addresses to used ones. -/
def Interchangeable (level index other : Nat) : Prop :=
  ∀ address, used (radix.redirect level index address) ↔ used (radix.redirect level other address)

/-- The entries were set up for names that can be exchanged for each other. -/
def Twins (memory : Pointer -> Word) (top root level : Nat) (first second : Pointer) : Prop :=
  ∃ one two, format.Placed memory top root level one first ∧ format.Placed memory top root level two second ∧
    Interchangeable used level one two

end Use

namespace TableMachine

def setUp (memory : Pointer -> Word) (ram : Nat -> Nat) : TableMachine where
  memory := memory
  live := fun cell => [memory cell]
  ram := ram
  found := []

/-- The tables are written; what the entries held before may still be in use. -/
def rewrite (machine : TableMachine) (memory : Pointer -> Word) : TableMachine :=
  { machine with memory := memory, live := fun cell => memory cell :: machine.live cell }

def store (machine : TableMachine) (physical data : Nat) : TableMachine :=
  { machine with ram := Function.update machine.ram physical data }

def find (machine : TableMachine) (level : Nat) (pointer : Pointer) : TableMachine :=
  { machine with found := (level, pointer) :: machine.found }

def flush (machine : TableMachine) : TableMachine :=
  { machine with live := fun cell => [machine.memory cell] }

/-- One event on tables that were set up as `original`.  A pointer of a level may be
taken from a walk that went below it, and only pointers that were found on a level are
exchanged there. -/
def Step (accessors : Accessors) (original : Pointer -> Word) (top root : Nat) (used : Nat -> Prop) :
    PagingEvent Pointer -> TableMachine -> TableMachine -> Prop
  | .access address value, machine, final =>
      used address ∧ ∃ outcome, outcome ∈ format.outcomes machine.live top root address ∧
        value = machine.ram (physicalAddress outcome address) ∧ final = machine
  | .store address data, machine, final =>
      used address ∧ ∃ outcome, outcome ∈ format.outcomes machine.live top root address ∧
        final = machine.store (physicalAddress outcome address) data
  | .find address level pointer, machine, final =>
      used address ∧ IsLevel level ∧ ∃ walk,
        -(level : Int) < (walkPageTable accessors machine.memory address walk).1 ∧
          (walkPageTable accessors machine.memory address walk).2 level = some pointer ∧
          final = machine.find level pointer
  | .clearNx address, machine, final =>
      ∃ walk pointer, (walkPageTable accessors machine.memory address walk).2 5 = some pointer ∧
        final = machine.rewrite (clearNx machine.memory pointer)
  | .exchange level first second, machine, final =>
      IsLevel level ∧ (level, first) ∈ machine.found ∧ (level, second) ∈ machine.found ∧
        Twins used original top root level first second ∧
          final = machine.rewrite (switchPageTableEntries machine.memory first second)
  | .flush, machine, final => final = machine.flush

end TableMachine

/-- The same events as operations on the machine that names its entries. -/
def PagedStep (admitted : Nat -> Nat -> Prop) : PagingEvent EntryLocation -> Paging -> Paging -> Prop
  | .access address value, state, final => Paging.may admitted (.readData address) state value final
  | .store address data, state, final => Paging.may admitted (.writeData address data) state () final
  | .find address level pointer, state, final =>
      ∃ walk : PageTableWalk, Paging.may admitted (.walkPageTable address) state walk final ∧
        walk.pageTableEntries level = some pointer
  | .clearNx address, state, final =>
      ∃ (walk : PageTableWalk) (middle : Paging), Paging.may admitted (.walkPageTable address) state walk middle ∧
        Paging.may admitted (.clearNx walk) middle () final
  | .exchange _ first second, state, final =>
      Paging.may admitted (.switchPageTableEntries (some first) (some second)) state () final
  | .flush, state, final => Paging.may admitted .flushMmuCaches state () final

/-! ## Names -/

section Names

variable (memory : Pointer -> Word) (top root : Nat)

/-- An entry is named by its level and the leading digits of the addresses that it
translated. -/
def Named (level : Nat) (pointer : Pointer) (location : EntryLocation) : Prop :=
  location.level = level ∧ format.Placed memory top root level location.index pointer

inductive SameEvent : PagingEvent Pointer -> PagingEvent EntryLocation -> Prop where
  | access (address value : Nat) : SameEvent (.access address value) (.access address value)
  | store (address data : Nat) : SameEvent (.store address data) (.store address data)
  | find {address level : Nat} {pointer : Pointer} {location : EntryLocation}
      (named : Named memory top root level pointer location) :
      SameEvent (.find address level pointer) (.find address level location)
  | clearNx (address : Nat) : SameEvent (.clearNx address) (.clearNx address)
  | exchange {level : Nat} {first second : Pointer} {first' second' : EntryLocation}
      (named : Named memory top root level first first') (named' : Named memory top root level second second') :
      SameEvent (.exchange level first second) (.exchange level first' second')
  | flush : SameEvent .flush .flush

/-- The word is the other one, maybe without its highest bit, which `clear_nx`
clears.  Both translate alike. -/
def Variant (word original : Word) : Prop :=
  word = original ∨ word = original &&& ~~~nxBit

/-- Every entry holds a word that an entry of its level was set up with.  Exchanges
only move entries within a level, so this holds after any number of them. -/
def Rearranged (current : Pointer -> Word) : Prop :=
  ∀ level index cell, format.Placed memory top root level index cell ->
    ∃ other origin, format.Placed memory top root level other origin ∧ Variant (current cell) (memory origin)

/-- The tables as they are set up, and a kernel that can walk them, and all that
becomes of them, for the addresses in use.  No table behind such an address is used in
another place, and the only used pages that show the same memory are those of one huge
region.  Nothing is said about the rest of the address space. -/
structure Layout (accessors : Accessors) (used : Nat -> Prop) : Prop where
  levels : top = 5 ∨ top = 4
  canonical : ∀ address, used address -> Canonical top address
  agrees : ∀ current, Rearranged memory top root current -> ∀ address, used address ->
    Agrees accessors current top root address
  unshared : ∀ level index level' index' cell, Relevant used level index ->
    format.Placed memory top root level index cell -> format.Placed memory top root level' index' cell ->
      level = level' ∧ index = index'
  slots : ∀ first second outcome outcome', used first -> used second ->
    format.pageOf memory top root first = some outcome -> format.pageOf memory top root second = some outcome' ->
      (physicalAddress outcome first = physicalAddress outcome' second ↔ physicalSlot first = physicalSlot second)

end Names

variable {memory : Pointer -> Word} {top root : Nat} {accessors : Accessors}

theorem Variant.clear {word original : Word} (variant : Variant word original) :
    Variant (word &&& ~~~nxBit) original := by
  rcases variant with rfl | rfl
  · exact Or.inr rfl
  · rw [BitVec.and_assoc, BitVec.and_self]
    exact Or.inr rfl

theorem Variant.decode_eq {word original : Word} (variant : Variant word original) (level : Nat) :
    decode level word = decode level original := by
  rcases variant with rfl | rfl
  · rfl
  · exact decode_clearNx level original

end PageTables
end Talbot
