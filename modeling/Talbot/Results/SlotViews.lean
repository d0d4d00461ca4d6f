import Mathlib.Data.List.Induction
import Talbot.Machine.Slots

namespace Talbot

/-!
Records next to each other.

The huge chains pack their links 16 bytes apart, and the experiments on split
translation caches follow one chain as data and as code in turn.  Over bytes, a
call rewrites one record and leaves every record that does not overlap it, so a
memory written through records is a memory of words: each address shows the last
value written to it, in both views.
-/

open Foundations

namespace Slots

/-- One call that writes a record: `initialize_page` of the triggers, or
`write_data` of the kernel modules.  Both leave the same record, which is data as
well as code. -/
inductive SlotWrite : Type where
  | initializePage (address : Nat) (value : BitVec 64)
  | writeData (address : Nat) (data : BitVec 64)
deriving DecidableEq, Repr

namespace SlotWrite

def address : SlotWrite -> Nat
  | initializePage address _ => address
  | writeData address _ => address

def value : SlotWrite -> BitVec 64
  | initializePage _ value => value
  | writeData _ data => data

def apply (memory : ByteMemory) : SlotWrite -> ByteMemory
  | initializePage address value => Slots.initializePage address value memory
  | writeData address data => Slots.writeData address data memory

theorem apply_eq (write : SlotWrite) (memory : ByteMemory) :
    write.apply memory = memory.storeBytes write.address (slotRecord write.value) := by
  cases write with
  | initializePage address value => exact initializePage_eq
  | writeData address data => exact writeData_eq

end SlotWrite

def applyAll (memory : ByteMemory) (writes : List SlotWrite) : ByteMemory :=
  writes.foldl SlotWrite.apply memory

/-- The last value written at each address. -/
def lastWritten (writes : List SlotWrite) : Nat -> Option (BitVec 64) :=
  writes.foldl (fun words write => Function.update words write.address (some write.value)) fun _ => none

/-- The addresses are pairwise equal or at least 16 bytes apart, as the links in a
huge page are.  A record takes no more than these bytes. -/
def Spaced (addresses : List Nat) : Prop :=
  ∀ first, first ∈ addresses -> ∀ second, second ∈ addresses ->
    first = second ∨ first + 16 ≤ second ∨ second + 16 ≤ first

instance (addresses : List Nat) : Decidable (Spaced addresses) :=
  inferInstanceAs (Decidable (∀ first, first ∈ addresses -> ∀ second, second ∈ addresses -> _))

/-! ## One call -/

section Steps

variable {memory : ByteMemory} {addresses : List Nat}

/-- The records of the written addresses, all of them among `addresses`. -/
structure Shows (addresses : List Nat) (memory : ByteMemory) (words : Nat -> Option (BitVec 64)) : Prop where
  record : ∀ {address value}, words address = some value -> RecordAt memory address value
  among : ∀ {address value}, words address = some value -> address ∈ addresses

theorem shows_nothing : Shows addresses memory fun _ => none :=
  ⟨fun impossible => absurd impossible (Option.some_ne_none _).symm,
    fun impossible => absurd impossible (Option.some_ne_none _).symm⟩

/-- A call leaves the bytes of every other record. -/
theorem apply_elsewhere {write : SlotWrite} {address offset : Nat} (spaced : Spaced addresses)
    (written : write.address ∈ addresses) (member : address ∈ addresses) (different : write.address ≠ address)
    (bounded : offset < slotSize) : write.apply memory (address + offset) = memory (address + offset) := by
  rw [write.apply_eq]
  apply storeBytes_apart _ bounded
  have room : slotSize ≤ 16 := by decide
  rcases (spaced _ written _ member).resolve_left different with before | after
  · exact .inr (Nat.le_trans (Nat.add_le_add_left room _) before)
  · exact .inl (Nat.le_trans (Nat.add_le_add_left room _) after)

/-- A call writes one word. -/
theorem Shows.apply {words : Nat -> Option (BitVec 64)} (shows : Shows addresses memory words)
    (spaced : Spaced addresses) (write : SlotWrite) (written : write.address ∈ addresses) :
    Shows addresses (write.apply memory) (Function.update words write.address (some write.value)) := by
  constructor
  · intro address value same
    by_cases here : address = write.address
    · subst here
      rw [Function.update_self] at same
      cases same
      rw [write.apply_eq]
      exact recordAt_storeBytes
    · rw [Function.update_of_ne here] at same
      exact (shows.record same).congr fun offset bounded =>
        apply_elsewhere spaced written (shows.among same) (Ne.symm here) bounded
  · intro address value same
    by_cases here : address = write.address
    · exact here ▸ written
    · rw [Function.update_of_ne here] at same
      exact shows.among same

end Steps

/-! ## Runs of calls -/

section SlotRuns

variable {memory : ByteMemory}

theorem lastWritten_append (earlier : List SlotWrite) (write : SlotWrite) :
    lastWritten (earlier ++ [write]) =
      Function.update (lastWritten earlier) write.address (some write.value) := by
  unfold lastWritten
  rw [List.foldl_append]
  rfl

theorem applyAll_append (earlier later : List SlotWrite) :
    applyAll memory (earlier ++ later) = applyAll (applyAll memory earlier) later :=
  List.foldl_append

/-- After any sequence of calls, every written address shows its last value. -/
theorem shows_applyAll {addresses : List Nat} (spaced : Spaced addresses) (writes : List SlotWrite)
    (among : ∀ write, write ∈ writes -> write.address ∈ addresses) :
    Shows addresses (applyAll memory writes) (lastWritten writes) := by
  induction writes using List.reverseRecOn with
  | nil => exact shows_nothing
  | append_singleton earlier write hypothesis =>
      have before := hypothesis fun earlierWrite member => among earlierWrite (List.mem_append_left _ member)
      rw [lastWritten_append, applyAll_append]
      exact before.apply spaced write (among write (List.mem_append_right _ (List.mem_singleton_self write)))

/-- Every written address has a last value. -/
theorem lastWritten_of_mem {writes : List SlotWrite} {write : SlotWrite} (member : write ∈ writes) :
    ∃ value, lastWritten writes write.address = some value := by
  induction writes using List.reverseRecOn with
  | nil => exact absurd member List.not_mem_nil
  | append_singleton earlier last hypothesis =>
      rw [lastWritten_append]
      by_cases same : write.address = last.address
      · exact ⟨last.value, by rw [same, Function.update_self]⟩
      · rw [Function.update_of_ne same]
        rcases List.mem_append.mp member with before | final
        · exact hypothesis before
        · exact absurd (congrArg SlotWrite.address (List.mem_singleton.mp final)) same

/-- Calls at other addresses leave a record byte for byte. -/
theorem applyAll_elsewhere {addresses : List Nat} {address offset : Nat} (spaced : Spaced addresses)
    (member : address ∈ addresses) (bounded : offset < slotSize) (later : List SlotWrite)
    (among : ∀ write, write ∈ later -> write.address ∈ addresses ∧ write.address ≠ address) :
    applyAll memory later (address + offset) = memory (address + offset) := by
  induction later generalizing memory with
  | nil => rfl
  | cons write later hypothesis =>
      rcases among write List.mem_cons_self with ⟨written, different⟩
      calc
        applyAll (write.apply memory) later (address + offset)
        _ = write.apply memory (address + offset) :=
          hypothesis fun next inside => among next (List.mem_cons_of_mem write inside)
        _ = memory (address + offset) := apply_elsewhere spaced written member different bounded

end SlotRuns

/-- Whatever the memory held before and in whatever order the calls come, after each
of them every address written so far decodes to its record, and its data and its
code show the last value written there; the calls that follow keep all of this at
the addresses they do not write.  Of the addresses it is only assumed that two of
them are equal or at least a slot apart. -/
theorem slotViews_agree (memory : ByteMemory) (earlier later : List SlotWrite)
    (spaced : Spaced ((earlier ++ later).map SlotWrite.address)) :
    ∀ write, write ∈ earlier -> ∃ value, lastWritten earlier write.address = some value ∧
      Holds (applyAll memory earlier) write.address value ∧
      ((∀ next, next ∈ later -> next.address ≠ write.address) ->
        Holds (applyAll memory (earlier ++ later)) write.address value ∧
        ∀ offset, offset < slotSize ->
          applyAll memory (earlier ++ later) (write.address + offset) =
            applyAll memory earlier (write.address + offset)) := by
  intro write member
  have among : ∀ other, other ∈ earlier ++ later ->
      other.address ∈ (earlier ++ later).map SlotWrite.address :=
    fun other inside => List.mem_map_of_mem inside
  have shows : Shows _ (applyAll memory earlier) (lastWritten earlier) :=
    shows_applyAll spaced earlier fun other inside => among other (List.mem_append_left later inside)
  rcases lastWritten_of_mem member with ⟨value, last⟩
  have record := shows.record last
  refine ⟨value, last, record.holds, ?_⟩
  intro elsewhere
  have kept : ∀ offset, offset < slotSize ->
      applyAll memory (earlier ++ later) (write.address + offset) =
        applyAll memory earlier (write.address + offset) := by
    intro offset bounded
    rw [applyAll_append]
    exact applyAll_elsewhere spaced (among write (List.mem_append_left later member)) bounded later
      fun next inside => ⟨among next (List.mem_append_right earlier inside), elsewhere next inside⟩
  exact ⟨(record.congr kept).holds, kept⟩

/-- Slots packed as the links in a huge page, the first of them written again. -/
def packedWrites : List SlotWrite :=
  [.initializePage 0 0, .writeData 0 0x40000000, .writeData 16 0x80000010, .writeData 0 0x80000010]

/-- The second slot, after one more call next to it. -/
theorem slotViews_agree_packed :
    ∃ value, lastWritten packedWrites 16 = some value ∧
      Holds (applyAll (fun _ => 0) packedWrites) 16 value ∧
      ((∀ next, next ∈ [SlotWrite.writeData 32 0xffffffffffffffff] -> next.address ≠ 16) ->
        Holds (applyAll (fun _ => 0) (packedWrites ++ [.writeData 32 0xffffffffffffffff])) 16 value ∧
        ∀ offset, offset < slotSize ->
          applyAll (fun _ => 0) (packedWrites ++ [.writeData 32 0xffffffffffffffff]) (16 + offset) =
            applyAll (fun _ => 0) packedWrites (16 + offset)) :=
  slotViews_agree (fun _ => 0) packedWrites [.writeData 32 0xffffffffffffffff] (by decide)
    (.writeData 16 0x80000010) (by decide)

example : disassemble (applyAll (fun _ => 0) packedWrites) 4 16 =
    some [.nop, .nop, .load 0x80000010, .ret] := by decide

end Slots

end Talbot
