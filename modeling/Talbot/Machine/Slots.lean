import Talbot.Foundations.Bytes

namespace Talbot

/-!
A slot of memory, byte by byte.

`write_data` and `initialize_page` leave a record of 13 bytes that is a data
word and a function at once: two one-byte `nop`s, a load of a 64-bit constant
into the result register, and a return.  The constant is the data word, so
`read_data` loads it and `fetch_instruction` calls the function that returns it.
Addresses do not wrap around: a record ends inside the address space.
-/

open Foundations

namespace Slots

def writeData (address : Nat) (data : BitVec 64) (memory : ByteMemory) : ByteMemory :=
  let memory := memory.store address 2 0x9090
  let memory := memory.store (address + 2) 1 0x48
  let memory := memory.store (address + 3) 1 0xb8
  let memory := memory.store (address + 4) 8 data.toNat
  memory.store (address + 12) 1 0xc3

def initializePage (address : Nat) (value : BitVec 64) (memory : ByteMemory) : ByteMemory :=
  let memory := memory.store address 2 0x9090
  let memory := memory.store (address + 2) 1 0x48
  let memory := memory.store (address + 3) 1 0xb8
  let memory := memory.store (address + 4) 8 value.toNat
  memory.store (address + 12) 1 0xc3

def readData (memory : ByteMemory) (address : Nat) : BitVec 64 :=
  BitVec.ofNat 64 (memory.load (address + 4) 8)

/-! ## Executing bytes -/

/-- The instructions of a record. -/
inductive Instruction : Type where
  | nop
  | load (value : BitVec 64)
  | ret
deriving DecidableEq, Repr

/-- The instruction at an address and the address of the next one. -/
def decode (memory : ByteMemory) (address : Nat) : Option (Instruction × Nat) :=
  if memory address = 0x90 then some (.nop, address + 1)
  else if memory address = 0xc3 then some (.ret, address + 1)
  else if memory address = 0x48 ∧ memory (address + 1) = 0xb8 then
    some (.load (BitVec.ofNat 64 (memory.load (address + 2) 8)), address + 10)
  else none

def disassemble (memory : ByteMemory) : Nat -> Nat -> Option (List Instruction)
  | 0, _ => some []
  | count + 1, address => do
      let (instruction, next) ← decode memory address
      let rest ← disassemble memory count next
      return instruction :: rest

/-- Run a function to its return.  The steps are bounded, and bytes that are none
of the instructions fault. -/
def call (memory : ByteMemory) : Nat -> Nat -> BitVec 64 -> Option (BitVec 64)
  | 0, _, _ => none
  | steps + 1, address, register => do
      match ← decode memory address with
      | (.nop, next) => call memory steps next register
      | (.load value, next) => call memory steps next value
      | (.ret, _) => return register

/-- The result register holds anything before the call. -/
def fetchInstruction (memory : ByteMemory) (address steps : Nat) (register : BitVec 64) : Option (BitVec 64) :=
  call memory steps address register

/-! ## The record -/

def slotSize : Nat := 13

/-- The bytes that one call writes. -/
def slotRecord (value : BitVec 64) : List (BitVec 8) :=
  [0x90, 0x90, 0x48, 0xb8] ++ (ByteMemory.littleEndian 8 value.toNat ++ [0xc3])

/-- The record with the given value lies at an address. -/
def RecordAt (memory : ByteMemory) (address : Nat) (value : BitVec 64) : Prop :=
  memory.loadBytes address slotSize = slotRecord value

section Records

variable {memory : ByteMemory} {address : Nat} {value : BitVec 64}

@[simp] theorem length_slotRecord (value : BitVec 64) : (slotRecord value).length = slotSize := by
  rw [slotRecord, List.length_append, List.length_append, ByteMemory.length_littleEndian]
  rfl

/-- The stores of one call are one store of the record. -/
theorem writeData_eq : writeData address value memory = memory.storeBytes address (slotRecord value) := by
  unfold writeData ByteMemory.store slotRecord
  rw [ByteMemory.storeBytes_append, ByteMemory.storeBytes_append, ByteMemory.length_littleEndian]
  rfl

theorem initializePage_eq :
    initializePage address value memory = memory.storeBytes address (slotRecord value) :=
  writeData_eq

theorem recordAt_storeBytes : RecordAt (memory.storeBytes address (slotRecord value)) address value := by
  unfold RecordAt
  rw [← length_slotRecord value]
  exact ByteMemory.loadBytes_storeBytes _

/-- A record elsewhere is not touched. -/
theorem storeBytes_apart {other offset : Nat} (apart : other + slotSize ≤ address ∨ address + slotSize ≤ other)
    (bounded : offset < slotSize) :
    memory.storeBytes address (slotRecord value) (other + offset) = memory (other + offset) := by
  apply ByteMemory.storeBytes_outside
  rw [length_slotRecord]
  rcases apart with before | after
  · exact .inl (Nat.lt_of_lt_of_le (Nat.add_lt_add_left bounded other) before)
  · exact .inr (Nat.le_trans after (Nat.le_add_right other offset))

theorem RecordAt.congr {other : ByteMemory} (record : RecordAt memory address value)
    (same : ∀ offset, offset < slotSize -> other (address + offset) = memory (address + offset)) :
    RecordAt other address value :=
  (ByteMemory.loadBytes_congr same).trans record

/-- The parts of a record. -/
theorem RecordAt.parts (record : RecordAt memory address value) :
    memory address = 0x90 ∧ memory (address + 1) = 0x90 ∧ memory (address + 2) = 0x48 ∧
      memory (address + 3) = 0xb8 ∧ memory.loadBytes (address + 4) 8 = ByteMemory.littleEndian 8 value.toNat ∧
      memory (address + 12) = 0xc3 := by
  have split : memory.loadBytes address slotSize =
      memory.loadBytes address 4 ++ (memory.loadBytes (address + 4) 8 ++ memory.loadBytes (address + 12) 1) := by
    rw [← ByteMemory.loadBytes_add 8 1, ← ByteMemory.loadBytes_add 4 9]
    rfl
  rcases List.append_inj (split.symm.trans record) rfl with ⟨code, rest⟩
  rcases List.append_inj rest (by rw [ByteMemory.length_loadBytes, ByteMemory.length_littleEndian])
    with ⟨constant, last⟩
  simp only [ByteMemory.loadBytes, List.cons.injEq, and_true] at code last
  exact ⟨code.1, code.2.1, code.2.2.1, code.2.2.2, constant, last⟩

/-- A stored word comes back whole. -/
theorem ofNat_load {source : Nat}
    (bytes : memory.loadBytes source 8 = ByteMemory.littleEndian 8 value.toNat) :
    BitVec.ofNat 64 (memory.load source 8) = value := by
  have bounded : value.toNat < 256 ^ 8 := value.isLt
  rw [ByteMemory.load, bytes, ByteMemory.ofDigits_littleEndian, Nat.mod_eq_of_lt bounded, BitVec.ofNat_toNat,
    BitVec.setWidth_eq]

end Records

/-! ## The two views -/

/-- The record as code, as data, and as what a call of it returns. -/
structure Holds (memory : ByteMemory) (address : Nat) (value : BitVec 64) : Prop where
  decodes : disassemble memory 4 address = some [.nop, .nop, .load value, .ret]
  data : readData memory address = value
  code : ∀ steps register, 4 ≤ steps -> fetchInstruction memory address steps register = some value

section Views

variable {memory : ByteMemory} {address : Nat} {value : BitVec 64}

theorem decode_nop (byte : memory address = 0x90) : decode memory address = some (.nop, address + 1) :=
  if_pos byte

theorem decode_ret (byte : memory address = 0xc3) : decode memory address = some (.ret, address + 1) := by
  rw [decode, byte, if_neg (by decide), if_pos rfl]

theorem decode_load (byte : memory address = 0x48) (opcode : memory (address + 1) = 0xb8)
    (constant : memory.loadBytes (address + 2) 8 = ByteMemory.littleEndian 8 value.toNat) :
    decode memory address = some (.load value, address + 10) := by
  rw [decode, byte, opcode, if_neg (by decide), if_neg (by decide), if_pos ⟨rfl, rfl⟩, ofNat_load constant]

/-- Both views of a record show its value. -/
theorem RecordAt.holds (record : RecordAt memory address value) : Holds memory address value := by
  rcases record.parts with ⟨first, second, byte, opcode, constant, last⟩
  have load := decode_load byte opcode constant
  refine ⟨?_, ofNat_load constant, ?_⟩
  · simp [disassemble, decode_nop first, decode_nop second, load, decode_ret last]
  · intro steps register enough
    rcases Nat.exists_eq_add_of_le' enough with ⟨further, rfl⟩
    simp [fetchInstruction, call, decode_nop first, decode_nop second, load, decode_ret last]

end Views

end Slots

end Talbot
