import Mathlib.Data.Nat.Digits.Defs
import Mathlib.Logic.Function.Basic

namespace Talbot
namespace Foundations

/-!
Memory as bytes.

A store writes a list of bytes at consecutive addresses and a load reads as
many back; numbers are stored with their lowest byte first.  Stores at
consecutive addresses are one store, a load inside what was stored reads it
back, and bytes outside a store keep their value.
-/

abbrev ByteMemory := Nat -> BitVec 8

namespace ByteMemory

def storeBytes (memory : ByteMemory) (address : Nat) : List (BitVec 8) -> ByteMemory
  | [] => memory
  | byte :: rest => storeBytes (Function.update memory address byte) (address + 1) rest

def loadBytes (memory : ByteMemory) (address : Nat) : Nat -> List (BitVec 8)
  | 0 => []
  | count + 1 => memory address :: loadBytes memory (address + 1) count

/-- The lowest `count` bytes of a number, lowest first. -/
def littleEndian : Nat -> Nat -> List (BitVec 8)
  | 0, _ => []
  | count + 1, value => BitVec.ofNat 8 value :: littleEndian count (value / 256)

def store (memory : ByteMemory) (address count value : Nat) : ByteMemory :=
  memory.storeBytes address (littleEndian count value)

def load (memory : ByteMemory) (address count : Nat) : Nat :=
  Nat.ofDigits 256 ((memory.loadBytes address count).map BitVec.toNat)

variable {memory : ByteMemory} {address : Nat}

@[simp] theorem length_littleEndian (count value : Nat) : (littleEndian count value).length = count := by
  induction count generalizing value with
  | zero => rfl
  | succ count hypothesis => rw [littleEndian, List.length_cons, hypothesis]

/-- Reading the bytes of a number back loses what does not fit. -/
theorem ofDigits_littleEndian (count value : Nat) :
    Nat.ofDigits 256 ((littleEndian count value).map BitVec.toNat) = value % 256 ^ count := by
  induction count generalizing value with
  | zero => exact (Nat.mod_one value).symm
  | succ count hypothesis =>
      have lowest : (BitVec.ofNat 8 value).toNat = value % 256 := rfl
      rw [littleEndian, List.map_cons, Nat.ofDigits_cons, hypothesis, lowest, Nat.pow_succ', Nat.mod_mul]

/-- Bytes outside a store keep their value. -/
theorem storeBytes_outside {bytes : List (BitVec 8)} {other : Nat}
    (outside : other < address ∨ address + bytes.length ≤ other) :
    memory.storeBytes address bytes other = memory other := by
  induction bytes generalizing memory address with
  | nil => rfl
  | cons byte rest hypothesis =>
      rw [List.length_cons] at outside
      have elsewhere : other ≠ address := by omega
      rw [storeBytes, hypothesis (by omega), Function.update_of_ne elsewhere]

/-- Two stores at consecutive addresses are one. -/
theorem storeBytes_append (first second : List (BitVec 8)) :
    memory.storeBytes address (first ++ second) =
      (memory.storeBytes address first).storeBytes (address + first.length) second := by
  induction first generalizing memory address with
  | nil => rfl
  | cons byte rest hypothesis =>
      rw [List.cons_append, storeBytes, hypothesis, List.length_cons, Nat.add_right_comm]
      rfl

@[simp] theorem length_loadBytes (count : Nat) : (memory.loadBytes address count).length = count := by
  induction count generalizing address with
  | zero => rfl
  | succ count hypothesis => rw [loadBytes, List.length_cons, hypothesis]

theorem loadBytes_add (first second : Nat) :
    memory.loadBytes address (first + second) =
      memory.loadBytes address first ++ memory.loadBytes (address + first) second := by
  induction first generalizing address with
  | zero => rw [Nat.zero_add]; rfl
  | succ first hypothesis =>
      rw [Nat.add_right_comm, loadBytes, hypothesis, loadBytes, List.cons_append, Nat.add_assoc, Nat.add_comm 1]

/-- A load depends on the bytes it reads only. -/
theorem loadBytes_congr {other : ByteMemory} {count : Nat}
    (same : ∀ offset, offset < count -> other (address + offset) = memory (address + offset)) :
    other.loadBytes address count = memory.loadBytes address count := by
  induction count generalizing address with
  | zero => rfl
  | succ count hypothesis =>
      have first : other address = memory address := same 0 (Nat.zero_lt_succ count)
      rw [loadBytes, loadBytes, first, hypothesis]
      intro offset bounded
      rw [Nat.add_assoc, Nat.add_comm 1]
      exact same (offset + 1) (Nat.succ_lt_succ bounded)

/-- What was stored is read back. -/
theorem loadBytes_storeBytes (bytes : List (BitVec 8)) :
    (memory.storeBytes address bytes).loadBytes address bytes.length = bytes := by
  induction bytes generalizing memory address with
  | nil => rfl
  | cons byte rest hypothesis =>
      have first : memory.storeBytes address (byte :: rest) address = byte := by
        rw [storeBytes, storeBytes_outside (.inl (Nat.lt_succ_self address)), Function.update_self]
      rw [List.length_cons, loadBytes, first, storeBytes, hypothesis]

end ByteMemory

end Foundations
end Talbot
