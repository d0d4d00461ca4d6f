import Talbot.Definitions
import Mathlib.Data.Nat.Bitwise
import Mathlib.Order.Monotone.Basic

namespace Talbot

/-!
The three hash functions of `hash_functions.c`.  Each one enumerates, from a
target address upwards, the addresses that fall into the same set of a
translation cache.

The first section has the source's bit operations.  The second one reads the
same functions as operations on entry numbers, where the set index is explicit.
-/

def linHash (targetAddress offset setBits level : Nat) : Nat :=
  let sets := 1 <<< setBits
  targetAddress + ((sets * offset) <<< pageTableIndexShift level)

def xorGetSet (address setBits level : Nat) : Nat :=
  ((address >>> (pageTableIndexShift level + setBits)) ^^^ (address >>> pageTableIndexShift level)) &&&
    ((1 <<< setBits) - 1)

def xorHash (targetAddress offset setBits level : Nat) : Nat :=
  let targetSet := xorGetSet targetAddress setBits level
  let leftHalf := (targetAddress >>> (pageTableIndexShift level + setBits)) + offset
  let lowerSetBits := (leftHalf &&& ((1 <<< setBits) - 1)) ^^^ targetSet
  let rightHalf := targetAddress &&& ((1 <<< pageTableIndexShift level) - 1)
  (leftHalf <<< (pageTableIndexShift level + setBits)) |||
    (lowerSetBits <<< pageTableIndexShift level) ||| rightHalf

/-- In the source `~` flips all 64 bits of an unsigned long, which is the
exclusive-or with `2 ^ 64 - 1`. -/
def linShiftHash (targetAddress offset setBits level : Nat) : Nat :=
  let sets := 1 <<< setBits
  let danglingBit := (targetAddress >>> pageTableIndexShift level) &&& 0x01
  let pageTableIndex :=
    ((sets * ((offset + danglingBit) / 2)) <<< 1) + ((offset + danglingBit) % 2)
  (targetAddress &&& ((2 ^ 64 - 1) ^^^ (1 <<< pageTableIndexShift level))) +
    (pageTableIndex <<< pageTableIndexShift level)

/-- The values a `HashFunction` pointer of the source can hold when it is set. -/
inductive HashFunction where
  | linHash
  | xorHash
  | linShiftHash
  deriving DecidableEq, Repr

def HashFunction.apply : HashFunction -> Nat -> Nat -> Nat -> Nat -> Nat
  | .linHash => Talbot.linHash
  | .xorHash => Talbot.xorHash
  | .linShiftHash => Talbot.linShiftHash

/-! ## The same functions on entry numbers -/

/-- The entry number that a hash function reaches from an entry. -/
def HashFunction.entry (hash : HashFunction) (setBits entry offset : Nat) : Nat :=
  match hash with
  | .linHash => entry + 2 ^ setBits * offset
  | .xorHash =>
      (entry / 2 ^ setBits + offset) * 2 ^ setBits +
        ((entry / 2 ^ setBits + offset) % 2 ^ setBits ^^^
          (entry / 2 ^ setBits ^^^ entry) % 2 ^ setBits)
  | .linShiftHash =>
      2 * (entry / 2 + 2 ^ setBits * ((offset + entry % 2) / 2)) + (offset + entry % 2) % 2

/-- The set that a translation cache indexed this way files an entry under.  The
source has no such function; what it enumerates are the members of these sets. -/
def HashFunction.set (hash : HashFunction) (setBits entry : Nat) : Nat :=
  match hash with
  | .linHash => entry % 2 ^ setBits
  | .xorHash => (entry ^^^ entry / 2 ^ setBits) % 2 ^ setBits
  | .linShiftHash => entry / 2 % 2 ^ setBits

/-- A 64-bit word has no higher bits. -/
theorem index_lt_of_testBit {value index : Nat} (fits : value < 2 ^ 64) (set : value.testBit index = true) :
    index < 64 := by
  by_contra large
  rw [Nat.testBit_lt_two_pow (Nat.lt_of_lt_of_le fits
    (Nat.pow_le_pow_right (by decide) (Nat.le_of_not_lt large)))] at set
  cases set

theorem clear_bit_eq {value : Nat} (position : Nat) (fits : value < 2 ^ 64) :
    value &&& ((2 ^ 64 - 1) ^^^ (1 <<< position)) =
      2 ^ (position + 1) * (value >>> position / 2) + value % 2 ^ position := by
  have small : value % 2 ^ position < 2 ^ (position + 1) :=
    Nat.lt_trans (Nat.mod_lt _ (Nat.two_pow_pos _))
      (Nat.pow_lt_pow_right (by decide) (Nat.lt_succ_self _))
  apply Nat.eq_of_testBit_eq
  intro index
  have high : value.testBit index = true -> index < 64 := index_lt_of_testBit fits
  rw [Nat.testBit_and, Nat.testBit_xor, Nat.testBit_two_pow_sub_one, Nat.shiftLeft_eq, Nat.one_mul,
    Nat.testBit_two_pow, Nat.testBit_two_pow_mul_add _ small]
  by_cases below : index < position + 1
  · rw [if_pos below, Nat.testBit_mod_two_pow]
    by_cases same : index = position
    · subst same
      simp only [Nat.lt_irrefl, decide_false, Bool.false_and, decide_true]
      cases set : value.testBit index with
      | false => rfl
      | true => simp only [high set, decide_true, Bool.xor_self, Bool.and_false]
    · have lower : index < position := by omega
      have different : ¬ position = index := fun equal => same equal.symm
      simp only [lower, different, decide_true, decide_false, Bool.xor_false, Bool.true_and]
      cases set : value.testBit index with
      | false => rfl
      | true => simp only [high set, decide_true, Bool.and_true]
  · rw [if_neg below, ← Nat.shiftRight_one, ← Nat.shiftRight_add, Nat.testBit_shiftRight]
    have different : ¬ position = index := by omega
    rw [show position + 1 + (index - (position + 1)) = index by omega]
    simp only [different, decide_false, Bool.xor_false]
    cases set : value.testBit index with
    | false => rfl
    | true => simp only [high set, decide_true, Bool.and_true]

theorem clear_low_eq {value : Nat} (position : Nat) (fits : value < 2 ^ 64) :
    value &&& ((2 ^ 64 - 1) ^^^ ((1 <<< position) - 1)) = (value >>> position) <<< position := by
  apply Nat.eq_of_testBit_eq
  intro index
  rw [Nat.testBit_and, Nat.testBit_xor, Nat.testBit_two_pow_sub_one, Nat.shiftLeft_eq, Nat.one_mul,
    Nat.testBit_two_pow_sub_one, Nat.testBit_shiftLeft, Nat.testBit_shiftRight]
  have high : value.testBit index = true -> index < 64 := index_lt_of_testBit fits
  by_cases below : index < position
  · simp only [below, decide_true, Bool.xor_true, ge_iff_le, Nat.not_le.mpr below, decide_false,
      Bool.false_and]
    cases set : value.testBit index with
    | false => rfl
    | true => simp only [high set, decide_true, Bool.not_true, Bool.and_false]
  · simp only [below, decide_false, Bool.xor_false, ge_iff_le, Nat.le_of_not_lt below, decide_true,
      Bool.true_and, Nat.add_sub_cancel' (Nat.le_of_not_lt below)]
    cases set : value.testBit index with
    | false => rfl
    | true => simp only [high set, decide_true, Bool.and_true]

/-- On entry-aligned addresses the source's bit operations compute the entry
number, and nothing else changes. -/
theorem HashFunction.apply_aligned (hash : HashFunction) {level entry : Nat} (offset setBits : Nat)
    (isLevel : IsLevel level) (fits : pageAddress level entry 0 < 2 ^ 64) :
    hash.apply (pageAddress level entry 0) offset setBits level =
      pageAddress level (hash.entry setBits entry offset) 0 := by
  have shifted : pageAddress level entry 0 >>> pageTableIndexShift level = entry :=
    entryOf_pageAddress isLevel (by decide)
  have aligned : pageAddress level entry 0 % 2 ^ pageTableIndexShift level = 0 := by
    rw [pageAddress_zero, Nat.shiftLeft_eq, Nat.mul_mod_left]
  cases hash with
  | linHash =>
      simp only [apply, Talbot.linHash, HashFunction.entry, pageAddress_zero, Nat.shiftLeft_eq, one_mul]
      ring
  | xorHash =>
      have sets : (1 <<< setBits : Nat) = 2 ^ setBits := by rw [Nat.shiftLeft_eq, one_mul]
      have lower : ((entry / 2 ^ setBits + offset) % 2 ^ setBits ^^^
          (entry / 2 ^ setBits ^^^ entry) % 2 ^ setBits) < 2 ^ setBits :=
        Nat.xor_lt_two_pow (Nat.mod_lt _ (Nat.two_pow_pos _)) (Nat.mod_lt _ (Nat.two_pow_pos _))
      have upper : pageAddress level entry 0 >>> (pageTableIndexShift level + setBits) =
          entry / 2 ^ setBits := by
        rw [Nat.shiftRight_add, shifted, Nat.shiftRight_eq_div_pow]
      simp only [apply, Talbot.xorHash, xorGetSet, HashFunction.entry, upper, shifted,
        sets, Nat.and_two_pow_sub_one_eq_mod]
      rw [show (1 <<< pageTableIndexShift level : Nat) = 2 ^ pageTableIndexShift level by
        rw [Nat.shiftLeft_eq, one_mul], Nat.and_two_pow_sub_one_eq_mod, aligned, Nat.or_zero,
        Nat.add_comm (pageTableIndexShift level) setBits, Nat.shiftLeft_add,
        ← Nat.shiftLeft_or_distrib, ← Nat.shiftLeft_add_eq_or_of_lt lower, pageAddress_zero,
        Nat.shiftLeft_eq _ setBits]
  | linShiftHash =>
      have sets : (1 <<< setBits : Nat) = 2 ^ setBits := by rw [Nat.shiftLeft_eq, one_mul]
      simp only [apply, Talbot.linShiftHash, HashFunction.entry, clear_bit_eq _ fits, shifted, aligned,
        sets, Nat.and_one_is_mod]
      rw [pageAddress_zero]
      simp only [Nat.shiftLeft_eq, Nat.pow_succ]
      ring

namespace HashFunction

variable (hash : HashFunction) (setBits entry : Nat)

@[simp] theorem entry_zero : hash.entry setBits entry 0 = entry := by
  cases hash with
  | linHash => simp only [HashFunction.entry, Nat.mul_zero, Nat.add_zero]
  | xorHash =>
      simp only [HashFunction.entry, Nat.add_zero, Nat.xor_mod_two_pow, ← Nat.xor_assoc, Nat.xor_self,
        Nat.zero_xor]
      rw [Nat.mul_comm]
      exact Nat.div_add_mod entry (2 ^ setBits)
  | linShiftHash =>
      simp only [HashFunction.entry, Nat.zero_add]
      have half : entry % 2 / 2 = 0 := by omega
      rw [half]
      omega

/-- The low bits that `xor_hash` puts below the left half. -/
private theorem xor_low_lt (left right : Nat) :
    (left % 2 ^ setBits ^^^ right % 2 ^ setBits) < 2 ^ setBits :=
  Nat.xor_lt_two_pow (Nat.mod_lt _ (Nat.two_pow_pos setBits)) (Nat.mod_lt _ (Nat.two_pow_pos setBits))

theorem xor_entry_div (offset : Nat) :
    HashFunction.entry .xorHash setBits entry offset / 2 ^ setBits = entry / 2 ^ setBits + offset := by
  simp only [HashFunction.entry]
  rw [Nat.add_comm, Nat.add_mul_div_right _ _ (Nat.two_pow_pos setBits),
    Nat.div_eq_of_lt (xor_low_lt setBits _ _), Nat.zero_add]

theorem xor_entry_mod (offset : Nat) :
    HashFunction.entry .xorHash setBits entry offset % 2 ^ setBits =
      ((entry / 2 ^ setBits + offset) % 2 ^ setBits ^^^
        (entry / 2 ^ setBits ^^^ entry) % 2 ^ setBits) := by
  simp only [HashFunction.entry]
  rw [Nat.mul_add_mod', Nat.mod_eq_of_lt (xor_low_lt setBits _ _)]

/-- A larger offset reaches a larger entry, so no entry is enumerated twice. -/
theorem entry_strictMono : StrictMono (hash.entry setBits entry) := by
  apply strictMono_nat_of_lt_succ
  intro offset
  have sets : 0 < 2 ^ setBits := Nat.two_pow_pos setBits
  cases hash with
  | linHash =>
      simp only [HashFunction.entry, Nat.mul_add, Nat.mul_one]
      omega
  | xorHash =>
      simp only [HashFunction.entry]
      calc
        _ < (entry / 2 ^ setBits + offset) * 2 ^ setBits + 2 ^ setBits :=
          Nat.add_lt_add_left (xor_low_lt setBits _ _) _
        _ = (entry / 2 ^ setBits + (offset + 1)) * 2 ^ setBits := by ring
        _ ≤ _ := Nat.le_add_right _ _
  | linShiftHash =>
      simp only [HashFunction.entry]
      rcases Nat.mod_two_eq_zero_or_one (offset + entry % 2) with even | odd
      · have halves : (offset + 1 + entry % 2) / 2 = (offset + entry % 2) / 2 := by omega
        rw [halves]
        omega
      · have halves : (offset + 1 + entry % 2) / 2 = (offset + entry % 2) / 2 + 1 := by omega
        rw [halves, Nat.mul_add (2 ^ setBits), Nat.mul_one]
        omega

/-- Every enumerated entry is filed under the same set. -/
theorem set_entry (offset : Nat) :
    hash.set setBits (hash.entry setBits entry offset) = hash.set setBits entry := by
  cases hash with
  | linHash => exact Nat.add_mul_mod_self_left _ _ _
  | xorHash =>
      simp only [HashFunction.set]
      rw [Nat.xor_mod_two_pow, xor_entry_mod, xor_entry_div, Nat.xor_comm _ ((_ + _) % _),
        ← Nat.xor_assoc, Nat.xor_self, Nat.zero_xor, Nat.xor_comm]
  | linShiftHash =>
      simp only [HashFunction.set, HashFunction.entry]
      have half : (2 * (entry / 2 + 2 ^ setBits * ((offset + entry % 2) / 2)) +
          (offset + entry % 2) % 2) / 2 =
          entry / 2 + 2 ^ setBits * ((offset + entry % 2) / 2) := by omega
      rw [half]
      exact Nat.add_mul_mod_self_left _ _ _

/-- Continuing the enumeration from an enumerated entry goes on where it stood. -/
theorem entry_add (first second : Nat) :
    hash.entry setBits (hash.entry setBits entry first) second =
      hash.entry setBits entry (first + second) := by
  cases hash with
  | linHash =>
      simp only [HashFunction.entry]
      ring
  | xorHash =>
      have unfolded : ∀ start offset, HashFunction.entry .xorHash setBits start offset =
          (start / 2 ^ setBits + offset) * 2 ^ setBits +
            ((start / 2 ^ setBits + offset) % 2 ^ setBits ^^^
              (start / 2 ^ setBits ^^^ start) % 2 ^ setBits) := fun _ _ => rfl
      have same := set_entry .xorHash setBits entry first
      simp only [HashFunction.set, Nat.xor_comm _ (_ / _)] at same
      rw [unfolded _ second, same, xor_entry_div, unfolded entry, Nat.add_assoc]
  | linShiftHash =>
      simp only [HashFunction.entry]
      have half : (2 * (entry / 2 + 2 ^ setBits * ((first + entry % 2) / 2)) +
          (first + entry % 2) % 2) / 2 =
          entry / 2 + 2 ^ setBits * ((first + entry % 2) / 2) := by omega
      have parity : (2 * (entry / 2 + 2 ^ setBits * ((first + entry % 2) / 2)) +
          (first + entry % 2) % 2) % 2 = (first + entry % 2) % 2 := by omega
      have halves : (first + entry % 2) / 2 + (second + (first + entry % 2) % 2) / 2 =
          (first + second + entry % 2) / 2 := by omega
      have parities : (second + (first + entry % 2) % 2) % 2 = (first + second + entry % 2) % 2 := by
        omega
      rw [half, parity, parities, ← halves, Nat.mul_add (2 ^ setBits), Nat.add_assoc]

/-- Every later entry of the same set is reached. -/
theorem exists_entry {later : Nat} (after : entry ≤ later)
    (same : hash.set setBits later = hash.set setBits entry) :
    ∃ offset, hash.entry setBits entry offset = later := by
  have sets : 0 < 2 ^ setBits := Nat.two_pow_pos setBits
  cases hash with
  | linHash =>
      rcases Nat.dvd_of_mod_eq_zero (Nat.sub_mod_eq_zero_of_mod_eq same) with ⟨offset, distance⟩
      exact ⟨offset, by simp only [HashFunction.entry]; omega⟩
  | xorHash =>
      have halves : entry / 2 ^ setBits ≤ later / 2 ^ setBits := Nat.div_le_div_right after
      refine ⟨later / 2 ^ setBits - entry / 2 ^ setBits, ?_⟩
      simp only [HashFunction.set] at same
      simp only [HashFunction.entry]
      rw [Nat.add_sub_cancel' halves, Nat.xor_comm (entry / _), ← same, Nat.xor_mod_two_pow, ← Nat.xor_assoc,
        Nat.xor_comm _ (later % _), Nat.xor_assoc, Nat.xor_self, Nat.xor_zero, Nat.mul_comm]
      exact Nat.div_add_mod later (2 ^ setBits)
  | linShiftHash =>
      have halves : entry / 2 ≤ later / 2 := Nat.div_le_div_right after
      rcases Nat.dvd_of_mod_eq_zero (Nat.sub_mod_eq_zero_of_mod_eq same) with ⟨rounds, distance⟩
      refine ⟨2 * rounds + later % 2 - entry % 2, ?_⟩
      simp only [HashFunction.entry]
      have positive : entry % 2 ≤ 2 * rounds + later % 2 := by
        rcases Nat.eq_zero_or_pos rounds with rfl | positive
        · rw [Nat.mul_zero] at distance
          omega
        · omega
      rw [Nat.sub_add_cancel positive]
      have round : (2 * rounds + later % 2) / 2 = rounds := by omega
      have parity : (2 * rounds + later % 2) % 2 = later % 2 := by omega
      rw [round, parity, ← distance]
      omega

theorem set_lt (entry : Nat) : hash.set setBits entry < 2 ^ setBits := by
  cases hash <;> exact Nat.mod_lt _ (Nat.two_pow_pos setBits)

/-- Behind an aligned entry every set has two members in each block of twice as many
entries as there are sets: the enumeration starts in the first block, and it leaves
each block after two members. The low half of an entry is its set, exclusive-or the
upper half. -/
theorem exists_first {begin residue : Nat} (aligned : 2 * 2 ^ setBits ∣ begin) (small : residue < 2 ^ setBits) :
    ∃ first, begin ≤ first ∧ hash.set setBits first = residue ∧ ∀ rounds offset, offset < 2 * rounds ->
      hash.entry setBits first offset < begin + 2 * 2 ^ setBits * rounds := by
  have sets : 0 < 2 ^ setBits := Nat.two_pow_pos setBits
  rcases aligned with ⟨blocks, rfl⟩
  cases hash with
  | linHash =>
      refine ⟨2 * 2 ^ setBits * blocks + residue, Nat.le_add_right _ _, ?_, fun rounds offset inside => ?_⟩
      · simp only [HashFunction.set]
        rw [Nat.mul_comm 2, Nat.mul_assoc, Nat.mul_add_mod, Nat.mod_eq_of_lt small]
      · simp only [HashFunction.entry]
        have before : 2 ^ setBits * (offset + 1) ≤ 2 ^ setBits * (2 * rounds) := Nat.mul_le_mul_left _ inside
        have regrouped : 2 ^ setBits * (2 * rounds) = 2 * 2 ^ setBits * rounds := by ring
        rw [Nat.mul_add_one] at before
        omega
  | xorHash =>
      generalize upper_eq : 2 * blocks = upper
      have start : 2 * 2 ^ setBits * blocks = upper * 2 ^ setBits := by
        rw [← upper_eq]
        ring
      have low : (residue ^^^ upper % 2 ^ setBits) < 2 ^ setBits :=
        Nat.xor_lt_two_pow small (Nat.mod_lt _ sets)
      have half : (upper * 2 ^ setBits + (residue ^^^ upper % 2 ^ setBits)) / 2 ^ setBits = upper := by
        rw [Nat.add_comm, Nat.add_mul_div_right _ _ sets, Nat.div_eq_of_lt low, Nat.zero_add]
      rw [start]
      refine ⟨upper * 2 ^ setBits + (residue ^^^ upper % 2 ^ setBits), Nat.le_add_right _ _, ?_,
        fun rounds offset inside => ?_⟩
      · simp only [HashFunction.set]
        rw [half, Nat.xor_mod_two_pow, Nat.mul_add_mod', Nat.mod_eq_of_lt low, Nat.xor_assoc, Nat.xor_self, Nat.xor_zero]
      · have split := xor_entry_div setBits (upper * 2 ^ setBits + (residue ^^^ upper % 2 ^ setBits)) offset
        rw [half] at split
        have regrouped : upper * 2 ^ setBits + 2 * 2 ^ setBits * rounds = (upper + 2 * rounds) * 2 ^ setBits := by ring
        rw [regrouped, ← Nat.div_lt_iff_lt_mul sets, split]
        exact Nat.add_lt_add_left inside upper
  | linShiftHash =>
      have half : (2 * (2 ^ setBits * blocks + residue)) / 2 = 2 ^ setBits * blocks + residue :=
        Nat.mul_div_cancel_left _ Nat.two_pos
      refine ⟨2 * (2 ^ setBits * blocks + residue), ?_, ?_, fun rounds offset inside => ?_⟩
      · rw [Nat.mul_assoc]
        exact Nat.mul_le_mul_left 2 (Nat.le_add_right _ _)
      · simp only [HashFunction.set]
        rw [half, Nat.mul_add_mod, Nat.mod_eq_of_lt small]
      · simp only [HashFunction.entry]
        have before : 2 ^ setBits * (offset / 2 + 1) ≤ 2 ^ setBits * rounds :=
          Nat.mul_le_mul_left _ (Nat.div_lt_of_lt_mul inside)
        rw [half, Nat.mul_mod_right, Nat.add_zero, Nat.mul_assoc, Nat.mul_assoc]
        rw [Nat.mul_add_one] at before
        omega

/-- Only the shifted index files the second entry of a block under the set of the first. -/
theorem set_succ_ne {begin : Nat} (aligned : 2 ^ setBits ∣ begin) (several : 0 < setBits)
    (unshifted : hash ≠ .linShiftHash) : hash.set setBits (begin + 1) ≠ hash.set setBits begin := by
  have sets : 1 < 2 ^ setBits := Nat.one_lt_two_pow (Nat.ne_of_gt several)
  rcases aligned with ⟨upper, rfl⟩
  have low : (2 ^ setBits * upper + 1) % 2 ^ setBits = 1 := by
    rw [Nat.mul_add_mod, Nat.mod_eq_of_lt sets]
  cases hash with
  | linHash =>
      simp only [HashFunction.set]
      rw [low, Nat.mul_mod_right]
      exact Nat.one_ne_zero
  | xorHash =>
      have half : (2 ^ setBits * upper + 1) / 2 ^ setBits = upper := by
        rw [Nat.mul_add_div (Nat.two_pow_pos setBits), Nat.div_eq_of_lt sets, Nat.add_zero]
      simp only [HashFunction.set]
      rw [Nat.xor_mod_two_pow, Nat.xor_mod_two_pow, low, half, Nat.mul_mod_right,
        Nat.mul_div_cancel_left _ (Nat.two_pow_pos setBits)]
      intro same
      exact Nat.one_ne_zero (Nat.xor_left_injective same)
  | linShiftHash => exact absurd rfl unshifted

end HashFunction

/-- An address is the start of its entry and an offset inside it. -/
theorem address_split (level address : Nat) :
    pageAddress level (entryOf level address) 0 + address % 2 ^ pageTableIndexShift level = address := by
  rw [pageAddress_zero, entryOf, Nat.shiftRight_eq_div_pow, Nat.shiftLeft_eq, Nat.mul_comm]
  exact Nat.div_add_mod _ _

/-- On every address the source's bit operations compute the entry number, and the
offset inside the entry stays. -/
theorem HashFunction.apply_eq (hash : HashFunction) {target : Nat} (offset setBits level : Nat)
    (fits : target < 2 ^ 64) :
    hash.apply target offset setBits level =
      pageAddress level (hash.entry setBits (entryOf level target) offset) 0 +
        target % 2 ^ pageTableIndexShift level := by
  have sets : (1 <<< setBits : Nat) = 2 ^ setBits := by rw [Nat.shiftLeft_eq, one_mul]
  have shifted : target >>> pageTableIndexShift level = entryOf level target := rfl
  cases hash with
  | linHash =>
      have split := address_split level target
      rw [pageAddress_zero, Nat.shiftLeft_eq] at split
      simp only [apply, Talbot.linHash, HashFunction.entry, sets, pageAddress_zero, Nat.shiftLeft_eq]
      conv => lhs; lhs; rw [← split]
      ring
  | xorHash =>
      have lower : ((entryOf level target / 2 ^ setBits + offset) % 2 ^ setBits ^^^
          (entryOf level target / 2 ^ setBits ^^^ entryOf level target) % 2 ^ setBits) < 2 ^ setBits :=
        Nat.xor_lt_two_pow (Nat.mod_lt _ (Nat.two_pow_pos _)) (Nat.mod_lt _ (Nat.two_pow_pos _))
      have upper : target >>> (pageTableIndexShift level + setBits) = entryOf level target / 2 ^ setBits := by
        rw [Nat.shiftRight_add, shifted, Nat.shiftRight_eq_div_pow]
      have mask : (1 <<< pageTableIndexShift level : Nat) = 2 ^ pageTableIndexShift level := by
        rw [Nat.shiftLeft_eq, one_mul]
      have small : target % 2 ^ pageTableIndexShift level < 2 ^ pageTableIndexShift level :=
        Nat.mod_lt _ (Nat.two_pow_pos _)
      simp only [apply, Talbot.xorHash, xorGetSet, HashFunction.entry, upper, shifted, sets, mask,
        Nat.and_two_pow_sub_one_eq_mod]
      rw [Nat.add_comm (pageTableIndexShift level) setBits, Nat.shiftLeft_add, ← Nat.shiftLeft_or_distrib,
        ← Nat.shiftLeft_add_eq_or_of_lt lower, ← Nat.shiftLeft_add_eq_or_of_lt small, pageAddress_zero,
        Nat.shiftLeft_eq _ setBits]
  | linShiftHash =>
      simp only [apply, Talbot.linShiftHash, HashFunction.entry, clear_bit_eq _ fits, shifted,
        sets, Nat.and_one_is_mod]
      rw [pageAddress_zero]
      simp only [Nat.shiftLeft_eq, Nat.pow_succ]
      ring

end Talbot
