import Mathlib.Logic.Function.Basic
import Talbot.Definitions
import Talbot.Foundations.RadixTables

namespace Talbot
namespace PageTables

/-!
Walking and changing the page tables (`paging.c`, `paging.h`).

The three tools use the same code.  The accessors and tests of page table
entries are the kernel's, so they are a parameter; what they do on the tables of
an x86-64 processor is stated below.  Without five-level paging the kernel folds
the fourth level into the fifth: the `pgd` accessors do nothing, and the pointer
to the `p4d` entry is the one to the `pgd` entry.
-/

open Foundations

/-- A page table entry. -/
abbrev Word : Type :=
  BitVec 64

/-- `unsigned long *` into a page table. -/
abbrev Pointer : Type :=
  Cell Nat

/-- The accessors of `linux/pgtable.h`.  Levels are numbered as in the source: 5 for
`pgd`, 4 for `p4d`, 3 for `pud`, 2 for `pmd`. -/
structure Accessors where
  /-- `pgd_offset(mm, addr)` -/
  pgdOffset : Nat -> Pointer
  /-- `p4d_offset`, `pud_offset` and `pmd_offset` by the level they lead to, with the
  upper pointer and what it points to. -/
  offset : Nat -> Pointer -> Word -> Nat -> Pointer
  pteOffsetKernel : Pointer -> Word -> Nat -> Option Pointer
  /-- `pgd_none`, `p4d_none`, `pud_none`, `pmd_none` -/
  isNone : Nat -> Word -> Bool
  /-- `pgd_bad`, `p4d_bad`, `pud_bad`, `pmd_bad` -/
  isBad : Nat -> Word -> Bool

/-- `struct page_table_walk`; `none` is a NULL pointer. -/
abbrev Walk : Type :=
  Nat -> Option Pointer

section Walk

variable (accessors : Accessors) (memory : Pointer -> Word) (address : Nat)

/-- The lookup of a `p4d`, `pud` or `pmd` entry, which the rest of the walk
starts from. -/
def walkEntry (level : Nat) (upper : Pointer) (walk : Walk) (rest : Pointer -> Walk -> Int × Walk) : Int × Walk :=
  let pointer := accessors.offset level upper (memory upper) address
  if accessors.isNone level (memory pointer) || accessors.isBad (level + 1) (memory upper) then
    (-level, Function.update walk level none)
  else rest pointer (Function.update walk level (some pointer))

/-- The lookup of the `pte` entry, which is the only one whose pointer is tested. -/
def walkPte (pmd : Pointer) (walk : Walk) : Int × Walk :=
  match accessors.pteOffsetKernel pmd (memory pmd) address with
  | none => (-1, Function.update walk 1 none)
  | some pte =>
      if accessors.isBad 2 (memory pmd) then (-1, Function.update walk 1 none)
      else (0, Function.update walk 1 (some pte))

def walkPageTable (walk : Walk) : Int × Walk :=
  let pgd := accessors.pgdOffset address
  if accessors.isNone 5 (memory pgd) then (-5, Function.update walk 5 none)
  else
    walkEntry accessors memory address 4 pgd (Function.update walk 5 (some pgd)) fun p4d walk =>
      walkEntry accessors memory address 3 p4d walk fun pud walk =>
        walkEntry accessors memory address 2 pud walk (walkPte accessors memory address)

end Walk

/-- `NXBIT` -/
def nxBit : Word :=
  1#64 <<< 63

/-- `clear_nx`; the pointer is the one to the `pgd` entry. -/
def clearNx (memory : Pointer -> Word) (pointer : Pointer) : Pointer -> Word :=
  Function.update memory pointer (memory pointer &&& ~~~nxBit)

/-- `switch_page_table_entries` -/
def switchPageTableEntries (memory : Pointer -> Word) (first second : Pointer) : Pointer -> Word :=
  let entry := memory first
  let memory := Function.update memory first (memory second)
  Function.update memory second entry

/-! ## The tables of the processor -/

def radix : Radix where
  shift := pageTableIndexShift
  bits := 9

theorem adjoins : radix.Adjoins 5 := by
  intro level positive below
  interval_cases level <;> rfl

/-- Bit 0 marks an entry that is present, bit 7 one of the levels 3 and 2 that
points to a huge page; the address is in the bits from 12 to 51. -/
def decode (level : Nat) (word : Word) : Decoded Nat Nat :=
  if word.getLsbD 0 = false then .absent
  else if level ≤ 1 ∨ level ≤ 3 ∧ word.getLsbD 7 = true then
    .page ((word.toNat % 2 ^ 52) >>> pageTableIndexShift level)
  else .table ((word.toNat % 2 ^ 52) >>> 12)

@[reducible] def format : TableFormat Word Nat Nat where
  radix := radix
  decode := decode

/-- The physical address of a byte that is translated by a page entry. -/
def physicalAddress (outcome : Nat × Nat) (address : Nat) : Nat :=
  (outcome.2 <<< pageTableIndexShift outcome.1) + address % 2 ^ pageTableIndexShift outcome.1

theorem low_clearNx (word : Word) {i : Nat} (below : i < 63) : (word &&& ~~~nxBit).getLsbD i = word.getLsbD i := by
  have clear : nxBit.getLsbD i = false := by
    rw [nxBit, BitVec.getLsbD_shiftLeft, decide_eq_true below]
    simp
  rw [BitVec.getLsbD_and, BitVec.getLsbD_not, clear, decide_eq_true (Nat.lt_succ_of_lt below)]
  simp

/-- Bit 63 does not take part in the translation. -/
theorem decode_clearNx (level : Nat) (word : Word) : decode level (word &&& ~~~nxBit) = decode level word := by
  have address : (word &&& ~~~nxBit).toNat % 2 ^ 52 = word.toNat % 2 ^ 52 := by
    rw [← BitVec.toNat_setWidth, ← BitVec.toNat_setWidth]
    congr 1
    ext i inside
    rw [BitVec.getElem_setWidth, BitVec.getElem_setWidth]
    exact low_clearNx word (Nat.lt_trans inside (by decide))
  unfold decode
  rw [low_clearNx word (by decide), low_clearNx word (by decide), address]

end PageTables
end Talbot
