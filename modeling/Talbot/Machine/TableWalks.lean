import Talbot.Kernel.Paging

namespace Talbot
namespace PageTables

/-!
The walk of the kernel module and the walk of the processor.

`walk_page_table` asks the kernel's accessors level by level, reads the entry of
the next level before it knows that there is one, and encodes in its result where
it stopped.  On the entries that the processor reads, the accessors agree with
the processor's own decoding; nothing is assumed about any other entry.
-/

open Foundations TableFormat

variable {accessors : Accessors} {memory : Pointer -> Word} {address top root : Nat}

/-- What the accessors do on the way of an address.  The top level is 5 with
five-level paging and 4 without. -/
structure Agrees (accessors : Accessors) (memory : Pointer -> Word) (top root address : Nat) : Prop where
  levels : top = 5 ∨ top = 4
  pgd : accessors.pgdOffset address = format.cellOf top root address
  offset : ∀ level upper next, 2 ≤ level -> level < top -> (level + 1, upper) ∈ format.visited memory top root address ->
    decode (level + 1) (memory upper) = .table next ->
    accessors.offset level upper (memory upper) address = format.cellOf level next address
  pte : ∀ upper next, (2, upper) ∈ format.visited memory top root address -> decode 2 (memory upper) = .table next ->
    accessors.pteOffsetKernel upper (memory upper) address = some (format.cellOf 1 next address)
  none_iff : ∀ level pointer, 2 ≤ level -> (level, pointer) ∈ format.visited memory top root address ->
    (accessors.isNone level (memory pointer) = true ↔ decode level (memory pointer) = .absent)
  good : ∀ level pointer next, 2 ≤ level -> (level, pointer) ∈ format.visited memory top root address ->
    decode level (memory pointer) = .table next -> accessors.isBad level (memory pointer) = false
  bad : ∀ level pointer frame, 2 ≤ level -> (level, pointer) ∈ format.visited memory top root address ->
    decode level (memory pointer) = .page frame -> accessors.isBad level (memory pointer) = true
  folded : top = 4 -> (∀ pointer word, accessors.offset 4 pointer word address = pointer) ∧
    ∀ word, accessors.isNone 5 word = false ∧ accessors.isBad 5 word = false

/-- The walk through the tables as the processor decodes them. -/
def walked (memory : Pointer -> Word) (address : Nat) : Nat -> Nat -> Walk -> Int × Walk
  | 0, _, walk => (0, walk)
  | level + 1, table, walk =>
      let cell := format.cellOf (level + 1) table address
      match decode (level + 1) (memory cell) with
      | .table next => walked memory address level next (Function.update walk (level + 1) (some cell))
      | .absent =>
          if level = 0 then (0, Function.update walk 1 (some cell))
          else (-(level + 1 : Nat), Function.update walk (level + 1) none)
      | .page _ =>
          if level = 0 then (0, Function.update walk 1 (some cell))
          else (-level, Function.update (Function.update walk (level + 1) (some cell)) level none)

/-- Its rest below an entry that is present and has been noted. -/
def walkedBelow (memory : Pointer -> Word) (address level : Nat) (cell : Pointer) (walk : Walk) : Int × Walk :=
  match decode (level + 1) (memory cell) with
  | .table next => walked memory address level next walk
  | _ => (-level, Function.update walk level none)

theorem decode_one (word : Word) (next : Nat) : decode 1 word ≠ .table next := by
  unfold decode
  by_cases present : word.getLsbD 0 = false
  · rw [if_pos present]
    exact nofun
  · rw [if_neg present, if_pos (Or.inl (Nat.le_refl 1))]
    exact nofun

section Stages

variable (agrees : Agrees accessors memory top root address)
include agrees

theorem walkPte_eq {pmd : Pointer} (visited : (2, pmd) ∈ format.visited memory top root address)
    (present : decode 2 (memory pmd) ≠ .absent) (walk : Walk) :
    walkPte accessors memory address pmd walk = walkedBelow memory address 1 pmd walk := by
  unfold walkPte
  unfold walkedBelow
  cases points : decode 2 (memory pmd) with
  | absent => exact absurd points present
  | page frame =>
      rw [agrees.bad 2 pmd frame (Nat.le_refl 2) visited points]
      cases accessors.pteOffsetKernel pmd (memory pmd) address <;> rfl
  | table next =>
      rw [agrees.pte pmd next visited points, agrees.good 2 pmd next (Nat.le_refl 2) visited points]
      simp only [walked]
      cases decoded : decode 1 (memory (format.cellOf 1 next address)) with
      | absent => rfl
      | page frame => rfl
      | table further => exact absurd decoded (decode_one _ _)

/-- One lookup of the walk. -/
theorem walkEntry_eq {level : Nat} {upper : Pointer} (atLeast : 2 ≤ level) (below : level < top)
    (visited : (level + 1, upper) ∈ format.visited memory top root address)
    (present : decode (level + 1) (memory upper) ≠ .absent) (walk : Walk) {rest : Pointer -> Walk -> Int × Walk}
    (continues : ∀ cell walk, (level, cell) ∈ format.visited memory top root address ->
      decode level (memory cell) ≠ .absent -> rest cell walk = walkedBelow memory address (level - 1) cell walk) :
    walkEntry accessors memory address level upper walk rest = walkedBelow memory address level upper walk := by
  rcases Nat.exists_eq_add_of_le' (Nat.le_of_succ_le atLeast) with ⟨lower, rfl⟩
  have notLowest : lower ≠ 0 := Nat.ne_of_gt (Nat.lt_of_succ_lt_succ atLeast)
  unfold walkEntry walkedBelow
  cases points : decode (lower + 1 + 1) (memory upper) with
  | absent => exact absurd points present
  | page frame =>
      rw [agrees.bad _ upper frame (Nat.le_succ_of_le atLeast) visited points]
      simp only [Bool.or_true, if_true]
  | table next =>
      have inside := visited_next visited points (Nat.le_add_left 1 lower)
      have none_iff := agrees.none_iff _ _ atLeast inside
      rw [agrees.offset _ upper next atLeast below visited points,
        agrees.good _ upper next (Nat.le_succ_of_le atLeast) visited points]
      simp only [Bool.or_false, walked]
      by_cases absent : decode (lower + 1) (memory (format.cellOf (lower + 1) next address)) = .absent
      · rw [none_iff.mpr absent, absent]
        simp only [if_true, if_neg notLowest]
      · rw [if_neg fun none => absent (none_iff.mp none), continues _ _ inside absent]
        unfold walkedBelow
        cases decoded : decode (lower + 1) (memory (format.cellOf (lower + 1) next address)) with
        | absent => exact absurd decoded absent
        | page frame => simp only [Nat.add_sub_cancel, decoded, if_neg notLowest]
        | table further => simp only [Nat.add_sub_cancel, decoded]

/-- The kernel's walk is the processor's, whether or not the fourth level is
folded. -/
theorem walkPageTable_eq (walk : Walk) :
    walkPageTable accessors memory address walk =
      walked memory address top root (if top = 5 then walk
        else Function.update walk 5 (some (format.cellOf top root address))) := by
  have pte := fun (cell : Pointer) walk (inside : (2, cell) ∈ format.visited memory top root address) present =>
    walkPte_eq agrees inside present walk
  have pmd := fun (cell : Pointer) walk (inside : (2 + 1, cell) ∈ format.visited memory top root address) present =>
    walkEntry_eq agrees (by decide) (by rcases agrees.levels with rfl | rfl <;> decide) inside present walk pte
  have pud := fun (cell : Pointer) walk (inside : (3 + 1, cell) ∈ format.visited memory top root address) present =>
    walkEntry_eq agrees (by decide) (by rcases agrees.levels with rfl | rfl <;> decide) inside present walk pmd
  unfold walkPageTable
  rw [agrees.pgd]
  rcases agrees.levels with rfl | rfl
  · have first : (5, format.cellOf 5 root address) ∈ format.visited memory 5 root address := List.mem_cons_self
    have none_iff := agrees.none_iff 5 _ (by decide) first
    rw [if_pos rfl, walked]
    by_cases absent : decode 5 (memory (format.cellOf 5 root address)) = .absent
    · simp only [none_iff.mpr absent, absent, if_true]
      rfl
    · rw [if_neg fun none => absent (none_iff.mp none), walkEntry_eq agrees (by decide) (by decide) first absent _ pud]
      unfold walkedBelow
      cases points : decode 5 (memory (format.cellOf 5 root address)) with
      | absent => exact absurd points absent
      | page frame => rfl
      | table next => rfl
  · have first : (4, format.cellOf 4 root address) ∈ format.visited memory 4 root address := List.mem_cons_self
    have none_iff := agrees.none_iff 4 _ (by decide) first
    rcases agrees.folded rfl with ⟨same, silent⟩
    have some : ¬ accessors.isNone 5 (memory (format.cellOf 4 root address)) = true := by
      rw [(silent _).1]
      exact Bool.false_ne_true
    rw [if_neg some, if_neg (by decide), walked, walkEntry, same, (silent _).2, Bool.or_false]
    by_cases absent : decode 4 (memory (format.cellOf 4 root address)) = .absent
    · simp only [none_iff.mpr absent, absent, if_true]
      rfl
    · simp only [if_neg fun none => absent (none_iff.mp none)]
      rw [pud _ _ first absent]
      unfold walkedBelow
      cases points : decode 4 (memory (format.cellOf 4 root address)) with
      | absent => exact absurd points absent
      | page frame => rfl
      | table next => rfl

end Stages

/-! ## Accessors that agree -/

/-- Accessors that take the processor's decoding at its word. -/
def processorAccessors (top root : Nat) : Accessors where
  pgdOffset := format.cellOf top root
  offset level pointer word address :=
    if top = 4 ∧ level = 4 then pointer
    else
      match decode (level + 1) word with
      | .table next => format.cellOf level next address
      | _ => pointer
  pteOffsetKernel _ word address :=
    match decode 2 word with
    | .table next => some (format.cellOf 1 next address)
    | _ => none
  isNone level word :=
    if top = 4 ∧ level = 5 then false
    else
      match decode level word with
      | .absent => true
      | _ => false
  isBad level word :=
    if top = 4 ∧ level = 5 then false
    else
      match decode level word with
      | .table _ => false
      | _ => true

theorem agrees_processorAccessors (levels : top = 5 ∨ top = 4) :
    Agrees (processorAccessors top root) memory top root address where
  levels := levels
  pgd := rfl
  offset := by
    intro level upper next _ below _ points
    have unfolded : ¬(top = 4 ∧ level = 4) := fun both => Nat.ne_of_lt below (both.2.trans both.1.symm)
    simp only [processorAccessors, if_neg unfolded, points]
  pte := by
    intro upper next _ points
    simp only [processorAccessors, points]
  none_iff := by
    intro level pointer _ inside
    have bounded : level ≤ top := (level_of_visited inside).2
    have unfolded : ¬(top = 4 ∧ level = 5) := fun both => absurd bounded (by rw [both.1, both.2]; decide)
    simp only [processorAccessors, if_neg unfolded]
    cases decode level (memory pointer) <;> simp
  good := by
    intro level pointer next _ inside points
    simp only [processorAccessors, points, ite_self]
  bad := by
    intro level pointer frame _ inside points
    have bounded : level ≤ top := (level_of_visited inside).2
    have unfolded : ¬(top = 4 ∧ level = 5) := fun both => absurd bounded (by rw [both.1, both.2]; decide)
    simp only [processorAccessors, if_neg unfolded, points]
  folded := by
    rintro rfl
    exact ⟨fun _ _ => rfl, fun _ => ⟨rfl, rfl⟩⟩

/-- Tables of four levels with one page of 2MB at the base address. -/
def hugeTables : Pointer -> Word :=
  fun pointer =>
    if pointer = (1, 32) then 0x8000000000002003#64
    else if pointer = (2, 0) then 0x3003#64
    else if pointer = (3, 0) then 0x40000083#64
    else 0#64

end PageTables
end Talbot
