import Talbot.Machine.TableWalks

namespace Talbot
namespace PageTables

/-!
What `walk_page_table` and `clear_nx` achieve.

The walk returns zero or minus the level it stopped at, and leaves behind the
places of the entries that the processor reads above that level.  The same number
is returned for a page of one level and for a missing entry of the level below,
with the exception of the lowest levels: the walk does not look into the entry
that translates a small page.
-/

open Foundations TableFormat

variable {memory : Pointer -> Word} {address : Nat}

/-- The level at which the walk stops, and 0 if it reaches the lowest entry.  An
entry that is a page is noted before the walk stops, so it counts for the level
below; an entry that is missing there gives the same answer. -/
def stopLevel : Ending Nat -> Nat
  | .page level _ => level - 1
  | .absent level => if level = 1 then 0 else level

/-- What a walk from a table leaves behind. -/
structure Leaves (memory : Pointer -> Word) (address level table : Nat) (before : Walk) (result : Int × Walk) :
    Prop where
  code : result.1 = -(stopLevel (format.ending memory level table address) : Int)
  found : ∀ upper, stopLevel (format.ending memory level table address) < upper -> upper ≤ level ->
    ∃ pointer, (upper, pointer) ∈ format.visited memory level table address ∧ result.2 upper = some pointer
  first : stopLevel (format.ending memory level table address) < level ->
    result.2 level = some (format.cellOf level table address)
  cleared : ∀ stop, stop = stopLevel (format.ending memory level table address) -> 0 < stop -> result.2 stop = none
  kept : ∀ other, other < stopLevel (format.ending memory level table address) ∨ level < other ->
    result.2 other = before other

theorem stopLevel_le {level table : Nat} : stopLevel (format.ending memory level table address) ≤ level := by
  induction level generalizing table with
  | zero => exact Nat.le_refl 0
  | succ level inductionHypothesis =>
      rw [ending]
      cases format.decode (level + 1) (memory (format.cellOf (level + 1) table address)) with
      | absent =>
          unfold stopLevel
          dsimp only
          split
          · exact Nat.zero_le _
          · exact Nat.le_refl _
      | page frame => exact Nat.le_succ level
      | table next => exact Nat.le_succ_of_le inductionHypothesis

/-- The lowest entry is noted whatever it is. -/
theorem leaves_lowest {table : Nat} (walk : Walk) :
    Leaves memory address 1 table walk (walked memory address 1 table walk) := by
  have stops : stopLevel (format.ending memory 1 table address) = 0 := by
    rw [ending]
    cases points : format.decode (0 + 1) (memory (format.cellOf (0 + 1) table address)) with
    | absent => rfl
    | page frame => rfl
    | table next => exact absurd points (decode_one _ _)
  have walks : walked memory address 1 table walk = (0, Function.update walk 1 (some (format.cellOf 1 table address))) := by
    rw [walked]
    cases points : decode (0 + 1) (memory (format.cellOf (0 + 1) table address)) with
    | absent => rfl
    | page frame => rfl
    | table next => exact absurd points (decode_one _ _)
  rw [walks]
  refine ⟨by rw [stops]; rfl, ?_, fun _ => Function.update_self 1 _ walk, ?_, ?_⟩
  · intro upper above bounded
    rw [stops] at above
    have same : upper = 1 := Nat.le_antisymm bounded above
    rw [same]
    exact ⟨_, List.mem_cons_self, Function.update_self 1 _ walk⟩
  · intro stop same above
    rw [same, stops] at above
    exact absurd above (Nat.lt_irrefl 0)
  · intro other outside
    rw [stops] at outside
    rcases outside with below | above
    · exact absurd below (Nat.not_lt_zero _)
    · exact Function.update_of_ne (Nat.ne_of_gt above) _ _

theorem leaves_walked {level table : Nat} (positive : 1 ≤ level) (walk : Walk) :
    Leaves memory address level table walk (walked memory address level table walk) := by
  induction level generalizing table walk with
  | zero => exact absurd positive (Nat.not_succ_le_zero 0)
  | succ level inductionHypothesis =>
      have here : (level + 1, format.cellOf (level + 1) table address) ∈ format.visited memory (level + 1) table address :=
        List.mem_cons_self
      cases points : format.decode (level + 1) (memory (format.cellOf (level + 1) table address)) with
      | table next =>
          have atLeast : 1 ≤ level := by
            rcases Nat.eq_zero_or_pos level with rfl | atLeast
            · exact absurd points (decode_one _ _)
            · exact atLeast
          have ends : format.ending memory (level + 1) table address = format.ending memory level next address := by
            rw [ending, points]
          have walks : walked memory address (level + 1) table walk = walked memory address level next
              (Function.update walk (level + 1) (some (format.cellOf (level + 1) table address))) := by
            rw [walked, show decode (level + 1) _ = _ from points]
          have below : Leaves memory address level next _ _ := inductionHypothesis atLeast
            (Function.update walk (level + 1) (some (format.cellOf (level + 1) table address)))
          rw [walks]
          have noted : (walked memory address level next (Function.update walk (level + 1)
              (some (format.cellOf (level + 1) table address)))).2 (level + 1) =
                some (format.cellOf (level + 1) table address) := by
            rw [below.kept (level + 1) (Or.inr (Nat.lt_succ_self level)), Function.update_self]
          refine ⟨by rw [ends]; exact below.code, ?_, fun _ => noted, by rw [ends]; exact below.cleared, ?_⟩
          · intro upper above bounded
            rw [ends] at above
            rcases Nat.lt_or_eq_of_le bounded with lower | rfl
            · rcases below.found upper above (Nat.le_of_lt_succ lower) with ⟨pointer, inside, recorded⟩
              refine ⟨pointer, ?_, recorded⟩
              rw [visited, points]
              exact List.mem_cons_of_mem _ inside
            · exact ⟨_, here, noted⟩
          · intro other outside
            rw [ends] at outside
            have different : other ≠ level + 1 := by
              rcases outside with lower | higher
              · exact Nat.ne_of_lt (Nat.lt_of_lt_of_le lower (Nat.le_succ_of_le stopLevel_le))
              · exact Nat.ne_of_gt higher
            rw [below.kept other (outside.imp_right Nat.lt_of_succ_lt), Function.update_of_ne different]
      | absent =>
          rcases Nat.eq_zero_or_pos level with rfl | atLeast
          · exact leaves_lowest walk
          have stops : stopLevel (format.ending memory (level + 1) table address) = level + 1 := by
            rw [ending, points]
            exact if_neg (Nat.succ_ne_succ_iff.mpr (Nat.ne_of_gt atLeast))
          have walks : walked memory address (level + 1) table walk =
              (-((level + 1 : Nat) : Int), Function.update walk (level + 1) none) := by
            rw [walked, show decode (level + 1) _ = _ from points]
            exact if_neg (Nat.ne_of_gt atLeast)
          rw [walks]
          refine ⟨by rw [stops], ?_, ?_, ?_, ?_⟩
          · intro upper above bounded
            rw [stops] at above
            exact absurd above (Nat.not_lt_of_le bounded)
          · intro above
            rw [stops] at above
            exact absurd above (Nat.lt_irrefl _)
          · rintro stop rfl _
            rw [stops]
            exact Function.update_self _ _ _
          · intro other outside
            rw [stops] at outside
            exact Function.update_of_ne (Nat.ne_iff_lt_or_gt.mpr outside) _ _
      | page frame =>
          rcases Nat.eq_zero_or_pos level with rfl | atLeast
          · exact leaves_lowest walk
          have stops : stopLevel (format.ending memory (level + 1) table address) = level := by
            rw [ending, points]
            rfl
          have walks : walked memory address (level + 1) table walk = (-(level : Int), Function.update
              (Function.update walk (level + 1) (some (format.cellOf (level + 1) table address))) level none) := by
            rw [walked, show decode (level + 1) _ = _ from points]
            exact if_neg (Nat.ne_of_gt atLeast)
          have noted : (Function.update (Function.update walk (level + 1)
              (some (format.cellOf (level + 1) table address))) level none) (level + 1) =
                some (format.cellOf (level + 1) table address) :=
            (Function.update_of_ne (Nat.succ_ne_self level) _ _).trans (Function.update_self _ _ _)
          rw [walks]
          refine ⟨by rw [stops], ?_, fun _ => noted, ?_, ?_⟩
          · intro upper above bounded
            rw [stops] at above
            cases Nat.le_antisymm bounded above
            exact ⟨_, here, noted⟩
          · rintro stop rfl _
            rw [stops]
            exact Function.update_self _ _ _
          · intro other outside
            rw [stops] at outside
            rcases outside with below | above
            · exact (Function.update_of_ne (Nat.ne_of_lt below) _ _).trans
                (Function.update_of_ne (Nat.ne_of_lt (Nat.lt_succ_of_lt below)) _ _)
            · exact (Function.update_of_ne (Nat.ne_of_gt (Nat.lt_of_succ_lt above)) _ _).trans
                (Function.update_of_ne (Nat.ne_of_gt above) _ _)

section Kernel

variable {accessors : Accessors} {top root : Nat} (agrees : Agrees accessors memory top root address)
include agrees

theorem leaves_walkPageTable (walk : Walk) :
    ∃ before, walkPageTable accessors memory address walk = walked memory address top root before ∧
      Leaves memory address top root before (walked memory address top root before) ∧
      (before = if top = 5 then walk else Function.update walk 5 (some (format.cellOf top root address))) := by
  have positive : 1 ≤ top := by rcases agrees.levels with rfl | rfl <;> decide
  exact ⟨_, walkPageTable_eq agrees walk, leaves_walked positive _, rfl⟩

theorem walkPageTable_code (walk : Walk) :
    (walkPageTable accessors memory address walk).1 = -(stopLevel (format.ending memory top root address) : Int) := by
  rcases leaves_walkPageTable agrees walk with ⟨before, same, leaves, _⟩
  rw [same]
  exact leaves.code

/-- The `pgd` entry is noted even where its level is folded. -/
theorem walkPageTable_pgd (walk : Walk) (present : stopLevel (format.ending memory top root address) < 5) :
    (walkPageTable accessors memory address walk).2 5 = some (format.cellOf top root address) := by
  rcases leaves_walkPageTable agrees walk with ⟨before, same, leaves, prepared⟩
  rw [same]
  rcases agrees.levels with rfl | rfl
  · exact leaves.first present
  · rw [leaves.kept 5 (Or.inr (by decide)), prepared, if_neg (by decide), Function.update_self]

end Kernel

theorem agrees_hugeTables : Agrees (processorAccessors 4 1) hugeTables 4 1 baseAddress :=
  agrees_processorAccessors (Or.inr rfl)

section Kernel

variable {accessors : Accessors} {top root : Nat}

/-- What `walk_page_table` returns and writes: minus the level it stops at, the
place of the entry that the processor reads on every level above, and the `pgd`
entry even where its level is folded.  The accessors of the kernel are parameters;
of these only what the kernel documents is assumed, for tables with four levels and
for those with five. -/
theorem walkPageTable_leaves (agrees : Agrees accessors memory top root address) (walk : Walk) :
    (walkPageTable accessors memory address walk).1 = -(stopLevel (format.ending memory top root address) : Int) ∧
    (∀ level, stopLevel (format.ending memory top root address) < level -> level ≤ top ->
      ∃ pointer, (level, pointer) ∈ format.visited memory top root address ∧
        (walkPageTable accessors memory address walk).2 level = some pointer) ∧
    (stopLevel (format.ending memory top root address) < 5 ->
      (walkPageTable accessors memory address walk).2 5 = some (format.cellOf top root address)) ∧
    (0 < stopLevel (format.ending memory top root address) ->
      (walkPageTable accessors memory address walk).2 (stopLevel (format.ending memory top root address)) = none) ∧
    ∀ level, level < stopLevel (format.ending memory top root address) ->
      (walkPageTable accessors memory address walk).2 level = walk level := by
  rcases leaves_walkPageTable agrees walk with ⟨before, same, leaves, prepared⟩
  refine ⟨walkPageTable_code agrees walk, ?_, walkPageTable_pgd agrees walk, ?_, ?_⟩
  · rw [same]
    exact leaves.found
  · rw [same]
    exact leaves.cleared _ rfl
  · intro level below
    rw [same, leaves.kept level (Or.inl below), prepared]
    rcases agrees.levels with rfl | rfl
    · rw [if_pos rfl]
    · have lower : level < 5 := Nat.lt_of_lt_of_le below (Nat.le_succ_of_le stopLevel_le)
      rw [if_neg (by decide), Function.update_of_ne (Nat.ne_of_lt lower)]

/-- The tables of a single 2 MB page, with four levels. -/
theorem walkPageTable_leaves_hugePage :
    (walkPageTable (processorAccessors 4 1) hugeTables baseAddress fun _ => none).1 = -1 ∧
    (walkPageTable (processorAccessors 4 1) hugeTables baseAddress fun _ => none).2 5 = some (1, 32) ∧
    (walkPageTable (processorAccessors 4 1) hugeTables baseAddress fun _ => none).2 1 = none := by
  have leaves := walkPageTable_leaves agrees_hugeTables fun _ => none
  have stops : stopLevel (format.ending hugeTables 4 1 baseAddress) = 1 := by decide
  rw [stops] at leaves
  exact ⟨leaves.1, leaves.2.2.1 (by decide), leaves.2.2.2.1 (by decide)⟩

/-- The test of `test_huge_page_eviction`, which only looks at the level where the
walk has stopped.  On level 2 it recognises huge pages; on level 3 it also accepts
an address whose level-2 entry is missing, because the walk stops at the same level
for both. -/
theorem hugePageTest_iff (agrees : Agrees accessors memory top root address) (walk : Walk) {level : Nat}
    (hugeLevel : level = 2 ∨ level = 3) :
    (walkPageTable accessors memory address walk).1 = -((level : Int) - 1) ↔
      (∃ frame, format.pageOf memory top root address = some (level, frame)) ∨
        level = 3 ∧ format.ending memory top root address = .absent 2 := by
  rw [walkPageTable_code agrees walk]
  simp only [pageOf_eq_some_iff]
  cases format.ending memory top root address with
  | page ends frame =>
      simp only [stopLevel, Ending.page.injEq, reduceCtorEq, and_false, or_false]
      constructor
      · intro same
        exact ⟨frame, by omega, rfl⟩
      · rintro ⟨_, rfl, _⟩
        omega
  | absent ends =>
      simp only [stopLevel, Ending.absent.injEq, reduceCtorEq, exists_false, false_or]
      constructor
      · intro same
        split at same <;> omega
      · rintro ⟨rfl, rfl⟩
        rfl

/-- The same tables: the address of the page passes the test on level 2. -/
theorem hugePageTest_hugePage :
    (walkPageTable (processorAccessors 4 1) hugeTables baseAddress fun _ => none).1 = -((2 : Nat) - 1 : Int) ↔
      (∃ frame, format.pageOf hugeTables 4 1 baseAddress = some (2, frame)) ∨
        2 = 3 ∧ format.ending hugeTables 4 1 baseAddress = .absent 2 :=
  hugePageTest_iff agrees_hugeTables (fun _ => none) (Or.inl rfl)

end Kernel

/-! ## Execution -/

/-- The processor may fetch instructions there: the address is translated, and no
entry on the way forbids it. -/
def Fetchable (memory : Pointer -> Word) (top root address : Nat) : Prop :=
  (∃ outcome, format.pageOf memory top root address = some outcome) ∧
    ∀ entry, entry ∈ format.visited memory top root address -> (memory entry.2).getLsbD 63 = false

theorem pageOf_congr {other : Pointer -> Word} (same : ∀ level pointer, decode level (other pointer) = decode level
    (memory pointer)) (level table : Nat) : format.pageOf other level table address =
      format.pageOf memory level table address ∧
        format.visited other level table address = format.visited memory level table address := by
  induction level generalizing table with
  | zero => exact ⟨rfl, rfl⟩
  | succ level inductionHypothesis =>
      have here : format.decode (level + 1) _ = format.decode (level + 1) _ :=
        same (level + 1) (format.cellOf (level + 1) table address)
      rw [pageOf, pageOf, visited, visited, here]
      cases format.decode (level + 1) (memory (format.cellOf (level + 1) table address)) with
      | absent => exact ⟨rfl, rfl⟩
      | page frame => exact ⟨rfl, rfl⟩
      | table next =>
          exact ⟨(inductionHypothesis next).1, congrArg _ (inductionHypothesis next).2⟩

theorem decode_after_clearNx (pointer : Pointer) (level : Nat) (other : Pointer) :
    decode level (clearNx memory pointer other) = decode level (memory other) := by
  unfold clearNx
  by_cases same : other = pointer
  · rw [same, Function.update_self, decode_clearNx]
  · rw [Function.update_of_ne same]

theorem nx_after_clearNx (pointer other : Pointer) :
    (clearNx memory pointer other).getLsbD 63 = false ↔ other ≠ pointer -> (memory other).getLsbD 63 = false := by
  unfold clearNx
  by_cases same : other = pointer
  · subst same
    have set : nxBit.getLsbD 63 = true := by decide
    rw [Function.update_self, BitVec.getLsbD_and, BitVec.getLsbD_not, set]
    simp
  · rw [Function.update_of_ne same]
    exact ⟨fun clear _ => clear, fun clear => clear same⟩

/-- Clearing the bit in the entry that a walk found changes no translation, and lets
the processor fetch exactly where no other entry on the way forbids it.  This holds
for every address and not only for the one that was walked, since the entry of the
highest level is shared by all addresses below it. -/
theorem clearNx_fetchable {accessors : Accessors} {top root : Nat} (agrees : Agrees accessors memory top root address)
    (walk : Walk) (present : stopLevel (format.ending memory top root address) < 5) :
    ∃ pointer, (walkPageTable accessors memory address walk).2 5 = some pointer ∧ ∀ other,
      format.pageOf (clearNx memory pointer) top root other = format.pageOf memory top root other ∧
      (Fetchable (clearNx memory pointer) top root other ↔
        (∃ outcome, format.pageOf memory top root other = some outcome) ∧
          ∀ entry, entry ∈ format.visited memory top root other -> entry.2 ≠ pointer ->
            (memory entry.2).getLsbD 63 = false) := by
  refine ⟨_, walkPageTable_pgd agrees walk present, fun other => ?_⟩
  have same : format.pageOf (clearNx memory (format.cellOf top root address)) top root other =
      format.pageOf memory top root other ∧ _ = _ :=
    pageOf_congr (decode_after_clearNx (format.cellOf top root address)) top root
  refine ⟨same.1, ?_⟩
  unfold Fetchable
  rw [same.1, same.2]
  simp only [nx_after_clearNx]

/-- The same tables: the page can be fetched from after the bit has been cleared. -/
theorem clearNx_fetchable_hugePage :
    ∃ pointer, (walkPageTable (processorAccessors 4 1) hugeTables baseAddress fun _ => none).2 5 = some pointer ∧
      Fetchable (clearNx hugeTables pointer) 4 1 baseAddress := by
  rcases clearNx_fetchable agrees_hugeTables (fun _ => none) (by decide) with ⟨pointer, found, fetches⟩
  refine ⟨pointer, found, (fetches baseAddress).2.mpr ⟨⟨(2, 0x200), by decide⟩, ?_⟩⟩
  have pgd := walkPageTable_pgd agrees_hugeTables (fun _ => none) (by decide)
  cases found.symm.trans pgd
  decide

end PageTables
end Talbot
