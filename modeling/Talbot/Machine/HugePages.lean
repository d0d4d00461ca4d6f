import Talbot.Machine.CalmChains
import Mathlib.Algebra.Group.Basic

namespace Talbot

/-!
Chains through huge pages.

All pages of a huge region show one physical page, so an address of the region
selects a slot by its offset alone.  The links of `build_huge_chain` have
different offsets, except for the first one, which shares its slot with the
start: the pointer written through that link replaces the one written through
the start, and the first of the following pages drops out of the chain.
-/

open Foundations Program

/-- The slot that an address of the region shows.  It only depends on the place of
the address in its page, since all pages of the region are backed by the same file. -/
def physicalOffset (level address : Nat) : Nat :=
  address % 2 ^ pageTableIndexShift level

/-- What `read_data` sees at the addresses of the region. -/
def throughRegion (level : Nat) (slots : Nat -> Nat) (address : Nat) : Nat :=
  slots (physicalOffset level address)

/-- The link in the page with the given number; number 0 is the start itself. -/
def hugeLink (level start page : Nat) : Nat :=
  start + (page <<< pageTableIndexShift level) + 16 * (page - 1)

section HugeLinks

variable {level start : Nat}

@[simp] theorem hugeLink_zero : hugeLink level start 0 = start := by
  simp only [hugeLink, Nat.zero_shiftLeft, Nat.add_zero, Nat.zero_sub, Nat.mul_zero]

theorem physicalOffset_hugeLink (page : Nat) :
    physicalOffset level (hugeLink level start page) = physicalOffset level (start + 16 * (page - 1)) := by
  unfold physicalOffset hugeLink
  rw [Nat.shiftLeft_eq, Nat.add_right_comm, Nat.add_mul_mod_self_right]

/-- The addresses of the chain are links. -/
theorem hugeLink_of_mem {length node : Nat} (positive : 1 ≤ length)
    (known : node ∈ start :: (List.range' 2 (length - 1)).map (hugeLink level start)) :
    ∃ page, page ≤ length ∧ hugeLink level start page = node := by
  rcases List.mem_cons.mp known with rfl | later
  · exact ⟨0, Nat.zero_le length, hugeLink_zero⟩
  · rcases List.mem_map.mp later with ⟨page, member, rfl⟩
    exact ⟨page, by rw [List.mem_range'_1] at member; omega, rfl⟩

/-- The first link shares its slot with the start. -/
theorem physicalOffset_first : physicalOffset level (hugeLink level start 1) = physicalOffset level start :=
  physicalOffset_hugeLink 1

/-- The links themselves stay apart while they fit into the page. -/
theorem physicalOffset_distinct {length earlier later : Nat} (fits : 16 * length < 2 ^ pageTableIndexShift level)
    (positive : 1 ≤ earlier) (before : earlier < later) (bounded : later ≤ length) :
    physicalOffset level (hugeLink level start earlier) ≠ physicalOffset level (hugeLink level start later) := by
  rw [physicalOffset_hugeLink, physicalOffset_hugeLink]
  intro same
  have divides := Nat.sub_mod_eq_zero_of_mod_eq same.symm
  have distance : start + 16 * (later - 1) - (start + 16 * (earlier - 1)) = 16 * (later - earlier) := by omega
  rw [distance, Nat.mod_eq_of_lt (by omega)] at divides
  omega

/-- The links written before the one with number `written` hold their pointers. -/
def LinksWritten (level start written : Nat) (slots : Nat -> Nat) : Prop :=
  ∀ page, 1 ≤ page -> page < written ->
    throughRegion level slots (hugeLink level start page) = hugeLink level start (page + 1)

/-- Writing through the last link keeps the pointers of all earlier ones. -/
theorem LinksWritten.write {length written : Nat} {slots : Nat -> Nat} (data : Nat)
    (links : LinksWritten level start written slots) (fits : 16 * length < 2 ^ pageTableIndexShift level)
    (bounded : written ≤ length) :
    LinksWritten level start written
      (Function.update slots (physicalOffset level (hugeLink level start written)) data) := by
  intro page positive before
  have apart : physicalOffset level (hugeLink level start page) ≠ _ :=
    physicalOffset_distinct fits positive before bounded
  unfold throughRegion
  rw [Function.update_of_ne apart]
  exact links page positive before

/-- Writing the pointer to the next link. -/
theorem LinksWritten.extend {length written : Nat} {slots : Nat -> Nat}
    (links : LinksWritten level start written slots) (fits : 16 * length < 2 ^ pageTableIndexShift level)
    (bounded : written ≤ length) :
    LinksWritten level start (written + 1)
      (Function.update slots (physicalOffset level (hugeLink level start written)) (hugeLink level start (written + 1))) := by
  have kept := links.write (hugeLink level start (written + 1)) fits bounded
  intro page positive before
  rcases Nat.lt_succ_iff_lt_or_eq.mp before with earlier | rfl
  · exact kept page positive earlier
  · exact Function.update_self _ _ _

/-- From the start the pointers lead past the first of the following pages. The
start and the first link show the same slot, so the pointer found at the start is
the one that was written last, at the first link. -/
theorem path_from_start {stop length : Nat} {slots : Nat -> Nat} (positive : 1 ≤ length)
    (links : LinksWritten level start length slots)
    (closed : throughRegion level slots (hugeLink level start length) = stop) :
    Path (throughRegion level slots) start
      (start :: (List.range' 2 (length - 1)).map (hugeLink level start)) stop := by
  rw [← Nat.add_sub_cancel' positive] at closed
  have path := (path_map_range' (hugeLink level start) 1 (length - 1)).mpr
    ⟨fun page lower upper => links page lower (by omega), closed⟩
  rw [List.range'_succ, List.map_cons] at path
  have shared : throughRegion level slots (hugeLink level start 1) = throughRegion level slots start :=
    congrArg slots physicalOffset_first
  refine ⟨rfl, ?_⟩
  rw [← shared]
  exact path.2

end HugeLinks

/-! ## On the paging machine -/

section Regions

variable {level : Nat} (hugeLevel : level = 2 ∨ level = 3)

/-- The slots of the physical page behind a region. -/
def regionSlots (level : Nat) (memory : Nat -> Nat) (offset : Nat) : Nat :=
  memory (hugeBase level + offset)

theorem regionSlots_update (memory : Nat -> Nat) (offset data : Nat) :
    regionSlots level (Function.update memory (hugeBase level + offset) data) =
      Function.update (regionSlots level memory) offset data :=
  Function.update_comp_eq_of_injective memory (add_right_injective (hugeBase level)) offset data

include hugeLevel

/-- The links of a huge chain stay in the region. -/
theorem hugeLink_in {page : Nat} (small : page < amountHugePages level) :
    hugeBase level ≤ hugeLink level (hugeBase level) page ∧
      hugeLink level (hugeBase level) page < hugeBase level + (amountHugePages level <<< pageTableIndexShift level) := by
  unfold hugeLink
  rw [Nat.shiftLeft_eq, Nat.shiftLeft_eq]
  rcases hugeLevel with rfl | rfl <;>
  · simp only [hugeBase, amountHugePages, amount2MPages, amount1GPages, huge2MBBaseAddress, huge1GBBaseAddress,
      pageTableIndexShift, if_true, if_false, Nat.reduceEqDiff] at small ⊢
    omega

theorem physicalSlot_hugeLink {page : Nat} (small : page < amountHugePages level) :
    physicalSlot (hugeLink level (hugeBase level) page) =
      hugeBase level + physicalOffset level (hugeLink level (hugeBase level) page) := by
  have inside := hugeLink_in hugeLevel small
  generalize hugeLink level (hugeBase level) page = link at inside
  rcases hugeLevel with rfl | rfl
  · exact if_pos inside
  · have above : ¬ (huge2MBBaseAddress ≤ link ∧ link < huge2MBBaseAddress + (amount2MPages <<< pageTableIndexShift 2)) :=
      fun ⟨_, before⟩ => absurd (Nat.lt_of_le_of_lt inside.1 before) (by decide)
    rw [physicalSlot, if_neg above]
    exact if_pos inside

/-- The chain that `build_huge_chain` leaves behind the start of the region. -/
theorem calm_buildHugeChain {admitted : Nat -> Nat -> Prop} {guard : Paging -> KernelOp -> Prop} {exhausted : Prop}
    {state : Paging} {memory : Nat -> Nat} {reach : Nat -> Prop} (permits : Paging.Permits guard reach)
    (calm : Paging.Calm memory state) (inReach : ∀ page, page < amountHugePages level ->
      reach (hugeLink level (hugeBase level) page)) (stop : Nat) :
    Ensures (Paging.may admitted) guard exhausted
      (buildHugeChain (hugeBase level) stop (amountHugePages level - 1) level) state fun _ final =>
        ∃ after, Paging.Calm after final ∧ Path (Paging.shown after) (hugeBase level) (hugeBase level ::
          (List.range' 2 (amountHugePages level - 1 - 1)).map (hugeLink level (hugeBase level))) stop := by
  have positive : 1 ≤ amountHugePages level - 1 := by
    rcases hugeLevel with rfl | rfl <;> decide
  have fits : 16 * (amountHugePages level - 1) < 2 ^ pageTableIndexShift level := by
    rcases hugeLevel with rfl | rfl <;> decide
  generalize length_eq : amountHugePages level - 1 = length at positive fits
  have pages : ∀ page, page ≤ length -> page < amountHugePages level := fun page short => by omega
  have writes : ∀ {memory : Nat -> Nat} {state : Paging} (page data : Nat), page ≤ length -> Paging.Calm memory state ->
      Ensures (Paging.may admitted) guard exhausted (writeData (hugeLink level (hugeBase level) page) data) state
        fun _ final => ∃ after, Paging.Calm after final ∧ regionSlots level after = Function.update
          (regionSlots level memory) (physicalOffset level (hugeLink level (hugeBase level) page)) data := by
    intro memory state page data short calm
    refine (Paging.calm_store permits calm (inReach page (pages page short)) data).mono fun _ final calm => ?_
    refine ⟨_, calm, ?_⟩
    rw [physicalSlot_hugeLink hugeLevel (pages page short), regionSlots_update]
  unfold buildHugeChain
  refine ensures_then (ensures_forRange (fun index value state =>
    value = (16 * index, hugeLink level (hugeBase level) index) ∧ ∃ memory, Paging.Calm memory state ∧
      LinksWritten level (hugeBase level) index (regionSlots level memory)) 0 length (0, hugeBase level) state ?_ ?_) ?_
  · exact ⟨by rw [hugeLink_zero, Nat.mul_zero], memory, calm, fun page _ impossible => absurd impossible (Nat.not_lt_zero _)⟩
  · rintro index _ state - bounded ⟨rfl, memory, calm, links⟩
    rw [Nat.zero_add] at bounded
    have next : hugeBase level + ((index + 1) <<< pageTableIndexShift level) + 16 * index =
        hugeLink level (hugeBase level) (index + 1) := rfl
    dsimp only
    rw [next]
    refine ensures_then (writes index _ (Nat.le_of_lt bounded) calm) ?_
    rintro _ final ⟨after, calm, slots⟩
    refine ⟨_, rfl, by rw [Nat.mul_add], after, calm, ?_⟩
    rw [slots]
    exact links.extend fits (Nat.le_of_lt bounded)
  · rintro _ middle ⟨rfl, memory, calm, links⟩
    rw [Nat.zero_add] at links ⊢
    dsimp only
    refine (writes length stop (Nat.le_refl _) calm).mono ?_
    rintro _ final ⟨after, calm, slots⟩
    refine ⟨after, calm, ?_⟩
    have closed : throughRegion level (regionSlots level after) (hugeLink level (hugeBase level) length) = stop := by
      rw [throughRegion, slots, Function.update_self]
    have path := path_from_start positive (by rw [slots]; exact links.write stop fits (Nat.le_refl _)) closed
    refine path.congr fun node inside => ?_
    rcases hugeLink_of_mem positive inside with ⟨page, short, rfl⟩
    rw [Paging.shown, physicalSlot_hugeLink hugeLevel (pages page short)]
    rfl

end Regions

end Talbot
