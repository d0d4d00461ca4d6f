import Talbot.Machine.Chains
import Mathlib.Data.List.TakeWhile

namespace Talbot

/-!
The deletion loops of `eviction_sets.c`, for any measurement of a chain.

A measurement that depends on nothing but the chain in memory, and leaves that
memory alone, is described by its verdict on each tail of each chain.
Under such a measurement the loops only ever see tails of the chain that was
built first: the target followed by the links from some index on.  Once a link
has been found mandatory, the loops write through an address one lower-level
page above it.  No chain contains that address, so the chain stays as it is.
-/

open Foundations Program

/-- The link with a given index above a target; index 0 is the target. -/
def chainLink (targetAddress level index : Nat) : Nat :=
  targetAddress + (index <<< pageTableIndexShift level)

/-- Where the loops write after they found a link mandatory: the second page of its
entry, which is not on the chain.  Nothing is deleted from the chain by such a
write. -/
def besideLink (targetAddress level index : Nat) : Nat :=
  chainLink targetAddress level index + (0x1 <<< pageTableIndexShift (level - 1))

/-- The target and the links from `first` up to `length`. -/
def tailChain (targetAddress level length first : Nat) : List Nat :=
  targetAddress :: (List.range' first (length + 1 - first)).map (chainLink targetAddress level)

section Addresses

variable {level : Nat} (targetAddress : Nat)

theorem chainLink_zero : chainLink targetAddress level 0 = targetAddress := by
  rw [chainLink, Nat.zero_shiftLeft, Nat.add_zero]

theorem prefixAligned_eq :
    prefixAligned targetAddress level =
      targetAddress + 511 * 2 ^ pageTableIndexShift (level - 1) := by
  rw [prefixAligned, Nat.shiftLeft_eq]

variable (isLevel : IsLevel level)

include isLevel

theorem chainLink_eq (index : Nat) :
    chainLink targetAddress level index =
      targetAddress + index * 512 * 2 ^ pageTableIndexShift (level - 1) := by
  rw [chainLink, Nat.shiftLeft_eq, pageTableIndexShift_succ isLevel, Nat.pow_add]
  ring

theorem besideLink_eq (index : Nat) :
    besideLink targetAddress level index =
      targetAddress + (index * 512 + 1) * 2 ^ pageTableIndexShift (level - 1) := by
  rw [besideLink, chainLink_eq _ isLevel, Nat.shiftLeft_eq]
  ring

theorem chainLink_injective : Function.Injective (chainLink targetAddress level) := by
  intro first second same
  rw [chainLink_eq _ isLevel, chainLink_eq _ isLevel] at same
  have digits := Nat.eq_of_mul_eq_mul_right (Nat.two_pow_pos _) (Nat.add_left_cancel same)
  omega

theorem chainLink_ne_prefixAligned (index : Nat) :
    chainLink targetAddress level index ≠ prefixAligned targetAddress level := by
  intro same
  rw [chainLink_eq _ isLevel, prefixAligned_eq] at same
  have digits := Nat.eq_of_mul_eq_mul_right (Nat.two_pow_pos _) (Nat.add_left_cancel same)
  omega

theorem besideLink_ne_chainLink (index other : Nat) :
    besideLink targetAddress level index ≠ chainLink targetAddress level other := by
  intro same
  rw [chainLink_eq _ isLevel, besideLink_eq _ isLevel] at same
  have digits := Nat.eq_of_mul_eq_mul_right (Nat.two_pow_pos _) (Nat.add_left_cancel same)
  omega

end Addresses

theorem mem_tailChain {targetAddress level length first address : Nat} :
    address ∈ tailChain targetAddress level length first ↔
      address = targetAddress ∨
        ∃ index, first ≤ index ∧ index < first + (length + 1 - first) ∧
          chainLink targetAddress level index = address := by
  simp only [tailChain, List.mem_cons, List.mem_map, List.mem_range'_1, and_assoc]

/-- Every visited address of a tail is a link, the target being link 0. -/
theorem exists_of_mem_tailChain {targetAddress level length first address : Nat}
    (member : address ∈ tailChain targetAddress level length first) :
    ∃ index, chainLink targetAddress level index = address := by
  rcases mem_tailChain.mp member with rfl | ⟨index, _, _, same⟩
  · exact ⟨0, chainLink_zero address⟩
  · exact ⟨index, same⟩

theorem prefixAligned_not_mem_tailChain {level : Nat} (isLevel : IsLevel level)
    (targetAddress length first : Nat) :
    prefixAligned targetAddress level ∉ tailChain targetAddress level length first := by
  intro member
  obtain ⟨index, same⟩ := exists_of_mem_tailChain member
  exact chainLink_ne_prefixAligned targetAddress isLevel index same

theorem tailChain_nodup {level : Nat} (isLevel : IsLevel level) (targetAddress length first : Nat)
    (positive : 1 ≤ first) : (tailChain targetAddress level length first).Nodup := by
  refine List.nodup_cons.mpr ⟨?_, List.Nodup.map (chainLink_injective targetAddress isLevel) List.nodup_range'⟩
  intro member
  obtain ⟨index, inside, same⟩ := List.mem_map.mp member
  rw [List.mem_range'_1] at inside
  have zero : index = 0 :=
    chainLink_injective targetAddress isLevel (same.trans (chainLink_zero targetAddress).symm)
  omega

theorem tailChain_length (targetAddress level length first : Nat) :
    (tailChain targetAddress level length first).length = length + 1 - first + 1 := by
  simp only [tailChain, List.length_cons, List.length_map, List.length_range']

theorem tailChain_step {targetAddress level length first : Nat} (room : first < length + 1) :
    tailChain targetAddress level length first =
      targetAddress :: chainLink targetAddress level first ::
        (List.range' (first + 1) (length + 1 - (first + 1))).map (chainLink targetAddress level) := by
  rw [tailChain, show length + 1 - first = (length + 1 - (first + 1)) + 1 by omega, List.range'_succ,
    List.map_cons]

namespace Machine

variable {model : TranslationModel} {level : Nat}

/-- Nothing but the caches differs. -/
def SameMemory (before after : Machine model) : Prop :=
  Rewritten before after before.memory

theorem SameMemory.refl {machine : Machine model} (idle : machine.exchanged = none) :
    SameMemory machine machine :=
  ⟨rfl, rfl, idle, rfl⟩

theorem SameMemory.trans {first second third : Machine model} (one : SameMemory first second)
    (two : SameMemory second third) : SameMemory first third :=
  ⟨two.memory_eq.trans one.memory_eq, two.complementary_eq.trans one.complementary_eq, two.idle,
    two.randoms_eq.trans one.randoms_eq⟩

/-- A property of the memory and the complementary memory. -/
abbrev MemoryProperty : Type :=
  (Nat -> Nat) -> (Nat -> Nat) -> Prop

/-- The property survives writing any allowed word. -/
def KeptByWrites (kept : MemoryProperty) (allowed : Nat -> Prop) : Prop :=
  ∀ memory complementary slot data, allowed data -> kept memory complementary ->
    kept (Function.update memory slot data) complementary

variable {kept : MemoryProperty}

theorem KeptByWrites.writeLinks {allowed : Nat -> Prop} {first : Nat} {memory complementary : Nat -> Nat}
    (writes : KeptByWrites kept allowed) {links : List Nat} (each : ∀ link, link ∈ links -> allowed link)
    (holds : kept memory complementary) : kept (writeLinks memory first links) complementary := by
  induction links generalizing memory first with
  | nil => exact holds
  | cons link rest inductionHypothesis =>
      exact inductionHypothesis (fun later member => each later (List.mem_cons_of_mem _ member))
        (writes memory complementary first link (each link List.mem_cons_self) holds)

theorem KeptByWrites.writeChain {allowed : Nat -> Prop} {first stop : Nat}
    {memory complementary : Nat -> Nat} (writes : KeptByWrites kept allowed) {links : List Nat}
    (each : ∀ link, link ∈ links -> allowed link) (last : allowed stop)
    (holds : kept memory complementary) : kept (writeChain memory first links stop) complementary :=
  writes _ _ _ _ last (writes.writeLinks each holds)

/-- The target points to the link `first`, and the links up to `length` are
chained to the prefix-aligned page. -/
structure HoldsTail (kept : MemoryProperty) (machine : Machine model)
    (targetAddress level length first : Nat) : Prop where
  idle : machine.exchanged = none
  kept : kept machine.memory machine.complementary
  opens : machine.memory targetAddress = chainLink targetAddress level first
  continues : ∀ index, 1 ≤ index -> index < length ->
    machine.memory (chainLink targetAddress level index) = chainLink targetAddress level (index + 1)
  closes : machine.memory (chainLink targetAddress level length) = prefixAligned targetAddress level

variable {targetAddress length : Nat}

theorem HoldsTail.path {machine : Machine model} {first : Nat}
    (holds : HoldsTail kept machine targetAddress level length first) (positive : 1 ≤ first)
    (room : first ≤ length) :
    Path machine.memory targetAddress (tailChain targetAddress level length first)
      (prefixAligned targetAddress level) := by
  refine ⟨rfl, ?_⟩
  rw [holds.opens, show length + 1 - first = (length - first) + 1 by omega, path_map_range',
    show first + (length - first) = length by omega]
  exact ⟨fun index lower upper => holds.continues index (by omega) upper, holds.closes⟩

/-- What building a chain that is not truncated leaves in memory. -/
theorem holdsTail_of_path {machine : Machine model} (idle : machine.exchanged = none)
    (holds : kept machine.memory machine.complementary)
    (path : Path machine.memory targetAddress (tailChain targetAddress level length 1)
      (prefixAligned targetAddress level)) (nonempty : 1 ≤ length) :
    HoldsTail kept machine targetAddress level length 1 := by
  obtain ⟨count, rfl⟩ : ∃ count, length = count + 1 := ⟨length - 1, by omega⟩
  have rest := path.2
  have opens : machine.memory targetAddress = chainLink targetAddress level 1 := by
    rw [show count + 1 + 1 - 1 = count + 1 by omega, List.range'_succ, List.map_cons] at rest
    exact rest.1
  rw [opens, show count + 1 + 1 - 1 = count + 1 by omega, path_map_range',
    Nat.add_comm 1 count] at rest
  exact ⟨idle, holds, opens, rest.1, rest.2⟩

theorem HoldsTail.sameMemory {machine final : Machine model} {first : Nat}
    (holds : HoldsTail kept machine targetAddress level length first)
    (same : SameMemory machine final) : HoldsTail kept final targetAddress level length first := by
  have memory := same.memory_eq
  have complementary := same.complementary_eq
  exact ⟨same.idle, by rw [memory, complementary]; exact holds.kept, by rw [memory]; exact holds.opens,
    by rw [memory]; exact holds.continues, by rw [memory]; exact holds.closes⟩

theorem HoldsTail.kept_of_write {machine final : Machine model} {first slot data : Nat}
    (writes : KeptByWrites kept (targetAddress ≤ ·))
    (holds : HoldsTail kept machine targetAddress level length first) (above : targetAddress ≤ data)
    (written : Rewritten machine final (Function.update machine.memory slot data)) :
    kept final.memory final.complementary := by
  rw [written.memory_eq, written.complementary_eq]
  exact writes _ _ _ _ above holds.kept

/-- Writing beside the chain leaves it alone. -/
theorem HoldsTail.write_beside (isLevel : IsLevel level) {machine final : Machine model}
    {first index other : Nat} (writes : KeptByWrites kept (targetAddress ≤ ·))
    (holds : HoldsTail kept machine targetAddress level length first)
    (written : Rewritten machine final (Function.update machine.memory
      (besideLink targetAddress level index) (chainLink targetAddress level other))) :
    HoldsTail kept final targetAddress level length first := by
  have unchanged : ∀ link, final.memory (chainLink targetAddress level link) =
      machine.memory (chainLink targetAddress level link) := by
    intro link
    rw [written.memory_eq]
    exact Function.update_of_ne (fun same =>
      besideLink_ne_chainLink targetAddress isLevel index link same.symm) _ _
  have opens := unchanged 0
  rw [chainLink_zero] at opens
  exact ⟨written.idle, holds.kept_of_write writes (Nat.le_add_right _ _) written, opens.trans holds.opens,
    fun link lower upper => (unchanged link).trans (holds.continues link lower upper),
    (unchanged length).trans holds.closes⟩

/-- Redirecting the target selects another tail. -/
theorem HoldsTail.write_target (isLevel : IsLevel level) {machine final : Machine model}
    {first next : Nat} (writes : KeptByWrites kept (targetAddress ≤ ·))
    (holds : HoldsTail kept machine targetAddress level length first) (nonempty : 1 ≤ length)
    (written : Rewritten machine final
      (Function.update machine.memory targetAddress (chainLink targetAddress level next))) :
    HoldsTail kept final targetAddress level length next := by
  have unchanged : ∀ link, 1 ≤ link -> final.memory (chainLink targetAddress level link) =
      machine.memory (chainLink targetAddress level link) := by
    intro link positive
    rw [written.memory_eq]
    apply Function.update_of_ne
    intro same
    have zero : link = 0 :=
      chainLink_injective targetAddress isLevel (same.trans (chainLink_zero targetAddress).symm)
    omega
  have opens : final.memory targetAddress = chainLink targetAddress level next := by
    rw [written.memory_eq, Function.update_self]
  exact ⟨written.idle, holds.kept_of_write writes (Nat.le_add_right _ _) written, opens,
    fun link lower upper => (unchanged link lower).trans (holds.continues link lower upper),
    (unchanged length nonempty).trans holds.closes⟩

/-! ## The deletion loops -/

/-- A measurement that answers `verdict length first` whenever memory holds the
tail from `first` of a chain with `length` links, at most `limit` many. -/
def MeasuresTails (model : TranslationModel) (kept : MemoryProperty)
    (measure : ChainMeasurement) (verdict : Nat -> Nat -> Bool)
    (targetAddress level limit : Nat) : Prop :=
  ∀ (machine : Machine model) (length first : Nat),
    length ≤ limit -> 1 ≤ first -> first ≤ length -> HoldsTail kept machine targetAddress level length first ->
    Returns (handle level) (measure targetAddress (prefixAligned targetAddress level) level) machine
      fun evicts final => evicts = verdict length first ∧ SameMemory machine final

/-- Every deletion before `index` was measured as an eviction. -/
def AllDeletable (verdict : Nat -> Nat -> Bool) (length index : Nat) : Prop :=
  ∀ link, 1 ≤ link -> link < index -> verdict length (link + 1) = true

theorem AllDeletable.evicts {verdict : Nat -> Nat -> Bool} {length index : Nat}
    (deletable : AllDeletable verdict length index) (whole : verdict length 1 = true)
    (positive : 1 ≤ index) : verdict length index = true := by
  rcases Nat.eq_or_lt_of_le positive with rfl | later
  · exact whole
  · have previous := deletable (index - 1) (by omega) (by omega)
    rwa [show index - 1 + 1 = index by omega] at previous

/-- The link `first` is the first whose deletion stopped the eviction. -/
structure FirstMandatory (verdict : Nat -> Nat -> Bool) (length first : Nat) : Prop where
  positive : 1 ≤ first
  mandatory : verdict length (first + 1) = false
  deletable : AllDeletable verdict length first

/-- What holds before the loop looks at the link `index`: either everything
before it has been deleted, or the chain is stuck at the first mandatory link. -/
def DeletionInvariant (kept : MemoryProperty) (verdict : Nat -> Nat -> Bool)
    (targetAddress level length index : Nat) (state : DeletionState) (machine : Machine model) : Prop :=
  (state = ⟨targetAddress, 2⟩ ∧ AllDeletable verdict length index ∧
      HoldsTail kept machine targetAddress level length index) ∨
    ∃ first, first < index ∧ state = ⟨besideLink targetAddress level first, 3⟩ ∧
      FirstMandatory verdict length first ∧ HoldsTail kept machine targetAddress level length first

variable {measure : ChainMeasurement} {verdict : Nat -> Nat -> Bool} {limit index : Nat}
  {machine : Machine model}

/-- Deleting the next link through the target, and measuring. -/
theorem returns_deleteAtTarget (isLevel : IsLevel level)
    (writes : KeptByWrites kept (targetAddress ≤ ·))
    (measures : MeasuresTails model kept measure verdict targetAddress level limit) (small : length ≤ limit)
    (room : index < length) (holds : HoldsTail kept machine targetAddress level length index) :
    Returns (handle level) (writeData targetAddress (chainLink targetAddress level (index + 1))) machine
      fun _ middle => Returns (handle level)
        (measure targetAddress (prefixAligned targetAddress level) level) middle fun evicts final =>
          evicts = verdict length (index + 1) ∧
            HoldsTail kept final targetAddress level length (index + 1) := by
  apply (returns_writeData_idle holds.idle).mono
  intro _ middle written
  have redirected := holds.write_target isLevel writes (by omega) written
  apply (measures middle length (index + 1) small (by omega) (by omega) redirected).mono
  rintro evicts final ⟨answer, same⟩
  exact ⟨answer, redirected.sameMemory same⟩

/-- The same beside the chain: nothing is deleted, and the measurement repeats
the one that made the link mandatory. -/
theorem returns_deleteBeside (isLevel : IsLevel level)
    (writes : KeptByWrites kept (targetAddress ≤ ·))
    (measures : MeasuresTails model kept measure verdict targetAddress level limit) (small : length ≤ limit)
    {first other : Nat} (positive : 1 ≤ first) (room : first ≤ length)
    (holds : HoldsTail kept machine targetAddress level length first) :
    Returns (handle level) (writeData (besideLink targetAddress level first)
      (chainLink targetAddress level other)) machine fun _ middle => Returns (handle level)
        (measure targetAddress (prefixAligned targetAddress level) level) middle fun evicts final =>
          evicts = verdict length first ∧ HoldsTail kept final targetAddress level length first := by
  apply (returns_writeData_idle holds.idle).mono
  intro _ middle written
  have unchanged := holds.write_beside isLevel writes written
  apply (measures middle length first small positive room unchanged).mono
  rintro evicts final ⟨answer, same⟩
  exact ⟨answer, unchanged.sameMemory same⟩

/-- Putting a mandatory link back. -/
theorem returns_restoreLink (isLevel : IsLevel level) (writes : KeptByWrites kept (targetAddress ≤ ·))
    (nonempty : 1 ≤ length) (index : Nat) {other : Nat}
    (holds : HoldsTail kept machine targetAddress level length other) :
    Returns (handle level) (writeData targetAddress (chainLink targetAddress level index)) machine
      fun _ final => HoldsTail kept final targetAddress level length index := by
  apply (returns_writeData_idle holds.idle).mono
  intro _ final written
  exact holds.write_target isLevel writes nonempty written

/-- What the search leaves: nothing evicts, or the shortest evicting chain went
through the deletion loop. -/
inductive SearchOutcome (kept : MemoryProperty) (verdict : Nat -> Nat -> Bool)
    (targetAddress level : Nat) (size : Option Nat) (final : Machine model) : Prop where
  | nothing (missing : size = none)
      (none_evicts : ∀ length, 2 ≤ length -> length < 512 -> verdict length 1 = false)
      (remains : HoldsTail kept final targetAddress level 511 1)
  | found (length : Nat) (state : DeletionState) (counted : size = some state.size)
      (lower : 2 ≤ length) (upper : length < 512) (evicts : verdict length 1 = true)
      (shortest : ∀ shorter, 2 ≤ shorter -> shorter < length -> verdict shorter 1 = false)
      (deleted : DeletionInvariant kept verdict targetAddress level length length state final)

variable (configuration : Configuration)

/-- The links that the search may build lie in the base window.  Otherwise the
builder would truncate the longer chains. -/
def RoomAbove (targetAddress level limit : Nat) : Prop :=
  ∀ index, 1 ≤ index -> index ≤ limit ->
    insideWindow configuration level (chainLink targetAddress level index) = true

theorem keptLinks_linear {configuration : Configuration}
    (room : RoomAbove configuration targetAddress level limit) (small : length ≤ limit) :
    targetAddress :: keptLinks configuration level (linearLinks targetAddress length level) =
      tailChain targetAddress level length 1 := by
  have all : keptLinks configuration level (linearLinks targetAddress length level) =
      linearLinks targetAddress length level := by
    apply List.takeWhile_eq_self_iff.mpr
    intro link member
    obtain ⟨index, inside, rfl⟩ := List.mem_map.mp member
    rw [List.mem_range'_1] at inside
    exact room (index + 1) (by omega) (by omega)
  rw [all, tailChain, linearLinks, List.range'_eq_map_range, List.range'_eq_map_range, List.map_map,
    List.map_map]
  apply congrArg
  rw [Nat.add_sub_cancel]
  apply List.map_congr_left
  intro index _
  simp only [Function.comp_apply, chainLink, Nat.add_comm]

/-- Building a chain that fits makes it the tail from 1. -/
theorem returns_buildTail (isLevel : IsLevel level)
    (room : RoomAbove configuration targetAddress level limit) (small : length ≤ limit)
    (nonempty : 1 ≤ length) (writes : KeptByWrites kept (targetAddress ≤ ·)) (idle : machine.exchanged = none)
    (holds : kept machine.memory machine.complementary) :
    Returns (handle level) (buildPointerChain configuration targetAddress
      (prefixAligned targetAddress level) length level) machine
      fun _ final => HoldsTail kept final targetAddress level length 1 := by
  apply (returns_buildPointerChain configuration targetAddress _ length level idle).mono
  intro _ final written
  have above : ∀ link, link ∈ keptLinks configuration level (linearLinks targetAddress length level) ->
      targetAddress ≤ link := by
    intro link member
    obtain ⟨index, _, rfl⟩ := List.mem_map.mp (List.takeWhile_subset _ member)
    exact Nat.le_add_right _ _
  have stillKept : kept final.memory final.complementary := by
    rw [written.memory_eq, written.complementary_eq]
    exact writes.writeChain above (Nat.le_add_right _ _) holds
  apply holdsTail_of_path written.idle stillKept _ nonempty
  have distinct := tailChain_nodup isLevel targetAddress length 1 (Nat.le_refl 1)
  rw [← keptLinks_linear room small] at distinct ⊢
  rw [written.memory_eq]
  exact writeChain_path _ _ _ _ distinct

/-- The loop that grows the chain ends at the shortest evicting one, or after the
longest chain it tries. -/
theorem returns_growLoop (isLevel : IsLevel level) (writes : KeptByWrites kept (targetAddress ≤ ·))
    (measures : MeasuresTails model kept measure verdict targetAddress level 511)
    (room : RoomAbove configuration targetAddress level 511) (idle : machine.exchanged = none)
    (holds : kept machine.memory machine.complementary) :
    Returns (handle level) (growChain configuration measure targetAddress level) machine
      fun length final =>
        (∀ shorter, 2 ≤ shorter -> shorter < length -> verdict shorter 1 = false) ∧
        ((2 ≤ length ∧ length < 512 ∧ verdict length 1 = true ∧
            HoldsTail kept final targetAddress level length 1) ∨
          (length = 512 ∧ HoldsTail kept final targetAddress level 511 1)) := by
  unfold growChain
  apply returns_forRange_break (fun index length (state : Machine model) =>
    length = index ∧ state.exchanged = none ∧ kept state.memory state.complementary ∧
      (∀ shorter, 2 ≤ shorter -> shorter < index -> verdict shorter 1 = false) ∧
      (2 < index -> HoldsTail kept state targetAddress level (index - 1) 1))
  · exact ⟨rfl, idle, holds, fun shorter lower upper => by omega, fun impossible => by omega⟩
  · rintro index _ state lower upper ⟨rfl, idle, holds, shorter, _⟩
    rw [returns_bind]
    apply (returns_buildTail configuration isLevel room (by omega) (by omega) writes idle holds).mono
    intro _ built tail
    rw [returns_bind]
    apply (measures built _ 1 (by omega) (Nat.le_refl 1) (by omega) tail).mono
    rintro evicts final ⟨rfl, same⟩
    have stays := tail.sameMemory same
    cases answer : verdict _ 1 with
    | true => exact (returns_ret _).mpr ⟨shorter, Or.inl ⟨lower, by omega, answer, stays⟩⟩
    | false =>
        refine (returns_ret _).mpr ⟨rfl, stays.idle, stays.kept, ?_, fun _ => stays⟩
        intro length lower upper
        rcases Nat.lt_succ_iff_lt_or_eq.mp upper with earlier | rfl
        · exact shorter length lower earlier
        · exact answer
  · rintro length state ⟨rfl, _, _, shorter, holds⟩
    exact ⟨shorter, Or.inr ⟨rfl, holds (by decide)⟩⟩

/-- The deletion loop keeps its invariant up to the last link. -/
theorem returns_deletionLoop (isLevel : IsLevel level) (writes : KeptByWrites kept (targetAddress ≤ ·))
    (measures : MeasuresTails model kept measure verdict targetAddress level limit) (small : length ≤ limit)
    (nonempty : 1 ≤ length) (whole : verdict length 1 = true)
    (holds : HoldsTail kept machine targetAddress level length 1) :
    Returns (handle level) (deleteLinks measure targetAddress level length) machine
      (DeletionInvariant kept verdict targetAddress level length length) := by
  obtain ⟨count, rfl⟩ := Nat.exists_eq_add_of_le nonempty
  unfold deleteLinks
  rw [Nat.add_sub_cancel_left]
  apply returns_forRange (DeletionInvariant kept verdict targetAddress level (1 + count))
  · exact Or.inl ⟨rfl, fun link lower upper => by omega, holds⟩
  rintro index state machine positive upper
    (⟨rfl, deletable, holds⟩ | ⟨first, earlier, rfl, mandatory, holds⟩)
  · rw [returns_bind]
    apply (returns_deleteAtTarget isLevel writes measures small (by omega) holds).mono
    intro _ middle measured
    rw [returns_bind]
    apply measured.mono
    rintro evicts after ⟨rfl, holds⟩
    cases answer : verdict _ (index + 1) with
    | true =>
        refine (returns_ret _).mpr ⟨_, rfl, Or.inl ⟨rfl, ?_, holds⟩⟩
        intro link lower upper
        rcases Nat.lt_succ_iff_lt_or_eq.mp upper with before | rfl
        · exact deletable link lower before
        · exact answer
    | false =>
        simp only [Bool.not_false, if_true]
        rw [returns_bind]
        apply (returns_restoreLink isLevel writes nonempty index holds).mono
        intro _ final restored
        exact (returns_ret _).mpr ⟨_, rfl, Or.inr ⟨index, Nat.lt_succ_self index, rfl,
          ⟨positive, answer, deletable⟩, restored⟩⟩
  · rw [returns_bind]
    apply (returns_deleteBeside isLevel writes measures small mandatory.positive (by omega) holds).mono
    intro _ middle measured
    rw [returns_bind]
    apply measured.mono
    rintro evicts after ⟨rfl, holds⟩
    rw [mandatory.deletable.evicts whole mandatory.positive]
    exact (returns_ret _).mpr ⟨_, rfl, Or.inr ⟨first, by omega, rfl, mandatory, holds⟩⟩

theorem returns_findMinimalEvictionSetWith (isLevel : IsLevel level)
    (writes : KeptByWrites kept (targetAddress ≤ ·))
    (measures : MeasuresTails model kept measure verdict targetAddress level 511)
    (room : RoomAbove configuration targetAddress level 511) (idle : machine.exchanged = none)
    (holds : kept machine.memory machine.complementary) :
    Returns (handle level) (findMinimalEvictionSetWith configuration measure targetAddress level)
      machine (SearchOutcome kept verdict targetAddress level) := by
  unfold findMinimalEvictionSetWith
  rw [returns_bind]
  apply (returns_growLoop configuration isLevel writes measures room idle holds).mono
  rintro length middle ⟨shorter, ⟨lower, upper, evicts, holds⟩ | ⟨rfl, holds⟩⟩
  · rw [returns_bind]
    apply (measures middle length 1 (by omega) (Nat.le_refl 1) (by omega) holds).mono
    rintro _ again ⟨rfl, same⟩
    rw [evicts]
    simp only [Bool.not_true, Bool.false_eq_true, if_false]
    rw [returns_bind]
    apply (returns_deletionLoop isLevel writes measures (by omega) (by omega) evicts
      (holds.sameMemory same)).mono
    intro state final deleted
    exact (returns_ret _).mpr (.found length state rfl lower upper evicts shorter deleted)
  · rw [returns_bind]
    apply (measures middle 511 1 (Nat.le_refl _) (Nat.le_refl 1) (by decide) holds).mono
    rintro _ again ⟨rfl, same⟩
    rw [shorter 511 (by decide) (by decide)]
    exact (returns_ret _).mpr (.nothing rfl shorter (holds.sameMemory same))

/-! ## The alignment check -/

/-- The answer of the comparison loop: it stops at the first mandatory link if
the hash function enumerates another address first. -/
inductive Compared (verdict : Nat -> Nat -> Bool) (targetAddress level length : Nat) (first : Nat) :
    Option DeletionState -> Prop where
  | nothingMandatory (deletable : AllDeletable verdict length length) :
      Compared verdict targetAddress level length first (some ⟨targetAddress, 2⟩)
  | matches (link : Nat) (inside : link < length) (mandatory : FirstMandatory verdict length link)
      (same : first = chainLink targetAddress level link) :
      Compared verdict targetAddress level length first (some ⟨besideLink targetAddress level link, 3⟩)
  | differs (link : Nat) (inside : link < length) (mandatory : FirstMandatory verdict length link)
      (other : first ≠ chainLink targetAddress level link) :
      Compared verdict targetAddress level length first none

theorem returns_compareLinks (isLevel : IsLevel level) (writes : KeptByWrites kept (targetAddress ≤ ·))
    (measures : MeasuresTails model kept measure verdict targetAddress level limit) (small : length ≤ limit)
    (nonempty : 1 ≤ length) (whole : verdict length 1 = true) (hash : HashFunction) (setBits : Nat)
    (holds : HoldsTail kept machine targetAddress level length 1) :
    Returns (handle level) (compareLinks measure targetAddress level (.to hash) setBits length) machine
      fun result final =>
        Compared verdict targetAddress level length (hash.apply targetAddress 1 setBits level) result ∧
          final.exchanged = none ∧ kept final.memory final.complementary := by
  obtain ⟨count, rfl⟩ := Nat.exists_eq_add_of_le nonempty
  unfold compareLinks
  rw [Nat.add_sub_cancel_left]
  apply returns_forRange_break (fun index result (state : Machine model) =>
    ∃ deletion, result = some deletion ∧
      DeletionInvariant kept verdict targetAddress level (1 + count) index deletion state ∧
      ∀ link, deletion = ⟨besideLink targetAddress level link, 3⟩ ->
        hash.apply targetAddress 1 setBits level = chainLink targetAddress level link)
  · refine ⟨_, rfl, Or.inl ⟨rfl, fun link lower upper => by omega, holds⟩, ?_⟩
    intro link impossible
    exact absurd (DeletionState.mk.inj impossible).2 (by decide)
  · rintro index _ state positive upper
      ⟨_, rfl, ⟨rfl, deletable, holds⟩ | ⟨first, earlier, rfl, mandatory, holds⟩, matching⟩
    · rw [returns_bind]
      apply (returns_deleteAtTarget isLevel writes measures small (by omega) holds).mono
      intro _ middle measured
      rw [returns_bind]
      apply measured.mono
      rintro evicts after ⟨rfl, holds⟩
      cases answer : verdict _ (index + 1) with
      | true =>
          refine (returns_ret _).mpr ⟨_, rfl, Or.inl ⟨rfl, ?_, holds⟩, matching⟩
          intro link lower upper
          rcases Nat.lt_succ_iff_lt_or_eq.mp upper with before | rfl
          · exact deletable link lower before
          · exact answer
      | false =>
          have mandatory : FirstMandatory verdict (1 + count) index := ⟨positive, answer, deletable⟩
          simp only [Bool.not_false, if_true]
          rw [returns_bind, returns_callHash]
          by_cases differs : hash.apply targetAddress (2 - 1) setBits level ≠
              targetAddress + (index <<< pageTableIndexShift level)
          · rw [if_pos differs]
            exact (returns_ret _).mpr ⟨.differs index upper mandatory differs, holds.idle, holds.kept⟩
          · rw [if_neg differs, returns_bind]
            apply (returns_restoreLink isLevel writes nonempty index holds).mono
            intro _ final restored
            refine (returns_ret _).mpr ⟨_, rfl, Or.inr ⟨index, Nat.lt_succ_self index, rfl, mandatory,
              restored⟩, ?_⟩
            intro link equal
            exact (not_not.mp differs).trans (Nat.add_right_cancel (DeletionState.mk.inj equal).1)
    · rw [returns_bind]
      apply (returns_deleteBeside isLevel writes measures small mandatory.positive (by omega) holds).mono
      intro _ middle measured
      rw [returns_bind]
      apply measured.mono
      rintro evicts after ⟨rfl, holds⟩
      rw [mandatory.deletable.evicts whole mandatory.positive]
      exact (returns_ret _).mpr ⟨_, rfl, Or.inr ⟨first, by omega, rfl, mandatory, holds⟩, matching⟩
  · rintro _ state
      ⟨_, rfl, ⟨rfl, deletable, holds⟩ | ⟨first, earlier, rfl, mandatory, holds⟩, matching⟩
    · exact ⟨.nothingMandatory deletable, holds.idle, holds.kept⟩
    · exact ⟨.matches first earlier mandatory (matching first rfl), holds.idle, holds.kept⟩

/-- What the alignment check answers. -/
inductive AlignOutcome (verdict : Nat -> Nat -> Bool) (targetAddress level length first ways : Nat) :
    Bool -> Prop where
  | noEviction (stays : verdict length 1 = false) :
      AlignOutcome verdict targetAddress level length first ways false
  | compared (result : Option DeletionState) (evicts : verdict length 1 = true)
      (compared : Compared verdict targetAddress level length first result) :
      AlignOutcome verdict targetAddress level length first ways
        (result.any fun state => state.size == ways + 1)

theorem returns_evictionSetAlignsWithHashFunctionWith (isLevel : IsLevel level)
    (writes : KeptByWrites kept (targetAddress ≤ ·)) (hash : HashFunction) {setBits ways : Nat}
    (measures : MeasuresTails model kept measure verdict targetAddress level ((1 <<< setBits) * ways))
    (room : RoomAbove configuration targetAddress level ((1 <<< setBits) * ways))
    (nonempty : 1 ≤ (1 <<< setBits) * ways) (idle : machine.exchanged = none)
    (holds : kept machine.memory machine.complementary) :
    Returns (handle level) (evictionSetAlignsWithHashFunctionWith configuration measure targetAddress level
      (.to hash) setBits ways) machine fun aligns final =>
        AlignOutcome verdict targetAddress level ((1 <<< setBits) * ways)
          (hash.apply targetAddress 1 setBits level) ways aligns ∧
        final.exchanged = none ∧ kept final.memory final.complementary := by
  unfold evictionSetAlignsWithHashFunctionWith
  rw [returns_bind, returns_enter, returns_bind]
  apply (returns_buildTail configuration isLevel room (Nat.le_refl _) nonempty writes idle holds).mono
  intro _ built tail
  rw [returns_bind]
  apply (measures built _ 1 (Nat.le_refl _) (Nat.le_refl 1) nonempty tail).mono
  rintro evicts middle ⟨rfl, same⟩
  have stays := tail.sameMemory same
  cases whole : verdict ((1 <<< setBits) * ways) 1 with
  | false => exact (returns_ret _).mpr ⟨.noEviction whole, stays.idle, stays.kept⟩
  | true =>
      simp only [Bool.not_true, Bool.false_eq_true, if_false]
      rw [returns_bind]
      apply (returns_compareLinks isLevel writes measures (Nat.le_refl _) nonempty whole hash setBits
        stays).mono
      rintro result final ⟨compared, after⟩
      cases result with
      | none => exact (returns_ret _).mpr ⟨.compared none whole compared, after⟩
      | some state => exact (returns_ret _).mpr ⟨.compared (some state) whole compared, after⟩

end Machine
end Talbot
