import Talbot.Machine.Probes
import Talbot.Machine.TranslationCaches

namespace Talbot

/-!
Chains through the members of one set, as the replacement policy measurement
builds them.

All chains of one measurement run through the entries that the hash function
enumerates from one start entry: the set itself takes the first `ways` of them,
the fresh entries inserted afterwards are the next ones.
-/

open Foundations Program

namespace CacheGeometry

variable (geometry : CacheGeometry) (level entry : Nat)

/-- The member of the set with a given number, counted from `entry`. -/
def member (index : Nat) : Nat :=
  geometry.hash.entry geometry.setBits entry index

/-- A page of a member's entry. -/
def memberPage (index page : Nat) : Nat :=
  pageAddress level (geometry.member entry index) page

theorem member_injective : Function.Injective (geometry.member entry) :=
  (geometry.hash.entry_strictMono geometry.setBits entry).injective

theorem member_set (index : Nat) : geometry.index (geometry.member entry index) = geometry.index entry :=
  geometry.hash.set_entry geometry.setBits entry index

theorem member_zero : geometry.member entry 0 = entry :=
  geometry.hash.entry_zero geometry.setBits entry

variable {geometry level entry}

theorem entryOf_memberPage (isLevel : IsLevel level) {index page : Nat} (small : page < 512) :
    entryOf level (geometry.memberPage level entry index page) = geometry.member entry index :=
  entryOf_pageAddress isLevel small

theorem memberPage_injective (isLevel : IsLevel level) {index page index' page' : Nat}
    (small : page < 512) (small' : page' < 512)
    (same : geometry.memberPage level entry index page = geometry.memberPage level entry index' page') :
    index = index' ∧ page = page' := by
  have digits := pageAddress_injective isLevel small small' same
  exact ⟨geometry.member_injective entry digits.1, digits.2⟩

theorem memberPage_add (index page : Nat) :
    geometry.memberPage level entry index 0 + (page <<< pageTableIndexShift (level - 1)) =
      geometry.memberPage level entry index page :=
  pageAddress_add level _ page

theorem baseAddress_le_memberPage (isLevel : IsLevel level) (above : baseEntry level ≤ entry)
    (index page : Nat) : baseAddress ≤ geometry.memberPage level entry index page := by
  have higher : entry ≤ geometry.member entry index := by
    have monotone := (geometry.hash.entry_strictMono geometry.setBits entry).monotone (Nat.zero_le index)
    rwa [HashFunction.entry_zero] at monotone
  calc
    baseAddress = baseEntry level * 2 ^ pageTableIndexShift level := by
      rw [← Nat.shiftLeft_eq, ← pageAddress_zero]
      exact baseAddress_eq isLevel
    _ ≤ geometry.member entry index * 2 ^ pageTableIndexShift level :=
      Nat.mul_le_mul_right _ (Nat.le_trans above higher)
    _ ≤ geometry.memberPage level entry index page := by
      rw [memberPage, pageAddress, Nat.shiftLeft_eq]
      exact Nat.le_add_right _ _

theorem memberPage_ne_signal_of_above (isLevel : IsLevel level) (above : baseEntry level ≤ entry)
    (index page : Nat) : geometry.memberPage level entry index page ≠ signal :=
  Nat.ne_of_gt (Nat.lt_of_lt_of_le Machine.signal_lt_baseAddress
    (baseAddress_le_memberPage isLevel above index page))

/-- There is room for two full sets above the start entry.  The first one is the
chain that is measured, the second one gives the entries that replace its members. -/
structure RoomForTwoSets (geometry : CacheGeometry) (configuration : Configuration) (level entry : Nat) :
    Prop where
  isLevel : IsLevel level
  positive : 1 ≤ geometry.ways
  above : baseEntry level ≤ entry
  inside : geometry.member entry (2 * geometry.ways - 1) <
    baseEntry level + configuration.pageTableEntries level
  fits : windowEnd configuration level ≤ 2 ^ 64

variable {configuration : Configuration}

namespace RoomForTwoSets

variable (room : RoomForTwoSets geometry configuration level entry)

include room

theorem member_lt {index : Nat} (small : index ≤ 2 * geometry.ways - 1) :
    geometry.member entry index < baseEntry level + configuration.pageTableEntries level :=
  Nat.lt_of_le_of_lt
    ((geometry.hash.entry_strictMono geometry.setBits entry).monotone small) room.inside

theorem memberPage_lt {index : Nat} (small : index ≤ 2 * geometry.ways - 1) :
    geometry.memberPage level entry index 0 < 2 ^ 64 := by
  apply Nat.lt_of_lt_of_le _ room.fits
  rw [windowEnd_eq room.isLevel, memberPage, pageAddress_lt_iff]
  exact room.member_lt small

theorem memberPage_ne_signal (index page : Nat) : geometry.memberPage level entry index page ≠ signal :=
  memberPage_ne_signal_of_above room.isLevel room.above index page

theorem memberPage_ne_zero (index page : Nat) : geometry.memberPage level entry index page ≠ 0 :=
  Nat.ne_of_gt (Nat.lt_of_lt_of_le (by decide)
    (baseAddress_le_memberPage room.isLevel room.above index page))

/-- The hash function continues the enumeration from any member. -/
theorem apply_member {index : Nat} (offset : Nat) (small : index ≤ 2 * geometry.ways - 1) :
    geometry.hash.apply (geometry.memberPage level entry index 0) offset geometry.setBits level =
      geometry.memberPage level entry (index + offset) 0 := by
  rw [memberPage, HashFunction.apply_aligned _ _ _ room.isLevel (room.memberPage_lt small), memberPage,
    member, geometry.hash.entry_add, member]

/-- No link to a member is cut off. -/
theorem keptLinks_member {index length : Nat} (small : index + length ≤ 2 * geometry.ways - 1) :
    Machine.keptLinks configuration level (Machine.hashLinks geometry.hash
        (geometry.memberPage level entry index 0) length geometry.setBits level) =
      (List.range' (index + 1) length).map fun k => geometry.memberPage level entry k 0 := by
  have links : Machine.hashLinks geometry.hash (geometry.memberPage level entry index 0) length
      geometry.setBits level =
      (List.range' (index + 1) length).map fun k => geometry.memberPage level entry k 0 := by
    rw [Machine.hashLinks, List.range'_eq_map_range, List.range'_eq_map_range, List.map_map, List.map_map]
    apply List.map_congr_left
    intro offset _
    simp only [Function.comp_apply, Nat.zero_add]
    rw [room.apply_member (offset + 1) (by omega)]
    congr 1
    omega
  rw [links, Machine.keptLinks, List.takeWhile_eq_self_iff]
  intro link inside
  rcases List.mem_map.mp inside with ⟨k, range, rfl⟩
  rw [List.mem_range'_1] at range
  have higher : geometry.member entry 0 < geometry.member entry k :=
    geometry.hash.entry_strictMono geometry.setBits entry (by omega)
  rw [member_zero] at higher
  have above := room.above
  exact (insideWindow_iff room.isLevel configuration _).mpr ⟨by omega, room.member_lt (by omega)⟩

end RoomForTwoSets

/-- The nodes of a chain through two pages of one member and the first page of
each of the next members. -/
def singleChain (geometry : CacheGeometry) (level entry index length : Nat) : List Nat :=
  geometry.memberPage level entry index 0 :: geometry.memberPage level entry index 1 ::
    (List.range' (index + 1) length).map fun k => geometry.memberPage level entry k 0

theorem mem_singleChain {index length address : Nat}
    (inside : address ∈ geometry.singleChain level entry index length) :
    ∃ k page, index ≤ k ∧ k ≤ index + length ∧ page ≤ 1 ∧ geometry.memberPage level entry k page = address := by
  rcases List.mem_cons.mp inside with rfl | inside
  · exact ⟨index, 0, Nat.le_refl _, Nat.le_add_right _ _, by decide, rfl⟩
  · rcases List.mem_cons.mp inside with rfl | inside
    · exact ⟨index, 1, Nat.le_refl _, Nat.le_add_right _ _, by decide, rfl⟩
    · rcases List.mem_map.mp inside with ⟨k, range, rfl⟩
      rw [List.mem_range'_1] at range
      exact ⟨k, 0, by omega, by omega, by decide, rfl⟩

theorem singleChain_nodup (isLevel : IsLevel level) (index length : Nat) :
    (geometry.singleChain level entry index length).Nodup := by
  have links : ((List.range' (index + 1) length).map fun k => geometry.memberPage level entry k 0).Nodup :=
    List.Nodup.map (fun first second same => (memberPage_injective isLevel (by decide) (by decide) same).1)
      List.nodup_range'
  refine List.nodup_cons.mpr ⟨?_, List.nodup_cons.mpr ⟨?_, links⟩⟩
  · intro inside
    rcases List.mem_cons.mp inside with same | inside
    · exact absurd (memberPage_injective isLevel (by decide) (by decide) same).2 (by decide)
    · rcases List.mem_map.mp inside with ⟨k, range, same⟩
      have equal := (memberPage_injective isLevel (by decide) (by decide) same).1
      rw [List.mem_range'_1] at range
      omega
  · intro inside
    rcases List.mem_map.mp inside with ⟨k, range, same⟩
    exact absurd (memberPage_injective isLevel (by decide) (by decide) same).2 (by decide)

theorem thirdPage_notMem_singleChain (geometry : CacheGeometry) (entry : Nat) (isLevel : IsLevel level)
    (member index length : Nat) :
    geometry.memberPage level entry member 2 ∉ geometry.singleChain level entry index length := by
  intro known
  rcases mem_singleChain known with ⟨k, page, _, _, small, same⟩
  have pages := memberPage_injective isLevel (by omega) (by decide) same
  omega

/-- Both pages of the first member count as one entry. -/
theorem singleChain_entries (isLevel : IsLevel level) (index length : Nat) :
    ((geometry.singleChain level entry index length).map (entryOf level)).dedup =
      (List.range' index (length + 1)).map (geometry.member entry) := by
  have distinct : ((List.range' index (length + 1)).map (geometry.member entry)).Nodup :=
    List.Nodup.map (geometry.member_injective entry) List.nodup_range'
  have entries : (geometry.singleChain level entry index length).map (entryOf level) =
      geometry.member entry index :: (List.range' index (length + 1)).map (geometry.member entry) := by
    rw [singleChain, List.map_cons, List.map_cons, List.map_map, entryOf_memberPage isLevel (by decide),
      entryOf_memberPage isLevel (by decide), List.range'_succ, List.map_cons]
    congr 2
    apply List.map_congr_left
    intro k _
    exact entryOf_memberPage isLevel (by decide)
  rw [entries, List.dedup_cons_of_mem, distinct.dedup]
  rw [List.range'_succ, List.map_cons]
  exact List.mem_cons_self

end CacheGeometry

namespace Machine

variable {model : TranslationModel} {configuration : Configuration} {geometry : CacheGeometry}
  {level entry : Nat}

/-- Building such a chain writes its nodes and nothing else. -/
theorem returns_buildSingleChain (room : geometry.RoomForTwoSets configuration level entry)
    {machine : Machine model} {index length endAddress : Nat} (ready : Ready machine)
    (small : index + length ≤ 2 * geometry.ways - 1) (noSignal : endAddress ≠ signal) :
    Returns (handle level) (buildPointerChainFromHashSingle configuration
      (geometry.memberPage level entry index 0) endAddress length (.to geometry.hash) geometry.setBits level)
      machine fun _ final =>
        Ready final ∧
        Path final.memory (geometry.memberPage level entry index 0)
          (geometry.singleChain level entry index length) endAddress ∧
        ∀ slot, slot ∉ geometry.singleChain level entry index length ->
          final.memory slot = machine.memory slot := by
  apply (returns_buildPointerChainFromHashSingle configuration geometry.hash _ endAddress length
    geometry.setBits level ready.idle).mono
  intro _ final written
  have memory := written.memory_eq
  rw [room.keptLinks_member small, CacheGeometry.memberPage_add] at memory
  have links : ∀ link, link ∈ geometry.memberPage level entry index 1 ::
      (List.range' (index + 1) length).map (fun k => geometry.memberPage level entry k 0) ->
      link ≠ signal := by
    intro link inside
    rcases CacheGeometry.mem_singleChain (List.mem_cons_of_mem _ inside) with ⟨k, page, _, _, _, rfl⟩
    exact room.memberPage_ne_signal k page
  refine ⟨⟨written.idle, ?_⟩, ?_, ?_⟩
  · rw [memory, written.complementary_eq]
    exact keptByWrites_clean.writeChain links noSignal ready.clean
  · rw [memory]
    exact writeChain_path _ _ _ _ (CacheGeometry.singleChain_nodup room.isLevel index length)
  · intro slot outside
    rw [memory]
    exact writeChain_frame _ _ _ _ outside

end Machine

end Talbot
