import Talbot.Machine.HugeTlb
import Talbot.Machine.SetChains
import Talbot.UserSpace.CpuidWrapper

namespace Talbot

/-!
The verdict on the huge TLBs, for TLBs of the sizes that CPUID reports.

The trigger maps 2048 pages of 2 MB and 64 pages of 1 GB, and warns if a TLB has more
entries.  The chain of the experiments leaves out the second page of a region.  All
three index functions spread an aligned region evenly over the sets, so each set of
the cache still sees all but one of its share, which is enough for every TLB that can
be reported.

The first page of a region is a target of its own in the test that evicts huge pages.
Its set sees one page less, and with the shifted index, which puts the first two
pages into one set, two less: up to the 256 sets that the structure search tries this
is still enough.
-/

open Foundations Program

namespace Machine

variable {level : Nat} (hugeLevel : level = 2 ∨ level = 3)

section Shares

variable {geometry : CacheGeometry} {rounds : Nat}
  (blocks : amountHugePages level = 2 * 2 ^ geometry.setBits * rounds)
  (aligned : 2 * 2 ^ geometry.setBits ∣ entryOf level (hugeBase level))

/-- The pages of a region that an entry's set gets.  An eviction needs as many of
them as the set has ways. -/
def regionMembers (geometry : CacheGeometry) (first rounds : Nat) : List Nat :=
  (List.range (2 * rounds)).map (geometry.member first)

/-- A page that is not the second one is swept. -/
theorem mem_sweptEntries {page : Nat} (small : page < amountHugePages level) (passed : page ≠ 1) :
    entryOf level (hugeBase level) + page ∈ sweptEntries level := by
  apply List.mem_map_of_mem
  rcases Nat.eq_zero_or_pos page with rfl | positive
  · exact List.mem_cons_self
  · exact List.mem_cons_of_mem _ (List.mem_range'_1.mpr (by omega))

include blocks aligned

/-- Every set gets the same number of pages of a region. -/
theorem exists_regionMembers (entry : Nat) : ∃ first, (regionMembers geometry first rounds).Nodup ∧
    ∀ other, other ∈ regionMembers geometry first rounds -> geometry.index other = geometry.index entry ∧
      ∃ page, page < amountHugePages level ∧ other = entryOf level (hugeBase level) + page := by
  rcases geometry.hash.exists_first geometry.setBits aligned (geometry.hash.set_lt geometry.setBits entry) with
    ⟨first, above, set, members⟩
  refine ⟨first, List.nodup_range.map (geometry.member_injective first), fun other inside => ?_⟩
  rcases List.mem_map.mp inside with ⟨offset, early, rfl⟩
  have least := (geometry.hash.entry_strictMono geometry.setBits first).le_iff_le.mpr (Nat.zero_le offset)
  rw [HashFunction.entry_zero] at least
  have below := members rounds offset (List.mem_range.mp early)
  rw [← blocks] at below
  exact ⟨(geometry.member_set first offset).trans set, geometry.member first offset - entryOf level (hugeBase level),
    by unfold CacheGeometry.member; omega, by unfold CacheGeometry.member; omega⟩

/-- All but one of its pages compete in a unified cache. -/
theorem le_competing (entry : Nat) : 2 * rounds ≤ competing geometry.index true level entry + 1 := by
  rcases exists_regionMembers blocks aligned entry with ⟨first, distinct, members⟩
  have every : (sweptEntries level).filter (serves true level) = sweptEntries level :=
    List.filter_eq_self.mpr fun _ _ => rfl
  have inside : regionMembers geometry first rounds ⊆ (entryOf level (hugeBase level) + 1) ::
      (sweptEntries level).filter fun other => geometry.index other = geometry.index entry := by
    intro other member
    rcases members other member with ⟨set, page, small, rfl⟩
    by_cases second : page = 1
    · rw [second]
      exact List.mem_cons_self
    · exact List.mem_cons_of_mem _ (List.mem_filter.mpr ⟨mem_sweptEntries small second, decide_eq_true set⟩)
  have fewer := (distinct.subperm inside).length_le
  rw [regionMembers, List.length_map, List.length_range, List.length_cons] at fewer
  rwa [competing, every]

/-- Of the set of the first page, that page itself is missing from the rest of the
sweep, and the second one if it is in the set at all. -/
theorem le_laterEntries (skipped : List Nat)
    (second : geometry.index (entryOf level (hugeBase level) + 1) = geometry.index (entryOf level (hugeBase level)) ->
      entryOf level (hugeBase level) + 1 ∈ skipped) :
    2 * rounds ≤ ((laterEntries level).filter fun other =>
      geometry.index other = geometry.index (entryOf level (hugeBase level))).length + skipped.length + 1 := by
  rcases exists_regionMembers blocks aligned (entryOf level (hugeBase level)) with ⟨first, distinct, members⟩
  have inside : regionMembers geometry first rounds ⊆ entryOf level (hugeBase level) :: (skipped ++
      (laterEntries level).filter fun other => geometry.index other = geometry.index (entryOf level (hugeBase level))) := by
    intro other member
    rcases members other member with ⟨set, page, small, rfl⟩
    rcases Nat.eq_zero_or_pos page with rfl | positive
    · exact List.mem_cons_self
    apply List.mem_cons_of_mem
    by_cases passed : page = 1
    · rw [passed] at set ⊢
      exact List.mem_append_left _ (second set)
    · refine List.mem_append_right _ (List.mem_filter.mpr ⟨?_, decide_eq_true set⟩)
      exact List.mem_map_of_mem (List.mem_range'_1.mpr (by omega))
  have fewer := (distinct.subperm inside).length_le
  rw [regionMembers, List.length_map, List.length_range, List.length_cons, List.length_append] at fewer
  omega

end Shares

include hugeLevel

/-- Huge pages with a TLB of their own leave the cache alone. -/
theorem competing_separate (index : Nat -> Nat) (entry : Nat) : competing index false level entry = 0 := by
  have several : 2 ≤ amountHugePages level := by
    rcases hugeLevel with rfl | rfl <;> decide
  have none : (sweptEntries level).filter (serves false level) = [] := by
    refine List.filter_eq_nil_iff.mpr fun other swept => ?_
    rcases List.mem_map.mp swept with ⟨page, member, rfl⟩
    have small : page < amountHugePages level := by
      rcases List.mem_cons.mp member with rfl | later
      · omega
      · rw [List.mem_range'_1] at later
        omega
    rw [serves, hugeEntry, decide_eq_true (Nat.le_add_right _ page), decide_eq_true (Nat.add_lt_add_left small _)]
    decide
  rw [competing, none]
  rfl

/-- A cache of a size that CPUID reports divides the region into whole blocks, of which
every set gets more pages than it has ways, and two more up to 256 sets. -/
theorem exists_rounds (registers : Fin 4 -> BitVec 32) {geometry : CacheGeometry} (someWays : 0 < geometry.ways)
    (reported : 2 ^ geometry.setBits * geometry.ways ≤ hugeTlbEntries (getTlbInfo registers noTlbs).tlbs level) :
    ∃ rounds, amountHugePages level = 2 * 2 ^ geometry.setBits * rounds ∧
      2 * 2 ^ geometry.setBits ∣ entryOf level (hugeBase level) ∧ geometry.ways + 1 ≤ 2 * rounds ∧
      (geometry.setBits ≤ 8 -> geometry.ways + 2 ≤ 2 * rounds) := by
  have entries := Nat.le_trans reported (hugeTlbEntries_le registers level)
  have sets : 2 ^ geometry.setBits ≤ 2 ^ geometry.setBits * geometry.ways := Nat.le_mul_of_pos_right _ someWays
  generalize geometry.ways = ways at *
  generalize geometry.setBits = setBits at *
  rcases hugeLevel with rfl | rfl
  · rw [if_pos rfl] at entries
    have few : setBits < 11 := (Nat.pow_lt_pow_iff_right (by decide : 1 < 2)).mp (by omega)
    refine ⟨2 ^ (10 - setBits), ?_, ?_, ?_⟩ <;> interval_cases setBits <;> first | decide | omega
  · rw [if_neg (by decide)] at entries
    have few : setBits < 5 := (Nat.pow_lt_pow_iff_right (by decide : 1 < 2)).mp (by omega)
    refine ⟨2 ^ (5 - setBits), ?_, ?_, ?_⟩ <;> interval_cases setBits <;> first | decide | omega

/-- Whatever CPUID reports, the verdict on a cache of at most that size is right,
with each of the three index functions.  The ways and the sets are arbitrary, and so
are the targets that are drawn.  A separate cache is one that the entries of huge
pages do not enter. -/
theorem evaluateHugeTlb_reports {configuration : Configuration} (windows : WindowsApart configuration)
    (registers : Fin 4 -> BitVec 32) {geometry : CacheGeometry} (someWays : 0 < geometry.ways)
    (reported : 2 ^ geometry.setBits * geometry.ways ≤ hugeTlbEntries (getTlbInfo registers noTlbs).tlbs level)
    {bound : Nat} (enough : amountHugePages level ≤ bound) (unified : Bool) (randoms : Nat -> Nat) :
    Returns (handleHuge level) (evaluateHugeTlb configuration bound level)
      (afterTrigger (hugeTlb geometry.index geometry.ways unified level) randoms) fun lines _ =>
        lines = if unified then [.hugeTlbUnified level iterations] else [.hugeTlbSeparate level iterations] := by
  have competes : ∀ entry, geometry.ways ≤ competing geometry.index unified level entry ↔ unified = true := by
    intro entry
    cases unified with
    | true =>
        rcases exists_rounds hugeLevel registers someWays reported with ⟨rounds, blocks, aligned, more, _⟩
        have share := le_competing blocks aligned entry
        exact iff_of_true (by omega) rfl
    | false =>
        rw [competing_separate hugeLevel]
        exact iff_of_false (Nat.not_le.mpr someWays) Bool.false_ne_true
  unfold evaluateHugeTlb
  rw [returns_bind]
  apply (returns_testHugeTlb hugeLevel windows (afterTrigger_ready _ randoms) enough competes).mono
  rintro _ final rfl
  cases unified with
  | true => exact (returns_ret _).mpr rfl
  | false => exact (returns_ret _).mpr rfl

omit hugeLevel in
/-- 1536 entries in 128 sets, as descriptor 0xc3 announces them, indexed by exclusive or. -/
theorem evaluateHugeTlb_reports_secondLevel :
    0 < 12 ∧ 2 ^ 7 * 12 ≤ hugeTlbEntries (getTlbInfo (fun _ => 0x00c30001) noTlbs).tlbs 2 ∧
      amountHugePages 2 ≤ 2048 ∧
      Returns (handleHuge 2) (evaluateHugeTlb defaultConfiguration 2048 2)
        (afterTrigger (hugeTlb (CacheGeometry.mk .xorHash 7 12).index 12 true 2) fun n => n) fun lines _ =>
          lines = [.hugeTlbUnified 2 iterations] :=
  ⟨by decide, by decide, by decide, @evaluateHugeTlb_reports _ (.inl rfl) _ windowsApart_default
    (fun _ => 0x00c30001) ⟨.xorHash, 7, 12⟩ (by decide) (by decide) _ (by decide) true fun n => n⟩

/-- The first page competes with enough others of its set. -/
theorem ways_le_laterEntries (registers : Fin 4 -> BitVec 32) {geometry : CacheGeometry}
    (reported : 2 ^ geometry.setBits * geometry.ways ≤ hugeTlbEntries (getTlbInfo registers noTlbs).tlbs level)
    (searched : geometry.hash = .linShiftHash -> geometry.setBits ≤ 8) :
    geometry.ways ≤ ((laterEntries level).filter fun other =>
      geometry.index other = geometry.index (entryOf level (hugeBase level))).length := by
  rcases Nat.eq_zero_or_pos geometry.ways with none | someWays
  · rw [none]
    exact Nat.zero_le _
  rcases exists_rounds hugeLevel registers someWays reported with ⟨rounds, blocks, aligned, more, many⟩
  by_cases few : geometry.setBits ≤ 8
  · have share := le_laterEntries blocks aligned [entryOf level (hugeBase level) + 1] fun _ => List.mem_cons_self
    have room := many few
    rw [List.length_singleton] at share
    omega
  · have apart := geometry.hash.set_succ_ne geometry.setBits (dvd_of_mul_left_dvd aligned) (by omega)
      fun shifted => few (searched shifted)
    have share := le_laterEntries blocks aligned [] fun same => absurd same apart
    rw [List.length_nil] at share
    omega

/-- The pages that the trigger maps are enough to evict a huge page from any TLB of
the size that CPUID reports, with each of the three index functions.  With the
shifted one this is shown for the numbers of sets that the structure search tries. -/
theorem testHugePageEviction_misses (registers : Fin 4 -> BitVec 32) {geometry : CacheGeometry}
    (reported : 2 ^ geometry.setBits * geometry.ways ≤ hugeTlbEntries (getTlbInfo registers noTlbs).tlbs level)
    (searched : geometry.hash = .linShiftHash -> geometry.setBits ≤ 8) {bound : Nat}
    (enough : amountHugePages level ≤ bound) (randoms : Nat -> Nat) :
    Returns (handleHuge level) (testHugePageEviction bound level)
      (afterTrigger (hugeTlb geometry.index geometry.ways true level) randoms) fun misses _ => misses = iterations := by
  have share := ways_le_laterEntries hugeLevel registers reported searched
  exact returns_testHugePageEviction hugeLevel (afterTrigger_ready _ randoms) enough (iff_of_true share rfl)

omit hugeLevel in
/-- 16 entries of 1 GB pages in four sets, as descriptor 0xc3 announces them. -/
theorem testHugePageEviction_misses_oneGigabyte :
    2 ^ 2 * 4 ≤ hugeTlbEntries (getTlbInfo (fun _ => 0x00c30001) noTlbs).tlbs 3 ∧ 2 ≤ 8 ∧ amountHugePages 3 ≤ 64 ∧
      Returns (handleHuge 3) (testHugePageEviction 64 3)
        (afterTrigger (hugeTlb (CacheGeometry.mk .linShiftHash 2 4).index 4 true 3) fun n => n)
        fun misses _ => misses = iterations :=
  ⟨by decide, by decide, by decide, @testHugePageEviction_misses _ (.inr rfl) (fun _ => 0x00c30001) ⟨.linShiftHash, 2, 4⟩
    (by decide) (fun _ => by decide) _ (by decide) fun n => n⟩

end Machine

end Talbot
