import Talbot.Machine.Probes
import Talbot.Machine.TranslationCaches

namespace Talbot

/-!
`eviction_set_aligns_with_hash_function` on the cache whose structure it is
given.

The links above the target that share its set are the entries the hash function
enumerates, in that order.  Deleting links from the front therefore first
matters at the enumerated entry 1, which is the one the check compares with.
From then on the check writes beside the chain and counts nothing more, so that
it never counts beyond three addresses.
-/

open Foundations Program

/-- The entries of one set among the links of a tail. -/
def setMates (geometry : CacheGeometry) (entry length first : Nat) : List Nat :=
  ((List.range' first (length + 1 - first)).map (entry + ·)).filter fun other =>
    geometry.index other = geometry.index entry

/-- The structures that the check confirms.  A chain that is confirmed has one
address more than the cache has ways; the size that is counted is three if some link
is found mandatory, and two otherwise. -/
def CountsAsAligned (geometry : CacheGeometry) : Prop :=
  geometry.ways = 2 ∨ geometry.ways = 1 ∧ (geometry.hash = .linHash ∨ geometry.setBits = 0)

instance (geometry : CacheGeometry) : Decidable (CountsAsAligned geometry) :=
  inferInstanceAs (Decidable (_ ∨ _))

section Mates

variable {geometry : CacheGeometry} {level entry length first offset : Nat}

theorem mem_setMates {other : Nat} (lower : 1 ≤ first) :
    other ∈ setMates geometry entry length first ↔
      ∃ offset, geometry.hash.entry geometry.setBits entry offset = other ∧
        entry + first ≤ other ∧ other ≤ entry + length := by
  simp only [setMates, List.mem_filter, List.mem_map, List.mem_range'_1, decide_eq_true_eq]
  constructor
  · rintro ⟨⟨index, ⟨low, high⟩, rfl⟩, same⟩
    rcases geometry.hash.exists_entry geometry.setBits entry (Nat.le_add_right _ _) same with ⟨offset, reached⟩
    exact ⟨offset, reached, by omega, by omega⟩
  · rintro ⟨offset, rfl, low, high⟩
    refine ⟨⟨geometry.hash.entry geometry.setBits entry offset - entry, by omega, by omega⟩, ?_⟩
    exact geometry.hash.set_entry geometry.setBits entry offset

theorem setMates_nodup : (setMates geometry entry length first).Nodup :=
  (List.Nodup.map (fun _ _ => Nat.add_left_cancel) List.nodup_range').filter _

/-- A tail that starts after the enumerated entry `offset` holds `ways` entries
of the set when it reaches the entry `offset + ways`. -/
theorem le_setMates_length (offset : Nat) (positive : 1 ≤ geometry.ways) (lower : 1 ≤ first)
    (after : geometry.hash.entry geometry.setBits entry offset < entry + first)
    (before : entry + first ≤ geometry.hash.entry geometry.setBits entry (offset + 1)) :
    geometry.ways ≤ (setMates geometry entry length first).length ↔
      geometry.hash.entry geometry.setBits entry (offset + geometry.ways) ≤ entry + length := by
  have increasing := geometry.hash.entry_strictMono geometry.setBits entry
  constructor
  · intro many
    by_contra short
    have inside : setMates geometry entry length first ⊆
        (List.range' (offset + 1) (geometry.ways - 1)).map (geometry.hash.entry geometry.setBits entry) := by
      intro other member
      rcases (mem_setMates lower).mp member with ⟨reached, rfl, low, high⟩
      have later := increasing.lt_iff_lt.mp (Nat.lt_of_lt_of_le after low)
      have earlier := increasing.lt_iff_lt.mp (Nat.lt_of_le_of_lt high (Nat.lt_of_not_le short))
      exact List.mem_map.mpr ⟨reached, List.mem_range'_1.mpr ⟨by omega, by omega⟩, rfl⟩
    have bounded := (List.subperm_of_subset setMates_nodup inside).length_le
    rw [List.length_map, List.length_range'] at bounded
    omega
  · intro reaches
    have inside : (List.range' (offset + 1) geometry.ways).map (geometry.hash.entry geometry.setBits entry) ⊆
        setMates geometry entry length first := by
      intro other member
      rcases List.mem_map.mp member with ⟨reached, range, rfl⟩
      rw [List.mem_range'_1] at range
      exact (mem_setMates lower).mpr ⟨reached, rfl,
        Nat.le_trans before (increasing.monotone range.1),
        Nat.le_trans (increasing.monotone (by omega)) reaches⟩
    have bounded := (List.subperm_of_subset (List.Nodup.map increasing.injective List.nodup_range') inside).length_le
    rwa [List.length_map, List.length_range'] at bounded

/-- Following the tail displaces the target once enough links share its set. -/
theorem tailEvictsTarget_iff (isLevel : IsLevel level) {targetAddress : Nat}
    (aligned : targetAddress = pageAddress level entry 0) (lower : 1 ≤ first) :
    Machine.tailEvictsTarget (geometry.lru level) targetAddress level length first = true ↔
      geometry.ways ≤ (setMates geometry entry length first).length := by
  have targetEntry : entryOf level targetAddress = entry := by
    rw [aligned, entryOf_pageAddress isLevel (by decide)]
  have visited : (tailChain targetAddress level length first).map (entryOf level) =
      entry :: (List.range' first (length + 1 - first)).map (entry + ·) := by
    rw [tailChain, List.map_cons, targetEntry, List.map_map]
    apply congrArg
    apply List.map_congr_left
    intro index _
    rw [Function.comp_apply, Machine.entryOf_chainLink, targetEntry]
  have distinct : (entry :: (List.range' first (length + 1 - first)).map (entry + ·)).Nodup := by
    refine List.nodup_cons.mpr ⟨?_, List.Nodup.map (fun _ _ => Nat.add_left_cancel) List.nodup_range'⟩
    intro member
    rcases List.mem_map.mp member with ⟨index, range, same⟩
    rw [List.mem_range'_1] at range
    omega
  have survives := lru_holds_first geometry.index geometry.ways distinct
  have probed : entryOf level (prefixAligned targetAddress level) = entry := by
    rw [Machine.prefixAligned_pageAddress aligned, entryOf_pageAddress isLevel (by decide)]
  have folded : (tailChain targetAddress level length first).foldl (geometry.lru level).access
      (geometry.lru level).empty =
      (entry :: (List.range' first (length + 1 - first)).map (entry + ·)).foldl
        (accessLru geometry.index geometry.ways) fun _ => [] := by
    rw [← visited, List.foldl_map]
  unfold Machine.tailEvictsTarget
  rw [folded, Bool.not_eq_true', ← Bool.not_eq_true]
  simp only [probed, decide_eq_true_eq]
  rw [survives, Nat.not_lt]
  rfl

end Mates

/-! ## Where the enumerated entries lie -/

section Enumeration

variable {geometry : CacheGeometry} {level entry : Nat}

/-- The length of the chain that the check builds. -/
def CacheGeometry.capacity (geometry : CacheGeometry) : Nat :=
  (1 <<< geometry.setBits) * geometry.ways

/-- One entry more than the set has ways lies beyond the chain. -/
theorem capacity_lt_entry (candidate : geometry.hash = .linHash ∨ geometry.hash = .linShiftHash) (entry : Nat) :
    entry + geometry.capacity < geometry.hash.entry geometry.setBits entry (1 + geometry.ways) := by
  have positive : 0 < 2 ^ geometry.setBits := Nat.two_pow_pos _
  rw [CacheGeometry.capacity, Nat.shiftLeft_eq, Nat.one_mul]
  rcases candidate with same | same
  · rw [same, HashFunction.entry, Nat.mul_add, Nat.mul_one]
    omega
  · rw [same]
    simp only [HashFunction.entry]
    rcases Nat.even_or_odd' geometry.ways with ⟨half, even | odd⟩
    · have product : 2 ^ geometry.setBits * (2 * half) = 2 * (2 ^ geometry.setBits * half) := by ring
      have next : 2 ^ geometry.setBits * (half + 1) = 2 ^ geometry.setBits * half + 2 ^ geometry.setBits := by
        ring
      rcases Nat.mod_two_eq_zero_or_one entry with parity | parity
      · have halves : (1 + 2 * half + entry % 2) / 2 = half := by omega
        rw [even, halves, product]
        omega
      · have halves : (1 + 2 * half + entry % 2) / 2 = half + 1 := by omega
        rw [even, halves, product, next]
        omega
    · have product : 2 ^ geometry.setBits * (2 * half + 1) =
          2 * (2 ^ geometry.setBits * half) + 2 ^ geometry.setBits := by ring
      have next : 2 ^ geometry.setBits * (half + 1) = 2 ^ geometry.setBits * half + 2 ^ geometry.setBits := by
        ring
      have halves : (1 + (2 * half + 1) + entry % 2) / 2 = half + 1 := by omega
      rw [odd, halves, product, next]
      omega

/-- With one way, the chain ends at the next entry of the set only under
`lin_hash`, or if there is one set. -/
theorem capacity_of_one_way (candidate : geometry.hash = .linHash ∨ geometry.hash = .linShiftHash)
    (single : geometry.ways = 1) (entry : Nat) :
    geometry.hash.entry geometry.setBits entry 1 = entry + geometry.capacity ↔
      geometry.hash = .linHash ∨ geometry.setBits = 0 := by
  rw [CacheGeometry.capacity, Nat.shiftLeft_eq, Nat.one_mul, single, Nat.mul_one]
  rcases candidate with same | same
  · simp only [same, HashFunction.entry, Nat.mul_one, true_or]
  · have different : ¬ (HashFunction.linShiftHash = HashFunction.linHash) := by decide
    simp only [same, different, false_or, HashFunction.entry]
    constructor
    · intro ends
      by_contra several
      have sets : 2 ≤ 2 ^ geometry.setBits := Nat.le_self_pow several 2
      rcases Nat.mod_two_eq_zero_or_one entry with even | odd
      · rw [even] at ends
        omega
      · have round : (1 + entry % 2) / 2 = 1 := by omega
        rw [round, Nat.mul_one] at ends
        omega
    · intro one
      rw [one, Nat.pow_zero, Nat.one_mul]
      omega

/-- The chain of a confirmed structure overfills the set of the target. -/
theorem entry_le_capacity (candidate : geometry.hash = .linHash ∨ geometry.hash = .linShiftHash)
    (counts : CountsAsAligned geometry) (entry : Nat) :
    geometry.hash.entry geometry.setBits entry geometry.ways ≤ entry + geometry.capacity := by
  rcases counts with two | ⟨single, near⟩
  · rw [CacheGeometry.capacity, Nat.shiftLeft_eq, Nat.one_mul, two]
    rcases candidate with same | same
    · rw [same, HashFunction.entry]
    · have round : (2 + entry % 2) / 2 = 1 := by omega
      rw [same]
      simp only [HashFunction.entry]
      rw [round]
      omega
  · have ends := (capacity_of_one_way candidate single entry).mpr near
    rw [single]
    exact Nat.le_of_eq ends

end Enumeration

/-! ## The check -/

section Check

variable {geometry : CacheGeometry} {level entry targetAddress : Nat} (isLevel : IsLevel level)
  (aligned : targetAddress = pageAddress level entry 0) (positive : 1 ≤ geometry.ways)
  (candidate : geometry.hash = .linHash ∨ geometry.hash = .linShiftHash)

include isLevel aligned positive

/-- Deleting links before the next entry of the set changes nothing. -/
theorem evicts_before_next {first : Nat} (lower : 1 ≤ first)
    (before : entry + first ≤ geometry.hash.entry geometry.setBits entry 1) :
    Machine.tailEvictsTarget (geometry.lru level) targetAddress level geometry.capacity first = true ↔
      geometry.hash.entry geometry.setBits entry geometry.ways ≤ entry + geometry.capacity := by
  rw [tailEvictsTarget_iff isLevel aligned lower, le_setMates_length 0 positive lower _ before,
    Nat.zero_add]
  rw [HashFunction.entry_zero]
  omega

include candidate

/-- Deleting the next entry of the set leaves too few links. -/
theorem next_mandatory {link : Nat} (next : geometry.hash.entry geometry.setBits entry 1 = entry + link) :
    Machine.tailEvictsTarget (geometry.lru level) targetAddress level geometry.capacity (link + 1) = false := by
  have later := geometry.hash.entry_strictMono geometry.setBits entry (show 1 < 1 + 1 by decide)
  have beyond := capacity_lt_entry candidate entry
  rw [← Bool.not_eq_true, tailEvictsTarget_iff isLevel aligned (Nat.le_add_left 1 link),
    le_setMates_length 1 positive (Nat.le_add_left 1 link) _ _]
  · omega
  · omega
  · omega

/-- The first link that is found mandatory is the enumerated one. If a link further
down were the first, the enumerated link would have been found mandatory before it. -/
theorem firstMandatory_eq {link : Nat}
    (evicts : geometry.hash.entry geometry.setBits entry geometry.ways ≤ entry + geometry.capacity)
    (mandatory : Machine.FirstMandatory
      (Machine.tailEvictsTarget (geometry.lru level) targetAddress level) geometry.capacity link) :
    geometry.hash.entry geometry.setBits entry 1 = entry + link := by
  have start := geometry.hash.entry_strictMono geometry.setBits entry Nat.zero_lt_one
  rw [HashFunction.entry_zero] at start
  rcases Nat.lt_trichotomy (geometry.hash.entry geometry.setBits entry 1) (entry + link) with
    passed | same | notYet
  · have next : geometry.hash.entry geometry.setBits entry 1 =
        entry + (geometry.hash.entry geometry.setBits entry 1 - entry) := by omega
    have stops := next_mandatory isLevel aligned positive candidate next
    rw [mandatory.deletable _ (by omega) (by omega)] at stops
    cases stops
  · exact same
  · have still := (evicts_before_next isLevel aligned positive (Nat.le_add_left 1 link) (by omega)).mpr evicts
    rw [mandatory.mandatory] at still
    cases still

/-- If nothing is found mandatory, the enumerated link is the last one, which the
loop never deletes. -/
theorem one_way_of_deletable
    (evicts : geometry.hash.entry geometry.setBits entry geometry.ways ≤ entry + geometry.capacity)
    (deletable : Machine.AllDeletable (Machine.tailEvictsTarget (geometry.lru level) targetAddress level)
      geometry.capacity geometry.capacity) :
    geometry.ways = 1 ∧ geometry.hash.entry geometry.setBits entry 1 = entry + geometry.capacity := by
  have increasing := geometry.hash.entry_strictMono geometry.setBits entry
  have start := increasing Nat.zero_lt_one
  rw [HashFunction.entry_zero] at start
  have notLater := increasing.monotone positive
  have ends : geometry.hash.entry geometry.setBits entry 1 = entry + geometry.capacity := by
    by_contra earlier
    have next : geometry.hash.entry geometry.setBits entry 1 =
        entry + (geometry.hash.entry geometry.setBits entry 1 - entry) := by omega
    have stops := next_mandatory isLevel aligned positive candidate next
    rw [deletable _ (by omega) (by omega)] at stops
    cases stops
  refine ⟨?_, ends⟩
  by_contra several
  have later := increasing (show 1 < geometry.ways by omega)
  omega

/-- What the check answers, whatever its loop has found.  The outcomes of the loop
are compared with the set of the target one by one. -/
theorem alignOutcome_iff (fits : targetAddress < 2 ^ 64) {aligns : Bool}
    (outcome : Machine.AlignOutcome (Machine.tailEvictsTarget (geometry.lru level) targetAddress level)
      targetAddress level geometry.capacity (geometry.hash.apply targetAddress 1 geometry.setBits level)
      geometry.ways aligns) :
    aligns = true ↔ CountsAsAligned geometry := by
  have start := geometry.hash.entry_strictMono geometry.setBits entry Nat.zero_lt_one
  rw [HashFunction.entry_zero] at start
  have whole := evicts_before_next isLevel aligned positive (Nat.le_refl 1) start
  rcases outcome with stays | ⟨result, evicts, compared⟩
  · refine iff_of_false Bool.false_ne_true fun counts => ?_
    rw [whole.mpr (entry_le_capacity candidate counts entry)] at stays
    cases stays
  have reaches := whole.mp evicts
  rcases compared with deletable | ⟨link, inside, mandatory, same⟩ | ⟨link, inside, mandatory, other⟩
  · rcases one_way_of_deletable isLevel aligned positive candidate reaches deletable with ⟨single, ends⟩
    refine iff_of_true ?_ (Or.inr ⟨single, (capacity_of_one_way candidate single entry).mp ends⟩)
    rw [single]
    rfl
  · have next := firstMandatory_eq isLevel aligned positive candidate reaches mandatory
    have counted : (3 == geometry.ways + 1) = true ↔ geometry.ways = 2 := by
      rw [beq_iff_eq]
      omega
    rw [Option.any_some, counted]
    constructor
    · exact Or.inl
    · rintro (two | ⟨single, near⟩)
      · exact two
      · have ends := (capacity_of_one_way candidate single entry).mpr near
        omega
  · have next := firstMandatory_eq isLevel aligned positive candidate reaches mandatory
    refine absurd ?_ other
    subst aligned
    rw [HashFunction.apply_aligned _ _ _ isLevel fits, next, chainLink, pageAddress_zero, pageAddress_zero,
      Nat.shiftLeft_eq, Nat.shiftLeft_eq, Nat.shiftLeft_eq, Nat.add_mul]

end Check

/-- The links of the chain lie below the address that has to be in the window. -/
theorem roomAbove_of_end {configuration : Configuration} {level targetAddress length : Nat}
    (above : baseAddress ≤ targetAddress)
    (inside : insideWindow configuration level
      (targetAddress + ((length + 1) <<< pageTableIndexShift level)) = true) :
    Machine.RoomAbove configuration targetAddress level length := by
  intro index lower upper
  have positive : 0 < 2 ^ pageTableIndexShift level := Nat.two_pow_pos _
  have reaches : index * 2 ^ pageTableIndexShift level ≤ (length + 1) * 2 ^ pageTableIndexShift level :=
    Nat.mul_le_mul_right _ (by omega)
  have further : 1 * 2 ^ pageTableIndexShift level ≤ index * 2 ^ pageTableIndexShift level :=
    Nat.mul_le_mul_right _ lower
  unfold insideWindow at inside ⊢
  rw [Bool.and_eq_true, decide_eq_true_eq, decide_eq_true_eq] at inside ⊢
  rw [Nat.shiftLeft_eq] at inside
  rw [chainLink, Nat.shiftLeft_eq]
  omega

/-- On an LRU cache the answer of the check depends on the geometry alone. -/
theorem returns_evictionSetAligns {geometry : CacheGeometry} {level entry targetAddress bound : Nat}
    (isLevel : IsLevel level) (positive : 1 ≤ geometry.ways)
    (candidate : geometry.hash = .linHash ∨ geometry.hash = .linShiftHash)
    (aligned : targetAddress = pageAddress level entry 0) (above : baseAddress ≤ targetAddress)
    (inside : insideWindow defaultConfiguration level
      (targetAddress + ((2 ^ geometry.setBits * geometry.ways + 1) <<< pageTableIndexShift level)) = true)
    (access : MemoryAccess) (enough : 2 ^ geometry.setBits * geometry.ways ≤ bound)
    (machine : Machine (geometry.lru level)) (ready : machine.Ready) :
    Returns (Machine.handle level) (evictionSetAlignsWithHashFunction defaultConfiguration bound targetAddress
      level access (.to geometry.hash) geometry.setBits geometry.ways) machine
      fun aligns _ => aligns = true ↔ CountsAsAligned geometry := by
  have capacity : (1 <<< geometry.setBits) * geometry.ways = 2 ^ geometry.setBits * geometry.ways := by
    rw [Nat.shiftLeft_eq, Nat.one_mul]
  rw [← capacity] at inside enough
  have nonempty : 1 ≤ (1 <<< geometry.setBits) * geometry.ways := by
    rw [capacity]
    exact Nat.mul_pos (Nat.two_pow_pos _) positive
  have fits : targetAddress < 2 ^ 64 := by
    unfold insideWindow at inside
    rw [Bool.and_eq_true, decide_eq_true_eq, decide_eq_true_eq] at inside
    exact Nat.lt_of_le_of_lt (Nat.le_add_right _ _)
      (Nat.lt_of_lt_of_le inside.2 (Machine.usableWindow_default isLevel).fits)
  unfold evictionSetAlignsWithHashFunction
  apply (Machine.returns_evictionSetAlignsWithHashFunctionWith defaultConfiguration isLevel
    (Machine.keptByWrites_clean_above (Nat.lt_of_lt_of_le Machine.signal_lt_baseAddress above)) geometry.hash
    (Machine.returns_chainEvicts isLevel access aligned enough) (roomAbove_of_end above inside) nonempty
    ready.idle ready.clean).mono
  rintro aligns final ⟨outcome, _⟩
  exact alignOutcome_iff isLevel aligned positive candidate fits outcome

/-- The check confirms the true structure exactly if it has two ways, or one way and
the next entry of the set ends the chain.  The cache replaces the least recently
used entry of a set and is indexed by the very function that is checked; the target
is drawn low enough for a set and one more entry.  Behind the first link that is
found mandatory the deletion writes beside the chain, so no further link is ever
counted. -/
theorem evictionSetAlignsWithHashFunction_iff {geometry : CacheGeometry}
    {level entry targetAddress bound : Nat} (isLevel : IsLevel level) (positive : 1 ≤ geometry.ways)
    (candidate : geometry.hash = .linHash ∨ geometry.hash = .linShiftHash)
    (aligned : targetAddress = pageAddress level entry 0) (above : baseAddress ≤ targetAddress)
    (inside : insideWindow defaultConfiguration level
      (targetAddress + ((2 ^ geometry.setBits * geometry.ways + 1) <<< pageTableIndexShift level)) = true)
    (access : MemoryAccess) (enough : 2 ^ geometry.setBits * geometry.ways ≤ bound)
    (machine : Machine (geometry.lru level)) (ready : machine.Ready) :
    Returns (Machine.handle level) (evictionSetAlignsWithHashFunction defaultConfiguration bound targetAddress
        level access (.to geometry.hash) geometry.setBits geometry.ways) machine
        (fun aligns _ => aligns = true) ↔
      geometry.ways = 2 ∨ geometry.ways = 1 ∧ (geometry.hash = .linHash ∨ geometry.setBits = 0) := by
  rcases returns_evictionSetAligns isLevel positive candidate aligned above inside access enough machine ready with
    ⟨aligns, final, returned, answer⟩
  constructor
  · rintro ⟨aligns', final', returned', confirmed⟩
    rw [returned] at returned'
    cases returned'
    exact answer.mp confirmed
  · exact fun counts => ⟨aligns, final, returned, answer.mpr counts⟩

theorem eightSets_inside : insideWindow defaultConfiguration 2
    (baseAddress + ((2 ^ eightSets.setBits * eightSets.ways + 1) <<< pageTableIndexShift 2)) = true := by
  decide

/-- Eight sets of four ways, from the first entry of the window. -/
theorem evictionSetAlignsWithHashFunction_iff_eightSets :
    Returns (Machine.handle 2) (evictionSetAlignsWithHashFunction defaultConfiguration 32 baseAddress 2 .readData
        (.to eightSets.hash) eightSets.setBits eightSets.ways)
        (Machine.afterTrigger (eightSets.lru 2) fun n => n * n) (fun aligns _ => aligns = true) ↔
      eightSets.ways = 2 ∨ eightSets.ways = 1 ∧ (eightSets.hash = .linHash ∨ eightSets.setBits = 0) :=
  evictionSetAlignsWithHashFunction_iff (by decide) (by decide) (Or.inr rfl)
    (baseAddress_add (by decide) 0) (Nat.le_refl _) eightSets_inside .readData (by decide) _
    (Machine.afterTrigger_ready _ _)

/-- A cache with eight sets of four ways does not align with itself. -/
theorem evictionSetAlignsWithHashFunction_rejects :
    ¬ Returns (Machine.handle 2) (evictionSetAlignsWithHashFunction defaultConfiguration 32 baseAddress 2
        .readData (.to eightSets.hash) eightSets.setBits eightSets.ways)
        (Machine.afterTrigger (eightSets.lru 2) fun n => n * n) (fun aligns _ => aligns = true) := by
  have aligned : baseAddress = pageAddress 2 (baseEntry 2) 0 := by decide
  have enough : 2 ^ eightSets.setBits * eightSets.ways ≤ 32 := by decide
  rcases returns_evictionSetAligns (by decide) (by decide) (Or.inr rfl) aligned (Nat.le_refl _) eightSets_inside
    .readData enough _ (Machine.afterTrigger_ready (eightSets.lru 2) fun n => n * n) with
    ⟨aligns, final, returned, answer⟩
  rintro ⟨aligns', final', returned', confirmed⟩
  rw [returned] at returned'
  cases returned'
  exact absurd (answer.mp confirmed) (by decide)

end Talbot
