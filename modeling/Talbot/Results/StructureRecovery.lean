import Talbot.Machine.Probes
import Talbot.Machine.StructureSearch
import Talbot.Machine.TranslationCaches

namespace Talbot

/-!
The structure search on a set-associative translation cache.

A candidate with fewer ways than the cache never fills a set.  One with the
same ways but fewer sets, or with the wrong hash function, spreads its chain
over two sets.  Neither ever misses, whereas the true structure overfills one
set in every iteration.  The pruned search therefore ends there, whatever
larger candidates it has accepted before.
-/

open Foundations Program

section Candidates

variable {configuration : Configuration} {hash : HashFunction} {geometry : CacheGeometry}
  {victim : List Nat -> Nat} {level startAddress entry : Nat}

/-- What one probe finds, on entry numbers. -/
theorem memberMisses_iff (isLevel : IsLevel level) (aligned : startAddress = pageAddress level entry 0)
    (fits : startAddress < 2 ^ 64) (ways setBits j : Nat) :
    Machine.memberMisses configuration hash (geometry.replacing victim level) ways setBits level
        startAddress j = true ↔
      pageAddress level (hash.entry setBits entry j) 0 < windowEnd configuration level ∧
        hash.entry setBits entry j ∉ (geometry.associative victim).resident
          (Machine.chainEntries configuration hash entry ways setBits level).reverse := by
  have target : hash.apply startAddress j setBits level =
      pageAddress level (hash.entry setBits entry j) 0 := by
    subst aligned
    exact HashFunction.apply_aligned hash j setBits isLevel fits
  unfold Machine.memberMisses
  rw [target, Machine.prefixAligned_pageAddress rfl, Machine.hashChain_eq isLevel ways setBits aligned fits,
    Bool.and_eq_true, decide_eq_true_eq, Bool.not_eq_true', ← Bool.not_eq_true,
    CacheGeometry.replacing_holds isLevel (by decide)]

private theorem add_mod_ne {modulus step : Nat} (value : Nat) (positive : 0 < step)
    (small : step < modulus) : (value + step) % modulus ≠ value % modulus := by
  intro same
  have remainder := Nat.sub_mod_eq_zero_of_mod_eq same
  rw [Nat.add_sub_cancel_left, Nat.mod_eq_of_lt small] at remainder
  omega

/-- The next two enumerated entries do not both stay in the set of the first, if
there are fewer sets than in the cache, or the hash function is the wrong one. Where
the two hash functions differ one of these entries has the other parity. -/
theorem exists_other_set (setBits : Nat) (entry : Nat)
    (candidate : hash = .linHash ∨ hash = .linShiftHash)
    (truth : geometry.hash = .linHash ∨ geometry.hash = .linShiftHash)
    (wrong : setBits < geometry.setBits ∨
      setBits = geometry.setBits ∧ 0 < setBits ∧ hash = .linHash ∧ geometry.hash = .linShiftHash) :
    ∃ offset, offset ≤ 2 ∧
      geometry.index (hash.entry setBits entry offset) ≠ geometry.index entry := by
  have positive : 0 < 2 ^ setBits := Nat.two_pow_pos setBits
  unfold CacheGeometry.index
  rcases wrong with fewer | ⟨same, some, rfl, truth⟩
  · have larger : 2 * 2 ^ setBits ≤ 2 ^ geometry.setBits := by
      rw [← Nat.pow_succ']
      exact Nat.pow_le_pow_right (by decide) fewer
    rcases candidate with rfl | rfl
    · rcases truth with truth | truth
      · refine ⟨1, by decide, ?_⟩
        simp only [truth, HashFunction.set, HashFunction.entry, Nat.mul_one]
        exact add_mod_ne entry positive (by omega)
      · refine ⟨2, Nat.le_refl 2, ?_⟩
        simp only [truth, HashFunction.set, HashFunction.entry]
        rw [Nat.add_mul_div_right entry _ (by decide)]
        exact add_mod_ne (entry / 2) positive (by omega)
    · rcases truth with truth | truth
      · refine ⟨1, by decide, ?_⟩
        simp only [truth, HashFunction.set, HashFunction.entry]
        have even : 2 ∣ 2 ^ geometry.setBits := dvd_pow_self 2 (by omega)
        intro same
        have parity := congrArg (· % 2) same
        simp only [Nat.mod_mod_of_dvd _ even] at parity
        omega
      · refine ⟨2, Nat.le_refl 2, ?_⟩
        simp only [truth, HashFunction.set, HashFunction.entry]
        have half : (2 + entry % 2) / 2 = 1 := by omega
        have next : (2 * (entry / 2 + 2 ^ setBits * ((2 + entry % 2) / 2)) + (2 + entry % 2) % 2) / 2 =
            entry / 2 + 2 ^ setBits := by
          rw [half, Nat.mul_one]
          omega
        rw [next]
        exact add_mod_ne (entry / 2) positive (by omega)
  · rcases Nat.exists_eq_add_of_lt some with ⟨bits, equal⟩
    refine ⟨1, by decide, ?_⟩
    have double : 2 ^ setBits = 2 * 2 ^ bits := by
      rw [equal, Nat.zero_add, Nat.pow_succ']
    have half : 0 < 2 ^ bits := Nat.two_pow_pos bits
    simp only [truth, HashFunction.set, HashFunction.entry, ← same, Nat.mul_one]
    rw [show (entry + 2 ^ setBits) / 2 = entry / 2 + 2 ^ bits by omega]
    exact add_mod_ne (entry / 2) half (by omega)

/-- Chains that cannot overfill a set never miss. -/
theorem someMemberMisses_eq_false (isLevel : IsLevel level) {ways setBits : Nat}
    (legal : (geometry.associative victim).LegalVictim) (several : 2 ≤ geometry.ways)
    (aligned : startAddress = pageAddress level entry 0) (above : baseEntry level ≤ entry)
    (fits : startAddress < 2 ^ 64)
    (few : ways < geometry.ways ∨ ways = geometry.ways ∧ ∃ offset, offset ≤ 2 ∧
      geometry.index (hash.entry setBits entry offset) ≠ geometry.index entry) :
    Machine.someMemberMisses configuration hash (geometry.replacing victim level) ways setBits level
      startAddress = false := by
  rw [Machine.someMemberMisses, List.any_eq_false]
  intro j inRange missing
  rw [List.mem_range] at inRange
  rcases (memberMisses_iff isLevel aligned fits ways setBits j).mp missing with ⟨inside, gone⟩
  apply gone
  apply CacheGeometry.resident_of_spread legal _ _
    (Machine.mem_chainEntries_of_inside isLevel above (Nat.le_of_lt inRange) inside)
  obtain ⟨count, small, same⟩ : ∃ count, count ≤ ways ∧
      Machine.chainEntries configuration hash entry ways setBits level =
        (List.range (count + 1)).map (hash.entry setBits entry) := Machine.chainEntries_eq ways setBits
  rw [same, List.length_map, List.length_range]
  rcases few with fewer | ⟨rfl, offset, early, apart⟩
  · exact Or.inl (by omega)
  · by_cases cut : count + 1 ≤ geometry.ways
    · exact Or.inl cut
    · refine Or.inr ⟨by omega, hash.entry setBits entry offset, entry, ?_, ?_, apart⟩
      · exact List.mem_map.mpr ⟨offset, List.mem_range.mpr (by omega), rfl⟩
      · exact List.mem_map.mpr ⟨0, List.mem_range.mpr (Nat.succ_pos count), hash.entry_zero setBits entry⟩

/-- The true structure overfills one set, whichever entry it evicts.  More entries
than the set has ways cannot all be resident, so at least one of the members misses,
and one is enough for the search. -/
theorem someMemberMisses_eq_true (isLevel : IsLevel level) {setBits : Nat}
    (legal : (geometry.associative victim).LegalVictim)
    (aligned : startAddress = pageAddress level entry 0) (above : baseEntry level ≤ entry)
    (fits : startAddress < 2 ^ 64)
    (oneSet : ∀ offset, geometry.index (hash.entry setBits entry offset) = geometry.index entry)
    (inside : pageAddress level (hash.entry setBits entry geometry.ways) 0 < windowEnd configuration level) :
    Machine.someMemberMisses configuration hash (geometry.replacing victim level) geometry.ways setBits level
      startAddress = true := by
  have increasing := hash.entry_strictMono setBits entry
  have lower : ∀ offset, offset ≤ geometry.ways ->
      pageAddress level (hash.entry setBits entry offset) 0 < windowEnd configuration level := by
    intro offset before
    rw [windowEnd_eq isLevel, pageAddress_lt_iff] at inside ⊢
    exact Nat.lt_of_le_of_lt (increasing.monotone before) inside
  have whole : Machine.chainEntries configuration hash entry geometry.ways setBits level =
      (List.range (geometry.ways + 1)).map (hash.entry setBits entry) := by
    apply Machine.chainEntries_of_inside
    intro offset positive before
    have below := lower offset before
    have higher := increasing positive
    rw [windowEnd_eq isLevel, pageAddress_lt_iff] at below
    rw [HashFunction.entry_zero] at higher
    exact (insideWindow_iff isLevel configuration _).mpr ⟨by omega, below⟩
  have history : (Machine.chainEntries configuration hash entry geometry.ways setBits level).reverse =
      hash.entry setBits entry geometry.ways ::
        ((List.range geometry.ways).map (hash.entry setBits entry)).reverse := by
    rw [whole, List.range_succ, List.map_append, List.reverse_append]
    rfl
  have distinct := List.nodup_reverse.mpr
    ((List.nodup_range (n := geometry.ways + 1)).map increasing.injective)
  rw [← whole, history] at distinct
  rcases (geometry.associative victim).one_too_many legal (geometry.index entry) _ _ distinct
    (by
      intro other member
      rw [← history, whole] at member
      rcases List.mem_map.mp (List.mem_reverse.mp member) with ⟨offset, _, rfl⟩
      exact oneSet offset)
    (by rw [List.length_reverse, List.length_map, List.length_range]; rfl) with ⟨gone, member, decides⟩
  rcases List.mem_map.mp (List.mem_reverse.mp member) with ⟨j, inRange, rfl⟩
  rw [Machine.someMemberMisses, List.any_eq_true]
  refine ⟨j, inRange, (memberMisses_iff isLevel aligned fits geometry.ways setBits j).mpr ⟨?_, ?_⟩⟩
  · exact lower j (Nat.le_of_lt (List.mem_range.mp inRange))
  · rw [history]
    exact fun resident => (decides _ member).mp resident rfl

end Candidates

/-! ## The measurement of the candidates -/

/-- The hash function that the search reports: with one set, both index
functions are the same and the first one is reported. -/
def CacheGeometry.reportedHash (geometry : CacheGeometry) : HashFunction :=
  if geometry.setBits = 0 then .linHash else geometry.hash

/-- A geometry that the search can report: within the bounds of its loops, with two
ways or more, and indexed by one of the two functions that it tries. -/
structure Recoverable (geometry : CacheGeometry) : Prop where
  hash : geometry.hash = .linHash ∨ geometry.hash = .linShiftHash
  setBits_le : geometry.setBits ≤ 8
  several : 2 ≤ geometry.ways
  ways_le : geometry.ways ≤ 32

/-- A full set above every start address stays inside the base window.  Otherwise
the builder would truncate the chain of the right candidate, and it would not evict. -/
def RoomForSet (configuration : Configuration) (level : Nat) (geometry : CacheGeometry) : Prop :=
  ∀ startAddress, Machine.Drawable configuration level startAddress ->
    insideWindow configuration level
      (geometry.hash.apply startAddress geometry.ways geometry.setBits level) = true

section Measurement

variable {configuration : Configuration} {geometry : CacheGeometry} {victim : List Nat -> Nat}
  {level bound : Nat}

theorem linShift_entry_of_one_set (entry offset : Nat) :
    HashFunction.entry .linShiftHash 0 entry offset = HashFunction.entry .linHash 0 entry offset := by
  simp only [HashFunction.entry, Nat.pow_zero, Nat.one_mul]
  omega

theorem reportedHash_entry (recoverable : Recoverable geometry) (entry offset : Nat) :
    geometry.reportedHash.entry geometry.setBits entry offset =
      geometry.hash.entry geometry.setBits entry offset := by
  unfold CacheGeometry.reportedHash
  by_cases one : geometry.setBits = 0
  · rw [if_pos one, one]
    rcases recoverable.hash with same | same
    · rw [same]
    · rw [same, linShift_entry_of_one_set]
  · rw [if_neg one]

/-- The hash functions that come before the reported one. -/
def hashesBefore (geometry : CacheGeometry) : List HashFunction :=
  candidateHashes.takeWhile (· != geometry.reportedHash)

theorem candidateHashes_eq (recoverable : Recoverable geometry) :
    ∃ after, candidateHashes = hashesBefore geometry ++ geometry.reportedHash :: after := by
  unfold hashesBefore CacheGeometry.reportedHash
  rcases recoverable.hash with same | same
  · rw [same, ite_self]
    exact ⟨[.linShiftHash], rfl⟩
  · rw [same]
    by_cases one : geometry.setBits = 0
    · rw [if_pos one]
      exact ⟨[.linShiftHash], rfl⟩
    · rw [if_neg one]
      exact ⟨[], rfl⟩

/-- Only `lin_hash` comes before the reported hash function, and only if that is
`lin_shift_hash` with several sets. -/
theorem of_mem_hashesBefore (recoverable : Recoverable geometry) {hash : HashFunction}
    (member : hash ∈ hashesBefore geometry) :
    hash = .linHash ∧ geometry.hash = .linShiftHash ∧ 0 < geometry.setBits := by
  unfold hashesBefore CacheGeometry.reportedHash at member
  by_cases one : geometry.setBits = 0
  · rw [if_pos one] at member
    cases member
  · rw [if_neg one] at member
    rcases recoverable.hash with same | same
    · rw [same] at member
      cases member
    · rw [same] at member
      exact ⟨List.mem_singleton.mp member, same, Nat.pos_of_ne_zero one⟩

theorem candidate_of_mem {hash : HashFunction} (member : hash ∈ candidateHashes) :
    hash = .linHash ∨ hash = .linShiftHash := by
  rcases List.mem_cons.mp member with same | member
  · exact Or.inl same
  · exact Or.inr (List.mem_singleton.mp member)

variable (window : Machine.UsableWindow configuration level) (recoverable : Recoverable geometry)
  (legal : (geometry.associative victim).LegalVictim) (enough : 32 ≤ bound)

include window recoverable legal enough

/-- A candidate whose chain cannot overfill a set is counted zero times. -/
theorem returns_measure_zero {hash : HashFunction} {ways setBits : Nat}
    (few : ∀ entry, ways < geometry.ways ∨ ways = geometry.ways ∧ ∃ offset, offset ≤ 2 ∧
      geometry.index (hash.entry setBits entry offset) ≠ geometry.index entry)
    (notMore : ways ≤ geometry.ways) (machine : Machine (geometry.replacing victim level))
    (ready : machine.Ready) :
    Returns (Machine.handle level) (measureCandidate configuration bound ways setBits hash level) machine
      fun misses final => final.Ready ∧ misses = 0 := by
  have fits : ways ≤ bound := Nat.le_trans notMore (Nat.le_trans recoverable.ways_le enough)
  apply (Machine.returns_testHashFunction configuration hash window ready fits).mono
  rintro misses final ⟨after, counted⟩
  refine ⟨after, counted false ?_⟩
  intro startAddress drawable
  rcases drawable.aligned window.isLevel with ⟨index, _, aligned⟩
  exact someMemberMisses_eq_false window.isLevel legal recoverable.several aligned (Nat.le_add_right _ _)
    (window.start_lt drawable) (few _)

/-- Around the true structure the real measurement answers as the search needs: it
always misses for the true one, and never for a smaller one or for one that is tried
before it. -/
theorem singlesOut_measureCandidate (room : RoomForSet configuration level geometry) :
    SinglesOut (Machine.handle level) Machine.Ready (measureCandidate configuration bound) level
      geometry.ways geometry.setBits (hashesBefore geometry) geometry.reportedHash
      (σ := Machine (geometry.replacing victim level)) where
  some ways setBits hash machine small _ ready :=
    (Machine.returns_testHashFunction configuration hash window ready (Nat.le_trans small enough)).mono
      fun _ _ result => result.1
  smaller ways setBits hash machine member smaller ready := by
    apply returns_measure_zero window recoverable legal enough _ (by omega) machine ready
    intro entry
    rcases smaller with fewer | ⟨same, fewer⟩
    · exact Or.inl fewer
    · exact Or.inr ⟨same, exists_other_set setBits entry (candidate_of_mem member) recoverable.hash
        (Or.inl fewer)⟩
  earlier hash machine member ready := by
    rcases of_mem_hashesBefore recoverable member with ⟨rfl, shifted, several⟩
    apply returns_measure_zero window recoverable legal enough _ (Nat.le_refl _) machine ready
    exact fun entry => Or.inr ⟨rfl, exists_other_set _ entry (Or.inl rfl) recoverable.hash
      (Or.inr ⟨rfl, several, rfl, shifted⟩)⟩
  expected machine ready := by
    have fits : geometry.ways ≤ bound := Nat.le_trans recoverable.ways_le enough
    apply (Machine.returns_testHashFunction configuration _ window ready fits).mono
    rintro misses final ⟨after, counted⟩
    refine ⟨after, counted true ?_⟩
    intro startAddress drawable
    have inside := room startAddress drawable
    have fits := window.start_lt drawable
    rcases drawable.aligned window.isLevel with ⟨index, _, rfl⟩
    rw [HashFunction.apply_aligned _ _ _ window.isLevel fits, insideWindow_iff window.isLevel] at inside
    apply someMemberMisses_eq_true window.isLevel legal rfl (Nat.le_add_right _ _) fits
    · intro offset
      rw [reportedHash_entry recoverable]
      exact geometry.hash.set_entry geometry.setBits _ offset
    · rw [reportedHash_entry recoverable, windowEnd_eq window.isLevel, pageAddress_lt_iff]
      exact inside.2

end Measurement

/-! ## The alignment phase -/

/-- The shipped sizes draw from an even number of entries above an even entry. -/
theorem even_draws {level : Nat} (isLevel : IsLevel level) :
    drawableEntries defaultConfiguration level % 2 = 0 ∧ baseEntry level % 2 = 0 := by
  rcases isLevel with ⟨lower, upper⟩
  interval_cases level <;> decide

/-- The next entry of a set does not lie below the linear chain of the same
capacity, for this start address or the one after it. -/
theorem capacity_le_entry {hash : HashFunction} (candidate : hash = .linHash ∨ hash = .linShiftHash)
    (setBits entry ways : Nat) :
    entry + 2 ^ setBits * ways ≤ hash.entry setBits entry ways ∨
      entry % 2 = 0 ∧ entry + 2 ^ setBits * ways ≤ hash.entry setBits (entry + 1) ways := by
  have positive : 0 < 2 ^ setBits := Nat.two_pow_pos setBits
  rcases candidate with rfl | rfl
  · exact Or.inl (Nat.le_refl _)
  · simp only [HashFunction.entry]
    rcases Nat.even_or_odd' ways with ⟨half, rfl | rfl⟩
    · left
      have pairs : (2 * half + entry % 2) / 2 = half := by omega
      have product : 2 ^ setBits * (2 * half) = 2 * (2 ^ setBits * half) := by ring
      rw [pairs, product]
      omega
    · have product : 2 ^ setBits * (2 * half + 1) = 2 * (2 ^ setBits * half) + 2 ^ setBits := by ring
      have next : 2 ^ setBits * (half + 1) = 2 ^ setBits * half + 2 ^ setBits := by ring
      rcases Nat.mod_two_eq_zero_or_one entry with even | odd
      · right
        have pairs : (2 * half + 1 + (entry + 1) % 2) / 2 = half + 1 := by omega
        rw [pairs, product, next]
        omega
      · left
        have pairs : (2 * half + 1 + entry % 2) / 2 = half + 1 := by omega
        rw [pairs, product, next]
        omega

/-- Where a full set fits above every start address, so does a linear chain of the
capacity of the cache. The number of start addresses is even, so an even start
address has a successor among them. -/
theorem roomAbove_of_roomForSet {level : Nat} {geometry : CacheGeometry} (isLevel : IsLevel level)
    (recoverable : Recoverable geometry) (room : RoomForSet defaultConfiguration level geometry)
    {startAddress : Nat} (drawable : Machine.Drawable defaultConfiguration level startAddress) :
    Machine.RoomAbove defaultConfiguration startAddress level ((1 <<< geometry.setBits) * geometry.ways) := by
  have window := Machine.usableWindow_default isLevel
  have below : ∀ index, index < drawableEntries defaultConfiguration level ->
      geometry.hash.entry geometry.setBits (baseEntry level + index) geometry.ways <
        baseEntry level + defaultConfiguration.pageTableEntries level := by
    intro index small
    have inside := room _ ⟨index, small, rfl⟩
    have fits := window.start_lt ⟨index, small, rfl⟩
    rw [baseAddress_add isLevel] at inside fits
    rw [HashFunction.apply_aligned _ _ _ isLevel fits, insideWindow_iff isLevel] at inside
    exact inside.2
  rcases drawable with ⟨index, small, rfl⟩
  have capacity : baseEntry level + index + 2 ^ geometry.setBits * geometry.ways <
      baseEntry level + defaultConfiguration.pageTableEntries level := by
    rcases capacity_le_entry recoverable.hash geometry.setBits (baseEntry level + index) geometry.ways with
      here | ⟨even, next⟩
    · exact Nat.lt_of_le_of_lt here (below index small)
    · rcases even_draws isLevel with ⟨evenDraws, evenBase⟩
      exact Nat.lt_of_le_of_lt next (below (index + 1) (by omega))
  intro link positive short
  rw [Nat.shiftLeft_eq, Nat.one_mul] at short
  rw [chainLink, Nat.add_assoc, Nat.shiftLeft_eq, Nat.shiftLeft_eq, ← Nat.add_mul, ← Nat.shiftLeft_eq,
    baseAddress_add isLevel, insideWindow_iff isLevel]
  omega

/-- The alignment checks after the search run to their end. -/
theorem returns_alignmentPhase {level bound : Nat} {geometry : CacheGeometry} {victim : List Nat -> Nat}
    (isLevel : IsLevel level) (recoverable : Recoverable geometry)
    (room : RoomForSet defaultConfiguration level geometry) (enough : 2 ^ 13 ≤ bound)
    (hash : HashFunction) (machine : Machine (geometry.replacing victim level)) (ready : machine.Ready) :
    Returns (Machine.handle level) (forRange (fun _ aligning => do
      let targetAddress ← drawAddress (drawableEntries defaultConfiguration level) level
      let aligns ← evictionSetAlignsWithHashFunction defaultConfiguration bound targetAddress level .readData
        (.to hash) geometry.setBits geometry.ways
      return .next (if aligns then aligning + 1 else aligning)) 0 (iterations / 10) 0) machine
      fun _ final => final.Ready := by
  apply returns_forRange (fun _ (_ : Nat) (machine : Machine (geometry.replacing victim level)) => machine.Ready)
  · exact ready
  · intro _ aligning machine _ _ ready
    rw [returns_bind]
    apply Machine.returns_drawStart (Machine.usableWindow_default isLevel) ready
    intro targetAddress drawn drawable ready
    rcases drawable.aligned isLevel with ⟨index, _, aligned⟩
    have above : signal < targetAddress := by
      rcases drawable with ⟨_, _, rfl⟩
      exact Nat.lt_of_lt_of_le Machine.signal_lt_baseAddress (Nat.le_add_right _ _)
    have capacity : (1 <<< geometry.setBits) * geometry.ways ≤ 2 ^ 13 := by
      rw [Nat.shiftLeft_eq, Nat.one_mul, show (2 : Nat) ^ 13 = 2 ^ 8 * 32 by rfl]
      exact Nat.mul_le_mul (Nat.pow_le_pow_right (by decide) recoverable.setBits_le) recoverable.ways_le
    have nonempty : 1 ≤ (1 <<< geometry.setBits) * geometry.ways := by
      rw [Nat.shiftLeft_eq, Nat.one_mul]
      exact Nat.mul_pos (Nat.two_pow_pos _) (by have := recoverable.several; omega)
    unfold evictionSetAlignsWithHashFunction
    rw [returns_bind]
    apply (Machine.returns_evictionSetAlignsWithHashFunctionWith defaultConfiguration isLevel
      (Machine.keptByWrites_clean_above above) hash
      (Machine.returns_chainEvicts isLevel .readData aligned (Nat.le_trans capacity enough))
      (roomAbove_of_roomForSet isLevel recoverable room drawable) nonempty ready.idle ready.clean).mono
    rintro aligns final ⟨_, idle, clean⟩
    exact (returns_ret _).mpr ⟨_, rfl, idle, clean⟩

/-! ## Recovery -/

/-- `evaluate_cache_structure` records the structure of the cache it runs on.  The
cache has two to 32 ways and up to 256 sets, and is indexed by one of the two hash
functions that are searched; of its replacement policy it is only assumed that a
full set replaces one of its own entries.  All random words are covered.  With a
single set the two hash functions are the same one, and the first of them is
recorded. -/
theorem evaluateCacheStructure_recovers {level bound : Nat} {geometry : CacheGeometry}
    {victim : List Nat -> Nat} (isLevel : IsLevel level) (recoverable : Recoverable geometry)
    (legal : (geometry.associative victim).LegalVictim)
    (room : RoomForSet defaultConfiguration level geometry) (enough : 2 ^ 13 ≤ bound)
    (leftover : HashPointer × Nat) (translationCaches : Nat -> TranslationCache)
    (placeholder : translationCaches level = defaultTranslationCache)
    (machine : Machine (geometry.replacing victim level)) (ready : machine.Ready) :
    Returns (Machine.handle level)
      (evaluateCacheStructure defaultConfiguration bound leftover translationCaches level) machine
      fun result _ => result.1 level =
        { setBits := geometry.setBits, ways := geometry.ways, hashFunction := .to geometry.reportedHash } := by
  have window := Machine.usableWindow_default isLevel
  have singles : SinglesOut (Machine.handle level) Machine.Ready (measureCandidate defaultConfiguration bound)
      level geometry.ways geometry.setBits (hashesBefore geometry) geometry.reportedHash :=
    singlesOut_measureCandidate window recoverable legal (Nat.le_trans (by decide) enough) room
  rcases candidateHashes_eq recoverable with ⟨after, order⟩
  have larger : geometry.ways < (translationCaches level).ways := by
    rw [placeholder]
    exact Nat.lt_of_le_of_lt recoverable.ways_le (by decide)
  unfold evaluateCacheStructure evaluateCacheStructureWith
  rw [returns_bind]
  apply (returns_searchStructure singles order (Nat.le_of_lt recoverable.several) recoverable.ways_le
    recoverable.setBits_le larger machine ready).mono
  rintro _ searched ⟨ready, rfl⟩
  rw [returns_bind]
  apply (returns_alignmentPhase isLevel recoverable room enough geometry.reportedHash searched ready).mono
  intro aligning final _
  have recorded : recordStructure translationCaches level
      ⟨geometry.setBits, geometry.ways, .to geometry.reportedHash, iterations⟩ level =
      { setBits := geometry.setBits, ways := geometry.ways, hashFunction := .to geometry.reportedHash } := by
    rw [recordStructure, if_pos (Or.inl (Nat.ne_of_lt larger))]
    exact Function.update_self _ _ _
  exact (returns_ret _).mpr recorded

/-- A cache with four sets of two ways that evicts the entry used last. -/
def fourSets : CacheGeometry :=
  ⟨.linShiftHash, 2, 2⟩

theorem fourSets_room : RoomForSet defaultConfiguration 2 fourSets := by
  intro startAddress drawable
  have isLevel : IsLevel 2 := by decide
  have fits := (Machine.usableWindow_default isLevel).start_lt drawable
  rcases drawable.aligned isLevel with ⟨index, small, aligned⟩
  rw [aligned] at fits ⊢
  have entries : defaultConfiguration.pageTableEntries 2 = 16384 := rfl
  have draws : drawableEntries defaultConfiguration 2 = 512 := rfl
  rw [HashFunction.apply_aligned _ _ _ isLevel fits, insideWindow_iff isLevel, entries]
  rw [draws] at small
  simp only [fourSets, HashFunction.entry]
  omega

/-- Four sets on level 2 that replace the entry they used last, which is as far from
least recently used as a policy can be. -/
theorem evaluateCacheStructure_recovers_fourSets :
    Returns (Machine.handle 2)
      (evaluateCacheStructure defaultConfiguration (2 ^ 13) (.garbage 7, 7) initialTranslationCaches 2)
      (Machine.afterTrigger (fourSets.replacing (SetAssociative.mostRecent fourSets.index) 2) fun n => n * n)
      fun result _ => result.1 2 =
        { setBits := fourSets.setBits, ways := fourSets.ways, hashFunction := .to fourSets.reportedHash } :=
  evaluateCacheStructure_recovers (by decide) ⟨Or.inr rfl, by decide, by decide, by decide⟩
    (SetAssociative.mostRecent_legal fourSets.index 2 (by decide)) fourSets_room (Nat.le_refl _) _ _ rfl _
    (Machine.afterTrigger_ready _ _)

end Talbot
