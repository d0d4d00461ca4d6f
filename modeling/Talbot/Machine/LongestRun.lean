import Talbot.Kernel.LineLengths
import Talbot.Machine.MissCounts

namespace Talbot

/-!
The answers after which every evaluation prints its longest lines.

The existence tests only see misses, the hierarchy tests none.  The structure
search only accepts the last candidate, the one with the most sets and ways, and
its hash function never agrees with a minimal eviction set.  No filler ever evicts
a member, so every row of the permutation vectors is full of `-1`.
-/

open Foundations Program

/-- The last candidate of the search. -/
def largestCache : TranslationCache :=
  ⟨8, 32, .to .linShiftHash⟩

theorem reportSize_eq {lines : List ReportLine} (longest : ∀ line, line ∈ lines -> line.Longest) :
    reportSize lines = (lines.map ReportLine.limit).sum :=
  congrArg List.sum (List.map_congr_left fun line member => ReportLine.printed_length_eq (longest line member))

section Verdicts

variable {fresh : (Nat -> Nat) -> Prop} {configuration : Configuration} {bound level : Nat}

variable (below : level ≤ 4)

include below

theorem attains_evaluateCacheExistence :
    Attains fresh (evaluateCacheExistence configuration level) fun lines => reportSize lines = 58 := by
  refine attains_bind.mpr ((attains_testCacheExistence true).mono ?_)
  rintro _ _ rfl
  exact reportSize_eq (by simp [ReportLine.Longest, missesOf, below])

omit below in
/-- The misses only reach the threshold when the number of PCIDs has four digits. -/
theorem attains_evaluatePcidAmount (noflush : Nat) :
    Attains fresh (evaluatePcidAmount configuration level noflush) fun line =>
      line = .supportedPcids level 1000 noflush iterations := by
  have found : Attains fresh (forRange (fun amountPcids _ => do
      let misses ← testSupportedPcids configuration level amountPcids (noflush != 0)
      if reachesThreshold misses iterations then return .done (amountPcids, misses)
      else return .next (amountPcids + 1, misses)) 0 4096 ((0, 0) : Nat × Nat))
      fun result => result = (1000, iterations) := by
    apply reaches_forRange_break (fun amountPcids _ _ => amountPcids ≤ 1000) 0 4096 (0, 0) () (by decide)
    · intro amountPcids result _ _ _ few
      refine attains_bind.mpr ((attains_testSupportedPcids _ _ (decide (amountPcids = 1000))).mono ?_)
      rintro misses _ rfl
      by_cases last : amountPcids = 1000
      · rw [last]
        rfl
      · rw [decide_eq_false last]
        exact Nat.lt_of_le_of_ne few last
    · exact fun _ _ impossible => absurd impossible (by decide)
  refine attains_bind.mpr (found.mono ?_)
  rintro _ _ rfl
  rfl

theorem attains_evaluateSupportedPcids :
    Attains fresh (evaluateSupportedPcids configuration level) fun lines => reportSize lines = 152 := by
  refine attains_bind.mpr ((attains_evaluatePcidAmount 0).mono ?_)
  rintro _ _ rfl
  refine attains_bind.mpr ((attains_evaluatePcidAmount 1).mono ?_)
  rintro _ _ rfl
  exact reportSize_eq (by simp [ReportLine.Longest, below])

theorem attains_evaluatePcidRespect :
    Attains fresh (evaluatePcidRespect configuration bound level) fun lines => reportSize lines = 65 := by
  refine attains_bind.mpr ((attains_testPcidRespect false).mono ?_)
  rintro _ _ rfl
  have longest : ∀ line, line ∈ [ReportLine.doesNotRespectPcids level 0] -> line.Longest := by
    simp [ReportLine.Longest, below]
  exact reportSize_eq longest

variable (positive : 1 ≤ bound)

include positive

theorem attains_evaluateCacheHierarchy :
    Attains fresh (evaluateCacheHierarchy configuration bound level) fun lines => reportSize lines = 133 := by
  refine attains_bind.mpr ((attains_testSplitLayer positive .fetchInstruction .readData false).mono ?_)
  rintro _ _ rfl
  refine attains_bind.mpr ((attains_testSplitLayer positive .readData .fetchInstruction false).mono ?_)
  rintro _ _ rfl
  refine attains_bind.mpr ((attains_testSharedLayer false).mono ?_)
  rintro _ _ rfl
  exact reportSize_eq (by simp [ReportLine.Longest, missesOf, below])

omit below in
theorem attains_evaluateNesting (below : level ≤ 3) {translationCaches : Nat -> TranslationCache}
    (recorded : translationCaches (level + 1) = largestCache) :
    Attains fresh (evaluateNesting configuration bound translationCaches level) fun lines =>
      reportSize lines = 86 := by
  refine attains_bind.mpr ((attains_testNesting positive below recorded false).mono ?_)
  rintro _ _ rfl
  have longest : ∀ line, line ∈ [ReportLine.notNested level 0] -> line.Longest := by
    simp [ReportLine.Longest, Nat.le_succ_of_le below]
  exact reportSize_eq longest

theorem attains_evaluateHugeTlb (known : level = 2 ∨ level = 3) :
    Attains fresh (evaluateHugeTlb configuration bound level) fun lines => reportSize lines = 67 := by
  refine attains_bind.mpr ((attains_testHugeTlb positive known true).mono ?_)
  rintro _ _ rfl
  have longest : ∀ line, line ∈ [ReportLine.hugeTlbUnified level iterations] -> line.Longest := by
    simp [ReportLine.Longest, below]
  exact reportSize_eq longest

end Verdicts

/-! ## The structure -/

section Structure

variable {fresh : (Nat -> Nat) -> Prop} {configuration : Configuration} {bound level : Nat}

/-- What the search ends with. -/
def largestFound : SearchState where
  minimumSetBits := 8
  minimumWays := 32
  hashFunction := .to .linShiftHash
  certainty := iterations

variable (window : Machine.UsableWindow configuration level) (positive : 1 ≤ bound)

include window positive

/-- Neither hash function is accepted. -/
theorem attains_tryHashes {ways : Nat} (several : 1 ≤ ways) (setBits : Nat) (initial : SearchState) :
    Attains fresh (tryHashes (measureCandidate configuration bound) level setBits ways candidateHashes initial)
      fun state => state = initial := by
  unfold candidateHashes tryHashes
  refine attains_bind.mpr ((attains_testHashFunction window positive several false).mono ?_)
  rintro _ _ rfl
  refine attains_bind.mpr ((attains_testHashFunction window positive several false).mono ?_)
  rintro _ _ rfl
  rfl

/-- The last hash function is accepted for the last candidate. -/
theorem attains_tryHashes_last {initial : SearchState} (unset : initial.minimumWays = 99) :
    Attains fresh (tryHashes (measureCandidate configuration bound) level 8 32 candidateHashes initial)
      fun state => state = largestFound := by
  unfold candidateHashes tryHashes
  refine attains_bind.mpr ((attains_testHashFunction window positive (by decide) false).mono ?_)
  rintro _ _ rfl
  refine attains_bind.mpr ((attains_testHashFunction window positive (by decide) true).mono ?_)
  rintro _ _ rfl
  have accepted : initial.accepts 32 8 iterations = true := by
    rw [SearchState.accepts, unset, decide_eq_true (by decide : 32 < 99), Bool.true_or, Bool.and_true]
    decide
  have counted : missesOf true = iterations := rfl
  rw [counted, if_pos accepted]
  rfl

theorem attains_searchStructure {initial : SearchState} (unset : initial.minimumWays = 99) :
    Attains fresh (searchStructure (measureCandidate configuration bound) level initial)
      fun state => state = largestFound := by
  apply (reaches_forRange (fun setBits state _ => state = if setBits = 9 then largestFound else initial) 0 9 initial
    () rfl ?_).mono fun _ _ found => found
  rintro setBits _ _ _ below rfl
  rw [if_neg (by omega)]
  have row : Attains fresh (searchRow (measureCandidate configuration bound) level setBits initial) fun state =>
      state = if setBits = 8 then largestFound else initial := by
    apply (reaches_forRange (fun ways state _ => state = if setBits = 8 ∧ ways = 33 then largestFound else initial)
      1 32 initial () (if_neg (by omega)).symm ?_).mono
    · rintro state _ rfl
      exact if_congr (and_iff_left rfl) rfl rfl
    rintro ways _ _ lower small rfl
    have earlier : ¬(setBits = 8 ∧ ways = 33) := by omega
    rw [if_neg earlier, if_neg (by omega)]
    by_cases last : setBits = 8 ∧ ways = 32
    · rcases last with ⟨rfl, rfl⟩
      refine attains_bind.mpr ((attains_tryHashes_last window positive unset).mono ?_)
      rintro _ _ rfl
      exact ⟨_, rfl, rfl⟩
    · refine attains_bind.mpr ((attains_tryHashes window positive lower setBits initial).mono ?_)
      rintro _ _ rfl
      exact ⟨_, rfl, (if_neg (by omega)).symm⟩
  refine attains_bind.mpr (row.mono ?_)
  rintro _ _ rfl
  exact ⟨_, rfl, if_congr (by omega) rfl rfl⟩

omit window

theorem attains_probeChain (targetAddress prefixAlignedAddress : Nat) (complementaryWalk : PageTableWalk)
    (misses : Nat) :
    Attains fresh (probeChain bound targetAddress prefixAlignedAddress level .readData complementaryWalk misses)
      fun result => result = misses := by
  refine attains_then (attains_walkPageTable _) fun _ => attains_then (attains_clearNx _) fun _ => ?_
  refine attains_then attains_flushMmuCaches fun _ => attains_then (attains_read .readData _) fun _ => ?_
  refine attains_then (attains_switchLevel _ _) fun _ => attains_then (attains_follow positive _ _) fun _ => ?_
  refine attains_bind.mpr ((attains_access .readData _ (seen false)).mono ?_)
  rintro _ _ rfl
  refine attains_then (attains_switchLevel _ _) fun _ => attains_then attains_flushMmuCaches fun _ => ?_
  exact countMiss_seen false misses

/-- A chain that is never measured to evict. -/
theorem attains_chainEvicts (targetAddress prefixAlignedAddress : Nat) :
    Attains fresh (chainEvicts bound targetAddress prefixAlignedAddress level .readData) fun evicts =>
      evicts = false := by
  refine attains_then (attains_walkPageTable _) fun walk => attains_then (attains_clearNx _) fun _ => ?_
  refine attains_bind.mpr ((attains_count false fun _ misses => ?_).mono ?_)
  · refine attains_bind.mpr ((attains_probeChain positive _ _ _ misses).mono ?_)
    rintro _ _ rfl
    rfl
  · rintro _ _ rfl
    rfl

theorem attains_evictionSetAlignsWithHashFunction (targetAddress : Nat) (hash : HashFunction) (setBits ways : Nat) :
    Attains fresh (evictionSetAlignsWithHashFunction configuration bound targetAddress level .readData (.to hash)
      setBits ways) fun aligns => aligns = false := by
  refine attains_then (attains_enter _ _ _) fun _ => attains_then (attains_buildPointerChain _ _ _) fun _ => ?_
  refine attains_bind.mpr ((attains_chainEvicts positive _ _).mono ?_)
  rintro _ _ rfl
  rfl

include window

theorem attains_evaluateCacheStructure {leftover : HashPointer × Nat} {translationCaches : Nat -> TranslationCache}
    (pristine : translationCaches level = defaultTranslationCache) :
    Attains fresh (evaluateCacheStructure configuration bound leftover translationCaches level) fun result =>
      result.1 = Function.update translationCaches level largestCache ∧ reportSize result.2 = 163 := by
  unfold evaluateCacheStructure evaluateCacheStructureWith
  have unset : (translationCaches level).ways = 99 := by
    rw [pristine]
    rfl
  refine attains_bind.mpr ((attains_searchStructure window positive unset).mono ?_)
  rintro _ _ rfl
  have aligned : Attains fresh (forRange (fun _ aligning => do
      let targetAddress ← drawAddress (drawableEntries configuration level) level
      let aligns ← evictionSetAlignsWithHashFunction configuration bound targetAddress level .readData
        largestFound.hashFunction largestFound.minimumSetBits largestFound.minimumWays
      return .next (if aligns then aligning + 1 else aligning)) 0 (iterations / 10) 0) fun aligning => aligning = 0 := by
    apply reaches_forRange (fun _ aligning _ => aligning = 0) 0 (iterations / 10) 0 () rfl
    rintro _ _ _ _ _ rfl
    refine attains_then (attains_draw _) fun _ => ?_
    refine attains_bind.mpr ((attains_evictionSetAlignsWithHashFunction positive _ .linShiftHash 8 32).mono ?_)
    rintro _ _ rfl
    exact ⟨0, rfl, rfl⟩
  refine attains_bind.mpr (aligned.mono ?_)
  rintro _ _ rfl
  have changed : largestFound.minimumWays ≠ (translationCaches level).ways := by
    rw [unset]
    decide
  rw [recordStructure, if_pos (Or.inl changed)]
  have longest : ∀ line, line ∈ [structureLine level largestFound, .evictionSetDoesNotAlign level 0] ->
      line.Longest := by
    simp [ReportLine.Longest, structureLine, largestFound, window.isLevel.2]
  exact ⟨rfl, reportSize_eq longest⟩

end Structure

/-! ## The rows -/

section Rows

variable {fresh : (Nat -> Nat) -> Prop} {configuration : Configuration} {bound level : Nat}

variable (positive : 1 ≤ bound) (zero : fresh fun _ => 0)

include positive zero

/-- Where no candidate ever misses, the order stays as it was allocated. -/
theorem attains_determineReplacementOrder {hash : HashFunction} {setBits ways : Nat}
    {translationCaches : Nat -> TranslationCache} (recorded : translationCaches level = ⟨setBits, ways, .to hash⟩)
    (setStart : Nat) :
    Attains fresh (determineReplacementOrder configuration bound translationCaches setStart level) fun order =>
      order = fun _ => 0 := by
  unfold determineReplacementOrder
  rw [recorded]
  have allocates : Attains fresh kmalloc fun array => array = fun _ => 0 := attains_kmalloc zero
  refine attains_then (attains_enter _ _ _) fun _ => ?_
  refine attains_then (allocates.mono fun _ _ _ => trivial) fun addressArray => attains_bind.mpr (allocates.mono ?_)
  rintro _ _ rfl
  refine attains_then (allocates.mono fun _ _ _ => trivial) fun misses => ?_
  refine attains_then (attains_lastLink positive setStart) fun lastAddress => ?_
  refine attains_then (attains_loop fun i _ => ?_) fun addressSet => ?_
  · exact attains_then ((attains_callHash hash _ _ _ _).mono fun _ _ _ => trivial) fun _ => trivial
  refine attains_then ((attains_callHash hash _ _ _ _).mono fun _ _ _ => trivial) fun nextAddress => ?_
  refine attains_then (attains_writeData _ _) fun _ => ?_
  refine attains_bind.mpr ((reaches_forRange (fun _ (arrays : (Nat -> Nat) × (Nat -> Nat)) _ =>
    arrays.1 = fun _ => 0) 0 ways _ () rfl ?_).mono fun _ _ unresolved => unresolved)
  rintro index arrays _ _ _ unresolved
  refine attains_bind.mpr ((attains_resolvePosition positive hash setBits ways _ _ _ _ _ _ arrays
    fun _ => false).mono ?_)
  rintro resolved _ ⟨order, counts⟩
  refine ⟨resolved, rfl, ?_⟩
  have none_missing : (List.range ways).find? (fun i => reachesThreshold (resolved.2 i) iterations) = none := by
    apply List.find?_eq_none.mpr
    intro i inside
    rw [counts i (List.mem_range.mp inside), Bool.and_false, if_neg Bool.false_ne_true]
    decide
  rw [order, placeMember, none_missing]
  exact unresolved

theorem attains_evaluateReplacementPolicy (below : level ≤ 4) {translationCaches : Nat -> TranslationCache}
    (recorded : translationCaches level = largestCache) :
    Attains fresh (evaluateReplacementPolicy configuration bound translationCaches level) fun lines =>
      reportSize lines = 3831 := by
  have rows : Attains fresh (calculatePermutationVectors configuration bound translationCaches level) fun rows =>
      rows = fun _ _ => -1 := by
    unfold calculatePermutationVectors
    rw [recorded]
    refine attains_then (attains_enter _ _ _) fun _ => attains_then (attains_draw _) fun targetAddress => ?_
    refine attains_then (attains_buildPointerChainFromHashSingle _ .linShiftHash _ _ _ _ _) fun _ => ?_
    refine attains_bind.mpr ((attains_determineReplacementOrder positive zero recorded targetAddress).mono ?_)
    rintro _ _ rfl
    apply reaches_forRange (fun _ rows _ => rows = fun _ _ => -1) 0 32 _ () rfl
    rintro _ _ _ _ _ rfl
    exact ⟨_, rfl, rfl⟩
  refine attains_bind.mpr (rows.mono ?_)
  rintro _ _ rfl
  rw [recorded]
  have longest : ∀ line, line ∈ ReportLine.permutationHeader level :: ((List.range 32).map fun i =>
      ReportLine.permutationRow level i ((List.range 32).map fun _ => -1)) -> line.Longest := by
    intro line member
    rcases List.mem_cons.mp member with rfl | row
    · exact below
    · rcases List.mem_map.mp row with ⟨i, _, rfl⟩
      exact ⟨below, by rw [List.map_const', List.length_range]⟩
  have size_eq := reportSize_eq longest
  have sizes : (33 + ((List.range 32).map fun i => 117 + ReportLine.digits i).sum) = 3831 := by decide
  rw [List.map_cons, List.sum_cons, List.map_map] at size_eq
  exact size_eq.trans sizes

end Rows

end Talbot
