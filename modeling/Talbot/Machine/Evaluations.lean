import Talbot.Kernel.LineLengths
import Talbot.Machine.MissCounts

namespace Talbot

/-!
What the evaluations append to the report, whatever the machine answers.

Each bound is the length of the longest lines of its evaluation, and each is
attained: the measurements of different evaluations are independent of each
other.  Without a structure the replacement policy calls a null pointer, so its
rows are printed only where the search has found one.
-/

open Foundations Program

section Bounds

variable {fresh : (Nat -> Nat) -> Prop} {configuration : Configuration} {bound level : Nat}

variable (below : level ≤ 4)

include below

theorem measures_evaluateCacheExistence :
    Measures fresh (evaluateCacheExistence configuration level) fun lines => reportSize lines ≤ 58 := by
  refine measures_bind.mpr (measures_testCacheExistence.mono fun misses _ counted => ?_)
  have line : (ReportLine.existence level misses).printed.length ≤ 58 :=
    ReportLine.printed_length_le ⟨below, counted⟩
  simp only [pure_eq, ensures_ret, reportSize_cons, reportSize_nil]
  omega

theorem measures_evaluateCacheHierarchy :
    Measures fresh (evaluateCacheHierarchy configuration bound level) fun lines => reportSize lines ≤ 133 := by
  refine measures_then fun instructions => measures_then fun data => measures_then fun shared => ?_
  have header : (ReportLine.hierarchyHeader level).printed.length ≤ 31 :=
    ReportLine.printed_length_le below
  have first : (ReportLine.splitInstructions level instructions).printed.length ≤ 34 :=
    ReportLine.printed_length_le below
  have second : (ReportLine.splitData level data).printed.length ≤ 34 :=
    ReportLine.printed_length_le below
  have third : (ReportLine.shared level shared).printed.length ≤ 34 :=
    ReportLine.printed_length_le below
  simp only [pure_eq, ensures_ret, reportSize_cons, reportSize_nil]
  omega

theorem measures_evaluateNesting (translationCaches : Nat -> TranslationCache) :
    Measures fresh (evaluateNesting configuration bound translationCaches level) fun lines =>
      reportSize lines ≤ 86 := by
  refine measures_bind.mpr ((measures_testNesting translationCaches).mono fun result _ counted => ?_)
  cases result with
  | none =>
      have line : (ReportLine.cannotEvaluateNesting level).printed.length ≤ 86 :=
        ReportLine.printed_length_le below
      simp only [pure_eq, ensures_ret, reportSize_cons, reportSize_nil]
      omega
  | some misses =>
      have nested : (ReportLine.nested level misses).printed.length ≤ 86 :=
        ReportLine.printed_length_le ⟨below, counted misses rfl⟩
      have notNested : (ReportLine.notNested level misses).printed.length ≤ 86 :=
        ReportLine.printed_length_le below
      dsimp only
      split <;>
      · simp only [pure_eq, ensures_ret, reportSize_cons, reportSize_nil]
        omega

theorem measures_evaluateHugeTlb :
    Measures fresh (evaluateHugeTlb configuration bound level) fun lines => reportSize lines ≤ 67 := by
  refine measures_bind.mpr (measures_testHugeTlb.mono fun result _ counted => ?_)
  have separate : ∀ certainty, certainty ≤ iterations + 1 ->
      (ReportLine.hugeTlbSeparate level certainty).printed.length ≤ 67 :=
    fun _ small => ReportLine.printed_length_le ⟨below, small⟩
  cases result with
  | none =>
      have line := separate (iterations + 1) (Nat.le_refl _)
      simp only [pure_eq, ensures_ret, reportSize_cons, reportSize_nil]
      omega
  | some misses =>
      have unified : (ReportLine.hugeTlbUnified level misses).printed.length ≤ 67 :=
        ReportLine.printed_length_le ⟨below, counted misses rfl⟩
      have line := separate (iterations - misses) (Nat.le_succ_of_le (Nat.sub_le _ _))
      dsimp only
      split <;>
      · simp only [pure_eq, ensures_ret, reportSize_cons, reportSize_nil]
        omega

theorem measures_evaluatePcidAmount {noflush : Nat} (bit : noflush ≤ 1) :
    Measures fresh (evaluatePcidAmount configuration level noflush) fun line => line.printed.length ≤ 76 := by
  have found : Measures fresh (forRange (fun amountPcids _ => do
      let misses ← testSupportedPcids configuration level amountPcids (noflush != 0)
      if reachesThreshold misses iterations then return .done (amountPcids, misses)
      else return .next (amountPcids + 1, misses)) 0 4096 ((0, 0) : Nat × Nat))
      fun result => result.1 ≤ 4096 ∧ result.2 ≤ iterations := by
    apply ensures_forRange_break (fun index result _ => result.1 = index ∧ result.2 ≤ iterations) 0 4096 (0, 0) ()
      ⟨rfl, Nat.zero_le _⟩
    · rintro index result _ _ upper _
      refine measures_bind.mpr (measures_testSupportedPcids.mono fun misses _ counted => ?_)
      dsimp only
      split
      · exact ⟨by omega, counted⟩
      · exact ⟨rfl, counted⟩
    · rintro result _ ⟨last, counted⟩
      exact ⟨Nat.le_of_eq last, counted⟩
  refine measures_bind.mpr (found.mono fun result _ small => ?_)
  exact ReportLine.printed_length_le ⟨below, small.1, bit, small.2⟩

theorem measures_evaluateSupportedPcids :
    Measures fresh (evaluateSupportedPcids configuration level) fun lines => reportSize lines ≤ 152 := by
  refine measures_bind.mpr ((measures_evaluatePcidAmount below (Nat.zero_le 1)).mono fun flushing _ first => ?_)
  refine measures_bind.mpr ((measures_evaluatePcidAmount below (Nat.le_refl 1)).mono fun keeping _ second => ?_)
  simp only [pure_eq, ensures_ret, reportSize_cons, reportSize_nil]
  omega

theorem measures_evaluatePcidRespect :
    Measures fresh (evaluatePcidRespect configuration bound level) fun lines => reportSize lines ≤ 65 := by
  refine measures_bind.mpr (measures_testPcidRespect.mono fun misses _ counted => ?_)
  have respects : (ReportLine.respectsPcids level misses).printed.length ≤ 65 :=
    ReportLine.printed_length_le ⟨below, counted⟩
  have doesNot : (ReportLine.doesNotRespectPcids level misses).printed.length ≤ 65 :=
    ReportLine.printed_length_le below
  dsimp only
  split <;>
  · simp only [pure_eq, ensures_ret, reportSize_cons, reportSize_nil]
    omega

end Bounds

/-! ## The structure -/

/-- The search has accepted a candidate. -/
structure Found (state : SearchState) : Prop where
  setBits_le : state.minimumSetBits ≤ 8
  ways_le : state.minimumWays ≤ 32
  hash : ∃ hash, state.hashFunction = .to hash
  certainty_le : state.certainty ≤ iterations

section Structure

variable {fresh : (Nat -> Nat) -> Prop} {configuration : Configuration} {bound level : Nat}

theorem measures_tryHashes {state initial : SearchState} {setBits ways : Nat} (hashes : List HashFunction)
    (few : setBits ≤ 8) (small : ways ≤ 32) (before : state = initial ∨ Found state) :
    Measures fresh (tryHashes (measureCandidate configuration bound) level setBits ways hashes state) fun result =>
      result = initial ∨ Found result := by
  induction hashes with
  | nil => exact before
  | cons hash rest inductionHypothesis =>
      refine measures_bind.mpr (measures_testHashFunction.mono fun misses _ counted => ?_)
      dsimp only
      split
      · exact Or.inr ⟨few, small, ⟨hash, rfl⟩, counted⟩
      · exact inductionHypothesis

theorem measures_searchStructure (initial : SearchState) :
    Measures fresh (searchStructure (measureCandidate configuration bound) level initial) fun result =>
      result = initial ∨ Found result := by
  apply ensures_forRange_kept (fun state _ => state = initial ∨ Found state) 0 9 initial () (Or.inl rfl)
  intro setBits state _ _ few before
  have row : Measures fresh (searchRow (measureCandidate configuration bound) level setBits state) fun result =>
      result = initial ∨ Found result := by
    apply ensures_forRange_kept (fun state _ => state = initial ∨ Found state) 1 32 state () before
    intro ways state _ _ small before
    split
    · exact ⟨state, Or.inr rfl, before⟩
    · refine measures_bind.mpr ((measures_tryHashes candidateHashes (by omega) (by omega) before).mono ?_)
      exact fun result _ after => ⟨result, Or.inl rfl, after⟩
  refine measures_bind.mpr (row.mono ?_)
  exact fun result _ after => ⟨result, Or.inl rfl, after⟩

/-- Either a structure with at most 32 ways is recorded, or nothing is and the line
prints what the stack held. -/
theorem measures_evaluateCacheStructure (below : level ≤ 4) {leftover : HashPointer × Nat}
    {translationCaches : Nat -> TranslationCache} (pristine : translationCaches level = defaultTranslationCache) :
    Measures fresh (evaluateCacheStructure configuration bound leftover translationCaches level) fun result =>
      (∃ setBits ways hash, ways ≤ 32 ∧
          result.1 = Function.update translationCaches level ⟨setBits, ways, .to hash⟩ ∧ reportSize result.2 ≤ 163) ∨
        (result.1 = translationCaches ∧ reportSize result.2 ≤ 205) := by
  unfold evaluateCacheStructure evaluateCacheStructureWith
  refine measures_bind.mpr ((measures_searchStructure _).mono fun state _ searched => ?_)
  have aligned : Measures fresh (forRange (fun _ aligning => do
      let targetAddress ← drawAddress (drawableEntries configuration level) level
      let aligns ← evictionSetAlignsWithHashFunction configuration bound targetAddress level .readData
        state.hashFunction state.minimumSetBits state.minimumWays
      return .next (if aligns then aligning + 1 else aligning)) 0 (iterations / 10) 0)
      fun aligning => aligning ≤ iterations / 10 := by
    refine measures_count fun _ aligning => measures_then fun _ => measures_then fun aligns => ⟨_, rfl, ?_⟩
    cases aligns
    · exact Nat.le_succ _
    · exact Nat.le_refl _
  refine measures_bind.mpr (aligned.mono fun aligning _ counted => ?_)
  have alignment : (if reachesThreshold aligning (iterations / 10) then ReportLine.evictionSetAligns level aligning
      else ReportLine.evictionSetDoesNotAlign level aligning).printed.length ≤ 78 := by
    split
    · exact ReportLine.printed_length_le ⟨below, counted⟩
    · exact ReportLine.printed_length_le below
  simp only [pure_eq, ensures_ret, reportSize_cons, reportSize_nil]
  rcases searched with rfl | found
  · right
    have line : (structureLine level ⟨(translationCaches level).setBits, (translationCaches level).ways, leftover.1,
        leftover.2⟩).printed.length ≤ 127 := by
      unfold structureLine
      split <;> exact ReportLine.printed_lt rfl
    refine ⟨?_, by omega⟩
    rw [recordStructure, if_neg]
    exact fun changed => changed.elim (fun other => other rfl) fun other => other rfl
  · left
    rcases found with ⟨few, small, ⟨hash, pointer⟩, certain⟩
    have line : (structureLine level state).printed.length ≤ 85 := by
      rw [structureLine, pointer]
      exact ReportLine.printed_length_le ⟨below, few, small, certain⟩
    refine ⟨state.minimumSetBits, state.minimumWays, hash, small, ?_, by omega⟩
    rw [recordStructure, if_pos, pointer]
    left
    rw [pristine]
    exact Nat.ne_of_lt (Nat.lt_of_le_of_lt small (by decide))

end Structure

/-! ## The rows -/

section Rows

variable {fresh : (Nat -> Nat) -> Prop} {configuration : Configuration} {bound level : Nat}

/-- A call through a null pointer does not return. -/
theorem measures_buildFromNull {startAddress endAddress length setBits : Nat} {post : Unit -> Prop}
    (positive : 1 ≤ length) :
    Measures fresh (buildPointerChainFromHashSingle configuration startAddress endAddress length .null setBits level)
      post := by
  rcases Nat.exists_eq_add_of_le' positive with ⟨rest, rfl⟩
  unfold buildPointerChainFromHashSingle
  refine measures_then fun _ => measures_bind.mpr ?_
  rw [forRange, measures_bind, measures_bind]
  refine ⟨trivial, ?_⟩
  rintro _ _ ⟨_, impossible, _⟩
  cases impossible

/-- The positions in a row are `-1` or below the number of ways. -/
theorem measures_calculatePermutationVectors (translationCaches : Nat -> TranslationCache) :
    Measures fresh (calculatePermutationVectors configuration bound translationCaches level) fun rows =>
      ∀ i j, rows i j = -1 ∨ ∃ k : Nat, k < (translationCaches level).ways ∧ rows i j = k := by
  unfold calculatePermutationVectors
  refine measures_then fun _ => measures_then fun targetAddress => measures_then fun _ => ?_
  refine measures_then fun initialOrder => ?_
  apply ensures_forRange_kept (fun (rows : Nat -> Nat -> Int) _ =>
    ∀ i j, rows i j = -1 ∨ ∃ k : Nat, k < (translationCaches level).ways ∧ rows i j = k)
  · exact fun _ _ => Or.inl rfl
  intro i rows _ _ _ before
  split
  · exact ⟨rows, Or.inl rfl, before⟩
  refine measures_then fun _ => measures_then fun _ => measures_then fun currentOrder => ⟨_, Or.inl rfl, ?_⟩
  intro i' j
  by_cases same : i' = i
  · subst same
    rw [Function.update_self, permutationRow]
    split
    · split
      · rename_i k found
        exact Or.inr ⟨k, List.mem_range.mp (List.mem_of_find?_eq_some found), rfl⟩
      · exact before i' j
    · exact before i' j
  · rw [Function.update_of_ne same]
    exact before i' j

theorem position_length_le {position : Int} {ways : Nat} (small : ways ≤ 32)
    (known : position = -1 ∨ ∃ k : Nat, k < ways ∧ position = k) : (toString position).length ≤ 2 := by
  have each : ∀ k : Nat, k < 32 -> (toString (k : Int)).length ≤ 2 := by decide
  rcases known with rfl | ⟨k, below, rfl⟩
  · decide
  · exact each k (Nat.lt_of_lt_of_le below small)

/-- The rows of a whole set. -/
theorem rows_size_le {rows : Nat -> Nat -> Int} {ways : Nat} (below : level ≤ 4) (small : ways ≤ 32)
    (known : ∀ i j, rows i j = -1 ∨ ∃ k : Nat, k < ways ∧ rows i j = k) :
    reportSize ((List.range ways).map fun i => .permutationRow level i ((List.range ways).map (rows i))) ≤ 3798 := by
  have each : ∀ i, (ReportLine.permutationRow level i ((List.range ways).map (rows i))).printed.length ≤
      117 + ReportLine.digits i := by
    intro i
    have inRange : (ReportLine.permutationRow level i ((List.range ways).map (rows i))).InRange := by
      refine ⟨below, by rwa [List.length_map, List.length_range], ?_⟩
      intro position member
      rcases List.mem_map.mp member with ⟨j, _, rfl⟩
      exact position_length_le small (known i j)
    exact ReportLine.printed_length_le inRange
  have full : ((List.range 32).map fun i => 117 + ReportLine.digits i).sum = 3798 := by decide
  have front : ((List.range ways).map fun i => 117 + ReportLine.digits i).Sublist
      ((List.range 32).map fun i => 117 + ReportLine.digits i) :=
    (List.range_sublist.mpr small).map _
  rw [reportSize, List.map_map]
  calc
    ((List.range ways).map _).sum ≤ ((List.range ways).map fun i => 117 + ReportLine.digits i).sum :=
      List.sum_le_sum fun i _ => each i
    _ ≤ ((List.range 32).map fun i => 117 + ReportLine.digits i).sum :=
      front.sum_le_sum fun _ _ => Nat.zero_le _
    _ = 3798 := full

/-- Rows are only printed where a structure was recorded. -/
theorem measures_evaluateReplacementPolicy (below : level ≤ 4) {translationCaches : Nat -> TranslationCache}
    (recorded : translationCaches level = defaultTranslationCache ∨ (translationCaches level).ways ≤ 32) :
    Measures fresh (evaluateReplacementPolicy configuration bound translationCaches level) fun lines =>
      translationCaches level ≠ defaultTranslationCache ∧ reportSize lines ≤ 3831 := by
  unfold evaluateReplacementPolicy
  by_cases missing : translationCaches level = defaultTranslationCache
  · refine measures_bind.mpr ?_
    unfold calculatePermutationVectors
    rw [missing]
    refine measures_then fun _ => measures_then fun targetAddress => ?_
    exact measures_bind.mpr (measures_buildFromNull (by decide))
  have small := recorded.resolve_left missing
  refine measures_bind.mpr ((measures_calculatePermutationVectors translationCaches).mono fun rows _ known => ?_)
  have header : (ReportLine.permutationHeader level).printed.length ≤ 33 := ReportLine.printed_length_le below
  have positions := rows_size_le below small known
  simp only [pure_eq, ensures_ret, reportSize_cons]
  exact ⟨missing, by omega⟩

end Rows

end Talbot
