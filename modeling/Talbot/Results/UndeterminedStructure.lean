import Talbot.Machine.Responses
import Talbot.Machine.StructureSearch

namespace Talbot

/-!
What one read of the device does with a level whose structure the search could
not determine.

The miss counts of the candidates are a table, and everything else the machine
responds is arbitrary.  A level without a candidate that passes keeps its record
`{99, 99, NULL}`, and `hash_function` keeps whatever was on the stack; the
alignment check right after the search uses both.  So no read is free of such a
use unless every level has a candidate that passes.
-/

open Foundations Program

/-- The misses that `test_hash_function` returns for each candidate. -/
abbrev MissTable : Type :=
  Nat -> Nat -> HashFunction -> Nat -> Nat

def MissTable.measure (table : MissTable) : CandidateMeasurement :=
  fun ways setBits hash level => return table ways setBits hash level

/-- A candidate of the search whose misses reach the threshold.  The bounds are
those of the loops, and the hash function is one of the two that are tried. -/
structure Passes (table : MissTable) (level : Nat) (cache : TranslationCache) : Prop where
  setBits_le : cache.setBits ≤ 8
  ways_pos : 1 ≤ cache.ways
  ways_le : cache.ways ≤ 32
  hash : ∃ hash, hash ∈ candidateHashes ∧ cache.hashFunction = .to hash ∧
    reachesThreshold (table cache.ways cache.setBits hash level) iterations = true

/-! ## What the search ends with -/

section Search

variable {table : MissTable} {level : Nat}

def SearchState.structure (state : SearchState) : TranslationCache :=
  ⟨state.minimumSetBits, state.minimumWays, state.hashFunction⟩

/-- The locals of `evaluate_cache_structure` before its search.  The ways and the
set bits have their initial values; the hash function and the certainty are what the
stack held. -/
def undetermined (leftover : HashPointer × Nat) : SearchState :=
  ⟨defaultTranslationCache.setBits, defaultTranslationCache.ways, leftover.1, leftover.2⟩

variable {leftover : HashPointer × Nat}

/-- The placeholder lies above every candidate. -/
theorem lt_placeholder {ways : Nat} (small : ways ≤ 32) : ways < (undetermined leftover).minimumWays :=
  Nat.lt_of_le_of_lt small (by decide : 32 < 99)

/-- The search issues no operation of its own. -/
private def silent : Handler kernelInterface Unit :=
  fun _ _ => none

/-- No candidate with this number of sets passes. -/
def RowFails (table : MissTable) (level setBits : Nat) : Prop :=
  ∀ ways hash, 1 ≤ ways -> ways ≤ 32 -> hash ∈ candidateHashes ->
    reachesThreshold (table ways setBits hash level) iterations = false

/-- A state is either one that passes or the one the search started with, and
then nothing passed. -/
def Outcome (table : MissTable) (level : Nat) (leftover : HashPointer × Nat) (nothing : Prop)
    (state : SearchState) : Prop :=
  Passes table level state.structure ∨ (state = undetermined leftover ∧ nothing)

theorem accepts_undetermined {ways : Nat} (small : ways ≤ 32) (setBits misses : Nat) :
    (undetermined leftover).accepts ways setBits misses = reachesThreshold misses iterations := by
  rw [SearchState.accepts, decide_eq_true (lt_placeholder small), Bool.true_or, Bool.and_true]

theorem passes_accepted {ways setBits : Nat} {hash : HashFunction} (few : setBits ≤ 8) (positive : 1 ≤ ways)
    (small : ways ≤ 32) (member : hash ∈ candidateHashes)
    (reaches : reachesThreshold (table ways setBits hash level) iterations = true) :
    Passes table level (SearchState.structure ⟨setBits, ways, .to hash, table ways setBits hash level⟩) :=
  ⟨few, positive, small, hash, member, rfl, reaches⟩

/-- A structure that passes is only replaced by another one. -/
theorem returns_tryHashes_passing {ways setBits : Nat} {state : SearchState} (few : setBits ≤ 8)
    (positive : 1 ≤ ways) (small : ways ≤ 32) (passes : Passes table level state.structure) :
    Returns silent (tryHashes table.measure level setBits ways candidateHashes state) ()
      fun result _ => Passes table level result.structure := by
  apply Returns.mono (@returns_tryHashes Unit silent (fun _ => True) _ level
    (fun result => Passes table level result.structure) state ways setBits candidateHashes () trivial passes _)
  · exact fun _ _ both => both.2
  · intro hash member machine _
    refine (returns_ret _).mpr ⟨trivial, fun accepted => ?_⟩
    exact passes_accepted few positive small member (Bool.and_eq_true_iff.mp accepted).1

/-- While nothing passed, the first hash function that does is taken. -/
theorem returns_tryHashes_undetermined {ways setBits : Nat} (few : setBits ≤ 8) (positive : 1 ≤ ways)
    (small : ways ≤ 32) (hashes : List HashFunction) (members : ∀ hash, hash ∈ hashes -> hash ∈ candidateHashes) :
    Returns silent (tryHashes table.measure level setBits ways hashes (undetermined leftover)) ()
      fun result _ => Outcome table level leftover (∀ hash, hash ∈ hashes ->
        reachesThreshold (table ways setBits hash level) iterations = false) result := by
  induction hashes with
  | nil => exact (returns_ret _).mpr (Or.inr ⟨rfl, fun _ impossible => (List.not_mem_nil impossible).elim⟩)
  | cons hash rest inductionHypothesis =>
      rw [tryHashes, returns_bind]
      refine (returns_ret _).mpr ?_
      rw [accepts_undetermined small]
      cases answer : reachesThreshold (table ways setBits hash level) iterations with
      | true =>
          exact (returns_ret _).mpr (Or.inl (passes_accepted few positive small
            (members hash List.mem_cons_self) answer))
      | false =>
          apply (inductionHypothesis fun later member => members later (List.mem_cons_of_mem _ member)).mono
          rintro result _ (passes | ⟨same, fails⟩)
          · exact Or.inl passes
          · exact Or.inr ⟨same, List.forall_mem_cons.mpr ⟨answer, fails⟩⟩

theorem returns_searchRow {setBits : Nat} {state : SearchState} {nothing : Prop} (few : setBits ≤ 8)
    (before : Outcome table level leftover nothing state) :
    Returns silent (searchRow table.measure level setBits state) ()
      fun result _ => Outcome table level leftover (nothing ∧ RowFails table level setBits) result := by
  apply returns_forRange_break fun index (state : SearchState) _ => Outcome table level leftover
    (nothing ∧ ∀ ways hash, 1 ≤ ways -> ways < index -> hash ∈ candidateHashes ->
      reachesThreshold (table ways setBits hash level) iterations = false) state
  · rcases before with passes | ⟨same, holds⟩
    · exact Or.inl passes
    · exact Or.inr ⟨same, holds, fun ways hash positive below _ => absurd below (Nat.not_lt.mpr positive)⟩
  · rintro index state _ positive small (passes | ⟨rfl, holds, fails⟩)
    · by_cases pruned : state.minimumWays < index
      · rw [if_pos pruned]
        exact (returns_ret _).mpr (Or.inl passes)
      · rw [if_neg pruned, returns_bind]
        exact (returns_tryHashes_passing few positive (Nat.le_of_lt_succ small) passes).mono
          fun _ _ later => (returns_ret _).mpr (Or.inl later)
    · have within : index ≤ 32 := Nat.le_of_lt_succ small
      rw [if_neg (Nat.lt_asymm (lt_placeholder within)), returns_bind]
      apply (returns_tryHashes_undetermined few positive within candidateHashes fun _ member => member).mono
      rintro result _ (passes | ⟨same, later⟩)
      · exact (returns_ret _).mpr (Or.inl passes)
      · refine (returns_ret _).mpr (Or.inr ⟨same, holds, fun ways hash lower upper member => ?_⟩)
        rcases Nat.lt_succ_iff_lt_or_eq.mp upper with earlier | rfl
        · exact fails ways hash lower earlier member
        · exact later hash member
  · rintro state _ (passes | ⟨same, holds, fails⟩)
    · exact Or.inl passes
    · exact Or.inr ⟨same, holds, fun ways hash lower upper => fails ways hash lower (Nat.lt_succ_of_le upper)⟩

/-- The search is a value: a structure that passes, or what it started with. -/
theorem searchStructure_outcome (table : MissTable) (level : Nat) (leftover : HashPointer × Nat) :
    ∃ state, searchStructure table.measure level (undetermined leftover) = .ret state ∧
      Outcome table level leftover (∀ cache, ¬ Passes table level cache) state := by
  suffices Returns silent (searchStructure table.measure level (undetermined leftover)) () fun state _ =>
      Outcome table level leftover (∀ cache, ¬ Passes table level cache) state from this.eq_ret
  apply Returns.mono (returns_forRange (fun setBits (state : SearchState) _ => Outcome table level leftover
    (∀ earlier, earlier < setBits -> RowFails table level earlier) state) 0 9 (undetermined leftover) () _ _)
  · rintro state _ (passes | ⟨same, fails⟩)
    · exact Or.inl passes
    · refine Or.inr ⟨same, fun cache passes => ?_⟩
      rcases passes.hash with ⟨hash, member, _, reaches⟩
      rw [fails cache.setBits (Nat.lt_succ_of_le passes.setBits_le) cache.ways hash passes.ways_pos
        passes.ways_le member] at reaches
      cases reaches
  · exact Or.inr ⟨rfl, fun _ impossible => absurd impossible (Nat.not_lt_zero _)⟩
  · intro setBits state _ _ few before
    rw [returns_bind]
    apply (returns_searchRow (Nat.le_of_lt_succ (by omega)) before).mono
    rintro result _ (passes | ⟨same, earlier, row⟩)
    · exact (returns_ret _).mpr ⟨result, rfl, Or.inl passes⟩
    · refine (returns_ret _).mpr ⟨result, rfl, Or.inr ⟨same, fun bits below => ?_⟩⟩
      rcases Nat.lt_succ_iff_lt_or_eq.mp below with before | rfl
      · exact earlier bits before
      · exact row

end Search

/-! ## One level of the structure evaluation -/

section Level

variable {configuration : Configuration} {table : MissTable} {bound level : Nat} {leftover : HashPointer × Nat}
  {translationCaches : Nat -> TranslationCache} {accepted : Nat -> Option TranslationCache} {state : SearchState}

/-- The alignment check, with what the search ended with. -/
def checkAlignment (configuration : Configuration) (bound level : Nat) (state : SearchState) : Kernel Nat :=
  forRange (fun _ aligning => do
    let targetAddress ← drawAddress (drawableEntries configuration level) level
    let aligns ← evictionSetAlignsWithHashFunction configuration bound targetAddress level .readData
      state.hashFunction state.minimumSetBits state.minimumWays
    return .next (if aligns then aligning + 1 else aligning)) 0 (iterations / 10) 0

/-- Only the check of the structure that was found issues operations. -/
theorem evaluateCacheStructureWith_eq (unset : translationCaches level = defaultTranslationCache)
    (search : searchStructure table.measure level (undetermined leftover) = .ret state) :
    evaluateCacheStructureWith configuration table.measure bound leftover translationCaches level =
      checkAlignment configuration bound level state >>= fun aligning =>
        .ret (recordStructure translationCaches level state, [structureLine level state,
          if reachesThreshold aligning (iterations / 10) then .evictionSetAligns level aligning
          else .evictionSetDoesNotAlign level aligning]) := by
  unfold evaluateCacheStructureWith
  rw [unset]
  dsimp only
  rw [undetermined] at search
  rw [search, ret_bind]
  rfl

/-- A determined structure is recorded, and the alignment check uses it. -/
theorem always_evaluateCacheStructure (unset : translationCaches level = defaultTranslationCache)
    (search : searchStructure table.measure level (undetermined leftover) = .ret state)
    (passes : Passes table level state.structure) (known : accepted level = some state.structure) :
    Always (UsesAccepted accepted) (evaluateCacheStructureWith configuration table.measure bound leftover
        translationCaches level) fun result =>
      result.1 = Function.update translationCaches level state.structure := by
  have recorded : recordStructure translationCaches level state =
      Function.update translationCaches level state.structure := by
    have smaller : state.minimumWays ≠ (translationCaches level).ways := by
      rw [unset]
      exact Nat.ne_of_lt (Nat.lt_of_le_of_lt passes.ways_le (by decide : 32 < 99))
    exact if_pos (Or.inl smaller)
  rw [evaluateCacheStructureWith_eq unset search, recorded, always_bind]
  apply (always_loop fun _ _ => _).mono
  · intro aligning _
    exact rfl
  · intro _ aligning
    rw [always_bind]
    exact always_drawAddress.mono fun targetAddress _ =>
      always_bind.mpr ((always_evictionSetAligns known).mono fun _ _ => trivial)

/-- The evaluation can end whatever the search found, and leaves the other
levels alone. -/
theorem possibly_evaluateCacheStructure (unset : translationCaches level = defaultTranslationCache) :
    Possibly (evaluateCacheStructureWith configuration table.measure bound leftover translationCaches level)
      fun result => ∀ other, other ≠ level -> result.1 other = translationCaches other := by
  rcases searchStructure_outcome table level leftover with ⟨state, search, _⟩
  rw [evaluateCacheStructureWith_eq unset search, possibly_bind]
  apply (possibly_loop fun _ _ => _).mono
  · intro aligning _ other different
    change recordStructure translationCaches level state other = translationCaches other
    unfold recordStructure
    by_cases smaller : state.minimumWays ≠ (translationCaches level).ways ∨
        state.minimumSetBits ≠ (translationCaches level).setBits
    · rw [if_pos smaller, Function.update_of_ne different]
    · rw [if_neg smaller]
  · intro _ aligning
    simp [possibly_bind, drawAddress, Possibly]

/-- The alignment check uses what the search ended with, so a safe evaluation
has found a structure that passes. -/
theorem exists_passes (unset : translationCaches level = defaultTranslationCache)
    (sound : ∀ cache, accepted level = some cache -> Passes table level cache)
    {post : (Nat -> TranslationCache) × List ReportLine -> Prop}
    (always : Always (UsesAccepted accepted) (evaluateCacheStructureWith configuration table.measure bound
      leftover translationCaches level) post) :
    ∃ cache, Passes table level cache := by
  rcases searchStructure_outcome table level leftover with ⟨state, search, passes | ⟨rfl, _⟩⟩
  · exact ⟨_, passes⟩
  · have checks : iterations / 10 = 99 + 1 := rfl
    rw [evaluateCacheStructureWith_eq unset search, checkAlignment, always_bind, checks, forRange, always_bind,
      always_bind] at always
    rcases always.of_possibly possibly_drawAddress with ⟨targetAddress, checked, _⟩
    rw [always_bind] at checked
    exact ⟨_, sound _ checked.1⟩

end Level

/-! ## The whole read -/

section Read

variable {configuration : Configuration} {table : MissTable} {bound : Nat}
  {leftover : Nat -> HashPointer × Nat} {accepted : Nat -> Option TranslationCache}

/-- What the read promises about its uses of structures.  A structure is accepted
for a level only if it passes there and the search on that level ends with it;
each structure the read uses is the accepted one of its level, and a level
without one is reported as unknown. -/
structure UsesDetermined (configuration : Configuration) (table : MissTable) (bound : Nat)
    (leftover : Nat -> HashPointer × Nat) (accepted : Nat -> Option TranslationCache) : Prop where
  passes : ∀ level cache, accepted level = some cache -> Passes table level cache
  ends : ∀ level cache, accepted level = some cache ->
    ∃ state, searchStructure table.measure level (undetermined (leftover level)) = .ret state ∧
      state.structure = cache
  uses : ∀ (σ : Type) (handler : Handler kernelInterface σ) (state : σ), ∀ entry,
    entry ∈ (deviceReadWith configuration table.measure bound leftover).issued handler state ->
      UsesAccepted accepted entry.2
  reports : ∀ level, IsLevel level -> accepted level = none ->
    ∀ (σ : Type) (handler : Handler kernelInterface σ) (state : σ) report final,
      (deviceReadWith configuration table.measure bound leftover).run handler state = some (report, final) ->
        .unknownHashFunction level ∈ report

/-- The levels below `index` have their structure recorded, the others are as
they were initially. -/
def RecordedBelow (accepted : Nat -> Option TranslationCache) (index : Nat)
    (records : (Nat -> TranslationCache) × List ReportLine) : Prop :=
  ∀ level, IsLevel level -> (level < index -> accepted level = some (records.1 level)) ∧
    (index ≤ level -> records.1 level = defaultTranslationCache)

/-- A read in which the search finds an accepted structure on every level.  The
records are filled level by level, and everything behind uses these records only. -/
theorem always_deviceRead {state : Nat -> SearchState}
    (search : ∀ level, IsLevel level ->
      searchStructure table.measure level (undetermined (leftover level)) = .ret (state level))
    (passes : ∀ level, IsLevel level -> Passes table level (state level).structure)
    (known : ∀ level, IsLevel level -> accepted level = some (state level).structure) :
    Always (UsesAccepted accepted) (deviceReadWith configuration table.measure bound leftover)
      fun _ => True := by
  unfold deviceReadWith
  rw [always_bind]
  refine (always_forLevels fun _ _ _ => always_evaluateCacheExistence).mono fun output _ => ?_
  rw [always_bind]
  refine (always_forLevels fun _ _ _ => always_evaluateCacheHierarchy).mono fun output _ => ?_
  rw [always_bind]
  apply (always_forRange (RecordedBelow accepted) 2 3 _ _ _).mono
  · rintro ⟨translationCaches, output⟩ recorded
    have determined : ∀ level, IsLevel level -> accepted level = some (translationCaches level) :=
      fun level isLevel => (recorded level isLevel).1 (Nat.lt_succ_of_le isLevel.2)
    dsimp only
    rw [always_bind]
    refine (always_forLevels fun level lower upper => always_evaluateReplacementPolicy
      (determined level ⟨lower, Nat.le_of_lt_succ upper⟩)).mono fun output _ => ?_
    rw [always_bind]
    refine (always_forLevels fun level lower upper => always_evaluateNesting
      (determined (level + 1) ⟨Nat.le_succ_of_le lower, upper⟩)).mono fun output _ => ?_
    rw [always_bind]
    refine (always_forLevels fun _ _ _ => always_evaluateHugeTlb).mono fun output _ => ?_
    rw [always_bind]
    refine (always_loop fun level _ => ?_).mono fun _ _ => ?_
    · exact always_bind.mpr (always_testHugePageEviction.mono fun _ _ => trivial)
    · rw [always_bind]
      exact (always_forLevels fun _ _ _ => always_evaluateSupportedPcids).mono fun output _ =>
        always_forLevels fun _ _ _ => always_evaluatePcidRespect
  · intro level isLevel
    exact ⟨fun below => absurd isLevel.1 (Nat.not_le.mpr below), fun _ => rfl⟩
  · rintro level ⟨translationCaches, output⟩ lower upper recorded
    have isLevel : IsLevel level := ⟨lower, Nat.le_of_lt_succ upper⟩
    dsimp only
    rw [always_bind]
    apply (always_evaluateCacheStructure ((recorded level isLevel).2 (Nat.le_refl _)) (search level isLevel)
      (passes level isLevel) (known level isLevel)).mono
    rintro ⟨updated, lines⟩ same other isOther
    dsimp only at same ⊢
    rw [same]
    constructor
    · intro below
      rcases Nat.lt_succ_iff_lt_or_eq.mp below with earlier | rfl
      · rw [Function.update_of_ne (Nat.ne_of_lt earlier)]
        exact (recorded other isOther).1 earlier
      · rw [Function.update_self]
        exact known other isOther
    · intro above
      rw [Function.update_of_ne (Nat.ne_of_gt above)]
      exact (recorded other isOther).2 (Nat.le_of_lt above)

/-- In a safe read every level has a candidate that passes: the ones before it
cannot keep the search from reaching it. -/
theorem exists_passes_of_always
    (sound : ∀ level cache, accepted level = some cache -> Passes table level cache)
    (always : Always (UsesAccepted accepted) (deviceReadWith configuration table.measure bound leftover)
      fun _ => True) {level : Nat} (isLevel : IsLevel level) : ∃ cache, Passes table level cache := by
  unfold deviceReadWith at always
  rw [always_bind] at always
  rcases always.of_possibly (possibly_forLevels fun _ => possibly_evaluateCacheExistence) with ⟨_, always, _⟩
  rw [always_bind] at always
  rcases always.of_possibly (possibly_forLevels fun _ => possibly_evaluateCacheHierarchy) with ⟨_, always, _⟩
  rw [always_bind] at always
  have reaches := always.forRange_body (fun index (records : (Nat -> TranslationCache) × List ReportLine) =>
      ∀ later, index ≤ later -> records.1 later = defaultTranslationCache) (fun _ _ => rfl) (by
    rintro index ⟨translationCaches, output⟩ _ _ unset
    dsimp only
    rw [possibly_bind]
    apply (possibly_evaluateCacheStructure (unset index (Nat.le_refl _))).mono
    rintro ⟨updated, lines⟩ others
    refine ⟨_, rfl, fun later above => ?_⟩
    exact (others later (Nat.ne_of_gt above)).trans (unset later (Nat.le_of_lt above)))
  rcases reaches level isLevel.1 (Nat.lt_succ_of_le isLevel.2) with ⟨⟨translationCaches, output⟩, unset, reached⟩
  dsimp only at reached
  rw [always_bind] at reached
  exact exists_passes (unset level (Nat.le_refl _)) (sound level) reached

/-- A read only uses accepted structures if and only if every level has a
candidate that passes.  In one direction the search ends with such a candidate,
which is then recorded and used; in the other the alignment check, which every
read reaches, has no accepted structure to use on a level without one. -/
theorem deviceRead_usesDetermined_iff (configuration : Configuration) (table : MissTable) (bound : Nat)
    (leftover : Nat -> HashPointer × Nat) :
    (∃ accepted, UsesDetermined configuration table bound leftover accepted) ↔
      ∀ level, IsLevel level -> ∃ cache, Passes table level cache := by
  constructor
  · rintro ⟨accepted, promise⟩ level isLevel
    exact exists_passes_of_always promise.passes (always_iff_issued.mp promise.uses) isLevel
  · intro determined
    have found : ∀ level, ∃ state, IsLevel level ->
        searchStructure table.measure level (undetermined (leftover level)) = .ret state ∧
          Passes table level state.structure := by
      intro level
      rcases searchStructure_outcome table level (leftover level) with ⟨state, search, passes | ⟨_, nothing⟩⟩
      · exact ⟨state, fun _ => ⟨search, passes⟩⟩
      · refine ⟨state, fun isLevel => ?_⟩
        rcases determined level isLevel with ⟨cache, passes⟩
        exact absurd passes (nothing cache)
    choose state found using found
    have accepts : ∀ level cache,
        (if IsLevel level then some (state level).structure else none) = some cache ->
          IsLevel level ∧ (state level).structure = cache := by
      intro level cache known
      by_cases isLevel : IsLevel level
      · rw [if_pos isLevel] at known
        exact ⟨isLevel, Option.some.inj known⟩
      · rw [if_neg isLevel] at known
        cases known
    refine ⟨fun level => if IsLevel level then some (state level).structure else none, ?_, ?_, ?_, ?_⟩
    · intro level cache known
      rcases accepts level cache known with ⟨isLevel, rfl⟩
      exact (found level isLevel).2
    · intro level cache known
      rcases accepts level cache known with ⟨isLevel, ended⟩
      exact ⟨state level, (found level isLevel).1, ended⟩
    · exact always_iff_issued.mpr (always_deviceRead (fun level isLevel => (found level isLevel).1)
        (fun level isLevel => (found level isLevel).2) fun level isLevel => if_pos isLevel)
    · intro level isLevel unknown
      rw [if_pos isLevel] at unknown
      cases unknown

/-- If no candidate ever misses, no choice of accepted structures covers the read:
the alignment check of level 2 is already made with a structure that does not pass. -/
theorem deviceRead_uses_undetermined :
    ¬ ∃ accepted, UsesDetermined defaultConfiguration (fun _ _ _ _ => 0) 512 (fun _ => (.null, 0)) accepted := by
  rintro ⟨accepted, promise⟩
  rcases exists_passes_of_always promise.passes (always_iff_issued.mp promise.uses)
    (by decide : IsLevel 2) with ⟨cache, passes⟩
  rcases passes.hash with ⟨hash, _, _, reaches⟩
  exact absurd reaches (by decide)

end Read

end Talbot
