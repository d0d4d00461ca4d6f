import Talbot.CrossHyperthread.Report
import Talbot.Machine.Evaluations
import Talbot.Machine.LongestRun

namespace Talbot

/-!
Which buffers hold the report of `device_read`.

No append looks at the space that is left, so the size of the longest report
decides.  A structure that stays unknown prints more than one that was found, but
then the read does not return from the replacement policy, whose rows are far
longer.
-/

open Foundations Program

/-- The output and its NUL take no more than `count` bytes. -/
def OutputFits (count : Nat) (state : ReadState) (_ : Unit) : Prop :=
  reportSize state.2 + 1 ≤ count

/-- The output and its NUL fit whatever the machine answers and wherever the read
stops.  The stages are those of `device_read`, in their order, from an empty output. -/
def ReportFits (configuration : Configuration) (bound : Nat) (leftover : Nat -> HashPointer × Nat) (count : Nat) :
    Prop :=
  Throughout (answers fun _ => True) (OutputFits count)
    (firstStages configuration bound leftover ++ laterStages configuration bound) (initialTranslationCaches, []) ()

/-! ## No report is longer -/

section Bound

variable {fresh : (Nat -> Nat) -> Prop} {configuration : Configuration} {bound count : Nat}
  {leftover : Nat -> HashPointer × Nat}

theorem throughout_appendLines {evaluate : (Nat -> TranslationCache) -> Nat -> Kernel (List ReportLine)}
    {levels cost base : Nat} {translationCaches : Nat -> TranslationCache} {lines : List ReportLine}
    {rest : List (ReadState -> Kernel ReadState)} (few : levels ≤ 3)
    (costs : ∀ level, level ≤ 4 -> Measures fresh (evaluate translationCaches level) fun lines =>
      reportSize lines ≤ cost)
    (before : reportSize lines ≤ base) (room : base + levels * cost + 1 ≤ count)
    (later : ∀ lines, reportSize lines ≤ base + levels * cost ->
      Throughout (answers fresh) (OutputFits count) rest (translationCaches, lines) ()) :
    Throughout (answers fresh) (OutputFits count) ((List.range' 2 levels).map (appendLines evaluate) ++ rest)
      (translationCaches, lines) () := by
  apply Throughout.adding (fun state => reportSize state.2) (fun state => state.1 = translationCaches) rfl before
  · rintro stage member ⟨_, lines⟩ _ rfl
    rcases mem_levels member with ⟨level, _, below, rfl⟩
    refine measures_bind.mpr ((costs level (by omega)).mono fun added _ small => ⟨rfl, ?_⟩)
    rw [reportSize_append]
    exact Nat.add_le_add_left small _
  · rintro ⟨_, lines⟩ _ rfl small
    rw [List.length_map, List.length_range'] at small
    exact Nat.le_trans (Nat.succ_le_succ small) room
  · rintro ⟨_, lines⟩ _ rfl small
    rw [List.length_map, List.length_range'] at small
    exact later lines small

theorem throughout_testHugePages {levels base : Nat} {translationCaches : Nat -> TranslationCache}
    {lines : List ReportLine} {rest : List (ReadState -> Kernel ReadState)} (room : base + 1 ≤ count)
    (before : reportSize lines ≤ base)
    (later : Throughout (answers fresh) (OutputFits count) rest (translationCaches, lines) ()) :
    Throughout (answers fresh) (OutputFits count) ((List.range' 2 levels).map (testHugePages bound) ++ rest)
      (translationCaches, lines) () := by
  apply Throughout.through (fun _ state _ => state = (translationCaches, lines)) rfl
  · rintro index stage located _ _ rfl
    rcases level_at located with ⟨_, rfl⟩
    exact ⟨Nat.le_trans (Nat.succ_le_succ before) room, measures_then fun _ => rfl⟩
  · rintro _ _ rfl
    exact later

/-- After the structures of `index` levels.  A level without a structure prints a
longer line than one with, but then it has no rows later on, so the sizes of both
cases are kept apart. -/
structure Recording (base index : Nat) (state : ReadState) : Prop where
  recorded : ∀ level, state.1 level = defaultTranslationCache ∨ (state.1 level).ways ≤ 32
  pristine : ∀ level, 2 + index ≤ level -> state.1 level = defaultTranslationCache
  size_le : reportSize state.2 ≤ base + index * 205
  found_size_le : (∀ level, 2 ≤ level -> level < 2 + index -> state.1 level ≠ defaultTranslationCache) ->
    reportSize state.2 ≤ base + index * 163

theorem Recording.step {base index : Nat} {state : ReadState} (recording : Recording base index state)
    (below : 2 + index ≤ 4) :
    Measures fresh (appendStructure configuration bound leftover (2 + index) state) (Recording base (index + 1)) := by
  have pristine := recording.pristine (2 + index) (Nat.le_refl _)
  refine measures_bind.mpr ((measures_evaluateCacheStructure below pristine).mono ?_)
  rintro ⟨translationCaches, lines⟩ _ (⟨setBits, ways, hash, small, rfl, few⟩ | ⟨rfl, few⟩)
  · constructor
    · intro level
      by_cases same : level = 2 + index
      · subst same
        refine Or.inr ?_
        dsimp only
        rwa [Function.update_self]
      · dsimp only
        rw [Function.update_of_ne same]
        exact recording.recorded level
    · intro level above
      dsimp only
      rw [Function.update_of_ne (by omega)]
      exact recording.pristine level (by omega)
    · have before := recording.size_le
      dsimp only at few ⊢
      rw [reportSize_append]
      omega
    · intro found
      have before := recording.found_size_le fun level lower upper => by
        have known := found level lower (by omega)
        dsimp only at known
        rwa [Function.update_of_ne (by omega)] at known
      dsimp only at few ⊢
      rw [reportSize_append]
      omega
  · constructor
    · exact recording.recorded
    · exact fun level above => recording.pristine level (by omega)
    · have before := recording.size_le
      dsimp only at few ⊢
      rw [reportSize_append]
      omega
    · exact fun found => absurd pristine (found (2 + index) (by omega) (by omega))

/-- After the rows of `index` levels, all of which have a record. -/
structure Replacing (translationCaches : Nat -> TranslationCache) (base found index : Nat) (state : ReadState) :
    Prop where
  caches : state.1 = translationCaches
  passed : ∀ level, 2 ≤ level -> level < 2 + index -> translationCaches level ≠ defaultTranslationCache
  size_le : reportSize state.2 ≤ base + index * 3831
  found_size_le : (∀ level, 2 ≤ level -> level < 5 -> translationCaches level ≠ defaultTranslationCache) ->
    reportSize state.2 ≤ found + index * 3831

theorem Replacing.step {translationCaches : Nat -> TranslationCache} {base found index : Nat} {state : ReadState}
    (recorded : ∀ level, translationCaches level = defaultTranslationCache ∨ (translationCaches level).ways ≤ 32)
    (replacing : Replacing translationCaches base found index state) (below : 2 + index ≤ 4) :
    Measures fresh (appendLines (evaluateReplacementPolicy configuration bound) (2 + index) state)
      (Replacing translationCaches base found (index + 1)) := by
  rcases state with ⟨_, lines⟩
  rcases replacing with ⟨rfl, passed, size_le, found_size_le⟩
  refine measures_bind.mpr ((measures_evaluateReplacementPolicy below (recorded (2 + index))).mono ?_)
  rintro rows _ ⟨known, few⟩
  refine ⟨rfl, ?_, ?_, ?_⟩
  · intro level lower upper
    rcases Nat.lt_succ_iff_lt_or_eq.mp upper with before | rfl
    · exact passed level lower before
    · exact known
  · dsimp only at size_le ⊢
    rw [reportSize_append]
    omega
  · intro all
    have before := found_size_le all
    dsimp only at before ⊢
    rw [reportSize_append]
    omega

/-- What is left once the rows are printed. -/
theorem throughout_afterRows {translationCaches : Nat -> TranslationCache} {lines : List ReportLine}
    (enough : 13513 ≤ count) (rows : reportSize lines ≤ 12555) :
    Throughout (answers fresh) (OutputFits count)
      ((List.range' 2 2).map (appendLines (evaluateNesting configuration bound)) ++
        ((List.range' 2 2).map (appendLines fun _ => evaluateHugeTlb configuration bound) ++
          ((List.range' 2 2).map (testHugePages bound) ++
            ((List.range' 2 3).map (appendLines fun _ => evaluateSupportedPcids configuration) ++
              ((List.range' 2 3).map (appendLines fun _ => evaluatePcidRespect configuration bound) ++ [])))))
      (translationCaches, lines) () := by
  refine throughout_appendLines (by decide) (fun _ below => measures_evaluateNesting below _) rows
    (by omega) fun lines nesting => ?_
  refine throughout_appendLines (by decide) (fun _ => measures_evaluateHugeTlb) nesting
    (by omega) fun lines hugeTlb => ?_
  refine throughout_testHugePages (by omega) hugeTlb ?_
  refine throughout_appendLines (Nat.le_refl 3) (fun _ => measures_evaluateSupportedPcids) hugeTlb
    (by omega) fun lines supported => ?_
  refine throughout_appendLines (Nat.le_refl 3) (fun _ => measures_evaluatePcidRespect) supported
    (by omega) fun lines respected => ?_
  exact Nat.le_trans (Nat.succ_le_succ respected) enough

/-- The longest report has 13512 characters. -/
theorem reportFits_of_le (enough : 13513 ≤ count) : ReportFits configuration bound leftover count := by
  unfold ReportFits firstStages laterStages
  rw [← List.append_nil (_ ++ (List.range' 2 3).map (appendLines fun _ => evaluatePcidRespect configuration bound))]
  simp only [List.append_assoc]
  refine throughout_appendLines (Nat.le_refl 3) (fun _ => measures_evaluateCacheExistence) (Nat.le_refl 0)
    (by omega) fun lines existence => ?_
  refine throughout_appendLines (Nat.le_refl 3) (fun _ => measures_evaluateCacheHierarchy) existence
    (by omega) fun lines hierarchy => ?_
  apply Throughout.through (fun index state _ => Recording 573 index state)
  · exact ⟨fun _ => Or.inl rfl, fun _ _ => rfl, by omega, fun _ => by omega⟩
  · intro index stage located state _ recording
    rcases level_at located with ⟨below, rfl⟩
    have size_le := recording.size_le
    exact ⟨Nat.le_trans (Nat.succ_le_succ size_le) (by omega), recording.step (by omega)⟩
  rintro ⟨translationCaches, lines⟩ _ ⟨recorded, _, structures, found⟩
  rw [List.length_map, List.length_range'] at structures found
  apply Throughout.through (fun index state _ => Replacing translationCaches 1188 1062 index state)
  · exact ⟨rfl, fun level lower upper => absurd lower (Nat.not_le.mpr upper), by omega, fun all => by
      have structures := found all
      omega⟩
  · intro index stage located state _ replacing
    rcases level_at located with ⟨below, rfl⟩
    have size_le := replacing.size_le
    exact ⟨Nat.le_trans (Nat.succ_le_succ size_le) (by omega), replacing.step recorded (by omega)⟩
  rintro ⟨_, lines⟩ _ ⟨rfl, passed, _, replaced⟩
  rw [List.length_map, List.length_range'] at passed replaced
  have rows := replaced passed
  exact throughout_afterRows enough (by omega)

end Bound

/-! ## Some report is that long -/

section Longest

variable {fresh : (Nat -> Nat) -> Prop} {configuration : Configuration} {bound count : Nat}
  {leftover : Nat -> HashPointer × Nat}

theorem reaches_appendLines {evaluate : (Nat -> TranslationCache) -> Nat -> Kernel (List ReportLine)}
    {levels cost base : Nat} {translationCaches : Nat -> TranslationCache} {lines : List ReportLine}
    {rest : List (ReadState -> Kernel ReadState)} {post : ReadState -> Prop}
    (costs : ∀ level, 2 ≤ level -> level < 2 + levels ->
      Attains fresh (evaluate translationCaches level) fun lines => reportSize lines = cost)
    (before : reportSize lines = base)
    (later : ∀ lines, reportSize lines = base + levels * cost ->
      Attains fresh (runStages rest (translationCaches, lines)) post) :
    Attains fresh (runStages ((List.range' 2 levels).map (appendLines evaluate) ++ rest) (translationCaches, lines))
      post := by
  apply reaches_adding (fun state => reportSize state.2) (fun state => state.1 = translationCaches) rfl before
  · rintro stage member ⟨_, lines⟩ _ rfl
    rcases mem_levels member with ⟨level, lower, upper, rfl⟩
    refine attains_bind.mpr ((costs level lower upper).mono fun added _ size_eq => ⟨rfl, ?_⟩)
    rw [reportSize_append, size_eq]
  · rintro ⟨_, lines⟩ _ rfl size_eq
    rw [List.length_map, List.length_range'] at size_eq
    exact later lines size_eq

/-- After the structures of `index` levels, with the longest lines for each. -/
structure LargestRecorded (index : Nat) (state : ReadState) : Prop where
  pristine : ∀ level, 2 + index ≤ level -> state.1 level = defaultTranslationCache
  recorded : ∀ level, 2 ≤ level -> level < 2 + index -> state.1 level = largestCache
  size_eq : reportSize state.2 = 573 + index * 163

variable (window : ∀ level, IsLevel level -> Machine.UsableWindow configuration level) (positive : 1 ≤ bound)

include window positive

theorem LargestRecorded.step {index : Nat} {state : ReadState} (largest : LargestRecorded index state)
    (below : 2 + index ≤ 4) :
    Attains fresh (appendStructure configuration bound leftover (2 + index) state) (LargestRecorded (index + 1)) := by
  have usable := window (2 + index) ⟨Nat.le_add_right _ _, below⟩
  refine attains_bind.mpr ((attains_evaluateCacheStructure usable positive
    (largest.pristine (2 + index) (Nat.le_refl _))).mono ?_)
  rintro ⟨_, lines⟩ _ ⟨rfl, added⟩
  refine ⟨?_, ?_, ?_⟩
  · intro level above
    dsimp only
    rw [Function.update_of_ne (by omega)]
    exact largest.pristine level (by omega)
  · intro level lower upper
    dsimp only
    by_cases same : level = 2 + index
    · rw [same, Function.update_self]
    · rw [Function.update_of_ne same]
      exact largest.recorded level lower (by omega)
  · dsimp only at added ⊢
    rw [reportSize_append, largest.size_eq, added, Nat.succ_mul, Nat.add_assoc]

variable (zero : fresh fun _ => 0)

include zero

/-- The read can return with a report of 13512 characters. -/
theorem attains_longestReport :
    Attains fresh (runStages (firstStages configuration bound leftover ++ laterStages configuration bound)
      (initialTranslationCaches, [])) fun state => reportSize state.2 = 13512 := by
  unfold firstStages laterStages
  rw [← List.append_nil (_ ++ (List.range' 2 3).map (appendLines fun _ => evaluatePcidRespect configuration bound))]
  simp only [List.append_assoc]
  refine reaches_appendLines (fun _ _ upper => attains_evaluateCacheExistence (Nat.le_of_lt_succ upper)) rfl
    fun lines existence => ?_
  refine reaches_appendLines (fun _ _ upper => attains_evaluateCacheHierarchy (Nat.le_of_lt_succ upper) positive)
    existence fun lines hierarchy => ?_
  apply reaches_runStages (fun index state _ => LargestRecorded index state)
  · exact ⟨fun _ _ => rfl, fun level lower upper => absurd lower (Nat.not_le.mpr upper), hierarchy⟩
  · intro index stage located state _ largest
    rcases level_at located with ⟨below, rfl⟩
    exact largest.step window positive (by omega)
  rintro ⟨translationCaches, lines⟩ _ ⟨_, recorded, structures⟩
  rw [List.length_map, List.length_range'] at recorded structures
  refine reaches_appendLines (fun level lower upper => attains_evaluateReplacementPolicy positive zero
    (Nat.le_of_lt_succ upper) (recorded level lower upper)) structures fun lines rows => ?_
  refine reaches_appendLines (fun level lower upper => attains_evaluateNesting positive (Nat.le_of_lt_succ upper)
    (recorded (level + 1) (Nat.le_succ_of_le lower) (Nat.succ_lt_succ upper))) rows fun lines nesting => ?_
  refine reaches_appendLines (fun level lower upper => attains_evaluateHugeTlb (by omega) positive (by omega))
    nesting fun lines hugeTlb => ?_
  apply reaches_runStages (fun _ state _ => state = (translationCaches, lines)) rfl
  · rintro index stage located _ _ rfl
    rcases level_at located with ⟨_, rfl⟩
    exact attains_then (attains_testHugePageEviction positive) fun _ => rfl
  rintro _ _ rfl
  refine reaches_appendLines (fun _ _ upper => attains_evaluateSupportedPcids (Nat.le_of_lt_succ upper)) hugeTlb
    fun lines supported => ?_
  refine reaches_appendLines (fun _ _ upper => attains_evaluatePcidRespect (Nat.le_of_lt_succ upper)) supported
    fun lines respected => ?_
  exact respected

omit zero in
theorem reportFits_iff_le : ReportFits configuration bound leftover count ↔ 13513 ≤ count := by
  refine ⟨fun fits => ?_, reportFits_of_le⟩
  rcases fits.atEnd.of_reaches (attains_longestReport window positive trivial) with ⟨state, _, enough, size_eq⟩
  rwa [OutputFits, size_eq] at enough

end Longest

/-- For all answers of the machine, the output of Talbot fits its buffer exactly if
the buffer has room for the longest report, and so does that of the hyperthread
experiment.  The longest reports are attained, so neither bound can be lowered; each
has one byte more than the report, for the terminating zero. -/
theorem reportFits_iff (leftover : Nat -> HashPointer × Nat) (firstCall count : Nat) :
    ((∀ bound, ReportFits defaultConfiguration bound leftover count) ↔ 13513 ≤ count) ∧
      (CrossHyperthread.ReportFits firstCall count ↔ 298 ≤ count) := by
  refine ⟨⟨fun fits => ?_, fun enough bound => reportFits_of_le enough⟩, CrossHyperthread.reportFits_iff_le⟩
  exact (reportFits_iff_le (fun _ => Machine.usableWindow_default) (Nat.le_refl 1)).mp (fits 1)

/-- A user can ask for 512 bytes, or for 128. -/
theorem reportFits_exceeds :
    ¬ (∀ bound, ReportFits defaultConfiguration bound (fun _ => (.null, 0)) 512) ∧
      ¬ CrossHyperthread.ReportFits 0 128 := by
  constructor
  · intro fits
    have enough := (reportFits_iff_le (fun _ => Machine.usableWindow_default) (Nat.le_refl 1)).mp (fits 1)
    exact absurd enough (by decide)
  · intro fits
    exact absurd (CrossHyperthread.reportFits_iff_le.mp fits) (by decide)

end Talbot
