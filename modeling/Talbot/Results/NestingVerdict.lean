import Talbot.Machine.NestedLevels
import Talbot.Machine.Probes

namespace Talbot

/-!
The verdict of the nesting experiment.

The chain replaces the upper entry of the target, so in a nested hierarchy the
target is gone as well.  Otherwise the target should still be there, but the
links of the chain use the lower cache too: all of them are first entries of
their upper entry, and if the target shares their lower set they can fill it.
-/

open Foundations Program

namespace Machine

section Iteration

variable {configuration : Configuration} {geometry : NestingGeometry} {level entry : Nat}

/-- The chain above the target's upper entry. -/
theorem upperChain_eq (upperLevel : IsLevel (level + 1))
    (above : baseEntry (level + 1) ≤ entry / 512)
    (fits : pageAddress (level + 1) (entry / 512) 0 < 2 ^ 64)
    (inside : insideWindow configuration (level + 1) (pageAddress (level + 1)
      (geometry.upper.hash.entry geometry.upper.setBits (entry / 512) geometry.upper.ways) 0) = true) :
    hashChain configuration geometry.upper.hash (pageAddress (level + 1) (entry / 512) 0)
        geometry.upper.ways geometry.upper.setBits (level + 1) =
      pageAddress (level + 1) (entry / 512) 0 ::
        (geometry.upperLinks entry).map fun upper => pageAddress (level + 1) upper 0 := by
  have increasing := geometry.upper.hash.entry_strictMono geometry.upper.setBits (entry / 512)
  rw [insideWindow_iff upperLevel] at inside
  rw [hashChain_eq upperLevel _ _ rfl fits, chainEntries_of_inside, List.range_succ_eq_map, List.map_cons,
    List.map_cons, HashFunction.entry_zero, NestingGeometry.upperLinks, List.map_map, List.map_map,
    List.map_map]
  · rfl
  · intro offset positive short
    have higher := increasing positive
    have bounded := increasing.monotone short
    rw [HashFunction.entry_zero] at higher
    exact (insideWindow_iff upperLevel configuration _).mpr ⟨by omega, by omega⟩

/-- The addresses of the links, as lower entries. -/
theorem entries_upperLinks (isLevel : IsLevel level) :
    ((geometry.upperLinks entry).map fun upper => pageAddress (level + 1) upper 0).map (entryOf level) =
      geometry.lowerLinks entry := by
  rw [List.map_map, NestingGeometry.lowerLinks]
  apply List.map_congr_left
  intro upper _
  rw [Function.comp_apply, NestingGeometry.pageAddress_succ isLevel, entryOf_pageAddress isLevel (by decide)]

theorem links_away (isLevel : IsLevel level) {node : Nat}
    (known : node ∈ (geometry.upperLinks entry).map fun upper => pageAddress (level + 1) upper 0) :
    entry ≠ entryOf level node := by
  intro same
  have link : entryOf level node ∈ geometry.lowerLinks entry := by
    rw [← entries_upperLinks isLevel]
    exact List.mem_map_of_mem known
  rw [← same] at link
  exact (List.nodup_cons.mp (geometry.lowerLinks_nodup entry)).1 link

/-- The chain below the target does not come back to its entry. -/
theorem prefix_not_link (isLevel : IsLevel level) : pageAddress level entry 511 ∉
    (geometry.upperLinks entry).map fun upper => pageAddress (level + 1) upper 0 := fun known =>
  links_away isLevel known (entryOf_pageAddress isLevel (by decide)).symm

/-- Writing the target's page keeps the rest of the chain. -/
theorem path_after_write (isLevel : IsLevel level) {memory after : Nat -> Nat} {start stop data : Nat}
    (written : after = Function.update memory (pageAddress level entry 0) data)
    (path : Path memory start ((geometry.upperLinks entry).map fun upper => pageAddress (level + 1) upper 0) stop) :
    Path after start ((geometry.upperLinks entry).map fun upper => pageAddress (level + 1) upper 0) stop := by
  apply path.congr
  intro node known
  have elsewhere : node ≠ pageAddress level entry 0 := by
    intro same
    apply links_away isLevel known
    rw [same, entryOf_pageAddress isLevel (by decide)]
  rw [written, Function.update_of_ne elsewhere]

/-- What the cache holds once the target and then its chain were accessed. -/
theorem cached_after_links (isLevel : IsLevel level) {machine : Machine (geometry.model level)} :
    ((geometry.upperLinks entry).map fun upper => pageAddress (level + 1) upper 0).foldl
        (geometry.model level).access (machine.flush.touch (pageAddress level entry 0)).cached =
      (entry :: geometry.lowerLinks entry).foldl geometry.hierarchy.access CacheHierarchy.empty := by
  have target : (machine.flush.touch (pageAddress level entry 0)).cached =
      geometry.hierarchy.access CacheHierarchy.empty entry :=
    congrArg (geometry.hierarchy.access _) (entryOf_pageAddress isLevel (by decide : 0 < 512))
  conv_rhs => rw [List.foldl_cons, ← entries_upperLinks isLevel, List.foldl_map]
  rw [target]

/-- One iteration, on a drawn target whose chain stays inside the window.  The chain
has as many links as the upper cache has ways, all in the set of the target, so the
upper entry of the target is always evicted; what becomes of the lower one is the
question. -/
theorem returns_nestingIteration (isLevel : IsLevel level) (upperLevel : IsLevel (level + 1))
    (positive : 0 < geometry.upper.ways) {machine : Machine (geometry.model level)} (ready : Ready machine)
    (drawn : entry = drawnEntry configuration level (machine.randoms 0))
    (fits : pageAddress level entry 0 < 2 ^ 64)
    (inside : insideWindow configuration (level + 1) (pageAddress (level + 1)
      (geometry.upper.hash.entry geometry.upper.setBits (entry / 512) geometry.upper.ways) 0) = true)
    {bound misses : Nat} (enough : geometry.upper.ways ≤ bound) :
    Returns (handle level) (nestingIteration configuration bound level geometry.upper.record misses) machine
      fun result final => Ready final ∧ final.randoms = (fun n => machine.randoms (n + 1)) ∧
        result = if geometry.nested = true ∨ geometry.Crowded entry then misses + 1 else misses := by
  have target : baseAddress + ((machine.randoms 0 % drawableEntries configuration level) <<<
      pageTableIndexShift level) = pageAddress level entry 0 := by
    rw [baseAddress_add isLevel, drawn, drawnEntry]
  have upperFits : pageAddress (level + 1) (entry / 512) 0 < 2 ^ 64 := by
    rw [← isolated_eq isLevel upperLevel fits]
    exact Nat.lt_of_le_of_lt Nat.and_le_left fits
  have above : baseEntry (level + 1) ≤ entry / 512 := by
    have base := baseEntry_succ isLevel upperLevel
    rw [drawnEntry] at drawn
    omega
  have chain := upperChain_eq upperLevel above upperFits inside
  have stop : prefixAligned (pageAddress level entry 0) level = pageAddress level entry 511 :=
    prefixAligned_pageAddress rfl
  unfold nestingIteration
  simp only [returns_bind, returns_drawAddress, target, isolated_eq isLevel upperLevel fits, stop,
    returns_walkPair]
  have drawnReady : Ready { machine with randoms := fun n => machine.randoms (n + 1) } :=
    ⟨ready.idle, ready.clean⟩
  have higher : signal < pageAddress level entry 511 := by
    rw [← stop]
    exact signal_lt_prefixAligned isLevel _
  apply (returns_buildHashChain configuration geometry.upper.hash upperLevel geometry.upper.ways
    geometry.upper.setBits drawnReady rfl upperFits higher).mono
  rintro _ built ⟨builtReady, randoms, path⟩
  rw [chain] at path
  rcases path with ⟨_, path⟩
  have first : built.content level (pageAddress (level + 1) (entry / 512) 0) =
      built.memory (pageAddress (level + 1) (entry / 512) 0) :=
    content_of_idle builtReady.idle
  rw [returns_readData, first]
  have opened : (built.touch (pageAddress (level + 1) (entry / 512) 0)).exchanged = none := builtReady.idle
  apply (returns_writeData_idle opened).mono
  intro _ linked written
  have linkedReady : Ready linked := by
    refine ⟨written.idle, ?_⟩
    rw [written.memory_eq, written.complementary_eq]
    exact keptByWrites_clean _ _ _ _ (builtReady.clean.1 _) builtReady.clean
  rw [returns_flushMmuCaches]
  have entered : linked.flush.content level (pageAddress level entry 0) =
      built.memory (pageAddress (level + 1) (entry / 512) 0) := by
    rw [content_of_idle linkedReady.flush.idle]
    exact (congrFun written.memory_eq _).trans (Function.update_self _ _ _)
  rw [returns_readData, entered]
  have followed : Path (linked.flush.touch (pageAddress level entry 0)).memory
      (built.memory (pageAddress (level + 1) (entry / 512) 0))
      ((geometry.upperLinks entry).map fun upper => pageAddress (level + 1) upper 0)
      (pageAddress level entry 511) :=
    path_after_write isLevel written.memory_eq path
  have away : ∀ node, node ∈ (geometry.upperLinks entry).map (fun upper => pageAddress (level + 1) upper 0) ->
      entryOf level (pageAddress level entry 0) ≠ entryOf level node := by
    intro node known
    rw [entryOf_pageAddress isLevel (by decide)]
    exact links_away isLevel known
  have touchedReady : Ready (linked.flush.touch (pageAddress level entry 0)) :=
    ⟨linkedReady.idle, linkedReady.clean⟩
  apply returns_observeAfter .readData touchedReady followed (prefix_not_link isLevel) away
    (by rw [List.length_map, NestingGeometry.upperLinks, List.length_map, List.length_range]; exact enough)
    (by rw [entryOf_pageAddress isLevel (by decide), entryOf_pageAddress isLevel (by decide)])
  intro value during seen swapped
  apply returns_endProbe touchedReady swapped
  intro final after same
  refine (returns_ret _).mpr ⟨after, ?_, ?_⟩
  · exact (same.trans written.randoms_eq).trans randoms
  · refine if_congr (seen.trans ?_) rfl rfl
    rw [decide_eq_false_iff_not, cached_after_links isLevel, entryOf_pageAddress isLevel (by decide)]
    exact NestingGeometry.lower_evicted_iff positive entry

end Iteration

/-! ## The whole experiment -/

section Experiment

variable {configuration : Configuration} {geometry : NestingGeometry} {level : Nat}

/-- The chain above the drawn target stays inside the base window.  The target is
the first page of its entry of the upper level, as in `test_nesting`, and the last
link of the chain is the one that has to fit. -/
def UpperChainFits (configuration : Configuration) (upper : CacheGeometry) (level random : Nat) : Prop :=
  insideWindow configuration (level + 1) (upper.hash.apply (isolatedUpperLevelTarget level
    (baseAddress + ((random % drawableEntries configuration level) <<< pageTableIndexShift level)))
    upper.ways upper.setBits (level + 1)) = true

theorem UpperChainFits.inside {upper : CacheGeometry} {random : Nat} (isLevel : IsLevel level)
    (upperLevel : IsLevel (level + 1)) (fits : pageAddress level (drawnEntry configuration level random) 0 < 2 ^ 64)
    (chainFits : UpperChainFits configuration upper level random) :
    insideWindow configuration (level + 1) (pageAddress (level + 1) (upper.hash.entry upper.setBits
      (drawnEntry configuration level random / 512) upper.ways) 0) = true := by
  have isolated := isolated_eq isLevel upperLevel fits
  have upperFits : pageAddress (level + 1) (drawnEntry configuration level random / 512) 0 < 2 ^ 64 := by
    rw [← isolated]
    exact Nat.lt_of_le_of_lt Nat.and_le_left fits
  rw [drawnEntry] at isolated upperFits
  rw [UpperChainFits, baseAddress_add isLevel, isolated,
    HashFunction.apply_aligned _ _ _ upperLevel upperFits] at chainFits
  exact chainFits

/-- How many of the drawn targets count as a miss. -/
def nestingMisses (configuration : Configuration) (geometry : NestingGeometry) (level count : Nat)
    (randoms : Nat -> Nat) : Nat :=
  (List.range count).countP fun i => decide (geometry.nested = true ∨
    geometry.Crowded (drawnEntry configuration level (randoms i)))

theorem returns_testNesting (window : UsableWindow configuration level) (lowest : level ≤ 3)
    (positive : 0 < geometry.upper.ways) {bound : Nat} (enough : geometry.upper.ways ≤ bound)
    (translationCaches : Nat -> TranslationCache)
    (recorded : translationCaches (level + 1) = geometry.upper.record)
    {machine : Machine (geometry.model level)} (ready : Ready machine)
    (fits : ∀ i, i < iterations -> UpperChainFits configuration geometry.upper level (machine.randoms i)) :
    Returns (handle level) (testNesting configuration bound level translationCaches) machine
      fun result _ => result =
        some (nestingMisses configuration geometry level iterations machine.randoms) := by
  have isLevel := window.isLevel
  have upperLevel : IsLevel (level + 1) := ⟨Nat.le_succ_of_le isLevel.1, Nat.succ_le_succ lowest⟩
  unfold testNesting
  rw [recorded, if_neg (Nat.not_lt.mpr lowest), if_neg (nofun : geometry.upper.record.hashFunction ≠ .null)]
  rw [returns_bind, returns_enter, returns_bind]
  apply Returns.mono (returns_forRange (fun count misses (state : Machine (geometry.model level)) =>
    Ready state ∧ state.randoms = (fun n => machine.randoms (n + count)) ∧
      misses = nestingMisses configuration geometry level count machine.randoms)
    0 iterations 0 machine ⟨ready, rfl, rfl⟩ _)
  · rintro misses final ⟨_, _, counted⟩
    rw [counted, Nat.zero_add]
    exact (returns_ret _).mpr rfl
  · rintro count misses state _ before ⟨ready, randoms, rfl⟩
    have next : state.randoms 0 = machine.randoms count :=
      (congrFun randoms 0).trans (congrArg machine.randoms (Nat.zero_add count))
    have drawn := drawnEntry_fits window (state.randoms 0)
    rw [Nat.zero_add] at before
    have chainFits := fits count before
    rw [← next] at chainFits
    rw [returns_bind]
    apply (returns_nestingIteration isLevel upperLevel positive ready rfl drawn
      (chainFits.inside isLevel upperLevel drawn) enough).mono
    rintro _ final ⟨after, later, rfl⟩
    refine (returns_ret _).mpr ⟨_, rfl, after, ?_, ?_⟩
    · rw [later, randoms]
      exact funext fun n => congrArg machine.randoms (by omega)
    · rw [nestingMisses, nestingMisses, List.range_succ, List.countP_append, List.countP_singleton,
        ← next]
      by_cases miss : geometry.nested = true ∨ geometry.Crowded (drawnEntry configuration level (state.randoms 0))
      · rw [if_pos miss, if_pos (decide_eq_true miss)]
      · rw [if_neg miss, if_neg (fun holds => miss (of_decide_eq_true holds)), Nat.add_zero]

/-- The line that the evaluation prints. -/
theorem returns_evaluateNesting (window : UsableWindow configuration level) (lowest : level ≤ 3)
    (positive : 0 < geometry.upper.ways) {bound : Nat} (enough : geometry.upper.ways ≤ bound)
    (translationCaches : Nat -> TranslationCache)
    (recorded : translationCaches (level + 1) = geometry.upper.record)
    {machine : Machine (geometry.model level)} (ready : Ready machine)
    (fits : ∀ i, i < iterations -> UpperChainFits configuration geometry.upper level (machine.randoms i)) :
    Returns (handle level) (evaluateNesting configuration bound translationCaches level) machine
      fun report _ => report =
        [if reachesThreshold (nestingMisses configuration geometry level iterations machine.randoms) iterations
          then .nested level (nestingMisses configuration geometry level iterations machine.randoms)
          else .notNested level (nestingMisses configuration geometry level iterations machine.randoms)] := by
  unfold evaluateNesting
  rw [returns_bind]
  apply (returns_testNesting window lowest positive enough translationCaches recorded ready fits).mono
  rintro _ final rfl
  by_cases many : reachesThreshold (nestingMisses configuration geometry level iterations machine.randoms)
      iterations = true
  · simp only [many, if_true]
    exact (returns_ret _).mpr rfl
  · simp only [many]
    exact (returns_ret _).mpr rfl

end Experiment

end Machine

/-! ## When the verdict is right -/

section Verdict

open Machine

variable {configuration : Configuration} {geometry : NestingGeometry} {level bound : Nat}

/-- The printed line says what the hierarchy is.  The number of misses that it is
printed with may be any. -/
def VerdictRight (geometry : NestingGeometry) (level : Nat) (report : List ReportLine) : Prop :=
  ∃ misses, report = [if geometry.nested then .nested level misses else .notNested level misses]

/-- A mixture of right and wrong iterations is decided by the threshold.  Nested
levels miss in every iteration, separate ones in those that are crowded. -/
theorem verdictRight_iff (randoms : Nat -> Nat) :
    VerdictRight geometry level
        [if reachesThreshold (nestingMisses configuration geometry level iterations randoms) iterations
          then .nested level (nestingMisses configuration geometry level iterations randoms)
          else .notNested level (nestingMisses configuration geometry level iterations randoms)] ↔
      geometry.nested = true ∨ reachesThreshold ((List.range iterations).countP fun i =>
        decide (geometry.Crowded (drawnEntry configuration level (randoms i)))) iterations = false := by
  unfold VerdictRight
  cases verdict : geometry.nested with
  | true =>
      have all : nestingMisses configuration geometry level iterations randoms = iterations := by
        rw [nestingMisses, List.countP_eq_length.mpr, List.length_range]
        intro i _
        exact decide_eq_true (Or.inl verdict)
      have many : reachesThreshold iterations iterations = true := by decide
      rw [all, if_pos many]
      exact iff_of_true ⟨iterations, rfl⟩ (Or.inl rfl)
  | false =>
      have crowded : nestingMisses configuration geometry level iterations randoms =
          (List.range iterations).countP fun i =>
            decide (geometry.Crowded (drawnEntry configuration level (randoms i))) := by
        unfold nestingMisses
        simp only [verdict, Bool.false_eq_true, false_or]
      rw [crowded]
      cases many : reachesThreshold ((List.range iterations).countP fun i =>
          decide (geometry.Crowded (drawnEntry configuration level (randoms i)))) iterations with
      | true =>
          refine iff_of_false ?_ (by simp only [Bool.false_eq_true, Bool.true_eq_false, or_false,
            not_false_eq_true])
          rintro ⟨misses, same⟩
          exact ReportLine.noConfusion (List.head_eq_of_cons_eq same)
      | false => exact iff_of_true ⟨_, rfl⟩ (Or.inr rfl)

/-- An iteration of `test_nesting` counts what it should, and the evaluation prints
the right verdict, as long as the links of the chain do not fill the target's set of
the lower cache.  The lower cache may then have lost the target by itself, which the
test cannot tell from a nested one.  The first part is about one iteration from any
machine that is ready, the second about the whole evaluation. -/
theorem evaluateNesting_iff (window : UsableWindow configuration level) (lowest : level ≤ 3)
    (positive : 0 < geometry.upper.ways) (enough : geometry.upper.ways ≤ bound)
    (translationCaches : Nat -> TranslationCache)
    (recorded : translationCaches (level + 1) = geometry.upper.record) :
    (∀ machine : Machine (geometry.model level), machine.Ready ->
      UpperChainFits configuration geometry.upper level (machine.randoms 0) ->
      ∀ misses,
        Returns (handle level)
            (nestingIteration configuration bound level (translationCaches (level + 1)) misses) machine
            (fun result _ => result = if geometry.nested then misses + 1 else misses) ↔
          geometry.nested = true ∨ ¬ geometry.Crowded (drawnEntry configuration level (machine.randoms 0))) ∧
    ∀ machine : Machine (geometry.model level), machine.Ready ->
      (∀ i, i < iterations -> UpperChainFits configuration geometry.upper level (machine.randoms i)) ->
      (Returns (handle level) (evaluateNesting configuration bound translationCaches level) machine
          (fun report _ => VerdictRight geometry level report) ↔
        geometry.nested = true ∨ reachesThreshold ((List.range iterations).countP fun i =>
          decide (geometry.Crowded (drawnEntry configuration level (machine.randoms i)))) iterations = false) := by
  have isLevel := window.isLevel
  have upperLevel : IsLevel (level + 1) := ⟨Nat.le_succ_of_le isLevel.1, Nat.succ_le_succ lowest⟩
  constructor
  · intro machine ready chainFits misses
    have drawn := drawnEntry_fits window (machine.randoms 0)
    have counted := (returns_nestingIteration isLevel upperLevel positive ready rfl drawn
      (chainFits.inside isLevel upperLevel drawn) enough).mono
      (fun result final (holds : _ ∧ _ ∧ result = if geometry.nested = true ∨
        geometry.Crowded (drawnEntry configuration level (machine.randoms 0)) then misses + 1 else misses) =>
        holds.2.2)
    rw [recorded, counted.value_iff]
    by_cases crowded : geometry.Crowded (drawnEntry configuration level (machine.randoms 0))
    · cases verdict : geometry.nested <;> simp [crowded]
    · cases verdict : geometry.nested <;> simp [crowded]
  · intro machine ready fits
    rw [(returns_evaluateNesting window lowest positive enough translationCaches recorded ready fits).value_iff]
    exact verdictRight_iff machine.randoms

/-- Four ways above a cache with eight sets of four ways, each on its own. -/
def separateLevels : NestingGeometry :=
  ⟨⟨.linShiftHash, 3, 4⟩, ⟨.linHash, 0, 4⟩, false⟩

/-- Always the first target of the window. -/
def separateMachine : Machine (separateLevels.model 2) :=
  afterTrigger _ fun _ => 0

theorem firstTarget_fits : UpperChainFits defaultConfiguration separateLevels.upper 2 0 := by
  unfold UpperChainFits
  decide

/-- Two levels that are not nested, with a lower cache of one large set. -/
theorem evaluateNesting_iff_separateLevels :
    Returns (handle 2) (nestingIteration defaultConfiguration 4 2 separateLevels.upper.record 0) separateMachine
        (fun result _ => result = if separateLevels.nested then 1 else 0) ↔
      separateLevels.nested = true ∨ ¬ separateLevels.Crowded (drawnEntry defaultConfiguration 2 0) :=
  (evaluateNesting_iff (usableWindow_default (by decide)) (by decide) (by decide) (Nat.le_refl _)
    (fun _ => separateLevels.upper.record) rfl).1 separateMachine (afterTrigger_ready _ _)
    firstTarget_fits 0

/-- The first target shares the lower set of all four links, so the separate
levels are called nested. -/
theorem evaluateNesting_calls_separate_nested :
    (∀ i, i < iterations ->
      UpperChainFits defaultConfiguration separateLevels.upper 2 (separateMachine.randoms i)) ∧
    ¬ Returns (handle 2) (evaluateNesting defaultConfiguration 4 (fun _ => separateLevels.upper.record) 2)
      separateMachine fun report _ => VerdictRight separateLevels 2 report := by
  refine ⟨fun _ _ => firstTarget_fits, ?_⟩
  have crowded : separateLevels.Crowded (drawnEntry defaultConfiguration 2 0) :=
    (NestingGeometry.crowded_iff (Or.inr rfl) (by decide) (by decide)).mpr (by decide)
  have all : (List.range iterations).countP (fun i => decide (separateLevels.Crowded
      (drawnEntry defaultConfiguration 2 (separateMachine.randoms i)))) = iterations := by
    rw [List.countP_eq_length.mpr, List.length_range]
    intro i _
    exact decide_eq_true crowded
  have printed := returns_evaluateNesting (usableWindow_default (by decide)) (by decide) (by decide)
    (Nat.le_refl 4) (fun _ => separateLevels.upper.record) rfl
    (show Ready separateMachine from afterTrigger_ready _ _) (fun _ _ => firstTarget_fits)
  rw [printed.value_iff, verdictRight_iff, all]
  decide

end Verdict

end Talbot
