import Talbot.Foundations.Stages
import Talbot.Kernel.Module

namespace Talbot

/-!
What `device_read` appends to its output.

Every line is formatted into a small buffer first, where `snprintf` cuts it off;
the pieces of a permutation row are formatted one by one and never reach the end
of theirs.  The texts are ASCII, so a character takes one byte.

The second part reads `device_read` as a list of stages, one for each evaluation
of each level.
-/

open Foundations Program

/-- The size that `snprintf` is given for a line. -/
def ReportLine.bufferSize : ReportLine -> Option Nat
  | hierarchyHeader _ | splitInstructions _ _ | splitData _ _ | shared _ _ | permutationHeader _ => some 64
  | permutationRow _ _ _ => none
  | _ => some 128

/-- What of a line is appended. -/
def ReportLine.printed (line : ReportLine) : List Char :=
  match line.bufferSize with
  | some size => line.text.toList.take (size - 1)
  | none => line.text.toList

/-- The bytes of some lines, without the final NUL. -/
def reportSize (lines : List ReportLine) : Nat :=
  (lines.map fun line => line.printed.length).sum

@[simp] theorem reportSize_nil : reportSize [] = 0 :=
  rfl

@[simp] theorem reportSize_cons (line : ReportLine) (lines : List ReportLine) :
    reportSize (line :: lines) = line.printed.length + reportSize lines :=
  List.sum_cons

@[simp] theorem reportSize_append (first second : List ReportLine) :
    reportSize (first ++ second) = reportSize first + reportSize second := by
  rw [reportSize, List.map_append, List.sum_append]
  rfl

theorem ReportLine.printed_le (line : ReportLine) : line.printed.length ≤ line.text.length := by
  unfold printed
  rw [← String.length_toList]
  cases line.bufferSize with
  | none => exact Nat.le_refl _
  | some size => exact List.length_take_le' _ _

theorem ReportLine.printed_lt {line : ReportLine} {size : Nat} (limited : line.bufferSize = some (size + 1)) :
    line.printed.length ≤ size := by
  unfold printed
  rw [limited]
  exact List.length_take_le _ _

/-! ## The stages of a read -/

/-- The records and the output of `device_read`. -/
abbrev ReadState : Type :=
  (Nat -> TranslationCache) × List ReportLine

/-- The levels of a phase. -/
theorem mem_levels {α : Type} {stageOf : Nat -> α} {levels : Nat} {stage : α}
    (member : stage ∈ (List.range' 2 levels).map stageOf) :
    ∃ level, 2 ≤ level ∧ level < 2 + levels ∧ stageOf level = stage := by
  rcases List.mem_map.mp member with ⟨level, inside, rfl⟩
  exact ⟨level, (List.mem_range'_1.mp inside).1, (List.mem_range'_1.mp inside).2, rfl⟩

theorem level_at {α : Type} {stageOf : Nat -> α} {levels index : Nat} {stage : α}
    (found : ((List.range' 2 levels).map stageOf)[index]? = some stage) :
    index < levels ∧ stageOf (2 + index) = stage := by
  rcases List.getElem?_eq_some_iff.mp found with ⟨inside, rfl⟩
  rw [List.length_map, List.length_range'] at inside
  refine ⟨inside, ?_⟩
  rw [List.getElem_map, List.getElem_range', Nat.one_mul]

/-- Evaluate one level and append its lines. -/
def appendLines (evaluate : (Nat -> TranslationCache) -> Nat -> Kernel (List ReportLine)) (level : Nat)
    (state : ReadState) : Kernel ReadState := do
  let lines ← evaluate state.1 level
  return (state.1, state.2 ++ lines)

section Stages

variable (configuration : Configuration) (bound : Nat) (leftover : Nat -> HashPointer × Nat)

/-- Evaluate the structure of one level, which also records it. -/
def appendStructure (level : Nat) (state : ReadState) : Kernel ReadState := do
  let (translationCaches, lines) ← evaluateCacheStructure configuration bound (leftover level) state.1 level
  return (translationCaches, state.2 ++ lines)

/-- Its misses are only printed to the kernel log. -/
def testHugePages (level : Nat) (state : ReadState) : Kernel ReadState := do
  let _ ← testHugePageEviction bound level
  return state

/-- Up to the records. -/
def firstStages : List (ReadState -> Kernel ReadState) :=
  (List.range' 2 3).map (appendLines fun _ => evaluateCacheExistence configuration) ++
    (List.range' 2 3).map (appendLines fun _ => evaluateCacheHierarchy configuration bound) ++
    (List.range' 2 3).map (appendStructure configuration bound leftover)

/-- The rest, which needs the records. -/
def laterStages : List (ReadState -> Kernel ReadState) :=
  (List.range' 2 3).map (appendLines (evaluateReplacementPolicy configuration bound)) ++
    (List.range' 2 2).map (appendLines (evaluateNesting configuration bound)) ++
    (List.range' 2 2).map (appendLines fun _ => evaluateHugeTlb configuration bound) ++
    (List.range' 2 2).map (testHugePages bound) ++
    (List.range' 2 3).map (appendLines fun _ => evaluateSupportedPcids configuration) ++
    (List.range' 2 3).map (appendLines fun _ => evaluatePcidRespect configuration bound)

variable {configuration bound leftover}

section Reading

variable {β : Type} (after : ReadState -> Kernel β)

theorem runStages_appendLines (evaluate : (Nat -> TranslationCache) -> Nat -> Kernel (List ReportLine))
    (count : Nat) (rest : List (ReadState -> Kernel ReadState)) (state : ReadState) :
    runStages ((List.range' 2 count).map (appendLines evaluate) ++ rest) state >>= after =
      forLevels count (evaluate state.1) state.2 >>= fun output =>
        runStages rest (state.1, output) >>= after := by
  unfold forLevels
  generalize 2 = start
  induction count generalizing start state with
  | zero => rfl
  | succ count inductionHypothesis =>
      rw [List.range'_succ, List.map_cons, List.cons_append, runStages, forRange, appendLines]
      simp only [bind_assoc, pure_eq, ret_bind]
      exact congrArg _ (funext fun lines => inductionHypothesis (state.1, state.2 ++ lines) _)

theorem runStages_testHugePages (count : Nat) (rest : List (ReadState -> Kernel ReadState)) (state : ReadState) :
    runStages ((List.range' 2 count).map (testHugePages bound) ++ rest) state >>= after =
      forRange (fun level (_ : Unit) => do
        let _ ← testHugePageEviction bound level
        return .next ()) 2 count () >>= fun _ => runStages rest state >>= after := by
  generalize 2 = start
  induction count generalizing start with
  | zero => rfl
  | succ count inductionHypothesis =>
      rw [List.range'_succ, List.map_cons, List.cons_append, runStages, forRange, testHugePages]
      simp only [bind_assoc, pure_eq, ret_bind]
      exact congrArg _ (funext fun _ => inductionHypothesis _)

theorem runStages_appendStructure (count : Nat) (rest : List (ReadState -> Kernel ReadState)) (state : ReadState) :
    runStages ((List.range' 2 count).map (appendStructure configuration bound leftover) ++ rest) state >>= after =
      forRange (fun level (state : ReadState) => do
        let (translationCaches, lines) ← evaluateCacheStructureWith configuration
          (measureCandidate configuration bound) bound (leftover level) state.1 level
        return .next (translationCaches, state.2 ++ lines)) 2 count state >>= fun state =>
          runStages rest state >>= after := by
  rw [runStages_append, ← forRange_eq_runStages, bind_assoc]
  simp only [appendStructure, evaluateCacheStructure, bind_assoc, pure_eq, ret_bind]

end Reading

theorem runStages_output (translationCaches : Nat -> TranslationCache) (program : Kernel (List ReportLine)) :
    (program >>= fun output => runStages [] (translationCaches, output) >>= fun state => ret state.2) = program :=
  bind_ret program

/-- `device_read` runs the stages and returns their output. -/
theorem deviceRead_eq_stages :
    deviceRead configuration bound leftover =
      runStages (firstStages configuration bound leftover ++ laterStages configuration bound)
          (initialTranslationCaches, []) >>= fun state => ret state.2 := by
  rw [← List.append_nil (firstStages configuration bound leftover ++ laterStages configuration bound)]
  unfold deviceRead deviceReadWith firstStages laterStages
  simp only [List.append_assoc, runStages_appendLines, runStages_testHugePages, runStages_appendStructure,
    runStages_output]

end Stages

end Talbot
