import Talbot.Foundations.FallibleFolds
import Talbot.UserSpace.Evaluation

namespace Talbot
namespace Summary

/-!
What the summary of many runs says.

The script fails exactly on lines with a certainty out of 0 or with nothing but a
certainty.  Otherwise it prints each text once, with the number of its appearances
and with its certainties in the order in which they were read.
-/

open Foundations

/-! ## One line -/

section Lines

def Divides (certainty : Option (Nat × Nat)) : Prop :=
  ∀ ratio, certainty = some ratio -> ratio.2 ≠ 0

/-- The change that a line makes of its entry. -/
def OutputInfo.note (cleaned : List Char) (certainty : Option (Nat × Nat)) (lineNumber : Nat) (info : OutputInfo) :
    OutputInfo :=
  let info := (certainty.map fun ratio => info.certify ratio).getD info
  if cleaned = [] then info else info.countLine lineNumber

/-- An empty line without a certainty makes no entry. -/
def Makes (numbered : List Char × Nat) : Prop :=
  ¬ (cleanedLine numbered.1 = [] ∧ certaintyOf numbered.1 = none)

instance (numbered : List Char × Nat) : Decidable (Makes numbered) :=
  inferInstanceAs (Decidable (¬ _))

def made (numbered : List Char × Nat) : List Char × (OutputInfo -> OutputInfo) :=
  (cleanedLine numbered.1, OutputInfo.note (cleanedLine numbered.1) (certaintyOf numbered.1) numbered.2)

def afterLine (outputInfo : OutputInfos) (numbered : List Char × Nat) : OutputInfos :=
  if Makes numbered then outputInfo.change newInfo (made numbered).1 (made numbered).2 else outputInfo

theorem recordCertainty_eq_ok {cleaned : List Char} {certainty : Option (Nat × Nat)} {outputInfo result : OutputInfos} :
    recordCertainty cleaned certainty outputInfo = .ok result ↔ Divides certainty ∧
      result = (certainty.map fun ratio => outputInfo.change newInfo cleaned (OutputInfo.certify ratio)).getD outputInfo := by
  cases certainty with
  | none =>
      have divides : Divides none := by
        intro _ impossible
        cases impossible
      rw [and_iff_right divides]
      exact ok_eq_ok
  | some ratio =>
      have divides : Divides (some ratio) ↔ ratio.2 ≠ 0 :=
        ⟨fun all => all ratio rfl, fun nonzero _ same => Option.some.inj same ▸ nonzero⟩
      rw [recordCertainty, divides]
      by_cases zero : ratio.2 = 0
      · rw [if_pos zero]
        exact iff_of_false (fun impossible => by cases impossible) fun impossible => impossible.1 zero
      · rw [if_neg zero, and_iff_right zero]
        exact ok_eq_ok

theorem countOccurrence_recorded (cleaned : List Char) (certainty : Option (Nat × Nat)) (lineNumber : Nat)
    (outputInfo : OutputInfos) :
    countOccurrence cleaned lineNumber
        ((certainty.map fun ratio => outputInfo.change newInfo cleaned (OutputInfo.certify ratio)).getD outputInfo) =
      if ¬ (cleaned = [] ∧ certainty = none) then
        outputInfo.change newInfo cleaned (OutputInfo.note cleaned certainty lineNumber)
      else outputInfo := by
  unfold countOccurrence OutputInfo.note
  by_cases empty : cleaned = []
  · cases certainty with
    | none => simp only [empty, if_true, and_self, not_true_eq_false, if_false, Option.map_none, Option.getD_none]
    | some ratio =>
        simp only [empty, if_true, reduceCtorEq, and_false, not_false_eq_true, Option.map_some, Option.getD_some]
  · cases certainty with
    | none => simp only [empty, if_false, false_and, not_false_eq_true, if_true, Option.map_none, Option.getD_none]
    | some ratio =>
        simp only [empty, if_false, false_and, not_false_eq_true, if_true, Option.map_some, Option.getD_some,
          OrderedMap.change_change]
        rfl

theorem processLine_eq_ok (outputInfo : OutputInfos) (numbered : List Char × Nat) (result : OutputInfos) :
    processLine outputInfo numbered = .ok result ↔
      Divides (certaintyOf numbered.1) ∧ result = afterLine outputInfo numbered := by
  have after := countOccurrence_recorded (cleanedLine numbered.1) (certaintyOf numbered.1) numbered.2 outputInfo
  change _ = afterLine outputInfo numbered at after
  unfold processLine
  rw [bind_eq_ok, ← after]
  constructor
  · rintro ⟨recorded, first, ⟨⟩⟩
    rcases recordCertainty_eq_ok.mp first with ⟨divides, rfl⟩
    exact ⟨divides, rfl⟩
  · rintro ⟨divides, rfl⟩
    exact ⟨_, recordCertainty_eq_ok.mpr ⟨divides, rfl⟩, rfl⟩

end Lines

/-! ## The entries of some lines -/

section Entries

/-- The lines that clean to a text. -/
def appearances (lines : List (List Char × Nat)) (output : List Char) : List (List Char × Nat) :=
  lines.filter fun numbered => decide (cleanedLine numbered.1 = output)

def ratiosOf (lines : List (List Char × Nat)) : List (Nat × Nat) :=
  lines.filterMap fun numbered => certaintyOf numbered.1

/-- The certainties of some lines, if there are any. -/
def certainties (lines : List (List Char × Nat)) : Option (List (Nat × Nat)) :=
  if ratiosOf lines = [] then none else some (ratiosOf lines)

def changesOf (lines : List (List Char × Nat)) : List (List Char × (OutputInfo -> OutputInfo)) :=
  (lines.filter fun numbered => decide (Makes numbered)).map made

theorem foldl_afterLine (lines : List (List Char × Nat)) :
    lines.foldl afterLine [] = OrderedMap.collect newInfo (changesOf lines) := by
  unfold OrderedMap.collect changesOf
  rw [List.foldl_map, List.foldl_filter]
  simp only [decide_eq_true_eq]
  rfl

/-- The entry of a text. -/
def infoOf (lines : List (List Char × Nat)) (output : List Char) : OutputInfo :=
  OrderedMap.valueOf newInfo (changesOf lines) output

theorem appearances_concat (lines : List (List Char × Nat)) (numbered : List Char × Nat) (output : List Char) :
    appearances (lines ++ [numbered]) output =
      if cleanedLine numbered.1 = output then appearances lines output ++ [numbered] else appearances lines output := by
  unfold appearances
  rw [List.filter_append, List.filter_singleton]
  by_cases here : cleanedLine numbered.1 = output
  · rw [if_pos here, decide_eq_true here, cond_true]
  · rw [if_neg here, decide_eq_false here, cond_false, List.append_nil]

theorem infoOf_concat (lines : List (List Char × Nat)) (numbered : List Char × Nat) (output : List Char) :
    infoOf (lines ++ [numbered]) output = if Makes numbered ∧ cleanedLine numbered.1 = output then
      OutputInfo.note output (certaintyOf numbered.1) numbered.2 (infoOf lines output) else infoOf lines output := by
  unfold infoOf changesOf
  rw [List.filter_append, List.filter_singleton, List.map_append]
  by_cases makes : Makes numbered
  · rw [decide_eq_true makes, cond_true, List.map_singleton, OrderedMap.valueOf_concat]
    by_cases here : cleanedLine numbered.1 = output
    · subst here
      have key : cleanedLine numbered.1 = (made numbered).1 := rfl
      rw [if_pos key, if_pos ⟨makes, rfl⟩]
      rfl
    · rw [if_neg fun same => here same.symm, if_neg fun both => here both.2]
  · rw [decide_eq_false makes, cond_false, List.map_nil, List.append_nil, if_neg fun both => makes both.1]

/-- The lines of a text make its entry, one after the other. -/
theorem infoOf_eq (lines : List (List Char × Nat)) {output : List Char} (nonempty : output ≠ []) :
    infoOf lines output = (appearances lines output).foldl
      (fun info numbered => OutputInfo.note output (certaintyOf numbered.1) numbered.2 info) newInfo := by
  induction lines using List.reverseRecOn with
  | nil => rfl
  | append_singleton lines numbered inductionHypothesis =>
      rw [infoOf_concat, appearances_concat, inductionHypothesis]
      by_cases here : cleanedLine numbered.1 = output
      · have makes : Makes numbered := fun empty => nonempty (here.symm.trans empty.1)
        rw [if_pos here, if_pos ⟨makes, here⟩, List.foldl_append]
        rfl
      · rw [if_neg here, if_neg fun both => here both.2]

theorem ratiosOf_concat (lines : List (List Char × Nat)) (numbered : List Char × Nat) :
    ratiosOf (lines ++ [numbered]) = ratiosOf lines ++ (certaintyOf numbered.1).toList := by
  unfold ratiosOf
  rw [List.filterMap_append]
  cases found : certaintyOf numbered.1 with
  | none => simp only [List.filterMap_cons, found, List.filterMap_nil, Option.toList]
  | some ratio => simp only [List.filterMap_cons, found, List.filterMap_nil, Option.toList]

theorem certainties_concat (lines : List (List Char × Nat)) (numbered : List Char × Nat) :
    certainties (lines ++ [numbered]) =
      ((certaintyOf numbered.1).map fun ratio => some ((certainties lines).getD [] ++ [ratio])).getD (certainties lines) := by
  unfold certainties
  rw [ratiosOf_concat]
  cases certaintyOf numbered.1 with
  | none => simp only [Option.toList, List.append_nil, Option.map_none, Option.getD_none]
  | some ratio =>
      have more : ratiosOf lines ++ (some ratio).toList ≠ [] :=
        List.append_ne_nil_of_right_ne_nil _ (List.cons_ne_nil _ _)
      rw [if_neg more]
      by_cases empty : ratiosOf lines = []
      · rw [if_pos empty, empty]
        rfl
      · rw [if_neg empty]
        rfl

theorem note_eq {output : List Char} (nonempty : output ≠ []) (certainty : Option (Nat × Nat)) (lineNumber : Nat)
    (info : OutputInfo) :
    let noted := info.note output certainty lineNumber
    noted.count = info.count + 1 ∧
      noted.certainty = (certainty.map fun ratio => some (info.certainty.getD [] ++ [ratio])).getD info.certainty ∧
      noted.lineNumbers = if lineNumber ∈ info.lineNumbers then info.lineNumbers
        else info.lineNumbers ++ [lineNumber] := by
  unfold OutputInfo.note
  rw [if_neg nonempty]
  cases certainty with
  | none => exact ⟨rfl, rfl, rfl⟩
  | some ratio => exact ⟨rfl, rfl, rfl⟩

/-- Counting the lines of a text. -/
theorem foldl_note {output : List Char} (nonempty : output ≠ []) (lines : List (List Char × Nat)) :
    let info := lines.foldl (fun info numbered => OutputInfo.note output (certaintyOf numbered.1) numbered.2 info) newInfo
    info.count = lines.length ∧ info.certainty = certainties lines ∧
      ∀ lineNumber, lineNumber ∈ info.lineNumbers ↔ lineNumber ∈ lines.map Prod.snd := by
  induction lines using List.reverseRecOn with
  | nil => exact ⟨rfl, rfl, fun _ => Iff.rfl⟩
  | append_singleton lines numbered inductionHypothesis =>
      rcases inductionHypothesis with ⟨count, certainty, lineNumbers⟩
      rw [List.foldl_append, List.foldl_cons, List.foldl_nil]
      rcases note_eq nonempty (certaintyOf numbered.1) numbered.2 (lines.foldl
        (fun info numbered => OutputInfo.note output (certaintyOf numbered.1) numbered.2 info) newInfo) with
        ⟨noted, ratios, numbers⟩
      refine ⟨?_, ?_, fun lineNumber => ?_⟩
      · rw [noted, count, List.length_append, List.length_singleton]
      · rw [ratios, certainty, certainties_concat]
      · rw [numbers, List.map_append, List.map_singleton, List.mem_append, List.mem_singleton, ← lineNumbers]
        split
        · rename_i known
          constructor
          · exact Or.inl
          · rintro (before | rfl)
            · exact before
            · exact known
        · rw [List.mem_append, List.mem_singleton]

/-- The texts in the order of their first appearance. -/
def outputsOf (lines : List (List Char × Nat)) : List (List Char) :=
  firstUses ((changesOf lines).map Prod.fst)

def infosOf (lines : List (List Char × Nat)) : OutputInfos :=
  (outputsOf lines).map fun output => (output, infoOf lines output)

theorem mem_outputsOf {lines : List (List Char × Nat)} {output : List Char} :
    output ∈ outputsOf lines ↔ ∃ numbered, numbered ∈ lines ∧ Makes numbered ∧ cleanedLine numbered.1 = output := by
  rw [outputsOf, mem_firstUses, changesOf, List.map_map, List.mem_map]
  simp only [List.mem_filter, decide_eq_true_eq, and_assoc]
  rfl

/-- A line that the script can read: its certainty does not divide by zero, and
there is a text that the certainty belongs to. -/
def Readable (line : List Char) : Prop :=
  ∀ ratio, certaintyOf line = some ratio -> ratio.2 ≠ 0 ∧ cleanedLine line ≠ []

theorem nil_not_mem_outputsOf {lines : List (List Char × Nat)} :
    [] ∉ outputsOf lines ↔
      ∀ numbered, numbered ∈ lines -> ∀ ratio, certaintyOf numbered.1 = some ratio -> cleanedLine numbered.1 ≠ [] := by
  rw [mem_outputsOf]
  constructor
  · intro none_made numbered inside ratio found empty
    refine none_made ⟨numbered, inside, fun both => ?_, empty⟩
    rw [found] at both
    cases both.2
  · rintro readable ⟨numbered, inside, makes, empty⟩
    cases found : certaintyOf numbered.1 with
    | none => exact makes ⟨empty, found⟩
    | some ratio => exact readable numbered inside ratio found empty

/-- The last line at which a text appears. -/
def lastLine (lines : List (List Char × Nat)) (output : List Char) : Nat :=
  ((appearances lines output).map Prod.snd).max?.getD 0

theorem max_congr {first second : List Nat} (same : ∀ number, number ∈ first ↔ number ∈ second) :
    first.max? = second.max? := by
  cases largest : second.max? with
  | none =>
      rw [List.max?_eq_none_iff] at largest ⊢
      exact List.eq_nil_iff_forall_not_mem.mpr fun number inside => by
        rw [same, largest] at inside
        cases inside
  | some number =>
      rw [List.max?_eq_some_iff] at largest ⊢
      exact ⟨(same number).mpr largest.1, fun other inside => largest.2 other ((same other).mp inside)⟩

theorem lineNumbers_max {lines : List (List Char × Nat)} {output : List Char} (known : output ∈ outputsOf lines)
    (nonempty : output ≠ []) : (infoOf lines output).lineNumbers.max? = some (lastLine lines output) := by
  rcases mem_outputsOf.mp known with ⟨numbered, inside, _, cleaned⟩
  have appears : numbered ∈ appearances lines output := List.mem_filter.mpr ⟨inside, decide_eq_true cleaned⟩
  have numbers := max_congr (foldl_note nonempty (appearances lines output)).2.2
  rw [← infoOf_eq lines nonempty] at numbers
  rw [numbers, lastLine]
  cases largest : ((appearances lines output).map Prod.snd).max? with
  | none =>
      rw [List.max?_eq_none_iff, List.map_eq_nil_iff] at largest
      rw [largest] at appears
      cases appears
  | some number => rfl

theorem lineNumbers_nil (lines : List (List Char × Nat)) : (infoOf lines []).lineNumbers = [] := by
  induction lines using List.reverseRecOn with
  | nil => rfl
  | append_singleton lines numbered inductionHypothesis =>
      rw [infoOf_concat]
      split
      · unfold OutputInfo.note
        rw [if_pos rfl]
        cases certaintyOf numbered.1 with
        | none => exact inductionHypothesis
        | some ratio => exact inductionHypothesis
      · exact inductionHypothesis

end Entries

/-! ## The rows of some entries -/

section Rows

variable {outputInfo : OutputInfos} {runs : Nat}

def lastPosition (entry : List Char × OutputInfo) : Nat :=
  entry.2.lineNumbers.max?.getD 0

theorem positionOf_eq_ok {info : OutputInfo} {position : Nat} :
    positionOf info = .ok position ↔ info.lineNumbers.max? = some position := by
  unfold positionOf
  cases info.lineNumbers.max? with
  | none => exact iff_of_false (fun impossible => by cases impossible) fun impossible => by cases impossible
  | some last => exact ok_eq_ok.trans (eq_comm.trans Option.some_inj.symm)

theorem addPosition_eq_ok (positions : List Nat) (entry : List Char × OutputInfo) (result : List Nat) :
    addPosition positions entry = .ok result ↔ entry.2.lineNumbers.max? ≠ none ∧
      result = if lastPosition entry ∈ positions then positions else positions ++ [lastPosition entry] := by
  unfold addPosition lastPosition
  rw [bind_eq_ok]
  simp only [positionOf_eq_ok]
  cases entry.2.lineNumbers.max? with
  | none =>
      refine iff_of_false ?_ fun impossible => impossible.1 rfl
      rintro ⟨_, impossible, _⟩
      cases impossible
  | some last =>
      constructor
      · rintro ⟨_, ⟨⟩, found⟩
        exact ⟨Option.some_ne_none last, ok_eq_ok.mp found⟩
      · exact fun found => ⟨last, rfl, ok_eq_ok.mpr found.2⟩

/-- The distinct positions, in the order of the entries. -/
theorem positions_eq (outputInfo : OutputInfos) :
    outputInfo.foldl (fun positions entry =>
      if lastPosition entry ∈ positions then positions else positions ++ [lastPosition entry]) [] =
      firstUses (outputInfo.map lastPosition) := by
  induction outputInfo using List.reverseRecOn with
  | nil => rfl
  | append_singleton outputInfo entry inductionHypothesis =>
      rw [List.foldl_append, inductionHypothesis, List.map_append, List.map_singleton, firstUses_concat]
      exact if_congr mem_firstUses rfl rfl

def sortedPositions (outputInfo : OutputInfos) : List Nat :=
  (firstUses (outputInfo.map lastPosition)).insertionSort (· ≤ ·)

def rowFrom (runs : Nat) (entry : List Char × OutputInfo) : Row :=
  ⟨entry.1, entry.2.count, runs, entry.2.certainty⟩

theorem makeRow_eq_ok (entry : List Char × OutputInfo) (row : Row) :
    makeRow runs entry = .ok row ↔ runs ≠ 0 ∧ row = rowFrom runs entry := by
  unfold makeRow
  by_cases zero : runs = 0
  · rw [if_pos zero]
    exact iff_of_false (fun impossible => by cases impossible) fun impossible => impossible.1 zero
  · rw [if_neg zero, and_iff_right zero]
    exact ok_eq_ok

/-- The entries in the order in which they are printed. -/
def printedEntries (outputInfo : OutputInfos) : OutputInfos :=
  (sortedPositions outputInfo).flatMap (entriesAt outputInfo)

theorem summarise_eq_ok {rows : List Row} : summarise outputInfo runs = .ok rows ↔
    (∀ entry, entry ∈ outputInfo -> entry.2.lineNumbers.max? ≠ none) ∧
      (∀ entry, entry ∈ printedEntries outputInfo -> runs ≠ 0) ∧
        rows = (printedEntries outputInfo).map (rowFrom runs) := by
  unfold summarise
  rw [bind_eq_ok]
  constructor
  · rintro ⟨positions, found, made⟩
    rcases (foldlM_eq_ok addPosition_eq_ok).mp found with ⟨all, rfl⟩
    rw [positions_eq] at made
    exact ⟨all, (mapM_eq_ok makeRow_eq_ok).mp made⟩
  · rintro ⟨all, made⟩
    refine ⟨_, (foldlM_eq_ok addPosition_eq_ok).mpr ⟨all, rfl⟩, ?_⟩
    rw [positions_eq]
    exact (mapM_eq_ok makeRow_eq_ok).mpr made

theorem mem_entriesAt {entry : List Char × OutputInfo} {position : Nat} (inside : entry ∈ entriesAt outputInfo position) :
    lastPosition entry = position := by
  have found := of_decide_eq_true (List.mem_filter.mp inside).2
  rw [lastPosition, found]
  rfl

/-- Nothing is printed twice or left out. -/
theorem printedEntries_perm (all : ∀ entry, entry ∈ outputInfo -> entry.2.lineNumbers.max? ≠ none) :
    (printedEntries outputInfo).Perm outputInfo := by
  have sorted := List.perm_insertionSort (· ≤ ·) (firstUses (outputInfo.map lastPosition))
  have grouped : ∀ position, position ∈ sortedPositions outputInfo -> entriesAt outputInfo position =
      outputInfo.reverse.filter fun entry => decide (lastPosition entry = position) := by
    intro position _
    apply List.filter_congr
    intro entry inside
    apply decide_eq_decide.mpr
    unfold lastPosition
    cases found : entry.2.lineNumbers.max? with
    | none => exact absurd found (all entry (List.mem_reverse.mp inside))
    | some last => exact Option.some_inj
  rw [printedEntries, List.flatMap_congr grouped]
  refine (flatMap_filter_perm lastPosition (sorted.nodup_iff.mpr (firstUses_nodup _)) ?_).trans (List.reverse_perm _)
  intro entry inside
  exact sorted.mem_iff.mpr (mem_firstUses.mpr (List.mem_map_of_mem (List.mem_reverse.mp inside)))

theorem printedEntries_sorted (outputInfo : OutputInfos) :
    (printedEntries outputInfo).Pairwise fun first second => lastPosition first ≤ lastPosition second := by
  refine List.pairwise_flatMap.mpr ⟨fun position _ => List.pairwise_of_forall_mem_list ?_, ?_⟩
  · intro first inside second insideToo
    rw [mem_entriesAt inside, mem_entriesAt insideToo]
  · refine (List.pairwise_insertionSort (· ≤ ·) _).imp ?_
    intro earlier position order first inside second insideToo
    rw [mem_entriesAt inside, mem_entriesAt insideToo]
    exact order

end Rows

/-! ## All runs -/

section Runs

variable (attempts : Nat -> Nat -> Option (List Char))

/-- The outputs of the runs that succeed. -/
def successes : List (List Char) :=
  (List.range executions).filterMap fun i => firstSuccess (attempts i)

/-- All lines that the script reads, with their numbers. -/
def allLines : List (List Char × Nat) :=
  (successes attempts).flatMap relevantLines

def RunDivides (i : Nat) : Prop :=
  ∀ stdout, firstSuccess (attempts i) = some stdout -> ∀ numbered, numbered ∈ relevantLines stdout ->
    Divides (certaintyOf numbered.1)

def afterRun (state : OutputInfos × Nat) (i : Nat) : OutputInfos × Nat :=
  match firstSuccess (attempts i) with
  | some stdout => ((relevantLines stdout).foldl afterLine state.1, state.2)
  | none => (state.1, state.2 - 1)

/-- Every success is read, and every failure takes one off the number of runs. -/
theorem foldl_afterRun (indices : List Nat) (outputInfo : OutputInfos) {runs : Nat} (enough : indices.length ≤ runs) :
    indices.foldl (afterRun attempts) (outputInfo, runs) =
      (((indices.filterMap fun i => firstSuccess (attempts i)).flatMap relevantLines).foldl afterLine outputInfo,
        runs - indices.length + (indices.filterMap fun i => firstSuccess (attempts i)).length) := by
  induction indices generalizing outputInfo runs with
  | nil => rfl
  | cons i rest inductionHypothesis =>
      rw [List.length_cons] at enough
      rw [List.foldl_cons, afterRun, List.filterMap_cons, List.length_cons]
      cases firstSuccess (attempts i) with
      | none =>
          dsimp only
          rw [inductionHypothesis outputInfo (by omega), Nat.sub_sub, Nat.add_comm 1]
      | some stdout =>
          dsimp only
          rw [inductionHypothesis _ (by omega), List.flatMap_cons, List.foldl_append, List.length_cons]
          congr 1
          omega

theorem collectRun_eq_ok (state : OutputInfos × Nat) (i : Nat) (result : OutputInfos × Nat) :
    collectRun attempts state i = .ok result ↔ RunDivides attempts i ∧ result = afterRun attempts state i := by
  unfold collectRun RunDivides afterRun
  cases firstSuccess (attempts i) with
  | none =>
      rw [and_iff_right fun _ impossible => by cases impossible]
      exact ok_eq_ok
  | some stdout =>
      dsimp only
      rw [bind_eq_ok]
      constructor
      · rintro ⟨outputInfo, found, ⟨⟩⟩
        rcases (foldlM_eq_ok processLine_eq_ok).mp found with ⟨divides, rfl⟩
        exact ⟨fun _ same => Option.some.inj same ▸ divides, rfl⟩
      · rintro ⟨divides, rfl⟩
        exact ⟨_, (foldlM_eq_ok processLine_eq_ok).mpr ⟨divides stdout rfl, rfl⟩, rfl⟩

theorem collectRuns_eq_ok {result : OutputInfos × Nat} : collectRuns attempts = .ok result ↔
    (∀ numbered, numbered ∈ allLines attempts -> Divides (certaintyOf numbered.1)) ∧
      result = (infosOf (allLines attempts), (successes attempts).length) := by
  have final : (List.range executions).foldl (afterRun attempts) ([], executions) =
      (infosOf (allLines attempts), (successes attempts).length) := by
    rw [foldl_afterRun attempts _ _ (Nat.le_of_eq List.length_range), List.length_range, Nat.sub_self, Nat.zero_add]
    congr 1
    exact (foldl_afterLine _).trans (OrderedMap.collect_eq _)
  unfold collectRuns
  rw [foldlM_eq_ok (collectRun_eq_ok attempts), final]
  refine and_congr_left fun _ => ⟨?_, ?_⟩
  · intro all numbered inside
    rcases List.mem_flatMap.mp inside with ⟨stdout, success, relevant⟩
    rcases List.mem_filterMap.mp success with ⟨i, index, found⟩
    exact all i index stdout found numbered relevant
  · intro all i index stdout found numbered relevant
    exact all numbered (List.mem_flatMap.mpr ⟨stdout, List.mem_filterMap.mpr ⟨i, index, found⟩, relevant⟩)

/-- What the script prints about a text: how many lines clean to it, out of how many
runs, and the certainties of these lines. -/
def rowOf (output : List Char) : Row where
  output := output
  count := (appearances (allLines attempts) output).length
  runs := (successes attempts).length
  certainty := certainties (appearances (allLines attempts) output)

theorem rowFrom_infoOf {output : List Char} (nonempty : output ≠ []) :
    rowFrom (successes attempts).length (output, infoOf (allLines attempts) output) = rowOf attempts output := by
  rcases foldl_note nonempty (appearances (allLines attempts) output) with ⟨count, certainty, _⟩
  rw [← infoOf_eq (allLines attempts) nonempty] at count certainty
  rw [rowFrom, rowOf, count, certainty]

theorem hasPosition_iff (lines : List (List Char × Nat)) :
    (∀ entry, entry ∈ infosOf lines -> entry.2.lineNumbers.max? ≠ none) ↔ [] ∉ outputsOf lines := by
  constructor
  · intro all known
    apply all _ (List.mem_map_of_mem known)
    rw [lineNumbers_nil]
    rfl
  · intro nonempty entry inside
    rcases List.mem_map.mp inside with ⟨output, known, rfl⟩
    rw [lineNumbers_max known fun same => nonempty (same ▸ known)]
    exact Option.some_ne_none _

theorem runs_of_printed {entry : List Char × OutputInfo} (inside : entry ∈ printedEntries (infosOf (allLines attempts))) :
    (successes attempts).length ≠ 0 := by
  rcases List.mem_flatMap.mp inside with ⟨position, _, inside⟩
  rcases List.mem_map.mp (List.mem_reverse.mp (List.mem_filter.mp inside).1) with ⟨output, known, _⟩
  rcases mem_outputsOf.mp known with ⟨numbered, inside, _⟩
  rcases List.mem_flatMap.mp inside with ⟨stdout, success, _⟩
  exact Nat.ne_of_gt (List.length_pos_of_mem success)

theorem evaluation_eq_ok {rows : List Row} : evaluation attempts = .ok rows ↔
    (∀ numbered, numbered ∈ allLines attempts -> Readable numbered.1) ∧
      rows = (printedEntries (infosOf (allLines attempts))).map (rowFrom (successes attempts).length) := by
  have readable : (∀ numbered, numbered ∈ allLines attempts -> Readable numbered.1) ↔
      (∀ numbered, numbered ∈ allLines attempts -> Divides (certaintyOf numbered.1)) ∧
        [] ∉ outputsOf (allLines attempts) := by
    rw [nil_not_mem_outputsOf]
    constructor
    · exact fun all => ⟨fun numbered inside ratio found => (all numbered inside ratio found).1,
        fun numbered inside ratio found => (all numbered inside ratio found).2⟩
    · exact fun both numbered inside ratio found => ⟨both.1 numbered inside ratio found, both.2 numbered inside ratio found⟩
  rw [readable, ← hasPosition_iff, evaluation, bind_eq_ok]
  constructor
  · rintro ⟨state, collected, summarised⟩
    rcases (collectRuns_eq_ok attempts).mp collected with ⟨divides, same⟩
    rw [same] at summarised
    rcases summarise_eq_ok.mp summarised with ⟨positions, _, rows_eq⟩
    exact ⟨⟨divides, positions⟩, rows_eq⟩
  · rintro ⟨⟨divides, positions⟩, same⟩
    exact ⟨_, (collectRuns_eq_ok attempts).mpr ⟨divides, rfl⟩,
      summarise_eq_ok.mpr ⟨positions, fun _ inside => runs_of_printed attempts inside, same⟩⟩

theorem nil_not_mem_of_readable (readable : ∀ numbered, numbered ∈ allLines attempts -> Readable numbered.1) :
    [] ∉ outputsOf (allLines attempts) := by
  rw [nil_not_mem_outputsOf]
  exact fun numbered inside ratio found => (readable numbered inside ratio found).2

/-- The rows are those of the texts. -/
theorem printedRows_perm (nonempty : [] ∉ outputsOf (allLines attempts)) :
    ((printedEntries (infosOf (allLines attempts))).map (rowFrom (successes attempts).length)).Perm
      ((outputsOf (allLines attempts)).map (rowOf attempts)) := by
  have permutation := printedEntries_perm ((hasPosition_iff _).mpr nonempty)
  refine (permutation.map _).trans (List.Perm.of_eq ?_)
  rw [infosOf, List.map_map]
  apply List.map_congr_left
  intro output known
  exact rowFrom_infoOf attempts fun same => nonempty (same ▸ known)

theorem lastPosition_eq (nonempty : [] ∉ outputsOf (allLines attempts)) {entry : List Char × OutputInfo}
    (inside : entry ∈ printedEntries (infosOf (allLines attempts))) :
    lastPosition entry = lastLine (allLines attempts) entry.1 := by
  have collected := (printedEntries_perm ((hasPosition_iff _).mpr nonempty)).mem_iff.mp inside
  rcases List.mem_map.mp collected with ⟨output, known, rfl⟩
  rw [lastPosition, lineNumbers_max known fun same => nonempty (same ▸ known)]
  rfl

/-- The script fails exactly on lines that it cannot read.  Otherwise it prints
every text of the outputs once, with its count and its certainties, sorted by the
last line at which the text appears.  Digits are those of ASCII, and the quotients
are exact. -/
theorem evaluation_rows :
    ((∃ rows, evaluation attempts = .ok rows) ↔ ∀ numbered, numbered ∈ allLines attempts -> Readable numbered.1) ∧
      ∀ rows, evaluation attempts = .ok rows ->
        rows.Perm ((outputsOf (allLines attempts)).map (rowOf attempts)) ∧
          rows.Pairwise fun first second =>
            lastLine (allLines attempts) first.output ≤ lastLine (allLines attempts) second.output := by
  refine ⟨⟨fun ⟨rows, found⟩ => ((evaluation_eq_ok attempts).mp found).1,
    fun readable => ⟨_, (evaluation_eq_ok attempts).mpr ⟨readable, rfl⟩⟩⟩, fun rows found => ?_⟩
  rcases (evaluation_eq_ok attempts).mp found with ⟨readable, same⟩
  have nonempty := nil_not_mem_of_readable attempts readable
  rw [same]
  refine ⟨printedRows_perm attempts nonempty, List.pairwise_map.mpr ((printedEntries_sorted _).imp_of_mem ?_)⟩
  intro first second inside insideToo order
  rw [lastPosition_eq attempts nonempty inside, lastPosition_eq attempts nonempty insideToo] at order
  exact order

end Runs

end Summary
end Talbot
