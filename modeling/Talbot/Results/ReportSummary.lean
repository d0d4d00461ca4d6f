import Talbot.Results.ReportParsing
import Talbot.Results.SummaryRows

namespace Talbot
namespace Summary

/-!
The summary of the reports of many runs.

Whatever the trigger prints before its banner, the lines that the script reads are
those of the report.  The summary therefore has one row for each label, with the
number of lines that have it and with their certainties.
-/

open Foundations

/-! ## Lines and their text -/

section Lines

/-- A text without line breaks. -/
def Unbroken (line : List Char) : Prop :=
  ∀ character, character ∈ line -> isLineBreak character = false

theorem unlines_cons (line : List Char) (lines : List (List Char)) :
    unlines (line :: lines) = line ++ '\n' :: unlines lines := by
  unfold unlines
  rw [List.flatMap_cons, List.append_assoc]
  rfl

theorem unlines_append (first second : List (List Char)) : unlines (first ++ second) = unlines first ++ unlines second :=
  List.flatMap_append

theorem splitLines_cons {character : Char} (unbroken : isLineBreak character = false) (rest : List Char) :
    splitLines (character :: rest) = prepend character (splitLines rest) := by
  rw [splitLines, if_neg (Bool.eq_false_iff.mp unbroken)]
  rintro _ rfl
  cases unbroken

theorem splitLines_newline (rest : List Char) : splitLines ('\n' :: rest) = [] :: splitLines rest := by
  rw [splitLines, if_pos (by decide)]
  exact fun _ impossible => absurd impossible (by decide)

theorem splitLines_line {line : List Char} (unbroken : Unbroken line) (rest : List Char) :
    splitLines (line ++ '\n' :: rest) = line :: splitLines rest := by
  induction line with
  | nil => exact splitLines_newline rest
  | cons character line inductionHypothesis =>
      rcases List.forall_mem_cons.mp unbroken with ⟨here, later⟩
      rw [List.cons_append, splitLines_cons here, inductionHypothesis later]
      rfl

theorem splitLines_last {line : List Char} (unbroken : Unbroken line) (nonempty : line ≠ []) : splitLines line = [line] := by
  induction line with
  | nil => exact absurd rfl nonempty
  | cons character line inductionHypothesis =>
      rcases List.forall_mem_cons.mp unbroken with ⟨here, later⟩
      rw [splitLines_cons here]
      cases line with
      | nil => rfl
      | cons next line =>
          rw [inductionHypothesis later (List.cons_ne_nil _ _)]
          rfl

theorem splitLines_unlines {lines : List (List Char)} (unbroken : ∀ line, line ∈ lines -> Unbroken line) (rest : List Char) :
    splitLines (unlines lines ++ rest) = lines ++ splitLines rest := by
  induction lines with
  | nil => rfl
  | cons line lines inductionHypothesis =>
      rcases List.forall_mem_cons.mp unbroken with ⟨here, later⟩
      rw [unlines_cons, List.append_assoc, List.cons_append, splitLines_line here, inductionHypothesis later]
      rfl

/-- Stripping removes blank lines and the blanks in front of the first other line. -/
theorem stripStart_unlines (lines : List (List Char)) :
    ∃ kept, stripStart isSpace (unlines lines) = unlines kept ∧
      ∀ line, line ∈ kept -> ∃ original, original ∈ lines ∧ line <:+ original ∧ strip line = strip original := by
  induction lines with
  | nil => exact ⟨[], rfl, fun _ impossible => absurd impossible List.not_mem_nil⟩
  | cons line lines inductionHypothesis =>
      rw [unlines_cons, stripStart, List.dropWhile_append]
      by_cases blank : (line.dropWhile isSpace).isEmpty = true
      · rcases inductionHypothesis with ⟨kept, found, originals⟩
        refine ⟨kept, ?_, fun other inside => ?_⟩
        · rw [if_pos blank, List.dropWhile_cons_of_pos (by decide)]
          exact found
        · rcases originals other inside with ⟨original, known, rest⟩
          exact ⟨original, List.mem_cons_of_mem _ known, rest⟩
      · refine ⟨stripStart isSpace line :: lines, ?_, fun other inside => ?_⟩
        · rw [if_neg blank, unlines_cons]
          rfl
        · rcases List.mem_cons.mp inside with rfl | known
          · exact ⟨line, List.mem_cons_self, List.dropWhile_suffix _, strip_stripStart line⟩
          · exact ⟨other, List.mem_cons_of_mem _ known, List.suffix_rfl, rfl⟩

end Lines

/-! ## What the script reads of the trigger's output -/

section Trigger

/-- A line that the trigger can print before its results. -/
def Before (line : List Char) : Prop :=
  Unbroken line ∧ strip line ≠ banner

/-- A printed row: visible at both ends, and not empty. -/
def Printed (row : List Char) : Prop :=
  Unbroken row ∧ row ≠ [] ∧ Visible isSpace row

theorem unbroken_literal (text : List Char) (plain : text.all (fun character => !isLineBreak character) = true) :
    Unbroken (String.ofList text).toList := by
  rw [String.toList_ofList]
  exact fun character inside => Eq.mp (Bool.not_eq_true' _) (List.all_eq_true.mp plain character inside)

theorem printed_literal (text : List Char) (plain : text.all (fun character => !isLineBreak character) = true)
    (starts : text.head? = some '[') (finishes : text.getLast? = some ']') : Printed (String.ofList text).toList := by
  refine ⟨unbroken_literal text plain, ?_⟩
  rw [String.toList_ofList]
  refine ⟨fun empty => ?_, fun character inside => ?_, fun character inside => ?_⟩
  · rw [empty] at starts
    cases starts
  · rw [starts] at inside
    cases inside
    decide
  · rw [finishes] at inside
    cases inside
    decide

theorem banner_printed : Printed banner :=
  printed_literal _ rfl rfl rfl

/-- An output that is not empty has an empty line in front of it. -/
def spaced (rows : List (List Char)) : List (List Char) :=
  if rows = [] then [] else [] :: rows

/-- Blank lines at the end are lost. -/
theorem splitLines_stripEnd {lines : List (List Char)} {last blanks : List Char}
    (unbroken : ∀ line, line ∈ lines -> Unbroken line) (printed : Printed last)
    (allBlank : ∀ character, character ∈ blanks -> isSpace character = true) :
    splitLines (stripEnd isSpace (unlines (lines ++ [last]) ++ blanks)) = lines ++ [last] := by
  rcases printed with ⟨lastUnbroken, nonempty, visible⟩
  have finish := List.getLast?_eq_getLast_of_ne_nil nonempty
  have text : unlines (lines ++ [last]) ++ blanks = (unlines lines ++ last) ++ '\n' :: blanks := by
    rw [unlines_append, unlines_cons, List.append_assoc, List.append_assoc, List.append_assoc]
    rfl
  have shown : (unlines lines ++ last).getLast? = some (last.getLast nonempty) := by
    rw [List.getLast?_append_of_ne_nil _ nonempty, finish]
  rw [text, stripEnd_append (visible.finish _ finish) shown (List.forall_mem_cons.mpr ⟨by decide, allBlank⟩),
    splitLines_unlines unbroken, splitLines_last lastUnbroken nonempty]

/-- The lines of the trigger's output, of which those in front of the banner are not
the banner. -/
theorem splitLines_output {before rows : List (List Char)} (early : ∀ line, line ∈ before -> Before line)
    (printed : ∀ row, row ∈ rows -> Printed row) :
    ∃ kept, splitLines (strip (triggerOutput before (unlines rows))) = kept ++ banner :: spaced rows ∧
      ∀ line, line ∈ kept -> strip line ≠ banner := by
  have newline : ∀ count character, character ∈ List.replicate count '\n' -> isSpace character = true := by
    intro count character inside
    rw [List.eq_of_mem_replicate inside]
    decide
  have nothing : Before [] := ⟨fun _ impossible => absurd impossible List.not_mem_nil, by decide⟩
  have earlyToo : ∀ line, line ∈ before ++ [[]] -> Before line := by
    intro line inside
    rcases List.mem_append.mp inside with known | known
    · exact early line known
    · rw [List.mem_singleton.mp known]
      exact nothing
  rcases stripStart_unlines (before ++ [[]]) with ⟨kept, front, originals⟩
  have unbroken : ∀ line, line ∈ kept -> Unbroken line := by
    intro line inside
    rcases originals line inside with ⟨original, known, suffix, _⟩
    exact fun character here => (earlyToo original known).1 character (suffix.subset here)
  have other : ∀ line, line ∈ kept -> strip line ≠ banner := by
    intro line inside
    rcases originals line inside with ⟨original, known, _, same⟩
    rw [same]
    exact (earlyToo original known).2
  have start : stripStart isSpace (triggerOutput before (unlines rows)) =
      unlines (kept ++ [banner, []]) ++ (unlines rows ++ ['\n']) := by
    have opening : banner = '[' :: banner.tail := by
      unfold banner
      rw [String.toList_ofList]
      rfl
    have text : triggerOutput before (unlines rows) =
        unlines (before ++ [[]]) ++ '[' :: (banner.tail ++ '\n' :: '\n' :: (unlines rows ++ ['\n'])) := by
      rw [triggerOutput, opening, unlines_append, List.append_assoc]
      rfl
    rw [text, stripStart_append (by decide), front, ← List.cons_append, ← opening, unlines_append, List.append_assoc,
      unlines_cons, List.append_assoc]
    rfl
  refine ⟨kept, ?_, other⟩
  unfold strip Foundations.strip
  rw [start]
  rcases List.eq_nil_or_concat rows with rfl | ⟨init, last, rfl⟩
  · have text : unlines (kept ++ [banner, []]) ++ (unlines [] ++ ['\n']) = unlines (kept ++ [banner]) ++ List.replicate 2 '\n' := by
      rw [unlines_append, unlines_append, unlines_cons, unlines_cons, unlines_cons]
      simp only [List.append_assoc, List.cons_append]
      rfl
    rw [text, splitLines_stripEnd unbroken banner_printed (newline 2)]
    rfl
  · have text : unlines (kept ++ [banner, []]) ++ (unlines (init ++ [last]) ++ ['\n']) =
        unlines ((kept ++ banner :: [] :: init) ++ [last]) ++ List.replicate 1 '\n' := by
      have lines : (kept ++ banner :: [] :: init) ++ [last] = (kept ++ [banner, []]) ++ (init ++ [last]) := by
        simp only [List.append_assoc, List.cons_append, List.nil_append]
      rw [lines, unlines_append (kept ++ _), List.append_assoc]
      rfl
    rw [List.concat_eq_append] at printed ⊢
    rcases List.forall_mem_append.mp printed with ⟨initPrinted, lastPrinted⟩
    have spacedRows : spaced (init ++ [last]) = [] :: (init ++ [last]) :=
      if_neg (List.append_ne_nil_of_right_ne_nil _ (List.cons_ne_nil _ _))
    rw [text, splitLines_stripEnd _ (lastPrinted last List.mem_cons_self) (newline 1), spacedRows]
    · simp only [List.append_assoc, List.cons_append]
    · refine List.forall_mem_append.mpr ⟨unbroken, List.forall_mem_cons.mpr ⟨banner_printed.1, ?_⟩⟩
      exact List.forall_mem_cons.mpr ⟨nothing.1, fun row inside => (initPrinted row inside).1⟩

theorem relevantLines_output {before rows : List (List Char)} (early : ∀ line, line ∈ before -> Before line)
    (printed : ∀ row, row ∈ rows -> Printed row) :
    ∃ first, relevantLines (triggerOutput before (unlines rows)) = (spaced rows).zipIdx first := by
  rcases splitLines_output early printed with ⟨kept, lines, other⟩
  have index : startIndex (kept ++ banner :: spaced rows) = kept.length + 1 := by
    have absent : kept.findIdx? (fun line => strip line == banner) = none := by
      rw [List.findIdx?_eq_none_iff]
      exact fun line inside => beq_eq_false_iff_ne.mpr (other line inside)
    have here : (strip banner == banner) = true := beq_iff_eq.mpr banner_printed.2.2.strip_eq
    rw [startIndex, List.findIdx?_append, absent, Option.none_or, List.findIdx?_cons, here]
    exact congrArg (· + 1) (Nat.zero_add _)
  refine ⟨kept.length + 1 + 1, ?_⟩
  unfold relevantLines
  dsimp only
  rw [lines, index, List.drop_length_add_append]
  rfl

end Trigger

end Summary

/-! ## The rows of a report -/

namespace ReportLine

open Foundations Summary

variable {line : ReportLine}

/-- No line is cut off. -/
theorem printed_eq (inRange : line.InRange) : line.printed = line.row ++ ['\n'] := by
  unfold printed
  cases limited : line.bufferSize with
  | none => exact line.text_eq_row
  | some size =>
      have small : line.text.toList.length ≤ size - 1 := by
        rw [String.length_toList, text_length]
        exact Nat.le_sub_one_of_lt (Nat.lt_of_le_of_lt (width_le inRange) (limit_lt limited))
      dsimp only
      rw [List.take_of_length_le small, line.text_eq_row]

theorem title_ne_nil (line : ReportLine) : line.front.toList.dropLast ≠ [] := by
  rcases front_closing line with ⟨body, same, _, shown, finish, _⟩
  rw [same, List.dropLast_concat]
  rintro rfl
  cases finish

theorem unbroken_ratio {count total ending : List Char} (countDigits : AllDigits count) (totalDigits : AllDigits total)
    (unbroken : Unbroken ending) : Unbroken (' ' :: ratioText count total ending) := by
  have digits : ∀ {number : List Char}, AllDigits number -> Unbroken number := by
    intro number all character inside
    have title := @inTitle_of_isDigit '/' character (by decide) (all character inside)
    exact Eq.mp (Bool.not_eq_true' _) (Bool.and_eq_true_iff.mp title).2
  have closing : Unbroken (total ++ ')' :: ending) :=
    List.forall_mem_append.mpr ⟨digits totalDigits, List.forall_mem_cons.mpr ⟨by decide, unbroken⟩⟩
  refine List.forall_mem_cons.mpr ⟨by decide, List.forall_mem_cons.mpr ⟨by decide, ?_⟩⟩
  exact List.forall_mem_append.mpr ⟨digits countDigits, List.forall_mem_cons.mpr ⟨by decide, closing⟩⟩

theorem row_printed (line : ReportLine) : Printed line.row := by
  have title : Unbroken line.front.toList.dropLast := fun character inside => (inTitle_of_mem inside).2
  cases found : line.certainty with
  | none =>
      rw [row_of_no_certainty found]
      exact ⟨title, title_ne_nil line, title_visible line⟩
  | some ratio =>
      have ends := (back_eq line).2.2
      have unbroken := unbroken_ratio (allDigits_toString ratio.1) (allDigits_toString ratio.2)
        fun character inside => (ends character inside).1
      rw [row_of_certainty found]
      refine ⟨List.forall_mem_append.mpr ⟨title, unbroken⟩, List.append_ne_nil_of_left_ne_nil (title_ne_nil line) _, ?_⟩
      have start := (title_visible line).start
      have first := List.head?_eq_some_head (title_ne_nil line)
      refine ⟨fun character inside => start character ?_, fun character inside => ?_⟩
      · rwa [List.head?_append, first, Option.some_or, ← first] at inside
      · have split : ' ' :: ratioText (toString ratio.1).toList (toString ratio.2).toList line.back.toList.dropLast =
            (' ' :: '(' :: ((toString ratio.1).toList ++ '/' :: (toString ratio.2).toList)) ++
              ')' :: line.back.toList.dropLast := by
          simp only [ratioText, List.cons_append, List.append_assoc]
        rw [split, ← List.append_assoc, List.getLast?_append_of_ne_nil _ (List.cons_ne_nil _ _)] at inside
        rcases List.mem_cons.mp (List.mem_of_mem_getLast? inside) with rfl | ending
        · decide
        · exact (ends character ending).2

theorem unlines_rows {lines : List ReportLine} (inRange : ∀ line, line ∈ lines -> line.InRange) :
    lines.flatMap printed = unlines (lines.map row) := by
  rw [unlines, List.flatMap_map]
  exact List.flatMap_congr fun line inside => printed_eq (inRange line inside)

/-- Every line of the report is one line of the output: its text is a row without line
breaks and the one that ends it.  From this row the script reads the printed certainty
and the rest of the line. -/
theorem row_read (line : ReportLine) : line.text.toList = line.row ++ ['\n'] ∧ Unbroken line.row ∧
    cleanedLine line.row = line.label ∧ certaintyOf line.row = line.certainty :=
  ⟨line.text_eq_row, line.row_printed.1, line.cleanedLine_row, line.certaintyOf_row⟩

theorem label_ne_nil (line : ReportLine) : line.label ≠ [] :=
  List.append_ne_nil_of_left_ne_nil (title_ne_nil line) _

theorem row_readable (line : ReportLine) : Readable line.row := by
  intro ratio found
  rw [certaintyOf_row] at found
  rw [cleanedLine_row]
  refine ⟨?_, label_ne_nil line⟩
  cases line with
  | existence level misses =>
      dsimp only [certainty] at found
      split at found
      · cases found
        exact (by decide : iterations ≠ 0)
      · cases found
        exact (by decide : iterations ≠ 0)
  | hierarchyHeader level => cases found
  | unknownHashFunction level => cases found
  | permutationHeader level => cases found
  | permutationRow level index row => cases found
  | cannotEvaluateNesting level => cases found
  | _ =>
      cases found
      dsimp only
      decide

end ReportLine

/-! ## The summary of many reports -/

namespace Summary

open Foundations

/-- The trigger printed a report: first lines of its own, which the script skips,
and then the output of the kernel module. -/
def Prints (stdout : List Char) (lines : List ReportLine) : Prop :=
  (∀ line, line ∈ lines -> line.InRange) ∧
    ∃ before, (∀ line, line ∈ before -> Before line) ∧ stdout = triggerOutput before (lines.flatMap ReportLine.printed)

/-- The lines of some reports that have a label. -/
def labelled (reports : List (List ReportLine)) (label : List Char) : List ReportLine :=
  reports.flatten.filter fun line => decide (line.label = label)

/-- What the summary says of a label: how many lines have it, out of how many runs,
and the certainties of these lines in the order of the reports. -/
def summaryRow (reports : List (List ReportLine)) (label : List Char) : Row where
  output := label
  count := (labelled reports label).length
  runs := reports.length
  certainty :=
    let ratios := (labelled reports label).filterMap ReportLine.certainty
    if ratios = [] then none else some ratios

variable {attempts : Nat -> Nat -> Option (List Char)} {reports : List (List ReportLine)}

/-- The script reads the rows of the reports, with an empty line in front of each. -/
theorem allLines_reports (printing : List.Forall₂ Prints (successes attempts) reports) :
    (allLines attempts).map Prod.fst = reports.flatMap fun lines => spaced (lines.map ReportLine.row) := by
  unfold allLines
  generalize successes attempts = outputs at printing
  induction printing with
  | nil => rfl
  | @cons _ lines _ _ prints rest inductionHypothesis =>
      rcases prints with ⟨inRange, before, early, rfl⟩
      have rows : ∀ row, row ∈ lines.map ReportLine.row -> Printed row :=
        List.forall_mem_map.mpr fun line _ => line.row_printed
      rcases relevantLines_output early rows with ⟨first, relevant⟩
      rw [List.flatMap_cons, List.map_append, inductionHypothesis, ReportLine.unlines_rows inRange, relevant,
        List.zipIdx_map_fst]
      rfl

theorem filter_spaced (reports : List (List ReportLine)) {accepts : List Char -> Bool} (rejects : accepts [] = false) :
    (reports.flatMap fun lines => spaced (lines.map ReportLine.row)).filter accepts =
      (reports.flatten.map ReportLine.row).filter accepts := by
  have rejected : ¬ accepts [] = true := Bool.eq_false_iff.mp rejects
  induction reports with
  | nil => rfl
  | cons lines rest inductionHypothesis =>
      rw [List.flatMap_cons, List.filter_append, inductionHypothesis, List.flatten_cons, List.map_append, List.filter_append]
      congr 1
      unfold spaced
      split
      · rename_i empty
        rw [empty]
      · exact List.filter_cons_of_neg rejected

section Texts

variable {lines : List (List Char × Nat)}

theorem appearances_reports {label : List Char} (nonempty : label ≠ [])
    (texts : lines.map Prod.fst = reports.flatMap fun lines => spaced (lines.map ReportLine.row)) :
    (appearances lines label).map Prod.fst = (labelled reports label).map ReportLine.row := by
  have rejects : decide (cleanedLine [] = label) = false := decide_eq_false fun same => nonempty same.symm
  have accepts : (fun text => decide (cleanedLine text = label)) ∘ ReportLine.row =
      fun line => decide (line.label = label) := by
    funext line
    rw [Function.comp_apply, ReportLine.cleanedLine_row]
  have filtered : (lines.map Prod.fst).filter (fun text => decide (cleanedLine text = label)) =
      (appearances lines label).map Prod.fst := List.filter_map
  rw [texts, filter_spaced reports rejects, List.filter_map, accepts] at filtered
  exact filtered.symm

theorem ratiosOf_reports {label : List Char} (nonempty : label ≠ [])
    (texts : lines.map Prod.fst = reports.flatMap fun lines => spaced (lines.map ReportLine.row)) :
    ratiosOf (appearances lines label) = (labelled reports label).filterMap ReportLine.certainty := by
  have read : certaintyOf ∘ ReportLine.row = ReportLine.certainty := funext ReportLine.certaintyOf_row
  have found := @List.filterMap_map _ _ _ Prod.fst certaintyOf (appearances lines label)
  rw [appearances_reports nonempty texts, List.filterMap_map, read] at found
  exact found.symm

theorem outputsOf_reports
    (texts : lines.map Prod.fst = reports.flatMap fun lines => spaced (lines.map ReportLine.row)) :
    outputsOf lines = firstUses (reports.flatten.map ReportLine.label) := by
  have rejects : decide (¬ (cleanedLine [] = [] ∧ certaintyOf [] = none)) = false :=
    decide_eq_false fun makes => makes ⟨rfl, rfl⟩
  have accepts : ∀ text, text ∈ reports.flatten.map ReportLine.row ->
      decide (¬ (cleanedLine text = [] ∧ certaintyOf text = none)) = true := by
    refine List.forall_mem_map.mpr fun line _ => decide_eq_true fun empty => line.label_ne_nil ?_
    rw [← line.cleanedLine_row]
    exact empty.1
  have read : cleanedLine ∘ ReportLine.row = ReportLine.label := funext ReportLine.cleanedLine_row
  have filtered : (lines.map Prod.fst).filter (fun text => decide (¬ (cleanedLine text = [] ∧ certaintyOf text = none))) =
      (lines.filter fun numbered => decide (Makes numbered)).map Prod.fst := List.filter_map
  rw [texts, filter_spaced reports rejects, List.filter_eq_self.mpr accepts] at filtered
  have cleaned := congrArg (List.map cleanedLine) filtered
  rw [List.map_map, List.map_map, read] at cleaned
  rw [outputsOf, changesOf, List.map_map, cleaned]
  rfl

theorem readable_reports (texts : lines.map Prod.fst = reports.flatMap fun lines => spaced (lines.map ReportLine.row)) :
    ∀ numbered, numbered ∈ lines -> Readable numbered.1 := by
  intro numbered inside
  have known := @List.mem_map_of_mem _ _ _ _ Prod.fst inside
  rw [texts] at known
  rcases List.mem_flatMap.mp known with ⟨report, _, row⟩
  unfold spaced at row
  split at row
  · cases row
  · rcases List.mem_cons.mp row with empty | printed
    · rw [empty]
      intro ratio impossible
      cases impossible
    · rcases List.mem_map.mp printed with ⟨line, _, same⟩
      rw [← same]
      exact line.row_readable

end Texts

/-- The script never fails on reports.  Its summary has one row for each label, with
the number of lines that have the label and with their certainties.  Runs that were
not successful are skipped, as in the script, and of the others each is the printed
form of a report. -/
theorem evaluation_of_reports (printing : List.Forall₂ Prints (successes attempts) reports) :
    ∃ rows, evaluation attempts = .ok rows ∧
      rows.Perm ((firstUses (reports.flatten.map ReportLine.label)).map (summaryRow reports)) := by
  have texts := allLines_reports printing
  have readable := readable_reports texts
  have nonempty := nil_not_mem_of_readable attempts readable
  refine ⟨_, (evaluation_eq_ok attempts).mpr ⟨readable, rfl⟩, (printedRows_perm attempts nonempty).trans ?_⟩
  rw [outputsOf_reports texts] at nonempty ⊢
  refine List.Perm.of_eq (List.map_congr_left fun label known => ?_)
  have named : label ≠ [] := fun same => nonempty (same ▸ known)
  have count := congrArg List.length (appearances_reports named texts)
  rw [List.length_map, List.length_map] at count
  rw [rowOf, summaryRow, count, ← printing.length_eq, certainties, ratiosOf_reports named texts]

/-- Two successful runs, of which the first needs a second attempt. -/
def twoRuns (first last : List Char) (i attempt : Nat) : Option (List Char) :=
  if i = 0 ∧ attempt = 1 then some first else if i = 99 ∧ attempt = 0 then some last else none

/-- A level whose existence is certain in one of the two runs only. -/
def twoReports : List (List ReportLine) :=
  [[.existence 2 12, .existence 3 1000], [.existence 2 20]]

/-- Two runs that agree on the existence of one level, with different certainties,
and a second level that only the first run reports on. -/
theorem evaluation_of_reports_twoRuns :
    ∃ rows, evaluation (twoRuns (triggerOutput ["[*] 4K Pages:".toList] ((twoReports[0]).flatMap ReportLine.printed))
        (triggerOutput [] ((twoReports[1]).flatMap ReportLine.printed))) = .ok rows ∧
      rows.Perm
        [⟨"[*] Level 2 translation cache does exist!".toList, 2, 2, some [(988, 1000), (980, 1000)]⟩,
          ⟨"[*] Level 3 translation cache does not exist!".toList, 1, 2, some [(1000, 1000)]⟩] := by
  have early : ∀ line, line ∈ ["[*] 4K Pages:".toList] -> Before line :=
    List.forall_mem_singleton.mpr ⟨unbroken_literal _ rfl, by decide +kernel⟩
  have inRange : ∀ {level misses : Nat}, level ≤ 4 -> misses ≤ iterations -> (ReportLine.existence level misses).InRange :=
    fun levelSmall missesSmall => ⟨levelSmall, missesSmall⟩
  have firstRange : ∀ line, line ∈ twoReports[0] -> line.InRange :=
    List.forall_mem_cons.mpr ⟨inRange (by decide) (by decide),
      List.forall_mem_singleton.mpr (inRange (by decide) (by decide))⟩
  have lastRange : ∀ line, line ∈ twoReports[1] -> line.InRange :=
    List.forall_mem_singleton.mpr (inRange (by decide) (by decide))
  have first : Prints (triggerOutput ["[*] 4K Pages:".toList] ((twoReports[0]).flatMap ReportLine.printed)) twoReports[0] :=
    ⟨firstRange, _, early, rfl⟩
  have last : Prints (triggerOutput [] ((twoReports[1]).flatMap ReportLine.printed)) twoReports[1] :=
    ⟨lastRange, _, fun _ impossible => absurd impossible List.not_mem_nil, rfl⟩
  rcases @evaluation_of_reports (twoRuns _ _) twoReports (.cons first (.cons last .nil)) with ⟨rows, ends, printed⟩
  refine ⟨rows, ends, printed.trans (List.Perm.of_eq ?_)⟩
  decide +kernel

end Summary
end Talbot
