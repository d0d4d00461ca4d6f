import Mathlib.Data.List.Sort
import Talbot.Foundations.OrderedMaps
import Talbot.Foundations.Scanning

namespace Talbot

/-!
The evaluation of many runs (`evaluation.py`).

The script runs the trigger, cuts the output into lines behind a banner, removes the
certainty from each line and counts how often the rest appears.  Its summary is a
list of rows, ordered by the line numbers.

The digits of a certainty are ASCII digits here, which is what the trigger prints.
Percentages are left as the numbers that they are calculated from.
-/

open Foundations

namespace Summary

/-! ## Characters and lines -/

/-- `str.isspace`, `\s` -/
def isSpace (character : Char) : Bool :=
  let code := character.toNat
  (9 ≤ code && code ≤ 13) || (28 ≤ code && code ≤ 32) || code == 133 || code == 160 || code == 5760 ||
    (8192 ≤ code && code ≤ 8202) || code == 8232 || code == 8233 || code == 8239 || code == 8287 || code == 12288

/-- Where `splitlines` ends a line. -/
def isLineBreak (character : Char) : Bool :=
  let code := character.toNat
  (10 ≤ code && code ≤ 13) || (28 ≤ code && code ≤ 30) || code == 133 || code == 8232 || code == 8233

/-- Put a character in front of the first line. -/
def prepend (character : Char) : List (List Char) -> List (List Char)
  | [] => [[character]]
  | line :: lines => (character :: line) :: lines

/-- `\r\n` ends one line. -/
def splitLines : List Char -> List (List Char)
  | [] => []
  | '\r' :: '\n' :: rest => [] :: splitLines rest
  | character :: rest =>
      if isLineBreak character then [] :: splitLines rest else prepend character (splitLines rest)

def strip : List Char -> List Char :=
  Foundations.strip isSpace

/-- `\((\d+?)\/(\d+?)\)`, with what follows.  The digits are those of ASCII; `\d` also
accepts decimal digits of other scripts, which no report contains. -/
def ratioAt (text : List Char) : Option ((List Char × List Char) × List Char) := do
  let text ← exactly '(' text
  let (count, text) ← someOf Char.isDigit text
  let text ← exactly '/' text
  let (total, text) ← someOf Char.isDigit text
  let text ← exactly ')' text
  return ((count, total), text)

/-- The length of a match of `[\s]+?\((\d+?)\/(\d+?)\)`. -/
def spacedRatioAt (text : List Char) : Nat :=
  match (do
    let (_, ratio) ← someOf isSpace text
    let (_, rest) ← ratioAt ratio
    return rest : Option (List Char)) with
  | some rest => text.length - rest.length
  | none => 0

/-- `cleaned_line` -/
def cleanedLine (line : List Char) : List Char :=
  strip (deleteMatches spacedRatioAt 0 line)

/-- The two numbers of `certainty`. -/
def certaintyOf (line : List Char) : Option (Nat × Nat) :=
  (firstMatch ratioAt line).map fun found =>
    (Nat.ofDigitChars 10 found.1.1 0, Nat.ofDigitChars 10 found.1.2 0)

/-! ## Collecting -/

/-- The exceptions that end the script. -/
inductive EvaluationError where
  | zeroDivision
  | emptyMaximum
  deriving DecidableEq, Repr

/-- An entry of `output_info`. A certainty is kept as the two numbers it divides, so
that nothing is lost to floating point. -/
structure OutputInfo where
  count : Nat
  lineNumbers : List Nat
  certainty : Option (List (Nat × Nat))
  deriving DecidableEq, Repr

def newInfo : OutputInfo :=
  ⟨0, [], none⟩

def OutputInfo.certify (ratio : Nat × Nat) (info : OutputInfo) : OutputInfo :=
  { info with certainty := some (info.certainty.getD [] ++ [ratio]) }

def OutputInfo.countLine (lineNumber : Nat) (info : OutputInfo) : OutputInfo where
  count := info.count + 1
  lineNumbers := if lineNumber ∈ info.lineNumbers then info.lineNumbers else info.lineNumbers ++ [lineNumber]
  certainty := info.certainty

/-- `output_info` -/
abbrev OutputInfos : Type :=
  OrderedMap (List Char) OutputInfo

/-- A certainty is kept as its two numbers.  The script divides them and prints the
quotient as a float; only the division by zero can fail for numbers whose quotient a
float can hold, and larger ones are no subject here. -/
def recordCertainty (cleaned : List Char) (certainty : Option (Nat × Nat)) (outputInfo : OutputInfos) :
    Except EvaluationError OutputInfos :=
  match certainty with
  | some ratio =>
      if ratio.2 = 0 then throw .zeroDivision
      else return outputInfo.change newInfo cleaned (OutputInfo.certify ratio)
  | none => return outputInfo

/-- Only non-empty lines are counted. -/
def countOccurrence (cleaned : List Char) (lineNumber : Nat) (outputInfo : OutputInfos) : OutputInfos :=
  if cleaned = [] then outputInfo else outputInfo.change newInfo cleaned (OutputInfo.countLine lineNumber)

def processLine (outputInfo : OutputInfos) (numbered : List Char × Nat) : Except EvaluationError OutputInfos := do
  let cleaned := cleanedLine numbered.1
  let outputInfo ← recordCertainty cleaned (certaintyOf numbered.1) outputInfo
  return countOccurrence cleaned numbered.2 outputInfo

def banner : List Char :=
  "[********************** RESULTS **********************]".toList

/-- Lines as they are printed. -/
def unlines (lines : List (List Char)) : List Char :=
  lines.flatMap fun line => line ++ ['\n']

/-- What the trigger prints: some lines before its results, and the output of the
kernel module behind the banner. -/
def triggerOutput (before : List (List Char)) (output : List Char) : List Char :=
  unlines before ++ '\n' :: (banner ++ '\n' :: '\n' :: (output ++ ['\n']))

/-- The first line of the output that matters. -/
def startIndex (lines : List (List Char)) : Nat :=
  match lines.findIdx? fun line => strip line == banner with
  | some index => index + 1
  | none => 0

/-- The lines behind the banner with their numbers. -/
def relevantLines (stdout : List Char) : List (List Char × Nat) :=
  let lines := splitLines (strip stdout)
  (lines.drop (startIndex lines)).zipIdx (startIndex lines + 1)

def processOutput (outputInfo : OutputInfos) (stdout : List Char) : Except EvaluationError OutputInfos :=
  (relevantLines stdout).foldlM processLine outputInfo

def maxAttempts : Nat := 3

/-- `iterations` of the script. -/
def executions : Nat := 100

/-- The output of the first attempt that does not raise `CalledProcessError`. -/
def firstSuccess (attempts : Nat -> Option (List Char)) : Option (List Char) :=
  (List.range maxAttempts).findSome? attempts

/-- One run, where `attempts i` are the outcomes of the `i`-th.  The state is
`output_info` with the number of runs. -/
def collectRun (attempts : Nat -> Nat -> Option (List Char)) (state : OutputInfos × Nat) (i : Nat) :
    Except EvaluationError (OutputInfos × Nat) :=
  match firstSuccess (attempts i) with
  | some stdout => do
      let outputInfo ← processOutput state.1 stdout
      return (outputInfo, state.2)
  | none => return (state.1, state.2 - 1)

def collectRuns (attempts : Nat -> Nat -> Option (List Char)) : Except EvaluationError (OutputInfos × Nat) :=
  (List.range executions).foldlM (collectRun attempts) ([], executions)

/-! ## The summary -/

/-- `max(info['line_numbers'])` -/
def positionOf (info : OutputInfo) : Except EvaluationError Nat :=
  match info.lineNumbers.max? with
  | some position => return position
  | none => throw .emptyMaximum

def addPosition (positions : List Nat) (entry : List Char × OutputInfo) : Except EvaluationError (List Nat) := do
  let position ← positionOf entry.2
  return if position ∈ positions then positions else positions ++ [position]

/-- A printed row: its probability is `count / runs`. -/
structure Row where
  output : List Char
  count : Nat
  runs : Nat
  certainty : Option (List (Nat × Nat))
  deriving DecidableEq, Repr

def makeRow (runs : Nat) (entry : List Char × OutputInfo) : Except EvaluationError Row :=
  if runs = 0 then throw .zeroDivision
  else return ⟨entry.1, entry.2.count, runs, entry.2.certainty⟩

/-- The entries at a position, the newest first. -/
def entriesAt (outputInfo : OutputInfos) (position : Nat) : OutputInfos :=
  outputInfo.reverse.filter fun entry => decide (entry.2.lineNumbers.max? = some position)

def summarise (outputInfo : OutputInfos) (runs : Nat) : Except EvaluationError (List Row) := do
  let positions ← outputInfo.foldlM addPosition []
  (positions.insertionSort (· ≤ ·)).flatMap (entriesAt outputInfo) |>.mapM (makeRow runs)

def evaluation (attempts : Nat -> Nat -> Option (List Char)) : Except EvaluationError (List Row) := do
  let (outputInfo, runs) ← collectRuns attempts
  summarise outputInfo runs

end Summary

end Talbot
