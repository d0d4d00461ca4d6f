import Mathlib.Data.Rat.Defs
import Mathlib.Logic.Function.Basic
import Talbot.Foundations.Tally

namespace Talbot
namespace CacheQuery

/-!
The scripts that compare a translation cache with a replacement policy
(`evaluate_huplru.py` and `evaluate_mrh.py`).

They run the trigger several times with the same queries, count for each query how
often which cache state was printed, and compare the most frequent one with the
result that the policy predicts.  The two scripts differ in their queries, results
and the name of the policy.
-/

open Foundations

abbrev Text : Type :=
  List Char

/-! ## Reading the output of a run -/

/-- `str.isspace` -/
def isSpace (character : Char) : Bool :=
  let code := character.toNat
  decide (0x9 ≤ code ∧ code ≤ 0xd) || decide (0x1c ≤ code ∧ code ≤ 0x20) || code == 0x85 || code == 0xa0 ||
    code == 0x1680 || decide (0x2000 ≤ code ∧ code ≤ 0x200a) || code == 0x2028 || code == 0x2029 ||
    code == 0x202f || code == 0x205f || code == 0x3000

/-- `str.strip` -/
def strip (text : Text) : Text :=
  ((text.dropWhile isSpace).reverse.dropWhile isSpace).reverse

/-- The line boundaries of `str.splitlines`. -/
def endsLine (character : Char) : Bool :=
  let code := character.toNat
  decide (0xa ≤ code ∧ code ≤ 0xd) || decide (0x1c ≤ code ∧ code ≤ 0x1e) || code == 0x85 || code == 0x2028 ||
    code == 0x2029

/-- `str.splitlines`; a carriage return and a newline are one boundary. -/
def splitLines : Text -> List Text
  | [] => []
  | '\r' :: '\n' :: rest => [] :: splitLines rest
  | character :: rest =>
      if endsLine character then [] :: splitLines rest
      else
        match splitLines rest with
        | [] => [[character]]
        | line :: lines => (character :: line) :: lines

/-- What follows the first `separator`, if there is one. -/
def afterSeparator (separator : Text) : Text -> Option Text
  | [] => none
  | character :: rest =>
      if separator.isPrefixOf (character :: rest) then some ((character :: rest).drop separator.length)
      else afterSeparator separator rest

/-- What precedes the first `separator`, or everything. -/
def beforeSeparator (separator : Text) : Text -> Text
  | [] => []
  | character :: rest =>
      if separator.isPrefixOf (character :: rest) then [] else character :: beforeSeparator separator rest

def cacheStateMarker : Text :=
  "Cache state: ".toList

/-- `line.split("Cache state: ")[1].strip()`, for the lines that have the marker. -/
def cacheState (line : Text) : Option Text :=
  (afterSeparator cacheStateMarker line).map fun rest => strip (beforeSeparator cacheStateMarker rest)

/-- The cache states that a run has printed. -/
def cacheStates (stdout : Text) : List Text :=
  (splitLines (strip stdout)).filterMap cacheState

/-- What the trigger prints for its queries and the cache states that it gets for them. -/
def triggerOutput (queries states : List Text) : Text :=
  (queries.zip states).flatMap fun pair =>
    "Query: ".toList ++ pair.1 ++ "\nCache state: ".toList ++ pair.2 ++ "\n".toList

/-! ## Collecting the outputs -/

/-- `max_attempts` -/
def maxAttempts : Nat := 3

/-- `iterations` of the scripts -/
def executions : Nat := 10

/-- The outputs of the runs that `run_command` processes.  An attempt that fails is
repeated, and an iteration in which all attempts fail is left out. -/
def successfulRuns (attempt : Nat -> Nat -> Option Text) : List Text :=
  (List.range executions).filterMap fun i => (List.range maxAttempts).findSome? (attempt i)

/-- Count the cache states of a run, one for each query.  `amount` is the length of
the list of dictionaries; an index behind it raises. -/
def recordStates (amount : Nat) : List Text -> Nat -> (Nat -> Tally Text) -> Option (Nat -> Tally Text)
  | [], _, outputs => some outputs
  | cacheState :: rest, currentVector, outputs =>
      if currentVector < amount then
        recordStates amount rest (currentVector + 1)
          (Function.update outputs currentVector ((outputs currentVector).add cacheState))
      else none

/-- The runs one after the other. -/
def collectOutputs (amount : Nat) : List Text -> (Nat -> Tally Text) -> Option (Nat -> Tally Text)
  | [], outputs => some outputs
  | stdout :: rest, outputs => do
      let outputs ← recordStates amount (cacheStates stdout) 0 outputs
      collectOutputs amount rest outputs

/-- `run_command`; `attempt` says what each attempt of an iteration prints, if it
succeeds. -/
def runCommand (arguments : List Text) (attempt : Nat -> Nat -> Option Text) : Option (Nat -> Tally Text) :=
  collectOutputs arguments.length (successfulRuns attempt) fun _ => []

/-! ## The verdict -/

/-- One of the scripts. -/
structure PolicyScript where
  policy : Text
  queries : List Text
  results : List Text
  same_length : queries.length = results.length

inductive PrintedLine where
  /-- `Most likely output for query "…" is not "…"` -/
  | notMostLikely (query result : Text)
  /-- `Measured outputs: …` -/
  | measuredOutputs (outputs : Tally Text)
  /-- `Translation cache seems to implement …!` -/
  | seemsToImplement (policy : Text)
  /-- `Translation cache does NOT appear to implement …!` -/
  | doesNotAppearToImplement (policy : Text)
  /-- `Likelyhood that translation cache implements …: …%` -/
  | likelyhood (policy : Text) (value : Rat)
  deriving DecidableEq

/-- The variables of the loop over the queries, and what it has printed. -/
structure Judgement where
  implements : Bool
  correctResultMeasured : Nat
  printed : List PrintedLine
  deriving DecidableEq

/-- One query.  `max` raises on an empty dictionary; a result that is not in the
dictionary counts nothing. -/
def judgeQuery (query result : Text) (outputs : Tally Text) (judgement : Judgement) : Option Judgement :=
  match outputs.most with
  | none => none
  | some maxKey =>
      if maxKey ≠ result then
        some
          { implements := false
            correctResultMeasured := judgement.correctResultMeasured + outputs.count result
            printed := judgement.printed ++ [.notMostLikely query result, .measuredOutputs outputs] }
      else
        some { judgement with correctResultMeasured := judgement.correctResultMeasured + outputs.count maxKey }

/-- The loop over the queries and their results. -/
def judgeQueries (commandOutputs : Nat -> Tally Text) : Nat -> List (Text × Text) -> Judgement -> Option Judgement
  | _, [], judgement => some judgement
  | i, (query, result) :: rest, judgement => do
      let judgement ← judgeQuery query result (commandOutputs i) judgement
      judgeQueries commandOutputs (i + 1) rest judgement

/-- The loop of a script on what `run_command` returns. -/
def judgeOutputs (script : PolicyScript) (commandOutputs : Nat -> Tally Text) : Option Judgement :=
  judgeQueries commandOutputs 0 (script.queries.zip script.results) ⟨true, 0, []⟩

/-- What a script makes of the outputs of the successful runs; `none` if it raises.
The outputs come in the order of the runs, which is all that the verdict can depend
on besides them. -/
def evaluateRuns (script : PolicyScript) (runs : List Text) : Option Judgement := do
  let commandOutputs ← collectOutputs script.queries.length runs fun _ => []
  judgeOutputs script commandOutputs

/-- A script. -/
def evaluatePolicy (script : PolicyScript) (attempt : Nat -> Nat -> Option Text) : Option Judgement := do
  let commandOutputs ← runCommand script.queries attempt
  judgeOutputs script commandOutputs

theorem evaluatePolicy_eq (script : PolicyScript) (attempt : Nat -> Nat -> Option Text) :
    evaluatePolicy script attempt = evaluateRuns script (successfulRuns attempt) :=
  rfl

def likelyhood (script : PolicyScript) (judgement : Judgement) : Rat :=
  judgement.correctResultMeasured / (executions * script.results.length)

/-- The two lines at the end. -/
def conclusion (script : PolicyScript) (judgement : Judgement) : List PrintedLine :=
  [if judgement.implements then .seemsToImplement script.policy else .doesNotAppearToImplement script.policy,
    .likelyhood script.policy (likelyhood script judgement)]

/-- `evaluate_huplru.py` -/
def huplru : PolicyScript where
  policy := "HUPLRU".toList
  queries := ["AABBCCDDE".toList, "AABBCCDDAE".toList, "AABBCCDDAEF".toList, "AABBCCDDEC".toList,
    "AABBCCDDECCF".toList, "AABCCDDE".toList, "AABCCDDEF".toList, "AABBCCDDAEDF".toList, "AABBCCDDAEDCDF".toList]
  results := ["BCDE".toList, "ACDE".toList, "ACDF".toList, "BCDE".toList, "CDEF".toList, "ACDE".toList,
    "ACDF".toList, "ADEF".toList, "CDEF".toList]
  same_length := rfl

/-- `evaluate_mrh.py` -/
def mrh : PolicyScript where
  policy := "MRH".toList
  queries := ["AABBCDAB".toList, "AABBCDABC".toList, "AABBCDABAC".toList, "AABBCDABBC".toList,
    "AABBCDABBAC".toList, "AABBCDABABC".toList, "AABBCDABBBC".toList, "AABBCDABBBAC".toList]
  results := ["AB".toList, "BC".toList, "BC".toList, "AC".toList, "BC".toList, "AC".toList, "AC".toList,
    "BC".toList]
  same_length := rfl

end CacheQuery
end Talbot
