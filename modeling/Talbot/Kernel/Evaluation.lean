import Talbot.Kernel.EvictionSets
import Talbot.Kernel.Replacement

namespace Talbot

/-!
The evaluation of the experiments (`evaluation.c`): each function runs one
experiment and turns its miss count into lines of the report.

The structure search only depends on the miss counts of its candidates, so it
takes the candidate measurement as an argument; `evaluateCacheStructure` passes
`testHashFunction`.
-/

open Foundations Program

/-- One line of the report, with the numbers it prints. -/
inductive ReportLine where
  | existence (level misses : Nat)
  | hierarchyHeader (level : Nat)
  | splitInstructions (level misses : Nat)
  | splitData (level misses : Nat)
  | shared (level misses : Nat)
  | structureOf (hash : HashFunction) (level setBits ways certainty : Nat)
  | unknownHashFunction (level : Nat)
  | evictionSetAligns (level aligning : Nat)
  | evictionSetDoesNotAlign (level aligning : Nat)
  | permutationHeader (level : Nat)
  | permutationRow (level index : Nat) (row : List Int)
  | cannotEvaluateNesting (level : Nat)
  | nested (level misses : Nat)
  | notNested (level misses : Nat)
  | hugeTlbUnified (level misses : Nat)
  | hugeTlbSeparate (level certainty : Nat)
  | supportedPcids (level amountPcids noflush misses : Nat)
  | respectsPcids (level misses : Nat)
  | doesNotRespectPcids (level misses : Nat)
  deriving DecidableEq, Repr

namespace ReportLine

/-- `(%d/%d)` -/
def ratio (count total : Nat) : String :=
  "(" ++ toString count ++ "/" ++ toString total ++ ")"

def hashName : HashFunction -> String
  | .linHash => "LIN hash"
  | .linShiftHash => "LIN>>1 hash"
  | .xorHash => "XOR hash"

def text : ReportLine -> String
  | existence level misses =>
      if reachesThreshold misses iterations then
        "[*] Level " ++ toString level ++ " translation cache does not exist " ++
          ratio misses iterations ++ "!\n"
      else
        "[*] Level " ++ toString level ++ " translation cache does exist " ++
          ratio (iterations - misses) iterations ++ "!\n"
  | hierarchyHeader level => "[*] Level " ++ toString level ++ " translation cache:\n"
  | splitInstructions level misses =>
      "[*]\tLevel " ++ toString level ++ " split L1i " ++ ratio (iterations - misses) iterations ++ "\n"
  | splitData level misses =>
      "[*]\tLevel " ++ toString level ++ " split L1d " ++ ratio (iterations - misses) iterations ++ "\n"
  | shared level misses =>
      "[*]\tLevel " ++ toString level ++ " shared L2 " ++ ratio (iterations - misses) iterations ++ "\n"
  | structureOf hash level setBits ways certainty =>
      "[*] Level " ++ toString level ++ " translation cache structure: " ++
        toString ((1 : Nat) <<< setBits) ++ " Sets, " ++ toString ways ++ " Ways, " ++ hashName hash ++
        " " ++ ratio certainty iterations ++ ".\n"
  | unknownHashFunction level =>
      "[-] Level " ++ toString level ++ " translation cache uses an unknown hash function!\n"
  | evictionSetAligns level aligning =>
      "[-] Level " ++ toString level ++ " hash function and minimal eviction set align! " ++
        ratio aligning (iterations / 10) ++ "\n"
  | evictionSetDoesNotAlign level aligning =>
      "[-] Level " ++ toString level ++ " hash function does not align with minimal eviction set! " ++
        ratio (iterations / 10 - aligning) (iterations / 10) ++ "\n"
  | permutationHeader level => "[*] Level " ++ toString level ++ " permutation vectors:\n"
  | permutationRow level index row =>
      "[*]\tLevel " ++ toString level ++ " - Pi_" ++ toString index ++ ": (" ++
        ",".intercalate (row.map toString) ++ ")\n"
  | cannotEvaluateNesting level =>
      "[*] Cannot evaluate nesting for level " ++ toString level ++ " translation cache\n"
  | nested level misses =>
      "[*] Level " ++ toString level ++ " translation cache is nested in level " ++
        toString (level + 1) ++ " translation cache " ++ ratio misses iterations ++ ".\n"
  | notNested level misses =>
      "[*] Level " ++ toString level ++ " translation cache is NOT nested in level " ++
        toString (level + 1) ++ " translation cache " ++ ratio (iterations - misses) iterations ++ ".\n"
  | hugeTlbUnified level misses =>
      "[*] Level " ++ toString level ++ " translation cache and huge TLB are unified " ++
        ratio misses iterations ++ "\n"
  | hugeTlbSeparate level certainty =>
      "[*] Separate level " ++ toString level ++ " translation cache / huge TLB " ++
        ratio certainty iterations ++ "\n"
  | supportedPcids level amountPcids noflush misses =>
      "[*] Level " ++ toString level ++ " translation cache supports " ++ toString amountPcids ++
        " PCIDs (NOFLUSH = " ++ toString noflush ++ ") " ++ ratio misses iterations ++ "\n"
  | respectsPcids level misses =>
      "[*] Level " ++ toString level ++ " translation cache respects PCIDs " ++
        ratio misses iterations ++ "\n"
  | doesNotRespectPcids level misses =>
      "[*] Level " ++ toString level ++ " translation cache does NOT respect PCIDs " ++
        ratio (iterations - misses) iterations ++ "\n"

end ReportLine

section Evaluation

variable (configuration : Configuration)

def evaluateCacheExistence (level : Nat) : Kernel (List ReportLine) := do
  let misses ← testCacheExistence configuration level
  return [.existence level misses]

def evaluateCacheHierarchy (bound level : Nat) : Kernel (List ReportLine) := do
  let instructions ← testSplitLayerInstructions configuration bound level
  let data ← testSplitLayerData configuration bound level
  let shared ← testSharedLayer configuration level
  return [.hierarchyHeader level, .splitInstructions level instructions, .splitData level data,
    .shared level shared]

/-! ## The structure search -/

/-- Miss count of a candidate: ways, set bits, hash function and level. -/
abbrev CandidateMeasurement : Type :=
  Nat -> Nat -> HashFunction -> Nat -> Kernel Nat

/-- The locals of `evaluate_cache_structure` that its search updates.  The hash
function and the certainty are not initialised in the source. -/
structure SearchState where
  minimumSetBits : Nat
  minimumWays : Nat
  hashFunction : HashPointer
  certainty : Nat
  deriving DecidableEq, Repr

/-- `{lin_hash, lin_shift_hash/*, xor_hash*/}` -/
def candidateHashes : List HashFunction :=
  [.linHash, .linShiftHash]

def SearchState.accepts (state : SearchState) (ways setBits misses : Nat) : Bool :=
  reachesThreshold misses iterations &&
    (decide (ways < state.minimumWays) ||
      decide (ways ≤ state.minimumWays ∧ setBits < state.minimumSetBits))

/-- The hash functions of one candidate, up to the first that is accepted. -/
def tryHashes (measure : CandidateMeasurement) (level setBits ways : Nat) :
    List HashFunction -> SearchState -> Kernel SearchState
  | [], state => return state
  | hash :: rest, state => do
      let misses ← measure ways setBits hash level
      if state.accepts ways setBits misses then
        return { minimumSetBits := setBits, minimumWays := ways, hashFunction := .to hash,
                 certainty := misses }
      else tryHashes measure level setBits ways rest state

/-- The loop over the ways, cut off above the ways found so far.  The number of ways
itself is still tried, although a candidate with as many ways and more sets is not
accepted. -/
def searchRow (measure : CandidateMeasurement) (level setBits : Nat) (state : SearchState) :
    Kernel SearchState :=
  forRange (fun ways state => do
    if state.minimumWays < ways then
      return .done state
    let state ← tryHashes measure level setBits ways candidateHashes state
    return .next state) 1 32 state

def searchStructure (measure : CandidateMeasurement) (level : Nat) (state : SearchState) :
    Kernel SearchState :=
  forRange (fun setBits state => do
    let state ← searchRow measure level setBits state
    return .next state) 0 9 state

/-- The record is written only if the search found something smaller than the
placeholder, which has more ways and sets than any candidate. -/
def recordStructure (translationCaches : Nat -> TranslationCache) (level : Nat)
    (state : SearchState) : Nat -> TranslationCache :=
  let current := translationCaches level
  if state.minimumWays ≠ current.ways ∨ state.minimumSetBits ≠ current.setBits then
    Function.update translationCaches level
      { setBits := state.minimumSetBits, ways := state.minimumWays, hashFunction := state.hashFunction }
  else translationCaches

def structureLine (level : Nat) (state : SearchState) : ReportLine :=
  match state.hashFunction with
  | .to hash => .structureOf hash level state.minimumSetBits state.minimumWays state.certainty
  | _ => .unknownHashFunction level

/-- The locals `hash_function` and `certainty` are declared without a value;
`leftover` is what the stack holds there.  The minimal eviction sets are only
printed with `PRINT_MINIMAL_EVICTION_SET`, which is off. -/
def evaluateCacheStructureWith (measure : CandidateMeasurement) (bound : Nat)
    (leftover : HashPointer × Nat) (translationCaches : Nat -> TranslationCache) (level : Nat) :
    Kernel ((Nat -> TranslationCache) × List ReportLine) := do
  let current := translationCaches level
  let state ← searchStructure measure level
    { minimumSetBits := current.setBits, minimumWays := current.ways,
      hashFunction := leftover.1, certainty := leftover.2 }
  let translationCaches := recordStructure translationCaches level state
  let aligning ← forRange (fun _ aligning => do
    let targetAddress ← drawAddress (drawableEntries configuration level) level
    let aligns ← evictionSetAlignsWithHashFunction configuration bound targetAddress level .readData
      state.hashFunction state.minimumSetBits state.minimumWays
    return .next (if aligns then aligning + 1 else aligning)) 0 (iterations / 10) 0
  let alignment := if reachesThreshold aligning (iterations / 10)
    then ReportLine.evictionSetAligns level aligning
    else ReportLine.evictionSetDoesNotAlign level aligning
  return (translationCaches, [structureLine level state, alignment])

def measureCandidate (bound : Nat) : CandidateMeasurement :=
  fun ways setBits hash level => testHashFunction configuration bound ways setBits (.to hash) level

def evaluateCacheStructure (bound : Nat) (leftover : HashPointer × Nat)
    (translationCaches : Nat -> TranslationCache) (level : Nat) :
    Kernel ((Nat -> TranslationCache) × List ReportLine) :=
  evaluateCacheStructureWith configuration (measureCandidate configuration bound) bound leftover
    translationCaches level

/-! ## The remaining evaluations -/

def evaluateReplacementPolicy (bound : Nat) (translationCaches : Nat -> TranslationCache)
    (level : Nat) : Kernel (List ReportLine) := do
  let permutationVectors ← calculatePermutationVectors configuration bound translationCaches level
  let ways := (translationCaches level).ways
  return .permutationHeader level :: (List.range ways).map fun i =>
    .permutationRow level i ((List.range ways).map (permutationVectors i))

def evaluateNesting (bound : Nat) (translationCaches : Nat -> TranslationCache) (level : Nat) :
    Kernel (List ReportLine) := do
  let misses ← testNesting configuration bound level translationCaches
  match misses with
  | none => return [.cannotEvaluateNesting level]
  | some misses =>
      if reachesThreshold misses iterations then return [.nested level misses]
      else return [.notNested level misses]

/-- On a level other than 2 and 3 the test returns `-1`, which takes the second branch:
`ITERATIONS - misses` is then one more than `ITERATIONS`.  The device calls the
evaluation for the levels 2 and 3 only. -/
def evaluateHugeTlb (bound level : Nat) : Kernel (List ReportLine) := do
  let misses ← testHugeTlb configuration bound level
  match misses with
  | none => return [.hugeTlbSeparate level (iterations + 1)]
  | some misses =>
      if reachesThreshold misses iterations then return [.hugeTlbUnified level misses]
      else return [.hugeTlbSeparate level (iterations - misses)]

/-- The first number of PCIDs whose misses reach the threshold, or 4096. -/
def evaluatePcidAmount (level noflush : Nat) : Kernel ReportLine := do
  let (amountPcids, misses) ← forRange (fun amountPcids _ => do
    let misses ← testSupportedPcids configuration level amountPcids (noflush != 0)
    if reachesThreshold misses iterations then return .done (amountPcids, misses)
    else return .next (amountPcids + 1, misses)) 0 4096 (0, 0)
  return .supportedPcids level amountPcids noflush misses

def evaluateSupportedPcids (level : Nat) : Kernel (List ReportLine) := do
  let flushing ← evaluatePcidAmount configuration level 0
  let keeping ← evaluatePcidAmount configuration level 1
  return [flushing, keeping]

def evaluatePcidRespect (bound level : Nat) : Kernel (List ReportLine) := do
  let misses ← testPcidRespect configuration bound level
  if reachesThreshold misses iterations then return [.respectsPcids level misses]
  else return [.doesNotRespectPcids level misses]

end Evaluation

end Talbot
