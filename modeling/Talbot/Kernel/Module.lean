import Talbot.Kernel.Evaluation

namespace Talbot

/-!
One read of the device (`module.c`): every evaluation in turn, with the
translation cache records that the structure evaluation fills in for the later
ones.
-/

open Foundations Program

section Module

variable (configuration : Configuration)

/-- `DEFAULT_TRANSLATION_CACHE`: a structure nobody has determined.  Its ways and
set bits are larger than those of all candidates, and its hash function is null. -/
def defaultTranslationCache : TranslationCache where
  setBits := 99
  ways := 99
  hashFunction := .null

/-- The records on the stack of `device_read`; levels 0 and 1 are never used. -/
def initialTranslationCaches : Nat -> TranslationCache :=
  fun _ => defaultTranslationCache

/-- Run an evaluation for `count` levels from 2 on and append its lines. -/
def forLevels (count : Nat) (evaluate : Nat -> Kernel (List ReportLine)) (output : List ReportLine) :
    Kernel (List ReportLine) :=
  forRange (fun level output => do
    let lines ← evaluate level
    return .next (output ++ lines)) 2 count output

def deviceReadWith (measure : CandidateMeasurement) (bound : Nat)
    (leftover : Nat -> HashPointer × Nat) : Kernel (List ReportLine) := do
  let output ← forLevels 3 (evaluateCacheExistence configuration) []
  let output ← forLevels 3 (evaluateCacheHierarchy configuration bound) output
  let (translationCaches, output) ← forRange (fun level (translationCaches, output) => do
    let (translationCaches, lines) ← evaluateCacheStructureWith configuration measure bound
      (leftover level) translationCaches level
    return .next (translationCaches, output ++ lines)) 2 3 (initialTranslationCaches, output)
  let output ← forLevels 3 (evaluateReplacementPolicy configuration bound translationCaches) output
  let output ← forLevels 2 (evaluateNesting configuration bound translationCaches) output
  let output ← forLevels 2 (evaluateHugeTlb configuration bound) output
  let _ ← forRange (fun level _ => do
    let _ ← testHugePageEviction bound level
    return .next ()) 2 2 ()
  let output ← forLevels 3 (evaluateSupportedPcids configuration) output
  forLevels 3 (evaluatePcidRespect configuration bound) output

def deviceRead (bound : Nat) (leftover : Nat -> HashPointer × Nat) : Kernel (List ReportLine) :=
  deviceReadWith configuration (measureCandidate configuration bound) bound leftover

end Module

end Talbot
