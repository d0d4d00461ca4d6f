import Talbot.Foundations.Responses
import Talbot.Kernel.Module

namespace Talbot

/-!
The kernel module under arbitrary responses of the machine.

The first part is about safety: which structures and hash functions a program
depends on.  The experiments that are not given a structure depend on none.  The
second part is about progress: what precedes and what makes up the structure
evaluation can end whatever was recorded before.
-/

open Foundations Program

/-! ## Safety -/

section Safety

/-- The operation only depends on the structures accepted for its level.  Calls of
hash functions and the start of a measurement name the structure they use; other
operations use none. -/
def UsesAccepted (accepted : Nat -> Option TranslationCache) : KernelOp -> Prop
  | .callHash pointer _ _ setBits level =>
      ∃ cache, accepted level = some cache ∧ cache.hashFunction = pointer ∧ cache.setBits = setBits
  | .enter _ cache level => accepted level = some cache
  | _ => True

variable {accepted : Nat -> Option TranslationCache}

section Operations

private theorem always_unit {post : Unit -> Prop} : (∀ value, post value) ↔ post () :=
  ⟨fun all => all (), fun holds _ => holds⟩

variable {address data : Nat}

@[simp] theorem always_readData {post : Nat -> Prop} :
    Always (UsesAccepted accepted) (readData address) post ↔ ∀ value, post value :=
  iff_of_eq (true_and _)

@[simp] theorem always_fetchInstruction {post : Nat -> Prop} :
    Always (UsesAccepted accepted) (fetchInstruction address) post ↔ ∀ value, post value :=
  iff_of_eq (true_and _)

@[simp] theorem always_access {access : MemoryAccess} {post : Nat -> Prop} :
    Always (UsesAccepted accepted) (access.access address) post ↔ ∀ value, post value := by
  cases access with
  | readData => exact always_readData
  | fetchInstruction => exact always_fetchInstruction

@[simp] theorem always_writeData {post : Unit -> Prop} :
    Always (UsesAccepted accepted) (writeData address data) post ↔ post () :=
  (iff_of_eq (true_and _)).trans always_unit

@[simp] theorem always_walkPageTable {post : PageTableWalk -> Prop} :
    Always (UsesAccepted accepted) (walkPageTable address) post ↔ ∀ walk, post walk :=
  iff_of_eq (true_and _)

@[simp] theorem always_clearNx {walk : PageTableWalk} {post : Unit -> Prop} :
    Always (UsesAccepted accepted) (clearNx walk) post ↔ post () :=
  (iff_of_eq (true_and _)).trans always_unit

@[simp] theorem always_switchLevel {level : Nat} {walks : PageTableWalk × PageTableWalk} {post : Unit -> Prop} :
    Always (UsesAccepted accepted) (switchLevel level walks) post ↔ post () :=
  (iff_of_eq (true_and _)).trans always_unit

@[simp] theorem always_flushMmuCaches {post : Unit -> Prop} :
    Always (UsesAccepted accepted) flushMmuCaches post ↔ post () :=
  (iff_of_eq (true_and _)).trans always_unit

@[simp] theorem always_getCr3 {post : Nat -> Prop} :
    Always (UsesAccepted accepted) getCr3 post ↔ ∀ value, post value :=
  iff_of_eq (true_and _)

@[simp] theorem always_setCr3 {value : Nat} {post : Unit -> Prop} :
    Always (UsesAccepted accepted) (setCr3 value) post ↔ post () :=
  (iff_of_eq (true_and _)).trans always_unit

@[simp] theorem always_getRandomLong {post : Nat -> Prop} :
    Always (UsesAccepted accepted) getRandomLong post ↔ ∀ value, post value :=
  iff_of_eq (true_and _)

@[simp] theorem always_kmalloc {post : (Nat -> Nat) -> Prop} :
    Always (UsesAccepted accepted) kmalloc post ↔ ∀ contents, post contents :=
  iff_of_eq (true_and _)

@[simp] theorem always_callHash {pointer : HashPointer} {targetAddress offset setBits level : Nat}
    {post : Nat -> Prop} :
    Always (UsesAccepted accepted) (callHash pointer targetAddress offset setBits level) post ↔
      (∃ cache, accepted level = some cache ∧ cache.hashFunction = pointer ∧ cache.setBits = setBits) ∧
        ∀ member, post member :=
  Iff.rfl

@[simp] theorem always_enter {user : StructureUser} {cache : TranslationCache} {level : Nat}
    {post : Unit -> Prop} :
    Always (UsesAccepted accepted) (enter user cache level) post ↔ accepted level = some cache ∧ post () :=
  and_congr_right fun _ => always_unit

@[simp] theorem always_ite {α : Type} {condition : Prop} [Decidable condition] {first second : Kernel α}
    {post : α -> Prop} :
    Always (UsesAccepted accepted) (if condition then first else second) post ↔
      if condition then Always (UsesAccepted accepted) first post
      else Always (UsesAccepted accepted) second post := by
  by_cases holds : condition
  · rw [if_pos holds, if_pos holds]
  · rw [if_neg holds, if_neg holds]

@[simp] theorem always_drawAddress {modulus level : Nat} :
    Always (UsesAccepted accepted) (drawAddress modulus level) fun _ => True := by
  simp [drawAddress, always_bind]

@[simp] theorem always_walkPair {complementary : Nat} :
    Always (UsesAccepted accepted) (walkPair address complementary) fun _ => True := by
  simp [walkPair, always_bind]

@[simp] theorem always_followChain {access : MemoryAccess} {bound start stop : Nat} :
    Always (UsesAccepted accepted) (followChain access bound start stop) fun _ => True :=
  always_while fun _ => by simp

end Operations

attribute [local simp] always_bind always_loop always_while

variable {configuration : Configuration} {bound level : Nat}

@[simp] theorem always_buildPointerChain {startAddress endAddress length : Nat} :
    Always (UsesAccepted accepted) (buildPointerChain configuration startAddress endAddress length level)
      fun _ => True := by
  simp [buildPointerChain, extendChain]

@[simp] theorem always_buildHugeChain {startAddress endAddress length : Nat} :
    Always (UsesAccepted accepted) (buildHugeChain startAddress endAddress length level) fun _ => True := by
  simp [buildHugeChain]

/-! ### Experiments that are not given a structure -/

theorem always_testCacheExistence :
    Always (UsesAccepted accepted) (testCacheExistence configuration level) fun _ => True := by
  simp [testCacheExistence]

theorem always_testSplitLayer {accessTarget accessChain : MemoryAccess} :
    Always (UsesAccepted accepted) (testSplitLayer configuration bound level accessTarget accessChain)
      fun _ => True := by
  simp [testSplitLayer]

theorem always_testSharedLayer :
    Always (UsesAccepted accepted) (testSharedLayer configuration level) fun _ => True := by
  simp [testSharedLayer]

theorem always_testHugeTlb :
    Always (UsesAccepted accepted) (testHugeTlb configuration bound level) fun _ => True := by
  simp [testHugeTlb]

theorem always_testHugePageEviction :
    Always (UsesAccepted accepted) (testHugePageEviction bound level) fun _ => True := by
  simp [testHugePageEviction]

theorem always_testSupportedPcids {amountPcids : Nat} {noflush : Bool} :
    Always (UsesAccepted accepted) (testSupportedPcids configuration level amountPcids noflush)
      fun _ => True := by
  simp [testSupportedPcids]

theorem always_testPcidRespect :
    Always (UsesAccepted accepted) (testPcidRespect configuration bound level) fun _ => True := by
  simp [testPcidRespect, drawPcid]

@[simp] theorem always_chainEvicts {targetAddress prefixAlignedAddress : Nat} {access : MemoryAccess} :
    Always (UsesAccepted accepted) (chainEvicts bound targetAddress prefixAlignedAddress level access)
      fun _ => True := by
  simp [chainEvicts, probeChain]

/-! ### Functions that are given one -/

section Given

variable {cache : TranslationCache} (known : accepted level = some cache)
include known

theorem always_buildPointerChainFromHash {startAddress endAddress length : Nat} :
    Always (UsesAccepted accepted) (buildPointerChainFromHash configuration startAddress endAddress length
      cache.hashFunction cache.setBits level) fun _ => True := by
  simp [buildPointerChainFromHash, extendChain, known]

theorem always_buildPointerChainFromHashSingle {startAddress endAddress length : Nat} :
    Always (UsesAccepted accepted) (buildPointerChainFromHashSingle configuration startAddress endAddress length
      cache.hashFunction cache.setBits level) fun _ => True := by
  simp [buildPointerChainFromHashSingle, extendChain, known]

theorem always_compareLinks {targetAddress length : Nat} :
    Always (UsesAccepted accepted) (compareLinks (fun target prefixAlignedAddress level =>
      chainEvicts bound target prefixAlignedAddress level .readData) targetAddress level cache.hashFunction
      cache.setBits length) fun _ => True := by
  apply always_loop
  intro index state
  cases state with
  | none => exact trivial
  | some state => simp [known]

theorem always_evictionSetAligns {targetAddress : Nat} :
    Always (UsesAccepted accepted) (evictionSetAlignsWithHashFunction configuration bound targetAddress level
      .readData cache.hashFunction cache.setBits cache.ways) fun _ => True := by
  unfold evictionSetAlignsWithHashFunction evictionSetAlignsWithHashFunctionWith
  rw [always_bind, always_enter, always_bind, always_bind]
  refine ⟨known, always_buildPointerChain.mono fun _ _ => always_chainEvicts.mono fun evicts _ => ?_⟩
  cases evicts with
  | false => trivial
  | true =>
      apply always_bind.mpr
      exact (always_compareLinks known).mono fun found _ => by cases found <;> trivial

theorem always_probeReplacement {setStart lastAddress nextAddress targetAddress position : Nat} :
    Always (UsesAccepted accepted) (probeReplacement configuration bound cache level setStart lastAddress
      nextAddress targetAddress position) fun _ => True := by
  simp [probeReplacement, probeAfterFillers, warmUp, always_buildPointerChainFromHashSingle known]

theorem always_resolvePosition {setStart lastAddress nextAddress position : Nat} {addressSet : Nat -> Nat}
    {arrays : (Nat -> Nat) × (Nat -> Nat)} :
    Always (UsesAccepted accepted) (resolvePosition configuration bound cache level setStart lastAddress
      nextAddress addressSet position arrays) fun _ => True := by
  simp [resolvePosition, always_probeReplacement known]

variable {translationCaches : Nat -> TranslationCache}

theorem always_determineReplacementOrder (same : translationCaches level = cache) {setStart : Nat} :
    Always (UsesAccepted accepted) (determineReplacementOrder configuration bound translationCaches setStart
      level) fun _ => True := by
  simp [determineReplacementOrder, lastLink, same, known, always_resolvePosition known]

theorem always_calculatePermutationVectors (same : translationCaches level = cache) :
    Always (UsesAccepted accepted) (calculatePermutationVectors configuration bound translationCaches level)
      fun _ => True := by
  simp [calculatePermutationVectors, same, known, always_determineReplacementOrder known same,
    always_buildPointerChainFromHashSingle known]

end Given

theorem always_testNesting {translationCaches : Nat -> TranslationCache}
    (known : accepted (level + 1) = some (translationCaches (level + 1))) :
    Always (UsesAccepted accepted) (testNesting configuration bound level translationCaches) fun _ => True := by
  simp [testNesting, nestingIteration, known, always_buildPointerChainFromHash known]

/-! ### The evaluations -/

theorem always_forLevels {count : Nat} {evaluate : Nat -> Kernel (List ReportLine)} {output : List ReportLine}
    (each : ∀ level, 2 ≤ level -> level < 2 + count ->
      Always (UsesAccepted accepted) (evaluate level) fun _ => True) :
    Always (UsesAccepted accepted) (forLevels count evaluate output) fun _ => True := by
  apply always_forRange (fun _ _ => True) 2 count output trivial
  intro level output lower upper _
  exact always_bind.mpr ((each level lower upper).mono fun _ _ => trivial)

theorem always_evaluateCacheExistence :
    Always (UsesAccepted accepted) (evaluateCacheExistence configuration level) fun _ => True := by
  simp [evaluateCacheExistence, always_testCacheExistence]

theorem always_evaluateCacheHierarchy :
    Always (UsesAccepted accepted) (evaluateCacheHierarchy configuration bound level) fun _ => True := by
  simp [evaluateCacheHierarchy, testSplitLayerInstructions, testSplitLayerData, always_testSplitLayer,
    always_testSharedLayer]

theorem always_evaluateReplacementPolicy {translationCaches : Nat -> TranslationCache}
    (known : accepted level = some (translationCaches level)) :
    Always (UsesAccepted accepted) (evaluateReplacementPolicy configuration bound translationCaches level)
      fun _ => True := by
  simp [evaluateReplacementPolicy, always_calculatePermutationVectors known rfl]

theorem always_evaluateNesting {translationCaches : Nat -> TranslationCache}
    (known : accepted (level + 1) = some (translationCaches (level + 1))) :
    Always (UsesAccepted accepted) (evaluateNesting configuration bound translationCaches level)
      fun _ => True := by
  apply always_bind.mpr
  apply (always_testNesting known).mono
  intro misses _
  cases misses with
  | none => trivial
  | some misses => simp

theorem always_evaluateHugeTlb :
    Always (UsesAccepted accepted) (evaluateHugeTlb configuration bound level) fun _ => True := by
  apply always_bind.mpr
  apply always_testHugeTlb.mono
  intro misses _
  cases misses with
  | none => trivial
  | some misses => simp

theorem always_evaluateSupportedPcids :
    Always (UsesAccepted accepted) (evaluateSupportedPcids configuration level) fun _ => True := by
  simp [evaluateSupportedPcids, evaluatePcidAmount, always_testSupportedPcids]

theorem always_evaluatePcidRespect :
    Always (UsesAccepted accepted) (evaluatePcidRespect configuration bound level) fun _ => True := by
  simp [evaluatePcidRespect, always_testPcidRespect]

end Safety

/-! ## Progress -/

section Progress

variable {configuration : Configuration} {bound level : Nat}

instance : Inhabited PageTableWalk :=
  ⟨⟨fun _ => none⟩⟩

section Operations

variable {address data : Nat}

@[simp] theorem possibly_readData {post : Nat -> Prop} :
    Possibly (readData address) post ↔ ∃ value, post value :=
  Iff.rfl

@[simp] theorem possibly_access {access : MemoryAccess} {post : Nat -> Prop} :
    Possibly (access.access address) post ↔ ∃ value, post value := by
  cases access <;> exact Iff.rfl

@[simp] theorem possibly_fetchInstruction {post : Nat -> Prop} :
    Possibly (fetchInstruction address) post ↔ ∃ value, post value :=
  Iff.rfl

@[simp] theorem possibly_writeData {post : Unit -> Prop} :
    Possibly (writeData address data) post ↔ post () :=
  ⟨fun ⟨_, holds⟩ => holds, fun holds => ⟨(), holds⟩⟩

@[simp] theorem possibly_walkPageTable {post : PageTableWalk -> Prop} :
    Possibly (walkPageTable address) post ↔ ∃ walk, post walk :=
  Iff.rfl

@[simp] theorem possibly_clearNx {walk : PageTableWalk} {post : Unit -> Prop} :
    Possibly (clearNx walk) post ↔ post () :=
  ⟨fun ⟨_, holds⟩ => holds, fun holds => ⟨(), holds⟩⟩

@[simp] theorem possibly_switchLevel {walks : PageTableWalk × PageTableWalk} {post : Unit -> Prop} :
    Possibly (switchLevel level walks) post ↔ post () :=
  ⟨fun ⟨_, holds⟩ => holds, fun holds => ⟨(), holds⟩⟩

@[simp] theorem possibly_flushMmuCaches {post : Unit -> Prop} :
    Possibly flushMmuCaches post ↔ post () :=
  ⟨fun ⟨_, holds⟩ => holds, fun holds => ⟨(), holds⟩⟩

@[simp] theorem possibly_getRandomLong {post : Nat -> Prop} :
    Possibly getRandomLong post ↔ ∃ value, post value :=
  Iff.rfl

@[simp] theorem possibly_callHash {pointer : HashPointer} {targetAddress offset setBits : Nat}
    {post : Nat -> Prop} :
    Possibly (callHash pointer targetAddress offset setBits level) post ↔ ∃ member, post member :=
  Iff.rfl

@[simp] theorem possibly_enter {user : StructureUser} {cache : TranslationCache} {post : Unit -> Prop} :
    Possibly (enter user cache level) post ↔ post () :=
  ⟨fun ⟨_, holds⟩ => holds, fun holds => ⟨(), holds⟩⟩

@[simp] theorem possibly_ite {α : Type} {condition : Prop} [Decidable condition] {first second : Kernel α}
    {post : α -> Prop} :
    Possibly (if condition then first else second) post ↔
      if condition then Possibly first post else Possibly second post := by
  by_cases holds : condition
  · rw [if_pos holds, if_pos holds]
  · rw [if_neg holds, if_neg holds]

@[simp] theorem possibly_drawAddress {modulus : Nat} :
    Possibly (drawAddress modulus level) fun _ => True := by
  simp [drawAddress, possibly_bind, Possibly]

@[simp] theorem possibly_walkPair {complementary : Nat} :
    Possibly (walkPair address complementary) fun _ => True := by
  simp [walkPair, possibly_bind, Possibly]

/-- A traversal that starts at its end is over. -/
@[simp] theorem possibly_followChain {access : MemoryAccess} {stop : Nat} :
    ∃ start, Possibly (followChain access bound start stop) fun _ => True := by
  refine ⟨stop, ?_⟩
  cases bound <;> simp [followChain, whileLoop, Possibly]

end Operations

attribute [local simp] possibly_bind possibly_loop Possibly

@[simp] theorem possibly_buildPointerChain {startAddress endAddress length : Nat} :
    Possibly (buildPointerChain configuration startAddress endAddress length level) fun _ => True := by
  simp [buildPointerChain, extendChain]

@[simp] theorem possibly_chainEvicts {targetAddress prefixAlignedAddress : Nat} {access : MemoryAccess} :
    Possibly (chainEvicts bound targetAddress prefixAlignedAddress level access) fun _ => True := by
  simp [chainEvicts, probeChain]

theorem possibly_compareLinks {targetAddress setBits length : Nat} {hash : HashPointer} :
    Possibly (compareLinks (fun target prefixAlignedAddress level =>
      chainEvicts bound target prefixAlignedAddress level .readData) targetAddress level hash setBits length)
      fun _ => True := by
  apply possibly_loop
  intro index state
  cases state with
  | none => exact trivial
  | some state => simp

@[simp] theorem possibly_evictionSetAligns {targetAddress setBits ways : Nat} {hash : HashPointer} :
    Possibly (evictionSetAlignsWithHashFunction configuration bound targetAddress level .readData hash setBits
      ways) fun _ => True := by
  unfold evictionSetAlignsWithHashFunction evictionSetAlignsWithHashFunctionWith
  rw [possibly_bind, possibly_enter, possibly_bind, possibly_bind]
  refine possibly_buildPointerChain.mono fun _ _ => possibly_chainEvicts.mono fun evicts _ => ?_
  cases evicts with
  | false => trivial
  | true =>
      apply possibly_bind.mpr
      exact possibly_compareLinks.mono fun found _ => by cases found <;> trivial

theorem possibly_testCacheExistence : Possibly (testCacheExistence configuration level) fun _ => True := by
  simp [testCacheExistence]

theorem possibly_testSplitLayer {accessTarget accessChain : MemoryAccess} :
    Possibly (testSplitLayer configuration bound level accessTarget accessChain) fun _ => True := by
  simp [testSplitLayer]

theorem possibly_testSharedLayer : Possibly (testSharedLayer configuration level) fun _ => True := by
  simp [testSharedLayer]

theorem possibly_forLevels {count : Nat} {evaluate : Nat -> Kernel (List ReportLine)}
    {output : List ReportLine} (each : ∀ level, Possibly (evaluate level) fun _ => True) :
    Possibly (forLevels count evaluate output) fun _ => True := by
  apply possibly_loop
  intro level output
  exact possibly_bind.mpr ((each level).mono fun _ _ => trivial)

theorem possibly_evaluateCacheExistence :
    Possibly (evaluateCacheExistence configuration level) fun _ => True := by
  simp [evaluateCacheExistence, possibly_testCacheExistence]

theorem possibly_evaluateCacheHierarchy :
    Possibly (evaluateCacheHierarchy configuration bound level) fun _ => True := by
  simp [evaluateCacheHierarchy, testSplitLayerInstructions, testSplitLayerData, possibly_testSplitLayer,
    possibly_testSharedLayer]

end Progress

end Talbot
