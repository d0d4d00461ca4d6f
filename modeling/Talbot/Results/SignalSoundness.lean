import Talbot.Foundations.Sessions
import Talbot.Machine.SignalMarks

namespace Talbot

/-!
The soundness of the SIGNAL test.

An experiment concludes from reading `signal` that an access went through an
exchanged entry.  That is sound as long as no slot of the base and huge windows
holds `signal` and every complementary slot does.  Stale translations threaten
this: a write that still goes through an exchanged entry lands in the
complementary window.  The experiments write only after a flush and before the
next exchange, when every translation is the original one.
-/

open Foundations Program Paging

/-! ## The experiments -/

section Experiments

variable {configuration : Configuration} {state : Paging} {level : Nat} (windows : WindowsApart configuration)
  (isLevel : IsLevel level) (ready : Quiet state)

include windows isLevel ready

theorem safely_testCacheExistence :
    Safely configuration (testCacheExistence configuration level) state fun _ final => Quiet final := by
  refine safely_iterations iterations ready fun _ misses state ready => ?_
  refine ensures_then (safely_drawTarget windows isLevel stable_ready ready) ?_
  rintro target _ ⟨inside, ready⟩
  refine ensures_then (safely_walkPair ready _ _) ?_
  rintro _ _ ⟨rfl, ready⟩
  have stop := prefixAligned_inBase windows isLevel inside
  refine ensures_then (safely_writeData ready (inside.inBase windows isLevel).2 stop.pointer) fun _ _ ready => ?_
  refine ensures_then (safely_flush_ready ready) fun _ _ ready => ?_
  refine ensures_then (safely_access stable_ready ready .readData target) fun p _ ready => ?_
  exact safely_glance ready p fun _ _ restored => safely_finish restored _

theorem safely_testSplitLayer (bound : Nat) (accessTarget accessChain : MemoryAccess) :
    Safely configuration (testSplitLayer configuration bound level accessTarget accessChain) state
      fun _ final => Quiet final := by
  refine safely_iterations iterations ready fun _ misses state ready => ?_
  refine ensures_then (safely_drawTarget windows isLevel stable_ready ready) ?_
  rintro target _ ⟨inside, ready⟩
  refine ensures_then (safely_walkPair ready _ _) ?_
  rintro _ _ ⟨rfl, ready⟩
  have stop := prefixAligned_inBase windows isLevel inside
  refine ensures_then (safely_buildPointerChain windows isLevel ready (inside.inBase windows isLevel) stop.pointer)
    fun _ _ ready => ?_
  refine ensures_then (safely_flush_ready ready) fun _ _ ready => ?_
  refine ensures_then (ensures_forRange_kept (fun _ state => Quiet state) 0 128 () _ ready
    fun _ _ _ _ _ ready => ?_) fun _ _ ready => ?_
  · refine ensures_then (safely_drawTarget windows isLevel stable_ready ready) ?_
    rintro address _ ⟨_, ready⟩
    exact ensures_then (safely_access stable_ready ready .readData address) fun _ _ ready => ⟨(), Or.inl rfl, ready⟩
  refine ensures_then (safely_access stable_ready ready accessTarget target) fun p _ ready => ?_
  exact safely_look ready accessChain accessTarget bound p _ fun _ _ restored => safely_finish restored _

theorem safely_testSharedLayer :
    Safely configuration (testSharedLayer configuration level) state fun _ final => Quiet final := by
  refine safely_iterations iterations ready fun _ misses state ready => ?_
  refine ensures_then (safely_drawTarget windows isLevel stable_ready ready) ?_
  rintro target _ ⟨inside, ready⟩
  refine ensures_then (safely_walkPair ready _ _) ?_
  rintro _ _ ⟨rfl, ready⟩
  have stop := prefixAligned_inBase windows isLevel inside
  refine ensures_then (safely_writeData ready (inside.inBase windows isLevel).2 stop.pointer) fun _ _ ready => ?_
  refine ensures_then (safely_flush_ready ready) fun _ _ ready => ?_
  refine ensures_then (safely_access stable_ready ready .fetchInstruction target) fun p _ ready => ?_
  exact safely_glance ready p fun _ _ restored => safely_finish restored _

/-- The loop over the members ends early at the first miss, but only after the
entries have been exchanged back. -/
theorem safely_probeMember (bound ways setBits : Nat) (pointer : HashPointer) {start : Nat}
    (inside : InWindow configuration level start) (j misses : Nat) :
    Safely configuration (probeMember configuration bound ways setBits pointer level start j misses) state
      fun iteration final => ∃ value, (iteration = .next value ∨ iteration = .done value) ∧ Quiet final := by
  unfold probeMember
  refine ensures_then (safely_callHash ready pointer start j setBits level) ?_
  rintro target _ ⟨targetInside, ready⟩
  split
  · exact ⟨misses, Or.inl rfl, ready⟩
  refine ensures_then (safely_walkPair ready _ _) ?_
  rintro _ _ ⟨rfl, ready⟩
  have stop := prefixAligned_inBase windows isLevel targetInside
  refine ensures_then (safely_buildPointerChainFromHash windows isLevel ready (inside.inBase windows isLevel)
    stop.pointer) fun _ _ ready => ?_
  refine ensures_then (safely_flush_ready ready) fun _ _ ready => ?_
  refine ensures_then (safely_access stable_ready ready .readData start) fun p _ ready => ?_
  refine ensures_then (safely_followChain stable_ready ready .readData bound p _) fun p _ ready => ?_
  refine ensures_then (safely_switch_ready ready level target _) fun _ _ exposed => ?_
  refine ensures_then (safely_access (stable_exposed _ _) exposed .readData p) fun value _ exposed => ?_
  split
  · refine ensures_then (safely_switch_exposed exposed) fun _ _ restored => ?_
    exact ensures_then (safely_flush_restored restored) fun _ _ ready => ⟨misses + 1, Or.inr rfl, ready⟩
  · exact ensures_then (safely_switch_exposed exposed) fun _ _ restored => safely_finish restored _

theorem safely_testHashFunction (bound ways setBits : Nat) (pointer : HashPointer) :
    Safely configuration (testHashFunction configuration bound ways setBits pointer level) state
      fun _ final => Quiet final := by
  refine safely_iterations iterations ready fun _ misses state ready => ?_
  refine ensures_then (safely_drawStart windows isLevel ready) ?_
  rintro start _ ⟨inside, ready⟩
  refine ensures_then (ensures_forRange_kept (fun _ state => Quiet state) 0 ways misses _ ready
    fun j misses _ _ _ ready => safely_probeMember windows isLevel ready bound ways setBits pointer inside j misses) ?_
  exact fun misses _ ready => ⟨misses, Or.inl rfl, ready⟩

end Experiments

/-! ## Nesting and huge pages -/

section Upper

variable {configuration : Configuration} {state : Paging} {level : Nat}

/-- Clearing the lower bits of a drawn address does not leave the base window. The
base address starts an entry of the upper level, so the entry of the drawn address
does not begin below it. -/
theorem isolated_inBase (windows : WindowsApart configuration) (isLevel : IsLevel level) (lowest : level ≤ 3)
    {target : Nat} (inside : InWindow configuration level target) :
    InBase (isolatedUpperLevelTarget level target) := by
  have targetInBase := inside.inBase windows isLevel
  have fits : target < 2 ^ 64 := Nat.lt_of_lt_of_le targetInBase.2 (by decide)
  have upper : IsLevel (level + 1) := ⟨Nat.le_succ_of_le isLevel.1, Nat.succ_le_succ lowest⟩
  rw [isolatedUpperLevelTarget, clear_low_eq _ fits]
  constructor
  · rw [baseAddress_eq upper, pageAddress_zero, Nat.shiftLeft_eq, Nat.shiftLeft_eq]
    apply Nat.mul_le_mul_right
    rw [baseEntry, entryOf, Nat.shiftRight_eq_div_pow, Nat.shiftRight_eq_div_pow]
    exact Nat.div_le_div_right inside.1
  · apply Nat.lt_of_le_of_lt _ targetInBase.2
    rw [Nat.shiftLeft_eq, Nat.shiftRight_eq_div_pow]
    exact Nat.div_mul_le_self _ _

theorem safely_nestingIteration (windows : WindowsApart configuration) (isLevel : IsLevel level) (lowest : level ≤ 3)
    (ready : Quiet state) (bound : Nat) (inclusive : TranslationCache) (misses : Nat) :
    Safely configuration (nestingIteration configuration bound level inclusive misses) state
      fun _ final => Quiet final := by
  have upper : IsLevel (level + 1) := ⟨Nat.le_succ_of_le isLevel.1, Nat.succ_le_succ lowest⟩
  unfold nestingIteration
  refine ensures_then (safely_drawStart windows isLevel ready) ?_
  rintro target _ ⟨inside, ready⟩
  refine ensures_then (safely_walkPair ready _ _) ?_
  rintro _ _ ⟨rfl, ready⟩
  have isolated := isolated_inBase windows isLevel lowest inside
  have stop := prefixAligned_inBase windows isLevel inside
  refine ensures_then (safely_buildPointerChainFromHash windows upper ready isolated stop.pointer) fun _ _ ready => ?_
  refine ensures_then (safely_readData ready isolated.2) ?_
  rintro firstLink _ ⟨pointer, ready⟩
  refine ensures_then (safely_writeData ready (inside.inBase windows isLevel).2 pointer) fun _ _ ready => ?_
  refine ensures_then (safely_flush_ready ready) fun _ _ ready => ?_
  refine ensures_then (safely_access stable_ready ready .readData target) fun p _ ready => ?_
  refine safely_look ready .readData .readData bound p _ fun _ _ restored => ?_
  exact ensures_then (safely_flush_restored restored) fun _ _ ready => ready

theorem safely_testNesting (windows : WindowsApart configuration) (isLevel : IsLevel level) (ready : Quiet state)
    (bound : Nat) (translationCaches : Nat -> TranslationCache) :
    Safely configuration (testNesting configuration bound level translationCaches) state fun _ final => Quiet final := by
  unfold testNesting
  split
  · exact ready
  dsimp only
  split
  · exact ready
  case isFalse.isFalse small _ =>
    refine ensures_then (safely_enter ready _ _ _) fun _ _ ready => ?_
    refine ensures_then (safely_iterations iterations ready fun _ misses state ready => ?_) fun _ _ ready => ready
    refine ensures_then (safely_nestingIteration windows isLevel (Nat.le_of_not_lt small) ready bound _ misses) ?_
    exact fun misses _ ready => ⟨misses, Or.inl rfl, ready⟩

/-- The links of a huge chain stay in the huge window. -/
theorem hugeBase_inBase (hugeLevel : level = 2 ∨ level = 3) (page offset : Nat) (small : page < amountHugePages level)
    (near : offset ≤ 16 * 2048) : InBase (hugeBase level + (page <<< pageTableIndexShift level) + offset) := by
  unfold InBase baseAddress complementaryBaseAddress
  rw [Nat.shiftLeft_eq]
  rcases hugeLevel with rfl | rfl <;>
  · simp only [hugeBase, amountHugePages, amount2MPages, amount1GPages, huge2MBBaseAddress, huge1GBBaseAddress,
      pageTableIndexShift, if_true, if_false, Nat.reduceEqDiff] at small ⊢
    omega

theorem safely_buildHugeChain (hugeLevel : level = 2 ∨ level = 3) (ready : Quiet state) {stop : Nat}
    (pointer : Pointer stop) :
    Safely configuration (buildHugeChain (hugeBase level) stop (amountHugePages level - 1) level) state
      fun _ final => Quiet final := by
  have many : amountHugePages level ≤ 2048 := by
    rcases hugeLevel with rfl | rfl <;> decide
  have positive : 0 < amountHugePages level := by
    rcases hugeLevel with rfl | rfl <;> decide
  have start := hugeBase_inBase hugeLevel 0 0 positive (Nat.zero_le _)
  rw [Nat.zero_shiftLeft] at start
  unfold buildHugeChain
  refine ensures_then (ensures_forRange (fun index (carried : Nat × Nat) state =>
    carried.1 = 16 * index ∧ InBase carried.2 ∧ Quiet state) 0 _ (0, hugeBase level) state ⟨rfl, start, ready⟩ ?_) ?_
  · rintro index ⟨pageOffset, last⟩ state _ below ⟨rfl, inBase, ready⟩
    have link := hugeBase_inBase hugeLevel (index + 1) (16 * index) (by omega) (by omega)
    refine ensures_then (safely_writeData ready inBase.2 link.pointer) fun _ _ ready => ?_
    exact ⟨_, rfl, by rw [Nat.mul_add], link, ready⟩
  · rintro ⟨pageOffset, last⟩ _ ⟨_, inBase, ready⟩
    exact safely_writeData ready inBase.2 pointer

theorem hugeLevel_isLevel (hugeLevel : level = 2 ∨ level = 3) : IsLevel level := by
  rcases hugeLevel with rfl | rfl <;> decide

theorem safely_testHugeTlb (windows : WindowsApart configuration) (hugeLevel : level = 2 ∨ level = 3)
    (ready : Quiet state) (bound : Nat) :
    Safely configuration (testHugeTlb configuration bound level) state fun _ final => Quiet final := by
  have isLevel := hugeLevel_isLevel hugeLevel
  have huge : InBase (hugeBase level) := by
    unfold InBase
    rcases hugeLevel with rfl | rfl <;> decide
  unfold testHugeTlb
  rw [if_neg (by omega)]
  refine ensures_then (safely_iterations iterations ready fun _ misses state ready => ?_) fun _ _ ready =>
    ensures_then (safely_flush_ready ready) fun _ _ ready => ready
  refine ensures_then (safely_drawTarget windows isLevel stable_ready ready) ?_
  rintro target _ ⟨inside, ready⟩
  refine ensures_then (safely_walkPair ready _ _) ?_
  rintro _ _ ⟨rfl, ready⟩
  have stop := prefixAligned_inBase windows isLevel inside
  refine ensures_then (safely_buildHugeChain hugeLevel ready stop.pointer) fun _ _ ready => ?_
  refine ensures_then (safely_writeData ready (inside.inBase windows isLevel).2 huge.pointer) fun _ _ ready => ?_
  refine ensures_then (safely_flush_ready ready) fun _ _ ready => ?_
  refine ensures_then (safely_access stable_ready ready .readData target) fun p _ ready => ?_
  exact safely_look ready .readData .readData bound p _ fun _ _ restored => safely_finish restored _

theorem safely_testHugePageEviction (hugeLevel : level = 2 ∨ level = 3) (ready : Quiet state) (bound : Nat) :
    Safely configuration (testHugePageEviction bound level) state fun _ final => Quiet final := by
  have huge : InBase (hugeBase level) := by
    unfold InBase
    rcases hugeLevel with rfl | rfl <;> decide
  refine safely_iterations iterations ready fun _ misses state ready => ?_
  refine ensures_then (safely_walkPair ready _ _) ?_
  rintro _ _ ⟨rfl, ready⟩
  refine ensures_then (safely_buildHugeChain hugeLevel ready huge.pointer) fun _ _ ready => ?_
  refine ensures_then (safely_flush_ready ready) fun _ _ ready => ?_
  refine ensures_then (safely_access stable_ready ready .readData _) fun p _ ready => ?_
  exact safely_look ready .readData .readData bound p _ fun _ _ restored => safely_finish restored _

end Upper

/-! ## Eviction sets -/

section EvictionSets

variable {configuration : Configuration} {state : Paging} {level target : Nat}

theorem safely_chainEvicts (ready : Quiet state) (bound stop : Nat) (access : MemoryAccess) :
    Safely configuration (chainEvicts bound target stop level access) state fun _ final => Quiet final := by
  unfold chainEvicts
  refine ensures_then (safely_walkPageTable ready _) ?_
  rintro _ _ ⟨rfl, ready⟩
  refine ensures_then (safely_clearNx ready _) fun _ _ ready => ?_
  refine ensures_then (safely_iterations iterations ready fun _ misses state ready => ?_) fun _ _ ready => ready
  unfold probeChain
  refine ensures_then (ensures_then (safely_walkPageTable ready target) ?_) fun misses _ ready =>
    ⟨misses, Or.inl rfl, ready⟩
  rintro _ _ ⟨rfl, ready⟩
  refine ensures_then (safely_clearNx ready _) fun _ _ ready => ?_
  refine ensures_then (safely_flush_ready ready) fun _ _ ready => ?_
  refine ensures_then (safely_access stable_ready ready access target) fun p _ ready => ?_
  refine safely_look ready access access bound p stop fun _ _ restored => ?_
  exact ensures_then (safely_flush_restored restored) fun _ _ ready => ready

/-- The machine on the runs in which every link of the target that is written, also
one that a search writes without asking for the window, lies inside the window. -/
def linksWithin (configuration : Configuration) (level target : Nat) : Behaviour kernelInterface Paging :=
  fun op state response final => may (InWindow configuration) op state response final ∧
    ∀ address index, op = .writeData address (target + (index <<< pageTableIndexShift level)) ->
      InWindow configuration level (target + (index <<< pageTableIndexShift level))

/-- The same for a program on these runs only. -/
abbrev SafelyLinked (configuration : Configuration) (level target : Nat) {α : Type} (program : Kernel α)
    (state : Paging) (post : α -> Paging -> Prop) : Prop :=
  Ensures (linksWithin configuration level target) (fun state _ => SignalMarks state) True program state post

theorem safely_linked {α : Type} {program : Kernel α} {post : α -> Paging -> Prop}
    (safely : Safely configuration program state post) : SafelyLinked configuration level target program state post :=
  safely.restrict fun _ _ _ _ allowed => allowed.1

/-- A link that a search writes lies inside the window, since the run is one of those considered. -/
theorem safely_writeLink (ready : Quiet state) {address : Nat} (below : address < complementaryBaseAddress)
    (index : Nat) (windows : WindowsApart configuration) (isLevel : IsLevel level) :
    SafelyLinked configuration level target
      (writeData address (target + (index <<< pageTableIndexShift level))) state fun _ final =>
        InWindow configuration level (target + (index <<< pageTableIndexShift level)) ∧ Quiet final := by
  refine ⟨stable_ready.marks state ready, ?_⟩
  rintro _ final ⟨⟨slot, stored, rfl⟩, links⟩
  have inside := links address index rfl
  rcases ready with ⟨memory, sound, calm⟩
  rw [calm.targets_eq, List.mem_singleton] at stored
  subst stored
  exact ⟨inside, _, sound.store below (inside.inBase windows isLevel).pointer, calm.store _ _⟩

variable (windows : WindowsApart configuration) (isLevel : IsLevel level)

include windows isLevel

theorem safely_growChain (ready : Quiet state) (inBase : InBase target) (pointer : Pointer (prefixAligned target level))
    (bound : Nat) (access : MemoryAccess) :
    Safely configuration (growChain configuration (fun target stop level => chainEvicts bound target stop level access)
      target level) state fun _ final => Quiet final := by
  unfold growChain
  refine ensures_forRange_kept (fun _ state => Quiet state) 2 (512 - 2) 2 state ready fun length _ state _ _ ready => ?_
  refine ensures_then (safely_buildPointerChain windows isLevel ready inBase pointer) fun _ _ ready => ?_
  refine ensures_then (safely_chainEvicts ready bound _ access) fun evicts _ ready => ?_
  cases evicts with
  | true => exact ⟨length, Or.inr rfl, ready⟩
  | false => exact ⟨length + 1, Or.inl rfl, ready⟩

theorem safely_deleteLinks (ready : Quiet state) (inside : InWindow configuration level target) (bound length : Nat)
    (access : MemoryAccess) :
    SafelyLinked configuration level target (deleteLinks (fun target stop level =>
      chainEvicts bound target stop level access) target level length) state fun _ final => Quiet final := by
  unfold deleteLinks
  refine (ensures_forRange_kept (fun (deletion : DeletionState) state =>
    InBase deletion.lastMandatoryAddress ∧ Quiet state) 1 (length - 1) _ state
    ⟨inside.inBase windows isLevel, ready⟩ ?_).mono fun _ _ holds => holds.2
  rintro index deletion state positive below ⟨inBase, ready⟩
  refine ensures_then (safely_writeLink ready inBase.2 (index + 1) windows isLevel) ?_
  rintro _ _ ⟨_, ready⟩
  refine ensures_then (safely_linked (safely_chainEvicts ready bound _ access)) fun evicts _ ready => ?_
  cases evicts with
  | true => exact ⟨deletion, Or.inl rfl, inBase, ready⟩
  | false =>
      refine ensures_then (safely_writeLink ready inBase.2 index windows isLevel) ?_
      rintro _ _ ⟨current, ready⟩
      exact ⟨_, Or.inl rfl, current.page windows isLevel (by decide), ready⟩

theorem safely_findMinimalEvictionSet (ready : Quiet state) (inside : InWindow configuration level target)
    (bound : Nat) (access : MemoryAccess) :
    SafelyLinked configuration level target (findMinimalEvictionSet configuration bound target level access) state
      fun _ final => Quiet final := by
  have stop := prefixAligned_inBase windows isLevel inside
  unfold findMinimalEvictionSet findMinimalEvictionSetWith
  refine ensures_then (safely_linked (safely_growChain windows isLevel ready (inside.inBase windows isLevel)
    stop.pointer bound access)) fun length _ ready => ?_
  refine ensures_then (safely_linked (safely_chainEvicts ready bound _ access)) fun evicts _ ready => ?_
  cases evicts with
  | false => exact ready
  | true =>
      exact ensures_then (safely_deleteLinks windows isLevel ready inside bound length access) fun _ _ ready => ready

theorem safely_compareLinks (ready : Quiet state) (inside : InWindow configuration level target) (bound length : Nat)
    (access : MemoryAccess) (pointer : HashPointer) (setBits : Nat) :
    SafelyLinked configuration level target (compareLinks (fun target stop level =>
      chainEvicts bound target stop level access) target level pointer setBits length) state
      fun _ final => Quiet final := by
  unfold compareLinks
  refine (ensures_forRange_kept (fun (deletion : Option DeletionState) state =>
    (∀ current, deletion = some current -> InBase current.lastMandatoryAddress) ∧ Quiet state) 1 (length - 1) _ state
    ⟨?_, ready⟩ ?_).mono fun _ _ holds => holds.2
  · intro current same
    rw [← Option.some.inj same]
    exact inside.inBase windows isLevel
  · rintro index deletion state positive below ⟨inBase, ready⟩
    cases deletion with
    | none => exact ⟨none, Or.inr rfl, inBase, ready⟩
    | some deletion =>
        have lastInBase := inBase deletion rfl
        refine ensures_then (safely_writeLink ready lastInBase.2 (index + 1) windows isLevel) ?_
        rintro _ _ ⟨_, ready⟩
        refine ensures_then (safely_linked (safely_chainEvicts ready bound _ access)) fun evicts _ ready => ?_
        cases evicts with
        | true => exact ⟨some deletion, Or.inl rfl, inBase, ready⟩
        | false =>
            refine ensures_then (safely_linked (safely_callHash ready pointer _ _ _ _)) ?_
            rintro member _ ⟨_, ready⟩
            split
            · exact ⟨none, Or.inr rfl, nofun, ready⟩
            · refine ensures_then (safely_writeLink ready lastInBase.2 index windows isLevel) ?_
              rintro _ _ ⟨current, ready⟩
              refine ⟨_, Or.inl rfl, fun next same => ?_, ready⟩
              rw [← Option.some.inj same]
              exact current.page windows isLevel (by decide)

theorem safely_evictionSetAligns (ready : Quiet state) (inside : InWindow configuration level target)
    (bound setBits ways : Nat) (access : MemoryAccess) (pointer : HashPointer) :
    SafelyLinked configuration level target
      (evictionSetAlignsWithHashFunction configuration bound target level access pointer setBits ways) state
      fun _ final => Quiet final := by
  have stop := prefixAligned_inBase windows isLevel inside
  unfold evictionSetAlignsWithHashFunction evictionSetAlignsWithHashFunctionWith
  refine ensures_then (safely_linked (safely_enter ready _ _ _)) fun _ _ ready => ?_
  refine ensures_then (safely_linked (safely_buildPointerChain windows isLevel ready (inside.inBase windows isLevel)
    stop.pointer)) fun _ _ ready => ?_
  refine ensures_then (safely_linked (safely_chainEvicts ready bound _ access)) fun evicts _ ready => ?_
  cases evicts with
  | false => exact ready
  | true =>
      refine ensures_then (safely_compareLinks windows isLevel ready inside bound _ access pointer setBits) ?_
      intro result _ ready
      cases result <;> exact ready

end EvictionSets

/-! ## The replacement policy -/

section Replacement

variable {configuration : Configuration} {state : Paging} {level : Nat}

/-- The orders hold addresses of the window, and 0 where nothing was written. -/
def InWindowOrder (configuration : Configuration) (level : Nat) (order : Nat -> Nat) : Prop :=
  ∀ position, order position = 0 ∨ InWindow configuration level (order position)

theorem InWindowOrder.place {ways position : Nat} {addressSet misses order : Nat -> Nat}
    (holds : InWindowOrder configuration level order)
    (members : ∀ i, i < ways -> InWindow configuration level (addressSet i)) :
    InWindowOrder configuration level (placeMember ways position addressSet misses order) := by
  intro other
  rcases placeMember_cases ways position addressSet misses order other with same | ⟨chosen, below, same⟩
  · rw [same]
    exact holds other
  · rw [same]
    exact Or.inr (members chosen below)

theorem safely_lastLink (ready : Quiet state) {start : Nat} (pointer : Pointer start) (bound : Nat) :
    Safely configuration (lastLink bound start) state fun last final => Pointer last ∧ Quiet final := by
  unfold lastLink
  refine ensures_then (ensures_whileLoop (fun (carried : Nat × Nat) state =>
    Pointer carried.1 ∧ Pointer carried.2 ∧ Quiet state) trivial bound _ state ⟨pointer, pointer, ready⟩ ?_) ?_
  · rintro ⟨p, last⟩ state ⟨here, _, ready⟩ _
    exact ensures_then (safely_readData ready here.2) fun next _ holds => ⟨holds.1, here, holds.2⟩
  · rintro ⟨p, last⟩ _ ⟨⟨_, pointer, ready⟩, _⟩
    exact ⟨pointer, ready⟩

variable (windows : WindowsApart configuration) (isLevel : IsLevel level)

include windows isLevel

theorem safely_warmUp (ready : Quiet state) (count : Nat) :
    Safely configuration (warmUp configuration level count) state fun _ final => Quiet final := by
  refine ensures_forRange_kept (fun _ state => Quiet state) 0 count () state ready fun _ _ _ _ _ ready => ?_
  refine ensures_then (safely_drawTarget windows isLevel stable_ready ready) ?_
  rintro address _ ⟨_, ready⟩
  exact ensures_then (safely_access stable_ready ready .readData address) fun _ _ ready => ⟨(), Or.inl rfl, ready⟩

/-- The iterations of a probe flush at their beginning, so the state between two
of them may be stale; the flush after the loop ends that. -/
theorem safely_probeReplacement (ready : Quiet state) (bound : Nat) (cache : TranslationCache)
    (setStart lastAddress position : Nat) {nextAddress target : Nat} (next : InWindow configuration level nextAddress)
    (inside : InWindow configuration level target) :
    Safely configuration (probeReplacement configuration bound cache level setStart lastAddress nextAddress target
      position) state fun _ final => Quiet final := by
  unfold probeReplacement
  refine ensures_then (safely_walkPair ready _ _) ?_
  rintro _ _ ⟨rfl, ready⟩
  have stop := prefixAligned_inBase windows isLevel inside
  refine ensures_then (safely_buildPointerChainFromHashSingle windows isLevel ready next stop.pointer) fun _ _ ready => ?_
  refine ensures_then (ensures_forRange_kept (fun (_ : Nat) state => Quiet state ∨
    Restored ⟨level, entryOf level target⟩ ⟨level, entryOf level (complementaryOf target)⟩ state) 0 iterations 0 _
    (Or.inl ready) fun _ misses state _ _ between => ?_) fun misses _ between => ?_
  · have flushes : Safely configuration flushMmuCaches state fun _ final => Quiet final :=
      between.elim safely_flush_ready safely_flush_restored
    unfold probeAfterFillers
    rw [Program.bind_assoc]
    refine ensures_then flushes fun _ _ ready => ?_
    rw [Program.bind_assoc]
    refine ensures_then (safely_warmUp windows isLevel ready _) fun _ _ ready => ?_
    rw [Program.bind_assoc]
    refine ensures_then (safely_followChain stable_ready ready .readData bound _ _) fun p _ ready => ?_
    rw [Program.bind_assoc]
    refine ensures_then (safely_access stable_ready ready .readData p) fun p _ ready => ?_
    simp only [Program.bind_assoc]
    exact safely_look ready .readData .readData bound p _ fun _ _ restored => ⟨_, Or.inl rfl, Or.inr restored⟩
  · have flushes : Safely configuration flushMmuCaches _ fun _ final => Quiet final :=
      between.elim safely_flush_ready safely_flush_restored
    exact ensures_then flushes fun _ _ ready => ready

theorem safely_resolvePosition (ready : Quiet state) (bound : Nat) (cache : TranslationCache)
    (setStart lastAddress position : Nat) {nextAddress : Nat} {addressSet : Nat -> Nat}
    (next : InWindow configuration level nextAddress)
    (members : ∀ i, i < cache.ways -> InWindow configuration level (addressSet i))
    {arrays : (Nat -> Nat) × (Nat -> Nat)} (order : InWindowOrder configuration level arrays.1) :
    Safely configuration (resolvePosition configuration bound cache level setStart lastAddress nextAddress addressSet
      position arrays) state fun result final => InWindowOrder configuration level result.1 ∧ Quiet final := by
  unfold resolvePosition
  refine ensures_then (ensures_forRange_kept (fun _ state => Quiet state) 0 cache.ways _ state ready
    fun target misses _ _ below ready => ?_) fun misses _ ready => ⟨order.place members, ready⟩
  split
  · exact ⟨misses, Or.inl rfl, ready⟩
  · refine ensures_then (safely_probeReplacement windows isLevel ready bound cache setStart lastAddress position next
      (members target (by omega))) fun count _ ready => ?_
    exact ⟨_, Or.inl rfl, ready⟩

theorem safely_determineReplacementOrder (ready : Quiet state) (bound : Nat)
    (translationCaches : Nat -> TranslationCache) {setStart : Nat} (inside : InWindow configuration level setStart) :
    Safely configuration (determineReplacementOrder configuration bound translationCaches setStart level) state
      fun order final => InWindowOrder configuration level order ∧ Quiet final := by
  have allocates : ∀ {state : Paging}, Quiet state -> Safely configuration kmalloc state
      fun array final => array = (fun _ => 0) ∧ Quiet final := fun ready =>
    ensures_kmalloc (stable_ready.marks _ ready) ⟨rfl, ready⟩
  unfold determineReplacementOrder
  refine ensures_then (safely_enter ready _ _ _) fun _ _ ready => ?_
  refine ensures_then (allocates ready) fun addressSet _ allocated => ?_
  refine ensures_then (allocates allocated.2) ?_
  rintro _ _ ⟨rfl, ready⟩
  refine ensures_then (allocates ready) fun misses _ allocated => ?_
  refine ensures_then (safely_lastLink allocated.2 (inside.inBase windows isLevel).pointer bound) ?_
  rintro lastAddress _ ⟨last, ready⟩
  refine ensures_then (ensures_forRange (fun index (addressSet : Nat -> Nat) state =>
    (∀ i, i < index -> InWindow configuration level (addressSet i)) ∧ Quiet state) 0 (translationCaches level).ways _ _
    ⟨fun i impossible => absurd impossible (Nat.not_lt_zero i), ready⟩ ?_) ?_
  · rintro index addressSet state _ _ ⟨members, ready⟩
    refine ensures_then (safely_callHash ready _ _ _ _ _) ?_
    rintro member _ ⟨memberInside, ready⟩
    refine ⟨_, rfl, fun i below => ?_, ready⟩
    rcases Nat.lt_succ_iff_lt_or_eq.mp below with before | rfl
    · rw [Function.update_of_ne (Nat.ne_of_lt before)]
      exact members i before
    · rw [Function.update_self]
      exact memberInside
  rintro addressSet _ ⟨members, ready⟩
  rw [Nat.zero_add] at members
  refine ensures_then (safely_callHash ready _ _ _ _ _) ?_
  rintro nextAddress _ ⟨next, ready⟩
  refine ensures_then (safely_writeData ready last.2 (next.inBase windows isLevel).pointer) fun _ _ ready => ?_
  refine ensures_then (ensures_forRange_kept (fun (arrays : (Nat -> Nat) × (Nat -> Nat)) state =>
    InWindowOrder configuration level arrays.1 ∧ Quiet state) 0 (translationCaches level).ways _ _
    ⟨fun _ => Or.inl rfl, ready⟩ ?_) fun arrays _ holds => holds
  rintro index arrays state _ _ ⟨order, ready⟩
  refine ensures_then (safely_resolvePosition windows isLevel ready bound _ setStart lastAddress _ next members order) ?_
  exact fun arrays _ holds => ⟨arrays, Or.inl rfl, holds⟩

theorem safely_calculatePermutationVectors (ready : Quiet state) (bound : Nat)
    (translationCaches : Nat -> TranslationCache) :
    Safely configuration (calculatePermutationVectors configuration bound translationCaches level) state
      fun _ final => Quiet final := by
  unfold calculatePermutationVectors
  refine ensures_then (safely_enter ready _ _ _) fun _ _ ready => ?_
  refine ensures_then (safely_drawStart windows isLevel ready) ?_
  rintro start _ ⟨inside, ready⟩
  refine ensures_then (safely_buildPointerChainFromHashSingle windows isLevel ready inside pointer_zero)
    fun _ _ ready => ?_
  refine ensures_then (safely_determineReplacementOrder windows isLevel ready bound translationCaches inside) ?_
  rintro initialOrder _ ⟨order, ready⟩
  refine ensures_forRange_kept (fun _ state => Quiet state) 0 (translationCaches level).ways _ _ ready
    fun i vectors state _ _ ready => ?_
  split
  · exact ⟨vectors, Or.inl rfl, ready⟩
  case isFalse resolved =>
    have member := (order i).resolve_left resolved
    have extra := member.page windows isLevel (show 2 ≤ 512 by decide)
    refine ensures_then (safely_buildPointerChainFromHashSingle windows isLevel ready inside extra.pointer)
      fun _ _ ready => ?_
    refine ensures_then (safely_writeData ready extra.2 pointer_zero) fun _ _ ready => ?_
    refine ensures_then (safely_determineReplacementOrder windows isLevel ready bound translationCaches inside) ?_
    exact fun order _ holds => ⟨_, Or.inl rfl, holds.2⟩

end Replacement

/-! ## Sequences of experiments -/

/-- The experiments of the kernel module that exchange page table entries, without
those about PCIDs, with their arguments. -/
inductive Experiment where
  | cacheExistence (level : Nat)
  | splitLayerInstructions (level : Nat)
  | splitLayerData (level : Nat)
  | sharedLayer (level : Nat)
  | hashFunction (ways setBits : Nat) (hash : HashPointer) (level : Nat)
  | nesting (level : Nat) (translationCaches : Nat -> TranslationCache)
  | hugeTlb (level : Nat)
  | hugePageEviction (level : Nat)
  | minimalEvictionSet (targetAddress level : Nat) (accessMemory : MemoryAccess)
  | evictionSetAligns (targetAddress level : Nat) (accessMemory : MemoryAccess) (hash : HashPointer)
      (setBits ways : Nat)
  | permutationVectors (translationCaches : Nat -> TranslationCache) (level : Nat)

namespace Experiment

/-- The experiment without its result. -/
def program (configuration : Configuration) (bound : Nat) : Experiment -> Kernel Unit
  | cacheExistence level => do
      let _ ← testCacheExistence configuration level
  | splitLayerInstructions level => do
      let _ ← testSplitLayerInstructions configuration bound level
  | splitLayerData level => do
      let _ ← testSplitLayerData configuration bound level
  | sharedLayer level => do
      let _ ← testSharedLayer configuration level
  | hashFunction ways setBits hash level => do
      let _ ← testHashFunction configuration bound ways setBits hash level
  | nesting level translationCaches => do
      let _ ← testNesting configuration bound level translationCaches
  | hugeTlb level => do
      let _ ← testHugeTlb configuration bound level
  | hugePageEviction level => do
      let _ ← testHugePageEviction bound level
  | minimalEvictionSet targetAddress level accessMemory => do
      let _ ← findMinimalEvictionSet configuration bound targetAddress level accessMemory
  | evictionSetAligns targetAddress level accessMemory hash setBits ways => do
      let _ ← evictionSetAlignsWithHashFunction configuration bound targetAddress level accessMemory hash setBits ways
  | permutationVectors translationCaches level => do
      let _ ← calculatePermutationVectors configuration bound translationCaches level

/-- The experiment runs on a level it is defined for, the eviction set searches from
a target in the base window. -/
def Admissible (configuration : Configuration) : Experiment -> Prop
  | cacheExistence level => IsLevel level
  | splitLayerInstructions level => IsLevel level
  | splitLayerData level => IsLevel level
  | sharedLayer level => IsLevel level
  | hashFunction _ _ _ level => IsLevel level
  | nesting level _ => level = 2 ∨ level = 3
  | hugeTlb level => level = 2 ∨ level = 3
  | hugePageEviction level => level = 2 ∨ level = 3
  | minimalEvictionSet targetAddress level _ => IsLevel level ∧ InWindow configuration level targetAddress
  | evictionSetAligns targetAddress level _ _ _ _ => IsLevel level ∧ InWindow configuration level targetAddress
  | permutationVectors _ level => IsLevel level

/-- The runs of an experiment that are considered: every address of a hash function
lies inside the window, and so does every link that an eviction set search writes. -/
def behaviour (configuration : Configuration) : Experiment -> Behaviour kernelInterface Paging
  | minimalEvictionSet targetAddress level _ => linksWithin configuration level targetAddress
  | evictionSetAligns targetAddress level _ _ _ _ => linksWithin configuration level targetAddress
  | _ => may (InWindow configuration)

end Experiment

theorem ready_afterSetup : Quiet afterSetup := by
  refine ⟨_, ⟨?_, ?_⟩, calm_afterSetup⟩
  · intro address below
    simp only [afterSetup, if_neg (Nat.not_le.mpr below)]
    exact pointer_zero
  · intro address above
    exact if_pos above

/-- Every experiment leaves what it found. -/
theorem safely_experiment {configuration : Configuration} (windows : WindowsApart configuration) (bound : Nat)
    {experiment : Experiment} (admissible : experiment.Admissible configuration) {state : Paging} (ready : Quiet state) :
    Ensures (experiment.behaviour configuration) (fun state _ => SignalMarks state) True
      (experiment.program configuration bound) state fun _ final => Quiet final := by
  have discards : ∀ {α : Type} {behaviour : Behaviour kernelInterface Paging} {program : Kernel α},
      Ensures behaviour (fun state _ => SignalMarks state) True program state (fun _ final => Quiet final) ->
      Ensures behaviour (fun state _ => SignalMarks state) True (do let _ ← program) state fun _ final => Quiet final :=
    fun holds => ensures_then holds fun _ _ ready => ready
  cases experiment with
  | cacheExistence level => exact discards (safely_testCacheExistence windows admissible ready)
  | splitLayerInstructions level => exact discards (safely_testSplitLayer windows admissible ready bound _ _)
  | splitLayerData level => exact discards (safely_testSplitLayer windows admissible ready bound _ _)
  | sharedLayer level => exact discards (safely_testSharedLayer windows admissible ready)
  | hashFunction ways setBits hash level =>
      exact discards (safely_testHashFunction windows admissible ready bound ways setBits hash)
  | nesting level translationCaches =>
      exact discards (safely_testNesting windows (hugeLevel_isLevel admissible) ready bound translationCaches)
  | hugeTlb level => exact discards (safely_testHugeTlb windows admissible ready bound)
  | hugePageEviction level => exact discards (safely_testHugePageEviction admissible ready bound)
  | minimalEvictionSet target level access =>
      exact discards (safely_findMinimalEvictionSet windows admissible.1 ready admissible.2 bound access)
  | evictionSetAligns target level access hash setBits ways =>
      exact discards (safely_evictionSetAligns windows admissible.1 ready admissible.2 bound setBits ways access hash)
  | permutationVectors translationCaches level =>
      exact discards (safely_calculatePermutationVectors windows admissible ready bound translationCaches)

/-- In every state of every sequence of experiments, whatever translations the
hardware uses, `signal` marks exactly the complementary slots, and outside an
exchange the page tables are as they were set up.  Of an experiment it is only asked
that its target lies in the window.  A run is given up where it would write a link
outside the window, since nothing holds behind it; all other runs are covered, from
the first operation to the last. -/
theorem runExperiments_signalMarks {configuration : Configuration} (windows : WindowsApart configuration) (bound : Nat)
    (experiments : List Experiment)
    (admissible : ∀ experiment, experiment ∈ experiments -> experiment.Admissible configuration) :
    EnsuresEach (Experiment.behaviour configuration) (fun _ state _ => SignalMarks state) True
      (Experiment.program configuration bound) experiments afterSetup SignalMarks :=
  (ensuresEach_of_step Quiet ready_afterSetup fun experiment inside _ ready =>
    safely_experiment windows bound (admissible experiment inside) ready).mono stable_ready.marks

/-- One of each kind, at levels the repository ships with; the search for a minimal
eviction set runs on the highest one, where the window has room for few links only. -/
theorem runExperiments_signalMarks_default :
    EnsuresEach (Experiment.behaviour defaultConfiguration) (fun _ state _ => SignalMarks state) True
      (Experiment.program defaultConfiguration 600) [.cacheExistence 4, .splitLayerInstructions 3, .splitLayerData 2,
        .sharedLayer 2, .hashFunction 4 3 (.to .linHash) 2, .nesting 2 (fun _ => ⟨0, 4, .to .linShiftHash⟩), .hugeTlb 2,
        .hugePageEviction 3, .minimalEvictionSet baseAddress 4 .readData,
        .evictionSetAligns baseAddress 3 .readData (.to .linHash) 2 4,
        .permutationVectors (fun _ => ⟨3, 4, .to .linShiftHash⟩) 2]
      afterSetup SignalMarks := by
  apply runExperiments_signalMarks windowsApart_default
  intro experiment inside
  simp only [List.mem_cons, List.not_mem_nil, or_false] at inside
  rcases inside with rfl | rfl | rfl | rfl | rfl | rfl | rfl | rfl | rfl | rfl | rfl
  · exact (by decide : IsLevel 4)
  · exact (by decide : IsLevel 3)
  · exact (by decide : IsLevel 2)
  · exact (by decide : IsLevel 2)
  · exact (by decide : IsLevel 2)
  · exact Or.inl rfl
  · exact Or.inl rfl
  · exact Or.inr rfl
  · exact ⟨by decide, Nat.le_refl _, by decide⟩
  · exact ⟨by decide, Nat.le_refl _, by decide⟩
  · exact (by decide : IsLevel 2)

end Talbot
