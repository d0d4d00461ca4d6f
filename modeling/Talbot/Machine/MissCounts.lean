import Talbot.Kernel.Experiments
import Talbot.Kernel.Replacement
import Talbot.Machine.Answers
import Talbot.Machine.Probes

namespace Talbot

/-!
The miss counts of the experiments, whatever the machine answers.

An experiment counts at most one miss in an iteration, so it never counts more
misses than it has iterations.  As every read may return any word, each iteration
can also count a miss or none, and the experiments can end with all misses or
with none of them.
-/

open Foundations Program

section Bounds

variable {fresh : (Nat -> Nat) -> Prop} {configuration : Configuration} {bound level : Nat}

theorem countMiss_le (value misses : Nat) : countMiss value misses ≤ misses + 1 := by
  unfold countMiss
  split
  · exact Nat.le_refl _
  · exact Nat.le_succ _

/-- One miss at most in every iteration. -/
theorem measures_count {body : Nat -> Nat -> Kernel (Iteration Nat)} {count : Nat}
    (each : ∀ index misses, Measures fresh (body index misses) fun iteration =>
      ∃ result, iteration = .next result ∧ result ≤ misses + 1) :
    Measures fresh (forRange body 0 count 0) fun misses => misses ≤ count := by
  apply (ensures_forRange (fun index misses _ => misses ≤ index) 0 count 0 () (Nat.le_refl 0) ?_).mono
  · intro misses _ few
    rwa [Nat.zero_add] at few
  · intro index misses _ _ _ few
    apply (each index misses).mono
    rintro iteration _ ⟨result, rfl, more⟩
    exact ⟨result, rfl, Nat.le_trans more (Nat.succ_le_succ few)⟩

theorem measures_testCacheExistence :
    Measures fresh (testCacheExistence configuration level) fun misses => misses ≤ iterations := by
  refine measures_count fun _ misses => ?_
  repeat refine measures_then fun _ => ?_
  exact ⟨_, rfl, countMiss_le _ _⟩

/-- A member that misses ends the loop over the members. -/
theorem measures_probeMember {ways setBits : Nat} {hash : HashPointer} {startAddress j misses : Nat} :
    Measures fresh (probeMember configuration bound ways setBits hash level startAddress j misses) fun iteration =>
      iteration = .next misses ∨ iteration = .done (misses + 1) := by
  unfold probeMember
  refine measures_then fun targetAddress => ?_
  by_cases outside : windowEnd configuration level ≤ targetAddress
  · rw [if_pos outside]
    exact Or.inl rfl
  · rw [if_neg outside]
    iterate 6 refine measures_then fun _ => ?_
    refine measures_then fun value => ?_
    by_cases missing : value = signal
    · rw [if_pos missing]
      repeat refine measures_then fun _ => ?_
      exact Or.inr rfl
    · rw [if_neg missing]
      repeat refine measures_then fun _ => ?_
      exact Or.inl rfl

theorem measures_testHashFunction {ways setBits : Nat} {hash : HashPointer} :
    Measures fresh (testHashFunction configuration bound ways setBits hash level) fun misses => misses ≤ iterations := by
  refine measures_count fun _ misses => measures_then fun startAddress => measures_bind.mpr ?_
  have members : Measures fresh (forRange (fun j misses =>
      probeMember configuration bound ways setBits hash level startAddress j misses) 0 ways misses)
      fun result => result ≤ misses + 1 := by
    apply ensures_forRange_break (fun _ result _ => result = misses) 0 ways misses () rfl
    · rintro j result _ _ _ rfl
      apply measures_probeMember.mono
      rintro iteration _ (rfl | rfl)
      · rfl
      · exact Nat.le_refl _
    · rintro result _ rfl
      exact Nat.le_succ _
  exact members.mono fun result _ counted => ⟨result, rfl, counted⟩

theorem measures_testNesting (translationCaches : Nat -> TranslationCache) :
    Measures fresh (testNesting configuration bound level translationCaches) fun result =>
      ∀ misses, result = some misses -> misses ≤ iterations := by
  unfold testNesting
  dsimp only
  split
  · exact nofun
  split
  · exact nofun
  refine measures_then fun _ => measures_bind.mpr (Ensures.mono (measures_count fun _ misses => ?_) ?_)
  · refine measures_bind.mpr (Ensures.mono (show Measures fresh (nestingIteration configuration bound level
      (translationCaches (level + 1)) misses) fun result => result ≤ misses + 1 from ?_) ?_)
    · repeat refine measures_then fun _ => ?_
      exact countMiss_le _ _
    · exact fun result _ counted => ⟨result, rfl, counted⟩
  · rintro misses _ counted _ ⟨⟩
    exact counted

theorem measures_testHugeTlb :
    Measures fresh (testHugeTlb configuration bound level) fun result =>
      ∀ misses, result = some misses -> misses ≤ iterations := by
  unfold testHugeTlb
  split
  · exact nofun
  refine measures_bind.mpr (Ensures.mono (measures_count fun _ misses => ?_) ?_)
  · repeat refine measures_then fun _ => ?_
    exact ⟨_, rfl, countMiss_le _ _⟩
  · intro misses _ counted
    refine measures_then fun _ => ?_
    rintro _ ⟨⟩
    exact counted

theorem measures_testSupportedPcids {amountPcids : Nat} {noflush : Bool} :
    Measures fresh (testSupportedPcids configuration level amountPcids noflush)
      fun misses => misses ≤ iterations := by
  refine measures_then fun _ => measures_count fun _ misses => ?_
  repeat refine measures_then fun _ => ?_
  exact ⟨_, rfl, countMiss_le _ _⟩

theorem measures_testPcidRespect :
    Measures fresh (testPcidRespect configuration bound level) fun misses => misses ≤ iterations := by
  refine measures_then fun _ => measures_count fun _ misses => ?_
  repeat refine measures_then fun _ => ?_
  exact ⟨_, rfl, countMiss_le _ _⟩

end Bounds

/-! ## Runs that exist -/

section Extremes

variable {fresh : (Nat -> Nat) -> Prop} {configuration : Configuration} {bound level : Nat}

/-- Count a miss in every iteration, or in none. -/
def missesOf (missing : Bool) : Nat :=
  if missing then iterations else 0

/-- What the last read of an iteration returns for that. -/
def seen (missing : Bool) : Nat :=
  if missing then signal else 0

theorem countMiss_seen (missing : Bool) (misses : Nat) :
    countMiss (seen missing) misses = if missing then misses + 1 else misses := by
  cases missing <;> rfl

theorem attains_setCr3 (value : Nat) : Attains fresh (setCr3 value) fun _ => True :=
  ⟨(), (), trivial, trivial⟩

theorem attains_getCr3 : Attains fresh getCr3 fun _ => True :=
  ⟨0, (), trivial, trivial⟩

theorem attains_draw (modulus : Nat) : Attains fresh (drawAddress modulus level) fun _ => True :=
  (attains_drawAddress modulus level 0).mono fun _ _ _ => trivial

theorem attains_read (access : MemoryAccess) (address : Nat) : Attains fresh (access.access address) fun _ => True :=
  (attains_access access address 0).mono fun _ _ _ => trivial

theorem attains_follow {access : MemoryAccess} (positive : 1 ≤ bound) (start stop : Nat) :
    Attains fresh (followChain access bound start stop) fun _ => True :=
  (attains_followChain positive start stop).mono fun _ _ _ => trivial

theorem attains_buildPointerChain (startAddress endAddress length : Nat) :
    Attains fresh (buildPointerChain configuration startAddress endAddress length level) fun _ => True := by
  unfold buildPointerChain
  refine attains_then (attains_loop fun index link => ?_) fun _ => attains_writeData _ _
  exact attains_extendChain configuration _ _ _

theorem attains_buildHugeChain (startAddress endAddress length : Nat) :
    Attains fresh (buildHugeChain startAddress endAddress length level) fun _ => True := by
  unfold buildHugeChain
  refine attains_then (attains_loop fun index link => ?_) fun _ => attains_writeData _ _
  exact attains_then (attains_writeData _ _) fun _ => trivial

theorem attains_buildPointerChainFromHash (hash : HashFunction) (startAddress endAddress length setBits : Nat) :
    Attains fresh (buildPointerChainFromHash configuration startAddress endAddress length (.to hash) setBits level)
      fun _ => True := by
  unfold buildPointerChainFromHash
  refine attains_then (attains_loop fun index link => ?_) fun _ => attains_writeData _ _
  exact attains_then ((attains_callHash hash _ _ _ _).mono fun _ _ _ => trivial) fun _ =>
    attains_extendChain configuration _ _ _

/-- The end of an iteration: look through the exchanged entry and restore it. -/
theorem attains_look (access : MemoryAccess) {address misses : Nat} {walks : PageTableWalk × PageTableWalk}
    (missing : Bool) :
    Attains fresh (do
      let value ← access.access address
      switchLevel level walks
      flushMmuCaches
      return Iteration.next (countMiss value misses)) fun iteration =>
        iteration = .next (if missing then misses + 1 else misses) := by
  refine attains_bind.mpr ((attains_access access address (seen missing)).mono ?_)
  rintro _ _ rfl
  refine attains_then (attains_switchLevel _ _) fun _ => attains_then attains_flushMmuCaches fun _ => ?_
  exact congrArg Iteration.next (countMiss_seen missing misses)

/-- Every iteration can do the same. -/
theorem attains_count {body : Nat -> Nat -> Kernel (Iteration Nat)} (missing : Bool)
    (each : ∀ index misses, Attains fresh (body index misses) fun iteration =>
      iteration = .next (if missing then misses + 1 else misses)) :
    Attains fresh (forRange body 0 iterations 0) fun misses => misses = missesOf missing := by
  apply (reaches_forRange (fun index misses _ => misses = if missing then index else 0) 0 iterations 0 ()
    (ite_self 0).symm ?_).mono
  · rintro misses _ rfl
    rw [Nat.zero_add]
    rfl
  · rintro index misses _ _ _ rfl
    apply (each index _).mono
    rintro _ _ rfl
    exact ⟨_, rfl, by cases missing <;> rfl⟩

theorem attains_testCacheExistence (missing : Bool) :
    Attains fresh (testCacheExistence configuration level) fun misses => misses = missesOf missing := by
  refine attains_count missing fun _ misses => ?_
  refine attains_then (attains_draw _) fun _ => attains_then (attains_walkPair _ _) fun _ => ?_
  refine attains_then (attains_writeData _ _) fun _ => attains_then attains_flushMmuCaches fun _ => ?_
  refine attains_then (attains_read .readData _) fun _ => attains_then (attains_switchLevel _ _) fun _ => ?_
  exact attains_look .readData missing

theorem attains_testSplitLayer (positive : 1 ≤ bound) (accessTarget accessChain : MemoryAccess) (missing : Bool) :
    Attains fresh (testSplitLayer configuration bound level accessTarget accessChain)
      fun misses => misses = missesOf missing := by
  refine attains_count missing fun _ misses => ?_
  refine attains_then (attains_draw _) fun _ => attains_then (attains_walkPair _ _) fun _ => ?_
  refine attains_then (attains_buildPointerChain _ _ _) fun _ => attains_then attains_flushMmuCaches fun _ => ?_
  refine attains_then (attains_loop fun _ _ => ?_) fun _ => ?_
  · exact attains_then (attains_draw _) fun _ => attains_then (attains_read .readData _) fun _ => trivial
  refine attains_then (attains_read accessTarget _) fun _ => attains_then (attains_switchLevel _ _) fun _ => ?_
  refine attains_then (attains_follow positive _ _) fun _ => ?_
  exact attains_look accessTarget missing

theorem attains_testSharedLayer (missing : Bool) :
    Attains fresh (testSharedLayer configuration level) fun misses => misses = missesOf missing := by
  refine attains_count missing fun _ misses => ?_
  refine attains_then (attains_draw _) fun _ => attains_then (attains_walkPair _ _) fun _ => ?_
  refine attains_then (attains_writeData _ _) fun _ => attains_then attains_flushMmuCaches fun _ => ?_
  refine attains_then (attains_read .fetchInstruction _) fun _ => attains_then (attains_switchLevel _ _) fun _ => ?_
  exact attains_look .readData missing

/-- A member inside the window misses or not; one outside is skipped. -/
theorem attains_probeMember (positive : 1 ≤ bound) {hash : HashFunction} {ways setBits startAddress j misses : Nat}
    {missing : Bool}
    (inside : missing = true -> hash.apply startAddress j setBits level < windowEnd configuration level) :
    Attains fresh (probeMember configuration bound ways setBits (.to hash) level startAddress j misses)
      fun iteration => iteration = if missing then .done (misses + 1) else .next misses := by
  unfold probeMember
  refine attains_bind.mpr ((attains_callHash hash _ _ _ _).mono ?_)
  rintro _ _ rfl
  by_cases outside : windowEnd configuration level ≤ hash.apply startAddress j setBits level
  · rw [if_pos outside]
    cases missing with
    | false => rfl
    | true => exact absurd outside (Nat.not_le.mpr (inside rfl))
  rw [if_neg outside]
  refine attains_then (attains_walkPair _ _) fun _ => ?_
  refine attains_then (attains_buildPointerChainFromHash hash _ _ _ _) fun _ => ?_
  refine attains_then attains_flushMmuCaches fun _ => attains_then (attains_read .readData _) fun _ => ?_
  refine attains_then (attains_follow positive _ _) fun _ => attains_then (attains_switchLevel _ _) fun _ => ?_
  refine attains_bind.mpr ((attains_access .readData _ (seen missing)).mono ?_)
  rintro _ _ rfl
  cases missing
  · exact attains_then (attains_switchLevel _ _) fun _ => attains_then attains_flushMmuCaches fun _ => rfl
  · exact attains_then (attains_switchLevel _ _) fun _ => attains_then attains_flushMmuCaches fun _ => rfl

theorem drawnStart_lt (window : Machine.UsableWindow configuration level) (random : Nat) :
    baseAddress + ((random % drawableEntries configuration level) <<< pageTableIndexShift level) <
      windowEnd configuration level := by
  have fewer : drawableEntries configuration level ≤ configuration.pageTableEntries level := Nat.div_le_self _ _
  have drawn := Nat.mod_lt random window.drawable
  rw [baseAddress_add window.isLevel, windowEnd_eq window.isLevel, pageAddress_lt_iff]
  omega

/-- The first member of a set is the start address, which lies inside the window. -/
theorem apply_zero_lt (window : Machine.UsableWindow configuration level) (hash : HashFunction)
    (setBits random : Nat) :
    hash.apply (baseAddress + ((random % drawableEntries configuration level) <<< pageTableIndexShift level)) 0
      setBits level < windowEnd configuration level := by
  have inside := drawnStart_lt window random
  have fits := Nat.lt_of_lt_of_le inside window.fits
  rw [baseAddress_add window.isLevel] at inside fits ⊢
  rwa [HashFunction.apply_aligned _ _ _ window.isLevel fits, HashFunction.entry_zero]

theorem attains_testHashFunction (window : Machine.UsableWindow configuration level) (positive : 1 ≤ bound)
    {hash : HashFunction} {ways setBits : Nat} (several : 1 ≤ ways) (missing : Bool) :
    Attains fresh (testHashFunction configuration bound ways setBits (.to hash) level)
      fun misses => misses = missesOf missing := by
  refine attains_count missing fun _ misses => attains_bind.mpr ((attains_drawAddress _ _ 0).mono ?_)
  rintro startAddress _ drawn
  have first := apply_zero_lt window hash setBits 0
  rw [← drawn] at first
  have members : Attains fresh (forRange (fun j misses =>
      probeMember configuration bound ways setBits (.to hash) level startAddress j misses) 0 ways misses)
      fun result => result = if missing then misses + 1 else misses := by
    apply reaches_forRange_break (fun j result _ => result = misses ∧ (0 < j -> missing = false)) 0 ways misses ()
      ⟨rfl, fun impossible => absurd impossible (Nat.lt_irrefl 0)⟩
    · rintro j result _ _ _ ⟨rfl, silent⟩
      have inside : missing = true -> hash.apply startAddress j setBits level < windowEnd configuration level := by
        intro found
        rcases Nat.eq_zero_or_pos j with rfl | later
        · exact first
        · exact absurd (silent later) (by rw [found]; decide)
      apply (attains_probeMember positive inside).mono
      rintro _ _ rfl
      cases missing
      · exact ⟨rfl, fun _ => rfl⟩
      · rfl
    · rintro result _ ⟨rfl, silent⟩
      rw [silent (by omega), if_neg Bool.false_ne_true]
  refine attains_bind.mpr (members.mono ?_)
  rintro _ _ rfl
  rfl

theorem attains_nestingIteration (positive : 1 ≤ bound) (hash : HashFunction) (setBits ways misses : Nat)
    (missing : Bool) :
    Attains fresh (nestingIteration configuration bound level ⟨setBits, ways, .to hash⟩ misses) fun result =>
      result = if missing then misses + 1 else misses := by
  refine attains_then (attains_draw _) fun _ => attains_then (attains_walkPair _ _) fun _ => ?_
  refine attains_then (attains_buildPointerChainFromHash hash _ _ _ _) fun _ => ?_
  refine attains_then (attains_read .readData _) fun _ => attains_then (attains_writeData _ _) fun _ => ?_
  refine attains_then attains_flushMmuCaches fun _ => attains_then (attains_read .readData _) fun _ => ?_
  refine attains_then (attains_switchLevel _ _) fun _ => attains_then (attains_follow positive _ _) fun _ => ?_
  refine attains_bind.mpr ((attains_access .readData _ (seen missing)).mono ?_)
  rintro _ _ rfl
  refine attains_then (attains_switchLevel _ _) fun _ => attains_then attains_flushMmuCaches fun _ => ?_
  exact countMiss_seen missing misses

theorem attains_testNesting (positive : 1 ≤ bound) {translationCaches : Nat -> TranslationCache}
    {hash : HashFunction} {setBits ways : Nat} (below : level ≤ 3)
    (recorded : translationCaches (level + 1) = ⟨setBits, ways, .to hash⟩) (missing : Bool) :
    Attains fresh (testNesting configuration bound level translationCaches) fun result =>
      result = some (missesOf missing) := by
  unfold testNesting
  dsimp only
  rw [recorded, if_neg (Nat.not_lt.mpr below), if_neg nofun]
  refine attains_then (attains_enter _ _ _) fun _ =>
    attains_bind.mpr (Reaches.mono (attains_count missing fun _ misses => ?_) ?_)
  · refine attains_bind.mpr ((attains_nestingIteration positive hash setBits ways misses missing).mono ?_)
    rintro _ _ rfl
    rfl
  · rintro _ _ rfl
    rfl

theorem attains_testHugeTlb (positive : 1 ≤ bound) (known : level = 2 ∨ level = 3) (missing : Bool) :
    Attains fresh (testHugeTlb configuration bound level) fun result => result = some (missesOf missing) := by
  unfold testHugeTlb
  rw [if_neg (by omega)]
  refine attains_bind.mpr (Reaches.mono (attains_count missing fun _ misses => ?_) ?_)
  · refine attains_then (attains_draw _) fun _ => attains_then (attains_walkPair _ _) fun _ => ?_
    refine attains_then (attains_buildHugeChain _ _ _) fun _ => attains_then (attains_writeData _ _) fun _ => ?_
    refine attains_then attains_flushMmuCaches fun _ => attains_then (attains_read .readData _) fun _ => ?_
    refine attains_then (attains_switchLevel _ _) fun _ => attains_then (attains_follow positive _ _) fun _ => ?_
    exact attains_look .readData missing
  · rintro _ _ rfl
    exact attains_then attains_flushMmuCaches fun _ => rfl

theorem attains_testHugePageEviction (positive : 1 ≤ bound) :
    Attains fresh (testHugePageEviction bound level) fun _ => True := by
  refine attains_loop fun _ misses => ?_
  refine attains_then (attains_walkPair _ _) fun _ => attains_then (attains_buildHugeChain _ _ _) fun _ => ?_
  refine attains_then attains_flushMmuCaches fun _ => attains_then (attains_read .readData _) fun _ => ?_
  refine attains_then (attains_switchLevel _ _) fun _ => attains_then (attains_follow positive _ _) fun _ => ?_
  exact (attains_look .readData false).mono fun _ _ _ => trivial

theorem attains_testSupportedPcids (amountPcids : Nat) (noflush missing : Bool) :
    Attains fresh (testSupportedPcids configuration level amountPcids noflush)
      fun misses => misses = missesOf missing := by
  refine attains_then attains_getCr3 fun _ => attains_count missing fun _ misses => ?_
  refine attains_then (attains_draw _) fun _ => attains_then (attains_walkPair _ _) fun _ => ?_
  refine attains_then (attains_writeData _ _) fun _ => attains_then (attains_setCr3 _) fun _ => ?_
  refine attains_then attains_flushMmuCaches fun _ => attains_then (attains_read .readData _) fun _ => ?_
  refine attains_then (attains_switchLevel _ _) fun _ => attains_then (attains_loop fun _ _ => ?_) fun _ => ?_
  · exact attains_then (attains_setCr3 _) fun _ => trivial
  refine attains_then (attains_setCr3 _) fun _ => ?_
  refine attains_bind.mpr ((attains_access .readData _ (seen missing)).mono ?_)
  rintro _ _ rfl
  refine attains_then (attains_switchLevel _ _) fun _ => attains_then (attains_setCr3 _) fun _ => ?_
  exact attains_then attains_flushMmuCaches fun _ => congrArg Iteration.next (countMiss_seen missing misses)

/-- The first random number can already give a PCID other than 0. -/
theorem attains_drawPcid : Attains fresh (drawPcid bound) fun _ => True := by
  refine ⟨1, (), trivial, ?_⟩
  cases bound <;> trivial

theorem attains_testPcidRespect (missing : Bool) :
    Attains fresh (testPcidRespect configuration bound level) fun misses => misses = missesOf missing := by
  refine attains_then attains_getCr3 fun _ => attains_count missing fun _ misses => ?_
  refine attains_then (attains_draw _) fun _ => attains_then attains_drawPcid fun _ => ?_
  refine attains_then (attains_walkPair _ _) fun _ => attains_then (attains_writeData _ _) fun _ => ?_
  refine attains_then (attains_setCr3 _) fun _ => attains_then attains_flushMmuCaches fun _ => ?_
  refine attains_then (attains_read .readData _) fun _ => attains_then (attains_switchLevel _ _) fun _ => ?_
  refine attains_then (attains_setCr3 _) fun _ => ?_
  refine attains_bind.mpr ((attains_access .readData _ (seen missing)).mono ?_)
  rintro _ _ rfl
  refine attains_then (attains_switchLevel _ _) fun _ => attains_then (attains_setCr3 _) fun _ => ?_
  exact attains_then attains_flushMmuCaches fun _ => congrArg Iteration.next (countMiss_seen missing misses)

end Extremes

section NoisyRuns

variable {configuration : Configuration} {fresh : (Nat -> Nat) -> Prop} {bound : Nat}

/-- One iteration can count a miss, and it can count none. -/
theorem attains_probeAfterFillers (positive : 1 ≤ bound) (cache : TranslationCache)
    (level setStart lastAddress prefixAlignedAddress : Nat) (walks : PageTableWalk × PageTableWalk) (misses : Nat)
    (missing : Bool) :
    Attains fresh (probeAfterFillers configuration bound cache level setStart lastAddress prefixAlignedAddress
      walks misses) fun result => result = if missing then misses + 1 else misses := by
  unfold probeAfterFillers
  refine attains_then attains_flushMmuCaches fun _ => attains_then (attains_loop fun _ _ => ?_) fun _ => ?_
  · exact attains_then ((attains_drawAddress _ _ 0).mono fun _ _ _ => trivial) fun _ =>
      attains_then ((attains_readData _ 0).mono fun _ _ _ => trivial) fun _ => trivial
  refine attains_then ((attains_followChain positive _ _).mono fun _ _ _ => trivial) fun _ => ?_
  refine attains_then ((attains_readData _ 0).mono fun _ _ _ => trivial) fun _ => ?_
  refine attains_then (attains_switchLevel _ _) fun _ => ?_
  refine attains_then ((attains_followChain positive _ _).mono fun _ _ _ => trivial) fun _ => ?_
  refine attains_bind.mpr ((attains_readData _ (if missing then signal else 0)).mono ?_)
  rintro _ _ rfl
  refine attains_then (attains_switchLevel _ _) fun _ => ?_
  cases missing <;> rfl

theorem attains_probeReplacement (positive : 1 ≤ bound) (hash : HashFunction) (setBits ways : Nat)
    (level setStart lastAddress nextAddress targetAddress position : Nat) (missing : Bool) :
    Attains fresh (probeReplacement configuration bound ⟨setBits, ways, .to hash⟩ level setStart lastAddress
      nextAddress targetAddress position) fun result => result = if missing then iterations else 0 := by
  unfold probeReplacement
  refine attains_then (attains_walkPair _ _) fun walks => ?_
  refine attains_then (attains_buildPointerChainFromHashSingle _ _ _ _ _ _ _) fun _ => ?_
  refine attains_bind.mpr ((reaches_forRange (fun index misses _ => misses = if missing then index else 0)
    0 iterations 0 () (ite_self 0).symm ?_).mono ?_)
  · rintro index _ _ _ _ rfl
    refine attains_bind.mpr ((attains_probeAfterFillers positive _ _ _ _ _ _ _ missing).mono ?_)
    rintro _ _ rfl
    exact ⟨_, rfl, by cases missing <;> rfl⟩
  · rintro _ _ rfl
    rw [Nat.zero_add]
    exact attains_then attains_flushMmuCaches fun _ => rfl

/-- A position can be measured with any choice of the candidates that miss. -/
theorem attains_resolvePosition (positive : 1 ≤ bound) (hash : HashFunction) (setBits ways : Nat)
    (level setStart lastAddress nextAddress : Nat) (addressSet : Nat -> Nat) (position : Nat)
    (arrays : (Nat -> Nat) × (Nat -> Nat)) (missing : Nat -> Bool) :
    Attains fresh (resolvePosition configuration bound ⟨setBits, ways, .to hash⟩ level setStart lastAddress
      nextAddress addressSet position arrays) fun result =>
        result.1 = placeMember ways position addressSet result.2 arrays.1 ∧
          ∀ target, target < ways -> result.2 target =
            if !alreadyPlaced ways arrays.1 (addressSet target) && missing target then iterations else 0 := by
  unfold resolvePosition
  refine attains_bind.mpr ((reaches_forRange (fun index (misses : Nat -> Nat) _ => ∀ target, target < ways ->
    misses target = if target < index ∧ (!alreadyPlaced ways arrays.1 (addressSet target) && missing target) = true
      then iterations else 0) 0 ways _ () ?_ ?_).mono ?_)
  · intro target below
    rw [if_pos below, if_neg fun counted => absurd counted.1 (Nat.not_lt_zero _)]
  · intro index misses _ _ _ counted
    by_cases placed : alreadyPlaced ways arrays.1 (addressSet index) = true
    · simp only [if_pos placed]
      refine ⟨misses, rfl, fun target below => ?_⟩
      rw [counted target below]
      refine if_congr ⟨fun both => ⟨Nat.lt_succ_of_lt both.1, both.2⟩, fun both => ⟨?_, both.2⟩⟩ rfl rfl
      rcases Nat.lt_succ_iff_lt_or_eq.mp both.1 with before | rfl
      · exact before
      · rw [placed] at both
        exact absurd both.2 Bool.false_ne_true
    · simp only [if_neg placed]
      refine attains_bind.mpr ((attains_probeReplacement positive hash setBits ways _ _ _ _ _ _
        (missing index)).mono ?_)
      rintro _ _ rfl
      refine ⟨_, rfl, fun target below => ?_⟩
      by_cases same : target = index
      · subst same
        rw [Function.update_self, Bool.eq_false_iff.mpr placed, Bool.not_false, Bool.true_and]
        exact if_congr ⟨fun holds => ⟨Nat.lt_succ_self _, holds⟩, And.right⟩ rfl rfl
      · rw [Function.update_of_ne same, counted target below]
        refine if_congr ⟨fun both => ⟨Nat.lt_succ_of_lt both.1, both.2⟩, fun both => ⟨?_, both.2⟩⟩ rfl rfl
        exact (Nat.lt_succ_iff_lt_or_eq.mp both.1).resolve_right same
  · intro misses _ counted
    refine ⟨rfl, fun target below => (counted target below).trans ?_⟩
    rw [Nat.zero_add]
    exact if_congr ⟨And.right, fun holds => ⟨below, holds⟩⟩ rfl rfl

theorem attains_lastLink (positive : 1 ≤ bound) (setStart : Nat) :
    Attains fresh (lastLink bound setStart) fun _ => True := by
  rcases Nat.exists_eq_add_of_le positive with ⟨bound, rfl⟩
  rw [Nat.add_comm]
  unfold lastLink
  refine attains_then ?_ fun _ => trivial
  rw [whileLoop]
  dsimp only
  split
  · refine attains_bind.mpr (attains_bind.mpr ((attains_readData setStart 0).mono ?_))
    rintro _ _ rfl
    cases bound <;> trivial
  · trivial

end NoisyRuns

end Talbot
