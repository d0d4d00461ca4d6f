import Talbot.Kernel.Evaluation
import Talbot.Machine.Hierarchy
import Talbot.Machine.Probes

namespace Talbot

/-!
What the hierarchy evaluation reports about the caches of a level.

The shared cache is seen exactly when it is there.  A split cache that is there is
never missed.  One that is not there is missed wherever the chain above the target
is long enough to drive the target out of the shared cache; near the end of the
window the chain is shorter, and the evaluation may see a split cache that does
not exist.
-/

open Foundations Program

/-! ## The chain above a target -/

section Chain

variable {configuration : Configuration} {level index : Nat}

/-- The target with the given index in the window. -/
def windowTarget (level index : Nat) : Nat :=
  baseAddress + (index <<< pageTableIndexShift level)

def evictingChain (configuration : Configuration) (level target : Nat) : List Nat :=
  Machine.keptLinks configuration level (Machine.linearLinks target maximumEntries level)

theorem entryOf_windowPrefix (isLevel : IsLevel level) :
    entryOf level (prefixAligned (windowTarget level index) level) = entryOf level (windowTarget level index) := by
  have target : windowTarget level index = _ := baseAddress_add isLevel index
  rw [Machine.prefixAligned_pageAddress target, target, entryOf_pageAddress isLevel (by decide),
    entryOf_pageAddress isLevel (by decide)]

/-- The links lie in the entries after the target's. -/
theorem entries_linearLinks (target length : Nat) : (Machine.linearLinks target length level).map (entryOf level) =
    List.range' (entryOf level target + 1) length := by
  rw [Machine.linearLinks, List.map_map, List.range'_eq_map_range, List.range'_eq_map_range, List.map_map]
  apply List.map_congr_left
  intro position _
  have link : entryOf level (target + ((0 + position + 1) <<< pageTableIndexShift level)) = _ :=
    Machine.entryOf_chainLink target (0 + position + 1)
  simp only [Function.comp_apply, link]
  omega

theorem entries_evictingChain (target : Nat) :
    ((evictingChain configuration level target).map (entryOf level)).Sublist
      (List.range' (entryOf level target + 1) maximumEntries) := by
  rw [← entries_linearLinks target]
  exact (List.takeWhile_sublist _).map _

theorem entries_nodup (target : Nat) :
    ((target :: evictingChain configuration level target).map (entryOf level)).Nodup := by
  have sublist := @entries_evictingChain configuration level target
  rw [List.map_cons]
  apply List.nodup_cons.mpr ⟨fun inside => ?_, List.Nodup.sublist sublist List.nodup_range'⟩
  have above := (List.mem_range'_1.mp (sublist.subset inside)).1
  omega

theorem evictingChain_length_le (target : Nat) : (evictingChain configuration level target).length ≤ maximumEntries := by
  have sublist := (@entries_evictingChain configuration level target).length_le
  rwa [List.length_map, List.length_range'] at sublist

/-- The length of a chain above a target that the random word selects.  Targets near
the end of the window leave less room than the chain is meant to have, and the
builder stops there. -/
def chainRoom (configuration : Configuration) (level random : Nat) : Nat :=
  min maximumEntries
    (configuration.pageTableEntries level - 1 - random % configuration.pageTableEntries level)

theorem takeWhile_range'_length {limit : Nat} {keep : Nat -> Bool}
    (below : ∀ position, keep position = true ↔ position < limit) (start count : Nat) :
    ((List.range' start count).takeWhile keep).length = min count (limit - start) := by
  induction count generalizing start with
  | zero => exact (Nat.zero_min _).symm
  | succ count inductionHypothesis =>
      rw [List.range'_succ, List.takeWhile_cons]
      by_cases inside : start < limit
      · rw [(below start).mpr inside, if_pos rfl, List.length_cons, inductionHypothesis]
        omega
      · rw [Bool.eq_false_iff.mpr fun kept => inside ((below start).mp kept), if_neg Bool.false_ne_true,
          List.length_nil]
        omega

/-- Up to its length the chain has as many links as there are entries above the
target. -/
theorem evictingChain_length (isLevel : IsLevel level) : (evictingChain configuration level (windowTarget level index)).length =
      min maximumEntries (configuration.pageTableEntries level - 1 - index) := by
  rw [evictingChain, Machine.keptLinks, Machine.linearLinks, List.takeWhile_map, List.length_map,
    takeWhile_range'_length _ 0, Nat.sub_zero]
  intro position
  have placed : windowTarget level index + ((position + 1) <<< pageTableIndexShift level) =
      pageAddress level (baseEntry level + (index + (position + 1))) 0 := by
    rw [← baseAddress_add isLevel, windowTarget, Nat.shiftLeft_eq, Nat.shiftLeft_eq, Nat.shiftLeft_eq,
      Nat.add_mul index, Nat.add_assoc]
  rw [Function.comp_apply, placed, insideWindow_iff isLevel]
  omega

theorem prefix_not_mem_evictingChain (isLevel : IsLevel level) :
    prefixAligned (windowTarget level index) level ∉ evictingChain configuration level (windowTarget level index) := by
  intro inside
  have member : entryOf level (prefixAligned (windowTarget level index) level) ∈
      (evictingChain configuration level (windowTarget level index)).map (entryOf level) :=
    List.mem_map_of_mem inside
  rw [entryOf_windowPrefix isLevel] at member
  have distinct := @entries_nodup configuration level (windowTarget level index)
  rw [List.map_cons] at distinct
  exact (List.nodup_cons.mp distinct).1 member

end Chain

/-! ## One iteration -/

section Iteration

variable {configuration : Configuration} {level bound misses : Nat} {sizes : CacheSizes}
  {machine : Machine ((sizes.model level).through .readData)}

open Machine

/-- How many entries the random reads can leave in a split cache. -/
def warmed (sizes : CacheSizes) : MemoryAccess -> Nat
  | .readData => sizes.split .readData
  | .fetchInstruction => 0

/-- Between two iterations: no entry is exchanged, no stale translation is in use,
and the caches hold no more than their sizes allow. -/
structure Settled (sizes : CacheSizes) (machine : Machine ((sizes.model level).through .readData)) : Prop where
  ready : Ready machine
  fits : sizes.Fits machine.cached

theorem settled_afterTrigger (randoms : Nat -> Nat) :
    Settled sizes (afterTrigger ((sizes.model level).through .readData) randoms) :=
  ⟨afterTrigger_ready _ _, CacheSizes.fits_empty⟩

theorem settled_flush (ready : Ready machine) : Settled sizes machine.flush :=
  ⟨ready.flush, CacheSizes.fits_empty⟩

/-- The words that the machine still has to draw. -/
def later (count : Nat) (randoms : Nat -> Nat) : Nat -> Nat :=
  fun n => randoms (n + count)

theorem later_later (count further : Nat) (randoms : Nat -> Nat) :
    later further (later count randoms) = later (count + further) randoms :=
  funext fun n => congrArg randoms (by omega)

/-- Reads at drawn addresses, after a flush.  What they leave in the split cache of
the other kind is nothing, and in their own one at most what it has room for. -/
theorem returns_randomReads (configuration : Configuration) (ready : Ready machine) :
    Returns (handlePorts level) (forRange (fun _ _ => do
      let address ← drawAddress (configuration.pageTableEntries level) level
      let _ ← readData address
      return .next ()) 0 128 ()) machine.flush fun _ final =>
        Settled sizes final ∧ final.memory = machine.memory ∧ final.randoms = later 128 machine.randoms ∧
          ∀ access, (final.cached.split access).length ≤ warmed sizes access := by
  have apart : MemoryAccess.fetchInstruction ≠ .readData := by decide
  have reads : Returns (handlePorts level) (forRange (fun _ _ => do
      let address ← drawAddress (configuration.pageTableEntries level) level
      let _ ← readData address
      return .next ()) 0 128 ()) machine.flush fun _ final =>
        Settled sizes final ∧ final.memory = machine.memory ∧ final.randoms = later 128 machine.randoms ∧
          final.cached.split .fetchInstruction = [] := by
    apply returns_forRange fun index _ (state : Machine ((sizes.model level).through .readData)) =>
      Settled sizes state ∧ state.memory = machine.memory ∧ state.randoms = later index machine.randoms ∧
        state.cached.split .fetchInstruction = []
    · exact ⟨settled_flush ready, rfl, rfl, rfl⟩
    · rintro index _ state _ _ ⟨still, memory, randoms, cold⟩
      rw [returns_bind]
      apply returns_onData (noFetch_drawAddress _ _)
      rw [returns_drawAddress, returns_bind]
      apply (ports_access .readData).mpr
      refine (returns_ret _).mpr ⟨(), rfl, ⟨⟨still.ready.idle, still.ready.clean⟩, still.fits.use _ _⟩, memory, ?_,
        (CacheSizes.use_split_other apart _).trans cold⟩
      rw [← later_later, ← randoms]
      rfl
  apply reads.mono
  rintro _ final ⟨settled, memory, randoms, cold⟩
  refine ⟨settled, memory, randoms, fun access => ?_⟩
  cases access with
  | readData => exact settled.fits.splitFits .readData
  | fetchInstruction =>
      rw [cold]
      exact Nat.zero_le _

/-- Access the target and exchange its entry. -/
theorem returns_openTarget (access : MemoryAccess) {target complementary : Nat}
    {continuation : Nat -> Kernel (Iteration Nat)} {post : Iteration Nat -> Machine _ -> Prop} (ready : Ready machine)
    (rest : Returns (handlePorts level) (continuation (machine.memory target))
      ((machine.touchBy access target).swap (entryOf level target)) post) :
    Returns (handlePorts level) (do
      let p ← access.access target
      switchLevel level (walksTo target complementary)
      continuation p) machine post := by
  have reads : (machine.seenBy access).content level target = machine.memory target :=
    content_of_idle ready.idle
  rw [returns_bind, ports_access, reads, returns_bind]
  have idle : (machine.touchBy access target).exchanged = none := ready.idle
  apply returns_onData (noFetch_switchLevel _ _)
  exact (returns_switchLevel_idle idle).mpr rest

/-- Look at the target's entry, exchange it back, and count. -/
theorem returns_lookBack (access : MemoryAccess) {target stop complementary : Nat}
    (clean : Clean machine.memory machine.complementary) (exchanged : machine.exchanged = some (entryOf level target))
    (sameEntry : entryOf level stop = entryOf level target) :
    Returns (handlePorts level) (do
      let value ← access.access stop
      switchLevel level (walksTo target complementary)
      flushMmuCaches
      return .next (countMiss value misses)) machine fun (iteration : Iteration Nat) final =>
        Settled sizes final ∧ final.memory = machine.memory ∧ final.randoms = machine.randoms ∧
          iteration = .next (if entryOf level target ∈ machine.cached.split access ∨
            entryOf level target ∈ machine.cached.shared then misses else misses + 1) := by
  have value : (machine.seenBy access).content level stop = signal ↔
      ((sizes.model level).through access).holds machine.cached stop = false :=
    content_eq_signal clean (exchanged.trans (congrArg some sameEntry.symm))
  have held : ((sizes.model level).through access).holds machine.cached stop =
      decide (entryOf level target ∈ machine.cached.split access ∨ entryOf level target ∈ machine.cached.shared) := by
    rw [← sameEntry]
  have still : (machine.touchBy access stop).exchanged = some (entryOf level target) := exchanged
  rw [returns_bind, ports_access, returns_bind]
  apply returns_onData (noFetch_switchLevel _ _)
  rw [returns_switchLevel_back still, returns_bind, ports_flush]
  refine (returns_ret _).mpr ⟨⟨⟨rfl, clean⟩, CacheSizes.fits_empty⟩, rfl, rfl, congrArg _ ?_⟩
  rw [held, decide_eq_false_iff_not] at value
  rw [countMiss]
  by_cases known : entryOf level target ∈ machine.cached.split access ∨ entryOf level target ∈ machine.cached.shared
  · rw [if_pos known, if_neg (fun miss => value.mp miss known)]
  · rw [if_neg known, if_pos (value.mpr known)]

/-- What the caches show of the target after the chain. -/
theorem held_after_chain {accessTarget accessChain : MemoryAccess} (different : accessTarget ≠ accessChain)
    {contents : CacheContents} (fits : sizes.Fits contents) {entry : Nat} {entries : List Nat}
    (distinct : (entry :: entries).Nodup) :
    ∃ reaching, entries.length ≤ reaching + (contents.split accessChain).length ∧ reaching ≤ entries.length ∧
      (entry ∈ (entries.foldl (sizes.use accessChain) (sizes.use accessTarget contents entry)).split accessTarget ∨
        entry ∈ (entries.foldl (sizes.use accessChain) (sizes.use accessTarget contents entry)).shared ↔
      0 < sizes.split accessTarget ∨ reaching < sizes.shared) := by
  rcases List.nodup_cons.mp distinct with ⟨fresh, distinct⟩
  have chain : (sizes.use accessTarget contents entry).split accessChain = contents.split accessChain :=
    CacheSizes.use_split_other (Ne.symm different) entry
  have target := (@CacheSizes.foldl_use sizes accessChain entries (sizes.use accessTarget contents entry)).1
    accessTarget different
  refine ⟨(passed (sizes.split accessChain) (contents.split accessChain) entries).length,
    length_le_passed distinct, (passed_sublist _ _ _).length_le, ?_⟩
  rw [target, CacheSizes.use_split_self]
  rcases Nat.eq_zero_or_pos (sizes.split accessTarget) with absent | present
  · have shared := @CacheSizes.mem_shared_flooded sizes contents accessTarget accessChain absent fits _ _ distinct fresh
    rw [shared, chain, mem_accessSet_self_iff]
  · exact iff_of_true (Or.inl (mem_accessSet_self present)) (Or.inl present)

theorem returns_buildEvictingChain {level : Nat} {machine : Machine ((sizes.model level).through .readData)}
    (isLevel : IsLevel level) (index : Nat) (ready : Ready machine) :
    Returns (handle level) (buildPointerChain configuration (windowTarget level index)
      (prefixAligned (windowTarget level index) level) maximumEntries level) machine fun _ final =>
        Ready final ∧ final.randoms = machine.randoms ∧
          Path final.memory (windowTarget level index)
            (windowTarget level index :: evictingChain configuration level (windowTarget level index))
            (prefixAligned (windowTarget level index) level) := by
  apply (returns_buildPointerChain configuration _ _ _ _ ready.idle).mono
  intro _ final written
  refine ⟨⟨written.idle, ?_⟩, written.randoms_eq, ?_⟩
  · rw [written.memory_eq, written.complementary_eq]
    exact keptByWrites_clean.writeChain (fun link member => Nat.ne_of_gt
      (Nat.lt_trans signal_lt_baseAddress (baseAddress_lt_of_kept configuration member)))
      (Nat.ne_of_gt (signal_lt_prefixAligned isLevel _)) ready.clean
  · rw [written.memory_eq]
    exact writeChain_path _ _ _ _ (List.Nodup.of_map _ (entries_nodup _))

/-- Translate the target, exchange its entry, go through the chain on the other
side, and look at the target again. -/
theorem returns_lookAfterChain (isLevel : IsLevel level) {accessTarget accessChain : MemoryAccess}
    (different : accessTarget ≠ accessChain) (enough : maximumEntries ≤ bound) (settled : Settled sizes machine)
    (warmth : ∀ access, (machine.cached.split access).length ≤ warmed sizes access) {complementary : Nat}
    (path : Path machine.memory (windowTarget level index)
      (windowTarget level index :: evictingChain configuration level (windowTarget level index))
      (prefixAligned (windowTarget level index) level)) :
    Returns (handlePorts level) (do
      let p ← accessTarget.access (windowTarget level index)
      switchLevel level (walksTo (windowTarget level index) complementary)
      let p ← followChain accessChain bound p (prefixAligned (windowTarget level index) level)
      let value ← accessTarget.access p
      switchLevel level (walksTo (windowTarget level index) complementary)
      flushMmuCaches
      return .next (countMiss value misses)) machine fun (iteration : Iteration Nat) final =>
        Settled sizes final ∧ final.randoms = machine.randoms ∧ ∃ reaching,
          (evictingChain configuration level (windowTarget level index)).length ≤
            reaching + warmed sizes accessChain ∧
          reaching ≤ (evictingChain configuration level (windowTarget level index)).length ∧
          iteration = .next (if 0 < sizes.split accessTarget ∨ reaching < sizes.shared then misses else misses + 1) := by
  have distinct := @entries_nodup configuration level (windowTarget level index)
  have swappedPath : Path ((machine.touchBy accessTarget (windowTarget level index)).swap
      (entryOf level (windowTarget level index))).memory _ _ _ := path.2
  apply returns_openTarget accessTarget settled.ready
  rw [returns_bind]
  apply ports_followChain accessChain swappedPath
  · intro node inside same
    rw [List.map_cons] at distinct
    exact (List.nodup_cons.mp distinct).1 (Option.some.inj same ▸ List.mem_map_of_mem inside)
  · exact prefix_not_mem_evictingChain isLevel
  · exact Nat.le_trans (evictingChain_length_le _) enough
  refine (returns_lookBack accessTarget ?_ rfl (entryOf_windowPrefix isLevel)).mono ?_
  · exact settled.ready.clean
  rintro _ final ⟨ends, _, same, rfl⟩
  rw [List.map_cons] at distinct
  rcases held_after_chain different settled.fits distinct with ⟨reaching, many, few, held⟩
  rw [List.length_map] at many few
  refine ⟨ends, same, reaching, Nat.le_trans many (Nat.add_le_add_left (warmth accessChain) _), few, ?_⟩
  rw [← if_congr held rfl rfl, List.foldl_map]
  rfl

/-- One iteration draws 129 words.  It ends with a miss unless the target's own
cache or the shared one has kept it. -/
theorem returns_splitIteration (isLevel : IsLevel level) {accessTarget accessChain : MemoryAccess}
    (different : accessTarget ≠ accessChain) (enough : maximumEntries ≤ bound) (ready : Ready machine) :
    Returns (handlePorts level) (do
      let targetAddress ← drawAddress (configuration.pageTableEntries level) level
      let walks ← walkPair targetAddress (complementaryOf targetAddress)
      buildPointerChain configuration targetAddress (prefixAligned targetAddress level) maximumEntries level
      flushMmuCaches
      let _ ← forRange (fun _ _ => do
        let address ← drawAddress (configuration.pageTableEntries level) level
        let _ ← readData address
        return .next ()) 0 128 ()
      let p ← accessTarget.access targetAddress
      switchLevel level walks
      let p ← followChain accessChain bound p (prefixAligned targetAddress level)
      let value ← accessTarget.access p
      switchLevel level walks
      flushMmuCaches
      return .next (countMiss value misses)) machine fun (iteration : Iteration Nat) final =>
        Settled sizes final ∧ final.randoms = later 129 machine.randoms ∧ ∃ reaching,
          chainRoom configuration level (machine.randoms 0) ≤ reaching + warmed sizes accessChain ∧
          reaching ≤ chainRoom configuration level (machine.randoms 0) ∧
          iteration = .next (if 0 < sizes.split accessTarget ∨ reaching < sizes.shared then misses else misses + 1) := by
  rw [returns_bind]
  apply returns_onData (noFetch_drawAddress _ _)
  rw [returns_drawAddress, ← windowTarget, returns_bind]
  apply returns_onData (noFetch_walkPair _ _)
  rw [returns_walkPair, returns_bind]
  apply returns_onData (noFetch_buildPointerChain _ _ _ _ _)
  have drawn : Ready { machine with randoms := later 1 machine.randoms } := ⟨ready.idle, ready.clean⟩
  apply (returns_buildEvictingChain isLevel _ drawn).mono
  rintro _ built ⟨ready, randoms, path⟩
  rw [returns_bind, ports_flush, returns_bind]
  apply (returns_randomReads configuration ready).mono
  rintro _ warm ⟨settled, memory, warmRandoms, warmth⟩
  rw [← memory] at path
  apply (returns_lookAfterChain isLevel different enough settled warmth path).mono
  rintro _ final ⟨ends, same, reaching, many, few, rfl⟩
  rw [evictingChain_length isLevel] at many few
  refine ⟨ends, ?_, reaching, many, few, rfl⟩
  rw [same, warmRandoms, randoms, later_later]

end Iteration

/-! ## A whole experiment -/

section Experiment

variable {configuration : Configuration} {level bound : Nat} {sizes : CacheSizes}
  {machine : Machine ((sizes.model level).through .readData)}

open Machine

/-- How many of the first draws leave room for a chain of the given length. -/
def longChains (configuration : Configuration) (level : Nat) (words : Nat -> Nat) (draws length : Nat) : Nat :=
  (List.range draws).countP fun i => decide (length ≤ chainRoom configuration level (words (129 * i)))

theorem longChains_succ (words : Nat -> Nat) (draws length : Nat) :
    longChains configuration level words (draws + 1) length = longChains configuration level words draws length +
      if length ≤ chainRoom configuration level (words (129 * draws)) then 1 else 0 := by
  rw [longChains, List.range_succ, List.countP_append, List.countP_singleton, ← longChains]
  simp only [decide_eq_true_eq]

/-- What the miss count of a split-layer experiment says about the split cache of
`accessTarget`.  A miss needs the chain to reach the shared cache as often as that
has entries; what the other split cache answers of the chain does not count. -/
structure SplitVerdict (sizes : CacheSizes) (configuration : Configuration) (level : Nat)
    (accessTarget accessChain : MemoryAccess) (words : Nat -> Nat) (draws misses : Nat) : Prop where
  present : 0 < sizes.split accessTarget -> misses = 0
  absent : sizes.split accessTarget = 0 ->
    longChains configuration level words draws (sizes.shared + warmed sizes accessChain) ≤ misses
  atMost : misses ≤ longChains configuration level words draws sizes.shared

theorem SplitVerdict.next {accessTarget accessChain : MemoryAccess} {words : Nat -> Nat} {draws misses reaching : Nat}
    (verdict : SplitVerdict sizes configuration level accessTarget accessChain words draws misses)
    (many : chainRoom configuration level (words (129 * draws)) ≤ reaching + warmed sizes accessChain)
    (few : reaching ≤ chainRoom configuration level (words (129 * draws))) :
    SplitVerdict sizes configuration level accessTarget accessChain words (draws + 1)
      (if 0 < sizes.split accessTarget ∨ reaching < sizes.shared then misses else misses + 1) where
  present there := by
    rw [if_pos (Or.inl there)]
    exact verdict.present there
  absent missing := by
    have before := verdict.absent missing
    rw [longChains_succ]
    split <;> split <;> omega
  atMost := by
    have before := verdict.atMost
    rw [longChains_succ]
    split <;> split <;> omega

theorem returns_testSplitLayer (isLevel : IsLevel level) (enough : maximumEntries ≤ bound)
    {accessTarget accessChain : MemoryAccess} (different : accessTarget ≠ accessChain) (settled : Settled sizes machine) :
    Returns (handlePorts level) (testSplitLayer configuration bound level accessTarget accessChain) machine
      fun misses final => Settled sizes final ∧ final.randoms = later (129 * iterations) machine.randoms ∧
        SplitVerdict sizes configuration level accessTarget accessChain machine.randoms iterations misses := by
  have initially : SplitVerdict sizes configuration level accessTarget accessChain machine.randoms 0 0 :=
    ⟨fun _ => rfl, fun _ => Nat.le_refl _, Nat.le_refl _⟩
  unfold testSplitLayer
  apply returns_forRange fun draws misses (state : Machine ((sizes.model level).through .readData)) =>
    Settled sizes state ∧ state.randoms = later (129 * draws) machine.randoms ∧
      SplitVerdict sizes configuration level accessTarget accessChain machine.randoms draws misses
  · exact ⟨settled, rfl, initially⟩
  · rintro draws misses state _ _ ⟨settled, randoms, verdict⟩
    apply (returns_splitIteration isLevel different enough settled.ready).mono
    rintro _ final ⟨settled, words, reaching, many, few, rfl⟩
    have drawn : state.randoms 0 = machine.randoms (129 * draws) := by
      rw [randoms, later, Nat.zero_add]
    rw [drawn] at many few
    refine ⟨_, rfl, settled, ?_, verdict.next many few⟩
    rw [words, randoms, later_later, Nat.mul_succ]

theorem held_after_first (first : MemoryAccess) (entry : Nat) :
    (entry ∈ (sizes.use first ⟨fun _ => [], []⟩ entry).split .readData ∨
      entry ∈ (sizes.use first ⟨fun _ => [], []⟩ entry).shared) ↔
        first = .readData ∧ 0 < sizes.split .readData ∨ 0 < sizes.shared := by
  rw [CacheSizes.use_shared, if_neg List.not_mem_nil, mem_accessSet_self_iff]
  apply or_congr_left
  cases first with
  | readData => rw [CacheSizes.use_split_self, mem_accessSet_self_iff, and_iff_right rfl]
  | fetchInstruction =>
      rw [CacheSizes.use_split_other (by decide)]
      exact iff_of_false List.not_mem_nil fun impossible => absurd impossible.1 (by decide)

/-- A second access, by a read, sees the target if the caches that it shares with
the first access have room for it. -/
theorem returns_secondAccess (configuration : Configuration) (isLevel : IsLevel level) (first : MemoryAccess)
    (ready : Ready machine) {misses : Nat} :
    Returns (handlePorts level) (do
      let targetAddress ← drawAddress (configuration.pageTableEntries level) level
      let walks ← walkPair targetAddress (complementaryOf targetAddress)
      writeData targetAddress (prefixAligned targetAddress level)
      flushMmuCaches
      let p ← first.access targetAddress
      switchLevel level walks
      let value ← readData p
      switchLevel level walks
      flushMmuCaches
      return .next (countMiss value misses)) machine fun (iteration : Iteration Nat) final =>
        Settled sizes final ∧ iteration = .next
          (if first = .readData ∧ 0 < sizes.split .readData ∨ 0 < sizes.shared then misses else misses + 1) := by
  rw [returns_bind]
  apply returns_onData (noFetch_drawAddress _ _)
  rw [returns_drawAddress, ← windowTarget, returns_bind]
  generalize machine.randoms 0 % configuration.pageTableEntries level = index
  apply returns_onData (noFetch_walkPair _ _)
  rw [returns_walkPair, returns_bind]
  apply returns_onData (noFetch_writeData _ _)
  have drawn : Ready { machine with randoms := later 1 machine.randoms } := ⟨ready.idle, ready.clean⟩
  apply (returns_writeData_idle drawn.idle).mono
  rintro _ written rewritten
  have reads : written.flush.memory (windowTarget level index) = prefixAligned (windowTarget level index) level := by
    rw [show written.flush.memory = _ from rewritten.memory_eq]
    exact Function.update_self _ _ _
  have clean : Clean written.memory written.complementary := by
    rw [rewritten.memory_eq, rewritten.complementary_eq]
    exact keptByWrites_clean _ _ _ _ (Nat.ne_of_gt (signal_lt_prefixAligned isLevel _)) ready.clean
  have flushed : Ready written.flush := ⟨rewritten.idle, clean⟩
  rw [returns_bind, ports_flush]
  apply returns_openTarget first flushed
  rw [reads]
  refine (returns_lookBack .readData ?_ rfl (entryOf_windowPrefix isLevel)).mono ?_
  · exact clean
  rintro _ final ⟨settled, _, _, rfl⟩
  exact ⟨settled, congrArg _ (if_congr (held_after_first first _) rfl rfl)⟩

/-- The misses of an experiment with only two accesses. -/
def secondMisses (sizes : CacheSizes) (first : MemoryAccess) (draws : Nat) : Nat :=
  if first = .readData ∧ 0 < sizes.split .readData ∨ 0 < sizes.shared then 0 else draws

theorem secondMisses_readData (draws : Nat) : secondMisses sizes .readData draws =
    if 0 < sizes.split .readData ∨ 0 < sizes.shared then 0 else draws :=
  if_congr (or_congr_left (and_iff_right rfl)) rfl rfl

theorem secondMisses_fetchInstruction (draws : Nat) : secondMisses sizes .fetchInstruction draws =
    if 0 < sizes.shared then 0 else draws :=
  if_congr (or_iff_right fun impossible => absurd impossible.1 (by decide)) rfl rfl

theorem secondMisses_succ (first : MemoryAccess) (draws : Nat) : secondMisses sizes first (draws + 1) =
    if first = .readData ∧ 0 < sizes.split .readData ∨ 0 < sizes.shared then secondMisses sizes first draws
    else secondMisses sizes first draws + 1 := by
  unfold secondMisses
  split <;> rfl

theorem returns_testCacheExistence (configuration : Configuration) (isLevel : IsLevel level)
    (settled : Settled sizes machine) :
    Returns (handlePorts level) (testCacheExistence configuration level) machine fun misses final =>
      Settled sizes final ∧ misses = secondMisses sizes .readData iterations := by
  unfold testCacheExistence
  apply returns_forRange fun draws misses (state : Machine ((sizes.model level).through .readData)) =>
    Settled sizes state ∧ misses = secondMisses sizes .readData draws
  · exact ⟨settled, (ite_self 0).symm⟩
  · rintro draws _ state _ _ ⟨settled, rfl⟩
    apply (returns_secondAccess configuration isLevel .readData settled.ready).mono
    rintro _ final ⟨settled, rfl⟩
    exact ⟨_, rfl, settled, (secondMisses_succ _ _).symm⟩

theorem returns_testSharedLayer (configuration : Configuration) (isLevel : IsLevel level)
    (settled : Settled sizes machine) :
    Returns (handlePorts level) (testSharedLayer configuration level) machine fun misses final =>
      Settled sizes final ∧ misses = secondMisses sizes .fetchInstruction iterations := by
  unfold testSharedLayer
  apply returns_forRange fun draws misses (state : Machine ((sizes.model level).through .readData)) =>
    Settled sizes state ∧ misses = secondMisses sizes .fetchInstruction draws
  · exact ⟨settled, (ite_self 0).symm⟩
  · rintro draws _ state _ _ ⟨settled, rfl⟩
    apply (returns_secondAccess configuration isLevel .fetchInstruction settled.ready).mono
    rintro _ final ⟨settled, rfl⟩
    exact ⟨_, rfl, settled, (secondMisses_succ _ _).symm⟩

end Experiment

/-! ## The reports -/

section Reports

variable {level : Nat}

/-- The existence evaluation only sees caches that reads use: a level with nothing
but an instruction cache is reported as having none.  Each cache of the model is a
single least recently used list, fully associative, and every size of it counts,
down to a single entry.  The random words decide which targets are drawn and not
what is reported. -/
theorem evaluateCacheExistence_reports (configuration : Configuration) (isLevel : IsLevel level) (sizes : CacheSizes)
    (randoms : Nat -> Nat) :
    Returns (Machine.handlePorts level) (evaluateCacheExistence configuration level)
      (Machine.afterTrigger ((sizes.model level).through .readData) randoms) fun lines _ =>
        lines = [.existence level (if 0 < sizes.split .readData ∨ 0 < sizes.shared then 0 else iterations)] := by
  unfold evaluateCacheExistence
  rw [returns_bind]
  apply (returns_testCacheExistence configuration isLevel (settled_afterTrigger randoms)).mono
  rintro _ final ⟨_, rfl⟩
  rw [secondMisses_readData]
  exact (returns_ret _).mpr rfl

/-- A level with an instruction cache of 64 entries and nothing else. -/
theorem evaluateCacheExistence_reports_instructionsOnly :
    Returns (Machine.handlePorts 2) (evaluateCacheExistence defaultConfiguration 2)
      (Machine.afterTrigger ((CacheSizes.model ⟨fun access => if access = .readData then 0 else 64, 0⟩ 2).through
        .readData) id) fun lines _ => lines = [.existence 2 iterations] :=
  evaluateCacheExistence_reports defaultConfiguration (by decide) _ id

/-- The shared cache is seen exactly when it is there, and so is a split cache, as
far as the drawn targets leave room for a chain that fills the shared one.  Each
cache is a single least recently used list, fully associative, so a chain fills the
shared cache once it has as many links as the cache has entries.  What is reported
of an absent split cache lies between two counts of targets, since the links that
the other split cache answers do not reach the shared one. -/
theorem evaluateCacheHierarchy_reports (configuration : Configuration) {bound : Nat} (isLevel : IsLevel level)
    (enough : maximumEntries ≤ bound) (sizes : CacheSizes) (randoms : Nat -> Nat) :
    Returns (Machine.handlePorts level) (evaluateCacheHierarchy configuration bound level)
      (Machine.afterTrigger ((sizes.model level).through .readData) randoms) fun lines _ =>
        ∃ instructions data,
          lines = [.hierarchyHeader level, .splitInstructions level instructions, .splitData level data,
            .shared level (if 0 < sizes.shared then 0 else iterations)] ∧
          SplitVerdict sizes configuration level .fetchInstruction .readData randoms iterations instructions ∧
          SplitVerdict sizes configuration level .readData .fetchInstruction (later (129 * iterations) randoms)
            iterations data := by
  have apart : MemoryAccess.fetchInstruction ≠ .readData := by decide
  unfold evaluateCacheHierarchy
  rw [returns_bind]
  apply (returns_testSplitLayer isLevel enough apart (settled_afterTrigger randoms)).mono
  rintro instructions first ⟨settled, words, sawInstructions⟩
  rw [returns_bind]
  apply (returns_testSplitLayer isLevel enough apart.symm settled).mono
  rintro data second ⟨settled, _, sawData⟩
  rw [words] at sawData
  rw [returns_bind]
  apply (returns_testSharedLayer configuration isLevel settled).mono
  rintro _ final ⟨_, rfl⟩
  refine (returns_ret _).mpr ⟨instructions, data, ?_, sawInstructions, sawData⟩
  rw [secondMisses_fetchInstruction]

/-- A data cache of four entries and a shared one of eight: with targets at the start
of the window every look for an instruction cache misses. -/
theorem evaluateCacheHierarchy_reports_dataOnly :
    Returns (Machine.handlePorts 2) (evaluateCacheHierarchy defaultConfiguration maximumEntries 2)
      (Machine.afterTrigger ((CacheSizes.model ⟨fun access => if access = .readData then 4 else 0, 8⟩ 2).through
        .readData) fun _ => 0) fun lines _ =>
        lines = [.hierarchyHeader 2, .splitInstructions 2 iterations, .splitData 2 0, .shared 2 0] := by
  apply (evaluateCacheHierarchy_reports defaultConfiguration (by decide) (Nat.le_refl _) _ _).mono
  rintro _ _ ⟨instructions, data, rfl, sawInstructions, sawData⟩
  have all : longChains defaultConfiguration 2 (fun _ => 0) iterations 12 = iterations := by
    have room : decide (12 ≤ chainRoom defaultConfiguration 2 0) = true := by decide
    unfold longChains
    rw [List.countP_eq_length.mpr fun _ _ => room, List.length_range]
  have most : instructions ≤ iterations :=
    Nat.le_trans sawInstructions.atMost (Nat.le_trans List.countP_le_length (Nat.le_of_eq List.length_range))
  have least : iterations ≤ instructions := all ▸ sawInstructions.absent (by decide)
  rw [Nat.le_antisymm most least, sawData.present (by decide), if_pos (by decide)]

end Reports

end Talbot
