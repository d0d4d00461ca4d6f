import Talbot.Machine.HashChains

namespace Talbot

/-!
What one probe of an experiment observes.

A memory is clean when no base slot holds the word of the complementary slots.
Then the read through the exchanged entry sees `signal` exactly when the
translation caches have lost the target's entry.  Chain building keeps a clean
memory clean.
-/

open Foundations Program

namespace Machine

variable {model : TranslationModel} {level : Nat}

/-- Complementary slots hold `signal`, and no other slot does.  What a probe reads
then tells which of the two pages it was translated to. -/
def Clean : MemoryProperty :=
  fun memory complementary => (∀ slot, memory slot ≠ signal) ∧ ∀ slot, complementary slot = signal

/-- Between two probes nothing is exchanged and the memory is clean.  The caches may
hold anything, since every probe begins with a flush. -/
structure Ready (machine : Machine model) : Prop where
  idle : machine.exchanged = none
  clean : Clean machine.memory machine.complementary

theorem afterTrigger_ready (model : TranslationModel) (randoms : Nat -> Nat) :
    Ready (afterTrigger model randoms) :=
  ⟨rfl, fun _ => (by decide : (0 : Nat) ≠ signal), fun _ => rfl⟩

theorem Ready.flush {machine : Machine model} (ready : Ready machine) : Ready machine.flush :=
  ⟨ready.idle, ready.clean⟩

theorem keptByWrites_clean : KeptByWrites Clean (· ≠ signal) := by
  intro memory complementary slot data other clean
  refine ⟨fun address => ?_, clean.2⟩
  by_cases same : address = slot
  · subst same
    rw [Function.update_self]
    exact other
  · rw [Function.update_of_ne same]
    exact clean.1 address

/-- Addresses above the word of the complementary slots are no such word. -/
theorem keptByWrites_clean_above {lowest : Nat} (above : signal < lowest) :
    KeptByWrites Clean (lowest ≤ ·) :=
  fun memory complementary slot data higher clean =>
    keptByWrites_clean memory complementary slot data
      (fun same => absurd above (Nat.not_lt.mpr (same ▸ higher))) clean

theorem signal_lt_baseAddress : signal < baseAddress := by
  decide

/-- Reading the exchanged entry in a clean memory. -/
theorem content_eq_signal {machine : Machine model} {address : Nat}
    (clean : Clean machine.memory machine.complementary)
    (exchanged : machine.exchanged = some (entryOf level address)) :
    machine.content level address = signal ↔ model.holds machine.cached address = false := by
  rw [content_exchanged exchanged]
  cases model.holds machine.cached address with
  | true => simp only [if_true, clean.1 address, Bool.true_eq_false]
  | false => simp only [Bool.false_eq_true, if_false, clean.2 address]

variable (configuration : Configuration) (hash : HashFunction)

theorem baseAddress_lt_of_kept {candidates : List Nat} {link : Nat}
    (member : link ∈ keptLinks configuration level candidates) : baseAddress < link := by
  have inside := List.mem_takeWhile_imp member
  unfold insideWindow at inside
  exact of_decide_eq_true (Bool.and_eq_true_iff.mp inside).1

/-- Pages of an entry other than its first are on no chain of a hash function. -/
theorem pageAddress_not_mem_hashChain {configuration : Configuration} {hash : HashFunction}
    (isLevel : IsLevel level) {startAddress entry other page : Nat} (length setBits : Nat)
    (aligned : startAddress = pageAddress level entry 0) (fits : startAddress < 2 ^ 64)
    (positive : 0 < page) (small : page < 512) :
    pageAddress level other page ∉ hashChain configuration hash startAddress length setBits level := by
  rw [hashChain_eq isLevel length setBits aligned fits]
  intro member
  rcases List.mem_map.mp member with ⟨_, _, same⟩
  have pages := pageAddress_injective isLevel (by decide) small same
  omega

theorem hashChain_nodup {configuration : Configuration} {hash : HashFunction} (isLevel : IsLevel level)
    {startAddress entry : Nat} (length setBits : Nat) (aligned : startAddress = pageAddress level entry 0)
    (fits : startAddress < 2 ^ 64) :
    (hashChain configuration hash startAddress length setBits level).Nodup := by
  rw [hashChain_eq isLevel length setBits aligned fits]
  apply (chainEntries_nodup length setBits).map
  intro first second same
  exact (pageAddress_injective isLevel (by decide) (by decide) same).1

theorem prefixAligned_pageAddress {targetAddress entry : Nat}
    (aligned : targetAddress = pageAddress level entry 0) :
    prefixAligned targetAddress level = pageAddress level entry 511 := by
  rw [aligned, prefixAligned, pageAddress_add]

theorem signal_lt_prefixAligned (isLevel : IsLevel level) (targetAddress : Nat) :
    signal < prefixAligned targetAddress level := by
  have page : 2 ^ 12 ≤ 2 ^ pageTableIndexShift (level - 1) :=
    Nat.pow_le_pow_right (by decide) (le_pageTableIndexShift isLevel)
  have bound : signal < 511 * 2 ^ 12 := by decide
  rw [prefixAligned_eq]
  omega

/-- After building, the chain is in memory and the memory is still clean.  The
chain may belong to another level than the exchanged entries. -/
theorem returns_buildHashChain {chainLevel : Nat} (isLevel : IsLevel chainLevel) {machine : Machine model}
    {startAddress endAddress entry : Nat} (length setBits : Nat) (ready : Ready machine)
    (aligned : startAddress = pageAddress chainLevel entry 0) (fits : startAddress < 2 ^ 64)
    (higher : signal < endAddress) :
    Returns (handle level) (buildPointerChainFromHash configuration startAddress endAddress length
      (.to hash) setBits chainLevel) machine fun _ final =>
        Ready final ∧ final.randoms = machine.randoms ∧
          Path final.memory startAddress
            (hashChain configuration hash startAddress length setBits chainLevel) endAddress := by
  apply (returns_buildPointerChainFromHash configuration hash startAddress endAddress length setBits
    chainLevel ready.idle).mono
  intro _ final written
  refine ⟨⟨written.idle, ?_⟩, written.randoms_eq, ?_⟩
  · rw [written.memory_eq, written.complementary_eq]
    exact keptByWrites_clean.writeChain (fun link member => Nat.ne_of_gt
      (Nat.lt_trans signal_lt_baseAddress (baseAddress_lt_of_kept configuration member)))
      (Nat.ne_of_gt higher) ready.clean
  · rw [written.memory_eq]
    exact writeChain_path _ _ _ _ (hashChain_nodup isLevel length setBits aligned fits)

/-- Reading the first node and following the rest accesses the whole chain. -/
theorem returns_readThrough {machine : Machine model} {start stop bound : Nat} {rest : List Nat}
    {post : Nat -> Machine model -> Prop} (idle : machine.exchanged = none)
    (path : Path machine.memory start (start :: rest) stop) (ends : stop ∉ start :: rest)
    (short : rest.length ≤ bound) (holds : post stop (machine.touchAll (start :: rest))) :
    Returns (handle level) (readData start) machine fun p middle =>
      Returns (handle level) (followChain .readData bound p stop) middle post := by
  have current : machine.content level start = machine.memory start :=
    content_of_idle idle
  rw [returns_readData, current]
  have touched : Path (machine.touch start).memory (machine.memory start) rest stop := path.2
  have away : ∀ node, node ∈ rest -> (machine.touch start).exchanged ≠ some (entryOf level node) := by
    intro node _
    rw [show (machine.touch start).exchanged = none from idle]
    exact nofun
  exact returns_followChain .readData touched away (fun member => ends (List.mem_cons_of_mem _ member)) short holds

/-- Accesses change nothing but the caches. -/
structure Touched (before after : Machine model) (addresses : List Nat) : Prop where
  memory_eq : after.memory = before.memory
  complementary_eq : after.complementary = before.complementary
  exchanged_eq : after.exchanged = before.exchanged
  cached_eq : after.cached = addresses.foldl model.access before.cached

theorem Touched.trans {first second third : Machine model} {one two : List Nat}
    (before : Touched first second one) (after : Touched second third two) :
    Touched first third (one ++ two) := by
  refine ⟨after.memory_eq.trans before.memory_eq, after.complementary_eq.trans before.complementary_eq,
    after.exchanged_eq.trans before.exchanged_eq, ?_⟩
  rw [after.cached_eq, before.cached_eq, List.foldl_append]

theorem Touched.ready {before after : Machine model} {addresses : List Nat}
    (touched : Touched before after addresses) (ready : Ready before) : Ready after := by
  refine ⟨touched.exchanged_eq.trans ready.idle, ?_⟩
  rw [touched.memory_eq, touched.complementary_eq]
  exact ready.clean

/-- The warm-up reads some addresses. -/
theorem returns_warmUp (configuration : Configuration) (count : Nat)
    (machine : Machine model) :
    Returns (handle level) (warmUp configuration level count) machine fun _ final =>
      ∃ warm, Touched machine final warm := by
  apply returns_forRange (fun _ _ (state : Machine model) => ∃ warm, Touched machine state warm)
  · exact ⟨[], rfl, rfl, rfl, rfl⟩
  · rintro index _ state _ _ ⟨warm, touched⟩
    rw [returns_bind, returns_drawAddress, returns_bind, returns_readData]
    refine (returns_ret _).mpr ⟨(), rfl, warm ++ [_], touched.trans ⟨rfl, rfl, rfl, rfl⟩⟩

/-- Following a chain without an exchanged entry. -/
theorem returns_followIdle {machine : Machine model}
    {start stop bound : Nat} {nodes : List Nat} {post : Nat -> Machine model -> Prop}
    (ready : Ready machine) (path : Path machine.memory start nodes stop) (ends : stop ∉ nodes)
    (enough : nodes.length ≤ bound)
    (holds : ∀ final, Touched machine final nodes -> post stop final) :
    Returns (handle level) (followChain .readData bound start stop) machine post := by
  apply returns_followChain .readData path _ ends enough
  · exact holds _ ⟨rfl, rfl, rfl, rfl⟩
  · intro node _
    rw [ready.idle]
    exact nofun

/-! ## One member of a set -/

/-- After accessing the whole chain, the `j`-th member of its set is gone. -/
def memberMisses (model : TranslationModel) (ways setBits level startAddress j : Nat) : Bool :=
  decide (hash.apply startAddress j setBits level < windowEnd configuration level) &&
    !model.holds ((hashChain configuration hash startAddress ways setBits level).foldl model.access model.empty)
      (prefixAligned (hash.apply startAddress j setBits level) level)

/-- Between the two exchanges of a probe only the caches change. -/
structure Swapped (before during : Machine model) (entry : Nat) : Prop where
  exchanged : during.exchanged = some entry
  memory_eq : during.memory = before.memory
  complementary_eq : during.complementary = before.complementary
  randoms_eq : during.randoms = before.randoms

theorem Swapped.ready {before during : Machine model} {entry : Nat} (swapped : Swapped before during entry)
    (ready : Ready before) : Ready during.restore.flush := by
  refine ⟨rfl, ?_⟩
  rw [show during.restore.flush.memory = before.memory from swapped.memory_eq,
    show during.restore.flush.complementary = before.complementary from swapped.complementary_eq]
  exact ready.clean

/-- Exchange the target's entry and read through it: the value tells whether the
caches still hold the old translation. -/
theorem returns_observe {machine : Machine model} {stop target complementary : Nat}
    {post : Nat -> Machine model -> Prop} (ready : Ready machine)
    (sameEntry : entryOf level stop = entryOf level target)
    (holds : ∀ value during, (value = signal ↔ model.holds machine.cached stop = false) ->
      Swapped machine during (entryOf level target) -> post value during) :
    Returns (handle level) (switchLevel level (walksTo target complementary)) machine fun _ during =>
      Returns (handle level) (readData stop) during post := by
  rw [returns_switchLevel_idle ready.idle, returns_readData]
  apply holds
  · exact content_eq_signal ready.clean (congrArg some sameEntry.symm)
  · exact ⟨rfl, rfl, rfl, rfl⟩

/-- The same with a chain followed in between, none of whose nodes lies in the
exchanged entry. -/
theorem returns_observeAfter (access : MemoryAccess) {machine : Machine model}
    {start stop target complementary bound : Nat} {nodes : List Nat} {post : Nat -> Machine model -> Prop}
    (ready : Ready machine) (path : Path machine.memory start nodes stop) (ends : stop ∉ nodes)
    (away : ∀ node, node ∈ nodes -> entryOf level target ≠ entryOf level node)
    (enough : nodes.length ≤ bound) (sameEntry : entryOf level stop = entryOf level target)
    (holds : ∀ value during,
      (value = signal ↔ model.holds (nodes.foldl model.access machine.cached) stop = false) ->
      Swapped machine during (entryOf level target) -> post value during) :
    Returns (handle level) (switchLevel level (walksTo target complementary)) machine fun _ swapped =>
      Returns (handle level) (followChain access bound start stop) swapped fun p during =>
        Returns (handle level) (access.access p) during post := by
  rw [returns_switchLevel_idle ready.idle]
  have swappedPath : Path (machine.swap (entryOf level target)).memory start nodes stop := path
  apply returns_followChain access swappedPath _ ends enough
  · rw [returns_access]
    apply holds
    · exact content_eq_signal ready.clean (congrArg some sameEntry.symm)
    · exact ⟨rfl, rfl, rfl, rfl⟩
  · intro node member same
    exact away node member (Option.some.inj same)

/-- Exchanging back and flushing ends a probe. -/
theorem returns_endProbe {machine during : Machine model} {target complementary entry : Nat}
    {post : Unit -> Machine model -> Prop} (ready : Ready machine) (swapped : Swapped machine during entry)
    (holds : ∀ final, Ready final -> final.randoms = machine.randoms -> post () final) :
    Returns (handle level) (switchLevel level (walksTo target complementary)) during fun _ after =>
      Returns (handle level) flushMmuCaches after post := by
  rw [returns_switchLevel_back swapped.exchanged, returns_flushMmuCaches]
  exact holds _ (swapped.ready ready) swapped.randoms_eq

/-- The probe of one member ends the loop exactly if that member is gone. -/
theorem returns_probeMember (isLevel : IsLevel level) {machine : Machine model}
    {startAddress entry bound ways setBits j misses : Nat} (ready : Ready machine)
    (aligned : startAddress = pageAddress level entry 0) (fits : startAddress < 2 ^ 64)
    (enough : ways ≤ bound) :
    Returns (handle level) (probeMember configuration bound ways setBits (.to hash) level startAddress j
      misses) machine fun iteration final =>
        Ready final ∧ final.randoms = machine.randoms ∧
          iteration = if memberMisses configuration hash model ways setBits level startAddress j
            then .done (misses + 1) else .next misses := by
  unfold probeMember
  rw [returns_bind, returns_callHash]
  by_cases outside : windowEnd configuration level ≤ hash.apply startAddress j setBits level
  · rw [if_pos outside]
    have hit : memberMisses configuration hash model ways setBits level startAddress j = false := by
      unfold memberMisses
      rw [decide_eq_false (Nat.not_lt.mpr outside), Bool.false_and]
    refine (returns_ret _).mpr ⟨ready, rfl, ?_⟩
    rw [hit]
    rfl
  · rw [if_neg outside]
    have target : hash.apply startAddress j setBits level =
        pageAddress level (hash.entry setBits entry j) 0 := by
      subst aligned
      exact HashFunction.apply_aligned hash j setBits isLevel fits
    have stop := prefixAligned_pageAddress target
    have sameEntry : entryOf level (prefixAligned (hash.apply startAddress j setBits level) level) =
        entryOf level (hash.apply startAddress j setBits level) := by
      rw [stop, target, entryOf_pageAddress isLevel (by decide), entryOf_pageAddress isLevel (by decide)]
    have ends : prefixAligned (hash.apply startAddress j setBits level) level ∉
        hashChain configuration hash startAddress ways setBits level := by
      rw [stop]
      exact pageAddress_not_mem_hashChain isLevel ways setBits aligned fits (by decide) (by decide)
    have higher := signal_lt_prefixAligned isLevel (hash.apply startAddress j setBits level)
    have missing : memberMisses configuration hash model ways setBits level startAddress j =
        !model.holds ((hashChain configuration hash startAddress ways setBits level).foldl model.access
          model.empty) (prefixAligned (hash.apply startAddress j setBits level) level) := by
      unfold memberMisses
      rw [decide_eq_true (Nat.lt_of_not_le outside), Bool.true_and]
    simp only [returns_bind, returns_walkPair]
    apply (returns_buildHashChain configuration hash isLevel ways setBits ready aligned fits higher).mono
    rintro _ built ⟨ready, randoms, path⟩
    have short : (keptLinks configuration level
        (hashLinks hash startAddress ways setBits level)).length ≤ bound := by
      have bounded : (chainEntries configuration hash entry ways setBits level).length ≤ ways + 1 :=
        chainEntries_length_le ways setBits
      rw [← List.length_map fun other => pageAddress level other 0,
        ← hashChain_eq isLevel ways setBits aligned fits, hashChain, List.length_cons] at bounded
      omega
    rw [returns_flushMmuCaches]
    apply returns_readThrough ready.flush.idle path ends short
    have ready : Ready (built.flush.touchAll
        (hashChain configuration hash startAddress ways setBits level)) := ⟨ready.idle, ready.clean⟩
    apply returns_observe ready sameEntry
    intro value during seen swapped
    have verdict : value = signal ↔
        memberMisses configuration hash model ways setBits level startAddress j = true := by
      rw [missing, Bool.not_eq_true']
      exact seen
    by_cases miss : value = signal
    · rw [if_pos miss]
      simp only [returns_bind]
      apply returns_endProbe ready swapped
      intro final after same
      refine (returns_ret _).mpr ⟨after, same.trans randoms, ?_⟩
      rw [if_pos (verdict.mp miss)]
    · rw [if_neg miss]
      simp only [returns_bind]
      apply returns_endProbe ready swapped
      intro final after same
      refine (returns_ret _).mpr ⟨after, same.trans randoms, ?_⟩
      rw [if_neg fun gone => miss (verdict.mpr gone)]

/-! ## All members, and all iterations -/

/-- Some member of the set is gone after accessing the chain. -/
def someMemberMisses (model : TranslationModel) (ways setBits level startAddress : Nat) : Bool :=
  (List.range ways).any (memberMisses configuration hash model ways setBits level startAddress)

/-- The start addresses that an experiment can draw.  They lie in the lower part of
the window only, to leave room for a chain above them. -/
def Drawable (level startAddress : Nat) : Prop :=
  ∃ index, index < drawableEntries configuration level ∧
    startAddress = baseAddress + (index <<< pageTableIndexShift level)

theorem returns_probeMembers (isLevel : IsLevel level) {machine : Machine model}
    {startAddress entry bound ways setBits misses : Nat} (ready : Ready machine)
    (aligned : startAddress = pageAddress level entry 0) (fits : startAddress < 2 ^ 64)
    (enough : ways ≤ bound) :
    Returns (handle level) (forRange (fun j misses =>
      probeMember configuration bound ways setBits (.to hash) level startAddress j misses) 0 ways misses)
      machine fun result final => Ready final ∧
        result = if someMemberMisses configuration hash model ways setBits level startAddress
          then misses + 1 else misses := by
  apply returns_forRange_break (fun index result (state : Machine model) =>
    Ready state ∧ result = misses ∧ ∀ j, j < index ->
      memberMisses configuration hash model ways setBits level startAddress j = false)
  · exact ⟨ready, rfl, fun j impossible => absurd impossible (Nat.not_lt_zero j)⟩
  · rintro index _ state _ inside ⟨ready, rfl, earlier⟩
    rw [Nat.zero_add] at inside
    apply (returns_probeMember configuration hash isLevel ready aligned fits enough).mono
    rintro _ final ⟨after, _, rfl⟩
    cases missing : memberMisses configuration hash model ways setBits level startAddress index with
    | true =>
        have some : someMemberMisses configuration hash model ways setBits level startAddress = true :=
          List.any_eq_true.mpr ⟨index, List.mem_range.mpr inside, missing⟩
        rw [if_pos some]
        exact ⟨after, rfl⟩
    | false =>
        refine ⟨after, rfl, fun j before => ?_⟩
        rcases Nat.lt_succ_iff_lt_or_eq.mp before with before | rfl
        · exact earlier j before
        · exact missing
  · rintro _ state ⟨ready, rfl, none⟩
    have all : someMemberMisses configuration hash model ways setBits level startAddress = false := by
      apply List.any_eq_false.mpr
      intro j inside
      rw [none j (by rw [Nat.zero_add]; exact List.mem_range.mp inside)]
      exact Bool.false_ne_true
    rw [all]
    exact ⟨ready, rfl⟩

/-- Start addresses exist, and all addresses of the window are 64-bit words.
Nothing else is asked of the sizes of a level. -/
structure UsableWindow (configuration : Configuration) (level : Nat) : Prop where
  isLevel : IsLevel level
  drawable : 0 < drawableEntries configuration level
  fits : windowEnd configuration level ≤ 2 ^ 64

theorem usableWindow_default (isLevel : IsLevel level) : UsableWindow defaultConfiguration level := by
  refine ⟨isLevel, ?_, ?_⟩ <;>
  · rcases isLevel with ⟨lower, upper⟩
    interval_cases level <;> decide

theorem Drawable.aligned {configuration : Configuration} {startAddress : Nat} (isLevel : IsLevel level)
    (drawable : Drawable configuration level startAddress) :
    ∃ index, index < drawableEntries configuration level ∧
      startAddress = pageAddress level (baseEntry level + index) 0 := by
  rcases drawable with ⟨index, small, rfl⟩
  exact ⟨index, small, baseAddress_add isLevel index⟩

theorem UsableWindow.start_lt {configuration : Configuration} {startAddress : Nat}
    (window : UsableWindow configuration level) (drawable : Drawable configuration level startAddress) :
    startAddress < 2 ^ 64 := by
  rcases drawable.aligned window.isLevel with ⟨index, small, rfl⟩
  apply Nat.lt_of_lt_of_le _ window.fits
  rw [windowEnd_eq window.isLevel, pageAddress_lt_iff]
  have fewer : drawableEntries configuration level ≤ configuration.pageTableEntries level := Nat.div_le_self _ _
  omega

/-- The start entry that a random word selects. -/
def drawnEntry (configuration : Configuration) (level random : Nat) : Nat :=
  baseEntry level + random % drawableEntries configuration level

theorem drawnEntry_fits {configuration : Configuration} (window : UsableWindow configuration level) (random : Nat) :
    pageAddress level (drawnEntry configuration level random) 0 < 2 ^ 64 :=
  window.start_lt ⟨_, Nat.mod_lt _ window.drawable, (baseAddress_add window.isLevel _).symm⟩

theorem returns_drawStart {configuration : Configuration} {machine : Machine model}
    {post : Nat -> Machine model -> Prop} (window : UsableWindow configuration level) (ready : Ready machine)
    (holds : ∀ startAddress final, Drawable configuration level startAddress -> Ready final ->
      post startAddress final) :
    Returns (handle level) (drawAddress (drawableEntries configuration level) level) machine post := by
  rw [returns_drawAddress]
  exact holds _ _ ⟨_, Nat.mod_lt _ window.drawable, rfl⟩ ⟨ready.idle, ready.clean⟩

/-- The miss count, when every start address gives the same verdict. -/
theorem returns_testHashFunction (window : UsableWindow configuration level) {machine : Machine model}
    {bound ways setBits : Nat} (ready : Ready machine) (enough : ways ≤ bound) :
    Returns (handle level) (testHashFunction configuration bound ways setBits (.to hash) level) machine
      fun misses final => Ready final ∧ ∀ verdict,
        (∀ startAddress, Drawable configuration level startAddress ->
          someMemberMisses configuration hash model ways setBits level startAddress = verdict) ->
        misses = if verdict then iterations else 0 := by
  unfold testHashFunction
  apply returns_forRange (fun index misses (state : Machine model) => Ready state ∧ ∀ verdict,
    (∀ startAddress, Drawable configuration level startAddress ->
      someMemberMisses configuration hash model ways setBits level startAddress = verdict) ->
    misses = if verdict then index else 0)
  · refine ⟨ready, fun verdict _ => ?_⟩
    cases verdict <;> rfl
  · rintro index misses state _ _ ⟨ready, counted⟩
    rw [returns_bind]
    apply returns_drawStart window ready
    intro startAddress drawn drawable ready
    rcases drawable.aligned window.isLevel with ⟨_, _, aligned⟩
    rw [returns_bind]
    apply (returns_probeMembers configuration hash window.isLevel ready aligned (window.start_lt drawable)
      enough).mono
    rintro _ final ⟨after, rfl⟩
    refine (returns_ret _).mpr ⟨_, rfl, after, fun verdict same => ?_⟩
    rw [same startAddress drawable, counted verdict same]
    cases verdict <;> rfl

/-! ## The measurement of the eviction set search -/

/-- After accessing the tail of the chain, the target is gone. -/
def tailEvictsTarget (model : TranslationModel) (targetAddress level length first : Nat) : Bool :=
  !model.holds ((tailChain targetAddress level length first).foldl model.access model.empty)
    (prefixAligned targetAddress level)

theorem entryOf_chainLink (targetAddress index : Nat) :
    entryOf level (chainLink targetAddress level index) = entryOf level targetAddress + index := by
  unfold entryOf chainLink
  rw [Nat.shiftRight_eq_div_pow, Nat.shiftRight_eq_div_pow, Nat.shiftLeft_eq,
    Nat.add_mul_div_right _ _ (Nat.two_pow_pos _)]

/-- One probe of the chain counts a miss exactly if the chain evicts its target. The
links above the target lie in other entries, so only the first access uses the entry
of the target before the chain has been traversed. -/
theorem returns_probeChain (isLevel : IsLevel level) {machine : Machine model}
    {targetAddress entry length first bound misses : Nat} (access : MemoryAccess)
    (aligned : targetAddress = pageAddress level entry 0) (enough : length ≤ bound) (positive : 1 ≤ first)
    (room : first ≤ length) (holds : HoldsTail Clean machine targetAddress level length first) :
    Returns (handle level) (probeChain bound targetAddress (prefixAligned targetAddress level) level access
      (walksTo targetAddress (complementaryOf targetAddress)).2 misses) machine fun result final =>
        SameMemory machine final ∧
          result = if tailEvictsTarget model targetAddress level length first then misses + 1 else misses := by
  have path := holds.path positive room
  have ends := prefixAligned_not_mem_tailChain isLevel targetAddress length first
  have sameEntry : entryOf level (prefixAligned targetAddress level) = entryOf level targetAddress := by
    rw [prefixAligned_pageAddress aligned, aligned, entryOf_pageAddress isLevel (by decide),
      entryOf_pageAddress isLevel (by decide)]
  have current : machine.flush.content level targetAddress = machine.memory targetAddress :=
    content_of_idle holds.idle
  have ready : Ready (machine.flush.touch targetAddress) := ⟨holds.idle, holds.kept⟩
  have away : ∀ node, node ∈ (List.range' first (length + 1 - first)).map (chainLink targetAddress level) ->
      entryOf level targetAddress ≠ entryOf level node := by
    intro node member same
    rcases List.mem_map.mp member with ⟨index, inside, rfl⟩
    rw [List.mem_range'_1] at inside
    rw [entryOf_chainLink] at same
    omega
  have links : Path (machine.flush.touch targetAddress).memory (machine.memory targetAddress) _
      (prefixAligned targetAddress level) := path.2
  unfold probeChain
  rw [returns_bind, returns_walkPageTable, returns_bind, returns_clearNx, returns_bind,
    returns_flushMmuCaches, returns_bind, returns_access, current]
  simp only [returns_bind]
  apply returns_observeAfter access ready links (fun member => ends (List.mem_cons_of_mem _ member)) away
    (by rw [List.length_map, List.length_range']; omega) sameEntry
  intro value during seen swapped
  refine (returns_switchLevel_back swapped.exchanged).mpr ?_
  rw [returns_flushMmuCaches]
  refine (returns_ret _).mpr
    ⟨⟨swapped.memory_eq, swapped.complementary_eq, rfl, swapped.randoms_eq⟩, ?_⟩
  have verdict : value = signal ↔ tailEvictsTarget model targetAddress level length first = true := by
    unfold tailEvictsTarget
    rw [Bool.not_eq_true']
    exact seen
  exact if_congr verdict rfl rfl

/-- `chain_evicts` is a measurement of tails in a clean memory. -/
theorem returns_chainEvicts (isLevel : IsLevel level) {targetAddress entry bound limit : Nat}
    (access : MemoryAccess) (aligned : targetAddress = pageAddress level entry 0) (enough : limit ≤ bound) :
    MeasuresTails model Clean
      (fun target prefixAlignedAddress level => chainEvicts bound target prefixAlignedAddress level access)
      (tailEvictsTarget model targetAddress level) targetAddress level limit := by
  intro machine length first small positive room holds
  unfold chainEvicts
  simp only [returns_bind, returns_walkPageTable, returns_clearNx]
  apply Returns.mono (returns_forRange (fun index misses (state : Machine model) =>
    SameMemory machine state ∧
      misses = if tailEvictsTarget model targetAddress level length first then index else 0)
    0 iterations 0 machine ⟨SameMemory.refl holds.idle, (ite_self 0).symm⟩ _)
  · rintro misses final ⟨same, rfl⟩
    refine (returns_ret _).mpr ⟨?_, same⟩
    cases tailEvictsTarget model targetAddress level length first <;> rfl
  · rintro index misses state _ _ ⟨same, rfl⟩
    rw [returns_bind]
    apply (returns_probeChain isLevel access aligned (Nat.le_trans small enough) positive room
      (holds.sameMemory same)).mono
    rintro _ final ⟨again, rfl⟩
    refine (returns_ret _).mpr ⟨_, rfl, same.trans again, ?_⟩
    cases tailEvictsTarget model targetAddress level length first <;> rfl

end Machine
end Talbot
