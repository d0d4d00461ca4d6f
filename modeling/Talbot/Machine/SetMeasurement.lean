import Talbot.Machine.CalmChains
import Talbot.Machine.SetChains

namespace Talbot

/-!
The replacement policy measurement on the paging machine.

The measurement keeps two chains in memory.  The set chain runs through the
first `ways` entries of an enumeration, the filler chain through later ones, so
rebuilding the filler chain for every candidate leaves the set chain as it is.
After the first exchange only fillers are traversed, and the exchanged entry
belongs to the set.
-/

open Foundations Program Machine Paging

/-- The base window has the members of the enumeration up to `limit`. -/
structure RoomUpTo (geometry : CacheGeometry) (configuration : Configuration) (level entry limit : Nat) : Prop where
  windows : WindowsApart configuration
  isLevel : IsLevel level
  positive : 1 ≤ geometry.ways
  above : baseEntry level ≤ entry
  inside : geometry.member entry limit < baseEntry level + configuration.pageTableEntries level

namespace RoomUpTo

variable {geometry : CacheGeometry} {configuration : Configuration} {level entry limit : Nat}
  (room : RoomUpTo geometry configuration level entry limit)

include room

theorem memberPage_in {index page : Nat} (small : index ≤ limit) (low : page < 512) :
    InWindow configuration level (geometry.memberPage level entry index page) := by
  refine ⟨CacheGeometry.baseAddress_le_memberPage room.isLevel room.above index page, ?_⟩
  refine page_lt_windowEnd room.isLevel low (Nat.lt_of_le_of_lt ?_ room.inside)
  exact (geometry.hash.entry_strictMono geometry.setBits entry).monotone small

theorem memberPage_plain {index page : Nat} (small : index ≤ limit) (low : page < 512) :
    Plain (geometry.memberPage level entry index page) :=
  plain_of_inWindow room.windows room.isLevel (room.memberPage_in small low)

theorem memberPage_ne_zero (index page : Nat) : geometry.memberPage level entry index page ≠ 0 :=
  Nat.ne_of_gt (Nat.lt_of_lt_of_le (by decide) (CacheGeometry.baseAddress_le_memberPage room.isLevel room.above index page))

theorem apply_member {index : Nat} (offset : Nat) (small : index ≤ limit) :
    geometry.hash.apply (geometry.memberPage level entry index 0) offset geometry.setBits level =
      geometry.memberPage level entry (index + offset) 0 := by
  have fits : geometry.memberPage level entry index 0 < 2 ^ 64 :=
    Nat.lt_trans ((room.memberPage_in small (by decide)).inBase room.windows room.isLevel).2 (by decide)
  rw [CacheGeometry.memberPage, HashFunction.apply_aligned _ _ _ room.isLevel fits, CacheGeometry.memberPage,
    CacheGeometry.member, geometry.hash.entry_add, CacheGeometry.member]

/-- The links that are kept above a member are the next members. -/
theorem keptLinks_member {index : Nat} (small : index ≤ limit) (length : Nat) :
    ∃ count, count ≤ length ∧ keptLinks configuration level (hashLinks geometry.hash
        (geometry.memberPage level entry index 0) length geometry.setBits level) =
      (List.range' (index + 1) count).map fun k => geometry.memberPage level entry k 0 := by
  have fits : geometry.memberPage level entry index 0 < 2 ^ 64 :=
    Nat.lt_trans ((room.memberPage_in small (by decide)).inBase room.windows room.isLevel).2 (by decide)
  have chain : hashChain configuration geometry.hash (geometry.memberPage level entry index 0) length geometry.setBits
      level = _ := hashChain_eq room.isLevel length geometry.setBits rfl fits
  have entries : ∃ count, count ≤ length ∧ chainEntries configuration geometry.hash (geometry.member entry index) length
      geometry.setBits level = _ := chainEntries_eq length geometry.setBits
  rcases entries with ⟨count, short, entries⟩
  refine ⟨count, short, ?_⟩
  rw [hashChain, entries, List.range_succ_eq_map, List.map_cons, List.map_cons] at chain
  rw [(List.cons.inj chain).2, List.map_map, List.map_map, List.range'_eq_map_range, List.map_map]
  apply List.map_congr_left
  intro offset _
  simp only [Function.comp_apply, CacheGeometry.member, geometry.hash.entry_add, CacheGeometry.memberPage]
  congr 2
  omega

end RoomUpTo

/-- Whatever start is drawn, the entry after its set is mapped.  This is the one
address of a measurement that the source does not compare with the end of the
window. -/
def NextInWindow (configuration : Configuration) (level : Nat) (geometry : CacheGeometry) : Prop :=
  ∀ index, index < drawableEntries configuration level ->
    geometry.member (baseEntry level + index) geometry.ways < baseEntry level + configuration.pageTableEntries level

theorem member_eightSets (entry : Nat) : eightSets.member entry eightSets.ways ≤ entry + 33 := by
  have halves := Nat.div_add_mod entry 2
  change 2 * (entry / 2 + 2 ^ 3 * ((4 + entry % 2) / 2)) + (4 + entry % 2) % 2 ≤ entry + 33
  omega

/-- With the sizes the repository ships with, there is room above every start of level 2. -/
theorem nextInWindow_eightSets : NextInWindow defaultConfiguration 2 eightSets := by
  intro index small
  have draws : drawableEntries defaultConfiguration 2 = 512 := rfl
  have entries : defaultConfiguration.pageTableEntries 2 = 16384 := rfl
  have reached := member_eightSets (baseEntry 2 + index)
  omega

/-! ## The set chain -/

/-- The set chain stands in memory: it visits pages of the members, none of them
twice, and ends in `last`, which points to `stop`. -/
structure SetStands (geometry : CacheGeometry) (level entry : Nat) (memory : Nat -> Nat) (nodes : List Nat)
    (last stop : Nat) : Prop where
  path : Path memory (geometry.memberPage level entry 0 0) (nodes ++ [last]) stop
  distinct : (nodes ++ [last]).Nodup
  pages : ∀ node, node ∈ nodes ++ [last] ->
    ∃ index page, index < geometry.ways ∧ page ≤ 2 ∧ geometry.memberPage level entry index page = node

namespace SetStands

variable {geometry : CacheGeometry} {configuration : Configuration} {level entry last stop : Nat} {memory : Nat -> Nat}
  {nodes : List Nat}

theorem last_fresh (stands : SetStands geometry level entry memory nodes last stop) : last ∉ nodes := fun known =>
  (List.disjoint_of_nodup_append stands.distinct) known List.mem_cons_self

/-- Following the chain up to its last node. -/
theorem arrives (stands : SetStands geometry level entry memory nodes last stop) :
    Path memory (geometry.memberPage level entry 0 0) nodes last ∧ memory last = stop := by
  rcases path_append.mp stands.path with ⟨_, toLast, rfl, atEnd⟩
  exact ⟨toLast, atEnd⟩

/-- Closing the chain with another address. -/
theorem redirect (stands : SetStands geometry level entry memory nodes last stop) (next : Nat) :
    SetStands geometry level entry (Function.update memory last next) nodes last next := by
  refine ⟨path_append.mpr ⟨last, ?_, rfl, Function.update_self _ _ _⟩, stands.distinct, stands.pages⟩
  apply stands.arrives.1.congr
  intro node known
  exact (Function.update_of_ne (fun same : node = last => stands.last_fresh (same ▸ known)) _ _).symm

/-- Writing to other slots leaves the chain alone. -/
theorem congr {after : Nat -> Nat} (stands : SetStands geometry level entry memory nodes last stop)
    (agree : ∀ node, node ∈ nodes ++ [last] -> after node = memory node) :
    SetStands geometry level entry after nodes last stop :=
  ⟨stands.path.congr fun node known => (agree node known).symm, stands.distinct, stands.pages⟩

theorem page_in (stands : SetStands geometry level entry memory nodes last stop)
    (room : RoomUpTo geometry configuration level entry geometry.ways) {node : Nat} (known : node ∈ nodes ++ [last]) :
    InWindow configuration level node ∧ Plain node := by
  rcases stands.pages node known with ⟨index, page, inside, small, rfl⟩
  exact ⟨room.memberPage_in (Nat.le_of_lt inside) (by omega), room.memberPage_plain (Nat.le_of_lt inside) (by omega)⟩

/-- A chain of fillers has no node in common with the set chain. -/
theorem not_filler (stands : SetStands geometry level entry memory nodes last stop) (isLevel : IsLevel level)
    {count node : Nat}
    (known : node ∈ nodes ++ [last]) : node ∉ geometry.singleChain level entry geometry.ways count := by
  intro filler
  rcases stands.pages node known with ⟨index, page, inside, small, rfl⟩
  rcases CacheGeometry.mem_singleChain filler with ⟨other, page', lower, _, small', same⟩
  have equal := (CacheGeometry.memberPage_injective isLevel (by omega) (by omega) same).1
  omega

end SetStands

section SetChains

variable {geometry : CacheGeometry} {configuration : Configuration} {level entry limit stop : Nat} {memory : Nat -> Nat}

/-- The chain through the set alone. -/
theorem setStands_single (room : RoomUpTo geometry configuration level entry limit) {count : Nat}
    (short : count ≤ geometry.ways - 1)
    (path : Path memory (geometry.memberPage level entry 0 0) (geometry.singleChain level entry 0 count) stop) :
    ∃ nodes last, nodes.length ≤ geometry.ways ∧ nodes ++ [last] = geometry.singleChain level entry 0 count ∧
      SetStands geometry level entry memory nodes last stop := by
  have positive := room.positive
  have split := List.dropLast_append_getLast
    (List.cons_ne_nil (geometry.memberPage level entry 0 0) (geometry.memberPage level entry 0 1 ::
      (List.range' (0 + 1) count).map fun k => geometry.memberPage level entry k 0))
  refine ⟨_, _, ?_, split, ⟨by rw [split]; exact path, ?_, ?_⟩⟩
  · simp only [List.length_dropLast, List.length_cons, List.length_map, List.length_range']
    omega
  · rw [split]
    exact CacheGeometry.singleChain_nodup room.isLevel 0 count
  · rw [split]
    intro node known
    rcases CacheGeometry.mem_singleChain known with ⟨index, page, _, below, small, same⟩
    exact ⟨index, page, by omega, by omega, same⟩

/-- The same chain with the third page of one member after it. -/
theorem setStands_extra (room : RoomUpTo geometry configuration level entry limit) {count member : Nat}
    (short : count ≤ geometry.ways - 1) (inside : member < geometry.ways)
    (path : Path memory (geometry.memberPage level entry 0 0) (geometry.singleChain level entry 0 count)
      (geometry.memberPage level entry member 2)) :
    SetStands geometry level entry (Function.update memory (geometry.memberPage level entry member 2) stop)
      (geometry.singleChain level entry 0 count) (geometry.memberPage level entry member 2) stop := by
  have positive := room.positive
  have fresh := CacheGeometry.thirdPage_notMem_singleChain geometry entry room.isLevel member 0 count
  refine ⟨path_append.mpr ⟨_, path.congr ?_, rfl, Function.update_self _ _ _⟩, ?_, ?_⟩
  · intro node known
    have elsewhere : node ≠ geometry.memberPage level entry member 2 := fun same => fresh (same ▸ known)
    exact (Function.update_of_ne elsewhere _ _).symm
  · refine List.nodup_append'.mpr ⟨CacheGeometry.singleChain_nodup room.isLevel 0 _, List.nodup_singleton _, ?_⟩
    intro node known single
    exact fresh (List.mem_singleton.mp single ▸ known)
  · intro node known
    rcases List.mem_append.mp known with known | single
    · rcases CacheGeometry.mem_singleChain known with ⟨index, page, _, below, small, same⟩
      exact ⟨index, page, by omega, by omega, same⟩
    · exact ⟨member, 2, inside, Nat.le_refl 2, (List.mem_singleton.mp single).symm⟩

end SetChains

/-! ## The measurement -/

section Measurement

variable {admitted : Nat -> Nat -> Prop} {guard : Paging -> KernelOp -> Prop} {exhausted : Prop} {state : Paging}
  {memory : Nat -> Nat} {geometry : CacheGeometry} {configuration : Configuration} {level entry : Nat}

/-- Building a chain that starts in a member. -/
theorem calm_buildSingleChain {limit : Nat} (room : RoomUpTo geometry configuration level entry limit)
    (permits : Permits guard (InWindow configuration level)) (calm : Calm memory state) {index : Nat}
    (small : index ≤ limit) (stop length : Nat) :
    Ensures (may admitted) guard exhausted (buildPointerChainFromHashSingle configuration
      (geometry.memberPage level entry index 0) stop length (.to geometry.hash) geometry.setBits level) state
      fun _ final => ∃ count after, count ≤ length ∧ Calm after final ∧
        Path after (geometry.memberPage level entry index 0) (geometry.singleChain level entry index count) stop ∧
        (∀ slot, slot ∉ geometry.singleChain level entry index count -> after slot = memory slot) ∧
        ∀ node, node ∈ geometry.singleChain level entry index count -> InWindow configuration level node ∧ Plain node := by
  have links := linksIn_window room.windows room.isLevel
  have pages : ∀ page, page < 512 -> InWindow configuration level (geometry.memberPage level entry index page) ∧
      Plain (geometry.memberPage level entry index page) := fun page low =>
    ⟨room.memberPage_in small low, room.memberPage_plain small low⟩
  rcases room.keptLinks_member small length with ⟨count, short, kept⟩
  refine (calm_buildPointerChainFromHashSingle permits links calm (CacheGeometry.memberPage_add index 1)
    ?_ geometry.hash stop length geometry.setBits).mono fun _ final built => ?_
  · rintro node (rfl | rfl)
    · exact pages 0 (by decide)
    · exact pages 1 (by decide)
  · rw [kept] at built
    refine ⟨count, _, short, built, ?_, ?_, ?_⟩
    · exact writeChain_path _ _ _ _ (CacheGeometry.singleChain_nodup room.isLevel index count)
    · exact fun slot outside => writeChain_frame _ _ _ _ outside
    · intro node known
      rcases List.mem_cons.mp known with rfl | known
      · exact pages 0 (by decide)
      · rcases List.mem_cons.mp known with rfl | known
        · exact pages 1 (by decide)
        · rw [← kept] at known
          exact keptLinks_in links known

/-- The addresses of the set. -/
theorem calm_addressSet {limit : Nat} (room : RoomUpTo geometry configuration level entry limit) {reach : Nat -> Prop}
    (permits : Permits guard reach) (calm : Calm memory state) {initial : Nat -> Nat} :
    Ensures (may admitted) guard exhausted (forRange (fun i addressSet => do
      let member ← callHash (.to geometry.hash) (geometry.memberPage level entry 0 0) i geometry.setBits level
      return .next (Function.update addressSet i member)) 0 geometry.ways initial) state fun addressSet final =>
        (∀ i, i < geometry.ways -> addressSet i = geometry.memberPage level entry i 0) ∧ Calm memory final := by
  refine (ensures_forRange (fun index (addressSet : Nat -> Nat) state =>
    (∀ i, i < index -> addressSet i = geometry.memberPage level entry i 0) ∧ Calm memory state) 0 geometry.ways _ state
    ⟨fun i impossible => absurd impossible (Nat.not_lt_zero i), calm⟩ ?_).mono ?_
  · rintro index addressSet state _ _ ⟨members, calm⟩
    refine ensures_then (calm_callHash permits calm geometry.hash _ _ _ _) ?_
    rintro _ _ ⟨rfl, calm⟩
    have member : geometry.hash.apply (geometry.memberPage level entry 0 0) index geometry.setBits level =
        geometry.memberPage level entry index 0 :=
      (room.apply_member index (Nat.zero_le _)).trans (by rw [Nat.zero_add])
    refine ⟨_, rfl, ?_, calm⟩
    rw [member]
    exact update_agrees members
  · intro addressSet final holds
    rwa [Nat.zero_add] at holds

private theorem calm_lastLoop {reach : Nat -> Prop} (permits : Permits guard reach) (calm : Calm memory state)
    {start bound : Nat} {nodes : List Nat} (previous : Nat) (path : Path (shown memory) start nodes 0)
    (holds : ∀ node, node ∈ nodes -> node ≠ 0 ∧ reach node) (enough : nodes.length ≤ bound) :
    Ensures (may admitted) guard exhausted (whileLoop (fun (p, _) => p != 0) (fun (p, _) => do
      let next ← readData p
      return (next, p)) bound (start, previous)) state fun result final =>
        result.2 = nodes.getLastD previous ∧ Calm memory final := by
  induction nodes generalizing state bound start previous with
  | nil =>
      rcases path with rfl
      rw [whileLoop_stop]
      · exact ⟨rfl, calm⟩
      · exact bne_self_eq_false 0
  | cons node rest inductionHypothesis =>
      rcases path with ⟨rfl, path⟩
      rcases Nat.exists_eq_add_of_le' (Nat.le_trans (Nat.le_add_left 1 _) enough) with ⟨bound, rfl⟩
      have here := holds start List.mem_cons_self
      have reads : Ensures (may admitted) guard exhausted (do
          let next ← readData start
          return (next, start)) state fun value final => value = (shown memory start, start) ∧ Calm memory final := by
        refine ensures_then (calm_access permits calm .readData here.2) ?_
        rintro _ _ ⟨rfl, _, calm⟩
        exact ⟨rfl, calm⟩
      rw [whileLoop_next ?continues]
      case continues => exact bne_iff_ne.mpr here.1
      refine ensures_then reads ?_
      rintro _ middle ⟨rfl, calm⟩
      rw [List.getLastD_cons]
      exact inductionHypothesis calm start path (fun later known => holds later (List.mem_cons_of_mem _ known))
        (Nat.le_of_succ_le_succ enough)

/-- Following the set chain to its end finds the last node. -/
theorem calm_lastLink {reach : Nat -> Prop} (permits : Permits guard reach) (calm : Calm memory state)
    {start last bound : Nat} {nodes : List Nat} (path : Path (shown memory) start (nodes ++ [last]) 0)
    (holds : ∀ node, node ∈ nodes ++ [last] -> node ≠ 0 ∧ reach node) (enough : (nodes ++ [last]).length ≤ bound) :
    Ensures (may admitted) guard exhausted (lastLink bound start) state fun result final =>
      result = last ∧ Calm memory final := by
  unfold lastLink
  refine ensures_then (calm_lastLoop permits calm start path holds enough) ?_
  rintro ⟨_, result⟩ final ⟨same, calm⟩
  rw [List.getLastD_concat] at same
  exact ⟨same, calm⟩

variable (room : RoomUpTo geometry configuration level entry geometry.ways)
  (watches : Watches guard (InWindow configuration level))

include room watches

/-- One iteration: from the flush at its beginning to the exchange at its end. -/
theorem watched_probeAfterFillers {nodes fillers : List Nat} {last bound target : Nat}
    (between : Calm memory state ∨ Stale memory ⟨level, entryOf level (geometry.memberPage level entry target 0)⟩
      ⟨level, entryOf level (complementaryOf (geometry.memberPage level entry target 0))⟩ state)
    (stands : SetStands geometry level entry memory nodes last (geometry.memberPage level entry geometry.ways 0))
    (enough : nodes.length ≤ bound) (inSet : target < geometry.ways)
    (path : Path memory (geometry.memberPage level entry geometry.ways 0) fillers
      (geometry.memberPage level entry target 511))
    (pages : ∀ node, node ∈ fillers -> InWindow configuration level node ∧ Plain node)
    (later : ∀ node, node ∈ fillers -> ∃ index, geometry.ways ≤ index ∧ entryOf level node = geometry.member entry index)
    (short : fillers.length ≤ bound) (misses : Nat) :
    Ensures (may admitted) guard exhausted (probeAfterFillers configuration bound geometry.record level
      (geometry.memberPage level entry 0 0) last (prefixAligned (geometry.memberPage level entry target 0) level)
      (walkTo (geometry.memberPage level entry target 0), walkTo (complementaryOf (geometry.memberPage level entry target 0)))
      misses) state fun _ final => Stale memory ⟨level, entryOf level (geometry.memberPage level entry target 0)⟩
        ⟨level, entryOf level (complementaryOf (geometry.memberPage level entry target 0))⟩ final := by
  have isLevel := room.isLevel
  have flushes : Ensures (may admitted) guard exhausted flushMmuCaches state fun _ final => Calm memory final := by
    rcases between with calm | stale
    · exact calm_flushMmuCaches watches.calm calm
    · exact ensures_flushMmuCaches (watches.flushes _ _ _ _ stale) stale.flush
  have pageIn : ∀ node, node ∈ nodes ++ [last] -> InWindow configuration level node ∧ Plain node :=
    fun node known => stands.page_in room known
  have lastIn := pageIn last (List.mem_append_right _ List.mem_cons_self)
  have entryOf_target : entryOf level (geometry.memberPage level entry target 0) = geometry.member entry target :=
    CacheGeometry.entryOf_memberPage isLevel (by decide)
  unfold probeAfterFillers
  refine ensures_then flushes fun _ _ calm => ?_
  refine ensures_then (calm_warmUp room.windows isLevel watches.calm calm _) fun _ _ calm => ?_
  refine ensures_then (calm_followChain watches.calm calm .readData
    (path_shown stands.arrives.1 fun node known => (pageIn node (List.mem_append_left _ known)).2) stands.last_fresh
    enough fun node known => (pageIn node (List.mem_append_left _ known)).1) ?_
  rintro _ _ ⟨rfl, _, _, calm⟩
  refine ensures_then (calm_access watches.calm calm .readData lastIn.1) ?_
  rintro p middle ⟨next, visited, calm⟩
  rw [lastIn.2.shown_eq, stands.arrives.2] at next
  have entered : p = middle.history.last := by
    rw [visited]
    rfl
  rw [← next, entered] at path
  rw [entered, prefixAligned, CacheGeometry.memberPage_add]
  have stop : geometry.memberPage level entry target 511 =
      pageAddress level (entryOf level (geometry.memberPage level entry target 0)) 511 := by
    rw [entryOf_target]
    rfl
  rw [stop] at path ⊢
  refine ensures_look watches calm .readData .readData (path_shown path fun node known => (pages node known).2) short
    (fun node known => (pages node known).1) ?_ isLevel ?_ fun value final stale => stale
  · rw [← stop]
    exact room.memberPage_in (Nat.le_of_lt inSet) (by decide)
  · intro node known
    rcases later node known with ⟨index, lower, same⟩
    constructor
    · rw [same, entryOf_target]
      intro equal
      have indices := geometry.member_injective entry equal
      omega
    · exact entryOf_ne_complementary isLevel (((pages node known).1.inBase room.windows isLevel).2) _

/-- The measurement of a candidate rebuilds the filler chain only. -/
theorem watched_probeReplacement {nodes : List Nat} {last bound target : Nat} (calm : Calm memory state)
    (stands : SetStands geometry level entry memory nodes last (geometry.memberPage level entry geometry.ways 0))
    (enough : nodes.length ≤ bound) (fuel : geometry.ways + 2 ≤ bound) (inSet : target < geometry.ways) (position : Nat) :
    Ensures (may admitted) guard exhausted (probeReplacement configuration bound geometry.record level
      (geometry.memberPage level entry 0 0) last (geometry.memberPage level entry geometry.ways 0)
      (geometry.memberPage level entry target 0) position) state fun _ final => ∃ after, Calm after final ∧
        SetStands geometry level entry after nodes last (geometry.memberPage level entry geometry.ways 0) := by
  have isLevel := room.isLevel
  unfold probeReplacement
  refine ensures_then (calm_walkPair watches.calm calm (room.memberPage_in (Nat.le_of_lt inSet) (by decide))) ?_
  rintro _ _ ⟨rfl, calm⟩
  refine ensures_then (calm_buildSingleChain room watches.calm calm (Nat.le_refl _) _ _) ?_
  rintro _ middle ⟨count, after, short, calm, path, frame, pages⟩
  have kept := stands.congr fun node known => frame node (stands.not_filler isLevel known)
  rw [prefixAligned, CacheGeometry.memberPage_add] at path
  have few : (geometry.singleChain level entry geometry.ways count).length ≤ bound := by
    have record : geometry.record.ways = geometry.ways := rfl
    simp only [CacheGeometry.singleChain, List.length_cons, List.length_map, List.length_range']
    omega
  have later : ∀ node, node ∈ geometry.singleChain level entry geometry.ways count ->
      ∃ index, geometry.ways ≤ index ∧ entryOf level node = geometry.member entry index := by
    intro node known
    rcases CacheGeometry.mem_singleChain known with ⟨index, page, lower, _, small, rfl⟩
    exact ⟨index, lower, CacheGeometry.entryOf_memberPage isLevel (by omega)⟩
  refine ensures_then (ensures_forRange_kept (fun (_ : Nat) state => Calm after state ∨
    Stale after ⟨level, entryOf level (geometry.memberPage level entry target 0)⟩
      ⟨level, entryOf level (complementaryOf (geometry.memberPage level entry target 0))⟩ state) 0 iterations 0 _
    (Or.inl calm) fun _ misses state _ _ between => ?_) fun misses _ between => ?_
  · refine ensures_then (watched_probeAfterFillers room watches between kept enough inSet path pages later few misses) ?_
    exact fun misses _ stale => ⟨misses, Or.inl rfl, Or.inr stale⟩
  · rcases between with calm | stale
    · exact ensures_then (calm_flushMmuCaches watches.calm calm) fun _ _ calm => ⟨after, calm, kept⟩
    · exact ensures_then (ensures_flushMmuCaches (watches.flushes _ _ _ _ stale) stale.flush) fun _ _ calm =>
        ⟨after, calm, kept⟩

end Measurement

/-! ## The replacement order and the permutation vectors -/

/-- The orders hold members of the set, and 0 where nothing was written. -/
def MembersOnly (geometry : CacheGeometry) (level entry : Nat) (order : Nat -> Nat) : Prop :=
  ∀ position, order position = 0 ∨
    ∃ index, index < geometry.ways ∧ order position = geometry.memberPage level entry index 0

section Orders

variable {admitted : Nat -> Nat -> Prop} {guard : Paging -> KernelOp -> Prop} {exhausted : Prop} {state : Paging}
  {memory : Nat -> Nat} {geometry : CacheGeometry} {configuration : Configuration} {level entry : Nat}

omit geometry level entry in
theorem MembersOnly.place {geometry : CacheGeometry} {level entry position : Nat} {addressSet misses order : Nat -> Nat}
    (holds : MembersOnly geometry level entry order)
    (members : ∀ i, i < geometry.ways -> addressSet i = geometry.memberPage level entry i 0) :
    MembersOnly geometry level entry (placeMember geometry.ways position addressSet misses order) := by
  intro other
  rcases placeMember_cases geometry.ways position addressSet misses order other with same | ⟨chosen, below, same⟩
  · rw [same]
    exact holds other
  · exact Or.inr ⟨chosen, below, same.trans (members chosen below)⟩

variable (room : RoomUpTo geometry configuration level entry geometry.ways)
  (watches : Watches guard (InWindow configuration level))

include room watches

theorem watched_resolvePosition {nodes : List Nat} {last bound : Nat} (calm : Calm memory state)
    (stands : SetStands geometry level entry memory nodes last (geometry.memberPage level entry geometry.ways 0))
    (enough : nodes.length ≤ bound) (fuel : geometry.ways + 2 ≤ bound) {addressSet : Nat -> Nat}
    (members : ∀ i, i < geometry.ways -> addressSet i = geometry.memberPage level entry i 0) (position : Nat)
    {arrays : (Nat -> Nat) × (Nat -> Nat)} (order : MembersOnly geometry level entry arrays.1) :
    Ensures (may admitted) guard exhausted (resolvePosition configuration bound geometry.record level
      (geometry.memberPage level entry 0 0) last (geometry.memberPage level entry geometry.ways 0) addressSet position
      arrays) state fun result final => MembersOnly geometry level entry result.1 ∧ ∃ after, Calm after final ∧
        SetStands geometry level entry after nodes last (geometry.memberPage level entry geometry.ways 0) := by
  unfold resolvePosition
  refine ensures_then (ensures_forRange_kept (fun _ state => ∃ memory, Calm memory state ∧
    SetStands geometry level entry memory nodes last (geometry.memberPage level entry geometry.ways 0))
    0 geometry.ways _ state ⟨memory, calm, stands⟩ ?_) fun misses _ kept => ⟨order.place members, kept⟩
  rintro target misses state _ below ⟨memory, calm, stands⟩
  split
  · exact ⟨misses, Or.inl rfl, memory, calm, stands⟩
  · rw [Nat.zero_add] at below
    rw [members target below]
    refine ensures_then (watched_probeReplacement room watches calm stands enough fuel below position) ?_
    exact fun count _ kept => ⟨_, Or.inl rfl, kept⟩

/-- Measuring the order that a set chain leaves in the cache. -/
theorem watched_determineReplacementOrder {nodes : List Nat} {last bound : Nat} (calm : Calm memory state)
    (stands : SetStands geometry level entry memory nodes last 0) (enough : (nodes ++ [last]).length ≤ bound)
    (fuel : geometry.ways + 2 ≤ bound) (translationCaches : Nat -> TranslationCache)
    (recorded : translationCaches level = geometry.record) :
    Ensures (may admitted) guard exhausted (determineReplacementOrder configuration bound translationCaches
      (geometry.memberPage level entry 0 0) level) state fun order final =>
        MembersOnly geometry level entry order ∧ ∃ after, Calm after final := by
  have pageIn : ∀ node, node ∈ nodes ++ [last] -> InWindow configuration level node ∧ Plain node :=
    fun node known => stands.page_in room known
  have lastIn := pageIn last (List.mem_append_right _ List.mem_cons_self)
  have nonzero : ∀ node, node ∈ nodes ++ [last] -> node ≠ 0 ∧ InWindow configuration level node := by
    intro node known
    rcases stands.pages node known with ⟨index, page, _, _, rfl⟩
    exact ⟨room.memberPage_ne_zero index page, (pageIn _ known).1⟩
  have front : nodes.length ≤ bound := by
    rw [List.length_append] at enough
    omega
  unfold determineReplacementOrder
  dsimp only
  rw [recorded]
  refine ensures_then (calm_enter watches.calm calm _ _ _) fun _ _ calm => ?_
  refine ensures_then (calm_kmalloc watches.calm calm) ?_
  rintro _ _ ⟨rfl, calm⟩
  refine ensures_then (calm_kmalloc watches.calm calm) ?_
  rintro _ _ ⟨rfl, calm⟩
  refine ensures_then (calm_kmalloc watches.calm calm) ?_
  rintro _ _ ⟨rfl, calm⟩
  refine ensures_then (calm_lastLink watches.calm calm
    (path_shown stands.path fun node known => (pageIn node known).2) nonzero enough) ?_
  rintro found middle ⟨found_eq, calm⟩
  rw [found_eq]
  refine ensures_then (calm_addressSet room watches.calm calm) ?_
  rintro addressSet _ ⟨members, calm⟩
  refine ensures_then (calm_callHash watches.calm calm geometry.hash _ _ _ _) ?_
  rintro _ _ ⟨rfl, calm⟩
  have next : geometry.hash.apply (geometry.memberPage level entry 0 0) geometry.record.ways geometry.record.setBits level =
      geometry.memberPage level entry geometry.ways 0 :=
    (room.apply_member _ (Nat.zero_le _)).trans (by rw [Nat.zero_add]; rfl)
  rw [next]
  refine ensures_then (calm_writeData watches.calm calm lastIn.1 lastIn.2 _) fun _ middle calm => ?_
  have linked := stands.redirect (geometry.memberPage level entry geometry.ways 0)
  refine ensures_then (ensures_forRange_kept (fun (arrays : (Nat -> Nat) × (Nat -> Nat)) state =>
    MembersOnly geometry level entry arrays.1 ∧ ∃ memory, Calm memory state ∧
      SetStands geometry level entry memory nodes last (geometry.memberPage level entry geometry.ways 0))
    0 geometry.ways _ middle ⟨fun _ => Or.inl rfl, _, calm, linked⟩ ?_) ?_
  · rintro index arrays state _ _ ⟨order, memory, calm, stands⟩
    refine ensures_then (watched_resolvePosition room watches calm stands front fuel members _ order) ?_
    exact fun arrays _ holds => ⟨arrays, Or.inl rfl, holds⟩
  · rintro arrays _ ⟨order, after, calm, _⟩
    exact ⟨order, after, calm⟩

/-- The initial order, and the order after one more access to each member. -/
theorem watched_permutationRows {bound : Nat} (calm : Calm memory state) (fuel : geometry.ways + 2 ≤ bound)
    (translationCaches : Nat -> TranslationCache) (recorded : translationCaches level = geometry.record)
    (vectors : Nat -> Nat -> Int) :
    Ensures (may admitted) guard exhausted (do
      buildPointerChainFromHashSingle configuration (geometry.memberPage level entry 0 0) 0 (geometry.ways - 1)
        (.to geometry.hash) geometry.setBits level
      let initialOrder ← determineReplacementOrder configuration bound translationCaches
        (geometry.memberPage level entry 0 0) level
      forRange (fun i permutationVectors => do
        if initialOrder i = 0x0 then
          return .next permutationVectors
        let extraAddress := initialOrder i + (0x2 <<< pageTableIndexShift (level - 1))
        buildPointerChainFromHashSingle configuration (geometry.memberPage level entry 0 0) extraAddress
          (geometry.ways - 1) (.to geometry.hash) geometry.setBits level
        writeData extraAddress 0
        let currentOrder ← determineReplacementOrder configuration bound translationCaches
          (geometry.memberPage level entry 0 0) level
        return .next (Function.update permutationVectors i
          (permutationRow geometry.ways initialOrder currentOrder (permutationVectors i))))
        0 geometry.ways vectors) state fun _ final => ∃ after, Calm after final := by
  have positive := room.positive
  refine ensures_then (calm_buildSingleChain room watches.calm calm (Nat.zero_le _) 0 _) ?_
  rintro _ _ ⟨count, after, short, calm, path, _, _⟩
  rcases setStands_single room short path with ⟨nodes, last, few, _, stands⟩
  have enough : (nodes ++ [last]).length ≤ bound := by
    simp only [List.length_append, List.length_singleton]
    omega
  refine ensures_then (watched_determineReplacementOrder room watches calm stands enough fuel translationCaches recorded) ?_
  rintro initialOrder _ ⟨order, after, calm⟩
  refine ensures_forRange_kept (fun _ state => ∃ memory, Calm memory state) 0 geometry.ways vectors _ ⟨after, calm⟩ ?_
  rintro i vectors state _ _ ⟨memory, calm⟩
  split
  · exact ⟨vectors, Or.inl rfl, memory, calm⟩
  case isFalse resolved =>
    rcases (order i).resolve_left resolved with ⟨member, inSet, same⟩
    dsimp only
    rw [same, CacheGeometry.memberPage_add]
    have extraIn : InWindow configuration level (geometry.memberPage level entry member 2) :=
      room.memberPage_in (Nat.le_of_lt inSet) (by decide)
    have extraPlain : Plain (geometry.memberPage level entry member 2) :=
      room.memberPage_plain (Nat.le_of_lt inSet) (by decide)
    refine ensures_then (calm_buildSingleChain room watches.calm calm (Nat.zero_le _) _ _) ?_
    rintro _ _ ⟨count, after, short, calm, path, _, _⟩
    refine ensures_then (calm_writeData watches.calm calm extraIn extraPlain 0) fun _ _ calm => ?_
    have stands : SetStands geometry level entry (Function.update after _ 0) _ _ 0 :=
      setStands_extra room short inSet path
    have enough : (geometry.singleChain level entry 0 count ++ [geometry.memberPage level entry member 2]).length ≤ bound := by
      simp only [CacheGeometry.singleChain, List.length_append, List.length_cons, List.length_map, List.length_range',
        List.length_nil]
      omega
    refine ensures_then (watched_determineReplacementOrder room watches calm stands enough fuel translationCaches recorded) ?_
    rintro _ _ ⟨_, kept⟩
    exact ⟨_, Or.inl rfl, kept⟩

end Orders

/-- The measurement from the start address on that is drawn for it. -/
theorem watched_calculatePermutationVectors {admitted : Nat -> Nat -> Prop} {guard : Paging -> KernelOp -> Prop}
    {exhausted : Prop} {state : Paging} {memory : Nat -> Nat} {geometry : CacheGeometry} {configuration : Configuration}
    {level bound : Nat} (windows : WindowsApart configuration) (isLevel : IsLevel level) (positive : 1 ≤ geometry.ways)
    (next : NextInWindow configuration level geometry) (watches : Watches guard (InWindow configuration level))
    (calm : Calm memory state) (fuel : geometry.ways + 2 ≤ bound) (translationCaches : Nat -> TranslationCache)
    (recorded : translationCaches level = geometry.record) :
    Ensures (may admitted) guard exhausted (calculatePermutationVectors configuration bound translationCaches level) state
      fun _ final => ∃ after, Calm after final := by
  unfold calculatePermutationVectors
  dsimp only
  rw [recorded]
  refine ensures_then (calm_enter watches.calm calm _ _ _) fun _ _ calm => ?_
  refine ensures_then (calm_drawAddress watches.calm calm _ level) ?_
  rintro _ _ ⟨⟨random, rfl⟩, calm⟩
  have room : RoomUpTo geometry configuration level _ geometry.ways :=
    ⟨windows, isLevel, positive, Nat.le_add_right _ _, next _ (Nat.mod_lt random (windows.drawable level isLevel))⟩
  have start : baseAddress + ((random % drawableEntries configuration level) <<< pageTableIndexShift level) =
      geometry.memberPage level (baseEntry level + random % drawableEntries configuration level) 0 0 := by
    rw [baseAddress_add isLevel, CacheGeometry.memberPage, CacheGeometry.member_zero]
  rw [start]
  exact watched_permutationRows room watches calm fuel translationCaches recorded _

end Talbot
