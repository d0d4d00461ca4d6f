import Talbot.Foundations.Recency
import Talbot.Machine.HugePages
import Talbot.Machine.Probes

namespace Talbot

/-!
The machine with translation caches, for the experiment that sweeps huge pages.

All pages of a huge region are one physical page here, as they are for the kernel
module.  A translation cache either serves the huge pages as well, or leaves them to
a TLB of their own, which no target depends on.
-/

open Foundations Program

namespace Machine

section Shared

variable {model : TranslationModel} {level : Nat} {machine : Machine model}

/-- What an access sees. -/
def visible (level : Nat) (machine : Machine model) (address : Nat) : Nat :=
  if machine.diverted level address then machine.complementary address else machine.memory (physicalSlot address)

def storeSlot (level : Nat) (machine : Machine model) (address data : Nat) : Machine model :=
  if machine.diverted level address then
    { machine with complementary := Function.update machine.complementary address data }
  else { machine with memory := Function.update machine.memory (physicalSlot address) data }

/-- Only the accesses differ from the machine without huge pages. -/
def handleHuge (level : Nat) : Handler kernelInterface (Machine model)
  | .readData address, machine => some (machine.visible level address, machine.touch address)
  | .fetchInstruction address, machine => some (machine.visible level address, machine.touch address)
  | .writeData address data, machine => some ((), (machine.storeSlot level address data).touch address)
  | op, machine => handle level op machine

theorem huge_readData {address : Nat} {post : Nat -> Machine model -> Prop} :
    Returns (handleHuge level) (readData address) machine post ↔
      post (machine.visible level address) (machine.touch address) :=
  (returns_call rfl).trans (returns_ret _)

theorem huge_writeData {address data : Nat} {post : Unit -> Machine model -> Prop} :
    Returns (handleHuge level) (writeData address data) machine post ↔
      post () ((machine.storeSlot level address data).touch address) :=
  (returns_call rfl).trans (returns_ret _)

theorem huge_flushMmuCaches {post : Unit -> Machine model -> Prop} :
    Returns (handleHuge level) flushMmuCaches machine post ↔ post () machine.flush :=
  @returns_flushMmuCaches _ level _ _

theorem huge_drawAddress {modulus drawLevel : Nat} {post : Nat -> Machine model -> Prop} :
    Returns (handleHuge level) (drawAddress modulus drawLevel) machine post ↔
      post (baseAddress + ((machine.randoms 0 % modulus) <<< pageTableIndexShift drawLevel))
        { machine with randoms := fun n => machine.randoms (n + 1) } :=
  @returns_drawAddress _ level _ _ _ _

theorem huge_walkPair {target complementary : Nat} {post : PageTableWalk × PageTableWalk -> Machine model -> Prop} :
    Returns (handleHuge level) (walkPair target complementary) machine post ↔
      post (walksTo target complementary) machine :=
  @returns_walkPair _ level _ _ _ _

theorem huge_switchLevel_idle {target complementary : Nat} {post : Unit -> Machine model -> Prop}
    (idle : machine.exchanged = none) :
    Returns (handleHuge level) (switchLevel level (walksTo target complementary)) machine post ↔
      post () (machine.swap (entryOf level target)) := by
  have handled : handleHuge level (.switchPageTableEntries (some ⟨level, entryOf level target⟩)
      (some ⟨level, entryOf level complementary⟩)) machine = some ((), machine.swap (entryOf level target)) := by
    simp only [handleHuge, handle, exchange, and_self, if_true, idle, Option.map_some]
  exact (returns_call handled).trans (returns_ret _)

theorem huge_switchLevel_back {target complementary entry : Nat} {post : Unit -> Machine model -> Prop}
    (exchanged : machine.exchanged = some entry) :
    Returns (handleHuge level) (switchLevel level (walksTo target complementary)) machine post ↔
      post () machine.restore := by
  have handled : handleHuge level (.switchPageTableEntries (some ⟨level, entryOf level target⟩)
      (some ⟨level, entryOf level complementary⟩)) machine = some ((), machine.restore) := by
    simp only [handleHuge, handle, exchange, and_self, if_true, exchanged, Option.map_some]
  exact (returns_call handled).trans (returns_ret _)

theorem visible_of_away {address : Nat} (away : machine.exchanged ≠ some (entryOf level address)) :
    machine.visible level address = machine.memory (physicalSlot address) := by
  have kept : machine.diverted level address = false := by
    unfold diverted
    rw [beq_eq_false_iff_ne.mpr away, Bool.false_and]
  rw [visible, kept]
  rfl

theorem storeSlot_idle (idle : machine.exchanged = none) (address data : Nat) :
    machine.storeSlot level address data =
      { machine with memory := Function.update machine.memory (physicalSlot address) data } := by
  unfold storeSlot diverted
  rw [idle]
  rfl

/-- Reading the exchanged entry in a clean memory. -/
theorem visible_eq_signal {address : Nat} (clean : Clean machine.memory machine.complementary)
    (exchanged : machine.exchanged = some (entryOf level address)) :
    machine.visible level address = signal ↔ model.holds machine.cached address = false := by
  unfold visible diverted
  rw [exchanged, beq_self_eq_true, Bool.true_and]
  cases model.holds machine.cached address with
  | true => simp [clean.1 (physicalSlot address)]
  | false => simp [clean.2 address]

/-- A store while nothing is exchanged. -/
theorem huge_writeData_ready (ready : Ready machine) {address data : Nat} (above : signal < data) :
    Returns (handleHuge level) (writeData address data) machine fun _ final =>
      Ready final ∧ final.memory = Function.update machine.memory (physicalSlot address) data := by
  rw [huge_writeData, storeSlot_idle ready.idle]
  exact ⟨⟨ready.idle, keptByWrites_clean _ _ _ _ (Nat.ne_of_gt above) ready.clean⟩, rfl⟩

/-- Following a chain accesses its nodes in order. -/
theorem huge_followChain {bound start stop : Nat} {nodes : List Nat} {post : Nat -> Machine model -> Prop}
    (path : Path (fun address => machine.memory (physicalSlot address)) start nodes stop)
    (away : ∀ node, node ∈ nodes -> machine.exchanged ≠ some (entryOf level node))
    (ends : stop ∉ nodes) (enough : nodes.length ≤ bound) (holds : post stop (machine.touchAll nodes)) :
    Returns (handleHuge level) (followChain .readData bound start stop) machine post := by
  induction nodes generalizing machine bound start with
  | nil =>
      obtain rfl : start = stop := path
      rw [followChain_stop, returns_ret]
      exact holds
  | cons node rest inductionHypothesis =>
      obtain ⟨rfl, path⟩ := path
      obtain ⟨bound, rfl⟩ : ∃ smaller, bound = smaller + 1 := ⟨bound - 1, by
        rw [List.length_cons] at enough
        omega⟩
      have different : start ≠ stop := fun same => ends (same ▸ List.mem_cons_self)
      rw [followChain_next different, returns_bind]
      refine huge_readData.mpr ?_
      rw [visible_of_away (away start List.mem_cons_self)]
      exact @inductionHypothesis (machine.touch start) bound _ path
        (fun later member => away later (List.mem_cons_of_mem _ member))
        (fun member => ends (List.mem_cons_of_mem _ member)) (Nat.le_of_succ_le_succ enough) holds

end Shared

/-! ## Building a chain through one physical page -/

section Builder

variable {σ : Type} {handler : Handler kernelInterface σ} (admitted : Nat -> Prop) (sound : σ -> Prop)
  (slots : σ -> Nat -> Nat) {level start length stop : Nat}

/-- The builder on any machine whose stores through the region change the slots of
one page.  Every pointer it stores has to be admitted. -/
theorem returns_buildHugeChain_through (positive : 1 ≤ length) (fits : 16 * length < 2 ^ pageTableIndexShift level)
    (writes : ∀ state page data, page ≤ length -> admitted data -> sound state ->
      Returns handler (writeData (hugeLink level start page) data) state fun _ final => sound final ∧
        slots final = Function.update (slots state) (physicalOffset level (hugeLink level start page)) data)
    (links : ∀ page, page ≤ length -> admitted (hugeLink level start page)) (ends : admitted stop) {state : σ}
    (initially : sound state) :
    Returns handler (buildHugeChain start stop length level) state fun _ final => sound final ∧
      Path (throughRegion level (slots final)) start
        (start :: (List.range' 2 (length - 1)).map (hugeLink level start)) stop := by
  unfold buildHugeChain
  rw [returns_bind]
  apply (returns_forRange (fun index value final => value = (16 * index, hugeLink level start index) ∧
    sound final ∧ LinksWritten level start index (slots final)) 0 length (0, start) state ?_ ?_).mono
  · rintro _ middle ⟨rfl, kept, written⟩
    rw [Nat.zero_add] at written ⊢
    refine (writes middle length stop (Nat.le_refl _) ends kept).mono ?_
    rintro _ final ⟨kept, stored⟩
    have closed : throughRegion level (slots final) (hugeLink level start length) = stop := by
      rw [throughRegion, stored, Function.update_self]
    refine ⟨kept, path_from_start positive ?_ closed⟩
    rw [stored]
    exact written.write stop fits (Nat.le_refl _)
  · exact ⟨by rw [hugeLink_zero, Nat.mul_zero], initially, fun _ _ impossible => absurd impossible (Nat.not_lt_zero _)⟩
  · rintro index _ middle - bounded ⟨rfl, kept, written⟩
    rw [Nat.zero_add] at bounded
    have next : start + ((index + 1) <<< pageTableIndexShift level) + 16 * index = hugeLink level start (index + 1) := rfl
    dsimp only
    rw [next, returns_bind]
    refine (writes middle index _ (Nat.le_of_lt bounded) (links _ bounded) kept).mono ?_
    rintro _ final ⟨kept, stored⟩
    refine (returns_ret _).mpr ⟨_, rfl, by rw [Nat.mul_add], kept, ?_⟩
    rw [stored]
    exact written.extend fits (Nat.le_of_lt bounded)

end Builder

/-! ## The sweep -/

section Sweep

variable {level : Nat}

/-- The links that the chain of a huge region passes, in order. -/
def sweptLinks (level : Nat) : List Nat :=
  hugeBase level :: (List.range' 2 (amountHugePages level - 1 - 1)).map (hugeLink level (hugeBase level))

/-- The entries of the level behind them. -/
def sweptEntries (level : Nat) : List Nat :=
  (0 :: List.range' 2 (amountHugePages level - 1 - 1)).map (entryOf level (hugeBase level) + ·)

/-- The entries of the sweep behind its start. -/
def laterEntries (level : Nat) : List Nat :=
  (List.range' 2 (amountHugePages level - 1 - 1)).map (entryOf level (hugeBase level) + ·)

variable (hugeLevel : level = 2 ∨ level = 3)

include hugeLevel

theorem isLevel_of_huge : IsLevel level := by
  rcases hugeLevel with rfl | rfl <;> decide

theorem entryOf_hugeLink {page : Nat} (small : page < amountHugePages level) :
    entryOf level (hugeLink level (hugeBase level) page) = entryOf level (hugeBase level) + page := by
  unfold entryOf hugeLink
  rw [Nat.shiftLeft_eq, Nat.shiftRight_eq_div_pow, Nat.shiftRight_eq_div_pow]
  rcases hugeLevel with rfl | rfl <;>
  · simp only [hugeBase, amountHugePages, amount2MPages, amount1GPages, huge2MBBaseAddress, huge1GBBaseAddress,
      pageTableIndexShift, if_true, if_false, Nat.reduceEqDiff] at small ⊢
    omega

theorem sweptLinks_pages {link : Nat} (swept : link ∈ sweptLinks level) :
    ∃ page, page < amountHugePages level ∧ hugeLink level (hugeBase level) page = link := by
  have several : 2 ≤ amountHugePages level := by
    rcases hugeLevel with rfl | rfl <;> decide
  rcases List.mem_cons.mp swept with rfl | later
  · exact ⟨0, by omega, hugeLink_zero⟩
  · rcases List.mem_map.mp later with ⟨page, member, rfl⟩
    rw [List.mem_range'_1] at member
    exact ⟨page, by omega, rfl⟩

theorem sweptLinks_entries : (sweptLinks level).map (entryOf level) = sweptEntries level := by
  unfold sweptLinks sweptEntries
  rw [List.map_cons, List.map_cons, List.map_map, Nat.add_zero]
  congr 1
  apply List.map_congr_left
  intro page member
  rw [List.mem_range'_1] at member
  exact entryOf_hugeLink hugeLevel (by omega)

/-- No base window reaches the entries of the sweep. -/
theorem sweptEntries_above {entry : Nat} (below : entry < entryOf level huge2MBBaseAddress) :
    entry ∉ sweptEntries level := by
  intro swept
  rcases List.mem_map.mp swept with ⟨page, _, rfl⟩
  have ordered : entryOf level huge2MBBaseAddress ≤ entryOf level (hugeBase level) := by
    rcases hugeLevel with rfl | rfl <;> decide
  omega

omit hugeLevel in
theorem sweptEntries_nodup : (sweptEntries level).Nodup := by
  apply List.Nodup.map (fun first second same => Nat.add_left_cancel same)
  rw [List.nodup_cons]
  refine ⟨fun zero => ?_, List.nodup_range'⟩
  rw [List.mem_range'_1] at zero
  omega

variable {model : TranslationModel} {machine : Machine model}

/-- What `build_huge_chain` leaves. -/
theorem huge_buildHugeChain (ready : Ready machine) {stop : Nat} (above : signal < stop) :
    Returns (handleHuge level) (buildHugeChain (hugeBase level) stop (amountHugePages level - 1) level) machine
      fun _ final => Ready final ∧
        Path (fun address => final.memory (physicalSlot address)) (hugeBase level) (sweptLinks level) stop := by
  have positive : 1 ≤ amountHugePages level - 1 := by
    rcases hugeLevel with rfl | rfl <;> decide
  have fits : 16 * (amountHugePages level - 1) < 2 ^ pageTableIndexShift level := by
    rcases hugeLevel with rfl | rfl <;> decide
  have high : signal < hugeBase level := by
    rcases hugeLevel with rfl | rfl <;> decide
  have pages : ∀ page, page ≤ amountHugePages level - 1 -> page < amountHugePages level := fun page short => by omega
  apply (returns_buildHugeChain_through (signal < ·) Ready (fun state => regionSlots level state.memory) positive fits
    ?_ ?_ above ready).mono
  · rintro _ final ⟨ready, path⟩
    refine ⟨ready, path.congr fun node swept => ?_⟩
    rcases sweptLinks_pages hugeLevel swept with ⟨page, small, rfl⟩
    rw [physicalSlot_hugeLink hugeLevel small]
    rfl
  · intro state page data short high ready
    refine (huge_writeData_ready ready high).mono ?_
    rintro _ final ⟨ready, memory⟩
    refine ⟨ready, ?_⟩
    rw [memory, physicalSlot_hugeLink hugeLevel (pages page short), regionSlots_update]
  · exact fun page short => Nat.lt_of_lt_of_le high (hugeLink_in hugeLevel (pages page short)).1

end Sweep

/-! ## One level of translation caches -/

section Verdict

/-- Whether an entry maps a page of the huge region. -/
def hugeEntry (level entry : Nat) : Bool :=
  decide (entryOf level (hugeBase level) ≤ entry) &&
    decide (entry < entryOf level (hugeBase level) + amountHugePages level)

/-- What the cache is used for.  A unified cache also takes the entries of huge
pages, a separate one leaves them to others. -/
def serves (unified : Bool) (level entry : Nat) : Bool :=
  unified || !hugeEntry level entry

/-- The cache replaces the entry used least recently. -/
@[reducible] def hugeTlb (index : Nat -> Nat) (ways : Nat) (unified : Bool) (level : Nat) : TranslationModel where
  State := LruState Nat Nat
  empty := fun _ => []
  access state address :=
    if serves unified level (entryOf level address) then accessLru index ways state (entryOf level address) else state
  holds state address := decide (entryOf level address ∈ state (index (entryOf level address)))

variable {index : Nat -> Nat} {ways : Nat} {unified : Bool} {level : Nat}

theorem hugeTlb_foldl (nodes : List Nat) (state : LruState Nat Nat) :
    nodes.foldl (hugeTlb index ways unified level).access state =
      ((nodes.map (entryOf level)).filter (serves unified level)).foldl (accessLru index ways) state := by
  induction nodes generalizing state with
  | nil => rfl
  | cons node rest inductionHypothesis =>
      rw [List.foldl_cons, inductionHypothesis, List.map_cons]
      by_cases served : serves unified level (entryOf level node) = true
      · have filled : (hugeTlb index ways unified level).access state node = _ := if_pos served
        rw [List.filter_cons_of_pos served, List.foldl_cons, filled]
      · have unchanged : (hugeTlb index ways unified level).access state node = state := if_neg served
        rw [List.filter_cons_of_neg served, unchanged]

/-- How many entries of the sweep compete with the entry. -/
def competing (index : Nat -> Nat) (unified : Bool) (level entry : Nat) : Nat :=
  (((sweptEntries level).filter (serves unified level)).filter fun other => index other = index entry).length

variable (hugeLevel : level = 2 ∨ level = 3)

include hugeLevel

theorem serves_below {entry : Nat} (below : entry < entryOf level huge2MBBaseAddress) :
    serves unified level entry = true := by
  have ordered : entryOf level huge2MBBaseAddress ≤ entryOf level (hugeBase level) := by
    rcases hugeLevel with rfl | rfl <;> decide
  have outside : hugeEntry level entry = false := by
    rw [hugeEntry, decide_eq_false (by omega), Bool.false_and]
  rw [serves, outside, Bool.not_false, Bool.or_true]

/-- A target survives the sweep exactly if fewer entries than its set has ways compete. -/
theorem survives_sweep {target : Nat} (below : entryOf level target < entryOf level huge2MBBaseAddress) :
    entryOf level target ∈ (target :: sweptLinks level).foldl (hugeTlb index ways unified level).access (fun _ => [])
        (index (entryOf level target)) ↔
      competing index unified level (entryOf level target) < ways := by
  have distinct : (entryOf level target :: (sweptEntries level).filter (serves unified level)).Nodup := by
    rw [List.nodup_cons]
    exact ⟨fun swept => sweptEntries_above hugeLevel below (List.mem_of_mem_filter swept), sweptEntries_nodup.filter _⟩
  rw [hugeTlb_foldl, List.map_cons, List.filter_cons_of_pos (serves_below hugeLevel below),
    sweptLinks_entries hugeLevel]
  exact lru_holds_first index ways distinct

variable {configuration : Configuration} {machine : Machine (hugeTlb index ways unified level)}

/-- An address of the base window is in front of the huge regions. -/
theorem drawn_below (windows : WindowsApart configuration) (random : Nat) :
    pageAddress level (baseEntry level + random % configuration.pageTableEntries level) 0 < huge2MBBaseAddress ∧
      baseEntry level + random % configuration.pageTableEntries level < entryOf level huge2MBBaseAddress := by
  have isLevel := isLevel_of_huge hugeLevel
  have positive := Nat.lt_of_lt_of_le (windows.drawable level isLevel) (Nat.div_le_self _ _)
  have inside := drawn_inWindow positive (Nat.le_refl (configuration.pageTableEntries level)) random
  rw [baseAddress_add isLevel] at inside
  have below := Nat.lt_of_lt_of_le inside.2 (windows.apart level isLevel)
  have aligned : huge2MBBaseAddress = pageAddress level (entryOf level huge2MBBaseAddress) 0 := by
    rcases hugeLevel with rfl | rfl <;> decide
  refine ⟨below, ?_⟩
  rw [aligned] at below
  exact (pageAddress_lt_iff _ _ _).mp below

/-- The chain does not go through the slot of a target. -/
theorem sweptPath_update {memory after : Nat -> Nat} {target data stop : Nat}
    (below : target < huge2MBBaseAddress) (written : after = Function.update memory target data)
    (path : Path (fun address => memory (physicalSlot address)) (hugeBase level) (sweptLinks level) stop) :
    Path (fun address => after (physicalSlot address)) (hugeBase level) (sweptLinks level) stop := by
  refine path.congr fun node swept => ?_
  rcases sweptLinks_pages hugeLevel swept with ⟨page, small, rfl⟩
  have first : huge2MBBaseAddress ≤ hugeBase level := by
    rcases hugeLevel with rfl | rfl <;> decide
  have elsewhere : physicalSlot (hugeLink level (hugeBase level) page) ≠ target := by
    rw [physicalSlot_hugeLink hugeLevel small]
    omega
  rw [written, Function.update_of_ne elsewhere]

/-- What the target shows behind the sweep. -/
theorem visible_swept {target stop entry : Nat} (clean : Clean machine.memory machine.complementary)
    (targetEntry : entryOf level target = entry) (stopEntry : entryOf level stop = entry)
    (below : entry < entryOf level huge2MBBaseAddress) :
    (((machine.flush.touch target).swap entry).touchAll (sweptLinks level)).visible level stop = signal ↔
      ways ≤ competing index unified level entry := by
  subst targetEntry
  have exchanged : (((machine.flush.touch target).swap (entryOf level target)).touchAll (sweptLinks level)).exchanged =
      some (entryOf level stop) := by
    rw [stopEntry]
    rfl
  refine (visible_eq_signal ?_ exchanged).trans ?_
  · exact clean
  · rw [decide_eq_false_iff_not, ← Nat.not_lt, stopEntry]
    exact not_congr (survives_sweep hugeLevel below)

/-- The experiment misses in every iteration, or in none. -/
theorem returns_testHugeTlb (windows : WindowsApart configuration) (ready : Ready machine) {bound : Nat}
    (enough : amountHugePages level ≤ bound) {missing : Bool}
    (competes : ∀ entry, ways ≤ competing index unified level entry ↔ missing = true) :
    Returns (handleHuge level) (testHugeTlb configuration bound level) machine fun misses _ =>
      misses = some (if missing then iterations else 0) := by
  have isLevel := isLevel_of_huge hugeLevel
  have known : ¬ (level ≠ 2 ∧ level ≠ 3) := by omega
  unfold testHugeTlb
  rw [if_neg known]
  simp only [returns_bind]
  apply (returns_forRange (fun index misses final => Ready final ∧ misses = if missing then index else 0)
    0 iterations 0 machine ?_ ?_).mono
  · rintro misses final ⟨_, rfl⟩
    rw [huge_flushMmuCaches, Nat.zero_add]
    exact (returns_ret _).mpr rfl
  · exact ⟨ready, by rw [ite_self]⟩
  rintro iteration misses state - - ⟨ready, rfl⟩
  obtain ⟨below, entryBelow⟩ := drawn_below hugeLevel windows (state.randoms 0)
  have target := baseAddress_add isLevel (state.randoms 0 % configuration.pageTableEntries level)
  generalize baseEntry level + state.randoms 0 % configuration.pageTableEntries level = entry at *
  have stop : prefixAligned (pageAddress level entry 0) level = pageAddress level entry 511 :=
    prefixAligned_pageAddress rfl
  have targetEntry : entryOf level (pageAddress level entry 0) = entry := entryOf_pageAddress isLevel (by decide)
  have stopEntry : entryOf level (pageAddress level entry 511) = entry := entryOf_pageAddress isLevel (by decide)
  have high : signal < hugeBase level := by
    rcases hugeLevel with rfl | rfl <;> decide
  have awayEntry : ∀ node, node ∈ sweptLinks level -> entry ≠ entryOf level node := by
    rintro node swept rfl
    apply sweptEntries_above hugeLevel entryBelow
    rw [← sweptLinks_entries hugeLevel]
    exact List.mem_map_of_mem swept
  simp only [returns_bind, huge_drawAddress, target, stop, huge_walkPair]
  have drawnReady : Ready { state with randoms := fun n => state.randoms (n + 1) } := ⟨ready.idle, ready.clean⟩
  have higher : signal < pageAddress level entry 511 := by
    rw [← stop]
    exact signal_lt_prefixAligned isLevel _
  apply (huge_buildHugeChain hugeLevel drawnReady higher).mono
  rintro _ built ⟨builtReady, path⟩
  apply (huge_writeData_ready builtReady high).mono
  rintro _ linked ⟨linkedReady, memory⟩
  have plain : physicalSlot (pageAddress level entry 0) = pageAddress level entry 0 := Paging.plain_of_lt below
  rw [plain] at memory
  have kept := sweptPath_update hugeLevel below memory path
  have opened : linked.flush.exchanged ≠ some (entryOf level (pageAddress level entry 0)) := by
    rw [show linked.flush.exchanged = none from linkedReady.idle]
    exact (Option.some_ne_none _).symm
  have start : linked.flush.memory (physicalSlot (pageAddress level entry 0)) = hugeBase level := by
    rw [plain]
    exact (congrFun memory _).trans (Function.update_self _ _ _)
  rw [huge_flushMmuCaches, huge_readData, visible_of_away opened, start]
  have closed : (linked.flush.touch (pageAddress level entry 0)).exchanged = none := linkedReady.idle
  rw [huge_switchLevel_idle closed, targetEntry]
  refine huge_followChain kept (fun node swept same => awayEntry node swept (Option.some.inj same)) ?_ ?_ ?_
  · intro swept
    exact awayEntry _ swept stopEntry.symm
  · refine Nat.le_trans ?_ enough
    rw [sweptLinks, List.length_cons, List.length_map, List.length_range']
    rcases hugeLevel with rfl | rfl <;> decide
  have missed := (visible_swept hugeLevel linkedReady.clean targetEntry stopEntry entryBelow).trans (competes entry)
  rw [huge_readData, huge_switchLevel_back rfl, huge_flushMmuCaches]
  refine (returns_ret _).mpr ⟨_, rfl, ⟨rfl, linkedReady.clean⟩, ?_⟩
  unfold countMiss
  cases missing with
  | true => rw [if_pos (missed.mpr rfl), if_pos rfl, if_pos rfl]
  | false =>
      rw [if_neg fun seen => Bool.false_ne_true (missed.mp seen)]
      rfl

/-! ## Evicting a huge page -/

/-- The start of the sweep, as a target of its own. -/
theorem survives_sweep_start :
    entryOf level (hugeBase level) ∈ (sweptLinks level).foldl (hugeTlb index ways true level).access (fun _ => [])
        (index (entryOf level (hugeBase level))) ↔
      ((laterEntries level).filter fun other => index other = index (entryOf level (hugeBase level))).length < ways := by
  have every : ((sweptLinks level).map (entryOf level)).filter (serves true level) = sweptEntries level := by
    rw [sweptLinks_entries hugeLevel]
    exact List.filter_eq_self.mpr fun _ _ => rfl
  rw [hugeTlb_foldl, every]
  exact lru_holds_first index ways sweptEntries_nodup

/-- What the start shows behind the rest of the sweep. -/
theorem visible_swept_start {machine : Machine (hugeTlb index ways true level)}
    (clean : Clean machine.memory machine.complementary) :
    (((machine.flush.touch (hugeBase level)).swap (entryOf level (hugeBase level))).touchAll
        ((List.range' 2 (amountHugePages level - 1 - 1)).map (hugeLink level (hugeBase level)))).visible level
          (hugeBase level) = signal ↔
      ways ≤ ((laterEntries level).filter fun other => index other = index (entryOf level (hugeBase level))).length := by
  refine (visible_eq_signal ?_ rfl).trans ?_
  · exact clean
  · rw [decide_eq_false_iff_not, ← Nat.not_lt]
    exact not_congr (survives_sweep_start hugeLevel)

/-- The experiment misses in every iteration, or in none. -/
theorem returns_testHugePageEviction {machine : Machine (hugeTlb index ways true level)} (ready : Ready machine) {bound : Nat} (enough : amountHugePages level ≤ bound)
    {missing : Bool} (competes : ways ≤ ((laterEntries level).filter fun other =>
      index other = index (entryOf level (hugeBase level))).length ↔ missing = true) :
    Returns (handleHuge level) (testHugePageEviction bound level) machine fun misses _ =>
      misses = if missing then iterations else 0 := by
  have high : signal < hugeBase level := by
    rcases hugeLevel with rfl | rfl <;> decide
  have distinct : ((sweptLinks level).map (entryOf level)).Nodup := by
    rw [sweptLinks_entries hugeLevel]
    exact sweptEntries_nodup
  have awayStart : ∀ node, node ∈ (List.range' 2 (amountHugePages level - 1 - 1)).map (hugeLink level (hugeBase level)) ->
      entryOf level (hugeBase level) ≠ entryOf level node := by
    intro node later same
    rw [sweptLinks, List.map_cons, List.nodup_cons, same] at distinct
    exact distinct.1 (List.mem_map_of_mem later)
  unfold testHugePageEviction
  apply (returns_forRange (fun index misses final => Ready final ∧ misses = if missing then index else 0)
    0 iterations 0 machine ?_ ?_).mono
  · rintro misses final ⟨_, rfl⟩
    rw [Nat.zero_add]
  · exact ⟨ready, by rw [ite_self]⟩
  rintro iteration misses state - - ⟨ready, rfl⟩
  simp only [returns_bind, huge_walkPair]
  apply (huge_buildHugeChain hugeLevel ready high).mono
  rintro _ built ⟨builtReady, -, path⟩
  have opened : built.flush.exchanged ≠ some (entryOf level (hugeBase level)) := by
    rw [show built.flush.exchanged = none from builtReady.idle]
    exact (Option.some_ne_none _).symm
  have closed : (built.flush.touch (hugeBase level)).exchanged = none := builtReady.idle
  rw [huge_flushMmuCaches, huge_readData, visible_of_away opened, huge_switchLevel_idle closed]
  refine huge_followChain path (fun node later same => awayStart node later (Option.some.inj same)) ?_ ?_ ?_
  · exact fun later => awayStart _ later rfl
  · refine Nat.le_trans ?_ enough
    rw [List.length_map, List.length_range']
    omega
  · have missed := (visible_swept_start hugeLevel builtReady.clean).trans competes
    rw [huge_readData, huge_switchLevel_back rfl, huge_flushMmuCaches]
    refine (returns_ret _).mpr ⟨_, rfl, ⟨rfl, builtReady.clean⟩, ?_⟩
    unfold countMiss
    cases missing with
    | true => rw [if_pos (missed.mpr rfl), if_pos rfl, if_pos rfl]
    | false =>
        rw [if_neg fun seen => Bool.false_ne_true (missed.mp seen)]
        rfl

end Verdict

end Machine

end Talbot
