import Talbot.Machine.HugePages
import Talbot.Machine.SetMeasurement

namespace Talbot

/-!
Traversals between two exchanges.

After the first exchange, accesses to the exchanged entry may show the base page
or the complementary one.  A loop that followed a pointer through that entry
could take `signal` for an address.  The loops of the experiments never do: the
remaining nodes of their chains lie in other entries, so each loop visits them
in order, arrives at the prefix-aligned address, and only the final access goes
through the exchanged entry.
-/

open Foundations Program Machine Paging

/-- The accesses since the first exchange: the nodes of the chain that stands in
memory, none of them in an exchanged entry, and then the last page of the first
entry. -/
def Followed (state : Paging) (first second : EntryLocation) : Prop :=
  ∃ nodes, Path (shown state.machine.memory) state.history.entered nodes (pageAddress first.level first.index 511) ∧
    pageAddress first.level first.index 511 ∉ nodes ∧
    (∀ node, node ∈ nodes -> entryOf first.level node ≠ first.index ∧ entryOf second.level node ≠ second.index) ∧
    state.history.accessed = nodes ++ [pageAddress first.level first.index 511]

/-- Entries are exchanged back only after their chain was followed, and memory is
not written in between. -/
def ChainsFollowed (state : Paging) : KernelOp -> Prop
  | .switchPageTableEntries (some first) (some second) => state.Exchanged -> Followed state first second
  | .switchPageTableEntries _ _ => False
  | .writeData _ _ => ¬ state.Exchanged
  | .flushMmuCaches => ¬ state.Exchanged
  | _ => True

theorem watches_chainsFollowed (reach : Nat -> Prop) : Watches ChainsFollowed reach where
  calm := by
    intro memory state op calm allowed
    cases op with
    | writeData address data => exact calm.closed
    | flushMmuCaches => exact calm.closed
    | switchPageTableEntries first second => exact allowed.elim
    | _ => trivial
  opens memory state first second calm exchanged := absurd exchanged calm.closed
  reads memory first second state access address _ _ := by
    cases access <;> trivial
  closes memory first second state nodes opened path ends away accessed _ :=
    ⟨nodes, by rw [opened.memory_eq]; exact path, ends, away, accessed⟩
  flushes memory first second state stale := stale.closed

/-- The hardware picks translations and random numbers, and nothing is assumed
about the addresses that the hash functions produce. -/
abbrev Follows {α : Type} (program : Kernel α) (state : Paging) (post : α -> Paging -> Prop) : Prop :=
  Ensures (may fun _ _ => True) ChainsFollowed False program state post

/-! ## Chains of links above a target -/

section Targets

variable {configuration : Configuration} {level entry : Nat}

theorem shiftLeft_add_page (level entry index : Nat) :
    pageAddress level entry 0 + (index <<< pageTableIndexShift level) = pageAddress level (entry + index) 0 := by
  rw [pageAddress_zero, pageAddress_zero, Nat.shiftLeft_eq, Nat.shiftLeft_eq, Nat.shiftLeft_eq, Nat.add_mul]

theorem entryOf_succ (isLevel : IsLevel (level + 1)) (address : Nat) :
    entryOf (level + 1) address = entryOf level address / 512 := by
  rw [entryOf, entryOf, pageTableIndexShift_succ isLevel, Nat.add_sub_cancel, Nat.shiftRight_add,
    Nat.shiftRight_eq_div_pow _ 9]

/-- The links that `build_pointer_chain` keeps lie in entries above its start. -/
theorem mem_linearLinks {length node : Nat}
    (kept : node ∈ keptLinks configuration level (linearLinks (pageAddress level entry 0) length level)) :
    ∃ index, entry < index ∧ node = pageAddress level index 0 := by
  rcases List.mem_map.mp (List.takeWhile_subset _ kept) with ⟨index, _, rfl⟩
  exact ⟨entry + (index + 1), by omega, shiftLeft_add_page level entry (index + 1)⟩

theorem linearLinks_nodup (isLevel : IsLevel level) (length : Nat) :
    (keptLinks configuration level (linearLinks (pageAddress level entry 0) length level)).Nodup := by
  apply List.Nodup.sublist (List.takeWhile_sublist _)
  refine List.Nodup.map (fun first second same => ?_) List.nodup_range'
  simp only [shiftLeft_add_page] at same
  have entries := (pageAddress_injective isLevel (by decide) (by decide) same).1
  omega

/-- What the chain builders of a level leave behind the first page of an entry: a
path whose further nodes lie in other entries. -/
structure Leads (configuration : Configuration) (level entry : Nat) (memory : Nat -> Nat) (links : List Nat) (stop : Nat) :
    Prop where
  plain : Plain (pageAddress level entry 0)
  path : Path memory (pageAddress level entry 0) (pageAddress level entry 0 :: links) stop
  inside : ∀ node, node ∈ links -> InWindow configuration level node ∧ Plain node
  away : ∀ node, node ∈ links -> entryOf level node ≠ entry

namespace Leads

variable {stop : Nat} {memory : Nat -> Nat} {links : List Nat}

/-- What is read at the start leads along the links. -/
theorem rest (leads : Leads configuration level entry memory links stop) :
    Path (shown memory) (shown memory (pageAddress level entry 0)) links stop := by
  rw [leads.plain.shown_eq]
  exact path_shown leads.path.2 fun node known => (leads.inside node known).2

theorem below (leads : Leads configuration level entry memory links stop) (windows : WindowsApart configuration)
    (isLevel : IsLevel level) {node : Nat} (known : node ∈ links) : node < complementaryBaseAddress :=
  ((leads.inside node known).1.inBase windows isLevel).2

end Leads

variable {admitted : Nat -> Nat -> Prop} {guard : Paging -> KernelOp -> Prop} {exhausted : Prop} {state : Paging}
  {memory : Nat -> Nat} {reach : Nat -> Prop} (windows : WindowsApart configuration) (isLevel : IsLevel level)

include windows isLevel

theorem calm_buildLinearChain (permits : Permits guard fun _ => True) (calm : Calm memory state)
    (inside : InWindow configuration level (pageAddress level entry 0)) (stop length : Nat) :
    Ensures (may admitted) guard exhausted
      (buildPointerChain configuration (pageAddress level entry 0) stop length level) state fun _ final =>
        ∃ after links, Calm after final ∧ links.length ≤ length ∧
          Leads configuration level entry after links stop := by
  have links : LinksIn configuration level fun _ => True := fun address insideWindow =>
    ⟨trivial, (linksIn_window windows isLevel address insideWindow).2⟩
  have plain := plain_of_inWindow windows isLevel inside
  refine (calm_buildPointerChain permits links calm trivial plain stop length).mono fun _ final built => ?_
  refine ⟨_, _, built, ?_, plain, writeChain_path _ _ _ _ ?_, ?_, ?_⟩
  · refine Nat.le_trans (List.takeWhile_sublist _).length_le ?_
    rw [linearLinks, List.length_map, List.length_range']
  · refine List.nodup_cons.mpr ⟨fun known => ?_, linearLinks_nodup isLevel length⟩
    rcases mem_linearLinks known with ⟨index, above, same⟩
    exact absurd (pageAddress_injective isLevel (by decide) (by decide) same).1 (Nat.ne_of_lt above)
  · exact fun node known => keptLinks_in (linksIn_window windows isLevel) known
  · intro node known
    rcases mem_linearLinks known with ⟨index, above, rfl⟩
    rw [entryOf_pageAddress isLevel (by decide)]
    exact Nat.ne_of_gt above

theorem calm_buildEnumeratedChain (permits : Permits guard fun _ => True) (calm : Calm memory state)
    (plain : Plain (pageAddress level entry 0)) (fits : pageAddress level entry 0 < 2 ^ 64) (hash : HashFunction)
    (stop length setBits : Nat) :
    Ensures (may admitted) guard exhausted
      (buildPointerChainFromHash configuration (pageAddress level entry 0) stop length (.to hash) setBits level) state
      fun _ final => ∃ after links, Calm after final ∧ links.length ≤ length ∧
        Leads configuration level entry after links stop := by
  have links : LinksIn configuration level fun _ => True := fun address insideWindow =>
    ⟨trivial, (linksIn_window windows isLevel address insideWindow).2⟩
  refine (calm_buildPointerChainFromHash permits links calm trivial plain hash stop length setBits).mono
    fun _ final built => ?_
  have chain : hashChain configuration hash (pageAddress level entry 0) length setBits level = _ :=
    hashChain_eq isLevel length setBits rfl fits
  have entries : ∃ count, count ≤ length ∧ chainEntries configuration hash entry length setBits level = _ :=
    chainEntries_eq length setBits
  rcases entries with ⟨count, short, entries⟩
  rw [entries, List.map_map] at chain
  have injective : Function.Injective fun offset => pageAddress level (hash.entry setBits entry offset) 0 :=
    fun first second same => (hash.entry_strictMono setBits entry).injective
      (pageAddress_injective isLevel (by decide) (by decide) same).1
  have tail : ∀ node,
      node ∈ keptLinks configuration level (hashLinks hash (pageAddress level entry 0) length setBits level) ->
      ∃ offset, 0 < offset ∧ pageAddress level (hash.entry setBits entry offset) 0 = node := by
    rw [List.range_succ_eq_map, List.map_cons] at chain
    rw [(List.cons.inj chain).2]
    intro node known
    rcases List.mem_map.mp known with ⟨offset, later, rfl⟩
    rcases List.mem_map.mp later with ⟨before, _, rfl⟩
    exact ⟨before + 1, Nat.succ_pos before, rfl⟩
  refine ⟨_, _, built, ?_, plain, writeChain_path _ _ _ _ ?_, ?_, ?_⟩
  · refine Nat.le_trans (List.takeWhile_sublist _).length_le ?_
    rw [hashLinks, List.length_map, List.length_range']
  · have distinct : (hashChain configuration hash (pageAddress level entry 0) length setBits level).Nodup := by
      rw [chain]
      exact List.nodup_range.map injective
    exact distinct
  · exact fun node known => keptLinks_in (linksIn_window windows isLevel) known
  · intro node known
    rcases tail node known with ⟨offset, later, rfl⟩
    have above := hash.entry_strictMono setBits entry later
    rw [HashFunction.entry_zero] at above
    rw [entryOf_pageAddress isLevel (by decide)]
    exact Nat.ne_of_gt above

end Targets

/-! ## The steps that the experiments share -/

/-- Nothing is exchanged and every translation is the original one.  This holds when
the trigger has set the windows up, and again after every loop, whatever chains are
left in memory. -/
def AtRest (state : Paging) : Prop :=
  ∃ memory, Calm memory state

section Steps

variable {configuration : Configuration} {state : Paging} {memory : Nat -> Nat} {level : Nat}

theorem permits_chainsFollowed : Permits ChainsFollowed fun _ => True :=
  (watches_chainsFollowed _).calm

theorem follows_draw (isLevel : IsLevel level) (calm : Calm memory state) {modulus : Nat} (positive : 0 < modulus)
    (fewer : modulus ≤ configuration.pageTableEntries level) :
    Follows (drawAddress modulus level) state fun address final => ∃ entry, address = pageAddress level entry 0 ∧
      InWindow configuration level (pageAddress level entry 0) ∧ Calm memory final := by
  refine (calm_drawAddress permits_chainsFollowed calm modulus level).mono ?_
  rintro _ final ⟨⟨random, rfl⟩, calm⟩
  have aligned := baseAddress_add isLevel (random % modulus)
  refine ⟨_, aligned, ?_, calm⟩
  rw [← aligned]
  exact drawn_inWindow positive fewer random

theorem follows_drawTarget (windows : WindowsApart configuration) (isLevel : IsLevel level) (calm : Calm memory state) :
    Follows (drawAddress (configuration.pageTableEntries level) level) state fun address final =>
      ∃ entry, address = pageAddress level entry 0 ∧ InWindow configuration level (pageAddress level entry 0) ∧
        Calm memory final :=
  follows_draw isLevel calm (Nat.lt_of_lt_of_le (windows.drawable level isLevel) (Nat.div_le_self _ _)) (Nat.le_refl _)

/-- The traversal, the final access and the exchange back. -/
theorem follows_links {α : Type} {post : α -> Paging -> Prop} (isLevel : IsLevel level) (calm : Calm memory state)
    (chain last : MemoryAccess) {bound entry p : Nat} {links : List Nat} (entered : state.history.last = p)
    (path : Path (shown memory) p links (prefixAligned (pageAddress level entry 0) level))
    (few : links.length ≤ bound) (away : ∀ node, node ∈ links -> entryOf level node ≠ entry)
    (below : ∀ node, node ∈ links -> node < complementaryBaseAddress) {rest : Nat -> Kernel α}
    (holds : ∀ value final, Stale memory ⟨level, entryOf level (pageAddress level entry 0)⟩
        ⟨level, entryOf level (complementaryOf (pageAddress level entry 0))⟩ final -> Follows (rest value) final post) :
    Follows (do
      switchLevel level (walkTo (pageAddress level entry 0), walkTo (complementaryOf (pageAddress level entry 0)))
      let p ← followChain chain bound p (prefixAligned (pageAddress level entry 0) level)
      let value ← last.access p
      switchLevel level (walkTo (pageAddress level entry 0), walkTo (complementaryOf (pageAddress level entry 0)))
      rest value) state post := by
  have start : entryOf level (pageAddress level entry 0) = entry := entryOf_pageAddress isLevel (by decide)
  have stop : prefixAligned (pageAddress level entry 0) level =
      pageAddress level (entryOf level (pageAddress level entry 0)) 511 := by
    rw [start]
    exact pageAddress_add level entry 511
  rw [stop, ← entered] at path
  rw [stop, ← entered]
  refine ensures_look (watches_chainsFollowed fun _ => True) calm chain last path few (fun _ _ => trivial) trivial isLevel
    ?_ holds
  intro node known
  rw [start]
  exact ⟨away node known, entryOf_ne_complementary isLevel (below node known) _⟩

/-- The flush that ends an iteration. -/
theorem follows_finish {first second : EntryLocation} (stale : Stale memory first second state) (misses : Nat) :
    Follows (do
      flushMmuCaches
      return Iteration.next misses) state fun iteration final =>
        ∃ value, (iteration = .next value ∨ iteration = .done value) ∧ AtRest final :=
  ensures_then (ensures_flushMmuCaches stale.closed stale.flush) fun _ _ calm => ⟨misses, Or.inl rfl, memory, calm⟩

theorem follows_iterations {body : Nat -> Nat -> Kernel (Iteration Nat)} (count : Nat) (rest : AtRest state)
    (step : ∀ index misses memory state, Calm memory state -> Follows (body index misses) state
      fun iteration final => ∃ value, (iteration = .next value ∨ iteration = .done value) ∧ AtRest final) :
    Follows (forRange body 0 count 0) state fun _ final => AtRest final :=
  ensures_forRange_kept (fun _ state => AtRest state) 0 count 0 state rest
    fun index misses state _ _ ⟨memory, calm⟩ => step index misses memory state calm

end Steps

/-! ## The loops -/

section Loops

variable {configuration : Configuration} {state : Paging} {level bound : Nat} (windows : WindowsApart configuration)
  (rest : AtRest state)

include windows rest

theorem follows_testSplitLayer (isLevel : IsLevel level) (enough : maximumEntries ≤ bound)
    (accessTarget accessChain : MemoryAccess) :
    Follows (testSplitLayer configuration bound level accessTarget accessChain) state fun _ final => AtRest final := by
  have permits := permits_chainsFollowed
  refine follows_iterations iterations rest fun _ misses memory state calm => ?_
  refine ensures_then (follows_drawTarget windows isLevel calm) ?_
  rintro _ _ ⟨entry, rfl, inside, calm⟩
  refine ensures_then (calm_walkPair permits calm trivial) ?_
  rintro _ _ ⟨rfl, calm⟩
  refine ensures_then (calm_buildLinearChain windows isLevel permits calm inside _ _) ?_
  rintro _ _ ⟨after, links, calm, few, leads⟩
  refine ensures_then (calm_flushMmuCaches permits calm) fun _ _ calm => ?_
  refine ensures_then (ensures_forRange_kept (fun _ state => Calm after state) 0 128 () _ calm
    fun _ _ _ _ _ calm => ?_) fun _ _ calm => ?_
  · refine ensures_then (follows_drawTarget windows isLevel calm) ?_
    rintro address _ ⟨_, _, _, calm⟩
    refine ensures_then (calm_access permits calm .readData trivial) ?_
    rintro _ _ ⟨_, _, calm⟩
    exact ⟨(), Or.inl rfl, calm⟩
  refine ensures_then (calm_access permits calm accessTarget trivial) ?_
  rintro p middle ⟨rfl, visited, calm⟩
  exact follows_links isLevel calm accessChain accessTarget (by rw [visited]; rfl) leads.rest
    (Nat.le_trans few enough) leads.away (fun _ known => leads.below windows isLevel known)
    fun _ _ stale => follows_finish stale _

theorem follows_chainEvicts (isLevel : IsLevel level) {entry : Nat}
    (inside : InWindow configuration level (pageAddress level entry 0)) {length : Nat} (enough : length ≤ bound)
    (access : MemoryAccess) :
    Follows (do
      buildPointerChain configuration (pageAddress level entry 0) (prefixAligned (pageAddress level entry 0) level) length level
      chainEvicts bound (pageAddress level entry 0) (prefixAligned (pageAddress level entry 0) level) level access) state
      fun _ final => AtRest final := by
  have permits := permits_chainsFollowed
  rcases rest with ⟨memory, calm⟩
  refine ensures_then (calm_buildLinearChain windows isLevel permits calm inside _ _) ?_
  rintro _ _ ⟨after, links, calm, few, leads⟩
  unfold chainEvicts
  refine ensures_then (calm_walkPageTable permits calm trivial (Or.inr rfl)) ?_
  rintro _ _ ⟨rfl, calm⟩
  refine ensures_then (calm_clearNx permits calm _) fun _ middle calm => ?_
  refine ensures_then (ensures_forRange_kept (fun (_ : Nat) state => Calm after state) 0 iterations 0 middle calm
    fun _ misses state _ _ calm => ?_) fun _ _ calm => ⟨after, calm⟩
  unfold probeChain
  refine ensures_then (ensures_then (calm_walkPageTable permits calm trivial (Or.inl rfl)) ?_) fun misses _ calm =>
    ⟨misses, Or.inl rfl, calm⟩
  rintro _ _ ⟨rfl, calm⟩
  refine ensures_then (calm_clearNx permits calm _) fun _ _ calm => ?_
  refine ensures_then (calm_flushMmuCaches permits calm) fun _ _ calm => ?_
  refine ensures_then (calm_access permits calm access trivial) ?_
  rintro p middle ⟨rfl, visited, calm⟩
  exact follows_links isLevel calm access access (by rw [visited]; rfl) leads.rest (Nat.le_trans few enough) leads.away
    (fun _ known => leads.below windows isLevel known) fun _ _ stale =>
      ensures_then (ensures_flushMmuCaches stale.closed stale.flush) fun _ _ calm => calm

/-- One iteration of the nesting test follows its chain. The chain keeps away from
the target: a node in the target's entry would also lie in the target's entry of the
upper level, where the builder puts none. -/
theorem follows_nestingIteration (isLevel : IsLevel level) (upperLevel : IsLevel (level + 1))
    {inclusive : TranslationCache} {hash : HashFunction} (recorded : inclusive.hashFunction = .to hash)
    (enough : inclusive.ways ≤ bound) (misses : Nat) :
    Follows (nestingIteration configuration bound level inclusive misses) state fun _ final => AtRest final := by
  have permits := permits_chainsFollowed
  rcases rest with ⟨memory, calm⟩
  unfold nestingIteration
  refine ensures_then (follows_draw isLevel calm (windows.drawable level isLevel) (Nat.div_le_self _ _)) ?_
  rintro _ _ ⟨entry, rfl, inside, calm⟩
  have below := (inside.inBase windows isLevel).2
  have fits : pageAddress level entry 0 < 2 ^ 64 := Nat.lt_trans below (by decide)
  have plain := plain_of_inWindow windows isLevel inside
  have isolated := isolated_eq isLevel upperLevel fits
  have notAbove : pageAddress (level + 1) (entry / 512) 0 ≤ pageAddress level entry 0 := by
    rw [← isolated]
    exact Nat.and_le_left
  have upperPlain : Plain (pageAddress (level + 1) (entry / 512) 0) :=
    plain_of_lt (Nat.lt_of_le_of_lt notAbove (Nat.lt_of_lt_of_le inside.2 (windows.apart level isLevel)))
  refine ensures_then (calm_walkPair permits calm trivial) ?_
  rintro _ _ ⟨rfl, calm⟩
  rw [isolated, recorded]
  refine ensures_then (calm_buildEnumeratedChain windows upperLevel permits calm upperPlain
    (Nat.lt_of_le_of_lt notAbove fits) hash _ _ _) ?_
  rintro _ _ ⟨after, links, calm, few, leads⟩
  have away : ∀ node, node ∈ links -> entryOf level node ≠ entry := by
    intro node known same
    apply leads.away node known
    rw [entryOf_succ upperLevel, same]
  refine ensures_then (calm_access permits calm .readData trivial) ?_
  rintro firstLink _ ⟨first, _, calm⟩
  refine ensures_then (calm_writeData permits calm trivial plain firstLink) fun _ _ calm => ?_
  refine ensures_then (calm_flushMmuCaches permits calm) fun _ _ calm => ?_
  refine ensures_then (calm_access permits calm .readData trivial) ?_
  rintro p middle ⟨read, visited, calm⟩
  rw [plain.shown_eq, Function.update_self] at read
  have path : Path (shown (Function.update after (pageAddress level entry 0) firstLink)) p links
      (prefixAligned (pageAddress level entry 0) level) := by
    rw [read, first]
    apply leads.rest.congr
    intro node known
    have other : node ≠ pageAddress level entry 0 := by
      rintro rfl
      exact away _ known (entryOf_pageAddress isLevel (by decide))
    have plainNode := (leads.inside node known).2
    rw [plainNode.shown_eq, plainNode.shown_eq, Function.update_of_ne other]
  exact follows_links isLevel calm .readData .readData (by rw [visited]; rfl) path (Nat.le_trans few enough) away
    (fun _ known => leads.below windows upperLevel known) fun _ _ stale =>
      ensures_then (ensures_flushMmuCaches stale.closed stale.flush) fun _ _ calm => ⟨_, calm⟩

theorem follows_testNesting (hugeLevel : level = 2 ∨ level = 3) {translationCaches : Nat -> TranslationCache}
    {hash : HashFunction} (recorded : (translationCaches (level + 1)).hashFunction = .to hash)
    (enough : (translationCaches (level + 1)).ways ≤ bound) :
    Follows (testNesting configuration bound level translationCaches) state fun _ final => AtRest final := by
  have levels : IsLevel level ∧ IsLevel (level + 1) := by
    rcases hugeLevel with rfl | rfl <;> decide
  have lower : ¬ 3 < level := by omega
  have set : (translationCaches (level + 1)).hashFunction ≠ .null := by
    rw [recorded]
    exact nofun
  unfold testNesting
  dsimp only
  rw [if_neg lower, if_neg set]
  rcases rest with ⟨memory, calm⟩
  refine ensures_then (calm_enter permits_chainsFollowed calm _ _ _) fun _ _ calm => ?_
  refine ensures_then (follows_iterations iterations ⟨memory, calm⟩ fun _ misses _ state calm => ?_) fun _ _ rest => rest
  refine ensures_then (follows_nestingIteration windows ⟨_, calm⟩ levels.1 levels.2 recorded enough misses) ?_
  exact fun misses _ rest => ⟨misses, Or.inl rfl, rest⟩

theorem follows_testHugeTlb (hugeLevel : level = 2 ∨ level = 3) (enough : amountHugePages level ≤ bound) :
    Follows (testHugeTlb configuration bound level) state fun _ final => AtRest final := by
  have permits := permits_chainsFollowed
  have isLevel : IsLevel level := by
    rcases hugeLevel with rfl | rfl <;> decide
  have lowest : huge2MBBaseAddress ≤ hugeBase level := by
    rcases hugeLevel with rfl | rfl <;> decide
  have aligned : pageAddress level (entryOf level (hugeBase level)) 0 = hugeBase level := by
    rcases hugeLevel with rfl | rfl <;> decide
  have positive : 2 ≤ amountHugePages level := by
    rcases hugeLevel with rfl | rfl <;> decide
  unfold testHugeTlb
  rw [if_neg (by omega)]
  refine ensures_then (follows_iterations iterations rest fun _ misses memory state calm => ?_) fun _ _ rest => ?_
  case refine_2 =>
    rcases rest with ⟨memory, calm⟩
    exact ensures_then (calm_flushMmuCaches permits calm) fun _ _ calm => ⟨memory, calm⟩
  refine ensures_then (follows_drawTarget windows isLevel calm) ?_
  rintro _ _ ⟨entry, rfl, inside, calm⟩
  have plain := plain_of_inWindow windows isLevel inside
  have below : pageAddress level entry 0 < hugeBase level :=
    Nat.lt_of_lt_of_le inside.2 (Nat.le_trans (windows.apart level isLevel) lowest)
  have lower : entry < entryOf level (hugeBase level) := by
    have before := entryOf_lt (by rw [aligned]; exact below : pageAddress level entry 0 < pageAddress level _ 0)
    rwa [entryOf_pageAddress isLevel (by decide)] at before
  refine ensures_then (calm_walkPair permits calm trivial) ?_
  rintro _ _ ⟨rfl, calm⟩
  refine ensures_then (calm_buildHugeChain hugeLevel permits calm (fun _ _ => trivial) _) ?_
  rintro _ _ ⟨after, calm, path⟩
  have pages : ∀ node, node ∈ hugeBase level ::
      (List.range' 2 (amountHugePages level - 1 - 1)).map (hugeLink level (hugeBase level)) ->
      ∃ page, page < amountHugePages level ∧ hugeLink level (hugeBase level) page = node := by
    intro node known
    rcases hugeLink_of_mem (Nat.le_sub_one_of_lt positive) known with ⟨page, small, same⟩
    exact ⟨page, Nat.lt_of_le_pred (Nat.lt_of_lt_of_le Nat.two_pos positive) small, same⟩
  refine ensures_then (calm_writeData permits calm trivial plain _) fun _ _ calm => ?_
  refine ensures_then (calm_flushMmuCaches permits calm) fun _ _ calm => ?_
  refine ensures_then (calm_access permits calm .readData trivial) ?_
  rintro p middle ⟨read, visited, calm⟩
  rw [plain.shown_eq, Function.update_self] at read
  have kept : Path (shown (Function.update after (pageAddress level entry 0) (hugeBase level))) p (hugeBase level ::
      (List.range' 2 (amountHugePages level - 1 - 1)).map (hugeLink level (hugeBase level)))
      (prefixAligned (pageAddress level entry 0) level) := by
    rw [read]
    apply path.congr
    intro node known
    rcases pages node known with ⟨page, small, rfl⟩
    have other : physicalSlot (hugeLink level (hugeBase level) page) ≠ pageAddress level entry 0 := by
      rw [physicalSlot_hugeLink hugeLevel small]
      omega
    rw [shown, shown, Function.update_of_ne other]
  refine follows_links isLevel calm .readData .readData (by rw [visited]; rfl) kept ?_ ?_ ?_
    fun _ _ stale => follows_finish stale _
  · simp only [List.length_cons, List.length_map, List.length_range']
    omega
  · intro node known
    rcases pages node known with ⟨page, small, rfl⟩
    have after := le_entryOf (by rw [aligned]; exact (hugeLink_in hugeLevel small).1 :
      pageAddress level (entryOf level (hugeBase level)) 0 ≤ hugeLink level (hugeBase level) page)
    omega
  · intro node known
    rcases pages node known with ⟨page, small, rfl⟩
    refine Nat.lt_of_lt_of_le (hugeLink_in hugeLevel small).2 ?_
    rcases hugeLevel with rfl | rfl <;> decide

end Loops

/-- The loops that follow a chain between two exchanges: the experiments they
belong to, with their arguments.  `chainEvicts` follows a chain that
`build_pointer_chain` built for it, and `determine_replacement_order` the chains of
the replacement policy measurement. -/
inductive Traversal where
  | splitLayerInstructions (level : Nat)
  | splitLayerData (level : Nat)
  | nesting (level : Nat) (translationCaches : Nat -> TranslationCache)
  | hugeTlb (level : Nat)
  | chainEvicts (targetAddress length level : Nat) (accessMemory : MemoryAccess)
  | replacementOrder (translationCaches : Nat -> TranslationCache) (level : Nat)

namespace Traversal

def program (configuration : Configuration) (bound : Nat) : Traversal -> Kernel Unit
  | splitLayerInstructions level => do
      let _ ← testSplitLayerInstructions configuration bound level
  | splitLayerData level => do
      let _ ← testSplitLayerData configuration bound level
  | nesting level translationCaches => do
      let _ ← testNesting configuration bound level translationCaches
  | hugeTlb level => do
      let _ ← testHugeTlb configuration bound level
  | chainEvicts targetAddress length level accessMemory => do
      buildPointerChain configuration targetAddress (prefixAligned targetAddress level) length level
      let _ ← Talbot.chainEvicts bound targetAddress (prefixAligned targetAddress level) level accessMemory
  | replacementOrder translationCaches level => do
      let _ ← calculatePermutationVectors configuration bound translationCaches level

/-- The experiment is defined for the level, targets are entries of the window, and
recorded structures have a hash function.  Only the replacement policy measurement
does not check itself that the addresses it derives stay inside the window. -/
def Admissible (configuration : Configuration) : Traversal -> Prop
  | splitLayerInstructions level => IsLevel level
  | splitLayerData level => IsLevel level
  | nesting level translationCaches => (level = 2 ∨ level = 3) ∧
      ∃ hash, (translationCaches (level + 1)).hashFunction = .to hash
  | hugeTlb level => level = 2 ∨ level = 3
  | chainEvicts targetAddress _ level _ => IsLevel level ∧ ∃ index, index < configuration.pageTableEntries level ∧
      targetAddress = baseAddress + (index <<< pageTableIndexShift level)
  | replacementOrder translationCaches level => IsLevel level ∧ ∃ geometry : CacheGeometry,
      translationCaches level = geometry.record ∧ 1 ≤ geometry.ways ∧ NextInWindow configuration level geometry

/-- How many nodes its chains have at most. -/
def nodes : Traversal -> Nat
  | splitLayerInstructions _ => maximumEntries
  | splitLayerData _ => maximumEntries
  | nesting level translationCaches => (translationCaches (level + 1)).ways
  | hugeTlb level => amountHugePages level
  | chainEvicts _ length _ _ => length
  | replacementOrder translationCaches level => (translationCaches level).ways + 2

end Traversal

/-- Whatever translations the hardware picks, every loop ends at the prefix-aligned
address, after exactly the nodes of the chain in memory, and only the final access
is made in the exchanged entry.  The choice is made anew at every access, so no
cache has to be modelled.  Of the start it is only used that nothing is exchanged
and no stale translation is left, and the loop ends in such a state again. -/
theorem loops_followChains {configuration : Configuration} (windows : WindowsApart configuration) {bound : Nat}
    (loop : Traversal) (admissible : loop.Admissible configuration) (enough : loop.nodes ≤ bound) {state : Paging}
    (rest : AtRest state) :
    Ensures (may fun _ _ => True) ChainsFollowed False (loop.program configuration bound) state
      fun _ final => AtRest final := by
  have discards : ∀ {α : Type} {program : Kernel α}, Follows program state (fun _ final => AtRest final) ->
      Follows (do let _ ← program) state fun _ final => AtRest final := fun holds =>
    ensures_then holds fun _ _ rest => rest
  cases loop with
  | splitLayerInstructions level => exact discards (follows_testSplitLayer windows rest admissible enough _ _)
  | splitLayerData level => exact discards (follows_testSplitLayer windows rest admissible enough _ _)
  | nesting level translationCaches =>
      rcases admissible with ⟨hugeLevel, hash, recorded⟩
      exact discards (follows_testNesting windows rest hugeLevel recorded enough)
  | hugeTlb level => exact discards (follows_testHugeTlb windows rest admissible enough)
  | chainEvicts targetAddress length level accessMemory =>
      rcases admissible with ⟨isLevel, index, small, rfl⟩
      have inside : InWindow configuration level (baseAddress + (index <<< pageTableIndexShift level)) := by
        have drawn := drawn_inWindow (Nat.lt_of_le_of_lt (Nat.zero_le _) small) (Nat.le_refl _) index
        rwa [Nat.mod_eq_of_lt small] at drawn
      rw [baseAddress_add isLevel] at inside
      have follows := discards (follows_chainEvicts windows rest isLevel inside enough accessMemory)
      rw [Program.bind_assoc, ← baseAddress_add isLevel] at follows
      exact follows
  | replacementOrder translationCaches level =>
      rcases admissible with ⟨isLevel, geometry, recorded, positive, next⟩
      rcases rest with ⟨memory, calm⟩
      have fuel : geometry.ways + 2 ≤ bound := by
        have nodes : (translationCaches level).ways + 2 ≤ bound := enough
        rwa [recorded] at nodes
      exact discards (watched_calculatePermutationVectors windows isLevel positive next (watches_chainsFollowed _) calm
        fuel translationCaches recorded)

/-- The nesting experiment and the replacement policy measurement of a structure
with eight sets, on the machine as the trigger sets it up. -/
theorem loops_followChains_eightSets :
    Ensures (may fun _ _ => True) ChainsFollowed False
      (Traversal.program defaultConfiguration 8 (.nesting 2 fun _ => eightSets.record)) afterSetup
      (fun _ final => AtRest final) ∧
    Ensures (may fun _ _ => True) ChainsFollowed False
      (Traversal.program defaultConfiguration 8 (.replacementOrder (fun _ => eightSets.record) 2)) afterSetup
      (fun _ final => AtRest final) := by
  have rest : AtRest afterSetup := ⟨_, calm_afterSetup⟩
  constructor
  · exact loops_followChains windowsApart_default (.nesting 2 fun _ => eightSets.record) ⟨Or.inl rfl, _, rfl⟩
      (by decide) rest
  · exact loops_followChains windowsApart_default (.replacementOrder (fun _ => eightSets.record) 2)
      ⟨by decide, eightSets, rfl, by decide, nextInWindow_eightSets⟩ (by decide) rest

end Talbot
