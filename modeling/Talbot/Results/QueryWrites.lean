import Talbot.CacheQuery.Mapping
import Talbot.Foundations.Sessions
import Talbot.Machine.CalmChains

namespace Talbot
namespace CacheQuery

/-!
The writes of a query.

`query_cache` flushes at the beginning of each iteration, so after the last
iteration of a letter the translation of its exchanged entry may still be in use
when the next chain is written.  The first link of every chain lies in the entry of
the first letter, which is also the first one that is exchanged.

Within one call, a query with one letter writes its chain once, before anything was
exchanged; in every other query the chain of the second letter may end up in the
complementary window.  The last letter is not followed by a flush either, so the
same happens to the first chain of a later call that draws the same start.  The
module therefore keeps to the base window only in sequences of calls in which at
most one query has letters, all of them uses of one letter.
-/

open Foundations Program Machine Paging

/-- `signal` marks every complementary slot. -/
def Marked (state : Paging) : Prop :=
  ∀ slot, complementaryBaseAddress ≤ slot -> state.machine.memory slot = signal

/-- The entries that the first address of a query is drawn from. -/
def StartEntry (configuration : Configuration) (entry : Nat) : Prop :=
  ∃ index, index < drawableEntries configuration queryLevel ∧ entry = baseEntry queryLevel + index

/-- Every write ends in the base window.  When an entry is exchanged, the accesses
made last are the chain of the query, and they led to the last page of the entry. -/
def KeepsToBase (configuration : Configuration) (query : List Nat) (state : Paging) : KernelOp -> Prop
  | .writeData address _ =>
      ∀ slot, slot ∈ state.machine.targets address -> InWindow configuration queryLevel slot
  | .switchPageTableEntries (some first) (some _) => ¬ state.Exchanged ->
      (∃ entry, StartEntry configuration entry ∧ queryAddresses queryWays entry query <:+ state.history.accessed) ∧
      state.history.last = pageAddress first.level first.index 511
  | .switchPageTableEntries _ _ => False
  | _ => True

/-- The addresses of the query are mapped and distinct: the entries of its letters
lie in the base window whatever start is drawn, and no letter needs more pages than
an entry has below the prefix-aligned one. -/
structure QueryMapped (configuration : Configuration) (query : List Nat) : Prop where
  few : ∀ letter, query.count letter ≤ 511
  inside : ∀ entry, StartEntry configuration entry -> ∀ letter, letter ∈ query ->
    letterEntry queryWays entry query letter < baseEntry queryLevel + configuration.pageTableEntries queryLevel

/-- One call of `query_cache`: the query, and what the array of the report holds when
`kmalloc` hands it out. -/
structure QueryCall where
  query : List Nat
  finalState : Nat -> Nat

/-- At most one of the calls has letters to measure, and these are uses of one letter. -/
structure SingleLetter (calls : List QueryCall) : Prop where
  once : calls.Pairwise fun earlier later => earlier.query = [] ∨ later.query = []
  alike : ∀ call, call ∈ calls -> ∀ first, first ∈ call.query -> ∀ second, second ∈ call.query -> first = second

/-- A guard that admits the operations of a query up to the exchange back.  Each
field is about one kind of operation, in the state in which the query issues it. -/
structure Replays (guard : Paging -> KernelOp -> Prop) (configuration : Configuration) (query : List Nat) : Prop where
  calm : Permits guard (InWindow configuration queryLevel)
  opens : ∀ memory state first second entry, Calm memory state -> StartEntry configuration entry ->
    queryAddresses queryWays entry query <:+ state.history.accessed ->
    state.history.last = pageAddress first.level first.index 511 ->
    guard state (.switchPageTableEntries (some first) (some second))
  reads : ∀ memory first second state, Open memory ⟨queryLevel, first⟩ ⟨queryLevel, second⟩ state ->
    guard state (.readData (pageAddress queryLevel first 511))
  closes : ∀ memory first second state, Open memory first second state ->
    guard state (.switchPageTableEntries (some first) (some second))
  flushes : ∀ memory first second state, Stale memory first second state -> guard state .flushMmuCaches

/-- The two entries that are exchanged for a letter. -/
def letterLocation (entry : Nat) (query : List Nat) (letter : Nat) : EntryLocation :=
  ⟨queryLevel, entryOf queryLevel (queryPage queryWays entry query letter 0)⟩

def complementaryLocation (entry : Nat) (query : List Nat) (letter : Nat) : EntryLocation :=
  ⟨queryLevel, entryOf queryLevel (complementaryOf (queryPage queryWays entry query letter 0))⟩

/-- The entries that are exchanged for the first letter of a query. -/
def startLocation (entry : Nat) : EntryLocation :=
  ⟨queryLevel, entryOf queryLevel (pageAddress queryLevel entry 0)⟩

def complementaryStart (entry : Nat) : EntryLocation :=
  ⟨queryLevel, entryOf queryLevel (complementaryOf (pageAddress queryLevel entry 0))⟩

/-- What a call leaves behind: the entries of its first letter may still be
translated as they were while they were exchanged. -/
def Lingering (configuration : Configuration) (state : Paging) : Prop :=
  ∃ entry memory, StartEntry configuration entry ∧ Stale memory (startLocation entry) (complementaryStart entry) state

section Letters

variable {configuration : Configuration} {query : List Nat} {entry : Nat}

theorem queryPage_first (letter : Nat) (rest : List Nat) :
    queryPage queryWays entry (letter :: rest) letter 0 = pageAddress queryLevel entry 0 := by
  have number : (firstUses (letter :: rest)).idxOf letter = 0 := idxOf_firstUses_new List.not_mem_nil
  rw [queryPage, number, CacheGeometry.memberPage, CacheGeometry.member_zero]

theorem letterLocation_first (letter : Nat) (rest : List Nat) :
    letterLocation entry (letter :: rest) letter = startLocation entry := by
  rw [letterLocation, queryPage_first, startLocation]

theorem complementaryLocation_first (letter : Nat) (rest : List Nat) :
    complementaryLocation entry (letter :: rest) letter = complementaryStart entry := by
  rw [complementaryLocation, queryPage_first, complementaryStart]

theorem StartEntry.above (start : StartEntry configuration entry) : baseEntry queryLevel ≤ entry := by
  rcases start with ⟨index, _, rfl⟩
  exact Nat.le_add_right _ _

theorem QueryMapped.page_in (mapped : QueryMapped configuration query) (start : StartEntry configuration entry)
    {letter use : Nat} (known : letter ∈ query) (low : use < 512) :
    InWindow configuration queryLevel (queryPage queryWays entry query letter use) :=
  ⟨CacheGeometry.baseAddress_le_memberPage isLevel_query start.above _ _,
    page_lt_windowEnd isLevel_query low (mapped.inside entry start letter known)⟩

theorem QueryMapped.address_in (mapped : QueryMapped configuration query)
    (start : StartEntry configuration entry) {node : Nat}
    (inside : node ∈ queryAddresses queryWays entry query) :
    InWindow configuration queryLevel node := by
  rcases mem_queryAddresses mapped.few inside with ⟨letter, use, known, low, rfl⟩
  exact mapped.page_in start known (Nat.lt_succ_of_lt low)

variable {guard : Paging -> KernelOp -> Prop} {state : Paging} {memory : Nat -> Nat}
  (windows : WindowsApart configuration)

include windows

theorem calm_linkEntries (permits : Permits guard (InWindow configuration queryLevel)) {map : AddressMap} {last : Nat}
    (calm : Calm memory state)
    (inWindow : ∀ node, node ∈ last :: map.map AddressMapEntry.address -> InWindow configuration queryLevel node) :
    Ensures (may fun _ _ => True) guard False (linkEntries last map) state fun result final =>
      result = (map.map AddressMapEntry.address).getLastD last ∧
        Calm (writeLinks memory last (map.map AddressMapEntry.address)) final := by
  induction map generalizing last memory state with
  | nil => exact ⟨rfl, calm⟩
  | cons mapped rest inductionHypothesis =>
      have here := inWindow last List.mem_cons_self
      rw [linkEntries]
      refine ensures_then (calm_writeData permits calm here (plain_of_inWindow windows isLevel_query here) _)
        fun _ _ calm => ?_
      refine (inductionHypothesis calm fun node known => inWindow node (List.mem_cons_of_mem _ known)).mono ?_
      rintro result final ⟨same, calm⟩
      rw [List.map_cons, List.getLastD_cons]
      exact ⟨same, calm⟩

variable (mapped : QueryMapped configuration query) (replays : Replays guard configuration query)
  (start : StartEntry configuration entry)

include mapped replays start

/-- The chain runs through the addresses of the query and ends at the target. -/
theorem calm_buildChainFromAddressMap {first : Nat} {rest : List Nat} (calm : Calm memory state)
    (addresses : queryAddresses queryWays entry query = first :: rest) (target : Nat) :
    Ensures (may fun _ _ => True) guard False
      (buildChainFromAddressMap (queryMap queryWays entry query) target) state fun _ final =>
        ∃ after, Calm after final ∧ Path (shown after) first (first :: rest) target := by
  have inWindow : ∀ node, node ∈ first :: rest -> InWindow configuration queryLevel node := by
    rw [← addresses]
    exact fun node known => mapped.address_in start known
  have begins : firstAddress (queryMap queryWays entry query) = first := by
    rw [firstAddress, show (queryMap _ _ _).map AddressMapEntry.address = first :: rest from addresses, List.headD_cons]
  have tail : (queryMap queryWays entry query).tail.map AddressMapEntry.address = rest := by
    rw [List.map_tail, show (queryMap _ _ _).map AddressMapEntry.address = first :: rest from addresses, List.tail_cons]
  have distinct : (first :: rest).Nodup := by
    rw [← addresses]
    exact queryAddresses_nodup mapped.few
  unfold buildChainFromAddressMap
  rw [begins]
  refine ensures_then (calm_linkEntries windows replays.calm calm (by rw [tail]; exact inWindow)) ?_
  rintro last middle ⟨rfl, calm⟩
  rw [tail] at calm ⊢
  refine (calm_closeChain replays.calm calm fun node known =>
    ⟨inWindow node known, plain_of_inWindow windows isLevel_query (inWindow node known)⟩).mono fun _ final calm => ?_
  refine ⟨_, calm, path_shown (writeChain_path _ _ _ _ distinct) fun node known => ?_⟩
  exact plain_of_inWindow windows isLevel_query (inWindow node known)

/-- One iteration for a letter, from the flush at its beginning to the exchange at
its end. -/
theorem ensures_replayQuery {letter first bound : Nat} {rest : List Nat}
    (between : Calm memory state ∨ Stale memory (letterLocation entry query letter)
      (complementaryLocation entry query letter) state)
    (addresses : queryAddresses queryWays entry query = first :: rest)
    (path : Path (shown memory) first (first :: rest) (queryPage queryWays entry query letter 511))
    (enough : query.length ≤ bound) (misses : Nat) :
    Ensures (may fun _ _ => True) guard False (replayQuery configuration bound
      (queryMap queryWays entry query)
      (queryPage queryWays entry query letter 511)
      (walkTo (queryPage queryWays entry query letter 0),
        walkTo (complementaryOf (queryPage queryWays entry query letter 0))) misses) state
      fun _ final => Stale memory (letterLocation entry query letter)
        (complementaryLocation entry query letter) final := by
  have flushes : Ensures (may fun _ _ => True) guard False flushMmuCaches state fun _ final => Calm memory final := by
    rcases between with calm | stale
    · exact calm_flushMmuCaches replays.calm calm
    · exact ensures_flushMmuCaches (replays.flushes _ _ _ _ stale) stale.flush
  have inWindow : ∀ node, node ∈ first :: rest -> InWindow configuration queryLevel node := by
    rw [← addresses]
    exact fun node known => mapped.address_in start known
  have begins : firstAddress (queryMap queryWays entry query) = first := by
    rw [firstAddress, show (queryMap _ _ _).map AddressMapEntry.address = first :: rest from addresses, List.headD_cons]
  have length : rest.length ≤ bound := by
    have counted := congrArg List.length addresses
    rw [queryAddresses, List.length_map, queryMap, replay_length, List.length_cons] at counted
    omega
  have ends : queryPage queryWays entry query letter 511 ∉ rest := by
    have fresh : queryPage queryWays entry query letter 511 ∉ first :: rest := by
      rw [← addresses]
      exact stop_notMem mapped.few letter
    exact fun inside => fresh (List.mem_cons_of_mem _ inside)
  have stop : queryPage queryWays entry query letter 511 =
      pageAddress queryLevel (letterLocation entry query letter).index 511 := by
    rw [letterLocation, entryOf_queryPage (by decide)]
    rfl
  unfold replayQuery
  rw [begins]
  refine ensures_then flushes fun _ _ calm => ?_
  refine ensures_then (calm_warmUp windows isLevel_query replays.calm calm _) fun _ warmed calm => ?_
  refine ensures_then (calm_access replays.calm calm .readData (inWindow first List.mem_cons_self)) ?_
  rintro p middle ⟨rfl, visited, calm⟩
  refine ensures_then (calm_followChain replays.calm calm .readData path.2 ends length
    fun node known => inWindow node (List.mem_cons_of_mem _ known)) ?_
  rintro _ followed ⟨rfl, arrives, accessed, calm⟩
  have last := arrives (by rw [visited]; rfl)
  have chain : queryAddresses queryWays entry query <:+ followed.history.accessed := by
    refine ⟨warmed.history.accessed, ?_⟩
    rw [accessed, visited, History.access, addresses, List.append_assoc, List.singleton_append]
  have opens : Ensures (may fun _ _ => True) guard False (switchLevel queryLevel
      (walkTo (queryPage queryWays entry query letter 0),
        walkTo (complementaryOf (queryPage queryWays entry query letter 0)))) followed
      fun _ final => Open memory (letterLocation entry query letter)
        (complementaryLocation entry query letter) final :=
    ensures_switchLevel (replays.opens _ _ (letterLocation entry query letter) _ entry calm start chain
      (last.trans stop)) (calm.exchange _ _)
  refine ensures_then opens fun _ exchanged opened => ?_
  have looks : Ensures (may fun _ _ => True) guard False (readData (pageAddress queryLevel
      (letterLocation entry query letter).index 511)) exchanged fun _ final =>
        Open memory (letterLocation entry query letter) (complementaryLocation entry query letter) final :=
    ensures_access .readData (replays.reads _ _ _ _ opened) fun _ _ => opened.access _ _
  rw [stop]
  refine ensures_then looks fun value _ opened => ?_
  exact ensures_then (ensures_switchLevel (replays.closes _ _ _ _ opened) opened.exchange) fun _ _ stale => stale

/-- The measurement of a letter leaves its exchanged entry stale.  The flushes in
between end the staleness of earlier iterations, but nothing comes after the last
exchange back. -/
theorem ensures_probeLetter {letter bound : Nat} (known : letter ∈ query) (calm : Calm memory state)
    (enough : query.length ≤ bound) :
    Ensures (may fun _ _ => True) guard False (probeLetter configuration bound (queryMap queryWays entry query)
      (queryPage queryWays entry query letter 0)) state fun _ final => ∃ after,
        Stale after (letterLocation entry query letter) (complementaryLocation entry query letter) final := by
  have length : (queryAddresses queryWays entry query).length = query.length := by
    rw [queryAddresses, List.length_map, queryMap, replay_length]
  have addresses : ∃ first rest, queryAddresses queryWays entry query = first :: rest := by
    apply List.exists_cons_of_ne_nil
    rw [← List.length_pos_iff, length]
    exact List.length_pos_of_mem known
  rcases addresses with ⟨first, rest, addresses⟩
  have stop : prefixAligned (queryPage queryWays entry query letter 0) queryLevel =
      queryPage queryWays entry query letter 511 := CacheGeometry.memberPage_add _ 511
  unfold probeLetter
  rw [stop]
  refine ensures_then (calm_walkPair replays.calm calm (mapped.page_in start known (by decide))) ?_
  rintro _ _ ⟨rfl, calm⟩
  refine ensures_then (calm_buildChainFromAddressMap windows mapped replays start calm addresses _) ?_
  rintro _ _ ⟨after, calm, path⟩
  refine (ensures_forRange (fun index (_ : Nat) state => (index = 0 ∧ Calm after state) ∨
    Stale after (letterLocation entry query letter) (complementaryLocation entry query letter) state) 0 iterations 0 _
    (Or.inl ⟨rfl, calm⟩) ?_).mono ?_
  · intro index misses state _ _ between
    refine ensures_then (ensures_replayQuery windows mapped replays start
      (between.imp_left And.right) addresses path enough misses) ?_
    exact fun misses _ stale => ⟨misses, rfl, Or.inr stale⟩
  · rintro _ final (⟨impossible, _⟩ | stale)
    · exact absurd impossible (by decide)
    · exact ⟨after, stale⟩

end Letters

/-! ## The start of a query -/

section Start

variable {configuration : Configuration} {state : Paging} {letter : Nat} {rest : List Nat}
  (windows : WindowsApart configuration)

/-- The first letter draws its address, the others are mapped behind it. -/
theorem mapLetters_cons : mapLetters configuration (letter :: rest) ([], []) = (do
    let startAddress ← drawAddress (drawableEntries configuration queryLevel) queryLevel
    mapLetters configuration rest ([letter], [⟨letter, startAddress⟩])) := by
  rw [mapLetters]
  simp only [addressMapContainsLetter, List.any_nil, Bool.false_eq_true, if_false, List.nil_append, getNextAddress]

include windows

theorem evaluates_mapRest {index : Nat} (small : index < drawableEntries configuration queryLevel) :
    Evaluates (mapLetters configuration rest
        ([letter], [⟨letter, baseAddress + (index <<< pageTableIndexShift queryLevel)⟩]))
      (firstUses (letter :: rest), queryMap queryWays (baseEntry queryLevel + index) (letter :: rest)) := by
  have inWindow : InWindow configuration queryLevel (baseAddress +
      ((index % drawableEntries configuration queryLevel) <<< pageTableIndexShift queryLevel)) :=
    drawn_inWindow (windows.drawable queryLevel isLevel_query) (Nat.div_le_self _ _) index
  rw [Nat.mod_eq_of_lt small] at inWindow
  have fits := Nat.lt_trans (inWindow.inBase windows isLevel_query).2 (by decide : complementaryBaseAddress < 2 ^ 64)
  rw [baseAddress_add isLevel_query] at fits ⊢
  have first : firstUses [letter] = [letter] := rfl
  have mapped : [⟨letter, queryPage queryWays (baseEntry queryLevel + index) (letter :: rest) letter 0⟩] =
      replay (queryPage queryWays (baseEntry queryLevel + index) (letter :: rest)) [] [letter] := rfl
  rw [← queryPage_first letter rest, ← first, mapped]
  exact evaluates_mapLetters rfl (List.cons_ne_nil _ _) fits

/-- Mapping a query draws its start entry. -/
theorem calm_mapLetters {guard : Paging -> KernelOp -> Prop} {memory : Nat -> Nat}
    (permits : Permits guard (InWindow configuration queryLevel)) (calm : Calm memory state) :
    Ensures (may fun _ _ => True) guard False (mapLetters configuration (letter :: rest) ([], [])) state
      fun result final => ∃ entry, StartEntry configuration entry ∧
        result = (firstUses (letter :: rest), queryMap queryWays entry (letter :: rest)) ∧ Calm memory final := by
  rw [mapLetters_cons]
  refine ensures_then (calm_drawAddress permits calm _ _) ?_
  rintro startAddress _ ⟨⟨random, drawn⟩, calm⟩
  rw [drawn]
  have small := Nat.mod_lt random (windows.drawable queryLevel isLevel_query)
  refine (calm_of_evaluates permits calm (evaluates_mapRest windows small)).mono ?_
  rintro result final ⟨rfl, calm⟩
  exact ⟨_, ⟨_, small, rfl⟩, rfl, calm⟩

/-- Every start can be drawn, and drawing it changes nothing. -/
theorem reaches_mapLetters {entry : Nat} (start : StartEntry configuration entry) :
    Reaches (may fun _ _ => True) (mapLetters configuration (letter :: rest) ([], [])) state fun result final =>
      result = (firstUses (letter :: rest), queryMap queryWays entry (letter :: rest)) ∧ final = state := by
  rcases start with ⟨index, small, rfl⟩
  rw [mapLetters_cons, reaches_bind]
  refine (reaches_drawAddress small).mono ?_
  rintro startAddress middle ⟨drawn, same⟩
  rw [drawn, same]
  exact reaches_of_evaluates (evaluates_mapRest windows small)

end Start

/-! ## One letter -/

theorem replays_keepsToBase (configuration : Configuration) (query : List Nat) :
    Replays (KeepsToBase configuration query) configuration query where
  calm := by
    intro memory state op calm allowed
    cases op with
    | writeData address data =>
        intro slot inside
        rw [calm.targets_eq, List.mem_singleton] at inside
        rw [inside]
        exact allowed
    | switchPageTableEntries first second => exact allowed.elim
    | _ => trivial
  opens _ _ _ _ entry _ start chain last _ := ⟨⟨entry, start, chain⟩, last⟩
  reads _ _ _ _ _ := trivial
  closes _ _ _ _ opened closed := absurd opened.opened closed
  flushes _ _ _ _ _ := trivial

/-- The machine has an answer to all operations of a measurement. -/
theorem replays_feasible (configuration : Configuration) (query : List Nat) : Replays Feasible configuration query where
  calm := permits_feasible _
  opens _ _ _ _ _ _ _ _ _ := ⟨(), _, rfl⟩
  reads memory first second state opened := by
    have known : first ∈ state.machine.live ⟨2, entryOf 2 (pageAddress queryLevel first 511)⟩ := by
      rw [show entryOf 2 (pageAddress queryLevel first 511) = first from entryOf_pageAddress isLevel_query (by decide)]
      exact opened.lingers.1
    exact ⟨_, _, ⟨_, opened.suspects.redirect_mem known, rfl⟩, rfl⟩
  closes _ _ _ _ _ := ⟨(), _, rfl⟩
  flushes _ _ _ _ _ := ⟨(), _, rfl⟩

theorem firstUses_alike {query : List Nat} {letter : Nat} (known : letter ∈ query)
    (alike : ∀ other, other ∈ query -> other = letter) : firstUses query = [letter] := by
  have distinct := firstUses_nodup query
  have inside : letter ∈ firstUses query := mem_firstUses.mpr known
  have only : ∀ other, other ∈ firstUses query -> other = letter := fun other member =>
    alike other (mem_firstUses.mp member)
  rcases List.exists_cons_of_ne_nil (List.ne_nil_of_mem inside) with ⟨first, rest, split⟩
  rw [split] at distinct only ⊢
  rw [only first List.mem_cons_self] at distinct ⊢
  cases rest with
  | nil => rfl
  | cons second others =>
      have same := only second (List.mem_cons_of_mem _ List.mem_cons_self)
      rw [same] at distinct
      exact absurd List.mem_cons_self (List.nodup_cons.mp distinct).1

theorem targetOf_queryMap {entry letter : Nat} {query : List Nat} (known : letter ∈ query) (previous : Nat) :
    targetOf letter (queryMap queryWays entry query) previous = queryPage queryWays entry query letter 0 := by
  rw [targetOf, queryMap, find_replay known]
  rfl

section Verdict

variable {configuration : Configuration} {query : List Nat} {bound : Nat} {state : Paging} {memory : Nat -> Nat}
  (windows : WindowsApart configuration) (mapped : QueryMapped configuration query) (enough : query.length ≤ bound)

include windows mapped enough

/-- A single letter is measured after its chain was written, and nothing is written
after that. -/
theorem ensures_queryCache_alike {guard : Paging -> KernelOp -> Prop} (replays : Replays guard configuration query)
    (finalState : Nat -> Nat) (calm : Calm memory state) (nonempty : query ≠ [])
    (alike : ∀ first, first ∈ query -> ∀ second, second ∈ query -> first = second) :
    Ensures (may fun _ _ => True) guard False (queryCache configuration bound finalState query) state
      fun _ final => Lingering configuration final := by
  rcases List.exists_cons_of_ne_nil nonempty with ⟨letter, rest, rfl⟩
  have known : letter ∈ letter :: rest := List.mem_cons_self
  have single := firstUses_alike known fun other member => alike other member letter known
  refine ensures_then (calm_mapLetters windows replays.calm calm) ?_
  rintro _ _ ⟨entry, start, rfl, calm⟩
  rw [single]
  dsimp only
  rw [probeLetters, targetOf_queryMap known, Program.bind_assoc]
  refine ensures_then (ensures_probeLetter windows mapped replays start known calm enough) ?_
  rintro misses final ⟨after, stale⟩
  rw [letterLocation_first, complementaryLocation_first] at stale
  split <;> exact ⟨entry, after, start, stale⟩

omit mapped enough in
/-- The next chain starts in the stale entry: its first write may leave the base
window. A chain of one link is closed by that write, a longer one is extended by it. -/
theorem not_keepsToBase_stale {guard : Paging -> KernelOp -> Prop} {exhausted : Prop} {first entry : Nat}
    {rest letters : List Nat} (guards : ∀ state op, guard state op -> KeepsToBase configuration (first :: rest) state op)
    (stale : Stale memory (startLocation entry) (complementaryStart entry) state)
    (letter : Nat) (arrays : (Nat -> Nat) × Nat × Nat) {post : (Nat -> Nat) × Nat × Nat -> Paging -> Prop} :
    ¬ Ensures (may fun _ _ => True) guard exhausted
      (probeLetters configuration bound (queryMap queryWays entry (first :: rest)) (letter :: letters) arrays) state
      post := by
  intro ensures
  rw [probeLetters] at ensures
  have probes := ensures_bind.mp ensures
  unfold probeLetter at probes
  dsimp only at probes
  have walks : ∀ target complementary, Reaches (may fun _ _ => True) (walkPair target complementary) state
      fun _ final => final = state := fun _ _ =>
    ⟨_, _, ⟨rfl, rfl⟩, _, _, ⟨rfl, rfl⟩, (), _, rfl, (), _, rfl, rfl⟩
  rcases probes.rest (walks _ _) with ⟨_, middle, same, walked⟩
  have builds := ensures_bind.mp walked
  rw [show middle = state from same] at builds
  have written : ∀ slot, slot ∈ state.machine.targets (pageAddress queryLevel entry 0) ->
      InWindow configuration queryLevel slot := by
    have start : firstAddress (queryMap queryWays entry (first :: rest)) = pageAddress queryLevel entry 0 := by
      rw [← queryPage_first first rest]
      rfl
    unfold buildChainFromAddressMap at builds
    rw [start] at builds
    cases links : (queryMap queryWays entry (first :: rest)).tail with
    | nil =>
        rw [links, linkEntries] at builds
        exact guards _ _ builds.1
    | cons mapped others =>
        rw [links, linkEntries] at builds
        exact guards _ _ (ensures_bind.mp builds).1
  have diverted := written _ (stale.suspects.redirect_mem stale.lingers.2)
  have below := Nat.lt_of_lt_of_le diverted.2 (windows.apart queryLevel isLevel_query)
  have aligned : pageAddress queryLevel (entryOf queryLevel complementaryBaseAddress) 0 = complementaryBaseAddress := by
    decide
  have above : complementaryBaseAddress ≤ redirect 2 (complementaryStart entry).index
      (pageAddress queryLevel entry 0) := by
    calc
      complementaryBaseAddress = entryOf queryLevel complementaryBaseAddress <<< pageTableIndexShift 2 := by decide
      _ ≤ (complementaryStart entry).index <<< pageTableIndexShift 2 := by
        rw [Nat.shiftLeft_eq, Nat.shiftLeft_eq]
        exact Nat.mul_le_mul_right _ (le_entryOf (by rw [aligned]; exact Nat.le_add_right _ _))
      _ ≤ _ := Nat.le_add_right _ _
  exact absurd (Nat.lt_of_le_of_lt above below) (by decide)

omit mapped enough in
/-- A call that follows one with letters may draw the same start. -/
theorem empty_of_lingering {guard : Paging -> KernelOp -> Prop}
    (guards : ∀ state op, guard state op -> KeepsToBase configuration query state op) {finalState : Nat -> Nat}
    {post : (Nat -> Nat) -> Paging -> Prop} (lingering : Lingering configuration state)
    (ensures : Ensures (may fun _ _ => True) guard False (queryCache configuration bound finalState query) state post) :
    query = [] := by
  rcases lingering with ⟨entry, memory, start, stale⟩
  rcases query with _ | ⟨first, rest⟩
  · rfl
  unfold queryCache at ensures
  rcases ensures.rest (reaches_mapLetters windows start) with ⟨_, _, ⟨rfl, rfl⟩, probes⟩
  rcases firstUses_prefix [first] rest with ⟨others, split⟩
  have uses : firstUses (first :: rest) = first :: others := split.symm
  dsimp only at probes
  rw [uses] at probes
  exact absurd (ensures_bind.mp probes) (not_keepsToBase_stale windows guards stale first _)

/-- A query that keeps to the base mapping asks for one letter only. Otherwise the
first letter that differs from the first one of all is measured in the next round,
and its chain starts in the stale entry that the round before has left. -/
theorem alike_of_keepsToBase (finalState : Nat -> Nat) (calm : Calm memory state)
    {guard : Paging -> KernelOp -> Prop} (guards : ∀ state op, guard state op -> KeepsToBase configuration query state op)
    {post : (Nat -> Nat) -> Paging -> Prop} (ensures : Ensures (may fun _ _ => True) guard False
      (queryCache configuration bound finalState query) state post) :
    ∀ first, first ∈ query -> ∀ second, second ∈ query -> first = second := by
  by_contra differs
  have replays := replays_feasible configuration query
  rcases query with _ | ⟨first, rest⟩
  · exact differs fun _ impossible => absurd impossible List.not_mem_nil
  have uses : ∃ letter letters, firstUses (first :: rest) = first :: letter :: letters := by
    have begins := firstUses_prefix [first] rest
    rcases begins with ⟨others, split⟩
    rw [List.singleton_append] at split
    cases others with
    | nil =>
        have only : ∀ other, other ∈ first :: rest -> other = first := by
          intro other inside
          rw [← mem_firstUses, ← split] at inside
          exact List.mem_singleton.mp inside
        exact absurd (fun one inside two inside' => (only one inside).trans (only two inside').symm) differs
    | cons letter letters => exact ⟨letter, letters, split.symm⟩
  rcases uses with ⟨letter, letters, uses⟩
  unfold queryCache at ensures
  rcases ensures.rest (reaches_of_feasible (calm_mapLetters windows replays.calm calm)) with
    ⟨_, _, ⟨entry, start, rfl, calm⟩, ensures⟩
  dsimp only at ensures
  rw [uses] at ensures
  have probes := ensures_bind.mp ensures
  rw [probeLetters, targetOf_queryMap List.mem_cons_self] at probes
  rcases probes.rest (reaches_of_feasible (ensures_probeLetter windows mapped replays start List.mem_cons_self calm
    enough)) with ⟨misses, _, ⟨after, stale⟩, probes⟩
  rw [letterLocation_first, complementaryLocation_first] at stale
  split at probes
  · exact not_keepsToBase_stale windows guards stale letter _ probes
  · exact not_keepsToBase_stale windows guards stale letter _ probes

end Verdict

/-- Writes to the base window leave the complementary slots as they are. -/
theorem Marked.kept {configuration : Configuration} (windows : WindowsApart configuration) {query : List Nat} (op : KernelOp)
    (state : Paging) (response : KernelOp.Response op) (final : Paging) (admitted : KeepsToBase configuration query state op)
    (marked : Marked state) (allowed : may (fun _ _ => True) op state response final) : Marked final := by
  cases op with
  | readData address =>
      rcases allowed with ⟨_, rfl⟩
      exact marked
  | fetchInstruction address =>
      rcases allowed with ⟨_, rfl⟩
      exact marked
  | writeData address data =>
      rcases allowed with ⟨slot, inside, rfl⟩
      have below := physicalSlot_lt ((admitted slot inside).inBase windows isLevel_query).2
      intro other above
      have apart : other ≠ physicalSlot slot := Nat.ne_of_gt (Nat.lt_of_lt_of_le below above)
      exact (Function.update_of_ne apart _ _).trans (marked other above)
  | walkPageTable address =>
      rcases allowed with ⟨_, rfl⟩
      exact marked
  | switchPageTableEntries first second =>
      cases first with
      | none => exact allowed.elim
      | some first =>
          cases second with
          | none => exact allowed.elim
          | some second =>
              rcases allowed with rfl
              exact marked
  | kmalloc =>
      rcases allowed with ⟨_, rfl⟩
      exact marked
  | callHash pointer target offset setBits level =>
      rcases allowed with ⟨_, _, _, _, rfl⟩
      exact marked
  | _ =>
      rcases allowed with rfl
      exact marked

/-! ## Sequences of calls -/

section Calls

variable {configuration : Configuration} {calls : List QueryCall} {bound : Nat} {state : Paging} {memory : Nat -> Nat}

/-- The calls one after the other: the complementary slots keep `signal`, every write
of a call ends in the base window, and every traversal follows the chain just written. -/
def CallsKeepToBase (configuration : Configuration) (bound : Nat) (calls : List QueryCall) (state : Paging) : Prop :=
  EnsuresEach (fun _ => may fun _ _ => True)
    (fun call state op => Marked state ∧ KeepsToBase configuration call.query state op) False
    (fun call => queryCache configuration bound call.finalState call.query) calls state Marked

/-- A query without letters leaves everything as it is. -/
theorem CallsKeepToBase.tail_of_empty {call : QueryCall} {rest : List QueryCall} (empty : call.query = [])
    (keeps : CallsKeepToBase configuration bound (call :: rest) state) :
    CallsKeepToBase configuration bound rest state := by
  unfold CallsKeepToBase EnsuresEach at keeps
  rw [empty] at keeps
  exact keeps

/-- Queries without letters keep whatever holds. -/
theorem callsKeepToBase_of_empty (empty : ∀ call, call ∈ calls -> call.query = []) (marked : Marked state) :
    CallsKeepToBase configuration bound calls state := by
  apply ensuresEach_of_step Marked marked
  intro call inside state marked
  rw [empty call inside]
  exact marked

variable (windows : WindowsApart configuration)

include windows

/-- After a call with letters no further one may have any. -/
theorem CallsKeepToBase.all_empty (keeps : CallsKeepToBase configuration bound calls state)
    (lingering : Lingering configuration state) : ∀ call, call ∈ calls -> call.query = [] := by
  induction calls with
  | nil => exact fun _ impossible => absurd impossible List.not_mem_nil
  | cons call rest inductionHypothesis =>
      have empty := empty_of_lingering windows (fun _ _ both => both.2) lingering keeps
      exact List.forall_mem_cons.mpr ⟨empty, inductionHypothesis (keeps.tail_of_empty empty)⟩

variable (mapped : ∀ call, call ∈ calls -> QueryMapped configuration call.query)
  (enough : ∀ call, call ∈ calls -> call.query.length ≤ bound)

include mapped enough

theorem CallsKeepToBase.singleLetter (calm : Calm memory state)
    (keeps : CallsKeepToBase configuration bound calls state) : SingleLetter calls := by
  induction calls with
  | nil => exact ⟨.nil, fun _ impossible => absurd impossible List.not_mem_nil⟩
  | cons call rest inductionHypothesis =>
      rcases List.forall_mem_cons.mp mapped with ⟨callMapped, restMapped⟩
      rcases List.forall_mem_cons.mp enough with ⟨callEnough, restEnough⟩
      have alike := alike_of_keepsToBase windows callMapped callEnough call.finalState calm (fun _ _ both => both.2) keeps
      by_cases empty : call.query = []
      · have later := inductionHypothesis restMapped restEnough (keeps.tail_of_empty empty)
        exact ⟨List.pairwise_cons.mpr ⟨fun _ _ => Or.inl empty, later.once⟩, List.forall_mem_cons.mpr ⟨alike, later.alike⟩⟩
      · have measured := ensures_queryCache_alike windows callMapped callEnough
          (replays_feasible configuration call.query) call.finalState calm empty alike
        rcases Ensures.of_reaches keeps (reaches_of_feasible measured) with ⟨_, final, later, lingering⟩
        have empties := CallsKeepToBase.all_empty windows later lingering
        refine ⟨List.pairwise_cons.mpr ⟨fun other inside => Or.inr (empties other inside), ?_⟩,
          List.forall_mem_cons.mpr ⟨alike, ?_⟩⟩
        · exact List.pairwise_of_forall_mem_list fun other inside _ _ => Or.inl (empties other inside)
        · intro other inside first impossible
          rw [empties other inside] at impossible
          exact absurd impossible List.not_mem_nil

theorem callsKeepToBase_of_singleLetter (single : SingleLetter calls) (calm : Calm memory state)
    (marked : Marked state) : CallsKeepToBase configuration bound calls state := by
  induction calls with
  | nil => exact marked
  | cons call rest inductionHypothesis =>
      rcases List.forall_mem_cons.mp mapped with ⟨callMapped, restMapped⟩
      rcases List.forall_mem_cons.mp enough with ⟨callEnough, restEnough⟩
      rcases List.pairwise_cons.mp single.once with ⟨apart, once⟩
      rcases List.forall_mem_cons.mp single.alike with ⟨alike, restAlike⟩
      by_cases empty : call.query = []
      · have later := inductionHypothesis restMapped restEnough ⟨once, restAlike⟩
        unfold CallsKeepToBase EnsuresEach
        rw [empty]
        exact later
      · have keeps := ensures_queryCache_alike windows callMapped callEnough
          (replays_keepsToBase configuration call.query) call.finalState calm empty alike
        refine (keeps.keeping Marked marked (Marked.kept windows)).mono fun _ final both => ?_
        exact callsKeepToBase_of_empty (fun other inside => (apart other inside).resolve_left empty) both.2

end Calls

theorem marked_afterSetup : Marked afterSetup := fun _ above => if_pos above

/-- In every sequence of calls on the memory that the trigger sets up, every write
ends in the base window, every traversal follows the chain just written, and the
complementary slots keep `signal`, exactly if at most one call has letters and these
are uses of one letter.  The last measurement of a call swaps its entries back
without a flush, so the next one may still use the stale translation, in the same
call or in a later one. -/
theorem queryCache_keepsToBase_iff {configuration : Configuration} (windows : WindowsApart configuration)
    {calls : List QueryCall} (mapped : ∀ call, call ∈ calls -> QueryMapped configuration call.query) {bound : Nat}
    (enough : ∀ call, call ∈ calls -> call.query.length ≤ bound) :
    CallsKeepToBase configuration bound calls afterSetup ↔ SingleLetter calls :=
  ⟨CallsKeepToBase.singleLetter windows mapped enough calm_afterSetup, fun single =>
    callsKeepToBase_of_singleLetter windows mapped enough single calm_afterSetup marked_afterSetup⟩

theorem queryMapped_default {query : List Nat} (few : query.length ≤ 100) : QueryMapped defaultConfiguration query := by
  refine ⟨fun letter => Nat.le_trans List.count_le_length (by omega), ?_⟩
  rintro entry ⟨start, small, rfl⟩ letter known
  apply letterEntry_lt_default small
  calc
    (firstUses query).idxOf letter < (firstUses query).length := List.idxOf_lt_length_of_mem (mem_firstUses.mpr known)
    _ ≤ query.length := firstUses_length_le
    _ ≤ 256 := by omega

/-- Two uses of one letter, after a call without any. -/
theorem queryCache_keepsToBase_iff_twice :
    CallsKeepToBase defaultConfiguration 2 [⟨[], fun _ => 0⟩, ⟨[65, 65], fun _ => 0⟩] afterSetup ↔
      SingleLetter [⟨[], fun _ => 0⟩, ⟨[65, 65], fun _ => 0⟩] := by
  apply queryCache_keepsToBase_iff windowsApart_default
  · intro call inside
    rcases List.mem_pair.mp inside with rfl | rfl <;> exact queryMapped_default (by decide)
  · intro call inside
    rcases List.mem_pair.mp inside with rfl | rfl <;> decide

/-- With two letters, the chain of the second one may be written to the
complementary window. -/
theorem queryCache_not_keepsToBase :
    ¬ CallsKeepToBase defaultConfiguration 2 [⟨[65, 66], fun _ => 0⟩] afterSetup := by
  intro keeps
  have alike := alike_of_keepsToBase windowsApart_default (queryMapped_default (by decide)) (Nat.le_refl _) _ calm_afterSetup
    (fun _ _ both => both.2) keeps
  exact absurd (alike 65 (by decide) 66 (by decide)) (by decide)

end CacheQuery
end Talbot
