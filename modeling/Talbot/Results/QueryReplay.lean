import Talbot.Foundations.Traces
import Talbot.Results.QueryReport

namespace Talbot
namespace CacheQuery

/-!
What a query accesses.

The map is filled from look-ups in itself, but after each prefix of the query it
holds, for every use of a letter, the page with the number of that use in the
entry of the letter.  The chain through the map is therefore a chain through
distinct addresses.  For each letter it is written once, and each iteration of the
measurement reads its addresses one after the other before it looks at the page
that the letter is probed with.
-/

open Foundations Program Machine

/-! ## The operations of a query -/

/-- The address whose content an operation uses or changes. -/
def accessed : KernelOp -> Option Nat
  | .readData address => some address
  | .fetchInstruction address => some address
  | .writeData address _ => some address
  | _ => none

/-- An operation that uses no content of memory. -/
def NoAccess (op : KernelOp) : Prop :=
  accessed op = none

/-- An operation of the warm-up: a random word is drawn, or some entry of the base
window is read. -/
def WarmsUp (configuration : Configuration) (op : KernelOp) : Prop :=
  op = .getRandomLong ∨ ∃ index, index < configuration.pageTableEntries queryLevel ∧
    op = .readData (baseAddress + (index <<< pageTableIndexShift queryLevel))

/-- One iteration: flush, warm up, replay the addresses, look at `stop` while the
entries are exchanged. -/
def ReplayIssues (configuration : Configuration) (addresses : List Nat) (stop : Nat) (issued : List KernelOp) : Prop :=
  ∃ (warm : List KernelOp) (first second : Option EntryLocation),
    (∀ op, op ∈ warm -> WarmsUp configuration op) ∧
    issued = .flushMmuCaches :: (warm ++ addresses.map KernelOp.readData ++
      [.switchPageTableEntries first second, .readData stop, .switchPageTableEntries first second])

/-- The writes that link addresses to a chain that ends at `stop`. -/
def chainWrites (stop : Nat) : List Nat -> List KernelOp
  | [] => []
  | [address] => [.writeData address stop]
  | address :: next :: rest => .writeData address next :: chainWrites stop (next :: rest)

/-- The measurement of one letter: after two walks the chain is written, and every
iteration replays it. -/
def LetterIssues (configuration : Configuration) (addresses : List Nat) (stop : Nat) (issued : List KernelOp) : Prop :=
  ∃ (walks : List KernelOp) (replays : List (List KernelOp)),
    (∀ op, op ∈ walks -> NoAccess op) ∧ replays.length = iterations ∧
    (∀ replay, replay ∈ replays -> ReplayIssues configuration addresses stop replay) ∧
    issued = walks ++ chainWrites stop addresses ++ replays.flatten

/-- All of a query: the map is built without using memory, and each letter is
measured in turn. -/
def QueryIssues (configuration : Configuration) (addresses : List Nat) (stops : Nat -> Nat) (letters : List Nat)
    (issued : List KernelOp) : Prop :=
  ∃ (mapping : List KernelOp) (measured : List (List KernelOp)), (∀ op, op ∈ mapping -> NoAccess op) ∧
    List.Forall₂ (fun letter ops => LetterIssues configuration addresses (stops letter) ops) letters measured ∧
      issued = mapping ++ measured.flatten

/-- Addresses that stand for the characters of a query, and for each letter the page
it is probed with. -/
structure StandsFor (query addresses : List Nat) (stops : Nat -> Nat) : Prop where
  one_each : addresses.length = query.length
  distinct : addresses.Nodup
  entries : ∀ first second, first ∈ query.zip addresses -> second ∈ query.zip addresses ->
    (entryOf queryLevel first.2 = entryOf queryLevel second.2 ↔ first.1 = second.1)
  one_set : ∀ first second, first ∈ addresses -> second ∈ addresses ->
    HashFunction.linShiftHash.set querySetBits (entryOf queryLevel first) =
      HashFunction.linShiftHash.set querySetBits (entryOf queryLevel second)
  aligned : ∀ letter, letter ∈ query -> ∃ address, (letter, address) ∈ query.zip addresses ∧
    stops letter = prefixAligned address queryLevel
  stop_entry : ∀ letter other, letter ∈ query -> other ∈ query.zip addresses ->
    (entryOf queryLevel (stops letter) = entryOf queryLevel other.2 ↔ letter = other.1)
  stop_new : ∀ letter, stops letter ∉ addresses

/-! ## The traversal -/

section Traversal

variable {configuration : Configuration} {model : TranslationModel}

theorem always_warmUp (drawable : 0 < configuration.pageTableEntries queryLevel) (count : Nat) :
    Always (WarmsUp configuration) (warmUp configuration queryLevel count) fun _ => True := by
  refine always_loop fun _ _ => ⟨Or.inl rfl, fun random => ⟨Or.inr ⟨_, Nat.mod_lt random drawable, rfl⟩, ?_⟩⟩
  exact fun _ => trivial

/-- One iteration, in any state that holds the chain. The first address is read on
its own, the others by the loop over the query. -/
theorem traces_replayQuery (drawable : 0 < configuration.pageTableEntries queryLevel) {map : AddressMap}
    {first : Nat} {rest : List Nat}
    (addresses : map.map AddressMapEntry.address = first :: rest) {machine : Machine model}
    (idle : machine.exchanged = none) {stop : Nat} (path : Path machine.memory first (first :: rest) stop)
    (ends : stop ∉ first :: rest) {bound : Nat} (enough : rest.length ≤ bound) (target complementary misses : Nat) :
    Traces (handle queryLevel) (replayQuery configuration bound map stop (walksTo target complementary) misses)
      machine fun _ final issued => final.exchanged = none ∧ final.memory = machine.memory ∧
        ReplayIssues configuration (first :: rest) stop issued := by
  have start : firstAddress map = first := by rw [firstAddress, addresses, List.headD_cons]
  unfold replayQuery
  rw [start]
  refine (traces_then rfl).mpr (traces_bind.mpr ?_)
  apply ((returns_warmUp configuration _ machine.flush).traces (always_warmUp drawable _)).mono
  rintro _ warmed warm ⟨⟨_, touched⟩, warming⟩
  have warmIdle : warmed.exchanged = none := touched.exchanged_eq.trans idle
  have memory : warmed.memory = machine.memory := touched.memory_eq
  rw [← memory] at path
  refine (traces_then rfl).mpr (traces_bind.mpr ?_)
  rw [content_of_idle warmIdle]
  have later : Path (warmed.touch first).memory (warmed.memory first) rest stop := path.2
  have readIdle : (warmed.touch first).exchanged = none := warmIdle
  apply (traces_followChain readIdle later (fun inside => ends (List.mem_cons_of_mem _ inside)) enough).mono
  rintro _ arrived _ ⟨rfl, rfl, rfl⟩
  have exchanged : handle queryLevel (.switchPageTableEntries (some ⟨queryLevel, entryOf queryLevel target⟩)
      (some ⟨queryLevel, entryOf queryLevel complementary⟩)) ((warmed.touch first).touchAll rest) =
        some ((), ((warmed.touch first).touchAll rest).swap (entryOf queryLevel target)) := by
    have between : ((warmed.touch first).touchAll rest).exchanged = none := warmIdle
    simp only [handle, exchange, and_self, if_true, between, Option.map_some]
  refine (traces_then exchanged).mpr ((traces_then rfl).mpr ((traces_then rfl).mpr ?_))
  refine ⟨rfl, memory, warm, some ⟨queryLevel, entryOf queryLevel target⟩,
    some ⟨queryLevel, entryOf queryLevel complementary⟩, warming, ?_⟩
  simp only [List.map_cons, List.cons_append, List.append_assoc]
  rfl

theorem traces_writeData {machine : Machine model} (idle : machine.exchanged = none) {address data : Nat} :
    Traces (handle queryLevel) (writeData address data) machine fun _ final issued =>
      final.exchanged = none ∧ issued = [.writeData address data] := by
  refine (traces_call rfl).mpr ⟨?_, rfl⟩
  rw [store_idle idle]
  exact idle

/-- Linking and closing write every address of the chain once, in order. -/
theorem traces_linkEntries {machine : Machine model} (idle : machine.exchanged = none) (last stop : Nat)
    (map : AddressMap) :
    Traces (handle queryLevel) (linkEntries last map >>= fun lastChainLink => writeData lastChainLink stop) machine
      fun _ _ issued => issued = chainWrites stop (last :: map.map AddressMapEntry.address) := by
  induction map generalizing last machine with
  | nil => exact (traces_writeData idle).mono fun _ _ _ written => written.2
  | cons mapped rest inductionHypothesis =>
      rw [linkEntries, bind_assoc, traces_bind]
      apply (traces_writeData idle).mono
      rintro _ middle _ ⟨middleIdle, rfl⟩
      apply (inductionHypothesis middleIdle mapped.address).mono
      rintro _ _ _ rfl
      rfl

theorem traces_buildChainFromAddressMap {machine : Machine model} (idle : machine.exchanged = none) {map : AddressMap}
    {first : Nat} {rest : List Nat} (addresses : map.map AddressMapEntry.address = first :: rest) (stop : Nat) :
    Traces (handle queryLevel) (buildChainFromAddressMap map stop) machine fun _ final issued =>
      (final.exchanged = none ∧ final.memory = writeChain machine.memory first rest stop) ∧
        issued = chainWrites stop (first :: rest) := by
  have start : firstAddress map = first := by rw [firstAddress, addresses, List.headD_cons]
  have tail : map.tail.map AddressMapEntry.address = rest := by rw [List.map_tail, addresses, List.tail_cons]
  have built := ((rewritten_buildChainFromAddressMap idle addresses stop).traces (always_trivial _)).mono
    fun _ _ _ known => And.intro known.1.idle known.1.memory_eq
  refine built.and ?_
  unfold buildChainFromAddressMap
  rw [start, ← tail]
  exact traces_linkEntries idle first stop map.tail

theorem always_walkPair (target complementary : Nat) :
    Always NoAccess (walkPair target complementary) fun _ => True :=
  ⟨rfl, fun _ => ⟨rfl, fun _ => ⟨rfl, fun _ => ⟨rfl, fun _ => trivial⟩⟩⟩⟩

/-- The measurement of a letter replays the addresses in each of its iterations.
The chain is written once before the first of them and is not changed by any. -/
theorem traces_probeLetter (drawable : 0 < configuration.pageTableEntries queryLevel) {map : AddressMap} {first : Nat}
    {rest : List Nat} (addresses : map.map AddressMapEntry.address = first :: rest) (distinct : (first :: rest).Nodup)
    {machine : Machine model} (idle : machine.exchanged = none) {target : Nat}
    (ends : prefixAligned target queryLevel ∉ first :: rest) {bound : Nat} (enough : rest.length ≤ bound) :
    Traces (handle queryLevel) (probeLetter configuration bound map target) machine fun _ final issued =>
      final.exchanged = none ∧
        LetterIssues configuration (first :: rest) (prefixAligned target queryLevel) issued := by
  have walked : Returns (handle queryLevel) (walkPair target (complementaryOf target)) machine fun walks final =>
      walks = walksTo target (complementaryOf target) ∧ final = machine :=
    returns_walkPair.mpr ⟨rfl, rfl⟩
  unfold probeLetter
  rw [traces_bind]
  apply (walked.traces (always_walkPair _ _)).mono
  rintro _ _ walks ⟨⟨rfl, rfl⟩, quiet⟩
  rw [traces_bind]
  apply (traces_buildChainFromAddressMap idle addresses _).mono
  rintro _ ready _ ⟨⟨readyIdle, memory⟩, rfl⟩
  have path : Path ready.memory first (first :: rest) (prefixAligned target queryLevel) := by
    rw [memory]
    exact writeChain_path _ _ _ _ distinct
  apply Traces.mono (traces_forRange (fun count (_ : Nat) (state : Machine model) issued =>
    state.exchanged = none ∧ state.memory = ready.memory ∧
    ∃ replays : List (List KernelOp), replays.length = count ∧
      (∀ replay, replay ∈ replays ->
        ReplayIssues configuration (first :: rest) (prefixAligned target queryLevel) replay) ∧
      issued = replays.flatten) 0 iterations 0 ready [] ?_ ?_)
  · rintro _ final issued ⟨finalIdle, _, replays, count, each, same⟩
    rw [List.nil_append] at same
    rw [Nat.zero_add] at count
    exact ⟨finalIdle, walks, replays, quiet, count, each, by rw [same, List.append_assoc]⟩
  · exact ⟨readyIdle, rfl, [], rfl, fun _ impossible => (List.not_mem_nil impossible).elim, rfl⟩
  · rintro count misses state _ _ _ ⟨stateIdle, same, replays, known, each, rfl⟩
    rw [traces_bind]
    apply (traces_replayQuery drawable addresses stateIdle (by rw [same]; exact path) ends enough _ _ _).mono
    rintro result final issued ⟨finalIdle, kept, replay⟩
    refine ⟨result, rfl, finalIdle, kept.trans same, replays ++ [issued], ?_, ?_, ?_⟩
    · rw [List.length_append, known, List.length_singleton]
    · intro other inside
      rcases List.mem_append.mp inside with before | now
      · exact each other before
      · rwa [List.mem_singleton.mp now]
    · rw [List.flatten_append, List.flatten_singleton, List.append_nil]

theorem always_mapLetters (query : List Nat) (state : List Nat × AddressMap) :
    Always NoAccess (mapLetters configuration query state) fun _ => True := by
  induction query generalizing state with
  | nil => trivial
  | cons letter rest inductionHypothesis =>
      rcases state with ⟨uniqueLetters, map⟩
      have next : ∀ amount, Always NoAccess (getNextAddress configuration letter map amount) fun _ => True := by
        intro amount
        unfold getNextAddress
        cases map with
        | nil => exact ⟨rfl, fun _ => trivial⟩
        | cons first others =>
            dsimp only
            cases (first :: others).reverse.find? fun entry => entry.letter == letter with
            | none => exact ⟨rfl, fun _ => trivial⟩
            | some entry => trivial
      rw [mapLetters]
      exact always_bind.mpr ((next _).mono fun address _ => inductionHypothesis _)

/-- What is known of the addresses of a map for the traversals of its letters. -/
structure Traversable (map : AddressMap) (letters : List Nat) (stops : Nat -> Nat) : Prop where
  distinct : (map.map AddressMapEntry.address).Nodup
  nonempty : map ≠ []
  target : ∀ letter, letter ∈ letters -> ∀ previous,
    prefixAligned (targetOf letter map previous) queryLevel = stops letter
  ends : ∀ letter, letter ∈ letters -> stops letter ∉ map.map AddressMapEntry.address

/-- The letters are measured one after the other, each with the replays of its chain. -/
theorem traces_measureLetters (drawable : 0 < configuration.pageTableEntries queryLevel) {map : AddressMap}
    {letters : List Nat} {stops : Nat -> Nat} (traversable : Traversable map letters stops)
    {machine : Machine model} (idle : machine.exchanged = none) {bound : Nat} (enough : map.length ≤ bound) (previous : Nat) :
    Traces (handle queryLevel) (measureLetters configuration bound map letters previous) machine
      fun _ _ issued => ∃ measured : List (List KernelOp),
        List.Forall₂ (fun letter ops =>
          LetterIssues configuration (map.map AddressMapEntry.address) (stops letter) ops) letters measured ∧
            issued = measured.flatten := by
  induction letters generalizing machine previous with
  | nil => exact ⟨[], .nil, rfl⟩
  | cons letter rest inductionHypothesis =>
      rcases List.exists_cons_of_ne_nil traversable.nonempty with ⟨first, others, rfl⟩
      have target := traversable.target letter List.mem_cons_self previous
      have addresses : (first :: others).map AddressMapEntry.address =
          first.address :: others.map AddressMapEntry.address := rfl
      have distinct := traversable.distinct
      have ends := traversable.ends letter List.mem_cons_self
      rw [addresses] at distinct ends ⊢
      rw [← target] at ends
      have short : (others.map AddressMapEntry.address).length ≤ bound := by
        rw [List.length_map]
        exact Nat.le_of_succ_le enough
      have later : Traversable (first :: others) rest stops :=
        ⟨traversable.distinct, traversable.nonempty,
          fun other inside => traversable.target other (List.mem_cons_of_mem _ inside),
          fun other inside => traversable.ends other (List.mem_cons_of_mem _ inside)⟩
      rw [measureLetters, traces_bind]
      apply (traces_probeLetter drawable addresses distinct idle ends short).mono
      rintro misses after issued ⟨afterIdle, ops⟩
      rw [target] at ops
      rw [traces_bind]
      apply (inductionHypothesis later afterIdle _).mono
      rintro result _ _ ⟨measured, each, rfl⟩
      refine ⟨issued :: measured, .cons ops each, ?_⟩
      rw [List.append_nil, List.flatten_cons]

end Traversal

/-! ## The addresses -/

section Addresses

variable {ways entry : Nat} {query : List Nat} (few : ∀ letter, query.count letter ≤ 511)

theorem replay_zip (address : Nat -> Nat -> Nat) (before query : List Nat) :
    query.zip ((replay address before query).map AddressMapEntry.address) =
      (replay address before query).map fun mapped => (mapped.letter, mapped.address) := by
  induction query generalizing before with
  | nil => rfl
  | cons letter rest inductionHypothesis =>
      rw [replay, List.map_cons, List.zip_cons_cons, List.map_cons, inductionHypothesis]

include few

/-- A character's address is a page of the entry of its letter. -/
theorem mem_zip_queryAddresses {pair : Nat × Nat} (inside : pair ∈ query.zip (queryAddresses ways entry query)) :
    pair.1 ∈ query ∧ entryOf queryLevel pair.2 = letterEntry ways entry query pair.1 := by
  rw [queryAddresses, queryMap, replay_zip] at inside
  rcases List.mem_map.mp inside with ⟨mapped, known, rfl⟩
  rcases mem_replay known with ⟨inQuery, use, _, below, same⟩
  have bound := few mapped.letter
  rw [List.nil_append] at below
  exact ⟨inQuery, by rw [same, entryOf_queryPage (by omega)]⟩

/-- The addresses that the map holds stand for the characters of the query. -/
theorem standsFor_queryAddresses (entry : Nat) :
    StandsFor query (queryAddresses ways entry query) fun letter => queryPage ways entry query letter 511 := by
  have stopEntry : ∀ letter, entryOf queryLevel (queryPage ways entry query letter 511) =
      letterEntry ways entry query letter := fun letter => entryOf_queryPage (by decide)
  have same_letter : ∀ letter other, letter ∈ query -> (letterEntry ways entry query letter =
      letterEntry ways entry query other ↔ letter = other) :=
    fun letter other known => ⟨letterEntry_injective known, congrArg _⟩
  refine ⟨?_, queryAddresses_nodup few, ?_, ?_, ?_, ?_, stop_notMem few⟩
  · rw [queryAddresses, List.length_map, queryMap, replay_length]
  · intro first second inside inside'
    rcases mem_zip_queryAddresses few inside with ⟨known, place⟩
    rcases mem_zip_queryAddresses few inside' with ⟨_, place'⟩
    rw [place, place']
    exact same_letter _ _ known
  · have oneSet : ∀ address, address ∈ queryAddresses ways entry query ->
        HashFunction.linShiftHash.set querySetBits (entryOf queryLevel address) =
          (queryGeometry ways).index entry := by
      intro address inside
      rcases mem_queryAddresses few inside with ⟨letter, use, _, small, rfl⟩
      rw [entryOf_queryPage (by omega)]
      exact letterEntry_set letter
    intro first second inside inside'
    rw [oneSet first inside, oneSet second inside']
  · intro letter known
    refine ⟨queryPage ways entry query letter 0, ?_, (prefixAligned_pageAddress rfl).symm⟩
    rw [queryAddresses, queryMap, replay_zip]
    have found := @find_replay (queryPage ways entry query) [] query letter known
    exact List.mem_map.mpr ⟨_, List.mem_of_find?_eq_some found, rfl⟩
  · intro letter other known inside
    rw [stopEntry, (mem_zip_queryAddresses few inside).2]
    exact same_letter _ _ known

end Addresses

/-- What a query issues, for the start entry that is drawn. -/
theorem traces_queryCache {configuration : Configuration} {model : TranslationModel} {bound : Nat}
    (window : UsableWindow configuration queryLevel) {query : List Nat} (nonempty : query ≠ [])
    (few : ∀ letter, query.count letter ≤ 511) (enough : query.length ≤ bound) (fresh : Nat -> Nat)
    {machine : Machine model} (idle : machine.exchanged = none) {entry : Nat}
    (drawn : entry = drawnEntry configuration queryLevel (machine.randoms 0)) :
    Traces (handle queryLevel) (queryCache configuration bound fresh query) machine fun _ _ issued =>
      QueryIssues configuration (queryAddresses queryWays entry query)
        (fun letter => queryPage queryWays entry query letter 511) (firstUses query) issued := by
  have drawable := Nat.lt_of_lt_of_le window.drawable (Nat.div_le_self _ _)
  have mapped : Returns (handle queryLevel) (mapLetters configuration query ([], [])) machine fun state final =>
      state = (firstUses query, queryMap queryWays entry query) ∧ final.exchanged = none :=
    returns_mapLetters window nonempty drawn ⟨rfl, idle⟩
  rw [queryCache_eq, traces_bind]
  unfold measureQuery
  rw [traces_bind]
  apply (mapped.traces (always_mapLetters query _)).mono
  rintro _ ready mapping ⟨⟨rfl, readyIdle⟩, quiet⟩
  have traversable : Traversable (queryMap queryWays entry query) (firstUses query)
      fun letter => queryPage queryWays entry query letter 511 := by
    refine ⟨queryAddresses_nodup few, ?_, ?_, fun letter _ => stop_notMem few letter⟩
    · intro empty
      have count := congrArg List.length empty
      rw [queryMap, replay_length] at count
      exact nonempty (List.eq_nil_of_length_eq_zero count)
    · intro letter inside previous
      rw [targetOf, queryMap, find_replay (mem_firstUses.mp inside)]
      exact prefixAligned_pageAddress rfl
  have short : (queryMap queryWays entry query).length ≤ bound := by rwa [queryMap, replay_length]
  rw [traces_bind]
  apply (traces_measureLetters drawable traversable readyIdle short 0).mono
  rintro result _ _ ⟨measured, each, rfl⟩
  refine ⟨mapping, measured, quiet, each, ?_⟩
  rw [List.append_nil, List.append_nil]

/-- For every query whose letters occur at most 511 times, and every start address that
is drawn: each iteration for each letter reads one address for every character, in
the order of the query, and then the page that the letter is probed with; the
addresses are distinct, lie in one set, and share an entry exactly where the
characters are equal. -/
theorem queryCache_replays {configuration : Configuration} {model : TranslationModel} {bound : Nat}
    (window : UsableWindow configuration queryLevel) {query : List Nat} (nonempty : query ≠ [])
    (few : ∀ letter, query.count letter ≤ 511) (enough : query.length ≤ bound) (fresh : Nat -> Nat)
    (machine : Machine model) (idle : machine.exchanged = none) :
    ∃ (addresses : List Nat) (stops : Nat -> Nat), StandsFor query addresses stops ∧
      addresses.head? = some (pageAddress queryLevel (drawnEntry configuration queryLevel (machine.randoms 0)) 0) ∧
      Traces (handle queryLevel) (queryCache configuration bound fresh query) machine
        fun _ _ issued => QueryIssues configuration addresses stops (firstUses query) issued := by
  refine ⟨_, _, standsFor_queryAddresses few _, ?_, traces_queryCache window nonempty few enough fresh idle rfl⟩
  rcases List.exists_cons_of_ne_nil nonempty with ⟨letter, rest, rfl⟩
  have number : (firstUses (letter :: rest)).idxOf letter = 0 := idxOf_firstUses_new List.not_mem_nil
  rw [queryAddresses, queryMap, replay, List.map_cons, List.head?_cons, queryPage, number,
    CacheGeometry.memberPage, CacheGeometry.member_zero]
  rfl

/-- A machine whose random words are the squares. -/
def squares : Machine ((queryGeometry 4).lru queryLevel) :=
  afterTrigger _ fun n => n * n

/-- The query `ABCDAEFA`. -/
theorem queryCache_replays_letters :
    ∃ (addresses : List Nat) (stops : Nat -> Nat), StandsFor [65, 66, 67, 68, 65, 69, 70, 65] addresses stops ∧
      addresses.head? =
        some (pageAddress queryLevel (drawnEntry defaultConfiguration queryLevel (squares.randoms 0)) 0) ∧
      Traces (handle queryLevel) (queryCache defaultConfiguration 8 (fun _ => 0) [65, 66, 67, 68, 65, 69, 70, 65])
        squares fun _ _ issued =>
          QueryIssues defaultConfiguration addresses stops (firstUses [65, 66, 67, 68, 65, 69, 70, 65]) issued :=
  queryCache_replays (usableWindow_default isLevel_query) (List.cons_ne_nil _ _)
    (fun letter => Nat.le_trans List.count_le_length (by decide)) (Nat.le_refl 8) (fun _ => 0) squares rfl

end CacheQuery
end Talbot
