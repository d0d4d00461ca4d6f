import Talbot.CacheQuery.Mapping
import Talbot.CacheQuery.Module

namespace Talbot
namespace CacheQuery

/-!
The report of a query on an LRU cache.

Every replay of the query uses the entry of each of its letters, in order.  What
was in the set before does not matter to a letter of the query, so a letter
survives exactly if it is among the last ones used, as many as there are ways.
-/

open Foundations Program Machine

section Mapping

variable {configuration : Configuration} {model : TranslationModel} {ways entry : Nat} {query : List Nat}

/-- Mapping a query draws the start entry and nothing else. -/
theorem returns_mapLetters (window : UsableWindow configuration queryLevel) {machine : Machine model}
    (nonempty : query ≠ []) (drawn : entry = drawnEntry configuration queryLevel (machine.randoms 0))
    {post : List Nat × AddressMap -> Machine model -> Prop}
    (holds : post (firstUses query, replay (queryPage ways entry query) [] query)
      { machine with randoms := fun n => machine.randoms (n + 1) }) :
    Returns (handle queryLevel) (mapLetters configuration query ([], [])) machine post := by
  obtain ⟨letter, rest, same⟩ := List.exists_cons_of_ne_nil nonempty
  have fits := drawnEntry_fits window (machine.randoms 0)
  have number : (firstUses query).idxOf letter = 0 := by
    rw [same]
    exact idxOf_firstUses_new (List.not_mem_nil)
  have start : baseAddress + ((machine.randoms 0 % drawableEntries configuration queryLevel) <<<
      pageTableIndexShift queryLevel) = queryPage ways entry query letter 0 := by
    rw [queryPage, number, CacheGeometry.memberPage, CacheGeometry.member_zero, drawn, drawnEntry,
      baseAddress_add isLevel_query]
  conv in mapLetters _ _ _ => rw [same]
  rw [mapLetters]
  simp only [addressMapContainsLetter, List.any_nil, Bool.false_eq_true, if_false, List.nil_append,
    getNextAddress, returns_bind, returns_drawAddress, start]
  have first : firstUses [letter] = [letter] := rfl
  have mapped : [⟨letter, queryPage ways entry query letter 0⟩] =
      replay (queryPage ways entry query) [] [letter] := rfl
  rw [← first, mapped]
  exact returns_of_evaluates (evaluates_mapLetters same (List.cons_ne_nil _ _) (drawn ▸ fits)) holds

end Mapping

/-! ## The cache after a query -/

section Resident

variable {ways entry : Nat} {query : List Nat}

theorem letterEntry_set (letter : Nat) :
    (queryGeometry ways).index (letterEntry ways entry query letter) = (queryGeometry ways).index entry :=
  CacheGeometry.member_set _ _ _

section Bounded

variable (few : ∀ letter, query.count letter ≤ 511)

include few

/-- After the query, a letter's entry is resident exactly if the letter is among
the last ones used. -/
theorem holds_after_query {letter : Nat} (known : letter ∈ query) (warm : List Nat) :
    ((queryGeometry ways).lru queryLevel).holds ((warm ++ queryAddresses ways entry query).foldl
        ((queryGeometry ways).lru queryLevel).access ((queryGeometry ways).lru queryLevel).empty)
        (queryPage ways entry query letter 511) = true ↔
      letter ∈ query.dedup.reverse.take ways := by
  have apart : ∀ first, first ∈ query -> ∀ second, second ∈ query ->
      letterEntry ways entry query first = letterEntry ways entry query second -> first = second :=
    fun first known _ _ same => letterEntry_injective known same
  have inSet : (query.map (letterEntry ways entry query)).filter (fun other =>
      (queryGeometry ways).index other = (queryGeometry ways).index (letterEntry ways entry query letter)) =
      query.map (letterEntry ways entry query) := by
    apply List.filter_eq_self.mpr
    intro other inside
    rcases List.mem_map.mp inside with ⟨letter', _, rfl⟩
    exact decide_eq_true ((letterEntry_set letter').trans (letterEntry_set letter).symm)
  simp only [decide_eq_true_eq, entryOf_queryPage (show 511 < 512 by decide)]
  rw [CacheGeometry.lru_foldl, List.map_append, List.filter_append, entries_queryAddresses few, inSet,
    mem_take_recent (List.mem_map_of_mem known), dedup_map_on _ apart, ← List.map_reverse, ← List.map_take]
  constructor
  · intro inside
    rcases List.mem_map.mp inside with ⟨other, recent, same⟩
    have inQuery : other ∈ query := List.mem_dedup.mp (List.mem_reverse.mp (List.mem_of_mem_take recent))
    rwa [← letterEntry_injective inQuery same]
  · exact List.mem_map_of_mem

end Bounded

end Resident

/-! ## The chain of a letter -/

section Measuring

variable {configuration : Configuration} {model : TranslationModel}

theorem returns_linkEntries {machine : Machine model} (idle : machine.exchanged = none) (last : Nat)
    (map : AddressMap) :
    Returns (handle queryLevel) (linkEntries last map) machine fun result final =>
      result = (map.map AddressMapEntry.address).getLastD last ∧
        Rewritten machine final (writeLinks machine.memory last (map.map AddressMapEntry.address)) := by
  induction map generalizing last machine with
  | nil => exact (returns_ret _).mpr ⟨rfl, rfl, rfl, idle, rfl⟩
  | cons mapped rest inductionHypothesis =>
      rw [linkEntries, returns_bind]
      apply (returns_writeData_idle idle).mono
      intro _ middle written
      apply (inductionHypothesis written.idle mapped.address).mono
      rintro result final ⟨same, rewritten⟩
      rw [List.map_cons, List.getLastD_cons, writeLinks, ← written.memory_eq]
      exact ⟨same, rewritten.memory_eq, rewritten.complementary_eq.trans written.complementary_eq,
        rewritten.idle, rewritten.randoms_eq.trans written.randoms_eq⟩

/-- The chain is written through the addresses of the map. -/
theorem rewritten_buildChainFromAddressMap {machine : Machine model} (idle : machine.exchanged = none) {first : Nat}
    {rest : List Nat} {map : AddressMap} (addresses : map.map AddressMapEntry.address = first :: rest) (target : Nat) :
    Returns (handle queryLevel) (buildChainFromAddressMap map target) machine fun _ final =>
      Rewritten machine final (writeChain machine.memory first rest target) := by
  have start : firstAddress map = first := by rw [firstAddress, addresses, List.headD_cons]
  have tail : map.tail.map AddressMapEntry.address = rest := by rw [List.map_tail, addresses, List.tail_cons]
  unfold buildChainFromAddressMap
  rw [start, returns_bind]
  apply (returns_linkEntries idle first map.tail).mono
  rintro last middle ⟨rfl, written⟩
  rw [tail] at written ⊢
  exact returns_closeChain machine middle written

/-- The chain runs through the addresses of the map and ends at the target. -/
theorem returns_buildChainFromAddressMap {machine : Machine model} (ready : Ready machine) {first : Nat}
    {rest : List Nat} {map : AddressMap} {target : Nat}
    (addresses : map.map AddressMapEntry.address = first :: rest)
    (links : ∀ link, link ∈ rest -> link ≠ signal) (noSignal : target ≠ signal) (distinct : (first :: rest).Nodup) :
    Returns (handle queryLevel) (buildChainFromAddressMap map target) machine fun _ final =>
      Ready final ∧ Path final.memory first (first :: rest) target := by
  apply (rewritten_buildChainFromAddressMap ready.idle addresses target).mono
  intro _ final closed
  refine ⟨⟨closed.idle, ?_⟩, ?_⟩
  · rw [closed.memory_eq, closed.complementary_eq]
    exact keptByWrites_clean.writeChain links noSignal ready.clean
  · rw [closed.memory_eq]
    exact writeChain_path _ _ _ _ distinct

variable {ways entry : Nat} {query : List Nat}

/-- One replay: the letter misses if it is not among the last ones used. -/
theorem returns_replayQuery (few : ∀ letter, query.count letter ≤ 511) {letter first : Nat} {rest : List Nat}
    (known : letter ∈ query) (addresses : queryAddresses ways entry query = first :: rest)
    {machine : Machine ((queryGeometry ways).lru queryLevel)} (ready : Ready machine)
    (path : Path machine.memory first (first :: rest) (queryPage ways entry query letter 511))
    {bound misses complementary : Nat} (enough : query.length ≤ bound) :
    Returns (handle queryLevel) (replayQuery configuration bound (queryMap ways entry query)
      (queryPage ways entry query letter 511) (walksTo (queryPage ways entry query letter 0) complementary)
      misses) machine fun result final => Ready final ∧ final.memory = machine.memory ∧
        result = if letter ∈ query.dedup.reverse.take ways then misses else misses + 1 := by
  have start : firstAddress (queryMap ways entry query) = first := by
    rw [firstAddress, show (queryMap ways entry query).map AddressMapEntry.address = first :: rest from addresses,
      List.headD_cons]
  have length : rest.length ≤ bound := by
    have counted := congrArg List.length addresses
    rw [queryAddresses, List.length_map, queryMap, replay_length, List.length_cons] at counted
    omega
  have ends : queryPage ways entry query letter 511 ∉ first :: rest := by
    rw [← addresses]
    exact stop_notMem few letter
  unfold replayQuery
  rw [start, returns_bind, returns_flushMmuCaches, returns_bind]
  apply (returns_warmUp configuration _ machine.flush).mono
  rintro _ warmed ⟨warm, touched⟩
  have warmReady := touched.ready ready.flush
  simp only [returns_bind]
  apply returns_readThrough warmReady.idle (by rw [touched.memory_eq]; exact path) ends length
  have replayed : Ready (warmed.touchAll (first :: rest)) := ⟨warmReady.idle, warmReady.clean⟩
  apply returns_observe replayed
  · rw [entryOf_queryPage (by decide), entryOf_queryPage (by decide)]
  intro value during seen swapped
  rw [returns_switchLevel_back swapped.exchanged]
  have cached : (warmed.touchAll (first :: rest)).cached = (warm ++ queryAddresses ways entry query).foldl
      ((queryGeometry ways).lru queryLevel).access ((queryGeometry ways).lru queryLevel).empty := by
    rw [addresses, List.foldl_append]
    exact congrArg (List.foldl _ · _) touched.cached_eq
  have verdict : value = signal ↔ letter ∉ query.dedup.reverse.take ways := by
    rw [seen, cached, ← holds_after_query few known warm, Bool.not_eq_true]
  refine (returns_ret _).mpr ⟨⟨rfl, (swapped.ready replayed).clean⟩, ?_, ?_⟩
  · exact swapped.memory_eq.trans touched.memory_eq
  · unfold countMiss
    by_cases survives : letter ∈ query.dedup.reverse.take ways
    · rw [if_pos survives, if_neg fun miss => verdict.mp miss survives]
    · rw [if_neg survives, if_pos (verdict.mpr survives)]

/-- All iterations agree, since each of them begins with a flush and replays the
same chain; a letter is measured as replaced always or never. -/
theorem returns_probeLetter (few : ∀ letter, query.count letter ≤ 511) (above : baseEntry queryLevel ≤ entry)
    {letter : Nat} (known : letter ∈ query) {machine : Machine ((queryGeometry ways).lru queryLevel)}
    (ready : Ready machine) {bound : Nat} (enough : query.length ≤ bound) :
    Returns (handle queryLevel) (probeLetter configuration bound (queryMap ways entry query)
      (queryPage ways entry query letter 0)) machine fun misses final => Ready final ∧
        misses = if letter ∈ query.dedup.reverse.take ways then 0 else iterations := by
  have stop : prefixAligned (queryPage ways entry query letter 0) queryLevel =
      queryPage ways entry query letter 511 := prefixAligned_pageAddress rfl
  have noSignal : ∀ other use, queryPage ways entry query other use ≠ signal := fun other use =>
    CacheGeometry.memberPage_ne_signal_of_above isLevel_query above _ use
  obtain ⟨first, rest, addresses⟩ : ∃ first rest, queryAddresses ways entry query = first :: rest := by
    apply List.exists_cons_of_ne_nil
    intro empty
    have counted := congrArg List.length empty
    rw [queryAddresses, List.length_map, queryMap, replay_length] at counted
    exact List.ne_nil_of_mem known (List.eq_nil_of_length_eq_zero counted)
  have distinct : (queryAddresses ways entry query).Nodup := queryAddresses_nodup few
  rw [addresses] at distinct
  have links : ∀ link, link ∈ rest -> link ≠ signal := by
    intro link inside
    have member : link ∈ queryAddresses ways entry query := by
      rw [addresses]
      exact List.mem_cons_of_mem _ inside
    rcases mem_queryAddresses few member with ⟨other, use, _, _, rfl⟩
    exact noSignal other use
  unfold probeLetter
  simp only [stop]
  rw [returns_bind, returns_walkPair, returns_bind]
  apply (returns_buildChainFromAddressMap ready addresses links (noSignal letter 511) distinct).mono
  rintro _ built ⟨ready, path⟩
  apply Returns.mono (returns_forRange (fun count misses (state : Machine ((queryGeometry ways).lru queryLevel)) =>
    Ready state ∧ state.memory = built.memory ∧
      misses = if letter ∈ query.dedup.reverse.take ways then 0 else count)
    0 iterations 0 built ⟨ready, rfl, (ite_self 0).symm⟩ _)
  · rintro misses final ⟨ready, _, counted⟩
    rw [Nat.zero_add] at counted
    exact ⟨ready, counted⟩
  · rintro count misses state _ _ ⟨ready, memory, rfl⟩
    rw [returns_bind]
    apply (returns_replayQuery few known addresses ready (by rw [memory]; exact path) enough).mono
    rintro _ final ⟨after, same, rfl⟩
    refine (returns_ret _).mpr ⟨_, rfl, after, same.trans memory, ?_⟩
    by_cases survives : letter ∈ query.dedup.reverse.take ways
    · rw [if_pos survives, if_pos survives, if_pos survives]
    · rw [if_neg survives, if_neg survives, if_neg survives]

/-! ## The report -/

/-- What a letter is measured with. -/
def letterMeasurement (ways : Nat) (query : List Nat) (letter : Nat) : LetterMeasurement :=
  ⟨letter, if letter ∈ query.dedup.reverse.take ways then 0 else iterations⟩

theorem residentLetters_measured (letters : List Nat) :
    residentLetters (letters.map (letterMeasurement ways query)) =
      letters.filter fun letter => letter ∈ query.dedup.reverse.take ways := by
  induction letters with
  | nil => rfl
  | cons letter rest inductionHypothesis =>
      rw [List.map_cons, letterMeasurement, residentLetters_cons, inductionHypothesis, List.filter_cons]
      by_cases survives : letter ∈ query.dedup.reverse.take ways
      · rw [if_pos survives, if_neg (by decide : ¬ reachesThreshold 0 iterations = true),
          if_pos (decide_eq_true survives)]
      · rw [if_neg survives, if_pos (by decide : reachesThreshold iterations iterations = true),
          if_neg (fun holds => survives (of_decide_eq_true holds))]

/-- The loop over the letters. -/
theorem returns_measureLetters (few : ∀ letter, query.count letter ≤ 511) (above : baseEntry queryLevel ≤ entry)
    {letters : List Nat} (known : ∀ letter, letter ∈ letters -> letter ∈ query)
    {machine : Machine ((queryGeometry ways).lru queryLevel)} (ready : Ready machine) {bound : Nat}
    (enough : query.length ≤ bound) (previous : Nat) :
    Returns (handle queryLevel) (measureLetters configuration bound (queryMap ways entry query) letters previous)
      machine fun result _ => result.1 = letters.map (letterMeasurement ways query) := by
  induction letters generalizing machine previous with
  | nil => exact (returns_ret _).mpr rfl
  | cons letter rest inductionHypothesis =>
      have inQuery := known letter List.mem_cons_self
      have target : targetOf letter (queryMap ways entry query) previous = queryPage ways entry query letter 0 := by
        rw [targetOf, queryMap, find_replay inQuery, List.count_nil]
      rw [measureLetters]
      simp only [target]
      rw [returns_bind]
      apply (returns_probeLetter few above inQuery ready enough).mono
      rintro _ final ⟨after, rfl⟩
      rw [returns_bind]
      have later := fun other (inRest : other ∈ rest) => known other (List.mem_cons_of_mem _ inRest)
      apply (inductionHypothesis later after _).mono
      rintro result final' same
      refine (returns_ret _).mpr ?_
      rw [same, List.map_cons, letterMeasurement]

/-- All measurements of a query. -/
theorem returns_measureQuery {bound : Nat} (window : UsableWindow configuration queryLevel) (nonempty : query ≠ [])
    (few : ∀ letter, query.count letter ≤ 511) (enough : query.length ≤ bound)
    (machine : Machine ((queryGeometry ways).lru queryLevel)) (ready : Ready machine) :
    Returns (handle queryLevel) (measureQuery configuration bound query) machine fun measured _ =>
      measured = (firstUses query).map (letterMeasurement ways query) := by
  unfold measureQuery
  rw [returns_bind]
  apply returns_mapLetters window nonempty rfl
  have drawnReady : Ready { machine with randoms := fun n => machine.randoms (n + 1) } :=
    ⟨ready.idle, ready.clean⟩
  rw [returns_bind]
  apply (returns_measureLetters few (Nat.le_add_right _ _) (fun letter => mem_firstUses.mp) drawnReady enough 0).mono
  intro result _ same
  exact (returns_ret _).mpr same

end Measuring

/-- `query_cache` reports, in the order of their first occurrence, exactly the
letters among the last `ways` distinct letters of the query.  The cache is the one
the query is made for, least recently used with any number of ways, in any state and
with any start address.  A letter may occur as often as an entry has pages to read
it from. -/
theorem queryCache_lru {configuration : Configuration} {ways bound : Nat}
    (window : UsableWindow configuration queryLevel) {query : List Nat} (nonempty : query ≠ [])
    (few : ∀ letter, query.count letter ≤ 511) (enough : query.length ≤ bound) (fresh : Nat -> Nat)
    (machine : Machine ((queryGeometry ways).lru queryLevel)) (ready : Ready machine) :
    Returns (handle queryLevel) (queryCache configuration bound fresh query) machine fun finalState _ =>
      let report := (firstUses query).filter fun letter => letter ∈ query.dedup.reverse.take ways
      (List.range report.length).map finalState = report ∧ finalState report.length = 0 := by
  rw [queryCache_eq, returns_bind]
  apply (returns_measureQuery window nonempty few enough machine ready).mono
  rintro _ final rfl
  rw [residentLetters_measured]
  exact (returns_ret _).mpr ⟨map_reportOf _ _, reportOf_terminator _ _⟩

/-- The query `ABCDAEFA` on four ways: `B` and `C` have been replaced. -/
theorem queryCache_lru_letters :
    Returns (handle queryLevel) (queryCache defaultConfiguration 8 (fun index => index) [65, 66, 67, 68, 65, 69, 70, 65])
      (afterTrigger ((queryGeometry 4).lru queryLevel) fun n => n * n) fun finalState _ =>
        let report := (firstUses [65, 66, 67, 68, 65, 69, 70, 65]).filter fun letter =>
          letter ∈ [65, 66, 67, 68, 65, 69, 70, 65].dedup.reverse.take 4
        (List.range report.length).map finalState = report ∧ finalState report.length = 0 :=
  queryCache_lru (usableWindow_default isLevel_query) (List.cons_ne_nil _ _)
    (fun letter => Nat.le_trans List.count_le_length (by decide)) (Nat.le_refl 8) _ _ (afterTrigger_ready _ _)

example : (firstUses [65, 66, 67, 68, 65, 69, 70, 65]).filter (fun letter =>
    letter ∈ [65, 66, 67, 68, 65, 69, 70, 65].dedup.reverse.take 4) = [65, 68, 69, 70] := by
  decide

end CacheQuery
end Talbot
