import Talbot.Results.BackingFile
import Talbot.Results.MappingCoverage
import Talbot.Results.QueryReplay

namespace Talbot

/-!
The pages that a query uses and the pages that the trigger maps.

A letter uses one more page of its entry each time it occurs, and each letter is
probed with the last page.  The trigger maps the first seven pages of an entry and
the last one, and nothing compares the two numbers.
-/

open Foundations Program Machine

/-! ## Mapped pages -/

/-- A page is mapped at the address. -/
def Mapping.Maps (mapping : Mapping) (address : Nat) : Prop :=
  ∃ page, page ∈ mapping.pages ∧ page.address = address

/-- An operation uses mapped pages only. -/
def UsesMapped (mapping : Mapping) (op : KernelOp) : Prop :=
  ∀ address, CacheQuery.accessed op = some address -> mapping.Maps address

section Pages

variable {lowerEntries value : Nat} {configuration : Configuration}

theorem maps_setupLevelsWith {base address : Nat} :
    (setupLevelsWith lowerEntries base value configuration).Maps address ↔
      (setupLevelsWith lowerEntries base value configuration).Has address value := by
  have sequential : (setupLevelsWith lowerEntries base value configuration).Sequential value :=
    sequential_setupLevelsWith lowerEntries base configuration
  constructor
  · exact fun ⟨page, inside, same⟩ => ⟨page, inside, same, sequential.values page inside⟩
  · exact fun ⟨page, inside, same, _⟩ => ⟨page, inside, same⟩

theorem pageAddress_lower (entry i : Nat) :
    pageAddress 2 (baseEntry 2 + entry) i = lowerEntryAddress baseAddress 2 entry i := by
  rw [← pageAddress_add, ← baseAddress_add (by decide), lowerEntryAddress]

/-- An entry of the window has the pages that the first loop maps. -/
theorem maps_page {entry i : Nat} (inside : entry < configuration.pageTableEntries 2)
    (included : Included lowerEntries 0 i) :
    (setupLevelsWith lowerEntries baseAddress value configuration).Maps (pageAddress 2 (baseEntry 2 + entry) i) := by
  rw [pageAddress_lower]
  exact maps_setupLevelsWith.mpr (has_setupLevelsWith.mpr (Or.inl (Or.inl ⟨entry, inside, i, included, rfl⟩)))

/-- The other loops only map first pages of level-2 entries. -/
theorem not_maps_page {entry i : Nat} (few : lowerEntries ≤ i) (positive : 0 < i) (small : i < 511)
    (lower : lowerEntries ≤ 511) :
    ¬ (setupLevelsWith lowerEntries baseAddress value configuration).Maps
      (pageAddress 2 (baseEntry 2 + entry) i) := by
  rw [pageAddress_lower, maps_setupLevelsWith, has_setupLevelsWith, lowerEntryAddress_eq (by decide)]
  rintro ((⟨other, _, j, included, same⟩ | ⟨other, _, _, j, included, same⟩) | ⟨other, _, _, j, included, same⟩)
  all_goals
    rw [lowerEntryAddress_eq (by decide)] at same
    simp only [pageTableIndexShift, Nat.reduceSub, Nat.reducePow] at same
    rcases included with ⟨_, below⟩ | rfl <;> omega

end Pages

namespace CacheQuery

/-! ## The addresses of a run -/

section Accesses

variable {configuration : Configuration} {addresses : List Nat} {op : KernelOp} {address : Nat}

/-- What an operation of a query may access. -/
def QueryAccess (configuration : Configuration) (addresses : List Nat) (stop address : Nat) : Prop :=
  address ∈ addresses ∨ address = stop ∨ ∃ index, index < configuration.pageTableEntries queryLevel ∧
    address = baseAddress + (index <<< pageTableIndexShift queryLevel)

theorem accessed_chainWrites {stop : Nat} (inside : op ∈ chainWrites stop addresses)
    (accesses : accessed op = some address) : address ∈ addresses := by
  induction addresses with
  | nil => exact (List.not_mem_nil inside).elim
  | cons first rest inductionHypothesis =>
      cases rest with
      | nil =>
          rw [List.mem_singleton.mp inside] at accesses
          rw [← Option.some.inj accesses]
          exact List.mem_cons_self
      | cons next later =>
          rcases List.mem_cons.mp inside with rfl | inside
          · rw [← Option.some.inj accesses]
            exact List.mem_cons_self
          · exact List.mem_cons_of_mem _ (inductionHypothesis inside)

/-- Every address of a chain is written. -/
theorem chainWrites_writes (stop : Nat) (inside : address ∈ addresses) :
    ∃ data, KernelOp.writeData address data ∈ chainWrites stop addresses := by
  induction addresses with
  | nil => exact (List.not_mem_nil inside).elim
  | cons first rest inductionHypothesis =>
      cases rest with
      | nil =>
          rw [List.mem_singleton.mp inside]
          exact ⟨stop, List.mem_cons_self⟩
      | cons next later =>
          rcases List.mem_cons.mp inside with rfl | inside
          · exact ⟨next, List.mem_cons_self⟩
          · rcases inductionHypothesis inside with ⟨data, known⟩
            exact ⟨data, List.mem_cons_of_mem _ known⟩

theorem ReplayIssues.access {stop : Nat} {issued : List KernelOp}
    (replays : ReplayIssues configuration addresses stop issued)
    (inside : op ∈ issued) (accesses : accessed op = some address) :
    QueryAccess configuration addresses stop address := by
  rcases replays with ⟨warm, first, second, warms, rfl⟩
  simp only [List.mem_cons, List.mem_append, List.mem_map, List.not_mem_nil, or_false] at inside
  rcases inside with rfl | (inside | ⟨node, known, rfl⟩) | rfl | rfl | rfl
  · cases accesses
  · rcases warms op inside with rfl | ⟨index, small, rfl⟩
    · cases accesses
    · exact Or.inr (Or.inr ⟨index, small, (Option.some.inj accesses).symm⟩)
  · exact Or.inl (Option.some.inj accesses ▸ known)
  · cases accesses
  · exact Or.inr (Or.inl (Option.some.inj accesses).symm)
  · cases accesses

theorem LetterIssues.access {stop : Nat} {issued : List KernelOp}
    (letter : LetterIssues configuration addresses stop issued)
    (inside : op ∈ issued) (accesses : accessed op = some address) :
    QueryAccess configuration addresses stop address := by
  rcases letter with ⟨walks, replays, quiet, _, each, rfl⟩
  rcases List.mem_append.mp inside with early | replayed
  · rcases List.mem_append.mp early with walk | write
    · exact absurd ((quiet op walk).symm.trans accesses) (Option.some_ne_none _).symm
    · exact Or.inl (accessed_chainWrites write accesses)
  · rcases List.mem_flatten.mp replayed with ⟨replay, known, inside⟩
    exact (each replay known).access inside accesses

/-- Every measurement belongs to a letter. -/
theorem measures {measure : Nat -> List KernelOp -> Prop} {letters : List Nat} {measured : List (List KernelOp)}
    (each : List.Forall₂ measure letters measured) {ops : List KernelOp} (known : ops ∈ measured) :
    ∃ letter, letter ∈ letters ∧ measure letter ops := by
  induction each with
  | nil => exact (List.not_mem_nil known).elim
  | cons first _ inductionHypothesis =>
      rcases List.mem_cons.mp known with rfl | later
      · exact ⟨_, List.mem_cons_self, first⟩
      · rcases inductionHypothesis later with ⟨letter, inside, measure⟩
        exact ⟨letter, List.mem_cons_of_mem _ inside, measure⟩

theorem QueryIssues.access {stops : Nat -> Nat} {letters : List Nat} {issued : List KernelOp}
    (query : QueryIssues configuration addresses stops letters issued) (inside : op ∈ issued)
    (accesses : accessed op = some address) :
    ∃ letter, letter ∈ letters ∧ QueryAccess configuration addresses (stops letter) address := by
  rcases query with ⟨mapping, measured, quiet, each, rfl⟩
  rcases List.mem_append.mp inside with early | later
  · exact absurd ((quiet op early).symm.trans accesses) (Option.some_ne_none _).symm
  · rcases List.mem_flatten.mp later with ⟨ops, known, inside⟩
    rcases measures each known with ⟨letter, inLetters, issues⟩
    exact ⟨letter, inLetters, issues.access inside accesses⟩

end Accesses

/-! ## The pages of a query -/

section Query

variable {query : List Nat} {entry : Nat}

/-- A letter that occurs more often than `use` times has the page with this number. -/
theorem queryPage_mem {letter use : Nat} (uses : use < query.count letter) :
    queryPage queryWays entry query letter use ∈ queryAddresses queryWays entry query := by
  have split : ∀ read rest, query = read ++ rest -> read.count letter ≤ use ->
      queryPage queryWays entry query letter use ∈
        (replay (queryPage queryWays entry query) read rest).map AddressMapEntry.address := by
    intro read rest same early
    induction rest generalizing read with
    | nil =>
        rw [List.append_nil] at same
        rw [same] at uses
        omega
    | cons first rest inductionHypothesis =>
        rw [replay, List.map_cons]
        by_cases here : first = letter ∧ read.count letter = use
        · rcases here with ⟨rfl, rfl⟩
          exact List.mem_cons_self
        · refine List.mem_cons_of_mem _ (inductionHypothesis (read ++ [first]) ?_ ?_)
          · rw [same, List.append_assoc, List.singleton_append]
          · rw [List.count_append, List.count_singleton]
            by_cases equal : first = letter
            · have differ : read.count letter ≠ use := fun count => here ⟨equal, count⟩
              split <;> omega
            · rw [if_neg fun same => equal (beq_iff_eq.mp same)]
              exact early
  exact split [] query rfl (Nat.zero_le _)

/-- The letters of a string of bytes are few. -/
theorem number_lt (bytes : ∀ letter, letter ∈ query -> letter < 256) {letter : Nat} (known : letter ∈ query) :
    (firstUses query).idxOf letter < 256 := by
  have subset : firstUses query ⊆ List.range 256 := fun other inside =>
    List.mem_range.mpr (bytes other (mem_firstUses.mp inside))
  calc
    (firstUses query).idxOf letter < (firstUses query).length := List.idxOf_lt_length_of_mem (mem_firstUses.mpr known)
    _ ≤ (List.range 256).length := ((firstUses_nodup query).subperm subset).length_le
    _ = 256 := List.length_range

/-- The mapping of the base window by the trigger. -/
def baseMapping : Mapping :=
  setupLevels baseAddress 0 defaultConfiguration

/-- The pages of a letter lie in an entry behind the base address. -/
theorem queryPage_entry (query : List Nat) (letter random : Nat) :
    ∃ index, letterEntry queryWays (drawnEntry defaultConfiguration queryLevel random) query letter =
        baseEntry queryLevel + index ∧
      ∀ use, queryPage queryWays (drawnEntry defaultConfiguration queryLevel random) query letter use =
        pageAddress 2 (baseEntry 2 + index) use := by
  have above : baseEntry queryLevel ≤
      letterEntry queryWays (drawnEntry defaultConfiguration queryLevel random) query letter := by
    calc
      baseEntry queryLevel ≤ drawnEntry defaultConfiguration queryLevel random := Nat.le_add_right _ _
      _ = (queryGeometry queryWays).member (drawnEntry defaultConfiguration queryLevel random) 0 :=
          (CacheGeometry.member_zero _ _).symm
      _ ≤ _ := ((queryGeometry queryWays).hash.entry_strictMono _ _).monotone (Nat.zero_le _)
  rcases Nat.exists_eq_add_of_le above with ⟨index, place⟩
  exact ⟨index, place, fun use => congrArg (fun entry => pageAddress 2 entry use) place⟩

/-- The pages of a letter that are mapped, whatever start entry is drawn. -/
theorem maps_queryPage (bytes : ∀ letter, letter ∈ query -> letter < 256) {letter : Nat} (known : letter ∈ query)
    (random : Nat) {use : Nat} (included : Included 7 0 use) :
    baseMapping.Maps
      (queryPage queryWays (drawnEntry defaultConfiguration queryLevel random) query letter use) := by
  have start : random % drawableEntries defaultConfiguration queryLevel <
      drawableEntries defaultConfiguration queryLevel := Nat.mod_lt _ (by decide)
  have below := @letterEntry_lt_default queryWays query _ letter start (number_lt bytes known)
  rcases queryPage_entry query letter random with ⟨index, place, page⟩
  rw [drawnEntry] at place
  rw [place] at below
  rw [page]
  exact maps_page (Nat.lt_of_add_lt_add_left below) included

/-- The eighth page of a letter is never mapped. -/
theorem not_maps_queryPage (letter random : Nat) :
    ¬ baseMapping.Maps
      (queryPage queryWays (drawnEntry defaultConfiguration queryLevel random) query letter 7) := by
  rcases queryPage_entry query letter random with ⟨index, _, page⟩
  rw [page]
  exact not_maps_page (Nat.le_refl 7) (by decide) (by decide) (by decide)

end Query

/-! ## The queries that stay on mapped pages -/

section Verdict

variable {model : TranslationModel} {query : List Nat} {bound : Nat} {fresh : Nat -> Nat} {machine : Machine model}

/-- Measuring a letter starts with writing the chain. -/
theorem issues_probeLetter (idle : machine.exchanged = none) {map : AddressMap} {target : Nat} {op : KernelOp}
    (written : op ∈ chainWrites (prefixAligned target queryLevel) (map.map AddressMapEntry.address)) :
    Issues (handle queryLevel) (probeLetter defaultConfiguration bound map target) machine op := by
  have walked : Returns (handle queryLevel) (walkPair target (complementaryOf target)) machine
      fun _ final => final = machine := returns_walkPair.mpr rfl
  refine walked.issues_bind ?_
  rintro walks _ rfl
  apply Issues.bind
  cases addresses : map.map AddressMapEntry.address with
  | nil =>
      rw [addresses] at written
      exact (List.not_mem_nil written).elim
  | cons start rest =>
      rcases (traces_buildChainFromAddressMap idle addresses (prefixAligned target queryLevel)).issued with
        ⟨_, _, _, ⟨_, rfl⟩, same⟩
      rw [addresses] at written
      exact (same op).mpr written

/-- The first letter has every address of the query written. -/
theorem issues_queryCache (nonempty : query ≠ []) (idle : machine.exchanged = none) {address : Nat}
    (inside : address ∈ queryAddresses queryWays (drawnEntry defaultConfiguration queryLevel (machine.randoms 0)) query) :
    ∃ data, Issues (handle queryLevel) (queryCache defaultConfiguration bound fresh query) machine
      (.writeData address data) := by
  have mapped : Returns (handle queryLevel) (mapLetters defaultConfiguration query ([], [])) machine fun state final =>
      state = (firstUses query, queryMap queryWays
        (drawnEntry defaultConfiguration queryLevel (machine.randoms 0)) query) ∧ final.exchanged = none :=
    returns_mapLetters (usableWindow_default isLevel_query) nonempty rfl ⟨rfl, idle⟩
  have known : query.head nonempty ∈ firstUses query := mem_firstUses.mpr (List.head_mem nonempty)
  rcases List.exists_cons_of_ne_nil (List.ne_nil_of_mem known) with ⟨letter, letters, first⟩
  rcases chainWrites_writes (prefixAligned (targetOf letter (queryMap queryWays
    (drawnEntry defaultConfiguration queryLevel (machine.randoms 0)) query) 0) queryLevel) inside with ⟨data, written⟩
  refine ⟨data, ?_⟩
  rw [queryCache_eq]
  apply Issues.bind
  refine mapped.issues_bind ?_
  rintro _ ready ⟨rfl, readyIdle⟩
  apply Issues.bind
  rw [first, measureLetters]
  apply Issues.bind
  exact issues_probeLetter readyIdle written

/-- If no letter needs more pages than are mapped, only mapped pages are used. -/
theorem usesMapped_of_few (bytes : ∀ letter, letter ∈ query -> letter < 256) (enough : query.length ≤ bound)
    (idle : machine.exchanged = none) (few : ∀ letter, query.count letter ≤ 7) {op : KernelOp}
    (issues : Issues (handle queryLevel) (queryCache defaultConfiguration bound fresh query) machine op) :
    UsesMapped baseMapping op := by
  by_cases empty : query = []
  · have nothing : queryCache defaultConfiguration bound fresh [] = ret (reportOf fresh []) := by
      rw [queryCache_eq]
      rfl
    rw [empty, nothing] at issues
    exact absurd issues issues_ret
  · have traces := traces_queryCache (usableWindow_default isLevel_query) empty
      (fun letter => Nat.le_trans (few letter) (by decide)) enough fresh idle rfl
    rcases traces.issued with ⟨_, _, issued, known, same⟩
    intro address accesses
    rcases known.access ((same op).mp issues) accesses with ⟨letter, inLetters, access⟩
    rcases access with inside | stop | ⟨index, small, warm⟩
    · rcases List.mem_map.mp inside with ⟨mapped, known, rfl⟩
      rcases mem_replay known with ⟨inQuery, use, _, below, place⟩
      rw [place]
      exact maps_queryPage bytes inQuery _ (Or.inl ⟨Nat.zero_le _, Nat.lt_of_lt_of_le below (few _)⟩)
    · rw [stop]
      exact maps_queryPage bytes (mem_firstUses.mp inLetters) _ (Or.inr rfl)
    · rw [warm, baseAddress_add isLevel_query]
      exact maps_page small (Or.inl ⟨Nat.le_refl 0, by decide⟩)

/-- A letter that occurs more often uses a page that is not mapped. -/
theorem few_of_usesMapped (idle : machine.exchanged = none)
    (uses : ∀ op, Issues (handle queryLevel) (queryCache defaultConfiguration bound fresh query) machine op ->
      UsesMapped baseMapping op) (letter : Nat) : query.count letter ≤ 7 := by
  by_contra many
  have nonempty : query ≠ [] := by
    rintro rfl
    exact many (Nat.zero_le 7)
  rcases issues_queryCache nonempty idle (queryPage_mem (Nat.lt_of_not_le many)) with ⟨data, issues⟩
  exact not_maps_queryPage letter _ (uses _ issues _ rfl)

end Verdict

/-- For every query and every start address that is drawn, the query accesses mapped
pages only exactly if no letter occurs more than seven times.  The mapping is the
one of the trigger of CacheQuery, with the sizes it ships with.  Every repetition of
a letter is read from the next page of its entry, of which the trigger maps the
first ones only. -/
theorem queryCache_usesMapped_iff {model : TranslationModel} {query : List Nat}
    (bytes : ∀ letter, letter ∈ query -> letter < 256) {bound : Nat} (enough : query.length ≤ bound)
    (fresh : Nat -> Nat) (machine : Machine model) (idle : machine.exchanged = none) :
    (∀ op, Issues (handle queryLevel) (queryCache defaultConfiguration bound fresh query) machine op ->
      UsesMapped (setupLevels baseAddress 0 defaultConfiguration) op) ↔
    ∀ letter, query.count letter ≤ 7 :=
  ⟨few_of_usesMapped idle, fun few _ issues => usesMapped_of_few bytes enough idle few issues⟩

/-- The query `ABCDAEFA`. -/
theorem queryCache_usesMapped_iff_letters :
    (∀ op, Issues (handle queryLevel)
      (queryCache defaultConfiguration 8 (fun _ => 0) [65, 66, 67, 68, 65, 69, 70, 65]) squares op ->
      UsesMapped (setupLevels baseAddress 0 defaultConfiguration) op) ↔
    ∀ letter, [65, 66, 67, 68, 65, 69, 70, 65].count letter ≤ 7 :=
  queryCache_usesMapped_iff (by decide) (Nat.le_refl 8) (fun _ => 0) squares rfl

/-- The query `AAAAAAAA` accesses a page that is not mapped. -/
theorem queryCache_uses_unmapped :
    ¬ ∀ op, Issues (handle queryLevel) (queryCache defaultConfiguration 8 (fun _ => 0) (List.replicate 8 65)) squares op ->
      UsesMapped (setupLevels baseAddress 0 defaultConfiguration) op := by
  intro uses
  have few := few_of_usesMapped rfl uses 65
  rw [List.count_replicate_self] at few
  exact absurd few (by decide)

end CacheQuery
end Talbot
