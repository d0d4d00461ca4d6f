import Talbot.Machine.EvictionSearch
import Talbot.Machine.TranslationCaches
import Mathlib.Data.Finset.Card

namespace Talbot

/-!
What `find_minimal_eviction_set` leaves in memory when the measurement is a
monotone predicate on the set of addresses that the chain visits.

After the first mandatory link the deletion loop writes beside the chain, so
nothing else is ever deleted.  The chain that stays behind goes from the target
over that link up to the last one, while the returned size is always three.
-/

open Foundations Program

/-- Follow the chain as `chain_evicts` does, collecting the addresses. -/
def visitChain (bound start stop : Nat) : Kernel (List Nat) := do
  let (_, visited) ← whileLoop (fun (p, _) => p != stop) (fun (p, visited) => do
    let next ← readData p
    return (next, visited ++ [p])) bound (start, [])
  return visited

/-- The measurement that answers a predicate of the visited addresses.  It follows
the chain in memory as `chain_evicts` does, so what the search has deleted from the
chain is not among them. -/
def visitedEvicts (bound : Nat) (evicts : Finset Nat -> Bool) : ChainMeasurement :=
  fun targetAddress prefixAlignedAddress _ => do
    let visited ← visitChain bound targetAddress prefixAlignedAddress
    return evicts visited.toFinset

/-- The answer for the tail of a chain. -/
def tailEvicts (evicts : Finset Nat -> Bool) (targetAddress level length first : Nat) : Bool :=
  evicts (tailChain targetAddress level length first).toFinset

/-- The addresses on the chain that `build_pointer_chain` builds. -/
def builtChain (configuration : Configuration) (targetAddress level length : Nat) : List Nat :=
  targetAddress :: Machine.keptLinks configuration level (Machine.linearLinks targetAddress length level)

/-- Visiting more addresses never stops an eviction. -/
def MonotoneEviction (evicts : Finset Nat -> Bool) : Prop :=
  ∀ smaller larger, smaller ⊆ larger -> evicts smaller = true -> evicts larger = true

/-- No chain with fewer than two links evicts.  The search begins with chains of two
links, and could not find a smaller set. -/
def NeedsTwoLinks (evicts : Finset Nat -> Bool) (targetAddress : Nat) : Prop :=
  ∀ link, evicts {targetAddress, link} = false

/-- The chain in memory evicts, has `size` addresses, and none of its links can
be left out. -/
structure LeavesMinimalChain (evicts : Finset Nat -> Bool) (memory : Nat -> Nat)
    (targetAddress stop size : Nat) (visited : List Nat) : Prop where
  path : Path memory targetAddress visited stop
  ends : stop ∉ visited
  evicting : evicts visited.toFinset = true
  counted : visited.toFinset.card = size
  minimal : ∀ link, link ∈ visited -> link ≠ targetAddress ->
    evicts (visited.toFinset.erase link) = false

/-- What the search is meant to return and to leave in memory: nothing if no chain
up to 511 links evicts, and otherwise the size of a chain that evicts and none of
whose links can be left out. -/
structure FindsMinimalEvictionSet (configuration : Configuration) (evicts : Finset Nat -> Bool)
    (targetAddress level : Nat) (memory : Nat -> Nat) (result : Option Nat) : Prop where
  missing : result = none ↔
    ∀ length, length < 512 -> evicts (builtChain configuration targetAddress level length).toFinset = false
  minimal : ∀ size, result = some size -> ∃ visited,
    LeavesMinimalChain evicts memory targetAddress (prefixAligned targetAddress level) size visited

/-- Whenever the link `length` is the one that makes the chain evict, the target
and the last two links evict on their own. -/
def LastTwoSuffice (configuration : Configuration) (evicts : Finset Nat -> Bool)
    (targetAddress level : Nat) : Prop :=
  ∀ length, 1 ≤ length -> length < 512 ->
    evicts (builtChain configuration targetAddress level length).toFinset = true ->
    evicts (builtChain configuration targetAddress level (length - 1)).toFinset = false ->
    evicts {targetAddress, chainLink targetAddress level (length - 1),
      chainLink targetAddress level length} = true

namespace Machine

variable {model : TranslationModel} {level : Nat}

/-- The predicate of the measurement says nothing about the memory. -/
def anyMemory : MemoryProperty :=
  fun _ _ => True

theorem keptByWrites_anyMemory (allowed : Nat -> Prop) : KeptByWrites anyMemory allowed :=
  fun _ _ _ _ _ _ => trivial

private theorem returns_visitLoop {machine : Machine model} {bound start stop : Nat}
    {nodes : List Nat} (before : List Nat) (idle : machine.exchanged = none)
    (path : Path machine.memory start nodes stop) (ends : stop ∉ nodes) (enough : nodes.length ≤ bound) :
    Returns (handle level) (whileLoop (fun (p, _) => p != stop) (fun (p, visited) => do
      let next ← readData p
      return (next, visited ++ [p])) bound (start, before)) machine fun result final =>
        result.2 = before ++ nodes ∧ SameMemory machine final := by
  induction nodes generalizing machine bound start before with
  | nil =>
      obtain rfl : start = stop := path
      rw [whileLoop_stop, returns_ret]
      · exact ⟨(List.append_nil before).symm, SameMemory.refl idle⟩
      · exact bne_self_eq_false start
  | cons node rest inductionHypothesis =>
      obtain ⟨rfl, path⟩ := path
      obtain ⟨bound, rfl⟩ : ∃ smaller, bound = smaller + 1 := ⟨bound - 1, by
        rw [List.length_cons] at enough
        omega⟩
      have current : machine.content level start = machine.memory start :=
        content_of_idle idle
      rw [whileLoop_next ?continues]
      case continues => exact bne_iff_ne.mpr fun same => ends (same ▸ List.mem_cons_self)
      rw [returns_bind, returns_bind, returns_readData, current]
      refine (returns_ret _).mpr ?_
      have touched : Path (machine.touch start).memory (machine.memory start) rest stop := path
      have stillIdle : (machine.touch start).exchanged = none := idle
      apply (inductionHypothesis (before ++ [start]) stillIdle touched
        (fun member => ends (List.mem_cons_of_mem _ member)) (Nat.le_of_succ_le_succ enough)).mono
      rintro result final ⟨visited, same⟩
      rw [List.append_assoc, List.singleton_append] at visited
      have first : SameMemory machine (machine.touch start) := ⟨rfl, rfl, idle, rfl⟩
      exact ⟨visited, first.trans same⟩

theorem returns_visitChain {machine : Machine model} {bound start stop : Nat} {nodes : List Nat}
    (idle : machine.exchanged = none) (path : Path machine.memory start nodes stop) (ends : stop ∉ nodes)
    (enough : nodes.length ≤ bound) :
    Returns (handle level) (visitChain bound start stop) machine fun visited final =>
      visited = nodes ∧ SameMemory machine final := by
  unfold visitChain
  rw [returns_bind]
  apply (returns_visitLoop [] idle path ends enough).mono
  rintro result final ⟨visited, same⟩
  exact (returns_ret _).mpr ⟨visited, same⟩

/-- The predicate on visited addresses is a measurement of tails. -/
theorem measuresTails_visitedEvicts (isLevel : IsLevel level) (evicts : Finset Nat -> Bool)
    {bound limit : Nat} (targetAddress : Nat) (enough : limit + 1 ≤ bound) :
    MeasuresTails model anyMemory (visitedEvicts bound evicts) (tailEvicts evicts targetAddress level)
      targetAddress level limit := by
  intro machine length first small positive room holds
  unfold visitedEvicts
  rw [returns_bind]
  have ends := prefixAligned_not_mem_tailChain isLevel targetAddress length first
  have short : (tailChain targetAddress level length first).length ≤ bound := by
    rw [tailChain_length]
    omega
  apply (returns_visitChain holds.idle (holds.path positive room) ends short).mono
  rintro visited final ⟨rfl, same⟩
  exact (returns_ret _).mpr ⟨rfl, same⟩

end Machine

/-! ## When the remaining chain is minimal -/

section Minimality

variable {evicts : Finset Nat -> Bool} {targetAddress level : Nat}

theorem tailChain_last_two {length : Nat} (lower : 2 ≤ length) :
    tailChain targetAddress level length (length - 1) =
      [targetAddress, chainLink targetAddress level (length - 1), chainLink targetAddress level length] := by
  obtain ⟨count, rfl⟩ := Nat.exists_eq_add_of_le lower
  rw [show 2 + count - 1 = count + 1 by omega, tailChain_step (by omega),
    show 2 + count + 1 - (count + 1 + 1) = 1 by omega, show 2 + count = count + 1 + 1 by omega]
  rfl

theorem tailChain_last (length : Nat) :
    tailChain targetAddress level length length =
      [targetAddress, chainLink targetAddress level length] := by
  rw [tailChain_step (Nat.lt_succ_self _), Nat.sub_self]
  rfl

theorem tailEvicts_monotone (monotone : MonotoneEviction evicts) {length first length' first' : Nat}
    (lower : first' ≤ first) (upper : length ≤ length')
    (holds : tailEvicts evicts targetAddress level length first = true) :
    tailEvicts evicts targetAddress level length' first' = true := by
  apply monotone _ _ _ holds
  intro address member
  rw [List.mem_toFinset, mem_tailChain] at member ⊢
  rcases member with same | ⟨index, low, high, same⟩
  · exact Or.inl same
  · exact Or.inr ⟨index, by omega, by omega, same⟩

theorem tailEvicts_last (needsTwo : NeedsTwoLinks evicts targetAddress) (length : Nat) :
    tailEvicts evicts targetAddress level length length = false := by
  unfold tailEvicts
  simp only [tailChain_last, List.toFinset_cons, List.toFinset_nil, insert_empty_eq]
  exact needsTwo _

/-- A chain with one link does not evict, so the deletion loop meets a
mandatory link before it has deleted all links but the last. -/
theorem exists_firstMandatory {length : Nat} {state : DeletionState} {model : TranslationModel}
    {final : Machine model} (needsTwo : NeedsTwoLinks evicts targetAddress) (lower : 2 ≤ length)
    (whole : tailEvicts evicts targetAddress level length 1 = true)
    (deleted : Machine.DeletionInvariant Machine.anyMemory (tailEvicts evicts targetAddress level)
      targetAddress level length length state final) :
    ∃ first, first < length ∧ state.size = 3 ∧
      Machine.FirstMandatory (tailEvicts evicts targetAddress level) length first ∧
      Machine.HoldsTail Machine.anyMemory final targetAddress level length first := by
  rcases deleted with ⟨_, deletable, _⟩ | ⟨first, earlier, rfl, mandatory, holds⟩
  · have single := deletable.evicts whole (Nat.le_of_lt lower)
    rw [tailEvicts_last needsTwo] at single
    cases single
  · exact ⟨first, earlier, rfl, mandatory, holds⟩

/-- A path to an address it does not visit is the only one. -/
theorem LeavesMinimalChain.visited_eq {memory : Nat -> Nat} {stop size : Nat} {visited nodes : List Nat}
    (minimal : LeavesMinimalChain evicts memory targetAddress stop size visited)
    (path : Path memory targetAddress nodes stop) (ends : stop ∉ nodes) : visited = nodes :=
  minimal.path.unique path minimal.ends ends

variable {configuration : Configuration} {model : TranslationModel} {final : Machine model}
  {result : Option Nat}

variable (evicts) in
theorem builtChain_evicts (room : Machine.RoomAbove configuration targetAddress level 511)
    {length : Nat} (short : length < 512) :
    evicts (builtChain configuration targetAddress level length).toFinset =
      tailEvicts evicts targetAddress level length 1 := by
  rw [builtChain, Machine.keptLinks_linear room (by omega)]
  rfl

/-- Leaving out one of two links leaves a chain with one. -/
theorem last_two_minimal (monotone : MonotoneEviction evicts)
    (needsTwo : NeedsTwoLinks evicts targetAddress) {length : Nat} (lower : 2 ≤ length) :
    ∀ link, link ∈ tailChain targetAddress level length (length - 1) -> link ≠ targetAddress ->
      evicts ((tailChain targetAddress level length (length - 1)).toFinset.erase link) = false := by
  intro link member other
  rw [tailChain_last_two lower] at member ⊢
  obtain ⟨remaining, rest⟩ : ∃ remaining,
      [targetAddress, chainLink targetAddress level (length - 1),
        chainLink targetAddress level length].toFinset.erase link ⊆ {targetAddress, remaining} := by
    simp only [List.mem_cons, other, false_or, List.not_mem_nil, or_false] at member
    simp only [List.toFinset_cons, List.toFinset_nil, insert_empty_eq, Finset.subset_iff,
      Finset.mem_erase, Finset.mem_insert, Finset.mem_singleton]
    rcases member with rfl | rfl
    · exact ⟨chainLink targetAddress level length, by tauto⟩
    · exact ⟨chainLink targetAddress level (length - 1), by tauto⟩
  rw [← Bool.not_eq_true]
  intro evicting
  have pair := monotone _ _ rest evicting
  rw [needsTwo] at pair
  cases pair

theorem tailEvicts_short (needsTwo : NeedsTwoLinks evicts targetAddress) {length : Nat}
    (short : length < 2) : tailEvicts evicts targetAddress level length 1 = false := by
  rcases Nat.lt_succ_iff_lt_or_eq.mp short with none | rfl
  · obtain rfl : length = 0 := by omega
    have alone := needsTwo targetAddress
    rwa [Finset.pair_eq_singleton] at alone
  · exact tailEvicts_last needsTwo 1

/-- Below the shortest evicting length nothing evicts. -/
theorem tailEvicts_shorter (needsTwo : NeedsTwoLinks evicts targetAddress) {length shorter : Nat}
    (shortest : ∀ shorter, 2 ≤ shorter -> shorter < length ->
      tailEvicts evicts targetAddress level shorter 1 = false)
    (below : shorter < length) : tailEvicts evicts targetAddress level shorter 1 = false := by
  rcases Nat.lt_or_ge shorter 2 with short | long
  · exact tailEvicts_short needsTwo short
  · exact shortest shorter long below

/-- If the target and the last two links suffice, the chain left behind is exactly
these three addresses.  Deleting a link before the last two does not hurt then, so
the first one that is found mandatory is the last but one. -/
theorem findsMinimal_of_lastTwoSuffice (isLevel : IsLevel level) (monotone : MonotoneEviction evicts)
    (needsTwo : NeedsTwoLinks evicts targetAddress)
    (room : Machine.RoomAbove configuration targetAddress level 511)
    (suffice : LastTwoSuffice configuration evicts targetAddress level)
    (outcome : Machine.SearchOutcome Machine.anyMemory (tailEvicts evicts targetAddress level) targetAddress level
      result final) :
    FindsMinimalEvictionSet configuration evicts targetAddress level final.memory result := by
  cases outcome with
  | nothing missing none_evicts =>
      refine ⟨⟨fun _ length short => ?_, fun _ => missing⟩, ?_⟩
      · rw [builtChain_evicts evicts room short]
        exact tailEvicts_shorter needsTwo none_evicts short
      · intro size same
        rw [missing] at same
        cases same
  | found length state counted lower upper whole shortest deleted =>
      obtain ⟨first, earlier, three, mandatory, holds⟩ :=
        exists_firstMandatory needsTwo lower whole deleted
      have lastTwo : tailEvicts evicts targetAddress level length (length - 1) = true := by
        have enough := suffice length (by omega) upper (by rw [builtChain_evicts evicts room upper, whole])
          (by rw [builtChain_evicts evicts room (by omega)]; exact tailEvicts_shorter needsTwo shortest (by omega))
        unfold tailEvicts
        simp only [tailChain_last_two lower, List.toFinset_cons, List.toFinset_nil, insert_empty_eq]
        exact enough
      obtain rfl : first = length - 1 := by
        by_contra different
        have still := tailEvicts_monotone monotone (show first + 1 ≤ length - 1 by omega) (Nat.le_refl _) lastTwo
        rw [mandatory.mandatory] at still
        cases still
      have path := holds.path (by omega) (by omega)
      have ends := prefixAligned_not_mem_tailChain isLevel targetAddress length (length - 1)
      refine ⟨⟨fun impossible => ?_, fun none_evicts => ?_⟩, ?_⟩
      · rw [counted] at impossible
        cases impossible
      · have no := none_evicts length upper
        rw [builtChain_evicts evicts room upper, whole] at no
        cases no
      · intro size same
        rw [counted, three] at same
        cases same
        refine ⟨_, path, ends, lastTwo, ?_, ?_⟩
        · rw [List.toFinset_card_of_nodup (tailChain_nodup isLevel targetAddress length _ (by omega)),
            tailChain_length]
          omega
        · exact last_two_minimal monotone needsTwo lower

/-- Conversely, the size three is only right for a chain of three addresses. Two
links cannot both be the first that makes the chain evict, so the chain that was
grown and the one of the claim have the same length. -/
theorem lastTwoSuffice_of_findsMinimal (isLevel : IsLevel level) (monotone : MonotoneEviction evicts)
    (needsTwo : NeedsTwoLinks evicts targetAddress)
    (room : Machine.RoomAbove configuration targetAddress level 511)
    (outcome : Machine.SearchOutcome Machine.anyMemory (tailEvicts evicts targetAddress level) targetAddress level
      result final)
    (finds : FindsMinimalEvictionSet configuration evicts targetAddress level final.memory result) :
    LastTwoSuffice configuration evicts targetAddress level := by
  intro length positive short whole before
  rw [builtChain_evicts evicts room short] at whole
  rw [builtChain_evicts evicts room (by omega)] at before
  cases outcome with
  | nothing missing none_evicts =>
      rw [tailEvicts_shorter needsTwo none_evicts short] at whole
      cases whole
  | found length' state counted lower upper whole' shortest deleted =>
      obtain ⟨first, earlier, three, mandatory, holds⟩ :=
        exists_firstMandatory needsTwo lower whole' deleted
      obtain rfl : length = length' := by
        apply Nat.le_antisymm
        · by_contra longer
          rw [tailEvicts_monotone monotone (Nat.le_refl 1) (show length' ≤ length - 1 by omega) whole']
            at before
          cases before
        · by_contra shorter
          rw [tailEvicts_shorter needsTwo shortest (show length < length' by omega)] at whole
          cases whole
      obtain ⟨visited, minimal⟩ := finds.minimal state.size counted
      obtain rfl := minimal.visited_eq (holds.path mandatory.positive (by omega))
        (prefixAligned_not_mem_tailChain isLevel targetAddress length first)
      have size := minimal.counted
      rw [List.toFinset_card_of_nodup (tailChain_nodup isLevel targetAddress length _ mandatory.positive),
        tailChain_length, three] at size
      obtain rfl : first = length - 1 := by omega
      have evicting := minimal.evicting
      simp only [tailChain_last_two lower, List.toFinset_cons, List.toFinset_nil, insert_empty_eq]
        at evicting
      exact evicting

end Minimality

/-! ## The search -/

/-- The search finds a minimal eviction set exactly when the last two links suffice.
Which sets evict the target is an arbitrary predicate that larger sets keep and that
no single link fulfils.  Behind the first link that is found mandatory the deletion
writes beside the chain, so everything above this link stays on it, and the size
that is returned is always three. -/
theorem findMinimalEvictionSet_iff {model : TranslationModel} {level targetAddress bound : Nat}
    (isLevel : IsLevel level) (configuration : Configuration)
    (room : Machine.RoomAbove configuration targetAddress level 511)
    (evicts : Finset Nat -> Bool) (monotone : MonotoneEviction evicts)
    (needsTwo : NeedsTwoLinks evicts targetAddress) (enough : 512 ≤ bound)
    (machine : Machine model) (idle : machine.exchanged = none) :
    Returns (Machine.handle level)
        (findMinimalEvictionSetWith configuration (visitedEvicts bound evicts) targetAddress level) machine
        (fun result final =>
          FindsMinimalEvictionSet configuration evicts targetAddress level final.memory result) ↔
      LastTwoSuffice configuration evicts targetAddress level := by
  obtain ⟨result, final, returned, outcome⟩ := Machine.returns_findMinimalEvictionSetWith configuration
    isLevel (Machine.keptByWrites_anyMemory _)
    (Machine.measuresTails_visitedEvicts isLevel evicts targetAddress enough) room idle trivial
  constructor
  · rintro ⟨result', final', returned', finds⟩
    rw [returned] at returned'
    cases returned'
    exact lastTwoSuffice_of_findsMinimal isLevel monotone needsTwo room outcome finds
  · intro suffice
    exact ⟨result, final, returned,
      findsMinimal_of_lastTwoSuffice isLevel monotone needsTwo room suffice outcome⟩

/-- The predicate of a cache with three ways in one set: four addresses evict. -/
def fourEvict (visited : Finset Nat) : Bool :=
  decide (4 ≤ visited.card)

theorem fourEvict_monotone : MonotoneEviction fourEvict := by
  intro smaller larger subset holds
  exact decide_eq_true (Nat.le_trans (of_decide_eq_true holds) (Finset.card_le_card subset))

theorem fourEvict_needsTwoLinks (targetAddress : Nat) : NeedsTwoLinks fourEvict targetAddress := by
  intro link
  have pair : ({targetAddress, link} : Finset Nat).card ≤ 2 := Finset.card_le_two
  exact decide_eq_false (by omega)

theorem roomAbove_base {level limit : Nat} (isLevel : IsLevel level) (configuration : Configuration)
    (fits : limit < configuration.pageTableEntries level) :
    Machine.RoomAbove configuration baseAddress level limit := by
  intro index positive small
  rw [chainLink, baseAddress_add isLevel, insideWindow_iff isLevel]
  omega

/-- A one-set cache with three ways and LRU replacement, before any access. -/
def threeWays : Machine (CacheGeometry.lru ⟨.linHash, 0, 3⟩ 2) :=
  Machine.afterTrigger _ fun _ => 0

/-- Four addresses evict the first one of level 2, fewer do not. -/
theorem findMinimalEvictionSet_iff_fourEvict :
    Returns (Machine.handle 2)
        (findMinimalEvictionSetWith defaultConfiguration (visitedEvicts 512 fourEvict) baseAddress 2) threeWays
        (fun result final =>
          FindsMinimalEvictionSet defaultConfiguration fourEvict baseAddress 2 final.memory result) ↔
      LastTwoSuffice defaultConfiguration fourEvict baseAddress 2 :=
  findMinimalEvictionSet_iff (by decide) defaultConfiguration
    (roomAbove_base (by decide) defaultConfiguration (by decide)) fourEvict fourEvict_monotone
    (fourEvict_needsTwoLinks baseAddress) (Nat.le_refl 512) threeWays rfl

/-- The search returns 3 for a chain that visits four addresses. -/
theorem findMinimalEvictionSet_miscounts :
    ¬ Returns (Machine.handle 2)
        (findMinimalEvictionSetWith defaultConfiguration (visitedEvicts 512 fourEvict) baseAddress 2) threeWays
        (fun result final =>
          FindsMinimalEvictionSet defaultConfiguration fourEvict baseAddress 2 final.memory result) := by
  have room : Machine.RoomAbove defaultConfiguration baseAddress 2 511 :=
    roomAbove_base (by decide) defaultConfiguration (by decide)
  rintro ⟨result, final, returned, finds⟩
  obtain ⟨result', final', returned', outcome⟩ := Machine.returns_findMinimalEvictionSetWith
    defaultConfiguration (by decide) (Machine.keptByWrites_anyMemory _)
    (Machine.measuresTails_visitedEvicts (by decide) fourEvict baseAddress (Nat.le_refl 512)) room
    (show threeWays.exchanged = none from rfl) trivial
  rw [returned] at returned'
  cases returned'
  have suffice := lastTwoSuffice_of_findsMinimal (by decide) fourEvict_monotone
    (fourEvict_needsTwoLinks baseAddress) room outcome finds
  have card : ∀ length, tailEvicts fourEvict baseAddress 2 length 1 = decide (4 ≤ length + 1) := by
    intro length
    unfold tailEvicts fourEvict
    rw [List.toFinset_card_of_nodup (tailChain_nodup (by decide) baseAddress length 1 (Nat.le_refl 1)),
      tailChain_length, Nat.add_sub_cancel]
  have three : ({baseAddress, chainLink baseAddress 2 2, chainLink baseAddress 2 3} : Finset Nat).card ≤ 3 :=
    Finset.card_le_three
  have four := of_decide_eq_true (suffice 3 (by decide) (by decide)
    (by rw [builtChain_evicts fourEvict room (by decide), card]; rfl)
    (by rw [builtChain_evicts fourEvict room (by decide), card]; rfl))
  exact absurd (Nat.le_trans four three) (by decide)

end Talbot
