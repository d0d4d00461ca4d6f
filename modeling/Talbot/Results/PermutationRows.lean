import Talbot.Kernel.Replacement
import Talbot.Machine.MissCounts
import Talbot.Machine.Probes

namespace Talbot

/-!
The permutation rows under noisy measurements.

A position stays unresolved if no candidate misses often enough there.  In the
array of the order it then holds 0, a value of the type of addresses, and the
loop that fills a row compares 0 with 0 as well: once both orders have such a
position, an unresolved entry is matched with an unresolved one.  Rows are
partial injections exactly if one of the two orders is complete.
-/

open Foundations Program

/-! ## Matching two orders -/

/-- What a row of the permutation vectors is meant to be: `-1` for the entries of
the current order that are unresolved or new, the position in the initial order
for all others, and no position twice. -/
structure PartialInjection (ways : Nat) (initialOrder currentOrder : Nat -> Nat) (row : Nat -> Int) : Prop where
  unmatched : ∀ j, j < ways ->
    (row j = -1 ↔ currentOrder j = 0 ∨ ∀ k, k < ways -> initialOrder k ≠ currentOrder j)
  matched : ∀ j, j < ways -> row j ≠ -1 -> ∃ k : Nat, k < ways ∧ row j = k ∧ initialOrder k = currentOrder j ∧
    ∀ k', k' < ways -> initialOrder k' = currentOrder j -> k' = k
  injective : ∀ j j', j < ways -> j' < ways -> row j ≠ -1 -> row j = row j' -> j = j'

/-- Every position is resolved. -/
def Resolved (ways : Nat) (order : Nat -> Nat) : Prop :=
  ∀ position, position < ways -> order position ≠ 0

/-- No address stands at two positions. -/
def PlacedOnce (ways : Nat) (order : Nat -> Nat) : Prop :=
  ∀ first second, first < ways -> second < ways -> order first ≠ 0 -> order first = order second -> first = second

section Matching

variable {ways : Nat} {initialOrder currentOrder : Nat -> Nat}

/-- The row starts with `-1` everywhere. -/
def freshRow (ways : Nat) (initialOrder currentOrder : Nat -> Nat) : Nat -> Int :=
  permutationRow ways initialOrder currentOrder fun _ => -1

variable (initialOrder currentOrder) in
/-- An entry of the row is the first position with the same value, if there is one. -/
theorem freshRow_cases {j : Nat} (inside : j < ways) :
    (freshRow ways initialOrder currentOrder j = -1 ∧ ∀ k, k < ways -> initialOrder k ≠ currentOrder j) ∨
      ∃ k : Nat, k < ways ∧ freshRow ways initialOrder currentOrder j = k ∧ initialOrder k = currentOrder j := by
  unfold freshRow permutationRow
  rw [if_pos inside]
  cases found : (List.range ways).find? fun k => initialOrder k == currentOrder j with
  | none =>
      refine Or.inl ⟨rfl, fun k below same => ?_⟩
      exact List.find?_eq_none.mp found k (List.mem_range.mpr below) (beq_iff_eq.mpr same)
  | some k =>
      exact Or.inr ⟨k, List.mem_range.mp (List.mem_of_find?_eq_some found), rfl,
        beq_iff_eq.mp (List.find?_some (p := fun k => initialOrder k == currentOrder j) found)⟩

theorem natCast_ne_neg_one (k : Nat) : (k : Int) ≠ -1 := by
  omega

/-- Rows match holes with holes, so one of the two orders has to be complete. An
entry that is matched is then resolved, whichever of the two is the complete one. -/
theorem partialInjection_iff (initialOnce : PlacedOnce ways initialOrder) (currentOnce : PlacedOnce ways currentOrder) :
    PartialInjection ways initialOrder currentOrder (freshRow ways initialOrder currentOrder) ↔
      Resolved ways initialOrder ∨ Resolved ways currentOrder := by
  constructor
  · intro row
    by_contra holes
    rcases not_or.mp holes with ⟨initialHole, currentHole⟩
    simp only [Resolved, not_forall, not_not] at initialHole currentHole
    rcases initialHole with ⟨k, below, empty⟩
    rcases currentHole with ⟨j, inside, unresolved⟩
    have entry := (row.unmatched j inside).mpr (Or.inl unresolved)
    rcases freshRow_cases initialOrder currentOrder inside with
      ⟨_, nowhere⟩ | ⟨k', _, same, _⟩
    · exact nowhere k below (empty.trans unresolved.symm)
    · exact natCast_ne_neg_one k' (same.symm.trans entry)
  · intro complete
    have resolved : ∀ j k, j < ways -> k < ways -> initialOrder k = currentOrder j -> currentOrder j ≠ 0 := by
      intro j k inside below same
      rcases complete with initial | current
      · rw [← same]
        exact initial k below
      · exact current j inside
    refine ⟨?_, ?_, ?_⟩
    · intro j inside
      rcases freshRow_cases initialOrder currentOrder inside with
        ⟨entry, nowhere⟩ | ⟨k, below, entry, same⟩
      · exact iff_of_true entry (Or.inr nowhere)
      · rw [entry]
        refine iff_of_false (natCast_ne_neg_one k) ?_
        rintro (unresolved | nowhere)
        · exact resolved j k inside below same unresolved
        · exact nowhere k below same
    · intro j inside matched
      rcases freshRow_cases initialOrder currentOrder inside with
        ⟨entry, _⟩ | ⟨k, below, entry, same⟩
      · exact absurd entry matched
      · refine ⟨k, below, entry, same, fun k' below' same' => ?_⟩
        exact initialOnce k' k below' below (by rw [same']; exact resolved j k inside below same)
          (same'.trans same.symm)
    · intro j j' inside inside' matched equal
      rcases freshRow_cases initialOrder currentOrder inside with
        ⟨entry, _⟩ | ⟨k, below, entry, same⟩
      · exact absurd entry matched
      rcases freshRow_cases initialOrder currentOrder inside' with
        ⟨entry', _⟩ | ⟨k', below', entry', same'⟩
      · exact absurd (equal.trans entry') matched
      · have index : k = k' := Int.ofNat_inj.mp (entry.symm.trans (equal.trans entry'))
        subst index
        exact currentOnce j j' inside inside' (resolved j k inside below same) (same.symm.trans same')

end Matching

/-! ## The measurement with its miss counts -/

/-- A measured order, with the misses of every position and candidate.  A
candidate that was placed before is not probed again and counts no misses. -/
structure OrderMeasurement where
  order : Nat -> Nat
  misses : Nat -> Nat -> Nat

/-- At every position some probe reaches the threshold.  A position without such a
probe is left as a hole. -/
def EveryPositionMisses (ways : Nat) (measurement : OrderMeasurement) : Prop :=
  ∀ position, position < ways ->
    ∃ target, target < ways ∧ reachesThreshold (measurement.misses position target) iterations = true

/-- The rows, the initial measurement and the measurement behind each row.  The
source only keeps the rows, so the others say what the statement compares them with. -/
structure RowsMeasurement where
  rows : Nat -> Nat -> Int
  initial : OrderMeasurement
  current : Nat -> OrderMeasurement

section Recording

variable (configuration : Configuration)

/-- `determine_replacement_order`, with its miss counts kept.  Without them it is
the function of the source, as `recordReplacementOrder_order` says. -/
def recordReplacementOrder (bound : Nat) (translationCaches : Nat -> TranslationCache)
    (setStart level : Nat) : Kernel OrderMeasurement := do
  let cache := translationCaches level
  enter .determineReplacementOrder cache level
  let addressSet ← kmalloc
  let replacementOrder ← kmalloc
  let misses ← kmalloc
  let lastAddress ← lastLink bound setStart
  let addressSet ← forRange (fun i addressSet => do
    let member ← callHash cache.hashFunction setStart i cache.setBits level
    return .next (Function.update addressSet i member)) 0 cache.ways addressSet
  let nextAddress ← callHash cache.hashFunction setStart cache.ways cache.setBits level
  writeData lastAddress nextAddress
  let final ← forRange (fun index (carried : ((Nat -> Nat) × (Nat -> Nat)) × (Nat -> Nat -> Nat)) => do
    let arrays ← resolvePosition configuration bound cache level setStart lastAddress nextAddress
      addressSet (cache.ways - 1 - index) carried.1
    return .next (arrays, Function.update carried.2 (cache.ways - 1 - index) arrays.2)) 0 cache.ways
    ((replacementOrder, misses), fun _ _ => 0)
  return ⟨final.1.1, final.2⟩

/-- `calculate_permutation_vectors`, with its measurements kept. -/
def recordPermutationVectors (bound : Nat) (translationCaches : Nat -> TranslationCache)
    (level : Nat) : Kernel RowsMeasurement := do
  let cache := translationCaches level
  enter .calculatePermutationVectors cache level
  let permutationVectors : Nat -> Nat -> Int := fun _ _ => -1
  let targetAddress ← drawAddress (drawableEntries configuration level) level
  buildPointerChainFromHashSingle configuration targetAddress 0 (cache.ways - 1)
    cache.hashFunction cache.setBits level
  let initial ← recordReplacementOrder configuration bound translationCaches targetAddress level
  let final ← forRange (fun i (carried : (Nat -> Nat -> Int) × (Nat -> OrderMeasurement)) => do
    if initial.order i = 0x0 then
      return .next carried
    let extraAddress := initial.order i + (0x2 <<< pageTableIndexShift (level - 1))
    buildPointerChainFromHashSingle configuration targetAddress extraAddress (cache.ways - 1)
      cache.hashFunction cache.setBits level
    writeData extraAddress 0
    let measured ← recordReplacementOrder configuration bound translationCaches targetAddress level
    return .next (Function.update carried.1 i
      (permutationRow cache.ways initial.order measured.order (carried.1 i)),
      Function.update carried.2 i measured)) 0 cache.ways (permutationVectors, fun _ => initial)
  return ⟨final.1, initial, final.2⟩

variable {configuration}

/-- The order is what the two loops leave in the array, and the rest of what they
carry is dropped at the end. -/
theorem recordReplacementOrder_order (bound : Nat) (translationCaches : Nat -> TranslationCache) (setStart level : Nat) :
    (recordReplacementOrder configuration bound translationCaches setStart level >>= fun measured => ret measured.order) =
      determineReplacementOrder configuration bound translationCaches setStart level := by
  unfold recordReplacementOrder determineReplacementOrder
  simp only [Program.bind_assoc]
  congr 1; funext _
  congr 1; funext _
  congr 1; funext replacementOrder
  congr 1; funext misses
  congr 1; funext lastAddress
  congr 1; funext addressSet
  congr 1; funext nextAddress
  congr 1; funext _
  refine Eq.trans (Program.bind_assoc _ (fun carried : ((Nat -> Nat) × (Nat -> Nat)) × (Nat -> Nat -> Nat) =>
      ret carried.1) fun arrays => ret arrays.1).symm (congrArg (fun program => program >>= fun arrays => ret arrays.1)
    (forRange_project Prod.fst ?_ 0 _ ((replacementOrder, misses), fun _ _ => 0)))
  intro index carried
  exact Program.bind_assoc _ _ _

/-- Keeping the measurements does not change what is computed. -/
theorem recordPermutationVectors_rows (bound : Nat) (translationCaches : Nat -> TranslationCache) (level : Nat) :
    (recordPermutationVectors configuration bound translationCaches level >>= fun measured => ret measured.rows) =
      calculatePermutationVectors configuration bound translationCaches level := by
  unfold recordPermutationVectors calculatePermutationVectors
  simp only [Program.bind_assoc, ← recordReplacementOrder_order]
  congr 1; funext _
  congr 1; funext targetAddress
  congr 1; funext _
  congr 1; funext initial
  refine forRange_project Prod.fst ?_ 0 _ ((fun _ _ => -1), fun _ => initial)
  intro i carried
  by_cases unresolved : initial.order i = 0
  · simp only [if_pos unresolved]
    rfl
  · simp only [if_neg unresolved, Program.bind_assoc]
    rfl

end Recording

/-! ## What a measured order looks like -/

/-- The positions from `unresolved` on have been measured.  A measured position
is taken exactly if one of its probes reached the threshold. -/
structure Placed (ways unresolved : Nat) (measurement : OrderMeasurement) : Prop where
  ahead : ∀ position, position < unresolved -> measurement.order position = 0
  once : PlacedOnce ways measurement.order
  measured : ∀ position, unresolved ≤ position -> position < ways -> (measurement.order position ≠ 0 ↔
    ∃ target, target < ways ∧ reachesThreshold (measurement.misses position target) iterations = true)

/-- In a finished order the unresolved positions are those without a probe that
reached the threshold. -/
theorem Placed.resolved_iff {ways : Nat} {measurement : OrderMeasurement} (placed : Placed ways 0 measurement) :
    Resolved ways measurement.order ↔ EveryPositionMisses ways measurement :=
  forall_congr' fun position => forall_congr' fun below => placed.measured position (Nat.zero_le _) below

section Placing

variable {ways position : Nat} {address counts : Nat -> Nat} {measurement : OrderMeasurement}

theorem alreadyPlaced_iff {order : Nat -> Nat} {member : Nat} :
    alreadyPlaced ways order member = true ↔ ∃ i, i < ways ∧ order i = member := by
  rw [alreadyPlaced, List.any_eq_true]
  constructor
  · rintro ⟨i, inside, same⟩
    exact ⟨i, List.mem_range.mp inside, (beq_iff_eq.mp same).symm⟩
  · rintro ⟨i, below, same⟩
    exact ⟨i, List.mem_range.mpr below, beq_iff_eq.mpr same.symm⟩

/-- One more position: the first candidate that reached the threshold takes it.  It
was not placed before, since the probe of a candidate that is placed is skipped and
counts nothing. -/
theorem Placed.place (placed : Placed ways (position + 1) measurement) (inside : position < ways)
    (nonzero : ∀ target, target < ways -> address target ≠ 0)
    (skipped : ∀ target, target < ways -> alreadyPlaced ways measurement.order (address target) = true ->
      counts target = 0) :
    Placed ways position ⟨placeMember ways position address counts measurement.order,
      Function.update measurement.misses position counts⟩ := by
  have open_ := placed.ahead position (Nat.lt_succ_self position)
  unfold placeMember
  cases found : (List.range ways).find? fun i => reachesThreshold (counts i) iterations with
  | none =>
      have silent : ¬ ∃ target, target < ways ∧ reachesThreshold (counts target) iterations = true := by
        rintro ⟨target, below, reached⟩
        exact List.find?_eq_none.mp found target (List.mem_range.mpr below) reached
      refine ⟨fun other before => placed.ahead other (Nat.lt_succ_of_lt before), placed.once, ?_⟩
      intro other lower below
      rcases Nat.eq_or_lt_of_le lower with rfl | later
      · simp only [Function.update_self]
        exact iff_of_false (fun resolved => resolved open_) silent
      · simp only [Function.update_of_ne (Nat.ne_of_gt later)]
        exact placed.measured other later below
  | some chosen =>
      have below := List.mem_range.mp (List.mem_of_find?_eq_some found)
      have reached := List.find?_some (p := fun i => reachesThreshold (counts i) iterations) found
      have fresh : ∀ other, other < ways -> measurement.order other ≠ address chosen := by
        intro other small same
        rw [skipped chosen below (alreadyPlaced_iff.mpr ⟨other, small, same⟩)] at reached
        exact absurd reached (by decide)
      refine ⟨?_, ?_, ?_⟩
      · intro other before
        simp only [Function.update_of_ne (Nat.ne_of_lt before)]
        exact placed.ahead other (Nat.lt_succ_of_lt before)
      · intro first second small small'
        by_cases here : first = position
        · by_cases there : second = position
          · exact fun _ _ => here.trans there.symm
          · subst here
            simp only [Function.update_self, Function.update_of_ne there]
            exact fun _ same => absurd same.symm (fresh second small')
        · by_cases there : second = position
          · subst there
            simp only [Function.update_self, Function.update_of_ne here]
            exact fun _ same => absurd same (fresh first small)
          · simp only [Function.update_of_ne here, Function.update_of_ne there]
            exact placed.once first second small small'
      · intro other lower small
        rcases Nat.eq_or_lt_of_le lower with rfl | later
        · simp only [Function.update_self]
          exact iff_of_true (nonzero chosen below) ⟨chosen, below, reached⟩
        · simp only [Function.update_of_ne (Nat.ne_of_gt later)]
          exact placed.measured other later small

end Placing

/-! ## Every run of the measurement -/

/-- Allocations are zeroed. -/
def zeroed (array : Nat -> Nat) : Prop :=
  array = fun _ => 0

section Runs

variable {configuration : Configuration} {fresh : (Nat -> Nat) -> Prop}

/-- The probes of one position: a candidate that was placed before counts no
misses, all others count whatever is measured. -/
theorem measures_resolvePosition (bound : Nat) (cache : TranslationCache)
    (level setStart lastAddress nextAddress : Nat) (addressSet : Nat -> Nat) (position : Nat)
    (arrays : (Nat -> Nat) × (Nat -> Nat)) :
    Measures fresh (resolvePosition configuration bound cache level setStart lastAddress nextAddress addressSet
      position arrays) fun result =>
        result.1 = placeMember cache.ways position addressSet result.2 arrays.1 ∧
          ∀ target, target < cache.ways -> alreadyPlaced cache.ways arrays.1 (addressSet target) = true ->
            result.2 target = 0 := by
  unfold resolvePosition
  rw [measures_bind]
  apply (ensures_forRange (fun _ (misses : Nat -> Nat) _ => ∀ target, target < cache.ways ->
    alreadyPlaced cache.ways arrays.1 (addressSet target) = true -> misses target = 0) 0 cache.ways _ () ?_ ?_).mono
  · intro misses _ skipped
    exact ⟨rfl, skipped⟩
  · intro target below _
    exact if_pos below
  · intro target misses _ _ _ skipped
    by_cases placed : alreadyPlaced cache.ways arrays.1 (addressSet target) = true
    · simp only [if_pos placed]
      exact ⟨misses, rfl, skipped⟩
    · simp only [if_neg placed]
      apply measures_then
      intro count
      refine ⟨_, rfl, fun other below known => ?_⟩
      have different : other ≠ target := by
        rintro rfl
        exact placed known
      rw [Function.update_of_ne different]
      exact skipped other below known

/-- The addresses of the candidates, as the hash function enumerates them. -/
theorem measures_addressSet {hash : HashFunction} (setStart level setBits ways : Nat) (array : Nat -> Nat) :
    Measures fresh (forRange (fun i addressSet => do
      let member ← callHash (.to hash) setStart i setBits level
      return .next (Function.update addressSet i member)) 0 ways array) fun addressSet =>
        ∀ target, target < ways -> addressSet target = hash.apply setStart target setBits level := by
  apply (ensures_forRange (fun index (addressSet : Nat -> Nat) _ => ∀ target, target < index ->
    addressSet target = hash.apply setStart target setBits level) 0 ways array () ?_ ?_).mono
  · intro addressSet _ holds target below
    exact holds target (by rwa [Nat.zero_add])
  · intro target impossible
    exact absurd impossible (Nat.not_lt_zero _)
  · intro index addressSet _ _ _ holds
    exact measures_bind.mpr (measures_callHash.mpr ⟨_, rfl, update_agrees holds⟩)

/-- The members can be computed. -/
theorem attains_addressSet (hash : HashFunction) (setStart level setBits ways : Nat) (array : Nat -> Nat) :
    Attains fresh (forRange (fun i addressSet => do
      let member ← callHash (.to hash) setStart i setBits level
      return .next (Function.update addressSet i member)) 0 ways array) fun addressSet =>
        ∀ target, target < ways -> addressSet target = hash.apply setStart target setBits level := by
  apply (reaches_forRange (fun index (addressSet : Nat -> Nat) _ => ∀ target, target < index ->
    addressSet target = hash.apply setStart target setBits level) 0 ways array () ?_ ?_).mono
  · intro addressSet _ holds target below
    exact holds target (by rwa [Nat.zero_add])
  · intro target impossible
    exact absurd impossible (Nat.not_lt_zero _)
  · intro index addressSet _ _ _ holds
    refine attains_bind.mpr ((attains_callHash hash _ _ _ _).mono ?_)
    rintro member _ rfl
    exact ⟨_, rfl, update_agrees holds⟩

variable {translationCaches : Nat -> TranslationCache} {level : Nat} {hash : HashFunction}

/-- A measured order: whatever the probes counted, every address stands at one
position, and a position is unresolved if all its probes stayed below the
threshold. -/
theorem measures_recordReplacementOrder (bound : Nat) {setStart : Nat}
    (recorded : (translationCaches level).hashFunction = .to hash)
    (nonzero : ∀ target, hash.apply setStart target (translationCaches level).setBits level ≠ 0) :
    Measures zeroed (recordReplacementOrder configuration bound translationCaches setStart level)
      (Placed (translationCaches level).ways 0) := by
  unfold recordReplacementOrder
  simp only [recorded]
  apply measures_then
  intro _
  apply measures_then
  intro addressArray
  refine measures_bind.mpr (measures_kmalloc.mpr ?_)
  rintro _ rfl
  apply measures_then
  intro misses
  apply measures_then
  intro lastAddress
  refine measures_bind.mpr ((measures_addressSet setStart level _ _ addressArray).mono ?_)
  intro addressSet _ addresses
  apply measures_then
  intro nextAddress
  apply measures_then
  intro _
  refine measures_bind.mpr (Ensures.mono (ensures_forRange
    (fun index (carried : ((Nat -> Nat) × (Nat -> Nat)) × (Nat -> Nat -> Nat)) _ =>
      Placed (translationCaches level).ways ((translationCaches level).ways - index) ⟨carried.1.1, carried.2⟩)
      0 (translationCaches level).ways _ () ?_ ?_) ?_)
  · exact ⟨fun _ _ => rfl, fun _ _ _ _ impossible => absurd rfl impossible,
      fun position lower below => absurd below (Nat.not_lt.mpr (by rwa [Nat.sub_zero] at lower))⟩
  · intro index carried _ _ upper placed
    rw [Nat.zero_add] at upper
    refine measures_bind.mpr ((measures_resolvePosition bound _ level setStart lastAddress nextAddress addressSet
      _ carried.1).mono ?_)
    rintro arrays _ ⟨order, skipped⟩
    have earlier : (translationCaches level).ways - index = (translationCaches level).ways - 1 - index + 1 := by omega
    have later : (translationCaches level).ways - (index + 1) = (translationCaches level).ways - 1 - index := by omega
    rw [earlier] at placed
    refine ⟨_, rfl, ?_⟩
    rw [later, order]
    exact placed.place (by omega) (fun target below => by
      rw [addresses target below]
      exact nonzero target) skipped
  · intro final _ placed
    rw [Nat.zero_add, Nat.sub_self] at placed
    exact placed

/-- No enumerated address is 0. -/
theorem apply_ne_zero (hash : HashFunction) {entry setBits : Nat} (isLevel : IsLevel level)
    (above : baseEntry level ≤ entry) (fits : pageAddress level entry 0 < 2 ^ 64) (target : Nat) :
    hash.apply (pageAddress level entry 0) target setBits level ≠ 0 := by
  have positive : 0 < baseEntry level := by
    rcases isLevel with ⟨lower, upper⟩
    interval_cases level <;> decide
  have reached := (hash.entry_strictMono setBits entry).monotone (Nat.zero_le target)
  rw [hash.entry_zero] at reached
  have start : pageAddress level 0 0 = 0 := by rw [pageAddress_zero, Nat.zero_shiftLeft]
  rw [hash.apply_aligned _ _ isLevel fits]
  apply Nat.ne_of_gt
  conv => lhs; rw [← start]
  exact (pageAddress_lt_iff _ _ _).mpr (by omega)

/-- Every row that is written is filled from the initial order and the order
measured for it. -/
theorem measures_recordPermutationVectors (window : Machine.UsableWindow configuration level) (bound : Nat)
    (recorded : (translationCaches level).hashFunction = .to hash) :
    Measures zeroed (recordPermutationVectors configuration bound translationCaches level) fun measured =>
      Placed (translationCaches level).ways 0 measured.initial ∧
        ∀ i, i < (translationCaches level).ways -> measured.initial.order i ≠ 0 ->
          Placed (translationCaches level).ways 0 (measured.current i) ∧ measured.rows i =
            freshRow (translationCaches level).ways measured.initial.order (measured.current i).order := by
  unfold recordPermutationVectors
  apply measures_then
  intro _
  refine measures_bind.mpr (measures_drawAddress fun random => ?_)
  have nonzero : ∀ target, hash.apply
      (baseAddress + ((random % drawableEntries configuration level) <<< pageTableIndexShift level)) target
      (translationCaches level).setBits level ≠ 0 := by
    rw [baseAddress_add window.isLevel]
    exact apply_ne_zero hash window.isLevel (Nat.le_add_right _ _) (Machine.drawnEntry_fits window random)
  apply measures_then
  intro _
  refine measures_bind.mpr ((measures_recordReplacementOrder bound recorded nonzero).mono ?_)
  intro initial _ initialPlaced
  refine measures_bind.mpr (Ensures.mono (ensures_forRange
    (fun index (carried : (Nat -> Nat -> Int) × (Nat -> OrderMeasurement)) _ =>
      (∀ i, index ≤ i -> carried.1 i = fun _ => -1) ∧
        ∀ i, i < index -> initial.order i ≠ 0 -> Placed (translationCaches level).ways 0 (carried.2 i) ∧
          carried.1 i = freshRow (translationCaches level).ways initial.order (carried.2 i).order)
    0 (translationCaches level).ways _ () ?_ ?_) ?_)
  · exact ⟨fun _ _ => rfl, fun _ impossible => absurd impossible (Nat.not_lt_zero _)⟩
  · rintro index carried _ _ _ ⟨untouched, written⟩
    by_cases unresolved : initial.order index = 0
    · simp only [if_pos unresolved]
      refine ⟨carried, rfl, fun i later => untouched i (Nat.le_of_succ_le later), fun i before resolved => ?_⟩
      rcases Nat.lt_succ_iff_lt_or_eq.mp before with earlier | rfl
      · exact written i earlier resolved
      · exact absurd unresolved resolved
    · simp only [if_neg unresolved]
      apply measures_then
      intro _
      apply measures_then
      intro _
      refine measures_bind.mpr ((measures_recordReplacementOrder bound recorded nonzero).mono ?_)
      intro measured _ placed
      refine ⟨_, rfl, fun i later => ?_, fun i before resolved => ?_⟩
      · simp only [Function.update_of_ne (Nat.ne_of_gt later)]
        exact untouched i (Nat.le_of_succ_le later)
      · rcases Nat.lt_succ_iff_lt_or_eq.mp before with earlier | rfl
        · simp only [Function.update_of_ne (Nat.ne_of_lt earlier)]
          exact written i earlier resolved
        · simp only [Function.update_self, untouched i (Nat.le_refl _)]
          exact ⟨placed, rfl⟩
  · rintro final _ ⟨_, written⟩
    rw [Nat.zero_add] at written
    exact ⟨initialPlaced, written⟩

end Runs

/-! ## Noisy runs exist -/

section NoisyRuns

variable {configuration : Configuration} {fresh : (Nat -> Nat) -> Prop} {bound : Nat}

/-- A set of two entries. -/
def twoWays : Nat -> TranslationCache :=
  fun _ => ⟨0, 2, .to .linHash⟩

/-- The orders of a noisy run, before the round with the given index: the last
position takes the first member, the first position none. -/
structure HoleBefore (index : Nat) (order : Nat -> Nat) : Prop where
  hole : order 0 = 0
  unplaced : index = 0 -> order 1 = 0
  placed : 0 < index -> order 1 ≠ 0

/-- One round in which only the first member misses, and only for the last position.
In the round of the last position the first member takes it; in the others no member
is placed. -/
theorem HoleBefore.next {index : Nat} {order addressSet misses : Nat -> Nat} (before : HoleBefore index order)
    (nonzero : addressSet 0 ≠ 0) (counts : ∀ target, target < 2 -> misses target =
      if !alreadyPlaced 2 order (addressSet target) && (decide (index = 0) && decide (target = 0))
      then iterations else 0) :
    HoleBefore (index + 1) (placeMember 2 (2 - 1 - index) addressSet misses order) := by
  have first := counts 0 (by decide)
  have second := counts 1 (by decide)
  rw [placeMember]
  rcases Nat.eq_zero_or_pos index with rfl | positive
  · have fresh : alreadyPlaced 2 order (addressSet 0) = false := by
      rw [← Bool.not_eq_true, alreadyPlaced_iff]
      rintro ⟨i, small, same⟩
      interval_cases i
      · exact nonzero (same.symm.trans before.hole)
      · exact nonzero (same.symm.trans (before.unplaced rfl))
    rw [fresh] at first
    have found : (List.range 2).find? (fun i => reachesThreshold (misses i) iterations) = some 0 := by
      change List.find? _ [0, 1] = _
      rw [List.find?_cons_of_pos]
      rw [first]
      decide
    rw [found]
    exact ⟨before.hole, fun impossible => absurd impossible (by decide), fun _ => nonzero⟩
  · have noneMissing : decide (index = 0) = false := decide_eq_false (Nat.ne_of_gt positive)
    rw [noneMissing, Bool.false_and, Bool.and_false, if_neg Bool.false_ne_true] at first second
    have found : (List.range 2).find? (fun i => reachesThreshold (misses i) iterations) = none := by
      apply List.find?_eq_none.mpr
      intro i inside
      have small := List.mem_range.mp inside
      interval_cases i
      · rw [first]
        decide
      · rw [second]
        decide
    rw [found]
    exact ⟨before.hole, fun impossible => absurd impossible (Nat.succ_ne_zero index),
      fun _ => before.placed positive⟩

/-- Only the first member is measured as replaced, and only at the last position.
Such answers are possible, so the order can be left with a hole at its first
position. -/
theorem attains_recordReplacementOrder (positive : 1 ≤ bound) (setStart level : Nat)
    (nonzero : ∀ target, HashFunction.apply .linHash setStart target 0 level ≠ 0) :
    Attains zeroed (recordReplacementOrder configuration bound twoWays setStart level) fun measured =>
      measured.order 0 = 0 ∧ measured.order 1 ≠ 0 := by
  unfold recordReplacementOrder
  simp only [twoWays]
  refine attains_then (attains_enter _ _ _) fun _ => ?_
  have allocates : Attains zeroed kmalloc fun array => array = fun _ => 0 := attains_kmalloc rfl
  refine attains_then (allocates.mono fun _ _ _ => trivial) fun addressArray => ?_
  refine attains_bind.mpr (allocates.mono ?_)
  rintro _ _ rfl
  refine attains_then (allocates.mono fun _ _ _ => trivial) fun misses => ?_
  refine attains_then (attains_lastLink positive setStart) fun lastAddress => ?_
  refine attains_bind.mpr ((attains_addressSet .linHash setStart level 0 2 addressArray).mono ?_)
  intro addressSet _ addresses
  have placed : addressSet 0 ≠ 0 := addresses 0 (by decide) ▸ nonzero 0
  refine attains_then ((attains_callHash .linHash _ _ _ _).mono fun _ _ _ => trivial) fun nextAddress => ?_
  refine attains_then (attains_writeData _ _) fun _ => ?_
  refine attains_bind.mpr ((reaches_forRange
    (fun index (carried : ((Nat -> Nat) × (Nat -> Nat)) × (Nat -> Nat -> Nat)) _ =>
      HoleBefore index carried.1.1) 0 2 _ ()
    ⟨rfl, fun _ => rfl, fun impossible => absurd impossible (Nat.lt_irrefl 0)⟩ ?_).mono ?_)
  · intro index carried _ _ below before
    refine attains_bind.mpr ((attains_resolvePosition positive .linHash 0 2 _ _ _ _ _ _ carried.1
      fun target => decide (index = 0) && decide (target = 0)).mono ?_)
    rintro arrays _ ⟨order, counts⟩
    refine ⟨_, rfl, ?_⟩
    dsimp only
    rw [order]
    exact before.next placed counts
  · intro final _ after
    exact ⟨after.hole, after.placed (by decide)⟩

/-- Both the initial order and the one measured for the last position can have a
hole at the first position. -/
theorem attains_recordPermutationVectors :
    Attains zeroed (recordPermutationVectors defaultConfiguration 1 twoWays 2) fun measured =>
      measured.initial.order 0 = 0 ∧ measured.initial.order 1 ≠ 0 ∧ (measured.current 1).order 0 = 0 := by
  have window := Machine.usableWindow_default (show IsLevel 2 by decide)
  have nonzero : ∀ target, HashFunction.apply .linHash
      (baseAddress + ((0 % drawableEntries defaultConfiguration 2) <<< pageTableIndexShift 2)) target 0 2 ≠ 0 := by
    rw [baseAddress_add window.isLevel]
    exact apply_ne_zero .linHash window.isLevel (Nat.le_add_right _ _) (Machine.drawnEntry_fits window 0)
  unfold recordPermutationVectors
  refine attains_then (attains_enter _ _ _) fun _ => ?_
  refine attains_bind.mpr ((attains_drawAddress _ _ 0).mono ?_)
  rintro _ _ rfl
  refine attains_then (attains_buildPointerChainFromHashSingle _ .linHash _ _ _ _ _) fun _ => ?_
  refine attains_bind.mpr ((attains_recordReplacementOrder (Nat.le_refl 1) _ _ nonzero).mono ?_)
  rintro initial _ ⟨hole, resolved⟩
  refine attains_bind.mpr ((reaches_forRange
    (fun index (carried : (Nat -> Nat -> Int) × (Nat -> OrderMeasurement)) _ =>
      index = 2 -> (carried.2 1).order 0 = 0) 0 2 _ () (fun impossible => absurd impossible (by decide)) ?_).mono ?_)
  · intro index carried _ _ below _
    by_cases unresolved : initial.order index = 0
    · simp only [if_pos unresolved]
      refine ⟨carried, rfl, fun last => ?_⟩
      have index_eq : index = 1 := by omega
      rw [index_eq] at unresolved
      exact absurd unresolved resolved
    · simp only [if_neg unresolved]
      refine attains_then (attains_buildPointerChainFromHashSingle _ .linHash _ _ _ _ _) fun _ => ?_
      refine attains_then (attains_writeData _ _) fun _ => ?_
      refine attains_bind.mpr ((attains_recordReplacementOrder (Nat.le_refl 1) _ _ nonzero).mono ?_)
      rintro measured _ ⟨hole', _⟩
      refine ⟨_, rfl, fun last => ?_⟩
      have index_eq : index = 1 := by omega
      simp only [index_eq, Function.update_self]
      exact hole'
  · rintro final _ holds
    exact ⟨hole, resolved, holds rfl⟩

end NoisyRuns

/-- For all miss counts, a row written for a resolved position is a partial
injection exactly if every position had a probe that reached the threshold, in the
initial measurement or in the one for the row.  The measurement with its counts
recorded is the one of the source, as the first part says.  A hole is the word 0 in
both orders, and holes are matched like entries. -/
theorem calculatePermutationVectors_partialInjection_iff {configuration : Configuration} {level : Nat}
    {hash : HashFunction} (window : Machine.UsableWindow configuration level) (bound : Nat)
    (translationCaches : Nat -> TranslationCache) (recorded : (translationCaches level).hashFunction = .to hash) :
    calculatePermutationVectors configuration bound translationCaches level =
        (recordPermutationVectors configuration bound translationCaches level >>= fun measured => ret measured.rows) ∧
      Measures zeroed (recordPermutationVectors configuration bound translationCaches level) fun measured =>
        ∀ i, i < (translationCaches level).ways -> measured.initial.order i ≠ 0 ->
          (PartialInjection (translationCaches level).ways measured.initial.order (measured.current i).order
              (measured.rows i) ↔
            EveryPositionMisses (translationCaches level).ways measured.initial ∨
              EveryPositionMisses (translationCaches level).ways (measured.current i)) := by
  refine ⟨(recordPermutationVectors_rows bound translationCaches level).symm, ?_⟩
  apply (measures_recordPermutationVectors window bound recorded).mono
  rintro measured _ ⟨initial, written⟩ i below resolved
  rcases written i below resolved with ⟨current, row⟩
  rw [row, partialInjection_iff initial.once current.once, initial.resolved_iff, current.resolved_iff]

/-- The rows of a level-2 cache with four sets of two ways. -/
theorem calculatePermutationVectors_partialInjection_iff_fourSets :
    calculatePermutationVectors defaultConfiguration 8 (fun _ => ⟨2, 2, .to .linShiftHash⟩) 2 =
        (recordPermutationVectors defaultConfiguration 8 (fun _ => ⟨2, 2, .to .linShiftHash⟩) 2 >>=
          fun measured => ret measured.rows) ∧
      Measures zeroed (recordPermutationVectors defaultConfiguration 8 (fun _ => ⟨2, 2, .to .linShiftHash⟩) 2)
        fun measured => ∀ i, i < 2 -> measured.initial.order i ≠ 0 ->
          (PartialInjection 2 measured.initial.order (measured.current i).order (measured.rows i) ↔
            EveryPositionMisses 2 measured.initial ∨ EveryPositionMisses 2 (measured.current i)) :=
  calculatePermutationVectors_partialInjection_iff (Machine.usableWindow_default (by decide)) 8 _ rfl

/-- Two holes are matched: the row of the resolved position is no partial injection. -/
theorem calculatePermutationVectors_matches_holes :
    ¬ Measures zeroed (recordPermutationVectors defaultConfiguration 1 twoWays 2) fun measured =>
      ∀ i, i < 2 -> measured.initial.order i ≠ 0 ->
        PartialInjection 2 measured.initial.order (measured.current i).order (measured.rows i) := by
  intro always
  have window := Machine.usableWindow_default (show IsLevel 2 by decide)
  have written : Measures zeroed (recordPermutationVectors defaultConfiguration 1 twoWays 2) _ :=
    measures_recordPermutationVectors window 1 rfl
  rcases (always.and written).of_reaches attains_recordPermutationVectors with
    ⟨measured, _, ⟨injection, initial, rows⟩, hole, resolved, hole'⟩
  have row := injection 1 (by decide) resolved
  rcases rows 1 (by decide) resolved with ⟨current, same⟩
  rw [same] at row
  rcases (partialInjection_iff initial.once current.once).mp row with complete | complete
  · exact complete 0 (by decide) hole
  · exact complete 0 (by decide) hole'

end Talbot
