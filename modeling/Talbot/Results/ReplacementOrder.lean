import Mathlib.Data.List.Find
import Talbot.Foundations.Responses
import Talbot.Kernel.Replacement
import Talbot.Machine.Answers
import Talbot.Results.PermutationRows

namespace Talbot

/-!
The replacement order and the memory it is written to.

A candidate is skipped if its address stands in one of the `ways` slots of the
result, and nothing has been written to these slots when the first position is
measured.  With the miss count of every probe fixed, the order is therefore a
function of what the allocation held before: a stale address suppresses the
probes of its own entry, and a position without enough misses keeps the word it
had.  Only where a single entry has to be placed, and misses often enough, do all
contents lead to the same order.
-/

open Foundations Program

/-! ## The measurement apart from its probes -/

section Probes

/-- `resolvePosition`, with the probe of a candidate as a parameter. -/
def resolvePositionWith (ways : Nat) (probe : Nat -> Kernel Nat) (addressSet : Nat -> Nat) (position : Nat)
    (arrays : (Nat -> Nat) × (Nat -> Nat)) : Kernel ((Nat -> Nat) × (Nat -> Nat)) := do
  let (replacementOrder, stale) := arrays
  let cleared := fun i => if i < ways then 0 else stale i
  let misses ← forRange (fun target misses => do
    if alreadyPlaced ways replacementOrder (addressSet target) then
      return .next misses
    let count ← probe target
    return .next (Function.update misses target count)) 0 ways cleared
  return (placeMember ways position addressSet misses replacementOrder, misses)

/-- `determineReplacementOrder`, with its probes as a parameter: the last address of
the chain, the address that follows it, the members, the position and the
candidate are what a probe is given. -/
def determineReplacementOrderWith (probe : Nat -> Nat -> (Nat -> Nat) -> Nat -> Nat -> Kernel Nat) (bound : Nat)
    (translationCaches : Nat -> TranslationCache) (setStart level : Nat) : Kernel (Nat -> Nat) := do
  let cache := translationCaches level
  enter .determineReplacementOrder cache level
  let addressSet ← kmalloc
  let replacementOrder ← kmalloc
  let misses ← kmalloc
  let lastAddress ← lastLink bound setStart
  let addressSet ← forRange (fun i addressSet => do
    let member ← callHash cache.hashFunction setStart i cache.setBits level
    return .next (Function.update addressSet i member)) 0 cache.ways addressSet
  let nextAddress ← callHash cache.hashFunction setStart cache.ways cache.setBits level
  writeData lastAddress nextAddress
  let (replacementOrder, _) ← forRange (fun index arrays => do
    let arrays ← resolvePositionWith cache.ways (probe lastAddress nextAddress addressSet (cache.ways - 1 - index))
      addressSet (cache.ways - 1 - index) arrays
    return .next arrays) 0 cache.ways (replacementOrder, misses)
  return replacementOrder

/-- The source measures with `probeReplacement`. -/
theorem determineReplacementOrder_eq (configuration : Configuration) (bound : Nat)
    (translationCaches : Nat -> TranslationCache) (setStart level : Nat) :
    determineReplacementOrder configuration bound translationCaches setStart level =
      determineReplacementOrderWith (fun lastAddress nextAddress addressSet position target =>
        probeReplacement configuration bound (translationCaches level) level setStart lastAddress nextAddress
          (addressSet target) position) bound translationCaches setStart level :=
  rfl

end Probes

/-! ## The order as a function of the contents -/

section Contents

variable (ways : Nat) (members : Nat -> Nat) (counts : Nat -> Nat -> Nat)

/-- The misses of a position: a candidate whose address already stands in the result
keeps the 0 it was cleared to. -/
def countedMisses (position : Nat) (order : Nat -> Nat) (target : Nat) : Nat :=
  if alreadyPlaced ways order (members target) then 0 else counts position target

/-- Resolve the positions below `remaining`, the last one first. -/
def resolvedFrom : Nat -> (Nat -> Nat) -> (Nat -> Nat)
  | 0, order => order
  | position + 1, order =>
      resolvedFrom position (placeMember ways position members (countedMisses ways members counts position order) order)

variable {ways members counts}

theorem placeMember_congr {position : Nat} {addressSet misses misses' order : Nat -> Nat}
    (addresses : ∀ target, target < ways -> addressSet target = members target)
    (same : ∀ target, target < ways -> misses target = misses' target) :
    placeMember ways position addressSet misses order = placeMember ways position members misses' order := by
  have search : (List.range ways).find? (fun i => reachesThreshold (misses i) iterations) =
      (List.range ways).find? fun i => reachesThreshold (misses' i) iterations :=
    List.find?_congr fun target inside => by rw [same target (List.mem_range.mp inside)]
  unfold placeMember
  rw [search]
  cases found : (List.range ways).find? fun i => reachesThreshold (misses' i) iterations with
  | none => rfl
  | some chosen =>
      exact congrArg (Function.update order position)
        (addresses chosen (List.mem_range.mp (List.mem_of_find?_eq_some found)))

theorem placeMember_of_ne {position other : Nat} {misses order : Nat -> Nat} (different : other ≠ position) :
    placeMember ways position members misses order other = order other := by
  unfold placeMember
  cases (List.range ways).find? fun i => reachesThreshold (misses i) iterations with
  | none => rfl
  | some chosen => exact Function.update_of_ne different _ _

/-- A position is written in its own turn only. -/
theorem resolvedFrom_of_le {remaining position : Nat} (order : Nat -> Nat) (measured : remaining ≤ position) :
    resolvedFrom ways members counts remaining order position = order position := by
  induction remaining generalizing order with
  | zero => rfl
  | succ remaining inductionHypothesis =>
      rw [resolvedFrom, inductionHypothesis _ (Nat.le_of_succ_le measured)]
      exact placeMember_of_ne (Nat.ne_of_gt measured)

/-- The last position is resolved first, from the contents themselves. -/
theorem resolvedFrom_last (order : Nat -> Nat) (last : Nat) :
    resolvedFrom ways members counts (last + 1) order last =
      placeMember ways last members (countedMisses ways members counts last order) order last := by
  rw [resolvedFrom, resolvedFrom_of_le _ (Nat.le_refl last)]

/-- Every slot keeps what it held or holds a member. -/
theorem resolvedFrom_cases (remaining : Nat) (order : Nat -> Nat) (slot : Nat) :
    resolvedFrom ways members counts remaining order slot = order slot ∨
      ∃ chosen, chosen < ways ∧ resolvedFrom ways members counts remaining order slot = members chosen := by
  induction remaining generalizing order with
  | zero => exact Or.inl rfl
  | succ remaining inductionHypothesis =>
      rw [resolvedFrom]
      rcases inductionHypothesis (placeMember ways remaining members
        (countedMisses ways members counts remaining order) order) with kept | placed
      · rw [kept]
        exact placeMember_cases ways remaining members _ order slot
      · exact Or.inr placed

/-- A candidate that is skipped takes no position. -/
theorem placeMember_ne_skipped (injective : Function.Injective members) {position skipped : Nat} {order : Nat -> Nat}
    (placed : alreadyPlaced ways order (members skipped) = true) (free : order position ≠ members skipped) :
    placeMember ways position members (countedMisses ways members counts position order) order position ≠
      members skipped := by
  unfold placeMember
  cases found : (List.range ways).find? fun i =>
      reachesThreshold (countedMisses ways members counts position order i) iterations with
  | none => exact free
  | some chosen =>
      have reached := List.find?_some (p := fun i =>
        reachesThreshold (countedMisses ways members counts position order i) iterations) found
      simp only [Function.update_self]
      intro same
      rw [injective same, countedMisses, if_pos placed] at reached
      exact absurd reached (by decide)

end Contents

/-! ## Every run of the measurement -/

/-- `determineReplacementOrder` with a fixed miss count for every probe.  The counts
are given for all positions and targets; which of them are asked for depends on the
contents of the arrays. -/
def orderFromCounts (counts : Nat -> Nat -> Nat) (bound : Nat) (translationCaches : Nat -> TranslationCache)
    (setStart level : Nat) : Kernel (Nat -> Nat) :=
  determineReplacementOrderWith (fun _ _ _ position target => ret (counts position target)) bound translationCaches
    setStart level

section Runs

variable {ways : Nat} {members addressSet : Nat -> Nat} {counts : Nat -> Nat -> Nat}

/-- With its counts fixed, a position issues no operation.  What it does to the
order then is a function of the order, and the counts of the candidates that are
placed already are replaced by 0. -/
theorem resolvePositionWith_counts (counts : Nat -> Nat -> Nat)
    (addresses : ∀ target, target < ways -> addressSet target = members target)
    (position : Nat) (order stale : Nat -> Nat) :
    ∃ misses, resolvePositionWith ways (fun target => ret (counts position target)) addressSet position
      (order, stale) =
        ret (placeMember ways position members (countedMisses ways members counts position order) order, misses) := by
  have returns : Returns (fun _ (_ : Unit) => none) (resolvePositionWith ways
      (fun target => ret (counts position target)) addressSet position (order, stale)) () fun arrays _ =>
        arrays.1 = placeMember ways position members (countedMisses ways members counts position order) order := by
    refine returns_bind.mpr ((returns_forRange (fun index misses _ => ∀ target, target < ways ->
      misses target = if target < index then countedMisses ways members counts position order target else 0)
      0 ways _ () ?_ ?_).mono ?_)
    · intro target below
      rw [if_neg (Nat.not_lt_zero _)]
      exact if_pos below
    · intro index misses _ _ below counted
      rw [Nat.zero_add] at below
      have address := addresses index below
      by_cases placed : alreadyPlaced ways order (addressSet index) = true
      · rw [if_pos placed]
        rw [address] at placed
        refine (returns_ret _).mpr ⟨misses, rfl, fun target inside => ?_⟩
        rw [counted target inside]
        rcases Nat.lt_trichotomy target index with before | rfl | after
        · rw [if_pos before, if_pos (Nat.lt_succ_of_lt before)]
        · rw [if_neg (Nat.lt_irrefl _), if_pos (Nat.lt_succ_self _), countedMisses, if_pos placed]
        · rw [if_neg (Nat.not_lt_of_gt after), if_neg (Nat.not_lt.mpr after)]
      · rw [if_neg placed]
        rw [address] at placed
        refine (returns_ret _).mpr ⟨_, rfl, fun target inside => ?_⟩
        rcases Nat.lt_trichotomy target index with before | rfl | after
        · rw [Function.update_of_ne (Nat.ne_of_lt before), counted target inside, if_pos before,
            if_pos (Nat.lt_succ_of_lt before)]
        · rw [Function.update_self, if_pos (Nat.lt_succ_self _), countedMisses, if_neg placed]
        · rw [Function.update_of_ne (Nat.ne_of_gt after), counted target inside,
            if_neg (Nat.not_lt_of_gt after), if_neg (Nat.not_lt.mpr after)]
    · intro misses _ counted
      refine (returns_ret _).mpr (placeMember_congr addresses fun target below => ?_)
      rw [counted target below, Nat.zero_add, if_pos below]
  rcases returns.eq_ret with ⟨arrays, same, holds⟩
  exact ⟨arrays.2, by rw [same, ← holds]⟩

/-- The loop over the positions computes `resolvedFrom`. -/
theorem resolvePositions_counts (counts : Nat -> Nat -> Nat)
    (addresses : ∀ target, target < ways -> addressSet target = members target)
    (order stale : Nat -> Nat) :
    ∃ misses, forRange (fun index arrays => do
        let arrays ← resolvePositionWith ways (fun target => ret (counts (ways - 1 - index) target)) addressSet
          (ways - 1 - index) arrays
        return .next arrays) 0 ways (order, stale) =
      (ret (resolvedFrom ways members counts ways order, misses) : Kernel ((Nat -> Nat) × (Nat -> Nat))) := by
  have returns : Returns (fun _ (_ : Unit) => none) (forRange (fun index arrays => do
      let arrays ← resolvePositionWith ways (fun target => ret (counts (ways - 1 - index) target)) addressSet
        (ways - 1 - index) arrays
      return .next arrays) 0 ways (order, stale)) () fun arrays _ =>
        arrays.1 = resolvedFrom ways members counts ways order := by
    refine (returns_forRange (fun index arrays _ => resolvedFrom ways members counts (ways - index) arrays.1 =
      resolvedFrom ways members counts ways order) 0 ways _ () rfl ?_).mono ?_
    · rintro index ⟨order', stale'⟩ _ _ below holds
      rw [Nat.zero_add] at below
      rcases resolvePositionWith_counts counts addresses (ways - 1 - index) order' stale' with
        ⟨misses, same⟩
      rw [same, ret_bind]
      refine (returns_ret _).mpr ⟨_, rfl, ?_⟩
      rw [← holds]
      have later : ways - (index + 1) = ways - 1 - index := by omega
      have earlier : ways - index = ways - 1 - index + 1 := by omega
      rw [later, earlier, resolvedFrom]
    · intro arrays _ holds
      rw [Nat.zero_add, Nat.sub_self] at holds
      exact holds
  rcases returns.eq_ret with ⟨arrays, same, holds⟩
  exact ⟨arrays.2, by rw [same, ← holds]⟩

/-- The members of the set that starts at an address. -/
def memberOf (hash : HashFunction) (translationCaches : Nat -> TranslationCache) (setStart level target : Nat) : Nat :=
  hash.apply setStart target (translationCaches level).setBits level

theorem memberOf_strictMono (hash : HashFunction) (translationCaches : Nat -> TranslationCache) {setStart : Nat}
    (level : Nat) (fits : setStart < 2 ^ 64) : StrictMono (memberOf hash translationCaches setStart level) := by
  intro first second before
  unfold memberOf
  rw [hash.apply_eq _ _ _ fits, hash.apply_eq _ _ _ fits]
  exact Nat.add_lt_add_right ((pageAddress_lt_iff _ _ _).mpr (hash.entry_strictMono _ _ before)) _

variable {fresh : (Nat -> Nat) -> Prop} {translationCaches : Nat -> TranslationCache} {level setStart bound : Nat}
  {hash : HashFunction}

/-- What a run returns is resolved from what the allocation held. -/
theorem measures_orderFromCounts (recorded : (translationCaches level).hashFunction = .to hash) :
    Measures fresh (orderFromCounts counts bound translationCaches setStart level) fun order =>
      ∃ contents, fresh contents ∧ order = resolvedFrom (translationCaches level).ways
        (memberOf hash translationCaches setStart level) counts (translationCaches level).ways contents := by
  unfold orderFromCounts determineReplacementOrderWith
  simp only [recorded]
  apply measures_then
  intro _
  apply measures_then
  intro addressArray
  refine measures_bind.mpr (measures_kmalloc.mpr fun contents allowed => ?_)
  apply measures_then
  intro stale
  apply measures_then
  intro lastAddress
  refine measures_bind.mpr ((measures_addressSet setStart level _ _ addressArray).mono ?_)
  intro addressSet _ addresses
  apply measures_then
  intro nextAddress
  apply measures_then
  intro _
  rcases resolvePositions_counts counts addresses contents stale with ⟨misses, same⟩
  rw [same]
  exact ⟨contents, allowed, rfl⟩

/-- Whatever the allocation may hold, some run starts from it. -/
theorem attains_orderFromCounts (positive : 1 ≤ bound)
    (recorded : (translationCaches level).hashFunction = .to hash) (contents : Nat -> Nat) (allowed : fresh contents) :
    Attains fresh (orderFromCounts counts bound translationCaches setStart level) fun order =>
      order = resolvedFrom (translationCaches level).ways (memberOf hash translationCaches setStart level) counts
        (translationCaches level).ways contents := by
  have allocates : Attains fresh kmalloc fun array => array = contents := attains_kmalloc allowed
  unfold orderFromCounts determineReplacementOrderWith
  simp only [recorded]
  refine attains_then (attains_enter _ _ _) fun _ => ?_
  refine attains_then (allocates.mono fun _ _ _ => trivial) fun addressArray => ?_
  refine attains_bind.mpr (allocates.mono ?_)
  rintro _ _ rfl
  refine attains_then (allocates.mono fun _ _ _ => trivial) fun stale => ?_
  refine attains_then (attains_lastLink positive setStart) fun lastAddress => ?_
  refine attains_bind.mpr ((attains_addressSet hash setStart level _ _ addressArray).mono ?_)
  intro addressSet _ addresses
  refine attains_then ((attains_callHash hash _ _ _ _).mono fun _ _ _ => trivial) fun nextAddress => ?_
  refine attains_then (attains_writeData _ _) fun _ => ?_
  rcases resolvePositions_counts counts addresses _ stale with ⟨misses, same⟩
  rw [same]
  rfl

end Runs

/-! ## Independence of the contents -/

/-- What a returned order is meant to be: every slot is unresolved or holds a member,
and no member occurs in two slots. -/
structure WellFormedOrder (ways : Nat) (members order : Nat -> Nat) : Prop where
  slots : ∀ position, position < ways ->
    order position = 0 ∨ ∃ target, target < ways ∧ order position = members target
  once : ∀ target first second, target < ways -> first < ways -> second < ways ->
    order first = members target -> order second = members target -> first = second

/-- However the allocations are filled, the order is well formed, and a second run
from other contents returns the same one. -/
def IndependentOfContents (ways : Nat) (members : Nat -> Nat) (measurement : Kernel (Nat -> Nat)) : Prop :=
  Measures (fun _ => True) measurement fun first => WellFormedOrder ways members first ∧
    Measures (fun _ => True) measurement fun second => ∀ position, position < ways -> first position = second position

section Contents

variable {ways : Nat} {members : Nat -> Nat} {counts : Nat -> Nat -> Nat}

/-- A single member that misses often enough is placed, skipped or not. -/
theorem resolvedFrom_single (reached : reachesThreshold (counts 0 0) iterations = true) (contents : Nat -> Nat) :
    resolvedFrom 1 members counts 1 contents 0 = members 0 := by
  rw [resolvedFrom_last]
  by_cases placed : alreadyPlaced 1 contents (members 0) = true
  · rcases placeMember_cases 1 0 members (countedMisses 1 members counts 0 contents) contents 0 with
      kept | ⟨chosen, below, same⟩
    · rw [kept]
      rcases alreadyPlaced_iff.mp placed with ⟨slot, below, same⟩
      rwa [Nat.lt_one_iff.mp below] at same
    · rw [same, Nat.lt_one_iff.mp below]
  · have found : (List.range 1).find? (fun i =>
        reachesThreshold (countedMisses 1 members counts 0 contents i) iterations) = some 0 := by
      rw [List.range_one, List.find?_cons_of_pos]
      rw [countedMisses, if_neg placed]
      exact reached
    unfold placeMember
    rw [found]
    exact Function.update_self _ _ _

/-- Contents without a member skip nothing. -/
theorem countedMisses_of_fresh {contents : Nat -> Nat} {position target : Nat}
    (absent : ∀ slot, slot < ways -> contents slot ≠ members target) :
    countedMisses ways members counts position contents target = counts position target := by
  refine if_neg fun placed => ?_
  rcases alreadyPlaced_iff.mp placed with ⟨slot, below, same⟩
  exact absent slot below same

/-- For two ways or more, and any counts, two contents lead to different words in
the last slot. The two contents are made of words above all members, which are none
of them. If no candidate is placed from such a content, the slot keeps its word, and
two of these words differ; otherwise the candidate that is placed is skipped as soon
as it stands in the first slot. -/
theorem exists_different_orders (increasing : StrictMono members) (counts : Nat -> Nat -> Nat) (last : Nat)
    (several : 0 < last) :
    ∃ first second : Nat -> Nat, resolvedFrom (last + 1) members counts (last + 1) first last ≠
      resolvedFrom (last + 1) members counts (last + 1) second last := by
  have above : ∀ word target, members last < word -> target < last + 1 -> word ≠ members target := by
    intro word target larger below same
    rw [same] at larger
    exact absurd (increasing.lt_iff_lt.mp larger) (Nat.not_lt.mpr (Nat.le_of_lt_succ below))
  have clean : ∀ word target, members last < word -> target < last + 1 ->
      countedMisses (last + 1) members counts last (fun _ => word) target = counts last target :=
    fun word target larger below => countedMisses_of_fresh fun _ _ => above word target larger below
  have measured : ∀ word, members last < word ->
      resolvedFrom (last + 1) members counts (last + 1) (fun _ => word) last =
        placeMember (last + 1) last members (counts last) (fun _ => word) last := by
    intro word larger
    rw [resolvedFrom_last, placeMember_congr (fun _ _ => rfl) fun target below => clean word target larger below]
  have larger : members last < members last + 1 := Nat.lt_succ_self _
  cases found : (List.range (last + 1)).find? fun i => reachesThreshold (counts last i) iterations with
  | none =>
      refine ⟨fun _ => members last + 1, fun _ => members last + 2, ?_⟩
      rw [measured _ larger, measured _ (Nat.lt_succ_of_lt larger)]
      unfold placeMember
      rw [found]
      exact Nat.ne_of_lt (Nat.lt_succ_self _)
  | some chosen =>
      have below := List.mem_range.mp (List.mem_of_find?_eq_some found)
      refine ⟨fun _ => members last + 1, Function.update (fun _ => members last + 1) 0 (members chosen), ?_⟩
      have placed : resolvedFrom (last + 1) members counts (last + 1) (fun _ => members last + 1) last =
          members chosen := by
        rw [measured _ larger]
        unfold placeMember
        rw [found]
        exact Function.update_self _ _ _
      rw [placed, resolvedFrom_last]
      refine (placeMember_ne_skipped increasing.injective ?_ ?_).symm
      · exact alreadyPlaced_iff.mpr ⟨0, Nat.succ_pos last, Function.update_self _ _ _⟩
      · rw [Function.update_of_ne (Nat.ne_of_gt several)]
        exact above _ _ larger below

end Contents

section Independence

variable {translationCaches : Nat -> TranslationCache} {level setStart bound : Nat} {hash : HashFunction}

/-- Two contents that lead to different words in a slot refute the independence. -/
theorem IndependentOfContents.same (counts : Nat -> Nat -> Nat) (positive : 1 ≤ bound)
    (recorded : (translationCaches level).hashFunction = .to hash)
    (independent : IndependentOfContents (translationCaches level).ways
      (memberOf hash translationCaches setStart level)
      (orderFromCounts counts bound translationCaches setStart level))
    (first second : Nat -> Nat) (position : Nat) (below : position < (translationCaches level).ways) :
    resolvedFrom (translationCaches level).ways (memberOf hash translationCaches setStart level) counts
        (translationCaches level).ways first position =
      resolvedFrom (translationCaches level).ways (memberOf hash translationCaches setStart level) counts
        (translationCaches level).ways second position := by
  rcases independent.of_reaches (attains_orderFromCounts positive recorded first trivial) with
    ⟨_, _, ⟨_, again⟩, rfl⟩
  rcases again.of_reaches (attains_orderFromCounts positive recorded second trivial) with
    ⟨_, _, same, rfl⟩
  exact same position below

/-- From zeroed slots every position is resolved as it was measured. -/
theorem placed_resolvedFrom {ways : Nat} {members : Nat -> Nat} (counts : Nat -> Nat -> Nat)
    (nonzero : ∀ target, target < ways -> members target ≠ 0) {remaining : Nat} {order : Nat -> Nat}
    {misses : Nat -> Nat -> Nat} (inside : remaining ≤ ways) (placed : Placed ways remaining ⟨order, misses⟩) :
    ∃ misses, Placed ways 0 ⟨resolvedFrom ways members counts remaining order, misses⟩ := by
  induction remaining generalizing order misses with
  | zero => exact ⟨misses, placed⟩
  | succ remaining inductionHypothesis =>
      exact inductionHypothesis (Nat.le_of_succ_le inside)
        (placed.place inside nonzero fun _ _ skipped => if_pos skipped)

/-- Were the slots zeroed, as the caller assumes, every run would return the same
order, and a well-formed one. -/
theorem orderFromCounts_zeroed (counts : Nat -> Nat -> Nat)
    (recorded : (translationCaches level).hashFunction = .to hash) (positive : 0 < setStart)
    (fits : setStart < 2 ^ 64) :
    ∃ order, WellFormedOrder (translationCaches level).ways (memberOf hash translationCaches setStart level) order ∧
      Measures zeroed (orderFromCounts counts bound translationCaches setStart level) fun result =>
        result = order := by
  have increasing := memberOf_strictMono hash translationCaches level fits
  have first : memberOf hash translationCaches setStart level 0 = setStart := by
    unfold memberOf
    rw [hash.apply_eq _ _ _ fits, hash.entry_zero]
    exact address_split level setStart
  have nonzero : ∀ target, target < (translationCaches level).ways ->
      memberOf hash translationCaches setStart level target ≠ 0 := by
    intro target _
    have least := increasing.monotone (Nat.zero_le target)
    rw [first] at least
    exact Nat.ne_of_gt (Nat.lt_of_lt_of_le positive least)
  have empty : Placed (translationCaches level).ways (translationCaches level).ways ⟨fun _ => 0, fun _ _ => 0⟩ :=
    ⟨fun _ _ => rfl, fun _ _ _ _ impossible => absurd rfl impossible,
      fun _ lower below => absurd below (Nat.not_lt.mpr lower)⟩
  rcases placed_resolvedFrom counts nonzero (Nat.le_refl _) empty with ⟨misses, placed⟩
  refine ⟨resolvedFrom (translationCaches level).ways (memberOf hash translationCaches setStart level) counts
    (translationCaches level).ways fun _ => 0, ⟨?_, ?_⟩, (measures_orderFromCounts recorded).mono ?_⟩
  · intro position _
    exact resolvedFrom_cases (translationCaches level).ways (fun _ => 0) position
  · intro target slot other below small small' held held'
    exact placed.once slot other small small' (by
      dsimp only
      rw [held]
      exact nonzero target below) (held.trans held'.symm)
  · rintro _ _ ⟨_, rfl, rfl⟩
    rfl

/-- Below the threshold the only slot keeps what it held. -/
theorem resolvedFrom_quiet {members : Nat -> Nat} {counts : Nat -> Nat -> Nat}
    (quiet : ¬ reachesThreshold (counts 0 0) iterations = true) (contents : Nat -> Nat) :
    resolvedFrom 1 members counts 1 contents 0 = contents 0 := by
  rw [resolvedFrom_last]
  have found : (List.range 1).find? (fun i => reachesThreshold
      (countedMisses 1 members counts 0 contents i) iterations) = none := by
    refine List.find?_eq_none.mpr fun target inside reached => ?_
    rw [Nat.lt_one_iff.mp (List.mem_range.mp inside), countedMisses] at reached
    split at reached
    · exact absurd reached (by decide)
    · exact quiet reached
  unfold placeMember
  rw [found]

/-- Where the contents do not matter, there is at most one member, and it reaches
the threshold. -/
theorem IndependentOfContents.few {counts : Nat -> Nat -> Nat} (positive : 1 ≤ bound)
    (recorded : (translationCaches level).hashFunction = .to hash) (fits : setStart < 2 ^ 64)
    (independent : IndependentOfContents (translationCaches level).ways
      (memberOf hash translationCaches setStart level)
      (orderFromCounts counts bound translationCaches setStart level)) :
    (translationCaches level).ways = 0 ∨
      (translationCaches level).ways = 1 ∧ reachesThreshold (counts 0 0) iterations = true := by
  have increasing := memberOf_strictMono hash translationCaches level fits
  have same := independent.same counts positive recorded
  rcases count : (translationCaches level).ways with _ | last
  · exact Or.inl rfl
  rw [count] at same
  rcases Nat.eq_zero_or_pos last with rfl | several
  · refine Or.inr ⟨rfl, ?_⟩
    by_contra quiet
    have contradiction := same (fun _ => 0) (fun _ => 1) 0 (Nat.lt_succ_self 0)
    rw [resolvedFrom_quiet quiet, resolvedFrom_quiet quiet] at contradiction
    exact absurd contradiction (by decide)
  · rcases exists_different_orders increasing counts last several with ⟨first, second, different⟩
    exact absurd (same first second last (Nat.lt_succ_self last)) different

/-- A single member that reaches the threshold is placed whatever the slots held. -/
theorem independentOfContents_single {counts : Nat -> Nat -> Nat}
    (recorded : (translationCaches level).hashFunction = .to hash) (single : (translationCaches level).ways = 1)
    (reached : reachesThreshold (counts 0 0) iterations = true) :
    IndependentOfContents (translationCaches level).ways (memberOf hash translationCaches setStart level)
      (orderFromCounts counts bound translationCaches setStart level) := by
  have slot : ∀ position, position < 1 -> position = 0 := fun _ => Nat.lt_one_iff.mp
  apply (measures_orderFromCounts recorded).mono
  rintro _ _ ⟨first, _, rfl⟩
  rw [single]
  refine ⟨⟨?_, ?_⟩, ?_⟩
  · intro position below
    rw [slot position below, resolvedFrom_single reached]
    exact Or.inr ⟨0, Nat.one_pos, rfl⟩
  · intro _ firstSlot secondSlot _ below below' _ _
    rw [slot firstSlot below, slot secondSlot below']
  · apply (measures_orderFromCounts recorded).mono
    rintro _ _ ⟨second, _, rfl⟩ position below
    rw [single, slot position below, resolvedFrom_single reached, resolvedFrom_single reached]

/-- With no members there is nothing to place. -/
theorem independentOfContents_empty {counts : Nat -> Nat -> Nat}
    (recorded : (translationCaches level).hashFunction = .to hash) (nothing : (translationCaches level).ways = 0) :
    IndependentOfContents (translationCaches level).ways (memberOf hash translationCaches setStart level)
      (orderFromCounts counts bound translationCaches setStart level) := by
  apply (measures_orderFromCounts recorded).mono
  rintro _ _ ⟨first, _, rfl⟩
  rw [nothing]
  refine ⟨⟨fun _ impossible => absurd impossible (Nat.not_lt_zero _),
    fun _ _ _ impossible => absurd impossible (Nat.not_lt_zero _)⟩, ?_⟩
  exact (ensures_trivial _).mono fun _ _ _ _ impossible => absurd impossible (Nat.not_lt_zero _)

/-- For every structure, start address and miss counts, the order is well formed and
the same for all contents exactly if there is nothing to place, or one member that
reaches the threshold.  The contents are those of the blocks that the allocator
returns, which the source never clears.  A stale word that equals a member keeps
this member from being probed. -/
theorem determineReplacementOrder_independent_iff (configuration : Configuration) (positive : 1 ≤ bound)
    (recorded : (translationCaches level).hashFunction = .to hash) (fits : setStart < 2 ^ 64) :
    determineReplacementOrder configuration bound translationCaches setStart level =
        determineReplacementOrderWith (fun lastAddress nextAddress addressSet position target =>
          probeReplacement configuration bound (translationCaches level) level setStart lastAddress nextAddress
            (addressSet target) position) bound translationCaches setStart level ∧
      ∀ counts : Nat -> Nat -> Nat,
        IndependentOfContents (translationCaches level).ways (memberOf hash translationCaches setStart level)
            (orderFromCounts counts bound translationCaches setStart level) ↔
          (translationCaches level).ways = 0 ∨
            (translationCaches level).ways = 1 ∧ reachesThreshold (counts 0 0) iterations = true := by
  refine ⟨determineReplacementOrder_eq configuration bound translationCaches setStart level, fun counts => ?_⟩
  constructor
  · exact IndependentOfContents.few positive recorded fits
  · rintro (nothing | ⟨single, reached⟩)
    · exact independentOfContents_empty recorded nothing
    · exact independentOfContents_single recorded single reached

/-- One way, whose only probe always misses. -/
theorem determineReplacementOrder_independent_iff_oneWay :
    determineReplacementOrder defaultConfiguration 8 (fun _ => ⟨2, 1, .to .linHash⟩) baseAddress 2 =
        determineReplacementOrderWith (fun lastAddress nextAddress addressSet position target =>
          probeReplacement defaultConfiguration 8 ⟨2, 1, .to .linHash⟩ 2 baseAddress lastAddress nextAddress
            (addressSet target) position) 8 (fun _ => ⟨2, 1, .to .linHash⟩) baseAddress 2 ∧
      ∀ counts : Nat -> Nat -> Nat,
        IndependentOfContents 1 (memberOf .linHash (fun _ => ⟨2, 1, .to .linHash⟩) baseAddress 2)
            (orderFromCounts counts 8 (fun _ => ⟨2, 1, .to .linHash⟩) baseAddress 2) ↔
          1 = 0 ∨ 1 = 1 ∧ reachesThreshold (counts 0 0) iterations = true :=
  determineReplacementOrder_independent_iff defaultConfiguration (by decide) rfl (by decide)

/-- The second member misses at the first position, the first one at the second. -/
def crossedCounts (position target : Nat) : Nat :=
  if position + target = 1 then iterations else 0

/-- What a block holds that was the address set of an earlier call. -/
def earlierAddressSet : Nat -> Nat :=
  memberOf .linHash twoWays baseAddress 2

/-- A block that was the address set of an earlier call keeps both members where
they stand; a zeroed one ends with them exchanged. -/
theorem determineReplacementOrder_keeps_stale :
    ¬ IndependentOfContents 2 (memberOf .linHash twoWays baseAddress 2)
      (orderFromCounts crossedCounts 1 twoWays baseAddress 2) := by
  intro independent
  have same := independent.same crossedCounts (by decide) rfl (fun _ => 0) earlierAddressSet 0 (by decide)
  exact absurd same (by decide)

end Independence

end Talbot
