import Talbot.Kernel.Replacement
import Talbot.Machine.SetChains

namespace Talbot

/-!
The replacement policy measurement on an LRU cache.

Before each probe the members of the set have been used in a fixed order, and
then as many fresh entries as the position asks for.  Under LRU exactly the
members used longest ago are gone, so each position, counted from the end,
resolves to the next member of that order.
-/

open Foundations Program

namespace Machine

variable {geometry : CacheGeometry} {level entry : Nat}

/-- The chain of the set is in memory.  `order` lists the numbers of its members
by their last use along the chain, oldest first. -/
structure HoldsSet (machine : Machine (geometry.lru level)) (entry : Nat) (nodes : List Nat)
    (last stop : Nat) (order : List Nat) : Prop where
  path : Path machine.memory (geometry.memberPage level entry 0 0) (nodes ++ [last]) stop
  distinct : (nodes ++ [last]).Nodup
  pages : ∀ node, node ∈ nodes ++ [last] -> ∃ index page, index < geometry.ways ∧ page ≤ 2 ∧
    geometry.memberPage level entry index page = node
  recency : ((nodes ++ [last]).map (entryOf level)).dedup = order.map (geometry.member entry)
  members : order.Perm (List.range geometry.ways)

variable {configuration : Configuration} {machine : Machine (geometry.lru level)}
  {nodes order : List Nat} {last : Nat}

/-- The target is gone exactly if it is among the first in the order of last use, as
many as fresh entries were inserted. The order of last use of the whole history is
that of the members, followed by the fresh entries. -/
theorem holds_after_fillers (room : geometry.RoomForTwoSets configuration level entry)
    (holds : HoldsSet machine entry nodes last (geometry.memberPage level entry geometry.ways 0) order)
    {target fresh : Nat} (inside : target < geometry.ways) (few : fresh + 1 ≤ geometry.ways)
    (warm : List Nat) :
    (geometry.lru level).holds ((warm ++ (nodes ++ [last] ++
        geometry.singleChain level entry geometry.ways fresh)).foldl (geometry.lru level).access
        (geometry.lru level).empty) (geometry.memberPage level entry target 511) = false ↔
      target ∈ order.take (fresh + 1) := by
  have isLevel := room.isLevel
  have injective := geometry.member_injective entry
  have member_lt : ∀ index, index ∈ order -> index < geometry.ways := fun index known =>
    List.mem_range.mp (holds.members.subset known)
  have recency : ((nodes ++ [last] ++ geometry.singleChain level entry geometry.ways fresh).map
      (entryOf level)).dedup = order.map (geometry.member entry) ++
        (List.range' geometry.ways (fresh + 1)).map (geometry.member entry) := by
    rw [List.map_append, List.Disjoint.dedup_append, holds.recency,
      CacheGeometry.singleChain_entries isLevel]
    intro other old new
    rw [← List.mem_dedup, holds.recency] at old
    rw [← List.mem_dedup, CacheGeometry.singleChain_entries isLevel] at new
    rcases List.mem_map.mp old with ⟨index, known, rfl⟩
    rcases List.mem_map.mp new with ⟨later, range, same⟩
    have below := member_lt index known
    rw [injective same, List.mem_range'_1] at range
    omega
  have full : (order.map (geometry.member entry)).length = geometry.ways := by
    rw [List.length_map, holds.members.length_eq, List.length_range]
  have sameSet : ∀ other, other ∈ nodes ++ [last] ++ geometry.singleChain level entry geometry.ways fresh ->
      geometry.index (entryOf level other) =
        geometry.index (entryOf level (geometry.memberPage level entry target 511)) := by
    intro other known
    rw [CacheGeometry.entryOf_memberPage isLevel (by decide), geometry.member_set]
    rcases List.mem_append.mp known with old | new
    · rcases holds.pages other old with ⟨index, page, _, small, rfl⟩
      rw [CacheGeometry.entryOf_memberPage isLevel (by omega), geometry.member_set]
    · rcases CacheGeometry.mem_singleChain new with ⟨index, page, _, _, small, rfl⟩
      rw [CacheGeometry.entryOf_memberPage isLevel (by omega), geometry.member_set]
  have enough : geometry.ways ≤ ((nodes ++ [last] ++
      geometry.singleChain level entry geometry.ways fresh).map (entryOf level)).dedup.length := by
    rw [recency, List.length_append, full]
    exact Nat.le_add_right _ _
  have distinct : (order.map (geometry.member entry)).Nodup :=
    (holds.members.nodup_iff.mpr List.nodup_range).map injective
  have known : geometry.member entry target ∈ order.map (geometry.member entry) :=
    List.mem_map_of_mem (holds.members.mem_iff.mpr (List.mem_range.mpr inside))
  have old : geometry.member entry target ∉ (List.range' geometry.ways (fresh + 1)).map (geometry.member entry) := by
    intro new
    rcases List.mem_map.mp new with ⟨later, range, same⟩
    rw [injective same, List.mem_range'_1] at range
    omega
  have kept := mem_take_after_fresh distinct full
    (by rw [List.length_map, List.length_range']; exact few) known old
  rw [← Bool.not_eq_true, CacheGeometry.lru_holds_recent sameSet enough, recency,
    CacheGeometry.entryOf_memberPage isLevel (by decide), kept,
    not_not, List.length_map, List.length_range', ← List.map_take, List.mem_map_of_injective injective]

/-- One iteration of the measurement.  The chain through the set is followed first,
the target's entries are exchanged, the fresh entries are read, and the last read
tells whether the target is gone. -/
theorem returns_probeAfterFillers (room : geometry.RoomForTwoSets configuration level entry)
    (ready : Ready machine)
    (holds : HoldsSet machine entry nodes last (geometry.memberPage level entry geometry.ways 0) order)
    {target fresh bound misses : Nat} {cache : TranslationCache}
    (inside : target < geometry.ways) (few : fresh + 1 ≤ geometry.ways)
    (fillers : Path machine.memory (geometry.memberPage level entry geometry.ways 0)
      (geometry.singleChain level entry geometry.ways fresh) (geometry.memberPage level entry target 511))
    (enough : nodes.length ≤ bound) (enoughFresh : fresh + 2 ≤ bound) :
    Returns (handle level) (probeAfterFillers configuration bound cache level
      (geometry.memberPage level entry 0 0) last (geometry.memberPage level entry target 511)
      (walksTo (geometry.memberPage level entry target 0)
        (complementaryOf (geometry.memberPage level entry target 0))) misses) machine
      fun result final => Ready final ∧ final.memory = machine.memory ∧
        result = if target ∈ order.take (fresh + 1) then misses + 1 else misses := by
  have isLevel := room.isLevel
  rcases path_append.mp holds.path with ⟨_, toLast, atEnd, lastPoints⟩
  rw [atEnd] at toLast
  have lastFresh : last ∉ nodes := fun known =>
    (List.disjoint_of_nodup_append holds.distinct) known List.mem_cons_self
  unfold probeAfterFillers
  rw [returns_bind, returns_flushMmuCaches, returns_bind]
  apply (returns_warmUp configuration _ machine.flush).mono
  rintro _ warmed ⟨warm, warmUp⟩
  have warmReady := warmUp.ready ready.flush
  rw [returns_bind]
  apply returns_followIdle warmReady (by rw [warmUp.memory_eq]; exact toLast) lastFresh enough
  intro atLast followed
  have lastReady := followed.ready warmReady
  have next : atLast.content level last = geometry.memberPage level entry geometry.ways 0 := by
    rw [content_of_idle lastReady.idle, followed.memory_eq, warmUp.memory_eq]
    exact lastPoints
  rw [returns_bind, returns_readData, next]
  simp only [returns_bind]
  have before : Touched machine.flush (atLast.touch last) (warm ++ nodes ++ [last]) :=
    (warmUp.trans followed).trans ⟨rfl, rfl, rfl, rfl⟩
  have away : ∀ node, node ∈ geometry.singleChain level entry geometry.ways fresh ->
      entryOf level (geometry.memberPage level entry target 0) ≠ entryOf level node := by
    intro node known same
    rcases CacheGeometry.mem_singleChain known with ⟨index, page, lower, _, small, rfl⟩
    rw [CacheGeometry.entryOf_memberPage isLevel (by decide),
      CacheGeometry.entryOf_memberPage isLevel (by omega)] at same
    have equal := geometry.member_injective entry same
    omega
  have ends : geometry.memberPage level entry target 511 ∉
      geometry.singleChain level entry geometry.ways fresh := by
    intro known
    rcases CacheGeometry.mem_singleChain known with ⟨index, page, _, _, small, same⟩
    have pages := CacheGeometry.memberPage_injective isLevel (by omega) (by decide) same
    omega
  apply returns_observeAfter .readData (before.ready ready.flush) (by rw [before.memory_eq]; exact fillers)
    ends away
    (by simp only [CacheGeometry.singleChain, List.length_cons, List.length_map, List.length_range']; omega)
    (by rw [CacheGeometry.entryOf_memberPage isLevel (by decide),
      CacheGeometry.entryOf_memberPage isLevel (by decide)])
  intro value during seen swapped
  refine (returns_switchLevel_back swapped.exchanged).mpr ((returns_ret _).mpr ⟨?_, ?_, ?_⟩)
  · exact ⟨rfl, (swapped.ready (before.ready ready.flush)).clean⟩
  · exact swapped.memory_eq.trans before.memory_eq
  · rw [before.cached_eq, ← List.foldl_append, List.append_assoc, List.append_assoc,
      ← List.append_assoc nodes] at seen
    exact if_congr (seen.trans (holds_after_fillers room holds inside few warm)) rfl rfl

/-- The set chain only depends on its own slots. -/
theorem HoldsSet.congr {stop : Nat} {final : Machine (geometry.lru level)}
    (holds : HoldsSet machine entry nodes last stop order)
    (agree : ∀ node, node ∈ nodes ++ [last] -> final.memory node = machine.memory node) :
    HoldsSet final entry nodes last stop order :=
  ⟨holds.path.congr fun node known => (agree node known).symm, holds.distinct, holds.pages,
    holds.recency, holds.members⟩

/-- One candidate at one position: it misses always or never.  It misses if it is
among the members that were used least recently, as many as fresh entries are read
for this position. -/
theorem returns_probeReplacement (room : geometry.RoomForTwoSets configuration level entry)
    (ready : Ready machine)
    (holds : HoldsSet machine entry nodes last (geometry.memberPage level entry geometry.ways 0) order)
    {target position bound : Nat} (inside : target < geometry.ways) (valid : position < geometry.ways)
    (enough : nodes.length ≤ bound) (enoughFresh : geometry.ways + 1 ≤ bound) :
    Returns (handle level) (probeReplacement configuration bound geometry.record level
      (geometry.memberPage level entry 0 0) last (geometry.memberPage level entry geometry.ways 0)
      (geometry.memberPage level entry target 0) position) machine fun misses final =>
        Ready final ∧
        HoldsSet final entry nodes last (geometry.memberPage level entry geometry.ways 0) order ∧
        misses = if target ∈ order.take (geometry.ways - position) then iterations else 0 := by
  have isLevel := room.isLevel
  have stop : prefixAligned (geometry.memberPage level entry target 0) level =
      geometry.memberPage level entry target 511 := prefixAligned_pageAddress rfl
  have fresh : geometry.ways - position - 1 + 1 = geometry.ways - position := by omega
  unfold probeReplacement
  simp only [stop]
  rw [returns_bind, returns_walkPair, returns_bind]
  apply (returns_buildSingleChain room ready (by simp only [CacheGeometry.record]; omega)
    (room.memberPage_ne_signal target 511)).mono
  rintro _ built ⟨ready, fillers, frame⟩
  have stays := holds.congr fun node known => frame node fun filler => by
    rcases holds.pages node known with ⟨index, page, below, small, rfl⟩
    rcases CacheGeometry.mem_singleChain filler with ⟨later, other, above, _, small', same⟩
    have equal := CacheGeometry.memberPage_injective isLevel (by omega) (by omega) same
    omega
  rw [returns_bind]
  apply Returns.mono (returns_forRange (fun index misses (state : Machine (geometry.lru level)) =>
    Ready state ∧ state.memory = built.memory ∧
      misses = if target ∈ order.take (geometry.ways - position) then index else 0)
    0 iterations 0 built ⟨ready, rfl, (ite_self 0).symm⟩ _)
  · rintro misses final ⟨ready, memory, rfl⟩
    rw [returns_bind, returns_flushMmuCaches]
    refine (returns_ret _).mpr ⟨ready.flush, stays.congr fun node _ => ?_, by rw [Nat.zero_add]⟩
    exact congrFun memory node
  · rintro index misses state _ _ ⟨ready, memory, rfl⟩
    rw [returns_bind]
    have still : HoldsSet state entry nodes last (geometry.memberPage level entry geometry.ways 0) order :=
      stays.congr fun node _ => congrFun memory node
    have few : geometry.ways - position - 1 + 1 ≤ geometry.ways := by omega
    apply (returns_probeAfterFillers room ready still inside few (by rw [memory]; exact fillers) enough
      (by omega)).mono
    rintro _ final ⟨after, same, rfl⟩
    refine (returns_ret _).mpr ⟨_, rfl, after, same.trans memory, ?_⟩
    rw [fresh]
    by_cases gone : target ∈ order.take (geometry.ways - position)
    · rw [if_pos gone, if_pos gone, if_pos gone]
    · rw [if_neg gone, if_neg gone, if_neg gone]

/-! ## Filling the positions -/

/-- The first positions from the end hold the first members of the order, the
others are still empty. -/
def PlacedUpTo (geometry : CacheGeometry) (level entry : Nat) (order : List Nat) (count : Nat)
    (replacementOrder : Nat -> Nat) : Prop :=
  ∀ slot, slot < geometry.ways -> replacementOrder slot =
    if geometry.ways - count ≤ slot then
      geometry.memberPage level entry (order.getD (geometry.ways - 1 - slot) 0) 0
    else 0

theorem mem_take_iff_getD {order : List Nat} {count target : Nat} (short : count ≤ order.length) :
    target ∈ order.take count ↔ ∃ index, index < count ∧ order.getD index 0 = target := by
  rw [List.mem_take_iff_getElem]
  constructor
  · rintro ⟨index, small, same⟩
    rw [Nat.lt_min] at small
    exact ⟨index, small.1, by rw [List.getD_eq_getElem _ _ small.2, same]⟩
  · rintro ⟨index, small, same⟩
    have inside : index < order.length := Nat.lt_of_lt_of_le small short
    rw [List.getD_eq_getElem _ _ inside] at same
    exact ⟨index, Nat.lt_min.mpr ⟨small, inside⟩, same⟩

section Placing

variable (room : geometry.RoomForTwoSets configuration level entry)
  (members : order.Perm (List.range geometry.ways))

include room members

theorem alreadyPlaced_iff {count target : Nat} {replacementOrder : Nat -> Nat}
    (placed : PlacedUpTo geometry level entry order count replacementOrder) (small : count ≤ geometry.ways) :
    alreadyPlaced geometry.ways replacementOrder (geometry.memberPage level entry target 0) = true ↔
      target ∈ order.take count := by
  have length : order.length = geometry.ways := by rw [members.length_eq, List.length_range]
  rw [mem_take_iff_getD (by omega), alreadyPlaced, List.any_eq_true]
  constructor
  · rintro ⟨slot, inRange, found⟩
    have below := List.mem_range.mp inRange
    have same := beq_iff_eq.mp found
    rw [placed slot below] at same
    by_cases filled : geometry.ways - count ≤ slot
    · rw [if_pos filled] at same
      exact ⟨geometry.ways - 1 - slot, by omega,
        (CacheGeometry.memberPage_injective room.isLevel (by decide) (by decide) same).1.symm⟩
    · rw [if_neg filled] at same
      exact absurd same (room.memberPage_ne_zero target 0)
  · rintro ⟨index, before, rfl⟩
    refine ⟨geometry.ways - 1 - index, List.mem_range.mpr (by omega), beq_iff_eq.mpr ?_⟩
    rw [placed _ (by omega), if_pos (by omega), show geometry.ways - 1 - (geometry.ways - 1 - index) = index
      by omega]

omit room in
/-- The only candidate that misses and is not placed yet is the next one.  The
candidates that would miss because fewer entries replace them were placed in the
rounds before. -/
theorem placeMember_next {count : Nat} {replacementOrder misses addressSet : Nat -> Nat}
    (placed : PlacedUpTo geometry level entry order count replacementOrder) (next : count < geometry.ways)
    (addresses : ∀ index, index < geometry.ways ->
      addressSet index = geometry.memberPage level entry index 0)
    (counted : ∀ index, index < geometry.ways ->
      misses index = if order.getD count 0 = index then iterations else 0) :
    PlacedUpTo geometry level entry order (count + 1)
      (placeMember geometry.ways (geometry.ways - 1 - count) addressSet misses replacementOrder) := by
  have length : order.length = geometry.ways := by rw [members.length_eq, List.length_range]
  have inside : order.getD count 0 < geometry.ways := by
    rw [List.getD_eq_getElem _ _ (by omega)]
    exact List.mem_range.mp (members.subset (List.getElem_mem _))
  have found : (List.range geometry.ways).find? (fun i => reachesThreshold (misses i) iterations) =
      some (order.getD count 0) := by
    rw [List.find?_range_eq_some]
    refine ⟨?_, List.mem_range.mpr inside, fun other before => ?_⟩
    · rw [counted _ inside, if_pos rfl]
      decide
    · rw [counted other (by omega), if_neg (by omega)]
      decide
  unfold placeMember
  rw [found]
  intro slot below
  dsimp only
  by_cases here : slot = geometry.ways - 1 - count
  · subst here
    rw [Function.update_self, if_pos (by omega), addresses _ inside,
      show geometry.ways - 1 - (geometry.ways - 1 - count) = count by omega]
  · rw [Function.update_of_ne here, placed slot below]
    by_cases filled : geometry.ways - count ≤ slot
    · rw [if_pos filled, if_pos (by omega)]
    · rw [if_neg filled, if_neg (by omega)]

end Placing

/-- One round of the loop over the positions.  The rounds before have placed the
members that are replaced first, so this one places the next in the order of last
use. -/
theorem returns_resolvePosition (room : geometry.RoomForTwoSets configuration level entry)
    (ready : Ready machine)
    (holds : HoldsSet machine entry nodes last (geometry.memberPage level entry geometry.ways 0) order)
    {count bound : Nat} {addressSet : Nat -> Nat} (next : count < geometry.ways)
    (enough : nodes.length ≤ bound) (enoughFresh : geometry.ways + 1 ≤ bound)
    (addresses : ∀ index, index < geometry.ways ->
      addressSet index = geometry.memberPage level entry index 0)
    (arrays : (Nat -> Nat) × (Nat -> Nat)) (placed : PlacedUpTo geometry level entry order count arrays.1) :
    Returns (handle level) (resolvePosition configuration bound geometry.record level
      (geometry.memberPage level entry 0 0) last (geometry.memberPage level entry geometry.ways 0)
      addressSet (geometry.ways - 1 - count) arrays) machine fun result final =>
        Ready final ∧
        HoldsSet final entry nodes last (geometry.memberPage level entry geometry.ways 0) order ∧
        PlacedUpTo geometry level entry order (count + 1) result.1 := by
  have length : order.length = geometry.ways := by rw [holds.members.length_eq, List.length_range]
  have distinct : order.Nodup := holds.members.nodup_iff.mpr List.nodup_range
  have nextMember : order.take (count + 1) = order.take count ++ [order.getD count 0] := by
    rw [List.take_add_one, List.getElem?_eq_getElem (by omega), List.getD_eq_getElem _ _ (by omega)]
    rfl
  have unplaced : order.getD count 0 ∉ order.take count := by
    have parts := distinct.sublist (List.take_sublist (count + 1) order)
    rw [nextMember] at parts
    exact fun known => (List.disjoint_of_nodup_append parts) known List.mem_cons_self
  unfold resolvePosition
  rw [returns_bind]
  apply Returns.mono (returns_forRange (fun target misses (state : Machine (geometry.lru level)) =>
    Ready state ∧
    HoldsSet state entry nodes last (geometry.memberPage level entry geometry.ways 0) order ∧
    ∀ index, index < geometry.ways ->
      misses index = if order.getD count 0 = index ∧ index < target then iterations else 0)
    0 geometry.ways _ machine ⟨ready, holds, _⟩ _)
  · rintro misses final ⟨ready, holds, counted⟩
    refine (returns_ret _).mpr ⟨ready, holds, ?_⟩
    apply placeMember_next holds.members placed next addresses
    intro index below
    rw [counted index below, Nat.zero_add]
    exact if_congr ⟨fun both => both.1, fun same => ⟨same, below⟩⟩ rfl rfl
  · intro index below
    rw [if_neg (fun both => Nat.not_lt_zero _ both.2)]
    exact if_pos below
  · rintro target misses state _ inside ⟨ready, holds, counted⟩
    rw [Nat.zero_add] at inside
    have done : alreadyPlaced geometry.record.ways arrays.1 (geometry.memberPage level entry target 0) = true ↔
        target ∈ order.take count := alreadyPlaced_iff room holds.members placed (Nat.le_of_lt next)
    rw [addresses target inside]
    by_cases skip : target ∈ order.take count
    · rw [if_pos (done.mpr skip)]
      refine (returns_ret _).mpr ⟨_, rfl, ready, holds, fun index below => ?_⟩
      rw [counted index below]
      refine if_congr ⟨fun both => ⟨both.1, Nat.lt_succ_of_lt both.2⟩, fun both => ⟨both.1, ?_⟩⟩ rfl rfl
      rcases Nat.lt_succ_iff_lt_or_eq.mp both.2 with before | rfl
      · exact before
      · exact (unplaced (both.1 ▸ skip)).elim
    · rw [if_neg (fun found => skip (done.mp found)), returns_bind]
      apply (returns_probeReplacement room ready holds inside
        (show geometry.ways - 1 - count < geometry.ways by omega) enough enoughFresh).mono
      rintro _ final ⟨after, still, rfl⟩
      refine (returns_ret _).mpr ⟨_, rfl, after, still, fun index below => ?_⟩
      rw [show geometry.ways - (geometry.ways - 1 - count) = count + 1 by omega, nextMember]
      by_cases here : index = target
      · subst here
        rw [Function.update_self]
        refine if_congr ⟨fun known => ⟨?_, Nat.lt_succ_self index⟩, fun both => ?_⟩ rfl rfl
        · exact (List.mem_singleton.mp ((List.mem_append.mp known).resolve_left skip)).symm
        · exact List.mem_append_right _ (List.mem_singleton.mpr both.1.symm)
      · rw [Function.update_of_ne here, counted index below]
        exact if_congr ⟨fun both => ⟨both.1, Nat.lt_succ_of_lt both.2⟩,
          fun both => ⟨both.1, by omega⟩⟩ rfl rfl

/-! ## The replacement order -/

private theorem returns_lastLoop {model : TranslationModel} {machine : Machine model}
    {start bound : Nat} {nodes : List Nat} (previous : Nat) (ready : Ready machine)
    (path : Path machine.memory start nodes 0) (nonzero : ∀ node, node ∈ nodes -> node ≠ 0)
    (enough : nodes.length ≤ bound) :
    Returns (handle level) (whileLoop (fun (p, _) => p != 0) (fun (p, _) => do
      let next ← readData p
      return (next, p)) bound (start, previous)) machine fun result final =>
        result.2 = nodes.getLastD previous ∧ Touched machine final nodes := by
  induction nodes generalizing machine bound start previous with
  | nil =>
      obtain rfl : start = 0 := path
      rw [whileLoop_stop, returns_ret]
      · exact ⟨rfl, rfl, rfl, rfl, rfl⟩
      · exact bne_self_eq_false 0
  | cons node rest inductionHypothesis =>
      rcases path with ⟨rfl, path⟩
      obtain ⟨bound, rfl⟩ : ∃ smaller, bound = smaller + 1 := ⟨bound - 1, by
        rw [List.length_cons] at enough
        omega⟩
      have current : machine.content level start = machine.memory start :=
        content_of_idle ready.idle
      rw [whileLoop_next ?continues]
      case continues => exact bne_iff_ne.mpr (nonzero start List.mem_cons_self)
      rw [returns_bind, returns_bind, returns_readData, current]
      refine (returns_ret _).mpr ?_
      have touched : Touched machine (machine.touch start) [start] := ⟨rfl, rfl, rfl, rfl⟩
      have touchedPath : Path (machine.touch start).memory (machine.memory start) rest 0 := path
      apply (inductionHypothesis start (touched.ready ready) touchedPath
        (fun later known => nonzero later (List.mem_cons_of_mem _ known))
        (Nat.le_of_succ_le_succ enough)).mono
      rintro result final ⟨same, later⟩
      rw [List.getLastD_cons]
      exact ⟨same, touched.trans later⟩

/-- Following the set chain to its end finds the last node. -/
theorem returns_lastLink {model : TranslationModel} {machine : Machine model} {start last bound : Nat}
    {nodes : List Nat} (ready : Ready machine) (path : Path machine.memory start (nodes ++ [last]) 0)
    (nonzero : ∀ node, node ∈ nodes ++ [last] -> node ≠ 0) (enough : (nodes ++ [last]).length ≤ bound) :
    Returns (handle level) (lastLink bound start) machine fun result final =>
      result = last ∧ Touched machine final (nodes ++ [last]) := by
  unfold lastLink
  rw [returns_bind]
  apply (returns_lastLoop start ready path nonzero enough).mono
  rintro ⟨_, result⟩ final ⟨same, touched⟩
  rw [List.getLastD_concat] at same
  exact (returns_ret _).mpr ⟨same, touched⟩

/-- Closing the set chain with another address. -/
theorem returns_redirectLast (ready : Ready machine) {stop next : Nat}
    (holds : HoldsSet machine entry nodes last stop order) (noSignal : next ≠ signal) :
    Returns (handle level) (writeData last next) machine fun _ final =>
      Ready final ∧ HoldsSet final entry nodes last next order := by
  apply (returns_writeData_idle ready.idle).mono
  intro _ final written
  rcases path_append.mp holds.path with ⟨_, toLast, atEnd, _⟩
  have lastFresh : last ∉ nodes := fun known =>
    (List.disjoint_of_nodup_append holds.distinct) known List.mem_cons_self
  refine ⟨⟨written.idle, ?_⟩, ?_, holds.distinct, holds.pages, holds.recency, holds.members⟩
  · rw [written.memory_eq, written.complementary_eq]
    exact keptByWrites_clean _ _ _ _ noSignal ready.clean
  · rw [written.memory_eq]
    refine path_append.mpr ⟨last, ?_, rfl, Function.update_self _ _ _⟩
    rw [atEnd] at toLast
    apply toLast.congr
    intro node known
    exact (Function.update_of_ne (fun same : node = last => lastFresh (same ▸ known)) _ _).symm

theorem returns_determineReplacementOrder (room : geometry.RoomForTwoSets configuration level entry)
    (ready : Ready machine) (holds : HoldsSet machine entry nodes last 0 order) {bound : Nat}
    (enough : nodes.length + 1 ≤ bound) (enoughFresh : geometry.ways + 1 ≤ bound)
    (translationCaches : Nat -> TranslationCache) (recorded : translationCaches level = geometry.record) :
    Returns (handle level) (determineReplacementOrder configuration bound translationCaches
      (geometry.memberPage level entry 0 0) level) machine fun result final =>
        Ready final ∧ PlacedUpTo geometry level entry order geometry.ways result := by
  have nonzero : ∀ node, node ∈ nodes ++ [last] -> node ≠ 0 := by
    intro node known
    rcases holds.pages node known with ⟨index, page, _, _, rfl⟩
    exact room.memberPage_ne_zero index page
  have hashed : ∀ index, geometry.hash.apply (geometry.memberPage level entry 0 0) index geometry.setBits
      level = geometry.memberPage level entry index 0 := by
    intro index
    rw [room.apply_member index (Nat.zero_le _), Nat.zero_add]
  unfold determineReplacementOrder
  rw [recorded]
  simp only [returns_bind, returns_enter, returns_kmalloc]
  apply (returns_lastLink ready holds.path nonzero
    (by rw [List.length_append]; exact enough)).mono
  rintro _ followed ⟨rfl, touched⟩
  have still := holds.congr fun node _ => congrFun touched.memory_eq node
  apply Returns.mono (returns_forRange (fun count addressSet (state : Machine (geometry.lru level)) =>
    state = followed ∧ ∀ index, index < count ->
      addressSet index = geometry.memberPage level entry index 0) 0 geometry.ways _ followed
    ⟨rfl, fun index impossible => absurd impossible (Nat.not_lt_zero index)⟩ _)
  · rintro addressSet _ ⟨rfl, addresses⟩
    rw [Nat.zero_add] at addresses
    simp only [CacheGeometry.record, returns_callHash, hashed]
    apply (returns_redirectLast (touched.ready ready) still (room.memberPage_ne_signal _ 0)).mono
    rintro _ redirected ⟨ready, holds⟩
    apply Returns.mono (returns_forRange (fun count arrays (state : Machine (geometry.lru level)) =>
      Ready state ∧
      HoldsSet state entry nodes _ (geometry.memberPage level entry geometry.ways 0) order ∧
      PlacedUpTo geometry level entry order count arrays.1) 0 geometry.ways _ redirected
      ⟨ready, holds, fun slot below => (if_neg (by omega)).symm⟩ _)
    · rintro arrays final ⟨ready, _, placed⟩
      rw [Nat.zero_add] at placed
      exact (returns_ret _).mpr ⟨ready, placed⟩
    · rintro count arrays state _ next ⟨ready, holds, placed⟩
      rw [returns_bind]
      apply (returns_resolvePosition room ready holds (by omega) (by omega) enoughFresh addresses arrays
        placed).mono
      intro result final round
      exact (returns_ret _).mpr ⟨_, rfl, round⟩
  · rintro count addressSet _ _ _ ⟨rfl, addresses⟩
    simp only [CacheGeometry.record, returns_bind, returns_callHash, hashed]
    refine (returns_ret _).mpr ⟨_, rfl, rfl, fun index before => ?_⟩
    by_cases here : index = count
    · rw [here, Function.update_self]
    · rw [Function.update_of_ne here]
      exact addresses index (by omega)

/-! ## The two chains of the permutation measurement -/

/-- The chain that only passes through the set leaves the members in their
enumeration order. -/
theorem holdsSet_single (room : geometry.RoomForTwoSets configuration level entry) {stop : Nat}
    (path : Path machine.memory (geometry.memberPage level entry 0 0)
      (geometry.singleChain level entry 0 (geometry.ways - 1)) stop) :
    ∃ nodes last, nodes.length = geometry.ways ∧
      HoldsSet machine entry nodes last stop (List.range geometry.ways) := by
  have positive := room.positive
  have split := List.dropLast_append_getLast
    (List.cons_ne_nil (geometry.memberPage level entry 0 0) (geometry.memberPage level entry 0 1 ::
      (List.range' (0 + 1) (geometry.ways - 1)).map fun k => geometry.memberPage level entry k 0))
  refine ⟨_, _, ?_, ⟨by rw [split]; exact path, ?_, ?_, ?_, List.Perm.refl _⟩⟩
  · simp only [List.length_dropLast, List.length_cons, List.length_map, List.length_range']
    omega
  · rw [split]
    exact CacheGeometry.singleChain_nodup room.isLevel 0 (geometry.ways - 1)
  · rw [split]
    intro node known
    rcases CacheGeometry.mem_singleChain known with ⟨index, page, _, below, small, same⟩
    exact ⟨index, page, by omega, by omega, same⟩
  · rw [split]
    refine (CacheGeometry.singleChain_entries room.isLevel 0 (geometry.ways - 1)).trans ?_
    rw [Nat.sub_add_cancel positive, List.range_eq_range']

/-- The order of last use after one more access to a member. -/
def orderAfter (ways member : Nat) : List Nat :=
  (List.range ways).filter (fun other => decide (other ≠ member)) ++ [member]

theorem orderAfter_perm {ways member : Nat} (inside : member < ways) :
    (orderAfter ways member).Perm (List.range ways) := by
  have fresh : member ∉ (List.range ways).filter fun other => decide (other ≠ member) := by
    intro known
    exact of_decide_eq_true (List.mem_filter.mp known).2 rfl
  have distinct : (orderAfter ways member).Nodup := by
    refine List.nodup_append'.mpr ⟨List.nodup_range.filter _, List.nodup_singleton _, ?_⟩
    intro other known single
    exact fresh (List.mem_singleton.mp single ▸ known)
  apply (List.perm_ext_iff_of_nodup distinct List.nodup_range).mpr
  intro other
  simp only [orderAfter, List.mem_append, List.mem_filter, List.mem_range, decide_eq_true_eq,
    List.mem_singleton]
  constructor
  · rintro (⟨below, _⟩ | rfl)
    · exact below
    · exact inside
  · intro below
    by_cases same : other = member
    · exact Or.inr same
    · exact Or.inl ⟨below, same⟩

/-- With the third page of one member after it, that member comes last.  The page
belongs to the entry of the member, so it is a hit that only changes the order. -/
theorem holdsSet_extra (room : geometry.RoomForTwoSets configuration level entry) {member stop : Nat}
    (inside : member < geometry.ways)
    (path : Path machine.memory (geometry.memberPage level entry 0 0)
      (geometry.singleChain level entry 0 (geometry.ways - 1)) (geometry.memberPage level entry member 2))
    (last : machine.memory (geometry.memberPage level entry member 2) = stop) :
    HoldsSet machine entry (geometry.singleChain level entry 0 (geometry.ways - 1))
      (geometry.memberPage level entry member 2) stop (orderAfter geometry.ways member) := by
  have isLevel := room.isLevel
  have positive := room.positive
  have fresh := CacheGeometry.thirdPage_notMem_singleChain geometry entry isLevel member 0 (geometry.ways - 1)
  refine ⟨path_append.mpr ⟨_, path, rfl, last⟩, ?_, ?_, ?_, orderAfter_perm inside⟩
  · refine List.nodup_append'.mpr ⟨CacheGeometry.singleChain_nodup isLevel 0 _, List.nodup_singleton _, ?_⟩
    intro node known single
    exact fresh (List.mem_singleton.mp single ▸ known)
  · intro node known
    rcases List.mem_append.mp known with known | single
    · rcases CacheGeometry.mem_singleChain known with ⟨index, page, _, below, small, same⟩
      exact ⟨index, page, by omega, by omega, same⟩
    · exact ⟨member, 2, inside, Nat.le_refl 2, (List.mem_singleton.mp single).symm⟩
  · apply List.reverse_injective
    rw [List.map_append, dedup_append_reverse, CacheGeometry.singleChain_entries isLevel,
      Nat.sub_add_cancel positive, ← List.range_eq_range', List.map_singleton,
      CacheGeometry.entryOf_memberPage isLevel (by decide), orderAfter, List.map_append, List.reverse_append,
      List.filter_reverse, List.filter_map]
    have others : ∀ index, (decide (index ≠ member)) =
        decide (geometry.member entry index ∉ [geometry.member entry member]) := by
      intro index
      apply decide_eq_decide.mpr
      rw [List.mem_singleton, (geometry.member_injective entry).eq_iff]
    rw [funext others]
    rfl

/-! ## The rows of the permutation vectors -/

/-- Where the entry at a position after one more access to the entry at position
`hit` was before: in front comes the one that was hit. -/
def lruRow (hit position : Nat) : Nat :=
  if position = 0 then hit else if position ≤ hit then position - 1 else position

theorem map_lruRow {ways hit : Nat} (inside : hit < ways) :
    (List.range ways).map (lruRow hit) =
      hit :: (List.range hit ++ List.range' (hit + 1) (ways - 1 - hit)) := by
  obtain ⟨rest, rfl⟩ : ∃ rest, ways = hit + rest + 1 := ⟨ways - 1 - hit, by omega⟩
  rw [List.range_succ_eq_map, List.map_cons, List.map_map, List.range_add, List.map_append, List.map_map,
    show hit + rest + 1 - 1 - hit = rest by omega, List.range'_eq_map_range]
  congr 2
  · refine (List.map_congr_left fun position early => ?_).trans (List.map_id _)
    rw [List.mem_range] at early
    simp only [Function.comp_apply, lruRow, id_eq]
    rw [if_neg (Nat.succ_ne_zero position), if_pos (by omega), Nat.succ_sub_one]
  · apply List.map_congr_left
    intro offset _
    simp only [Function.comp_apply, lruRow]
    rw [if_neg (Nat.succ_ne_zero _), if_neg (by omega)]
    omega

theorem filter_range_ne {ways member : Nat} (inside : member < ways) :
    (List.range ways).filter (fun other => decide (other ≠ member)) =
      List.range member ++ List.range' (member + 1) (ways - 1 - member) := by
  obtain ⟨rest, rfl⟩ : ∃ rest, ways = member + (rest + 1) := ⟨ways - 1 - member, by omega⟩
  rw [List.range_add, List.filter_append, show member + (rest + 1) - 1 - member = rest by omega,
    List.range'_eq_map_range, List.range_succ_eq_map, List.map_cons, List.filter_cons_of_neg
      (by simp only [Nat.add_zero, ne_eq, not_true_eq_false, decide_false, Bool.false_eq_true,
        not_false_eq_true])]
  congr 1
  · apply List.filter_eq_self.mpr
    intro other before
    exact decide_eq_true (Nat.ne_of_lt (List.mem_range.mp before))
  · rw [List.map_map, List.filter_eq_self.mpr]
    · apply List.map_congr_left
      intro offset _
      simp only [Function.comp_apply]
      omega
    · intro other later
      rcases List.mem_map.mp later with ⟨offset, _, rfl⟩
      exact decide_eq_true (by simp only [Function.comp_apply]; omega)

/-- Counted from the end, the order after a hit is the row of the hit. -/
theorem orderAfter_getD {ways hit position : Nat} (inside : hit < ways) (valid : position < ways) :
    (orderAfter ways (ways - 1 - hit)).getD (ways - 1 - position) 0 = ways - 1 - lruRow hit position := by
  have others := filter_range_ne (show ways - 1 - hit < ways by omega)
  have length : ((List.range ways).filter fun other => decide (other ≠ ways - 1 - hit)).length =
      ways - 1 := by
    rw [others, List.length_append, List.length_range, List.length_range']
    omega
  unfold orderAfter lruRow
  by_cases front : position = 0
  · rw [if_pos front, List.getD_append_right _ _ _ _ (by omega), length, front, Nat.sub_zero, Nat.sub_self]
    rfl
  · rw [if_neg front, List.getD_append _ _ _ _ (by omega), others]
    by_cases early : position ≤ hit
    · rw [if_pos early, List.getD_append_right _ _ _ _ (by rw [List.length_range]; omega),
        List.length_range, List.getD_eq_getElem _ _ (by rw [List.length_range']; omega), List.getElem_range']
      omega
    · rw [if_neg early, List.getD_append _ _ _ _ (by rw [List.length_range]; omega),
        List.getD_eq_getElem _ _ (by rw [List.length_range]; omega), List.getElem_range]

/-- The row that the source computes from the orders before and after a hit.  No
member stands at two positions of either order, so the inner search of the source
finds the one position there is. -/
theorem permutationRow_eq (room : geometry.RoomForTwoSets configuration level entry) {hit : Nat}
    {initialOrder currentOrder : Nat -> Nat} (inside : hit < geometry.ways)
    (initial : PlacedUpTo geometry level entry (List.range geometry.ways) geometry.ways initialOrder)
    (current : PlacedUpTo geometry level entry (orderAfter geometry.ways (geometry.ways - 1 - hit))
      geometry.ways currentOrder) (row : Nat -> Int) {position : Nat} (valid : position < geometry.ways) :
    permutationRow geometry.ways initialOrder currentOrder row position = (lruRow hit position : Int) := by
  have bounded : lruRow hit position < geometry.ways := by
    unfold lruRow
    by_cases front : position = 0
    · rwa [if_pos front]
    · by_cases early : position ≤ hit
      · rw [if_neg front, if_pos early]
        omega
      · rwa [if_neg front, if_neg early]
  have before : ∀ slot, slot < geometry.ways ->
      initialOrder slot = geometry.memberPage level entry (geometry.ways - 1 - slot) 0 := by
    intro slot below
    rw [initial slot below, if_pos (by omega), List.getD_eq_getElem _ _ (by rw [List.length_range]; omega),
      List.getElem_range]
  have after : currentOrder position =
      geometry.memberPage level entry (geometry.ways - 1 - lruRow hit position) 0 := by
    rw [current position valid, if_pos (by omega), orderAfter_getD inside valid]
  have found : (List.range geometry.ways).find? (fun k => initialOrder k == currentOrder position) =
      some (lruRow hit position) := by
    rw [List.find?_range_eq_some]
    refine ⟨?_, List.mem_range.mpr bounded, ?_⟩
    · rw [before _ bounded, after]
      exact beq_self_eq_true _
    · intro other earlier
      rw [before other (by omega), after, Bool.not_eq_true', beq_eq_false_iff_ne]
      intro same
      have equal := (CacheGeometry.memberPage_injective room.isLevel (by decide) (by decide) same).1
      omega
  rw [permutationRow, if_pos valid, found]

/-- One round of the loop over the rows: the chain is built again, with the extra
page of one member behind it, and the order is measured after it. -/
theorem returns_orderAfterHit (room : geometry.RoomForTwoSets configuration level entry) (ready : Ready machine)
    {bound member : Nat} (inside : member < geometry.ways) (enough : geometry.ways + 2 ≤ bound)
    (translationCaches : Nat -> TranslationCache) (recorded : translationCaches level = geometry.record) :
    Returns (handle level) (do
      buildPointerChainFromHashSingle configuration (geometry.memberPage level entry 0 0)
        (geometry.memberPage level entry member 2) (geometry.ways - 1) (.to geometry.hash) geometry.setBits level
      writeData (geometry.memberPage level entry member 2) 0
      determineReplacementOrder configuration bound translationCaches
        (geometry.memberPage level entry 0 0) level) machine fun order final =>
      Ready final ∧
        PlacedUpTo geometry level entry (orderAfter geometry.ways member) geometry.ways order := by
  have isLevel := room.isLevel
  rw [returns_bind]
  apply (returns_buildSingleChain room ready (by omega) (room.memberPage_ne_signal member 2)).mono
  rintro _ built ⟨ready, path, _⟩
  rw [returns_bind]
  apply (returns_writeData_idle ready.idle).mono
  intro _ closed written
  have closedReady : Ready closed := by
    refine ⟨written.idle, ?_⟩
    rw [written.memory_eq, written.complementary_eq]
    exact keptByWrites_clean _ _ _ _ (by decide) ready.clean
  have fresh := CacheGeometry.thirdPage_notMem_singleChain geometry entry isLevel member 0 (geometry.ways - 1)
  have closedPath : Path closed.memory (geometry.memberPage level entry 0 0)
      (geometry.singleChain level entry 0 (geometry.ways - 1)) (geometry.memberPage level entry member 2) := by
    apply path.congr
    intro node known
    rw [written.memory_eq]
    refine (Function.update_of_ne (fun same => ?_) _ _).symm
    rw [same] at known
    exact fresh known
  have ends : closed.memory (geometry.memberPage level entry member 2) = 0 := by
    rw [written.memory_eq, Function.update_self]
  have holds := holdsSet_extra room inside closedPath ends
  apply returns_determineReplacementOrder room closedReady holds _ (by omega) translationCaches recorded
  simp only [CacheGeometry.singleChain, List.length_cons, List.length_map, List.length_range']
  omega

/-- The order on the initial chain. -/
theorem returns_initialOrder (room : geometry.RoomForTwoSets configuration level entry) (ready : Ready machine)
    {bound : Nat} (enough : geometry.ways + 2 ≤ bound)
    (translationCaches : Nat -> TranslationCache) (recorded : translationCaches level = geometry.record) :
    Returns (handle level) (do
      buildPointerChainFromHashSingle configuration (geometry.memberPage level entry 0 0) 0
        (geometry.ways - 1) (.to geometry.hash) geometry.setBits level
      determineReplacementOrder configuration bound translationCaches
        (geometry.memberPage level entry 0 0) level) machine fun order final =>
      Ready final ∧
        PlacedUpTo geometry level entry (List.range geometry.ways) geometry.ways order := by
  rw [returns_bind]
  apply (returns_buildSingleChain room ready (by omega) (by decide)).mono
  rintro _ built ⟨ready, path, _⟩
  rcases holdsSet_single room path with ⟨nodes, last, length, holds⟩
  exact returns_determineReplacementOrder room ready holds (by omega) (by omega) translationCaches recorded

theorem returns_calculatePermutationVectors (ready : Ready machine)
    (drawn : entry = baseEntry level + machine.randoms 0 % drawableEntries configuration level)
    (room : geometry.RoomForTwoSets configuration level entry) {bound : Nat}
    (enough : geometry.ways + 2 ≤ bound)
    (translationCaches : Nat -> TranslationCache) (recorded : translationCaches level = geometry.record) :
    Returns (handle level) (calculatePermutationVectors configuration bound translationCaches level) machine
      fun vectors final => Ready final ∧
        ∀ hit, hit < geometry.ways -> ∀ position, position < geometry.ways ->
          vectors hit position = (lruRow hit position : Int) := by
  have start : geometry.memberPage level entry 0 0 = baseAddress +
      ((machine.randoms 0 % drawableEntries configuration level) <<< pageTableIndexShift level) := by
    rw [CacheGeometry.memberPage, geometry.member_zero, drawn, baseAddress_add room.isLevel]
  unfold calculatePermutationVectors
  rw [recorded]
  simp only [returns_bind, returns_enter, returns_drawAddress, ← start]
  have drawnReady : Ready { machine with randoms := fun n => machine.randoms (n + 1) } :=
    ⟨ready.idle, ready.clean⟩
  have first := returns_initialOrder room drawnReady enough translationCaches recorded
  rw [returns_bind] at first
  apply first.mono
  intro _ built second
  apply second.mono
  rintro initialOrder measured ⟨ready, initial⟩
  apply Returns.mono (returns_forRange (fun count vectors (state : Machine (geometry.lru level)) =>
    Ready state ∧ ∀ hit, hit < count -> ∀ position, position < geometry.ways ->
      vectors hit position = (lruRow hit position : Int)) 0 geometry.ways _ measured
    ⟨ready, fun hit impossible => absurd impossible (Nat.not_lt_zero hit)⟩ _)
  · rintro vectors final ⟨ready, rows⟩
    rw [Nat.zero_add] at rows
    exact ⟨ready, rows⟩
  · rintro hit vectors state _ inside ⟨ready, rows⟩
    rw [Nat.zero_add] at inside
    have extra : initialOrder hit = geometry.memberPage level entry (geometry.ways - 1 - hit) 0 := by
      rw [initial hit inside, if_pos (by omega),
        List.getD_eq_getElem _ _ (by rw [List.length_range]; omega), List.getElem_range]
    have occupied : initialOrder hit ≠ 0 := by
      rw [extra]
      exact room.memberPage_ne_zero _ 0
    rw [if_neg occupied, extra, CacheGeometry.memberPage_add]
    have round := returns_orderAfterHit room ready (show geometry.ways - 1 - hit < geometry.ways by omega)
      enough translationCaches recorded
    simp only [CacheGeometry.record, returns_bind] at round ⊢
    apply round.mono
    intro _ _ round
    apply round.mono
    intro _ _ round
    apply round.mono
    rintro currentOrder final ⟨ready, current⟩
    refine (returns_ret _).mpr ⟨_, rfl, ready, fun other before position valid => ?_⟩
    by_cases here : other = hit
    · subst here
      rw [Function.update_self]
      exact permutationRow_eq room inside initial current _ valid
    · rw [Function.update_of_ne here]
      exact rows other (by omega) position valid

end Machine

/-! ## The permutation vectors of LRU -/

/-- The start entry that is drawn has room for two sets above it. -/
theorem roomForTwoSets_drawn {configuration : Configuration} {geometry : CacheGeometry}
    {level entry startAddress : Nat} (window : Machine.UsableWindow configuration level)
    (positive : 1 ≤ geometry.ways) (above : baseEntry level ≤ entry)
    (aligned : startAddress = pageAddress level entry 0) (fits : startAddress < 2 ^ 64)
    (inside : insideWindow configuration level
      (geometry.hash.apply startAddress (2 * geometry.ways - 1) geometry.setBits level) = true) :
    geometry.RoomForTwoSets configuration level entry := by
  rw [aligned] at inside fits
  rw [HashFunction.apply_aligned _ _ _ window.isLevel fits, insideWindow_iff window.isLevel] at inside
  exact ⟨window.isLevel, positive, above, inside.2, window.fits⟩

/-- On an LRU cache with the recorded structure, the replacement order of the
initial chain lists its members backwards, and row `hit` of the permutation vectors
moves entry `hit` to the front.  The number of ways, the number of sets and the hash
function are arbitrary, and the cache may hold anything before.  Of the random words
only the first one matters; its set has to lie inside the window together with the
next one. -/
theorem calculatePermutationVectors_lru {configuration : Configuration} {geometry : CacheGeometry}
    {level bound : Nat} (window : Machine.UsableWindow configuration level) (positive : 1 ≤ geometry.ways)
    (enough : geometry.ways + 2 ≤ bound) (translationCaches : Nat -> TranslationCache)
    (recorded : translationCaches level = geometry.record)
    (machine : Machine (geometry.lru level)) (ready : machine.Ready) {startAddress : Nat}
    (drawn : startAddress = baseAddress +
      ((machine.randoms 0 % drawableEntries configuration level) <<< pageTableIndexShift level))
    (inside : insideWindow configuration level
      (geometry.hash.apply startAddress (2 * geometry.ways - 1) geometry.setBits level) = true) :
    Returns (Machine.handle level) (do
      buildPointerChainFromHashSingle configuration startAddress 0 (geometry.ways - 1)
        (.to geometry.hash) geometry.setBits level
      determineReplacementOrder configuration bound translationCaches startAddress level) machine
      (fun order _ => (List.range geometry.ways).map order = (List.range geometry.ways).map fun position =>
        geometry.hash.apply startAddress (geometry.ways - 1 - position) geometry.setBits level) ∧
    Returns (Machine.handle level)
      (calculatePermutationVectors configuration bound translationCaches level) machine
      (fun vectors _ => ∀ hit, hit < geometry.ways -> (List.range geometry.ways).map (vectors hit) =
        (hit :: (List.range hit ++ List.range' (hit + 1) (geometry.ways - 1 - hit))).map Int.ofNat) := by
  have drawable : Machine.Drawable configuration level startAddress := ⟨_, Nat.mod_lt _ window.drawable, drawn⟩
  have fits := window.start_lt drawable
  have aligned := drawn.trans (baseAddress_add window.isLevel _)
  have room := roomForTwoSets_drawn window positive (Nat.le_add_right _ _) aligned fits inside
  have start : startAddress = geometry.memberPage level
      (baseEntry level + machine.randoms 0 % drawableEntries configuration level) 0 0 := by
    rw [aligned, CacheGeometry.memberPage, geometry.member_zero]
  constructor
  · rw [start]
    apply (Machine.returns_initialOrder room ready enough translationCaches recorded).mono
    rintro order _ ⟨_, placed⟩
    apply List.map_congr_left
    intro position valid
    rw [List.mem_range] at valid
    rw [room.apply_member _ (Nat.zero_le _), Nat.zero_add, placed position valid, if_pos (by omega),
      List.getD_eq_getElem _ _ (by rw [List.length_range]; omega), List.getElem_range]
  · apply (Machine.returns_calculatePermutationVectors ready rfl room enough translationCaches recorded).mono
    rintro vectors _ ⟨_, rows⟩ hit valid
    rw [← Machine.map_lruRow valid, List.map_map]
    apply List.map_congr_left
    intro position inRange
    exact rows hit valid position (List.mem_range.mp inRange)

/-- Eight sets of four ways on level 2, from the first entry of the window. -/
theorem calculatePermutationVectors_lru_eightSets :
    Returns (Machine.handle 2) (do
      buildPointerChainFromHashSingle defaultConfiguration baseAddress 0 3 (.to .linShiftHash) 3 2
      determineReplacementOrder defaultConfiguration 6 (fun _ => eightSets.record) baseAddress 2)
      (Machine.afterTrigger (eightSets.lru 2) fun _ => 0)
      (fun order _ => (List.range 4).map order = (List.range 4).map fun position =>
        HashFunction.linShiftHash.apply baseAddress (3 - position) 3 2) ∧
    Returns (Machine.handle 2)
      (calculatePermutationVectors defaultConfiguration 6 (fun _ => eightSets.record) 2)
      (Machine.afterTrigger (eightSets.lru 2) fun _ => 0)
      (fun vectors _ => ∀ hit, hit < 4 -> (List.range 4).map (vectors hit) =
        (hit :: (List.range hit ++ List.range' (hit + 1) (3 - hit))).map Int.ofNat) :=
  calculatePermutationVectors_lru (Machine.usableWindow_default (by decide)) (by decide) (Nat.le_refl _) _ rfl _
    (Machine.afterTrigger_ready _ _) rfl (by decide)

end Talbot
