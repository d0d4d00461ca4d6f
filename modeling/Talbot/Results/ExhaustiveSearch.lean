import Mathlib.Data.List.Basic
import Mathlib.Data.Prod.Lex
import Mathlib.Order.Bounds.Basic
import Talbot.Machine.Answers
import Talbot.Results.UndeterminedStructure

namespace Talbot

/-!
The pruned structure search against an exhaustive one.

The search counts the set bits in its outer loop and the ways in its inner one,
yet it prefers few ways over few sets.  It stays exact under its pruning since a
structure with as many ways that was found before has fewer sets: what it holds
is always the least of the passing candidates it has been through, and whatever
it leaves out has more ways than that.
-/

open Foundations Program

/-! ## Candidates and their order -/

structure Candidate where
  ways : Nat
  setBits : Nat
  hash : HashFunction
  deriving DecidableEq, Repr

namespace Candidate

/-- Where a hash function stands in `hash_functions`. -/
def hashIndex (candidate : Candidate) : Nat :=
  candidateHashes.idxOf candidate.hash

/-- Ways count first, then sets, then the hash function.  The search itself goes
through the sets in its outer loop and through the ways in the inner one, so this is
not the order in which it meets the candidates. -/
def key (candidate : Candidate) : Nat ×ₗ Nat ×ₗ Nat :=
  toLex (candidate.ways, toLex (candidate.setBits, candidate.hashIndex))

instance : Preorder Candidate :=
  Preorder.lift key

theorem le_iff {first second : Candidate} :
    first ≤ second ↔ first.ways < second.ways ∨ first.ways = second.ways ∧
      (first.setBits < second.setBits ∨
        first.setBits = second.setBits ∧ first.hashIndex ≤ second.hashIndex) := by
  change first.key ≤ second.key ↔ _
  unfold key
  rw [Prod.Lex.toLex_le_toLex, Prod.Lex.toLex_le_toLex]

end Candidate

/-- What is recorded for a candidate: its sets, ways and hash function together. -/
def Candidate.structure (candidate : Candidate) : TranslationCache :=
  ⟨candidate.setBits, candidate.ways, .to candidate.hash⟩

/-- The candidates of the search whose misses reach the threshold.  The set is what
a search without pruning would collect; the bounds are those of the loops of the
source. -/
def passing (table : MissTable) (level : Nat) : Set Candidate :=
  fun candidate => candidate.setBits ≤ 8 ∧ 1 ≤ candidate.ways ∧ candidate.ways ≤ 32 ∧
    candidate.hash ∈ candidateHashes ∧
      reachesThreshold (table candidate.ways candidate.setBits candidate.hash level) iterations = true

section Search

variable {table : MissTable} {level : Nat} {leftover : HashPointer × Nat}

/-- What the search has been through before it reaches a number of ways in the row of
a number of set bits. -/
def Explored (setBits ways : Nat) (candidate : Candidate) : Prop :=
  candidate.setBits < setBits ∨ candidate.setBits = setBits ∧ candidate.ways < ways

/-- The state holds the least passing candidate of a region, or nothing passed there
and it is what the search started with. -/
inductive HoldsLeast (table : MissTable) (level : Nat) (leftover : HashPointer × Nat)
    (region : Candidate -> Prop) (state : SearchState) : Prop where
  | found (candidate : Candidate) (least : IsLeast {other | other ∈ passing table level ∧ region other} candidate)
      (holds : state.structure = candidate.structure)
  | nothing (none_passes : ∀ candidate, candidate ∈ passing table level -> ¬ region candidate)
      (unchanged : state = undetermined leftover)

/-- A region that adds no passing candidate below what is held. -/
theorem HoldsLeast.extend {region larger : Candidate -> Prop} {state : SearchState}
    (holdsLeast : HoldsLeast table level leftover region state)
    (includes : ∀ candidate, region candidate -> larger candidate)
    (added : ∀ candidate, candidate ∈ passing table level -> larger candidate -> ¬ region candidate ->
      state.minimumWays < candidate.ways ∨
        state.minimumWays = candidate.ways ∧ state.minimumSetBits < candidate.setBits)
    (below : ∀ candidate, candidate ∈ passing table level -> candidate.ways < (undetermined leftover).minimumWays) :
    HoldsLeast table level leftover larger state := by
  rcases holdsLeast with ⟨candidate, ⟨member, least⟩, holds⟩ | ⟨nothing, rfl⟩
  · refine .found candidate ⟨⟨member.1, includes _ member.2⟩, ?_⟩ holds
    rintro other ⟨passes, inside⟩
    by_cases before : region other
    · exact least ⟨passes, before⟩
    · have ways : state.minimumWays = candidate.ways := congrArg TranslationCache.ways holds
      have setBits : state.minimumSetBits = candidate.setBits := congrArg TranslationCache.setBits holds
      rw [Candidate.le_iff, ← ways, ← setBits]
      rcases added other passes inside before with more | ⟨same, more⟩
      · exact Or.inl more
      · exact Or.inr ⟨same, Or.inl more⟩
  · refine .nothing (fun candidate passes inside => ?_) rfl
    rcases added candidate passes inside (nothing candidate passes) with more | ⟨same, _⟩
    · exact absurd (below candidate passes) (Nat.lt_asymm more)
    · exact absurd (below candidate passes) (by rw [same]; exact Nat.lt_irrefl _)

theorem below_placeholder {candidate : Candidate} (passes : candidate ∈ passing table level) :
    candidate.ways < (undetermined leftover).minimumWays :=
  lt_placeholder passes.2.2.1

/-- A structure with the ways at hand was found in an earlier row. -/
theorem HoldsLeast.fewer_sets {setBits : Nat} {state : SearchState}
    (holdsLeast : HoldsLeast table level leftover (Explored setBits state.minimumWays) state)
    (small : state.minimumWays ≤ 32) : state.minimumSetBits < setBits := by
  rcases holdsLeast with ⟨candidate, ⟨member, _⟩, holds⟩ | ⟨_, rfl⟩
  · have ways : state.minimumWays = candidate.ways := congrArg TranslationCache.ways holds
    have setBits_eq : state.minimumSetBits = candidate.setBits := congrArg TranslationCache.setBits holds
    rcases member.2 with fewer | ⟨_, impossible⟩
    · rwa [setBits_eq]
    · rw [ways] at impossible
      exact absurd impossible (Nat.lt_irrefl _)
  · exact absurd (lt_placeholder small) (Nat.lt_irrefl _)

/-- The number of set bits only grows. -/
theorem HoldsLeast.not_more_sets {setBits ways : Nat} {candidate : Candidate} {state : SearchState}
    (holdsLeast : HoldsLeast table level leftover (Explored setBits ways) state)
    (passes : candidate ∈ passing table level) (explored : Explored setBits ways candidate) :
    state.minimumSetBits ≤ setBits ∧ state.minimumWays ≤ candidate.ways := by
  rcases holdsLeast with ⟨least, ⟨member, lower⟩, holds⟩ | ⟨nothing, _⟩
  · have ways_eq : state.minimumWays = least.ways := congrArg TranslationCache.ways holds
    have setBits_eq : state.minimumSetBits = least.setBits := congrArg TranslationCache.setBits holds
    rw [ways_eq, setBits_eq]
    constructor
    · rcases member.2 with fewer | ⟨same, _⟩
      · exact Nat.le_of_lt fewer
      · exact Nat.le_of_eq same
    · rcases Candidate.le_iff.mp (lower ⟨passes, explored⟩) with less | ⟨same, _⟩
      · exact Nat.le_of_lt less
      · exact Nat.le_of_eq same
  · exact absurd explored (nothing candidate passes)

/-- The first hash function that is accepted ends the loop over them. -/
theorem tryHashes_table (setBits ways : Nat) (hashes : List HashFunction) (state : SearchState) :
    tryHashes table.measure level setBits ways hashes state =
      match hashes.find? fun hash => state.accepts ways setBits (table ways setBits hash level) with
      | some hash => ret ⟨setBits, ways, .to hash, table ways setBits hash level⟩
      | none => ret state := by
  induction hashes with
  | nil => rfl
  | cons hash rest inductionHypothesis =>
      have measured : tryHashes table.measure level setBits ways (hash :: rest) state =
          if state.accepts ways setBits (table ways setBits hash level) then
            ret ⟨setBits, ways, .to hash, table ways setBits hash level⟩
          else tryHashes table.measure level setBits ways rest state := rfl
      rw [measured, List.find?_cons]
      cases answer : state.accepts ways setBits (table ways setBits hash level) with
      | true => rfl
      | false => exact inductionHypothesis

/-- The first hash function with a property stands before all others that have it. -/
theorem idxOf_le_of_find? {hashes : List HashFunction} {property : HashFunction -> Bool} {first other : HashFunction}
    (found : hashes.find? property = some first) (member : other ∈ hashes) (holds : property other = true) :
    hashes.idxOf first ≤ hashes.idxOf other := by
  induction hashes with
  | nil => exact absurd member List.not_mem_nil
  | cons hash rest inductionHypothesis =>
      rw [List.find?_cons] at found
      cases answer : property hash with
      | true =>
          rw [answer] at found
          rw [Option.some.inj found, List.idxOf_cons_self]
          exact Nat.zero_le _
      | false =>
          rw [answer] at found
          have different : hash ≠ other := by
            rintro rfl
            exact Bool.false_ne_true (answer.symm.trans holds)
          have different' : hash ≠ first := by
            rintro rfl
            exact Bool.false_ne_true (answer.symm.trans (List.find?_some (p := property) found))
          rw [List.idxOf_cons_ne _ different, List.idxOf_cons_ne _ different']
          exact Nat.succ_le_succ (inductionHypothesis found ((List.mem_cons.mp member).resolve_left different.symm))

/-- One candidate more: the state holds the least passing candidate again. A
candidate that passes and is not accepted has no fewer ways and set bits than a
structure that was found before. -/
theorem returns_tryHashes_least {setBits ways : Nat} {state : SearchState} (few : setBits ≤ 8) (positive : 1 ≤ ways)
    (small : ways ≤ 32) (notPruned : ways ≤ state.minimumWays)
    (holdsLeast : HoldsLeast table level leftover (Explored setBits ways) state) :
    Returns (fun _ (_ : Unit) => none) (tryHashes table.measure level setBits ways candidateHashes state) ()
      fun result _ => HoldsLeast table level leftover (Explored setBits (ways + 1)) result := by
  have split : ∀ candidate, Explored setBits (ways + 1) candidate ->
      Explored setBits ways candidate ∨ candidate.setBits = setBits ∧ candidate.ways = ways := by
    rintro candidate (fewer | ⟨same, below⟩)
    · exact Or.inl (Or.inl fewer)
    · rcases Nat.lt_succ_iff_lt_or_eq.mp below with before | now
      · exact Or.inl (Or.inr ⟨same, before⟩)
      · exact Or.inr ⟨same, now⟩
  have accepts_iff : ∀ misses, state.accepts ways setBits misses = true ↔
      reachesThreshold misses iterations = true ∧ (ways < state.minimumWays ∨ setBits < state.minimumSetBits) := by
    intro misses
    rw [SearchState.accepts, Bool.and_eq_true, Bool.or_eq_true, decide_eq_true_eq, decide_eq_true_eq]
    exact and_congr_right fun _ => or_congr_right (and_iff_right notPruned)
  rw [tryHashes_table]
  cases found : candidateHashes.find? fun hash => state.accepts ways setBits (table ways setBits hash level) with
  | none =>
      refine (returns_ret _).mpr (holdsLeast.extend ?_ ?_ fun _ passes => below_placeholder passes)
      · rintro candidate (fewer | ⟨same, below⟩)
        · exact Or.inl fewer
        · exact Or.inr ⟨same, Nat.lt_succ_of_lt below⟩
      · rintro candidate ⟨_, _, _, member, reached⟩ inside outside
        rcases (split candidate inside).resolve_left outside with ⟨rfl, rfl⟩
        have rejected : ¬ (candidate.ways < state.minimumWays ∨ candidate.setBits < state.minimumSetBits) :=
          fun either => List.find?_eq_none.mp found _ member ((accepts_iff _).mpr ⟨reached, either⟩)
        have same : state.minimumWays = candidate.ways :=
          Nat.le_antisymm (Nat.le_of_not_lt fun fewer => rejected (Or.inl fewer)) notPruned
        rw [← same] at holdsLeast small
        exact Or.inr ⟨same, holdsLeast.fewer_sets small⟩
  | some hash =>
      have member := List.mem_of_find?_eq_some found
      rcases (accepts_iff _).mp (List.find?_some (p := fun hash =>
        state.accepts ways setBits (table ways setBits hash level)) found) with ⟨reached, smaller⟩
      refine (returns_ret _).mpr (.found ⟨ways, setBits, hash⟩ ⟨⟨⟨few, positive, small, member, reached⟩,
        Or.inr ⟨rfl, Nat.lt_succ_self ways⟩⟩, ?_⟩ rfl)
      rintro other ⟨passes, inside⟩
      rw [Candidate.le_iff]
      rcases split other inside with before | ⟨rfl, rfl⟩
      · rcases holdsLeast.not_more_sets passes before with ⟨sets, ways_le⟩
        rcases smaller with fewer | impossible
        · exact Or.inl (Nat.lt_of_lt_of_le fewer ways_le)
        · exact absurd impossible (Nat.not_lt.mpr sets)
      · refine Or.inr ⟨rfl, Or.inr ⟨rfl, idxOf_le_of_find? found passes.2.2.2.1 ?_⟩⟩
        exact (accepts_iff _).mpr ⟨passes.2.2.2.2, smaller⟩

/-- What is left of a row after the break has more ways than the structure found. -/
theorem HoldsLeast.close_row {setBits ways : Nat} {state : SearchState}
    (holdsLeast : HoldsLeast table level leftover (Explored setBits ways) state)
    (rest : state.minimumWays < ways ∨ 32 < ways) :
    HoldsLeast table level leftover (Explored (setBits + 1) 1) state := by
  refine holdsLeast.extend ?_ ?_ fun _ passes => below_placeholder passes
  · rintro candidate (fewer | ⟨same, _⟩)
    · exact Or.inl (Nat.lt_succ_of_lt fewer)
    · exact Or.inl (Nat.lt_succ_of_le (Nat.le_of_eq same))
  · intro candidate passes inside outside
    have row : candidate.setBits ≤ setBits := by
      rcases inside with before | ⟨_, impossible⟩
      · exact Nat.le_of_lt_succ before
      · exact absurd passes.2.1 (Nat.not_le.mpr impossible)
    have later : ways ≤ candidate.ways := by
      by_contra fewer
      rcases Nat.lt_or_eq_of_le row with earlier | same
      · exact outside (Or.inl earlier)
      · exact outside (Or.inr ⟨same, Nat.lt_of_not_le fewer⟩)
    rcases rest with pruned | beyond
    · exact Or.inl (Nat.lt_of_lt_of_le pruned later)
    · exact absurd passes.2.2.1 (Nat.not_le.mpr (Nat.lt_of_lt_of_le beyond later))

theorem returns_searchRow_least {setBits : Nat} {state : SearchState} (few : setBits ≤ 8)
    (holdsLeast : HoldsLeast table level leftover (Explored setBits 1) state) :
    Returns (fun _ (_ : Unit) => none) (searchRow table.measure level setBits state) () fun result _ =>
      HoldsLeast table level leftover (Explored (setBits + 1) 1) result := by
  apply returns_forRange_break fun ways state _ => HoldsLeast table level leftover (Explored setBits ways) state
  · exact holdsLeast
  · intro ways state _ positive small holdsLeast
    by_cases pruned : state.minimumWays < ways
    · rw [if_pos pruned]
      exact (returns_ret _).mpr (holdsLeast.close_row (Or.inl pruned))
    · rw [if_neg pruned]
      refine returns_bind.mpr ((returns_tryHashes_least few positive (Nat.le_of_lt_succ small)
        (Nat.le_of_not_lt pruned) holdsLeast).mono ?_)
      exact fun _ _ later => (returns_ret _).mpr later
  · exact fun state _ holdsLeast => holdsLeast.close_row (Or.inr (by decide))

/-- The whole search ends with the least passing candidate, if there is one. -/
theorem searchStructure_least (table : MissTable) (level : Nat) (leftover : HashPointer × Nat) :
    ∃ state, searchStructure table.measure level (undetermined leftover) = ret state ∧
      HoldsLeast table level leftover (fun _ => True) state := by
  have returns : Returns (fun _ (_ : Unit) => none) (searchStructure table.measure level (undetermined leftover)) ()
      fun result _ => HoldsLeast table level leftover (Explored 9 1) result := by
    apply returns_forRange (fun setBits state _ => HoldsLeast table level leftover (Explored setBits 1) state) 0 9
    · refine .nothing ?_ rfl
      rintro candidate passes (impossible | ⟨_, impossible⟩)
      · exact Nat.not_lt_zero _ impossible
      · exact absurd passes.2.1 (Nat.not_le.mpr impossible)
    · intro setBits state _ _ small holdsLeast
      refine returns_bind.mpr ((returns_searchRow_least (Nat.le_of_lt_succ small) holdsLeast).mono ?_)
      exact fun result _ later => (returns_ret _).mpr ⟨result, rfl, later⟩
  rcases returns.eq_ret with ⟨state, same, holdsLeast⟩
  refine ⟨state, same, holdsLeast.extend (fun _ _ => trivial) ?_ fun _ passes => below_placeholder passes⟩
  intro candidate passes _ outside
  exact absurd (Or.inl (Nat.lt_succ_of_le passes.1)) outside

end Search

/-! ## What is recorded -/

/-- The record after the search: the least passing candidate, or what it held before
if none passes.  The records of the other levels are left as they were. -/
def Records (table : MissTable) (level : Nat) (translationCaches result : Nat -> TranslationCache) : Prop :=
  (∃ candidate, IsLeast (passing table level) candidate ∧
      result = Function.update translationCaches level candidate.structure) ∨
    passing table level = ∅ ∧ result = translationCaches

/-- The record is rewritten exactly if something passed. -/
theorem HoldsLeast.records {table : MissTable} {level : Nat} {leftover : HashPointer × Nat} {state : SearchState}
    (holdsLeast : HoldsLeast table level leftover (fun _ => True) state)
    {translationCaches : Nat -> TranslationCache} (unset : translationCaches level = defaultTranslationCache) :
    Records table level translationCaches (recordStructure translationCaches level state) := by
  unfold recordStructure
  rcases holdsLeast with ⟨candidate, ⟨member, least⟩, holds⟩ | ⟨nothing, rfl⟩
  · have ways : state.minimumWays = candidate.ways := congrArg TranslationCache.ways holds
    have changed : state.minimumWays ≠ (translationCaches level).ways := by
      rw [unset, ways]
      exact Nat.ne_of_lt (lt_placeholder member.1.2.2.1 : candidate.ways < (undetermined leftover).minimumWays)
    refine Or.inl ⟨candidate, ⟨member.1, fun other passes => least ⟨passes, trivial⟩⟩, ?_⟩
    rw [if_pos (Or.inl changed), ← holds]
    rfl
  · refine Or.inr ⟨Set.eq_empty_of_forall_notMem fun candidate passes => nothing candidate passes trivial, ?_⟩
    rw [if_neg]
    rintro (impossible | impossible) <;>
    · rw [unset] at impossible
      exact impossible rfl

/-- For every table of miss counts, the pruned search of a level whose structure is
not known ends, and what is recorded afterwards is the least candidate that an
exhaustive search finds to pass.  Candidates are compared by their ways, then by
their set bits, and then by the order of the hash functions in the source.  If no
candidate passes, the record is as it was. -/
theorem evaluateCacheStructure_exhaustive (configuration : Configuration) (table : MissTable) (bound level : Nat)
    (leftover : HashPointer × Nat) (translationCaches : Nat -> TranslationCache)
    (unset : translationCaches level = defaultTranslationCache) :
    (∃ state, searchStructure table.measure level (undetermined leftover) = ret state ∧
        Records table level translationCaches (recordStructure translationCaches level state)) ∧
      Always (fun _ => True) (evaluateCacheStructureWith configuration table.measure bound leftover translationCaches
        level) fun result => Records table level translationCaches result.1 := by
  rcases searchStructure_least table level leftover with ⟨state, same, holdsLeast⟩
  have records := holdsLeast.records unset
  refine ⟨⟨state, same, records⟩, ?_⟩
  unfold evaluateCacheStructureWith
  rw [unset]
  change Always _ (searchStructure table.measure level (undetermined leftover) >>= _) _
  rw [same, ret_bind]
  exact always_bind.mpr ((always_trivial _).mono fun _ _ => records)

/-- Everything with four ways or more passes. -/
def fourWaysPass : MissTable :=
  fun ways _ _ _ => if 4 ≤ ways then iterations else 0

/-- A table that only misses for structures with at least four ways, for level 2. -/
theorem evaluateCacheStructure_exhaustive_fourWays :
    (∃ state, searchStructure fourWaysPass.measure 2 (undetermined (.null, 0)) = ret state ∧
        Records fourWaysPass 2 (fun _ => defaultTranslationCache)
          (recordStructure (fun _ => defaultTranslationCache) 2 state)) ∧
      Always (fun _ => True) (evaluateCacheStructureWith defaultConfiguration fourWaysPass.measure 8 (.null, 0)
        (fun _ => defaultTranslationCache) 2) fun result =>
          Records fourWaysPass 2 (fun _ => defaultTranslationCache) result.1 :=
  evaluateCacheStructure_exhaustive defaultConfiguration fourWaysPass 8 2 (.null, 0) _ rfl

end Talbot
