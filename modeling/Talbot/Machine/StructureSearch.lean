import Talbot.Kernel.Evaluation

namespace Talbot

/-!
The pruned search of `evaluate_cache_structure`, for any measurement.

`SinglesOut` says what a measurement has to tell about the candidates around
the true structure.  Candidates with more ways may pass or fail as they like:
what they leave is replaced once the search reaches the true structure, and
afterwards they are not tried any more.
-/

open Foundations Program

section Search

variable {σ : Type} {handler : Handler kernelInterface σ} {invariant : σ -> Prop}
  {measure : CandidateMeasurement} {level : Nat}

theorem accepts_zero (state : SearchState) (ways setBits : Nat) : state.accepts ways setBits 0 = false := by
  have below : reachesThreshold 0 iterations = false := by decide
  rw [SearchState.accepts, below, Bool.false_and]

theorem accepts_all {state : SearchState} {ways : Nat} (fewer : ways < state.minimumWays) (setBits : Nat) :
    state.accepts ways setBits iterations = true := by
  have reaches : reachesThreshold iterations iterations = true := by decide
  rw [SearchState.accepts, reaches, decide_eq_true fewer]
  rfl

/-- A candidate with as many ways and no fewer sets is never accepted. -/
theorem accepts_not_smaller {state : SearchState} {ways setBits : Nat} (misses : Nat)
    (ways_le : state.minimumWays ≤ ways) (setBits_le : state.minimumSetBits ≤ setBits) :
    state.accepts ways setBits misses = false := by
  rw [SearchState.accepts, decide_eq_false (Nat.not_lt.mpr ways_le),
    decide_eq_false (fun both => Nat.not_lt.mpr setBits_le both.2)]
  exact Bool.and_false _

/-- Whatever the hash functions give, the state is the old one or an accepted
candidate. -/
theorem returns_tryHashes (good : SearchState -> Prop) {state : SearchState} {ways setBits : Nat}
    (hashes : List HashFunction) (machine : σ) (holds : invariant machine) (stays : good state)
    (measured : ∀ hash, hash ∈ hashes -> ∀ machine, invariant machine ->
      Returns handler (measure ways setBits hash level) machine fun misses final => invariant final ∧
        (state.accepts ways setBits misses = true -> good ⟨setBits, ways, .to hash, misses⟩)) :
    Returns handler (tryHashes measure level setBits ways hashes state) machine fun result final =>
      invariant final ∧ good result := by
  induction hashes generalizing machine with
  | nil => exact (returns_ret _).mpr ⟨holds, stays⟩
  | cons hash rest inductionHypothesis =>
      rw [tryHashes, returns_bind]
      apply (measured hash List.mem_cons_self machine holds).mono
      rintro misses middle ⟨holds, accepted⟩
      cases answer : state.accepts ways setBits misses with
      | true => exact (returns_ret _).mpr ⟨holds, accepted answer⟩
      | false =>
          exact inductionHypothesis middle holds fun later member =>
            measured later (List.mem_cons_of_mem _ member)

/-- The search takes the first hash function that passes. -/
theorem returns_tryHashes_first {state : SearchState} {ways setBits : Nat} {expected : HashFunction}
    (before after : List HashFunction) (machine : σ) (holds : invariant machine)
    (fewer : ways < state.minimumWays)
    (fails : ∀ hash, hash ∈ before -> ∀ machine, invariant machine ->
      Returns handler (measure ways setBits hash level) machine fun misses final =>
        invariant final ∧ misses = 0)
    (passes : ∀ machine, invariant machine ->
      Returns handler (measure ways setBits expected level) machine fun misses final =>
        invariant final ∧ misses = iterations) :
    Returns handler (tryHashes measure level setBits ways (before ++ expected :: after) state) machine
      fun result final => invariant final ∧ result = ⟨setBits, ways, .to expected, iterations⟩ := by
  induction before generalizing machine with
  | nil =>
      rw [List.nil_append, tryHashes, returns_bind]
      apply (passes machine holds).mono
      rintro _ middle ⟨holds, rfl⟩
      rw [accepts_all fewer]
      exact (returns_ret _).mpr ⟨holds, rfl⟩
  | cons hash rest inductionHypothesis =>
      rw [List.cons_append, tryHashes, returns_bind]
      apply (fails hash List.mem_cons_self machine holds).mono
      rintro _ middle ⟨holds, rfl⟩
      rw [accepts_zero]
      exact inductionHypothesis middle holds fun later member => fails later (List.mem_cons_of_mem _ member)

/-- What a measurement tells about the candidates: none that is smaller than the
true structure ever misses, and the true one always does. -/
structure SinglesOut (handler : Handler kernelInterface σ) (invariant : σ -> Prop)
    (measure : CandidateMeasurement) (level ways setBits : Nat) (before : List HashFunction)
    (expected : HashFunction) : Prop where
  some : ∀ candidateWays candidateBits hash machine, candidateWays ≤ 32 -> hash ∈ candidateHashes ->
    invariant machine ->
    Returns handler (measure candidateWays candidateBits hash level) machine fun _ final => invariant final
  smaller : ∀ candidateWays candidateBits hash machine, hash ∈ candidateHashes ->
    candidateWays < ways ∨ candidateWays = ways ∧ candidateBits < setBits -> invariant machine ->
    Returns handler (measure candidateWays candidateBits hash level) machine fun misses final =>
      invariant final ∧ misses = 0
  earlier : ∀ hash machine, hash ∈ before -> invariant machine ->
    Returns handler (measure ways setBits hash level) machine fun misses final =>
      invariant final ∧ misses = 0
  expected : ∀ machine, invariant machine ->
    Returns handler (measure ways setBits expected level) machine fun misses final =>
      invariant final ∧ misses = iterations

variable {ways setBits : Nat} {before after : List HashFunction} {expected : HashFunction}

/-- Before the true number of sets, only larger candidates are accepted. -/
theorem returns_rowBefore (singles : SinglesOut handler invariant measure level ways setBits before expected)
    {bits : Nat} (fewer : bits < setBits) {state : SearchState} (larger : ways < state.minimumWays)
    (machine : σ) (holds : invariant machine) :
    Returns handler (searchRow measure level bits state) machine fun result final =>
      invariant final ∧ ways < result.minimumWays := by
  apply returns_forRange_break fun _ (state : SearchState) machine =>
    invariant machine ∧ ways < state.minimumWays
  · exact ⟨holds, larger⟩
  · rintro index state machine positive small ⟨holds, larger⟩
    by_cases pruned : state.minimumWays < index
    · rw [if_pos pruned]
      exact (returns_ret _).mpr ⟨holds, larger⟩
    · rw [if_neg pruned, returns_bind]
      refine (returns_tryHashes (ways < ·.minimumWays) candidateHashes machine holds larger ?_).mono
        fun _ _ result => (returns_ret _).mpr result
      intro hash member machine holds
      rcases Nat.lt_or_ge ways index with more | notMore
      · apply (singles.some index bits hash machine (by omega) member holds).mono
        exact fun misses final holds => ⟨holds, fun _ => more⟩
      · apply (singles.smaller index bits hash machine member (by omega) holds).mono
        rintro _ final ⟨holds, rfl⟩
        refine ⟨holds, fun accepted => ?_⟩
        rw [accepts_zero] at accepted
        cases accepted
  · exact fun _ _ result => result

/-- At the true number of sets the search reaches the true structure. -/
theorem returns_rowAt (singles : SinglesOut handler invariant measure level ways setBits before expected)
    (order : candidateHashes = before ++ expected :: after) (positive : 1 ≤ ways) (small : ways ≤ 32)
    {state : SearchState} (larger : ways < state.minimumWays) (machine : σ) (holds : invariant machine) :
    Returns handler (searchRow measure level setBits state) machine fun result final =>
      invariant final ∧ result = ⟨setBits, ways, .to expected, iterations⟩ := by
  apply returns_forRange_break fun index (state : SearchState) machine => invariant machine ∧
    (index ≤ ways ∧ ways < state.minimumWays ∨
      ways < index ∧ state = ⟨setBits, ways, .to expected, iterations⟩)
  · exact ⟨holds, Or.inl ⟨positive, larger⟩⟩
  · rintro index state machine _ _ ⟨holds, ⟨notYet, larger⟩ | ⟨past, rfl⟩⟩
    · rw [if_neg (by omega), returns_bind]
      rcases Nat.lt_or_eq_of_le notYet with less | rfl
      · refine (returns_tryHashes (ways < ·.minimumWays) candidateHashes machine holds larger ?_).mono fun _ _ result =>
          (returns_ret _).mpr ⟨result.1, Or.inl ⟨less, result.2⟩⟩
        intro hash member machine holds
        apply (singles.smaller index setBits hash machine member (Or.inl less) holds).mono
        rintro _ final ⟨holds, rfl⟩
        refine ⟨holds, fun accepted => ?_⟩
        rw [accepts_zero] at accepted
        cases accepted
      · rw [order]
        exact (returns_tryHashes_first before after machine holds larger
          (fun hash member machine holds => singles.earlier hash machine member holds)
          (fun machine holds => singles.expected machine holds)).mono fun _ _ result =>
            (returns_ret _).mpr ⟨result.1, Or.inr ⟨Nat.lt_succ_self index, result.2⟩⟩
    · rw [if_pos past]
      exact (returns_ret _).mpr ⟨holds, rfl⟩
  · rintro state machine ⟨holds, ⟨impossible, _⟩ | ⟨_, found⟩⟩
    · omega
    · exact ⟨holds, found⟩

/-- Once found, the true structure stays. -/
theorem returns_rowAfter (singles : SinglesOut handler invariant measure level ways setBits before expected)
    {bits : Nat} (more : setBits ≤ bits) (machine : σ) (holds : invariant machine) :
    Returns handler (searchRow measure level bits ⟨setBits, ways, .to expected, iterations⟩) machine
      fun result final => invariant final ∧ result = ⟨setBits, ways, .to expected, iterations⟩ := by
  apply returns_forRange_break fun _ (state : SearchState) machine =>
    invariant machine ∧ state = ⟨setBits, ways, .to expected, iterations⟩
  · exact ⟨holds, rfl⟩
  · rintro index _ machine _ small ⟨holds, rfl⟩
    by_cases pruned : ways < index
    · rw [if_pos pruned]
      exact (returns_ret _).mpr ⟨holds, rfl⟩
    · rw [if_neg pruned, returns_bind]
      refine (returns_tryHashes (· = ⟨setBits, ways, .to expected, iterations⟩) candidateHashes
        machine holds rfl ?_).mono fun _ _ result => (returns_ret _).mpr result
      intro hash member machine holds
      rcases Nat.lt_or_ge index ways with less | notLess
      · apply (singles.smaller index bits hash machine member (Or.inl less) holds).mono
        rintro _ final ⟨holds, rfl⟩
        refine ⟨holds, fun accepted => ?_⟩
        rw [accepts_zero] at accepted
        cases accepted
      · apply (singles.some index bits hash machine (by omega) member holds).mono
        intro misses final holds
        refine ⟨holds, fun accepted => ?_⟩
        rw [accepts_not_smaller misses notLess more] at accepted
        cases accepted
  · exact fun _ _ result => result

/-- The search ends with the true structure. -/
theorem returns_searchStructure
    (singles : SinglesOut handler invariant measure level ways setBits before expected)
    (order : candidateHashes = before ++ expected :: after) (positive : 1 ≤ ways) (small : ways ≤ 32)
    (few : setBits ≤ 8) {state : SearchState} (larger : ways < state.minimumWays) (machine : σ)
    (holds : invariant machine) :
    Returns handler (searchStructure measure level state) machine fun result final =>
      invariant final ∧ result = ⟨setBits, ways, .to expected, iterations⟩ := by
  apply Returns.mono (returns_forRange (fun bits (state : SearchState) machine => invariant machine ∧
    (bits ≤ setBits ∧ ways < state.minimumWays ∨
      setBits < bits ∧ state = ⟨setBits, ways, .to expected, iterations⟩)) 0 9 state machine
    ⟨holds, Or.inl ⟨Nat.zero_le _, larger⟩⟩ _)
  · rintro result final ⟨holds, ⟨impossible, _⟩ | ⟨_, found⟩⟩
    · omega
    · exact ⟨holds, found⟩
  · rintro bits state machine _ _ ⟨holds, ⟨notYet, larger⟩ | ⟨past, rfl⟩⟩
    · rw [returns_bind]
      rcases Nat.lt_or_eq_of_le notYet with fewer | rfl
      · exact (returns_rowBefore singles fewer larger machine holds).mono fun result _ row =>
          (returns_ret _).mpr ⟨result, rfl, row.1, Or.inl ⟨fewer, row.2⟩⟩
      · exact (returns_rowAt singles order positive small larger machine holds).mono fun result _ row =>
          (returns_ret _).mpr ⟨result, rfl, row.1, Or.inr ⟨Nat.lt_succ_self bits, row.2⟩⟩
    · rw [returns_bind]
      exact (returns_rowAfter singles (Nat.le_of_lt past) machine holds).mono fun result _ row =>
        (returns_ret _).mpr ⟨result, rfl, row.1, Or.inr ⟨Nat.lt_succ_of_lt past, row.2⟩⟩

end Search

end Talbot
