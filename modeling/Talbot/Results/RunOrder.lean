import Talbot.CacheQuery.PolicyEvaluation
import Talbot.Foundations.Precedence

namespace Talbot
namespace CacheQuery

/-!
The verdict of the policy scripts and the order of the runs.

What a script counts does not depend on the order of the runs, but of outputs that
are printed equally often the first one wins.  The verdict is positive if the
expected result wins for every query, so an order for it is an order in which for
every query an expected result comes before each output that is level with it.
-/

open Foundations

section Outputs

variable {script : PolicyScript} {runs : List Text}

/-- What the runs print for a query. -/
def printedFor (i : Nat) (runs : List Text) : List Text :=
  runs.filterMap fun stdout => (cacheStates stdout)[i]?

theorem printedFor_cons (i : Nat) (stdout : Text) (rest : List Text) :
    printedFor i (stdout :: rest) = (cacheStates stdout)[i]?.toList ++ printedFor i rest := by
  unfold printedFor
  rw [List.filterMap_cons]
  cases (cacheStates stdout)[i]? <;> rfl

/-- A run prints the expected result of a query. -/
def PrintsResult (script : PolicyScript) (i : Nat) (stdout : Text) : Prop :=
  ∃ result, script.results[i]? = some result ∧ (cacheStates stdout)[i]? = some result

/-- A run prints another output of a query, which the runs print as often as the
expected result. -/
def PrintsRival (script : PolicyScript) (runs : List Text) (i : Nat) (stdout : Text) : Prop :=
  ∃ result other, script.results[i]? = some result ∧ (cacheStates stdout)[i]? = some other ∧ other ≠ result ∧
    (printedFor i runs).count other = (printedFor i runs).count result

/-- A run prints more outputs than there are queries, or there is a query for which
no run prints one. -/
def Raises (script : PolicyScript) (runs : List Text) : Prop :=
  (∃ stdout, stdout ∈ runs ∧ script.queries.length < (cacheStates stdout).length) ∨
    ∃ i, i < script.queries.length ∧ printedFor i runs = []

/-- For some query the runs print another output more often than the expected
result.  No order of the runs can then make the expected result win. -/
def Overtaken (script : PolicyScript) (runs : List Text) : Prop :=
  ∃ i result, script.results[i]? = some result ∧ ∃ other, other ∈ printedFor i runs ∧
    (printedFor i runs).count result < (printedFor i runs).count other

/-- For some query the runs print another output as often as the expected result.
Which of the two wins then depends on which of them was printed first. -/
def Tied (script : PolicyScript) (runs : List Text) : Prop :=
  ∃ i stdout, stdout ∈ runs ∧ PrintsRival script runs i stdout

/-- There are queries such that every run that prints the expected result of one of
them prints a rival of one of them. -/
def Blocked (script : PolicyScript) (runs : List Text) : Prop :=
  ∃ queries, queries ⊆ Finset.range script.results.length ∧ queries.Nonempty ∧
    Blocks (PrintsResult script) (PrintsRival script runs) runs queries

/-! ## The dictionaries -/

theorem recordStates_eq {amount : Nat} (states : List Text) {currentVector : Nat} (inside : currentVector ≤ amount)
    (outputs : Nat -> Tally Text) :
    recordStates amount states currentVector outputs =
      if currentVector + states.length ≤ amount then
        some fun i => if currentVector ≤ i then (states[i - currentVector]?.toList).foldl
          (fun tally state => tally.add state) (outputs i) else outputs i
      else none := by
  induction states generalizing currentVector outputs with
  | nil =>
      rw [recordStates, List.length_nil, Nat.add_zero, if_pos inside]
      congr 1
      funext i
      rw [List.getElem?_nil, Option.toList_none, List.foldl_nil, ite_self]
  | cons state rest inductionHypothesis =>
      rw [recordStates, List.length_cons]
      by_cases room : currentVector < amount
      · rw [if_pos room, inductionHypothesis room]
        refine if_congr (by omega) (congrArg some (funext fun i => ?_)) rfl
        rcases Nat.lt_trichotomy i currentVector with before | rfl | behind
        · rw [if_neg (by omega), if_neg (by omega), Function.update_of_ne (by omega)]
        · rw [if_neg (by omega), if_pos (Nat.le_refl i), Function.update_self, Nat.sub_self]
          rfl
        · have shift : i - currentVector = i - (currentVector + 1) + 1 := by omega
          rw [if_pos (by omega), if_pos (by omega), Function.update_of_ne (by omega), shift, List.getElem?_cons_succ]
      · rw [if_neg room, if_neg (by omega)]

theorem collectOutputs_eq (amount : Nat) (outputs : Nat -> Tally Text) :
    collectOutputs amount runs outputs =
      if ∀ stdout, stdout ∈ runs -> (cacheStates stdout).length ≤ amount then
        some fun i => (printedFor i runs).foldl (fun tally state => tally.add state) (outputs i)
      else none := by
  induction runs generalizing outputs with
  | nil => rfl
  | cons stdout rest inductionHypothesis =>
      rw [collectOutputs, recordStates_eq _ (Nat.zero_le _)]
      by_cases fits : (cacheStates stdout).length ≤ amount
      · rw [if_pos (by rwa [Nat.zero_add])]
        change collectOutputs amount rest _ = _
        rw [inductionHypothesis]
        refine if_congr (by rw [List.forall_mem_cons, and_iff_right fits]) (congrArg some (funext fun i => ?_)) rfl
        rw [if_pos (Nat.zero_le i), Nat.sub_zero, printedFor_cons, List.foldl_append]
      · rw [if_neg (by rwa [Nat.zero_add]), if_neg fun all => fits (all stdout List.mem_cons_self)]
        rfl

/-! ## The verdict -/

/-- The dictionaries of a script that does not raise before it looks at them. -/
theorem evaluateRuns_eq (few : ∀ stdout, stdout ∈ runs -> (cacheStates stdout).length ≤ script.queries.length) :
    evaluateRuns script runs = judgeOutputs script fun i => Tally.ofKeys (printedFor i runs) := by
  rw [evaluateRuns, collectOutputs_eq, if_pos few]
  rfl

/-- How often the expected results were printed. -/
def correctOutputs (printed : Nat -> List Text) : Nat -> List (Text × Text) -> Nat
  | _, [] => 0
  | i, (_, result) :: rest => (printed i).count result + correctOutputs printed (i + 1) rest

theorem judgeQuery_eq {printed : List Text} (nonempty : printed ≠ []) (query result : Text) (judgement : Judgement) :
    ∃ final, judgeQuery query result (Tally.ofKeys printed) judgement = some final ∧
      (final.implements = true ↔ judgement.implements = true ∧ (Tally.ofKeys printed).most = some result) ∧
      final.correctResultMeasured = judgement.correctResultMeasured + printed.count result := by
  rw [judgeQuery]
  cases most : (Tally.ofKeys printed).most with
  | none => exact absurd (Tally.most_ofKeys_eq_none.mp most) nonempty
  | some maxKey =>
      dsimp only
      by_cases same : maxKey = result
      · subst same
        rw [if_neg (not_not.mpr rfl)]
        exact ⟨_, rfl, (and_iff_left rfl).symm, congrArg (judgement.correctResultMeasured + ·) (Tally.count_ofKeys _ _)⟩
      · rw [if_pos same]
        refine ⟨_, rfl, ?_, congrArg (judgement.correctResultMeasured + ·) (Tally.count_ofKeys _ _)⟩
        exact iff_of_false Bool.false_ne_true fun both => same (Option.some.inj both.2)

/-- The loop over the queries, when every dictionary has an entry.  It raises
otherwise, as `max` does for an empty one. -/
theorem judgeQueries_some {printed : Nat -> List Text} {pairs : List (Text × Text)} {i : Nat} {judgement : Judgement}
    (nonempty : ∀ k, k < pairs.length -> printed (i + k) ≠ []) :
    ∃ final, judgeQueries (fun i => Tally.ofKeys (printed i)) i pairs judgement = some final ∧
      (final.implements = true ↔ judgement.implements = true ∧
        ∀ k pair, pairs[k]? = some pair -> (Tally.ofKeys (printed (i + k))).most = some pair.2) ∧
      final.correctResultMeasured = judgement.correctResultMeasured + correctOutputs printed i pairs := by
  induction pairs generalizing i judgement with
  | nil => exact ⟨judgement, rfl, (and_iff_left nofun).symm, rfl⟩
  | cons pair rest inductionHypothesis =>
      rcases pair with ⟨query, result⟩
      rcases judgeQuery_eq (nonempty 0 (Nat.succ_pos _)) query result judgement with ⟨middle, here, agrees, counted⟩
      have later : ∀ k, k < rest.length -> printed (i + 1 + k) ≠ [] := by
        intro k below
        rw [Nat.add_right_comm]
        exact nonempty (k + 1) (Nat.succ_lt_succ below)
      rcases @inductionHypothesis (i + 1) middle later with ⟨final, same, agreesLater, countedLater⟩
      refine ⟨final, ?_, ?_, ?_⟩
      · rw [judgeQueries]
        rw [Nat.add_zero] at here
        simp only [here]
        exact same
      · rw [agreesLater, agrees, and_assoc]
        refine and_congr_right fun _ => ⟨?_, ?_⟩
        · rintro ⟨first, others⟩ k pair known
          cases k with
          | zero =>
              cases known
              exact first
          | succ k =>
              have found := others k pair known
              rwa [Nat.add_right_comm] at found
        · intro all
          refine ⟨all 0 _ rfl, fun k pair known => ?_⟩
          rw [Nat.add_right_comm]
          exact all (k + 1) pair known
      · rw [countedLater, counted, correctOutputs, Nat.add_zero, Nat.add_assoc]

/-- An empty dictionary ends the loop. -/
theorem judgeQueries_none {printed : Nat -> List Text} {pairs : List (Text × Text)} {i k : Nat} {judgement : Judgement}
    (below : k < pairs.length) (empty : printed (i + k) = []) :
    judgeQueries (fun i => Tally.ofKeys (printed i)) i pairs judgement = none := by
  induction pairs generalizing i k judgement with
  | nil => exact absurd below (Nat.not_lt_zero k)
  | cons pair rest inductionHypothesis =>
      rcases pair with ⟨query, result⟩
      rw [judgeQueries]
      cases k with
      | zero =>
          rw [Nat.add_zero] at empty
          simp only [empty]
          rfl
      | succ k =>
          cases here : judgeQuery query result (Tally.ofKeys (printed i)) judgement with
          | none => rfl
          | some middle =>
              refine @inductionHypothesis (i + 1) k middle (Nat.lt_of_succ_lt_succ below) ?_
              rwa [Nat.add_right_comm]

/-- The expected result wins for every query. -/
def Agrees (script : PolicyScript) (runs : List Text) : Prop :=
  ∀ i result, script.results[i]? = some result -> (Tally.ofKeys (printedFor i runs)).most = some result

theorem evaluateRuns_some (finishes : ¬ Raises script runs) :
    ∃ final, evaluateRuns script runs = some final ∧ (final.implements = true ↔ Agrees script runs) ∧
      final.correctResultMeasured =
        correctOutputs (fun i => printedFor i runs) 0 (script.queries.zip script.results) := by
  rcases not_or.mp finishes with ⟨few, full⟩
  have nonempty : ∀ k, k < (script.queries.zip script.results).length -> printedFor (0 + k) runs ≠ [] := by
    intro k below empty
    rw [List.length_zip] at below
    rw [Nat.zero_add] at empty
    exact full ⟨k, Nat.lt_of_lt_of_le below (Nat.min_le_left _ _), empty⟩
  rcases @judgeQueries_some (fun i => printedFor i runs) _ 0 ⟨true, 0, []⟩ nonempty with ⟨final, same, agrees, counted⟩
  refine ⟨final, ?_, ?_, counted.trans (Nat.zero_add _)⟩
  · rw [evaluateRuns_eq fun stdout inside => Nat.le_of_not_lt fun more => few ⟨stdout, inside, more⟩]
    exact same
  · rw [agrees, and_iff_right rfl]
    constructor
    · intro all i result known
      have query := List.getElem?_eq_getElem (script.same_length ▸ (List.getElem?_eq_some_iff.mp known).1)
      have found := all i (_, result) (List.getElem?_zip_eq_some.mpr ⟨query, known⟩)
      rwa [Nat.zero_add] at found
    · intro agrees k pair known
      rw [Nat.zero_add]
      exact agrees k pair.2 (List.getElem?_zip_eq_some.mp known).2

theorem evaluateRuns_none (raises : Raises script runs) : evaluateRuns script runs = none := by
  by_cases few : ∀ stdout, stdout ∈ runs -> (cacheStates stdout).length ≤ script.queries.length
  · rcases raises with ⟨stdout, inside, more⟩ | ⟨i, below, empty⟩
    · exact absurd (few stdout inside) (Nat.not_le.mpr more)
    · rw [evaluateRuns_eq few]
      refine judgeQueries_none (k := i) ?_ ?_
      · rwa [List.length_zip, ← script.same_length, Nat.min_self]
      · rwa [Nat.zero_add]
  · rw [evaluateRuns, collectOutputs_eq, if_neg few]
    rfl

/-! ## Another order of the runs -/

variable {order : List Text}

theorem printedFor_perm (same : order.Perm runs) (i : Nat) : (printedFor i order).Perm (printedFor i runs) :=
  same.filterMap _

theorem raises_perm (same : order.Perm runs) : Raises script order ↔ Raises script runs := by
  refine or_congr (exists_congr fun stdout => and_congr_left fun _ => same.mem_iff) ?_
  refine exists_congr fun i => and_congr_right fun _ => ?_
  have printed := printedFor_perm same i
  exact ⟨fun empty => (empty ▸ printed).nil_eq.symm, fun empty => (empty ▸ printed).eq_nil⟩

theorem correctOutputs_congr {printed printed' : Nat -> List Text} (same : ∀ i, (printed i).Perm (printed' i)) (i : Nat)
    (pairs : List (Text × Text)) : correctOutputs printed i pairs = correctOutputs printed' i pairs := by
  induction pairs generalizing i with
  | nil => rfl
  | cons pair rest inductionHypothesis => rw [correctOutputs, correctOutputs, (same i).count_eq, inductionHypothesis]

theorem conclusion_inj {first second : Judgement}
    (counted : first.correctResultMeasured = second.correctResultMeasured) :
    conclusion script first = conclusion script second ↔ (first.implements = true ↔ second.implements = true) := by
  unfold conclusion likelyhood
  rw [counted, List.cons_eq_cons, and_iff_left rfl]
  cases first.implements <;> cases second.implements <;> simp

/-- The counts stay the same, so what is printed at the end changes with the verdict. -/
theorem conclusion_perm (finishes : ¬ Raises script runs) (same : order.Perm runs) :
    (evaluateRuns script order).map (conclusion script) = (evaluateRuns script runs).map (conclusion script) ↔
      (Agrees script order ↔ Agrees script runs) := by
  rcases evaluateRuns_some finishes with ⟨final, evaluated, agrees, counted⟩
  rcases evaluateRuns_some (mt (raises_perm same).mp finishes) with ⟨final', evaluated', agrees', counted'⟩
  have correct : final'.correctResultMeasured = final.correctResultMeasured := by
    rw [counted, counted']
    exact correctOutputs_congr (printedFor_perm same) 0 _
  rw [evaluated, evaluated', Option.map_some, Option.map_some, Option.some_inj, conclusion_inj correct, agrees,
    agrees']

/-- In every order the likelyhood is the same. -/
theorem likelyhood_perm (same : order.Perm runs) :
    (evaluateRuns script order).map (likelyhood script) = (evaluateRuns script runs).map (likelyhood script) := by
  by_cases raises : Raises script runs
  · rw [evaluateRuns_none raises, evaluateRuns_none ((raises_perm same).mpr raises)]
  · rcases evaluateRuns_some raises with ⟨final, evaluated, _, counted⟩
    rcases evaluateRuns_some (mt (raises_perm same).mp raises) with ⟨final', evaluated', _, counted'⟩
    rw [evaluated, evaluated', Option.map_some, Option.map_some, likelyhood, likelyhood, counted, counted',
      correctOutputs_congr (printedFor_perm same)]

/-! ## Which output wins -/

section Winner

variable {i : Nat} {result other : Text}

theorem mem_printedFor : other ∈ printedFor i runs ↔ ∃ stdout, stdout ∈ runs ∧ (cacheStates stdout)[i]? = some other :=
  List.mem_filterMap

/-- Another order changes neither what is printed nor how often. -/
theorem leads_perm (same : order.Perm runs) :
    Tally.Leads (printedFor i order) other ↔ Tally.Leads (printedFor i runs) other := by
  have printed := printedFor_perm same i
  simp only [Tally.Leads, printed.mem_iff, printed.count_eq]

theorem leads_result (ahead : ¬ Overtaken script runs) (known : script.results[i]? = some result) :
    Tally.Leads (printedFor i runs) result :=
  fun other inside => Nat.le_of_not_lt fun more => ahead ⟨i, result, known, other, inside, more⟩

/-- Next to the expected result, the outputs that nothing exceeds are its rivals. -/
theorem leads_iff_level (leads : Tally.Leads (printedFor i runs) result) (inside : other ∈ printedFor i runs) :
    Tally.Leads (printedFor i runs) other ↔ (printedFor i runs).count other = (printedFor i runs).count result := by
  constructor
  · intro leads'
    have positive : 0 < (printedFor i runs).count result :=
      Nat.lt_of_lt_of_le (List.count_pos_iff.mpr inside) (leads other inside)
    exact Nat.le_antisymm (leads other inside) (leads' result (List.count_pos_iff.mp positive))
  · intro level another known
    rw [level]
    exact leads another known

theorem printsResult_iff (known : script.results[i]? = some result) {stdout : Text} :
    PrintsResult script i stdout ↔ (cacheStates stdout)[i]? = some result := by
  constructor
  · rintro ⟨result', known', printed⟩
    rwa [Option.some.inj (known.symm.trans known')]
  · exact fun printed => ⟨result, known, printed⟩

theorem printsRival_iff (known : script.results[i]? = some result) {stdout : Text} :
    PrintsRival script runs i stdout ↔ ∃ other, (cacheStates stdout)[i]? = some other ∧ other ≠ result ∧
      (printedFor i runs).count other = (printedFor i runs).count result := by
  constructor
  · rintro ⟨result', other, known', rival⟩
    rw [← Option.some.inj (known.symm.trans known')] at rival
    exact ⟨other, rival⟩
  · exact fun ⟨other, rival⟩ => ⟨result, other, known, rival⟩

/-- Nothing is printed more often for the query. -/
def leadsFor (i : Nat) (runs : List Text) (other : Text) : Bool :=
  decide (Tally.Leads (printedFor i runs) other)

/-- Among some of the runs, the first output that nothing exceeds is the expected one
if they settle the query well. -/
theorem find_iff_settledWell (leads : Tally.Leads (printedFor i runs) result) (known : script.results[i]? = some result)
    {some : List Text} (among : ∀ stdout, stdout ∈ some -> stdout ∈ runs) :
    (printedFor i some).find? (leadsFor i runs) = Option.some result ↔
      SettledWell (PrintsResult script) (PrintsRival script runs) i some := by
  induction some with
  | nil => exact iff_of_false nofun id
  | cons stdout rest inductionHypothesis =>
      have later := inductionHypothesis fun other inside => among other (List.mem_cons_of_mem _ inside)
      rw [SettledWell, ← later, printsResult_iff known, printsRival_iff known, printedFor_cons]
      cases printed : (cacheStates stdout)[i]? with
      | none =>
          have silent : ¬ ∃ other, none = Option.some other ∧ other ≠ result ∧
              (printedFor i runs).count other = (printedFor i runs).count result := nofun
          rw [and_iff_right silent, or_iff_right (Option.some_ne_none _).symm, Option.toList_none, List.nil_append]
      | some other =>
          have inside : other ∈ printedFor i runs :=
            mem_printedFor.mpr ⟨stdout, among stdout List.mem_cons_self, printed⟩
          have level := leads_iff_level leads inside
          rw [Option.toList_some, List.singleton_append]
          by_cases same : other = result
          · subst same
            have accepted : leadsFor i runs other = true := decide_eq_true leads
            rw [List.find?_cons_of_pos accepted]
            exact iff_of_true rfl (Or.inl rfl)
          · have differ : Option.some other ≠ Option.some result := fun equal => same (Option.some.inj equal)
            rw [or_iff_right differ]
            by_cases rival : Tally.Leads (printedFor i runs) other
            · have accepted : leadsFor i runs other = true := decide_eq_true rival
              rw [List.find?_cons_of_pos accepted]
              exact iff_of_false differ fun both => both.1 ⟨other, rfl, same, level.mp rival⟩
            · have rejected : ¬ leadsFor i runs other = true := fun accepted => rival (of_decide_eq_true accepted)
              rw [List.find?_cons_of_neg rejected]
              refine (and_iff_right ?_).symm
              rintro ⟨_, ⟨⟩, _, equal⟩
              exact rival (level.mpr equal)

/-- The expected result wins if the runs settle the query well. -/
theorem most_iff_settledWell (ahead : ¬ Overtaken script runs) (known : script.results[i]? = some result)
    (same : order.Perm runs) :
    (Tally.ofKeys (printedFor i order)).most = some result ↔
      SettledWell (PrintsResult script) (PrintsRival script runs) i order := by
  have predicates : (fun other => decide (Tally.Leads (printedFor i order) other)) = leadsFor i runs :=
    funext fun other => decide_eq_decide.mpr (leads_perm same)
  rw [Tally.most_ofKeys, predicates]
  exact find_iff_settledWell (leads_result ahead known) known fun stdout inside => same.mem_iff.mp inside

end Winner

/-- A script agrees if all its queries are settled well. -/
theorem agrees_iff_settledWell (ahead : ¬ Overtaken script runs) (same : order.Perm runs) :
    Agrees script order ↔ ∀ i, i ∈ Finset.range script.results.length ->
      SettledWell (PrintsResult script) (PrintsRival script runs) i order := by
  constructor
  · intro agrees i inside
    have known := List.getElem?_eq_getElem (Finset.mem_range.mp inside)
    exact (most_iff_settledWell ahead known same).mp (agrees i _ known)
  · intro settled i result known
    have below := (List.getElem?_eq_some_iff.mp known).1
    exact (most_iff_settledWell ahead known same).mpr (settled i (Finset.mem_range.mpr below))

theorem not_agrees_of_overtaken (overtaken : Overtaken script runs) (same : order.Perm runs) :
    ¬ Agrees script order := by
  rcases overtaken with ⟨i, result, known, other, inside, more⟩
  intro agrees
  have leads := (leads_perm same).mp (Tally.leads_of_most (agrees i result known))
  exact absurd (leads other inside) (Nat.not_le.mpr more)

/-- Without a tie every order agrees. -/
theorem agrees_of_untied (finishes : ¬ Raises script runs) (ahead : ¬ Overtaken script runs)
    (untied : ¬ Tied script runs) (same : order.Perm runs) : Agrees script order := by
  rw [agrees_iff_settledWell ahead same]
  intro i inside
  have below := Finset.mem_range.mp inside
  have known := List.getElem?_eq_getElem below
  apply settledWell_of_unopposed
  · exact fun stdout known rival => untied ⟨i, stdout, same.mem_iff.mp known, rival⟩
  · have full : printedFor i runs ≠ [] := fun empty => finishes (Or.inr ⟨i, script.same_length ▸ below, empty⟩)
    rcases List.exists_mem_of_ne_nil _ full with ⟨other, printed⟩
    have more := leads_result ahead known other printed
    have positive := Nat.lt_of_lt_of_le (List.count_pos_iff.mpr printed) more
    rcases mem_printedFor.mp (List.count_pos_iff.mp positive) with ⟨stdout, run, prints⟩
    exact ⟨stdout, same.mem_iff.mpr run, (printsResult_iff known).mpr prints⟩

theorem not_printsRival {i : Nat} {stdout : Text} (prints : PrintsResult script i stdout) :
    ¬ PrintsRival script runs i stdout := by
  rcases prints with ⟨result, known, printed⟩
  intro rival
  rcases (printsRival_iff known).mp rival with ⟨other, printed', differ, _⟩
  exact differ (Option.some.inj (printed'.symm.trans printed))

/-- With a tie some order disagrees: a rival comes first. -/
theorem exists_disagreeing (ahead : ¬ Overtaken script runs) (tied : Tied script runs) :
    ∃ order, order.Perm runs ∧ ¬ Agrees script order := by
  rcases tied with ⟨i, stdout, inside, rival⟩
  have same : (stdout :: runs.erase stdout).Perm runs := (List.perm_cons_erase inside).symm
  refine ⟨_, same, fun agrees => ?_⟩
  rcases rival with ⟨result, other, known, rest⟩
  have below := (List.getElem?_eq_some_iff.mp known).1
  have rival : PrintsRival script runs i stdout := ⟨result, other, known, rest⟩
  rcases (agrees_iff_settledWell ahead same).mp agrees i (Finset.mem_range.mpr below) with prints | ⟨unopposed, _⟩
  · exact not_printsRival prints rival
  · exact unopposed rival

/-- Some order agrees, unless queries block. -/
theorem exists_agreeing_iff (ahead : ¬ Overtaken script runs) :
    (∃ order, order.Perm runs ∧ Agrees script order) ↔ ¬ Blocked script runs := by
  have orders : (∃ order, order.Perm runs ∧ Agrees script order) ↔
      ∃ order, order.Perm runs ∧ ∀ i, i ∈ Finset.range script.results.length ->
        SettledWell (PrintsResult script) (PrintsRival script runs) i order :=
    exists_congr fun order => and_congr_right fun same => agrees_iff_settledWell ahead same
  rw [orders, exists_order_iff fun i stdout => not_printsRival]
  constructor
  · rintro free ⟨queries, inside, nonempty, blocks⟩
    exact free queries inside nonempty blocks
  · exact fun free queries inside nonempty blocks => free ⟨queries, inside, nonempty, blocks⟩

/-- All orders agree, or all disagree. -/
theorem agrees_perm_iff (finishes : ¬ Raises script runs) :
    (∀ order, order.Perm runs -> (Agrees script order ↔ Agrees script runs)) ↔
      Overtaken script runs ∨ ¬ Tied script runs ∨ Blocked script runs := by
  by_cases overtaken : Overtaken script runs
  · refine iff_of_true (fun order same => ?_) (Or.inl overtaken)
    exact iff_of_false (not_agrees_of_overtaken overtaken same) (not_agrees_of_overtaken overtaken (.refl runs))
  · rw [or_iff_right overtaken]
    constructor
    · intro all
      by_contra neither
      rcases not_or.mp neither with ⟨tied, free⟩
      rcases exists_disagreeing overtaken (not_not.mp tied) with ⟨order, same, disagrees⟩
      rcases (exists_agreeing_iff overtaken).mpr free with ⟨order', same', agrees⟩
      exact disagrees ((all order same).mpr ((all order' same').mp agrees))
    · rintro (untied | blocked) order same
      · exact iff_of_true (agrees_of_untied finishes overtaken untied same)
          (agrees_of_untied finishes overtaken untied (.refl runs))
      · have none : ∀ order, order.Perm runs -> ¬ Agrees script order := fun order same agrees =>
          (exists_agreeing_iff overtaken).mp ⟨order, same, agrees⟩ blocked
        exact iff_of_false (none order same) (none runs (.refl runs))

end Outputs

/-- For every list of outputs of the successful runs of either script, or of one like
them: the likelyhood never depends on the order of the runs, and neither does the
verdict exactly if the script raises, an expected result is printed less often than
another output, none is printed as often as another output, or the queries with
such ties are blocked. -/
theorem evaluateRuns_perm_iff (script : PolicyScript) (runs : List Text) :
    (∀ order, order.Perm runs ->
      (evaluateRuns script order).map (likelyhood script) = (evaluateRuns script runs).map (likelyhood script)) ∧
    ((∀ order, order.Perm runs ->
      (evaluateRuns script order).map (conclusion script) = (evaluateRuns script runs).map (conclusion script)) ↔
      Raises script runs ∨ Overtaken script runs ∨ ¬ Tied script runs ∨ Blocked script runs) := by
  refine ⟨fun order same => likelyhood_perm same, ?_⟩
  by_cases raises : Raises script runs
  · refine iff_of_true (fun order same => ?_) (Or.inl raises)
    rw [evaluateRuns_none raises, evaluateRuns_none ((raises_perm same).mpr raises)]
  · rw [or_iff_right raises, ← agrees_perm_iff raises]
    exact forall_congr' fun order => forall_congr' fun same => conclusion_perm raises same

/-- A run with the results that HUPLRU predicts, and one with another output for the
first query. -/
def levelRuns : List Text :=
  [triggerOutput huplru.queries huplru.results,
    triggerOutput huplru.queries ("BCDA".toList :: huplru.results.tail)]

/-- Of two runs that differ in one output, the first one decides. -/
theorem evaluateRuns_order_decides :
    ¬ ∀ order, order.Perm levelRuns ->
      (evaluateRuns huplru order).map (conclusion huplru) =
        (evaluateRuns huplru levelRuns).map (conclusion huplru) := by
  intro all
  have verdict : (evaluateRuns huplru levelRuns).map Judgement.implements = some true := by decide +kernel
  have reversed : (evaluateRuns huplru levelRuns.reverse).map Judgement.implements = some false := by decide +kernel
  rcases Option.map_eq_some_iff.mp verdict with ⟨final, evaluated, positive⟩
  rcases Option.map_eq_some_iff.mp reversed with ⟨final', evaluated', negative⟩
  have same := all levelRuns.reverse (List.reverse_perm _)
  rw [evaluated, evaluated', Option.map_some, Option.map_some, conclusion, conclusion, positive, negative] at same
  cases (List.cons.inj (Option.some.inj same)).1

end CacheQuery
end Talbot
