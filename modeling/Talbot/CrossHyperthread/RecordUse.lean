import Talbot.CrossHyperthread.LockStep

namespace Talbot
namespace CrossHyperthread

/-!
The use of the record that a call shares with its `main`.

`main` accesses the record in its loop: the last access is the second switch of
the last iteration, which evaluates `data->level`.  The caller reads the counter
and frees the record.
-/

open Foundations

/-- The operations that access the record of the call, including its allocation
and its release. -/
def usesRecord (number : Nat) : HandshakeOp -> Bool
  | .newThreadData other _ | .readMm other | .readLevel other | .switchPageTableEntries other _ _
  | .incrementMisses other | .readMisses other | .kfree other => decide (other = number)
  | _ => false

/-- The caller's last accesses: it reads the counter, or frees the record. -/
def collects (number : Nat) : HandshakeOp -> Bool
  | .readMisses other | .kfree other => decide (other = number)
  | _ => false

def frees (number : Nat) : HandshakeOp -> Bool
  | .kfree other => decide (other = number)
  | _ => false

/-- Every second word that `main` reads is a measurement. -/
def measurements : List Nat -> List Nat
  | _ :: value :: rest => value :: measurements rest
  | _ => []

/-- How many measurements of the call found the signal. -/
def signalsOf (number : Nat) (trace : List HandshakeEvent) : Nat :=
  (measurements (readsOf number trace)).count signal

/-- What may happen after an earlier event: `main` no longer accesses a record
that is being collected, and nobody one that is freed. -/
structure Permitted (earlier later : HandshakeEvent) : Prop where
  handedOver : ∀ number, collects number earlier.op = true -> later.thread = .main number ->
    usesRecord number later.op = false
  alive : ∀ number, frees number earlier.op = true -> usesRecord number later.op = false

/-- The caller reads the counter and frees the record after the last access of
`main`, and what it reads is the count over all iterations. -/
structure RecordSafe (trace : List HandshakeEvent) : Prop where
  ordered : trace.Pairwise Permitted
  counted : ∀ number before (misses : Nat) after,
    trace = before ++ ⟨.caller, .readMisses number, misses⟩ :: after ->
    (measurements (readsOf number before)).length = iterations ∧ misses = signalsOf number before

theorem RecordSafe.append {trace : List HandshakeEvent} {event : HandshakeEvent} (safe : RecordSafe trace)
    (permitted : ∀ earlier, earlier ∈ trace -> Permitted earlier event)
    (counted : ∀ number (misses : Nat), event = ⟨.caller, .readMisses number, misses⟩ ->
      (measurements (readsOf number trace)).length = iterations ∧ misses = signalsOf number trace) :
    RecordSafe (trace ++ [event]) where
  ordered := by
    refine List.pairwise_append.mpr ⟨safe.ordered, List.pairwise_singleton _ _, ?_⟩
    intro earlier member later now
    rw [List.mem_singleton.mp now]
    exact permitted earlier member
  counted := by
    intro number before misses after same
    rcases List.eq_nil_or_concat after with rfl | ⟨rest, last, rfl⟩
    · rcases List.append_inj' same rfl with ⟨rfl, single⟩
      exact counted number misses (List.cons.inj single).1
    · rw [List.concat_eq_append, ← List.cons_append, ← List.append_assoc] at same
      exact safe.counted number before misses rest (List.append_inj' same rfl).1

/-! ## Measurements -/

theorem length_measurements (words : List Nat) : (measurements words).length = words.length / 2 := by
  induction words using measurements.induct with
  | case1 word value rest inductionHypothesis =>
      rw [measurements, List.length_cons, inductionHypothesis, List.length_cons, List.length_cons, Nat.add_assoc,
        Nat.add_div_right _ (Nat.zero_lt_two)]
  | case2 words short =>
      match words, short with
      | [], _ => rfl
      | [_], _ => exact (Nat.div_eq_of_lt (Nat.lt_succ_self 1)).symm
      | first :: second :: rest, short => exact (short first second rest rfl).elim

/-- The word after an even number of words is not a measurement, the next one is. -/
theorem measurements_append (words : List Nat) (word : Nat) :
    measurements (words ++ [word]) = measurements words ++ if words.length % 2 = 1 then [word] else [] := by
  induction words using measurements.induct with
  | case1 first value rest inductionHypothesis =>
      rw [List.cons_append, List.cons_append, measurements, measurements, inductionHypothesis, List.length_cons,
        List.length_cons, Nat.add_assoc, Nat.add_mod_right, List.cons_append]
  | case2 words short =>
      match words, short with
      | [], _ => rfl
      | [_], _ => rfl
      | first :: second :: rest, short => exact (short first second rest rfl).elim

/-! ## The phases of `main` -/

namespace MainPhase

/-- `main` made its last access. -/
def Finished : MainPhase -> Prop
  | iterating i .prepare => i = iterations
  | closing | announcing | returned => True
  | _ => False

/-- The signal that was measured and not counted yet. -/
def pending : MainPhase -> Nat
  | iterating _ (.measured value) => if value = signal then 1 else 0
  | _ => 0

variable {phase : MainPhase}

theorem finished_of_switches (bounded : phase.Bounded) (all : phase.switches = 2 * iterations) : phase.Finished := by
  cases phase with
  | starting => cases all
  | iterating i point =>
      change 2 * i + point.switches = 2 * iterations at all
      cases point with
      | prepare => exact Nat.eq_of_mul_eq_mul_left Nat.zero_lt_two all
      | targetRead => exact absurd (Nat.eq_of_mul_eq_mul_left Nat.zero_lt_two all) (Nat.ne_of_lt bounded)
      | _ =>
          change 2 * i + 1 = 2 * iterations at all
          omega
  | _ => trivial

theorem reads_of_finished (finished : phase.Finished) : phase.reads = 2 * iterations := by
  cases phase with
  | starting => exact finished.elim
  | iterating i point =>
      cases point with
      | prepare => exact congrArg (2 * ·) finished
      | _ => exact finished.elim
  | _ => rfl

theorem pending_of_finished (finished : phase.Finished) : phase.pending = 0 := by
  cases phase with
  | iterating i point =>
      cases point with
      | measured value => exact finished.elim
      | _ => rfl
  | _ => rfl

end MainPhase

namespace MainMove

variable {number : Nat} {phase after : MainPhase} {op : HandshakeOp} {response : op.Response}

theorem finished (move : MainMove number phase op response after) (finished : phase.Finished) : after.Finished := by
  cases move with
  | work noRead response => exact finished
  | readTarget more address value => exact absurd finished (Nat.ne_of_lt more)
  | readLevel more level => exact finished
  | restore target complementary last =>
      rcases last with rfl | ⟨value, _, rfl⟩ <;> exact finished.elim
  | close => trivial
  | awaitSub inTime => trivial
  | announce => trivial
  | _ => exact finished.elim

/-- Of the records `main` only uses its own, and not after its last access. -/
theorem uses (move : MainMove number phase op response after) {other : Nat} (use : usesRecord other op = true) :
    other = number ∧ ¬ phase.Finished := by
  cases move with
  | readMm mm => exact ⟨(of_decide_eq_true use).symm, id⟩
  | readLevel more level => exact ⟨(of_decide_eq_true use).symm, Nat.ne_of_lt more⟩
  | exchange target complementary => exact ⟨(of_decide_eq_true use).symm, id⟩
  | count => exact ⟨(of_decide_eq_true use).symm, id⟩
  | restore target complementary last =>
      rcases last with rfl | ⟨value, _, rfl⟩ <;> exact ⟨(of_decide_eq_true use).symm, id⟩
  | _ => cases use

/-- `main` touches `main_done` once, with the last thing it does. -/
theorem announces (move : MainMove number phase op response after) (target : op.target = some .mainDone) :
    after = .returned ∧
      (⟨.main number, op, response⟩ : HandshakeEvent) = ⟨.main number, .completeAll .mainDone, ()⟩ := by
  cases move with
  | announce => exact ⟨rfl, rfl⟩
  | _ => cases target

/-- `main` neither allocates nor collects records. -/
theorem no_collect (move : MainMove number phase op response after) (other : Nat) : collects other op = false := by
  cases move <;> rfl

theorem no_free (move : MainMove number phase op response after) (other : Nat) : frees other op = false := by
  cases move <;> rfl

end MainMove

theorem SubMove.no_mainDone {phase after : SubPhase} {op : HandshakeOp} {response : op.Response}
    (move : SubMove phase op response after) : op.target ≠ some .mainDone := by
  cases move <;> nofun

theorem SubMove.no_use {phase after : SubPhase} {op : HandshakeOp} {response : op.Response}
    (move : SubMove phase op response after) (other : Nat) :
    usesRecord other op = false ∧ collects other op = false ∧ frees other op = false := by
  cases move <;> exact ⟨rfl, rfl, rfl⟩

/-- Only a use changes the record. -/
theorem Shared.effect_record {shared after : Shared} {op : HandshakeOp} {response : op.Response} (number : Nat)
    (effect : shared.effect op response after) (unused : usesRecord number op = false) :
    after.records number = shared.records number := by
  have other : ∀ call record, decide (call = number) = false ->
      (shared.updateRecord call record).records number = shared.records number := by
    intro call record different
    exact shared.updateRecord_other (Ne.symm (of_decide_eq_false different)) record
  cases op with
  | newThreadData call level =>
      rcases effect with ⟨mm, rfl⟩
      exact other call _ unused
  | incrementMisses call => rw [show after = _ from effect, other _ _ unused]
  | kfree call => rw [show after = _ from effect, other _ _ unused]
  | waitForCompletion target => exact effect.2 ▸ rfl
  | waitForCompletionTimeout target => cases response <;> exact effect.2 ▸ rfl
  | readMm call => rw [effect.2]
  | readLevel call => rw [effect.2]
  | readMisses call => rw [effect.2]
  | _ => rw [show after = _ from effect] <;> rfl

/-- A record stays allocated until it is freed. -/
theorem Shared.effect_allocated {shared after : Shared} {op : HandshakeOp} {response : op.Response} (number : Nat)
    (effect : shared.effect op response after) (kept : frees number op = false)
    (allocated : ∃ data, shared.records number = some data) : ∃ data, after.records number = some data := by
  by_cases use : usesRecord number op = true
  · cases op with
    | newThreadData call level =>
        rcases effect with ⟨mm, rfl⟩
        rw [show call = number from of_decide_eq_true use]
        exact ⟨_, Shared.updateRecord_self _ _ _⟩
    | incrementMisses call =>
        rcases allocated with ⟨data, known⟩
        rw [show call = number from of_decide_eq_true use] at effect
        rw [show after = _ from effect]
        exact ⟨{ data with misses := data.misses + 1 }, (Shared.updateRecord_self _ _ _).trans (by rw [known]; rfl)⟩
    | kfree call =>
        have used : frees number (.kfree call) = true := use
        rw [kept] at used
        cases used
    | readMm call => exact effect.2 ▸ allocated
    | readLevel call => exact effect.2 ▸ allocated
    | readMisses call => exact effect.2 ▸ allocated
    | switchPageTableEntries call target complementary => exact (show after = _ from effect) ▸ allocated
    | _ => cases use
  · rw [Shared.effect_record number effect (Bool.eq_false_iff.mpr use)]
    exact allocated

/-! ## What is known about one call -/

/-- The phase of `main` tells how far the trace got, and the record holds the
signals counted so far. -/
structure Ledger (number : Nat) (phase : MainPhase) (records : Nat -> Option ThreadData)
    (trace : List HandshakeEvent) : Prop where
  reads : (readsOf number trace).length = phase.reads
  switches : switchesOf number trace = phase.switches
  bounded : phase.Bounded
  counted : ∀ data, records number = some data -> data.misses + phase.pending = signalsOf number trace

namespace Ledger

variable {number : Nat} {phase phase' : MainPhase} {shared after : Shared} {trace : List HandshakeEvent}

theorem signalsOf_same {event : HandshakeEvent} (noRead : mainRead number event = none) :
    signalsOf number (trace ++ [event]) = signalsOf number trace := by
  rw [signalsOf, signalsOf, readsOf_same noRead]

/-- Events of others, and the uses of the record by the caller that keep it. -/
theorem other (ledger : Ledger number phase shared.records trace) (event : HandshakeEvent)
    (noRead : mainRead number event = none) (noSwitch : mainSwitches number event = false)
    (kept : ∀ data, after.records number = some data -> shared.records number = some data) :
    Ledger number phase after.records (trace ++ [event]) where
  reads := by
    rw [readsOf_same noRead]
    exact ledger.reads
  switches := by
    rw [switchesOf_same noSwitch]
    exact ledger.switches
  bounded := ledger.bounded
  counted := by
    intro data known
    rw [signalsOf_same noRead]
    exact ledger.counted data (kept data known)

/-- The new record of a call whose `main` did not start. -/
theorem allocate (ledger : Ledger number .starting shared.records trace) {level mm : Nat}
    {event : HandshakeEvent} (noRead : mainRead number event = none) (noSwitch : mainSwitches number event = false) :
    Ledger number .starting (shared.updateRecord number (some ⟨0, level, mm⟩)).records (trace ++ [event]) where
  reads := by
    rw [readsOf_same noRead]
    exact ledger.reads
  switches := by
    rw [switchesOf_same noSwitch]
    exact ledger.switches
  bounded := trivial
  counted := by
    intro data known
    rw [Shared.updateRecord_self] at known
    cases known
    rw [signalsOf_same noRead, signalsOf, List.eq_nil_of_length_eq_zero ledger.reads]
    rfl

theorem main_move (ledger : Ledger number phase shared.records trace) {op : HandshakeOp} {response : op.Response}
    (move : MainMove number phase op response phase') (effect : shared.effect op response after) :
    Ledger number phase' after.records (trace ++ [⟨.main number, op, response⟩]) where
  reads := by
    rw [readsOf_append, List.length_append, ledger.reads]
    exact move.reads
  switches := by
    rw [switchesOf_append, ledger.switches]
    exact move.switches
  bounded := move.bounded ledger.bounded
  counted := by
    intro data known
    cases move with
    | @readTarget i more address value =>
        rw [show after = _ from effect] at known
        rw [signalsOf, readsOf_read, measurements_append, ledger.reads, if_neg, List.append_nil]
        · exact ledger.counted data known
        · change ¬ (2 * i + 0) % 2 = 1
          omega
    | @measure i address value =>
        rw [show after = _ from effect] at known
        rw [signalsOf, readsOf_read, measurements_append, ledger.reads, if_pos, List.count_append]
        · change data.misses + (if value = signal then 1 else 0) = _ + _
          rw [List.count_singleton, ← signalsOf, ← ledger.counted data known]
          congr 1
          by_cases same : value = signal <;> simp [same]
        · change (2 * i + 1) % 2 = 1
          omega
    | @count i =>
        rw [signalsOf_same rfl]
        rw [show after = _ from effect, Shared.updateRecord_self, Option.map_eq_some_iff] at known
        rcases known with ⟨before, known, rfl⟩
        exact ledger.counted before known
    | restore target complementary last =>
        rw [signalsOf_same rfl]
        rw [show after = _ from effect] at known
        rcases last with rfl | ⟨value, unseen, rfl⟩
        · exact ledger.counted data known
        · have counted := ledger.counted data known
          rwa [MainPhase.pending, if_neg unseen] at counted
    | @work i op noRead response =>
        have unread : mainRead number ⟨.main number, .machine op, response⟩ = none := by
          cases op <;> first | rfl | cases noRead
        rw [signalsOf_same unread]
        rw [show after = _ from effect] at known
        exact ledger.counted data known
    | readMm mm =>
        rw [signalsOf_same rfl]
        exact ledger.counted data (effect.2 ▸ known)
    | readLevel more level =>
        rw [signalsOf_same rfl]
        exact ledger.counted data (effect.2 ▸ known)
    | exchange target complementary =>
        rw [signalsOf_same rfl]
        rw [show after = _ from effect] at known
        exact ledger.counted data known
    | _ =>
        rw [signalsOf_same rfl]
        exact ledger.counted data (Shared.effect_record number effect rfl ▸ known)

/-- After its last access, everything is counted. -/
theorem all_counted (ledger : Ledger number phase shared.records trace) (finished : phase.Finished)
    {data : ThreadData} (known : shared.records number = some data) :
    (measurements (readsOf number trace)).length = iterations ∧ data.misses = signalsOf number trace := by
  constructor
  · rw [length_measurements, ledger.reads, MainPhase.reads_of_finished finished]
    exact Nat.mul_div_cancel_left _ Nat.zero_lt_two
  · have counted := ledger.counted data known
    rwa [MainPhase.pending_of_finished finished] at counted

end Ledger

end CrossHyperthread
end Talbot
