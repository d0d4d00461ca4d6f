import Talbot.CrossHyperthread.Protocols

namespace Talbot
namespace CrossHyperthread

/-!
What a run tells about the two threads of one call, and the invariant that keeps
them in step as long as no completion is saturated.

The trace is read through three projections: the words that `main` read, the
switches it made, and the PCIDs that `sub` wrote.  The phase of a thread
determines how many of each there are, and how often it signalled and waited.
-/

open Foundations

/-! ## Reading the trace -/

/-- The word that this event reads, if it is a read by `main` of the call. -/
def mainRead (number : Nat) : HandshakeEvent -> Option Nat
  | ⟨.main other, .machine (.readData _), value⟩ => if other = number then some value else none
  | _ => none

def mainSwitches (number : Nat) : HandshakeEvent -> Bool
  | ⟨.main other, .switchPageTableEntries _ _ _, _⟩ => decide (other = number)
  | _ => false

/-- The PCID that this event switches to, if it is a switch by `sub` of the call. -/
def subPcid (number : Nat) : HandshakeEvent -> Option Nat
  | ⟨.sub other, .machine (.setCr3 value), _⟩ => if other = number then some (value % 4096) else none
  | _ => none

def readsOf (number : Nat) (trace : List HandshakeEvent) : List Nat :=
  trace.filterMap (mainRead number)

def switchesOf (number : Nat) (trace : List HandshakeEvent) : Nat :=
  trace.countP (mainSwitches number)

def pcidsOf (number : Nat) (trace : List HandshakeEvent) : List Nat :=
  trace.filterMap (subPcid number)

/-- The first switch of iteration `i`, with what came before it and after it.
There are two switches in every iteration. -/
structure SwitchedAt (number i : Nat) (trace after : List HandshakeEvent) : Prop where
  intro ::
  split : ∃ before event, trace = before ++ event :: after ∧ mainSwitches number event = true ∧
    switchesOf number before = 2 * i

/-- `sub` performed a whole sweep after the first switch of iteration `i`: it named
all other PCIDs, which is what the measurement of the iteration relies on. -/
def SweptSince (number i : Nat) (trace : List HandshakeEvent) : Prop :=
  ∃ after, SwitchedAt number i trace after ∧ List.range' 1 4095 <:+: pcidsOf number after

theorem SwitchedAt.append {number i : Nat} {trace after : List HandshakeEvent}
    (switched : SwitchedAt number i trace after) (later : List HandshakeEvent) :
    SwitchedAt number i (trace ++ later) (after ++ later) := by
  rcases switched.split with ⟨before, event, rfl, switch, count⟩
  refine ⟨before, event, ?_, switch, count⟩
  rw [List.append_assoc, List.cons_append]

theorem SweptSince.append {number i : Nat} {trace : List HandshakeEvent} (swept : SweptSince number i trace)
    (later : List HandshakeEvent) : SweptSince number i (trace ++ later) := by
  rcases swept with ⟨after, switched, sweep⟩
  refine ⟨after ++ later, switched.append later, sweep.trans ?_⟩
  rw [pcidsOf, pcidsOf, List.filterMap_append]
  exact (List.prefix_append _ _).isInfix

/-! ## Counting in phases -/

namespace MainPoint

def reads : MainPoint -> Nat
  | prepare => 0
  | targetRead | exchanged | signalled | swept => 1
  | measured _ | counted => 2

def switches : MainPoint -> Nat
  | prepare | targetRead => 0
  | _ => 1

def signals : MainPoint -> Nat
  | prepare | targetRead | exchanged => 0
  | _ => 1

def waits : MainPoint -> Nat
  | prepare | targetRead | exchanged | signalled => 0
  | _ => 1

end MainPoint

namespace MainPhase

def reads : MainPhase -> Nat
  | starting => 0
  | iterating i point => 2 * i + point.reads
  | _ => 2 * iterations

def switches : MainPhase -> Nat
  | starting => 0
  | iterating i point => 2 * i + point.switches
  | _ => 2 * iterations

/-- The iterations whose first switch was made. -/
def exchanges : MainPhase -> Nat
  | starting => 0
  | iterating i point => i + point.switches
  | _ => iterations

/-- How often `desynchronization` was signalled, not counting the last
`complete_all`. -/
def signals : MainPhase -> Nat
  | starting => 0
  | iterating i point => i + point.signals
  | _ => iterations

/-- How often `pcid_switching` was waited for. -/
def waits : MainPhase -> Nat
  | starting => 0
  | iterating i point => i + point.waits
  | _ => iterations

def closed : MainPhase -> Bool
  | starting | iterating _ _ => false
  | _ => true

/-- Only the loop test is reached after the last iteration. -/
def Bounded : MainPhase -> Prop
  | iterating i .prepare => i ≤ iterations
  | iterating i _ => i < iterations
  | _ => True

end MainPhase

namespace SubPhase

/-- How often `desynchronization` was waited for. -/
def waits : SubPhase -> Nat
  | starting => 0
  | waiting j => j
  | sweeping j _ => j + 1
  | _ => iterations

/-- The finished sweeps, each of which signalled `pcid_switching` once. -/
def sweeps : SubPhase -> Nat
  | starting => 0
  | waiting j => j
  | sweeping j _ => j
  | _ => iterations

def closed : SubPhase -> Bool
  | closing | returned => true
  | _ => false

def Bounded : SubPhase -> Prop
  | waiting j => j ≤ iterations
  | sweeping j pcids => j < iterations ∧ pcids ≤ 4095
  | _ => True

end SubPhase

namespace MainMove

variable {number : Nat} {phase after : MainPhase} {op : HandshakeOp} {response : op.Response}

theorem reads (move : MainMove number phase op response after) :
    phase.reads + (readsOf number [⟨.main number, op, response⟩]).length = after.reads := by
  cases move with
  | work noRead response =>
      rename_i op
      cases op <;> first | rfl | cases noRead
  | readTarget more address value => simp [readsOf, mainRead, MainPhase.reads, MainPoint.reads]
  | measure address value => simp [readsOf, mainRead, MainPhase.reads, MainPoint.reads]
  | restore target complementary last =>
      rcases last with rfl | ⟨value, _, rfl⟩ <;> rfl
  | _ => rfl

theorem switches (move : MainMove number phase op response after) :
    phase.switches + switchesOf number [⟨.main number, op, response⟩] = after.switches := by
  cases move with
  | work noRead response => rfl
  | exchange target complementary => simp [switchesOf, mainSwitches, MainPhase.switches, MainPoint.switches]
  | restore target complementary last =>
      rcases last with rfl | ⟨value, _, rfl⟩ <;>
        simp [switchesOf, mainSwitches, MainPhase.switches, MainPoint.switches] <;> omega
  | _ => rfl

theorem bounded (move : MainMove number phase op response after) (bounded : phase.Bounded) : after.Bounded := by
  cases move with
  | setUp => exact Nat.zero_le _
  | readTarget more address value => exact more
  | restore target complementary last =>
      rcases last with rfl | ⟨value, _, rfl⟩ <;> exact Nat.succ_le_of_lt bounded
  | close => trivial
  | awaitSub inTime => trivial
  | announce => trivial
  | _ => exact bounded

/-- Only the first switch of an iteration adds an exchange. -/
theorem exchanges (move : MainMove number phase op response after) :
    after.exchanges = phase.exchanges ∨ ∃ i, after.exchanges = i + 1 ∧ phase.switches = 2 * i ∧
      phase.exchanges = i ∧ mainSwitches number ⟨.main number, op, response⟩ = true := by
  cases move with
  | @exchange i target complementary => exact Or.inr ⟨i, rfl, rfl, rfl, decide_eq_true rfl⟩
  | restore target complementary last => rcases last with rfl | ⟨value, _, rfl⟩ <;> exact Or.inl rfl
  | _ => exact Or.inl rfl

/-- The reads of one call are not those of another. -/
theorem no_read (move : MainMove number phase op response after) {other : Nat} (different : other ≠ number) :
    mainRead other ⟨.main number, op, response⟩ = none := by
  cases move with
  | @work i op noRead response => cases op <;> first | rfl | cases noRead
  | readTarget more address value => exact if_neg (Ne.symm different)
  | measure address value => exact if_neg (Ne.symm different)
  | _ => rfl

theorem no_switch (move : MainMove number phase op response after) {other : Nat} (different : other ≠ number) :
    mainSwitches other ⟨.main number, op, response⟩ = false := by
  cases move with
  | exchange target complementary => exact decide_eq_false (Ne.symm different)
  | restore target complementary last => exact decide_eq_false (Ne.symm different)
  | _ => rfl

/-- A read in an odd position is a measurement, after as many waits. -/
theorem measures (move : MainMove number phase op response after)
    (read : (mainRead number ⟨.main number, op, response⟩).isSome = true) {i : Nat}
    (odd : phase.reads = 2 * i + 1) : phase = .iterating i .swept := by
  cases move with
  | @work j op noRead response => cases op <;> first | cases read | cases noRead
  | @readTarget j more address value =>
      have even : 2 * j + 0 = 2 * i + 1 := odd
      omega
  | @measure j address value =>
      have same : 2 * j + 1 = 2 * i + 1 := odd
      rw [show j = i by omega]
  | _ => cases read

end MainMove

namespace MainPhase

variable {phase : MainPhase}

theorem waits_le_signals : phase.waits ≤ phase.signals := by
  cases phase with
  | iterating i point => cases point <;> first | exact Nat.le_refl _ | exact Nat.le_succ i
  | _ => exact Nat.le_refl _

theorem signals_le_exchanges : phase.signals ≤ phase.exchanges := by
  cases phase with
  | iterating i point => cases point <;> first | exact Nat.le_refl _ | exact Nat.le_succ i
  | _ => exact Nat.le_refl _

theorem exchanges_le (bounded : phase.Bounded) : phase.exchanges ≤ iterations := by
  cases phase with
  | iterating i point =>
      cases point with
      | prepare => exact bounded
      | targetRead => exact Nat.le_of_lt bounded
      | _ => exact Nat.succ_le_of_lt bounded
  | starting => exact Nat.zero_le _
  | _ => exact Nat.le_refl _

end MainPhase

theorem SubPhase.sweeps_le {phase : SubPhase} (bounded : phase.Bounded) : phase.sweeps ≤ iterations := by
  cases phase with
  | starting => exact Nat.zero_le _
  | waiting j => exact bounded
  | sweeping j pcids => exact Nat.le_of_lt bounded.1
  | _ => exact Nat.le_refl _

theorem SubMove.bounded {phase after : SubPhase} {op : HandshakeOp} {response : op.Response}
    (move : SubMove phase op response after) (bounded : phase.Bounded) : after.Bounded := by
  cases move with
  | setUp => exact Nat.zero_le _
  | await more => exact ⟨more, Nat.zero_le _⟩
  | sweep next more => exact ⟨bounded.1, more⟩
  | signal => exact bounded.1
  | close => trivial
  | announce => trivial
  | _ => exact bounded

/-! ## The counters -/

/-- What is not yet waited for was signalled once more often, as long as the
signalling thread did not end. -/
structure Counters (main : MainPhase) (sub : SubPhase) (completions : CompletionName -> Completion) : Prop where
  desynchronization : main.closed = false ->
    (completions .desynchronization).done + sub.waits = main.signals
  pcidSwitching : sub.closed = false -> (completions .pcidSwitching).done + main.waits = sub.sweeps

namespace Counters

variable {main main' : MainPhase} {sub sub' : SubPhase} {shared after : Shared}

/-- A measurement that was waited for follows a sweep. -/
theorem waits_le_sweeps (counters : Counters main sub shared.completions) (bounded : main.Bounded) :
    main.waits ≤ sub.sweeps := by
  cases closed : sub.closed with
  | false =>
      have count := counters.pcidSwitching closed
      omega
  | true =>
      have all : sub.sweeps = iterations := by
        cases sub <;> first | rfl | cases closed
      rw [all]
      exact Nat.le_trans MainPhase.waits_le_signals
        (Nat.le_trans MainPhase.signals_le_exchanges (MainPhase.exchanges_le bounded))

/-- A sweep that was started follows an exchange. -/
theorem waits_le_exchanges (counters : Counters main sub shared.completions) (bounded : sub.Bounded) :
    sub.waits ≤ main.exchanges := by
  cases closed : main.closed with
  | false =>
      have count := counters.desynchronization closed
      have signals := @MainPhase.signals_le_exchanges main
      omega
  | true =>
      have all : main.exchanges = iterations := by
        cases main <;> first | rfl | cases closed
      rw [all]
      cases sub with
      | starting => exact Nat.zero_le _
      | waiting j => exact bounded
      | sweeping j pcids => exact Nat.succ_le_of_lt bounded.1
      | _ => exact Nat.le_refl _

theorem main_move {number : Nat} {op : HandshakeOp} {response : op.Response}
    (counters : Counters main sub shared.completions) (move : MainMove number main op response main')
    (effect : shared.effect op response after) (mainBounded : main.Bounded) (subBounded : sub.Bounded) :
    Counters main' sub after.completions := by
  have signals := Nat.le_trans MainPhase.signals_le_exchanges (MainPhase.exchanges_le mainBounded)
  have sweeps := SubPhase.sweeps_le subBounded
  have room : iterations < uintMax := by decide
  cases move with
  | @signal i =>
      rw [show after = _ from effect]
      constructor
      · intro opened
        have count := counters.desynchronization rfl
        have below : (shared.completions .desynchronization).done < uintMax := by omega
        change (Completion.complete _).done + _ = _
        rw [Completion.complete_done below]
        change _ = i + 1
        change _ = i at count
        omega
      · exact counters.pcidSwitching
  | @await i =>
      rw [effect.2]
      constructor
      · exact counters.desynchronization
      · intro opened
        have count := counters.pcidSwitching opened
        have positive := effect.1
        have below : (shared.completions .pcidSwitching).done < uintMax := by omega
        change (Completion.consume _).done + (i + 1) = _
        rw [Completion.consume_done below]
        change _ + i = _ at count
        omega
  | close =>
      rw [show after = _ from effect]
      exact ⟨nofun, counters.pcidSwitching⟩
  | restore target complementary last =>
      rw [show after = _ from effect]
      rcases last with rfl | ⟨value, _, rfl⟩ <;> exact ⟨counters.1, counters.2⟩
  | _ =>
      have desync := Shared.effect_completion .desynchronization effect nofun
      have pcid := Shared.effect_completion .pcidSwitching effect nofun
      refine ⟨fun opened => ?_, fun opened => ?_⟩
      · rw [desync]
        exact counters.desynchronization opened
      · rw [pcid]
        exact counters.pcidSwitching opened

theorem sub_move {op : HandshakeOp} {response : op.Response}
    (counters : Counters main sub shared.completions) (move : SubMove sub op response sub')
    (effect : shared.effect op response after) (mainBounded : main.Bounded) (subBounded : sub.Bounded) :
    Counters main sub' after.completions := by
  have signals := Nat.le_trans MainPhase.signals_le_exchanges (MainPhase.exchanges_le mainBounded)
  have sweeps := SubPhase.sweeps_le subBounded
  have room : iterations < uintMax := by decide
  cases move with
  | @await j more =>
      rw [effect.2]
      constructor
      · intro opened
        have count := counters.desynchronization opened
        have positive := effect.1
        have below : (shared.completions .desynchronization).done < uintMax := by omega
        change (Completion.consume _).done + (j + 1) = _
        rw [Completion.consume_done below]
        change _ + j = _ at count
        omega
      · exact counters.pcidSwitching
  | @signal j =>
      rw [show after = _ from effect]
      constructor
      · exact counters.desynchronization
      · intro opened
        have count := counters.pcidSwitching rfl
        have below : (shared.completions .pcidSwitching).done < uintMax := by omega
        change (Completion.complete _).done + _ = j + 1
        rw [Completion.complete_done below]
        change _ = j at count
        omega
  | close =>
      rw [show after = _ from effect]
      exact ⟨counters.desynchronization, nofun⟩
  | _ =>
      have desync := Shared.effect_completion .desynchronization effect nofun
      have pcid := Shared.effect_completion .pcidSwitching effect nofun
      refine ⟨fun opened => ?_, fun opened => ?_⟩
      · rw [desync]
        exact counters.desynchronization opened
      · rw [pcid]
        exact counters.pcidSwitching opened

end Counters

/-! ## The lock step -/

/-- The invariant of one call: the phases tell what the trace holds, and every
finished sweep came after the first switch of its iteration. -/
structure LockStep (number : Nat) (main : MainPhase) (sub : SubPhase)
    (completions : CompletionName -> Completion) (trace : List HandshakeEvent) : Prop where
  reads : (readsOf number trace).length = main.reads
  switches : switchesOf number trace = main.switches
  mainBounded : main.Bounded
  subBounded : sub.Bounded
  counters : Counters main sub completions
  exchanged : ∀ i, i < main.exchanges -> ∃ after, SwitchedAt number i trace after
  swept : ∀ i, i < sub.sweeps -> SweptSince number i trace
  sweeping : ∀ j pcids, sub = .sweeping j pcids -> ∃ after, SwitchedAt number j trace after ∧
    List.range' 1 pcids <:+ pcidsOf number after

theorem readsOf_append (number : Nat) (trace later : List HandshakeEvent) :
    readsOf number (trace ++ later) = readsOf number trace ++ readsOf number later :=
  List.filterMap_append

theorem pcidsOf_append (number : Nat) (trace later : List HandshakeEvent) :
    pcidsOf number (trace ++ later) = pcidsOf number trace ++ pcidsOf number later :=
  List.filterMap_append

theorem switchesOf_append (number : Nat) (trace later : List HandshakeEvent) :
    switchesOf number (trace ++ later) = switchesOf number trace + switchesOf number later :=
  List.countP_append

/-! Events that are none of these leave the lists alone. -/

theorem readsOf_same {number : Nat} {trace : List HandshakeEvent} {event : HandshakeEvent}
    (noRead : mainRead number event = none) :
    readsOf number (trace ++ [event]) = readsOf number trace := by
  have nothing : readsOf number [event] = [] := List.filterMap_cons_none noRead
  rw [readsOf_append, nothing, List.append_nil]

theorem pcidsOf_same {number : Nat} {trace : List HandshakeEvent} {event : HandshakeEvent}
    (noPcid : subPcid number event = none) : pcidsOf number (trace ++ [event]) = pcidsOf number trace := by
  have nothing : pcidsOf number [event] = [] := List.filterMap_cons_none noPcid
  rw [pcidsOf_append, nothing, List.append_nil]

/-- A read of the probing thread. -/
theorem readsOf_read {number : Nat} {trace : List HandshakeEvent} (address value : Nat) :
    readsOf number (trace ++ [⟨.main number, .machine (.readData address), value⟩]) =
      readsOf number trace ++ [value] := by
  rw [readsOf_append]
  exact congrArg (readsOf number trace ++ ·) (List.filterMap_cons_some (if_pos rfl))

theorem switchesOf_same {number : Nat} {trace : List HandshakeEvent} {event : HandshakeEvent}
    (noSwitch : mainSwitches number event = false) :
    switchesOf number (trace ++ [event]) = switchesOf number trace := by
  rw [switchesOf_append, switchesOf, switchesOf, List.countP_singleton, noSwitch]
  rfl

namespace LockStep

variable {number : Nat} {main main' : MainPhase} {sub sub' : SubPhase} {shared after : Shared}
  {trace : List HandshakeEvent}

/-- A measurement comes after the sweep of its iteration. -/
theorem measured (lockStep : LockStep number main sub shared.completions trace) {op : HandshakeOp}
    {response : op.Response} (move : MainMove number main op response main')
    (read : (mainRead number ⟨.main number, op, response⟩).isSome = true) {i : Nat}
    (odd : (readsOf number trace).length = 2 * i + 1) : SweptSince number i trace := by
  apply lockStep.swept
  have waits := lockStep.counters.waits_le_sweeps lockStep.mainBounded
  rw [move.measures read (lockStep.reads.symm.trans odd)] at waits
  exact waits

theorem main_move (lockStep : LockStep number main sub shared.completions trace) {op : HandshakeOp}
    {response : op.Response} (move : MainMove number main op response main')
    (effect : shared.effect op response after) :
    LockStep number main' sub after.completions (trace ++ [⟨.main number, op, response⟩]) where
  reads := by
    rw [readsOf_append, List.length_append, lockStep.reads]
    exact move.reads
  switches := by
    rw [switchesOf_append, lockStep.switches]
    exact move.switches
  mainBounded := move.bounded lockStep.mainBounded
  subBounded := lockStep.subBounded
  counters := lockStep.counters.main_move move effect lockStep.mainBounded lockStep.subBounded
  exchanged := by
    intro i before
    have earlier : i < main.exchanges ->
        ∃ rest, SwitchedAt number i (trace ++ [⟨.main number, op, response⟩]) rest := by
      intro done
      rcases lockStep.exchanged i done with ⟨rest, switched⟩
      exact ⟨_, switched.append _⟩
    rcases move.exchanges with same | ⟨j, next, switches, exchanges, switch⟩
    · exact earlier (same ▸ before)
    · rcases Nat.lt_succ_iff_lt_or_eq.mp (next ▸ before) with done | rfl
      · exact earlier (exchanges ▸ done)
      · exact ⟨[], trace, _, rfl, switch, lockStep.switches.trans switches⟩
  swept := fun i done => (lockStep.swept i done).append _
  sweeping := by
    intro j pcids same
    rcases lockStep.sweeping j pcids same with ⟨rest, switched, sweep⟩
    refine ⟨_, switched.append _, ?_⟩
    rw [pcidsOf_append]
    exact (List.append_nil (pcidsOf number rest)).symm ▸ sweep

/-- Any other event that leaves the two completions alone is not noticed. -/
theorem other (lockStep : LockStep number main sub shared.completions trace) (event : HandshakeEvent)
    (noRead : mainRead number event = none) (noSwitch : mainSwitches number event = false)
    (noPcid : subPcid number event = none)
    (desync : after.completions .desynchronization = shared.completions .desynchronization)
    (pcid : after.completions .pcidSwitching = shared.completions .pcidSwitching) :
    LockStep number main sub after.completions (trace ++ [event]) where
  reads := by
    rw [readsOf_same noRead]
    exact lockStep.reads
  switches := by
    rw [switchesOf_same noSwitch]
    exact lockStep.switches
  mainBounded := lockStep.mainBounded
  subBounded := lockStep.subBounded
  counters := by
    refine ⟨?_, ?_⟩
    · rw [desync]
      exact lockStep.counters.desynchronization
    · rw [pcid]
      exact lockStep.counters.pcidSwitching
  exchanged := by
    intro i done
    rcases lockStep.exchanged i done with ⟨rest, switched⟩
    exact ⟨_, switched.append _⟩
  swept := fun i done => (lockStep.swept i done).append _
  sweeping := by
    intro j pcids same
    rcases lockStep.sweeping j pcids same with ⟨rest, switched, sweep⟩
    refine ⟨_, switched.append _, ?_⟩
    rw [pcidsOf_same noPcid]
    exact sweep

theorem sub_move (lockStep : LockStep number main sub shared.completions trace) {op : HandshakeOp}
    {response : op.Response} (move : SubMove sub op response sub')
    (effect : shared.effect op response after) :
    LockStep number main sub' after.completions (trace ++ [⟨.sub number, op, response⟩]) where
  reads := by
    rw [readsOf_append, List.length_append, lockStep.reads]
    exact Nat.add_zero _
  switches := by
    rw [switchesOf_append, lockStep.switches]
    exact Nat.add_zero _
  mainBounded := lockStep.mainBounded
  subBounded := move.bounded lockStep.subBounded
  counters := lockStep.counters.sub_move move effect lockStep.mainBounded lockStep.subBounded
  exchanged := by
    intro i done
    rcases lockStep.exchanged i done with ⟨rest, switched⟩
    exact ⟨_, switched.append _⟩
  swept := by
    intro i done
    have earlier : i < sub.sweeps -> SweptSince number i (trace ++ [⟨.sub number, op, response⟩]) :=
      fun done => (lockStep.swept i done).append _
    cases move with
    | @signal j =>
        rcases Nat.lt_succ_iff_lt_or_eq.mp done with before | rfl
        · exact earlier before
        · rcases lockStep.sweeping i 4095 rfl with ⟨rest, switched, sweep⟩
          exact SweptSince.append ⟨rest, switched, sweep.isInfix⟩ _
    | close => exact earlier done
    | _ => exact earlier done
  sweeping := by
    intro j pcids same
    have waited := (lockStep.counters.sub_move move effect lockStep.mainBounded
      lockStep.subBounded).waits_le_exchanges (move.bounded lockStep.subBounded)
    cases move with
    | await more =>
        cases same
        rcases lockStep.exchanged j waited with ⟨rest, switched⟩
        exact ⟨_, switched.append _, List.nil_suffix⟩
    | @sweep i written value next more =>
        cases same
        rcases lockStep.sweeping j written rfl with ⟨rest, switched, sweep⟩
        refine ⟨_, switched.append _, ?_⟩
        have written' : pcidsOf number [⟨.sub number, .machine (.setCr3 value), ()⟩] = [1 + written] := by
          simp [pcidsOf, subPcid, next, Nat.add_comm]
        rw [pcidsOf_append, written', List.range'_1_concat]
        exact List.suffix_append_self_iff.mpr sweep
    | _ => cases same

end LockStep

end CrossHyperthread
end Talbot
