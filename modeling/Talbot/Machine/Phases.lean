import Talbot.Machine.Paging

namespace Talbot
namespace Paging

/-!
The phases of an experiment on the paging machine.

A state is calm after a flush, open between the two exchanges, and stale from the
second exchange to the next flush.  In a calm state every access ends where its
address says; otherwise that is only known of addresses outside the exchanged
entries.
-/

open Foundations Program

structure Calm (memory : Nat -> Nat) (state : Paging) : Prop where
  settled : state.machine.Settled
  closed : ¬ state.Exchanged
  memory_eq : state.machine.memory = memory

/-- Only the two entries may be translated in another way than they were set up. -/
def OnlySuspect (machine : PagedMachine) (first second : EntryLocation) : Prop :=
  ∀ location, location ≠ first -> location ≠ second -> machine.live location = [location.index]

/-- An access through the first entry may still use what each of the two entries held. -/
def Lingers (machine : PagedMachine) (first second : EntryLocation) : Prop :=
  first.index ∈ machine.live first ∧ second.index ∈ machine.live first

structure Open (memory : Nat -> Nat) (first second : EntryLocation) (state : Paging) : Prop where
  restores : (state.machine.exchange first second).entries = EntryLocation.index
  suspects : OnlySuspect state.machine first second
  lingers : Lingers state.machine first second
  opened : state.Exchanged
  memory_eq : state.machine.memory = memory

structure Stale (memory : Nat -> Nat) (first second : EntryLocation) (state : Paging) : Prop where
  restored : state.machine.entries = EntryLocation.index
  suspects : OnlySuspect state.machine first second
  lingers : Lingers state.machine first second
  closed : ¬ state.Exchanged
  memory_eq : state.machine.memory = memory

theorem calm_afterSetup : Calm afterSetup.machine.memory afterSetup :=
  ⟨⟨rfl, rfl⟩, Nat.zero_ne_one, rfl⟩

section Phases

variable {memory : Nat -> Nat} {first second : EntryLocation} {state : Paging}

theorem OnlySuspect.exchange {machine : PagedMachine} (suspects : OnlySuspect machine first second) :
    OnlySuspect (machine.exchange first second) first second := by
  intro location notFirst notSecond
  simp only [PagedMachine.exchange, Function.update_of_ne notSecond, Function.update_of_ne notFirst]
  exact suspects location notFirst notSecond

/-- An exchange takes no translation away. -/
theorem mem_live_exchange {machine : PagedMachine} {location : EntryLocation} {index : Nat}
    (known : index ∈ machine.live location) : index ∈ (machine.exchange first second).live location := by
  unfold PagedMachine.exchange
  by_cases atSecond : location = second
  · subst atSecond
    simp only [Function.update_self]
    exact List.mem_cons_of_mem _ known
  · by_cases atFirst : location = first
    · subst atFirst
      simp only [Function.update_of_ne atSecond, Function.update_self]
      exact List.mem_cons_of_mem _ known
    · simp only [Function.update_of_ne atSecond, Function.update_of_ne atFirst]
      exact known

/-- After one exchange the first entry may be used both ways. -/
theorem lingers_exchange {machine : PagedMachine} (settled : machine.Settled) (first second : EntryLocation) :
    Lingers (machine.exchange first second) first second := by
  refine ⟨mem_live_exchange ?_, ?_⟩
  · rw [settled.live_eq]
    exact List.mem_singleton_self _
  · unfold PagedMachine.exchange
    by_cases same : first = second
    · subst same
      simp only [Function.update_self, settled.entries_eq]
      exact List.mem_cons_self
    · simp only [Function.update_of_ne same, Function.update_self, settled.entries_eq]
      exact List.mem_cons_self

theorem exchange_exchanged (machine : PagedMachine) :
    Exchanged ⟨machine, state.history.exchange⟩ ↔ ¬ state.Exchanged := by
  unfold Exchanged History.exchange
  dsimp only
  omega

theorem Calm.access (calm : Calm memory state) (address value : Nat) :
    Calm memory { state with history := state.history.access address value } :=
  ⟨calm.settled, calm.closed, calm.memory_eq⟩

theorem Open.access (opened : Open memory first second state) (address value : Nat) :
    Open memory first second { state with history := state.history.access address value } :=
  ⟨opened.restores, opened.suspects, opened.lingers, opened.opened, opened.memory_eq⟩

theorem Stale.access (stale : Stale memory first second state) (address value : Nat) :
    Stale memory first second { state with history := state.history.access address value } :=
  ⟨stale.restored, stale.suspects, stale.lingers, stale.closed, stale.memory_eq⟩

theorem Calm.store (calm : Calm memory state) (slot data : Nat) :
    Calm (Function.update memory (physicalSlot slot) data) { state with machine := state.machine.store slot data } :=
  ⟨calm.settled.store slot data, calm.closed, by rw [← calm.memory_eq]; rfl⟩

theorem Calm.targets_eq (calm : Calm memory state) (address : Nat) : state.machine.targets address = [address] :=
  calm.settled.targets_eq address

theorem Calm.exchange (calm : Calm memory state) (first second : EntryLocation) :
    Open memory first second ⟨state.machine.exchange first second, state.history.exchange⟩ where
  restores := (PagedMachine.exchange_exchange_entries first second).trans calm.settled.entries_eq
  suspects := OnlySuspect.exchange fun location _ _ => by rw [calm.settled.live_eq]
  lingers := lingers_exchange calm.settled first second
  opened := (exchange_exchanged _).mpr calm.closed
  memory_eq := calm.memory_eq

theorem Open.exchange (opened : Open memory first second state) :
    Stale memory first second ⟨state.machine.exchange first second, state.history.exchange⟩ where
  restored := opened.restores
  suspects := opened.suspects.exchange
  lingers := ⟨mem_live_exchange opened.lingers.1, mem_live_exchange opened.lingers.2⟩
  closed := fun again => (exchange_exchanged _).mp again opened.opened
  memory_eq := opened.memory_eq

theorem Calm.flush (calm : Calm memory state) : Calm memory { state with machine := state.machine.flush } :=
  ⟨PagedMachine.settled_flush calm.settled.entries_eq, calm.closed, calm.memory_eq⟩

theorem Stale.flush (stale : Stale memory first second state) :
    Calm memory { state with machine := state.machine.flush } :=
  ⟨PagedMachine.settled_flush stale.restored, stale.closed, stale.memory_eq⟩

/-- Outside the suspect entries an access ends where its address says. -/
theorem OnlySuspect.targets_eq {machine : PagedMachine} {level : Nat} {target other address : Nat}
    (suspects : OnlySuspect machine ⟨level, target⟩ ⟨level, other⟩)
    (away : entryOf level address ≠ target) (away' : entryOf level address ≠ other) :
    machine.targets address = [address] := by
  apply PagedMachine.targetsThrough_self
  intro at_ _
  apply suspects
  · intro same
    rcases EntryLocation.mk.inj same with ⟨rfl, equal⟩
    exact away equal
  · intro same
    rcases EntryLocation.mk.inj same with ⟨rfl, equal⟩
    exact away' equal

/-- On level 2 an access may go wherever a translation that lingers leads. -/
theorem OnlySuspect.redirect_mem {machine : PagedMachine} {target other address index : Nat}
    (suspects : OnlySuspect machine ⟨2, target⟩ ⟨2, other⟩) (known : index ∈ machine.live ⟨2, entryOf 2 address⟩) :
    redirect 2 index address ∈ machine.targets address := by
  have alone : ∀ level, level ≠ 2 -> machine.live ⟨level, entryOf level address⟩ = [entryOf level address] := by
    intro level upper
    apply suspects
    · exact fun same => upper (EntryLocation.mk.inj same).1
    · exact fun same => upper (EntryLocation.mk.inj same).1
  simp only [PagedMachine.targets, PagedMachine.targetsThrough, alone 4 (by decide), alone 3 (by decide),
    List.flatMap_singleton, redirect_self]
  exact List.mem_flatMap.mpr ⟨index, known, List.mem_singleton_self _⟩

end Phases

end Paging
end Talbot
