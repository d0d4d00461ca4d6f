import Talbot.Machine.PcidMachine

namespace Talbot

/-!
What the evaluations of PCIDs report.

Both experiments translate a target in the context 0, exchange its entry and come
back to it through other values of CR3.  The number of supported PCIDs is found
where the context 0 is given up; without NOFLUSH it is dropped on the way back in
any case, so that evaluation always reports 0.

The first iteration writes its target before it enters the context 0, so one
translation of the base window may stay behind in the context the processor ran in.
The number of PCIDs does not depend on it.  The test whether PCIDs are respected may
meet it again, where it draws that very PCID: such an iteration may count no miss
although the cache keeps contexts apart.
-/

open Foundations Program

namespace PcidMachine

/-- What holds throughout.  Only the contexts that are spared may translate
addresses of the base window as they are, besides the context 0; all others can only
have met the exchanged entries. -/
structure Sound (spared : Nat -> Bool) (machine : PcidMachine) : Prop where
  clean : ∀ address, machine.memory address ≠ signal
  marked : ∀ address, machine.complementary address = signal
  distinct : machine.recent.Nodup
  foreign : ∀ context, context ≠ 0 -> spared context = false -> ∀ pair, pair ∈ machine.cached context ->
    pair.2 = .complementary

/-- Between two iterations.  No entry is exchanged, the running context only holds
own translations, and the processor runs in the context 0 or in a spared one. -/
structure Idle (cache : PcidCache) (spared : Nat -> Bool) (machine : PcidMachine) : Prop where
  sound : Sound spared machine
  exchanged : machine.exchanged = none
  small : machine.cr3 < 2 ^ 63
  own : ∀ pair, pair ∈ machine.held cache -> pair.2 = .own
  kernel : machine.cr3 % 4096 ≠ 0 -> spared (machine.cr3 % 4096) = true

/-- After the trigger only the context of the processor has to be spared. -/
theorem idle_afterTrigger (cache : PcidCache) {cr3 : Nat} (small : cr3 < 2 ^ 63) (randoms : Nat -> Nat) :
    Idle cache (· == cr3 % 4096) (afterTrigger cache cr3 randoms) where
  sound :=
    { clean := fun _ => (by decide : 0 ≠ signal)
      marked := fun _ => rfl
      distinct := List.nodup_singleton _
      foreign := fun _ _ _ _ inside => absurd inside List.not_mem_nil }
  exchanged := rfl
  small := small
  own _ inside := absurd inside List.not_mem_nil
  kernel _ := beq_self_eq_true _

variable {cache : PcidCache} {level : Nat} {spared : Nat -> Bool} {machine : PcidMachine} {address value : Nat}

/-! ## Writing CR3 -/

theorem mem_accessSet_context (cache : PcidCache) (recent : List Nat) (context : Nat) :
    context ∈ accessSet cache.contexts recent context := by
  rcases Nat.exists_eq_add_of_le' cache.someContext with ⟨rest, same⟩
  rw [accessSet, Foundations.touch, same, List.take_succ_cons]
  exact List.mem_cons_self

/-- Without NOFLUSH nothing is left of the context. -/
theorem setCr3_flushed (machine : PcidMachine) (flushes : value.testBit 63 = false) :
    (machine.setCr3 cache value).cached (cache.context value) = [] := by
  apply if_neg
  rintro ⟨_, keeps⟩
  rw [flushes] at keeps
  cases keeps rfl

theorem setCr3_kept (machine : PcidMachine) {context : Nat}
    (recently : context ∈ accessSet cache.contexts machine.recent (cache.context value))
    (keeps : context = cache.context value -> value.testBit 63 = true) :
    (machine.setCr3 cache value).cached context = machine.cached context :=
  if_pos ⟨recently, keeps⟩

theorem setCr3_dropped (machine : PcidMachine) {context : Nat}
    (gone : context ∉ accessSet cache.contexts machine.recent (cache.context value)) :
    (machine.setCr3 cache value).cached context = [] :=
  if_neg fun kept => gone kept.1

theorem mem_cached_of_setCr3 {context : Nat} {pair : Nat × Side}
    (inside : pair ∈ (machine.setCr3 cache value).cached context) : pair ∈ machine.cached context := by
  by_cases kept : context ∈ accessSet cache.contexts machine.recent (cache.context value) ∧
      (context = cache.context value -> value.testBit 63 = true)
  · rwa [setCr3_kept machine kept.1 kept.2] at inside
  · rw [show (machine.setCr3 cache value).cached context = [] from if_neg kept] at inside
    cases inside

theorem Sound.setCr3 (sound : Sound spared machine) : Sound spared (machine.setCr3 cache value) where
  clean := sound.clean
  marked := sound.marked
  distinct := accessSet_nodup sound.distinct _
  foreign context other strict pair inside :=
    sound.foreign context other strict pair (mem_cached_of_setCr3 inside)

/-! ## Accesses -/

theorem side_of_held_nil (empty : machine.held cache = []) :
    machine.side cache level address =
      if machine.exchanged = some (entryOf level address) then .complementary else .own := by
  unfold side
  rw [empty, List.lookup_nil]

theorem side_of_held {rest : List (Nat × Side)} {side : Side}
    (held : machine.held cache = (entryOf level address, side) :: rest) : machine.side cache level address = side := by
  unfold PcidMachine.side
  rw [held, List.lookup_cons_self]

/-- An entry that is held for the address leads where it says. -/
theorem side_of_all {side : Side} (all : ∀ pair, pair ∈ machine.held cache -> pair.2 = side)
    (fresh : (if machine.exchanged = some (entryOf level address) then Side.complementary else .own) = side) :
    machine.side cache level address = side := by
  unfold PcidMachine.side
  cases found : (machine.held cache).lookup (entryOf level address) with
  | none => exact fresh
  | some other =>
      rcases List.lookup_eq_some_iff.mp found with ⟨before, after, split, _⟩
      apply all (entryOf level address, other)
      rw [split]
      exact List.mem_append_right _ List.mem_cons_self

/-- The entry that was used last is held. -/
theorem held_touch :
    ∃ rest, (machine.touch cache level address).held cache =
      (entryOf level address, machine.side cache level address) :: rest ∧
        ∀ pair, pair ∈ rest -> pair ∈ machine.held cache := by
  rcases Nat.exists_eq_add_of_le' cache.someWay with ⟨ways, same⟩
  refine ⟨((machine.held cache).filter fun entry => entry.1 != entryOf level address).take ways, ?_, ?_⟩
  · rw [← List.take_succ_cons, ← same]
    exact Function.update_self _ _ _
  · intro pair inside
    exact (List.mem_filter.mp (List.mem_of_mem_take inside)).1

theorem Sound.touch (sound : Sound spared machine)
    (known : cache.context machine.cr3 ≠ 0 -> spared (cache.context machine.cr3) = false ->
      machine.side cache level address = .complementary) :
    Sound spared (machine.touch cache level address) where
  clean := sound.clean
  marked := sound.marked
  distinct := sound.distinct
  foreign := by
    intro context other strict pair inside
    by_cases here : context = cache.context machine.cr3
    · subst here
      rcases @held_touch cache level machine address with ⟨rest, held, older⟩
      rw [show (machine.touch cache level address).cached (cache.context machine.cr3) = _ from held] at inside
      rcases List.mem_cons.mp inside with rfl | earlier
      · exact known other strict
      · exact sound.foreign _ other strict pair (older pair earlier)
    · rw [show (machine.touch cache level address).cached context = machine.cached context from
        Function.update_of_ne here _ _] at inside
      exact sound.foreign context other strict pair inside

def write (machine : PcidMachine) (address data : Nat) : PcidMachine :=
  { machine with memory := Function.update machine.memory address data }

theorem store_own {data : Nat} (leads : machine.side cache level address = .own) :
    machine.store cache level address data = machine.write address data := by
  unfold store
  rw [leads]
  rfl

theorem Sound.write (sound : Sound spared machine) {data : Nat} (noSignal : data ≠ signal) (address : Nat) :
    Sound spared (machine.write address data) where
  clean other := by
    dsimp only [PcidMachine.write]
    by_cases same : other = address
    · rw [same, Function.update_self]
      exact noSignal
    · rw [Function.update_of_ne same]
      exact sound.clean other
  marked := sound.marked
  distinct := sound.distinct
  foreign := sound.foreign

theorem Sound.exchange (sound : Sound spared machine) (exchanged : Option Nat) :
    Sound spared { machine with exchanged := exchanged } :=
  ⟨sound.clean, sound.marked, sound.distinct, sound.foreign⟩

theorem Idle.drawn (idle : Idle cache spared machine) : Idle cache spared machine.drawn :=
  ⟨⟨idle.sound.clean, idle.sound.marked, idle.sound.distinct, idle.sound.foreign⟩, idle.exchanged, idle.small,
    idle.own, idle.kernel⟩

/-! ## The parts of an iteration -/

theorem context_cr3Of {cr3 pcid : Nat} (isPcid : pcid < 4096) (noflush : Bool) :
    cache.context (cr3Of cr3 pcid noflush) = if cache.respects then pcid else 0 := by
  unfold PcidCache.context
  rw [cr3Of_context isPcid]

theorem context_tableBase (cr3 : Nat) : cache.context (tableBase cr3) = 0 := by
  unfold PcidCache.context
  rw [tableBase_mod, ite_self]

/-- Writing the kernel's own CR3, and once more to flush. -/
def flushed (cache : PcidCache) (cr3 : Nat) (machine : PcidMachine) : PcidMachine :=
  (machine.setCr3 cache (tableBase cr3)).setCr3 cache (machine.setCr3 cache (tableBase cr3)).cr3

theorem flushed_exchanged {cr3 : Nat} : (flushed cache cr3 machine).exchanged = machine.exchanged := by
  rw [flushed, setCr3_exchanged, setCr3_exchanged]

theorem flushed_cr3 {cr3 : Nat} (small : cr3 < 2 ^ 63) : (flushed cache cr3 machine).cr3 = tableBase cr3 := by
  have fits := Nat.mod_eq_of_lt (tableBase_lt small)
  rw [flushed, setCr3_cr3, setCr3_cr3, fits, fits]

theorem flushed_memory {cr3 : Nat} : (flushed cache cr3 machine).memory = machine.memory := by
  rw [flushed, setCr3_memory, setCr3_memory]

theorem flushed_randoms {cr3 : Nat} : (flushed cache cr3 machine).randoms = machine.randoms := by
  rw [flushed, setCr3_randoms, setCr3_randoms]

theorem flushed_held {cr3 : Nat} (small : cr3 < 2 ^ 63) : (flushed cache cr3 machine).held cache = [] := by
  have again : (machine.setCr3 cache (tableBase cr3)).cr3 = tableBase cr3 := Nat.mod_eq_of_lt (tableBase_lt small)
  unfold held
  rw [flushed_cr3 small, flushed, again]
  exact setCr3_flushed _ (Nat.testBit_lt_two_pow (tableBase_lt small))

theorem flushed_recent {cr3 : Nat} (small : cr3 < 2 ^ 63) : (flushed cache cr3 machine).recent =
    accessSet cache.contexts (accessSet cache.contexts machine.recent 0) 0 := by
  have again : (machine.setCr3 cache (tableBase cr3)).cr3 = tableBase cr3 := Nat.mod_eq_of_lt (tableBase_lt small)
  rw [flushed, again, setCr3, setCr3, context_tableBase]

/-- The target is translated in the context of the kernel, and then exchanged.  Its
own translation is the only one of this context, so what the target shows later
depends on whether it is still there. -/
structure Prepared (cache : PcidCache) (spared : Nat -> Bool) (cr3 entry : Nat) (machine : PcidMachine) : Prop where
  sound : Sound spared machine
  exchanged : machine.exchanged = some entry
  context : machine.cr3 = tableBase cr3
  cached : machine.cached 0 = [(entry, .own)]
  recent : ∃ before : List Nat, before.Nodup ∧ machine.recent = accessSet cache.contexts before 0

/-- The control register is loaded, the caches are flushed, and the target is read
before its entries are exchanged. Of the flushed machine only a few facts matter
for what follows: no entry is exchanged, so the read gets the target's own word,
and the translation it leaves is the only one of the loaded context. -/
theorem returns_translate {α : Type} {cr3 target complementary : Nat} {post : α -> PcidMachine -> Prop}
    {continuation : Nat -> Kernel α} (sound : Sound spared machine) (notExchanged : machine.exchanged = none)
    (small : cr3 < 2 ^ 63)
    (rest : ∀ final, Prepared cache spared cr3 (entryOf level target) final -> final.randoms = machine.randoms ->
      Returns (handle cache level) (continuation (machine.memory target)) final post) :
    Returns (handle cache level) (do
      Talbot.setCr3 (tableBase cr3)
      flushMmuCaches
      let p ← readData target
      switchLevel level (Machine.walksTo target complementary)
      continuation p) machine post := by
  simp only [returns_bind, returns_setCr3, returns_flushMmuCaches, returns_readData]
  change Returns _ _ ((flushed cache cr3 machine).touch cache level target) fun _ final =>
    Returns _ (continuation ((flushed cache cr3 machine).content cache level target)) final post
  have empty : (flushed cache cr3 machine).held cache = [] := flushed_held small
  have idle : (flushed cache cr3 machine).exchanged = none := by rw [flushed_exchanged, notExchanged]
  have leads : (flushed cache cr3 machine).side cache level target = .own := by
    rw [side_of_held_nil empty, idle]
    exact if_neg (Option.some_ne_none _).symm
  have inKernel : cache.context (flushed cache cr3 machine).cr3 = 0 := by
    rw [flushed_cr3 small, context_tableBase]
  have seen : (flushed cache cr3 machine).content cache level target = machine.memory target := by
    unfold content
    rw [leads]
    dsimp only
    rw [flushed_memory]
  have sameRandoms : (flushed cache cr3 machine).randoms = machine.randoms := flushed_randoms
  have sameCr3 : (flushed cache cr3 machine).cr3 = tableBase cr3 := flushed_cr3 small
  have sameRecent := @flushed_recent cache machine cr3 small
  have stillSound : Sound spared (flushed cache cr3 machine) := sound.setCr3.setCr3
  generalize flushed cache cr3 machine = ready at *
  rw [returns_switchLevel_idle (show (ready.touch cache level target).exchanged = none from idle), seen]
  apply rest
  · rcases @held_touch cache level ready target with ⟨older, held, fromHeld⟩
    have nothing : older = [] := by
      apply List.eq_nil_iff_forall_not_mem.mpr
      intro pair inside
      have impossible := fromHeld pair inside
      rw [empty] at impossible
      cases impossible
    rw [leads, nothing, PcidMachine.held] at held
    refine ⟨(stillSound.touch fun foreign => absurd inKernel foreign).exchange _, rfl, sameCr3, ?_, ?_⟩
    · rw [← held]
      exact congrArg _ inKernel.symm
    · exact ⟨_, accessSet_nodup sound.distinct _, sameRecent⟩
  · exact sameRandoms

theorem returns_prepare {α : Type} {cr3 target : Nat} {post : α -> PcidMachine -> Prop}
    {continuation : PageTableWalk × PageTableWalk -> Nat -> Kernel α} (idle : Idle cache spared machine)
    (small : cr3 < 2 ^ 63) (noSignal : prefixAligned target level ≠ signal)
    (rest : ∀ final, Prepared cache spared cr3 (entryOf level target) final -> final.randoms = machine.randoms ->
      Returns (handle cache level) (continuation (Machine.walksTo target (complementaryOf target))
        (prefixAligned target level)) final post) :
    Returns (handle cache level) (do
      let walks ← walkPair target (complementaryOf target)
      writeData target (prefixAligned target level)
      Talbot.setCr3 (tableBase cr3)
      flushMmuCaches
      let p ← readData target
      switchLevel level walks
      continuation walks p) machine post := by
  have leads : machine.side cache level target = .own := by
    apply side_of_all idle.own
    exact if_neg fun same => absurd (idle.exchanged.symm.trans same) (by simp)
  rw [returns_bind, returns_walkPair, returns_bind, returns_writeData, store_own leads]
  have written := idle.sound.write noSignal target
  have isSpared : cache.context machine.cr3 ≠ 0 -> spared (cache.context machine.cr3) = true := by
    unfold PcidCache.context
    split
    · exact idle.kernel
    · exact fun impossible => absurd rfl impossible
  apply returns_translate (written.touch fun foreign strict => absurd ((isSpared foreign).symm.trans strict)
    Bool.true_eq_false.mp) idle.exchanged small
  intro final prepared randoms
  have stored : ((machine.write target (prefixAligned target level)).touch cache level target).memory target =
      prefixAligned target level := Function.update_self _ _ _
  rw [stored]
  exact rest final prepared randoms

/-! ## Other contexts in between -/

/-- Whether the translation of the context 0 is still there after other contexts
were named and CR3 was set back. -/
def survives (cache : PcidCache) (noflush : Bool) (amount : Nat) : Bool :=
  noflush && (!cache.respects || decide (amount < cache.contexts))

/-- Back in the context of the kernel, with the entry still exchanged.  The next
read of the target misses exactly if its translation was not kept. -/
structure Returned (cache : PcidCache) (spared : Nat -> Bool) (entry : Nat) (kept : Bool) (machine : PcidMachine) : Prop where
  sound : Sound spared machine
  exchanged : machine.exchanged = some entry
  context : cache.context machine.cr3 = 0
  held : machine.held cache = if kept then [(entry, .own)] else []

theorem context_mod {value : Nat} : cache.context (value % 2 ^ 63) = cache.context value := by
  unfold PcidCache.context
  rw [Nat.mod_mod_of_dvd value (show 4096 ∣ 2 ^ 63 by decide)]

/-- One other context. -/
theorem cached_setCr3_other {cr3 pcid entry : Nat} {noflush : Bool} {before : List Nat} (foreign : 1 ≤ pcid)
    (isPcid : pcid < 4096) (respects : cache.respects = true) (distinct : before.Nodup)
    (recent : machine.recent = (touchAll (Foundations.touch before 0) (List.range' 1 (pcid - 1))).take cache.contexts)
    (cached : machine.cached 0 = if pcid - 1 < cache.contexts then [(entry, .own)] else []) :
    (machine.setCr3 cache (cr3Of cr3 pcid noflush)).recent =
      (touchAll (Foundations.touch before 0) (List.range' 1 pcid)).take cache.contexts ∧
    (machine.setCr3 cache (cr3Of cr3 pcid noflush)).cached 0 =
      if pcid < cache.contexts then [(entry, .own)] else [] := by
  have named : cache.context (cr3Of cr3 pcid noflush) = pcid := by
    rw [context_cr3Of isPcid, respects, if_pos rfl]
  rcases Nat.exists_eq_add_of_le' foreign with ⟨earlier, rfl⟩
  have recent' : (machine.setCr3 cache (cr3Of cr3 (earlier + 1) noflush)).recent =
      (touchAll (Foundations.touch before 0) (List.range' 1 (earlier + 1))).take cache.contexts := by
    rw [setCr3_recent, named, recent, accessSet_take, Nat.add_sub_cancel, List.range'_concat, touchAll_append,
      touchAll_cons, touchAll_nil, Nat.one_mul, Nat.add_comm 1 earlier]
  refine ⟨recent', ?_⟩
  have fresh : 0 ∉ List.range' 1 (earlier + 1) := fun inside => by
    have atLeast := (List.mem_range'_1.mp inside).1
    omega
  have remains : 0 ∈ (machine.setCr3 cache (cr3Of cr3 (earlier + 1) noflush)).recent ↔ earlier + 1 < cache.contexts := by
    rw [recent', mem_take_touchAll distinct fresh, List.Nodup.dedup List.nodup_range', List.length_range']
  by_cases few : earlier + 1 < cache.contexts
  · rw [if_pos few, setCr3_kept machine (remains.mpr few) fun same => absurd (same.trans named) (by omega), cached,
      if_pos (by omega)]
  · rw [if_neg few]
    exact setCr3_dropped machine fun kept => few (remains.mp kept)

/-- After `visited` other contexts were named, the first of them 1. -/
structure Visiting (cache : PcidCache) (spared : Nat -> Bool) (noflush : Bool) (entry : Nat) (before : List Nat)
    (visited : Nat) (machine : PcidMachine) : Prop where
  sound : Sound spared machine
  exchanged : machine.exchanged = some entry
  tracked : cache.respects = true ->
    machine.recent = (touchAll (Foundations.touch before 0) (List.range' 1 visited)).take cache.contexts ∧
    machine.cached 0 = if visited < cache.contexts then [(entry, .own)] else []
  shared : cache.respects = false -> noflush = true -> machine.cached 0 = [(entry, .own)]

theorem returns_visit {cr3 entry amount : Nat} (small : cr3 < 2 ^ 63) (few : amount < 4096)
    (prepared : Prepared cache spared cr3 entry machine) (noflush : Bool) :
    Returns (handle cache level) (do
      let _ ← forRange (fun pcid _ => do
        Talbot.setCr3 (tableBase cr3 ||| pcid ||| if noflush then cr3NoFlush else 0)
        return .next ()) 1 amount ()
      Talbot.setCr3 (tableBase cr3 ||| if noflush then cr3NoFlush else 0)) machine fun _ final =>
        Returned cache spared entry (survives cache noflush amount) final ∧ final.randoms = machine.randoms := by
  rcases prepared.recent with ⟨before, distinct, recent⟩
  have loop : Returns (handle cache level) (forRange (fun pcid _ => do
      Talbot.setCr3 (tableBase cr3 ||| pcid ||| if noflush then cr3NoFlush else 0)
      return .next ()) 1 amount ()) machine fun _ final =>
        Visiting cache spared noflush entry before amount final ∧ final.randoms = machine.randoms := by
    apply (returns_forRange (fun index (_ : Unit) (state : PcidMachine) =>
      Visiting cache spared noflush entry before (index - 1) state ∧ state.randoms = machine.randoms) 1 amount ()
      machine _ _).mono
    · intro _ final holds
      rwa [Nat.add_sub_cancel_left] at holds
    · refine ⟨⟨prepared.sound, prepared.exchanged, fun _ => ⟨recent, ?_⟩, fun _ _ => prepared.cached⟩, rfl⟩
      rw [prepared.cached, if_pos cache.someContext]
    · rintro pcid _ state atLeast below ⟨visiting, randoms⟩
      have isPcid : pcid < 4096 := by omega
      rw [returns_bind, returns_setCr3]
      refine (returns_ret _).mpr ⟨(), rfl, ⟨visiting.sound.setCr3, visiting.exchanged, ?_, ?_⟩, randoms⟩
      · intro respects
        rcases visiting.tracked respects with ⟨recent, cached⟩
        exact cached_setCr3_other atLeast isPcid respects distinct recent cached
      · rintro respects rfl
        have named : cache.context (cr3Of cr3 pcid true) = 0 := by
          rw [context_cr3Of isPcid, respects]
          rfl
        rw [← visiting.shared respects rfl, ← named]
        exact setCr3_kept state (mem_accessSet_context cache _ _) fun _ => testBit_cr3Of small isPcid true
  rw [returns_bind]
  apply loop.mono
  rintro _ state ⟨visiting, randoms⟩
  have value : (tableBase cr3 ||| if noflush then cr3NoFlush else 0) = cr3Of cr3 0 noflush := by
    rw [cr3Of, Nat.or_zero]
  have named : cache.context (cr3Of cr3 0 noflush) = 0 := by
    rw [context_cr3Of (by decide), ite_self]
  rw [value, returns_setCr3]
  refine ⟨⟨visiting.sound.setCr3, visiting.exchanged, by rw [setCr3_cr3, context_mod, named], ?_⟩, randoms⟩
  rw [PcidMachine.held, setCr3_cr3, context_mod]
  cases noflush with
  | false => exact setCr3_flushed state (testBit_cr3Of small (by decide) false)
  | true =>
      rw [setCr3_kept state (mem_accessSet_context cache _ _) fun _ => testBit_cr3Of small (by decide) true, named]
      unfold survives
      cases respects : cache.respects with
      | true =>
          rw [(visiting.tracked respects).2]
          simp only [Bool.not_true, Bool.false_or, Bool.true_and, decide_eq_true_eq]
      | false => exact visiting.shared respects rfl

theorem returns_conclude {cr3 target complementary p misses : Nat}
    {post : Iteration Nat -> PcidMachine -> Prop} (sound : Sound spared machine)
    (exchanged : machine.exchanged = some (entryOf level target)) (small : cr3 < 2 ^ 63)
    (known : cache.context machine.cr3 ≠ 0 -> spared (cache.context machine.cr3) = false ->
      machine.side cache level p = .complementary)
    (rest : ∀ final, Idle cache spared final -> final.cr3 = tableBase cr3 -> final.randoms = machine.randoms ->
      post (.next (if machine.side cache level p = .own then misses else misses + 1)) final) :
    Returns (handle cache level) (do
      let value ← readData p
      switchLevel level (Machine.walksTo target complementary)
      Talbot.setCr3 (tableBase cr3)
      flushMmuCaches
      return .next (countMiss value misses)) machine post := by
  have counted : countMiss (machine.content cache level p) misses =
      if machine.side cache level p = .own then misses else misses + 1 := by
    unfold content countMiss
    cases machine.side cache level p with
    | own => exact if_neg (sound.clean p)
    | complementary => exact if_pos (sound.marked p)
  rw [returns_bind, returns_readData, returns_bind,
    returns_switchLevel_back (show (machine.touch cache level p).exchanged = _ from exchanged), returns_bind,
    returns_setCr3, returns_bind, returns_flushMmuCaches, counted]
  apply (returns_ret _).mpr
  have after : Sound spared { machine.touch cache level p with exchanged := none } := (sound.touch known).exchange none
  change post _ (flushed cache cr3 { machine.touch cache level p with exchanged := none })
  have sameCr3 := @flushed_cr3 cache { machine.touch cache level p with exchanged := none } cr3 small
  have empty := @flushed_held cache { machine.touch cache level p with exchanged := none } cr3 small
  apply rest
  · refine ⟨after.setCr3.setCr3, ?_, ?_, ?_, ?_⟩
    · rw [flushed_exchanged]
    · rw [sameCr3]
      exact tableBase_lt small
    · intro pair inside
      rw [empty] at inside
      cases inside
    · intro foreign
      rw [sameCr3, tableBase_mod] at foreign
      exact absurd rfl foreign
  · exact sameCr3
  · rw [flushed_randoms]
    rfl

/-! ## The number of PCIDs -/

section Experiments

variable {configuration : Configuration}

theorem prefixAligned_ne_signal (isLevel : IsLevel level) (target : Nat) : prefixAligned target level ≠ signal :=
  Nat.ne_of_gt (Machine.signal_lt_prefixAligned isLevel target)

/-- The link of a target is in the target's own entry. -/
theorem entryOf_prefixAligned (isLevel : IsLevel level) (index : Nat) :
    entryOf level (prefixAligned (baseAddress + (index <<< pageTableIndexShift level)) level) =
      entryOf level (baseAddress + (index <<< pageTableIndexShift level)) := by
  have target := baseAddress_add isLevel index
  rw [Machine.prefixAligned_pageAddress target, target, entryOf_pageAddress isLevel (by decide),
    entryOf_pageAddress isLevel (by decide)]

theorem Returned.side_eq {entry : Nat} {kept : Bool} (returned : Returned cache spared entry kept machine)
    (sameEntry : entryOf level address = entry) :
    machine.side cache level address = if kept then .own else .complementary := by
  subst sameEntry
  have held := returned.held
  cases kept with
  | true => exact side_of_held held
  | false =>
      rw [side_of_held_nil held]
      exact if_pos returned.exchanged

theorem returns_testSupportedPcids (isLevel : IsLevel level) {amount : Nat} (noflush : Bool) (few : amount < 4096)
    (idle : Idle cache spared machine) :
    Returns (handle cache level) (testSupportedPcids configuration level amount noflush) machine fun misses final =>
      Idle cache spared final ∧ misses = if survives cache noflush amount then 0 else iterations := by
  unfold testSupportedPcids
  rw [returns_bind, returns_getCr3]
  have small := idle.small
  generalize machine.cr3 = cr3 at small
  apply (returns_forRange (fun index misses (state : PcidMachine) => Idle cache spared state ∧
    misses = if survives cache noflush amount then 0 else index) 0 iterations 0 machine ⟨idle, (ite_self _).symm⟩ _).mono
  · intro misses final holds
    rwa [Nat.zero_add] at holds
  · rintro index misses state _ _ ⟨idle, counted⟩
    rw [returns_bind, returns_drawAddress]
    apply returns_prepare idle.drawn small (prefixAligned_ne_signal isLevel _)
    intro prepared isPrepared _
    have visit := @returns_visit cache level spared prepared cr3 _ amount small few isPrepared noflush
    rw [returns_bind] at visit ⊢
    apply visit.mono
    intro _ last isLast
    rw [returns_bind]
    apply isLast.mono
    rintro _ back ⟨returned, _⟩
    have leads := returned.side_eq (entryOf_prefixAligned isLevel _)
    apply returns_conclude returned.sound returned.exchanged small fun foreign => absurd returned.context foreign
    intro final idle _ _
    refine ⟨_, rfl, idle, ?_⟩
    rw [leads, counted]
    cases survives cache noflush amount <;> rfl

/-- The number that is reported, with the misses of the last test.  A cache that
ignores PCIDs keeps all translations, so it is reported as supporting all of them. -/
def supportedPcids (cache : PcidCache) : Nat :=
  if cache.respects then min cache.contexts 4096 else 4096

theorem survives_iff {amount : Nat} (few : amount < 4096) :
    survives cache true amount = true ↔ amount < supportedPcids cache := by
  unfold survives supportedPcids
  cases cache.respects with
  | true =>
      simp only [Bool.not_true, Bool.false_or, Bool.true_and, decide_eq_true_eq, if_true]
      exact ⟨fun inside => Nat.lt_min.mpr ⟨inside, few⟩, fun inside => (Nat.lt_min.mp inside).1⟩
  | false =>
      simp only [Bool.not_false, Bool.true_or, Bool.and_self, Bool.false_eq_true, if_false]
      exact ⟨fun _ => few, fun _ => trivial⟩

theorem reachesThreshold_all : reachesThreshold iterations iterations = true := by
  decide

theorem reachesThreshold_none : reachesThreshold 0 iterations = false := by
  decide

/-- The first amount at which the translation is lost.  Up to there all iterations
of a test hit and from there on all of them miss, so the loop stops exactly at this
amount. -/
theorem returns_evaluatePcidAmount (isLevel : IsLevel level) (noflush : Nat) {supported : Nat} (most : supported ≤ 4096)
    (lost : ∀ amount, amount < 4096 -> (survives cache (noflush != 0) amount = true ↔ amount < supported))
    (idle : Idle cache spared machine) :
    Returns (handle cache level) (evaluatePcidAmount configuration level noflush) machine fun line final =>
      Idle cache spared final ∧
        line = .supportedPcids level supported noflush (if supported < 4096 then iterations else 0) := by
  unfold evaluatePcidAmount
  rw [returns_bind]
  refine Returns.mono (returns_forRange_break (fun index result (state : PcidMachine) => Idle cache spared state ∧
    result = (index, 0) ∧ index ≤ supported) 0 4096 (0, 0) machine ⟨idle, rfl, Nat.zero_le _⟩ ?_ ?_ :
      Returns _ _ _ fun result state => Idle cache spared state ∧
        result = (supported, if supported < 4096 then iterations else 0)) ?_
  · rintro amount _ state _ below ⟨idle, rfl, atMost⟩
    rw [Nat.zero_add] at below
    rw [returns_bind]
    apply (returns_testSupportedPcids isLevel (noflush != 0) below idle).mono
    rintro _ final ⟨idle, rfl⟩
    by_cases kept : survives cache (noflush != 0) amount = true
    · rw [if_pos kept, reachesThreshold_none]
      exact (returns_ret _).mpr ⟨idle, rfl, (lost amount below).mp kept⟩
    · have atEnd : amount = supported := Nat.le_antisymm atMost (Nat.le_of_not_lt fun inside => kept ((lost amount below).mpr inside))
      rw [if_neg kept, reachesThreshold_all]
      refine (returns_ret _).mpr ⟨idle, ?_⟩
      rw [← atEnd, if_pos below]
  · rintro _ state ⟨idle, rfl, atMost⟩
    have all : supported = 4096 := Nat.le_antisymm most atMost
    rw [all]
    exact ⟨idle, rfl⟩
  · rintro _ final ⟨idle, rfl⟩
    exact (returns_ret _).mpr ⟨idle, rfl⟩

/-- What is reported about the PCIDs of a cache: none without NOFLUSH, and with it
as many as it keeps apart, up to all there are.  The machine may start in any
context, which then counts among the spared ones, and it may hold translations of
the others as earlier evaluations leave them.  This one leaves such a machine behind
again, so it can be repeated for every level. -/
theorem evaluateSupportedPcids_reports (isLevel : IsLevel level) (idle : Idle cache spared machine) :
    Returns (handle cache level) (evaluateSupportedPcids configuration level) machine fun lines final =>
      Idle cache spared final ∧
        lines = [.supportedPcids level 0 0 iterations,
          .supportedPcids level (supportedPcids cache) 1 (if supportedPcids cache < 4096 then iterations else 0)] := by
  have most : supportedPcids cache ≤ 4096 := by
    unfold supportedPcids
    split
    · exact Nat.min_le_right _ _
    · exact Nat.le_refl _
  unfold evaluateSupportedPcids
  rw [returns_bind]
  apply (returns_evaluatePcidAmount isLevel 0 (Nat.zero_le 4096) (fun amount _ => ?_) idle).mono
  · rintro _ middle ⟨idle, rfl⟩
    rw [returns_bind]
    apply (returns_evaluatePcidAmount isLevel 1 most (fun amount few => survives_iff few) idle).mono
    rintro _ final ⟨idle, rfl⟩
    exact (returns_ret _).mpr ⟨idle, rfl⟩
  · exact ⟨fun impossible => absurd impossible Bool.false_ne_true, fun impossible => absurd impossible (Nat.not_lt_zero _)⟩

/-- A cache of four ways that keeps six contexts apart; the processor runs in
context 1. -/
theorem evaluateSupportedPcids_sixContexts :
    Returns (handle ⟨4, 6, true, by decide, by decide⟩ 2) (evaluateSupportedPcids defaultConfiguration 2)
      (afterTrigger ⟨4, 6, true, by decide, by decide⟩ 0x1001 fun n => n) fun lines _ =>
        lines = [.supportedPcids 2 0 0 iterations, .supportedPcids 2 6 1 iterations] := by
  apply (evaluateSupportedPcids_reports (by decide) (idle_afterTrigger _ (by decide) _)).mono
  rintro _ _ ⟨_, rfl⟩
  rfl

/-! ## Whether PCIDs are respected -/

/-- Among so many random words one names a context other than 0. The loop that draws
PCIDs would not end otherwise; its bound is the fuel of the model and not one of the
source. -/
def NamesContexts (bound : Nat) (randoms : Nat -> Nat) : Prop :=
  ∀ start, ∃ later, later ≤ bound ∧ randoms (start + later) % 4096 ≠ 0

theorem NamesContexts.next {bound : Nat} {randoms : Nat -> Nat} (names : NamesContexts bound randoms) :
    NamesContexts bound fun n => randoms (n + 1) := by
  intro start
  rcases names (start + 1) with ⟨later, inTime, named⟩
  rw [Nat.add_right_comm] at named
  exact ⟨later, inTime, named⟩

/-- The PCID that is drawn from random words, with at most so many further draws, and
the words left. -/
def nextPcid : Nat -> (Nat -> Nat) -> Nat × (Nat -> Nat)
  | 0, randoms => (randoms 0 % 4096, fun n => randoms (n + 1))
  | bound + 1, randoms =>
      if randoms 0 % 4096 = 0 then nextPcid bound fun n => randoms (n + 1)
      else (randoms 0 % 4096, fun n => randoms (n + 1))

/-- The PCIDs of the iterations.  Each iteration takes one word for its target
first, and then as many as it needs for a PCID other than 0. -/
def drawnPcids (bound : Nat) : Nat -> (Nat -> Nat) -> List Nat
  | 0, _ => []
  | count + 1, randoms =>
      let drawn := nextPcid bound fun n => randoms (n + 1)
      drawn.1 :: drawnPcids bound count drawn.2

theorem nextPcid_of_ne {randoms : Nat -> Nat} (foreign : randoms 0 % 4096 ≠ 0) (bound : Nat) :
    nextPcid bound randoms = (randoms 0 % 4096, fun n => randoms (n + 1)) := by
  cases bound with
  | zero => rfl
  | succ bound => exact if_neg foreign

theorem NamesContexts.nextPcid {most : Nat} {randoms : Nat -> Nat} (names : NamesContexts most randoms) (bound : Nat) :
    NamesContexts most (nextPcid bound randoms).2 := by
  induction bound generalizing randoms with
  | zero => exact names.next
  | succ bound inductionHypothesis =>
      rw [PcidMachine.nextPcid]
      split
      · exact inductionHypothesis names.next
      · exact names.next

/-- The body of the loop that draws PCIDs. -/
def redraw (_ : Nat) : Kernel Nat := do
  let random ← getRandomLong
  return random % 4096

theorem redraw_stop {bound pcid : Nat} (foreign : pcid ≠ 0) :
    whileLoop (fun pcid => pcid == 0) redraw bound pcid = .ret pcid :=
  whileLoop_stop (beq_eq_false_iff_ne.mpr foreign)

theorem drawPcid_eq (bound : Nat) :
    drawPcid bound = redraw 0 >>= fun pcid => whileLoop (fun pcid => pcid == 0) redraw bound pcid := by
  rw [redraw, Program.bind_assoc]
  rfl

theorem returns_drawPcid {bound : Nat} (idle : Idle cache spared machine)
    (named : ∃ later, later ≤ bound ∧ machine.randoms later % 4096 ≠ 0) :
    Returns (handle cache level) (drawPcid bound) machine fun pcid final =>
      pcid = (nextPcid bound machine.randoms).1 ∧ (1 ≤ pcid ∧ pcid < 4096) ∧ Idle cache spared final ∧
        final.randoms = (nextPcid bound machine.randoms).2 := by
  induction bound generalizing machine with
  | zero =>
      rcases named with ⟨later, first, foreign⟩
      rw [Nat.le_zero.mp first] at foreign
      rw [drawPcid_eq, returns_bind, redraw, returns_bind, returns_getRandomLong]
      refine (returns_ret _).mpr ?_
      rw [redraw_stop foreign]
      exact (returns_ret _).mpr ⟨rfl, ⟨Nat.one_le_iff_ne_zero.mpr foreign, Nat.mod_lt _ (by decide)⟩, idle.drawn, rfl⟩
  | succ bound inductionHypothesis =>
      rw [drawPcid_eq, returns_bind, redraw, returns_bind, returns_getRandomLong]
      refine (returns_ret _).mpr ?_
      by_cases again : machine.randoms 0 % 4096 = 0
      · have later : ∃ later, later ≤ bound ∧ machine.drawn.randoms later % 4096 ≠ 0 := by
          rcases named with ⟨later, inTime, foreign⟩
          cases later with
          | zero => exact absurd again foreign
          | succ earlier => exact ⟨earlier, Nat.le_of_succ_le_succ inTime, foreign⟩
        have next : nextPcid (bound + 1) machine.randoms = nextPcid bound machine.drawn.randoms := if_pos again
        rw [again, whileLoop_next rfl, next, ← drawPcid_eq]
        exact inductionHypothesis idle.drawn later
      · rw [redraw_stop again, nextPcid_of_ne again]
        exact (returns_ret _).mpr ⟨rfl, ⟨Nat.one_le_iff_ne_zero.mpr again, Nat.mod_lt _ (by decide)⟩, idle.drawn, rfl⟩

/-- The context of the kernel is used everywhere if contexts do not matter. -/
theorem Prepared.side_eq_shared {cr3 pcid entry : Nat} (prepared : Prepared cache spared cr3 entry machine)
    (small : cr3 < 2 ^ 63) (isPcid : pcid < 4096) (ignores : cache.respects = false)
    (sameEntry : entryOf level address = entry) :
    (machine.setCr3 cache (cr3Of cr3 pcid true)).side cache level address = .own := by
  subst sameEntry
  have kernel : cache.context (cr3Of cr3 pcid true) = 0 := by
    rw [context_cr3Of isPcid, ignores]
    rfl
  have held : (machine.setCr3 cache (cr3Of cr3 pcid true)).held cache = [(entryOf level address, .own)] := by
    rw [PcidMachine.held, setCr3_cr3, context_mod, setCr3_kept machine (mem_accessSet_context cache _ _)
      fun _ => testBit_cr3Of small isPcid true, kernel]
    exact prepared.cached
  exact side_of_held held

/-- In a foreign context that is not spared the entry is translated anew. -/
theorem Prepared.side_eq_foreign {cr3 pcid entry : Nat} (prepared : Prepared cache spared cr3 entry machine)
    (foreign : 1 ≤ pcid) (isPcid : pcid < 4096) (respects : cache.respects = true) (strict : spared pcid = false)
    (sameEntry : entryOf level address = entry) :
    (machine.setCr3 cache (cr3Of cr3 pcid true)).side cache level address = .complementary := by
  subst sameEntry
  have named : cache.context (cr3Of cr3 pcid true) = pcid := by
    rw [context_cr3Of isPcid, respects, if_pos rfl]
  apply side_of_all
  · intro pair inside
    rw [PcidMachine.held, setCr3_cr3, context_mod, named] at inside
    exact prepared.sound.setCr3.foreign pcid (Nat.ne_of_gt foreign) strict pair inside
  · exact if_pos prepared.exchanged

/-- After some iterations of the test: where contexts do not matter, nothing was
missed; elsewhere every iteration counted a miss or drew a spared context.  `drawn`
counts these draws, in the whole test and in what is left of it. -/
structure Respecting (cache : PcidCache) (spared : Nat -> Bool) (bound drawn index misses : Nat)
    (machine : PcidMachine) : Prop where
  idle : Idle cache spared machine
  names : NamesContexts bound machine.randoms
  atMost : misses ≤ index
  none : cache.respects = false -> misses = 0
  most : cache.respects = true ->
    index + (drawnPcids bound (iterations - index) machine.randoms).countP spared ≤ misses + drawn

/-- What the test counts, whatever context the processor ran in before.  The
iterations that draw a spared context are the only ones whose answer is left open. -/
theorem returns_testPcidRespect (isLevel : IsLevel level) {bound : Nat} (idle : Idle cache spared machine)
    (names : NamesContexts bound machine.randoms) :
    Returns (handle cache level) (testPcidRespect configuration bound level) machine fun misses final =>
      Respecting cache spared bound ((drawnPcids bound iterations machine.randoms).countP spared) iterations misses
        final := by
  unfold testPcidRespect
  rw [returns_bind, returns_getCr3]
  have small := idle.small
  generalize machine.cr3 = cr3 at small
  apply (returns_forRange (Respecting cache spared bound ((drawnPcids bound iterations machine.randoms).countP spared))
    0 iterations 0 machine ?_ ?_).mono
  · intro misses final holds
    rwa [Nat.zero_add] at holds
  · exact ⟨idle, names, Nat.le_refl 0, fun _ => rfl, fun _ => Nat.le_refl _⟩
  rintro index misses state _ below before
  rw [Nat.zero_add] at below
  rw [returns_bind, returns_drawAddress, returns_bind]
  have named := before.names.next 0
  simp only [Nat.zero_add] at named
  apply (returns_drawPcid before.idle.drawn named).mono
  rintro pcid drawn ⟨drawnPcid, ⟨foreign, isPcid⟩, idle, left⟩
  have draws : drawnPcids bound (iterations - index) state.randoms =
      pcid :: drawnPcids bound (iterations - (index + 1)) drawn.randoms := by
    have one : iterations - index = iterations - (index + 1) + 1 := by omega
    rw [one, drawnPcids, left, drawnPcid]
    rfl
  apply returns_prepare idle small (prefixAligned_ne_signal isLevel _)
  intro prepared isPrepared randoms
  rw [returns_bind, returns_setCr3]
  have sameEntry := entryOf_prefixAligned isLevel (state.randoms 0 % configuration.pageTableEntries level)
  have misled : cache.context (prepared.setCr3 cache (cr3Of cr3 pcid true)).cr3 ≠ 0 ->
      spared (cache.context (prepared.setCr3 cache (cr3Of cr3 pcid true)).cr3) = false -> cache.respects = true ∧
        spared pcid = false := by
    rw [setCr3_cr3, context_mod, context_cr3Of isPcid]
    cases cache.respects with
    | true => exact fun _ strict => ⟨rfl, strict⟩
    | false => exact fun impossible => absurd rfl impossible
  apply returns_conclude isPrepared.sound.setCr3 isPrepared.exchanged small
  · intro apart strict
    rcases misled apart strict with ⟨respects, strict⟩
    exact isPrepared.side_eq_foreign foreign isPcid respects strict sameEntry
  intro final idle _ sameRandoms
  rw [setCr3_randoms, randoms] at sameRandoms
  refine ⟨_, rfl, idle, ?_, ?_, ?_, ?_⟩
  · rw [sameRandoms, left]
    exact before.names.next.nextPcid bound
  · have atMost := before.atMost
    split <;> omega
  · intro ignores
    exact (if_pos (isPrepared.side_eq_shared small isPcid ignores sameEntry)).trans (before.none ignores)
  · intro respects
    have most := before.most respects
    rw [draws, List.countP_cons] at most
    rw [sameRandoms]
    change index + 1 + (drawnPcids bound (iterations - (index + 1)) drawn.randoms).countP spared ≤
      (if (prepared.setCr3 cache (cr3Of cr3 pcid true)).side cache level _ = .own then misses else misses + 1) + _
    cases strict : spared pcid with
    | true =>
        rw [strict, if_pos rfl] at most
        split <;> omega
    | false =>
        rw [isPrepared.side_eq_foreign foreign isPcid respects strict sameEntry, if_neg nofun]
        rw [strict, if_neg Bool.false_ne_true] at most
        omega

/-- A cache that ignores PCIDs is reported as such, without misses.  One that
respects them misses in every iteration that draws a context which may not have kept
own translations, and is reported as respecting PCIDs unless the others make up more
than a fifth of all iterations.  Which contexts these are is a parameter, so the
evaluation may start in any context. -/
theorem evaluatePcidRespect_reports (isLevel : IsLevel level) {bound : Nat} (idle : Idle cache spared machine)
    (names : NamesContexts bound machine.randoms)
    (seldom : cache.respects = true -> 5 * (drawnPcids bound iterations machine.randoms).countP spared ≤ iterations) :
    Returns (handle cache level) (evaluatePcidRespect configuration bound level) machine fun lines final =>
      Idle cache spared final ∧ if cache.respects then ∃ misses, lines = [.respectsPcids level misses] ∧
          misses ≤ iterations ∧ iterations ≤ misses + (drawnPcids bound iterations machine.randoms).countP spared
        else lines = [.doesNotRespectPcids level 0] := by
  unfold evaluatePcidRespect
  rw [returns_bind]
  apply (returns_testPcidRespect isLevel idle names).mono
  intro misses final counted
  cases respects : cache.respects with
  | true =>
      have few := seldom respects
      have most := counted.most respects
      rw [Nat.sub_self, drawnPcids, List.countP_nil, Nat.add_zero] at most
      have reaches : reachesThreshold misses iterations = true := by
        unfold reachesThreshold
        apply decide_eq_true
        omega
      rw [reaches]
      exact (returns_ret _).mpr ⟨counted.idle, misses, rfl, counted.atMost, most⟩
  | false =>
      rw [counted.none respects, reachesThreshold_none]
      exact (returns_ret _).mpr ⟨counted.idle, rfl⟩

/-- The processor runs in the context 1, and the same foreign context is drawn every time. -/
theorem evaluatePcidRespect_sixContexts :
    Returns (handle ⟨4, 6, true, by decide, by decide⟩ 2) (evaluatePcidRespect defaultConfiguration 0 2)
      (afterTrigger ⟨4, 6, true, by decide, by decide⟩ 0x1001 fun _ => 5) fun lines _ =>
        lines = [.respectsPcids 2 iterations] := by
  have constant : ∀ count, (drawnPcids 0 count fun _ => 5).countP (· == 0x1001 % 4096) = 0 := by
    intro count
    induction count with
    | zero => rfl
    | succ count inductionHypothesis => exact inductionHypothesis
  apply (evaluatePcidRespect_reports (by decide) (idle_afterTrigger _ (by decide) fun _ => 5)
    (fun _ => ⟨0, Nat.le_refl 0, (by decide : 5 % 4096 ≠ 0)⟩) fun _ => ?_).mono
  · rintro lines final ⟨_, misses, rfl, atMost, most⟩
    rw [show (afterTrigger _ 0x1001 fun _ => 5).randoms = fun _ => 5 from rfl, constant] at most
    rw [Nat.le_antisymm atMost most]
  · rw [show (afterTrigger _ 0x1001 fun _ => 5).randoms = fun _ => 5 from rfl, constant]
    exact Nat.zero_le _

end Experiments

end PcidMachine

end Talbot
