import Mathlib.Logic.Equiv.Basic
import Talbot.Machine.TableMachine
import Talbot.Results.PageTableWalk

namespace Talbot
namespace PageTables

/-!
The machine with named entries stands for the machine with page tables.

Whatever the kernel module does with the page tables at the addresses in use, and
whichever old words the processor uses, the machine that names its entries can do the
same under the same names.  What is shown about every run of that machine therefore
holds on the page tables of the processor, as words in memory.

The reason why the other addresses do not matter is an invariant: an entry is only ever
known for names behind which the same places are in use, so an access to a used address
ends at a used one, whatever has been exchanged before.
-/

open Foundations TableFormat

variable {memory : Pointer -> Word} {top root : Nat} {accessors : Accessors} {used : Nat -> Prop}

/-! ## Used addresses -/

/-- Replacing the digits of a used address by interchangeable ones leads to a used one. -/
theorem Interchangeable.redirect_used {level address other : Nat}
    (same : Interchangeable used level (radix.leading level address) other) (inUse : used address) :
    used (radix.redirect level other address) := by
  rw [← same address, Radix.redirect_leading]
  exact inUse

theorem Interchangeable.refl (level index : Nat) : Interchangeable used level index index :=
  fun _ => Iff.rfl

theorem Interchangeable.symm {level index other : Nat} (same : Interchangeable used level index other) :
    Interchangeable used level other index :=
  fun address => (same address).symm

theorem Interchangeable.trans {level first second third : Nat} (one : Interchangeable used level first second)
    (two : Interchangeable used level second third) : Interchangeable used level first third :=
  fun address => (one address).trans (two address)

/-- So do the addresses that an access may end in, if only interchangeable names are known. -/
theorem used_of_target {indices : Nat -> Nat -> List Nat}
    (same : ∀ level index other, other ∈ indices level index -> Interchangeable used level index other)
    {level address target : Nat} (inUse : used address) (targeted : target ∈ format.targets indices level address) :
    used target := by
  induction level generalizing address with
  | zero => rwa [List.mem_singleton.mp targeted]
  | succ level inductionHypothesis =>
      rcases List.mem_flatMap.mp targeted with ⟨index, known, later⟩
      exact inductionHypothesis ((same _ _ _ known).redirect_used inUse) later

/-- The entry that a walk for a used address finds is relevant. -/
theorem relevant_locate {now : Nat -> Nat -> Nat} (same : ∀ level index, Interchangeable used level index (now level index))
    (goal : Nat) {level address : Nat} (inUse : used address) :
    Relevant used goal (format.locate now goal level address) := by
  induction level generalizing address with
  | zero => exact ⟨address, inUse, rfl⟩
  | succ level inductionHypothesis =>
      rw [locate]
      split
      · exact ⟨address, inUse, rfl⟩
      · exact inductionHypothesis ((same _ _).redirect_used inUse)

/-! ## Exchanged entries -/

theorem exchanged_eq_swap {α β : Type} [DecidableEq α] (entries : α -> β) (first second : α) :
    Function.update (Function.update entries first (entries second)) second (entries first) =
      entries ∘ Equiv.swap first second := by
  funext entry
  by_cases atSecond : entry = second
  · rw [atSecond, Function.update_self, Function.comp_apply, Equiv.swap_apply_right]
  · rw [Function.update_of_ne atSecond, Function.comp_apply]
    by_cases atFirst : entry = first
    · rw [atFirst, Function.update_self, Equiv.swap_apply_left]
    · rw [Function.update_of_ne atFirst, Equiv.swap_apply_of_ne_of_ne atFirst atSecond]

theorem eq_pointer_iff (layout : Layout memory top root accessors used) {level index other : Nat} {cell pointer : Pointer}
    {location : EntryLocation} (placed : format.Placed memory top root level index cell)
    (relevant : Relevant used other location.index) (named : Named memory top root other pointer location) :
    cell = pointer ↔ ⟨level, index⟩ = location := by
  rcases location with ⟨_, name⟩
  rcases named with ⟨rfl, placed'⟩
  constructor
  · rintro rfl
    rcases layout.unshared _ _ _ _ _ relevant placed' placed with ⟨rfl, rfl⟩
    rfl
  · rintro ⟨⟩
    exact placed.unique placed'

/-- Exchanging two cells exchanges their names. -/
theorem placed_swap (layout : Layout memory top root accessors used) {other level index : Nat} {first second cell : Pointer}
    {first' second' : EntryLocation} (isFirst : Named memory top root other first first')
    (isSecond : Named memory top root other second second') (relevantFirst : Relevant used other first'.index)
    (relevantSecond : Relevant used other second'.index) (placed : format.Placed memory top root level index cell) :
    ∃ moved, Equiv.swap first' second' ⟨level, index⟩ = ⟨level, moved⟩ ∧
      format.Placed memory top root level moved (Equiv.swap first second cell) := by
  have one := eq_pointer_iff layout placed relevantFirst isFirst
  have two := eq_pointer_iff layout placed relevantSecond isSecond
  by_cases atFirst : cell = first
  · have here := one.mp atFirst
    rw [← here] at isFirst
    rw [atFirst, here, Equiv.swap_apply_left, Equiv.swap_apply_left]
    cases isFirst.1
    rcases isSecond with ⟨rfl, placed'⟩
    exact ⟨_, rfl, placed'⟩
  · by_cases atSecond : cell = second
    · have here := two.mp atSecond
      rw [← here] at isSecond
      rw [atSecond, here, Equiv.swap_apply_right, Equiv.swap_apply_right]
      cases isSecond.1
      rcases isFirst with ⟨rfl, placed'⟩
      exact ⟨_, rfl, placed'⟩
    · rw [Equiv.swap_apply_of_ne_of_ne atFirst atSecond,
        Equiv.swap_apply_of_ne_of_ne (fun same => atFirst (one.mpr same)) fun same => atSecond (two.mpr same)]
      exact ⟨index, rfl, placed⟩

/-! ## The representation -/

/-- What the named machine says about the tables.  An entry is only known for names
behind which the same places are used as behind its own. -/
structure Represented (memory : Pointer -> Word) (top root : Nat) (used : Nat -> Prop) (tables : TableMachine)
    (named : PagedMachine) : Prop where
  current : ∀ {level index cell}, format.Placed memory top root level index cell ->
    ∃ origin, format.Placed memory top root level (named.entries ⟨level, index⟩) origin ∧
      Variant (tables.memory cell) (memory origin)
  live : ∀ {level index cell}, format.Placed memory top root level index cell -> ∀ word, word ∈ tables.live cell ->
    ∃ other origin, other ∈ named.live ⟨level, index⟩ ∧ format.Placed memory top root level other origin ∧
      Variant word (memory origin)
  kept : ∀ location, named.entries location ∈ named.live location
  alone : ∀ level index, (¬IsLevel level ∨ ∀ cell, ¬format.Placed memory top root level index cell) ->
    named.entries ⟨level, index⟩ = index ∧ named.live ⟨level, index⟩ = [index]
  found : ∀ {level pointer}, (level, pointer) ∈ tables.found ->
    ∃ index, format.Placed memory top root level index pointer ∧ Relevant used level index
  twins : ∀ level index other, other ∈ named.live ⟨level, index⟩ -> Interchangeable used level index other
  slots : ∀ {address outcome}, used address -> format.pageOf memory top root address = some outcome ->
    tables.ram (physicalAddress outcome address) = named.memory (physicalSlot address)

variable {tables : TableMachine} {named : PagedMachine}

theorem Layout.adjoins (layout : Layout memory top root accessors used) : format.radix.Adjoins top :=
  fun level positive below =>
    PageTables.adjoins level positive (Nat.lt_of_lt_of_le below (by rcases layout.levels with rfl | rfl <;> decide))

namespace Represented

theorem represents (represented : Represented memory top root used tables named) :
    Represents format memory top root tables.live fun level index => named.live ⟨level, index⟩ where
  named := by
    intro level index cell placed word alive
    rcases represented.live placed word alive with ⟨other, origin, known, placed', variant⟩
    exact ⟨other, origin, known, placed', variant.decode_eq level⟩
  alone level index unplaced := (represented.alone level index (Or.inr unplaced)).2

theorem rearranged (represented : Represented memory top root used tables named) :
    Rearranged memory top root tables.memory := by
  intro level index cell placed
  rcases represented.current placed with ⟨origin, placed', variant⟩
  exact ⟨_, origin, placed', variant⟩

/-- A level whose entries are never exchanged replaces nothing. -/
theorem targets_unchanged (represented : Represented memory top root used tables named) {level : Nat}
    (fixed : ¬IsLevel (level + 1)) (address : Nat) :
    format.targets (fun level index => named.live ⟨level, index⟩) (level + 1) address =
      format.targets (fun level index => named.live ⟨level, index⟩) level address := by
  rw [targets, (represented.alone (level + 1) _ (Or.inl fixed)).2, List.flatMap_singleton, Radix.redirect_leading]

theorem locate_unchanged (represented : Represented memory top root used tables named) {level goal : Nat}
    (fixed : ¬IsLevel (level + 1)) (different : goal ≠ level + 1) (address : Nat) :
    format.locate (fun level index => named.entries ⟨level, index⟩) goal (level + 1) address =
      format.locate (fun level index => named.entries ⟨level, index⟩) goal level address := by
  rw [locate, if_neg different, (represented.alone (level + 1) _ (Or.inl fixed)).1, Radix.redirect_leading]

theorem targets_eq (represented : Represented memory top root used tables named) (levels : top = 5 ∨ top = 4)
    (address : Nat) :
    format.targets (fun level index => named.live ⟨level, index⟩) top address = named.targets address := by
  have four : format.targets (fun level index => named.live ⟨level, index⟩) 4 address = named.targets address := by
    have lowest : ∀ address, format.targets (fun level index => named.live ⟨level, index⟩) 1 address = [address] :=
      fun address => represented.targets_unchanged (fun isLevel => absurd isLevel.1 (by decide)) address
    rw [PagedMachine.targets, PagedMachine.targetsThrough, targets]
    congr 1
    funext index
    rw [PagedMachine.targetsThrough, targets]
    congr 1
    funext index
    rw [PagedMachine.targetsThrough, targets]
    congr 1
    funext index
    exact lowest _
  rcases levels with rfl | rfl
  · rw [represented.targets_unchanged (fun isLevel => absurd isLevel.2 (by decide)), four]
  · exact four

theorem located_eq (represented : Represented memory top root used tables named) (levels : top = 5 ∨ top = 4) {level : Nat}
    (isLevel : IsLevel level) (address : Nat) :
    named.located address level =
      ⟨level, format.locate (fun level index => named.entries ⟨level, index⟩) level top address⟩ := by
  have four : named.located address level =
      ⟨level, format.locate (fun level index => named.entries ⟨level, index⟩) level 4 address⟩ := by
    rcases isLevel with ⟨atLeast, atMost⟩
    interval_cases level <;> rfl
  rcases levels with rfl | rfl
  · rw [represented.locate_unchanged (fun isLevel => absurd isLevel.2 (by decide))
      (Nat.ne_of_lt (Nat.lt_succ_of_le isLevel.2)), four]
  · exact four

/-- An access ends in the slot of one of the addresses that the named machine
knows. -/
theorem exists_slot (represented : Represented memory top root used tables named)
    (layout : Layout memory top root accessors used) {address : Nat} (inUse : used address) {outcome : Nat × Nat}
    (inside : outcome ∈ format.outcomes tables.live top root address) :
    ∃ slot, slot ∈ named.targets address ∧ used slot ∧ format.pageOf memory top root slot = some outcome ∧
      physicalAddress outcome slot = physicalAddress outcome address := by
  rcases exists_target_from_root layout.adjoins represented.represents (layout.canonical address inUse) inside with
    ⟨slot, targeted, _, translated, samePlace⟩
  have stillUsed := used_of_target represented.twins inUse targeted
  rw [represented.targets_eq layout.levels] at targeted
  refine ⟨slot, targeted, stillUsed, translated, ?_⟩
  unfold physicalAddress
  rw [show slot % 2 ^ pageTableIndexShift outcome.1 = _ from samePlace]
  rfl

/-- The pointers of a walk are those of the entries that the named machine
locates. -/
theorem named_of_walk (represented : Represented memory top root used tables named)
    (layout : Layout memory top root accessors used) {address level : Nat} (inUse : used address)
    (isLevel : IsLevel level) {pointer : Pointer} {walk : Walk}
    (reached : -(level : Int) < (walkPageTable accessors tables.memory address walk).1)
    (recorded : (walkPageTable accessors tables.memory address walk).2 level = some pointer) :
    Named memory top root level pointer (named.located address level) ∧
      Relevant used level (named.located address level).index := by
  have agrees := layout.agrees tables.memory represented.rearranged address inUse
  have canonical := layout.canonical address inUse
  have bounded : level ≤ top := Nat.le_trans isLevel.2 (by rcases layout.levels with rfl | rfl <;> decide)
  rw [walkPageTable_code agrees] at reached
  rcases leaves_walkPageTable agrees walk with ⟨before, same, leaves, _⟩
  rcases leaves.found level (by omega) bounded with ⟨pointer', visited, recorded'⟩
  rw [same, recorded'] at recorded
  cases recorded
  rw [represented.located_eq layout.levels isLevel]
  refine ⟨⟨rfl, ?_⟩, relevant_locate (fun level index => represented.twins level index _ (represented.kept _)) level inUse⟩
  have start : format.Placed memory top root top (format.radix.leading top address) (format.cellOf top root address) := by
    have digit : format.radix.digit top address = format.radix.leading top address := Nat.mod_eq_of_lt canonical
    rw [cellOf, digit]
    exact .root canonical
  apply placed_of_visited layout.adjoins _ start visited
  intro level index cell placed
  rcases represented.current placed with ⟨origin, placed', variant⟩
  exact ⟨origin, placed', variant.decode_eq level⟩

theorem find (represented : Represented memory top root used tables named) {level index : Nat} {pointer : Pointer}
    (placed : format.Placed memory top root level index pointer) (relevant : Relevant used level index) :
    Represented memory top root used (tables.find level pointer) named where
  current := represented.current
  live := represented.live
  kept := represented.kept
  alone := represented.alone
  found := by
    intro level pointer inside
    rcases List.mem_cons.mp inside with same | earlier
    · cases same
      exact ⟨index, placed, relevant⟩
    · exact represented.found earlier
  twins := represented.twins
  slots := represented.slots

theorem store (represented : Represented memory top root used tables named) (layout : Layout memory top root accessors used)
    {slot data : Nat} {outcome : Nat × Nat} (inUse : used slot)
    (translated : format.pageOf memory top root slot = some outcome) :
    Represented memory top root used (tables.store (physicalAddress outcome slot) data) (named.store slot data) where
  current := represented.current
  live := represented.live
  kept := represented.kept
  alone := represented.alone
  found := represented.found
  twins := represented.twins
  slots := by
    intro address outcome' inUse' translated'
    have same := layout.slots _ _ _ _ inUse' inUse translated' translated
    by_cases written : physicalSlot address = physicalSlot slot
    · dsimp only [TableMachine.store, PagedMachine.store]
      rw [same.mpr written, written, Function.update_self, Function.update_self]
    · dsimp only [TableMachine.store, PagedMachine.store]
      rw [Function.update_of_ne fun equal => written (same.mp equal), Function.update_of_ne written]
      exact represented.slots inUse' translated'

theorem flush (represented : Represented memory top root used tables named) :
    Represented memory top root used tables.flush named.flush where
  current := represented.current
  live := by
    intro level index cell placed word alive
    cases List.mem_singleton.mp alive
    rcases represented.current placed with ⟨origin, placed', variant⟩
    exact ⟨_, origin, List.mem_singleton_self _, placed', variant⟩
  kept := fun _ => List.mem_singleton_self _
  alone := by
    intro level index unmoved
    have same := (represented.alone level index unmoved).1
    exact ⟨same, congrArg (fun entry => [entry]) same⟩
  found := represented.found
  twins := by
    intro level index other known
    rw [List.mem_singleton.mp known]
    exact represented.twins level index _ (represented.kept _)
  slots := represented.slots

/-- The tables are written and the named machine follows. -/
theorem rewrite (represented : Represented memory top root used tables named) {written : Pointer -> Word}
    {following : PagedMachine}
    (current : ∀ {level index cell}, format.Placed memory top root level index cell ->
      ∃ origin, format.Placed memory top root level (following.entries ⟨level, index⟩) origin ∧
        Variant (written cell) (memory origin))
    (grows : ∀ location index, index ∈ named.live location -> index ∈ following.live location)
    (kept : ∀ location, following.entries location ∈ following.live location)
    (alone : ∀ level index, (¬IsLevel level ∨ ∀ cell, ¬format.Placed memory top root level index cell) ->
      following.entries ⟨level, index⟩ = index ∧ following.live ⟨level, index⟩ = [index])
    (twins : ∀ level index other, other ∈ following.live ⟨level, index⟩ -> Interchangeable used level index other)
    (unchanged : following.memory = named.memory) :
    Represented memory top root used (tables.rewrite written) following where
  current := current
  live := by
    intro level index cell placed word alive
    rcases List.mem_cons.mp alive with rfl | earlier
    · rcases current placed with ⟨origin, placed', variant⟩
      exact ⟨_, origin, kept _, placed', variant⟩
    · rcases represented.live placed word earlier with ⟨other, origin, known, placed', variant⟩
      exact ⟨other, origin, grows _ _ known, placed', variant⟩
  kept := kept
  alone := alone
  found := represented.found
  twins := twins
  slots := by
    intro address outcome inUse translated
    rw [unchanged]
    exact represented.slots inUse translated

theorem clearNx (represented : Represented memory top root used tables named) (pointer : Pointer) :
    Represented memory top root used (tables.rewrite (clearNx tables.memory pointer)) named := by
  apply represented.rewrite _ (fun _ _ known => known) represented.kept represented.alone represented.twins rfl
  intro level index cell placed
  rcases represented.current placed with ⟨origin, placed', variant⟩
  refine ⟨origin, placed', ?_⟩
  unfold PageTables.clearNx
  by_cases same : cell = pointer
  · rw [same, Function.update_self, ← same]
    exact variant.clear
  · rw [Function.update_of_ne same]
    exact variant

theorem exchange (represented : Represented memory top root used tables named) (layout : Layout memory top root accessors used)
    {level : Nat} (isLevel : IsLevel level) {first second : Pointer} {first' second' : EntryLocation}
    (isFirst : Named memory top root level first first') (isSecond : Named memory top root level second second')
    (relevantFirst : Relevant used level first'.index) (relevantSecond : Relevant used level second'.index)
    (same : Interchangeable used level first'.index second'.index) :
    Represented memory top root used (tables.rewrite (switchPageTableEntries tables.memory first second))
      (named.exchange first' second') := by
  apply represented.rewrite
  · intro level index cell placed
    rcases placed_swap layout isFirst isSecond relevantFirst relevantSecond placed with ⟨moved, named', placed'⟩
    rcases represented.current placed' with ⟨origin, placedOrigin, variant⟩
    dsimp only [PagedMachine.exchange, switchPageTableEntries]
    rw [exchanged_eq_swap, exchanged_eq_swap, Function.comp_apply, Function.comp_apply, named']
    exact ⟨origin, placedOrigin, variant⟩
  · intro location index known
    dsimp only [PagedMachine.exchange]
    by_cases atSecond : location = second'
    · rw [atSecond, Function.update_self]
      exact List.mem_cons_of_mem _ (atSecond ▸ known)
    · rw [Function.update_of_ne atSecond]
      by_cases atFirst : location = first'
      · rw [atFirst, Function.update_self]
        exact List.mem_cons_of_mem _ (atFirst ▸ known)
      · rw [Function.update_of_ne atFirst]
        exact known
  · intro location
    dsimp only [PagedMachine.exchange]
    by_cases atSecond : location = second'
    · rw [atSecond, Function.update_self, Function.update_self]
      exact List.mem_cons_self
    · rw [Function.update_of_ne atSecond, Function.update_of_ne atSecond]
      by_cases atFirst : location = first'
      · rw [atFirst, Function.update_self, Function.update_self]
        exact List.mem_cons_self
      · rw [Function.update_of_ne atFirst, Function.update_of_ne atFirst]
        exact represented.kept location
  · intro other index unmoved
    have apart : ∀ {pointer location}, Named memory top root level pointer location -> ⟨other, index⟩ ≠ location := by
      rintro pointer _ ⟨rfl, placed⟩ rfl
      rcases unmoved with outside | unplaced
      · exact outside isLevel
      · exact unplaced pointer placed
    dsimp only [PagedMachine.exchange]
    rw [Function.update_of_ne (apart isSecond), Function.update_of_ne (apart isFirst),
      Function.update_of_ne (apart isSecond), Function.update_of_ne (apart isFirst)]
    exact represented.alone other index unmoved
  · intro other index name known
    have held : ∀ location, Interchangeable used location.level location.index (named.entries location) :=
      fun location => represented.twins location.level location.index _ (represented.kept location)
    have levels : first'.level = level ∧ second'.level = level := ⟨isFirst.1, isSecond.1⟩
    dsimp only [PagedMachine.exchange] at known
    by_cases atSecond : ⟨other, index⟩ = second'
    · rw [atSecond, Function.update_self] at known
      rcases List.mem_cons.mp known with rfl | earlier
      · have across := held first'
        rw [levels.1] at across
        subst atSecond
        cases levels.2
        exact same.symm.trans across
      · exact represented.twins other index name (atSecond ▸ earlier)
    · rw [Function.update_of_ne atSecond] at known
      by_cases atFirst : ⟨other, index⟩ = first'
      · rw [atFirst, Function.update_self] at known
        rcases List.mem_cons.mp known with rfl | earlier
        · have across := held second'
          rw [levels.2] at across
          subst atFirst
          cases levels.1
          exact same.trans across
        · exact represented.twins other index name (atFirst ▸ earlier)
      · rw [Function.update_of_ne atFirst] at known
        exact represented.twins other index name known
  · rfl

/-- Before anything happens. -/
theorem setUp {machine : PagedMachine} (settled : machine.Settled) {ram : Nat -> Nat}
    (contents : ∀ address outcome, used address -> format.pageOf memory top root address = some outcome ->
      ram (physicalAddress outcome address) = machine.memory (physicalSlot address)) :
    Represented memory top root used (TableMachine.setUp memory ram) machine where
  current := by
    intro level index cell placed
    rw [settled.entries_eq]
    exact ⟨cell, placed, Or.inl rfl⟩
  live := by
    intro level index cell placed word alive
    cases List.mem_singleton.mp alive
    rw [settled.live_eq]
    exact ⟨index, cell, List.mem_singleton_self _, placed, Or.inl rfl⟩
  kept := by
    intro location
    rw [settled.entries_eq, settled.live_eq]
    exact List.mem_singleton_self _
  alone := by
    intro level index _
    rw [settled.entries_eq, settled.live_eq]
    exact ⟨rfl, rfl⟩
  found := fun inside => absurd inside List.not_mem_nil
  twins := by
    intro level index other known
    rw [settled.live_eq] at known
    rw [List.mem_singleton.mp known]
    exact Interchangeable.refl level index
  slots := fun inUse translated => contents _ _ inUse translated

end Represented

/-- Every step on the tables is one of the named machine.  Each kind of event has
its own lemma above; the relation between the two states is kept by all of them. -/
theorem simulates_step (layout : Layout memory top root accessors used) (admitted : Nat -> Nat -> Prop) :
    Simulates (TableMachine.Step accessors memory top root used) (PagedStep admitted) (SameEvent memory top root)
      fun tables state => Represented memory top root used tables state.machine := by
  intro event tables final state represented step
  cases event with
  | access address value =>
      rcases step with ⟨inUse, outcome, inside, rfl, rfl⟩
      rcases represented.exists_slot layout inUse inside with ⟨slot, targeted, inUse', translated, samePlace⟩
      have holds := represented.slots inUse' translated
      rw [samePlace] at holds
      exact ⟨_, _, .access address _, ⟨⟨slot, targeted, holds⟩, rfl⟩, represented⟩
  | store address data =>
      rcases step with ⟨inUse, outcome, inside, rfl⟩
      rcases represented.exists_slot layout inUse inside with ⟨slot, targeted, inUse', translated, samePlace⟩
      rw [← samePlace]
      exact ⟨_, _, .store address data, ⟨slot, targeted, rfl⟩, represented.store layout inUse' translated⟩
  | find address level pointer =>
      rcases step with ⟨inUse, isLevel, walk, reached, recorded, rfl⟩
      rcases represented.named_of_walk layout inUse isLevel reached recorded with ⟨isNamed, relevant⟩
      exact ⟨_, state, .find isNamed, ⟨_, ⟨rfl, rfl⟩, rfl⟩, represented.find isNamed.2 relevant⟩
  | clearNx address =>
      rcases step with ⟨walk, pointer, _, rfl⟩
      exact ⟨_, state, .clearNx address, ⟨_, state, ⟨rfl, rfl⟩, rfl⟩, represented.clearNx pointer⟩
  | exchange level first second =>
      rcases step with ⟨isLevel, foundFirst, foundSecond, ⟨one, two, placedOne, placedTwo, same⟩, rfl⟩
      rcases represented.found foundFirst with ⟨_, placedFirst, relevantFirst⟩
      rcases represented.found foundSecond with ⟨_, placedSecond, relevantSecond⟩
      rcases layout.unshared _ _ _ _ _ relevantFirst placedFirst placedOne with ⟨_, rfl⟩
      rcases layout.unshared _ _ _ _ _ relevantSecond placedSecond placedTwo with ⟨_, rfl⟩
      have isFirst : Named memory top root level first ⟨level, _⟩ := ⟨rfl, placedFirst⟩
      have isSecond : Named memory top root level second ⟨level, _⟩ := ⟨rfl, placedSecond⟩
      exact ⟨_, ⟨_, _⟩, .exchange isFirst isSecond, rfl,
        represented.exchange layout isLevel isFirst isSecond relevantFirst relevantSecond same⟩
  | flush =>
      cases step
      exact ⟨_, _, .flush, rfl, represented.flush⟩

/-- Every run on the tables has a run of the named machine beside it, in which the
same events happen under the names of the entries. -/
def Followed (accessors : Accessors) (memory : Pointer -> Word) (top root : Nat) (used : Nat -> Prop) (ram : Nat -> Nat)
    (admitted : Nat -> Nat -> Prop) (start : Paging) : Prop :=
  ∀ events final,
    Run (TableMachine.Step accessors memory top root used) events (TableMachine.setUp memory ram) final ->
      ∃ events' final', List.Forall₂ (SameEvent memory top root) events events' ∧
        Run (PagedStep admitted) events' start final' ∧ Represented memory top root used final final'.machine

/-- The machine with named entries stands for the tables of the processor.  Whatever
translations the processor has cached, every step it makes with the tables in memory
is a step of the named machine with the same answer, and the two stay related; so is
every run from a start at which the words of the windows are in memory.  It is only
asked of the addresses that are used that their pages lie apart from the tables and
from each other. -/
theorem tables_followed (layout : Layout memory top root accessors used) (admitted : Nat -> Nat -> Prop) {start : Paging}
    (settled : start.machine.Settled) {ram : Nat -> Nat}
    (contents : ∀ address outcome, used address -> format.pageOf memory top root address = some outcome ->
      ram (physicalAddress outcome address) = start.machine.memory (physicalSlot address)) :
    Followed accessors memory top root used ram admitted start := by
  intro events final run
  exact (simulates_step layout admitted).run (Represented.setUp settled contents) run

/-! ## Two pages -/

/-- Tables of four levels with a page of 2MB at the base address, and its complementary
page. -/
def windowTables : Pointer -> Word :=
  fun pointer =>
    if pointer = (1, 32) then 0x2003#64
    else if pointer = (1, 224) then 0x4003#64
    else if pointer = (2, 0) then 0x3003#64
    else if pointer = (4, 0) then 0x5003#64
    else if pointer = (3, 0) then 0x40000083#64
    else if pointer = (5, 0) then 0x40200083#64
    else 0#64

/-- The level of a table, and the digits that lead to it.  The base and the
complementary page have the upper two tables in common and their own ones below. -/
def windowTable : Nat -> Nat × Nat
  | 1 => (4, 0)
  | 2 => (3, 32)
  | 3 => (2, 32 * 512)
  | 4 => (3, 224)
  | 5 => (2, 224 * 512)
  | _ => (0, 0)

/-- An address of the two pages.  Everything else of the address space belongs to
nobody here, so tables of the kernel or of libraries may be anywhere there. -/
def InWindowPages (address : Nat) : Prop :=
  address = baseAddress + address % 2 ^ 21 ∨ address = complementaryBaseAddress + address % 2 ^ 21

theorem points_windowTables {cell : Pointer} {next : Nat}
    (points : decode (windowTable cell.1).1 (windowTables cell) = .table next) :
    (windowTable cell.1).1 = (windowTable next).1 + 1 ∧
      (windowTable next).2 = (windowTable cell.1).2 * 512 + cell.2 := by
  unfold windowTables at points
  split_ifs at points with first second third fourth fifth sixth
  · cases first
    cases (show Decoded.table 2 = Decoded.table next from points)
    exact ⟨rfl, rfl⟩
  · cases second
    cases (show Decoded.table 4 = Decoded.table next from points)
    exact ⟨rfl, rfl⟩
  · cases third
    cases (show Decoded.table 3 = Decoded.table next from points)
    exact ⟨rfl, rfl⟩
  · cases fourth
    cases (show Decoded.table 5 = Decoded.table next from points)
    exact ⟨rfl, rfl⟩
  · cases fifth
    cases (show Decoded.page 0x200 = Decoded.table next from points)
  · cases sixth
    cases (show Decoded.page 0x201 = Decoded.table next from points)
  · cases (show Decoded.absent = Decoded.table next from points)

/-- The place of an entry determines its name. -/
theorem placed_windowTables {level index : Nat} {cell : Pointer}
    (placed : format.Placed windowTables 4 1 level index cell) :
    level = (windowTable cell.1).1 ∧ index = (windowTable cell.1).2 * 512 + cell.2 := by
  induction placed with
  | root small => exact ⟨rfl, (Nat.zero_add _).symm.trans (congrArg (· + _) (Nat.zero_mul 512).symm)⟩
  | child positive above points small inductionHypothesis =>
      rcases inductionHypothesis with ⟨atLevel, named⟩
      rw [atLevel] at points
      rcases points_windowTables points with ⟨upper, leads⟩
      rw [upper] at atLevel
      refine ⟨Nat.succ.inj atLevel, ?_⟩
      rw [leads, ← named]
      rfl

section Digits

variable {address : Nat}

theorem digits_basePage (inPage : address = baseAddress + address % 2 ^ 21) :
    radix.digit 4 address = 32 ∧ radix.digit 3 address = 0 ∧ radix.digit 2 address = 0 := by
  have small : address % 2 ^ 21 < 2 ^ 21 := Nat.mod_lt _ (by decide)
  unfold baseAddress at inPage
  refine ⟨?_, ?_, ?_⟩
  · change (address >>> 39) % 512 = 32
    rw [Nat.shiftRight_eq_div_pow]
    omega
  · change (address >>> 30) % 512 = 0
    rw [Nat.shiftRight_eq_div_pow]
    omega
  · change (address >>> 21) % 512 = 0
    rw [Nat.shiftRight_eq_div_pow]
    omega

theorem digits_complementaryPage (inPage : address = complementaryBaseAddress + address % 2 ^ 21) :
    radix.digit 4 address = 224 ∧ radix.digit 3 address = 0 ∧ radix.digit 2 address = 0 := by
  have small : address % 2 ^ 21 < 2 ^ 21 := Nat.mod_lt _ (by decide)
  unfold complementaryBaseAddress at inPage
  refine ⟨?_, ?_, ?_⟩
  · change (address >>> 39) % 512 = 224
    rw [Nat.shiftRight_eq_div_pow]
    omega
  · change (address >>> 30) % 512 = 0
    rw [Nat.shiftRight_eq_div_pow]
    omega
  · change (address >>> 21) % 512 = 0
    rw [Nat.shiftRight_eq_div_pow]
    omega

theorem pageOf_basePage (inPage : address = baseAddress + address % 2 ^ 21) :
    format.pageOf windowTables 4 1 address = some (2, 0x200) := by
  rcases digits_basePage inPage with ⟨fourth, third, second⟩
  rw [pageOf, cellOf, fourth]
  change format.pageOf windowTables 3 2 address = _
  rw [pageOf, cellOf, third]
  change format.pageOf windowTables 2 3 address = _
  rw [pageOf, cellOf, second]
  rfl

theorem pageOf_complementaryPage (inPage : address = complementaryBaseAddress + address % 2 ^ 21) :
    format.pageOf windowTables 4 1 address = some (2, 0x201) := by
  rcases digits_complementaryPage inPage with ⟨fourth, third, second⟩
  rw [pageOf, cellOf, fourth]
  change format.pageOf windowTables 3 4 address = _
  rw [pageOf, cellOf, third]
  change format.pageOf windowTables 2 5 address = _
  rw [pageOf, cellOf, second]
  rfl

theorem physicalSlot_windowPage (inPages : InWindowPages address) : physicalSlot address = address := by
  have small : address % 2 ^ 21 < 2 ^ 21 := Nat.mod_lt _ (by decide)
  unfold InWindowPages baseAddress complementaryBaseAddress at inPages
  have notSmall : ¬(huge2MBBaseAddress ≤ address ∧ address < 0x200100000000) := by
    unfold huge2MBBaseAddress
    omega
  have notLarge : ¬(huge1GBBaseAddress ≤ address ∧ address < 0x301000000000) := by
    unfold huge1GBBaseAddress
    omega
  exact (if_neg notSmall).trans (if_neg notLarge)

end Digits

theorem layout_windowTables : Layout windowTables 4 1 (processorAccessors 4 1) InWindowPages where
  levels := Or.inr rfl
  canonical := by
    intro address inPages
    have small : address % 2 ^ 21 < 2 ^ 21 := Nat.mod_lt _ (by decide)
    change address >>> 39 < 512
    rw [Nat.shiftRight_eq_div_pow]
    unfold InWindowPages baseAddress complementaryBaseAddress at inPages
    omega
  agrees := fun current _ address _ => agrees_processorAccessors (Or.inr rfl)
  unshared := by
    intro level index level' index' cell _ placed placed'
    have name := placed_windowTables placed
    have name' := placed_windowTables placed'
    exact ⟨name.1.trans name'.1.symm, name.2.trans name'.2.symm⟩
  slots := by
    intro first second outcome outcome' inPages inPages' translated translated'
    rw [physicalSlot_windowPage inPages, physicalSlot_windowPage inPages']
    have physical : ∀ frame address, physicalAddress (2, frame) address = frame <<< 21 + address % 2 ^ 21 :=
      fun _ _ => rfl
    have apart : baseAddress ≠ complementaryBaseAddress := by decide
    rcases inPages with base | complementary <;> rcases inPages' with base' | complementary'
    · cases (pageOf_basePage base).symm.trans translated
      cases (pageOf_basePage base').symm.trans translated'
      rw [physical, physical]
      omega
    · cases (pageOf_basePage base).symm.trans translated
      cases (pageOf_complementaryPage complementary').symm.trans translated'
      rw [physical, physical]
      unfold baseAddress at base
      unfold complementaryBaseAddress at complementary'
      omega
    · cases (pageOf_complementaryPage complementary).symm.trans translated
      cases (pageOf_basePage base').symm.trans translated'
      rw [physical, physical]
      unfold complementaryBaseAddress at complementary
      unfold baseAddress at base'
      omega
    · cases (pageOf_complementaryPage complementary).symm.trans translated
      cases (pageOf_complementaryPage complementary').symm.trans translated'
      rw [physical, physical]
      omega

/-- Physical memory with the base page in frame 0x200 and the complementary one behind it. -/
def windowRam (physical : Nat) : Nat :=
  if 0x201 <<< 21 ≤ physical then signal else 0

/-- Both entries of level 2 lead to used pages throughout. -/
theorem twins_windowTables : Twins InWindowPages windowTables 4 1 2 (3, 0) (5, 0) := by
  have base : format.Placed windowTables 4 1 2 ((32 * 2 ^ format.radix.bits + 0) * 2 ^ format.radix.bits + 0) (3, 0) :=
    .child (by decide) (.child (by decide) (.root (by decide)) rfl (by decide)) rfl (by decide)
  have complementary : format.Placed windowTables 4 1 2
      ((224 * 2 ^ format.radix.bits + 0) * 2 ^ format.radix.bits + 0) (5, 0) :=
    .child (by decide) (.child (by decide) (.root (by decide)) rfl (by decide)) rfl (by decide)
  refine ⟨_, _, base, complementary, fun address => iff_of_true (Or.inl ?_) (Or.inr ?_)⟩
  · exact (congrArg (baseAddress + ·) (radix.redirect_mod 2 _ address)).symm
  · exact (congrArg (complementaryBaseAddress + ·) (radix.redirect_mod 2 _ address)).symm

/-- The memory of the two pages, as the trigger sets it up. -/
theorem windowRam_eq {address : Nat} {outcome : Nat × Nat} (inPages : InWindowPages address)
    (translated : format.pageOf windowTables 4 1 address = some outcome) :
    windowRam (physicalAddress outcome address) = afterSetup.machine.memory (physicalSlot address) := by
  have small : address % 2 ^ 21 < 2 ^ 21 := Nat.mod_lt _ (by decide)
  rw [physicalSlot_windowPage inPages]
  change windowRam _ = if complementaryBaseAddress ≤ address then signal else 0
  unfold windowRam
  rcases inPages with base | complementary
  · cases (pageOf_basePage base).symm.trans translated
    have below : ¬ complementaryBaseAddress ≤ address := by
      unfold baseAddress at base
      unfold complementaryBaseAddress
      omega
    have low : ¬ 0x201 <<< 21 ≤ physicalAddress (2, 0x200) address := by
      change ¬ 0x201 <<< 21 ≤ 0x200 <<< 21 + address % 2 ^ 21
      omega
    rw [if_neg below, if_neg low]
  · cases (pageOf_complementaryPage complementary).symm.trans translated
    have above : complementaryBaseAddress ≤ address := by omega
    have high : 0x201 <<< 21 ≤ physicalAddress (2, 0x201) address := Nat.le_add_right _ _
    rw [if_pos above, if_pos high]

/-- The entries of the two pages are found and exchanged.  Afterwards the base page is
read through its new entry, and once more through a translation that the processor has
kept from before. -/
def windowEvents : List (PagingEvent Pointer) :=
  [.find baseAddress 2 (3, 0), .find complementaryBaseAddress 2 (5, 0), .exchange 2 (3, 0) (5, 0),
    .access baseAddress signal, .access baseAddress 0]

theorem run_windowEvents : ∃ final,
    Run (TableMachine.Step (processorAccessors 4 1) windowTables 4 1 InWindowPages) windowEvents
      (TableMachine.setUp windowTables windowRam) final := by
  have base : InWindowPages baseAddress := Or.inl (by decide)
  have complementary : InWindowPages complementaryBaseAddress := Or.inr (by decide)
  refine ⟨_, .cons ⟨base, by decide, fun _ => none, by decide, by decide, rfl⟩ (.cons ⟨complementary, by decide,
    fun _ => none, by decide, by decide, rfl⟩ (.cons ⟨by decide, by decide, by decide, twins_windowTables, rfl⟩
      (.cons ⟨base, (2, 0x201), by decide, by decide, rfl⟩ (.cons ⟨base, (2, 0x200), by decide, by decide, rfl⟩
        (.nil _)))))⟩

/-- The named machine follows this run too. -/
theorem tables_followed_exchange : ∃ final,
    Run (TableMachine.Step (processorAccessors 4 1) windowTables 4 1 InWindowPages) windowEvents
      (TableMachine.setUp windowTables windowRam) final ∧
    ∃ events' final', List.Forall₂ (SameEvent windowTables 4 1) windowEvents events' ∧
      Run (PagedStep fun _ _ => True) events' afterSetup final' ∧
        Represented windowTables 4 1 InWindowPages final final'.machine := by
  rcases run_windowEvents with ⟨final, run⟩
  exact ⟨final, run, tables_followed layout_windowTables (fun _ _ => True) ⟨rfl, rfl⟩
    (fun _ _ inPages translated => windowRam_eq inPages translated) windowEvents final run⟩

end PageTables
end Talbot
