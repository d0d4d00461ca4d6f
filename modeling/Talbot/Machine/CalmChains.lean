import Talbot.Machine.HashChains
import Talbot.Machine.SignalMarks

namespace Talbot
namespace Paging

/-!
Chains on the paging machine.

In a calm state the builders leave exactly the chain they are asked for, and a
traversal follows it to its end.  After the first exchange a traversal still
does so if its nodes lie outside the exchanged entries, whatever translations
the hardware picks for the others.

What is watched during a run is a parameter: a guard only has to admit the
operations of each phase.
-/

open Foundations Program Machine

/-- What an address shows while no entry is exchanged. -/
def shown (memory : Nat -> Nat) (address : Nat) : Nat :=
  memory (physicalSlot address)

/-- An address that shares its slot with no other one.  All addresses outside the
regions of huge pages are of this kind. -/
def Plain (address : Nat) : Prop :=
  physicalSlot address = address

theorem Plain.shown_eq {address : Nat} (plain : Plain address) (memory : Nat -> Nat) :
    shown memory address = memory address :=
  congrArg memory plain

/-- An address before an entry lies in a lower entry. -/
theorem entryOf_lt {level address entry : Nat} (before : address < pageAddress level entry 0) :
    entryOf level address < entry := by
  rw [pageAddress_zero, Nat.shiftLeft_eq] at before
  rw [entryOf, Nat.shiftRight_eq_div_pow]
  exact Nat.div_lt_of_lt_mul (by rwa [Nat.mul_comm])

theorem le_entryOf {level address entry : Nat} (after : pageAddress level entry 0 ≤ address) :
    entry ≤ entryOf level address := by
  rw [pageAddress_zero, Nat.shiftLeft_eq] at after
  rw [entryOf, Nat.shiftRight_eq_div_pow]
  exact (Nat.le_div_iff_mul_le (Nat.two_pow_pos _)).mpr after

/-- Complementary addresses lie in entries of their own. -/
theorem entryOf_ne_complementary {level address : Nat} (isLevel : IsLevel level)
    (below : address < complementaryBaseAddress) (target : Nat) :
    entryOf level address ≠ entryOf level (complementaryOf target) := by
  have aligned : pageAddress level (entryOf level complementaryBaseAddress) 0 = complementaryBaseAddress := by
    rcases isLevel with ⟨least, most⟩
    interval_cases level <;> decide
  have lower : entryOf level address < entryOf level complementaryBaseAddress := entryOf_lt (by rwa [aligned])
  have upper : entryOf level complementaryBaseAddress ≤ entryOf level (complementaryOf target) :=
    le_entryOf (by rw [aligned]; exact Nat.le_add_right _ _)
  exact Nat.ne_of_lt (Nat.lt_of_lt_of_le lower upper)

theorem path_shown {memory : Nat -> Nat} {start stop : Nat} {nodes : List Nat} (path : Path memory start nodes stop)
    (plain : ∀ node, node ∈ nodes -> Plain node) : Path (shown memory) start nodes stop :=
  path.congr fun node inside => ((plain node inside).shown_eq memory).symm

/-- Operations that leave the page tables alone.  Memory is accessed in `reach`
only, and page tables are walked for its addresses and the complementary ones. -/
def CalmOp (reach : Nat -> Prop) : KernelOp -> Prop
  | .readData address => reach address
  | .fetchInstruction address => reach address
  | .writeData address _ => reach address
  | .walkPageTable address => ∃ target, reach target ∧ (address = target ∨ address = complementaryOf target)
  | .switchPageTableEntries _ _ => False
  | .callHash pointer _ _ _ _ => ∃ hash, pointer = .to hash
  | _ => True

/-- The guard admits these operations in every calm state. -/
def Permits (guard : Paging -> KernelOp -> Prop) (reach : Nat -> Prop) : Prop :=
  ∀ memory state op, Calm memory state -> CalmOp reach op -> guard state op

section Calm

variable {admitted : Nat -> Nat -> Prop} {guard : Paging -> KernelOp -> Prop} {exhausted : Prop} {state : Paging}
  {memory : Nat -> Nat} {reach : Nat -> Prop} (permits : Permits guard reach) (calm : Calm memory state)

include permits calm

theorem calm_access (access : MemoryAccess) {address : Nat} (inReach : reach address) :
    Ensures (may admitted) guard exhausted (access.access address) state fun value final =>
      value = shown memory address ∧ final.history = state.history.access address value ∧ Calm memory final := by
  refine ensures_access access (permits _ _ _ calm ?_) fun slot inside => ?_
  · cases access <;> exact inReach
  · rw [calm.targets_eq, List.mem_singleton] at inside
    subst inside
    exact ⟨by rw [calm.memory_eq]; rfl, rfl, calm.access _ _⟩

/-- Writing through any address changes the slot it shows. -/
theorem calm_store {address : Nat} (inReach : reach address) (data : Nat) :
    Ensures (may admitted) guard exhausted (writeData address data) state fun _ final =>
      Calm (Function.update memory (physicalSlot address) data) final := by
  refine ensures_writeData (permits _ _ _ calm inReach) fun slot inside => ?_
  rw [calm.targets_eq, List.mem_singleton] at inside
  subst inside
  exact calm.store slot data

theorem calm_writeData {address : Nat} (inReach : reach address) (plain : Plain address) (data : Nat) :
    Ensures (may admitted) guard exhausted (writeData address data) state fun _ final =>
      Calm (Function.update memory address data) final := by
  have stored : Ensures (may admitted) guard exhausted (writeData address data) state _ :=
    calm_store permits calm inReach data
  rwa [show physicalSlot address = address from plain] at stored

theorem calm_flushMmuCaches : Ensures (may admitted) guard exhausted flushMmuCaches state fun _ final =>
    Calm memory final :=
  ensures_flushMmuCaches (permits _ _ _ calm trivial) calm.flush

theorem calm_enter (user : StructureUser) (cache : TranslationCache) (level : Nat) :
    Ensures (may admitted) guard exhausted (enter user cache level) state fun _ final => Calm memory final :=
  ensures_enter (permits _ _ _ calm trivial) calm

theorem calm_kmalloc : Ensures (may admitted) guard exhausted kmalloc state fun array final =>
    array = (fun _ => 0) ∧ Calm memory final :=
  ensures_kmalloc (permits _ _ _ calm trivial) ⟨rfl, calm⟩

theorem calm_drawAddress (modulus level : Nat) :
    Ensures (may admitted) guard exhausted (drawAddress modulus level) state fun address final =>
      (∃ random, address = baseAddress + ((random % modulus) <<< pageTableIndexShift level)) ∧ Calm memory final :=
  ensures_drawAddress (permits _ _ _ calm trivial) fun random => ⟨⟨random, rfl⟩, calm⟩

theorem calm_callHash (hash : HashFunction) (target offset setBits level : Nat) :
    Ensures (may admitted) guard exhausted (callHash (.to hash) target offset setBits level) state fun address final =>
      address = hash.apply target offset setBits level ∧ Calm memory final := by
  refine ensures_callHash (permits _ _ _ calm ⟨hash, rfl⟩) ?_
  rintro _ ⟨⟩ _
  exact ⟨rfl, calm⟩

theorem calm_walkPageTable {address target : Nat} (inReach : reach target)
    (side : address = target ∨ address = complementaryOf target) :
    Ensures (may admitted) guard exhausted (walkPageTable address) state fun walk final =>
      walk = walkTo address ∧ Calm memory final :=
  ensures_walkPageTable calm.settled (permits _ _ _ calm ⟨target, inReach, side⟩) ⟨rfl, calm⟩

theorem calm_clearNx (walk : PageTableWalk) :
    Ensures (may admitted) guard exhausted (clearNx walk) state fun _ final => Calm memory final :=
  ensures_clearNx (permits _ _ _ calm trivial) calm

theorem calm_walkPair {target : Nat} (inReach : reach target) :
    Ensures (may admitted) guard exhausted (walkPair target (complementaryOf target)) state fun walks final =>
      walks = (walkTo target, walkTo (complementaryOf target)) ∧ Calm memory final :=
  ensures_walkPair calm.settled (fun _ side => permits _ _ _ calm ⟨target, inReach, side⟩)
    (fun _ => permits _ _ _ calm trivial) ⟨rfl, calm⟩

/-- Following a chain that stands in memory. -/
theorem calm_followChain (access : MemoryAccess) {bound start stop : Nat} {nodes : List Nat}
    (path : Path (shown memory) start nodes stop) (ends : stop ∉ nodes) (enough : nodes.length ≤ bound)
    (inReach : ∀ node, node ∈ nodes -> reach node) :
    Ensures (may admitted) guard exhausted (followChain access bound start stop) state fun p final =>
      p = stop ∧ (state.history.last = start -> final.history.last = stop) ∧
        final.history.accessed = state.history.accessed ++ nodes ∧ Calm memory final := by
  induction nodes generalizing state bound start with
  | nil =>
      rcases path with rfl
      rw [followChain_stop]
      exact ⟨rfl, id, (List.append_nil _).symm, calm⟩
  | cons node rest inductionHypothesis =>
      rcases path with ⟨rfl, path⟩
      rcases Nat.exists_eq_add_of_le' (Nat.le_trans (Nat.le_add_left 1 _) enough) with ⟨bound, rfl⟩
      have different : start ≠ stop := fun same => ends (same ▸ List.mem_cons_self)
      rw [followChain_next different]
      refine ensures_then (calm_access permits calm access (inReach start List.mem_cons_self)) ?_
      rintro _ middle ⟨rfl, visited, calm⟩
      refine (inductionHypothesis calm path (fun member => ends (List.mem_cons_of_mem _ member))
        (Nat.le_of_succ_le_succ enough) fun later member => inReach later (List.mem_cons_of_mem _ member)).mono ?_
      rintro p final ⟨rfl, last, accessed, calm⟩
      refine ⟨rfl, fun _ => last (by rw [visited]; rfl), ?_, calm⟩
      rw [accessed, visited, History.access, List.append_assoc, List.singleton_append]

/-- Programs that only call hash functions leave the machine as it is. -/
theorem calm_of_evaluates {α : Type} {program : Kernel α} {value : α} (evaluates : Evaluates program value) :
    Ensures (may admitted) guard exhausted program state fun result final => result = value ∧ Calm memory final := by
  induction evaluates with
  | ret value => exact ⟨rfl, calm⟩
  | @callHash hash _ _ _ _ _ _ _ inductionHypothesis =>
      refine ⟨permits _ _ _ calm ⟨hash, rfl⟩, ?_⟩
      rintro _ _ ⟨_, ⟨⟩, rfl, _, rfl⟩
      exact inductionHypothesis

end Calm

/-! ## Runs -/

/-- The machine has some answer to the operation. -/
def Feasible (state : Paging) (op : KernelOp) : Prop :=
  ∃ response final, may (fun _ _ => True) op state response final

/-- In a calm state it answers everything but exchanges. -/
theorem permits_feasible (reach : Nat -> Prop) : Permits Feasible reach := by
  intro memory state op calm allowed
  have shows : ∀ address, ∃ slot, slot ∈ state.machine.targets address := fun address =>
    ⟨address, by rw [calm.targets_eq]; exact List.mem_singleton_self address⟩
  cases op with
  | readData address =>
      rcases shows address with ⟨slot, inside⟩
      exact ⟨_, _, ⟨slot, inside, rfl⟩, rfl⟩
  | fetchInstruction address =>
      rcases shows address with ⟨slot, inside⟩
      exact ⟨_, _, ⟨slot, inside, rfl⟩, rfl⟩
  | writeData address data =>
      rcases shows address with ⟨slot, inside⟩
      exact ⟨(), _, slot, inside, rfl⟩
  | walkPageTable address => exact ⟨_, _, rfl, rfl⟩
  | clearNx walk => exact ⟨(), _, rfl⟩
  | switchPageTableEntries first second => exact allowed.elim
  | flushMmuCaches => exact ⟨(), _, rfl⟩
  | getCr3 => exact ⟨0, _, rfl⟩
  | setCr3 value => exact ⟨(), _, rfl⟩
  | getRandomLong => exact ⟨0, _, rfl⟩
  | kmalloc => exact ⟨_, _, rfl, rfl⟩
  | callHash pointer target offset setBits level =>
      rcases allowed with ⟨hash, rfl⟩
      exact ⟨_, _, hash, rfl, rfl, trivial, rfl⟩
  | enter user cache level => exact ⟨(), _, rfl⟩

/-- What such programs ensure, they also reach. -/
theorem reaches_of_feasible {α : Type} {program : Kernel α} {state : Paging} {post : α -> Paging -> Prop}
    (ensures : Ensures (may fun _ _ => True) Feasible False program state post) :
    Reaches (may fun _ _ => True) program state post :=
  ensures.reaches fun _ _ feasible => feasible

theorem reaches_drawAddress {modulus level index : Nat} {state : Paging} (small : index < modulus) :
    Reaches (may fun _ _ => True) (drawAddress modulus level) state fun address final =>
      address = baseAddress + (index <<< pageTableIndexShift level) ∧ final = state :=
  ⟨index, state, rfl, by rw [Nat.mod_eq_of_lt small], rfl⟩

/-- A program that only calls hash functions can return, and leaves the state as it is. -/
theorem reaches_of_evaluates {α : Type} {program : Kernel α} {value : α} {state : Paging}
    (evaluates : Evaluates program value) :
    Reaches (may fun _ _ => True) program state fun result final => result = value ∧ final = state := by
  induction evaluates with
  | ret value => exact ⟨rfl, rfl⟩
  | callHash _ inductionHypothesis => exact ⟨_, _, ⟨_, rfl, rfl, trivial, rfl⟩, inductionHypothesis⟩

/-! ## Builders -/

section Builders

variable {admitted : Nat -> Nat -> Prop} {guard : Paging -> KernelOp -> Prop} {exhausted : Prop} {state : Paging}
  {memory : Nat -> Nat} {reach : Nat -> Prop} {configuration : Configuration} {chainLevel : Nat}

/-- The links that a builder checks are addresses that may be written, each in a slot of its own. -/
def LinksIn (configuration : Configuration) (chainLevel : Nat) (reach : Nat -> Prop) : Prop :=
  ∀ address, insideWindow configuration chainLevel address = true -> reach address ∧ Plain address

variable (permits : Permits guard reach) (links : LinksIn configuration chainLevel reach)

include permits links

/-- The loop that the builders share, for any source of candidate links. -/
theorem calm_extendLoop (link : Nat -> Nat) (body : Nat -> Nat -> Kernel (Iteration Nat))
    (bodyExtends : ∀ index last memory state post, Calm memory state ->
      (∀ state, Calm memory state -> Ensures (may admitted) guard exhausted
        (extendChain configuration chainLevel last (link index)) state post) ->
      Ensures (may admitted) guard exhausted (body index last) state post)
    (start count : Nat) {first : Nat} (calm : Calm memory state) (inReach : reach first) (plain : Plain first) :
    Ensures (may admitted) guard exhausted (forRange body start count first) state fun last final =>
      last = (keptLinks configuration chainLevel ((List.range' start count).map link)).getLastD first ∧
        Calm (writeLinks memory first
          (keptLinks configuration chainLevel ((List.range' start count).map link))) final := by
  induction count generalizing start first memory state with
  | zero => exact ⟨rfl, calm⟩
  | succ count inductionHypothesis =>
      have candidates : (List.range' start (count + 1)).map link =
          link start :: (List.range' (start + 1) count).map link := by
        rw [List.range'_succ, List.map_cons]
      rw [forRange, ensures_bind]
      refine bodyExtends start first memory state _ calm fun state calm => ?_
      unfold extendChain
      cases inside : insideWindow configuration chainLevel (link start) with
      | false =>
          have none_kept : keptLinks configuration chainLevel ((List.range' start (count + 1)).map link) = [] := by
            rw [candidates, keptLinks, List.takeWhile_cons_of_neg (by rw [inside]; exact Bool.false_ne_true)]
          simp only [Bool.false_eq_true, if_false, none_kept]
          exact ⟨rfl, calm⟩
      | true =>
          have kept : keptLinks configuration chainLevel ((List.range' start (count + 1)).map link) =
              link start :: keptLinks configuration chainLevel ((List.range' (start + 1) count).map link) := by
            rw [candidates, keptLinks, List.takeWhile_cons_of_pos inside]
            rfl
          simp only [if_true, kept]
          refine ensures_then (calm_writeData permits calm inReach plain _) fun _ middle written => ?_
          rcases links _ inside with ⟨linkInReach, linkPlain⟩
          refine (inductionHypothesis (start + 1) written linkInReach linkPlain).mono ?_
          rintro last final ⟨rfl, calm⟩
          rw [List.getLastD_cons, writeLinks]
          exact ⟨rfl, calm⟩

omit links in
/-- Closing the chain after the loop. -/
theorem calm_closeChain {first stop : Nat} {rest : List Nat} (calm : Calm (writeLinks memory first rest) state)
    (inReach : ∀ node, node ∈ first :: rest -> reach node ∧ Plain node) :
    Ensures (may admitted) guard exhausted (writeData (rest.getLastD first) stop) state fun _ final =>
      Calm (writeChain memory first rest stop) final := by
  have last := inReach _ (List.getLastD_mem_cons (l := rest) (a := first))
  exact calm_writeData permits calm last.1 last.2 stop

omit permits in
theorem keptLinks_in {candidates : List Nat} {node : Nat}
    (kept : node ∈ keptLinks configuration chainLevel candidates) : reach node ∧ Plain node :=
  links node (List.mem_takeWhile_imp kept)

theorem calm_buildPointerChain (calm : Calm memory state) {start : Nat} (inReach : reach start) (plain : Plain start)
    (stop length : Nat) :
    Ensures (may admitted) guard exhausted (buildPointerChain configuration start stop length chainLevel) state
      fun _ final => Calm (writeChain memory start
        (keptLinks configuration chainLevel (linearLinks start length chainLevel)) stop) final := by
  unfold buildPointerChain
  refine ensures_then (calm_extendLoop permits links _ _
    (fun _ _ _ state _ calm holds => holds state calm) 0 length calm inReach plain) ?_
  rintro last middle ⟨rfl, calm⟩
  refine calm_closeChain permits calm fun node inside => ?_
  rcases List.mem_cons.mp inside with rfl | kept
  · exact ⟨inReach, plain⟩
  · exact keptLinks_in links kept

/-- The loop of the builders with a hash function. -/
theorem calm_hashLoop (calm : Calm memory state) {first : Nat} (inReach : reach first) (plain : Plain first)
    (hash : HashFunction) (start length setBits : Nat) :
    Ensures (may admitted) guard exhausted (forRange (fun i lastChainLink => do
      let chainLink ← callHash (.to hash) start (i + 1) setBits chainLevel
      extendChain configuration chainLevel lastChainLink chainLink) 0 length first) state fun last final =>
        last = (keptLinks configuration chainLevel (hashLinks hash start length setBits chainLevel)).getLastD first ∧
          Calm (writeLinks memory first
            (keptLinks configuration chainLevel (hashLinks hash start length setBits chainLevel))) final := by
  refine calm_extendLoop permits links (fun i => hash.apply start (i + 1) setBits chainLevel) _ ?_ 0 length calm
    inReach plain
  intro index last memory state post calm holds
  refine ensures_then (calm_callHash permits calm hash start (index + 1) setBits chainLevel) ?_
  rintro _ middle ⟨rfl, calm⟩
  exact holds middle calm

theorem calm_buildPointerChainFromHash (calm : Calm memory state) {start : Nat} (inReach : reach start)
    (plain : Plain start) (hash : HashFunction) (stop length setBits : Nat) :
    Ensures (may admitted) guard exhausted
      (buildPointerChainFromHash configuration start stop length (.to hash) setBits chainLevel) state fun _ final =>
        Calm (writeChain memory start
          (keptLinks configuration chainLevel (hashLinks hash start length setBits chainLevel)) stop) final := by
  unfold buildPointerChainFromHash
  refine ensures_then (calm_hashLoop permits links calm inReach plain hash start length setBits) ?_
  rintro last middle ⟨rfl, calm⟩
  refine calm_closeChain permits calm fun node inside => ?_
  rcases List.mem_cons.mp inside with rfl | kept
  · exact ⟨inReach, plain⟩
  · exact keptLinks_in links kept

/-- The second page of the first entry comes before all hash links. -/
theorem calm_buildPointerChainFromHashSingle (calm : Calm memory state) {start second : Nat}
    (second_eq : start + (0x1 <<< pageTableIndexShift (chainLevel - 1)) = second)
    (inReach : ∀ node, node = start ∨ node = second -> reach node ∧ Plain node)
    (hash : HashFunction) (stop length setBits : Nat) :
    Ensures (may admitted) guard exhausted
      (buildPointerChainFromHashSingle configuration start stop length (.to hash) setBits chainLevel) state
      fun _ final => Calm (writeChain memory start (second ::
        keptLinks configuration chainLevel (hashLinks hash start length setBits chainLevel)) stop) final := by
  subst second_eq
  have startIn := inReach _ (Or.inl rfl)
  have secondIn := inReach _ (Or.inr rfl)
  unfold buildPointerChainFromHashSingle
  refine ensures_then (calm_writeData permits calm startIn.1 startIn.2 _) fun _ _ calm => ?_
  refine ensures_then (calm_hashLoop permits links calm secondIn.1 secondIn.2 hash start length setBits) ?_
  rintro last middle ⟨rfl, calm⟩
  rw [writeChain_cons]
  refine calm_closeChain permits calm fun node inside => ?_
  rcases List.mem_cons.mp inside with rfl | kept
  · exact secondIn
  · exact keptLinks_in links kept

end Builders

/-! ## The base window -/

theorem page_lt_windowEnd {configuration : Configuration} {level entry page : Nat} (isLevel : IsLevel level)
    (small : page < 512) (inside : entry < baseEntry level + configuration.pageTableEntries level) :
    pageAddress level entry page < windowEnd configuration level := by
  rw [windowEnd_eq isLevel, pageAddress_eq isLevel, pageAddress_eq isLevel]
  exact Nat.mul_lt_mul_of_pos_right (by omega) (Nat.two_pow_pos _)

theorem plain_of_lt {address : Nat} (below : address < huge2MBBaseAddress) : Plain address := by
  have outside : ∀ start, huge2MBBaseAddress ≤ start -> ∀ stop, ¬ (start ≤ address ∧ address < stop) :=
    fun start lower stop both => absurd both.1 (Nat.not_le.mpr (Nat.lt_of_lt_of_le below lower))
  rw [Plain, physicalSlot, if_neg (outside _ (Nat.le_refl _) _), if_neg (outside _ (by decide) _)]

theorem plain_of_inWindow {configuration : Configuration} {level address : Nat} (windows : WindowsApart configuration)
    (isLevel : IsLevel level) (inside : InWindow configuration level address) : Plain address :=
  plain_of_lt (Nat.lt_of_lt_of_le inside.2 (windows.apart level isLevel))

theorem linksIn_window {configuration : Configuration} (windows : WindowsApart configuration) {level : Nat}
    (isLevel : IsLevel level) : LinksIn configuration level (InWindow configuration level) := fun _ inside =>
  ⟨insideWindow_inWindow inside, plain_of_inWindow windows isLevel (insideWindow_inWindow inside)⟩

theorem calm_warmUp {configuration : Configuration} {level : Nat} (windows : WindowsApart configuration)
    (isLevel : IsLevel level) {admitted : Nat -> Nat -> Prop} {guard : Paging -> KernelOp -> Prop} {exhausted : Prop}
    {state : Paging} {memory : Nat -> Nat} (permits : Permits guard (InWindow configuration level))
    (calm : Calm memory state) (count : Nat) :
    Ensures (may admitted) guard exhausted (warmUp configuration level count) state fun _ final => Calm memory final := by
  refine ensures_forRange_kept (fun _ state => Calm memory state) 0 count () state calm fun _ _ _ _ _ calm => ?_
  refine ensures_then (calm_drawAddress permits calm _ level) ?_
  rintro _ _ ⟨⟨random, rfl⟩, calm⟩
  have positive := Nat.lt_of_lt_of_le (windows.drawable level isLevel) (Nat.div_le_self _ _)
  refine ensures_then (calm_access permits calm .readData (drawn_inWindow positive (Nat.le_refl _) random)) ?_
  rintro _ _ ⟨_, _, calm⟩
  exact ⟨(), Or.inl rfl, calm⟩

/-! ## Between two exchanges -/

/-- A guard that admits a traversal between two exchanges.  It may look at what has
been read so far, and so at the chain that is being followed. -/
structure Watches (guard : Paging -> KernelOp -> Prop) (reach : Nat -> Prop) : Prop where
  calm : Permits guard reach
  opens : ∀ memory state first second, Calm memory state ->
    guard state (.switchPageTableEntries (some first) (some second))
  reads : ∀ memory first second state access address, Open memory first second state -> reach address ->
    guard state (accessOp access address)
  closes : ∀ memory first second state nodes, Open memory first second state ->
    Path (shown memory) state.history.entered nodes (pageAddress first.level first.index 511) ->
    pageAddress first.level first.index 511 ∉ nodes ->
    (∀ node, node ∈ nodes -> entryOf first.level node ≠ first.index ∧ entryOf second.level node ≠ second.index) ->
    state.history.accessed = nodes ++ [pageAddress first.level first.index 511] ->
    guard state (.switchPageTableEntries (some first) (some second))
  flushes : ∀ memory first second state, Stale memory first second state -> guard state .flushMmuCaches

section Open

variable {admitted : Nat -> Nat -> Prop} {guard : Paging -> KernelOp -> Prop} {exhausted : Prop} {state : Paging}
  {memory : Nat -> Nat} {reach : Nat -> Prop} {level target complementary : Nat} (watches : Watches guard reach)

include watches

/-- An access to some address while two entries are exchanged. -/
theorem open_access {first second : EntryLocation} (opened : Open memory first second state) (access : MemoryAccess)
    {address : Nat} (inReach : reach address) :
    Ensures (may admitted) guard exhausted (access.access address) state fun value final =>
      final.history = state.history.access address value ∧ Open memory first second final :=
  ensures_access access (watches.reads _ _ _ _ access address opened inReach) fun _ _ => ⟨rfl, opened.access _ _⟩

/-- Outside the exchanged entries it shows what it showed before. -/
theorem open_access_away (opened : Open memory ⟨level, target⟩ ⟨level, complementary⟩ state) (access : MemoryAccess)
    {address : Nat} (inReach : reach address)
    (away : entryOf level address ≠ target ∧ entryOf level address ≠ complementary) :
    Ensures (may admitted) guard exhausted (access.access address) state fun value final =>
      value = shown memory address ∧ final.history = state.history.access address value ∧
        Open memory ⟨level, target⟩ ⟨level, complementary⟩ final := by
  refine ensures_access access (watches.reads _ _ _ _ access address opened inReach) fun slot inside => ?_
  rw [opened.suspects.targets_eq away.1 away.2, List.mem_singleton] at inside
  subst inside
  exact ⟨by rw [opened.memory_eq]; rfl, rfl, opened.access _ _⟩

/-- A traversal of nodes outside the exchanged entries. -/
theorem open_followChain (opened : Open memory ⟨level, target⟩ ⟨level, complementary⟩ state) (access : MemoryAccess)
    {bound start stop : Nat} {nodes : List Nat} (path : Path (shown memory) start nodes stop) (ends : stop ∉ nodes)
    (enough : nodes.length ≤ bound) (inReach : ∀ node, node ∈ nodes -> reach node)
    (away : ∀ node, node ∈ nodes -> entryOf level node ≠ target ∧ entryOf level node ≠ complementary) :
    Ensures (may admitted) guard exhausted (followChain access bound start stop) state fun p final =>
      p = stop ∧ final.history.entered = state.history.entered ∧
        final.history.accessed = state.history.accessed ++ nodes ∧
        Open memory ⟨level, target⟩ ⟨level, complementary⟩ final := by
  induction nodes generalizing state bound start with
  | nil =>
      rcases path with rfl
      rw [followChain_stop]
      exact ⟨rfl, rfl, (List.append_nil _).symm, opened⟩
  | cons node rest inductionHypothesis =>
      rcases path with ⟨rfl, path⟩
      rcases Nat.exists_eq_add_of_le' (Nat.le_trans (Nat.le_add_left 1 _) enough) with ⟨bound, rfl⟩
      have different : start ≠ stop := fun same => ends (same ▸ List.mem_cons_self)
      rw [followChain_next different]
      refine ensures_then (open_access_away watches opened access (inReach start List.mem_cons_self)
        (away start List.mem_cons_self)) ?_
      rintro _ middle ⟨rfl, visited, opened⟩
      refine (inductionHypothesis opened path (fun member => ends (List.mem_cons_of_mem _ member))
        (Nat.le_of_succ_le_succ enough) (fun later member => inReach later (List.mem_cons_of_mem _ member))
        fun later member => away later (List.mem_cons_of_mem _ member)).mono ?_
      rintro p final ⟨rfl, entered, accessed, opened⟩
      refine ⟨rfl, ?_, ?_, opened⟩
      · rw [entered, visited]
        rfl
      · rw [accessed, visited, History.access, List.append_assoc, List.singleton_append]

/-- From one exchange to the next: the traversal arrives at the last page of the
exchanged entry, and only the final access is made there. -/
theorem ensures_look {α : Type} {post : α -> Paging -> Prop} (calm : Calm memory state) (chain last : MemoryAccess)
    {bound : Nat} {nodes : List Nat}
    (path : Path (shown memory) state.history.last nodes (pageAddress level (entryOf level target) 511))
    (enough : nodes.length ≤ bound) (inReach : ∀ node, node ∈ nodes -> reach node)
    (stopInReach : reach (pageAddress level (entryOf level target) 511)) (isLevel : IsLevel level)
    (away : ∀ node, node ∈ nodes ->
      entryOf level node ≠ entryOf level target ∧ entryOf level node ≠ entryOf level complementary)
    {rest : Nat -> Kernel α}
    (holds : ∀ value final, Stale memory ⟨level, entryOf level target⟩ ⟨level, entryOf level complementary⟩ final ->
      Ensures (may admitted) guard exhausted (rest value) final post) :
    Ensures (may admitted) guard exhausted (do
      switchLevel level (walkTo target, walkTo complementary)
      let p ← followChain chain bound state.history.last (pageAddress level (entryOf level target) 511)
      let value ← last.access p
      switchLevel level (walkTo target, walkTo complementary)
      rest value) state post := by
  have ends : pageAddress level (entryOf level target) 511 ∉ nodes := fun inside =>
    (away _ inside).1 (entryOf_pageAddress isLevel (by decide))
  have opens : Ensures (may admitted) guard exhausted (switchLevel level (walkTo target, walkTo complementary)) state
      fun _ final => final.history = state.history.exchange ∧
        Open memory ⟨level, entryOf level target⟩ ⟨level, entryOf level complementary⟩ final :=
    ensures_switchLevel (watches.opens _ _ _ _ calm) ⟨rfl, calm.exchange _ _⟩
  refine ensures_then opens ?_
  rintro _ middle ⟨exchanged, opened⟩
  refine ensures_then (open_followChain watches opened chain path ends enough inReach away) ?_
  rintro _ middle ⟨rfl, entered, accessed, opened⟩
  refine ensures_then (open_access watches opened last stopInReach) ?_
  rintro value middle ⟨visited, opened⟩
  rw [exchanged] at entered accessed
  refine ensures_then (ensures_switchLevel ?_ opened.exchange) fun _ final stale => holds value final stale
  refine watches.closes _ _ _ _ nodes opened ?_ ends away ?_
  · rw [visited, History.access, entered]
    exact path
  · rw [visited, History.access, accessed]
    rfl

end Open

end Paging
end Talbot
