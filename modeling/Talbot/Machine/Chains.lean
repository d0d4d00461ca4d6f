import Talbot.Foundations.Traces
import Talbot.Machine.CacheMachine

namespace Talbot

/-!
What the chain builders leave in memory, and what following a chain accesses.

A builder writes a prefix of its candidate links, up to the first one outside
the base window.  Following a chain whose nodes avoid the exchanged entry reads
exactly its nodes, whatever the translation caches hold.
-/

open Foundations Program

namespace Machine

variable {model : TranslationModel} {level : Nat} {machine : Machine model}

theorem content_eq_memory {address : Nat} (away : machine.exchanged ≠ some (entryOf level address)) :
    machine.content level address = machine.memory address := by
  have kept : machine.diverted level address = false := by
    unfold diverted
    rw [beq_eq_false_iff_ne.mpr away, Bool.false_and]
  rw [content, kept]
  rfl

theorem content_of_idle {address : Nat} (idle : machine.exchanged = none) :
    machine.content level address = machine.memory address :=
  content_eq_memory (idle ▸ (Option.some_ne_none _).symm)

/-- Reading the exchanged entry shows whether its old translation survived. -/
theorem content_exchanged {address : Nat} (exchanged : machine.exchanged = some (entryOf level address)) :
    machine.content level address =
      if model.holds machine.cached address then machine.memory address
      else machine.complementary address := by
  unfold content diverted
  rw [exchanged, beq_self_eq_true, Bool.true_and]
  cases model.holds machine.cached address <;> rfl

theorem store_idle (idle : machine.exchanged = none) (address data : Nat) :
    machine.store level address data =
      { machine with memory := Function.update machine.memory address data } := by
  unfold store diverted
  rw [idle]
  rfl

/-- Following a chain accesses its nodes in order and ends at `stop`. -/
theorem returns_followChain (access : MemoryAccess) {bound start stop : Nat} {nodes : List Nat}
    {post : Nat -> Machine model -> Prop}
    (path : Path machine.memory start nodes stop)
    (away : ∀ node, node ∈ nodes -> machine.exchanged ≠ some (entryOf level node))
    (ends : stop ∉ nodes) (enough : nodes.length ≤ bound) (holds : post stop (machine.touchAll nodes)) :
    Returns (handle level) (followChain access bound start stop) machine post := by
  induction nodes generalizing machine bound start with
  | nil =>
      obtain rfl : start = stop := path
      rw [followChain_stop, returns_ret]
      exact holds
  | cons node rest inductionHypothesis =>
      obtain ⟨rfl, path⟩ := path
      obtain ⟨bound, rfl⟩ : ∃ smaller, bound = smaller + 1 := ⟨bound - 1, by
        rw [List.length_cons] at enough
        omega⟩
      have different : start ≠ stop := fun same => ends (same ▸ List.mem_cons_self)
      have current := content_eq_memory (away start List.mem_cons_self)
      rw [followChain_next different, returns_bind, returns_access, current]
      have rest : Path (machine.touch start).memory (machine.memory start) rest stop := path
      exact inductionHypothesis rest (fun later member => away later (List.mem_cons_of_mem _ member))
        (fun member => ends (List.mem_cons_of_mem _ member)) (Nat.le_of_succ_le_succ enough) holds

/-- Following a chain by reads issues one read for each node, in order, and nothing else. -/
theorem traces_followChain {bound start stop : Nat} {nodes : List Nat}
    (idle : machine.exchanged = none) (path : Path machine.memory start nodes stop) (ends : stop ∉ nodes)
    (enough : nodes.length ≤ bound) :
    Traces (handle level) (followChain .readData bound start stop) machine fun p final issued =>
      p = stop ∧ final = machine.touchAll nodes ∧ issued = nodes.map KernelOp.readData := by
  induction nodes generalizing machine bound start with
  | nil =>
      rcases (show start = stop from path) with rfl
      rw [followChain_stop]
      exact ⟨rfl, rfl, rfl⟩
  | cons node rest inductionHypothesis =>
      rcases path with ⟨rfl, path⟩
      rcases Nat.exists_eq_add_of_le' (Nat.le_trans (Nat.succ_pos rest.length) enough) with ⟨bound, rfl⟩
      have different : start ≠ stop := fun same => ends (same ▸ List.mem_cons_self)
      have later := @inductionHypothesis (machine.touch start) bound _ idle path
        (fun inside => ends (List.mem_cons_of_mem _ inside)) (Nat.le_of_succ_le_succ enough)
      rw [followChain_next different]
      refine ⟨_, _, rfl, ?_⟩
      rw [content_of_idle idle]
      apply later.mono
      rintro p final issued ⟨rfl, rfl, rfl⟩
      exact ⟨rfl, rfl, rfl⟩

/-! ## Builders -/

/-- Writing memory while nothing is exchanged changes the memory and the
caches, and nothing else. -/
structure Rewritten (before after : Machine model) (memory : Nat -> Nat) : Prop where
  memory_eq : after.memory = memory
  complementary_eq : after.complementary = before.complementary
  idle : after.exchanged = none
  randoms_eq : after.randoms = before.randoms

theorem returns_writeData_idle (idle : machine.exchanged = none) {address data : Nat} :
    Returns (handle level) (writeData address data) machine fun _ final =>
      Rewritten machine final (Function.update machine.memory address data) := by
  rw [returns_writeData, store_idle idle]
  exact ⟨rfl, rfl, idle, rfl⟩

variable (configuration : Configuration)

/-- The links a builder keeps of its candidates. -/
def keptLinks (chainLevel : Nat) (candidates : List Nat) : List Nat :=
  candidates.takeWhile (insideWindow configuration chainLevel)

/-- The loop that all builders share, for any source of candidate links. -/
theorem returns_extendLoop (chainLevel : Nat) (link : Nat -> Nat)
    (body : Nat -> Nat -> Kernel (Iteration Nat))
    (bodyExtends : ∀ index last (state : Machine model) (post : Iteration Nat -> Machine model -> Prop),
      Returns (handle level) (body index last) state post ↔
        Returns (handle level) (extendChain configuration chainLevel last (link index)) state post)
    (start count first : Nat) (machine : Machine model) (idle : machine.exchanged = none) :
    Returns (handle level) (forRange body start count first) machine fun last final =>
      let links := keptLinks configuration chainLevel ((List.range' start count).map link)
      last = links.getLastD first ∧
        Rewritten machine final (writeLinks machine.memory first links) := by
  induction count generalizing start first machine with
  | zero =>
      rw [forRange, returns_ret]
      exact ⟨rfl, rfl, rfl, idle, rfl⟩
  | succ count inductionHypothesis =>
      rw [forRange, returns_bind, bodyExtends]
      unfold extendChain
      have candidates : (List.range' start (count + 1)).map link =
          link start :: (List.range' (start + 1) count).map link := by
        rw [List.range'_succ, List.map_cons]
      cases inside : insideWindow configuration chainLevel (link start) with
      | false =>
          have none_kept : keptLinks configuration chainLevel ((List.range' start (count + 1)).map link) = [] := by
            rw [candidates, keptLinks, List.takeWhile_cons_of_neg (by rw [inside]; exact Bool.false_ne_true)]
          simp only [Bool.false_eq_true, if_false, none_kept]
          exact (returns_ret _).mpr ((returns_ret _).mpr ⟨rfl, rfl, rfl, idle, rfl⟩)
      | true =>
          have kept : keptLinks configuration chainLevel ((List.range' start (count + 1)).map link) =
              link start :: keptLinks configuration chainLevel ((List.range' (start + 1) count).map link) := by
            rw [candidates, keptLinks, List.takeWhile_cons_of_pos inside]
            rfl
          simp only [if_true, kept, returns_bind]
          apply (returns_writeData_idle idle).mono
          intro _ middle written
          refine (returns_ret _).mpr ?_
          apply (inductionHypothesis (start + 1) (link start) middle written.idle).mono
          rintro last final ⟨rfl, rewritten⟩
          rw [List.getLastD_cons, writeLinks, ← written.memory_eq]
          exact ⟨rfl, rewritten.memory_eq, rewritten.complementary_eq.trans written.complementary_eq,
            rewritten.idle, rewritten.randoms_eq.trans written.randoms_eq⟩

/-- Closing the chain after the loop. -/
theorem returns_closeChain {first stop : Nat} {links : List Nat} (before middle : Machine model)
    (written : Rewritten before middle (writeLinks before.memory first links)) :
    Returns (handle level) (writeData (links.getLastD first) stop) middle fun _ final =>
      Rewritten before final (writeChain before.memory first links stop) := by
  apply (returns_writeData_idle written.idle).mono
  intro _ final closed
  refine ⟨?_, closed.complementary_eq.trans written.complementary_eq, closed.idle,
    closed.randoms_eq.trans written.randoms_eq⟩
  rw [closed.memory_eq, written.memory_eq, writeChain]

/-- The candidate links of `build_pointer_chain`. -/
def linearLinks (startAddress length chainLevel : Nat) : List Nat :=
  (List.range' 0 length).map fun i => startAddress + ((i + 1) <<< pageTableIndexShift chainLevel)

/-- The candidate links of the two hash builders. -/
def hashLinks (hash : HashFunction) (startAddress length setBits chainLevel : Nat) : List Nat :=
  (List.range' 0 length).map fun i => hash.apply startAddress (i + 1) setBits chainLevel

theorem returns_buildPointerChain (startAddress endAddress length chainLevel : Nat)
    (idle : machine.exchanged = none) :
    Returns (handle level) (buildPointerChain configuration startAddress endAddress length chainLevel)
      machine fun _ final =>
        Rewritten machine final (writeChain machine.memory startAddress
          (keptLinks configuration chainLevel (linearLinks startAddress length chainLevel)) endAddress) := by
  unfold buildPointerChain
  rw [returns_bind]
  apply (returns_extendLoop configuration chainLevel _ _ (fun _ _ _ _ => Iff.rfl) 0 length startAddress
    machine idle).mono
  rintro last middle ⟨rfl, written⟩
  exact returns_closeChain machine middle written

theorem returns_buildPointerChainFromHash (hash : HashFunction)
    (startAddress endAddress length setBits chainLevel : Nat) (idle : machine.exchanged = none) :
    Returns (handle level) (buildPointerChainFromHash configuration startAddress endAddress length
      (.to hash) setBits chainLevel) machine fun _ final =>
        Rewritten machine final (writeChain machine.memory startAddress
          (keptLinks configuration chainLevel (hashLinks hash startAddress length setBits chainLevel))
          endAddress) := by
  unfold buildPointerChainFromHash
  rw [returns_bind]
  apply (returns_extendLoop configuration chainLevel
    (fun i => hash.apply startAddress (i + 1) setBits chainLevel) _
    (fun index last state post => by rw [returns_bind, returns_callHash]) 0 length startAddress
    machine idle).mono
  rintro last middle ⟨rfl, written⟩
  exact returns_closeChain machine middle written

/-- The second page of the first entry comes before all hash links. -/
theorem returns_buildPointerChainFromHashSingle (hash : HashFunction)
    (startAddress endAddress length setBits chainLevel : Nat) (idle : machine.exchanged = none) :
    Returns (handle level) (buildPointerChainFromHashSingle configuration startAddress endAddress length
      (.to hash) setBits chainLevel) machine fun _ final =>
        Rewritten machine final (writeChain machine.memory startAddress
          ((startAddress + (0x1 <<< pageTableIndexShift (chainLevel - 1))) ::
            keptLinks configuration chainLevel (hashLinks hash startAddress length setBits chainLevel))
          endAddress) := by
  unfold buildPointerChainFromHashSingle
  rw [returns_bind]
  apply (returns_writeData_idle idle).mono
  intro _ second opened
  rw [returns_bind]
  apply (returns_extendLoop configuration chainLevel
    (fun i => hash.apply startAddress (i + 1) setBits chainLevel) _
    (fun index last state post => by rw [returns_bind, returns_callHash]) 0 length _
    second opened.idle).mono
  rintro last middle ⟨rfl, written⟩
  apply (returns_closeChain second middle written).mono
  intro _ final closed
  refine ⟨?_, closed.complementary_eq.trans opened.complementary_eq, closed.idle,
    closed.randoms_eq.trans opened.randoms_eq⟩
  rw [closed.memory_eq, opened.memory_eq, writeChain_cons]
  rfl

end Machine
end Talbot
