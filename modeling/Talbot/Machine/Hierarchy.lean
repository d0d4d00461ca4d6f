import Talbot.Foundations.LayeredCaches
import Talbot.Foundations.Responses
import Talbot.Machine.EvictionSearch

namespace Talbot

/-!
Translation caches that tell instruction fetches from data accesses.

A level has up to three caches: one for instructions, one for data, and one
behind them that both share.  A size of zero stands for a cache that is not
there.  Programs that fetch no instructions run as they do on a machine with the
data side alone.
-/

open Foundations Program

/-- A `TranslationModel` with two ways in: reads and fetches may fill and use
different caches of the same state. -/
structure PortedModel where
  State : Type
  empty : State
  access : MemoryAccess -> State -> Nat -> State
  holds : MemoryAccess -> State -> Nat -> Bool

/-- What one kind of access sees of the caches. -/
@[reducible] def PortedModel.through (model : PortedModel) (access : MemoryAccess) : TranslationModel where
  State := model.State
  empty := model.empty
  access := model.access access
  holds := model.holds access

namespace Machine

variable {model : PortedModel} {level : Nat}

/-- The same machine, seen by another kind of access. -/
def seenBy (access : MemoryAccess) (machine : Machine (model.through .readData)) : Machine (model.through access) where
  memory := machine.memory
  complementary := machine.complementary
  exchanged := machine.exchanged
  cached := machine.cached
  randoms := machine.randoms

def touchBy (access : MemoryAccess) (machine : Machine (model.through .readData)) (address : Nat) :
    Machine (model.through .readData) :=
  { machine with cached := model.access access machine.cached address }

/-- Fetching instructions is the only operation that does not use the data side. -/
def handlePorts (level : Nat) : Handler kernelInterface (Machine (model.through .readData))
  | .fetchInstruction address, machine =>
      some ((machine.seenBy .fetchInstruction).content level address, machine.touchBy .fetchInstruction address)
  | op, machine => handle level op machine

/-! ## Programs without instruction fetches -/

def NoFetch (op : KernelOp) : Prop :=
  ∀ address, op ≠ .fetchInstruction address

theorem handlePorts_eq (op : KernelOp) (machine : Machine (model.through .readData)) (noFetch : NoFetch op) :
    handle level op machine = handlePorts level op machine := by
  cases op with
  | fetchInstruction address => exact absurd rfl (noFetch address)
  | _ => rfl

theorem returns_onData {α : Type} {program : Kernel α} {machine : Machine (model.through .readData)}
    {post : α -> Machine (model.through .readData) -> Prop} (noFetch : Always NoFetch program fun _ => True)
    (returns : Returns (handle level) program machine post) : Returns (handlePorts level) program machine post :=
  noFetch.returns handlePorts_eq returns

theorem noFetch_writeData (address data : Nat) : Always NoFetch (writeData address data) fun _ => True :=
  ⟨nofun, fun _ => trivial⟩

theorem noFetch_drawAddress (modulus drawLevel : Nat) :
    Always NoFetch (drawAddress modulus drawLevel) fun _ => True :=
  ⟨nofun, fun _ => trivial⟩

theorem noFetch_walkPair (target complementary : Nat) : Always NoFetch (walkPair target complementary) fun _ => True :=
  ⟨nofun, fun _ => ⟨nofun, fun _ => ⟨nofun, fun _ => ⟨nofun, fun _ => trivial⟩⟩⟩⟩

theorem noFetch_switchLevel (switchedLevel : Nat) (walks : PageTableWalk × PageTableWalk) :
    Always NoFetch (switchLevel switchedLevel walks) fun _ => True :=
  ⟨nofun, fun _ => trivial⟩

theorem noFetch_buildPointerChain (configuration : Configuration) (startAddress endAddress length chainLevel : Nat) :
    Always NoFetch (buildPointerChain configuration startAddress endAddress length chainLevel) fun _ => True := by
  unfold buildPointerChain
  apply always_bind.mpr
  refine (always_loop fun index last => ?_).mono fun last _ => noFetch_writeData last endAddress
  unfold extendChain
  split
  · exact always_bind.mpr ((noFetch_writeData _ _).mono fun _ _ => trivial)
  · trivial

/-! ## One rule for each operation -/

section Operations

variable {machine : Machine (model.through .readData)}

theorem ports_access (access : MemoryAccess) {address : Nat} {post : Nat -> Machine (model.through .readData) -> Prop} :
    Returns (handlePorts level) (access.access address) machine post ↔
      post ((machine.seenBy access).content level address) (machine.touchBy access address) := by
  cases access with
  | readData => exact (returns_call rfl).trans (returns_ret _)
  | fetchInstruction => exact (returns_call rfl).trans (returns_ret _)

theorem ports_flush {post : Unit -> Machine (model.through .readData) -> Prop} :
    Returns (handlePorts level) flushMmuCaches machine post ↔ post () machine.flush :=
  (returns_call rfl).trans (returns_ret _)

/-- Accessing several addresses in the same way, in order. -/
def touchAllBy (access : MemoryAccess) (machine : Machine (model.through .readData)) (addresses : List Nat) :
    Machine (model.through .readData) :=
  { machine with cached := addresses.foldl (model.access access) machine.cached }

theorem ports_followChain (access : MemoryAccess) {bound start stop : Nat} {nodes : List Nat}
    {post : Nat -> Machine (model.through .readData) -> Prop} (path : Path machine.memory start nodes stop)
    (away : ∀ node, node ∈ nodes -> machine.exchanged ≠ some (entryOf level node)) (ends : stop ∉ nodes)
    (enough : nodes.length ≤ bound) (holds : post stop (machine.touchAllBy access nodes)) :
    Returns (handlePorts level) (followChain access bound start stop) machine post := by
  induction nodes generalizing machine bound start with
  | nil =>
      rcases (show start = stop from path) with rfl
      rw [followChain_stop, returns_ret]
      exact holds
  | cons node rest inductionHypothesis =>
      rcases path with ⟨rfl, path⟩
      rcases Nat.exists_eq_add_of_le' (Nat.le_trans (Nat.succ_pos rest.length) enough) with ⟨bound, rfl⟩
      have different : start ≠ stop := fun same => ends (same ▸ List.mem_cons_self)
      have current : (machine.seenBy access).content level start = machine.memory start :=
        content_eq_memory (away start List.mem_cons_self)
      rw [followChain_next different, returns_bind, ports_access, current]
      exact @inductionHypothesis (machine.touchBy access start) bound _ path
        (fun later member => away later (List.mem_cons_of_mem _ member))
        (fun member => ends (List.mem_cons_of_mem _ member)) (Nat.le_of_succ_le_succ enough) holds

end Operations

end Machine

/-! ## The caches of a level -/

/-- How many entries each cache has room for: the one of an access alone, and the
shared one.  Every cache is one fully associative list that gives up the entry used
least recently; sets, hash functions and other policies are not the subject here. -/
structure CacheSizes where
  split : MemoryAccess -> Nat
  shared : Nat

/-- What the caches hold, the entry used last first. -/
structure CacheContents where
  split : MemoryAccess -> List Nat
  shared : List Nat

namespace CacheSizes

variable (sizes : CacheSizes)

/-- The shared cache only sees what the split cache does not answer. -/
def use (access : MemoryAccess) (contents : CacheContents) (entry : Nat) : CacheContents where
  split := Function.update contents.split access (accessSet (sizes.split access) (contents.split access) entry)
  shared := if entry ∈ contents.split access then contents.shared else accessSet sizes.shared contents.shared entry

@[reducible] def model (level : Nat) : PortedModel where
  State := CacheContents
  empty := ⟨fun _ => [], []⟩
  access access contents address := sizes.use access contents (entryOf level address)
  holds access contents address :=
    decide (entryOf level address ∈ contents.split access ∨ entryOf level address ∈ contents.shared)

/-- Every cache holds distinct entries, and no more than it has room for.  All
accesses keep this, so it holds between any two experiments. -/
structure Fits (contents : CacheContents) : Prop where
  splitDistinct : ∀ access, (contents.split access).Nodup
  sharedDistinct : contents.shared.Nodup
  splitFits : ∀ access, (contents.split access).length ≤ sizes.split access
  sharedFits : contents.shared.length ≤ sizes.shared

variable {sizes} {contents : CacheContents}

theorem fits_empty : sizes.Fits ⟨fun _ => [], []⟩ :=
  ⟨fun _ => List.nodup_nil, List.nodup_nil, fun _ => Nat.zero_le _, Nat.zero_le _⟩

@[simp] theorem use_split_self (access : MemoryAccess) (entry : Nat) : (sizes.use access contents entry).split access =
    accessSet (sizes.split access) (contents.split access) entry :=
  Function.update_self _ _ _

theorem use_split_other {access other : MemoryAccess} (different : other ≠ access) (entry : Nat) :
    (sizes.use access contents entry).split other = contents.split other :=
  Function.update_of_ne different _ _

theorem use_shared (access : MemoryAccess) (entry : Nat) : (sizes.use access contents entry).shared =
    if entry ∈ contents.split access then contents.shared else accessSet sizes.shared contents.shared entry :=
  rfl

theorem Fits.use (fits : sizes.Fits contents) (access : MemoryAccess) (entry : Nat) :
    sizes.Fits (sizes.use access contents entry) where
  splitDistinct other := by
    by_cases same : other = access
    · rw [same, use_split_self]
      exact accessSet_nodup (fits.splitDistinct access) entry
    · rw [use_split_other same]
      exact fits.splitDistinct other
  sharedDistinct := by
    rw [use_shared]
    split
    · exact fits.sharedDistinct
    · exact accessSet_nodup fits.sharedDistinct entry
  splitFits other := by
    by_cases same : other = access
    · rw [same, use_split_self]
      exact accessSet_length_le _ _ _
    · rw [use_split_other same]
      exact fits.splitFits other
  sharedFits := by
    rw [use_shared]
    split
    · exact fits.sharedFits
    · exact accessSet_length_le _ _ _

/-- A burst of accesses of one kind, as the caches see it. -/
theorem foldl_use (access : MemoryAccess) (entries : List Nat) (contents : CacheContents) :
    (∀ other, other ≠ access -> (entries.foldl (sizes.use access) contents).split other = contents.split other) ∧
    (entries.foldl (sizes.use access) contents).shared =
      (passed (sizes.split access) (contents.split access) entries).foldl (accessSet sizes.shared) contents.shared := by
  induction entries generalizing contents with
  | nil => exact ⟨fun _ _ => rfl, rfl⟩
  | cons entry rest inductionHypothesis =>
      rcases inductionHypothesis (sizes.use access contents entry) with ⟨others, shared⟩
      refine ⟨fun other different => (others other different).trans (use_split_other different entry), ?_⟩
      rw [List.foldl_cons, shared, passed, use_split_self, use_shared]
      by_cases answered : entry ∈ contents.split access
      · rw [if_pos answered, if_pos answered]
      · rw [if_neg answered, if_neg answered, List.foldl_cons]

/-- The accesses that reach the shared cache decide whether it keeps an entry that
its own cache has no room for. -/
theorem mem_shared_flooded {target chain : MemoryAccess} (absent : sizes.split target = 0) (fits : sizes.Fits contents)
    {entries : List Nat} {entry : Nat} (distinct : entries.Nodup) (fresh : entry ∉ entries) :
    entry ∈ (entries.foldl (sizes.use chain) (sizes.use target contents entry)).shared ↔
      (passed (sizes.split chain) ((sizes.use target contents entry).split chain) entries).length < sizes.shared := by
  have sublist := passed_sublist (sizes.split chain) ((sizes.use target contents entry).split chain) entries
  have unknown : entry ∉ contents.split target := by
    intro known
    have room := fits.splitFits target
    rw [absent] at room
    rw [List.eq_nil_of_length_eq_zero (Nat.le_zero.mp room)] at known
    cases known
  rw [(foldl_use chain entries _).2, use_shared, if_neg unknown]
  exact mem_flooded fits.sharedDistinct (fun inside => fresh (sublist.subset inside)) (distinct.sublist sublist)

end CacheSizes

end Talbot
