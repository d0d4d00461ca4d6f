import Talbot.Foundations.Behaviours
import Talbot.Kernel.PointerChasing

namespace Talbot

/-!
Machines about which nothing is known but their allocator and the hash functions.

Every access may return any word, so the measurements of an experiment can be
anything.  A call through a pointer that was never set does not return.
-/

open Foundations Program

/-- `fresh` says what an allocation may hold. -/
def answers (fresh : (Nat -> Nat) -> Prop) : Behaviour kernelInterface Unit :=
  fun op _ response _ =>
    match op, response with
    | .kmalloc, response => fresh response
    | .callHash pointer target offset setBits level, response =>
        ∃ hash, pointer = .to hash ∧ response = hash.apply target offset setBits level
    | _, _ => True

/-- Programs whose measurements can be anything. -/
abbrev Measures (fresh : (Nat -> Nat) -> Prop) {α : Type} (program : Kernel α) (post : α -> Prop) : Prop :=
  Ensures (answers fresh) (fun _ _ => True) True program () fun value _ => post value

section Measures

variable {fresh : (Nat -> Nat) -> Prop}

theorem measures_bind {α β : Type} {program : Kernel α} {continuation : α -> Kernel β} {post : β -> Prop} :
    Measures fresh (program >>= continuation) post ↔
      Measures fresh program fun value => Measures fresh (continuation value) post :=
  ensures_bind

theorem measures_then {α β : Type} {program : Kernel α} {continuation : α -> Kernel β} {post : β -> Prop}
    (rest : ∀ value, Measures fresh (continuation value) post) :
    Measures fresh (program >>= continuation) post :=
  measures_bind.mpr ((ensures_trivial program).mono fun value _ _ => rest value)

theorem measures_kmalloc {post : (Nat -> Nat) -> Prop} :
    Measures fresh kmalloc post ↔ ∀ array, fresh array -> post array :=
  ⟨fun measures array allowed => measures.2 array () allowed, fun holds =>
    ⟨trivial, fun array _ allowed => holds array allowed⟩⟩

theorem measures_callHash {hash : HashFunction} {target offset setBits level : Nat} {post : Nat -> Prop} :
    Measures fresh (callHash (.to hash) target offset setBits level) post ↔
      post (hash.apply target offset setBits level) := by
  constructor
  · intro measures
    exact measures.2 _ () ⟨hash, rfl, rfl⟩
  · rintro holds
    refine ⟨trivial, ?_⟩
    rintro response _ ⟨_, same, rfl⟩
    cases same
    exact holds

theorem measures_drawAddress {modulus level : Nat} {post : Nat -> Prop}
    (holds : ∀ random, post (baseAddress + ((random % modulus) <<< pageTableIndexShift level))) :
    Measures fresh (drawAddress modulus level) post :=
  ⟨trivial, fun random _ _ => holds random⟩

end Measures

/-! ## Runs that exist -/

/-- Some answers make the program return with `post`. -/
abbrev Attains (fresh : (Nat -> Nat) -> Prop) {α : Type} (program : Kernel α) (post : α -> Prop) : Prop :=
  Reaches (answers fresh) program () fun value _ => post value

section Attains

variable {fresh : (Nat -> Nat) -> Prop}

theorem attains_bind {α β : Type} {program : Kernel α} {continuation : α -> Kernel β} {post : β -> Prop} :
    Attains fresh (program >>= continuation) post ↔
      Attains fresh program fun value => Attains fresh (continuation value) post :=
  reaches_bind

theorem attains_then {α β : Type} {program : Kernel α} {continuation : α -> Kernel β} {post : β -> Prop}
    (first : Attains fresh program fun _ => True) (rest : ∀ value, Attains fresh (continuation value) post) :
    Attains fresh (program >>= continuation) post :=
  attains_bind.mpr (first.mono fun value _ _ => rest value)

theorem attains_readData (address value : Nat) : Attains fresh (readData address) fun result => result = value :=
  ⟨value, (), trivial, rfl⟩

theorem attains_writeData (address data : Nat) : Attains fresh (writeData address data) fun _ => True :=
  ⟨(), (), trivial, trivial⟩

theorem attains_flushMmuCaches : Attains fresh flushMmuCaches fun _ => True :=
  ⟨(), (), trivial, trivial⟩

theorem attains_enter (user : StructureUser) (cache : TranslationCache) (level : Nat) :
    Attains fresh (enter user cache level) fun _ => True :=
  ⟨(), (), trivial, trivial⟩

theorem attains_switchLevel (level : Nat) (walks : PageTableWalk × PageTableWalk) :
    Attains fresh (switchLevel level walks) fun _ => True :=
  ⟨(), (), trivial, trivial⟩

theorem attains_walkPageTable (address : Nat) : Attains fresh (walkPageTable address) fun _ => True :=
  ⟨⟨fun _ => none⟩, (), trivial, trivial⟩

theorem attains_clearNx (walk : PageTableWalk) : Attains fresh (clearNx walk) fun _ => True :=
  ⟨(), (), trivial, trivial⟩

theorem attains_walkPair (target complementary : Nat) : Attains fresh (walkPair target complementary) fun _ => True := by
  refine attains_then (attains_walkPageTable _) fun _ => attains_then (attains_walkPageTable _) fun _ => ?_
  exact attains_then (attains_clearNx _) fun _ => attains_then (attains_clearNx _) fun _ => trivial

theorem attains_kmalloc {array : Nat -> Nat} (allowed : fresh array) :
    Attains fresh kmalloc fun result => result = array :=
  ⟨array, (), allowed, rfl⟩

theorem attains_callHash (hash : HashFunction) (target offset setBits level : Nat) :
    Attains fresh (callHash (.to hash) target offset setBits level) fun result =>
      result = hash.apply target offset setBits level :=
  ⟨_, (), ⟨hash, rfl, rfl⟩, rfl⟩

theorem attains_drawAddress (modulus level random : Nat) :
    Attains fresh (drawAddress modulus level) fun result =>
      result = baseAddress + ((random % modulus) <<< pageTableIndexShift level) :=
  ⟨random, (), trivial, rfl⟩

/-- A loop can end if its body can, whether it breaks or not. -/
theorem attains_loop {α : Type} {body : Nat -> α -> Kernel (Iteration α)} {start count : Nat} {value : α}
    (ends : ∀ index value, Attains fresh (body index value) fun _ => True) :
    Attains fresh (forRange body start count value) fun _ => True := by
  induction count generalizing start value with
  | zero => trivial
  | succ count inductionHypothesis =>
      rw [forRange]
      apply attains_then (ends start value)
      intro iteration
      cases iteration with
      | next value => exact inductionHypothesis
      | done value => trivial

/-- An access can return any word. -/
theorem attains_access (access : MemoryAccess) (address value : Nat) :
    Attains fresh (access.access address) fun result => result = value := by
  cases access <;> exact ⟨value, (), trivial, rfl⟩

/-- A traversal can arrive at once. -/
theorem attains_followChain {access : MemoryAccess} {bound : Nat} (positive : 1 ≤ bound) (start stop : Nat) :
    Attains fresh (followChain access bound start stop) fun result => result = stop := by
  rcases Nat.exists_eq_add_of_le positive with ⟨bound, rfl⟩
  rw [Nat.add_comm]
  by_cases arrived : start = stop
  · rw [arrived, followChain_stop]
    rfl
  · rw [followChain_next arrived]
    refine attains_bind.mpr ((attains_access access start stop).mono ?_)
    rintro _ _ rfl
    rw [followChain_stop]
    rfl

theorem attains_extendChain (configuration : Configuration) (level lastChainLink chainLink : Nat) :
    Attains fresh (extendChain configuration level lastChainLink chainLink) fun _ => True := by
  unfold extendChain
  split
  · exact attains_then (attains_writeData _ _) fun _ => trivial
  · trivial

theorem attains_buildPointerChainFromHashSingle (configuration : Configuration) (hash : HashFunction)
    (startAddress endAddress length setBits level : Nat) :
    Attains fresh (buildPointerChainFromHashSingle configuration startAddress endAddress length (.to hash) setBits
      level) fun _ => True := by
  unfold buildPointerChainFromHashSingle
  refine attains_then (attains_writeData _ _) fun _ => attains_then (attains_loop fun index link => ?_)
    fun _ => attains_writeData _ _
  exact attains_then ((attains_callHash hash _ _ _ _).mono fun _ _ _ => trivial) fun _ =>
    attains_extendChain configuration _ _ _

end Attains

end Talbot
