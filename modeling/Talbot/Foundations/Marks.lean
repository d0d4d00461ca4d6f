import Talbot.Foundations.Responses

namespace Talbot
namespace Foundations

/-!
Programs with marks.

A mark says that something happens which the operations of the interface do not
show, such as a write to a local array.  Marks have no effect: `erase` removes
them and leaves the program that they were put into.
-/

/-- An interface with marks, which are all answered alike. -/
def Interface.marked (I : Interface) (Mark : Type) : Interface where
  Op := I.Op ⊕ Mark
  Response := Sum.elim I.Response fun _ => Unit

namespace Program

variable {I : Interface} {Mark α β : Type}

/-- Set a mark. -/
def mark (note : Mark) : Program (I.marked Mark) Unit :=
  call (Sum.inr note) ret

/-- A program that sets no marks. -/
def lift : Program I α -> Program (I.marked Mark) α
  | ret value => ret value
  | call op next => call (Sum.inl op) fun response => (next response).lift
  | stuck => stuck

/-- The program without its marks.  Marks are answered by nothing, so erasing them
changes neither the operations nor the result. -/
def erase : Program (I.marked Mark) α -> Program I α
  | ret value => ret value
  | call (Sum.inl op) next => call op fun response => (next response).erase
  | call (Sum.inr _) next => (next ()).erase
  | stuck => stuck

@[simp] theorem erase_ret (value : α) : (ret value : Program (I.marked Mark) α).erase = ret value :=
  rfl

@[simp] theorem erase_mark (note : Mark) : (mark note : Program (I.marked Mark) Unit).erase = ret () :=
  rfl

@[simp] theorem erase_lift (program : Program I α) : (program.lift : Program (I.marked Mark) α).erase = program := by
  induction program with
  | ret value => rfl
  | call op next inductionHypothesis => exact congrArg (call op) (funext inductionHypothesis)
  | stuck => rfl

@[simp] theorem erase_bind (program : Program (I.marked Mark) α) (continuation : α -> Program (I.marked Mark) β) :
    (program >>= continuation).erase = program.erase >>= fun value => (continuation value).erase := by
  induction program with
  | ret value => rfl
  | call op next inductionHypothesis =>
      cases op with
      | inl op => exact congrArg (call op) (funext inductionHypothesis)
      | inr note => exact inductionHypothesis ()
  | stuck => rfl

/-! ## Guards on marks -/

/-- Whatever the responses are, only allowed marks are set, and every result
satisfies `post`. -/
def KeepsMarks (allowed : Mark -> Prop) (program : Program (I.marked Mark) α) (post : α -> Prop) : Prop :=
  Always (Sum.elim (fun _ => True) allowed) program post

section KeepsMarks

variable {allowed : Mark -> Prop}

@[simp] theorem keepsMarks_ret {value : α} {post : α -> Prop} :
    KeepsMarks allowed (ret value : Program (I.marked Mark) α) post ↔ post value :=
  Iff.rfl

@[simp] theorem keepsMarks_mark {note : Mark} {post : Unit -> Prop} :
    KeepsMarks allowed (mark note : Program (I.marked Mark) Unit) post ↔ allowed note ∧ post () :=
  and_congr_right fun _ => ⟨fun always => always (), fun holds _ => holds⟩

theorem keepsMarks_bind {program : Program (I.marked Mark) α} {continuation : α -> Program (I.marked Mark) β}
    {post : β -> Prop} :
    KeepsMarks allowed (program >>= continuation) post ↔
      KeepsMarks allowed program fun value => KeepsMarks allowed (continuation value) post :=
  always_bind

theorem KeepsMarks.mono {program : Program (I.marked Mark) α} {post weaker : α -> Prop}
    (keeps : KeepsMarks allowed program post) (weaken : ∀ value, post value -> weaker value) :
    KeepsMarks allowed program weaker :=
  Always.mono keeps weaken

theorem keepsMarks_lift {program : Program I α} {post : α -> Prop} :
    KeepsMarks allowed (program.lift : Program (I.marked Mark) α) post ↔ Always (fun _ => True) program post := by
  induction program with
  | ret value => rfl
  | call op next inductionHypothesis => exact and_congr_right fun _ => forall_congr' inductionHypothesis
  | stuck => rfl

/-- A program without marks may be followed by anything that always keeps them. -/
theorem keepsMarks_then {program : Program I α} {continuation : α -> Program (I.marked Mark) β} {post : β -> Prop}
    (rest : ∀ value, KeepsMarks allowed (continuation value) post) :
    KeepsMarks allowed (program.lift >>= continuation) post :=
  keepsMarks_bind.mpr (keepsMarks_lift.mpr ((always_trivial program).mono fun value _ => rest value))

/-- The rest of a program keeps the marks wherever its first part may end. -/
theorem KeepsMarks.rest {program : Program (I.marked Mark) α} {continuation : α -> Program (I.marked Mark) β}
    {post : β -> Prop} {possible : α -> Prop} (keeps : KeepsMarks allowed (program >>= continuation) post)
    (possibly : Possibly program possible) :
    ∃ value, possible value ∧ KeepsMarks allowed (continuation value) post := by
  rcases (keepsMarks_bind.mp keeps).of_possibly possibly with ⟨value, holds, possible⟩
  exact ⟨value, possible, holds⟩

end KeepsMarks

@[simp] theorem possibly_mark {note : Mark} {post : Unit -> Prop} :
    Possibly (mark note : Program (I.marked Mark) Unit) post ↔ post () :=
  ⟨fun ⟨_, holds⟩ => holds, fun holds => ⟨(), holds⟩⟩

theorem possibly_lift {program : Program I α} {post : α -> Prop} :
    Possibly (program.lift : Program (I.marked Mark) α) post ↔ Possibly program post := by
  induction program with
  | ret value => rfl
  | call op next inductionHypothesis => exact exists_congr inductionHypothesis
  | stuck => rfl

end Program
end Foundations
end Talbot
