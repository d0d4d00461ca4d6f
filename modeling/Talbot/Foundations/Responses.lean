import Talbot.Foundations.Program

namespace Talbot
namespace Foundations

/-!
Programs under arbitrary responses.

`Always` holds of a program whatever the machine responds, `Possibly` for some
choice of the responses.  The two meet where a program can issue an operation
that it must not issue: if the first part of a program can end in a value, the
rest has to be safe for that value.
-/

namespace Program

variable {I : Interface} {α β : Type} {guard : I.Op -> Prop}

/-- Whatever the responses are, every operation satisfies `guard` and every
result satisfies `post`. -/
def Always (guard : I.Op -> Prop) : Program I α -> (α -> Prop) -> Prop
  | ret value, post => post value
  | call op next, post => guard op ∧ ∀ response, (next response).Always guard post
  | stuck, _ => True

/-- For some responses the program ends with a result that satisfies `post`. No
machine is involved, so this says what a program can do and not what it will do on a
given one. -/
def Possibly : Program I α -> (α -> Prop) -> Prop
  | ret value, post => post value
  | call _ next, post => ∃ response, (next response).Possibly post
  | stuck, _ => False

section Always

@[simp] theorem always_ret {value : α} {post : α -> Prop} :
    Always guard (ret value : Program I α) post ↔ post value :=
  Iff.rfl

theorem always_bind {program : Program I α} {continuation : α -> Program I β} {post : β -> Prop} :
    Always guard (program >>= continuation) post ↔
      Always guard program fun value => Always guard (continuation value) post := by
  induction program with
  | ret value => rfl
  | call op next inductionHypothesis =>
      rw [call_bind]
      exact and_congr_right fun _ => forall_congr' inductionHypothesis
  | stuck => rfl

theorem Always.mono {program : Program I α} {post weaker : α -> Prop} (always : Always guard program post)
    (weaken : ∀ value, post value -> weaker value) : Always guard program weaker := by
  induction program with
  | ret value => exact weaken value always
  | call op next inductionHypothesis =>
      exact ⟨always.1, fun response => inductionHypothesis response (always.2 response)⟩
  | stuck => trivial

/-- Without a guard every program ends with some result, if it ends. -/
theorem always_trivial (program : Program I α) : Always (fun _ => True) program fun _ => True := by
  induction program with
  | ret value => trivial
  | call op next inductionHypothesis => exact ⟨trivial, inductionHypothesis⟩
  | stuck => trivial

theorem always_forRange {body : Nat -> α -> Program I (Iteration α)} (invariant : Nat -> α -> Prop)
    (start count : Nat) (value : α) (initially : invariant start value)
    (step : ∀ index value, start ≤ index -> index < start + count -> invariant index value ->
      Always guard (body index value) fun iteration =>
        match iteration with
        | .next value => invariant (index + 1) value
        | .done value => invariant (start + count) value) :
    Always guard (forRange body start count value) (invariant (start + count)) := by
  induction count generalizing start value with
  | zero => exact initially
  | succ count inductionHypothesis =>
      have ending : start + (count + 1) = start + 1 + count := by omega
      rw [forRange, always_bind]
      apply (step start value (Nat.le_refl _) (by omega) initially).mono
      intro iteration holds
      cases iteration with
      | next value =>
          rw [ending]
          apply inductionHypothesis (start + 1) value holds
          intro index value lower upper
          rw [← ending]
          exact step index value (by omega) (by omega)
      | done value => exact holds

theorem always_whileLoop {condition : α -> Bool} {body : α -> Program I α} (invariant : α -> Prop)
    (bound : Nat) (value : α) (initially : invariant value)
    (step : ∀ value, invariant value -> Always guard (body value) invariant) :
    Always guard (whileLoop condition body bound value) invariant := by
  induction bound generalizing value with
  | zero =>
      rw [whileLoop]
      cases condition value with
      | true => trivial
      | false => exact initially
  | succ bound inductionHypothesis =>
      rw [whileLoop]
      cases condition value with
      | true =>
          rw [if_pos rfl, always_bind]
          exact (step value initially).mono inductionHypothesis
      | false => exact initially

/-- Loops whose body is safe at every value. -/
theorem always_loop {body : Nat -> α -> Program I (Iteration α)} {start count : Nat} {value : α}
    (safe : ∀ index value, Always guard (body index value) fun _ => True) :
    Always guard (forRange body start count value) fun _ => True := by
  apply always_forRange (fun _ _ => True) start count value trivial
  intro index value _ _ _
  exact (safe index value).mono fun iteration _ => by cases iteration <;> trivial

theorem always_while {condition : α -> Bool} {body : α -> Program I α} {bound : Nat} {value : α}
    (safe : ∀ value, Always guard (body value) fun _ => True) :
    Always guard (whileLoop condition body bound value) fun _ => True :=
  always_whileLoop (fun _ => True) bound value trivial fun value _ => safe value

end Always

section Possibly

theorem possibly_bind {program : Program I α} {continuation : α -> Program I β} {post : β -> Prop} :
    Possibly (program >>= continuation) post ↔
      Possibly program fun value => Possibly (continuation value) post := by
  induction program with
  | ret value => rfl
  | call op next inductionHypothesis =>
      rw [call_bind]
      exact exists_congr inductionHypothesis
  | stuck => rfl

theorem Possibly.mono {program : Program I α} {post weaker : α -> Prop} (possibly : Possibly program post)
    (weaken : ∀ value, post value -> weaker value) : Possibly program weaker := by
  induction program with
  | ret value => exact weaken value possibly
  | call op next inductionHypothesis =>
      rcases possibly with ⟨response, possibly⟩
      exact ⟨response, inductionHypothesis response possibly⟩
  | stuck => exact possibly

theorem possibly_forRange {body : Nat -> α -> Program I (Iteration α)} (invariant : Nat -> α -> Prop)
    (start count : Nat) (value : α) (initially : invariant start value)
    (step : ∀ index value, start ≤ index -> index < start + count -> invariant index value ->
      Possibly (body index value) fun iteration =>
        ∃ value, iteration = .next value ∧ invariant (index + 1) value) :
    Possibly (forRange body start count value) (invariant (start + count)) := by
  induction count generalizing start value with
  | zero => exact initially
  | succ count inductionHypothesis =>
      rw [forRange, possibly_bind, show start + (count + 1) = start + 1 + count by omega]
      apply (step start value (Nat.le_refl _) (by omega) initially).mono
      rintro iteration ⟨value, rfl, holds⟩
      apply inductionHypothesis (start + 1) value holds
      intro index value lower upper
      exact step index value (by omega) (by omega)

/-- A loop can end if its body can, whether it breaks or not. -/
theorem possibly_loop {body : Nat -> α -> Program I (Iteration α)} {start count : Nat} {value : α}
    (ends : ∀ index value, Possibly (body index value) fun _ => True) :
    Possibly (forRange body start count value) fun _ => True := by
  induction count generalizing start value with
  | zero => trivial
  | succ count inductionHypothesis =>
      rw [forRange, possibly_bind]
      apply (ends start value).mono
      intro iteration _
      cases iteration with
      | next value => exact inductionHypothesis
      | done value => trivial

/-- A possible result also satisfies what always holds. -/
theorem Always.of_possibly {program : Program I α} {post possible : α -> Prop}
    (always : Always guard program post) (possibly : Possibly program possible) :
    ∃ value, post value ∧ possible value := by
  induction program with
  | ret value => exact ⟨value, always, possibly⟩
  | call op next inductionHypothesis =>
      rcases possibly with ⟨response, possibly⟩
      exact inductionHypothesis response (always.2 response) possibly
  | stuck => exact possibly.elim

/-- An iteration that a safe loop can reach is safe. -/
theorem Always.forRange_body {body : Nat -> α -> Program I (Iteration α)} (invariant : Nat -> α -> Prop)
    {start count : Nat} {value : α} {post : α -> Prop}
    (always : Always guard (forRange body start count value) post) (initially : invariant start value)
    (step : ∀ index value, start ≤ index -> index < start + count -> invariant index value ->
      Possibly (body index value) fun iteration =>
        ∃ value, iteration = .next value ∧ invariant (index + 1) value)
    (index : Nat) (lower : start ≤ index) (upper : index < start + count) :
    ∃ value, invariant index value ∧ Always guard (body index value) fun _ => True := by
  induction count generalizing start value with
  | zero => exact absurd upper (Nat.not_lt.mpr lower)
  | succ count inductionHypothesis =>
      rw [forRange, always_bind] at always
      rcases Nat.eq_or_lt_of_le lower with rfl | later
      · exact ⟨value, initially, always.mono fun _ _ => trivial⟩
      · have ending : start + (count + 1) = start + 1 + count := by omega
        rw [ending] at upper step
        rcases always.of_possibly (step start value (Nat.le_refl _) (by omega) initially) with
          ⟨iteration, rest, next, rfl, holds⟩
        exact inductionHypothesis rest holds
          (fun index value lower => step index value (Nat.le_of_succ_le lower)) later upper

end Possibly

/-- Machines that agree on the operations of a program run it the same. -/
theorem Always.returns {σ : Type} {handler other : Handler I σ} {program : Program I α} {state : σ}
    {post : α -> σ -> Prop} (always : Always guard program fun _ => True)
    (agree : ∀ op state, guard op -> handler op state = other op state)
    (returns : Returns handler program state post) : Returns other program state post := by
  induction program generalizing state with
  | ret value => exact returns
  | call op next inductionHypothesis =>
      rcases returns with ⟨value, final, same, holds⟩
      rw [run] at same
      cases handled : handler op state with
      | none =>
          rw [handled] at same
          cases same
      | some result =>
          rw [handled] at same
          apply (returns_call ((agree op state always.1).symm.trans handled)).mpr
          exact inductionHypothesis result.1 (always.2 result.1) ⟨value, final, same, holds⟩
  | stuck =>
      rcases returns with ⟨value, final, impossible, _⟩
      cases impossible

/-- A program that returns on a machine without operations is a value. -/
theorem Returns.eq_ret {σ : Type} {program : Program I α} {state : σ} {post : α -> σ -> Prop}
    (returns : Returns (fun _ _ => none) program state post) :
    ∃ value, program = ret value ∧ post value state := by
  rcases returns with ⟨value, final, same, holds⟩
  cases program with
  | ret value' =>
      cases same
      exact ⟨_, rfl, holds⟩
  | call op next => cases same
  | stuck => cases same

/-! ## On machines -/

/-- A machine that gives one response and then continues as another one. -/
private noncomputable def firstResponse {σ : Type} (handler : Handler I σ) (op : I.Op) (response : I.Response op)
    (state : σ) : Handler I (Option σ) := by
  classical
  exact fun op' current =>
    match current with
    | none => if same : op = op' then some (same ▸ response, some state) else none
    | some state => (handler op' state).map fun result => (result.1, some result.2)

private theorem issued_firstResponse {σ : Type} (handler : Handler I σ) (op : I.Op) (response : I.Response op)
    (state current : σ) (program : Program I α) :
    (program.issued (firstResponse handler op response state) (some current)).map Prod.snd =
      (program.issued handler current).map Prod.snd := by
  induction program generalizing current with
  | ret value => rfl
  | call op' next inductionHypothesis =>
      have handled : firstResponse handler op response state op' (some current) =
          (handler op' current).map fun result => (result.1, some result.2) := rfl
      rw [issued, issued, List.map_cons, List.map_cons, handled]
      congr 1
      cases answer : handler op' current with
      | none => rfl
      | some result => exact inductionHypothesis result.1 result.2
  | stuck => rfl

/-- `Always` speaks about all machines. -/
theorem always_iff_issued {program : Program I α} :
    (∀ (σ : Type) (handler : Handler I σ) (state : σ), ∀ entry, entry ∈ program.issued handler state ->
      guard entry.2) ↔ Always guard program fun _ => True := by
  induction program with
  | ret value => exact iff_of_true (fun _ _ _ _ impossible => (List.not_mem_nil impossible).elim) trivial
  | call op next inductionHypothesis =>
      constructor
      · intro safe
        refine ⟨safe Unit (fun _ _ => none) () ((), op) List.mem_cons_self, fun response => ?_⟩
        apply (inductionHypothesis response).mp
        intro σ handler state entry inside
        have first : firstResponse handler op response state op none = some (response, some state) := by
          unfold firstResponse
          exact dif_pos rfl
        have later : entry.2 ∈ ((next response).issued (firstResponse handler op response state)
            (some state)).map Prod.snd := by
          rw [issued_firstResponse]
          exact List.mem_map_of_mem inside
        rcases List.mem_map.mp later with ⟨entry', inside', same⟩
        rw [← same]
        apply safe _ (firstResponse handler op response state) none entry'
        rw [issued, first]
        exact List.mem_cons_of_mem _ inside'
      · rintro ⟨here, always⟩ σ handler state entry inside
        rw [issued] at inside
        rcases List.mem_cons.mp inside with rfl | later
        · exact here
        · cases answer : handler op state with
          | none =>
              rw [answer] at later
              exact (List.not_mem_nil later).elim
          | some result =>
              rw [answer] at later
              exact (inductionHypothesis result.1).mpr (always result.1) σ handler result.2 entry later
  | stuck => exact iff_of_true (fun _ _ _ _ impossible => (List.not_mem_nil impossible).elim) trivial

end Program
end Foundations
end Talbot
