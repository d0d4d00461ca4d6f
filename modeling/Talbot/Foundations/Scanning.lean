import Mathlib.Data.List.TakeWhile

namespace Talbot
namespace Foundations

/-!
Scanning a text from left to right.

A matcher looks at the beginning of what is left of a text.  Searching tries it at
every place, and deleting removes what it matches and goes on behind it.  A matcher
that needs a rare symbol only matches in front of one, and that symbol then fixes
where the match can be.
-/

section Matches

variable {Symbol Result : Type}

/-- The first place where the matcher finds something. -/
def firstMatch (matcher : List Symbol -> Option Result) : List Symbol -> Option Result
  | [] => none
  | symbol :: rest => (matcher (symbol :: rest)).or (firstMatch matcher rest)

/-- Remove all matches.  The matcher says how many symbols it takes, where 0 stands
for no match, and `skipped` is what is left of the last match. -/
def deleteMatches (matcher : List Symbol -> Nat) : Nat -> List Symbol -> List Symbol
  | _, [] => []
  | skipped + 1, _ :: rest => deleteMatches matcher skipped rest
  | 0, symbol :: rest =>
      match matcher (symbol :: rest) with
      | 0 => symbol :: deleteMatches matcher 0 rest
      | taken + 1 => deleteMatches matcher taken rest

theorem firstMatch_append {matcher : List Symbol -> Option Result} {before after : List Symbol}
    (nowhere : ∀ tail, tail <:+ before -> tail ≠ [] -> matcher (tail ++ after) = none) :
    firstMatch matcher (before ++ after) = firstMatch matcher after := by
  induction before with
  | nil => rfl
  | cons symbol rest inductionHypothesis =>
      have here := nowhere (symbol :: rest) List.suffix_rfl (List.cons_ne_nil _ _)
      rw [List.cons_append] at here
      rw [List.cons_append, firstMatch, here, Option.none_or]
      exact inductionHypothesis fun tail inside => nowhere tail (inside.trans (List.suffix_cons _ _))

theorem firstMatch_eq_none {matcher : List Symbol -> Option Result} {text : List Symbol}
    (nowhere : ∀ tail, tail <:+ text -> tail ≠ [] -> matcher tail = none) : firstMatch matcher text = none := by
  have all := @firstMatch_append _ _ matcher text [] fun tail inside nonempty => by
    rw [List.append_nil]
    exact nowhere tail inside nonempty
  rwa [List.append_nil] at all

theorem deleteMatches_append {matcher : List Symbol -> Nat} {before after : List Symbol}
    (nowhere : ∀ tail, tail <:+ before -> tail ≠ [] -> matcher (tail ++ after) = 0) :
    deleteMatches matcher 0 (before ++ after) = before ++ deleteMatches matcher 0 after := by
  induction before with
  | nil => rfl
  | cons symbol rest inductionHypothesis =>
      have here := nowhere (symbol :: rest) List.suffix_rfl (List.cons_ne_nil _ _)
      rw [List.cons_append] at here
      rw [List.cons_append, deleteMatches, here, List.cons_append]
      exact congrArg (List.cons symbol)
        (inductionHypothesis fun tail inside => nowhere tail (inside.trans (List.suffix_cons _ _)))

theorem deleteMatches_eq_self {matcher : List Symbol -> Nat} {text : List Symbol}
    (nowhere : ∀ tail, tail <:+ text -> tail ≠ [] -> matcher tail = 0) : deleteMatches matcher 0 text = text := by
  have all := @deleteMatches_append _ matcher text [] fun tail inside nonempty => by
    rw [List.append_nil]
    exact nowhere tail inside nonempty
  rwa [List.append_nil, deleteMatches, List.append_nil] at all

theorem deleteMatches_skipped (matcher : List Symbol -> Nat) (matched after : List Symbol) :
    deleteMatches matcher matched.length (matched ++ after) = deleteMatches matcher 0 after := by
  induction matched with
  | nil => rfl
  | cons symbol rest inductionHypothesis => exact inductionHypothesis

/-- A match is removed and the rest is scanned. -/
theorem deleteMatches_match {matcher : List Symbol -> Nat} {matched after : List Symbol} (nonempty : matched ≠ [])
    (found : matcher (matched ++ after) = matched.length) :
    deleteMatches matcher 0 (matched ++ after) = deleteMatches matcher 0 after := by
  cases matched with
  | nil => exact absurd rfl nonempty
  | cons symbol rest =>
      rw [List.cons_append] at found ⊢
      rw [deleteMatches, found]
      exact deleteMatches_skipped matcher rest after

end Matches

/-! ## Pieces of a match -/

section Pieces

variable {Symbol : Type}

/-- The given symbol, and what follows it. -/
def exactly [DecidableEq Symbol] (expected : Symbol) : List Symbol -> Option (List Symbol)
  | [] => none
  | symbol :: rest => if symbol = expected then some rest else none

@[simp] theorem exactly_eq_some [DecidableEq Symbol] {expected : Symbol} {text rest : List Symbol} :
    exactly expected text = some rest ↔ text = expected :: rest := by
  cases text with
  | nil => exact iff_of_false nofun nofun
  | cons symbol text =>
      rw [exactly, List.cons.injEq]
      by_cases same : symbol = expected
      · rw [if_pos same, Option.some_inj, and_iff_right same]
      · exact iff_of_false (fun found => by rw [if_neg same] at found; cases found) fun equal => same equal.1

/-- As many accepted symbols as there are, but at least one, and what follows them. -/
def someOf (accepts : Symbol -> Bool) (text : List Symbol) : Option (List Symbol × List Symbol) :=
  match text.takeWhile accepts with
  | [] => none
  | symbol :: run => some (symbol :: run, text.dropWhile accepts)

theorem of_someOf {accepts : Symbol -> Bool} {text run rest : List Symbol} (found : someOf accepts text = some (run, rest)) :
    run ≠ [] ∧ (∀ symbol, symbol ∈ run -> accepts symbol = true) ∧ text = run ++ rest := by
  have whole := @List.takeWhile_append_dropWhile _ accepts text
  have accepted : ∀ symbol, symbol ∈ text.takeWhile accepts -> accepts symbol = true :=
    fun symbol inside => List.mem_takeWhile_imp inside
  unfold someOf at found
  cases taken : text.takeWhile accepts with
  | nil =>
      rw [taken] at found
      cases found
  | cons symbol more =>
      rw [taken] at found whole accepted
      cases found
      exact ⟨List.cons_ne_nil _ _, accepted, whole.symm⟩

theorem someOf_run {accepts : Symbol -> Bool} {run : List Symbol} {stop : Symbol} {rest : List Symbol} (nonempty : run ≠ [])
    (accepted : ∀ symbol, symbol ∈ run -> accepts symbol = true) (stops : accepts stop = false) :
    someOf accepts (run ++ stop :: rest) = some (run, stop :: rest) := by
  have stopped : ¬ accepts stop = true := Bool.eq_false_iff.mp stops
  rw [someOf, List.takeWhile_append_of_pos accepted, List.takeWhile_cons_of_neg stopped, List.append_nil,
    List.dropWhile_append_of_pos accepted, List.dropWhile_cons_of_neg stopped]
  cases run with
  | nil => exact absurd rfl nonempty
  | cons symbol run => rfl

end Pieces

/-! ## Runs of symbols -/

section Runs

variable {Symbol : Type} {accepts : Symbol -> Bool}

/-- Where a run of accepted symbols ends is determined. -/
theorem run_unique {first second : List Symbol} {stop other : Symbol} {rest further : List Symbol}
    (firstAccepted : ∀ symbol, symbol ∈ first -> accepts symbol = true)
    (secondAccepted : ∀ symbol, symbol ∈ second -> accepts symbol = true) (stops : accepts stop = false)
    (otherStops : accepts other = false) (same : first ++ stop :: rest = second ++ other :: further) :
    first = second ∧ rest = further := by
  have runs := congrArg (List.takeWhile accepts) same
  have stopped : ¬ accepts stop = true := Bool.eq_false_iff.mp stops
  have otherStopped : ¬ accepts other = true := Bool.eq_false_iff.mp otherStops
  rw [List.takeWhile_append_of_pos firstAccepted, List.takeWhile_append_of_pos secondAccepted,
    List.takeWhile_cons_of_neg stopped, List.takeWhile_cons_of_neg otherStopped, List.append_nil, List.append_nil] at runs
  subst runs
  exact ⟨rfl, (List.cons.inj (List.append_cancel_left same)).2⟩

/-- The first place of a symbol is determined. -/
theorem cut_unique [DecidableEq Symbol] {cut : Symbol} {first second rest further : List Symbol} (notFirst : cut ∉ first)
    (notSecond : cut ∉ second) (same : first ++ cut :: rest = second ++ cut :: further) :
    first = second ∧ rest = further := by
  have other : ∀ {run : List Symbol}, cut ∉ run -> ∀ symbol, symbol ∈ run -> decide (symbol ≠ cut) = true := by
    intro run absent symbol inside
    exact decide_eq_true fun equal => absent (equal ▸ inside)
  have stops : decide (cut ≠ cut) = false := decide_eq_false fun differs => differs rfl
  exact run_unique (other notFirst) (other notSecond) stops stops same

theorem not_mem_run {run : List Symbol} {symbol : Symbol} (accepted : ∀ symbol, symbol ∈ run -> accepts symbol = true)
    (rejected : accepts symbol = false) : symbol ∉ run := by
  intro inside
  rw [accepted symbol inside] at rejected
  cases rejected

end Runs

/-! ## Both ends of a text -/

section Ends

variable {Symbol : Type} (blank : Symbol -> Bool)

def stripStart (text : List Symbol) : List Symbol :=
  text.dropWhile blank

def stripEnd (text : List Symbol) : List Symbol :=
  (text.reverse.dropWhile blank).reverse

def strip (text : List Symbol) : List Symbol :=
  stripEnd blank (stripStart blank text)

/-- Neither end is blank. -/
structure Visible (text : List Symbol) : Prop where
  start : ∀ symbol, symbol ∈ text.head? -> blank symbol = false
  finish : ∀ symbol, symbol ∈ text.getLast? -> blank symbol = false

variable {blank} {text : List Symbol}

theorem dropWhile_eq_self (start : ∀ symbol, symbol ∈ text.head? -> blank symbol = false) :
    text.dropWhile blank = text := by
  cases text with
  | nil => rfl
  | cons symbol rest => exact List.dropWhile_cons_of_neg (Bool.eq_false_iff.mp (start symbol rfl))

theorem stripEnd_eq_self (finish : ∀ symbol, symbol ∈ text.getLast? -> blank symbol = false) :
    stripEnd blank text = text := by
  rw [stripEnd, dropWhile_eq_self, List.reverse_reverse]
  rwa [List.head?_reverse]

theorem Visible.strip_eq (visible : Visible blank text) : strip blank text = text := by
  rw [strip, stripStart, dropWhile_eq_self visible.start, stripEnd_eq_self visible.finish]

theorem Visible.append {more : List Symbol} (visible : Visible blank text)
    (shown : ∀ symbol, symbol ∈ more -> blank symbol = false) : Visible blank (text ++ more) where
  start symbol inside := by
    rw [List.head?_append] at inside
    rcases Option.or_eq_some_iff.mp inside with first | ⟨_, first⟩
    · exact visible.start symbol first
    · exact shown symbol (List.mem_of_mem_head? first)
  finish symbol inside := by
    rw [List.getLast?_append] at inside
    rcases Option.or_eq_some_iff.mp inside with last | ⟨_, last⟩
    · exact shown symbol (List.mem_of_mem_getLast? last)
    · exact visible.finish symbol last

theorem stripStart_stripStart (text : List Symbol) : stripStart blank (stripStart blank text) = stripStart blank text := by
  apply dropWhile_eq_self
  intro symbol inside
  have shown := List.head?_dropWhile_not blank text
  rw [stripStart] at inside
  rw [Option.mem_def.mp inside] at shown
  exact shown

theorem strip_stripStart (text : List Symbol) : strip blank (stripStart blank text) = strip blank text := by
  rw [strip, stripStart_stripStart, strip]

/-- In front of a symbol that is not blank. -/
theorem stripStart_append {first : Symbol} {rest : List Symbol} (visible : blank first = false) (text : List Symbol) :
    stripStart blank (text ++ first :: rest) = stripStart blank text ++ first :: rest := by
  induction text with
  | nil => exact List.dropWhile_cons_of_neg (Bool.eq_false_iff.mp visible)
  | cons symbol text inductionHypothesis =>
      unfold stripStart at inductionHypothesis ⊢
      rw [List.cons_append, List.dropWhile_cons, List.dropWhile_cons, inductionHypothesis]
      split <;> rfl

/-- Blank symbols behind a visible one are removed. -/
theorem stripEnd_append {before blanks : List Symbol} {shown : Symbol} (visible : blank shown = false)
    (finish : before.getLast? = some shown) (allBlank : ∀ symbol, symbol ∈ blanks -> blank symbol = true) :
    stripEnd blank (before ++ blanks) = before := by
  rw [stripEnd, List.reverse_append, List.dropWhile_append_of_pos fun symbol inside =>
    allBlank symbol (List.mem_reverse.mp inside), dropWhile_eq_self, List.reverse_reverse]
  intro symbol inside
  rw [List.head?_reverse, finish] at inside
  cases inside
  exact visible

end Ends

end Foundations
end Talbot
