import Mathlib.Algebra.Group.Nat.Defs
import Mathlib.Tactic.Common

namespace Talbot
namespace Foundations

/-!
Translation through a tree of tables.

Every level of the tables is indexed by one digit of the address.  A walk reads
one entry on each level from the top on, until an entry points to a page or to
nothing.  Hardware that caches entries may also read an entry as it was some
time ago, so the outcomes of an access are those of all walks that take, on each
level, one of the values that the entry is known for.

A cell of the original tables is named by its level and by the leading digits of
the addresses translated through it.  If every value of an entry is one that
some cell of the same level held originally, then an access ends where the
original tables translate another address: the one that results from replacing
the leading digits, level by level, by the names of those cells.
-/

/-- How the levels cut an address into digits: level `n` indexes `bits` bits from
bit `shift n` on. -/
structure Radix where
  shift : Nat -> Nat
  bits : Nat

namespace Radix

variable (radix : Radix)

/-- The digits of a level and of all levels above it. -/
def leading (level address : Nat) : Nat :=
  address >>> radix.shift level

def digit (level address : Nat) : Nat :=
  radix.leading level address % 2 ^ radix.bits

/-- The address with its leading digits replaced, as if it was written in the table
of another entry.  The digits below the level stay as they are. -/
def redirect (level index address : Nat) : Nat :=
  (index <<< radix.shift level) + address % 2 ^ radix.shift level

/-- The digits of the levels up to `top` adjoin each other. -/
def Adjoins (top : Nat) : Prop :=
  ∀ level, 1 ≤ level -> level < top -> radix.shift (level + 1) = radix.shift level + radix.bits

variable {radix} {top level : Nat}

theorem redirect_leading (level address : Nat) : radix.redirect level (radix.leading level address) address = address := by
  rw [redirect, leading, Nat.shiftLeft_eq, Nat.shiftRight_eq_div_pow, Nat.mul_comm]
  exact Nat.div_add_mod _ _

theorem leading_redirect (level index address : Nat) :
    radix.leading level (radix.redirect level index address) = index := by
  rw [leading, redirect, Nat.shiftLeft_eq, Nat.shiftRight_eq_div_pow, Nat.mul_comm,
    Nat.mul_add_div (Nat.two_pow_pos _), Nat.div_eq_of_lt (Nat.mod_lt _ (Nat.two_pow_pos _)), Nat.add_zero]

theorem redirect_mod (level index address : Nat) :
    radix.redirect level index address % 2 ^ radix.shift level = address % 2 ^ radix.shift level := by
  rw [redirect, Nat.shiftLeft_eq, Nat.mul_comm, Nat.mul_add_mod, Nat.mod_mod]

theorem leading_succ (adjoins : radix.Adjoins top) (positive : 1 ≤ level) (below : level < top) (address : Nat) :
    radix.leading (level + 1) address = radix.leading level address / 2 ^ radix.bits := by
  rw [leading, leading, adjoins level positive below, Nat.shiftRight_add, Nat.shiftRight_eq_div_pow _ radix.bits]

theorem leading_eq (adjoins : radix.Adjoins top) (positive : 1 ≤ level) (below : level < top) (address : Nat) :
    radix.leading level address = radix.leading (level + 1) address * 2 ^ radix.bits + radix.digit level address := by
  rw [leading_succ adjoins positive below, digit, Nat.mul_comm]
  exact (Nat.div_add_mod _ _).symm

theorem shift_le (adjoins : radix.Adjoins top) {lower : Nat} (positive : 1 ≤ lower) (ordered : lower ≤ level)
    (bounded : level ≤ top) : radix.shift lower ≤ radix.shift level := by
  induction ordered with
  | refl => exact Nat.le_refl _
  | step atLeast inductionHypothesis =>
      rw [adjoins _ (Nat.le_trans positive atLeast) bounded]
      exact Nat.le_trans (inductionHypothesis (Nat.le_of_succ_le bounded)) (Nat.le_add_right _ _)

/-- A digit only depends on the bits below the next level. -/
theorem digit_congr {first second width : Nat} (covers : radix.shift level + radix.bits ≤ width)
    (same : first % 2 ^ width = second % 2 ^ width) : radix.digit level first = radix.digit level second := by
  have cut : ∀ address, radix.digit level address = address % 2 ^ width % 2 ^ (radix.shift level + radix.bits) /
      2 ^ radix.shift level := by
    intro address
    rw [digit, leading, Nat.shiftRight_eq_div_pow, Nat.mod_mod_of_dvd _ (Nat.pow_dvd_pow 2 covers), Nat.pow_add,
      Nat.mod_mul_right_div_self]
  rw [cut, cut, same]

theorem mod_congr {first second width narrow : Nat} (narrower : narrow ≤ width)
    (same : first % 2 ^ width = second % 2 ^ width) : first % 2 ^ narrow = second % 2 ^ narrow := by
  rw [← Nat.mod_mod_of_dvd first (Nat.pow_dvd_pow 2 narrower), same, Nat.mod_mod_of_dvd _ (Nat.pow_dvd_pow 2 narrower)]

end Radix

/-- What a table entry stands for. -/
inductive Decoded (Table Frame : Type) where
  | absent
  | table (next : Table)
  | page (frame : Frame)

structure TableFormat (Word Table Frame : Type) where
  radix : Radix
  decode : Nat -> Word -> Decoded Table Frame

/-- Where an entry is stored: its table and its digit. -/
abbrev Cell (Table : Type) : Type :=
  Table × Nat

namespace TableFormat

variable {Word Table Frame : Type} (format : TableFormat Word Table Frame)

/-- The cell that translates an address inside a table. -/
def cellOf (level : Nat) (table : Table) (address : Nat) : Cell Table :=
  (table, format.radix.digit level address)

/-- The page that a walk from a table of the given level ends in, with its level.
There is none where an entry on the way is absent. -/
def pageOf (memory : Cell Table -> Word) : Nat -> Table -> Nat -> Option (Nat × Frame)
  | 0, _, _ => none
  | level + 1, table, address =>
      match format.decode (level + 1) (memory (format.cellOf (level + 1) table address)) with
      | .absent => none
      | .table next => pageOf memory level next address
      | .page frame => some (level + 1, frame)

/-- How a walk ends: on which level it reads the last entry, and whether that
points to a page. -/
inductive Ending (Frame : Type) where
  | absent (level : Nat)
  | page (level : Nat) (frame : Frame)

def ending (memory : Cell Table -> Word) : Nat -> Table -> Nat -> Ending Frame
  | 0, _, _ => .absent 0
  | level + 1, table, address =>
      match format.decode (level + 1) (memory (format.cellOf (level + 1) table address)) with
      | .absent => .absent (level + 1)
      | .table next => ending memory level next address
      | .page frame => .page (level + 1) frame

/-- The cells that the walk reads, with their levels. -/
def visited (memory : Cell Table -> Word) : Nat -> Table -> Nat -> List (Nat × Cell Table)
  | 0, _, _ => []
  | level + 1, table, address =>
      (level + 1, format.cellOf (level + 1) table address) ::
        match format.decode (level + 1) (memory (format.cellOf (level + 1) table address)) with
        | .table next => visited memory level next address
        | _ => []

/-- The pages that walks may end in which take any of the `live` values of each
entry. -/
def outcomes (live : Cell Table -> List Word) : Nat -> Table -> Nat -> List (Nat × Frame)
  | 0, _, _ => []
  | level + 1, table, address =>
      (live (format.cellOf (level + 1) table address)).flatMap fun word =>
        match format.decode (level + 1) word with
        | .absent => []
        | .table next => outcomes live level next address
        | .page frame => [(level + 1, frame)]

/-- The same for names: the addresses that result from replacing the leading
digits on each level. -/
def targets (indices : Nat -> Nat -> List Nat) : Nat -> Nat -> List Nat
  | 0, address => [address]
  | level + 1, address =>
      (indices (level + 1) (format.radix.leading (level + 1) address)).flatMap fun index =>
        targets indices level (format.radix.redirect (level + 1) index address)

/-- The cell that a level and the leading digits name. -/
inductive Placed (memory : Cell Table -> Word) (top : Nat) (root : Table) : Nat -> Nat -> Cell Table -> Prop where
  | root {index : Nat} (small : index < 2 ^ format.radix.bits) : Placed memory top root top index (root, index)
  | child {level index digit : Nat} {cell : Cell Table} {next : Table} (positive : 1 ≤ level)
      (above : Placed memory top root (level + 1) index cell)
      (points : format.decode (level + 1) (memory cell) = .table next) (small : digit < 2 ^ format.radix.bits) :
      Placed memory top root level (index * 2 ^ format.radix.bits + digit) (next, digit)

variable {format} {memory : Cell Table -> Word} {top : Nat} {root : Table}

section Walks

variable {level : Nat} {table : Table}

theorem pageOf_eq_some_iff {address lower : Nat} {frame : Frame} :
    format.pageOf memory level table address = some (lower, frame) ↔
      format.ending memory level table address = .page lower frame := by
  induction level generalizing table with
  | zero => simp only [pageOf, ending, reduceCtorEq]
  | succ level inductionHypothesis =>
      rw [pageOf, ending]
      cases format.decode (level + 1) (memory (format.cellOf (level + 1) table address)) with
      | absent => simp only [reduceCtorEq]
      | table next => exact inductionHypothesis
      | page frame => simp only [Option.some.injEq, Prod.mk.injEq, Ending.page.injEq]

theorem outcomes_congr {live : Cell Table -> List Word} {first second : Nat}
    (same : ∀ lower, 1 ≤ lower -> lower ≤ level -> format.radix.digit lower first = format.radix.digit lower second) :
    format.outcomes live level table first = format.outcomes live level table second := by
  induction level generalizing table with
  | zero => rfl
  | succ level inductionHypothesis =>
      rw [outcomes, outcomes, cellOf, cellOf, same (level + 1) (Nat.le_add_left 1 level) (Nat.le_refl _)]
      congr 1
      funext word
      cases format.decode (level + 1) word with
      | absent => rfl
      | page frame => rfl
      | table next => exact inductionHypothesis fun lower positive bounded => same lower positive (Nat.le_succ_of_le bounded)

theorem level_of_outcome {live : Cell Table -> List Word} {address : Nat} {outcome : Nat × Frame}
    (inside : outcome ∈ format.outcomes live level table address) : 1 ≤ outcome.1 ∧ outcome.1 ≤ level := by
  induction level generalizing table with
  | zero => cases inside
  | succ level inductionHypothesis =>
      rcases List.mem_flatMap.mp inside with ⟨word, _, reached⟩
      cases decoded : format.decode (level + 1) word with
      | absent =>
          rw [decoded] at reached
          cases reached
      | table next =>
          rw [decoded] at reached
          exact ⟨(inductionHypothesis reached).1, Nat.le_succ_of_le (inductionHypothesis reached).2⟩
      | page frame =>
          rw [decoded] at reached
          cases List.mem_singleton.mp reached
          exact ⟨Nat.le_add_left 1 level, Nat.le_refl _⟩

end Walks

namespace Placed

variable {level index : Nat} {cell : Cell Table}

theorem digit_eq (placed : format.Placed memory top root level index cell) : cell.2 = index % 2 ^ format.radix.bits := by
  cases placed with
  | root small => exact (Nat.mod_eq_of_lt small).symm
  | child _ _ _ small => rw [Nat.mul_comm, Nat.mul_add_mod, Nat.mod_eq_of_lt small]

/-- It is the one that the walk reads in its table. -/
theorem cellOf_eq (placed : format.Placed memory top root level index cell) {address : Nat}
    (named : format.radix.leading level address = index) : format.cellOf level cell.1 address = cell := by
  have digits : format.radix.digit level address = cell.2 := by
    rw [placed.digit_eq, ← named]
    rfl
  rw [cellOf, digits]

theorem le_top (placed : format.Placed memory top root level index cell) : level ≤ top := by
  induction placed with
  | root => exact Nat.le_refl _
  | child _ _ _ _ inductionHypothesis => exact Nat.le_of_succ_le inductionHypothesis

/-- A cell below the top is named after the cell above it. -/
theorem above (placed : format.Placed memory top root level index cell) (lower : level < top) :
    ∃ parent, format.Placed memory top root (level + 1) (index / 2 ^ format.radix.bits) parent ∧
      format.decode (level + 1) (memory parent) = .table cell.1 := by
  cases placed with
  | root => exact absurd lower (Nat.lt_irrefl _)
  | child positive parent points small =>
      refine ⟨_, ?_, points⟩
      rw [Nat.mul_comm, Nat.mul_add_div (Nat.two_pow_pos _), Nat.div_eq_of_lt small, Nat.add_zero]
      exact parent

/-- A name belongs to one cell. -/
theorem unique (placed : format.Placed memory top root level index cell) {other : Cell Table}
    (placed' : format.Placed memory top root level index other) : cell = other := by
  induction placed generalizing other with
  | root small =>
      have digits := placed'.digit_eq
      rw [Nat.mod_eq_of_lt small] at digits
      cases placed' with
      | root => rfl
      | child _ above => exact absurd above.le_top (Nat.not_succ_le_self _)
  | child positive parent points small inductionHypothesis =>
      have digits := placed'.digit_eq
      rw [Nat.mul_comm, Nat.mul_add_mod, Nat.mod_eq_of_lt small] at digits
      rcases placed'.above parent.le_top with ⟨parent', placedParent, points'⟩
      rw [Nat.mul_comm, Nat.mul_add_div (Nat.two_pow_pos _), Nat.div_eq_of_lt small, Nat.add_zero] at placedParent
      cases inductionHypothesis placedParent
      rw [points] at points'
      cases points'
      exact Prod.ext rfl digits.symm

end Placed

/-- A walk from the top passes through a cell that is named after the address. -/
theorem pageOf_of_placed (adjoins : format.radix.Adjoins top) {level index address : Nat} {cell : Cell Table}
    (placed : format.Placed memory top root level index cell) (named : format.radix.leading level address = index) :
    format.pageOf memory top root address = format.pageOf memory level cell.1 address := by
  induction placed with
  | root => rfl
  | @child level index digit cell next positive parent points small inductionHypothesis =>
      have upper := format.radix.leading_succ adjoins positive parent.le_top address
      rw [named, Nat.mul_comm, Nat.mul_add_div (Nat.two_pow_pos _), Nat.div_eq_of_lt small, Nat.add_zero] at upper
      rw [inductionHypothesis upper, pageOf, parent.cellOf_eq upper, points]

/-- Every value of an entry is one that a cell of its level held originally, up to
what the decoding ignores, and a name without a cell stands for itself. -/
structure Represents (format : TableFormat Word Table Frame) (memory : Cell Table -> Word) (top : Nat) (root : Table)
    (live : Cell Table -> List Word) (indices : Nat -> Nat -> List Nat) : Prop where
  named : ∀ level index cell, format.Placed memory top root level index cell -> ∀ word, word ∈ live cell ->
    ∃ other origin, other ∈ indices level index ∧ format.Placed memory top root level other origin ∧
      format.decode level word = format.decode level (memory origin)
  alone : ∀ level index, (∀ cell, ¬ format.Placed memory top root level index cell) -> indices level index = [index]

/-- Above a cell there are tables on every level. -/
theorem Placed.ancestor (adjoins : format.radix.Adjoins top) {lower address : Nat} {cell : Cell Table}
    (positive : 1 ≤ lower) (placed : format.Placed memory top root lower (format.radix.leading lower address) cell)
    {level : Nat} (higher : lower < level) (bounded : level ≤ top) :
    ∃ parent next, format.Placed memory top root level (format.radix.leading level address) parent ∧
      format.decode level (memory parent) = .table next := by
  induction level with
  | zero => exact absurd higher (Nat.not_lt_zero _)
  | succ level inductionHypothesis =>
      have reached : ∃ child, format.Placed memory top root level (format.radix.leading level address) child := by
        rcases Nat.lt_succ_iff_lt_or_eq.mp higher with further | rfl
        · rcases inductionHypothesis further (Nat.le_of_succ_le bounded) with ⟨parent, _, placedParent, _⟩
          exact ⟨parent, placedParent⟩
        · exact ⟨cell, placed⟩
      rcases reached with ⟨child, placedChild⟩
      rcases placedChild.above bounded with ⟨parent, placedParent, points⟩
      have atLeast : 1 ≤ level := Nat.le_trans positive (Nat.lt_succ_iff.mp higher)
      rw [← format.radix.leading_succ adjoins atLeast bounded] at placedParent
      exact ⟨parent, _, placedParent, points⟩

/-- Only addresses with one leading digit are translated. -/
theorem Placed.canonical (adjoins : format.radix.Adjoins top) {lower address : Nat} {cell : Cell Table}
    (positive : 1 ≤ lower) (placed : format.Placed memory top root lower (format.radix.leading lower address) cell) :
    format.radix.leading top address < 2 ^ format.radix.bits := by
  have small : ∀ {index : Nat} {cell : Cell Table}, format.Placed memory top root top index cell ->
      index < 2 ^ format.radix.bits := by
    intro index cell atTop
    cases atTop with
    | root small => exact small
    | child _ above => exact absurd above.le_top (Nat.not_succ_le_self _)
  rcases Nat.lt_or_eq_of_le placed.le_top with lowerDown | rfl
  · rcases placed.ancestor adjoins positive lowerDown (Nat.le_refl _) with ⟨parent, _, placedParent, _⟩
    exact small placedParent
  · exact small placed

/-- Below a page no name is replaced. -/
theorem targets_below_page {live : Cell Table -> List Word} {indices : Nat -> Nat -> List Nat}
    (adjoins : format.radix.Adjoins top) (represents : Represents format memory top root live indices)
    {level lower address : Nat} {cell : Cell Table} {frame : Frame}
    (placed : format.Placed memory top root level (format.radix.leading level address) cell)
    (page : format.decode level (memory cell) = .page frame) (below : lower < level) :
    format.targets indices lower address = [address] := by
  induction lower with
  | zero => rfl
  | succ lower inductionHypothesis =>
      have unplaced : ∀ other, ¬ format.Placed memory top root (lower + 1)
          (format.radix.leading (lower + 1) address) other := by
        intro other deeper
        rcases deeper.ancestor adjoins (Nat.le_add_left 1 lower) below placed.le_top with ⟨parent, next, placed', points⟩
        cases placed.unique placed'
        rw [page] at points
        cases points
      rw [targets, represents.alone _ _ unplaced, List.flatMap_singleton, Radix.redirect_leading]
      exact inductionHypothesis (Nat.lt_of_succ_lt below)

/-- The digits below a level do not change when its leading digits are replaced. -/
theorem digit_redirect (adjoins : format.radix.Adjoins top) {level : Nat} (bounded : level + 1 ≤ top)
    (index address lower : Nat) (positive : 1 ≤ lower) (below : lower ≤ level) :
    format.radix.digit lower address = format.radix.digit lower (format.radix.redirect (level + 1) index address) := by
  have covers : format.radix.shift lower + format.radix.bits ≤ format.radix.shift (level + 1) := by
    rw [← adjoins lower positive (Nat.lt_of_le_of_lt below bounded)]
    exact Radix.shift_le adjoins (Nat.le_add_left 1 lower) (Nat.succ_le_succ below) bounded
  exact Radix.digit_congr covers (format.radix.redirect_mod (level + 1) index address).symm

/-- An access ends where the original tables translate one of the target addresses,
at the same place of the page. That address is the one that is written for the
access as long as the entry is not replaced. -/
theorem exists_target {live : Cell Table -> List Word} {indices : Nat -> Nat -> List Nat}
    (adjoins : format.radix.Adjoins top) (represents : Represents format memory top root live indices)
    {level address : Nat} {table : Table} {outcome : Nat × Frame}
    (placed : format.Placed memory top root level (format.radix.leading level address)
      (format.cellOf level table address))
    (inside : outcome ∈ format.outcomes live level table address) :
    ∃ target, target ∈ format.targets indices level address ∧ format.radix.leading top target < 2 ^ format.radix.bits ∧
      format.pageOf memory top root target = some outcome ∧
      target % 2 ^ format.radix.shift outcome.1 = address % 2 ^ format.radix.shift outcome.1 := by
  induction level generalizing table address with
  | zero => cases inside
  | succ level inductionHypothesis =>
      rcases List.mem_flatMap.mp inside with ⟨word, alive, reached⟩
      rcases represents.named _ _ _ placed word alive with ⟨index, origin, known, placedOrigin, decoded⟩
      have renamed := format.radix.leading_redirect (level + 1) index address
      have kept := format.radix.redirect_mod (level + 1) index address
      rw [← renamed] at placedOrigin
      have through := pageOf_of_placed adjoins placedOrigin rfl
      rw [pageOf, placedOrigin.cellOf_eq rfl] at through
      rw [decoded] at reached
      cases points : format.decode (level + 1) (memory origin) with
      | absent =>
          rw [points] at reached
          cases reached
      | page frame =>
          rw [points] at reached through
          cases List.mem_singleton.mp reached
          refine ⟨_, List.mem_flatMap.mpr ⟨index, known, ?_⟩,
            placedOrigin.canonical adjoins (Nat.le_add_left 1 level), through, kept⟩
          rw [targets_below_page adjoins represents placedOrigin points (Nat.lt_succ_self level)]
          exact List.mem_singleton_self _
      | table next =>
          rw [points] at reached through
          replace reached : outcome ∈ format.outcomes live level next address := reached
          have reachable : 1 ≤ level := by
            rcases Nat.eq_zero_or_pos level with rfl | positive
            · cases reached
            · exact positive
          have below : format.Placed memory top root level
              (format.radix.leading level (format.radix.redirect (level + 1) index address))
              (format.cellOf level next (format.radix.redirect (level + 1) index address)) := by
            rw [format.radix.leading_eq adjoins reachable placed.le_top]
            exact .child reachable placedOrigin points (Nat.mod_lt _ (Nat.two_pow_pos _))
          rw [outcomes_congr (digit_redirect adjoins placed.le_top index address)] at reached
          rcases inductionHypothesis below reached with ⟨target, targeted, canonical, translated, samePlace⟩
          refine ⟨target, List.mem_flatMap.mpr ⟨index, known, targeted⟩, canonical, translated, samePlace.trans ?_⟩
          have bounds := level_of_outcome reached
          exact Radix.mod_congr (Radix.shift_le adjoins bounds.1 (Nat.le_succ_of_le bounds.2) placed.le_top) kept

/-- A walk from the top. -/
theorem exists_target_from_root {live : Cell Table -> List Word} {indices : Nat -> Nat -> List Nat}
    (adjoins : format.radix.Adjoins top) (represents : Represents format memory top root live indices) {address : Nat}
    {outcome : Nat × Frame} (canonical : format.radix.leading top address < 2 ^ format.radix.bits)
    (inside : outcome ∈ format.outcomes live top root address) :
    ∃ target, target ∈ format.targets indices top address ∧ format.radix.leading top target < 2 ^ format.radix.bits ∧
      format.pageOf memory top root target = some outcome ∧
      target % 2 ^ format.radix.shift outcome.1 = address % 2 ^ format.radix.shift outcome.1 := by
  apply exists_target adjoins represents _ inside
  have digit : format.radix.digit top address = format.radix.leading top address := Nat.mod_eq_of_lt canonical
  rw [cellOf, digit]
  exact .root canonical

/-! ## Where the entries of a walk are -/

/-- The leading digits of the cell that a walk reads on the level `goal`, if the
entry named `index` now holds what the one named `now index` held. -/
def locate (format : TableFormat Word Table Frame) (now : Nat -> Nat -> Nat) (goal : Nat) : Nat -> Nat -> Nat
  | 0, address => format.radix.leading goal address
  | level + 1, address =>
      if goal = level + 1 then format.radix.leading goal address
      else locate format now goal level
        (format.radix.redirect (level + 1) (now (level + 1) (format.radix.leading (level + 1) address)) address)

theorem visited_congr {current : Cell Table -> Word} {level : Nat} {table : Table} {first second : Nat}
    (same : ∀ lower, 1 ≤ lower -> lower ≤ level -> format.radix.digit lower first = format.radix.digit lower second) :
    format.visited current level table first = format.visited current level table second := by
  induction level generalizing table with
  | zero => rfl
  | succ level inductionHypothesis =>
      rw [visited, visited, cellOf, cellOf, same (level + 1) (Nat.le_add_left 1 level) (Nat.le_refl _)]
      congr 1
      cases format.decode (level + 1) (current (table, format.radix.digit (level + 1) second)) with
      | absent => rfl
      | page frame => rfl
      | table next => exact inductionHypothesis fun lower positive bounded => same lower positive (Nat.le_succ_of_le bounded)

theorem level_of_visited {current : Cell Table -> Word} {level address : Nat} {table : Table} {found : Nat × Cell Table}
    (inside : found ∈ format.visited current level table address) : 1 ≤ found.1 ∧ found.1 ≤ level := by
  induction level generalizing table with
  | zero => cases inside
  | succ level inductionHypothesis =>
      rcases List.mem_cons.mp inside with rfl | later
      · exact ⟨Nat.le_add_left 1 level, Nat.le_refl _⟩
      · cases points : format.decode (level + 1) (current (format.cellOf (level + 1) table address)) with
        | absent =>
            rw [points] at later
            cases later
        | page frame =>
            rw [points] at later
            cases later
        | table next =>
            rw [points] at later
            exact ⟨(inductionHypothesis later).1, Nat.le_succ_of_le (inductionHypothesis later).2⟩

/-- A walk goes on where an entry points to. -/
theorem visited_next {current : Cell Table -> Word} {level address : Nat} {table : Table} {lower : Nat}
    {cell : Cell Table} {next : Table} (inside : (lower + 1, cell) ∈ format.visited current level table address)
    (points : format.decode (lower + 1) (current cell) = .table next) (positive : 1 ≤ lower) :
    (lower, format.cellOf lower next address) ∈ format.visited current level table address := by
  induction level generalizing table with
  | zero => cases inside
  | succ level inductionHypothesis =>
      rcases List.mem_cons.mp inside with here | later
      · cases here
        rcases Nat.exists_eq_add_of_le' positive with ⟨below, rfl⟩
        apply List.mem_cons_of_mem
        rw [points]
        exact List.mem_cons_self
      · rw [visited]
        apply List.mem_cons_of_mem
        cases points' : format.decode (level + 1) (current (format.cellOf (level + 1) table address)) with
        | absent =>
            rw [points'] at later
            cases later
        | page frame =>
            rw [points'] at later
            cases later
        | table next' =>
            rw [points'] at later
            exact inductionHypothesis later

/-- A walk reads the cells that are located for the address. -/
theorem placed_of_visited (adjoins : format.radix.Adjoins top) {current : Cell Table -> Word} {now : Nat -> Nat -> Nat}
    (moved : ∀ level index cell, format.Placed memory top root level index cell ->
      ∃ origin, format.Placed memory top root level (now level index) origin ∧
        format.decode level (current cell) = format.decode level (memory origin))
    {level address : Nat} {table : Table} {found : Nat × Cell Table}
    (placed : format.Placed memory top root level (format.radix.leading level address)
      (format.cellOf level table address))
    (inside : found ∈ format.visited current level table address) :
    format.Placed memory top root found.1 (format.locate now found.1 level address) found.2 := by
  induction level generalizing table address with
  | zero => cases inside
  | succ level inductionHypothesis =>
      rcases List.mem_cons.mp inside with rfl | later
      · rw [locate, if_pos rfl]
        exact placed
      · rcases moved _ _ _ placed with ⟨origin, placedOrigin, decoded⟩
        rw [decoded] at later
        cases points : format.decode (level + 1) (memory origin) with
        | absent =>
            rw [points] at later
            cases later
        | page frame =>
            rw [points] at later
            cases later
        | table next =>
            rw [points] at later
            replace later : found ∈ format.visited current level next address := later
            have bounds := level_of_visited later
            rw [locate, if_neg (Nat.ne_of_lt (Nat.lt_succ_of_le bounds.2))]
            rw [visited_congr (digit_redirect adjoins placed.le_top (now (level + 1)
              (format.radix.leading (level + 1) address)) address)] at later
            apply inductionHypothesis _ later
            rw [← format.radix.leading_redirect (level + 1) (now (level + 1) (format.radix.leading (level + 1) address))
              address] at placedOrigin
            rw [format.radix.leading_eq adjoins (Nat.le_trans bounds.1 bounds.2) placed.le_top]
            exact .child (Nat.le_trans bounds.1 bounds.2) placedOrigin points (Nat.mod_lt _ (Nat.two_pow_pos _))

end TableFormat

end Foundations
end Talbot
