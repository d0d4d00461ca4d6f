import Talbot.Kernel.Report
import Mathlib.Algebra.Group.Action.Defs
import Mathlib.Algebra.Order.BigOperators.Group.List

namespace Talbot

/-!
How long the lines of the report can get.

A line is a fixed text around numbers, and a larger number has no fewer digits.
The longest line of each kind is therefore the one with the largest numbers; where
an evaluation chooses between two texts, the longer one decides.
-/

namespace ReportLine

/-- The numbers that an evaluation can print. -/
def InRange : ReportLine -> Prop
  | existence level misses => level ≤ 4 ∧ misses ≤ iterations
  | hierarchyHeader level => level ≤ 4
  | splitInstructions level _ => level ≤ 4
  | splitData level _ => level ≤ 4
  | shared level _ => level ≤ 4
  | structureOf _ level setBits ways certainty =>
      level ≤ 4 ∧ setBits ≤ 8 ∧ ways ≤ 32 ∧ certainty ≤ iterations
  | unknownHashFunction level => level ≤ 4
  | evictionSetAligns level aligning => level ≤ 4 ∧ aligning ≤ iterations / 10
  | evictionSetDoesNotAlign level _ => level ≤ 4
  | permutationHeader level => level ≤ 4
  | permutationRow level _ row =>
      level ≤ 4 ∧ row.length ≤ 32 ∧ ∀ position, position ∈ row -> (toString position).length ≤ 2
  | cannotEvaluateNesting level => level ≤ 4
  | nested level misses => level ≤ 4 ∧ misses ≤ iterations
  | notNested level _ => level ≤ 4
  | hugeTlbUnified level misses => level ≤ 4 ∧ misses ≤ iterations
  | hugeTlbSeparate level certainty => level ≤ 4 ∧ certainty ≤ iterations + 1
  | supportedPcids level amountPcids noflush misses =>
      level ≤ 4 ∧ amountPcids ≤ 4096 ∧ noflush ≤ 1 ∧ misses ≤ iterations
  | respectsPcids level misses => level ≤ 4 ∧ misses ≤ iterations
  | doesNotRespectPcids level _ => level ≤ 4

/-! ## Numbers -/

theorem toString_length_pos (n : Nat) : 0 < (toString n).length :=
  Nat.length_repr_pos

/-- The characters of a number. -/
def digits (n : Nat) : Nat :=
  (toString n).length

/-- A larger number has no fewer digits. -/
theorem digits_mono {first second : Nat} (le : first ≤ second) : digits first ≤ digits second :=
  (Nat.length_repr_le_iff (toString_length_pos second)).mpr
    (Nat.lt_of_le_of_lt le ((Nat.length_repr_le_iff (toString_length_pos second)).mp (Nat.le_refl _)))

theorem digits_iterations : digits iterations = 4 := by
  decide

theorem digits_le_one {n : Nat} (small : n ≤ 9) : digits n ≤ 1 := by
  have nine : digits 9 = 1 := by decide
  exact nine ▸ digits_mono small

theorem digits_one {n : Nat} (small : n ≤ 9) : digits n = 1 :=
  Nat.le_antisymm (digits_le_one small) (toString_length_pos n)

theorem digits_ratio (misses : Nat) : digits (iterations - misses) ≤ 4 :=
  digits_iterations ▸ digits_mono (Nat.sub_le iterations misses)

/-! ## Rows -/

/-- The characters of the positions of a row. -/
def rowWidth (row : List Int) : Nat :=
  (",".intercalate (row.map toString)).length

/-- A separator takes one character between any two parts. -/
theorem intercalate_length {parts : List String} (nonempty : parts ≠ []) :
    (",".intercalate parts).length + 1 = (parts.map fun part => part.length + 1).sum := by
  have comma : ",".length = 1 := by decide
  induction parts with
  | nil => exact absurd rfl nonempty
  | cons part rest inductionHypothesis =>
      cases rest with
      | nil => rw [String.intercalate_singleton, List.map_singleton, List.sum_singleton]
      | cons next later =>
          have shorter := inductionHypothesis (List.cons_ne_nil next later)
          rw [String.intercalate_cons_cons, String.length_append, String.length_append, comma, List.map_cons,
            List.sum_cons, ← shorter]
          ring

/-- The longest row has 32 positions of two characters. -/
theorem rowWidth_full : rowWidth (List.replicate 32 (-1)) = 95 := by
  have two : (toString (-1 : Int)).length = 2 := by decide
  have nonempty : List.replicate 32 (toString (-1 : Int)) ≠ [] := List.cons_ne_nil _ _
  have counted := intercalate_length nonempty
  rw [List.map_replicate, List.sum_replicate, two, smul_eq_mul] at counted
  rw [rowWidth, List.map_replicate]
  omega

theorem rowWidth_le {row : List Int} (few : row.length ≤ 32)
    (short : ∀ position, position ∈ row -> (toString position).length ≤ 2) : rowWidth row ≤ 95 := by
  unfold rowWidth
  cases row with
  | nil => exact Nat.zero_le _
  | cons position rest =>
      have counted := intercalate_length (List.cons_ne_nil (toString position) (rest.map toString))
      have each : ∀ size, size ∈ ((position :: rest).map toString).map (fun part => part.length + 1) -> size ≤ 3 := by
        intro size member
        rcases List.mem_map.mp member with ⟨part, inside, rfl⟩
        rcases List.mem_map.mp inside with ⟨other, inRow, rfl⟩
        exact Nat.succ_le_succ (short other inRow)
      have bounded := List.sum_le_card_nsmul _ _ each
      simp only [List.length_map, smul_eq_mul] at bounded
      rw [List.map_cons] at bounded ⊢
      omega

/-! ## Lines -/

/-- The characters of a line: its fixed text and its numbers. -/
def width : ReportLine -> Nat
  | existence level misses =>
      if reachesThreshold misses iterations then 53 + digits level + digits misses
      else 49 + digits level + digits (iterations - misses)
  | hierarchyHeader level => 30 + digits level
  | splitInstructions level misses | splitData level misses | shared level misses =>
      29 + digits level + digits (iterations - misses)
  | structureOf hash level setBits ways certainty =>
      64 + digits level + digits (1 <<< setBits) + digits ways + (hashName hash).length + digits certainty
  | unknownHashFunction level => 60 + digits level
  | evictionSetAligns level aligning => 64 + digits level + digits aligning
  | evictionSetDoesNotAlign level aligning => 74 + digits level + digits (iterations / 10 - aligning)
  | permutationHeader level => 32 + digits level
  | permutationRow level index row => 21 + digits level + digits index + rowWidth row
  | cannotEvaluateNesting level => 57 + digits level
  | nested level misses => 76 + digits level + digits (level + 1) + digits misses
  | notNested level misses => 80 + digits level + digits (level + 1) + digits (iterations - misses)
  | hugeTlbUnified level misses => 62 + digits level + digits misses
  | hugeTlbSeparate level certainty => 57 + digits level + digits certainty
  | supportedPcids level amountPcids noflush misses =>
      66 + digits level + digits amountPcids + digits noflush + digits misses
  | respectsPcids level misses => 52 + digits level + digits misses
  | doesNotRespectPcids level misses => 60 + digits level + digits (iterations - misses)

theorem text_length (line : ReportLine) : line.text.length = line.width := by
  have thousand : (toString iterations).length = 4 := digits_iterations
  have hundred : (toString (iterations / 10)).length = 3 := by decide
  cases line with
  | existence level misses =>
      dsimp only [text, width, ratio, digits]
      split <;>
      · simp only [String.length_append, thousand]
        repeat rw [String.length_ofList]
        simp only [List.length_cons, List.length_nil]
        omega
  | _ =>
      dsimp only [text, width, ratio, digits, rowWidth]
      simp only [String.length_append, thousand, hundred]
      repeat rw [String.length_ofList]
      simp only [List.length_cons, List.length_nil]
      omega

/-- The characters of the longest line that an evaluation can print. -/
def limit : ReportLine -> Nat
  | existence _ _ => 58
  | hierarchyHeader _ => 31
  | splitInstructions _ _ | splitData _ _ | shared _ _ => 34
  | structureOf _ _ _ _ _ => 85
  | unknownHashFunction _ => 61
  | evictionSetAligns _ _ | evictionSetDoesNotAlign _ _ => 78
  | permutationHeader _ => 33
  | permutationRow _ index _ => 117 + digits index
  | cannotEvaluateNesting _ | nested _ _ | notNested _ _ => 86
  | hugeTlbUnified _ _ | hugeTlbSeparate _ _ => 67
  | supportedPcids _ _ _ _ => 76
  | respectsPcids _ _ | doesNotRespectPcids _ _ => 65

/-- The largest numbers decide. -/
theorem width_le {line : ReportLine} (inRange : line.InRange) : line.width ≤ line.limit := by
  have level_le : ∀ {level : Nat}, level ≤ 4 -> digits level ≤ 1 := fun below =>
    digits_le_one (Nat.le_trans below (by decide))
  have next_le : ∀ {level : Nat}, level ≤ 4 -> digits (level + 1) ≤ 1 := fun below =>
    digits_le_one (Nat.le_trans (Nat.succ_le_succ below) (by decide))
  have misses_le : ∀ {misses : Nat}, misses ≤ iterations -> digits misses ≤ 4 := fun below =>
    digits_iterations ▸ digits_mono below
  cases line with
  | existence level misses =>
      have first := level_le inRange.1
      have second := misses_le inRange.2
      have rest := digits_ratio misses
      dsimp only [width, limit]
      split <;> omega
  | hierarchyHeader level => exact Nat.add_le_add_left (level_le inRange) 30
  | splitInstructions level misses =>
      have first := level_le inRange
      have rest := digits_ratio misses
      dsimp only [width, limit]
      omega
  | splitData level misses =>
      have first := level_le inRange
      have rest := digits_ratio misses
      dsimp only [width, limit]
      omega
  | shared level misses =>
      have first := level_le inRange
      have rest := digits_ratio misses
      dsimp only [width, limit]
      omega
  | structureOf hash level setBits ways certainty =>
      rcases inRange with ⟨below, few, small, certain⟩
      have first := level_le below
      have sets : digits (1 <<< setBits) ≤ 3 := by
        rw [Nat.one_shiftLeft]
        exact digits_mono (Nat.pow_le_pow_right (by decide) few)
      have positions : digits ways ≤ 2 := digits_mono small
      have last := misses_le certain
      have name : (hashName hash).length ≤ 11 := by cases hash <;> decide
      dsimp only [width, limit]
      omega
  | unknownHashFunction level => exact Nat.add_le_add_left (level_le inRange) 60
  | evictionSetAligns level aligning =>
      have first := level_le inRange.1
      have second : digits aligning ≤ 3 := digits_mono inRange.2
      dsimp only [width, limit]
      omega
  | evictionSetDoesNotAlign level aligning =>
      have first := level_le inRange
      have rest : digits (iterations / 10 - aligning) ≤ 3 := digits_mono (Nat.sub_le (iterations / 10) aligning)
      dsimp only [width, limit]
      omega
  | permutationHeader level => exact Nat.add_le_add_left (level_le inRange) 32
  | permutationRow level index row =>
      have first := level_le inRange.1
      have positions := rowWidth_le inRange.2.1 inRange.2.2
      dsimp only [width, limit]
      omega
  | cannotEvaluateNesting level =>
      have first := level_le inRange
      dsimp only [width, limit]
      omega
  | nested level misses =>
      have first := level_le inRange.1
      have next := next_le inRange.1
      have last := misses_le inRange.2
      dsimp only [width, limit]
      omega
  | notNested level misses =>
      have first := level_le inRange
      have next := next_le inRange
      have rest := digits_ratio misses
      dsimp only [width, limit]
      omega
  | hugeTlbUnified level misses =>
      have first := level_le inRange.1
      have last := misses_le inRange.2
      dsimp only [width, limit]
      omega
  | hugeTlbSeparate level certainty =>
      have first := level_le inRange.1
      have last : digits certainty ≤ 4 := digits_mono inRange.2
      dsimp only [width, limit]
      omega
  | supportedPcids level amountPcids noflush misses =>
      rcases inRange with ⟨below, few, bit, counted⟩
      have first := level_le below
      have amount : digits amountPcids ≤ 4 := digits_mono few
      have flag : digits noflush ≤ 1 := digits_le_one (Nat.le_trans bit (by decide))
      have last := misses_le counted
      dsimp only [width, limit]
      omega
  | respectsPcids level misses =>
      have first := level_le inRange.1
      have last := misses_le inRange.2
      dsimp only [width, limit]
      omega
  | doesNotRespectPcids level misses =>
      have first := level_le inRange
      have rest := digits_ratio misses
      dsimp only [width, limit]
      omega

/-- What is appended of a line in range. -/
theorem printed_length_le {line : ReportLine} (inRange : line.InRange) : line.printed.length ≤ line.limit := by
  apply Nat.le_trans line.printed_le
  rw [text_length]
  exact width_le inRange

/-! ## The longest lines -/

/-- The lines with the largest numbers, in the longer of two texts. -/
def Longest : ReportLine -> Prop
  | existence level misses => level ≤ 4 ∧ misses = iterations
  | hierarchyHeader level => level ≤ 4
  | splitInstructions level misses | splitData level misses | shared level misses => level ≤ 4 ∧ misses = 0
  | structureOf hash level setBits ways certainty =>
      level ≤ 4 ∧ hash = .linShiftHash ∧ setBits = 8 ∧ ways = 32 ∧ certainty = iterations
  | evictionSetDoesNotAlign level aligning => level ≤ 4 ∧ aligning = 0
  | permutationHeader level => level ≤ 4
  | permutationRow level _ row => level ≤ 4 ∧ row = List.replicate 32 (-1)
  | notNested level misses => level ≤ 4 ∧ misses = 0
  | hugeTlbUnified level misses => level ≤ 4 ∧ misses = iterations
  | supportedPcids level amountPcids noflush misses =>
      level ≤ 4 ∧ amountPcids = 1000 ∧ noflush ≤ 1 ∧ misses = iterations
  | doesNotRespectPcids level misses => level ≤ 4 ∧ misses = 0
  | _ => False

theorem width_eq {line : ReportLine} (isLongest : line.Longest) : line.width = line.limit := by
  have level_eq : ∀ {level : Nat}, level ≤ 4 -> digits level = 1 := fun below =>
    digits_one (Nat.le_trans below (by decide))
  have thousand := digits_iterations
  cases line with
  | existence level misses =>
      rcases isLongest with ⟨below, rfl⟩
      have reaches : reachesThreshold iterations iterations = true := by decide
      rw [width, if_pos reaches, level_eq below, thousand]
      rfl
  | hierarchyHeader level => rw [width, level_eq isLongest]; rfl
  | splitInstructions level misses =>
      rcases isLongest with ⟨below, rfl⟩
      rw [width, level_eq below, Nat.sub_zero, thousand]
      rfl
  | splitData level misses =>
      rcases isLongest with ⟨below, rfl⟩
      rw [width, level_eq below, Nat.sub_zero, thousand]
      rfl
  | shared level misses =>
      rcases isLongest with ⟨below, rfl⟩
      rw [width, level_eq below, Nat.sub_zero, thousand]
      rfl
  | structureOf hash level setBits ways certainty =>
      rcases isLongest with ⟨below, rfl, rfl, rfl, rfl⟩
      have sets : digits (1 <<< 8) = 3 := by decide
      have positions : digits 32 = 2 := by decide
      have name : (hashName .linShiftHash).length = 11 := by decide
      rw [width, level_eq below, sets, positions, name, thousand]
      rfl
  | evictionSetDoesNotAlign level aligning =>
      rcases isLongest with ⟨below, rfl⟩
      have hundred : digits (iterations / 10 - 0) = 3 := by decide
      rw [width, level_eq below, hundred]
      rfl
  | permutationHeader level => rw [width, level_eq isLongest]; rfl
  | permutationRow level index row =>
      rcases isLongest with ⟨below, rfl⟩
      rw [width, level_eq below, rowWidth_full, limit]
      omega
  | notNested level misses =>
      rcases isLongest with ⟨below, rfl⟩
      rw [width, level_eq below, digits_one (Nat.le_trans (Nat.succ_le_succ below) (by decide)), Nat.sub_zero, thousand]
      rfl
  | hugeTlbUnified level misses =>
      rcases isLongest with ⟨below, rfl⟩
      rw [width, level_eq below, thousand]
      rfl
  | supportedPcids level amountPcids noflush misses =>
      rcases isLongest with ⟨below, rfl, bit, rfl⟩
      have amount : digits 1000 = 4 := thousand
      rw [width, level_eq below, amount, digits_one (Nat.le_trans bit (by decide)), thousand]
      rfl
  | doesNotRespectPcids level misses =>
      rcases isLongest with ⟨below, rfl⟩
      rw [width, level_eq below, Nat.sub_zero, thousand]
      rfl
  | _ => exact isLongest.elim

/-- No line of the limit's length is cut off. -/
theorem limit_lt {line : ReportLine} {size : Nat} (limited : line.bufferSize = some size) : line.limit < size := by
  cases line <;> cases limited <;>
  · dsimp only [limit]
    decide

/-- What is appended of the longest lines. -/
theorem printed_length_eq {line : ReportLine} (isLongest : line.Longest) : line.printed.length = line.limit := by
  have measured := width_eq isLongest
  rw [← text_length, ← String.length_toList] at measured
  rw [printed]
  cases limited : line.bufferSize with
  | none => exact measured
  | some size =>
      have short := limit_lt limited
      rw [← measured] at short ⊢
      exact congrArg List.length (List.take_of_length_le (Nat.le_sub_one_of_lt short))

end ReportLine

end Talbot
