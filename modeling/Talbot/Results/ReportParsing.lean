import Talbot.Kernel.LineLengths
import Talbot.UserSpace.Evaluation

namespace Talbot
namespace Summary

/-!
The script reads what the kernel module prints.

A line of the report is a title, a certainty in parentheses, and an ending.  Titles
may contain parentheses or slashes, but not both, so the certainty is found where it
was printed, and what is left of the line is its title with the ending.
-/

open Foundations

/-! ## Matches of the two expressions -/

section Matches

def AllDigits (number : List Char) : Prop :=
  ∀ character, character ∈ number -> character.isDigit = true

/-- `(count/total)`, and what follows. -/
def ratioText (count total rest : List Char) : List Char :=
  '(' :: (count ++ '/' :: (total ++ ')' :: rest))

theorem of_ratioAt {text rest : List Char} {numbers : List Char × List Char}
    (found : ratioAt text = some (numbers, rest)) :
    AllDigits numbers.1 ∧ text = ratioText numbers.1 numbers.2 rest := by
  unfold ratioAt at found
  simp only [Option.bind_eq_bind, Option.bind_eq_some_iff, exactly_eq_some, Prod.exists] at found
  rcases found with ⟨_, rfl, count, _, someCount, _, rfl, total, _, someTotal, _, rfl, ⟨⟩⟩
  rcases of_someOf someCount with ⟨_, digits, rfl⟩
  rcases of_someOf someTotal with ⟨_, _, rfl⟩
  exact ⟨digits, rfl⟩

theorem ratioAt_ratioText {count total : List Char} (someCount : count ≠ []) (someTotal : total ≠ [])
    (countDigits : AllDigits count) (totalDigits : AllDigits total) (rest : List Char) :
    ratioAt (ratioText count total rest) = some ((count, total), rest) := by
  have slash : Char.isDigit '/' = false := by decide
  have closing : Char.isDigit ')' = false := by decide
  unfold ratioAt ratioText
  simp only [exactly, if_true, Option.bind_eq_bind, Option.bind_some, someOf_run someCount countDigits slash,
    someOf_run someTotal totalDigits closing]
  rfl

def AllBlank (text : List Char) : Prop :=
  ∀ character, character ∈ text -> isSpace character = true

theorem of_spacedRatioAt {text : List Char} (found : spacedRatioAt text ≠ 0) :
    ∃ blanks count total rest, AllBlank blanks ∧ AllDigits count ∧ text = blanks ++ ratioText count total rest := by
  unfold spacedRatioAt at found
  split at found
  · rename_i rest matched
    simp only [Option.bind_eq_bind, Option.bind_eq_some_iff, Prod.exists] at matched
    rcases matched with ⟨blanks, ratio, someBlanks, count, total, _, ratioFound, ⟨⟩⟩
    rcases of_someOf someBlanks with ⟨_, blank, rfl⟩
    rcases of_ratioAt ratioFound with ⟨digits, same⟩
    exact ⟨blanks, _, _, _, blank, digits, congrArg _ same⟩
  · exact absurd rfl found

theorem spacedRatioAt_ratioText {count total : List Char} (someCount : count ≠ []) (someTotal : total ≠ [])
    (countDigits : AllDigits count) (totalDigits : AllDigits total) (rest : List Char) :
    spacedRatioAt (' ' :: ratioText count total rest) = (' ' :: ratioText count total []).length := by
  have blank : ∀ character, character ∈ [' '] -> isSpace character = true := by
    intro character inside
    rw [List.mem_singleton.mp inside]
    decide
  have opening : isSpace '(' = false := by decide
  have spaced := @someOf_run _ isSpace [' '] '(' (count ++ '/' :: (total ++ ')' :: rest)) (List.cons_ne_nil _ _) blank
    opening
  have matched := ratioAt_ratioText someCount someTotal countDigits totalDigits rest
  unfold spacedRatioAt
  rw [show ' ' :: ratioText count total rest = [' '] ++ '(' :: (count ++ '/' :: (total ++ ')' :: rest)) from rfl, spaced]
  simp only [Option.bind_eq_bind, Option.bind_some]
  rw [show '(' :: (count ++ '/' :: (total ++ ')' :: rest)) = ratioText count total rest from rfl, matched]
  simp only [Option.bind_some, Option.pure_def, ratioText, List.length_append, List.length_cons, List.length_nil]
  omega

theorem slash_mem_ratioText (count total rest : List Char) : '/' ∈ ratioText count total rest :=
  List.mem_cons_of_mem _ (List.mem_append_right _ List.mem_cons_self)

/-- Where a certainty can be found in front of a printed one: nowhere else.  A title
has no opening bracket or no slash, and a certainty needs both. -/
theorem ratio_position {before blanks count total rest printed printedTotal ending : List Char}
    (apart : '(' ∉ before ∨ '/' ∉ before) (blank : AllBlank blanks) (digits : AllDigits count)
    (printedDigits : AllDigits printed)
    (same : before ++ ' ' :: ratioText printed printedTotal ending = blanks ++ ratioText count total rest) :
    blanks = before ++ [' '] := by
  rcases apart with noParenthesis | noSlash
  · have first : '(' ∉ before ++ [' '] := by
      rw [List.mem_append, List.mem_singleton]
      exact fun either => either.elim noParenthesis (by decide)
    rw [ratioText, ratioText, ← List.singleton_append, ← List.append_assoc] at same
    exact (cut_unique first (not_mem_run blank (by decide)) same).1.symm
  · have first : '/' ∉ before ++ ' ' :: '(' :: printed := by
      simp only [List.mem_append, List.mem_cons, not_or]
      exact ⟨noSlash, by decide, by decide, not_mem_run printedDigits (by decide)⟩
    have second : '/' ∉ blanks ++ '(' :: count := by
      simp only [List.mem_append, List.mem_cons, not_or]
      exact ⟨not_mem_run blank (by decide), by decide, not_mem_run digits (by decide)⟩
    have runs : (before ++ ' ' :: '(' :: printed) ++ '/' :: (printedTotal ++ ')' :: ending) =
        (blanks ++ '(' :: count) ++ '/' :: (total ++ ')' :: rest) := by
      rw [ratioText, ratioText] at same
      simp only [List.append_assoc, List.cons_append] at same ⊢
      exact same
    have fronts := congrArg List.reverse (cut_unique first second runs).1
    have turned : ∀ {number : List Char}, AllDigits number -> ∀ character, character ∈ number.reverse ->
        character.isDigit = true := fun digits character inside => digits character (List.mem_reverse.mp inside)
    simp only [List.reverse_append, List.reverse_cons, List.append_assoc, List.cons_append, List.nil_append] at fronts
    have rests := congrArg List.reverse
      (run_unique (turned printedDigits) (turned digits) (by decide) (by decide) fronts).2
    rw [List.reverse_cons, List.reverse_reverse, List.reverse_reverse] at rests
    exact rests.symm

end Matches

/-! ## A printed line -/

section PrintedLine

variable {title ending count total : List Char}

theorem spaced_nowhere (apart : '(' ∉ title ∨ '/' ∉ title) (visible : Visible isSpace title) (digits : AllDigits count)
    {tail : List Char} (inside : tail <:+ title) (nonempty : tail ≠ []) :
    spacedRatioAt (tail ++ ' ' :: ratioText count total ending) = 0 := by
  by_contra found
  rcases of_spacedRatioAt found with ⟨blanks, other, otherTotal, rest, blank, otherDigits, same⟩
  have tailApart : '(' ∉ tail ∨ '/' ∉ tail :=
    apart.imp (fun absent known => absent (inside.subset known)) fun absent known => absent (inside.subset known)
  have position := ratio_position tailApart blank otherDigits digits same
  have last := List.getLast_mem nonempty
  have shown := visible.finish (tail.getLast nonempty) (by
    rcases inside with ⟨front, rfl⟩
    rw [List.getLast?_append_of_ne_nil _ nonempty]
    exact List.getLast?_eq_getLast_of_ne_nil nonempty)
  rw [blank (tail.getLast nonempty) (position ▸ List.mem_append_left _ last)] at shown
  cases shown

theorem ratio_nowhere (apart : '(' ∉ title ∨ '/' ∉ title) (digits : AllDigits count) {tail : List Char}
    (inside : tail <:+ title) (nonempty : tail ≠ []) : ratioAt (tail ++ ' ' :: ratioText count total ending) = none := by
  cases found : ratioAt (tail ++ ' ' :: ratioText count total ending) with
  | none => rfl
  | some result =>
      have tailApart : '(' ∉ tail ∨ '/' ∉ tail :=
        apart.imp (fun absent known => absent (inside.subset known)) fun absent known => absent (inside.subset known)
      rcases of_ratioAt found with ⟨otherDigits, same⟩
      have nothing : AllBlank [] := fun _ impossible => absurd impossible List.not_mem_nil
      have position := ratio_position tailApart nothing otherDigits digits same
      cases tail with
      | nil => exact absurd rfl nonempty
      | cons first rest => cases position

theorem nowhere_of_no_slash {text : List Char} (noSlash : '/' ∉ text) :
    deleteMatches spacedRatioAt 0 text = text ∧ firstMatch ratioAt text = none := by
  refine ⟨deleteMatches_eq_self fun tail inside _ => ?_, firstMatch_eq_none fun tail inside _ => ?_⟩
  · by_contra found
    rcases of_spacedRatioAt found with ⟨blanks, _, _, _, _, _, same⟩
    exact noSlash (inside.subset (same ▸ List.mem_append_right blanks (slash_mem_ratioText _ _ _)))
  · cases found : ratioAt tail with
    | none => rfl
    | some result =>
        have same := (of_ratioAt found).2
        exact absurd (inside.subset (same ▸ slash_mem_ratioText _ _ _)) noSlash

/-- Nothing but the printed certainty is taken out of a line. -/
theorem delete_printed (apart : '(' ∉ title ∨ '/' ∉ title) (visible : Visible isSpace title) (noSlash : '/' ∉ ending)
    (someCount : count ≠ []) (someTotal : total ≠ []) (countDigits : AllDigits count) (totalDigits : AllDigits total) :
    deleteMatches spacedRatioAt 0 (title ++ ' ' :: ratioText count total ending) = title ++ ending := by
  have split : ' ' :: ratioText count total ending = (' ' :: ratioText count total []) ++ ending := by
    simp only [ratioText, List.cons_append, List.append_assoc, List.nil_append]
  have matched := spacedRatioAt_ratioText someCount someTotal countDigits totalDigits ending
  rw [deleteMatches_append fun tail inside nonempty => spaced_nowhere apart visible countDigits inside nonempty]
  rw [split] at matched ⊢
  rw [deleteMatches_match (List.cons_ne_nil _ _) matched, (nowhere_of_no_slash noSlash).1]

theorem firstMatch_printed (apart : '(' ∉ title ∨ '/' ∉ title) (someCount : count ≠ []) (someTotal : total ≠ [])
    (countDigits : AllDigits count) (totalDigits : AllDigits total) :
    firstMatch ratioAt (title ++ ' ' :: ratioText count total ending) = some ((count, total), ending) := by
  have blank : ratioAt (' ' :: ratioText count total ending) = none := rfl
  have matched := ratioAt_ratioText someCount someTotal countDigits totalDigits ending
  rw [firstMatch_append fun tail inside nonempty => ratio_nowhere apart countDigits inside nonempty, firstMatch, blank,
    Option.none_or]
  unfold ratioText at matched ⊢
  rw [firstMatch, matched, Option.some_or]

end PrintedLine

end Summary

/-! ## The lines of the report -/

namespace ReportLine

open Foundations Summary

/-- The certainty of a line: how often out of how many times. -/
def certainty : ReportLine -> Option (Nat × Nat)
  | existence _ misses =>
      if reachesThreshold misses iterations then some (misses, iterations)
      else some (iterations - misses, iterations)
  | splitInstructions _ misses | splitData _ misses | shared _ misses | notNested _ misses
  | doesNotRespectPcids _ misses => some (iterations - misses, iterations)
  | structureOf _ _ _ _ certainty | hugeTlbSeparate _ certainty => some (certainty, iterations)
  | evictionSetAligns _ aligning => some (aligning, iterations / 10)
  | evictionSetDoesNotAlign _ aligning => some (iterations / 10 - aligning, iterations / 10)
  | nested _ misses | hugeTlbUnified _ misses | supportedPcids _ _ _ misses | respectsPcids _ misses =>
      some (misses, iterations)
  | hierarchyHeader _ | unknownHashFunction _ | permutationHeader _ | permutationRow _ _ _
  | cannotEvaluateNesting _ => none

/-- A line up to its certainty, or all of it. -/
def front : ReportLine -> String
  | existence level misses =>
      if reachesThreshold misses iterations then
        "[*] Level " ++ toString level ++ " translation cache does not exist "
      else "[*] Level " ++ toString level ++ " translation cache does exist "
  | splitInstructions level _ => "[*]\tLevel " ++ toString level ++ " split L1i "
  | splitData level _ => "[*]\tLevel " ++ toString level ++ " split L1d "
  | shared level _ => "[*]\tLevel " ++ toString level ++ " shared L2 "
  | structureOf hash level setBits ways _ =>
      "[*] Level " ++ toString level ++ " translation cache structure: " ++
        toString ((1 : Nat) <<< setBits) ++ " Sets, " ++ toString ways ++ " Ways, " ++ hashName hash ++ " "
  | evictionSetAligns level _ =>
      "[-] Level " ++ toString level ++ " hash function and minimal eviction set align! "
  | evictionSetDoesNotAlign level _ =>
      "[-] Level " ++ toString level ++ " hash function does not align with minimal eviction set! "
  | nested level _ =>
      "[*] Level " ++ toString level ++ " translation cache is nested in level " ++
        toString (level + 1) ++ " translation cache "
  | notNested level _ =>
      "[*] Level " ++ toString level ++ " translation cache is NOT nested in level " ++
        toString (level + 1) ++ " translation cache "
  | hugeTlbUnified level _ =>
      "[*] Level " ++ toString level ++ " translation cache and huge TLB are unified "
  | hugeTlbSeparate level _ =>
      "[*] Separate level " ++ toString level ++ " translation cache / huge TLB "
  | supportedPcids level amountPcids noflush _ =>
      "[*] Level " ++ toString level ++ " translation cache supports " ++ toString amountPcids ++
        " PCIDs (NOFLUSH = " ++ toString noflush ++ ") "
  | respectsPcids level _ => "[*] Level " ++ toString level ++ " translation cache respects PCIDs "
  | doesNotRespectPcids level _ =>
      "[*] Level " ++ toString level ++ " translation cache does NOT respect PCIDs "
  | hierarchyHeader level => (hierarchyHeader level).text
  | unknownHashFunction level => (unknownHashFunction level).text
  | permutationHeader level => (permutationHeader level).text
  | permutationRow level index row => (permutationRow level index row).text
  | cannotEvaluateNesting level => (cannotEvaluateNesting level).text

/-- What follows the certainty. -/
def back : ReportLine -> String
  | existence _ _ => "!\n"
  | structureOf _ _ _ _ _ | nested _ _ | notNested _ _ => ".\n"
  | _ => "\n"

theorem text_of_certainty {line : ReportLine} {count total : Nat} (certain : line.certainty = some (count, total)) :
    line.text = line.front ++ ratio count total ++ line.back := by
  cases line with
  | existence level misses =>
      dsimp only [certainty] at certain
      dsimp only [text, front, back]
      by_cases reached : reachesThreshold misses iterations = true
      · rw [if_pos reached] at certain
        cases certain
        rw [if_pos reached, if_pos reached]
      · rw [if_neg reached] at certain
        cases certain
        rw [if_neg reached, if_neg reached]
  | hierarchyHeader level => cases certain
  | unknownHashFunction level => cases certain
  | permutationHeader level => cases certain
  | permutationRow level index row => cases certain
  | cannotEvaluateNesting level => cases certain
  | _ =>
      cases certain
      dsimp only [text, front, back]

theorem front_of_no_certainty {line : ReportLine} (uncertain : line.certainty = none) : line.front = line.text := by
  cases line with
  | existence level misses =>
      dsimp only [certainty] at uncertain
      split at uncertain <;> cases uncertain
  | hierarchyHeader level => dsimp only [front]
  | unknownHashFunction level => dsimp only [front]
  | permutationHeader level => dsimp only [front]
  | permutationRow level index row => dsimp only [front]
  | cannotEvaluateNesting level => dsimp only [front]
  | _ => cases uncertain

/-! ## What the texts contain -/

/-- A text ends with the given character behind a visible one, and has only accepted
characters before it. -/
def Closing (accepts : Char -> Bool) (last : Char) (text : List Char) : Prop :=
  ∃ body, text = body ++ [last] ∧ (∀ character, character ∈ body -> accepts character = true) ∧
    ∃ shown, body.getLast? = some shown ∧ isSpace shown = false

section Pieces

variable {accepts : Char -> Bool} {last : Char}

theorem closing_append {before text : List Char} (accepted : ∀ character, character ∈ before -> accepts character = true)
    (closing : Closing accepts last text) : Closing accepts last (before ++ text) := by
  rcases closing with ⟨body, rfl, bodyAccepted, shown, finish, visible⟩
  refine ⟨before ++ body, (List.append_assoc _ _ _).symm, ?_, shown, ?_, visible⟩
  · exact fun character inside => (List.mem_append.mp inside).elim (accepted character) (bodyAccepted character)
  · rw [List.getLast?_append, finish, Option.some_or]

theorem closing_literal (text : List Char) (shown : text.dropLast.getLast?.any (fun shown => !isSpace shown) = true)
    (accepted : text.dropLast.all accepts = true) (ends : text.getLast? = some last) :
    Closing accepts last (String.ofList text).toList := by
  rw [String.toList_ofList]
  refine ⟨text.dropLast, ?_, List.all_eq_true.mp accepted, ?_⟩
  · exact (List.dropLast_append_getLast? last ends).symm
  · cases finish : text.dropLast.getLast? with
    | none =>
        rw [finish] at shown
        cases shown
    | some character =>
        rw [finish] at shown
        exact ⟨character, rfl, Eq.mp (Bool.not_eq_true' _) shown⟩

theorem accepted_literal (text : List Char) (accepted : text.all accepts = true) :
    ∀ character, character ∈ (String.ofList text).toList -> accepts character = true := by
  rw [String.toList_ofList]
  exact List.all_eq_true.mp accepted

end Pieces

theorem allDigits_toString (number : Nat) : AllDigits (toString number).toList := by
  intro character inside
  rw [Nat.toString_eq_repr, Nat.toList_repr] at inside
  exact Nat.isDigit_of_mem_toDigits (by decide) (by decide) inside

theorem toString_ne_nil (number : Nat) : (toString number).toList ≠ [] := by
  rw [Nat.toString_eq_repr, Nat.toList_repr]
  exact Nat.toDigits_ne_nil

theorem ofDigitChars_toString (number : Nat) : Nat.ofDigitChars 10 (toString number).toList 0 = number := by
  rw [Nat.toString_eq_repr, Nat.toList_repr]
  exact Nat.ofDigitChars_ten_toDigits

/-- The character that a title must not contain. -/
def separator : ReportLine -> Char
  | hugeTlbSeparate _ _ => '('
  | _ => '/'

def inTitle (separator character : Char) : Bool :=
  character != separator && !isLineBreak character

theorem inTitle_of_isDigit {separator character : Char} (other : separator.isDigit = false)
    (digit : character.isDigit = true) : inTitle separator character = true := by
  have bounds : 48 ≤ character.toNat ∧ character.toNat ≤ 57 := by
    unfold Char.isDigit at digit
    rw [Bool.and_eq_true, decide_eq_true_eq, decide_eq_true_eq] at digit
    exact digit
  have differs : character ≠ separator := by
    rintro rfl
    rw [digit] at other
    cases other
  have unbroken : isLineBreak character = false := by
    unfold isLineBreak
    simp only [Bool.or_eq_false_iff, Bool.and_eq_false_iff, decide_eq_false_iff_not, beq_eq_false_iff_ne]
    omega
  rw [inTitle, bne_iff_ne.mpr differs, unbroken]
  rfl

theorem inTitle_toString {separator : Char} (other : separator.isDigit = false) (number : Nat) :
    ∀ character, character ∈ (toString number).toList -> inTitle separator character = true :=
  fun character inside => inTitle_of_isDigit other (allDigits_toString number character inside)

theorem inTitle_position {separator : Char} (other : separator.isDigit = false) (minus : inTitle separator '-' = true)
    (position : Int) : ∀ character, character ∈ (toString position).toList -> inTitle separator character = true := by
  cases position with
  | ofNat number => exact inTitle_toString other number
  | negSucc number =>
      have dash : ("-" : String).toList = ['-'] := String.toList_ofList
      have sign : (toString (Int.negSucc number)).toList = '-' :: (toString (number + 1)).toList := by
        change ("-" ++ Nat.repr (number + 1)).toList = _
        rw [String.toList_append, dash]
        rfl
      rw [sign]
      exact List.forall_mem_cons.mpr ⟨minus, inTitle_toString other (number + 1)⟩

theorem inTitle_intercalate {separator : Char} (commas : inTitle separator ',' = true) {parts : List String}
    (accepted : ∀ part, part ∈ parts -> ∀ character, character ∈ part.toList -> inTitle separator character = true) :
    ∀ character, character ∈ (",".intercalate parts).toList -> inTitle separator character = true := by
  have comma : (",".toList) = [','] := String.toList_ofList
  induction parts with
  | nil =>
      have empty : ("" : String).toList = [] := String.toList_ofList
      rw [String.intercalate_nil, empty]
      exact fun character impossible => absurd impossible List.not_mem_nil
  | cons part rest inductionHypothesis =>
      rcases List.forall_mem_cons.mp accepted with ⟨here, later⟩
      cases rest with
      | nil =>
          rw [String.intercalate_singleton]
          exact here
      | cons next others =>
          rw [String.intercalate_cons_cons, String.toList_append, String.toList_append, comma]
          intro character inside
          rcases List.mem_append.mp inside with front | back
          · rcases List.mem_append.mp front with own | between
            · exact here character own
            · rw [List.mem_singleton.mp between]
              exact commas
          · exact inductionHypothesis later character back

/-- The last character of a front. -/
def frontEnd (line : ReportLine) : Char :=
  if line.certainty = none then '\n' else ' '

theorem front_closing (line : ReportLine) : Closing (inTitle line.separator) line.frontEnd line.front.toList := by
  cases line with
  | existence level misses =>
      dsimp only [front, separator, frontEnd, certainty]
      split
      all_goals
        rw [if_neg (Option.some_ne_none _)]
        simp only [String.toList_append, List.append_assoc]
        exact closing_append (accepted_literal _ (by decide +kernel)) (closing_append (inTitle_toString (by decide) _)
          (closing_literal _ (by decide +kernel) (by decide +kernel) rfl))
  | structureOf hash level setBits ways certainty =>
      have name : Closing (inTitle '/') ' ' ((hashName hash).toList ++ " ".toList) := by
        have blank : (" " : String).toList = [' '] := String.toList_ofList
        rw [blank]
        cases hash with
        | linHash => exact ⟨_, rfl, accepted_literal _ rfl, _, congrArg List.getLast? String.toList_ofList, rfl⟩
        | linShiftHash => exact ⟨_, rfl, accepted_literal _ rfl, _, congrArg List.getLast? String.toList_ofList, rfl⟩
        | xorHash => exact ⟨_, rfl, accepted_literal _ rfl, _, congrArg List.getLast? String.toList_ofList, rfl⟩
      dsimp only [front, separator]
      simp only [String.toList_append, List.append_assoc]
      exact closing_append (accepted_literal _ (by decide +kernel)) (closing_append (inTitle_toString (by decide) _)
        (closing_append (accepted_literal _ (by decide +kernel)) (closing_append (inTitle_toString (by decide) _)
          (closing_append (accepted_literal _ (by decide +kernel)) (closing_append (inTitle_toString (by decide) _)
            (closing_append (accepted_literal _ (by decide +kernel)) name))))))
  | permutationRow level index row =>
      have positions := @inTitle_intercalate '/' (by decide) (row.map toString) fun part inside => by
        rcases List.mem_map.mp inside with ⟨position, _, rfl⟩
        exact inTitle_position (by decide) (by decide) position
      dsimp only [front, text, separator]
      simp only [String.toList_append, List.append_assoc]
      exact closing_append (accepted_literal _ (by decide +kernel)) (closing_append (inTitle_toString (by decide) _)
        (closing_append (accepted_literal _ (by decide +kernel)) (closing_append (inTitle_toString (by decide) _)
          (closing_append (accepted_literal _ (by decide +kernel)) (closing_append positions
            (closing_literal _ (by decide +kernel) (by decide +kernel) rfl))))))
  | supportedPcids level amountPcids noflush misses =>
      dsimp only [front, separator]
      simp only [String.toList_append, List.append_assoc]
      exact closing_append (accepted_literal _ (by decide +kernel)) (closing_append (inTitle_toString (by decide) _)
        (closing_append (accepted_literal _ (by decide +kernel)) (closing_append (inTitle_toString (by decide) _)
          (closing_append (accepted_literal _ (by decide +kernel)) (closing_append (inTitle_toString (by decide) _)
            (closing_literal _ (by decide +kernel) (by decide +kernel) rfl))))))
  | nested level misses | notNested level misses =>
      dsimp only [front, separator]
      simp only [String.toList_append, List.append_assoc]
      exact closing_append (accepted_literal _ (by decide +kernel)) (closing_append (inTitle_toString (by decide) _)
        (closing_append (accepted_literal _ (by decide +kernel)) (closing_append (inTitle_toString (by decide) _)
          (closing_literal _ (by decide +kernel) (by decide +kernel) rfl))))
  | _ =>
      dsimp only [front, text, separator]
      simp only [String.toList_append, List.append_assoc]
      exact closing_append (accepted_literal _ (by decide +kernel)) (closing_append (inTitle_toString (by decide) _)
        (closing_literal _ (by decide +kernel) (by decide +kernel) rfl))

/-- An ending that is visible and does not separate numbers. -/
theorem back_literal (ending : List Char)
    (plain : ending.all (fun character => character != '/' && !isLineBreak character && !isSpace character) = true) :
    ending ++ ['\n'] = (ending ++ ['\n']).dropLast ++ ['\n'] ∧ '/' ∉ (ending ++ ['\n']).dropLast ∧
      ∀ character, character ∈ (ending ++ ['\n']).dropLast -> isLineBreak character = false ∧ isSpace character = false := by
  have each := List.all_eq_true.mp plain
  rw [List.dropLast_concat]
  refine ⟨rfl, fun inside => ?_, fun character inside => ?_⟩
  · exact absurd (each '/' inside) (by decide)
  · have parts := each character inside
    rw [Bool.and_eq_true, Bool.and_eq_true, Bool.not_eq_true', Bool.not_eq_true'] at parts
    exact ⟨parts.1.2, parts.2⟩

theorem back_eq (line : ReportLine) : line.back.toList = line.back.toList.dropLast ++ ['\n'] ∧
    '/' ∉ line.back.toList.dropLast ∧ ∀ character, character ∈ line.back.toList.dropLast ->
      isLineBreak character = false ∧ isSpace character = false := by
  have mark : ("!\n" : String).toList = ['!', '\n'] := String.toList_ofList
  have stop : (".\n" : String).toList = ['.', '\n'] := String.toList_ofList
  have nothing : ("\n" : String).toList = ['\n'] := String.toList_ofList
  cases line with
  | existence level misses =>
      dsimp only [back]
      rw [mark]
      exact back_literal ['!'] rfl
  | structureOf hash level setBits ways certainty =>
      dsimp only [back]
      rw [stop]
      exact back_literal ['.'] rfl
  | nested level misses | notNested level misses =>
      dsimp only [back]
      rw [stop]
      exact back_literal ['.'] rfl
  | _ =>
      dsimp only [back]
      rw [nothing]
      exact back_literal [] rfl

/-- A line of the report without its end. -/
def row (line : ReportLine) : List Char :=
  line.text.toList.dropLast

/-- A line of the report without its certainty. -/
def label (line : ReportLine) : List Char :=
  line.front.toList.dropLast ++ if line.certainty = none then [] else line.back.toList.dropLast

theorem starts_literal (text : List Char) (starts : text.head? = some '[') (rest : List Char) :
    ((String.ofList text).toList ++ rest).head? = some '[' := by
  rw [String.toList_ofList, List.head?_append, starts, Option.some_or]

theorem front_starts (line : ReportLine) : line.front.toList.head? = some '[' := by
  cases line with
  | existence level misses =>
      dsimp only [front]
      split
      all_goals
        simp only [String.toList_append, List.append_assoc]
        exact starts_literal _ rfl _
  | _ =>
      dsimp only [front, text]
      simp only [String.toList_append, List.append_assoc]
      exact starts_literal _ rfl _

/-! ## Reading a line -/

section Reading

variable {line : ReportLine} {count total : Nat}

theorem front_eq (line : ReportLine) : line.front.toList = line.front.toList.dropLast ++ [line.frontEnd] := by
  rcases front_closing line with ⟨body, same, _⟩
  rw [same, List.dropLast_concat]

theorem title_visible (line : ReportLine) : Visible isSpace line.front.toList.dropLast := by
  rcases front_closing line with ⟨body, same, _, shown, finish, visible⟩
  have starts := front_starts line
  rw [same] at starts ⊢
  rw [List.dropLast_concat]
  cases body with
  | nil => cases finish
  | cons first rest =>
      refine ⟨fun character inside => ?_, fun character inside => ?_⟩
      · cases starts
        cases inside
        decide
      · rw [finish] at inside
        cases inside
        exact visible

theorem inTitle_of_mem {character : Char} (inside : character ∈ line.front.toList.dropLast) :
    character ≠ line.separator ∧ isLineBreak character = false := by
  rcases front_closing line with ⟨body, same, accepted, _⟩
  rw [same, List.dropLast_concat] at inside
  have both := Bool.and_eq_true_iff.mp (accepted character inside)
  exact ⟨bne_iff_ne.mp both.1, Eq.mp (Bool.not_eq_true' _) both.2⟩

theorem title_apart (line : ReportLine) :
    '(' ∉ line.front.toList.dropLast ∨ '/' ∉ line.front.toList.dropLast := by
  have absent : line.separator ∉ line.front.toList.dropLast := fun inside => (inTitle_of_mem inside).1 rfl
  cases line with
  | hugeTlbSeparate level misses => exact Or.inl absent
  | _ => exact Or.inr absent

theorem toList_ratio (count total : Nat) (rest : List Char) :
    (ratio count total).toList ++ rest = ratioText (toString count).toList (toString total).toList rest := by
  have opening : ("(" : String).toList = ['('] := String.toList_ofList
  have slash : ("/" : String).toList = ['/'] := String.toList_ofList
  have closing : (")" : String).toList = [')'] := String.toList_ofList
  rw [ratio, String.toList_append, String.toList_append, String.toList_append, String.toList_append, opening, slash,
    closing, ratioText]
  simp only [List.append_assoc, List.cons_append, List.nil_append]

theorem text_toList (certain : line.certainty = some (count, total)) : line.text.toList =
    (line.front.toList.dropLast ++
      ' ' :: ratioText (toString count).toList (toString total).toList line.back.toList.dropLast) ++ ['\n'] := by
  have blank : line.frontEnd = ' ' := by
    rw [frontEnd, certain]
    rfl
  rw [text_of_certainty certain, String.toList_append, String.toList_append, front_eq, blank, (back_eq line).1,
    List.append_assoc, toList_ratio]
  simp only [ratioText, List.append_assoc, List.cons_append, List.nil_append, List.dropLast_concat]

theorem row_of_certainty (certain : line.certainty = some (count, total)) :
    line.row = line.front.toList.dropLast ++
      ' ' :: ratioText (toString count).toList (toString total).toList line.back.toList.dropLast := by
  rw [row, text_toList certain, List.dropLast_concat]

theorem row_of_no_certainty (uncertain : line.certainty = none) : line.row = line.front.toList.dropLast := by
  rw [row, front_of_no_certainty uncertain]

/-- Every line ends the line. -/
theorem text_eq_row (line : ReportLine) : line.text.toList = line.row ++ ['\n'] := by
  cases found : line.certainty with
  | none =>
      have newline : line.frontEnd = '\n' := if_pos found
      rw [row_of_no_certainty found, ← front_of_no_certainty found, ← newline]
      exact front_eq line
  | some ratio => rw [text_toList found, row_of_certainty found]

theorem slash_not_mem (uncertain : line.certainty = none) : '/' ∉ line.row := by
  have separates : line.separator = '/' := by
    cases line with
    | hugeTlbSeparate level misses => cases uncertain
    | _ => rfl
  rw [row_of_no_certainty uncertain, ← separates]
  exact fun inside => (inTitle_of_mem inside).1 rfl

/-- The script finds the certainty that was printed, and none in the other lines. -/
theorem certaintyOf_row (line : ReportLine) : certaintyOf line.row = line.certainty := by
  unfold certaintyOf
  cases found : line.certainty with
  | none =>
      rw [(nowhere_of_no_slash (slash_not_mem found)).2]
      rfl
  | some ratio =>
      rw [row_of_certainty found, firstMatch_printed (title_apart line) (toString_ne_nil _) (toString_ne_nil _)
        (allDigits_toString _) (allDigits_toString _), Option.map_some, ofDigitChars_toString, ofDigitChars_toString]

theorem label_of_certainty (certain : line.certainty = some (count, total)) :
    line.label = line.front.toList.dropLast ++ line.back.toList.dropLast := by
  have present : line.certainty ≠ none := by
    rw [certain]
    exact Option.some_ne_none _
  rw [label, if_neg present]

theorem label_of_no_certainty (uncertain : line.certainty = none) : line.label = line.front.toList.dropLast := by
  rw [label, if_pos uncertain, List.append_nil]

theorem label_visible (line : ReportLine) : Visible isSpace line.label := by
  have visible := title_visible line
  cases found : line.certainty with
  | none => rwa [label_of_no_certainty found]
  | some ratio =>
      rw [label_of_certainty found]
      exact visible.append fun character inside => ((back_eq line).2.2 character inside).2

/-- What is left of a line is its title with the ending. -/
theorem cleanedLine_row (line : ReportLine) : cleanedLine line.row = line.label := by
  unfold cleanedLine
  cases found : line.certainty with
  | none =>
      rw [(nowhere_of_no_slash (slash_not_mem found)).1, row_of_no_certainty found, ← label_of_no_certainty found]
      exact (label_visible line).strip_eq
  | some ratio =>
      rw [row_of_certainty found, delete_printed (title_apart line) (title_visible line) (back_eq line).2.1
        (toString_ne_nil _) (toString_ne_nil _) (allDigits_toString _) (allDigits_toString _),
        ← label_of_certainty found]
      exact (label_visible line).strip_eq

end Reading

end ReportLine

end Talbot
