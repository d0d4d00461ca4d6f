import Talbot.CrossHyperthread.RecordUse
import Talbot.Foundations.Stages
import Talbot.Kernel.LineLengths

namespace Talbot
namespace CrossHyperthread

/-!
One read of the device (`module.c`, `evaluation.c`): a call whose line is thrown
away, and then one call for each level.

The caller only sees how many misses its record holds.  `main` counts at most one
in every iteration, however the threads interleave, so the lines are bounded by
what they can print for up to 1000 misses, or for `-1`.
-/

open Foundations
open Foundations.Program

/-- One line of the report, with the numbers it prints. -/
inductive ReportLine where
  | affected (level misses : Nat)
  | tagged (level remaining : Nat)
  deriving DecidableEq, Repr

def ReportLine.text : ReportLine -> String
  | affected level misses =>
      "[*] Level " ++ toString level ++
        " translation cache is affected by PCID switches in co-resident hyperthread " ++
          Talbot.ReportLine.ratio misses iterations ++ ".\n"
  | tagged level remaining =>
      "[*] Level " ++ toString level ++ " translation cache entries are tagged with their hyperthread ID " ++
        Talbot.ReportLine.ratio remaining iterations ++ ".\n"

/-- What `snprintf` leaves of a line in its 128 bytes. -/
def ReportLine.printed (line : ReportLine) : List Char :=
  line.text.toList.take 127

/-- The bytes of some lines, without the final NUL. -/
def reportSize (lines : List ReportLine) : Nat :=
  (lines.map fun line => line.printed.length).sum

/-- A call that fails returns `-1` in the source; `ITERATIONS - misses` is then one
more than `ITERATIONS`. -/
def evaluateHyperthreadedPcidSupport (call level : Nat) : Thread ReportLine := do
  let misses ← testHyperthreadedPcidSupport call level
  match misses with
  | none => return .tagged level (iterations + 1)
  | some misses =>
      if reachesThreshold misses iterations then return .affected level misses
      else return .tagged level (iterations - misses)

/-- The calls of one read are numbered from `firstCall` on. -/
def deviceRead (firstCall : Nat) : Thread (List ReportLine) := do
  let _ ← evaluateHyperthreadedPcidSupport firstCall 2
  forRange (fun level output => do
    let line ← evaluateHyperthreadedPcidSupport (firstCall + (level - 1)) level
    return .next (output ++ [line])) 2 3 []

/-! ## The misses -/

/-- How often `main` incremented the misses at most. -/
def MainPhase.increments : MainPhase -> Nat
  | starting => 0
  | iterating i .counted => i + 1
  | iterating i _ => i
  | _ => iterations

theorem MainPhase.increments_le {phase : MainPhase} (bounded : phase.Bounded) : phase.increments ≤ iterations := by
  cases phase with
  | iterating i point =>
      cases point with
      | prepare => exact bounded
      | counted => exact Nat.succ_le_of_lt bounded
      | _ => exact Nat.le_of_lt bounded
  | starting => exact Nat.zero_le _
  | _ => exact Nat.le_refl _

section Misses

variable {number total : Nat} {shared after : Shared} {op : HandshakeOp} {response : op.Response}

/-- Every record holds at most as many misses as its `main` incremented. -/
def MissesCounted (phases : Phases) (shared : Shared) : Prop :=
  ∀ number, (phases.main number).Bounded ∧
    ∀ data, shared.records number = some data -> data.misses ≤ (phases.main number).increments

/-- Apart from its increments, a record is as it was or new. -/
theorem effect_misses (effect : shared.effect op response after) (noIncrement : op ≠ .incrementMisses number)
    {data : ThreadData} (known : after.records number = some data) :
    data.misses = 0 ∨ shared.records number = some data := by
  by_cases use : usesRecord number op = true
  · cases op with
    | newThreadData call level =>
        rcases effect with ⟨mm, rfl⟩
        have same : call = number := of_decide_eq_true use
        rw [same, Shared.updateRecord_self] at known
        cases known
        exact Or.inl rfl
    | incrementMisses call =>
        have same : call = number := of_decide_eq_true use
        exact absurd (congrArg HandshakeOp.incrementMisses same) noIncrement
    | kfree call =>
        have same : call = number := of_decide_eq_true use
        rw [show after = _ from effect, same, Shared.updateRecord_self] at known
        cases known
    | readMm call => exact Or.inr (effect.2 ▸ known)
    | readLevel call => exact Or.inr (effect.2 ▸ known)
    | readMisses call => exact Or.inr (effect.2 ▸ known)
    | switchPageTableEntries call target complementary => exact Or.inr ((show after = _ from effect) ▸ known)
    | _ => cases use
  · rw [Shared.effect_record number effect (Bool.eq_false_iff.mpr use)] at known
    exact Or.inr known

/-- Without an increment the misses stay below the count. -/
theorem MissesCounted.kept {phases : Phases} (counted : MissesCounted phases shared)
    (effect : shared.effect op response after) (noIncrement : op ≠ .incrementMisses number) {data : ThreadData}
    (known : after.records number = some data) : data.misses ≤ (phases.main number).increments := by
  rcases effect_misses effect noIncrement known with zero | before
  · rw [zero]
    exact Nat.zero_le _
  · exact (counted number).2 data before

/-- The other threads leave the count of a call alone. -/
theorem MissesCounted.other {phases phases' : Phases} (counted : MissesCounted phases shared)
    (effect : shared.effect op response after) (noIncrement : ∀ number, op ≠ .incrementMisses number)
    (same : ∀ number, phases'.main number = phases.main number) : MissesCounted phases' after := by
  intro number
  rw [same number]
  exact ⟨(counted number).1, fun data known => counted.kept effect (noIncrement number) known⟩

theorem MainMove.increments {phase phase' : MainPhase} (move : MainMove number phase op response phase') :
    phase.increments ≤ phase'.increments := by
  cases move with
  | setUp => exact Nat.le_refl _
  | count => exact Nat.le_succ _
  | restore target complementary last =>
      rcases last with rfl | ⟨value, _, rfl⟩
      · exact Nat.le_refl _
      · exact Nat.le_succ _
  | _ => exact Nat.le_refl _

/-- `main` increments the misses of its own call, once in an iteration. -/
theorem MainMove.counts {phase phase' : MainPhase} (move : MainMove number phase op response phase') {other : Nat}
    (increments : op = .incrementMisses other) : other = number ∧ phase'.increments = phase.increments + 1 := by
  cases move with
  | count =>
      cases increments
      exact ⟨rfl, rfl⟩
  | _ => cases increments

theorem MissesCounted.main_move {phases : Phases} (counted : MissesCounted phases shared) {phase : MainPhase}
    (move : MainMove number (phases.main number) op response phase) (effect : shared.effect op response after) :
    MissesCounted (Function.update phases (.main number) phase) after := by
  intro other
  by_cases increment : op = .incrementMisses other
  · rcases move.counts increment with ⟨rfl, more⟩
    subst increment
    rw [Phases.main_update_main]
    refine ⟨move.bounded (counted other).1, fun data known => ?_⟩
    rw [show after = _ from effect, Shared.updateRecord_self, Option.map_eq_some_iff] at known
    rcases known with ⟨before, known, rfl⟩
    rw [more]
    exact Nat.succ_le_succ ((counted other).2 before known)
  by_cases same : other = number
  · subst same
    rw [Phases.main_update_main]
    refine ⟨move.bounded (counted other).1, fun data known => ?_⟩
    exact Nat.le_trans (counted.kept effect increment known) move.increments
  · rw [Phases.main_update_other phase same]
    exact ⟨(counted other).1, fun data known => counted.kept effect increment known⟩

theorem CallerMove.no_increment {phase phase' : CallerPhase} (move : CallerMove total phase op response phase')
    (number : Nat) : op ≠ .incrementMisses number := by
  cases move <;> nofun

theorem SubMove.no_increment {phase phase' : SubPhase} (move : SubMove phase op response phase') (number : Nat) :
    op ≠ .incrementMisses number := by
  cases move <;> nofun

/-- However the threads interleave, no record holds more misses than there are iterations. -/
theorem misses_le {configuration : Configuration} {levels : List Nat}
    {allowed : List HandshakeEvent -> HandshakeEvent -> Prop} {snapshot : HandshakeSnapshot}
    (reaches : (afterLoading configuration levels).Reaches effects allowed snapshot) {data : ThreadData}
    (known : snapshot.shared.records number = some data) : data.misses ≤ iterations := by
  have within : snapshot.Within (protocols levels.length) (Ended levels.length)
      fun phases shared _ => MissesCounted phases shared := by
    apply reaches.within
    · rintro phases shared trace ⟨thread, op, response⟩ phase after counted _ move ⟨_, effect⟩
      cases thread with
      | caller =>
          exact counted.other effect (CallerMove.no_increment move) fun _ => Phases.main_update_caller _
      | main number => exact counted.main_move move effect
      | sub number =>
          exact counted.other effect (SubMove.no_increment move) fun _ => Phases.main_update_sub _
    · refine ⟨startPhase, obeys_afterLoading levels, fun number => ⟨trivial, ?_⟩⟩
      intro data impossible
      cases impossible
  rcases within with ⟨_, _, counted⟩
  exact Nat.le_trans ((counted number).2 data known) (MainPhase.increments_le (counted number).1)

end Misses

/-! ## The lines -/

/-- The numbers that a line can print. -/
def ReportLine.InRange : ReportLine -> Prop
  | affected level misses => level ≤ 4 ∧ misses ≤ iterations
  | tagged level remaining => level ≤ 4 ∧ remaining ≤ iterations + 1

namespace ReportLine

open Talbot.ReportLine (digits digits_mono digits_one digits_le_one digits_iterations)

/-- The characters of a line: its fixed text and its numbers. -/
def width : ReportLine -> Nat
  | affected level misses => 94 + digits level + digits misses
  | tagged level remaining => 83 + digits level + digits remaining

theorem text_length (line : ReportLine) : line.text.length = line.width := by
  have thousand : (toString iterations).length = 4 := digits_iterations
  cases line <;>
  · dsimp only [text, width, Talbot.ReportLine.ratio, digits]
    simp only [String.length_append, thousand]
    repeat rw [String.length_ofList]
    simp only [List.length_cons, List.length_nil]
    omega

theorem printed_length_le {line : ReportLine} (inRange : line.InRange) : line.printed.length ≤ 99 := by
  apply Nat.le_trans (List.length_take_le' _ _)
  rw [String.length_toList, text_length]
  cases line with
  | affected level misses =>
      have first := digits_le_one (Nat.le_trans inRange.1 (by decide))
      have second := digits_mono inRange.2
      rw [digits_iterations] at second
      dsimp only [width]
      omega
  | tagged level remaining =>
      have first := digits_le_one (Nat.le_trans inRange.1 (by decide))
      have last : digits (iterations + 1) = 4 := by decide
      have second := digits_mono inRange.2
      rw [last] at second
      dsimp only [width]
      omega

/-- The line of a call in which every iteration misses. -/
theorem printed_length_eq {level : Nat} (below : level ≤ 4) : (affected level iterations).printed.length = 99 := by
  have measured := text_length (affected level iterations)
  rw [width, digits_one (Nat.le_trans below (by decide)), digits_iterations, ← String.length_toList] at measured
  rw [printed, List.take_of_length_le (by omega), measured]

end ReportLine

/-! ## The stages of a read -/

/-- Call the experiment for a level and append its line. -/
def appendLine (firstCall level : Nat) (output : List ReportLine) : Thread (List ReportLine) := do
  let line ← evaluateHyperthreadedPcidSupport (firstCall + (level - 1)) level
  return output ++ [line]

/-- The quiet call. -/
def quietly (firstCall : Nat) (output : List ReportLine) : Thread (List ReportLine) := do
  let _ ← evaluateHyperthreadedPcidSupport firstCall 2
  return output

def stages (firstCall : Nat) : List (List ReportLine -> Thread (List ReportLine)) :=
  quietly firstCall :: (List.range' 2 3).map (appendLine firstCall)

/-- `device_read` runs the stages and returns their output. -/
theorem deviceRead_eq_stages (firstCall : Nat) : deviceRead firstCall = runStages (stages firstCall) [] := by
  have looped := forRange_eq_runStages (appendLine firstCall) 2 3 []
  simp only [appendLine, bind_assoc, pure_eq, ret_bind] at looped
  rw [stages, runStages, quietly, bind_assoc]
  simp only [pure_eq, ret_bind]
  rw [deviceRead]
  exact congrArg _ (funext fun _ => looped)

/-! ## The size of the output -/

/-- Nothing is known about the machine and the other threads but that a record
never holds more misses than iterations. -/
def handshakeAnswers : Behaviour handshakeInterface Unit :=
  fun op _ response _ =>
    match op, response with
    | .readMisses _, misses => misses ≤ iterations
    | _, _ => True

/-- The output and its NUL take no more than `count` bytes, wherever the read stops. -/
def ReportFits (firstCall count : Nat) : Prop :=
  Throughout handshakeAnswers (fun output _ => reportSize output + 1 ≤ count) (stages firstCall) [] ()

section Size

variable {call level firstCall count : Nat}

theorem ensures_testHyperthreadedPcidSupport :
    Ensures handshakeAnswers (fun _ _ => True) True (testHyperthreadedPcidSupport call level) () fun result _ =>
      ∀ misses, result = some misses -> misses ≤ iterations := by
  refine ensures_bind.mpr ((ensures_trivial _).mono fun started _ _ => ?_)
  dsimp only
  split
  · exact nofun
  refine ensures_bind.mpr (Ensures.mono (show Ensures handshakeAnswers _ True (collectMisses call) ()
    (fun misses _ => misses ≤ iterations) from ?_) ?_)
  · exact ⟨trivial, fun _ _ _ => ⟨trivial, fun misses _ counted => ⟨trivial, fun _ _ _ => counted⟩⟩⟩
  · rintro misses _ counted _ ⟨⟩
    exact counted

theorem ensures_evaluateHyperthreadedPcidSupport (below : level ≤ 4) :
    Ensures handshakeAnswers (fun _ _ => True) True (evaluateHyperthreadedPcidSupport call level) ()
      fun line _ => line.printed.length ≤ 99 := by
  refine ensures_bind.mpr (ensures_testHyperthreadedPcidSupport.mono fun result _ counted => ?_)
  cases result with
  | none => exact ReportLine.printed_length_le ⟨below, Nat.le_refl _⟩
  | some misses =>
      dsimp only
      split
      · exact ReportLine.printed_length_le ⟨below, counted misses rfl⟩
      · exact ReportLine.printed_length_le ⟨below, Nat.le_succ_of_le (Nat.sub_le _ _)⟩

theorem reaches_testHyperthreadedPcidSupport :
    Reaches handshakeAnswers (testHyperthreadedPcidSupport call level) () fun result _ => result = some iterations := by
  have started : Reaches handshakeAnswers (startThreads call level) () fun started _ => started = true :=
    ⟨(), (), trivial, true, (), trivial, true, (), trivial, (), (), trivial, (), (), trivial, (), (), trivial, (), (),
      trivial, rfl⟩
  refine reaches_bind.mpr (started.mono ?_)
  rintro _ _ rfl
  exact ⟨true, (), trivial, iterations, (), Nat.le_refl _, (), (), trivial, rfl⟩

theorem reaches_evaluateHyperthreadedPcidSupport (below : level ≤ 4) :
    Reaches handshakeAnswers (evaluateHyperthreadedPcidSupport call level) () fun line _ =>
      line.printed.length = 99 := by
  refine reaches_bind.mpr (reaches_testHyperthreadedPcidSupport.mono ?_)
  rintro _ _ rfl
  exact ReportLine.printed_length_eq below

theorem reportSize_append (output : List ReportLine) (line : ReportLine) :
    reportSize (output ++ [line]) = reportSize output + line.printed.length := by
  rw [reportSize, List.map_append, List.sum_append]
  exact congrArg (_ + ·) (List.sum_singleton)

theorem reportFits_of_le (enough : 298 ≤ count) : ReportFits firstCall count := by
  refine ⟨Nat.le_trans (by decide) enough, ensures_bind.mpr ((ensures_trivial _).mono fun _ _ _ => ?_)⟩
  refine ensures_ret.mpr ?_
  rw [← List.append_nil ((List.range' 2 3).map (appendLine firstCall))]
  apply Throughout.adding reportSize (fun _ => True) trivial (Nat.le_refl 0)
  · rintro stage member output _ _
    rcases mem_levels member with ⟨level, _, below, rfl⟩
    refine ensures_bind.mpr ((ensures_evaluateHyperthreadedPcidSupport (Nat.le_of_lt_succ below)).mono ?_)
    rintro line _ small
    refine ⟨trivial, ?_⟩
    rw [reportSize_append]
    exact Nat.add_le_add_left small _
  · intro output _ _ small
    rw [List.length_map, List.length_range'] at small
    omega
  · intro output _ _ small
    rw [List.length_map, List.length_range'] at small
    exact Nat.le_trans (Nat.succ_le_succ small) enough

/-- Every call can miss in all iterations. -/
theorem reaches_longestReport :
    Reaches handshakeAnswers (runStages (stages firstCall) []) () fun output _ => reportSize output = 297 := by
  refine reaches_bind.mpr (reaches_bind.mpr ((reaches_evaluateHyperthreadedPcidSupport (by decide)).mono ?_))
  rintro _ _ _
  refine reaches_ret.mpr ?_
  rw [← List.append_nil ((List.range' 2 3).map (appendLine firstCall))]
  apply reaches_adding reportSize (fun _ => True) trivial rfl
  · rintro stage member output _ _
    rcases mem_levels member with ⟨level, _, below, rfl⟩
    refine reaches_bind.mpr ((reaches_evaluateHyperthreadedPcidSupport (Nat.le_of_lt_succ below)).mono ?_)
    rintro line _ size_eq
    refine ⟨trivial, ?_⟩
    rw [reportSize_append, size_eq]
  · intro output _ _ size_eq
    rwa [List.length_map, List.length_range'] at size_eq

theorem reportFits_iff_le : ReportFits firstCall count ↔ 298 ≤ count := by
  refine ⟨fun fits => ?_, reportFits_of_le⟩
  rcases (Throughout.atEnd fits).of_reaches reaches_longestReport with ⟨output, _, enough, size_eq⟩
  rwa [size_eq] at enough

end Size

end CrossHyperthread
end Talbot
