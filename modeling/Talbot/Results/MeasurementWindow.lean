import Talbot.Machine.SetMeasurement

namespace Talbot

/-!
The addresses of the replacement policy measurement.

The chain builders check that a link lies inside the base window before they
write it.  `determine_replacement_order` derives more addresses from the hash
function without such a check: the members of the set, and the entry after the
set, where each filler chain starts.  The measurement stays inside the window
exactly if that entry is mapped for every start that can be drawn.
-/

open Foundations Program Machine Paging

/-- Memory is accessed inside the base window of the level only, and page tables are
walked for its addresses and their complementary ones. -/
def StaysInside (configuration : Configuration) (level : Nat) (_ : Paging) : KernelOp -> Prop
  | .readData address => InWindow configuration level address
  | .fetchInstruction address => InWindow configuration level address
  | .writeData address _ => InWindow configuration level address
  | .walkPageTable address => ∃ target, InWindow configuration level target ∧
      (address = target ∨ address = complementaryOf target)
  | _ => True

theorem watches_staysInside (configuration : Configuration) (level : Nat) :
    Watches (StaysInside configuration level) (InWindow configuration level) where
  calm := by
    intro memory state op _ allowed
    cases op with
    | readData address => exact allowed
    | fetchInstruction address => exact allowed
    | writeData address data => exact allowed
    | walkPageTable address => exact allowed
    | _ => trivial
  opens _ _ _ _ _ := trivial
  reads memory first second state access address _ inside := by
    cases access <;> exact inside
  closes _ _ _ _ _ _ _ _ _ _ := trivial
  flushes _ _ _ _ _ := trivial

section Window

variable {configuration : Configuration} {level bound : Nat} {geometry : CacheGeometry} {state : Paging}
  {memory : Nat -> Nat}

/-- A probe builds its filler chain at the entry after the set. -/
theorem nextInside_of_probe {entry last position : Nat} {post : Nat -> Paging -> Prop}
    (calm : Calm memory state) (room : RoomUpTo geometry configuration level entry 0)
    (probe : Ensures (may fun _ _ => True) (StaysInside configuration level) False
      (probeReplacement configuration bound geometry.record level (geometry.memberPage level entry 0 0) last
        (geometry.memberPage level entry geometry.ways 0) (geometry.memberPage level entry 0 0) position) state post) :
    geometry.member entry geometry.ways < baseEntry level + configuration.pageTableEntries level := by
  have permits := permits_feasible (InWindow configuration level)
  unfold probeReplacement at probe
  rcases probe.rest (reaches_of_feasible (calm_walkPair permits calm (room.memberPage_in (Nat.le_refl 0) (by decide))))
    with ⟨_, _, ⟨rfl, calm⟩, builds⟩
  have builds := ensures_bind.mp builds
  unfold buildPointerChainFromHashSingle at builds
  have written := (ensures_bind.mp builds).1
  have below := written.2
  rwa [windowEnd_eq room.isLevel, CacheGeometry.memberPage, pageAddress_lt_iff] at below

/-- Measuring the order of a set probes its first member, with fillers at the entry
after the set. The first candidate of the first round is enough for this: nothing is
known yet, so it is probed. -/
theorem probe_of_determines {entry last : Nat} {nodes : List Nat} {post : (Nat -> Nat) -> Paging -> Prop}
    {translationCaches : Nat -> TranslationCache} (recorded : translationCaches level = geometry.record)
    (calm : Calm memory state) (room : RoomUpTo geometry configuration level entry 0)
    (stands : SetStands geometry level entry memory nodes last 0) (enough : (nodes ++ [last]).length ≤ bound)
    (pages : ∀ node, node ∈ nodes ++ [last] -> InWindow configuration level node ∧ Plain node)
    (determines : Ensures (may fun _ _ => True) (StaysInside configuration level) False
      (determineReplacementOrder configuration bound translationCaches (geometry.memberPage level entry 0 0) level)
      state post) :
    ∃ after final post, Calm after final ∧ Ensures (may fun _ _ => True) (StaysInside configuration level) False
      (probeReplacement configuration bound geometry.record level (geometry.memberPage level entry 0 0) last
        (geometry.memberPage level entry geometry.ways 0) (geometry.memberPage level entry 0 0)
        (geometry.ways - 1 - 0)) final post := by
  have permits := permits_feasible (InWindow configuration level)
  have nonzero : ∀ node, node ∈ nodes ++ [last] -> node ≠ 0 ∧ InWindow configuration level node := by
    intro node known
    refine ⟨?_, (pages node known).1⟩
    rcases stands.pages node known with ⟨index, page, _, _, rfl⟩
    exact room.memberPage_ne_zero index page
  have next : geometry.hash.apply (geometry.memberPage level entry 0 0) geometry.record.ways
      geometry.record.setBits level = geometry.memberPage level entry geometry.ways 0 :=
    (room.apply_member _ (Nat.le_refl 0)).trans (by rw [Nat.zero_add]; rfl)
  unfold determineReplacementOrder at determines
  dsimp only at determines
  rw [recorded] at determines
  rcases determines.rest (reaches_of_feasible (calm_enter permits calm _ _ _)) with ⟨_, _, calm, determines⟩
  rcases determines.rest (reaches_of_feasible (calm_kmalloc permits calm)) with ⟨_, _, ⟨rfl, calm⟩, determines⟩
  rcases determines.rest (reaches_of_feasible (calm_kmalloc permits calm)) with ⟨_, _, ⟨rfl, calm⟩, determines⟩
  rcases determines.rest (reaches_of_feasible (calm_kmalloc permits calm)) with ⟨_, _, ⟨rfl, calm⟩, determines⟩
  rcases determines.rest (reaches_of_feasible (calm_lastLink permits calm
    (path_shown stands.path fun node known => (pages node known).2) nonzero enough))
    with ⟨found, _, ⟨same, calm⟩, determines⟩
  rw [same] at determines
  rcases determines.rest (reaches_of_feasible (calm_addressSet room permits calm)) with
    ⟨addressSet, _, ⟨members, calm⟩, determines⟩
  rcases determines.rest (reaches_of_feasible (calm_callHash permits calm geometry.hash _ _ _ _)) with
    ⟨_, _, ⟨rfl, calm⟩, determines⟩
  have lastIn := pages last (List.mem_append_right _ List.mem_cons_self)
  rcases determines.rest (reaches_of_feasible (calm_writeData permits calm lastIn.1 lastIn.2 _))
    with ⟨_, _, calm, determines⟩
  rcases (ensures_bind.mp determines).forRange_first room.positive with ⟨_, resolves⟩
  have probes := ensures_bind.mp resolves
  unfold resolvePosition at probes
  rcases (ensures_bind.mp probes).forRange_first room.positive with ⟨_, probe⟩
  have start := members 0 room.positive
  have unplaced : alreadyPlaced geometry.record.ways (fun _ => 0) (addressSet 0) = false := by
    rw [start, alreadyPlaced, List.any_eq_false]
    intro i _
    rw [beq_iff_eq]
    exact room.memberPage_ne_zero 0 0
  rw [if_neg (by rw [unplaced]; exact Bool.false_ne_true), start, next] at probe
  exact ⟨_, _, _, calm, ensures_bind.mp probe⟩

variable (windows : WindowsApart configuration) (isLevel : IsLevel level) (positive : 1 ≤ geometry.ways)
  (fuel : geometry.ways + 2 ≤ bound) (translationCaches : Nat -> TranslationCache)
  (recorded : translationCaches level = geometry.record) (calm : Calm memory state)

include windows isLevel positive fuel recorded calm

theorem stays_of_nextInWindow (next : NextInWindow configuration level geometry) :
    Ensures (may fun _ _ => True) (StaysInside configuration level) False
      (calculatePermutationVectors configuration bound translationCaches level) state fun _ _ => True :=
  (watched_calculatePermutationVectors windows isLevel positive next (watches_staysInside configuration level) calm fuel
    translationCaches recorded).mono fun _ _ _ => trivial

/-- Measuring the order of the first set writes to the entry after it. The run is
followed up to the chain through the set, for the start whose set is the first. -/
theorem nextInWindow_of_stays (stays : Ensures (may fun _ _ => True) (StaysInside configuration level) False
      (calculatePermutationVectors configuration bound translationCaches level) state fun _ _ => True) :
    NextInWindow configuration level geometry := by
  intro index small
  have permits := permits_feasible (InWindow configuration level)
  have drawn : baseAddress + (index <<< pageTableIndexShift level) =
      geometry.memberPage level (baseEntry level + index) 0 0 := by
    rw [baseAddress_add isLevel, CacheGeometry.memberPage, CacheGeometry.member_zero]
  have mapped : index < configuration.pageTableEntries level := Nat.lt_of_lt_of_le small (Nat.div_le_self _ _)
  have room : RoomUpTo geometry configuration level (baseEntry level + index) 0 := by
    refine ⟨windows, isLevel, positive, Nat.le_add_right _ _, ?_⟩
    rw [CacheGeometry.member_zero]
    exact Nat.add_lt_add_left mapped _
  unfold calculatePermutationVectors at stays
  dsimp only at stays
  rw [recorded] at stays
  rcases stays.rest (reaches_of_feasible (calm_enter permits calm _ _ _)) with ⟨_, _, calm, stays⟩
  have draws : Reaches (may fun _ _ => True) (drawAddress (drawableEntries configuration level) level) _
      fun address final => address = baseAddress + (index <<< pageTableIndexShift level) ∧ Calm memory final :=
    ⟨index, _, rfl, by rw [Nat.mod_eq_of_lt small], calm⟩
  rcases stays.rest draws with ⟨_, _, ⟨rfl, calm⟩, stays⟩
  rw [drawn] at stays
  rcases stays.rest (reaches_of_feasible (calm_buildSingleChain room permits calm (Nat.le_refl 0) 0 _)) with
    ⟨_, _, ⟨count, after, short, calm, path, _, pages⟩, stays⟩
  rcases setStands_single room short path with ⟨nodes, last, few, chain, stands⟩
  rw [← chain] at pages
  have enough : (nodes ++ [last]).length ≤ bound := by
    simp only [List.length_append, List.length_singleton]
    omega
  rcases probe_of_determines recorded calm room stands enough pages (ensures_bind.mp stays)
    with ⟨_, _, _, calm, probe⟩
  exact nextInside_of_probe calm room probe

end Window

/-- Every address of the measurement lies in the base window, and the measurement
ends, exactly if the entry after the set is mapped for every start.  The chains
themselves are cut off at the end of the window; only `next_address` is computed
without a look at it.  The hardware may pick any translation at every access. -/
theorem calculatePermutationVectors_staysInside_iff {configuration : Configuration} {level bound : Nat}
    (windows : WindowsApart configuration) (isLevel : IsLevel level) {geometry : CacheGeometry}
    (positive : 1 ≤ geometry.ways) (fuel : geometry.ways + 2 ≤ bound) (translationCaches : Nat -> TranslationCache)
    (recorded : translationCaches level = geometry.record) {state : Paging} {memory : Nat -> Nat}
    (calm : Calm memory state) :
    Ensures (may fun _ _ => True) (StaysInside configuration level) False
      (calculatePermutationVectors configuration bound translationCaches level) state (fun _ _ => True) ↔
      NextInWindow configuration level geometry :=
  ⟨nextInWindow_of_stays windows isLevel positive fuel translationCaches recorded calm,
    stays_of_nextInWindow windows isLevel positive fuel translationCaches recorded calm⟩

/-- Eight sets of four ways on level 2, with the sizes the repository ships with. -/
theorem calculatePermutationVectors_staysInside_iff_eightSets :
    Ensures (may fun _ _ => True) (StaysInside defaultConfiguration 2) False
      (calculatePermutationVectors defaultConfiguration 6 (fun _ => eightSets.record) 2) afterSetup (fun _ _ => True) ↔
      NextInWindow defaultConfiguration 2 eightSets := by
  have isLevel : IsLevel 2 := by decide
  have positive : 1 ≤ eightSets.ways := by decide
  exact calculatePermutationVectors_staysInside_iff windowsApart_default isLevel positive (Nat.le_refl _) _ rfl
    calm_afterSetup

/-- On level 3 the repository maps 512 entries, so nothing is mapped two sets of 256
entries above any start. -/
theorem calculatePermutationVectors_leavesWindow :
    ¬ Ensures (may fun _ _ => True) (StaysInside defaultConfiguration 3) False
      (calculatePermutationVectors defaultConfiguration 4 (fun _ => ⟨8, 2, .to .linHash⟩) 3) afterSetup
      (fun _ _ => True) := by
  intro stays
  have next : NextInWindow defaultConfiguration 3 ⟨.linHash, 8, 2⟩ :=
    nextInWindow_of_stays windowsApart_default (by decide) (by decide) (Nat.le_refl _) _ rfl calm_afterSetup stays
  exact absurd (next 0 (by decide)) (by decide)

end Talbot
