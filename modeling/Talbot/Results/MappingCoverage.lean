import Talbot.UserSpace.Trigger

namespace Talbot

/-!
Which pages `setup_levels` maps.

The level-3 and level-4 loops start where the lower levels end, and the entry
that is partly covered needs only its remaining lower entries.  The level-4 loop
also skips lower entries of later entries, which nothing covers.
-/

namespace Mapping

/-- A page is mapped at the address and starts with the value. -/
def Has (mapping : Mapping) (address value : Nat) : Prop :=
  ∃ page, page ∈ mapping.pages ∧ page.address = address ∧ page.value = value

theorem has_mapPage {mapping : Mapping} {address other value : Nat} :
    (mapping.mapPage other value).Has address value ↔ mapping.Has address value ∨ address = other := by
  constructor
  · rintro ⟨page, inside, rfl, rfl⟩
    rcases List.mem_append.mp inside with old | new
    · exact Or.inl ⟨page, old, rfl, rfl⟩
    · rw [List.mem_singleton.mp new]
      exact Or.inr rfl
  · rintro (⟨page, inside, same⟩ | rfl)
    · exact ⟨page, List.mem_append_left _ inside, same⟩
    · exact ⟨_, List.mem_append_right _ List.mem_cons_self, rfl, rfl⟩

/-- A loop maps what its iterations map. -/
theorem has_forEach {start stop address value : Nat} (body : Nat -> Mapping -> Mapping) (adds : Nat -> Prop)
    (step : ∀ index mapping, start ≤ index -> index < stop ->
      ((body index mapping).Has address value ↔ mapping.Has address value ∨ adds index))
    (mapping : Mapping) :
    (forEach start stop body mapping).Has address value ↔
      mapping.Has address value ∨ ∃ index, start ≤ index ∧ index < stop ∧ adds index := by
  have loop : ∀ indices : List Nat, (∀ index, index ∈ indices -> start ≤ index ∧ index < stop) ->
      ∀ mapping : Mapping, (indices.foldl (fun mapping index => body index mapping) mapping).Has address value ↔
        mapping.Has address value ∨ ∃ index, index ∈ indices ∧ adds index := by
    intro indices
    induction indices with
    | nil =>
        intro _ mapping
        simp only [List.foldl_nil, List.not_mem_nil, false_and, exists_false, or_false]
    | cons index rest inductionHypothesis =>
        intro bounded mapping
        have here := bounded index List.mem_cons_self
        rw [List.foldl_cons, inductionHypothesis (fun other inside => bounded other (List.mem_cons_of_mem _ inside)),
          step index mapping here.1 here.2, or_assoc]
        simp only [List.mem_cons, or_and_right, exists_or, exists_eq_left]
  rw [forEach, loop _ fun index inside => by
    rw [List.mem_range'_1] at inside
    omega]
  refine or_congr_right (exists_congr fun index => ?_)
  rw [List.mem_range'_1, and_assoc]
  refine and_congr_right fun atLeast => and_congr_left fun _ => ?_
  omega

end Mapping

section Coverage

variable {lowerEntries base value : Nat} {configuration : Configuration}

/-- The lower entries of an entry that are mapped when the first ones are skipped.
The last one is mapped in any case, since every chain ends in it. -/
def Included (lowerEntries startIndex i : Nat) : Prop :=
  startIndex ≤ i ∧ i < lowerEntries ∨ i = 0x1ff

theorem has_setupLevelEntry {level entryIndex startIndex address : Nat} (small : startIndex ≤ 0x1ff)
    (mapping : Mapping) :
    (setupLevelEntry lowerEntries base value level entryIndex startIndex mapping).Has address value ↔
      mapping.Has address value ∨ ∃ i, Included lowerEntries startIndex i ∧
        address = lowerEntryAddress base level entryIndex i := by
  unfold setupLevelEntry
  rw [if_neg (Nat.not_lt.mpr small), Mapping.has_mapPage,
    Mapping.has_forEach _ (fun i => address = lowerEntryAddress base level entryIndex i)
      (fun _ _ _ _ => Mapping.has_mapPage), or_assoc]
  refine or_congr_right ⟨?_, ?_⟩
  · rintro (⟨i, atLeast, below, same⟩ | same)
    · exact ⟨i, Or.inl ⟨atLeast, below⟩, same⟩
    · exact ⟨0x1ff, Or.inr rfl, same⟩
  · rintro ⟨i, ⟨atLeast, below⟩ | rfl, same⟩
    · exact Or.inl ⟨i, atLeast, below, same⟩
    · exact Or.inr same

/-- One of the three loops. -/
theorem has_setupLoop {level start stop address : Nat} (startIndex : Nat -> Nat)
    (small : ∀ index, startIndex index ≤ 0x1ff) (mapping : Mapping) :
    (forEach start stop (fun index => setupLevelEntry lowerEntries base value level index (startIndex index))
        mapping).Has address value ↔
      mapping.Has address value ∨ ∃ index, start ≤ index ∧ index < stop ∧ ∃ i,
        Included lowerEntries (startIndex index) i ∧ address = lowerEntryAddress base level index i := by
  apply Mapping.has_forEach
  intro index mapping _ _
  exact has_setupLevelEntry (small index) mapping

/-- The level-3 entry that is partly covered by level-2 entries. -/
def startIndexLevel3 (configuration : Configuration) (index : Nat) : Nat :=
  if index = configuration.pageTableEntries 2 / 512 then configuration.pageTableEntries 2 % 512 else 0

/-- The first lower entry that the level-4 loop maps of an entry. -/
def level4Start (configuration : Configuration) (index : Nat) : Nat :=
  if skipsLowerEntries configuration index then startIndexLevel4 configuration else 0

theorem level4Start_le (index : Nat) : level4Start configuration index ≤ 0x1ff := by
  unfold level4Start startIndexLevel4
  split
  · dsimp only
    split <;> omega
  · omega

/-- Which addresses are mapped: those of the level-2 entries, and those that the
two other loops add. -/
theorem has_setupLevelsWith {address : Nat} :
    (setupLevelsWith lowerEntries base value configuration).Has address value ↔
      ((∃ entry, entry < configuration.pageTableEntries 2 ∧ ∃ i, Included lowerEntries 0 i ∧
          address = lowerEntryAddress base 2 entry i) ∨
        ∃ entry, configuration.pageTableEntries 2 / 512 ≤ entry ∧
          entry < configuration.pageTableEntries 3 ∧ ∃ i,
            Included lowerEntries (startIndexLevel3 configuration entry) i ∧
              address = lowerEntryAddress base 3 entry i) ∨
        ∃ entry, firstLevel4 configuration ≤ entry ∧ entry < configuration.pageTableEntries 4 ∧ ∃ i,
          Included lowerEntries (level4Start configuration entry) i ∧
            address = lowerEntryAddress base 4 entry i := by
  have level3 : (fun index => if index = configuration.pageTableEntries 2 / 512 then
      setupLevelEntry lowerEntries base value 3 index (configuration.pageTableEntries 2 % 512)
      else setupLevelEntry lowerEntries base value 3 index 0) = fun index =>
        setupLevelEntry lowerEntries base value 3 index (startIndexLevel3 configuration index) := by
    funext index
    unfold startIndexLevel3
    split <;> rfl
  have level4 : (fun index => if skipsLowerEntries configuration index then
      setupLevelEntry lowerEntries base value 4 index (startIndexLevel4 configuration)
      else setupLevelEntry lowerEntries base value 4 index 0) = fun index =>
        setupLevelEntry lowerEntries base value 4 index (level4Start configuration index) := by
    funext index
    unfold level4Start
    split <;> rfl
  have small : ∀ index, startIndexLevel3 configuration index ≤ 0x1ff := by
    intro index
    unfold startIndexLevel3
    split <;> omega
  have nothing : ¬ (Mapping.mk [] 0).Has address value := fun ⟨_, inside, _⟩ => List.not_mem_nil inside
  unfold setupLevelsWith
  simp only [level3, level4]
  rw [has_setupLoop (level4Start configuration) level4Start_le, has_setupLoop _ small,
    has_setupLoop (fun _ => 0) (fun _ => Nat.zero_le _)]
  simp only [nothing, false_or, Nat.zero_le, true_and]

/-! ## The arithmetic of the overlap -/

theorem lowerEntryAddress_eq {level : Nat} (isLevel : IsLevel level) (entry i : Nat) :
    lowerEntryAddress base level entry i = base + (entry * 512 + i) * 2 ^ pageTableIndexShift (level - 1) := by
  rw [lowerEntryAddress, Nat.add_assoc, ← pageAddress_eq isLevel, pageAddress]

/-- A lower entry is an entry of the level below. -/
theorem lowerEntryAddress_succ {level : Nat} (isLevel : IsLevel level) (upperLevel : IsLevel (level + 1))
    (entry i : Nat) :
    lowerEntryAddress base (level + 1) entry i = lowerEntryAddress base level (entry * 512 + i) 0 := by
  have shift : pageTableIndexShift (level + 1 - 1) = pageTableIndexShift (level - 1) + 9 :=
    pageTableIndexShift_succ isLevel
  rw [lowerEntryAddress_eq upperLevel, lowerEntryAddress_eq isLevel, shift, Nat.pow_add]
  ring

/-- The level-3 entries that the first two loops cover, as far as they count for
level 4. -/
def coveredLevel3 (configuration : Configuration) : Nat :=
  max (configuration.pageTableEntries 2 / 512) (configuration.pageTableEntries 3)

theorem firstLevel4_eq : firstLevel4 configuration = coveredLevel3 configuration / 512 := by
  unfold firstLevel4 coveredLevel3
  dsimp only
  split
  · rw [Nat.max_eq_left (by omega)]
  · rw [Nat.max_eq_right (by omega)]

theorem startIndexLevel4_eq : startIndexLevel4 configuration = coveredLevel3 configuration % 512 := by
  unfold startIndexLevel4 coveredLevel3
  dsimp only
  split
  · rw [Nat.max_eq_left (by omega)]
  · rw [Nat.max_eq_right (by omega)]

/-- Behind the partly covered entry the condition of the source only asks for
the size of level 3. -/
theorem skipsLowerEntries_iff {index : Nat} (later : firstLevel4 configuration < index) :
    skipsLowerEntries configuration index = true ↔ 512 ≤ configuration.pageTableEntries 3 := by
  unfold firstLevel4 at later
  unfold skipsLowerEntries
  dsimp only at later ⊢
  rw [bne_iff_ne]
  by_cases larger : configuration.pageTableEntries 2 / 512 > configuration.pageTableEntries 3
  · rw [if_pos larger] at later ⊢
    split <;> omega
  · rw [if_neg larger] at later ⊢
    rw [if_neg (by omega)]
    omega

/-- Entries behind the partly covered one lose lower entries.  This needs a level-4
entry that level-3 entries cover in part, and another level-4 entry behind it. -/
def LosesPages (configuration : Configuration) : Prop :=
  coveredLevel3 configuration % 512 ≠ 0 ∧ 512 ≤ configuration.pageTableEntries 3 ∧
    coveredLevel3 configuration / 512 + 1 < configuration.pageTableEntries 4

instance : Decidable (LosesPages configuration) :=
  inferInstanceAs (Decidable (_ ∧ _))

/-- The lower entries that the experiments touch: the first three, which hold links
and extra addresses, and the last one, in which every chain ends. -/
def TouchedEntry (k : Nat) : Prop :=
  k = 0 ∨ k = 1 ∨ k = 2 ∨ k = 0x1ff

theorem TouchedEntry.included {startIndex k : Nat} (enough : 3 ≤ lowerEntries) (touched : TouchedEntry k)
    (atLeast : startIndex ≤ k) : Included lowerEntries startIndex k := by
  rcases touched with rfl | rfl | rfl | rfl
  · exact Or.inl ⟨atLeast, by omega⟩
  · exact Or.inl ⟨atLeast, by omega⟩
  · exact Or.inl ⟨atLeast, by omega⟩
  · exact Or.inr rfl

private theorem mul_lt_of_lt_div {entry entries : Nat} (below : entry < entries / 512) :
    entry * 512 < entries := by
  omega

section Levels

variable (enough : 3 ≤ lowerEntries) {entry k : Nat}

include enough

theorem has_level2 (inside : entry < configuration.pageTableEntries 2) (touched : TouchedEntry k) :
    (setupLevelsWith lowerEntries base value configuration).Has (lowerEntryAddress base 2 entry k) value :=
  has_setupLevelsWith.mpr (Or.inl (Or.inl
    ⟨entry, inside, k, touched.included enough (Nat.zero_le k), rfl⟩))

theorem has_level3 (inside : entry < configuration.pageTableEntries 3) (touched : TouchedEntry k) :
    (setupLevelsWith lowerEntries base value configuration).Has (lowerEntryAddress base 3 entry k) value := by
  by_cases covered : entry * 512 + k < configuration.pageTableEntries 2
  · rw [lowerEntryAddress_succ (show IsLevel 2 by decide) (by decide)]
    exact has_level2 enough covered (Or.inl rfl)
  · have small : k ≤ 0x1ff := by
      unfold TouchedEntry at touched
      omega
    have atLeast : startIndexLevel3 configuration entry ≤ k := by
      unfold startIndexLevel3
      split <;> omega
    exact has_setupLevelsWith.mpr (Or.inl (Or.inr
      ⟨entry, by omega, inside, k, touched.included enough atLeast, rfl⟩))

theorem has_level4 (keeps : ¬ LosesPages configuration) (inside : entry < configuration.pageTableEntries 4)
    (touched : TouchedEntry k) :
    (setupLevelsWith lowerEntries base value configuration).Has (lowerEntryAddress base 4 entry k) value := by
  by_cases covered : entry * 512 + k < coveredLevel3 configuration
  · rw [lowerEntryAddress_succ (show IsLevel 3 by decide) (by decide)]
    rcases lt_max_iff.mp covered with byLevel2 | byLevel3
    · have inLevel2 : (entry * 512 + k) * 512 < configuration.pageTableEntries 2 :=
        mul_lt_of_lt_div byLevel2
      rw [lowerEntryAddress_succ (show IsLevel 2 by decide) (by decide), Nat.add_zero]
      apply has_level2 enough inLevel2
      exact Or.inl rfl
    · exact has_level3 enough byLevel3 (Or.inl rfl)
  · have small : k ≤ 0x1ff := by
      unfold TouchedEntry at touched
      omega
    have first : firstLevel4 configuration = coveredLevel3 configuration / 512 := firstLevel4_eq
    have atLeast : level4Start configuration entry ≤ k := by
      unfold level4Start
      rw [startIndexLevel4_eq]
      split
      · rename_i skips
        by_cases partly : entry = firstLevel4 configuration
        · omega
        · have full := (skipsLowerEntries_iff (show firstLevel4 configuration < entry by omega)).mp skips
          unfold LosesPages at keeps
          omega
      · omega
    exact has_setupLevelsWith.mpr (Or.inr ⟨entry, by omega, inside, k, touched.included enough atLeast, rfl⟩)

end Levels

/-- Nothing maps the first page of the entry behind the partly covered one. -/
theorem not_has_of_losesPages (few : lowerEntries ≤ 511) (loses : LosesPages configuration) :
    ¬ (setupLevelsWith lowerEntries base value configuration).Has
      (lowerEntryAddress base 4 (coveredLevel3 configuration / 512 + 1) 0) value := by
  have first : firstLevel4 configuration = coveredLevel3 configuration / 512 := firstLevel4_eq
  have below2 : configuration.pageTableEntries 2 / 512 ≤ coveredLevel3 configuration := Nat.le_max_left _ _
  have below3 : configuration.pageTableEntries 3 ≤ coveredLevel3 configuration := Nat.le_max_right _ _
  rw [has_setupLevelsWith, lowerEntryAddress_eq (by decide)]
  rintro ((⟨entry, inside, i, included, same⟩ | ⟨entry, atLeast, inside, i, included, same⟩) |
    ⟨entry, atLeast, inside, i, included, same⟩)
  · rw [lowerEntryAddress_eq (by decide)] at same
    simp only [pageTableIndexShift, Nat.reduceSub, Nat.reducePow] at same
    rcases included with ⟨_, small⟩ | rfl <;> omega
  · rw [lowerEntryAddress_eq (by decide)] at same
    simp only [pageTableIndexShift, Nat.reduceSub, Nat.reducePow] at same
    rcases included with ⟨_, small⟩ | rfl <;> omega
  · rw [lowerEntryAddress_eq (by decide)] at same
    simp only [pageTableIndexShift, Nat.reduceSub, Nat.reducePow] at same
    have skips := (skipsLowerEntries_iff (show firstLevel4 configuration <
      coveredLevel3 configuration / 512 + 1 by omega)).mpr loses.2.1
    have start : level4Start configuration (coveredLevel3 configuration / 512 + 1) =
        coveredLevel3 configuration % 512 := by
      rw [level4Start, if_pos skips, startIndexLevel4_eq]
    have skipped := loses.1
    rcases included with ⟨early, small⟩ | rfl
    · obtain rfl : entry = coveredLevel3 configuration / 512 + 1 := by omega
      omega
    · omega

/-- Every page that the experiments of a level can touch is mapped and initialised.
The value is 0 in the base window and `signal` in the complementary one. -/
def CoversWindow (configuration : Configuration) (base value : Nat) (mapping : Mapping) : Prop :=
  ∀ level entry k, IsLevel level -> entry < configuration.pageTableEntries level -> TouchedEntry k ->
    mapping.Has (lowerEntryAddress base level entry k) value

theorem coversWindow_iff (enough : 3 ≤ lowerEntries) (few : lowerEntries ≤ 511) :
    CoversWindow configuration base value (setupLevelsWith lowerEntries base value configuration) ↔
      ¬ LosesPages configuration := by
  constructor
  · intro covers loses
    exact not_has_of_losesPages few loses (covers 4 _ 0 (by decide) loses.2.2 (Or.inl rfl))
  · intro keeps level entry k isLevel inside touched
    rcases isLevel with ⟨lower, upper⟩
    interval_cases level
    · exact has_level2 enough inside touched
    · exact has_level3 enough inside touched
    · exact has_level4 enough keeps inside touched

end Coverage

/-- Both triggers cover the window exactly if the level-4 loop does not meet a
partly covered entry with another entry behind it, while level 3 has at least 512
entries.  The loop is modelled as it is parsed: the comparison is the condition of
the conditional, so the entries behind a partly covered one skip their first lower
entries as well. -/
theorem setupLevels_covers_iff (configuration : Configuration) (base value : Nat) :
    (CoversWindow configuration base value (setupLevels base value configuration) ↔
      ¬ LosesPages configuration) ∧
    (CoversWindow configuration base value (CacheQuery.setupLevels base value configuration) ↔
      ¬ LosesPages configuration) :=
  ⟨coversWindow_iff (by decide) (by decide), coversWindow_iff (by decide) (by decide)⟩

/-- One level-3 entry more than the repository ships with. -/
def oneMoreLevel3 : Configuration where
  pageTableEntries
    | 2 => 512 * 32
    | 3 => 513
    | 4 => 32
    | _ => 0

/-- With 513 entries of level 3, the first page of the third level-4 entry is not
mapped. -/
theorem setupLevels_misses_page :
    (∀ level, IsLevel level -> 0 < oneMoreLevel3.pageTableEntries level ∧
      oneMoreLevel3.pageTableEntries level <<< pageTableIndexShift level ≤ 2 ^ 44) ∧
    ¬ (setupLevels baseAddress 0 oneMoreLevel3).Has
      (baseAddress + (2 <<< pageTableIndexShift 4) + (0 <<< pageTableIndexShift 3)) 0 := by
  constructor
  · rintro level ⟨lower, upper⟩
    interval_cases level <;> decide
  · exact not_has_of_losesPages (by decide) (by decide : LosesPages oneMoreLevel3)

end Talbot
