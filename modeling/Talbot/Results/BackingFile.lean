import Mathlib.Data.List.Nodup
import Mathlib.Data.List.Pairwise
import Talbot.UserSpace.Trigger

namespace Talbot

/-!
The shared memory file behind the windows.

Every call of `map_page` takes the next page of the file.  Each entry of a level
takes at most one page for each of its first lower entries and one for the last
one, and no loop visits more entries than its level has.
-/

/-- The pages of the file behind two mapped pages overlap.  Offsets need not be
multiples of the page size here; that they are follows from the way in which they
are counted. -/
def MappedPage.Overlaps (first second : MappedPage) : Prop :=
  first.fileOffset < second.fileOffset + pageSize ∧ second.fileOffset < first.fileOffset + pageSize

/-- A file with this many pages is large enough for all calls of `map_page`, and
they do not get into each other's way. -/
structure FitsFile (amount : Nat) (mapping : Mapping) : Prop where
  recorded : mapping.pages.length = mapping.mappedPageCount
  calls : mapping.mappedPageCount ≤ amount
  offsets : (mapping.pages.map MappedPage.fileOffset).Nodup
  inside : ∀ page, page ∈ mapping.pages -> page.fileOffset + pageSize ≤ fileSize amount
  unshared : ∀ first, first ∈ mapping.pages -> ∀ second, second ∈ mapping.pages ->
    first.address ≠ second.address -> ¬ first.Overlaps second

namespace Mapping

/-! ## The pages of the file in use -/

/-- The calls so far have taken the first pages of the file, in order, and have
initialised every page with the value. -/
structure Sequential (value : Nat) (mapping : Mapping) : Prop where
  offsets : mapping.pages.map MappedPage.fileOffset =
    (List.range mapping.mappedPageCount).map fun count => pageSize * count
  values : ∀ page, page ∈ mapping.pages -> page.value = value

variable {value : Nat}

theorem Sequential.fitsFile {mapping : Mapping} (sequential : mapping.Sequential value) {amount : Nat}
    (calls : mapping.mappedPageCount ≤ amount) : FitsFile amount mapping := by
  have positive : 0 < pageSize := by decide
  have steps : mapping.pages.Pairwise fun first second => first.fileOffset + pageSize ≤ second.fileOffset := by
    have ordered : (mapping.pages.map MappedPage.fileOffset).Pairwise
        fun first second => first + pageSize ≤ second := by
      rw [sequential.offsets, List.pairwise_map]
      exact List.pairwise_lt_range.imp fun below => Nat.mul_le_mul_left pageSize below
    exact List.pairwise_map.mp ordered
  have apart : mapping.pages.Pairwise fun first second => ¬ first.Overlaps second :=
    steps.imp fun later overlaps => absurd overlaps.2 (Nat.not_lt.mpr later)
  refine ⟨?_, calls, ?_, ?_, ?_⟩
  · have lengths := congrArg List.length sequential.offsets
    rwa [List.length_map, List.length_map, List.length_range] at lengths
  · rw [sequential.offsets]
    exact List.Nodup.map (fun _ _ same => Nat.eq_of_mul_eq_mul_left positive same) List.nodup_range
  · intro page known
    have offset := List.mem_map_of_mem (f := MappedPage.fileOffset) known
    rw [sequential.offsets] at offset
    rcases List.mem_map.mp offset with ⟨count, below, same⟩
    rw [← same]
    exact Nat.mul_le_mul_left pageSize (Nat.lt_of_lt_of_le (List.mem_range.mp below) calls)
  · intro first known second known' differ
    have symmetric : Std.Symm fun first second : MappedPage => ¬ first.Overlaps second :=
      ⟨fun _ _ apart overlaps => apart overlaps.symm⟩
    exact apart.forall known known' fun same => differ (congrArg MappedPage.address same)

/-! ## Counting the calls -/

/-- From one mapping to a later one there are at most `amount` calls, all of them
taking the next page. -/
structure Advances (value amount : Nat) (before after : Mapping) : Prop where
  sequential : before.Sequential value -> after.Sequential value
  calls : after.mappedPageCount ≤ before.mappedPageCount + amount

theorem Advances.refl (mapping : Mapping) : Advances value 0 mapping mapping :=
  ⟨id, Nat.le_refl _⟩

theorem Advances.trans {before middle after : Mapping} {amount more : Nat} (first : Advances value amount before middle)
    (second : Advances value more middle after) : Advances value (amount + more) before after := by
  refine ⟨fun sequential => second.sequential (first.sequential sequential), ?_⟩
  calc
    after.mappedPageCount ≤ middle.mappedPageCount + more := second.calls
    _ ≤ before.mappedPageCount + (amount + more) := by
        rw [← Nat.add_assoc]
        exact Nat.add_le_add_right first.calls more

theorem Advances.weaken {before after : Mapping} {amount more : Nat} (advances : Advances value amount before after)
    (atMost : amount ≤ more) : Advances value more before after :=
  ⟨advances.sequential, Nat.le_trans advances.calls (Nat.add_le_add_left atMost _)⟩

theorem advances_mapPage (address : Nat) (mapping : Mapping) :
    Advances value 1 mapping (mapping.mapPage address value) := by
  refine ⟨fun sequential => ⟨?_, ?_⟩, Nat.le_refl _⟩
  · simp only [mapPage, List.map_append, sequential.offsets, List.range_succ, List.map_cons, List.map_nil]
  · intro page inside
    rcases List.mem_append.mp inside with old | new
    · exact sequential.values page old
    · rw [List.mem_singleton.mp new]

/-- A loop advances by what its iterations advance, as often as it runs. -/
theorem advances_forEach {amount : Nat} {body : Nat -> Mapping -> Mapping}
    (step : ∀ index mapping, Advances value amount mapping (body index mapping)) (start stop : Nat)
    (mapping : Mapping) :
    Advances value ((stop - start) * amount) mapping (forEach start stop body mapping) := by
  unfold forEach
  generalize stop - start = count
  induction count generalizing start mapping with
  | zero =>
      rw [Nat.zero_mul]
      exact .refl mapping
  | succ count inductionHypothesis =>
      rw [List.range'_succ, List.foldl_cons, Nat.succ_mul, Nat.add_comm]
      exact (step start mapping).trans (inductionHypothesis (start + 1) (body start mapping))

end Mapping

section Counting

open Mapping

variable {value : Nat} (lowerEntries base : Nat)

theorem advances_setupLevelEntry (level entryIndex startIndex : Nat) (mapping : Mapping) :
    Advances value (lowerEntries + 1) mapping
      (setupLevelEntry lowerEntries base value level entryIndex startIndex mapping) := by
  have lower : Advances value ((lowerEntries - startIndex) * 1) mapping (forEach startIndex lowerEntries
      (fun i => mapPage (lowerEntryAddress base level entryIndex i) value) mapping) :=
    advances_forEach (fun i => advances_mapPage _) startIndex lowerEntries mapping
  rw [Nat.mul_one] at lower
  have few := lower.weaken (Nat.sub_le lowerEntries startIndex)
  unfold setupLevelEntry
  dsimp only
  split
  · exact few.weaken (Nat.le_succ _)
  · exact few.trans (advances_mapPage _ _)

/-- One of the three loops. -/
theorem advances_setupLoop {body : Nat -> Mapping -> Mapping}
    (entry : ∀ index mapping, Advances value (lowerEntries + 1) mapping (body index mapping)) (start stop : Nat)
    (mapping : Mapping) :
    Advances value (stop * (lowerEntries + 1)) mapping (forEach start stop body mapping) :=
  (advances_forEach entry start stop mapping).weaken (Nat.mul_le_mul_right _ (Nat.sub_le stop start))

theorem advances_setupLevelsWith (configuration : Configuration) :
    Advances value ((configuration.pageTableEntries 2 + configuration.pageTableEntries 3 +
      configuration.pageTableEntries 4) * (lowerEntries + 1)) ⟨[], 0⟩
      (setupLevelsWith lowerEntries base value configuration) := by
  have entry := @advances_setupLevelEntry value lowerEntries base
  rw [Nat.add_mul, Nat.add_mul]
  refine ((advances_setupLoop lowerEntries ?_ 0 _ _).trans (advances_setupLoop lowerEntries ?_ _ _ _)).trans
    (advances_setupLoop lowerEntries ?_ _ _ _)
  · exact fun index => entry 2 index 0
  · intro index mapping
    split
    · exact entry 3 index _ mapping
    · exact entry 3 index 0 mapping
  · intro index mapping
    split
    · exact entry 4 index _ mapping
    · exact entry 4 index 0 mapping

theorem sequential_setupLevelsWith (configuration : Configuration) :
    (setupLevelsWith lowerEntries base value configuration).Sequential value :=
  (advances_setupLevelsWith lowerEntries base configuration).sequential
    ⟨rfl, fun _ impossible => (List.not_mem_nil impossible).elim⟩

/-- The upper bound that the triggers compute, for any number of lower entries. -/
theorem fitsFile_setupLevelsWith (configuration : Configuration) :
    FitsFile ((configuration.pageTableEntries 2 + configuration.pageTableEntries 3 +
      configuration.pageTableEntries 4) * (lowerEntries + 1))
      (setupLevelsWith lowerEntries base value configuration) := by
  have calls := (@advances_setupLevelsWith value lowerEntries base configuration).calls
  rw [Nat.zero_add] at calls
  exact (sequential_setupLevelsWith lowerEntries base configuration).fitsFile calls

end Counting

/-- For all sizes of the levels, the files of both triggers have a page of their own
for every call of `map_page`. The sizes are taken in exact arithmetic, and nothing
is assumed of the configuration: levels that are not used, and those with a partly
covered entry, are counted as the loops visit them. -/
theorem setupLevels_fitsFile (configuration : Configuration) (base value : Nat) :
    FitsFile (amount4KBPages configuration) (setupLevels base value configuration) ∧
    FitsFile (CacheQuery.amount4KBPages configuration) (CacheQuery.setupLevels base value configuration) :=
  ⟨fitsFile_setupLevelsWith 3 base configuration, fitsFile_setupLevelsWith 7 base configuration⟩

end Talbot
