import Talbot.Machine.Paging
import Talbot.Results.BackingFile
import Talbot.Results.MappingCoverage
import Talbot.Results.SlotViews
import Talbot.UserSpace.Memory

namespace Talbot

/-!
The memory behind the windows.

An address is one place of a file, and two addresses are the same place exactly if
the paging machine names them by the same physical slot.  The words of the machine
are therefore what data accesses and calls see in the files, from the set-up on and
after any number of stores.
-/

open Foundations MappedMemory Slots

/-! ## Records in files -/

section Records

variable {memory : ProcessMemory} {region : Region MemoryFile} {address : Nat} {value : BitVec 64}

theorem store_within {count first length word : Nat} (spans : memory.Spans region address count)
    (fits : first + length ≤ count) (positive : 0 < length) : memory.store (address + first) length word =
      some (memory.withFile region.file
        ((memory.files region.file).store ((region.place address).2 + first) length word)) := by
  have inside := (of_regionOf (spans.start (by omega))).2
  rw [store_eq (spans.within fits), place_add inside]

/-- In the range of a region a record is stored in its file. -/
theorem storeRecord_eq (spans : memory.Spans region address slotSize) : storeRecord address value memory =
    some (memory.withFile region.file ((memory.files region.file).storeBytes (region.place address).2
      (slotRecord value))) := by
  have step : ∀ {bytes : ByteMemory} {first length word : Nat}, first + length ≤ slotSize -> 0 < length ->
      (memory.withFile region.file bytes).store (address + first) length word =
        some (memory.withFile region.file (bytes.store ((region.place address).2 + first) length word)) := by
    intro bytes first length word fits positive
    have spansToo : (memory.withFile region.file bytes).Spans region address slotSize := spans
    rw [store_within spansToo fits positive, withFile_withFile, withFile_files]
  have start : memory.store address 2 0x9090 = some (memory.withFile region.file
      ((memory.files region.file).store (region.place address).2 2 0x9090)) :=
    store_within spans (by decide : 0 + 2 ≤ slotSize) (by decide)
  rw [← Slots.writeData_eq]
  unfold storeRecord Slots.writeData
  rw [start, Option.bind_eq_bind, Option.bind_some, step (by decide) (by decide), Option.bind_some,
    step (by decide) (by decide), Option.bind_some, step (by decide) (by decide), Option.bind_some,
    step (by decide) (by decide)]

theorem recordAt_view (spans : memory.Spans region address slotSize)
    (record : RecordAt (memory.files region.file) (region.place address).2 value) : RecordAt memory.view address value := by
  unfold RecordAt
  rw [loadBytes_view spans]
  exact record

end Records

/-! ## Setting up -/

section Setup

/-- The records that are written to a file. -/
def recordsOf (file : MemoryFile) (pages : List SetupPage) : List SlotWrite :=
  (pages.filter fun page => decide (page.region.file = file)).map fun page =>
    .initializePage page.region.offset page.value

def regionsOf (pages : List SetupPage) : List (Region MemoryFile) :=
  (pages.map SetupPage.region).reverse

theorem recordsOf_concat (file : MemoryFile) (pages : List SetupPage) (page : SetupPage) :
    recordsOf file (pages ++ [page]) = if page.region.file = file then
      recordsOf file pages ++ [.initializePage page.region.offset page.value] else recordsOf file pages := by
  unfold recordsOf
  rw [List.filter_append, List.filter_singleton, List.map_append]
  by_cases here : page.region.file = file
  · rw [if_pos here, decide_eq_true here]
    rfl
  · rw [if_neg here, decide_eq_false here]
    exact List.append_nil _

theorem setupPages_concat (pages : List SetupPage) (page : SetupPage) (files : MemoryFile -> ByteMemory) :
    setupPages (pages ++ [page]) files = setupPages pages files >>= fun memory => setupPage memory page := by
  unfold setupPages
  rw [List.foldlM_append]
  congr 1
  funext memory
  exact bind_pure _

theorem setupPage_eq (memory : ProcessMemory) (page : SetupPage) (large : slotSize ≤ page.region.size) :
    setupPage memory page = some ((memory.map page.region).withFile page.region.file
      ((memory.files page.region.file).storeBytes page.region.offset (slotRecord page.value))) := by
  have spans : (memory.map page.region).Spans page.region page.region.address slotSize := by
    intro offset bounded
    apply regionOf_map
    exact ⟨Nat.le_add_right _ _, Nat.add_lt_add_left (Nat.lt_of_lt_of_le bounded large) _⟩
  have offset : (page.region.place page.region.address).2 = page.region.offset := by
    unfold Region.place
    rw [Nat.sub_self, Nat.add_zero]
  have stored := @storeRecord_eq _ _ _ page.value spans
  rw [offset] at stored
  exact stored

/-- The set-up succeeds, and every page wrote its record to its file. -/
theorem setupPages_eq (pages : List SetupPage) (files : MemoryFile -> ByteMemory)
    (large : ∀ page, page ∈ pages -> slotSize ≤ page.region.size) :
    setupPages pages files = some ⟨regionsOf pages, fun file => applyAll (files file) (recordsOf file pages)⟩ := by
  induction pages using List.reverseRecOn with
  | nil => rfl
  | append_singleton pages page inductionHypothesis =>
      rcases List.forall_mem_append.mp large with ⟨earlier, here⟩
      have regions : regionsOf (pages ++ [page]) = page.region :: regionsOf pages := by
        unfold regionsOf
        rw [List.map_append, List.reverse_append]
        rfl
      rw [setupPages_concat, inductionHypothesis earlier, Option.bind_eq_bind, Option.bind_some,
        setupPage_eq _ _ (here page List.mem_cons_self), regions]
      unfold withFile MappedMemory.map
      dsimp only
      congr 2
      funext file
      rw [recordsOf_concat]
      by_cases same : page.region.file = file
      · subst same
        rw [Function.update_self, if_pos rfl, applyAll_append]
        exact (SlotWrite.apply_eq (.initializePage page.region.offset page.value) _).symm
      · rw [Function.update_of_ne fun equal => same equal.symm, if_neg same]

end Setup

/-! ## How the windows are laid out -/

section Layouts

/-- The windows end before the huge regions begin.  Larger levels would have their
last addresses in common with the huge pages. -/
def WindowsFit (configuration : Configuration) : Prop :=
  ∀ level, IsLevel level ->
    configuration.pageTableEntries level <<< pageTableIndexShift level ≤ huge2MBBaseAddress - baseAddress

/-- Where the window or the region of a file begins. -/
def startOf : MemoryFile -> Nat
  | .base => baseAddress
  | .complementary => complementaryBaseAddress
  | .huge2MB => huge2MBBaseAddress
  | .huge1GB => huge1GBBaseAddress

def spanOf : MemoryFile -> Nat
  | .base | .complementary => huge2MBBaseAddress - baseAddress
  | .huge2MB => amount2MPages * (2 * 2 ^ 20)
  | .huge1GB => amount1GPages * (1 * 2 ^ 30)

def unitOf : MemoryFile -> Nat
  | .base | .complementary => pageSize
  | .huge2MB => 2 * 2 ^ 20
  | .huge1GB => 1 * 2 ^ 30

/-- Whether all pages show the same part of the file. -/
def sharesPage : MemoryFile -> Bool
  | .base | .complementary => false
  | .huge2MB | .huge1GB => true

def wordOf : MemoryFile -> Nat
  | .complementary => signal
  | _ => 0

/-- A page of a window or of a huge region.  The fields say that it is aligned in
memory and in its file, that it stays in the range of its file, and which word it
begins with. -/
structure LaidOut (page : SetupPage) : Prop where
  size : page.region.size = unitOf page.region.file
  aligned : unitOf page.region.file ∣ page.region.address
  begins : startOf page.region.file ≤ page.region.address
  ends : page.region.address + page.region.size ≤ startOf page.region.file + spanOf page.region.file
  offset : pageSize ∣ page.region.offset
  shared : sharesPage page.region.file = true -> page.region.offset = 0
  word : page.value = BitVec.ofNat 64 (wordOf page.region.file)

/-- No two pages show overlapping parts of a file, except for pages at the same
address and those of a huge region. -/
structure Layouts (pages : List SetupPage) : Prop where
  laidOut : ∀ page, page ∈ pages -> LaidOut page
  apart : ∀ first, first ∈ pages -> ∀ second, second ∈ pages -> first.region.file = second.region.file ->
    sharesPage first.region.file = false -> first.region.address ≠ second.region.address ->
      first.region.offset + pageSize ≤ second.region.offset ∨ second.region.offset + pageSize ≤ first.region.offset

variable {configuration : Configuration}

theorem lowerEntry_bounds (fits : WindowsFit configuration) {level base entry i : Nat} (isLevel : IsLevel level)
    (aligned : pageSize ∣ base) (below : entry < configuration.pageTableEntries level) (small : i < 512) :
    base ≤ lowerEntryAddress base level entry i ∧
      lowerEntryAddress base level entry i + pageSize ≤ base + (huge2MBBaseAddress - baseAddress) ∧
        pageSize ∣ lowerEntryAddress base level entry i := by
  have divides : pageSize ∣ 2 ^ pageTableIndexShift (level - 1) :=
    Nat.pow_dvd_pow 2 (le_pageTableIndexShift isLevel)
  have atLeast : pageSize ≤ 2 ^ pageTableIndexShift (level - 1) := Nat.le_of_dvd (Nat.two_pow_pos _) divides
  have window := fits level isLevel
  rw [Nat.shiftLeft_eq, pageTableIndexShift_succ isLevel, Nat.pow_add] at window
  rw [lowerEntryAddress_eq isLevel]
  refine ⟨Nat.le_add_right _ _, ?_, Nat.dvd_add aligned (Nat.dvd_trans divides (Nat.dvd_mul_left _ _))⟩
  rw [Nat.add_assoc]
  apply Nat.add_le_add_left
  calc
    (entry * 512 + i) * 2 ^ pageTableIndexShift (level - 1) + pageSize
    _ ≤ (entry * 512 + i) * 2 ^ pageTableIndexShift (level - 1) + 2 ^ pageTableIndexShift (level - 1) :=
      Nat.add_le_add_left atLeast _
    _ = (entry * 512 + i + 1) * 2 ^ pageTableIndexShift (level - 1) := (Nat.succ_mul _ _).symm
    _ ≤ (configuration.pageTableEntries level * 512) * 2 ^ pageTableIndexShift (level - 1) :=
      Nat.mul_le_mul_right _ (by omega)
    _ = configuration.pageTableEntries level * (2 ^ pageTableIndexShift (level - 1) * 2 ^ 9) := by ring
    _ ≤ huge2MBBaseAddress - baseAddress := window

/-- The pages that `setup_levels` maps stay in the window. -/
theorem window_bounds (fits : WindowsFit configuration) {lowerEntries base value address : Nat} (few : lowerEntries ≤ 512)
    (aligned : pageSize ∣ base) (has : (setupLevelsWith lowerEntries base value configuration).Has address value) :
    base ≤ address ∧ address + pageSize ≤ base + (huge2MBBaseAddress - baseAddress) ∧ pageSize ∣ address := by
  have small : ∀ {start i : Nat}, Included lowerEntries start i -> i < 512 := by
    intro start i included
    unfold Included at included
    omega
  rcases has_setupLevelsWith.mp has with (⟨entry, below, i, included, same⟩ | ⟨entry, _, below, i, included, same⟩) |
    ⟨entry, _, below, i, included, same⟩
  · rw [same]
    exact lowerEntry_bounds fits (by decide) aligned below (small included)
  · rw [same]
    exact lowerEntry_bounds fits (by decide) aligned below (small included)
  · rw [same]
    exact lowerEntry_bounds fits (by decide) aligned below (small included)

theorem file_windowPages {file : MemoryFile} {mapping : Mapping} {page : SetupPage} (member : page ∈ windowPages file mapping) :
    page.region.file = file := by
  rcases List.mem_map.mp member with ⟨_, _, rfl⟩
  rfl

theorem file_hugePages {file : MemoryFile} {base size amount : Nat} {page : SetupPage}
    (member : page ∈ setupHugePages base size file amount) : page.region.file = file := by
  rcases List.mem_map.mp member with ⟨_, _, rfl⟩
  rfl

theorem layouts_window (fits : WindowsFit configuration) {lowerEntries : Nat} (few : lowerEntries ≤ 512) {file : MemoryFile}
    (small : sharesPage file = false) :
    Layouts (windowPages file (setupLevelsWith lowerEntries (startOf file) (wordOf file) configuration)) := by
  have sequential := @sequential_setupLevelsWith (wordOf file) lowerEntries (startOf file) configuration
  have unshared := (@fitsFile_setupLevelsWith (wordOf file) lowerEntries (startOf file) configuration).unshared
  have unit : unitOf file = pageSize ∧ spanOf file = huge2MBBaseAddress - baseAddress ∧ pageSize ∣ startOf file := by
    cases file with
    | base => exact ⟨rfl, rfl, by decide⟩
    | complementary => exact ⟨rfl, rfl, by decide⟩
    | huge2MB => cases small
    | huge1GB => cases small
  constructor
  · intro page member
    rcases List.mem_map.mp member with ⟨mapped, known, rfl⟩
    have word := sequential.values mapped known
    have bounds := window_bounds fits few unit.2.2 ⟨mapped, known, rfl, word⟩
    refine ⟨unit.1.symm, ?_, bounds.1, ?_, ?_, ?_, congrArg (BitVec.ofNat 64) word⟩
    · change unitOf file ∣ mapped.address
      rw [unit.1]
      exact bounds.2.2
    · change mapped.address + pageSize ≤ startOf file + spanOf file
      rw [unit.2.1]
      exact bounds.2.1
    · have offset := List.mem_map_of_mem (f := MappedPage.fileOffset) known
      rw [sequential.offsets] at offset
      rcases List.mem_map.mp offset with ⟨count, _, same⟩
      exact ⟨count, same.symm⟩
    · intro huge
      exact absurd huge (Bool.eq_false_iff.mp small)
  · intro first firstMember second secondMember _ _ differ
    rcases List.mem_map.mp firstMember with ⟨mapped, known, rfl⟩
    rcases List.mem_map.mp secondMember with ⟨other, knownToo, rfl⟩
    have separate := unshared mapped known other knownToo differ
    unfold MappedPage.Overlaps at separate
    change mapped.fileOffset + pageSize ≤ other.fileOffset ∨ other.fileOffset + pageSize ≤ mapped.fileOffset
    omega

theorem layouts_hugePages {file : MemoryFile} {amount : Nat} (huge : sharesPage file = true)
    (span : amount * unitOf file = spanOf file) :
    Layouts (setupHugePages (startOf file) (unitOf file) file amount) := by
  have start : unitOf file ∣ startOf file ∧ wordOf file = 0 := by
    cases file with
    | base => cases huge
    | complementary => cases huge
    | huge2MB => exact ⟨by decide, rfl⟩
    | huge1GB => exact ⟨by decide, rfl⟩
  constructor
  · intro page member
    rcases List.mem_map.mp member with ⟨index, below, rfl⟩
    have last := Nat.mul_le_mul_right (unitOf file) (Nat.succ_le_of_lt (List.mem_range.mp below))
    rw [span, Nat.succ_mul] at last
    refine ⟨rfl, Nat.dvd_add start.1 (Nat.dvd_mul_left _ _), Nat.le_add_right _ _, ?_, Nat.dvd_zero _, fun _ => rfl, ?_⟩
    · change startOf file + index * unitOf file + unitOf file ≤ startOf file + spanOf file
      rw [Nat.add_assoc]
      exact Nat.add_le_add_left last _
    · change (0 : BitVec 64) = BitVec.ofNat 64 (wordOf file)
      rw [start.2]
      rfl
  · intro first member _ _ _ small
    rw [file_hugePages member, huge] at small
    cases small

theorem Layouts.append {first second : List SetupPage} (firstLayouts : Layouts first) (secondLayouts : Layouts second)
    (files : ∀ page, page ∈ first -> ∀ other, other ∈ second -> page.region.file ≠ other.region.file) :
    Layouts (first ++ second) := by
  refine ⟨List.forall_mem_append.mpr ⟨firstLayouts.laidOut, secondLayouts.laidOut⟩, ?_⟩
  intro page member other memberToo same
  rcases List.mem_append.mp member with inFirst | inSecond
  · rcases List.mem_append.mp memberToo with inFirstToo | inSecondToo
    · exact firstLayouts.apart page inFirst other inFirstToo same
    · exact absurd same (files page inFirst other inSecondToo)
  · rcases List.mem_append.mp memberToo with inFirstToo | inSecondToo
    · exact absurd same.symm (files other inFirstToo page inSecond)
    · exact secondLayouts.apart page inSecond other inSecondToo same

theorem layouts_windows (fits : WindowsFit configuration) {lowerEntries : Nat} (few : lowerEntries ≤ 512) :
    Layouts (windowPages .base (setupLevelsWith lowerEntries baseAddress 0 configuration) ++
      windowPages .complementary (setupLevelsWith lowerEntries complementaryBaseAddress signal configuration)) := by
  apply (@layouts_window _ fits _ few .base rfl).append (@layouts_window _ fits _ few .complementary rfl)
  intro page member other memberToo
  rw [file_windowPages member, file_windowPages memberToo]
  decide

theorem layouts_triggerPages (fits : WindowsFit configuration) : Layouts (triggerPages configuration) := by
  have windows := @layouts_windows _ fits 3 (by decide)
  have files : ∀ page, page ∈ windowPages .base (setupLevels baseAddress 0 configuration) ++
      windowPages .complementary (setupLevels complementaryBaseAddress signal configuration) ->
        sharesPage page.region.file = false := by
    refine List.forall_mem_append.mpr ⟨fun page member => ?_, fun page member => ?_⟩
    · rw [file_windowPages member]
      rfl
    · rw [file_windowPages member]
      rfl
  refine (windows.append (@layouts_hugePages .huge2MB _ rfl rfl) ?_).append (@layouts_hugePages .huge1GB _ rfl rfl) ?_
  · intro page member other memberToo same
    have shares := files page member
    rw [same, file_hugePages memberToo] at shares
    cases shares
  · intro page member other memberToo same
    rcases List.mem_append.mp member with inWindow | inRegion
    · have shares := files page inWindow
      rw [same, file_hugePages memberToo] at shares
      cases shares
    · rw [file_hugePages inRegion, file_hugePages memberToo] at same
      cases same

theorem CacheQuery.layouts_triggerPages (fits : WindowsFit configuration) :
    Layouts (CacheQuery.triggerPages configuration) :=
  layouts_windows fits (by decide)

end Layouts

/-! ## Where the addresses lead -/

section Places

/-- The file of a physical slot. -/
def fileOf (slot : Nat) : MemoryFile :=
  if slot < huge2MBBaseAddress then .base
  else if slot < huge1GBBaseAddress then .huge2MB
  else if slot < complementaryBaseAddress then .huge1GB
  else .complementary

theorem wordOf_fileOf (slot : Nat) : wordOf (fileOf slot) = afterSetup.machine.memory slot := by
  have order : huge2MBBaseAddress < complementaryBaseAddress ∧ huge1GBBaseAddress < complementaryBaseAddress := by decide
  have memory : afterSetup.machine.memory slot = if complementaryBaseAddress ≤ slot then signal else 0 := rfl
  rw [memory]
  unfold fileOf
  split
  · rw [if_neg (by omega)]
    rfl
  · split
    · rw [if_neg (by omega)]
      rfl
    · split
      · rw [if_neg (by omega)]
        rfl
      · rw [if_pos (by omega)]
        rfl

theorem physicalSlot_numbers (address : Nat) : physicalSlot address =
    if 0x200000000000 ≤ address ∧ address < 0x200000000000 + 0x100000000 then 0x200000000000 + address % 0x200000
    else if 0x300000000000 ≤ address ∧ address < 0x300000000000 + 0x1000000000 then
      0x300000000000 + address % 0x40000000
    else address :=
  rfl

theorem fileOf_numbers (slot : Nat) : fileOf slot =
    if slot < 0x200000000000 then .base else if slot < 0x300000000000 then .huge2MB
    else if slot < 0x700000000000 then .huge1GB else .complementary :=
  rfl

/-- The slot of an address is where it is in its file, or the address itself.  The
former is for the pages that show the same part of their file, the latter for all
others. -/
theorem LaidOut.slot {page : SetupPage} (laidOut : LaidOut page) {address : Nat} (inside : page.region.Contains address) :
    fileOf (physicalSlot address) = page.region.file ∧ physicalSlot address =
      if sharesPage page.region.file then startOf page.region.file + (page.region.place address).2 else address := by
  rcases page with ⟨⟨first, size, file, offset⟩, value⟩
  rcases laidOut with ⟨unit, aligned, begins, ends, _, shared, _⟩
  rcases inside with ⟨atLeast, below⟩
  dsimp only at unit aligned begins ends shared atLeast below
  have slot := physicalSlot_numbers address
  cases file with
  | base =>
      change 0x100000000000 ≤ first at begins
      change first + size ≤ 0x100000000000 + 0x100000000000 at ends
      rw [if_neg (by omega), if_neg (by omega)] at slot
      rw [slot, fileOf_numbers]
      exact ⟨if_pos (by omega), rfl⟩
  | complementary =>
      change 0x700000000000 ≤ first at begins
      change first + size ≤ 0x700000000000 + 0x100000000000 at ends
      rw [if_neg (by omega), if_neg (by omega)] at slot
      rw [slot, fileOf_numbers, if_neg (by omega), if_neg (by omega), if_neg (by omega)]
      exact ⟨rfl, rfl⟩
  | huge2MB =>
      have start := shared rfl
      change size = 0x200000 at unit
      change 0x200000 ∣ first at aligned
      change 0x200000000000 ≤ first at begins
      change first + size ≤ 0x200000000000 + 0x100000000 at ends
      have place : address % 0x200000 = offset + (address - first) := by omega
      rw [if_pos (by omega), place] at slot
      rw [slot, fileOf_numbers, if_neg (by omega), if_pos (by omega)]
      exact ⟨rfl, rfl⟩
  | huge1GB =>
      have start := shared rfl
      change size = 0x40000000 at unit
      change 0x40000000 ∣ first at aligned
      change 0x300000000000 ≤ first at begins
      change first + size ≤ 0x300000000000 + 0x1000000000 at ends
      have place : address % 0x40000000 = offset + (address - first) := by omega
      rw [if_neg (by omega), if_pos (by omega), place] at slot
      rw [slot, fileOf_numbers, if_neg (by omega), if_neg (by omega), if_pos (by omega)]
      exact ⟨rfl, rfl⟩

theorem eq_of_aligned {unit first second : Nat} (firstAligned : unit ∣ first) (secondAligned : unit ∣ second)
    (atLeast : first ≤ second) (below : second < first + unit) : first = second := by
  have distance := Nat.eq_zero_of_dvd_of_lt (Nat.dvd_sub secondAligned firstAligned) (by omega)
  omega

variable {pages : List SetupPage} {memory : ProcessMemory}

theorem of_regionOf_pages (regions : memory.regions = regionsOf pages) {address : Nat} {region : Region MemoryFile}
    (found : memory.regionOf address = some region) :
    ∃ page, page ∈ pages ∧ page.region = region ∧ page.region.Contains address := by
  rcases of_regionOf found with ⟨member, inside⟩
  rw [regions, regionsOf, List.mem_reverse] at member
  rcases List.mem_map.mp member with ⟨page, known, rfl⟩
  exact ⟨page, known, rfl, inside⟩

theorem Layouts.aligned (layouts : Layouts pages) (regions : memory.regions = regionsOf pages) {unit : Nat}
    (divides : unit ∣ pageSize) : Aligned unit memory.regions := by
  have units : ∀ file, pageSize ∣ unitOf file := by
    intro file
    cases file with
    | base => exact Nat.dvd_refl _
    | complementary => exact Nat.dvd_refl _
    | huge2MB => exact ⟨512, rfl⟩
    | huge1GB => exact ⟨262144, rfl⟩
  intro region member
  rw [regions, regionsOf, List.mem_reverse] at member
  rcases List.mem_map.mp member with ⟨page, known, rfl⟩
  have laidOut := layouts.laidOut page known
  have unit_dvd := Nat.dvd_trans divides (units page.region.file)
  rw [laidOut.size]
  exact ⟨Nat.dvd_trans unit_dvd laidOut.aligned, unit_dvd⟩

/-- A place in a shared memory file is shown at one address only, unless the pages
of the file all show the same part of it. -/
theorem Layouts.address_unique (layouts : Layouts pages) (regions : memory.regions = regionsOf pages) {first second : Nat}
    {page other : SetupPage} (member : page ∈ pages) (memberToo : other ∈ pages)
    (found : memory.regionOf first = some page.region) (foundToo : memory.regionOf second = some other.region)
    (small : sharesPage page.region.file = false) (same : page.region.place first = other.region.place second) :
    first = second := by
  have inside := (of_regionOf found).2
  have insideToo := (of_regionOf foundToo).2
  have sameFile : page.region.file = other.region.file := congrArg Prod.fst same
  have sameOffset : page.region.offset + (first - page.region.address) =
      other.region.offset + (second - other.region.address) := congrArg Prod.snd same
  have unit : unitOf page.region.file = 4096 := by
    cases file : page.region.file with
    | base => rfl
    | complementary => rfl
    | huge2MB => rw [file] at small; cases small
    | huge1GB => rw [file] at small; cases small
  have laidOut := layouts.laidOut page member
  have size : page.region.size = 4096 := laidOut.size.trans unit
  have sizeToo : other.region.size = 4096 := by rw [(layouts.laidOut other memberToo).size, ← sameFile, unit]
  have aligned : 4096 ∣ page.region.address := unit ▸ laidOut.aligned
  unfold Region.Contains at inside insideToo
  have starts : page.region.address = other.region.address := by
    by_contra differ
    have separate := layouts.apart page member other memberToo sameFile small differ
    change _ + 4096 ≤ _ ∨ _ + 4096 ≤ _ at separate
    omega
  have sameUnit : first / 4096 = second / 4096 := by omega
  have sameRegion := regionOf_congr (layouts.aligned regions (Nat.dvd_refl pageSize)) sameUnit
  rw [found, foundToo] at sameRegion
  rw [Option.some.inj sameRegion] at sameOffset inside
  omega

/-- Two addresses are the same place of a file exactly if they are the same slot. -/
theorem Layouts.place_eq_iff (layouts : Layouts pages) (regions : memory.regions = regionsOf pages) {first second : Nat}
    {region other : Region MemoryFile} (found : memory.regionOf first = some region)
    (foundToo : memory.regionOf second = some other) :
    region.place first = other.place second ↔ physicalSlot first = physicalSlot second := by
  rcases of_regionOf_pages regions found with ⟨page, member, rfl, inside⟩
  rcases of_regionOf_pages regions foundToo with ⟨otherPage, memberToo, rfl, insideToo⟩
  have laidOut := layouts.laidOut page member
  have laidOutToo := layouts.laidOut otherPage memberToo
  rcases laidOut.slot inside with ⟨file, slot⟩
  rcases laidOutToo.slot insideToo with ⟨fileToo, slotToo⟩
  constructor
  · intro same
    have sameFile : page.region.file = otherPage.region.file := congrArg Prod.fst same
    have sameOffset : (page.region.place first).2 = (otherPage.region.place second).2 := congrArg Prod.snd same
    by_cases shares : sharesPage page.region.file = true
    · rw [slot, slotToo, sameOffset, if_pos shares, if_pos (sameFile ▸ shares), sameFile]
    · rw [layouts.address_unique regions member memberToo found foundToo (Bool.eq_false_iff.mpr shares) same]
  · intro same
    have sameFile : page.region.file = otherPage.region.file := by rw [← file, ← fileToo, same]
    rw [slot, slotToo, sameFile] at same
    by_cases shares : sharesPage otherPage.region.file = true
    · rw [if_pos shares, if_pos shares] at same
      exact Prod.ext sameFile (Nat.add_left_cancel same)
    · rw [if_neg shares, if_neg shares] at same
      rw [same, foundToo] at found
      rw [Option.some.inj found, same]

end Places

/-! ## The words of the slots -/

section Words

/-- The words of some slots are recorded in the files. -/
def Recorded (memory : ProcessMemory) (words : Nat -> Nat) (known : Nat -> Prop) : Prop :=
  ∀ slot region, 16 ∣ slot -> memory.regionOf slot = some region -> known (physicalSlot slot) ->
    RecordAt (memory.files region.file) (region.place slot).2 (BitVec.ofNat 64 (words (physicalSlot slot)))

/-- A page that is set up begins at the slot. -/
def Begins (pages : List SetupPage) (slot : Nat) : Prop :=
  ∃ page, page ∈ pages ∧ physicalSlot page.region.address = slot

theorem spaced_of_dvd {addresses : List Nat} (divides : ∀ address, address ∈ addresses -> 16 ∣ address) :
    Spaced addresses := by
  intro first member second memberToo
  have firstDivides := divides first member
  have secondDivides := divides second memberToo
  omega

theorem mem_of_lastWritten {writes : List SlotWrite} {address : Nat} {value : BitVec 64}
    (last : lastWritten writes address = some value) :
    ∃ write, write ∈ writes ∧ write.address = address ∧ write.value = value := by
  induction writes using List.reverseRecOn with
  | nil => cases last
  | append_singleton earlier write inductionHypothesis =>
      rw [lastWritten_append] at last
      by_cases here : address = write.address
      · subst here
        rw [Function.update_self] at last
        exact ⟨write, List.mem_append_right _ List.mem_cons_self, rfl, Option.some.inj last⟩
      · rw [Function.update_of_ne here] at last
        rcases inductionHypothesis last with ⟨before, member, same⟩
        exact ⟨before, List.mem_append_left _ member, same⟩

variable {pages : List SetupPage} {memory : ProcessMemory}

theorem Layouts.offset_dvd (layouts : Layouts pages) {page : SetupPage} (member : page ∈ pages) : 16 ∣ page.region.offset :=
  Nat.dvd_trans ⟨256, rfl⟩ (layouts.laidOut page member).offset

/-- After the set-up every page shows its word. -/
theorem recordAt_setup (layouts : Layouts pages) (files : MemoryFile -> ByteMemory) {page : SetupPage}
    (member : page ∈ pages) : RecordAt (applyAll (files page.region.file) (recordsOf page.region.file pages))
      page.region.offset (BitVec.ofNat 64 (wordOf page.region.file)) := by
  have written : ∀ write, write ∈ recordsOf page.region.file pages ->
      ∃ other, other ∈ pages ∧ other.region.file = page.region.file ∧
        write = .initializePage other.region.offset other.value := by
    intro write inside
    rcases List.mem_map.mp inside with ⟨other, selected, rfl⟩
    rcases List.mem_filter.mp selected with ⟨known, same⟩
    exact ⟨other, known, of_decide_eq_true same, rfl⟩
  have own : SlotWrite.initializePage page.region.offset page.value ∈ recordsOf page.region.file pages :=
    List.mem_map_of_mem (List.mem_filter.mpr ⟨member, decide_eq_true rfl⟩)
  have spaced : Spaced ((recordsOf page.region.file pages).map SlotWrite.address) := by
    refine spaced_of_dvd (List.forall_mem_map.mpr fun write inside => ?_)
    rcases written write inside with ⟨other, known, _, rfl⟩
    exact layouts.offset_dvd known
  have shows := @shows_applyAll (files page.region.file) _ spaced (recordsOf page.region.file pages)
    fun write inside => List.mem_map_of_mem inside
  rcases lastWritten_of_mem own with ⟨value, last⟩
  rcases mem_of_lastWritten last with ⟨write, inside, _, rfl⟩
  rcases written write inside with ⟨other, known, same, rfl⟩
  have word : other.value = BitVec.ofNat 64 (wordOf page.region.file) := same ▸ (layouts.laidOut other known).word
  have record := shows.record last
  rw [← word]
  exact record

theorem LaidOut.large {page : SetupPage} (laidOut : LaidOut page) : slotSize ≤ page.region.size := by
  rw [laidOut.size]
  cases page.region.file with
  | base => exact (by decide : slotSize ≤ pageSize)
  | complementary => exact (by decide : slotSize ≤ pageSize)
  | huge2MB => exact (by decide : slotSize ≤ 2 * 2 ^ 20)
  | huge1GB => exact (by decide : slotSize ≤ 1 * 2 ^ 30)

/-- The start of a page is the start of the page that is seen there. -/
theorem Layouts.shown (layouts : Layouts pages) (regions : memory.regions = regionsOf pages) {page : SetupPage}
    (member : page ∈ pages) : ∃ other, other ∈ pages ∧ memory.regionOf page.region.address = some other.region ∧
      other.region.file = page.region.file ∧
      other.region.place page.region.address = (other.region.file, other.region.offset) := by
  have laidOut := layouts.laidOut page member
  have positive : 0 < page.region.size := Nat.lt_of_lt_of_le (by decide) laidOut.large
  have start : page.region.Contains page.region.address := ⟨Nat.le_refl _, Nat.lt_add_of_pos_right positive⟩
  have known : page.region ∈ memory.regions := by
    rw [regions, regionsOf, List.mem_reverse]
    exact List.mem_map_of_mem member
  rcases regionOf_isSome known start with ⟨shown, found⟩
  rcases of_regionOf_pages regions found with ⟨other, otherMember, rfl, inside⟩
  have otherLaidOut := layouts.laidOut other otherMember
  have file : other.region.file = page.region.file := (otherLaidOut.slot inside).1.symm.trans (laidOut.slot start).1
  have begins : other.region.address = page.region.address := by
    apply eq_of_aligned otherLaidOut.aligned (file ▸ laidOut.aligned) inside.1
    rw [← otherLaidOut.size]
    exact inside.2
  refine ⟨other, otherMember, found, file, ?_⟩
  unfold Region.place
  rw [begins, Nat.sub_self, Nat.add_zero]

theorem recorded_setup (layouts : Layouts pages) (files : MemoryFile -> ByteMemory)
    (setUp : memory = ⟨regionsOf pages, fun file => applyAll (files file) (recordsOf file pages)⟩) :
    Recorded memory afterSetup.machine.memory (Begins pages) := by
  have regions : memory.regions = regionsOf pages := by rw [setUp]
  rintro slot region _ found ⟨page, member, same⟩
  rcases layouts.shown regions member with ⟨other, known, start, _, place⟩
  have record := recordAt_setup layouts files known
  have located := (layouts.place_eq_iff regions found start).mpr same.symm
  rw [place] at located
  have file : region.file = other.region.file := congrArg Prod.fst located
  have offset : (region.place slot).2 = other.region.offset := congrArg Prod.snd located
  rcases of_regionOf_pages regions found with ⟨own, ownMember, rfl, inside⟩
  have slotFile := ((layouts.laidOut own ownMember).slot inside).1
  rw [offset, ← wordOf_fileOf, slotFile, file, setUp]
  exact record

/-- A slot fits between two multiples of 16, which no page boundary separates. -/
theorem Layouts.spans (layouts : Layouts pages) (regions : memory.regions = regionsOf pages) {slot : Nat}
    {region : Region MemoryFile} (aligned : 16 ∣ slot) (found : memory.regionOf slot = some region) :
    memory.Spans region slot slotSize := by
  intro offset bounded
  have sameUnit : (slot + offset) / 16 = slot / 16 := by
    change offset < 13 at bounded
    omega
  rw [regionOf_congr (layouts.aligned regions ⟨256, rfl⟩) sameUnit]
  exact found

theorem Layouts.place_dvd (layouts : Layouts pages) (regions : memory.regions = regionsOf pages) {slot : Nat}
    {region : Region MemoryFile} (aligned : 16 ∣ slot) (found : memory.regionOf slot = some region) :
    16 ∣ (region.place slot).2 := by
  rcases of_regionOf_pages regions found with ⟨page, member, rfl, _⟩
  have address := (layouts.aligned regions (⟨256, rfl⟩ : 16 ∣ pageSize) page.region (of_regionOf found).1).1
  exact Nat.dvd_add (layouts.offset_dvd member) (Nat.dvd_sub aligned address)

/-- A store changes the word of its slot and no other.  The records of two slots are
16 bytes apart or more, so the stores of one never reach into the other. -/
theorem Layouts.writeSlot (layouts : Layouts pages) (regions : memory.regions = regionsOf pages) {words : Nat -> Nat}
    {known : Nat -> Prop} (recorded : Recorded memory words known) {address data : Nat} (aligned : 16 ∣ address)
    (mapped : (memory.locate address).isSome = true) :
    ∃ after, writeSlot address (BitVec.ofNat 64 data) memory = some after ∧ after.regions = regionsOf pages ∧
      Recorded after (Function.update words (physicalSlot address) data)
        fun slot => known slot ∨ slot = physicalSlot address := by
  rcases Option.isSome_iff_exists.mp mapped with ⟨place, located⟩
  rcases of_locate located with ⟨region, found, _⟩
  refine ⟨_, storeRecord_eq (layouts.spans regions aligned found), regions, ?_⟩
  intro slot other slotAligned foundSlot written
  have foundBefore : memory.regionOf slot = some other := foundSlot
  have places := layouts.place_eq_iff regions foundBefore found
  by_cases same : physicalSlot slot = physicalSlot address
  · have place := places.mpr same
    have file : other.file = region.file := congrArg Prod.fst place
    rw [same, Function.update_self, place, file, withFile_files]
    exact recordAt_storeBytes
  · have record := recorded slot other slotAligned foundBefore (written.resolve_right same)
    rw [Function.update_of_ne same]
    by_cases file : other.file = region.file
    · have apart : (other.place slot).2 ≠ (region.place address).2 :=
        fun offset => same (places.mp (Prod.ext file offset))
      have divides := layouts.place_dvd regions slotAligned foundBefore
      have dividesToo := layouts.place_dvd regions aligned found
      rw [file] at record ⊢
      rw [withFile_files]
      refine record.congr fun offset bounded => storeBytes_apart ?_ bounded
      change _ + 13 ≤ _ ∨ _ + 13 ≤ _
      omega
    · have kept : (memory.withFile region.file ((memory.files region.file).storeBytes (region.place address).2
          (slotRecord (BitVec.ofNat 64 data)))).files other.file = memory.files other.file :=
        Function.update_of_ne file _ _
      rw [kept]
      exact record

/-- The paging machine after some stores. -/
def storeWords (writes : List (Nat × Nat)) (machine : PagedMachine) : PagedMachine :=
  writes.foldl (fun machine write => machine.store write.1 write.2) machine

/-- Any number of stores.  Whatever order they come in, each slot shows the last
word that was written to it through any of its names. -/
theorem Layouts.writeSlots (layouts : Layouts pages) (regions : memory.regions = regionsOf pages)
    {machine : PagedMachine} {known : Nat -> Prop} (recorded : Recorded memory machine.memory known)
    (writes : List (Nat × Nat))
    (slots : ∀ write, write ∈ writes -> 16 ∣ write.1 ∧ (memory.locate write.1).isSome = true) :
    ∃ after, writeSlots writes memory = some after ∧ after.regions = regionsOf pages ∧
      Recorded after (storeWords writes machine).memory
        fun slot => known slot ∨ ∃ write, write ∈ writes ∧ physicalSlot write.1 = slot := by
  induction writes generalizing memory machine known with
  | nil =>
      refine ⟨memory, rfl, regions, fun slot region aligned found written => ?_⟩
      rcases written with before | ⟨_, impossible, _⟩
      · exact recorded slot region aligned found before
      · cases impossible
  | cons write writes inductionHypothesis =>
      rcases List.forall_mem_cons.mp slots with ⟨⟨aligned, mapped⟩, later⟩
      rcases layouts.writeSlot regions recorded aligned mapped with ⟨middle, written, middleRegions, middleRecorded⟩
      have located : ∀ address, middle.locate address = memory.locate address := by
        intro address
        unfold locate regionOf
        rw [middleRegions, regions]
      have laterToo : ∀ write, write ∈ writes -> 16 ∣ write.1 ∧ (middle.locate write.1).isSome = true := by
        intro other inside
        rw [located]
        exact later other inside
      rcases @inductionHypothesis middle middleRegions (machine.store write.1 write.2) _ middleRecorded laterToo with
        ⟨after, ends, afterRegions, afterRecorded⟩
      refine ⟨after, ?_, afterRegions, fun slot region slotAligned found known => ?_⟩
      · unfold Talbot.writeSlots at ends ⊢
        rw [List.foldlM_cons, written]
        exact ends
      · apply afterRecorded slot region slotAligned found
        rcases known with before | ⟨other, inside, same⟩
        · exact Or.inl (Or.inl before)
        · rcases List.mem_cons.mp inside with rfl | rest
          · exact Or.inl (Or.inr same.symm)
          · exact Or.inr ⟨other, rest, same⟩

end Words

/-! ## Both triggers -/

section Triggers

/-- Whatever the files held before, the pages are mapped and the memory has the
property. -/
def SetsUp (pages : List SetupPage) (holds : ProcessMemory -> Prop) : Prop :=
  ∀ files, ∃ memory, setupPages pages files = some memory ∧
    (∀ page, page ∈ pages -> ∀ offset, offset < page.region.size ->
      (memory.locate (page.region.address + offset)).isSome = true) ∧ holds memory

/-- Addresses are the same place of a file exactly if they are the same slot.  This
is the sharing of memory that the paging machine takes for granted. -/
def NamesSlots (memory : ProcessMemory) : Prop :=
  ∀ first second, (memory.locate first).isSome = true -> (memory.locate second).isSome = true ->
    (memory.locate first = memory.locate second ↔ physicalSlot first = physicalSlot second)

/-- After any number of stores, reads and calls of a slot see the word that the paging
machine has for it, if the slot is the beginning of a page or was stored to. -/
def ShowsWords (pages : List SetupPage) (memory : ProcessMemory) : Prop :=
  ∀ writes : List (Nat × Nat), (∀ write, write ∈ writes -> 16 ∣ write.1 ∧ (memory.locate write.1).isSome = true) ->
    ∃ after, writeSlots writes memory = some after ∧
      ∀ slot, 16 ∣ slot -> (memory.locate slot).isSome = true ->
        (Begins pages (physicalSlot slot) ∨ ∃ write, write ∈ writes ∧ physicalSlot write.1 = physicalSlot slot) ->
          Holds after.view slot (BitVec.ofNat 64 ((storeWords writes afterSetup.machine).memory (physicalSlot slot)))

variable {pages : List SetupPage} {memory : ProcessMemory} {configuration : Configuration}

theorem Layouts.setsUp (layouts : Layouts pages) {holds : ProcessMemory -> Prop}
    (enough : ∀ memory : ProcessMemory, memory.regions = regionsOf pages ->
      Recorded memory afterSetup.machine.memory (Begins pages) -> holds memory) : SetsUp pages holds := by
  intro files
  refine ⟨_, setupPages_eq pages files fun page member => (layouts.laidOut page member).large, ?_,
    enough _ rfl (recorded_setup layouts files rfl)⟩
  intro page member offset bounded
  have known : page.region ∈ regionsOf pages := List.mem_reverse.mpr (List.mem_map_of_mem member)
  have inside : page.region.Contains (page.region.address + offset) :=
    ⟨Nat.le_add_right _ _, Nat.add_lt_add_left bounded _⟩
  rcases @regionOf_isSome _ ⟨regionsOf pages, fun file => applyAll (files file) (recordsOf file pages)⟩ _ _ known inside
    with ⟨shown, found⟩
  rw [locate_eq found]
  rfl

theorem Layouts.namesSlots (layouts : Layouts pages) (regions : memory.regions = regionsOf pages) : NamesSlots memory := by
  intro first second firstMapped secondMapped
  rcases Option.isSome_iff_exists.mp firstMapped with ⟨place, located⟩
  rcases Option.isSome_iff_exists.mp secondMapped with ⟨otherPlace, otherLocated⟩
  rcases of_locate located with ⟨region, found, rfl⟩
  rcases of_locate otherLocated with ⟨other, otherFound, rfl⟩
  rw [located, otherLocated, Option.some_inj]
  exact layouts.place_eq_iff regions found otherFound

theorem Layouts.showsWords (layouts : Layouts pages) (regions : memory.regions = regionsOf pages)
    (recorded : Recorded memory afterSetup.machine.memory (Begins pages)) : ShowsWords pages memory := by
  intro writes slots
  rcases layouts.writeSlots regions recorded writes slots with ⟨after, written, afterRegions, afterRecorded⟩
  refine ⟨after, written, fun slot aligned mapped known => ?_⟩
  have located : after.locate slot = memory.locate slot := by
    unfold locate regionOf
    rw [afterRegions, regions]
  rw [← located] at mapped
  rcases Option.isSome_iff_exists.mp mapped with ⟨place, located⟩
  rcases of_locate located with ⟨region, found, _⟩
  have record := afterRecorded slot region aligned found known
  exact (recordAt_view (layouts.spans afterRegions aligned found) record).holds

/-- The triggers lay out the windows as the paging machine assumes: no address of a
window shares memory with another one, and the pages of a huge region share all of
theirs.  Later mappings replace earlier ones, as those of the lower levels do.  The
sizes of the files are taken in exact arithmetic; the triggers compute them with
`int`. -/
theorem triggerPages_nameSlots (fits : WindowsFit configuration) :
    SetsUp (triggerPages configuration) NamesSlots ∧ SetsUp (CacheQuery.triggerPages configuration) NamesSlots := by
  have windows := layouts_triggerPages fits
  have queryWindows := CacheQuery.layouts_triggerPages fits
  exact ⟨windows.setsUp fun _ regions _ => windows.namesSlots regions,
    queryWindows.setsUp fun _ regions _ => queryWindows.namesSlots regions⟩

/-- From the set-up on, the words of the paging machine are what the accesses of the
kernel modules see in the memory of the process.  This is about any sequence of
slots that are written through any of their names, and about reads as well as
fetches.  As above, the sizes of the files are taken in exact arithmetic. -/
theorem triggerPages_showWords (fits : WindowsFit configuration) :
    SetsUp (triggerPages configuration) (ShowsWords (triggerPages configuration)) ∧
      SetsUp (CacheQuery.triggerPages configuration) (ShowsWords (CacheQuery.triggerPages configuration)) := by
  have windows := layouts_triggerPages fits
  have queryWindows := CacheQuery.layouts_triggerPages fits
  exact ⟨windows.setsUp fun _ regions recorded => windows.showsWords regions recorded,
    queryWindows.setsUp fun _ regions recorded => queryWindows.showsWords regions recorded⟩

theorem windowsFit_default : WindowsFit defaultConfiguration := by
  rintro level ⟨lower, upper⟩
  interval_cases level
  · exact (by decide : 16384 <<< 21 ≤ huge2MBBaseAddress - baseAddress)
  · exact (by decide : 512 <<< 30 ≤ huge2MBBaseAddress - baseAddress)
  · exact (by decide : 32 <<< 39 ≤ huge2MBBaseAddress - baseAddress)

/-- A page of the first huge region. -/
theorem hugePage_mem {index : Nat} (below : index < amount2MPages) :
    ⟨⟨huge2MBBaseAddress + index * (2 * 2 ^ 20), 2 * 2 ^ 20, .huge2MB, 0⟩, 0⟩ ∈ triggerPages defaultConfiguration := by
  unfold triggerPages
  refine List.mem_append_left _ (List.mem_append_right _ ?_)
  unfold setupHugePages
  exact List.mem_map_of_mem (List.mem_range.mpr below)

/-- The first two huge pages. -/
theorem triggerPages_nameSlots_hugePages :
    ∃ memory, setupPages (triggerPages defaultConfiguration) (fun _ _ => 0) = some memory ∧
      (memory.locate (huge2MBBaseAddress + 0 * (2 * 2 ^ 20) + 16)).isSome = true ∧
        memory.locate (huge2MBBaseAddress + 0 * (2 * 2 ^ 20) + 16) =
          memory.locate (huge2MBBaseAddress + 1 * (2 * 2 ^ 20) + 16) := by
  rcases (triggerPages_nameSlots windowsFit_default).1 fun _ _ => 0 with ⟨memory, setUp, mapped, names⟩
  have first := mapped _ (hugePage_mem (by decide : 0 < amount2MPages)) 16 (by decide)
  have second := mapped _ (hugePage_mem (by decide : 1 < amount2MPages)) 16 (by decide)
  exact ⟨memory, setUp, first, (names _ _ first second).mpr (by decide)⟩

/-- A link that is written through the first huge page is read through the second. -/
theorem triggerPages_showWords_hugePages :
    ∃ memory after, setupPages (triggerPages defaultConfiguration) (fun _ _ => 0) = some memory ∧
      writeSlots [(huge2MBBaseAddress + 0 * (2 * 2 ^ 20) + 16, 0x40000010)] memory = some after ∧
        Holds after.view (huge2MBBaseAddress + 1 * (2 * 2 ^ 20) + 16) 0x40000010 := by
  rcases (triggerPages_showWords windowsFit_default).1 fun _ _ => 0 with ⟨memory, setUp, mapped, words⟩
  have first := mapped _ (hugePage_mem (by decide : 0 < amount2MPages)) 16 (by decide)
  have second := mapped _ (hugePage_mem (by decide : 1 < amount2MPages)) 16 (by decide)
  rcases words [(huge2MBBaseAddress + 0 * (2 * 2 ^ 20) + 16, 0x40000010)]
    (List.forall_mem_singleton.mpr ⟨by decide, first⟩) with ⟨after, written, shows⟩
  refine ⟨memory, after, setUp, written, ?_⟩
  exact shows _ (by decide) second (Or.inr ⟨_, List.mem_cons_self, by decide⟩)

end Triggers

end Talbot
