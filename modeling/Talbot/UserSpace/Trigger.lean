import Talbot.Definitions

namespace Talbot

/-!
The mapping of the windows by the user-space triggers (`trigger.c`).

The triggers of Talbot and of CacheQuery are the same up to the number of lower
level entries that they map at the beginning of each entry.  Every page is
mapped at the next offset of the shared memory file and initialised; a failed
`mmap` ends the program.
-/

/-- `4 * KILO_BYTE` -/
def pageSize : Nat := 4096

structure MappedPage where
  address : Nat
  fileOffset : Nat
  value : Nat
  deriving DecidableEq, Repr

/-- What has been mapped so far, and `mapped_page_count`. The counter is the offset
in the file of the next page, in pages. -/
structure Mapping where
  pages : List MappedPage
  mappedPageCount : Nat
  deriving DecidableEq, Repr

/-- `map_page`, `initialize_page` and the increment of the counter. -/
def Mapping.mapPage (address value : Nat) (mapping : Mapping) : Mapping where
  pages := mapping.pages ++ [⟨address, pageSize * mapping.mappedPageCount, value⟩]
  mappedPageCount := mapping.mappedPageCount + 1

/-- `for(index = start; index < stop; index++)` -/
def forEach (start stop : Nat) (body : Nat -> Mapping -> Mapping) (mapping : Mapping) : Mapping :=
  (List.range' start (stop - start)).foldl (fun mapping index => body index mapping) mapping

/-- The address of a lower level entry. -/
def lowerEntryAddress (base level entryIndex i : Nat) : Nat :=
  base + (entryIndex <<< pageTableIndexShift level) + (i <<< pageTableIndexShift (level - 1))

section Setup

variable (lowerEntries : Nat) (base value : Nat)

/-- Map the lower level entries of an entry from `startIndex` on, and its last one,
in which the chains end.  Nothing is mapped of an entry all of which is to be
skipped. -/
def setupLevelEntry (level entryIndex startIndex : Nat) (mapping : Mapping) : Mapping :=
  let mapping := forEach startIndex lowerEntries
    (fun i => Mapping.mapPage (lowerEntryAddress base level entryIndex i) value) mapping
  if 0x1ff < startIndex then mapping
  else mapping.mapPage (lowerEntryAddress base level entryIndex 0x1ff) value

variable (configuration : Configuration)

/-- The level-4 entry from which on entries have to be mapped. -/
def firstLevel4 : Nat :=
  let entries := configuration.pageTableEntries
  if entries 2 / 512 > entries 3 then (entries 2 / 512) / 512 else entries 3 / 512

/-- The source writes `index == c ? a : b` where `c` compares two sizes, and C
reads it as `(index == c) ? a : b`. -/
def skipsLowerEntries (index : Nat) : Bool :=
  let entries := configuration.pageTableEntries
  (if index = (if entries 2 / 512 > entries 3 then 1 else 0) then (entries 2 / 512) / 512
    else entries 3 / 512) != 0

def startIndexLevel4 : Nat :=
  let entries := configuration.pageTableEntries
  if entries 2 / 512 > entries 3 then (entries 2 / 512) % 512 else entries 3 % 512

/-- The mappings of the two lower levels come first. For each 512 entries of level 2
one entry of level 3 is subtracted, and for each 512 entries of level 3 one entry of
level 4: the lower entries use these already. -/
def setupLevelsWith : Mapping :=
  let entries := configuration.pageTableEntries
  let mapping := forEach 0 (entries 2)
    (fun index => setupLevelEntry lowerEntries base value 2 index 0) ⟨[], 0⟩
  let mapping := forEach (entries 2 / 512) (entries 3) (fun index =>
    if index = entries 2 / 512 then setupLevelEntry lowerEntries base value 3 index (entries 2 % 512)
    else setupLevelEntry lowerEntries base value 3 index 0) mapping
  forEach (firstLevel4 configuration) (entries 4) (fun index =>
    if skipsLowerEntries configuration index then
      setupLevelEntry lowerEntries base value 4 index (startIndexLevel4 configuration)
    else setupLevelEntry lowerEntries base value 4 index 0) mapping

end Setup

/-- `setup_levels` of Talbot's trigger. -/
def setupLevels (base value : Nat) (configuration : Configuration) : Mapping :=
  setupLevelsWith 3 base value configuration

/-- `setup_levels` of CacheQuery's trigger. -/
def CacheQuery.setupLevels (base value : Nat) (configuration : Configuration) : Mapping :=
  setupLevelsWith 7 base value configuration

/-- `amount_4KB_pages` of Talbot's trigger. -/
def amount4KBPages (configuration : Configuration) : Nat :=
  let entries := configuration.pageTableEntries
  (entries 2 + entries 3 + entries 4) * 4

/-- `amount_4KB_pages` of CacheQuery's trigger. -/
def CacheQuery.amount4KBPages (configuration : Configuration) : Nat :=
  let entries := configuration.pageTableEntries
  (entries 2 + entries 3 + entries 4) * 8

/-- The size that `ftruncate` gives to the shared memory files. -/
def fileSize (amount : Nat) : Nat :=
  pageSize * amount

end Talbot
