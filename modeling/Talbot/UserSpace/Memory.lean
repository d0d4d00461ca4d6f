import Talbot.Foundations.MappedFiles
import Talbot.Machine.Slots
import Talbot.UserSpace.Trigger

namespace Talbot

/-!
The memory that the user-space triggers set up (`trigger.c`).

Every call of `map_page` replaces what was mapped at its addresses, and the page is
initialised through the new mapping.  The windows are ranges of two shared memory
files; the pages of a huge region are all mapped at the beginning of one file.

An access outside the mapped pages ends the program.  An access behind the end of a
file would, too: this does not occur with the sizes that the triggers choose, as far as
these are computed exactly.  The triggers compute them as `int`, which wraps around for
windows much larger than those that the repository ships with (512 * 512 entries of
level 2); the files are as long as the exact sizes say here.
-/

open Foundations

/-- The files behind the mappings: `fd_base_memory`, `fd_complementary_memory`,
`mfd_huge_2MB_memory` and `mfd_huge_1GB_memory`. -/
inductive MemoryFile where
  | base
  | complementary
  | huge2MB
  | huge1GB
  deriving DecidableEq, Repr

abbrev ProcessMemory : Type :=
  MappedMemory MemoryFile

def mapPage (address size : Nat) (file : MemoryFile) (offset : Nat) (memory : ProcessMemory) : ProcessMemory :=
  memory.map ⟨address, size, file, offset⟩

/-- The five stores that both functions below consist of. -/
def storeRecord (address : Nat) (value : BitVec 64) (memory : ProcessMemory) : Option ProcessMemory := do
  let memory ← memory.store address 2 0x9090
  let memory ← memory.store (address + 2) 1 0x48
  let memory ← memory.store (address + 3) 1 0xb8
  let memory ← memory.store (address + 4) 8 value.toNat
  memory.store (address + 12) 1 0xc3

def initializePage (address : Nat) (value : BitVec 64) (memory : ProcessMemory) : Option ProcessMemory :=
  storeRecord address value memory

/-- `write_data` of the kernel modules in the memory of the process. -/
def writeSlot (address : Nat) (data : BitVec 64) (memory : ProcessMemory) : Option ProcessMemory :=
  storeRecord address data memory

/-- A call of `map_page` and the word of the `initialize_page` behind it.  The two
always come together in the triggers. -/
structure SetupPage where
  region : Region MemoryFile
  value : BitVec 64

def setupPage (memory : ProcessMemory) (page : SetupPage) : Option ProcessMemory :=
  initializePage page.region.address page.value
    (mapPage page.region.address page.region.size page.region.file page.region.offset memory)

/-- The pages of a window, in the order in which `setup_levels` maps them. -/
def windowPages (file : MemoryFile) (mapping : Mapping) : List SetupPage :=
  mapping.pages.map fun page => ⟨⟨page.address, pageSize, file, page.fileOffset⟩, BitVec.ofNat 64 page.value⟩

/-- `setup_huge_pages` -/
def setupHugePages (base size : Nat) (file : MemoryFile) (amount : Nat) : List SetupPage :=
  (List.range amount).map fun index => ⟨⟨base + index * size, size, file, 0⟩, 0⟩

/-- The pages that Talbot's trigger maps. -/
def triggerPages (configuration : Configuration) : List SetupPage :=
  windowPages .base (setupLevels baseAddress 0 configuration) ++
    windowPages .complementary (setupLevels complementaryBaseAddress signal configuration) ++
    setupHugePages huge2MBBaseAddress (2 * 2 ^ 20) .huge2MB amount2MPages ++
    setupHugePages huge1GBBaseAddress (1 * 2 ^ 30) .huge1GB amount1GPages

/-- The pages that CacheQuery's trigger maps. -/
def CacheQuery.triggerPages (configuration : Configuration) : List SetupPage :=
  windowPages .base (CacheQuery.setupLevels baseAddress 0 configuration) ++
    windowPages .complementary (CacheQuery.setupLevels complementaryBaseAddress signal configuration)

/-- Map some pages into a process without mappings. -/
def setupPages (pages : List SetupPage) (files : MemoryFile -> ByteMemory) : Option ProcessMemory :=
  pages.foldlM setupPage ⟨[], files⟩

/-- Some calls of `write_data`, each with its address and its word. -/
def writeSlots (writes : List (Nat × Nat)) (memory : ProcessMemory) : Option ProcessMemory :=
  writes.foldlM (fun memory write => writeSlot write.1 (BitVec.ofNat 64 write.2) memory) memory

end Talbot
