import Mathlib.Data.List.Basic
import Talbot.Foundations.Bytes

namespace Talbot
namespace Foundations

/-!
Memory that shows the bytes of files.

A region shows a range of a file at a range of addresses, and where regions overlap
the newest one is seen.  Accesses in the range of one region are accesses to its
file; other accesses fault.
-/

structure Region (File : Type) where
  address : Nat
  size : Nat
  file : File
  offset : Nat
  deriving DecidableEq, Repr

namespace Region

variable {File : Type}

def Contains (region : Region File) (address : Nat) : Prop :=
  region.address ≤ address ∧ address < region.address + region.size

instance (region : Region File) (address : Nat) : Decidable (region.Contains address) :=
  inferInstanceAs (Decidable (_ ∧ _))

/-- The byte that the region shows at an address. -/
def place (region : Region File) (address : Nat) : File × Nat :=
  (region.file, region.offset + (address - region.address))

end Region

/-- The newest region comes first. -/
structure MappedMemory (File : Type) where
  regions : List (Region File)
  files : File -> ByteMemory

namespace MappedMemory

section Accesses

variable {File : Type}

def map (region : Region File) (memory : MappedMemory File) : MappedMemory File :=
  { memory with regions := region :: memory.regions }

def regionOf (memory : MappedMemory File) (address : Nat) : Option (Region File) :=
  memory.regions.find? fun region => decide (region.Contains address)

def locate (memory : MappedMemory File) (address : Nat) : Option (File × Nat) :=
  (memory.regionOf address).map fun region => region.place address

/-- What accesses see, with zeros where they fault. -/
def view (memory : MappedMemory File) : ByteMemory := fun address =>
  match memory.locate address with
  | some place => memory.files place.1 place.2
  | none => 0

variable [DecidableEq File]

def write (memory : MappedMemory File) (address : Nat) (byte : BitVec 8) : Option (MappedMemory File) :=
  (memory.locate address).map fun place => { memory with
    files := Function.update memory.files place.1 (Function.update (memory.files place.1) place.2 byte) }

def storeBytes : List (BitVec 8) -> Nat -> MappedMemory File -> Option (MappedMemory File)
  | [], _, memory => some memory
  | byte :: rest, address, memory => do
      let memory ← memory.write address byte
      storeBytes rest (address + 1) memory

def store (address count value : Nat) (memory : MappedMemory File) : Option (MappedMemory File) :=
  storeBytes (ByteMemory.littleEndian count value) address memory

/-- The memory with other bytes in one file. -/
def withFile (memory : MappedMemory File) (file : File) (bytes : ByteMemory) : MappedMemory File :=
  { memory with files := Function.update memory.files file bytes }

end Accesses

section Regions

variable {File : Type} {memory : MappedMemory File} {region : Region File} {address : Nat}

theorem of_regionOf (found : memory.regionOf address = some region) :
    region ∈ memory.regions ∧ region.Contains address := by
  unfold regionOf at found
  have accepted := List.find?_some found
  exact ⟨List.mem_of_find?_eq_some found, of_decide_eq_true accepted⟩

theorem locate_eq (found : memory.regionOf address = some region) : memory.locate address = some (region.place address) := by
  rw [locate, found]
  rfl

theorem of_locate {place : File × Nat} (found : memory.locate address = some place) :
    ∃ region, memory.regionOf address = some region ∧ region.place address = place :=
  Option.map_eq_some_iff.mp found

/-- A region shows at least its own range, unless a newer one does. -/
theorem regionOf_isSome (member : region ∈ memory.regions) (inside : region.Contains address) :
    ∃ shown, memory.regionOf address = some shown := by
  apply Option.isSome_iff_exists.mp
  rw [regionOf, List.find?_isSome]
  exact ⟨region, member, decide_eq_true inside⟩

theorem regionOf_map (inside : region.Contains address) : (memory.map region).regionOf address = some region :=
  List.find?_cons_of_pos (decide_eq_true inside)

/-- The regions start and end at multiples of `unit`. -/
def Aligned (unit : Nat) (regions : List (Region File)) : Prop :=
  ∀ region, region ∈ regions -> unit ∣ region.address ∧ unit ∣ region.size

theorem contains_congr {unit other : Nat} (start : unit ∣ region.address) (size : unit ∣ region.size)
    (same : other / unit = address / unit) : region.Contains other ↔ region.Contains address := by
  rcases start with ⟨first, start⟩
  rcases size with ⟨count, size⟩
  have reaches : ∀ limit number : Nat, 0 < unit -> (unit * limit ≤ number ↔ limit ≤ number / unit) := by
    intro limit number positive
    rw [Nat.le_div_iff_mul_le positive, Nat.mul_comm]
  unfold Region.Contains
  rcases Nat.eq_zero_or_pos unit with rfl | positive
  · rw [size, Nat.zero_mul, Nat.add_zero]
    exact iff_of_false (by omega) (by omega)
  · rw [start, size, ← Nat.mul_add, ← Nat.not_le, ← Nat.not_le, reaches _ _ positive, reaches _ _ positive,
      reaches _ _ positive, reaches _ _ positive, same]

/-- Addresses in one unit lie in the same region. -/
theorem regionOf_congr {unit other : Nat} (aligned : Aligned unit memory.regions) (same : other / unit = address / unit) :
    memory.regionOf other = memory.regionOf address := by
  have search : ∀ regions : List (Region File), Aligned unit regions ->
      (regions.find? fun region => decide (region.Contains other)) =
        regions.find? fun region => decide (region.Contains address) := by
    intro regions aligned
    induction regions with
    | nil => rfl
    | cons region rest inductionHypothesis =>
        rcases List.forall_mem_cons.mp aligned with ⟨⟨start, size⟩, later⟩
        rw [List.find?_cons, List.find?_cons, decide_eq_decide.mpr (contains_congr start size same),
          inductionHypothesis later]
  exact search memory.regions aligned

end Regions

/-! ## Accesses in the range of one region -/

section Ranges

variable {File : Type} {memory : MappedMemory File} {region : Region File} {address count : Nat}

/-- All of a range is shown by one region. -/
def Spans (memory : MappedMemory File) (region : Region File) (address count : Nat) : Prop :=
  ∀ offset, offset < count -> memory.regionOf (address + offset) = some region

theorem Spans.start (spans : memory.Spans region address count) (positive : 0 < count) :
    memory.regionOf address = some region :=
  spans 0 positive

theorem Spans.within {first length : Nat} (spans : memory.Spans region address count) (fits : first + length ≤ count) :
    memory.Spans region (address + first) length := by
  intro offset bounded
  rw [Nat.add_assoc]
  exact spans _ (by omega)

theorem place_add (inside : region.Contains address) (offset : Nat) :
    region.place (address + offset) = (region.file, (region.place address).2 + offset) := by
  have start := inside.1
  unfold Region.place
  dsimp only
  congr 1
  omega

theorem view_add (spans : memory.Spans region address count) {offset : Nat} (bounded : offset < count) :
    memory.view (address + offset) = memory.files region.file ((region.place address).2 + offset) := by
  have inside := (of_regionOf (spans.start (Nat.zero_lt_of_lt bounded))).2
  unfold view
  rw [locate_eq (spans offset bounded), place_add inside]

/-- Reading a range reads the file. -/
theorem loadBytes_view (spans : memory.Spans region address count) :
    memory.view.loadBytes address count = (memory.files region.file).loadBytes (region.place address).2 count := by
  induction count generalizing address with
  | zero => rfl
  | succ count inductionHypothesis =>
      have inside := (of_regionOf (spans.start (Nat.zero_lt_succ count))).2
      have first := view_add spans (Nat.zero_lt_succ count)
      have later := inductionHypothesis (spans.within (Nat.le_of_eq (Nat.add_comm 1 count)))
      rw [place_add inside] at later
      rw [ByteMemory.loadBytes, ByteMemory.loadBytes, later]
      exact congrArg (· :: _) first

variable [DecidableEq File]

theorem withFile_withFile (file : File) (first second : ByteMemory) :
    (memory.withFile file first).withFile file second = memory.withFile file second := by
  unfold withFile
  rw [Function.update_idem]

theorem withFile_files (file : File) (bytes : ByteMemory) : (memory.withFile file bytes).files file = bytes := by
  unfold withFile
  exact Function.update_self file bytes memory.files

/-- Writing a range writes the file. -/
theorem storeBytes_eq {bytes : List (BitVec 8)} (spans : memory.Spans region address bytes.length) :
    storeBytes bytes address memory = some (memory.withFile region.file
      ((memory.files region.file).storeBytes (region.place address).2 bytes)) := by
  induction bytes generalizing address memory with
  | nil =>
      unfold withFile
      rw [ByteMemory.storeBytes, Function.update_eq_self]
      rfl
  | cons byte rest inductionHypothesis =>
      have found := spans.start (Nat.zero_lt_succ _)
      have inside := (of_regionOf found).2
      have first : memory.write address byte = some (memory.withFile region.file
          (Function.update (memory.files region.file) (region.place address).2 byte)) := by
        rw [write, locate_eq found]
        rfl
      have later := spans.within (Nat.le_of_eq (Nat.add_comm 1 rest.length))
      have written := @inductionHypothesis (memory.withFile region.file
        (Function.update (memory.files region.file) (region.place address).2 byte)) (address + 1) later
      rw [place_add inside, withFile_withFile, withFile_files] at written
      rw [storeBytes, first]
      exact written

theorem store_eq {value : Nat} (spans : memory.Spans region address count) :
    store address count value memory = some (memory.withFile region.file
      ((memory.files region.file).store (region.place address).2 count value)) := by
  unfold store ByteMemory.store
  apply storeBytes_eq
  rwa [ByteMemory.length_littleEndian]

end Ranges

end MappedMemory

end Foundations
end Talbot
