import Talbot.Machine.HugePages

namespace Talbot

/-!
The chain through the huge pages of a region.

`setup_huge_pages` maps every page of the region at file offset 0, so all of
them show one physical page and an address selects a slot by its offset alone.
`build_huge_chain` moves the links through the page in steps of 16 bytes, but
its first link has the offset of the start address: the pointer written
through that link replaces the one written through the start, and the first of
the following pages drops out of the chain.
-/

open Foundations Program

/-- Memory accesses to a region of huge pages that share one physical page.  An
address is nothing but its offset there, so writes to different pages can replace
each other; all other operations do not occur. -/
def hugeRegion (level : Nat) : Handler kernelInterface (Nat -> Nat)
  | .readData address, slots => some (slots (physicalOffset level address), slots)
  | .fetchInstruction address, slots => some (slots (physicalOffset level address), slots)
  | .writeData address data, slots => some ((), Function.update slots (physicalOffset level address) data)
  | _, _ => none

/-- Following the pointers from the start visits one address in each of the
following pages, in order, and then the end. -/
def VisitsEveryPage (level start stop length : Nat) (slots : Nat -> Nat) : Prop :=
  ∃ nodes : List Nat, stop ∉ nodes ∧
    nodes.map (entryOf level) = (List.range' 1 length).map (fun page => entryOf level start + page) ∧
    Path (throughRegion level slots) start (start :: nodes) stop

section HugeChain

variable {level start : Nat}

@[simp] theorem hugeRegion_writeData {address data : Nat} {slots : Nat -> Nat}
    {post : Unit -> (Nat -> Nat) -> Prop} :
    Returns (hugeRegion level) (writeData address data) slots post ↔
      post () (Function.update slots (physicalOffset level address) data) :=
  (returns_call rfl).trans (returns_ret _)

/-- What the builder leaves: every link but the last points to the next one, the
last one to the end. -/
theorem returns_buildHugeChain {stop length : Nat} {slots : Nat -> Nat}
    (fits : 16 * length < 2 ^ pageTableIndexShift level) :
    Returns (hugeRegion level) (buildHugeChain start stop length level) slots fun _ final =>
      LinksWritten level start length final ∧
        throughRegion level final (hugeLink level start length) = stop := by
  unfold buildHugeChain
  rw [returns_bind]
  apply (returns_forRange (fun index value final =>
    value = (16 * index, hugeLink level start index) ∧
      (index ≤ length -> LinksWritten level start index final)) 0 length (0, start) slots ?_ ?_).mono
  · rintro value middle ⟨rfl, links⟩
    rw [Nat.zero_add] at links ⊢
    refine hugeRegion_writeData.mpr ⟨(links (Nat.le_refl _)).write stop fits (Nat.le_refl _), ?_⟩
    exact Function.update_self _ _ _
  · exact ⟨by rw [hugeLink_zero, Nat.mul_zero], fun _ page _ impossible => absurd impossible (Nat.not_lt_zero _)⟩
  · rintro index value state - bounded ⟨rfl, links⟩
    rw [Nat.zero_add] at bounded
    simp only [returns_bind, hugeRegion_writeData]
    have next : start + ((index + 1) <<< pageTableIndexShift level) + 16 * index =
        hugeLink level start (index + 1) := rfl
    refine (returns_ret _).mpr ⟨_, rfl, by rw [next, Nat.mul_add], fun _ => ?_⟩
    rw [next]
    exact (links (Nat.le_of_lt bounded)).extend fits (Nat.le_of_lt bounded)

/-- One page too few is visited. -/
theorem not_visitsEveryPage {stop length : Nat} {slots : Nat -> Nat} (positive : 1 ≤ length)
    (free : stop ∉ (List.range' 1 length).map (hugeLink level start))
    (path : Path (throughRegion level slots) start
      (start :: (List.range' 2 (length - 1)).map (hugeLink level start)) stop) :
    ¬ VisitsEveryPage level start stop length slots := by
  rintro ⟨nodes, ends, pages, visits⟩
  have later : stop ∉ (List.range' 2 (length - 1)).map (hugeLink level start) := by
    intro inside
    rcases List.mem_map.mp inside with ⟨page, member, same⟩
    rcases List.mem_range'_1.mp member with ⟨lower, upper⟩
    exact free (List.mem_map.mpr ⟨page, List.mem_range'_1.mpr ⟨by omega, by omega⟩, same⟩)
  have same := visits.2.unique path.2 ends later
  have lengths := congrArg List.length pages
  rw [same, List.length_map, List.length_map, List.length_map, List.length_range', List.length_range'] at lengths
  omega

/-- The chain that the builder leaves behind the start. -/
theorem returns_buildHugeChain_path {stop length : Nat} {slots : Nat -> Nat} (positive : 1 ≤ length)
    (fits : 16 * length < 2 ^ pageTableIndexShift level) :
    Returns (hugeRegion level) (buildHugeChain start stop length level) slots fun _ final =>
      Path (throughRegion level final) start
        (start :: (List.range' 2 (length - 1)).map (hugeLink level start)) stop := by
  apply (returns_buildHugeChain fits).mono
  rintro _ final ⟨links, closed⟩
  exact path_from_start positive links closed

end HugeChain

/-- Whatever the start, the end and the length are, the chain skips the first of the
following pages: it visits the start, then one address in each further page, and
then the end.  The start and the first link name the same slot of the shared memory
behind the pages, so the second write replaces the first one. -/
theorem buildHugeChain_skips_page {level length : Nat} (start stop : Nat) (slots : Nat -> Nat)
    (positive : 1 ≤ length) (fits : 16 * length < 2 ^ pageTableIndexShift level)
    (free : stop ∉ (List.range' 1 length).map (hugeLink level start)) :
    Returns (hugeRegion level) (buildHugeChain start stop length level) slots fun _ final =>
      Path (throughRegion level final) start
        (start :: (List.range' 2 (length - 1)).map (hugeLink level start)) stop ∧
      ¬ VisitsEveryPage level start stop length final := by
  apply (returns_buildHugeChain_path positive fits).mono
  intro _ final path
  exact ⟨path, not_visitsEveryPage positive free path⟩

/-- The chain of `test_huge_tlb` through the 1 GB pages, for the first target. -/
theorem buildHugeChain_skips_page_gigabyte :
    Returns (hugeRegion 3) (buildHugeChain huge1GBBaseAddress (prefixAligned baseAddress 3) 63 3) (fun _ => 0)
      fun _ final =>
        Path (throughRegion 3 final) huge1GBBaseAddress
          (huge1GBBaseAddress :: (List.range' 2 62).map (hugeLink 3 huge1GBBaseAddress))
          (prefixAligned baseAddress 3) ∧
        ¬ VisitsEveryPage 3 huge1GBBaseAddress (prefixAligned baseAddress 3) 63 final :=
  buildHugeChain_skips_page _ _ _ (by decide) (by decide) (by decide)

/-- The chain of `test_huge_tlb` through the 1 GB pages does not visit every page. -/
theorem buildHugeChain_not_visitsEveryPage :
    ¬ Returns (hugeRegion 3) (buildHugeChain huge1GBBaseAddress (prefixAligned baseAddress 3) 63 3) (fun _ => 0)
      fun _ final => VisitsEveryPage 3 huge1GBBaseAddress (prefixAligned baseAddress 3) 63 final := by
  rintro ⟨value, final, same, visits⟩
  have builds : Returns (hugeRegion 3) (buildHugeChain huge1GBBaseAddress (prefixAligned baseAddress 3) 63 3)
      (fun _ => 0) _ := returns_buildHugeChain_path (by decide) (by decide)
  rcases builds with ⟨value', final', same', path⟩
  rw [same] at same'
  cases same'
  exact not_visitsEveryPage (by decide) (by decide) path visits

end Talbot
