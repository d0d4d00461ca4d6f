import Talbot.Machine.EvictionSearch

namespace Talbot

/-!
The chains that the hash builders leave, on entry numbers.

All addresses of such a chain are the first pages of strictly increasing
entries, so no address repeats and no chain contains the last page of an entry.
-/

open Foundations Program

namespace Machine

variable (configuration : Configuration) (hash : HashFunction)

/-- The start address and the links that the builder keeps above it. -/
def hashChain (startAddress length setBits level : Nat) : List Nat :=
  startAddress :: keptLinks configuration level (hashLinks hash startAddress length setBits level)

/-- The entries of the addresses on such a chain. -/
def chainEntries (entry length setBits level : Nat) : List Nat :=
  entry :: ((List.range' 0 length).map fun i => hash.entry setBits entry (i + 1)).takeWhile fun other =>
    insideWindow configuration level (pageAddress level other 0)

section Entries

variable {configuration hash} {level entry startAddress : Nat}

theorem hashChain_eq (isLevel : IsLevel level) (length setBits : Nat)
    (aligned : startAddress = pageAddress level entry 0) (fits : startAddress < 2 ^ 64) :
    hashChain configuration hash startAddress length setBits level =
      (chainEntries configuration hash entry length setBits level).map fun other =>
        pageAddress level other 0 := by
  subst aligned
  have links : hashLinks hash (pageAddress level entry 0) length setBits level =
      ((List.range' 0 length).map fun i => hash.entry setBits entry (i + 1)).map fun other =>
        pageAddress level other 0 := by
    rw [List.map_map]
    apply List.map_congr_left
    intro index _
    exact HashFunction.apply_aligned hash (index + 1) setBits isLevel fits
  rw [hashChain, chainEntries, List.map_cons, links, keptLinks, List.takeWhile_map]
  rfl

/-- The window check keeps a first part of the enumeration. -/
theorem chainEntries_eq (length setBits : Nat) :
    ∃ count, count ≤ length ∧ chainEntries configuration hash entry length setBits level =
      (List.range (count + 1)).map (hash.entry setBits entry) := by
  let candidates := (List.range' 0 length).map fun i => hash.entry setBits entry (i + 1)
  let kept := candidates.takeWhile fun other => insideWindow configuration level (pageAddress level other 0)
  have isPrefix : kept <+: candidates := List.takeWhile_prefix _
  have short : kept.length ≤ length := by
    have bounded := isPrefix.length_le
    rwa [List.length_map, List.length_range'] at bounded
  refine ⟨kept.length, short, ?_⟩
  calc
    chainEntries configuration hash entry length setBits level = entry :: kept := rfl
    _ = entry :: candidates.take kept.length := by rw [← List.prefix_iff_eq_take.mp isPrefix]
    _ = entry :: (List.range kept.length).map fun i => hash.entry setBits entry (i + 1) := by
        rw [← List.map_take, ← List.range_eq_range', List.take_range, Nat.min_eq_left short]
    _ = (List.range (kept.length + 1)).map (hash.entry setBits entry) := by
        rw [List.range_succ_eq_map, List.map_cons, HashFunction.entry_zero, List.map_map]
        rfl

theorem chainEntries_length_le (length setBits : Nat) :
    (chainEntries configuration hash entry length setBits level).length ≤ length + 1 := by
  rcases chainEntries_eq length setBits with ⟨count, small, same⟩
  rw [same, List.length_map, List.length_range]
  omega

theorem chainEntries_nodup (length setBits : Nat) :
    (chainEntries configuration hash entry length setBits level).Nodup := by
  rcases chainEntries_eq length setBits with ⟨count, _, same⟩
  rw [same]
  exact List.nodup_range.map (hash.entry_strictMono setBits entry).injective

/-- Nothing is cut off as long as every link stays inside the window. -/
theorem chainEntries_of_inside {length setBits : Nat}
    (inside : ∀ offset, 1 ≤ offset -> offset ≤ length ->
      insideWindow configuration level (pageAddress level (hash.entry setBits entry offset) 0) = true) :
    chainEntries configuration hash entry length setBits level =
      (List.range (length + 1)).map (hash.entry setBits entry) := by
  rw [chainEntries, List.takeWhile_eq_self_iff.mpr]
  · rw [List.range_succ_eq_map, List.map_cons, HashFunction.entry_zero, List.map_map,
      ← List.range_eq_range']
    rfl
  · intro other member
    rcases List.mem_map.mp member with ⟨index, range, rfl⟩
    rw [List.mem_range'_1] at range
    exact inside (index + 1) (by omega) (by omega)

/-- A link inside the window is on the chain: those before it are lower. -/
theorem mem_chainEntries_of_inside (isLevel : IsLevel level) {length setBits offset : Nat}
    (above : baseEntry level ≤ entry) (short : offset ≤ length)
    (inside : pageAddress level (hash.entry setBits entry offset) 0 < windowEnd configuration level) :
    hash.entry setBits entry offset ∈ chainEntries configuration hash entry length setBits level := by
  have lower : ∀ index, 1 ≤ index -> index ≤ offset ->
      insideWindow configuration level (pageAddress level (hash.entry setBits entry index) 0) = true := by
    intro index positive before
    have higher := hash.entry_strictMono setBits entry positive
    have notAbove := (hash.entry_strictMono setBits entry).monotone before
    rw [HashFunction.entry_zero] at higher
    rw [windowEnd_eq isLevel, pageAddress_lt_iff] at inside
    exact (insideWindow_iff isLevel configuration _).mpr ⟨by omega, by omega⟩
  have front := chainEntries_of_inside lower
  have split : (List.range' 0 length).map (fun i => hash.entry setBits entry (i + 1)) =
      (List.range' 0 offset).map (fun i => hash.entry setBits entry (i + 1)) ++
        (List.range' offset (length - offset)).map fun i => hash.entry setBits entry (i + 1) := by
    rw [← List.map_append, show List.range' offset (length - offset) =
      List.range' (0 + offset) (length - offset) by rw [Nat.zero_add], List.range'_append_1,
      Nat.add_sub_cancel' short]
  have member : hash.entry setBits entry offset ∈ chainEntries configuration hash entry offset setBits level := by
    rw [front]
    exact List.mem_map.mpr ⟨offset, List.mem_range.mpr (Nat.lt_succ_self offset), rfl⟩
  rw [chainEntries, split]
  rcases List.mem_cons.mp member with same | later
  · rw [same]
    exact List.mem_cons_self
  · apply List.mem_cons_of_mem
    rw [List.takeWhile_append_of_pos]
    · exact List.mem_append_left _ (List.takeWhile_subset _ later)
    · intro other candidate
      rcases List.mem_map.mp candidate with ⟨index, range, rfl⟩
      rw [List.mem_range'_1] at range
      exact lower (index + 1) (by omega) (by omega)

end Entries

end Machine
end Talbot
