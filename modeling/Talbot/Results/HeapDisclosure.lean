import Talbot.Results.QueryReport

namespace Talbot
namespace CacheQuery

/-!
What a query tells the user about the kernel heap.

`device_read` copies as many bytes back as the query has letters, from an
allocation that it does not clear.  The report fills one byte for each resident
letter and one for its terminator, so every byte behind them is what the heap
held before.  Two runs that measure the same and differ in the content of the
allocation show the difference.
-/

open Foundations Program Machine

variable {configuration : Configuration}

/-- Whatever the allocation held, the same bytes are copied back.  The machine and
its state are the same on both sides, so its answers cannot tell the two runs apart. -/
def DisclosesNothing {σ : Type} (configuration : Configuration) (handler : Handler kernelInterface σ)
    (bound : Nat) (query : List Nat) (state : σ) : Prop :=
  ∀ fresh fresh' : Nat -> Nat,
    (deviceRead configuration bound fresh query).run handler state =
      (deviceRead configuration bound fresh' query).run handler state

/-- The bytes that are copied back do not depend on the allocation if the report
and its terminator fill them. -/
theorem copied_congr {letters : List Nat} {count : Nat} (filled : count ≤ letters.length + 1)
    (fresh fresh' : Nat -> Nat) :
    (List.range count).map (reportOf fresh letters) = (List.range count).map (reportOf fresh' letters) :=
  List.map_congr_left fun index inside =>
    reportOf_congr fresh fresh' (by
      have below := List.mem_range.mp inside
      omega)

/-- A byte behind the terminator tells two allocations apart. -/
theorem copied_differ {letters : List Nat} {count : Nat} (unfilled : letters.length + 1 < count) :
    (List.range count).map (reportOf (fun _ => 0) letters) ≠
      (List.range count).map (reportOf (fun _ => 1) letters) := by
  intro same
  have behind := List.map_inj_left.mp same (letters.length + 1) (List.mem_range.mpr unfilled)
  rw [reportOf_after _ (Nat.lt_succ_self _), reportOf_after _ (Nat.lt_succ_self _)] at behind
  exact Nat.zero_ne_one behind

/-- The run of the read handler after its measurements. -/
theorem run_deviceRead {σ : Type} {handler : Handler kernelInterface σ} {bound : Nat} {query : List Nat} {state final : σ}
    {measured : List LetterMeasurement}
    (measures : (measureQuery configuration bound query).run handler state = some (measured, final))
    (fresh : Nat -> Nat) :
    (deviceRead configuration bound fresh query).run handler state =
      some ((List.range query.length).map (reportOf fresh (residentLetters measured)), final) := by
  rw [deviceRead_eq, run_bind, measures]
  rfl

theorem disclosesNothing_iff {σ : Type} {handler : Handler kernelInterface σ} {bound : Nat} {query : List Nat}
    {state final : σ} {measured : List LetterMeasurement}
    (measures : (measureQuery configuration bound query).run handler state = some (measured, final)) :
    DisclosesNothing configuration handler bound query state ↔
      query.length ≤ (residentLetters measured).length + 1 := by
  constructor
  · intro nothing
    by_contra unfilled
    have same := nothing (fun _ => 0) (fun _ => 1)
    rw [run_deviceRead measures, run_deviceRead measures] at same
    exact copied_differ (Nat.lt_of_not_le unfilled) (congrArg Prod.fst (Option.some.inj same))
  · intro filled fresh fresh'
    rw [run_deviceRead measures, run_deviceRead measures, copied_congr filled]

/-- On every machine and for every query, the bytes copied back depend on the query
and the measurements alone exactly if at most one byte is left beside the resident
letters.  The report is as long as the query, but only the resident letters and the
terminator behind them are ever written to it, so that what the allocator returned
shows in the other bytes. -/
theorem deviceRead_disclosesNothing_iff (configuration : Configuration) {σ : Type}
    (handler : Handler kernelInterface σ) (bound : Nat) (query : List Nat) (state final : σ)
    (measured : List LetterMeasurement)
    (measures : (measureQuery configuration bound query).run handler state = some (measured, final)) :
    DisclosesNothing configuration handler bound query state ↔
      query.length ≤
        (measured.countP fun measurement => !reachesThreshold measurement.misses iterations) + 1 := by
  rw [disclosesNothing_iff measures, residentLetters, List.length_map, List.countP_eq_length_filter]

/-- An LRU cache with four ways, as the trigger leaves it. -/
private abbrev fourWays : Machine ((queryGeometry 4).lru queryLevel) :=
  afterTrigger ((queryGeometry 4).lru queryLevel) fun _ => 0

private theorem measures_fourWays {query : List Nat} {bound : Nat} (nonempty : query ≠ [])
    (short : query.length ≤ 511) (enough : query.length ≤ bound) :
    Returns (handle queryLevel) (measureQuery defaultConfiguration bound query) fourWays fun measured _ =>
      measured = (firstUses query).map (letterMeasurement 4 query) :=
  returns_measureQuery (usableWindow_default isLevel_query) nonempty
    (fun _ => Nat.le_trans List.count_le_length short) enough _ (afterTrigger_ready _ _)

/-- The query `AB` on four ways. -/
theorem deviceRead_disclosesNothing_iff_letters :
    ∃ (measured : List LetterMeasurement) (final : Machine ((queryGeometry 4).lru queryLevel)),
      (measureQuery defaultConfiguration 2 [65, 66]).run (handle queryLevel) fourWays = some (measured, final) ∧
        (DisclosesNothing defaultConfiguration (handle queryLevel) 2 [65, 66] fourWays ↔
          [65, 66].length ≤
            (measured.countP fun measurement => !reachesThreshold measurement.misses iterations) + 1) := by
  have returns := measures_fourWays (List.cons_ne_nil 65 [66]) (by decide) (Nat.le_refl 2)
  rcases returns with ⟨measured, final, measures, _⟩
  exact ⟨measured, final, measures, deviceRead_disclosesNothing_iff _ _ _ _ _ _ _ measures⟩

/-- The query `AAA` on four ways: one letter is resident, and the third byte is left
as it was allocated. -/
theorem deviceRead_discloses :
    ¬ DisclosesNothing defaultConfiguration (handle queryLevel) 3 [65, 65, 65] fourWays := by
  have returns := measures_fourWays (List.cons_ne_nil 65 [65, 65]) (by decide) (Nat.le_refl 3)
  rcases returns with ⟨measured, final, measures, same⟩
  rw [disclosesNothing_iff measures, same, residentLetters_measured]
  decide

end CacheQuery
end Talbot
