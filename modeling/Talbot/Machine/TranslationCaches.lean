import Talbot.Foundations.Recency
import Talbot.Foundations.SetAssociative
import Talbot.Machine.HashChains

namespace Talbot

/-!
Translation caches of one level that are set-associative, as `TranslationModel`s.

Both models file every access under the set that a hash function of the source
enumerates.  One replaces the entry used least recently; the other leaves the
choice of the victim open.
-/

open Foundations

/-- The geometry of a translation cache of one level: its index function, the number
of its sets as a power of two, and its ways. -/
structure CacheGeometry where
  hash : HashFunction
  setBits : Nat
  ways : Nat

namespace CacheGeometry

variable (geometry : CacheGeometry)

/-- The record of a structure, as the structure evaluation leaves it. -/
def record : TranslationCache where
  setBits := geometry.setBits
  ways := geometry.ways
  hashFunction := .to geometry.hash

/-- The set that an entry of the level is filed under. -/
def index (entry : Nat) : Nat :=
  geometry.hash.set geometry.setBits entry

/-- Every access uses its entry of the level; nothing else is cached. -/
@[reducible] def lru (level : Nat) : TranslationModel where
  State := LruState Nat Nat
  empty := fun _ => []
  access state address := accessLru geometry.index geometry.ways state (entryOf level address)
  holds state address := decide (entryOf level address ∈ state (geometry.index (entryOf level address)))

/-- The same geometry with an arbitrary victim choice.  The choice sees all accesses
since the last flush, so every deterministic policy is of this form. -/
def associative (victim : List Nat -> Nat) : SetAssociative Nat Nat where
  index := geometry.index
  ways := geometry.ways
  victim := victim

/-- The state lists the entries accessed since the last flush, latest first. -/
@[reducible] def replacing (victim : List Nat -> Nat) (level : Nat) : TranslationModel where
  State := List Nat
  empty := []
  access history address := entryOf level address :: history
  holds history address := decide (entryOf level address ∈ (geometry.associative victim).resident history)

variable {geometry} {victim : List Nat -> Nat} {level : Nat}

/-! ## Least recently used -/

theorem lru_foldl (addresses : List Nat) (set : Nat) :
    addresses.foldl (geometry.lru level).access (geometry.lru level).empty set =
      (((addresses.map (entryOf level)).filter fun entry => geometry.index entry = set).dedup.reverse).take
        geometry.ways := by
  rw [← lru_holds, List.foldl_map]

/-- Once enough entries of a set have been accessed, earlier accesses no longer
matter to it. -/
theorem lru_holds_recent {before recent : List Nat} {address : Nat}
    (sameSet : ∀ other, other ∈ recent -> geometry.index (entryOf level other) =
      geometry.index (entryOf level address))
    (enough : geometry.ways ≤ (recent.map (entryOf level)).dedup.length) :
    (geometry.lru level).holds ((before ++ recent).foldl (geometry.lru level).access
        (geometry.lru level).empty) address = true ↔
      entryOf level address ∈ (recent.map (entryOf level)).dedup.reverse.take geometry.ways := by
  have inside : (recent.map (entryOf level)).filter (fun entry => geometry.index entry =
      geometry.index (entryOf level address)) = recent.map (entryOf level) := by
    apply List.filter_eq_self.mpr
    intro entry member
    rcases List.mem_map.mp member with ⟨other, inRecent, rfl⟩
    exact decide_eq_true (sameSet other inRecent)
  simp only [decide_eq_true_eq]
  rw [lru_foldl, List.map_append, List.filter_append, inside, take_recent _ _ enough]

/-! ## Any victim -/

theorem replacing_foldl (addresses : List Nat) (history : List Nat) :
    addresses.foldl (geometry.replacing victim level).access history =
      (addresses.map (entryOf level)).reverse ++ history := by
  induction addresses generalizing history with
  | nil => rfl
  | cons address rest inductionHypothesis =>
      rw [List.foldl_cons, inductionHypothesis, List.map_cons, List.reverse_cons, List.append_assoc]
      rfl

/-- The entries that were accessed decide what a probe finds. -/
theorem replacing_holds {entries : List Nat} {entry page : Nat} (isLevel : IsLevel level)
    (small : page < 512) :
    (geometry.replacing victim level).holds ((entries.map fun entry => pageAddress level entry 0).foldl
        (geometry.replacing victim level).access (geometry.replacing victim level).empty)
        (pageAddress level entry page) = true ↔
      entry ∈ (geometry.associative victim).resident entries.reverse := by
  have visited : (entries.map fun entry => pageAddress level entry 0).map (entryOf level) = entries := by
    rw [List.map_map]
    exact (List.map_congr_left fun entry _ => entryOf_pageAddress isLevel (by decide)).trans (List.map_id _)
  have folded : (entries.map fun entry => pageAddress level entry 0).foldl
      (geometry.replacing victim level).access [] = entries.reverse := by
    rw [replacing_foldl, visited, List.append_nil]
  rw [show (geometry.replacing victim level).empty = [] from rfl, folded]
  simp only [entryOf_pageAddress isLevel small, decide_eq_true_eq]

/-- No set gets more entries than it has ways, so nothing is lost. -/
theorem resident_of_spread (legal : (geometry.associative victim).LegalVictim) {entries : List Nat}
    (few : entries.length ≤ geometry.ways ∨ entries.length ≤ geometry.ways + 1 ∧
      ∃ first second, first ∈ entries ∧ second ∈ entries ∧ geometry.index first ≠ geometry.index second) :
    ∀ entry, entry ∈ entries -> entry ∈ (geometry.associative victim).resident entries.reverse := by
  intro entry member
  apply (geometry.associative victim).resident_of_few legal (geometry.index entry) entries.reverse _ entry
    (List.mem_reverse.mpr member) rfl
  have length : ((geometry.associative victim).inSet (geometry.index entry) entries.reverse).length ≤
      geometry.ways := by
    unfold SetAssociative.inSet
    rcases few with few | ⟨few, first, second, firstMember, secondMember, apart⟩
    · exact Nat.le_trans (List.length_filter_le _ _) (by rwa [List.length_reverse])
    · apply Nat.le_of_lt_succ
      apply Nat.lt_of_lt_of_le _ few
      rw [← @List.length_reverse _ entries, List.length_filter_lt_length_iff_exists]
      by_cases same : geometry.index first = geometry.index entry
      · refine ⟨second, List.mem_reverse.mpr secondMember, ?_⟩
        exact fun inside => apart (same.trans (of_decide_eq_true inside).symm)
      · exact ⟨first, List.mem_reverse.mpr firstMember, fun inside => same (of_decide_eq_true inside)⟩
  exact Nat.le_trans (List.dedup_sublist _).length_le length

end CacheGeometry

/-- A cache with eight sets of four ways. -/
def eightSets : CacheGeometry :=
  ⟨.linShiftHash, 3, 4⟩

end Talbot
