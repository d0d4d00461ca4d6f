import Talbot.Machine.HashChains

namespace Talbot

/-!
What the chain builders of `pointer_chasing.c` build.

Each builder enumerates addresses in ever higher entries, and leaves out what
follows the first one outside the base window.  The nodes that remain are
pairwise different slots, so no pointer is written over a later or an earlier
one, and reading the pointers back visits the nodes in the order in which they
were linked.
-/

open Foundations Program

/-! ## Chains as a traversal sees them -/

/-- The base window of a level, which the builders compare their links with.  The
first entry belongs to it, and the first address behind the last entry does not. -/
def InBaseWindow (configuration : Configuration) (level address : Nat) : Prop :=
  baseAddress ≤ address ∧ address < windowEnd configuration level

instance (configuration : Configuration) (level address : Nat) : Decidable (InBaseWindow configuration level address) :=
  inferInstanceAs (Decidable (_ ∧ _))

/-- The longest prefix of some links that stays inside the base window.  The
builders stop at the first link that leaves it, even if a later one would lie inside
again. -/
def windowPrefix (configuration : Configuration) (level : Nat) (links : List Nat) : List Nat :=
  links.takeWhile fun address => decide (InBaseWindow configuration level address)

/-- Following `read_data` from `start` reads exactly these nodes, in order, and then
has arrived at `stop`. -/
def Visits {model : TranslationModel} (level : Nat) (machine : Machine model) (start : Nat) (nodes : List Nat)
    (stop : Nat) : Prop :=
  ∀ bound, nodes.length ≤ bound ->
    Traces (Machine.handle level) (followChain .readData bound start stop) machine fun p _ issued =>
      p = stop ∧ issued = nodes.map KernelOp.readData

/-- A builder has linked these nodes: no node repeats, no other slot has changed, and
unless the end is one of the nodes, a traversal visits them and ends there. -/
structure BuildsChain {model : TranslationModel} (level : Nat) (before after : Machine model) (start : Nat)
    (links : List Nat) (stop : Nat) : Prop where
  distinct : (start :: links).Nodup
  unchanged : ∀ slot, slot ∉ start :: links -> after.memory slot = before.memory slot
  complementary : after.complementary = before.complementary
  visits : stop ∉ start :: links -> Visits level after start (start :: links) stop

namespace Machine

variable {model : TranslationModel} {level : Nat}

/-- A chain that is written through distinct nodes is the chain that is read. -/
theorem Rewritten.buildsChain {before after : Machine model} {start stop : Nat} {links : List Nat}
    (rewritten : Rewritten before after (writeChain before.memory start links stop))
    (distinct : (start :: links).Nodup) : BuildsChain level before after start links stop := by
  refine ⟨distinct, fun slot outside => ?_, rewritten.complementary_eq, fun ends bound enough => ?_⟩
  · rw [rewritten.memory_eq]
    exact writeChain_frame _ _ _ _ outside
  · have path : Path after.memory start (start :: links) stop := by
      rw [rewritten.memory_eq]
      exact writeChain_path _ _ _ _ distinct
    apply (traces_followChain rewritten.idle path ends enough).mono
    rintro p _ issued ⟨arrived, _, reads⟩
    exact ⟨arrived, reads⟩

end Machine

/-! ## The links of the builders -/

/-- A start address of a chain: the first page of an entry of the base window.  This
is how all experiments draw their targets. -/
structure WindowStart (configuration : Configuration) (level startAddress : Nat) : Prop where
  aligned : pageAddress level (entryOf level startAddress) 0 = startAddress
  inside : InBaseWindow configuration level startAddress

section Links

variable {configuration : Configuration} {level : Nat}

/-- Links to the first pages of entries that are numbered upwards. -/
def numberedLinks (level : Nat) (number : Nat -> Nat) (length : Nat) : List Nat :=
  (List.range' 0 length).map fun i => pageAddress level (number (i + 1)) 0

theorem linearLinks_numbered (level entry length : Nat) :
    Machine.linearLinks (pageAddress level entry 0) length level = numberedLinks level (fun i => entry + i) length := by
  apply List.map_congr_left
  intro i _
  simp only [pageAddress_zero, Nat.shiftLeft_eq]
  exact (Nat.add_mul entry (i + 1) _).symm

theorem hashLinks_numbered (hash : HashFunction) {entry : Nat} (isLevel : IsLevel level)
    (fits : pageAddress level entry 0 < 2 ^ 64) (length setBits : Nat) :
    Machine.hashLinks hash (pageAddress level entry 0) length setBits level =
      numberedLinks level (hash.entry setBits entry) length :=
  List.map_congr_left fun i _ => hash.apply_aligned (i + 1) setBits isLevel fits

variable {number : Nat -> Nat}

/-- Above its start a chain cannot leave the window downwards, so the builders'
check finds the same prefix. -/
theorem keptLinks_eq_windowPrefix (increasing : StrictMono number)
    (lower : baseAddress ≤ pageAddress level (number 0) 0) (length : Nat) :
    Machine.keptLinks configuration level (numberedLinks level number length) =
      windowPrefix configuration level (numberedLinks level number length) := by
  unfold Machine.keptLinks windowPrefix
  have above : ∀ link, link ∈ numberedLinks level number length -> baseAddress < link := by
    intro link inside
    rcases List.mem_map.mp inside with ⟨i, _, rfl⟩
    exact Nat.lt_of_le_of_lt lower ((pageAddress_lt_iff _ _ _).mpr (increasing (Nat.succ_pos i)))
  generalize numberedLinks level number length = links at above
  induction links with
  | nil => rfl
  | cons link rest inductionHypothesis =>
      have here : insideWindow configuration level link = decide (InBaseWindow configuration level link) := by
        have strict := above link List.mem_cons_self
        unfold insideWindow InBaseWindow
        rw [decide_eq_true strict, Bool.true_and]
        exact decide_eq_decide.mpr (and_iff_right (Nat.le_of_lt strict)).symm
      rw [List.takeWhile_cons, List.takeWhile_cons, here,
        inductionHypothesis fun later inside => above later (List.mem_cons_of_mem _ inside)]

theorem mem_windowPrefix {length link : Nat}
    (inside : link ∈ windowPrefix configuration level (numberedLinks level number length)) :
    ∃ i, link = pageAddress level (number (i + 1)) 0 := by
  rcases List.mem_map.mp (List.takeWhile_subset _ inside) with ⟨i, _, rfl⟩
  exact ⟨i, rfl⟩

variable (configuration) in
/-- The start and its links are pairwise different. -/
theorem windowPrefix_nodup (isLevel : IsLevel level) (increasing : StrictMono number) (length : Nat) :
    (pageAddress level (number 0) 0 ::
      windowPrefix configuration level (numberedLinks level number length)).Nodup := by
  refine List.nodup_cons.mpr ⟨fun inside => ?_, List.Nodup.sublist (List.takeWhile_sublist _) ?_⟩
  · rcases mem_windowPrefix inside with ⟨i, same⟩
    have entries := (pageAddress_injective isLevel (by decide) (by decide) same).1
    exact absurd (increasing.injective entries) (Nat.succ_ne_zero i).symm
  · refine List.Nodup.map (fun first second same => ?_) List.nodup_range'
    exact Nat.succ.inj (increasing.injective (pageAddress_injective isLevel (by decide) (by decide) same).1)

variable (configuration) in
/-- A second page of the first entry is none of them. -/
theorem windowPrefix_nodup_single (isLevel : IsLevel level) (increasing : StrictMono number) (length : Nat) :
    (pageAddress level (number 0) 0 :: pageAddress level (number 0) 1 ::
      windowPrefix configuration level (numberedLinks level number length)).Nodup := by
  rcases List.nodup_cons.mp (windowPrefix_nodup configuration isLevel increasing length) with
    ⟨outside, distinct⟩
  refine List.nodup_cons.mpr ⟨?_, List.nodup_cons.mpr ⟨?_, distinct⟩⟩
  · intro inside
    rcases List.mem_cons.mp inside with same | later
    · exact absurd (pageAddress_injective isLevel (by decide) (by decide) same).2 (by decide)
    · exact outside later
  · intro inside
    rcases mem_windowPrefix inside with ⟨i, same⟩
    exact absurd (pageAddress_injective isLevel (by decide) (by decide) same).2 (by decide)

end Links

/-- Whatever memory holds, every builder builds the chain of its start, for the last
builder the second page of the first entry, and the longest prefix of its links that
stays inside the base window.  The chain repeats no address and ends at the given
one, and all words that are not in one of its nodes are kept. -/
theorem chainBuilders_build {model : TranslationModel} {configuration : Configuration} {level startAddress : Nat}
    (isLevel : IsLevel level) (fits : windowEnd configuration level ≤ 2 ^ 64)
    (start : WindowStart configuration level startAddress) (length endAddress : Nat) (machine : Machine model)
    (idle : machine.exchanged = none) :
    Returns (Machine.handle level) (buildPointerChain configuration startAddress endAddress length level) machine
        (fun _ final => BuildsChain level machine final startAddress
          (windowPrefix configuration level (Machine.linearLinks startAddress length level)) endAddress) ∧
      ∀ (hash : HashFunction) (setBits : Nat),
        Returns (Machine.handle level) (buildPointerChainFromHash configuration startAddress endAddress length
            (.to hash) setBits level) machine
          (fun _ final => BuildsChain level machine final startAddress
            (windowPrefix configuration level (Machine.hashLinks hash startAddress length setBits level))
            endAddress) ∧
        Returns (Machine.handle level) (buildPointerChainFromHashSingle configuration startAddress endAddress length
            (.to hash) setBits level) machine
          (fun _ final => BuildsChain level machine final startAddress
            ((startAddress + (1 <<< pageTableIndexShift (level - 1))) ::
              windowPrefix configuration level (Machine.hashLinks hash startAddress length setBits level))
            endAddress) := by
  rcases start with ⟨aligned, lower, upper⟩
  generalize entryOf level startAddress = entry at aligned
  subst aligned
  have small := Nat.lt_of_lt_of_le upper fits
  constructor
  · apply (Machine.returns_buildPointerChain configuration _ endAddress length level idle).mono
    intro _ final rewritten
    have increasing : StrictMono fun i => entry + i := fun _ _ before => Nat.add_lt_add_left before _
    rw [linearLinks_numbered, keptLinks_eq_windowPrefix increasing lower] at rewritten
    rw [linearLinks_numbered]
    exact rewritten.buildsChain (windowPrefix_nodup configuration isLevel increasing length)
  · intro hash setBits
    have increasing := hash.entry_strictMono setBits entry
    have first : pageAddress level (hash.entry setBits entry 0) 0 = pageAddress level entry 0 := by
      rw [hash.entry_zero]
    constructor
    · apply (Machine.returns_buildPointerChainFromHash configuration hash _ endAddress length setBits level idle).mono
      intro _ final rewritten
      rw [hashLinks_numbered hash isLevel small, keptLinks_eq_windowPrefix increasing (first ▸ lower)] at rewritten
      rw [hashLinks_numbered hash isLevel small]
      have distinct := windowPrefix_nodup configuration isLevel increasing length
      rw [first] at distinct
      exact rewritten.buildsChain distinct
    · apply (Machine.returns_buildPointerChainFromHashSingle configuration hash _ endAddress length setBits level
        idle).mono
      intro _ final rewritten
      rw [hashLinks_numbered hash isLevel small, keptLinks_eq_windowPrefix increasing (first ▸ lower)] at rewritten
      rw [hashLinks_numbered hash isLevel small]
      have distinct := windowPrefix_nodup_single configuration isLevel increasing length
      rw [first, hash.entry_zero, ← pageAddress_add level entry 1] at distinct
      exact rewritten.buildsChain distinct

/-- Caches that never hold a translation. -/
def noCaches : TranslationModel where
  State := Unit
  empty := ()
  access _ _ := ()
  holds _ _ := false

/-- Chains of five links from the first entry of the level-2 window. -/
theorem chainBuilders_build_first :
    Returns (Machine.handle 2) (buildPointerChain defaultConfiguration baseAddress 0 5 2)
        (Machine.afterTrigger noCaches fun _ => 0)
        (fun _ final => BuildsChain 2 (Machine.afterTrigger noCaches fun _ => 0) final baseAddress
          (windowPrefix defaultConfiguration 2 (Machine.linearLinks baseAddress 5 2)) 0) ∧
      ∀ (hash : HashFunction) (setBits : Nat),
        Returns (Machine.handle 2) (buildPointerChainFromHash defaultConfiguration baseAddress 0 5
            (.to hash) setBits 2) (Machine.afterTrigger noCaches fun _ => 0)
          (fun _ final => BuildsChain 2 (Machine.afterTrigger noCaches fun _ => 0) final baseAddress
            (windowPrefix defaultConfiguration 2 (Machine.hashLinks hash baseAddress 5 setBits 2)) 0) ∧
        Returns (Machine.handle 2) (buildPointerChainFromHashSingle defaultConfiguration baseAddress 0 5
            (.to hash) setBits 2) (Machine.afterTrigger noCaches fun _ => 0)
          (fun _ final => BuildsChain 2 (Machine.afterTrigger noCaches fun _ => 0) final baseAddress
            ((baseAddress + (1 <<< pageTableIndexShift (2 - 1))) ::
              windowPrefix defaultConfiguration 2 (Machine.hashLinks hash baseAddress 5 setBits 2)) 0) :=
  chainBuilders_build (by decide) (by decide) ⟨by decide, by decide⟩ 5 0 _ rfl

end Talbot
