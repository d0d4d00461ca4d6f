import Mathlib.Data.Fin.Basic
import Mathlib.Data.List.FinRange
import Talbot.Definitions

namespace Talbot

/-!
What the user-space trigger learns about the TLBs (`cpuid_wrapper.c`).

Leaf 2 of CPUID answers with up to fifteen one-byte descriptors.  Each one that is
known sets some of the records and is printed.  The records say how many huge pages
a sweep has to touch.
-/

inductive TlbPart where
  | iTlb
  | dTlb
  | sTlb
  deriving DecidableEq, Repr

structure TlbLevel where
  ways : Nat
  entries : Nat
  deriving DecidableEq, Repr

/-- `tlbs[0]` is about 4K pages, `tlbs[1]` about 2M pages, `tlbs[2]` about 1G pages. -/
abbrev Tlbs : Type :=
  Fin 3 -> TlbPart -> TlbLevel

/-- What a case of the switch does with one record.  Some cases leave the ways as
they are. -/
structure TlbUpdate where
  page : Fin 3
  part : TlbPart
  ways : Option Nat
  entries : Nat
  deriving DecidableEq, Repr

def TlbUpdate.apply (tlbs : Tlbs) (update : TlbUpdate) : Tlbs :=
  Function.update tlbs update.page (Function.update (tlbs update.page) update.part
    ⟨update.ways.getD (tlbs update.page update.part).ways, update.entries⟩)

/-- The body of a case. -/
structure TlbDescriptor where
  updates : List TlbUpdate
  printed : List String
  deriving DecidableEq, Repr

/-- The cases of `decode_tlb_descriptor`. -/
def tlbDescriptors : List (BitVec 8 × TlbDescriptor) := [
  (0x01, ⟨[⟨0, .iTlb, some 4, 32⟩],
    ["[*] 4K iTLB: 4-way set associative, 32 entries\n"]⟩),
  (0x02, ⟨[],
    ["[*] 4M iTLB: fully associative, 2 entries\n"]⟩),
  (0x03, ⟨[⟨0, .dTlb, some 4, 64⟩],
    ["[*] 4K dTLB: 4-way set associative, 64 entries\n"]⟩),
  (0x04, ⟨[],
    ["[*] 4M dTLB: 4-way set associative, 8 entries\n"]⟩),
  (0x05, ⟨[],
    ["[*] 4M dTLB: 4-way set associative, 32 entries\n"]⟩),
  (0x0b, ⟨[],
    ["[*] 4M iTLB: 4-way set associative, 4 entries\n"]⟩),
  (0x4f, ⟨[⟨0, .iTlb, none, 32⟩],
    ["[*] 4K iTLB: 32 entries\n"]⟩),
  (0x50, ⟨[⟨0, .iTlb, none, 64⟩, ⟨1, .iTlb, none, 64⟩],
    ["[*] 4K/2M/4M iTLB: 64 entries\n"]⟩),
  (0x51, ⟨[⟨0, .iTlb, none, 128⟩, ⟨1, .iTlb, none, 128⟩],
    ["[*] 4K/2M/4M iTLB: 128 entries\n"]⟩),
  (0x52, ⟨[⟨0, .iTlb, none, 256⟩, ⟨1, .iTlb, none, 256⟩],
    ["[*] 4K/2M/4M iTLB: 256 entries\n"]⟩),
  (0x55, ⟨[⟨1, .iTlb, some 7, 7⟩],
    ["[*] 2M/4M iTLB: fully associative, 7 entries\n"]⟩),
  (0x56, ⟨[],
    ["[*] 4M dTLB: 4-way set associative, 16 entries\n"]⟩),
  (0x57, ⟨[⟨0, .dTlb, some 4, 16⟩],
    ["[*] 4K dTLB: 4-way set associative, 16 entries\n"]⟩),
  (0x59, ⟨[⟨0, .dTlb, some 16, 16⟩],
    ["[*] 4K dTLB: fully associative, 16 entries\n"]⟩),
  (0x5a, ⟨[⟨1, .dTlb, some 4, 32⟩],
    ["[*] 2M/4M dTLB: 4-way set associative, 32 entries\n"]⟩),
  (0x5b, ⟨[⟨0, .dTlb, none, 64⟩],
    ["[*] 4K/4M dTLB: 64 entries\n"]⟩),
  (0x5c, ⟨[⟨0, .dTlb, none, 128⟩],
    ["[*] 4K/4M dTLB: 128 entries\n"]⟩),
  (0x5d, ⟨[⟨0, .dTlb, none, 256⟩],
    ["[*] 4K/4M dTLB: 256 entries\n"]⟩),
  (0x61, ⟨[⟨0, .iTlb, some 48, 48⟩],
    ["[*] 4K iTLB: fully associative, 48 entries\n"]⟩),
  (0x63, ⟨[⟨1, .dTlb, some 4, 32⟩, ⟨2, .dTlb, some 4, 4⟩],
    ["[*] 2M/4M dTLB: 4-way set associative, 32 entries\n[*] 1G dTLB: 4-way set associative, 4 entries\n"]⟩),
  (0x64, ⟨[⟨0, .dTlb, some 4, 512⟩],
    ["[*] 4K dTLB: 4-way set associative, 512 entries\n"]⟩),
  (0x76, ⟨[⟨1, .iTlb, some 8, 8⟩],
    ["[*] 2M/4M iTLB: fully associative, 8 entries\n"]⟩),
  (0xa0, ⟨[⟨0, .dTlb, some 32, 32⟩],
    ["[*] 4K dTLB: fully associative, 32 entries\n"]⟩),
  (0xb0, ⟨[⟨0, .iTlb, some 4, 128⟩],
    ["[*] 4K iTLB: 4-way set associative, 128 entries\n"]⟩),
  (0xb1, ⟨[⟨1, .iTlb, some 4, 8⟩],
    ["[*] 2M iTLB: 4-way set associative, 8 entries\n", "[*] 4M iTLB: 4-way set associative, 4 entries\n"]⟩),
  (0xb2, ⟨[⟨0, .iTlb, some 4, 64⟩],
    ["[*] 4K iTLB: 4-way set associative, 64 entries\n"]⟩),
  (0xb3, ⟨[⟨0, .dTlb, some 4, 128⟩],
    ["[*] 4K dTLB: 4-way set associative, 128 entries\n"]⟩),
  (0xb4, ⟨[⟨0, .dTlb, some 4, 256⟩],
    ["[*] 4K dTLB: 4-way set associative, 256 entries\n"]⟩),
  (0xb5, ⟨[⟨0, .iTlb, some 8, 64⟩],
    ["[*] 4K iTLB: 8-way set associative, 64 entries\n"]⟩),
  (0xb6, ⟨[⟨0, .iTlb, some 8, 128⟩],
    ["[*] 4K iTLB: 8-way set associative, 128 entries\n"]⟩),
  (0xba, ⟨[⟨0, .dTlb, some 4, 64⟩],
    ["[*] 4K dTLB: 4-way set associative, 64 entries\n"]⟩),
  (0xc0, ⟨[⟨0, .dTlb, some 4, 8⟩],
    ["[*] 4K/4M dTLB: 4-way set associative, 8 entries\n"]⟩),
  (0xc1, ⟨[⟨0, .sTlb, some 8, 1024⟩, ⟨1, .sTlb, some 8, 1024⟩],
    ["[*] 4K/2M sTLB: 8-way set associative, 1024 entries\n"]⟩),
  (0xc2, ⟨[⟨0, .dTlb, some 4, 16⟩, ⟨1, .dTlb, some 4, 16⟩],
    ["[*] 4K/2M dTLB: 4-way set associative, 16 entries\n"]⟩),
  (0xc3, ⟨[⟨0, .sTlb, some 6, 1536⟩, ⟨1, .sTlb, some 6, 1536⟩, ⟨2, .sTlb, some 4, 16⟩],
    ["[*] 4K/2M sTLB: 6-way set associative, 1536 entries\n[*] 1G sTLB: 4-way set associative, 16 entries\n"]⟩),
  (0xc4, ⟨[⟨1, .dTlb, some 4, 32⟩],
    ["[*] 2M/4M dTLB: 4-way set associative, 32 entries\n"]⟩),
  (0xca, ⟨[⟨0, .sTlb, some 4, 512⟩],
    ["[*] 4K sTLB: 4-way set associative, 512 entries\n"]⟩)
]

/-- The records, and what has been printed so far. -/
structure TlbReport where
  tlbs : Tlbs
  printed : List String

def decodeTlbDescriptor (report : TlbReport) (descriptor : BitVec 8) : TlbReport :=
  match tlbDescriptors.find? fun known => known.1 == descriptor with
  | some (_, known) => ⟨known.updates.foldl TlbUpdate.apply report.tlbs, report.printed ++ known.printed⟩
  | none => report

/-- `registers` is the answer of CPUID: EAX, EBX, ECX and EDX. The highest bit of a
register says that it has no descriptors, and the lowest byte of EAX is none. -/
def getTlbInfo (registers : Fin 4 -> BitVec 32) (report : TlbReport) : TlbReport :=
  (List.finRange 4).foldl (fun report register =>
    if registers register >>> 31 ≠ 0 then report
    else [0, 8, 16, 24].foldl (fun report byteOffset =>
      if register = 0 ∧ byteOffset = 0 then report
      else decodeTlbDescriptor report ((registers register >>> byteOffset).setWidth 8)) report) report

/-- `tlbs` before anything is known. -/
def noTlbs : TlbReport where
  tlbs _ _ := ⟨0, 0⟩
  printed := []

/-- `entries_2M_tlb` and `entries_1G_tlb`, by the level that maps such pages. -/
def hugeTlbEntries (tlbs : Tlbs) (level : Nat) : Nat :=
  let page : Fin 3 := if level = 2 then 1 else 2
  (tlbs page .sTlb).entries + (tlbs page .dTlb).entries

/-- Whether the trigger warns that it maps too few huge pages. -/
def warnsOfFewPages (tlbs : Tlbs) : Bool :=
  decide (amount2MPages < hugeTlbEntries tlbs 2) || decide (amount1GPages < hugeTlbEntries tlbs 3)

/-! ## What a record may hold -/

namespace TlbReport

/-- The records meet `held` if every update of a known descriptor keeps it. -/
theorem tlbs_foldl (held : Tlbs -> Prop) {updates : List TlbUpdate} {tlbs : Tlbs} (before : held tlbs)
    (kept : ∀ update, update ∈ updates -> ∀ tlbs, held tlbs -> held (update.apply tlbs)) :
    held (updates.foldl TlbUpdate.apply tlbs) :=
  List.foldlRecOn updates TlbUpdate.apply before fun tlbs holds update known => kept update known tlbs holds

/-- What holds of the records whichever case is taken. -/
theorem decodeTlbDescriptor_keeps (held : Tlbs -> Prop) {report : TlbReport} (before : held report.tlbs)
    (kept : ∀ known, known ∈ tlbDescriptors -> ∀ update, update ∈ known.2.updates -> ∀ tlbs, held tlbs ->
      held (update.apply tlbs)) (descriptor : BitVec 8) : held (decodeTlbDescriptor report descriptor).tlbs := by
  unfold decodeTlbDescriptor
  cases found : tlbDescriptors.find? fun known => known.1 == descriptor with
  | none => exact before
  | some known => exact tlbs_foldl held before (kept known (List.mem_of_find?_eq_some found))

theorem getTlbInfo_keeps (held : Tlbs -> Prop) {report : TlbReport} (before : held report.tlbs)
    (kept : ∀ known, known ∈ tlbDescriptors -> ∀ update, update ∈ known.2.updates -> ∀ tlbs, held tlbs ->
      held (update.apply tlbs)) (registers : Fin 4 -> BitVec 32) : held (getTlbInfo registers report).tlbs := by
  unfold getTlbInfo
  apply List.foldlRecOn (motive := fun report : TlbReport => held report.tlbs) _ _ before
  intro report holds register _
  split_ifs
  · exact holds
  · apply List.foldlRecOn (motive := fun report : TlbReport => held report.tlbs) _ _ holds
    intro report holds byteOffset _
    split_ifs
    · exact holds
    · exact decodeTlbDescriptor_keeps held holds kept _

end TlbReport

/-- The entries that the descriptors report for a record. -/
def reportedEntries (page : Fin 3) (part : TlbPart) : List Nat :=
  ((tlbDescriptors.flatMap fun known => known.2.updates).filter fun update =>
    update.page = page ∧ update.part = part).map TlbUpdate.entries

/-- A record has not been set, or its entries are those of a descriptor. -/
theorem getTlbInfo_entries (registers : Fin 4 -> BitVec 32) (page : Fin 3) (part : TlbPart) :
    ((getTlbInfo registers noTlbs).tlbs page part).entries ∈ 0 :: reportedEntries page part := by
  apply TlbReport.getTlbInfo_keeps fun tlbs => (tlbs page part).entries ∈ 0 :: reportedEntries page part
  · exact List.mem_cons_self
  · intro known inside update among tlbs holds
    unfold TlbUpdate.apply
    by_cases samePage : page = update.page
    · subst samePage
      rw [Function.update_self]
      by_cases samePart : part = update.part
      · subst samePart
        rw [Function.update_self]
        apply List.mem_cons_of_mem
        apply List.mem_map_of_mem
        exact List.mem_filter.mpr ⟨List.mem_flatMap.mpr ⟨known, inside, among⟩, by simp⟩
      · rw [Function.update_of_ne samePart]
        exact holds
    · rw [Function.update_of_ne samePage]
      exact holds

theorem reportedEntries_le (registers : Fin 4 -> BitVec 32) {page : Fin 3} {part : TlbPart} (most : Nat)
    (all : (reportedEntries page part).all (· ≤ most) = true) :
    ((getTlbInfo registers noTlbs).tlbs page part).entries ≤ most := by
  rcases List.mem_cons.mp (getTlbInfo_entries registers page part) with unset | reported
  · rw [unset]
    exact Nat.zero_le most
  · exact of_decide_eq_true (List.all_eq_true.mp all _ reported)

/-- No answer of CPUID reports more. -/
theorem hugeTlbEntries_le (registers : Fin 4 -> BitVec 32) (level : Nat) :
    hugeTlbEntries (getTlbInfo registers noTlbs).tlbs level ≤ if level = 2 then 1568 else 20 := by
  unfold hugeTlbEntries
  split_ifs
  · exact Nat.add_le_add (reportedEntries_le registers 1536 rfl) (reportedEntries_le registers 32 rfl)
  · exact Nat.add_le_add (reportedEntries_le registers 16 rfl) (reportedEntries_le registers 4 rfl)

/-- The trigger maps enough huge pages for all TLBs that it can be told of.  The
bounds are over all answers of CPUID and the whole table of descriptors, of which an
answer may name several; so the warning about too few pages is never printed. -/
theorem hugePages_suffice (registers : Fin 4 -> BitVec 32) :
    hugeTlbEntries (getTlbInfo registers noTlbs).tlbs 2 ≤ 1568 ∧
      hugeTlbEntries (getTlbInfo registers noTlbs).tlbs 3 ≤ 20 ∧
      warnsOfFewPages (getTlbInfo registers noTlbs).tlbs = false := by
  have twoMegabytes := hugeTlbEntries_le registers 2
  have oneGigabyte := hugeTlbEntries_le registers 3
  rw [if_pos rfl] at twoMegabytes
  rw [if_neg (by decide)] at oneGigabyte
  refine ⟨twoMegabytes, oneGigabyte, ?_⟩
  unfold warnsOfFewPages
  rw [Bool.or_eq_false_iff, decide_eq_false_iff_not, decide_eq_false_iff_not]
  unfold amount2MPages amount1GPages
  omega

/-- Both bounds are reached at once. -/
example : hugeTlbEntries (getTlbInfo (fun _ => 0x00c36301) noTlbs).tlbs 2 = 1568 ∧
    hugeTlbEntries (getTlbInfo (fun _ => 0x00c36301) noTlbs).tlbs 3 = 20 := by
  decide

end Talbot
