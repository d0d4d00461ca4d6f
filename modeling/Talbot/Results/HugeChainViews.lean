import Talbot.Machine.HugePages
import Talbot.Results.SlotViews

namespace Talbot

/-!
The slots of a huge page, byte by byte.

The chain through a huge region writes into one physical page, whose slots are
its records.  A program that writes only among spaced slots, and reads only what
was written, returns the same on the bytes of the page as on a map from slots to
words, whichever view it reads.  The links of a huge chain are such slots: after
the builder, each of them is a record that shows the next link as data and as
code.
-/

open Foundations Program

namespace Slots

/-- The slots of the page as words.  Reading a slot that no call has written
faults, and so does writing elsewhere than at `slots`. -/
def wordPage (level : Nat) (slots : List Nat) : Handler kernelInterface (Nat -> Option (BitVec 64))
  | .readData address, words =>
      (words (physicalOffset level address)).map fun value => (value.toNat, words)
  | .fetchInstruction address, words =>
      (words (physicalOffset level address)).map fun value => (value.toNat, words)
  | .writeData address data, words =>
      if physicalOffset level address ∈ slots then
        some ((), Function.update words (physicalOffset level address) (some (BitVec.ofNat 64 data)))
      else none
  | _, _ => none

/-- The same accesses on the bytes of the page.  `register` is what the result
register holds before a call. -/
def bytePage (level : Nat) (register : BitVec 64) : Handler kernelInterface ByteMemory
  | .readData address, memory => some ((readData memory (physicalOffset level address)).toNat, memory)
  | .fetchInstruction address, memory =>
      (fetchInstruction memory (physicalOffset level address) 4 register).map fun value => (value.toNat, memory)
  | .writeData address data, memory =>
      some ((), writeData (physicalOffset level address) (BitVec.ofNat 64 data) memory)
  | _, _ => none

section Pages

variable {level : Nat} {slots : List Nat} {register : BitVec 64} {memory : ByteMemory}

/-- The bytes follow the words. -/
theorem bytePage_step (spaced : Spaced slots) (op : KernelOp) (memory : ByteMemory)
    (words : Nat -> Option (BitVec 64)) (response : kernelInterface.Response op) (final : Nat -> Option (BitVec 64))
    (shows : Shows slots memory words) (handled : wordPage level slots op words = some (response, final)) :
    ∃ next, bytePage level register op memory = some (response, next) ∧ Shows slots next final := by
  cases op with
  | readData address =>
      rcases Option.map_eq_some_iff.mp handled with ⟨value, known, same⟩
      cases same
      refine ⟨memory, ?_, shows⟩
      rw [bytePage, (shows.record known).holds.data]
  | fetchInstruction address =>
      rcases Option.map_eq_some_iff.mp handled with ⟨value, known, same⟩
      cases same
      refine ⟨memory, ?_, shows⟩
      rw [bytePage, (shows.record known).holds.code 4 register (Nat.le_refl 4)]
      rfl
  | writeData address data =>
      by_cases member : physicalOffset level address ∈ slots
      · rw [wordPage, if_pos member] at handled
        cases handled
        exact ⟨_, rfl, shows.apply spaced (.writeData _ (BitVec.ofNat 64 data)) member⟩
      · rw [wordPage, if_neg member] at handled
        cases handled
  | _ => cases handled

/-- What a program does on the words, it does on the bytes. -/
theorem Shows.returns {α : Type} {program : Kernel α} {words : Nat -> Option (BitVec 64)}
    {post : α -> (Nat -> Option (BitVec 64)) -> Prop} (shows : Shows slots memory words) (spaced : Spaced slots)
    (returns : Returns (wordPage level slots) program words post) :
    Returns (bytePage level register) program memory fun value final =>
      ∃ words, Shows slots final words ∧ post value words :=
  returns.follow shows fun op memory words response final => bytePage_step spaced op memory words response final

end Pages

/-! ## The chain on the words -/

/-- The words as `read_data` returns them. -/
def shown (words : Nat -> Option (BitVec 64)) (offset : Nat) : Nat :=
  ((words offset).getD 0).toNat

theorem shown_update {words : Nat -> Option (BitVec 64)} {data : Nat} (offset : Nat) (fits : data < 2 ^ 64) :
    shown (Function.update words offset (some (BitVec.ofNat 64 data))) =
      Function.update (shown words) offset data := by
  funext other
  unfold shown
  by_cases same : other = offset
  · rw [same, Function.update_self, Function.update_self]
    exact Nat.mod_eq_of_lt fits
  · rw [Function.update_of_ne same, Function.update_of_ne same]

section Chains

variable {level : Nat} {slots : List Nat} {words : Nat -> Option (BitVec 64)}

theorem returns_writeData_words {address data : Nat} {post : Unit -> (Nat -> Option (BitVec 64)) -> Prop}
    (member : physicalOffset level address ∈ slots) :
    Returns (wordPage level slots) (Talbot.writeData address data) words post ↔
      post () (Function.update words (physicalOffset level address) (some (BitVec.ofNat 64 data))) :=
  (returns_call (if_pos member)).trans (returns_ret _)

theorem returns_access_words (access : MemoryAccess) {address : Nat}
    {post : Nat -> (Nat -> Option (BitVec 64)) -> Prop}
    (known : (words (physicalOffset level address)).isSome) :
    Returns (wordPage level slots) (access.access address) words post ↔
      post (throughRegion level (shown words) address) words := by
  rcases Option.isSome_iff_exists.mp known with ⟨value, same⟩
  have seen : throughRegion level (shown words) address = value.toNat := by
    rw [throughRegion, shown, same, Option.getD_some]
  rw [seen]
  have handled : (words (physicalOffset level address)).map (fun value => (value.toNat, words)) =
      some (value.toNat, words) := by
    rw [same, Option.map_some]
  cases access with
  | readData => exact (returns_call handled).trans (returns_ret _)
  | fetchInstruction => exact (returns_call handled).trans (returns_ret _)

/-- Either view follows the pointers of written slots to their end. -/
theorem returns_followChain_words (access : MemoryAccess) {bound start stop : Nat} {nodes : List Nat}
    (path : Path (throughRegion level (shown words)) start nodes stop)
    (known : ∀ node, node ∈ nodes -> (words (physicalOffset level node)).isSome)
    (ends : stop ∉ nodes) (enough : nodes.length ≤ bound) :
    Returns (wordPage level slots) (followChain access bound start stop) words fun p final =>
      p = stop ∧ final = words := by
  induction nodes generalizing bound start with
  | nil =>
      have done : start = stop := path
      subst done
      rw [followChain_stop, returns_ret]
      exact ⟨rfl, rfl⟩
  | cons node rest inductionHypothesis =>
      rcases path with ⟨rfl, path⟩
      rcases Nat.exists_eq_add_of_le' (Nat.lt_of_lt_of_le (Nat.succ_pos rest.length) enough) with ⟨bound, rfl⟩
      have different : start ≠ stop := fun same => ends (same ▸ List.mem_cons_self)
      rw [followChain_next different, returns_bind, returns_access_words access (known start List.mem_cons_self)]
      exact inductionHypothesis path (fun later member => known later (List.mem_cons_of_mem _ member))
        (fun member => ends (List.mem_cons_of_mem _ member)) (Nat.le_of_succ_le_succ enough)

end Chains

/-! ## The links of a huge chain -/

/-- The slots of a page that holds `length` links behind its start. -/
def hugeSlots (length : Nat) : List Nat :=
  (List.range (length + 1)).map (16 * ·)

theorem spaced_hugeSlots (length : Nat) : Spaced (hugeSlots length) := by
  intro first firstIn second secondIn
  rcases List.mem_map.mp firstIn with ⟨i, _, rfl⟩
  rcases List.mem_map.mp secondIn with ⟨j, _, rfl⟩
  omega

section Links

variable {level start stop length : Nat} {register : BitVec 64}

/-- From the start of a page the links fill the slots in order. -/
theorem physicalOffset_aligned {page : Nat} (aligned : physicalOffset level start = 0)
    (fits : 16 * length < 2 ^ pageTableIndexShift level) (bounded : page ≤ length) :
    physicalOffset level (hugeLink level start page) = 16 * (page - 1) := by
  have small : 16 * (page - 1) < 2 ^ pageTableIndexShift level := by omega
  rw [physicalOffset_hugeLink, physicalOffset, Nat.add_mod]
  unfold physicalOffset at aligned
  rw [aligned, Nat.zero_add, Nat.mod_mod, Nat.mod_eq_of_lt small]

theorem hugeLink_mem {page : Nat} (aligned : physicalOffset level start = 0)
    (fits : 16 * length < 2 ^ pageTableIndexShift level) (bounded : page ≤ length) :
    physicalOffset level (hugeLink level start page) ∈ hugeSlots length := by
  rw [physicalOffset_aligned aligned fits bounded]
  exact List.mem_map.mpr ⟨page - 1, List.mem_range.mpr (by omega), rfl⟩

theorem hugeLink_le {page : Nat} (bounded : page ≤ length) :
    hugeLink level start page ≤ hugeLink level start length := by
  unfold hugeLink
  rw [Nat.shiftLeft_eq, Nat.shiftLeft_eq]
  have pages : page * 2 ^ pageTableIndexShift level ≤ length * 2 ^ pageTableIndexShift level :=
    Nat.mul_le_mul_right _ bounded
  omega

/-- The links before `written` have been written, and the page shows their pointers. -/
def LinkWords (level start written : Nat) (words : Nat -> Option (BitVec 64)) : Prop :=
  LinksWritten level start written (shown words) ∧
    ∀ page, 1 ≤ page -> page < written -> (words (physicalOffset level (hugeLink level start page))).isSome

theorem isSome_update {words : Nat -> Option (BitVec 64)} {offset other : Nat} (value : BitVec 64)
    (known : other = offset ∨ (words other).isSome) :
    (Function.update words offset (some value) other).isSome := by
  by_cases same : other = offset
  · rw [same, Function.update_self, Option.isSome_some]
  · rw [Function.update_of_ne same]
    exact known.resolve_left same

/-- The builder on the words of the shared page.  This is the chain of `HugePages`
once more, with words of 64 bits that may not have been written yet. -/
theorem returns_buildHugeChain_words {words : Nat -> Option (BitVec 64)}
    (aligned : physicalOffset level start = 0) (fits : 16 * length < 2 ^ pageTableIndexShift level)
    (linksFit : hugeLink level start length < 2 ^ 64) (stopFits : stop < 2 ^ 64) :
    Returns (wordPage level (hugeSlots length)) (buildHugeChain start stop length level) words fun _ final =>
      LinkWords level start length final ∧
        (final (physicalOffset level (hugeLink level start length))).isSome ∧
        throughRegion level (shown final) (hugeLink level start length) = stop := by
  unfold buildHugeChain
  rw [returns_bind]
  apply (returns_forRange (fun index value final =>
    value = (16 * index, hugeLink level start index) ∧ LinkWords level start index final)
    0 length (0, start) words ?_ ?_).mono
  · rintro _ middle ⟨rfl, links, known⟩
    rw [Nat.zero_add] at links known ⊢
    refine (returns_writeData_words (hugeLink_mem aligned fits (Nat.le_refl length))).mpr ⟨⟨?_, ?_⟩, ?_, ?_⟩
    · rw [shown_update _ stopFits]
      exact links.write stop fits (Nat.le_refl length)
    · exact fun page positive before => isSome_update _ (.inr (known page positive before))
    · exact isSome_update _ (.inl rfl)
    · rw [shown_update _ stopFits]
      exact Function.update_self _ _ _
  · exact ⟨by rw [hugeLink_zero, Nat.mul_zero],
      fun _ _ impossible => absurd impossible (Nat.not_lt_zero _),
      fun _ _ impossible => absurd impossible (Nat.not_lt_zero _)⟩
  · rintro index _ state - bounded ⟨rfl, links, known⟩
    rw [Nat.zero_add] at bounded
    have next : start + ((index + 1) <<< pageTableIndexShift level) + 16 * index =
        hugeLink level start (index + 1) := rfl
    have linkFits : hugeLink level start (index + 1) < 2 ^ 64 := Nat.lt_of_le_of_lt (hugeLink_le bounded) linksFit
    dsimp only
    rw [next, returns_bind]
    refine (returns_writeData_words (hugeLink_mem aligned fits (Nat.le_of_lt bounded))).mpr
      ((returns_ret _).mpr ⟨_, rfl, by rw [Nat.mul_add], ?_, ?_⟩)
    · rw [shown_update _ linkFits]
      exact links.extend fits (Nat.le_of_lt bounded)
    · intro page positive before
      rcases Nat.lt_succ_iff_lt_or_eq.mp before with earlier | rfl
      · exact isSome_update _ (.inr (known page positive earlier))
      · exact isSome_update _ (.inl rfl)

/-- The chain that the builder leaves, and that all of it has been written. The
start shares its slot with the first link, so a chain of one link or more has
written it too. -/
theorem returns_buildHugeChain_readable {words : Nat -> Option (BitVec 64)}
    (aligned : physicalOffset level start = 0) (fits : 16 * length < 2 ^ pageTableIndexShift level)
    (linksFit : hugeLink level start length < 2 ^ 64) (stopFits : stop < 2 ^ 64) (positive : 1 ≤ length) :
    Returns (wordPage level (hugeSlots length)) (buildHugeChain start stop length level) words fun _ final =>
      Path (throughRegion level (shown final)) start
        (start :: (List.range' 2 (length - 1)).map (hugeLink level start)) stop ∧
      ∀ node, node ∈ start :: (List.range' 2 (length - 1)).map (hugeLink level start) ->
        (final (physicalOffset level node)).isSome := by
  apply (returns_buildHugeChain_words aligned fits linksFit stopFits).mono
  rintro _ final ⟨⟨links, known⟩, last, closed⟩
  have written : ∀ page, 1 ≤ page -> page ≤ length ->
      (final (physicalOffset level (hugeLink level start page))).isSome := by
    intro page lower upper
    rcases Nat.lt_or_eq_of_le upper with before | rfl
    · exact known page lower before
    · exact last
  refine ⟨path_from_start positive links closed, fun node member => ?_⟩
  rcases hugeLink_of_mem positive member with ⟨page, small, rfl⟩
  rcases Nat.eq_zero_or_pos page with rfl | later
  · rw [hugeLink_zero, ← physicalOffset_first]
    exact written 1 (Nat.le_refl 1) positive
  · exact written page later small

/-- Over the bytes of a page, the chain through a huge region leads from its start
to its end in either view, and following it in one view changes nothing for the
other.  The two views are any combination of reads and fetches.  The start is at the
beginning of a huge page, as it always is in the source, and all addresses are
64-bit words. -/
theorem buildHugeChain_views (memory : ByteMemory) (first second : MemoryAccess) {bound : Nat}
    (aligned : physicalOffset level start = 0) (fits : 16 * length < 2 ^ pageTableIndexShift level)
    (linksFit : hugeLink level start length < 2 ^ 64) (stopFits : stop < 2 ^ 64) (positive : 1 ≤ length)
    (free : stop ∉ start :: (List.range' 2 (length - 1)).map (hugeLink level start)) (enough : length ≤ bound) :
    Returns (bytePage level register) (do
        buildHugeChain start stop length level
        let data ← followChain first bound start stop
        let code ← followChain second bound start stop
        return (data, code)) memory fun ends _ => ends = (stop, stop) := by
  have short : (start :: (List.range' 2 (length - 1)).map (hugeLink level start)).length ≤ bound := by
    rw [List.length_cons, List.length_map, List.length_range']
    omega
  apply Returns.mono (shows_nothing.returns (spaced_hugeSlots length)
    (?onWords : Returns _ _ _ fun ends _ => ends = (stop, stop)))
  · rintro ends _ ⟨_, _, same⟩
    exact same
  rw [returns_bind]
  refine (returns_buildHugeChain_readable aligned fits linksFit stopFits positive).mono ?_
  rintro _ final ⟨path, written⟩
  rw [returns_bind]
  refine (returns_followChain_words first path written free short).mono ?_
  rintro _ _ ⟨rfl, rfl⟩
  rw [returns_bind]
  refine (returns_followChain_words second path written free short).mono ?_
  rintro _ _ ⟨rfl, rfl⟩
  exact (returns_ret _).mpr rfl

/-- Eight links in huge pages, as in the experiment on unified caches. -/
theorem buildHugeChain_views_eightLinks :
    Returns (bytePage 2 0) (do
        buildHugeChain huge2MBBaseAddress baseAddress 8 2
        let data ← followChain .readData 8 huge2MBBaseAddress baseAddress
        let code ← followChain .fetchInstruction 8 huge2MBBaseAddress baseAddress
        return (data, code)) (fun _ => 0) fun ends _ => ends = (baseAddress, baseAddress) :=
  buildHugeChain_views (fun _ => 0) .readData .fetchInstruction (by decide) (by decide) (by decide) (by decide)
    (by decide) (by decide) (by decide)

end Links
end Slots

end Talbot
