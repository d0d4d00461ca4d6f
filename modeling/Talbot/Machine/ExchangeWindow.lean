import Talbot.CacheQuery.Query
import Talbot.Foundations.Monitors
import Talbot.Kernel.Module

namespace Talbot

/-!
Between the two calls of `switch_page_table_entries`.

Every experiment exchanges two page table entries, looks at memory through them
and exchanges them back.  The monitor below follows this from the operations
alone, whatever the memory, the random numbers and the page tables respond.
While the entries are exchanged only reads, fetches and writes to CR3 are
permitted, and the call that ends the exchange has to name the same two entries;
after it nothing else than a write to CR3 may precede the flush.
-/

open Foundations Program Monitor

/-- Where a function stands between its two calls of `switch_page_table_entries`.
The state is determined by the operations so far, so a monitor can carry it through
all runs. -/
inductive Window where
  | settled
  | exchanged (first second : Option EntryLocation)
  /-- Exchanged back, and not flushed yet. -/
  | unflushed
  deriving DecidableEq

namespace Window

@[simp] def next : Window -> KernelOp -> Window
  | settled, .switchPageTableEntries first second => exchanged first second
  | settled, _ => settled
  | exchanged _ _, .switchPageTableEntries _ _ => unflushed
  | exchanged first second, _ => exchanged first second
  | unflushed, .switchPageTableEntries first second => exchanged first second
  | unflushed, .flushMmuCaches => settled
  | unflushed, _ => unflushed

/-- What may be done in each state; `flushes` asks for a flush after every exchange.
While entries are exchanged only accesses and writes to CR3 are permitted, and the
exchange of the same entries back; before the flush nothing but a write to CR3. -/
@[simp] def Permits (flushes : Bool) : Window -> KernelOp -> Prop
  | settled, _ => True
  | exchanged first second, .switchPageTableEntries first' second' => first' = first ∧ second' = second
  | exchanged _ _, .readData _ => True
  | exchanged _ _, .fetchInstruction _ => True
  | exchanged _ _, .setCr3 _ => True
  | exchanged _ _, _ => False
  | unflushed, .flushMmuCaches => True
  | unflushed, .setCr3 _ => True
  | unflushed, _ => flushes = false

end Window

abbrev windowMonitor (flushes : Bool) : Monitor kernelInterface where
  State := Window
  next := Window.next
  permits := Window.Permits flushes

variable {flushes : Bool} {configuration : Configuration} {bound level : Nat}

/-- The operation is permitted and does not end the window. -/
def Keeps (flushes : Bool) (window : Window) (op : KernelOp) : Prop :=
  window.Permits flushes op ∧ window.next op = window

/-- A part of a function that stays in its window. -/
theorem obeys_then {α β : Type} {window : Window} {program : Kernel α} {continuation : α -> Kernel β}
    {post : β -> Window -> Prop} (keeps : Always (Keeps flushes window) program fun _ => True)
    (rest : ∀ value, (windowMonitor flushes).Obeys (continuation value) window post) :
    (windowMonitor flushes).Obeys (program >>= continuation) window post := by
  have obeys : (windowMonitor flushes).Obeys program window fun _ final => True ∧ final = window :=
    obeys_of_always keeps
  apply obeys_seq.mpr
  apply obeys.mono
  rintro value final ⟨_, rfl⟩
  exact rest value

/-- The first exchange of a measurement. -/
theorem obeys_exchange {α : Type} {walks : PageTableWalk × PageTableWalk} {continuation : Unit -> Kernel α}
    {post : α -> Window -> Prop}
    (rest : (windowMonitor flushes).Obeys (continuation ())
      (.exchanged (walks.1.pageTableEntries level) (walks.2.pageTableEntries level)) post) :
    (windowMonitor flushes).Obeys (switchLevel level walks >>= continuation) .settled post :=
  obeys_seq.mpr (obeys_op.mpr ⟨trivial, fun _ => rest⟩)

/-- The second one, of the same entries. -/
theorem obeys_exchangeBack {α : Type} {walks : PageTableWalk × PageTableWalk} {continuation : Unit -> Kernel α}
    {post : α -> Window -> Prop} (rest : (windowMonitor flushes).Obeys (continuation ()) .unflushed post) :
    (windowMonitor flushes).Obeys (switchLevel level walks >>= continuation)
      (.exchanged (walks.1.pageTableEntries level) (walks.2.pageTableEntries level)) post :=
  obeys_seq.mpr (obeys_op.mpr ⟨⟨rfl, rfl⟩, fun _ => rest⟩)

/-- The flush after it. -/
theorem obeys_flush {α : Type} {continuation : Unit -> Kernel α} {post : α -> Window -> Prop}
    (rest : (windowMonitor flushes).Obeys (continuation ()) .settled post) :
    (windowMonitor flushes).Obeys (flushMmuCaches >>= continuation) .unflushed post :=
  obeys_seq.mpr (obeys_op.mpr ⟨trivial, fun _ => rest⟩)

theorem always_call {α : Type} {guard : KernelOp -> Prop} {op : KernelOp}
    {next : KernelOp.Response op -> Kernel α} {post : α -> Prop} :
    Always guard (.call op next : Kernel α) post ↔ guard op ∧ ∀ response, Always guard (next response) post :=
  Iff.rfl

@[local simp] theorem keeps_ite {α : Type} {window : Window} {condition : Prop} [Decidable condition]
    {first second : Kernel α} : Always (Keeps flushes window) (if condition then first else second) (fun _ => True) ↔
      (condition -> Always (Keeps flushes window) first fun _ => True) ∧
        (¬ condition -> Always (Keeps flushes window) second fun _ => True) := by
  by_cases holds : condition <;> simp [holds]

attribute [local simp] always_bind always_call always_loop always_while Keeps drawAddress walkPair readData fetchInstruction
  writeData walkPageTable clearNx flushMmuCaches getCr3 setCr3 getRandomLong kmalloc callHash enter followChain

@[local simp] theorem keeps_access {window : Window} (reads : window ≠ .unflushed) {access : MemoryAccess}
    {address : Nat} : Always (Keeps flushes window) (access.access address) fun _ => True := by
  cases access <;> cases window <;> simp [MemoryAccess.access] at reads ⊢

/-- Loops that end every iteration in one of the windows they may begin it in. -/
theorem obeys_loop {α : Type} {body : Nat -> α -> Kernel (Iteration α)} {start count : Nat} {value : α}
    (between : Window -> Prop) {window : Window} (initially : between window)
    (step : ∀ index value window, between window ->
      (windowMonitor flushes).Obeys (body index value) window fun _ final => between final) :
    (windowMonitor flushes).Obeys (forRange body start count value) window fun _ final => between final := by
  apply ensures_forRange_break (fun _ _ window => between window) start count value window initially
  · intro index value window _ _ holds
    apply (step index value window holds).mono
    intro iteration final kept
    cases iteration <;> exact kept
  · exact fun _ _ kept => kept

theorem obeys_iterations {α : Type} {body : Nat -> α -> Kernel (Iteration α)} {start count : Nat} {value : α}
    (step : ∀ index value, (windowMonitor flushes).Obeys (body index value) .settled fun _ final => final = .settled) :
    (windowMonitor flushes).Obeys (forRange body start count value) .settled fun _ final => final = .settled := by
  apply obeys_loop (fun window => window = .settled) rfl
  rintro index value window rfl
  exact step index value

/-- A function that ends settled, and the rest. -/
theorem obeys_settled {α β : Type} {program : Kernel α} {continuation : α -> Kernel β} {post : β -> Window -> Prop}
    (obeys : (windowMonitor flushes).Obeys program .settled fun _ final => final = .settled)
    (rest : ∀ value, (windowMonitor flushes).Obeys (continuation value) .settled post) :
    (windowMonitor flushes).Obeys (program >>= continuation) .settled post := by
  apply obeys_seq.mpr
  apply obeys.mono
  rintro value final rfl
  exact rest value

/-- A function that never exchanges anything. -/
theorem obeys_quiet {α : Type} {program : Kernel α} (keeps : Always (Keeps flushes .settled) program fun _ => True) :
    (windowMonitor flushes).Obeys program .settled fun _ final => final = .settled :=
  have obeys : (windowMonitor flushes).Obeys program .settled fun _ final => True ∧ final = .settled :=
    obeys_of_always keeps
  obeys.mono fun _ _ kept => kept.2

/-! ## The chain builders -/

@[local simp] theorem keeps_buildPointerChain {startAddress endAddress length : Nat} :
    Always (Keeps flushes .settled) (buildPointerChain configuration startAddress endAddress length level)
      fun _ => True := by
  simp [buildPointerChain, extendChain]

@[local simp] theorem keeps_buildHugeChain {startAddress endAddress length : Nat} :
    Always (Keeps flushes .settled) (buildHugeChain startAddress endAddress length level) fun _ => True := by
  simp [buildHugeChain]

@[local simp] theorem keeps_buildPointerChainFromHash {startAddress endAddress length setBits : Nat}
    {hashFunction : HashPointer} :
    Always (Keeps flushes .settled) (buildPointerChainFromHash configuration startAddress endAddress length hashFunction
      setBits level) fun _ => True := by
  simp [buildPointerChainFromHash, extendChain]

@[local simp] theorem keeps_buildPointerChainFromHashSingle {startAddress endAddress length setBits : Nat}
    {hashFunction : HashPointer} :
    Always (Keeps flushes .settled) (buildPointerChainFromHashSingle configuration startAddress endAddress length
      hashFunction setBits level) fun _ => True := by
  simp [buildPointerChainFromHashSingle, extendChain]

/-! ## The experiments -/

/-- The end of an iteration: exchange back, flush, and count. -/
theorem obeys_finish {walks : PageTableWalk × PageTableWalk} {iteration : Iteration Nat} :
    (windowMonitor flushes).Obeys (do
      switchLevel level walks
      flushMmuCaches
      return iteration) (.exchanged (walks.1.pageTableEntries level) (walks.2.pageTableEntries level))
      fun _ final => final = .settled :=
  obeys_exchangeBack (obeys_flush rfl)

theorem obeys_testCacheExistence :
    (windowMonitor flushes).Obeys (testCacheExistence configuration level) .settled fun _ final => final = .settled := by
  apply obeys_iterations
  intro index misses
  refine obeys_then (by simp) fun target => ?_
  refine obeys_then (by simp) fun walks => ?_
  refine obeys_then (by simp) fun _ => ?_
  refine obeys_then (by simp) fun _ => ?_
  refine obeys_then (by simp) fun p => ?_
  refine obeys_exchange (obeys_then (by simp) fun value => ?_)
  exact obeys_finish

theorem obeys_testSplitLayer (accessTarget accessChain : MemoryAccess) :
    (windowMonitor flushes).Obeys (testSplitLayer configuration bound level accessTarget accessChain) .settled
      fun _ final => final = .settled := by
  apply obeys_iterations
  intro index misses
  refine obeys_then (by simp) fun target => ?_
  refine obeys_then (by simp) fun walks => ?_
  refine obeys_then (by simp) fun _ => ?_
  refine obeys_then (by simp) fun _ => ?_
  refine obeys_then (by simp) fun _ => ?_
  refine obeys_then (by simp) fun p => ?_
  refine obeys_exchange (obeys_then (by simp) fun p => obeys_then (by simp) fun value => ?_)
  exact obeys_finish

theorem obeys_testSharedLayer :
    (windowMonitor flushes).Obeys (testSharedLayer configuration level) .settled fun _ final => final = .settled := by
  apply obeys_iterations
  intro index misses
  refine obeys_then (by simp) fun target => ?_
  refine obeys_then (by simp) fun walks => ?_
  refine obeys_then (by simp) fun _ => ?_
  refine obeys_then (by simp) fun _ => ?_
  refine obeys_then (by simp) fun p => ?_
  refine obeys_exchange (obeys_then (by simp) fun value => ?_)
  exact obeys_finish

/-- A probe stays within the exchange window: both of its branches exchange the
entries back before they leave. -/
theorem obeys_probeMember {ways setBits startAddress j misses : Nat} {hashFunction : HashPointer} :
    (windowMonitor flushes).Obeys (probeMember configuration bound ways setBits hashFunction level startAddress j misses)
      .settled fun _ final => final = .settled := by
  refine obeys_then (by simp) fun target => ?_
  by_cases above : windowEnd configuration level ≤ target
  · rw [if_pos above]
    rfl
  · rw [if_neg above]
    refine obeys_then (by simp) fun walks => ?_
    refine obeys_then (by simp) fun _ => ?_
    refine obeys_then (by simp) fun _ => ?_
    refine obeys_then (by simp) fun p => ?_
    refine obeys_then (by simp) fun p => ?_
    refine obeys_exchange (obeys_then (by simp) fun value => ?_)
    by_cases missed : value = signal
    · rw [if_pos missed]
      exact obeys_finish
    · rw [if_neg missed]
      exact obeys_finish

theorem obeys_testHashFunction {ways setBits : Nat} {hashFunction : HashPointer} :
    (windowMonitor flushes).Obeys (testHashFunction configuration bound ways setBits hashFunction level) .settled
      fun _ final => final = .settled := by
  apply obeys_iterations
  intro index misses
  refine obeys_then (by simp) fun start => ?_
  exact obeys_settled (obeys_iterations fun j misses => obeys_probeMember) fun _ => rfl

theorem obeys_nestingIteration {inclusive : TranslationCache} {misses : Nat} :
    (windowMonitor flushes).Obeys (nestingIteration configuration bound level inclusive misses) .settled
      fun _ final => final = .settled := by
  refine obeys_then (by simp) fun target => ?_
  refine obeys_then (by simp) fun walks => ?_
  refine obeys_then (by simp) fun _ => ?_
  refine obeys_then (by simp) fun first => ?_
  refine obeys_then (by simp) fun _ => ?_
  refine obeys_then (by simp) fun _ => ?_
  refine obeys_then (by simp) fun p => ?_
  refine obeys_exchange (obeys_then (by simp) fun p => obeys_then (by simp) fun value => ?_)
  exact obeys_exchangeBack (obeys_flush rfl)

theorem obeys_testNesting {translationCaches : Nat -> TranslationCache} :
    (windowMonitor flushes).Obeys (testNesting configuration bound level translationCaches) .settled
      fun _ final => final = .settled := by
  unfold testNesting
  by_cases tooHigh : 3 < level
  · rw [if_pos tooHigh]
    rfl
  · rw [if_neg tooHigh]
    by_cases unset : (translationCaches (level + 1)).hashFunction = .null
    · rw [if_pos unset]
      rfl
    · rw [if_neg unset]
      refine obeys_then (by simp) fun _ => ?_
      refine obeys_settled (obeys_iterations fun _ misses => ?_) fun _ => rfl
      exact obeys_settled obeys_nestingIteration fun _ => rfl

theorem obeys_testHugeTlb :
    (windowMonitor flushes).Obeys (testHugeTlb configuration bound level) .settled fun _ final => final = .settled := by
  unfold testHugeTlb
  by_cases undefined : level ≠ 2 ∧ level ≠ 3
  · rw [if_pos undefined]
    rfl
  · rw [if_neg undefined]
    refine obeys_settled (obeys_iterations fun _ misses => ?_) fun _ => obeys_then (by simp) fun _ => rfl
    refine obeys_then (by simp) fun target => ?_
    refine obeys_then (by simp) fun walks => ?_
    refine obeys_then (by simp) fun _ => ?_
    refine obeys_then (by simp) fun _ => ?_
    refine obeys_then (by simp) fun _ => ?_
    refine obeys_then (by simp) fun p => ?_
    refine obeys_exchange (obeys_then (by simp) fun p => obeys_then (by simp) fun value => ?_)
    exact obeys_finish

theorem obeys_testHugePageEviction :
    (windowMonitor flushes).Obeys (testHugePageEviction bound level) .settled fun _ final => final = .settled := by
  apply obeys_iterations
  intro index misses
  refine obeys_then (by simp) fun walks => ?_
  refine obeys_then (by simp) fun _ => ?_
  refine obeys_then (by simp) fun _ => ?_
  refine obeys_then (by simp) fun p => ?_
  refine obeys_exchange (obeys_then (by simp) fun p => obeys_then (by simp) fun value => ?_)
  exact obeys_finish

theorem obeys_testSupportedPcids {amountPcids : Nat} {noflush : Bool} :
    (windowMonitor flushes).Obeys (testSupportedPcids configuration level amountPcids noflush) .settled
      fun _ final => final = .settled := by
  refine obeys_then (by simp) fun cr3 => ?_
  apply obeys_iterations
  intro index misses
  refine obeys_then (by simp) fun target => ?_
  refine obeys_then (by simp) fun walks => ?_
  refine obeys_then (by simp) fun _ => ?_
  refine obeys_then (by simp) fun _ => ?_
  refine obeys_then (by simp) fun _ => ?_
  refine obeys_then (by simp) fun p => ?_
  refine obeys_exchange (obeys_then (by simp) fun _ => obeys_then (by simp) fun _ => obeys_then (by simp) fun value => ?_)
  exact obeys_exchangeBack (obeys_then (by simp) fun _ => obeys_flush rfl)

theorem obeys_testPcidRespect :
    (windowMonitor flushes).Obeys (testPcidRespect configuration bound level) .settled fun _ final => final = .settled := by
  refine obeys_then (by simp) fun cr3 => ?_
  apply obeys_iterations
  intro index misses
  refine obeys_then (by simp) fun target => ?_
  refine obeys_then (by simp [drawPcid]) fun pcid => ?_
  refine obeys_then (by simp) fun walks => ?_
  refine obeys_then (by simp) fun _ => ?_
  refine obeys_then (by simp) fun _ => ?_
  refine obeys_then (by simp) fun _ => ?_
  refine obeys_then (by simp) fun p => ?_
  refine obeys_exchange (obeys_then (by simp) fun _ => obeys_then (by simp) fun value => ?_)
  exact obeys_exchangeBack (obeys_then (by simp) fun _ => obeys_flush rfl)

/-! ## The searches -/

theorem obeys_chainEvicts {targetAddress prefixAlignedAddress : Nat} {access : MemoryAccess} :
    (windowMonitor flushes).Obeys (chainEvicts bound targetAddress prefixAlignedAddress level access) .settled
      fun _ final => final = .settled := by
  refine obeys_then (by simp) fun complementaryWalk => ?_
  refine obeys_then (by simp) fun _ => ?_
  refine obeys_settled (obeys_iterations fun index misses => ?_) fun _ => rfl
  refine obeys_settled ?_ fun _ => rfl
  refine obeys_then (by simp) fun targetWalk => ?_
  refine obeys_then (by simp) fun _ => ?_
  refine obeys_then (by simp) fun _ => ?_
  refine obeys_then (by simp) fun p => ?_
  refine obeys_exchange (obeys_then (by simp) fun p => obeys_then (by simp) fun value => ?_)
  exact obeys_exchangeBack (obeys_flush rfl)

theorem obeys_compareLinks {targetAddress setBits length : Nat} {access : MemoryAccess} {hash : HashPointer} :
    (windowMonitor flushes).Obeys (compareLinks (fun target prefixAlignedAddress level =>
      chainEvicts bound target prefixAlignedAddress level access) targetAddress level hash setBits length) .settled
      fun _ final => final = .settled := by
  apply obeys_iterations
  intro i state
  cases state with
  | none => rfl
  | some state =>
      refine obeys_then (by simp) fun _ => ?_
      refine obeys_settled obeys_chainEvicts fun evicts => ?_
      cases evicts with
      | false => exact obeys_quiet (by simp)
      | true => rfl

theorem obeys_evictionSetAligns {targetAddress setBits ways : Nat} {access : MemoryAccess} {hash : HashPointer} :
    (windowMonitor flushes).Obeys (evictionSetAlignsWithHashFunction configuration bound targetAddress level access hash
      setBits ways) .settled fun _ final => final = .settled := by
  refine obeys_then (by simp) fun _ => ?_
  refine obeys_then (by simp) fun _ => ?_
  refine obeys_settled obeys_chainEvicts fun evicts => ?_
  cases evicts with
  | false => rfl
  | true =>
      refine obeys_settled obeys_compareLinks fun found => ?_
      cases found <;> rfl

/-! ## The replacement policy -/

/-- Nothing is exchanged, whether or not the caches are flushed. -/
def Window.Closed (window : Window) : Prop :=
  window = .settled ∨ window = .unflushed

/-- A flush settles what is closed. -/
theorem obeys_flushClosed {α : Type} {window : Window} {continuation : Unit -> Kernel α} {post : α -> Window -> Prop}
    (closed : window.Closed) (rest : (windowMonitor flushes).Obeys (continuation ()) .settled post) :
    (windowMonitor flushes).Obeys (flushMmuCaches >>= continuation) window post := by
  rcases closed with rfl | rfl
  · exact obeys_then (by simp) fun _ => rest
  · exact obeys_flush rest

/-- Its iterations leave the flush to the next one. -/
theorem obeys_probeAfterFillers {cache : TranslationCache} {setStart lastAddress prefixAlignedAddress misses : Nat}
    {walks : PageTableWalk × PageTableWalk} {window : Window} (closed : window.Closed) :
    (windowMonitor flushes).Obeys (probeAfterFillers configuration bound cache level setStart lastAddress
      prefixAlignedAddress walks misses) window fun _ final => final.Closed := by
  apply obeys_flushClosed closed
  refine obeys_then (by simp [warmUp]) fun _ => ?_
  refine obeys_then (by simp) fun p => ?_
  refine obeys_then (by simp) fun p => ?_
  refine obeys_exchange (obeys_then (by simp) fun p => obeys_then (by simp) fun value => ?_)
  exact obeys_exchangeBack (Or.inr rfl)

theorem obeys_probeReplacement {cache : TranslationCache}
    {setStart lastAddress nextAddress targetAddress position : Nat} :
    (windowMonitor flushes).Obeys (probeReplacement configuration bound cache level setStart lastAddress nextAddress
      targetAddress position) .settled fun _ final => final = .settled := by
  refine obeys_then (by simp) fun walks => ?_
  refine obeys_then (by simp) fun _ => ?_
  apply obeys_seq.mpr
  apply Ensures.mono (obeys_loop Window.Closed (Or.inl rfl) fun index misses window closed => ?_)
  · intro misses window closed
    exact obeys_flushClosed closed rfl
  · apply obeys_seq.mpr
    exact (obeys_probeAfterFillers closed).mono fun _ _ kept => kept

theorem obeys_resolvePosition {cache : TranslationCache} {setStart lastAddress nextAddress position : Nat}
    {addressSet : Nat -> Nat} {arrays : (Nat -> Nat) × (Nat -> Nat)} :
    (windowMonitor flushes).Obeys (resolvePosition configuration bound cache level setStart lastAddress nextAddress
      addressSet position arrays) .settled fun _ final => final = .settled := by
  refine obeys_settled (obeys_iterations fun target misses => ?_) fun _ => rfl
  by_cases placed : alreadyPlaced cache.ways arrays.1 (addressSet target) = true
  · rw [if_pos placed]
    rfl
  · rw [if_neg placed]
    exact obeys_settled obeys_probeReplacement fun _ => rfl

theorem obeys_determineReplacementOrder {translationCaches : Nat -> TranslationCache} {setStart : Nat} :
    (windowMonitor flushes).Obeys (determineReplacementOrder configuration bound translationCaches setStart level)
      .settled fun _ final => final = .settled := by
  refine obeys_then (by simp) fun _ => ?_
  refine obeys_then (by simp) fun _ => ?_
  refine obeys_then (by simp) fun _ => ?_
  refine obeys_then (by simp) fun _ => ?_
  refine obeys_then (by simp [lastLink]) fun _ => ?_
  refine obeys_then (by simp) fun _ => ?_
  refine obeys_then (by simp) fun _ => ?_
  refine obeys_then (by simp) fun _ => ?_
  refine obeys_settled (obeys_iterations fun index arrays => ?_) fun _ => rfl
  exact obeys_settled obeys_resolvePosition fun _ => rfl

theorem obeys_calculatePermutationVectors {translationCaches : Nat -> TranslationCache} :
    (windowMonitor flushes).Obeys (calculatePermutationVectors configuration bound translationCaches level) .settled
      fun _ final => final = .settled := by
  refine obeys_then (by simp) fun _ => ?_
  refine obeys_then (by simp) fun target => ?_
  refine obeys_then (by simp) fun _ => ?_
  refine obeys_settled obeys_determineReplacementOrder fun initialOrder => ?_
  apply obeys_iterations
  intro i permutationVectors
  by_cases unresolved : initialOrder i = 0x0
  · rw [if_pos unresolved]
    rfl
  · rw [if_neg unresolved]
    refine obeys_then (by simp) fun _ => ?_
    refine obeys_then (by simp) fun _ => ?_
    exact obeys_settled obeys_determineReplacementOrder fun _ => rfl

/-! ## The evaluations -/

theorem obeys_evaluateCacheStructure {leftover : HashPointer × Nat} {translationCaches : Nat -> TranslationCache} :
    (windowMonitor flushes).Obeys (evaluateCacheStructureWith configuration (measureCandidate configuration bound) bound
      leftover translationCaches level) .settled fun _ final => final = .settled := by
  have hashes : ∀ setBits ways (candidates : List HashFunction) (search : SearchState),
      (windowMonitor flushes).Obeys (tryHashes (measureCandidate configuration bound) level setBits ways candidates
        search) .settled fun _ final => final = .settled := by
    intro setBits ways candidates search
    induction candidates with
    | nil => rfl
    | cons hash rest inductionHypothesis =>
        refine obeys_settled obeys_testHashFunction fun misses => ?_
        by_cases accepted : search.accepts ways setBits misses = true
        · rw [if_pos accepted]
          rfl
        · rw [if_neg accepted]
          exact inductionHypothesis
  refine obeys_settled (obeys_iterations fun setBits search => ?_) fun search => ?_
  · refine obeys_settled (obeys_iterations fun ways search => ?_) fun _ => rfl
    by_cases enough : search.minimumWays < ways
    · rw [if_pos enough]
      rfl
    · rw [if_neg enough]
      exact obeys_settled (hashes _ _ _ _) fun _ => rfl
  · refine obeys_settled (obeys_iterations fun _ aligning => ?_) fun _ => rfl
    refine obeys_then (by simp) fun target => ?_
    exact obeys_settled obeys_evictionSetAligns fun _ => rfl

theorem obeys_evaluatePcidAmount {noflush : Nat} :
    (windowMonitor flushes).Obeys (evaluatePcidAmount configuration level noflush) .settled
      fun _ final => final = .settled := by
  refine obeys_settled (obeys_iterations fun amountPcids _ => ?_) fun _ => rfl
  refine obeys_settled obeys_testSupportedPcids fun misses => ?_
  by_cases reached : reachesThreshold misses iterations = true
  · rw [if_pos reached]
    rfl
  · rw [if_neg reached]
    rfl

theorem obeys_forLevels {count : Nat} {evaluate : Nat -> Kernel (List ReportLine)} {output : List ReportLine}
    (each : ∀ level, (windowMonitor flushes).Obeys (evaluate level) .settled fun _ final => final = .settled) :
    (windowMonitor flushes).Obeys (forLevels count evaluate output) .settled fun _ final => final = .settled :=
  obeys_iterations fun level _ => obeys_settled (each level) fun _ => rfl

theorem obeys_deviceRead {leftover : Nat -> HashPointer × Nat} :
    (windowMonitor flushes).Obeys (deviceRead configuration bound leftover) .settled fun _ final => final = .settled := by
  refine obeys_settled (obeys_forLevels fun level => ?_) fun output => ?_
  · exact obeys_settled obeys_testCacheExistence fun _ => rfl
  refine obeys_settled (obeys_forLevels fun level => ?_) fun output => ?_
  · refine obeys_settled (obeys_testSplitLayer _ _) fun _ => obeys_settled (obeys_testSplitLayer _ _) fun _ => ?_
    exact obeys_settled obeys_testSharedLayer fun _ => rfl
  refine obeys_settled (obeys_iterations fun level state => ?_) fun state => ?_
  · exact obeys_settled obeys_evaluateCacheStructure fun _ => rfl
  refine obeys_settled (obeys_forLevels fun level => ?_) fun output => ?_
  · exact obeys_settled obeys_calculatePermutationVectors fun _ => rfl
  refine obeys_settled (obeys_forLevels fun level => ?_) fun output => ?_
  · refine obeys_settled obeys_testNesting fun misses => ?_
    cases misses with
    | none => rfl
    | some misses => exact obeys_quiet (by simp)
  refine obeys_settled (obeys_forLevels fun level => ?_) fun output => ?_
  · refine obeys_settled obeys_testHugeTlb fun misses => ?_
    cases misses with
    | none => rfl
    | some misses => exact obeys_quiet (by simp)
  refine obeys_settled (obeys_iterations fun level _ => ?_) fun _ => ?_
  · exact obeys_settled obeys_testHugePageEviction fun _ => rfl
  refine obeys_settled (obeys_forLevels fun level => ?_) fun output => ?_
  · exact obeys_settled obeys_evaluatePcidAmount fun _ => obeys_settled obeys_evaluatePcidAmount fun _ => rfl
  refine obeys_forLevels fun level => ?_
  exact obeys_settled obeys_testPcidRespect fun misses => obeys_quiet (by simp)

/-! ## The query -/

namespace CacheQuery

theorem keeps_mapLetters (query : List Nat) (state : List Nat × AddressMap) :
    Always (Keeps flushes .settled) (mapLetters configuration query state) fun _ => True := by
  induction query generalizing state with
  | nil => trivial
  | cons letter rest inductionHypothesis =>
      rcases state with ⟨uniqueLetters, map⟩
      have next : ∀ uniqueLetters : List Nat, Always (Keeps flushes .settled)
          (getNextAddress configuration letter map uniqueLetters.length) fun _ => True := by
        intro uniqueLetters
        cases map with
        | nil => simp [getNextAddress]
        | cons first others =>
            unfold getNextAddress
            dsimp only
            split <;> simp
      exact always_bind.mpr ((next _).mono fun _ _ => inductionHypothesis _)

theorem keeps_linkEntries {window : Window} (writes : ∀ address data, Keeps flushes window (.writeData address data))
    (entries : AddressMap) (lastChainLink : Nat) :
    Always (Keeps flushes window) (linkEntries lastChainLink entries) fun _ => True := by
  induction entries generalizing lastChainLink with
  | nil => trivial
  | cons entry rest inductionHypothesis => exact ⟨writes _ _, fun _ => inductionHypothesis entry.address⟩

/-- The iterations end before the flush, and so does the measurement. -/
theorem obeys_replayQuery {map : AddressMap} {prefixAlignedAddress misses : Nat}
    {walks : PageTableWalk × PageTableWalk} {window : Window} (closed : window.Closed) :
    (windowMonitor flushes).Obeys (replayQuery configuration bound map prefixAlignedAddress walks misses) window
      fun _ final => final.Closed := by
  apply obeys_flushClosed closed
  refine obeys_then (by simp [warmUp]) fun _ => ?_
  refine obeys_then (by simp) fun p => ?_
  refine obeys_then (by simp) fun p => ?_
  refine obeys_exchange (obeys_then (by simp) fun value => ?_)
  exact obeys_exchangeBack (Or.inr rfl)

theorem obeys_probeLetter {map : AddressMap} {targetAddress : Nat} {window : Window} (closed : window.Closed) :
    (windowMonitor false).Obeys (probeLetter configuration bound map targetAddress) window
      fun _ final => final.Closed := by
  have writes : ∀ address data, Keeps false window (.writeData address data) := by
    rcases closed with rfl | rfl <;> simp
  have walks : ∀ target complementary, Always (Keeps false window) (walkPair target complementary) fun _ => True := by
    rcases closed with rfl | rfl <;> simp
  refine obeys_then (walks _ _) fun walks => ?_
  refine obeys_then (always_bind.mpr ((keeps_linkEntries writes _ _).mono fun _ _ => ?_)) fun _ => ?_
  · exact ⟨writes _ _, fun _ => trivial⟩
  · apply obeys_loop Window.Closed closed
    intro index misses window closed
    apply obeys_seq.mpr
    exact (obeys_replayQuery closed).mono fun _ _ kept => kept

theorem obeys_queryCache {finalState : Nat -> Nat} {query : List Nat} :
    (windowMonitor false).Obeys (queryCache configuration bound finalState query) .settled
      fun _ final => final.Closed := by
  refine obeys_then (keeps_mapLetters query _) fun ⟨uniqueLetters, map⟩ => ?_
  have probes : ∀ (letters : List Nat) (state : (Nat -> Nat) × Nat × Nat) (window : Window), window.Closed ->
      (windowMonitor false).Obeys (probeLetters configuration bound map letters state) window
        fun _ final => final.Closed := by
    intro letters
    induction letters with
    | nil => exact fun _ _ closed => closed
    | cons letter rest inductionHypothesis =>
        intro state window closed
        apply obeys_seq.mpr
        apply (obeys_probeLetter closed).mono
        intro misses between closed
        by_cases missed : reachesThreshold misses iterations = true
        · rw [if_pos missed]
          exact inductionHypothesis _ _ closed
        · rw [if_neg missed]
          exact inductionHypothesis _ _ closed
  apply obeys_seq.mpr
  exact (probes uniqueLetters _ _ (Or.inl rfl)).mono fun _ _ closed => closed

end CacheQuery

end Talbot
