import EchelonSbi.Foundation.Gaps
import EchelonSbi.Memalloc.Safety

/-!
# Completeness of the section allocator

The gaps of a heap are those that its live sections leave in the block; no gap
is stored anywhere.  `kmalloc` refuses a request only where the section does
not fit into any gap, and otherwise places it in the lowest gap that it fits.
So the answers of a run depend on the live allocations alone.
-/

namespace EchelonSbi
namespace Memalloc

open Foundation Region

/-- The size of a section: the request rounded up to words, and the header. -/
def sectionSize (xlen : Xlen) (request : Nat) : Nat :=
  (request + (xlen.bytes - 1)) / xlen.bytes * xlen.bytes + headerSize xlen

/-- The addresses of a section. -/
def AllocSection.region (sect : AllocSection) : Region :=
  ⟨sect.address, sect.size⟩

/-- The section of an allocation. -/
def Allocation.sectionRegion (xlen : Xlen) (allocation : Allocation) :
    Region :=
  ⟨allocation.ptr - headerSize xlen, sectionSize xlen allocation.request⟩

/-- The live sections of a heap. -/
def liveSections (xlen : Xlen) (live : List Allocation) : Set Region :=
  {region | ∃ allocation ∈ live, allocation.sectionRegion xlen = region}

/-- The request is 0, or its section does not fit into a register or into any
gap. -/
def Unplaceable
    (xlen : Xlen) (block_start block_end : Nat)
    (live : List Allocation) (request : Nat) : Prop :=
  request = 0 ∨ xlen.size ≤ sectionSize xlen request ∨
    ∀ gap, IsGap (liveSections xlen live) block_start block_end gap →
      gap.length < sectionSize xlen request

/-- The lowest gap into which the section of a request fits starts at
`address`. -/
def PlacedAt
    (xlen : Xlen) (block_start block_end : Nat)
    (live : List Allocation) (request address : Nat) : Prop :=
  LowestGap (liveSections xlen live) block_start block_end
    (sectionSize xlen request) address

section Requests

variable {xlen : Xlen} {request : Nat}

theorem headerSize_lt_sectionSize
    (xlen : Xlen)
    (positive : request ≠ 0) :
    headerSize xlen < sectionSize xlen request := by
  cases xlen <;> simp only [headerSize, sectionSize, Xlen.bytes] <;> omega

theorem roundRequest_eq
    (fits : request < xlen.size) :
    roundRequest xlen request = xlen.wrap
      ((request + (xlen.bytes - 1)) / xlen.bytes * xlen.bytes) := by
  unfold roundRequest
  by_cases aligned : request % xlen.bytes = 0
  · rw [if_neg (by simpa using aligned), eq_comm]
    have rounded : (request + (xlen.bytes - 1)) / xlen.bytes * xlen.bytes =
        request := by
      cases xlen <;> simp only [Xlen.bytes] at aligned ⊢ <;> omega
    rw [rounded]
    exact Xlen.wrap_of_lt fits
  · rw [if_pos (by simpa using aligned)]
    congr 1
    cases xlen <;> simp only [Xlen.bytes] at aligned ⊢ <;> omega

/-- `kmalloc` computes the size of the section, unless it overflows. -/
theorem roundRequest_refuses_iff
    (fits : request < xlen.size) :
    (roundRequest xlen request = 0 ∨
        xlen.wrap (roundRequest xlen request + headerSize xlen) <
          roundRequest xlen request) ↔
      request = 0 ∨ xlen.size ≤ sectionSize xlen request := by
  rw [roundRequest_eq fits]
  cases xlen <;>
    simp only [headerSize, sectionSize, Xlen.wrap, Xlen.size, Xlen.bits,
      Xlen.bytes] at fits ⊢ <;>
    omega

theorem roundRequest_add_header
    (fits : sectionSize xlen request < xlen.size) :
    roundRequest xlen request + headerSize xlen = sectionSize xlen request := by
  have requestLe : request ≤
      (request + (xlen.bytes - 1)) / xlen.bytes * xlen.bytes := by
    cases xlen <;> simp only [Xlen.bytes] <;> omega
  unfold sectionSize at fits ⊢
  rw [roundRequest_eq (by omega), Xlen.wrap_of_lt (by omega)]

end Requests

/-! ## The first fit and the lowest gap -/

section FirstFit

variable {xlen : Xlen} {low high size : Nat} {chain : List AllocSection}

/-- On a chain the search of `kmalloc` goes through the gaps behind its
sections. -/
theorem firstFit_eq_find
    {sect : AllocSection}
    {rest : List AllocSection}
    (ordered : Ordered xlen high low (sect :: rest))
    (positive : 0 < size) :
    (firstFit high size (sect :: rest)).map Prod.fst =
      ((gaps high (sect.address + sect.size)
        (rest.map AllocSection.region)).find?
          fun gap => size ≤ gap.length).map Region.start := by
  induction rest generalizing sect low with
  | nil =>
      have stopHigh := ordered.2
      have above := sect.address_add_size_le_stop xlen
      simp only [ordered_nil] at stopHigh
      simp only [firstFit, List.map_nil, gaps]
      by_cases gap : sect.address + sect.size + size ≤ high
      · rw [if_pos gap, List.find?_cons_of_pos (by simp only [decide_eq_true_eq]; omega)]
        rfl
      · rw [if_neg gap, List.find?_cons_of_neg (by simp only [decide_eq_true_eq]; omega)]
        rfl
  | cons next rest inductionHypothesis =>
      have recurse := inductionHypothesis ordered.2
      have nextAbove := ordered.2.1
      have above := sect.address_add_size_le_stop xlen
      simp only [firstFit, List.map_cons, gaps]
      have start : next.region.start = next.address := rfl
      have stop : next.region.stop = next.address + next.size := rfl
      rw [start, stop]
      by_cases gap : sect.address + sect.size + size ≤ next.address
      · rw [if_pos gap, List.find?_cons_of_pos (by simp only [decide_eq_true_eq]; omega)]
        rfl
      · rw [if_neg gap, List.find?_cons_of_neg (by simp only [decide_eq_true_eq]; omega),
          ← recurse, Option.map_map]
        rfl

/-- The sections in use, as regions. -/
def usedRegions (chain : List AllocSection) : List Region :=
  (chain.filter fun sect => sect.size ≠ 0).map AllocSection.region

theorem usedRegions_of_used
    (used : ∀ sect ∈ chain, sect.size ≠ 0) :
    usedRegions chain = chain.map AllocSection.region := by
  rw [usedRegions, List.filter_eq_self.mpr]
  intro sect present
  simpa using used sect present

theorem usedRegions_nonempty :
    ∀ region ∈ usedRegions chain, 0 < region.length := by
  intro region present
  obtain ⟨sect, inFilter, rfl⟩ := List.mem_map.mp present
  have used := (List.mem_filter.mp inFilter).2
  exact Nat.pos_of_ne_zero (of_decide_eq_true used)

theorem Ordered.stacked
    (ordered : Ordered xlen high low chain) :
    Stacked high low (usedRegions chain) := by
  induction chain generalizing low with
  | nil => exact ordered
  | cons sect rest inductionHypothesis =>
      obtain ⟨lowBound, restOrdered⟩ := ordered
      have above := sect.address_add_size_le_stop xlen
      unfold usedRegions
      by_cases used : sect.size ≠ 0
      · rw [List.filter_cons_of_pos (by simpa using used)]
        exact ⟨lowBound, inductionHypothesis (restOrdered.of_le above)⟩
      · rw [List.filter_cons_of_neg (by simpa using used)]
        exact inductionHypothesis (restOrdered.of_le (by omega))

/-- The search finds the first gap between the used sections that is large
enough. -/
theorem firstFit_eq_find_used
    {first : AllocSection}
    {rest : List AllocSection}
    (ordered : Ordered xlen high first.address (first :: rest))
    (restUsed : ∀ sect ∈ rest, sect.size ≠ 0)
    (positive : 0 < size) :
    (firstFit high size (first :: rest)).map Prod.fst =
      ((gaps high first.address (usedRegions (first :: rest))).find?
        fun gap => size ≤ gap.length).map Region.start := by
  rw [firstFit_eq_find ordered positive]
  by_cases used : first.size = 0
  · have skipped : usedRegions (first :: rest) = rest.map AllocSection.region := by
      rw [← usedRegions_of_used restUsed, usedRegions, usedRegions,
        List.filter_cons_of_neg (by simpa using used)]
    rw [skipped, used, Nat.add_zero]
  · have listed : usedRegions (first :: rest) =
        first.region :: rest.map AllocSection.region := by
      rw [← usedRegions_of_used restUsed, usedRegions, usedRegions,
        List.filter_cons_of_pos (by simpa using used)]
      rfl
    rw [listed, gaps, List.find?_cons_of_neg]
    · rfl
    · simp only [AllocSection.region, Nat.sub_self, decide_eq_true_eq]
      omega

end FirstFit

/-! ## Runs -/

/-- The invariant of a run, with sections that are as large as requested. -/
structure Measured
    (xlen : Xlen) (block_start block_end : Nat)
    (state : HeapState) (chain : List AllocSection) : Prop
    extends HeapInvariant xlen block_start block_end state chain where
  measured : ∀ allocation ∈ state.live, ∃ sect ∈ chain,
    sect.size ≠ 0 ∧ sect.region = allocation.sectionRegion xlen

namespace Measured

variable {xlen : Xlen} {block_start block_end : Nat}
  {state : HeapState} {chain : List AllocSection}

theorem mem_usedRegions_iff
    (measured : Measured xlen block_start block_end state chain)
    (region : Region) :
    region ∈ usedRegions chain ↔ region ∈ liveSections xlen state.live := by
  have ordered := measured.packed.ordered
  simp only [usedRegions, List.mem_map, List.mem_filter, decide_eq_true_eq]
  constructor
  · rintro ⟨sect, ⟨present, used⟩, rfl⟩
    obtain ⟨allocation, live, holds⟩ :=
      measured.accounts.holds sect present used
    obtain ⟨other, otherPresent, -, same⟩ := measured.measured allocation live
    have here : other.address = sect.address := by
      have start := congrArg Region.start same
      simp only [AllocSection.region, Allocation.sectionRegion] at start
      rw [start, holds, AllocSection.payload, Nat.add_sub_cancel]
    rw [← ordered.eq_of_address_eq otherPresent present here, same]
    exact ⟨allocation, live, rfl⟩
  · rintro ⟨allocation, live, rfl⟩
    obtain ⟨sect, present, used, same⟩ := measured.measured allocation live
    exact ⟨sect, ⟨present, used⟩, same⟩

/-- The search of `kmalloc` goes by the live sections alone. -/
theorem find_used
    (measured : Measured xlen block_start block_end state chain)
    {size : Nat}
    (positive : 0 < size) :
    (firstFit block_end size chain).map Prod.fst =
      ((gaps block_end block_start (usedRegions chain)).find?
        fun gap => size ≤ gap.length).map Region.start := by
  have wellFormed := measured.wellFormed
  have ordered := measured.packed.ordered
  cases chain with
  | nil => exact absurd rfl wellFormed.nonempty
  | cons first rest =>
      have start : first.address = block_start := by
        rw [← measured.start_eq]
        exact wellFormed.linked.1.symm
      rw [← start] at ordered ⊢
      exact firstFit_eq_find_used ordered
        (fun sect present => (wellFormed.tailInUse sect present).size_ne_zero)
        positive

/-- What `kmalloc` answers, in terms of the live sections. -/
theorem kmalloc_answers
    (measured : Measured xlen block_start block_end state chain)
    (block : Block xlen block_start block_end)
    {request result : Nat}
    {after : Heap}
    (requestFits : request < xlen.size)
    (call : Kmalloc xlen state.heap request result after) :
    (result = 0 ∧ after = state.heap ∧
        Unplaceable xlen block_start block_end state.live request) ∨
      (headerSize xlen ≤ result ∧
        ¬Unplaceable xlen block_start block_end state.live request ∧
        PlacedAt xlen block_start block_end state.live request
          (result - headerSize xlen)) := by
  have stacked := measured.packed.ordered.stacked
  have sections : {region | region ∈ usedRegions chain} =
      liveSections xlen state.live :=
    Set.ext measured.mem_usedRegions_iff
  have endRead := measured.end_eq
  obtain ⟨taken, -, outcome⟩ :=
    measured.kmalloc_taken block requestFits call
  rcases outcome with ⟨rfl, rfl, -, refused⟩ | ⟨takes, -⟩
  · refine .inl ⟨rfl, rfl, ?_⟩
    by_cases refuses : request = 0 ∨ xlen.size ≤ sectionSize xlen request
    · exact refuses.imp_right .inl
    · have accepted := (roundRequest_refuses_iff requestFits).not.mpr refuses
      have noFit := (or_assoc.mpr refused).resolve_left accepted
      obtain ⟨nonzero, sectionFits⟩ := not_or.mp refuses
      rw [roundRequest_add_header (by omega), endRead] at noFit
      have positive := headerSize_lt_sectionSize xlen nonzero
      have missed := measured.find_used
        (Nat.zero_lt_of_lt positive)
      rw [noFit, Option.map_none, eq_comm, Option.map_eq_none_iff] at missed
      refine .inr (.inr fun gap isGap => ?_)
      rw [← sections] at isGap
      exact no_gap_of_find stacked usedRegions_nonempty missed isGap
  · have large := takes.large
    have nonzero : roundRequest xlen request ≠ 0 := by
      have := xlen.bytes_pos
      omega
    have fit := takes.fit
    have bounds := le_of_firstFit measured.wellFormed.packed.ordered fit
    have blockFits := block.fits
    have accepted : ¬(request = 0 ∨ xlen.size ≤ sectionSize xlen request) := by
      rw [← roundRequest_refuses_iff requestFits]
      rintro (refused | wraps)
      · exact nonzero refused
      · rw [Xlen.wrap_of_lt (by omega)] at wraps
        omega
    obtain ⟨requestPositive, sectionFits⟩ := not_or.mp accepted
    have positive := headerSize_lt_sectionSize xlen requestPositive
    rw [roundRequest_add_header (by omega), endRead] at fit
    have found := measured.find_used (Nat.zero_lt_of_lt positive)
    rw [fit, Option.map_some, eq_comm, Option.map_eq_some_iff] at found
    obtain ⟨gap, found, start⟩ := found
    have lowest := lowestGap_of_find stacked usedRegions_nonempty found
    rw [sections, start] at lowest
    refine .inr ⟨takes.payload, ?_, lowest⟩
    rintro (zero | large | tooShort)
    · exact accepted (.inl zero)
    · exact accepted (.inr large)
    · obtain ⟨gap, isGap, fits, -⟩ := lowest.1
      exact absurd (tooShort gap isGap) (by omega)

/-- `kmalloc` preserves the invariant. -/
theorem kmalloc
    {heap after : Heap}
    {live : List Allocation}
    {request result : Nat}
    (measured : Measured xlen block_start block_end ⟨heap, live⟩ chain)
    (block : Block xlen block_start block_end)
    (requestFits : request < xlen.size)
    (call : Kmalloc xlen heap request result after) :
    ∃ taken, Measured xlen block_start block_end
      ⟨after, if result = 0 then live else ⟨result, request⟩ :: live⟩
      taken := by
  obtain ⟨taken, kept, outcome⟩ :=
    measured.kmalloc_taken block requestFits call
  refine ⟨taken, kept, ?_⟩
  have answers := measured.kmalloc_answers block requestFits call
  rcases outcome with ⟨rfl, -, rfl, -⟩ | ⟨takes, -⟩
  · exact measured.measured
  · have gap := takes.fillsGap measured.shape.chained
    have payload := takes.payload
    have header : 0 < headerSize xlen := by
      have := xlen.bytes_pos
      unfold headerSize
      omega
    obtain ⟨-, placeable, -⟩ := answers.resolve_left fun zero => by
      have := zero.1
      omega
    obtain ⟨-, sectionFits⟩ := not_or.mp placeable
    have sectionFits := (not_or.mp sectionFits).1
    rw [if_neg (by omega)]
    intro allocation present
    rcases List.mem_cons.mp present with rfl | old
    · have isNew := (gap.mem_iff _).mpr (.inr rfl)
      refine ⟨_, isNew.1, isNew.2, ?_⟩
      exact Region.ext rfl (roundRequest_add_header (Nat.lt_of_not_le
        sectionFits))
    · obtain ⟨sect, inChain, used, same⟩ := measured.measured allocation old
      have kept := (gap.mem_iff sect).mpr (.inl ⟨inChain, used⟩)
      exact ⟨sect, kept.1, kept.2, same⟩

/-- `kfree` preserves the invariant. -/
theorem kfree
    {heap after : Heap}
    {live : List Allocation}
    {ptr : Nat}
    (measured : Measured xlen block_start block_end ⟨heap, live⟩ chain)
    (block : Block xlen block_start block_end)
    (ptrFits : ptr < xlen.size)
    (call : Kfree xlen heap ptr after) :
    Measured xlen block_start block_end
      ⟨after, live.filter fun allocation => allocation.ptr ≠ ptr⟩
      (release (headerOf xlen ptr) chain) := by
  have ordered := measured.packed.ordered
  refine ⟨measured.toHeapInvariant.kfree block ptrFits call, ?_⟩
  intro allocation present
  obtain ⟨old, notFreed⟩ := List.mem_filter.mp present
  obtain ⟨sect, inChain, used, same⟩ := measured.measured allocation old
  refine ⟨sect, ?_, used, same⟩
  rw [release_eq ordered block.start_pos measured.wellFormed.tailInUse]
  apply And.left
  apply (mem_releaseBehind_iff _ _ ordered sect).mpr
  refine ⟨inChain, used, fun freed => ?_⟩
  apply of_decide_eq_true notFreed
  obtain ⟨holder, holderIn, holderUsed, holds, -⟩ :=
    measured.accounts.held allocation old
  have here : holder.address = sect.address := by
    have start := congrArg Region.start same
    simp only [AllocSection.region, Allocation.sectionRegion] at start
    rw [start, holds, AllocSection.payload, Nat.add_sub_cancel]
  rw [holds, ← ordered.eq_of_address_eq inChain holderIn here.symm, eq_comm]
  exact (measured.shape.headerOf_eq_iff block.fits ptrFits
    inChain).mp freed.symm

/-- Every state of a run is measured. -/
theorem of_run
    {heap : Heap}
    {events : List HeapEvent}
    (block : Block xlen block_start block_end)
    (run : Run (HeapStep xlen)
      ⟨kallocinit xlen heap block_start block_end, []⟩ events state) :
    ∃ chain, Measured xlen block_start block_end state chain := by
  apply run.invariant ?_ ⟨_, .initial heap block, by simp⟩
  rintro before event after taken ⟨chain, measured⟩
  cases taken with
  | kmalloc requestFits call => exact measured.kmalloc block requestFits call
  | kfree ptrFits call => exact ⟨_, measured.kfree block ptrFits call⟩
  | write inside =>
      exact ⟨chain, measured.toHeapInvariant.write block inside,
        measured.measured⟩

end Measured

/-! ## Answers -/

/-- What a caller asks of the heap in one event. -/
inductive HeapRequest where
  | kmalloc (size : Nat)
  | kfree (ptr : Nat)
  | write
  deriving DecidableEq, Repr

/-- An event without the answer. -/
def HeapEvent.request : HeapEvent → HeapRequest
  | .kmalloc size _ => .kmalloc size
  | .kfree ptr => .kfree ptr
  | .write => .write

section Answers

variable {xlen : Xlen} {block_start block_end : Nat}
  {before after otherBefore otherAfter : HeapState}
  {chain otherChain : List AllocSection}

/-- Heaps with the same live allocations give the same answer. -/
theorem Measured.step_agrees
    (measured : Measured xlen block_start block_end before chain)
    (otherMeasured :
      Measured xlen block_start block_end otherBefore otherChain)
    (block : Block xlen block_start block_end)
    (sameLive : before.live = otherBefore.live)
    {event otherEvent : HeapEvent}
    (step : HeapStep xlen before event after)
    (otherStep : HeapStep xlen otherBefore otherEvent otherAfter)
    (sameRequest : event.request = otherEvent.request) :
    event = otherEvent ∧ after.live = otherAfter.live := by
  cases step with
  | kmalloc requestFits call =>
      cases otherStep with
      | kmalloc _ otherCall =>
          cases sameRequest
          cases sameLive
          have answers :=
            measured.kmalloc_answers block requestFits call
          have otherAnswers :=
            otherMeasured.kmalloc_answers block requestFits otherCall
          rcases answers with ⟨rfl, -, refused⟩ | ⟨payload, placed, lowest⟩
          · rcases otherAnswers with ⟨rfl, -⟩ | ⟨-, placed, -⟩
            · exact ⟨rfl, rfl⟩
            · exact absurd refused placed
          · rcases otherAnswers with ⟨-, -, refused⟩ |
              ⟨otherPayload, -, otherLowest⟩
            · exact absurd refused placed
            · have address := lowest.unique otherLowest
              have sameResult :=
                (Nat.sub_eq_iff_eq_add payload).mp address
              rw [Nat.sub_add_cancel otherPayload] at sameResult
              cases sameResult
              exact ⟨rfl, rfl⟩
      | kfree _ _ => cases sameRequest
      | write _ => cases sameRequest
  | kfree ptrFits call =>
      cases otherStep with
      | kmalloc _ _ => cases sameRequest
      | kfree _ _ =>
          cases sameRequest
          cases sameLive
          exact ⟨rfl, rfl⟩
      | write _ => cases sameRequest
  | write inside =>
      cases otherStep with
      | kmalloc _ _ => cases sameRequest
      | kfree _ _ => cases sameRequest
      | write _ => exact ⟨rfl, sameLive⟩

/-- The answers of a run depend on the live allocations it starts from. -/
theorem answers_agree
    (block : Block xlen block_start block_end)
    {heap otherHeap : Heap}
    {history otherHistory events otherEvents : List HeapEvent}
    (start : Run (HeapStep xlen)
      ⟨kallocinit xlen heap block_start block_end, []⟩ history before)
    (otherStart : Run (HeapStep xlen)
      ⟨kallocinit xlen otherHeap block_start block_end, []⟩ otherHistory
      otherBefore)
    (sameLive : before.live = otherBefore.live)
    (run : Run (HeapStep xlen) before events after)
    (otherRun : Run (HeapStep xlen) otherBefore otherEvents otherAfter)
    (sameRequests :
      events.map HeapEvent.request = otherEvents.map HeapEvent.request) :
    events = otherEvents ∧ after.live = otherAfter.live := by
  induction run generalizing otherEvents otherAfter with
  | refl =>
      obtain rfl : otherEvents = [] := by
        simpa using sameRequests.symm
      rw [← otherRun.of_nil]
      exact ⟨rfl, sameLive⟩
  | @snoc last next labels event path step inductionHypothesis =>
      rw [List.map_append, eq_comm, List.map_eq_append_iff] at sameRequests
      obtain ⟨earlier, latest, rfl, sameEarlier, sameLatest⟩ := sameRequests
      obtain ⟨otherEvent, rfl, sameRequest⟩ :=
        List.map_eq_singleton_iff.mp sameLatest
      obtain ⟨otherMiddle, otherPath, otherOne⟩ := otherRun.of_append
      obtain ⟨otherLast, otherStep, ended⟩ := otherOne.of_cons
      cases ended.of_nil
      obtain ⟨rfl, middleLive⟩ :=
        inductionHypothesis otherPath sameEarlier.symm
      obtain ⟨chain, measured⟩ := Measured.of_run block (start.append path)
      obtain ⟨otherChain, otherMeasured⟩ :=
        Measured.of_run block (otherStart.append otherPath)
      obtain ⟨rfl, afterLive⟩ := measured.step_agrees otherMeasured block
        middleLive step otherStep sameRequest.symm
      exact ⟨rfl, afterLive⟩

end Answers

theorem Linked.size_of_mem
    {xlen : Xlen}
    {heap : Heap}
    {address : Nat}
    {chain : List AllocSection}
    (linked : Linked xlen heap address chain)
    {sect : AllocSection}
    (present : sect ∈ chain) :
    heap.sizeAt sect.address = sect.size := by
  induction chain generalizing address with
  | nil => simp at present
  | cons first rest inductionHypothesis =>
      obtain ⟨rfl, sizeRead, restLinked⟩ := linked
      rcases List.mem_cons.mp present with rfl | inRest
      · exact sizeRead
      · exact inductionHypothesis restLinked inRest

/-- Completeness over whole runs.  In every state of a run `kmalloc` refuses
exactly the requests that cannot be placed and puts the section of every other
one at the start of the lowest gap it fits into; and once everything has been
freed, further requests get the answers of a fresh heap. -/
theorem heap_completeness
    {xlen : Xlen}
    {block_start block_end : Nat}
    (block : Block xlen block_start block_end)
    {heap : Heap}
    {events : List HeapEvent}
    {state : HeapState}
    (run : Run (HeapStep xlen)
      ⟨kallocinit xlen heap block_start block_end, []⟩ events state) :
    (∀ request < xlen.size, ∃ result after,
      Kmalloc xlen state.heap request result after ∧
        (result = 0 ↔
          Unplaceable xlen block_start block_end state.live request) ∧
        (result ≠ 0 → ∃ address, result = address + headerSize xlen ∧
          PlacedAt xlen block_start block_end state.live request address ∧
          after.sizeAt address = sectionSize xlen request)) ∧
      (state.live = [] →
        ∀ fresh later laterFresh last lastFresh,
          Run (HeapStep xlen) state later last →
          Run (HeapStep xlen)
            ⟨kallocinit xlen fresh block_start block_end, []⟩ laterFresh
            lastFresh →
          later.map HeapEvent.request = laterFresh.map HeapEvent.request →
          later = laterFresh) := by
  refine ⟨?_, ?_⟩
  · intro request requestFits
    obtain ⟨chain, measured⟩ := Measured.of_run block run
    obtain ⟨result, after, call⟩ :=
      (heap_safety block run).2.1 request requestFits
    refine ⟨result, after, call, ?_⟩
    obtain ⟨taken, -, outcome⟩ :=
      measured.kmalloc_taken block requestFits call
    rcases measured.kmalloc_answers block requestFits call with
      ⟨rfl, -, refused⟩ | ⟨payload, placed, lowest⟩
    · exact ⟨iff_of_true rfl refused, fun nonzero => absurd rfl nonzero⟩
    · have header : 0 < headerSize xlen := by
        have := xlen.bytes_pos
        unfold headerSize
        omega
      refine ⟨iff_of_false (by omega) placed, fun _ =>
        ⟨result - headerSize xlen, by omega, lowest, ?_⟩⟩
      rcases outcome with ⟨rfl, -⟩ | ⟨takes, -⟩
      · omega
      · obtain ⟨present, -⟩ :=
          ((takes.fillsGap measured.shape.chained).mem_iff _).mpr (.inr rfl)
        rw [takes.linked.size_of_mem present]
        obtain ⟨-, sectionFits⟩ := not_or.mp placed
        exact roundRequest_add_header
          (Nat.lt_of_not_le (not_or.mp sectionFits).1)
  · intro empty fresh later laterFresh last lastFresh laterRun freshRun same
    exact (answers_agree block run (.refl _) empty laterRun freshRun same).1

/-- On a block of 256 bytes with one live section, a request of 16 bytes goes
to the lowest gap it fits into. -/
theorem heap_completeness_second_request :
    ∃ after, Kmalloc .rv32
        (kallocinit .rv32 ⟨0, 0, fun _ => 0⟩ 0x1000 0x1100) 5 0x1008 after ∧
      ∃ result last, Kmalloc .rv32 after 16 result last ∧
        (result = 0 ↔
          Unplaceable .rv32 0x1000 0x1100 [⟨0x1008, 5⟩] 16) ∧
        (result ≠ 0 → ∃ address, result = address + headerSize .rv32 ∧
          PlacedAt .rv32 0x1000 0x1100 [⟨0x1008, 5⟩] 16 address ∧
          last.sizeAt address = sectionSize .rv32 16) := by
  have block : Block .rv32 0x1000 0x1100 :=
    ⟨by decide, by decide, by decide, by decide⟩
  have call : Kmalloc .rv32
      (kallocinit .rv32 ⟨0, 0, fun _ => 0⟩ 0x1000 0x1100) 5 0x1008 _ :=
    ⟨1, rfl⟩
  exact ⟨_, call,
    (heap_completeness block (.single (.kmalloc (by decide) call))).1 16
      (by decide)⟩

end Memalloc
end EchelonSbi
