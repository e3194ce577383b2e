import EchelonSbi.Memalloc.PageSafety

/-!
# The pages that the allocator hands out

`kalloc_page` returns the first free page or 0.  The page lies in the block as
long as some page of the block is not live; the capacity that
`kalloc_pageinit` computes does not stop the frontier at the end of the block.
-/

namespace EchelonSbi
namespace Memalloc

open Foundation
open PageHeap

/-- The page is aligned and lies in `[mem_page_start, mem_page_end)`. -/
structure InBlock (heap : PageHeap) (page : Nat) : Prop where
  aligned : PAGE_SIZE ∣ page
  low : heap.mem_page_start ≤ page
  high : page + PAGE_SIZE ≤ heap.mem_page_end

/-- Every page of the block but the one with the metadata is live. -/
def AllLive (state : PageState) : Prop :=
  ∀ i, 0 < i →
    state.heap.mem_page_start + i * PAGE_SIZE < state.heap.mem_page_end →
    state.heap.mem_page_start + i * PAGE_SIZE ∈ state.live

/-- A result of `kalloc_page` in the state `before` is a page of the block, or
0 where no page is left. -/
structure PageBounded (before : PageState) (result : Nat) : Prop where
  inBlock : result ≠ 0 → InBlock before.heap result
  exhausted : AllLive before → result = 0

/-- A step that calls `kalloc_page` only while some page is not live, and not
at the group boundary. -/
def BlockStep
    (xlen : Xlen)
    (before : PageState) (event : PageEvent) (after : PageState) : Prop :=
  RegularStep xlen before event after ∧
    ∀ result, event = .kalloc_page result → ¬AllLive before

/-! ## The end of the block -/

section End

variable {xlen : Xlen} {heap : PageHeap}

@[simp]
theorem touch_end (index : Nat) :
    (heap.touch xlen index).mem_page_end = heap.mem_page_end :=
  rfl

@[simp]
theorem save_end (index entry value : Nat) :
    (heap.save xlen index entry value).mem_page_end = heap.mem_page_end :=
  rfl

@[simp]
theorem clearEntries_end (index turns first : Nat) :
    (heap.clearEntries xlen index turns first).mem_page_end =
      heap.mem_page_end := by
  induction turns generalizing first heap with
  | zero => rfl
  | succ turns inductionHypothesis =>
      exact @inductionHypothesis (heap.save xlen index first 0) (first + 1)

@[simp]
theorem setNextFree_end (value : Nat) :
    (heap.setNextFree value).mem_page_end = heap.mem_page_end :=
  rfl

@[simp]
theorem zeroPage_end (page : Nat) :
    (heap.zeroPage xlen page).mem_page_end = heap.mem_page_end :=
  rfl

@[simp]
theorem counters_end :
    (heap.nextFreeUp xlen).mem_page_end = heap.mem_page_end ∧
      (heap.lengthUp xlen).mem_page_end = heap.mem_page_end ∧
      (heap.countUp xlen).mem_page_end = heap.mem_page_end ∧
      (heap.countDown xlen).mem_page_end = heap.mem_page_end :=
  ⟨rfl, rfl, rfl, rfl⟩

@[simp]
theorem load_end (index entry : Nat) :
    (heap.load xlen index entry).2.mem_page_end = heap.mem_page_end :=
  rfl

theorem startCall_end : heap.startCall.mem_page_end = heap.mem_page_end :=
  rfl

theorem kalloc_page_end (xlen : Xlen) (heap : PageHeap) :
    (kalloc_page xlen heap).2.mem_page_end = heap.mem_page_end := by
  simp only [kalloc_page, apply_ite Prod.snd, apply_ite mem_page_end]
  split_ifs <;> simp

@[simp]
theorem finalPageIndex_end (heap : PageHeap) (index turns i final : Nat) :
    (finalPageIndex xlen index turns i final heap).2.mem_page_end =
      heap.mem_page_end := by
  induction turns generalizing i final heap with
  | zero => rfl
  | succ turns inductionHypothesis =>
      simp only [finalPageIndex]
      split_ifs <;> simp [inductionHypothesis]

@[simp]
theorem linkFromEarlierSection_end (heap : PageHeap) (page count : Nat) :
    (linkFromEarlierSection xlen page count heap).mem_page_end =
      heap.mem_page_end := by
  induction count generalizing heap with
  | zero => rfl
  | succ i inductionHypothesis =>
      simp only [linkFromEarlierSection]
      split_ifs <;> simp [inductionHypothesis]

theorem kfree_page_end (xlen : Xlen) (heap : PageHeap) (ptr : Nat) :
    (kfree_page xlen heap ptr).mem_page_end = heap.mem_page_end := by
  simp only [kfree_page]
  split_ifs <;> simp

end End

/-! ## The invariant -/

/-- The invariant of runs inside the block: a page below the frontier is taken
only where it is live, and the frontier does not pass the end. -/
structure BlockInvariant (xlen : Xlen) (state : PageState) : Prop
    extends PageInvariant xlen state where
  endAligned : PAGE_SIZE ∣ state.heap.mem_page_end
  capacity : state.heap.mem_page_max_length * PAGE_SIZE +
    state.heap.mem_page_end = xlen.size + state.heap.mem_page_start
  endFits : state.heap.mem_page_end < xlen.size
  inside : Growing xlen state.heap →
    state.heap.mem_page_start + state.heap.mem_page_length * PAGE_SIZE ≤
      state.heap.mem_page_end
  takenLive : Growing xlen state.heap → ∀ i, 0 < i →
    i < state.heap.mem_page_length → entries xlen state.heap i = 1 →
      pageAt xlen state.heap.mem_page_start i ∈ state.live
  short : Exhausted xlen state.heap →
    state.heap.mem_page_max_length = pageEntries xlen

namespace BlockInvariant

variable {xlen : Xlen} {heap after : PageHeap} {live : List Nat}

/-- An allocator that has a next page is not exhausted. -/
theorem growing_of_next
    (invariant : PageInvariant xlen ⟨heap, live⟩)
    (next : heap.mem_page_next_free ≠ 0) :
    Growing xlen heap ∧ ∀ page ∈ live, OwnedGrowing xlen heap page :=
  invariant.owned.resolve_right fun exhausted =>
    next exhausted.1.next_free

theorem not_exhausted (growing : Growing xlen heap) : ¬Exhausted xlen heap :=
  fun exhausted => growing.head_open.1.ne' exhausted.next_free

/-- Pages up to the end of the block do not wrap. -/
theorem pageAt_inside
    {i : Nat}
    (invariant : BlockInvariant xlen ⟨heap, live⟩)
    (within : heap.mem_page_start + i * PAGE_SIZE ≤ heap.mem_page_end) :
    pageAt xlen heap.mem_page_start i = heap.mem_page_start + i * PAGE_SIZE :=
  Xlen.wrap_of_lt (Nat.lt_of_le_of_lt within invariant.endFits)

/-- A page that starts in the block ends in it. -/
theorem page_fits
    {i : Nat}
    (invariant : BlockInvariant xlen ⟨heap, live⟩)
    (base : PageBase xlen heap.mem_page_start)
    (below : heap.mem_page_start + i * PAGE_SIZE < heap.mem_page_end) :
    heap.mem_page_start + (i + 1) * PAGE_SIZE ≤ heap.mem_page_end := by
  have startAligned := base.aligned
  have endAligned : PAGE_SIZE ∣ heap.mem_page_end := invariant.endAligned
  unfold PAGE_SIZE at *
  omega

/-- While some page of the block is not live, the first free page lies in the
block. -/
theorem next_inside
    (invariant : BlockInvariant xlen ⟨heap, live⟩)
    (growing : Growing xlen heap)
    (open_ : ¬AllLive ⟨heap, live⟩) :
    heap.mem_page_start + heap.mem_page_next_free * PAGE_SIZE <
      heap.mem_page_end := by
  unfold AllLive at open_
  push Not at open_
  obtain ⟨i, positive, inBlock, notLive⟩ := open_
  have before : heap.mem_page_next_free ≤ i := by
    by_cases below : i < heap.mem_page_length
    · rw [growing.head]
      refine growing.threaded.head_le ⟨positive, below.le, fun taken => ?_⟩
      refine notLive ?_
      rw [← invariant.pageAt_inside inBlock.le]
      exact invariant.takenLive growing i positive below taken
    · have := growing.head_open.2.1
      omega
  have offset : heap.mem_page_next_free * PAGE_SIZE ≤ i * PAGE_SIZE :=
    Nat.mul_le_mul_right _ before
  exact Nat.lt_of_le_of_lt (Nat.add_le_add_left offset _) inBlock

/-- Once every page is live, the first free page is the end of the block. -/
theorem next_at_end
    (invariant : BlockInvariant xlen ⟨heap, live⟩)
    (growing : Growing xlen heap)
    (owned : ∀ page ∈ live, OwnedGrowing xlen heap page)
    (allLive : AllLive ⟨heap, live⟩) :
    heap.mem_page_next_free = heap.mem_page_length ∧
      heap.mem_page_start + heap.mem_page_next_free * PAGE_SIZE =
        heap.mem_page_end := by
  obtain ⟨positive, within, free⟩ := growing.head_open
  have inGroup := growing.inGroup
  have inside : heap.mem_page_start + heap.mem_page_length * PAGE_SIZE ≤
      heap.mem_page_end := invariant.inside growing
  have beyond : ¬heap.mem_page_start + heap.mem_page_next_free * PAGE_SIZE <
      heap.mem_page_end := by
    intro below
    obtain ⟨i, iPositive, iBelow, taken, here⟩ :=
      owned _ (allLive _ positive below)
    rw [← invariant.pageAt_inside below.le] at here
    have same := growing.base.pageAt_inj (by omega) (by omega) here
    exact free (same ▸ taken)
  have offset : heap.mem_page_next_free * PAGE_SIZE ≤
      heap.mem_page_length * PAGE_SIZE := Nat.mul_le_mul_right _ within
  have equal : heap.mem_page_next_free * PAGE_SIZE =
      heap.mem_page_length * PAGE_SIZE := by omega
  exact ⟨Nat.eq_of_mul_eq_mul_right (by decide) equal, by omega⟩

/-- A block as long as the capacity of its first group is longer than that. -/
theorem not_allLive_of_exhausted
    (invariant : BlockInvariant xlen ⟨heap, live⟩)
    (exhausted : Exhausted xlen heap)
    (owned : ∀ page ∈ live, OwnedExhausted xlen heap page) :
    ¬AllLive ⟨heap, live⟩ := by
  intro allLive
  have capacity : heap.mem_page_max_length * PAGE_SIZE + heap.mem_page_end =
      xlen.size + heap.mem_page_start := invariant.capacity
  have endFits : heap.mem_page_end < xlen.size := invariant.endFits
  have large := pageEntries_gt xlen
  rw [invariant.short exhausted] at capacity
  have group : 2 * (pageEntries xlen * PAGE_SIZE) < xlen.size := by
    cases xlen <;> decide
  have below : heap.mem_page_start + pageEntries xlen * PAGE_SIZE <
      heap.mem_page_end := by omega
  obtain ⟨i, positive, inGroup, here⟩ :=
    owned _ (allLive (pageEntries xlen) (by omega) below)
  have inside : i * PAGE_SIZE < pageEntries xlen * PAGE_SIZE :=
    Nat.mul_lt_mul_of_pos_right inGroup (by decide)
  rw [pageAt, Xlen.wrap_of_lt (by omega)] at here
  exact absurd (Nat.add_left_cancel here) (by omega)

/-- Two states with the same invariant fields that only differ in what a step
inside the group may change. -/
theorem of_within
    {liveAfter : List Nat}
    (invariant : BlockInvariant xlen ⟨heap, live⟩)
    (kept : PageInvariant xlen ⟨after, liveAfter⟩)
    (within : WithinGroup heap.startCall after)
    (end_eq : after.mem_page_end = heap.startCall.mem_page_end)
    (inside : Growing xlen after →
      heap.mem_page_start + after.mem_page_length * PAGE_SIZE ≤
        heap.mem_page_end)
    (takenLive : Growing xlen after → ∀ i, 0 < i →
      i < after.mem_page_length → entries xlen after i = 1 →
        pageAt xlen heap.mem_page_start i ∈ liveAfter)
    (short : Exhausted xlen after →
      heap.mem_page_max_length = pageEntries xlen) :
    BlockInvariant xlen ⟨after, liveAfter⟩ := by
  obtain ⟨-, aligned, capacity, fits, -, -, -⟩ := invariant
  refine ⟨kept, ?_, ?_, ?_, ?_, ?_, ?_⟩
  · rwa [end_eq]
  · rwa [end_eq, within.start_eq, within.max_eq]
  · rwa [end_eq]
  · rwa [end_eq, within.start_eq]
  · rwa [within.start_eq]
  · rwa [within.max_eq]

/-- Handing out the first free page keeps the pages below the frontier taken
only where they are live. -/
theorem takenLive_handed
    {i next : Nat}
    (invariant : BlockInvariant xlen ⟨heap, live⟩)
    (growing : Growing xlen heap)
    (updated : ∀ i < pageEntries xlen, entries xlen after i =
      Function.update (Function.update (entries xlen heap)
        heap.mem_page_next_free 1) 0 next i)
    (positive : 0 < i)
    (below : i < heap.mem_page_length ∨ i = heap.mem_page_next_free)
    (taken : entries xlen after i = 1) :
    pageAt xlen heap.mem_page_start i ∈
      pageAt xlen heap.mem_page_start heap.mem_page_next_free :: live := by
  have inGroup := growing.inGroup
  have nextBelow := growing.head_open.2.1
  by_cases here : i = heap.mem_page_next_free
  · rw [here]
    exact List.mem_cons_self
  · rw [updated i (by omega), Function.update_of_ne positive.ne',
      Function.update_of_ne here] at taken
    exact List.mem_cons_of_mem _
      (invariant.takenLive growing i positive (below.resolve_right here) taken)

/-- A call of `kalloc_page` while some page is not live. -/
theorem kalloc
    {result : Nat}
    (invariant : BlockInvariant xlen ⟨heap, live⟩)
    (call : kalloc_page xlen heap.startCall = (result, after))
    (regular : ¬AtGroupBoundary xlen heap)
    (open_ : ¬AllLive ⟨heap, live⟩) :
    BlockInvariant xlen
      ⟨after, if result = 0 then live else result :: live⟩ := by
  obtain ⟨within, -, kept⟩ := invariant.kalloc_page_step call regular
  have end_eq := kalloc_page_end xlen heap.startCall
  rw [call] at end_eq
  have owned : Growing xlen heap ∧ _ ∨ Exhausted xlen heap ∧ _ :=
    invariant.owned
  rcases owned with ⟨growing, -⟩ | ⟨exhausted, -⟩
  · have fits : heap.mem_page_start + heap.mem_page_length * PAGE_SIZE ≤
        heap.mem_page_end := invariant.inside growing
    have below := invariant.next_inside growing open_
    obtain ⟨positive, nextBelow, -⟩ := growing.head_open
    have inGroup := growing.inGroup
    have nonzero :
        pageAt xlen heap.mem_page_start heap.mem_page_next_free ≠ 0 := by
      rw [invariant.pageAt_inside below.le]
      unfold PAGE_SIZE
      omega
    by_cases reused : heap.mem_page_next_free < heap.mem_page_length
    · obtain ⟨other, returns, -, length, next, updated⟩ :=
        kalloc_page_reuse growing.startCall reused
      obtain ⟨rfl, rfl⟩ := Prod.mk.inj (call.symm.trans returns)
      have length : after.mem_page_length = heap.mem_page_length := length
      have grown := growing.startCall.reuse reused within length next updated
      refine invariant.of_within kept within end_eq ?_ ?_ ?_
      · rw [length]
        exact fun _ => fits
      · intro _ i iPositive iBelow taken
        rw [length] at iBelow
        exact (if_neg nonzero).symm ▸ invariant.takenLive_handed growing updated
          iPositive (.inl iBelow) taken
      · exact fun exhausted => absurd exhausted (not_exhausted grown)
    · have atFrontier : heap.mem_page_next_free = heap.mem_page_length := by
        omega
      by_cases full : heap.mem_page_length = heap.mem_page_max_length
      · obtain ⟨other, returns, -, length, next, same⟩ :=
          kalloc_page_full growing.startCall atFrontier full
        obtain ⟨rfl, rfl⟩ := Prod.mk.inj (call.symm.trans returns)
        have length : after.mem_page_length = heap.mem_page_length := length
        refine invariant.of_within kept within end_eq ?_ ?_ ?_
        · rw [length]
          exact fun _ => fits
        · intro _ i iPositive iBelow taken
          rw [length] at iBelow
          exact invariant.takenLive growing i iPositive iBelow
            ((same i).symm.trans taken)
        · exact fun exhausted => absurd (next.symm.trans exhausted.next_free)
            positive.ne'
      · by_cases room : heap.mem_page_length + 1 < pageEntries xlen
        · obtain ⟨other, returns, -, length, next, updated⟩ :=
            kalloc_page_grow growing.startCall atFrontier full room
          obtain ⟨rfl, rfl⟩ := Prod.mk.inj (call.symm.trans returns)
          have length : after.mem_page_length = heap.mem_page_length + 1 :=
            length
          have grown := growing.startCall.grow atFrontier full room within
            length next updated
          refine invariant.of_within kept within end_eq ?_ ?_ ?_
          · rw [length, ← atFrontier]
            exact fun _ => invariant.page_fits growing.base below
          · intro _ i iPositive iBelow taken
            rw [length] at iBelow
            have updated' : ∀ i < pageEntries xlen, entries xlen after i =
                Function.update (Function.update (entries xlen heap)
                  heap.mem_page_next_free 1) 0 (heap.mem_page_length + 1) i := by
              rw [atFrontier]
              exact updated
            exact (if_neg nonzero).symm ▸ invariant.takenLive_handed growing
              updated' iPositive (by omega) taken
          · exact fun exhausted => absurd exhausted (not_exhausted grown)
        · have bounded := growing.bounded
          have ends : heap.mem_page_max_length = pageEntries xlen := by
            unfold AtGroupBoundary at regular
            omega
          obtain ⟨other, returns, -, exhausted⟩ :=
            kalloc_page_last growing.startCall atFrontier (by
              change heap.mem_page_length + 1 = pageEntries xlen
              omega) ends
          obtain ⟨rfl, rfl⟩ := Prod.mk.inj (call.symm.trans returns)
          exact invariant.of_within kept within end_eq
            (fun grown => absurd exhausted (not_exhausted grown))
            (fun grown => absurd exhausted (not_exhausted grown)) fun _ => ends
  · have returns : kalloc_page xlen heap.startCall = (0, heap.startCall) :=
      if_pos exhausted.next_free
    obtain ⟨rfl, rfl⟩ := Prod.mk.inj (call.symm.trans returns)
    have still : Exhausted xlen heap.startCall :=
      ⟨exhausted.base, exhausted.next_free, exhausted.first⟩
    exact invariant.of_within kept within end_eq
      (fun grown => absurd still (not_exhausted grown))
      (fun grown => absurd still (not_exhausted grown))
      fun _ => invariant.short exhausted

/-- A call of `kfree_page` on a live page. -/
theorem kfree
    {ptr : Nat}
    (invariant : BlockInvariant xlen ⟨heap, live⟩)
    (isLive : ptr ∈ live) :
    BlockInvariant xlen
      ⟨kfree_page xlen heap.startCall ptr, live.erase ptr⟩ := by
  obtain ⟨within, kept⟩ := invariant.kfree_page_step isLive
  have end_eq := kfree_page_end xlen heap.startCall ptr
  have owned : (Growing xlen heap ∧ ∀ page ∈ live, OwnedGrowing xlen heap page) ∨
      Exhausted xlen heap ∧ ∀ page ∈ live, OwnedExhausted xlen heap page :=
    invariant.owned
  rcases owned with ⟨growing, owned⟩ | ⟨exhausted, owned⟩
  · have fits : heap.mem_page_start + heap.mem_page_length * PAGE_SIZE ≤
        heap.mem_page_end := invariant.inside growing
    obtain ⟨i, positive, below, taken, here⟩ := owned ptr isLive
    have inGroup := growing.inGroup
    have headOpen := growing.head_open
    have offset : i * PAGE_SIZE ≤ heap.mem_page_length * PAGE_SIZE :=
      Nat.mul_le_mul_right _ below.le
    have atOffset := invariant.pageAt_inside
      (Nat.le_trans (Nat.add_le_add_left offset _) fits)
    obtain ⟨other, final, call, -, length, finalBelow, finalLinked, between,
      updated, next, -⟩ := kfree_page_gives growing.startCall positive below taken
    have call : kfree_page xlen heap.startCall ptr = other := by
      rw [here, atOffset]
      exact call
    rw [call] at kept within end_eq ⊢
    have grown := growing.startCall.give positive below taken within length
      finalBelow finalLinked between updated next
    have length : other.mem_page_length = heap.mem_page_length := length
    refine invariant.of_within kept within end_eq ?_ ?_ ?_
    · rw [length]
      exact fun _ => fits
    · intro _ j jPositive jBelow jTaken
      rw [length] at jBelow
      have notFinal : j ≠ final := by
        rintro rfl
        rw [updated, Function.update_self] at jTaken
        omega
      have linked : entries xlen heap final ≠ 1 := by
        rcases finalLinked with rfl | linked
        · intro first
          have second : entries xlen heap 1 = 1 := by
            by_cases only : i = 1
            · exact only ▸ taken
            · exact between 1 (by omega) (by omega)
          exact headOpen.2.2 (by rw [growing.head, first, second])
        · exact linked
      have notFreed : j ≠ i := by
        rintro rfl
        rw [updated, Function.update_of_ne notFinal, Function.update_self]
          at jTaken
        exact linked jTaken
      rw [updated, Function.update_of_ne notFinal, Function.update_of_ne notFreed]
        at jTaken
      have stillLive := invariant.takenLive growing j jPositive jBelow jTaken
      refine (List.mem_erase_of_ne fun same => notFreed ?_).mpr stillLive
      exact growing.base.pageAt_inj (by omega) (by omega) (same.trans here)
    · exact fun exhausted => absurd exhausted (not_exhausted grown)
  · obtain ⟨i, positive, inGroup, here⟩ := owned ptr isLive
    have onCall : Exhausted xlen heap.startCall :=
      ⟨exhausted.base, exhausted.next_free, exhausted.first⟩
    have next : (kfree_page xlen heap.startCall ptr).mem_page_next_free = 0 := by
      rcases PageInvariant.unwrapped_or_wrapped exhausted.base inGroup with
        atOffset | wrapped
      · rw [here, atOffset]
        exact (kfree_page_exhausted onCall positive inGroup).next_free_eq.trans
          exhausted.next_free
      · rw [kfree_page_wrapped (by rwa [here])]
        exact exhausted.next_free
    have still : ¬Growing xlen (kfree_page xlen heap.startCall ptr) :=
      fun grown => grown.head_open.1.ne' next
    exact invariant.of_within kept within end_eq (fun grown => absurd grown still)
      (fun grown => absurd grown still) fun _ => invariant.short exhausted

/-- The callers write into their pages. -/
theorem write
    {mem : Nat → Nat}
    (invariant : BlockInvariant xlen ⟨heap, live⟩)
    (inside : ∀ cell, (∀ page ∈ live, ¬(pageRegion page).Contains cell) →
      mem cell = heap.mem cell) :
    BlockInvariant xlen ⟨{ heap.startCall with mem := mem }, live⟩ := by
  have kept := invariant.write_step inside
  have same (i : Nat) (inGroup : i < pageEntries xlen) :
      entries xlen { heap.startCall with mem := mem } i =
        entries xlen heap i := by
    refine entries_of_outside rfl (fun cell inSection => ?_) inGroup
    exact inside cell fun page isLive inPage =>
      (invariant.live_apart isLive).not_contains inPage inSection
  have large := pageEntries_gt xlen
  have before (grown : Growing xlen { heap.startCall with mem := mem }) :
      Growing xlen heap :=
    (growing_of_next invariant.toPageInvariant grown.head_open.1.ne').1
  have within : WithinGroup heap.startCall { heap.startCall with mem := mem } :=
    ⟨rfl, rfl, fun _ member => .inl member⟩
  refine invariant.of_within kept within rfl ?_ ?_ ?_
  · exact fun grown => invariant.inside (before grown)
  · intro grown i positive below taken
    have inGroup := grown.inGroup
    rw [same i (below.trans inGroup)] at taken
    exact invariant.takenLive (before grown) i positive below taken
  · exact fun exhausted => invariant.short ⟨exhausted.base, exhausted.next_free,
      (same 0 (by omega)).symm.trans exhausted.first⟩

/-- The step lemma. -/
theorem step
    {before afterwards : PageState}
    {event : PageEvent}
    (invariant : BlockInvariant xlen before)
    (taken : BlockStep xlen before event afterwards) :
    BlockInvariant xlen afterwards := by
  obtain ⟨⟨step, away⟩, open_⟩ := taken
  cases step with
  | kalloc_page call => exact invariant.kalloc call (away _ rfl) (open_ _ rfl)
  | kfree_page isLive => exact invariant.kfree isLive
  | write inside => exact invariant.write inside

end BlockInvariant

/-! ## Whole runs -/

section Runs

variable {xlen : Xlen} {block_start block_end : Nat}

theorem kalloc_pageinit_end
    (accepts : kalloc_pageinitAccepts xlen block_start block_end)
    (heap : PageHeap) :
    (kalloc_pageinit xlen heap block_start block_end).mem_page_end =
      pageBlockEnd block_end := by
  simp [kalloc_pageinit, accepts]

theorem blockInvariant_kalloc_pageinit
    (accepts : kalloc_pageinitAccepts xlen block_start block_end)
    (fits : block_end < xlen.size)
    (heap : PageHeap) :
    BlockInvariant xlen
      ⟨kalloc_pageinit xlen heap block_start block_end, []⟩ := by
  obtain ⟨growing, next, length, start_eq, max_eq⟩ :=
    growing_kalloc_pageinit accepts fits heap
  have end_eq := kalloc_pageinit_end accepts heap
  have startAligned := pageBlockStart_aligned xlen block_start
  have sizeAligned := page_dvd_size xlen
  have before := accepts.2
  have endAligned : PAGE_SIZE ∣ pageBlockEnd block_end := by
    unfold pageBlockEnd PAGE_SIZE
    omega
  have endFits : pageBlockEnd block_end < xlen.size := by
    unfold pageBlockEnd
    omega
  refine ⟨⟨List.nodup_nil, .inl ⟨growing, by simp⟩⟩, ?_, ?_, ?_, ?_, ?_, ?_⟩
  · rwa [end_eq]
  · rw [end_eq, max_eq, start_eq, pageMaxLength, Xlen.wrap_of_lt (by omega)]
    have aligned : PAGE_SIZE ∣ pageBlockStart xlen block_start +
        (xlen.size - pageBlockEnd block_end) := by
      unfold PAGE_SIZE at *
      omega
    rw [Nat.div_mul_cancel aligned]
    omega
  · rwa [end_eq]
  · intro _
    simp only [length, start_eq, end_eq]
    unfold PAGE_SIZE at *
    omega
  · intro _ i positive below
    simp only [length] at below
    omega
  · exact fun exhausted => absurd exhausted
      (BlockInvariant.not_exhausted growing)

/-- Page bounds over whole runs.  In every run that calls `kalloc_page` only
while some page of the block is not live, and not at the group boundary, the
next call of `kalloc_page` returns a page of the block, or 0 where none is
left, exactly if some page is not live. -/
theorem page_bounds
    (accepts : kalloc_pageinitAccepts xlen block_start block_end)
    (fits : block_end < xlen.size)
    {heap : PageHeap}
    {events : List PageEvent}
    {before after : PageState}
    {result : Nat}
    (run : Run (BlockStep xlen)
      ⟨kalloc_pageinit xlen heap block_start block_end, []⟩ events before)
    (step : PageStep xlen before (.kalloc_page result) after) :
    PageBounded before result ↔ ¬AllLive before := by
  have invariant : BlockInvariant xlen before :=
    run.invariant (fun taken kept => BlockInvariant.step kept taken)
      (blockInvariant_kalloc_pageinit accepts fits heap)
  obtain @⟨heap, after, live, _, call⟩ := step
  have owned : (Growing xlen heap ∧ ∀ page ∈ live, OwnedGrowing xlen heap page) ∨
      Exhausted xlen heap ∧ ∀ page ∈ live, OwnedExhausted xlen heap page :=
    invariant.owned
  rcases owned with ⟨growing, owned⟩ | ⟨exhausted, owned⟩
  · have returns := kalloc_page_result growing.startCall
    rw [call] at returns
    constructor
    · intro bounded allLive
      obtain ⟨atFrontier, atEnd⟩ := invariant.next_at_end growing owned allLive
      have zero := bounded.exhausted allLive
      have capacity : heap.mem_page_max_length * PAGE_SIZE + heap.mem_page_end =
          xlen.size + heap.mem_page_start := invariant.capacity
      have room := growing.base.room
      rw [zero] at returns
      split_ifs at returns with full
      · obtain ⟨-, full⟩ := full
        have full : heap.mem_page_length = heap.mem_page_max_length := full
        have inGroup := growing.inGroup
        have inside : heap.mem_page_length * PAGE_SIZE <
            pageEntries xlen * PAGE_SIZE :=
          Nat.mul_lt_mul_of_pos_right inGroup (by decide)
        have group : 2 * (pageEntries xlen * PAGE_SIZE) < xlen.size := by
          cases xlen <;> decide
        rw [← full] at capacity
        rw [atFrontier] at atEnd
        omega
      · have page := invariant.pageAt_inside atEnd.le
        have positive := growing.head_open.1
        have returns : 0 = pageAt xlen heap.mem_page_start
          heap.mem_page_next_free := returns
        rw [page] at returns
        unfold PAGE_SIZE at *
        omega
    · intro open_
      refine ⟨fun nonzero => ?_, fun allLive => absurd allLive open_⟩
      have below := invariant.next_inside growing open_
      split_ifs at returns with full
      · exact absurd returns nonzero
      · have here : result = heap.mem_page_start +
            heap.mem_page_next_free * PAGE_SIZE :=
          returns.trans (invariant.pageAt_inside below.le)
        have fits := invariant.page_fits growing.base below
        rw [here]
        refine ⟨Nat.dvd_add growing.base.aligned (Nat.dvd_mul_left _ _),
          Nat.le_add_right _ _, ?_⟩
        rw [Nat.add_mul, Nat.one_mul] at fits
        simpa only [Nat.add_assoc] using fits
  · have returns : kalloc_page xlen heap.startCall = (0, heap.startCall) :=
      if_pos exhausted.next_free
    obtain ⟨rfl, rfl⟩ := Prod.mk.inj (call.symm.trans returns)
    exact iff_of_true ⟨fun nonzero => absurd rfl nonzero, fun _ => rfl⟩
      (invariant.not_allLive_of_exhausted exhausted owned)

end Runs

/-- The first page of a block of 16 pages. -/
theorem page_bounds_first_page :
    ∃ after,
      kalloc_page .rv64
          (kalloc_pageinit .rv64 ⟨0, 0, 0, 0, 0, 0, fun _ => 0, []⟩
            0x80000000 0x80010000).startCall =
        (0x80002000, after) ∧
      PageBounded
        ⟨kalloc_pageinit .rv64 ⟨0, 0, 0, 0, 0, 0, fun _ => 0, []⟩
          0x80000000 0x80010000, []⟩
        0x80002000 := by
  have accepts : kalloc_pageinitAccepts .rv64 0x80000000 0x80010000 := by
    decide
  have fits : 0x80010000 < Xlen.rv64.size := by decide
  have long : pageEntries .rv64 <
      pageMaxLength .rv64 0x80000000 0x80010000 := by decide
  obtain ⟨-, -, -, start, -⟩ := growing_kalloc_pageinit accepts fits
    ⟨0, 0, 0, 0, 0, 0, fun _ => 0, []⟩
  obtain ⟨after, call, -, -⟩ := (atFrontier_kalloc_pageinit accepts fits long
    ⟨0, 0, 0, 0, 0, 0, fun _ => 0, []⟩).kalloc_page (by decide)
  have page : pageAt .rv64 (pageBlockStart .rv64 0x80000000) 1 =
      0x80002000 := by decide
  rw [start, page] at call
  refine ⟨after, call, (page_bounds accepts fits (.refl _)
    (.kalloc_page call)).mpr fun allLive => ?_⟩
  have isLive := allLive 1 Nat.one_pos (by
    rw [start, kalloc_pageinit_end accepts]
    decide)
  cases isLive

/-- A block of two pages: the second call returns the page behind it. -/
theorem not_page_bounded :
    ¬∀ events before result after,
      Run (PageStep .rv64)
        ⟨kalloc_pageinit .rv64 ⟨0, 0, 0, 0, 0, 0, fun _ => 0, []⟩
          0x80000000 0x80003000, []⟩ events before →
      PageStep .rv64 before (.kalloc_page result) after →
      PageBounded before result := by
  intro bounded
  have accepts : kalloc_pageinitAccepts .rv64 0x80000000 0x80003000 := by
    decide
  have fits : 0x80003000 < Xlen.rv64.size := by decide
  have long : pageEntries .rv64 <
      pageMaxLength .rv64 0x80000000 0x80003000 := by decide
  obtain ⟨-, -, -, start, -⟩ := growing_kalloc_pageinit accepts fits
    ⟨0, 0, 0, 0, 0, 0, fun _ => 0, []⟩
  obtain ⟨first, call, frontier, sameStart⟩ := (atFrontier_kalloc_pageinit
    accepts fits long ⟨0, 0, 0, 0, 0, 0, fun _ => 0, []⟩).kalloc_page
      (by decide)
  obtain ⟨second, next, -, -⟩ := frontier.kalloc_page (by decide)
  have behind : pageAt .rv64 first.mem_page_start 2 = 0x80003000 := by
    rw [sameStart, start]
    decide
  have end_eq := kalloc_page_end .rv64
    (kalloc_pageinit .rv64 ⟨0, 0, 0, 0, 0, 0, fun _ => 0, []⟩
      0x80000000 0x80003000).startCall
  rw [call] at end_eq
  have blockEnd : first.mem_page_end = pageBlockEnd 0x80003000 := by
    rw [end_eq, startCall_end, kalloc_pageinit_end accepts]
  rw [behind] at next
  have nonzero : 0x80003000 ≠ 0 := by decide
  have returned := bounded _ _ _ _ (.single (.kalloc_page call))
    (.kalloc_page next)
  have high := (returned.inBlock nonzero).high
  rw [blockEnd] at high
  exact absurd high (by decide)

end Memalloc
end EchelonSbi
