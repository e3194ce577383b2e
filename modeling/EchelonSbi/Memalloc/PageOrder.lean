import EchelonSbi.Memalloc.PageSafety
import Mathlib.Data.List.Perm.Subperm

/-!
# The order of the free pages

While the allocator stays in its first group, its links lead through the pages
that were given back, in ascending order, to the first page that was never
used.  So `kalloc_page` returns the lowest free page as long as that page has
an address.
-/

namespace EchelonSbi
namespace Memalloc

open Foundation
open PageHeap

/-- `kalloc_pageinit`, with a given capacity in place of the one it
computes. -/
def pageinitWithCapacity
    (xlen : Xlen) (heap : PageHeap) (block_start block_end capacity : Nat) :
    PageHeap :=
  { kalloc_pageinit xlen heap block_start block_end with
    mem_page_max_length := capacity }

/-- The pages freed and not handed out again after one more event. -/
def freedBy (freed : List Nat) : PageEvent → List Nat
  | .kalloc_page result => freed.filter fun page => page ≠ result
  | .kfree_page ptr => ptr :: freed
  | .write => freed

/-- The pages freed and not handed out again, by the history of a run. -/
def freedPages (events : List PageEvent) : List Nat :=
  events.foldl freedBy []

@[simp] theorem freedPages_nil : freedPages [] = [] := rfl

@[simp] theorem freedPages_append_singleton
    (events : List PageEvent) (event : PageEvent) :
    freedPages (events ++ [event]) = freedBy (freedPages events) event := by
  simp [freedPages]

/-- A page that was freed and not handed out again, or that was never handed
out and is below the capacity.  Addresses are unbounded integers here. -/
def FreePage (events : List PageEvent) (heap : PageHeap) (page : Nat) : Prop :=
  page ∈ freedPages events ∨
    ∃ i, heap.mem_page_length ≤ i ∧ i < heap.mem_page_max_length ∧
      page = heap.mem_page_start + i * PAGE_SIZE

/-- The capacity is reached, or the next page of the allocator has an
address. -/
def PageAddressed (xlen : Xlen) (heap : PageHeap) : Prop :=
  heap.mem_page_next_free = heap.mem_page_max_length ∨
    heap.mem_page_start + heap.mem_page_next_free * PAGE_SIZE < xlen.size

/-- A step inside the first group. -/
def OneGroupStep
    (xlen : Xlen)
    (before : PageState) (event : PageEvent) (after : PageState) : Prop :=
  PageStep xlen before event after ∧
    after.heap.mem_page_length < pageEntries xlen

/-- A step inside the first group in which `kalloc_page` returns no page
without an address. -/
def AddressedStep
    (xlen : Xlen)
    (before : PageState) (event : PageEvent) (after : PageState) : Prop :=
  OneGroupStep xlen before event after ∧
    ∀ result, event = .kalloc_page result → PageAddressed xlen before.heap

/-- The links lead in ascending order through the pages that were freed and
not handed out again, to the first page that was never used. -/
structure FreeListOrder
    (xlen : Xlen) (events : List PageEvent) (state : PageState) : Prop where
  visits : ∃ pages,
    Follows (entries xlen state.heap) state.heap.mem_page_next_free pages
      state.heap.mem_page_length ∧
    (pages ++ [state.heap.mem_page_length]).Pairwise (· < ·) ∧
    ∀ page, page ∈ freedPages events ↔
      ∃ i ∈ pages, page = pageAt xlen state.heap.mem_page_start i
  neverUsed : ∀ page, page ≠ 0 ∧ .kalloc_page page ∈ events ↔
    ∃ i, 0 < i ∧ i < state.heap.mem_page_length ∧
      page = pageAt xlen state.heap.mem_page_start i
  lastEntry : entries xlen state.heap state.heap.mem_page_length = 0
  head : entries xlen state.heap 0 = state.heap.mem_page_next_free
  counted : state.heap.mem_page_num_allocated = state.live.length

/-- `kalloc_page` returns the lowest free page; or there is none, and it
returns 0 and changes nothing. -/
def ReturnsLowest
    (xlen : Xlen) (events : List PageEvent) (heap : PageHeap) : Prop :=
  IsLeast { page | FreePage events heap page } (kalloc_page xlen heap).1 ∨
    (∀ page, ¬FreePage events heap page) ∧
      ∃ accessed, kalloc_page xlen heap = (0, { heap with accessed := accessed })

/-! ## Ledgers -/

/-- The live pages are those that were handed out and are not free, and they
are counted.  Pages are known by their index. -/
structure PageLedger
    (start : Nat) (handed isFree : Nat → Prop) (live : List Nat)
    (count : Nat) : Prop where
  distinct : live.Nodup
  live_iff : ∀ page, page ∈ live ↔
    ∃ i, handed i ∧ ¬isFree i ∧ page = start + i * PAGE_SIZE
  counted : count = live.length

namespace PageLedger

variable {start count n : Nat} {handed isFree later laterFree : Nat → Prop}
  {live : List Nat}

/-- Different pages have different addresses. -/
theorem address_inj
    {i j : Nat}
    (same : start + i * PAGE_SIZE = start + j * PAGE_SIZE) :
    i = j :=
  Nat.eq_of_mul_eq_mul_right (by decide : 0 < PAGE_SIZE)
    (Nat.add_left_cancel same)

/-- No more pages are live than there are indices. -/
theorem count_le
    {bound : Nat}
    (ledger : PageLedger start handed isFree live count)
    (bounded : ∀ i, handed i → i < bound) :
    count ≤ bound := by
  have inRange : live ⊆
      (List.range bound).map fun i => start + i * PAGE_SIZE := by
    intro page isLive
    obtain ⟨i, wasHanded, -, rfl⟩ := (ledger.live_iff page).mp isLive
    exact List.mem_map_of_mem (List.mem_range.mpr (bounded i wasHanded))
  have short := (List.subperm_of_subset ledger.distinct inRange).length_le
  rw [ledger.counted]
  simpa using short

/-- A page that is handed out is live from then on. -/
theorem handOut
    (ledger : PageLedger start handed isFree live count)
    (notLive : handed n → isFree n)
    (laterIff : ∀ j, later j ↔ handed j ∨ j = n)
    (freeIff : ∀ j, later j → (laterFree j ↔ isFree j ∧ j ≠ n)) :
    PageLedger start later laterFree ((start + n * PAGE_SIZE) :: live)
      (count + 1) := by
  have fresh : start + n * PAGE_SIZE ∉ live := by
    intro isLive
    obtain ⟨i, wasHanded, notFree, same⟩ := (ledger.live_iff _).mp isLive
    obtain rfl := address_inj same
    exact notFree (notLive wasHanded)
  refine ⟨List.nodup_cons.mpr ⟨fresh, ledger.distinct⟩, fun page => ?_, ?_⟩
  · rw [List.mem_cons, ledger.live_iff]
    constructor
    · rintro (rfl | ⟨i, wasHanded, notFree, rfl⟩)
      · have now := (laterIff n).mpr (.inr rfl)
        exact ⟨n, now, fun free => ((freeIff n now).mp free).2 rfl, rfl⟩
      · have still := (laterIff i).mpr (.inl wasHanded)
        exact ⟨i, still, fun free => notFree ((freeIff i still).mp free).1, rfl⟩
    · rintro ⟨i, now, notFree, rfl⟩
      by_cases here : i = n
      · exact .inl (by rw [here])
      · have wasHanded := ((laterIff i).mp now).resolve_right here
        exact .inr ⟨i, wasHanded,
          fun free => notFree ((freeIff i now).mpr ⟨free, here⟩), rfl⟩
  · rw [ledger.counted, List.length_cons]

/-- A page that is given back is no longer live. -/
theorem takeBack
    (ledger : PageLedger start handed isFree live count)
    (wasHanded : handed n)
    (notFree : ¬isFree n)
    (freeIff : ∀ j, handed j → (laterFree j ↔ isFree j ∨ j = n)) :
    PageLedger start handed laterFree (live.erase (start + n * PAGE_SIZE))
      (count - 1) := by
  have isLive := (ledger.live_iff _).mpr ⟨n, wasHanded, notFree, rfl⟩
  refine ⟨ledger.distinct.erase _, fun page => ?_, ?_⟩
  · rw [ledger.distinct.mem_erase_iff, ledger.live_iff]
    constructor
    · rintro ⟨other, i, still, taken, rfl⟩
      refine ⟨i, still, fun free => ?_, rfl⟩
      rcases (freeIff i still).mp free with before | rfl
      · exact taken before
      · exact other rfl
    · rintro ⟨i, still, taken, rfl⟩
      refine ⟨fun same => ?_, i, still,
        fun free => taken ((freeIff i still).mpr (.inl free)), rfl⟩
      obtain rfl := address_inj same
      exact taken ((freeIff i still).mpr (.inr rfl))
  · rw [ledger.counted, List.length_erase_of_mem isLive]

/-- The ledger depends on the meaning of its predicates only. -/
theorem congr
    (ledger : PageLedger start handed isFree live count)
    (laterIff : ∀ j, later j ↔ handed j)
    (freeIff : ∀ j, later j → (laterFree j ↔ isFree j)) :
    PageLedger start later laterFree live count := by
  refine ⟨ledger.distinct, fun page => ?_, ledger.counted⟩
  rw [ledger.live_iff]
  constructor
  · rintro ⟨i, wasHanded, taken, rfl⟩
    have now := (laterIff i).mpr wasHanded
    exact ⟨i, now, fun free => taken ((freeIff i now).mp free), rfl⟩
  · rintro ⟨i, now, taken, rfl⟩
    exact ⟨i, (laterIff i).mp now,
      fun free => taken ((freeIff i now).mpr free), rfl⟩

end PageLedger

/-- What the history of a run says about the pages that were handed out and
about those that are free. -/
structure PageRecord
    (start : Nat) (handed isFree : Nat → Prop) (events : List PageEvent) :
    Prop where
  freed_iff : ∀ page, page ∈ freedPages events ↔
    ∃ i, handed i ∧ isFree i ∧ page = start + i * PAGE_SIZE
  used_iff : ∀ page, page ≠ 0 ∧ .kalloc_page page ∈ events ↔
    ∃ i, handed i ∧ page = start + i * PAGE_SIZE

namespace PageRecord

variable {start n : Nat} {handed isFree later laterFree : Nat → Prop}
  {events : List PageEvent}

theorem handOut
    (record : PageRecord start handed isFree events)
    (nonzero : start + n * PAGE_SIZE ≠ 0)
    (laterIff : ∀ j, later j ↔ handed j ∨ j = n)
    (freeIff : ∀ j, later j → (laterFree j ↔ isFree j ∧ j ≠ n)) :
    PageRecord start later laterFree
      (events ++ [.kalloc_page (start + n * PAGE_SIZE)]) := by
  refine ⟨fun page => ?_, fun page => ?_⟩
  · rw [freedPages_append_singleton, freedBy, List.mem_filter,
      record.freed_iff, decide_eq_true_eq]
    constructor
    · rintro ⟨⟨i, wasHanded, free, rfl⟩, other⟩
      have still := (laterIff i).mpr (.inl wasHanded)
      exact ⟨i, still, (freeIff i still).mpr
        ⟨free, fun same => other (by rw [same])⟩, rfl⟩
    · rintro ⟨i, now, free, rfl⟩
      obtain ⟨before, other⟩ := (freeIff i now).mp free
      exact ⟨⟨i, ((laterIff i).mp now).resolve_right other, before, rfl⟩,
        fun same => other (PageLedger.address_inj same)⟩
  · rw [List.mem_append, List.mem_singleton, PageEvent.kalloc_page.injEq]
    constructor
    · rintro ⟨pageNonzero, earlier | rfl⟩
      · obtain ⟨i, wasHanded, here⟩ :=
          (record.used_iff page).mp ⟨pageNonzero, earlier⟩
        exact ⟨i, (laterIff i).mpr (.inl wasHanded), here⟩
      · exact ⟨n, (laterIff n).mpr (.inr rfl), rfl⟩
    · rintro ⟨i, now, rfl⟩
      rcases (laterIff i).mp now with wasHanded | rfl
      · obtain ⟨pageNonzero, earlier⟩ :=
          (record.used_iff _).mpr ⟨i, wasHanded, rfl⟩
        exact ⟨pageNonzero, .inl earlier⟩
      · exact ⟨nonzero, .inr rfl⟩

theorem takeBack
    (record : PageRecord start handed isFree events)
    (wasHanded : handed n)
    (freeIff : ∀ j, handed j → (laterFree j ↔ isFree j ∨ j = n)) :
    PageRecord start handed laterFree
      (events ++ [.kfree_page (start + n * PAGE_SIZE)]) := by
  refine ⟨fun page => ?_, fun page => ?_⟩
  · rw [freedPages_append_singleton, freedBy, List.mem_cons, record.freed_iff]
    constructor
    · rintro (rfl | ⟨i, still, free, rfl⟩)
      · exact ⟨n, wasHanded, (freeIff n wasHanded).mpr (.inr rfl), rfl⟩
      · exact ⟨i, still, (freeIff i still).mpr (.inl free), rfl⟩
    · rintro ⟨i, still, free, rfl⟩
      rcases (freeIff i still).mp free with before | rfl
      · exact .inr ⟨i, still, before, rfl⟩
      · exact .inl rfl
  · rw [List.mem_append, List.mem_singleton, ← record.used_iff]
    simp only [reduceCtorEq, or_false]

/-- Events that hand out and give back nothing leave the record as it is. -/
theorem idle
    (record : PageRecord start handed isFree events)
    {event : PageEvent}
    (noPage : event = .kalloc_page 0 ∨ event = .write)
    (nonzero : ∀ i, handed i → start + i * PAGE_SIZE ≠ 0)
    (laterIff : ∀ j, later j ↔ handed j)
    (freeIff : ∀ j, later j → (laterFree j ↔ isFree j)) :
    PageRecord start later laterFree (events ++ [event]) := by
  have freedSame : ∀ page, page ∈ freedBy (freedPages events) event ↔
      page ∈ freedPages events := by
    intro page
    rcases noPage with rfl | rfl
    · rw [freedBy, List.mem_filter, and_iff_left_iff_imp]
      intro freed
      obtain ⟨i, wasHanded, -, rfl⟩ := (record.freed_iff page).mp freed
      exact decide_eq_true (nonzero i wasHanded)
    · rfl
  refine ⟨fun page => ?_, fun page => ?_⟩
  · rw [freedPages_append_singleton, freedSame, record.freed_iff]
    constructor
    · rintro ⟨i, wasHanded, free, rfl⟩
      have now := (laterIff i).mpr wasHanded
      exact ⟨i, now, (freeIff i now).mpr free, rfl⟩
    · rintro ⟨i, now, free, rfl⟩
      exact ⟨i, (laterIff i).mp now, (freeIff i now).mp free, rfl⟩
  · have sameUses : page ≠ 0 ∧ .kalloc_page page ∈ events ++ [event] ↔
        page ≠ 0 ∧ .kalloc_page page ∈ events := by
      apply and_congr_right
      intro pageNonzero
      rw [List.mem_append, List.mem_singleton]
      apply or_iff_left
      rintro rfl
      rcases noPage with same | same
      · exact pageNonzero (PageEvent.kalloc_page.inj same)
      · cases same
    rw [sameUses, record.used_iff]
    simp only [laterIff]

end PageRecord

/-! ## The invariant -/

/-- The page was handed out at least once. -/
def Handed (heap : PageHeap) (i : Nat) : Prop :=
  0 < i ∧ i < heap.mem_page_length

/-- The entry of the page is a link, or the frontier. -/
def OpenPage (xlen : Xlen) (heap : PageHeap) : Nat → Prop :=
  Open (entries xlen heap) heap.mem_page_length

/-- The invariant of runs inside the first group. -/
structure OrderInvariant
    (xlen : Xlen) (events : List PageEvent) (state : PageState) : Prop where
  growing : Growing xlen state.heap
  addressed : state.heap.mem_page_start +
    state.heap.mem_page_length * PAGE_SIZE ≤ xlen.size
  ledger : PageLedger state.heap.mem_page_start (Handed state.heap)
    (OpenPage xlen state.heap) state.live state.heap.mem_page_num_allocated
  record : PageRecord state.heap.mem_page_start (Handed state.heap)
    (OpenPage xlen state.heap) events

namespace OrderInvariant

variable {xlen : Xlen} {heap after : PageHeap} {live : List Nat}
  {events : List PageEvent}

theorem startCall
    (invariant : OrderInvariant xlen events ⟨heap, live⟩) :
    OrderInvariant xlen events ⟨heap.startCall, live⟩ :=
  ⟨invariant.growing.startCall, invariant.addressed, invariant.ledger,
    invariant.record⟩

/-- Pages below the frontier have addresses. -/
theorem pageAt_eq
    (invariant : OrderInvariant xlen events ⟨heap, live⟩)
    {i : Nat}
    (below : i < heap.mem_page_length) :
    pageAt xlen heap.mem_page_start i = heap.mem_page_start + i * PAGE_SIZE := by
  have addressed := invariant.addressed
  have offset : (i + 1) * PAGE_SIZE ≤ heap.mem_page_length * PAGE_SIZE :=
    Nat.mul_le_mul_right _ below
  apply Xlen.wrap_of_lt
  dsimp only at addressed
  unfold PAGE_SIZE at *
  omega

/-- The number of live pages fits into a register. -/
theorem count_fits
    (invariant : OrderInvariant xlen events ⟨heap, live⟩) :
    heap.mem_page_num_allocated + 1 < xlen.size := by
  have few := invariant.ledger.count_le fun i handed => handed.2
  have inGroup := invariant.growing.inGroup
  have small := pageEntries_lt_size xlen
  dsimp only at few inGroup
  omega

/-- A page that is handed out joins the live pages. -/
theorem handOut
    {n : Nat}
    (invariant : OrderInvariant xlen events ⟨heap, live⟩)
    (growing : Growing xlen after)
    (start_eq : after.mem_page_start = heap.mem_page_start)
    (counted : after.mem_page_num_allocated =
      xlen.wrap (heap.mem_page_num_allocated + 1))
    (addressed : heap.mem_page_start + after.mem_page_length * PAGE_SIZE ≤
      xlen.size)
    (positive : 0 < n)
    (isOpen : Handed heap n → OpenPage xlen heap n)
    (laterIff : ∀ j, Handed after j ↔ Handed heap j ∨ j = n)
    (openIff : ∀ j, Handed after j →
      (OpenPage xlen after j ↔ OpenPage xlen heap j ∧ j ≠ n)) :
    OrderInvariant xlen
      (events ++ [.kalloc_page (heap.mem_page_start + n * PAGE_SIZE)])
      ⟨after, (heap.mem_page_start + n * PAGE_SIZE) :: live⟩ := by
  have nonzero : heap.mem_page_start + n * PAGE_SIZE ≠ 0 := by
    unfold PAGE_SIZE
    omega
  have fits := invariant.count_fits
  have ledger := invariant.ledger.handOut isOpen laterIff openIff
  have record := invariant.record.handOut nonzero laterIff openIff
  rw [Xlen.wrap_of_lt fits] at counted
  refine ⟨growing, ?_, ?_, ?_⟩
  · rw [start_eq]
    exact addressed
  · rw [start_eq, counted]
    exact ledger
  · rw [start_eq]
    exact record

/-- Entries that agree up to the frontier have the same open pages. -/
theorem openPage_congr
    {link : Nat → Nat}
    (same : ∀ i ≤ after.mem_page_length, entries xlen after i = link i)
    (j : Nat) :
    OpenPage xlen after j ↔ Open link after.mem_page_length j := by
  apply and_congr_right
  intro _
  apply and_congr_right
  intro within
  rw [same j within]

/-- Taking the first page that was given back. -/
theorem kalloc_page_reuses
    (invariant : OrderInvariant xlen events ⟨heap, live⟩)
    (reused : heap.mem_page_next_free < heap.mem_page_length) :
    ∃ after,
      Memalloc.kalloc_page xlen heap =
        (heap.mem_page_start + heap.mem_page_next_free * PAGE_SIZE, after) ∧
      OrderInvariant xlen
        (events ++ [.kalloc_page
          (heap.mem_page_start + heap.mem_page_next_free * PAGE_SIZE)])
        ⟨after, (heap.mem_page_start + heap.mem_page_next_free * PAGE_SIZE) ::
          live⟩ := by
  have growing : Growing xlen heap := invariant.growing
  have isOpen := growing.head_open
  have inGroup := growing.inGroup
  have counted := num_allocated_growing growing
  rw [if_neg (fun both => reused.ne both.1)] at counted
  obtain ⟨after, returns, within, length, next, updated⟩ :=
    kalloc_page_reuse growing reused
  rw [returns] at counted
  rw [invariant.pageAt_eq reused] at returns
  refine ⟨after, returns, invariant.handOut
    (growing.reuse reused within length next updated) within.start_eq counted
    ?_ isOpen.1 (fun _ => isOpen) ?_ ?_⟩
  · rw [length]
    exact invariant.addressed
  · intro j
    unfold Handed
    rw [length]
    have := isOpen.1
    omega
  · intro j handed
    rw [openPage_congr (fun i within => updated i (by omega)), length,
      growing.head]
    exact growing.threaded.open_take_iff j

/-- Moving the frontier up by one page. -/
theorem kalloc_page_grows
    (invariant : OrderInvariant xlen events ⟨heap, live⟩)
    (atFrontier : heap.mem_page_next_free = heap.mem_page_length)
    (room : heap.mem_page_length ≠ heap.mem_page_max_length)
    (inside : heap.mem_page_length + 1 < pageEntries xlen)
    (fits : heap.mem_page_start + heap.mem_page_length * PAGE_SIZE <
      xlen.size) :
    ∃ after,
      Memalloc.kalloc_page xlen heap =
        (heap.mem_page_start + heap.mem_page_length * PAGE_SIZE, after) ∧
      OrderInvariant xlen
        (events ++ [.kalloc_page
          (heap.mem_page_start + heap.mem_page_length * PAGE_SIZE)])
        ⟨after, (heap.mem_page_start + heap.mem_page_length * PAGE_SIZE) ::
          live⟩ := by
  have growing : Growing xlen heap := invariant.growing
  have isOpen := growing.head_open
  have counted := num_allocated_growing growing
  rw [if_neg (fun both => room both.2)] at counted
  obtain ⟨after, returns, within, length, next, updated⟩ :=
    kalloc_page_grow growing atFrontier room inside
  have full : entries xlen heap 0 = heap.mem_page_length :=
    growing.head.symm.trans atFrontier
  have unused := growing.fresh (heap.mem_page_length + 1) (by omega) inside
  rw [returns] at counted
  rw [pageAt, atFrontier, Xlen.wrap_of_lt fits] at returns
  rw [atFrontier] at isOpen
  refine ⟨after, returns, invariant.handOut
    (growing.grow atFrontier room inside within length next updated)
    within.start_eq counted ?_ isOpen.1 (fun _ => isOpen) ?_ ?_⟩
  · have startAligned := growing.base.aligned
    have sizeAligned := page_dvd_size xlen
    rw [length]
    unfold PAGE_SIZE at *
    omega
  · intro j
    unfold Handed
    rw [length]
    have := isOpen.1
    omega
  · intro j handed
    have below := handed.2
    rw [length] at below
    rw [openPage_congr (fun i within => updated i (by omega)), length,
      growing.threaded.open_extend_iff full (by omega)]
    constructor
    · intro top
      omega
    · rintro ⟨wasOpen, other⟩
      have := growing.threaded.head_le wasOpen
      omega

/-- A call that stays in the group does not hand out its last page. -/
theorem inside_of_stays
    (growing : Growing xlen heap)
    (atFrontier : heap.mem_page_next_free = heap.mem_page_length)
    (room : heap.mem_page_length ≠ heap.mem_page_max_length)
    (stays : (Memalloc.kalloc_page xlen heap).2.mem_page_length <
      pageEntries xlen) :
    heap.mem_page_length + 1 < pageEntries xlen := by
  by_contra outside
  have inGroup := growing.inGroup
  have leaves := kalloc_page_leaves growing atFrontier (by omega) room
  omega

/-- A call of `kalloc_page` without a free page. -/
theorem kalloc_page_fails
    (invariant : OrderInvariant xlen events ⟨heap, live⟩)
    (atFrontier : heap.mem_page_next_free = heap.mem_page_length)
    (full : heap.mem_page_length = heap.mem_page_max_length) :
    ∃ accessed,
      Memalloc.kalloc_page xlen heap =
        (0, { heap with accessed := accessed }) ∧
      OrderInvariant xlen (events ++ [.kalloc_page 0])
        ⟨{ heap with accessed := accessed }, live⟩ := by
  have growing : Growing xlen heap := invariant.growing
  obtain ⟨accessed, returns⟩ := kalloc_page_refuses growing atFrontier full
  refine ⟨accessed, returns, ⟨growing.base, growing.threaded, growing.head,
    growing.inGroup, growing.fresh, growing.bounded⟩, invariant.addressed,
    invariant.ledger, ?_⟩
  apply invariant.record.idle (.inl rfl) ?_ (fun _ => Iff.rfl)
    (fun _ _ => Iff.rfl)
  intro i handed
  have := handed.1
  unfold PAGE_SIZE
  omega

/-- A call of `kalloc_page` inside the first group. -/
theorem kalloc_page
    {result : Nat}
    (invariant : OrderInvariant xlen events ⟨heap, live⟩)
    (call : Memalloc.kalloc_page xlen heap = (result, after))
    (inGroup : after.mem_page_length < pageEntries xlen)
    (addressed : PageAddressed xlen heap) :
    OrderInvariant xlen (events ++ [.kalloc_page result])
      ⟨after, if result = 0 then live else result :: live⟩ := by
  have growing : Growing xlen heap := invariant.growing
  obtain ⟨positive, nextWithin, -⟩ := growing.head_open
  have handedNonzero {n : Nat} (nPositive : 0 < n) :
      heap.mem_page_start + n * PAGE_SIZE ≠ 0 := by
    unfold PAGE_SIZE
    omega
  rcases Nat.lt_or_eq_of_le nextWithin with reused | atFrontier
  · obtain ⟨other, returns, kept⟩ := invariant.kalloc_page_reuses reused
    obtain ⟨rfl, rfl⟩ := Prod.mk.inj (call.symm.trans returns)
    rw [if_neg (handedNonzero positive)]
    exact kept
  by_cases full : heap.mem_page_length = heap.mem_page_max_length
  · obtain ⟨accessed, returns, kept⟩ :=
      invariant.kalloc_page_fails atFrontier full
    obtain ⟨rfl, rfl⟩ := Prod.mk.inj (call.symm.trans returns)
    exact kept
  · have inside := inside_of_stays growing atFrontier full
      (by rw [call]; exact inGroup)
    rw [PageAddressed, atFrontier] at addressed
    obtain ⟨other, returns, kept⟩ := invariant.kalloc_page_grows atFrontier
      full inside (addressed.resolve_left full)
    obtain ⟨rfl, rfl⟩ := Prod.mk.inj (call.symm.trans returns)
    rw [if_neg (handedNonzero growing.threaded.positive)]
    exact kept

/-- A call of `kfree_page` on a live page. -/
theorem kfree_page
    {ptr : Nat}
    (invariant : OrderInvariant xlen events ⟨heap, live⟩)
    (isLive : ptr ∈ live) :
    OrderInvariant xlen (events ++ [.kfree_page ptr])
      ⟨Memalloc.kfree_page xlen heap ptr, live.erase ptr⟩ := by
  have growing : Growing xlen heap := invariant.growing
  have fits := invariant.count_fits
  have counted : heap.mem_page_num_allocated = live.length :=
    invariant.ledger.counted
  have some_ := List.length_pos_of_mem isLive
  obtain ⟨i, handed, closed, rfl⟩ := (invariant.ledger.live_iff ptr).mp isLive
  have positive := handed.1
  have below : i < heap.mem_page_length := handed.2
  have taken : entries xlen heap i = 1 := by
    by_contra free
    exact closed ⟨positive, below.le, free⟩
  obtain ⟨after, final, call, within, length, finalBelow, finalLinked,
    between, updated, next, num⟩ := kfree_page_gives growing positive below taken
  have openIff : ∀ j, Handed heap j →
      (OpenPage xlen after j ↔ OpenPage xlen heap j ∨ j = i) := by
    intro j _
    rw [OpenPage, updated, length]
    exact growing.threaded.open_give_iff positive below taken finalBelow
      finalLinked between j
  have handedSame : Handed after = Handed heap := by
    funext j
    rw [Handed, Handed, length]
  have numLess : after.mem_page_num_allocated =
      heap.mem_page_num_allocated - 1 := by
    rw [num, Xlen.wrap_of_le (by omega) (by omega)]
    omega
  rw [call]
  refine ⟨growing.give positive below taken within length finalBelow
    finalLinked between updated next, ?_, ?_, ?_⟩
  · rw [within.start_eq, length]
    exact invariant.addressed
  · rw [within.start_eq, handedSame, numLess]
    exact invariant.ledger.takeBack handed closed openIff
  · rw [within.start_eq, handedSame]
    exact invariant.record.takeBack handed openIff

/-- What callers write is no entry. -/
theorem entries_write
    {mem : Nat → Nat}
    {i : Nat}
    (invariant : OrderInvariant xlen events ⟨heap, live⟩)
    (inside : ∀ cell, (∀ page ∈ live, ¬(pageRegion page).Contains cell) →
      mem cell = heap.mem cell)
    (inGroup : i < pageEntries xlen) :
    entries xlen { heap.startCall with mem := mem } i = entries xlen heap i := by
  refine entries_of_outside rfl (fun cell inSection => ?_) inGroup
  apply inside cell
  intro page isLive inPage
  obtain ⟨j, handed, -, rfl⟩ := (invariant.ledger.live_iff page).mp isLive
  have := handed.1
  simp only [pageRegion, Region.Contains, PAGE_SIZE] at *
  omega

/-- Callers write outside the section of the group. -/
theorem write
    {mem : Nat → Nat}
    (invariant : OrderInvariant xlen events ⟨heap, live⟩)
    (inside : ∀ cell, (∀ page ∈ live, ¬(pageRegion page).Contains cell) →
      mem cell = heap.mem cell) :
    OrderInvariant xlen (events ++ [.write])
      ⟨{ heap.startCall with mem := mem }, live⟩ := by
  have growing : Growing xlen heap := invariant.growing
  have inGroup := growing.inGroup
  have same (i : Nat) (iInGroup : i < pageEntries xlen) :=
    invariant.entries_write inside iInGroup
  have openIff (j : Nat) : OpenPage xlen { heap.startCall with mem := mem } j ↔
      OpenPage xlen heap j :=
    openPage_congr (fun i within => same i (Nat.lt_of_le_of_lt within inGroup))
      j
  refine ⟨⟨growing.base, growing.threaded.congr fun i within =>
    same i (by omega), ?_, inGroup, fun i behind below => ?_,
    growing.bounded⟩, invariant.addressed, ?_, ?_⟩
  · rw [same 0 (by omega)]
    exact growing.head
  · rw [same i below]
    exact growing.fresh i behind below
  · exact invariant.ledger.congr (fun _ => Iff.rfl) fun j _ => openIff j
  · apply invariant.record.idle (.inr rfl) ?_ (fun _ => Iff.rfl)
      fun j _ => openIff j
    intro i handed
    have := handed.1
    unfold PAGE_SIZE
    omega

/-- The step lemma. -/
theorem step
    {before afterwards : PageState}
    {event : PageEvent}
    (invariant : OrderInvariant xlen events before)
    (taken : AddressedStep xlen before event afterwards) :
    OrderInvariant xlen (events ++ [event]) afterwards := by
  obtain ⟨⟨step, inGroup⟩, addressed⟩ := taken
  cases step with
  | kalloc_page call =>
      exact invariant.startCall.kalloc_page call inGroup (addressed _ rfl)
  | kfree_page isLive => exact invariant.startCall.kfree_page isLive
  | write inside => exact invariant.write inside

/-- The invariant is what callers see. -/
theorem freeListOrder
    {state : PageState}
    (invariant : OrderInvariant xlen events state) :
    FreeListOrder xlen events state := by
  obtain ⟨heap, live⟩ := state
  have growing : Growing xlen heap := invariant.growing
  obtain ⟨pages, follows, ascending, listed⟩ := growing.threaded.follows
  have nameOf {i : Nat} (below : i < heap.mem_page_length) :=
    invariant.pageAt_eq below
  refine ⟨⟨pages, ?_, ?_, fun page => ?_⟩, fun page => ?_, ?_, ?_, ?_⟩
  · rw [growing.head]
    exact follows
  · apply List.pairwise_append.mpr ⟨ascending, List.pairwise_singleton _ _, ?_⟩
    intro i present j isLast
    rw [List.mem_singleton.mp isLast]
    exact ((listed i).mp present).1
  · rw [invariant.record.freed_iff]
    constructor
    · rintro ⟨i, handed, isOpen, rfl⟩
      exact ⟨i, (listed i).mpr ⟨handed.2, isOpen⟩, (nameOf handed.2).symm⟩
    · rintro ⟨i, present, rfl⟩
      obtain ⟨below, isOpen⟩ := (listed i).mp present
      exact ⟨i, ⟨isOpen.1, below⟩, isOpen, nameOf below⟩
  · rw [invariant.record.used_iff]
    constructor
    · rintro ⟨i, ⟨positive, below⟩, rfl⟩
      exact ⟨i, positive, below, (nameOf below).symm⟩
    · rintro ⟨i, positive, below, rfl⟩
      exact ⟨i, ⟨positive, below⟩, nameOf below⟩
  · exact growing.fresh _ le_rfl growing.inGroup
  · exact growing.head.symm
  · exact invariant.ledger.counted

/-- Every free page comes at or behind the next one. -/
theorem next_le_of_freePage
    (invariant : OrderInvariant xlen events ⟨heap, live⟩)
    {page : Nat}
    (free : FreePage events heap page) :
    ∃ i, heap.mem_page_next_free ≤ i ∧
      page = heap.mem_page_start + i * PAGE_SIZE ∧
      (i < heap.mem_page_length ∨ i < heap.mem_page_max_length) := by
  have growing : Growing xlen heap := invariant.growing
  rcases free with freed | ⟨i, unused, below, rfl⟩
  · obtain ⟨i, handed, isOpen, rfl⟩ := (invariant.record.freed_iff page).mp freed
    refine ⟨i, ?_, rfl, .inl handed.2⟩
    rw [growing.head]
    exact growing.threaded.head_le isOpen
  · exact ⟨i, growing.head_open.2.1.trans unused, rfl, .inr below⟩

/-- The page of the next index is the lowest free page, if it is free. -/
theorem isLeast_next
    (invariant : OrderInvariant xlen events ⟨heap, live⟩)
    (free : FreePage events heap
      (heap.mem_page_start + heap.mem_page_next_free * PAGE_SIZE)) :
    IsLeast { page | FreePage events heap page }
      (heap.mem_page_start + heap.mem_page_next_free * PAGE_SIZE) := by
  refine ⟨free, fun page pageFree => ?_⟩
  obtain ⟨i, above, rfl, -⟩ := invariant.next_le_of_freePage pageFree
  exact Nat.add_le_add_left (Nat.mul_le_mul_right _ above) _

/-- `kalloc_page` returns the lowest free page exactly if that page has an
address. -/
theorem returnsLowest_iff
    (invariant : OrderInvariant xlen events ⟨heap, live⟩)
    (stays : (Memalloc.kalloc_page xlen heap).2.mem_page_length <
      pageEntries xlen) :
    ReturnsLowest xlen events heap ↔ PageAddressed xlen heap := by
  have growing : Growing xlen heap := invariant.growing
  have isOpen := growing.head_open
  have bounded := growing.bounded
  rcases Nat.lt_or_eq_of_le isOpen.2.1 with reused | atFrontier
  · obtain ⟨after, returns, -⟩ := invariant.kalloc_page_reuses reused
    have addressed : PageAddressed xlen heap := by
      right
      rw [← invariant.pageAt_eq reused]
      exact xlen.wrap_lt _
    apply iff_of_true ?_ addressed
    left
    rw [returns]
    apply invariant.isLeast_next
    left
    exact (invariant.record.freed_iff _).mpr
      ⟨_, ⟨isOpen.1, reused⟩, isOpen, rfl⟩
  by_cases full : heap.mem_page_length = heap.mem_page_max_length
  · obtain ⟨accessed, returns, -⟩ :=
      invariant.kalloc_page_fails atFrontier full
    refine iff_of_true (.inr ⟨fun page free => ?_, accessed, returns⟩)
      (.inl (atFrontier.trans full))
    obtain ⟨i, above, -, below⟩ := invariant.next_le_of_freePage free
    omega
  have unused : FreePage events heap
      (heap.mem_page_start + heap.mem_page_next_free * PAGE_SIZE) :=
    .inr ⟨_, atFrontier.ge, by omega, rfl⟩
  constructor
  · rintro (lowest | ⟨none_, -⟩)
    · right
      have unique := lowest.unique (invariant.isLeast_next unused)
      rw [kalloc_page_result growing, if_neg (fun both => full both.2)]
        at unique
      rw [← unique]
      exact xlen.wrap_lt _
    · exact absurd unused (none_ _)
  · intro addressed
    rw [PageAddressed, atFrontier] at addressed
    obtain ⟨after, returns, -⟩ := invariant.kalloc_page_grows atFrontier full
      (inside_of_stays growing atFrontier full stays)
      (addressed.resolve_left full)
    left
    rw [returns, ← atFrontier]
    exact invariant.isLeast_next unused

end OrderInvariant

/-! ## Whole runs -/

section Runs

variable {xlen : Xlen} {block_start block_end capacity : Nat}

/-- The invariant holds of a block that was just set up, for any capacity that
counts the page with the metadata. -/
theorem orderInvariant_pageinitWithCapacity
    (accepts : kalloc_pageinitAccepts xlen block_start block_end)
    (fits : block_end < xlen.size)
    (positive : 1 ≤ capacity)
    (heap : PageHeap) :
    OrderInvariant xlen []
      ⟨pageinitWithCapacity xlen heap block_start block_end capacity, []⟩ := by
  obtain ⟨growing, next, length, start, max⟩ :=
    growing_kalloc_pageinit accepts fits heap
  have room := growing.base.room
  have nothing (i : Nat) : ¬Handed
      (pageinitWithCapacity xlen heap block_start block_end capacity) i := by
    rintro ⟨iPositive, below⟩
    have : i < 1 := by
      rw [← length]
      exact below
    omega
  have num : (kalloc_pageinit xlen heap block_start
      block_end).mem_page_num_allocated = 0 := by
    simp [kalloc_pageinit, accepts]
  refine ⟨⟨growing.base, growing.threaded, growing.head, growing.inGroup,
    growing.fresh, ?_⟩, ?_, ⟨.nil, fun page => ?_, num⟩,
    ⟨fun page => ?_, fun page => ?_⟩⟩
  · change (kalloc_pageinit xlen heap block_start block_end).mem_page_length ≤
      capacity
    omega
  · change (kalloc_pageinit xlen heap block_start block_end).mem_page_start +
      (kalloc_pageinit xlen heap block_start block_end).mem_page_length *
        PAGE_SIZE ≤ xlen.size
    rw [length, Nat.one_mul]
    exact room.le
  all_goals simp [nothing]

/-- A block with two pages hands out one and takes it back. -/
theorem exists_run_freed
    (accepts : kalloc_pageinitAccepts xlen block_start block_end)
    (fits : block_end < xlen.size)
    (two : 1 < capacity)
    (heap : PageHeap) :
    ∃ page state,
      page ≠ 0 ∧
      Run (AddressedStep xlen)
        ⟨pageinitWithCapacity xlen heap block_start block_end capacity, []⟩
        [.kalloc_page page, .kfree_page page] state := by
  have initially :=
    orderInvariant_pageinitWithCapacity accepts fits two.le heap
  obtain ⟨-, next, length, -, -⟩ := growing_kalloc_pageinit accepts fits heap
  generalize opened : pageinitWithCapacity xlen heap block_start block_end capacity =
    first at initially
  have nextOne : first.mem_page_next_free = 1 := by
    rw [← opened]
    exact next
  have lengthOne : first.mem_page_length = 1 := by
    rw [← opened]
    exact length
  have max : first.mem_page_max_length = capacity := by rw [← opened]; rfl
  have large := pageEntries_gt xlen
  have room := initially.growing.base.room
  obtain ⟨after, call, -, afterLength, -⟩ := kalloc_page_grow initially.growing.startCall
    (nextOne.trans lengthOne.symm) (by simp [PageHeap.startCall, lengthOne, max, two.ne])
    (by simp only [PageHeap.startCall, lengthOne]; omega)
  have nonzero : pageAt xlen first.mem_page_start first.mem_page_next_free ≠ 0 := by
    rw [pageAt, nextOne, Nat.one_mul, Xlen.wrap_of_lt room, PAGE_SIZE]
    omega
  have alloc : AddressedStep xlen ⟨first, []⟩ _ _ :=
    ⟨⟨.kalloc_page call, by simp only [afterLength, PageHeap.startCall, lengthOne]; omega⟩,
      fun _ _ => .inr (by rwa [nextOne, Nat.one_mul])⟩
  have isLive : pageAt xlen first.mem_page_start first.mem_page_next_free ∈
      if pageAt xlen first.mem_page_start first.mem_page_next_free = 0 then []
      else [pageAt xlen first.mem_page_start first.mem_page_next_free] := by
    rw [if_neg nonzero]
    exact List.mem_singleton_self _
  have free : AddressedStep xlen _ (.kfree_page _) _ :=
    ⟨⟨.kfree_page isLive,
      ((initially.step alloc).startCall.kfree_page isLive).growing.inGroup⟩,
      fun _ other => by cases other⟩
  exact ⟨_, _, nonzero, (Run.single alloc).snoc free⟩

/-- The order of the free list over whole runs.  For every capacity, in every
run inside the first group whose calls of `kalloc_page` find a page with an
address or the capacity reached, the links lead in ascending order through the
free pages and the live pages are counted; and the next call inside the group
returns the lowest free page, or fails without a change, exactly if it finds
that as well. -/
theorem page_free_list_order
    (accepts : kalloc_pageinitAccepts xlen block_start block_end)
    (fits : block_end < xlen.size)
    (positive : 1 ≤ capacity)
    {heap : PageHeap}
    {events : List PageEvent}
    {state : PageState}
    (run : Run (AddressedStep xlen)
      ⟨pageinitWithCapacity xlen heap block_start block_end capacity, []⟩
      events state) :
    FreeListOrder xlen events state ∧
      ((kalloc_page xlen state.heap.startCall).2.mem_page_length <
          pageEntries xlen →
        (ReturnsLowest xlen events state.heap.startCall ↔
          PageAddressed xlen state.heap)) := by
  have invariant : OrderInvariant xlen events state :=
    run.invariant_history (fun events state => OrderInvariant xlen events state)
      (fun taken kept => kept.step taken)
      (orderInvariant_pageinitWithCapacity accepts fits positive heap)
  exact ⟨invariant.freeListOrder,
    fun stays => invariant.startCall.returnsLowest_iff stays⟩

end Runs

/-- On a block of 16 pages, with the capacity that its pages give it, a page is handed
out and freed. -/
theorem page_free_list_order_freed_page :
    ∃ page state,
      page ≠ 0 ∧
      Run (AddressedStep .rv64) ⟨pageinitWithCapacity .rv64
          ⟨0, 0, 0, 0, 0, 0, fun _ => 0, []⟩ 0x80000000 0x80010000 15, []⟩
        [.kalloc_page page, .kfree_page page] state ∧
      FreeListOrder .rv64 [.kalloc_page page, .kfree_page page] state ∧
      ((kalloc_page .rv64 state.heap.startCall).2.mem_page_length <
          pageEntries .rv64 →
        (ReturnsLowest .rv64 [.kalloc_page page, .kfree_page page]
            state.heap.startCall ↔
          PageAddressed .rv64 state.heap)) := by
  have accepts : kalloc_pageinitAccepts .rv64 0x80000000 0x80010000 := by decide
  have fits : 0x80010000 < Xlen.rv64.size := by decide
  obtain ⟨page, state, nonzero, run⟩ := @exists_run_freed _ _ _ 15 accepts fits
    (by decide) ⟨0, 0, 0, 0, 0, 0, fun _ => 0, []⟩
  exact ⟨page, state, nonzero, run, page_free_list_order accepts fits (by decide) run⟩

/-- At the frontier of a long block a call counts one page more. -/
theorem AtFrontier.num_allocated
    {xlen : Xlen}
    {count : Nat}
    {heap : PageHeap}
    (frontier : AtFrontier xlen count heap) :
    (Memalloc.kalloc_page xlen heap.startCall).2.mem_page_num_allocated =
      xlen.wrap (heap.mem_page_num_allocated + 1) := by
  have long := frontier.long
  have inGroup := frontier.inGroup
  rw [num_allocated_growing frontier.startCall, if_neg]
  · rfl
  · rintro ⟨-, full⟩
    simp only [PageHeap.startCall] at full
    omega

/-- In the last pages of the address space the second page handed out has no
address: the call returns 0 and counts it. -/
theorem free_list_order_wraps :
    ¬∀ events state,
      Run (OneGroupStep .rv32)
        ⟨kalloc_pageinit .rv32 ⟨0, 0, 0, 0, 0, 0, fun _ => 0, []⟩ 0xFFFFD000
          0xFFFFF000, []⟩ events state →
      FreeListOrder .rv32 events state := by
  intro claimed
  have accepts : kalloc_pageinitAccepts .rv32 0xFFFFD000 0xFFFFF000 := by
    decide
  have initially := atFrontier_kalloc_pageinit accepts (by decide) (by decide)
    ⟨0, 0, 0, 0, 0, 0, fun _ => 0, []⟩
  have start : (kalloc_pageinit .rv32 ⟨0, 0, 0, 0, 0, 0, fun _ => 0, []⟩
      0xFFFFD000 0xFFFFF000).mem_page_start = 0xFFFFE000 := by
    have := (growing_kalloc_pageinit accepts (by decide)
      ⟨0, 0, 0, 0, 0, 0, fun _ => 0, []⟩).2.2.2.1
    rw [this]
    decide
  have num : (kalloc_pageinit .rv32 ⟨0, 0, 0, 0, 0, 0, fun _ => 0, []⟩
      0xFFFFD000 0xFFFFF000).mem_page_num_allocated = 0 := by
    simp [kalloc_pageinit, accepts]
  generalize kalloc_pageinit .rv32 ⟨0, 0, 0, 0, 0, 0, fun _ => 0, []⟩
    0xFFFFD000 0xFFFFF000 = heap at claimed initially start num
  obtain ⟨first, firstCall, firstFrontier, firstStart⟩ :=
    initially.kalloc_page (by decide)
  obtain ⟨second, secondCall, secondFrontier, -⟩ :=
    firstFrontier.kalloc_page (by decide)
  have firstNum := initially.num_allocated
  have secondNum := firstFrontier.num_allocated
  rw [firstCall, num] at firstNum
  rw [secondCall] at secondNum
  have firstPage : pageAt .rv32 0xFFFFE000 1 = 0xFFFFF000 := by decide
  have secondPage : pageAt .rv32 0xFFFFE000 (1 + 1) = 0 := by decide
  rw [start, firstPage] at firstCall
  rw [firstStart, start, secondPage] at secondCall
  have firstStep : OneGroupStep .rv32 ⟨heap, []⟩ (.kalloc_page 0xFFFFF000)
      ⟨first, [0xFFFFF000]⟩ := by
    refine ⟨.kalloc_page firstCall, ?_⟩
    rw [firstFrontier.length_eq]
    decide
  have secondStep : OneGroupStep .rv32 ⟨first, [0xFFFFF000]⟩ (.kalloc_page 0)
      ⟨second, [0xFFFFF000]⟩ := by
    refine ⟨.kalloc_page secondCall, ?_⟩
    rw [secondFrontier.length_eq]
    decide
  have run := (Run.single firstStep).snoc secondStep
  have counted := (claimed _ _ run).counted
  change second.mem_page_num_allocated = 1 at counted
  rw [counted, firstNum] at secondNum
  exact absurd secondNum (by decide)

end Memalloc
end EchelonSbi
