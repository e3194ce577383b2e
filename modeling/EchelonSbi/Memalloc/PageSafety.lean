import EchelonSbi.Foundation.Transition
import EchelonSbi.Memalloc.PageOperations

/-!
# Runs of the page allocator

A run calls `kalloc_page`, frees pages that are live, and lets the callers
write inside their live pages.  Pages stay exclusive until a call reaches the
group boundary, where the section of the second group is placed in page 1.
-/

namespace EchelonSbi
namespace Memalloc

open Foundation
open PageHeap

/-- The allocator together with the pages its callers hold. -/
structure PageState where
  heap : PageHeap
  live : List Nat

/-- One event of a run. -/
inductive PageEvent where
  | kalloc_page (result : Nat)
  | kfree_page (ptr : Nat)
  | write
  deriving DecidableEq, Repr

/-- Forget the accesses of earlier calls. -/
def PageHeap.startCall (heap : PageHeap) : PageHeap :=
  { heap with accessed := [] }

/-- One step of a run of the page allocator and its callers. -/
inductive PageStep (xlen : Xlen) : PageState → PageEvent → PageState → Prop
  | kalloc_page {heap after : PageHeap} {live : List Nat} {result : Nat} :
      Memalloc.kalloc_page xlen heap.startCall = (result, after) →
      PageStep xlen ⟨heap, live⟩ (.kalloc_page result)
        ⟨after, if result = 0 then live else result :: live⟩
  | kfree_page {heap : PageHeap} {live : List Nat} {ptr : Nat} :
      ptr ∈ live →
      PageStep xlen ⟨heap, live⟩ (.kfree_page ptr)
        ⟨Memalloc.kfree_page xlen heap.startCall ptr, live.erase ptr⟩
  | write {heap : PageHeap} {live : List Nat} {mem : Nat → Nat} :
      (∀ cell, (∀ page ∈ live, ¬(pageRegion page).Contains cell) →
        mem cell = heap.mem cell) →
      PageStep xlen ⟨heap, live⟩ .write
        ⟨{ heap.startCall with mem := mem }, live⟩

/-- A page returned is not live, and no page that is live before or after the
step overlaps a section that the step reads or writes. -/
structure PageExclusive
    (before : PageState) (event : PageEvent) (after : PageState) : Prop where
  fresh : ∀ result, event = .kalloc_page result → result ≠ 0 →
    result ∉ before.live
  apart : ∀ page, page ∈ before.live ∨ page ∈ after.live →
    ∀ address ∈ after.heap.accessed,
      (pageRegion page).Apart (pageRegion address)

/-- A step that is no `kalloc_page` at the group boundary. -/
def RegularStep
    (xlen : Xlen)
    (before : PageState) (event : PageEvent) (after : PageState) : Prop :=
  PageStep xlen before event after ∧
    ∀ result, event = .kalloc_page result → ¬AtGroupBoundary xlen before.heap

/-- While the allocator grows, live pages are below the frontier and taken. -/
def OwnedGrowing (xlen : Xlen) (heap : PageHeap) (page : Nat) : Prop :=
  ∃ i, 0 < i ∧ i < heap.mem_page_length ∧ entries xlen heap i = 1 ∧
    page = pageAt xlen heap.mem_page_start i

/-- Afterwards they are some pages of the group. -/
def OwnedExhausted (xlen : Xlen) (heap : PageHeap) (page : Nat) : Prop :=
  ∃ i, 0 < i ∧ i < pageEntries xlen ∧
    page = pageAt xlen heap.mem_page_start i

/-- The invariant of regular runs. -/
structure PageInvariant (xlen : Xlen) (state : PageState) : Prop where
  distinct : state.live.Nodup
  owned :
    Growing xlen state.heap ∧
        (∀ page ∈ state.live, OwnedGrowing xlen state.heap page) ∨
      Exhausted xlen state.heap ∧
        ∀ page ∈ state.live, OwnedExhausted xlen state.heap page

namespace Growing

variable {xlen : Xlen} {heap after : PageHeap}

theorem startCall (growing : Growing xlen heap) :
    Growing xlen heap.startCall :=
  ⟨growing.base, growing.threaded, growing.head, growing.inGroup,
    growing.fresh, growing.bounded⟩

/-- Taking the first free page keeps the invariant. -/
theorem reuse
    (growing : Growing xlen heap)
    (reused : heap.mem_page_next_free < heap.mem_page_length)
    (within : WithinGroup heap after)
    (length : after.mem_page_length = heap.mem_page_length)
    (next : after.mem_page_next_free =
      entries xlen heap heap.mem_page_next_free)
    (updated : ∀ i < pageEntries xlen, entries xlen after i =
      Function.update
        (Function.update (entries xlen heap) heap.mem_page_next_free 1)
        0 (entries xlen heap heap.mem_page_next_free) i) :
    Growing xlen after := by
  have inGroup := growing.inGroup
  have positive := growing.threaded.positive
  refine ⟨?_, ?_, ?_, ?_, ?_, ?_⟩
  · rw [within.start_eq]
    exact growing.base
  · rw [length]
    have taken := growing.threaded.take (growing.head ▸ reused)
    rw [← growing.head] at taken
    exact taken.congr fun i within => updated i (by omega)
  · rw [next, updated 0 (by omega), Function.update_self]
  · rw [length]
    exact inGroup
  · intro i behind below
    rw [length] at behind
    rw [updated i below, Function.update_of_ne (by omega),
      Function.update_of_ne (by omega)]
    exact growing.fresh i behind below
  · rw [length, within.max_eq]
    exact growing.bounded

/-- Moving the frontier up keeps the invariant. -/
theorem grow
    (growing : Growing xlen heap)
    (atFrontier : heap.mem_page_next_free = heap.mem_page_length)
    (room : heap.mem_page_length ≠ heap.mem_page_max_length)
    (inside : heap.mem_page_length + 1 < pageEntries xlen)
    (within : WithinGroup heap after)
    (length : after.mem_page_length = heap.mem_page_length + 1)
    (next : after.mem_page_next_free = heap.mem_page_length + 1)
    (updated : ∀ i < pageEntries xlen, entries xlen after i =
      Function.update
        (Function.update (entries xlen heap) heap.mem_page_length 1)
        0 (heap.mem_page_length + 1) i) :
    Growing xlen after := by
  have positive := growing.threaded.positive
  have bounded := growing.bounded
  refine ⟨?_, ?_, ?_, ?_, ?_, ?_⟩
  · rw [within.start_eq]
    exact growing.base
  · rw [length]
    have unused := growing.fresh (heap.mem_page_length + 1) (by omega) inside
    have extended := growing.threaded.extend
      (growing.head.symm.trans atFrontier) (by omega)
    exact extended.congr fun i within => updated i (by omega)
  · rw [next, updated 0 (by omega), Function.update_self]
  · rw [length]
    exact inside
  · intro i behind below
    rw [length] at behind
    rw [updated i below, Function.update_of_ne (by omega),
      Function.update_of_ne (by omega)]
    exact growing.fresh i (by omega) below
  · rw [length, within.max_eq]
    omega

/-- Giving a page back keeps the invariant. -/
theorem give
    (growing : Growing xlen heap)
    {i final : Nat}
    (positive : 0 < i)
    (below : i < heap.mem_page_length)
    (taken : entries xlen heap i = 1)
    (within : WithinGroup heap after)
    (length : after.mem_page_length = heap.mem_page_length)
    (finalBelow : final < i)
    (finalLinked : final = 0 ∨ entries xlen heap final ≠ 1)
    (between : ∀ j, final < j → j < i → entries xlen heap j = 1)
    (updated : entries xlen after = Function.update
      (Function.update (entries xlen heap) i (entries xlen heap final))
      final i)
    (next : after.mem_page_next_free = entries xlen after 0) :
    Growing xlen after := by
  refine ⟨?_, ?_, next, ?_, ?_, ?_⟩
  · rw [within.start_eq]
    exact growing.base
  · rw [length, updated]
    exact growing.threaded.give positive below taken finalBelow finalLinked
      between
  · rw [length]
    exact growing.inGroup
  · intro j behind inGroup
    rw [length] at behind
    rw [updated, Function.update_of_ne (by omega),
      Function.update_of_ne (by omega)]
    exact growing.fresh j behind inGroup
  · rw [length, within.max_eq]
    exact growing.bounded

end Growing

section Owned

variable {xlen : Xlen} {heap after : PageHeap} {page : Nat}

theorem OwnedGrowing.exhausted
    (growing : Growing xlen heap)
    (owned : OwnedGrowing xlen heap page) :
    OwnedExhausted xlen heap page := by
  obtain ⟨i, positive, below, -, here⟩ := owned
  exact ⟨i, positive, below.trans growing.inGroup, here⟩

theorem OwnedExhausted.apart
    (base : PageBase xlen heap.mem_page_start)
    (owned : OwnedExhausted xlen heap page) :
    (pageRegion page).Apart (pageRegion heap.mem_page_start) := by
  obtain ⟨i, positive, inGroup, rfl⟩ := owned
  exact base.pageAt_apart positive inGroup

/-- The allocator has not handed out its first free page. -/
theorem Growing.head_not_owned (growing : Growing xlen heap) :
    ¬OwnedGrowing xlen heap
      (pageAt xlen heap.mem_page_start heap.mem_page_next_free) := by
  rintro ⟨i, positive, below, taken, same⟩
  obtain ⟨-, within, free⟩ := growing.head_open
  have inGroup := growing.inGroup
  have := growing.base.pageAt_inj (by omega) (by omega) same
  exact free (this ▸ taken)

/-- Taking a page keeps the others and adds the new one. -/
theorem OwnedGrowing.taken
    (within : WithinGroup heap after)
    (longer : heap.mem_page_length ≤ after.mem_page_length)
    {next value : Nat}
    (positive : 0 < next)
    (below : next < after.mem_page_length)
    (inGroup : after.mem_page_length ≤ pageEntries xlen)
    (updated : ∀ i < pageEntries xlen, entries xlen after i =
      Function.update (Function.update (entries xlen heap) next 1) 0 value i)
    (owned : OwnedGrowing xlen heap page ∨
      page = pageAt xlen heap.mem_page_start next) :
    OwnedGrowing xlen after page := by
  rcases owned with ⟨i, iPositive, iBelow, taken, rfl⟩ | rfl
  · refine ⟨i, iPositive, by omega, ?_, by rw [within.start_eq]⟩
    rw [updated i (by omega), Function.update_of_ne iPositive.ne']
    by_cases here : i = next
    · rw [here, Function.update_self]
    · rw [Function.update_of_ne here, taken]
  · refine ⟨next, positive, below, ?_, by rw [within.start_eq]⟩
    rw [updated next (by omega), Function.update_of_ne positive.ne',
      Function.update_self]

end Owned

namespace PageInvariant

variable {xlen : Xlen} {heap after : PageHeap} {live : List Nat}

/-- Live pages stay clear of the section of the group. -/
theorem live_apart
    (invariant : PageInvariant xlen ⟨heap, live⟩)
    {page : Nat}
    (isLive : page ∈ live) :
    (pageRegion page).Apart (pageRegion heap.mem_page_start) := by
  rcases invariant.owned with ⟨growing, owned⟩ | ⟨exhausted, owned⟩
  · exact ((owned page isLive).exhausted growing).apart growing.base
  · exact (owned page isLive).apart exhausted.base

/-- A step that only accesses the first section keeps the live pages
exclusive. -/
theorem exclusive
    {liveAfter : List Nat}
    {event : PageEvent}
    (before : PageInvariant xlen ⟨heap, live⟩)
    (afterwards : PageInvariant xlen ⟨after, liveAfter⟩)
    (within : WithinGroup heap.startCall after)
    (fresh : ∀ result, event = .kalloc_page result → result ≠ 0 →
      result ∉ live) :
    PageExclusive ⟨heap, live⟩ event ⟨after, liveAfter⟩ := by
  refine ⟨fresh, fun page isLive address accessed => ?_⟩
  have here : address = heap.mem_page_start :=
    (within.accessed address accessed).resolve_left (by simp [startCall])
  rw [here]
  rcases isLive with isLive | isLive
  · exact before.live_apart isLive
  · have start_eq : after.mem_page_start = heap.mem_page_start :=
      within.start_eq
    rw [← start_eq]
    exact afterwards.live_apart isLive

/-- A page that is not owned can join the live pages. -/
theorem distinct_cons
    {result : Nat}
    (distinct : live.Nodup)
    (fresh : result ∉ live) :
    (if result = 0 then live else result :: live).Nodup := by
  split
  · exact distinct
  · exact List.nodup_cons.mpr ⟨fresh, distinct⟩

/-- What a growing allocator returns when it does not reach the boundary. -/
theorem kalloc_page_growing
    (distinct : live.Nodup)
    (growing : Growing xlen heap)
    (owned : ∀ page ∈ live, OwnedGrowing xlen heap page)
    (regular : ¬AtGroupBoundary xlen heap) :
    ∃ result after,
      Memalloc.kalloc_page xlen heap = (result, after) ∧
      WithinGroup heap after ∧
      (result ≠ 0 → result ∉ live) ∧
      PageInvariant xlen
        ⟨after, if result = 0 then live else result :: live⟩ := by
  obtain ⟨positive, atMost, -⟩ := growing.head_open
  have inGroup := growing.inGroup
  have fresh : pageAt xlen heap.mem_page_start heap.mem_page_next_free ∉
      live := fun isLive => growing.head_not_owned (owned _ isLive)
  have member {page result : Nat}
      (isLive : page ∈ if result = 0 then live else result :: live) :
      page = result ∨ page ∈ live := by
    split at isLive
    · exact .inr isLive
    · exact List.mem_cons.mp isLive
  rcases Nat.lt_or_eq_of_le atMost with reused | atFrontier
  · obtain ⟨after, call, within, length, next, updated⟩ :=
      kalloc_page_reuse growing reused
    have below : heap.mem_page_next_free < after.mem_page_length := by omega
    have lengthFits : after.mem_page_length ≤ pageEntries xlen := by omega
    refine ⟨_, after, call, within, fun _ => fresh,
      distinct_cons distinct fresh, .inl ⟨growing.reuse reused within length
        next updated, fun page isLive => ?_⟩⟩
    exact .taken within length.ge positive below lengthFits updated
      ((member isLive).symm.imp (owned page) id)
  by_cases full : heap.mem_page_length = heap.mem_page_max_length
  · obtain ⟨after, call, within, length, next, updated⟩ :=
      kalloc_page_full growing atFrontier full
    have same : entries xlen after = entries xlen heap := funext updated
    refine ⟨0, after, call, within, fun nonzero => absurd rfl nonzero,
      distinct, .inl ⟨⟨?_, ?_, ?_, ?_, ?_, ?_⟩, fun page isLive => ?_⟩⟩
    · rw [within.start_eq]
      exact growing.base
    · rw [same, length]
      exact growing.threaded
    · rw [same, next]
      exact growing.head
    · rw [length]
      exact inGroup
    · rw [same, length]
      exact growing.fresh
    · rw [length, within.max_eq]
      exact growing.bounded
    · obtain ⟨i, iPositive, below, taken, here⟩ := owned page isLive
      exact ⟨i, iPositive, by rwa [length], by rwa [same],
        by rwa [within.start_eq]⟩
  by_cases inside : heap.mem_page_length + 1 < pageEntries xlen
  · obtain ⟨after, call, within, length, next, updated⟩ :=
      kalloc_page_grow growing atFrontier full inside
    have longer : heap.mem_page_length ≤ after.mem_page_length := by omega
    have below : heap.mem_page_length < after.mem_page_length := by omega
    have lengthFits : after.mem_page_length ≤ pageEntries xlen := by omega
    refine ⟨_, after, call, within, fun _ => fresh,
      distinct_cons distinct fresh, .inl ⟨growing.grow atFrontier full inside
        within length next updated, fun page isLive => ?_⟩⟩
    refine .taken within longer growing.threaded.positive below lengthFits
      updated ((member isLive).symm.imp (owned page) fun here => ?_)
    rw [here, atFrontier]
  · -- the frontier is the last page of the group
    have bounded := growing.bounded
    have ends : heap.mem_page_max_length = pageEntries xlen := by
      unfold AtGroupBoundary at regular
      omega
    obtain ⟨after, call, within, exhausted⟩ :=
      kalloc_page_last growing atFrontier (by omega) ends
    refine ⟨_, after, call, within, fun _ => fresh,
      distinct_cons distinct fresh, .inr ⟨exhausted, fun page isLive => ?_⟩⟩
    rcases member isLive with rfl | isLive
    · exact ⟨_, positive, by omega, by rw [within.start_eq]⟩
    · obtain ⟨i, iPositive, below, here⟩ :=
        (owned page isLive).exhausted growing
      exact ⟨i, iPositive, below, by rwa [within.start_eq]⟩

/-- A call of `kalloc_page` away from the boundary. -/
theorem kalloc_page_step
    (invariant : PageInvariant xlen ⟨heap, live⟩)
    {result : Nat}
    (call : Memalloc.kalloc_page xlen heap.startCall = (result, after))
    (regular : ¬AtGroupBoundary xlen heap) :
    WithinGroup heap.startCall after ∧
      (result ≠ 0 → result ∉ live) ∧
      PageInvariant xlen
        ⟨after, if result = 0 then live else result :: live⟩ := by
  rcases invariant.owned with ⟨growing, owned⟩ | ⟨exhausted, owned⟩
  · obtain ⟨page, left, returns, within, fresh, afterwards⟩ :=
      kalloc_page_growing invariant.distinct growing.startCall owned regular
    obtain ⟨rfl, rfl⟩ := Prod.mk.inj (call.symm.trans returns)
    exact ⟨within, fresh, afterwards⟩
  · have returns : Memalloc.kalloc_page xlen heap.startCall =
        (0, heap.startCall) := if_pos exhausted.next_free
    obtain ⟨rfl, rfl⟩ := Prod.mk.inj (call.symm.trans returns)
    exact ⟨.refl _, fun nonzero => absurd rfl nonzero,
      ⟨invariant.distinct, .inr ⟨⟨exhausted.base, exhausted.next_free,
        exhausted.first⟩, owned⟩⟩⟩

/-- A live page in the first group is either wrapped or at its offset. -/
theorem unwrapped_or_wrapped
    {start i : Nat}
    (base : PageBase xlen start)
    (inGroup : i < pageEntries xlen) :
    pageAt xlen start i = start + i * PAGE_SIZE ∨
      pageAt xlen start i ≤ start := by
  have inside : i * PAGE_SIZE < pageEntries xlen * PAGE_SIZE :=
    Nat.mul_lt_mul_of_pos_right inGroup (by decide)
  have := group_lt_size xlen
  have := base.pageAt_eq inGroup
  omega

/-- A call of `kfree_page` on a live page. -/
theorem kfree_page_step
    (invariant : PageInvariant xlen ⟨heap, live⟩)
    {ptr : Nat}
    (isLive : ptr ∈ live) :
    WithinGroup heap.startCall (Memalloc.kfree_page xlen heap.startCall ptr) ∧
      PageInvariant xlen
        ⟨Memalloc.kfree_page xlen heap.startCall ptr, live.erase ptr⟩ := by
  have distinct := invariant.distinct.erase ptr
  have stillLive {page : Nat} (member : page ∈ live.erase ptr) :
      page ∈ live ∧ page ≠ ptr :=
    ⟨List.mem_of_mem_erase member,
      ((invariant.distinct.mem_erase_iff).mp member).1⟩
  rcases invariant.owned with ⟨growing, owned⟩ | ⟨exhausted, owned⟩
  · obtain ⟨i, positive, below, taken, here⟩ := owned ptr isLive
    have inGroup := growing.inGroup
    rcases unwrapped_or_wrapped growing.base (below.trans inGroup) with
      atOffset | wrapped
    · obtain ⟨after, final, call, within, length, finalBelow, finalLinked,
        between, updated, next, -⟩ :=
        kfree_page_gives growing.startCall positive below taken
      have call : Memalloc.kfree_page xlen heap.startCall ptr = after := by
        rw [here, atOffset]
        exact call
      rw [call]
      refine ⟨within, distinct, .inl ⟨growing.startCall.give positive below
        taken within length finalBelow finalLinked between updated next,
        fun page member => ?_⟩⟩
      obtain ⟨pageLive, other⟩ := stillLive member
      obtain ⟨j, jPositive, jBelow, jTaken, rfl⟩ := owned page pageLive
      have notFreed : j ≠ i := fun same => other (by rw [same, here])
      have notFinal : j ≠ final := by
        rintro rfl
        exact finalLinked.elim jPositive.ne' (fun free => free jTaken)
      refine ⟨j, jPositive, by rw [length]; exact jBelow, ?_, by
        rw [within.start_eq]; rfl⟩
      rw [updated, Function.update_of_ne notFinal,
        Function.update_of_ne notFreed]
      exact jTaken
    · have call : Memalloc.kfree_page xlen heap.startCall ptr =
          heap.startCall := kfree_page_wrapped (by rwa [here])
      rw [call]
      exact ⟨.refl _, distinct, .inl ⟨growing.startCall,
        fun page member => owned page (stillLive member).1⟩⟩
  · obtain ⟨i, positive, inGroup, here⟩ := owned ptr isLive
    have base := exhausted.base
    have onCall : Exhausted xlen heap.startCall :=
      ⟨base, exhausted.next_free, exhausted.first⟩
    have reads : ReadsOnly xlen heap.startCall
        (Memalloc.kfree_page xlen heap.startCall ptr) := by
      rcases unwrapped_or_wrapped base inGroup with atOffset | wrapped
      · rw [here, atOffset]
        exact kfree_page_exhausted onCall positive inGroup
      · rw [kfree_page_wrapped (by rwa [here])]
        exact .refl _
    refine ⟨reads.toWithinGroup, distinct, .inr ⟨⟨?_, ?_, ?_⟩,
      fun page member => ?_⟩⟩
    · rw [reads.start_eq]
      exact base
    · rw [reads.next_free_eq]
      exact exhausted.next_free
    · rw [reads.entries_eq]
      exact exhausted.first
    · obtain ⟨j, jPositive, jInGroup, rfl⟩ := owned page (stillLive member).1
      exact ⟨j, jPositive, jInGroup, by rw [reads.start_eq]; rfl⟩

/-- Callers write outside the section of the group. -/
theorem write_step
    (invariant : PageInvariant xlen ⟨heap, live⟩)
    {mem : Nat → Nat}
    (inside : ∀ cell, (∀ page ∈ live, ¬(pageRegion page).Contains cell) →
      mem cell = heap.mem cell) :
    PageInvariant xlen ⟨{ heap.startCall with mem := mem }, live⟩ := by
  have same (i : Nat) (inGroup : i < pageEntries xlen) :
      entries xlen { heap.startCall with mem := mem } i =
        entries xlen heap i := by
    refine entries_of_outside rfl (fun cell inSection => ?_) inGroup
    exact inside cell fun page isLive inPage =>
      (invariant.live_apart isLive).not_contains inPage inSection
  refine ⟨invariant.distinct, ?_⟩
  rcases invariant.owned with ⟨growing, owned⟩ | ⟨exhausted, owned⟩
  · have inGroup := growing.inGroup
    left
    refine ⟨⟨growing.base, growing.threaded.congr fun i within =>
      same i (by omega), ?_, inGroup, fun i behind below => ?_,
      growing.bounded⟩, fun page isLive => ?_⟩
    · rw [same 0 (by omega)]
      exact growing.head
    · rw [same i below]
      exact growing.fresh i behind below
    · obtain ⟨i, positive, below, taken, here⟩ := owned page isLive
      exact ⟨i, positive, below,
        (same i (below.trans inGroup)).trans taken, here⟩
  · have large := pageEntries_gt xlen
    right
    refine ⟨⟨exhausted.base, exhausted.next_free, ?_⟩, owned⟩
    rw [same 0 (by omega)]
    exact exhausted.first

/-- The step lemma of regular runs. -/
theorem step
    {before afterwards : PageState}
    {event : PageEvent}
    (invariant : PageInvariant xlen before)
    (regular : RegularStep xlen before event afterwards) :
    PageInvariant xlen afterwards ∧
      PageExclusive before event afterwards := by
  obtain ⟨step, away⟩ := regular
  cases step with
  | kalloc_page call =>
      obtain ⟨within, fresh, kept⟩ :=
        invariant.kalloc_page_step call (away _ rfl)
      refine ⟨kept, invariant.exclusive kept within ?_⟩
      rintro result ⟨⟩
      exact fresh
  | kfree_page isLive =>
      obtain ⟨within, kept⟩ := invariant.kfree_page_step isLive
      exact ⟨kept, invariant.exclusive kept within (by simp)⟩
  | write inside =>
      have kept := invariant.write_step inside
      exact ⟨kept, invariant.exclusive kept
        ⟨rfl, rfl, fun _ member => .inl member⟩ (by simp)⟩

end PageInvariant

/-! ## The initial state -/

section Init

variable {xlen : Xlen} {block_start block_end : Nat}

theorem pageBlockStart_aligned (xlen : Xlen) (block_start : Nat) :
    PAGE_SIZE ∣ pageBlockStart xlen block_start := by
  have rounded : PAGE_SIZE ∣
      if block_start % PAGE_SIZE ≠ 0 then
        xlen.wrap (block_start + (PAGE_SIZE - block_start % PAGE_SIZE))
      else block_start := by
    split
    · refine (Nat.dvd_mod_iff (page_dvd_size xlen)).mpr ?_
      simp only [PAGE_SIZE]
      omega
    · simp only [PAGE_SIZE] at *
      omega
  exact (Nat.dvd_mod_iff (page_dvd_size xlen)).mpr
    (Nat.dvd_add rounded (Nat.dvd_refl _))

/-- Alignment and room of an accepted block, and its length as the allocator
computes it. -/
theorem pageBase_of_accepts
    (accepts : kalloc_pageinitAccepts xlen block_start block_end)
    (fits : block_end < xlen.size) :
    PageBase xlen (pageBlockStart xlen block_start) ∧
      1 ≤ pageMaxLength xlen block_start block_end := by
  have startAligned := pageBlockStart_aligned xlen block_start
  have sizeAligned := page_dvd_size xlen
  have before := accepts.2
  unfold pageBlockEnd PAGE_SIZE at before
  unfold PAGE_SIZE at startAligned sizeAligned
  refine ⟨⟨startAligned, ?_⟩, ?_⟩
  · unfold PAGE_SIZE
    omega
  · unfold pageMaxLength pageBlockEnd PAGE_SIZE
    rw [Xlen.wrap_of_lt (by omega), Nat.le_div_iff_mul_le (by decide)]
    omega

/-- `kalloc_pageinit` sets up the first group. -/
theorem growing_kalloc_pageinit
    (accepts : kalloc_pageinitAccepts xlen block_start block_end)
    (fits : block_end < xlen.size)
    (heap : PageHeap) :
    let initial := kalloc_pageinit xlen heap block_start block_end
    Growing xlen initial ∧ initial.mem_page_next_free = 1 ∧
      initial.mem_page_length = 1 ∧
      initial.mem_page_start = pageBlockStart xlen block_start ∧
      initial.mem_page_max_length =
        pageMaxLength xlen block_start block_end := by
  obtain ⟨base, atLeast⟩ := pageBase_of_accepts accepts fits
  have large := pageEntries_gt xlen
  simp only [kalloc_pageinit, if_pos accepts]
  generalize opened : ({ heap.setNextFree 0 with
      mem_page_start := pageBlockStart xlen block_start
      mem_page_end := pageBlockEnd block_end
      mem_page_num_allocated := 0
      mem_page_next_free := 1
      mem_page_length := 1
      mem_page_max_length := pageMaxLength xlen block_start block_end } :
        PageHeap) = first
  have start_eq : first.mem_page_start = pageBlockStart xlen block_start := by
    rw [← opened]
  have next_eq : first.mem_page_next_free = 1 := by rw [← opened]
  have length_eq : first.mem_page_length = 1 := by rw [← opened]
  have max_eq : first.mem_page_max_length =
      pageMaxLength xlen block_start block_end := by rw [← opened]
  have firstBase : PageBase xlen first.mem_page_start := start_eq ▸ base
  have entry (i : Nat) : entries xlen ((first.save xlen 0 0 1).clearEntries
      xlen 0 (pageEntries xlen - 1) 1) i =
        if 1 ≤ i ∧ i < pageEntries xlen then 0
        else Function.update (entries xlen first) 0 1 i := by
    rw [entries_clearEntries (first.save xlen 0 0 1) (pageEntries xlen - 1) 1
      firstBase (by omega), entries_save firstBase (by omega)]
    congr 1
    simp only [eq_iff_iff]
    omega
  have entryZero := entry 0
  have entryOne := entry 1
  rw [if_neg (by omega), Function.update_self] at entryZero
  rw [if_pos (by omega)] at entryOne
  refine ⟨⟨?_, ?_, ?_, ?_, fun i behind below => ?_, ?_⟩, ?_, ?_, ?_, ?_⟩
  · simpa using firstBase
  · simp only [clearEntries_fields, save_fields, length_eq]
    refine ⟨by omega, by omega, fun i below _ => ?_⟩
    obtain rfl : i = 0 := by omega
    rw [entryZero]
    exact ⟨⟨by omega, by omega, le_rfl, by omega⟩, fun j behind => behind.1⟩
  · simp [next_eq, entryZero]
  · simpa [length_eq] using by omega
  · simp only [clearEntries_fields, save_fields, length_eq] at behind
    rw [entry, if_pos ⟨behind, below⟩]
  · simpa [length_eq, max_eq] using atLeast
  · simp [next_eq]
  · simp [length_eq]
  · simp [start_eq]
  · simp [max_eq]

end Init

/-! ## Whole runs -/

/-- Page exclusivity over whole runs.  For every accepted block, in every run
that never calls `kalloc_page` at the group boundary, each step returns no live
page and accesses no section that a live page overlaps. -/
theorem page_exclusivity
    {xlen : Xlen}
    {block_start block_end : Nat}
    (accepts : kalloc_pageinitAccepts xlen block_start block_end)
    (fits : block_end < xlen.size)
    {heap : PageHeap}
    {events : List PageEvent}
    {before after : PageState}
    {event : PageEvent}
    (run : Run (RegularStep xlen)
      ⟨kalloc_pageinit xlen heap block_start block_end, []⟩ events before)
    (step : RegularStep xlen before event after) :
    PageExclusive before event after := by
  have initially : PageInvariant xlen
      ⟨kalloc_pageinit xlen heap block_start block_end, []⟩ :=
    ⟨List.nodup_nil, .inl
      ⟨(growing_kalloc_pageinit accepts fits heap).1, by simp⟩⟩
  have invariant : PageInvariant xlen before :=
    run.invariant (fun taken kept => (PageInvariant.step kept taken).1)
      initially
  exact (invariant.step step).2

/-- The frontier of a long block, at `count` and with no page given back. -/
structure AtFrontier (xlen : Xlen) (count : Nat) (heap : PageHeap) : Prop
    extends Growing xlen heap where
  next_eq : heap.mem_page_next_free = count
  length_eq : heap.mem_page_length = count
  long : pageEntries xlen < heap.mem_page_max_length

/-- A call moves the frontier up by one page and returns that page. -/
theorem AtFrontier.kalloc_page
    {xlen : Xlen}
    {count : Nat}
    {heap : PageHeap}
    (frontier : AtFrontier xlen count heap)
    (inside : count + 1 < pageEntries xlen) :
    ∃ after,
      Memalloc.kalloc_page xlen heap.startCall =
        (pageAt xlen heap.mem_page_start count, after) ∧
      AtFrontier xlen (count + 1) after ∧
      after.mem_page_start = heap.mem_page_start := by
  obtain ⟨growing, next, rfl, long⟩ := frontier
  have room : heap.mem_page_length ≠ heap.mem_page_max_length := by omega
  obtain ⟨after, call, within, length, afterNext, updated⟩ :=
    kalloc_page_grow growing.startCall next room inside
  have grown := growing.startCall.grow next room inside within length
    afterNext updated
  have max := within.max_eq
  rw [show heap.startCall.mem_page_next_free = heap.mem_page_length from next]
    at call
  exact ⟨after, call, ⟨grown, afterNext, length, max ▸ long⟩, within.start_eq⟩

section Frontier

variable
  {xlen : Xlen}
  {block_start block_end : Nat}
  (accepts : kalloc_pageinitAccepts xlen block_start block_end)
  (fits : block_end < xlen.size)
  (long : pageEntries xlen < pageMaxLength xlen block_start block_end)

include accepts fits long

theorem atFrontier_kalloc_pageinit (heap : PageHeap) :
    AtFrontier xlen 1 (kalloc_pageinit xlen heap block_start block_end) := by
  obtain ⟨growing, next, length, -, max⟩ :=
    growing_kalloc_pageinit accepts fits heap
  exact ⟨growing, next, length, max ▸ long⟩

/-- Without frees the frontier moves up to the end of the group, and page 1
stays live. -/
theorem frontier_reached
    (heap : PageHeap)
    (count : Nat)
    (inGroup : count + 2 < pageEntries xlen) :
    ∃ events state,
      Run (PageStep xlen)
        ⟨kalloc_pageinit xlen heap block_start block_end, []⟩ events state ∧
      AtFrontier xlen (count + 2) state.heap ∧
      pageAt xlen state.heap.mem_page_start 1 ∈ state.live := by
  induction count with
  | zero =>
      have initially := atFrontier_kalloc_pageinit accepts fits long heap
      obtain ⟨after, call, frontier, start⟩ :=
        initially.kalloc_page (by omega)
      refine ⟨_, _, .single (.kalloc_page call), frontier, ?_⟩
      have room := initially.base.room
      have nonzero : pageAt xlen (kalloc_pageinit xlen heap block_start
          block_end).mem_page_start 1 ≠ 0 := by
        rw [pageAt, Nat.one_mul, Xlen.wrap_of_lt room, PAGE_SIZE]
        omega
      rw [if_neg nonzero, start]
      exact List.mem_cons_self
  | succ count inductionHypothesis =>
      obtain ⟨events, state, run, earlier, isLive⟩ :=
        inductionHypothesis (by omega)
      obtain ⟨after, call, frontier, start⟩ := earlier.kalloc_page (by omega)
      refine ⟨_, _, run.snoc (.kalloc_page call), frontier, ?_⟩
      rw [start]
      split
      · exact isLive
      · exact List.mem_cons_of_mem _ isLive

/-- In a block with more than one group, allocating without frees reaches a
call whose section overlaps the live page 1. -/
theorem exists_page_clash (heap : PageHeap) :
    ∃ events before event after,
      Run (PageStep xlen)
        ⟨kalloc_pageinit xlen heap block_start block_end, []⟩ events before ∧
      PageStep xlen before event after ∧
      ¬PageExclusive before event after := by
  have large := pageEntries_gt xlen
  obtain ⟨events, state, run, frontier, isLive⟩ :=
    frontier_reached accepts fits long heap (pageEntries xlen - 3) (by omega)
  have next := frontier.next_eq
  have length := frontier.length_eq
  have accessed := kalloc_page_boundary frontier.startCall
    (next.trans length.symm) ⟨by simp only [startCall]; omega, frontier.long⟩
  refine ⟨events, state, _, _, run, .kalloc_page rfl, fun exclusive => ?_⟩
  have apart := exclusive.apart _ (.inl isLive) _ accessed
  simp only [pageRegion, Region.Apart, PAGE_SIZE, startCall] at apart
  omega

end Frontier

/-- The first page of a block of 16 pages. -/
theorem page_exclusivity_first_page :
    ∃ after,
      kalloc_page .rv64
          (kalloc_pageinit .rv64 ⟨0, 0, 0, 0, 0, 0, fun _ => 0, []⟩
            0x80000000 0x80010000).startCall =
        (0x80002000, after) ∧
      PageExclusive
        ⟨kalloc_pageinit .rv64 ⟨0, 0, 0, 0, 0, 0, fun _ => 0, []⟩
          0x80000000 0x80010000, []⟩
        (.kalloc_page 0x80002000) ⟨after, [0x80002000]⟩ := by
  have accepts : kalloc_pageinitAccepts .rv64 0x80000000 0x80010000 := by
    decide
  have fits : 0x80010000 < Xlen.rv64.size := by decide
  have long : pageEntries .rv64 <
      pageMaxLength .rv64 0x80000000 0x80010000 := by decide
  obtain ⟨-, next, -, start, -⟩ := growing_kalloc_pageinit accepts fits
    ⟨0, 0, 0, 0, 0, 0, fun _ => 0, []⟩
  obtain ⟨after, call, -, -⟩ := (atFrontier_kalloc_pageinit accepts fits long
    ⟨0, 0, 0, 0, 0, 0, fun _ => 0, []⟩).kalloc_page (by decide)
  have page : pageAt .rv64 (pageBlockStart .rv64 0x80000000) 1 =
      0x80002000 := by decide
  rw [start, page] at call
  refine ⟨after, call, page_exclusivity accepts fits (.refl _)
    ⟨.kalloc_page call, fun _ _ boundary => ?_⟩⟩
  have := boundary.1
  rw [next] at this
  exact absurd this (by decide)

/-- A block of 256 MiB has more than one group. -/
theorem not_page_exclusive :
    ¬∀ events before event after,
      Run (PageStep .rv64)
        ⟨kalloc_pageinit .rv64 ⟨0, 0, 0, 0, 0, 0, fun _ => 0, []⟩
          0x80000000 0x90000000, []⟩ events before →
      PageStep .rv64 before event after →
      PageExclusive before event after := by
  intro exclusive
  have accepts : kalloc_pageinitAccepts .rv64 0x80000000 0x90000000 := by
    decide
  obtain ⟨events, before, event, after, run, step, clash⟩ :=
    exists_page_clash accepts (by decide) (by decide)
      ⟨0, 0, 0, 0, 0, 0, fun _ => 0, []⟩
  exact clash (exclusive events before event after run step)

end Memalloc
end EchelonSbi
