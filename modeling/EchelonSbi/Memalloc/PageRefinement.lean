import EchelonSbi.Memalloc.PageRuns

/-!
# The first group in both models of the page allocator

While the allocator stays in its first group, no page overlaps the section.  There
the code does with its memory what it does with sections apart from the pages, so
what holds of `PageTable` holds of the first group of the code.
-/

namespace EchelonSbi
namespace Memalloc

open Foundation

/-- The globals, and the entries of the first section. -/
def PageHeap.table (xlen : Xlen) (heap : PageHeap) : PageTable where
  mem_page_start := heap.mem_page_start
  mem_page_num_allocated := heap.mem_page_num_allocated
  mem_page_next_free := heap.mem_page_next_free
  mem_page_length := heap.mem_page_length
  mem_page_max_length := heap.mem_page_max_length
  used_pages i := if i < pageEntries xlen then entries xlen heap i else 0

namespace PageHeap

variable {xlen : Xlen} {heap : PageHeap} {i : Nat}

@[simp]
theorem table_touch (index : Nat) : (heap.touch xlen index).table xlen = heap.table xlen :=
  rfl

@[simp]
theorem table_startCall : heap.startCall.table xlen = heap.table xlen := rfl

@[simp]
theorem table_setNextFree (value : Nat) :
    (heap.setNextFree value).table xlen = (heap.table xlen).setNextFree value :=
  rfl

@[simp]
theorem table_counters :
    (heap.nextFreeUp xlen).table xlen = (heap.table xlen).nextFreeUp xlen ∧
      (heap.lengthUp xlen).table xlen = (heap.table xlen).lengthUp xlen ∧
      (heap.countUp xlen).table xlen = (heap.table xlen).countUp xlen ∧
      (heap.countDown xlen).table xlen = (heap.table xlen).countDown xlen :=
  ⟨rfl, rfl, rfl, rfl⟩

@[simp]
theorem table_fields :
    (heap.table xlen).mem_page_start = heap.mem_page_start ∧
      (heap.table xlen).mem_page_num_allocated = heap.mem_page_num_allocated ∧
      (heap.table xlen).mem_page_next_free = heap.mem_page_next_free ∧
      (heap.table xlen).mem_page_length = heap.mem_page_length ∧
      (heap.table xlen).mem_page_max_length = heap.mem_page_max_length :=
  ⟨rfl, rfl, rfl, rfl, rfl⟩

theorem entry_table (inGroup : i < pageEntries xlen) :
    (heap.table xlen).entry xlen 0 i = entries xlen heap i := by
  rw [PageTable.entry, Nat.zero_mul, Nat.zero_add]
  exact if_pos inGroup

/-- An entry of the first section after another one was written. -/
theorem entry_setEntry_of_ne
    {table : PageTable}
    {j : Nat}
    (other : i ≠ j)
    (value : Nat) :
    (table.setEntry xlen 0 j value).entry xlen 0 i = table.entry xlen 0 i := by
  exact Function.update_of_ne (by omega) ..

/-- Heaps with the same globals and entries have the same table. -/
theorem table_congr
    {other : PageHeap}
    (start : other.mem_page_start = heap.mem_page_start)
    (num : other.mem_page_num_allocated = heap.mem_page_num_allocated)
    (next : other.mem_page_next_free = heap.mem_page_next_free)
    (length : other.mem_page_length = heap.mem_page_length)
    (max : other.mem_page_max_length = heap.mem_page_max_length)
    (same : ∀ i < pageEntries xlen, entries xlen other i = entries xlen heap i) :
    other.table xlen = heap.table xlen := by
  rw [table, table, start, num, next, length, max]
  congr 1
  funext i
  split_ifs with inGroup
  · exact same i inGroup
  · rfl

theorem table_save
    (base : PageBase xlen heap.mem_page_start)
    (inGroup : i < pageEntries xlen)
    (value : Nat) :
    (heap.save xlen 0 i value).table xlen = (heap.table xlen).setEntry xlen 0 i value := by
  rw [PageTable.setEntry, Nat.zero_mul, Nat.zero_add, table, entries_save base inGroup]
  congr 1
  funext j
  by_cases here : j = i
  · simp [here, inGroup]
  · simp [here, table]

/-- A page apart from the section is cleared without a change of the table. -/
theorem table_zeroPage
    {page : Nat}
    (apart : (pageRegion page).Apart (pageRegion heap.mem_page_start)) :
    (heap.zeroPage xlen page).table xlen = heap.table xlen :=
  table_congr rfl rfl rfl rfl rfl fun _ inGroup => entries_zeroPage apart inGroup

theorem table_clearEntries
    {turns : Nat}
    (base : PageBase xlen heap.mem_page_start)
    (inGroup : i + turns ≤ pageEntries xlen) :
    (heap.clearEntries xlen 0 turns i).table xlen =
      (heap.table xlen).clearEntries xlen 0 turns i := by
  induction turns generalizing heap i with
  | zero => rfl
  | succ turns inductionHypothesis =>
      rw [clearEntries, PageTable.clearEntries, ← table_save base (by omega)]
      exact inductionHypothesis base (by omega)

/-- The search reads and changes nothing. -/
theorem finalPageIndex_table
    {turns final : Nat}
    (base : PageBase xlen heap.mem_page_start)
    (inGroup : i + turns ≤ pageEntries xlen) :
    ∃ after,
      finalPageIndex xlen 0 turns i final heap =
        ((heap.table xlen).finalPageIndex xlen 0 turns i final, after) ∧
      after.table xlen = heap.table xlen := by
  induction turns generalizing heap i final with
  | zero => exact ⟨heap, rfl, rfl⟩
  | succ turns inductionHypothesis =>
      have goesOn (last : Nat) := @inductionHypothesis (heap.touch xlen 0) (i + 1) last
        base (by omega)
      rw [finalPageIndex, load_first base (by omega), PageTable.finalPageIndex,
        entry_table (by omega)]
      dsimp only
      split_ifs with taken
      · exact goesOn i
      · exact goesOn final

end PageHeap

open PageHeap

section Calls

variable {xlen : Xlen} {heap : PageHeap}

/-- A call of `kalloc_page` that stays in the first group. -/
theorem kalloc_page_table
    (growing : Growing xlen heap)
    (stays : (kalloc_page xlen heap).2.mem_page_length < pageEntries xlen) :
    (heap.table xlen).kalloc_page xlen =
      ((kalloc_page xlen heap).1, (kalloc_page xlen heap).2.table xlen) := by
  have base := growing.base
  have inGroup := growing.inGroup
  obtain ⟨positive, within, -⟩ := growing.head_open
  have nextInGroup : heap.mem_page_next_free < pageEntries xlen := by omega
  have zeroInGroup : 0 < pageEntries xlen := by omega
  have small := pageEntries_lt_size xlen
  have apart := base.pageAt_apart positive nextInGroup
  have entry := @entry_table xlen heap _ nextInGroup
  rw [PageTable.kalloc_page, kalloc_page]
  by_cases unlinked : entries xlen heap heap.mem_page_next_free = 0
  · have atFrontier := growing.entry_eq_zero_iff.mp unlinked
    rw [unlinked] at entry
    by_cases full : heap.mem_page_length = heap.mem_page_max_length
    · simp [positive.ne', Nat.div_eq_of_lt, Nat.mod_eq_of_lt, nextInGroup, load_first, base,
        entry, unlinked, full, table_save]
    · have inside : heap.mem_page_length + 1 < pageEntries xlen := by
        by_contra last
        have leaves := Memalloc.kalloc_page_leaves growing atFrontier (by omega) full
        omega
      have succ : xlen.wrap (heap.mem_page_length + 1) = heap.mem_page_length + 1 :=
        Xlen.wrap_of_lt (by omega)
      rw [atFrontier] at positive unlinked apart entry
      have first : entries xlen heap 0 = heap.mem_page_length :=
        growing.head.symm.trans atFrontier
      have firstEntry : (heap.table xlen).entry xlen 0 0 = heap.mem_page_length :=
        (entry_table zeroInGroup).trans first
      have firstLater : (((heap.table xlen).setEntry xlen 0 heap.mem_page_length 1).lengthUp
          xlen |>.setNextFree (heap.mem_page_length + 1)).entry xlen 0 0 =
          heap.mem_page_length :=
        (entry_setEntry_of_ne positive.ne 1).trans firstEntry
      simp [atFrontier, positive.ne', Nat.div_eq_of_lt, Nat.mod_eq_of_lt, inGroup,
        load_first, base, entry, unlinked, full, table_save, succ, inside, zeroInGroup,
        table_zeroPage, apart, firstLater, entries_save, first, positive.ne]
  · have reused : heap.mem_page_next_free < heap.mem_page_length := by
      have := growing.entry_eq_zero_iff.not.mp unlinked
      omega
    have linkInGroup :
        entries xlen heap heap.mem_page_next_free < pageEntries xlen := by
      have := growing.threaded.link_le reused (.inr growing.head_open.2.2)
      omega
    simp [positive.ne', Nat.div_eq_of_lt, Nat.mod_eq_of_lt, nextInGroup, load_first, base,
        entry, unlinked, table_save, linkInGroup, zeroInGroup, table_zeroPage, apart]

/-- A call of `kfree_page` with a page of the first group. -/
theorem kfree_page_table
    (base : PageBase xlen heap.mem_page_start)
    {i : Nat}
    (positive : 0 < i)
    (inGroup : i < pageEntries xlen) :
    (heap.table xlen).kfree_page xlen (heap.mem_page_start + i * PAGE_SIZE) =
      (kfree_page xlen heap (heap.mem_page_start + i * PAGE_SIZE)).table xlen := by
  have zeroInGroup : 0 < pageEntries xlen := by omega
  obtain ⟨accepted, index⟩ := base.page_accepted positive
  rw [PageTable.kfree_page, kfree_page, table_fields.1, if_neg accepted, if_neg accepted]
  simp only [index, positive.ne', Nat.div_eq_of_lt inGroup, Nat.mod_eq_of_lt inGroup,
    if_false, table_fields, load_first base zeroInGroup, entry_table zeroInGroup]
  by_cases before : i < heap.mem_page_next_free
  · simp [before, table_save, base, inGroup, zeroInGroup]
  · rw [if_neg before, if_neg before]
    by_cases first : entries xlen heap 0 ≠ 0 ∧ entries xlen heap 0 < i
    · rw [if_pos first, if_pos first]
      obtain ⟨after, search, same⟩ := @finalPageIndex_table xlen (heap.touch xlen 0)
        (entries xlen heap 0 + 1) (i - (entries xlen heap 0 + 1)) (entries xlen heap 0)
        base (by omega)
      obtain ⟨found, _, spec, reads, last, -⟩ := finalPageIndex_spec (heap.touch xlen 0)
        (i - (entries xlen heap 0 + 1)) (entries xlen heap 0 + 1) (entries xlen heap 0)
        base (by omega)
      obtain ⟨here, rfl⟩ := Prod.mk.inj (search.symm.trans spec)
      rw [table_touch] at here same
      have foundInGroup : found < pageEntries xlen := by
        rcases last with same | ⟨-, below, -⟩ <;> omega
      have afterBase : PageBase xlen after.mem_page_start := by
        rw [reads.start_eq]
        exact base
      have next : (heap.table xlen).entry xlen 0 found = entries xlen after found := by
        rw [← same, entry_table foundInGroup]
      rw [here, spec]
      simp [load_first afterBase foundInGroup, table_save, afterBase, inGroup, foundInGroup,
        same, next]
    · rw [if_neg first, if_neg first]
      rfl

/-- `kalloc_pageinit`, with any capacity. -/
theorem pageinitWithCapacity_table
    {block_start block_end capacity : Nat}
    (accepts : kalloc_pageinitAccepts xlen block_start block_end)
    (fits : block_end < xlen.size) :
    ∃ table : PageTable,
      (pageinitWithCapacity xlen heap block_start block_end capacity).table xlen =
        table.kalloc_pageinit xlen block_start capacity := by
  have base := (pageBase_of_accepts accepts fits).1
  have large := pageEntries_gt xlen
  let opened : PageHeap := { heap with
    mem_page_start := pageBlockStart xlen block_start
    mem_page_end := pageBlockEnd block_end
    mem_page_num_allocated := 0
    mem_page_next_free := 1
    mem_page_length := 1
    mem_page_max_length := capacity }
  have openedBase : PageBase xlen opened.mem_page_start := base
  have cleared : (opened.table xlen).kalloc_pageinit xlen block_start capacity =
      ((opened.save xlen 0 0 1).clearEntries xlen 0 (pageEntries xlen - 1) 1).table xlen := by
    rw [table_clearEntries (by exact openedBase) (by omega), table_save openedBase (by omega)]
    rfl
  refine ⟨opened.table xlen, ?_⟩
  rw [cleared]
  have first (other : PageHeap) (otherBase : PageBase xlen other.mem_page_start) (i : Nat)
      (inGroup : i < pageEntries xlen) :
      entries xlen ((other.save xlen 0 0 1).clearEntries xlen 0 (pageEntries xlen - 1) 1) i =
        if i = 0 then 1 else 0 := by
    rw [entries_clearEntries _ _ _ (by exact otherBase) (by omega),
      entries_save otherBase (by omega)]
    by_cases zero : i = 0
    · simp [zero]
    · rw [if_pos (by omega), if_neg zero]
  apply table_congr
  case same =>
    intro i inGroup
    rw [first opened openedBase i inGroup, pageinitWithCapacity, kalloc_pageinit,
      if_pos accepts]
    exact first _ (by exact base) i inGroup
  all_goals simp [pageinitWithCapacity, kalloc_pageinit, accepts, opened]

/-- Each call of a run of the first group. -/
theorem AddressedStep.table
    {events : List PageEvent}
    {event : PageEvent}
    {before after : PageState}
    (invariant : OrderInvariant xlen events before)
    (taken : AddressedStep xlen before event after) :
    if event = .write then after.heap.table xlen = before.heap.table xlen ∧
        after.live = before.live
    else AddressedTableStep xlen ⟨before.heap.table xlen, before.live⟩ event
      ⟨after.heap.table xlen, after.live⟩ := by
  obtain ⟨⟨step, inGroup⟩, addressed⟩ := taken
  have growing := invariant.growing.startCall
  cases step with
  | kalloc_page call =>
      rw [if_neg nofun]
      refine ⟨.kalloc_page ?_, fun _ _ => addressed _ rfl⟩
      have same := kalloc_page_table growing (by rw [call]; exact inGroup)
      rwa [call] at same
  | kfree_page isLive =>
      rw [if_neg nofun]
      refine ⟨?_, nofun⟩
      obtain ⟨i, handed, -, rfl⟩ := (invariant.ledger.live_iff _).mp isLive
      have same := kfree_page_table growing.base handed.1
        (lt_trans handed.2 invariant.growing.inGroup)
      exact same ▸ .kfree_page isLive
  | write inside =>
      rw [if_pos rfl]
      exact ⟨table_congr rfl rfl rfl rfl rfl fun i inGroup =>
        invariant.entries_write inside inGroup, rfl⟩

/-- A run of the code in its first group is one of sections apart from the pages. -/
theorem table_run
    {block_start block_end capacity : Nat}
    (accepts : kalloc_pageinitAccepts xlen block_start block_end)
    (fits : block_end < xlen.size)
    (positive : 1 ≤ capacity)
    {events : List PageEvent}
    {state : PageState}
    (run : Run (AddressedStep xlen)
      ⟨pageinitWithCapacity xlen heap block_start block_end capacity, []⟩ events state) :
    ∃ table : PageTable, Run (AddressedTableStep xlen)
      ⟨table.kalloc_pageinit xlen block_start capacity, []⟩
      (events.filter (· ≠ .write)) ⟨state.heap.table xlen, state.live⟩ := by
  obtain ⟨table, initially⟩ :=
    @pageinitWithCapacity_table xlen heap _ _ capacity accepts fits
  refine ⟨table, (run.invariant_history (fun events state =>
    OrderInvariant xlen events state ∧ Run (AddressedTableStep xlen)
      ⟨table.kalloc_pageinit xlen block_start capacity, []⟩
      (events.filter (· ≠ .write)) ⟨state.heap.table xlen, state.live⟩) ?_ ?_).2⟩
  · rintro history before event after taken ⟨invariant, path⟩
    refine ⟨invariant.step taken, ?_⟩
    have answered := taken.table invariant
    rw [List.filter_append]
    split_ifs at answered with isWrite
    · rw [answered.1, answered.2]
      simpa [isWrite] using path
    · simpa [isWrite] using path.snoc answered
  · refine ⟨orderInvariant_pageinitWithCapacity accepts fits positive heap, ?_⟩
    rw [initially]
    exact .refl _

end Calls

end Memalloc
end EchelonSbi
