import EchelonSbi.Memalloc.PageGroup

/-!
# The page allocator in its first group

`Growing` is the invariant while the frontier lies in the first group, and
`Exhausted` the state after the last page was handed out.  `kalloc_page` leaves
the first group only through the group boundary.
-/

namespace EchelonSbi
namespace Memalloc

open Foundation
open PageHeap

/-- The allocator hands out pages of its first group. -/
structure Growing (xlen : Xlen) (heap : PageHeap) : Prop where
  base : PageBase xlen heap.mem_page_start
  threaded : Threaded (entries xlen heap) heap.mem_page_length
  head : heap.mem_page_next_free = entries xlen heap 0
  inGroup : heap.mem_page_length < pageEntries xlen
  fresh : ∀ i, heap.mem_page_length ≤ i → i < pageEntries xlen →
    entries xlen heap i = 0
  bounded : heap.mem_page_length ≤ heap.mem_page_max_length

/-- Every page of a block that ends with the first group was handed out. -/
structure Exhausted (xlen : Xlen) (heap : PageHeap) : Prop where
  base : PageBase xlen heap.mem_page_start
  next_free : heap.mem_page_next_free = 0
  first : entries xlen heap 0 = 0

/-- The call would set up the section of the next group. -/
def AtGroupBoundary (xlen : Xlen) (heap : PageHeap) : Prop :=
  heap.mem_page_next_free + 1 = pageEntries xlen ∧
    pageEntries xlen < heap.mem_page_max_length

instance (xlen : Xlen) (heap : PageHeap) :
    Decidable (AtGroupBoundary xlen heap) :=
  inferInstanceAs (Decidable (_ ∧ _))

/-- What every operation inside the first group keeps. -/
structure WithinGroup (before after : PageHeap) : Prop where
  start_eq : after.mem_page_start = before.mem_page_start
  max_eq : after.mem_page_max_length = before.mem_page_max_length
  accessed : ∀ address ∈ after.accessed,
    address ∈ before.accessed ∨ address = before.mem_page_start

/-- An operation that only reads. -/
structure ReadsOnly (xlen : Xlen) (before after : PageHeap) : Prop
    extends WithinGroup before after where
  length_eq : after.mem_page_length = before.mem_page_length
  next_free_eq : after.mem_page_next_free = before.mem_page_next_free
  num_eq : after.mem_page_num_allocated = before.mem_page_num_allocated
  entries_eq : entries xlen after = entries xlen before

namespace WithinGroup

theorem refl (heap : PageHeap) : WithinGroup heap heap :=
  ⟨rfl, rfl, fun _ member => .inl member⟩

theorem trans
    {first second third : PageHeap}
    (left : WithinGroup first second)
    (right : WithinGroup second third) :
    WithinGroup first third := by
  refine ⟨right.start_eq.trans left.start_eq, right.max_eq.trans left.max_eq,
    fun address member => ?_⟩
  rcases right.accessed address member with earlier | here
  · exact left.accessed address earlier
  · exact .inr (here.trans left.start_eq)

end WithinGroup

namespace ReadsOnly

variable {xlen : Xlen}

theorem refl (heap : PageHeap) : ReadsOnly xlen heap heap :=
  ⟨.refl heap, rfl, rfl, rfl, rfl⟩

theorem touch
    {heap : PageHeap}
    (base : PageBase xlen heap.mem_page_start) :
    ReadsOnly xlen heap (heap.touch xlen 0) := by
  refine ⟨⟨rfl, rfl, fun address member => ?_⟩, rfl, rfl, rfl, rfl⟩
  rw [touch_accessed base, List.mem_cons] at member
  exact member.symm

theorem trans
    {first second third : PageHeap}
    (left : ReadsOnly xlen first second)
    (right : ReadsOnly xlen second third) :
    ReadsOnly xlen first third :=
  ⟨left.toWithinGroup.trans right.toWithinGroup,
    right.length_eq.trans left.length_eq,
    right.next_free_eq.trans left.next_free_eq,
    right.num_eq.trans left.num_eq,
    right.entries_eq.trans left.entries_eq⟩

end ReadsOnly

namespace Growing

variable {xlen : Xlen} {heap : PageHeap}

theorem head_open (growing : Growing xlen heap) :
    Open (entries xlen heap) heap.mem_page_length heap.mem_page_next_free := by
  rw [growing.head]
  exact growing.threaded.head_open

/-- A free page below the frontier has a link, not 0. -/
theorem entry_eq_zero_iff
    (growing : Growing xlen heap) :
    entries xlen heap heap.mem_page_next_free = 0 ↔
      heap.mem_page_next_free = heap.mem_page_length := by
  obtain ⟨positive, within, free⟩ := growing.head_open
  constructor
  · intro unlinked
    by_contra other
    have := growing.threaded.lt_link (by omega) (.inr free)
    omega
  · intro atFrontier
    exact growing.fresh _ atFrontier.ge (by have := growing.inGroup; omega)

end Growing

section Kalloc

variable {xlen : Xlen} {heap : PageHeap}

/-- The allocator takes a page that was given back. -/
theorem kalloc_page_reuse
    (growing : Growing xlen heap)
    (reused : heap.mem_page_next_free < heap.mem_page_length) :
    ∃ after,
      kalloc_page xlen heap =
        (pageAt xlen heap.mem_page_start heap.mem_page_next_free, after) ∧
      WithinGroup heap after ∧
      after.mem_page_length = heap.mem_page_length ∧
      after.mem_page_next_free =
        entries xlen heap heap.mem_page_next_free ∧
      ∀ i < pageEntries xlen, entries xlen after i =
        Function.update
          (Function.update (entries xlen heap) heap.mem_page_next_free 1)
          0 (entries xlen heap heap.mem_page_next_free) i := by
  have base := growing.base
  have inGroup := growing.inGroup
  have large := pageEntries_gt xlen
  obtain ⟨positive, -, free⟩ := growing.head_open
  have nextInGroup : heap.mem_page_next_free < pageEntries xlen := by omega
  have linked : entries xlen heap heap.mem_page_next_free ≠ 0 :=
    fun unlinked => reused.ne (growing.entry_eq_zero_iff.mp unlinked)
  have linkInGroup :
      entries xlen heap heap.mem_page_next_free < pageEntries xlen := by
    have := growing.threaded.link_le reused (.inr free)
    omega
  unfold kalloc_page
  simp only [positive.ne', Nat.div_eq_of_lt nextInGroup,
    Nat.mod_eq_of_lt nextInGroup, load_first base nextInGroup, linked,
    Nat.div_eq_of_lt linkInGroup, Nat.mod_eq_of_lt linkInGroup, if_true,
    if_false]
  refine ⟨_, rfl, ⟨by simp, by simp, fun address member => ?_⟩, by simp,
    by simp, fun i iInGroup => ?_⟩
  · simp [save_accessed, touch_accessed, base] at member
    tauto
  · have apart := base.pageAt_apart positive nextInGroup
    simp [entries_zeroPage, entries_save, apart, base, nextInGroup, iInGroup,
      Nat.zero_lt_of_lt iInGroup]

/-- The allocator has no page left. -/
theorem kalloc_page_full
    (growing : Growing xlen heap)
    (atFrontier : heap.mem_page_next_free = heap.mem_page_length)
    (full : heap.mem_page_length = heap.mem_page_max_length) :
    ∃ after,
      kalloc_page xlen heap = (0, after) ∧
      WithinGroup heap after ∧
      after.mem_page_length = heap.mem_page_length ∧
      after.mem_page_next_free = heap.mem_page_next_free ∧
      ∀ i, entries xlen after i = entries xlen heap i := by
  have base := growing.base
  have inGroup := growing.inGroup
  have positive := growing.head_open.1
  have nextInGroup : heap.mem_page_next_free < pageEntries xlen := by omega
  have unlinked := growing.entry_eq_zero_iff.mpr atFrontier
  unfold kalloc_page
  simp only [positive.ne', Nat.div_eq_of_lt nextInGroup,
    Nat.mod_eq_of_lt nextInGroup, load_first base nextInGroup, unlinked,
    save_fields, touch_fields, full, if_true, if_false]
  refine ⟨_, rfl, ⟨by simp, by simp, fun address member => ?_⟩, by simp [full],
    by simp, fun i => ?_⟩
  · simp [save_accessed, touch_accessed, base] at member
    tauto
  · by_cases here : i = heap.mem_page_next_free
    · simp [entries_save, base, nextInGroup, here, unlinked]
    · simp [entries_save, base, nextInGroup, here]

/-- The allocator moves its frontier up inside the group. -/
theorem kalloc_page_grow
    (growing : Growing xlen heap)
    (atFrontier : heap.mem_page_next_free = heap.mem_page_length)
    (room : heap.mem_page_length ≠ heap.mem_page_max_length)
    (inside : heap.mem_page_length + 1 < pageEntries xlen) :
    ∃ after,
      kalloc_page xlen heap =
        (pageAt xlen heap.mem_page_start heap.mem_page_next_free, after) ∧
      WithinGroup heap after ∧
      after.mem_page_length = heap.mem_page_length + 1 ∧
      after.mem_page_next_free = heap.mem_page_length + 1 ∧
      ∀ i < pageEntries xlen, entries xlen after i =
        Function.update
          (Function.update (entries xlen heap) heap.mem_page_length 1)
          0 (heap.mem_page_length + 1) i := by
  have base := growing.base
  have positive := growing.head_open.1
  have first : entries xlen heap 0 = heap.mem_page_length :=
    growing.head.symm.trans atFrontier
  have unlinked := growing.entry_eq_zero_iff.mpr atFrontier
  rw [atFrontier] at positive unlinked
  have lengthInGroup : heap.mem_page_length < pageEntries xlen := by omega
  have zeroInGroup : 0 < pageEntries xlen := by omega
  have small := pageEntries_lt_size xlen
  have succ : xlen.wrap (heap.mem_page_length + 1) =
      heap.mem_page_length + 1 := Xlen.wrap_of_lt (by omega)
  unfold kalloc_page
  simp only [atFrontier, positive.ne', Nat.div_eq_of_lt lengthInGroup,
    Nat.mod_eq_of_lt lengthInGroup, load_first, base, lengthInGroup, unlinked,
    save_fields, touch_fields, lengthUp_fields, nextFreeUp_fields, zeroInGroup,
    room, succ, Nat.mod_eq_of_lt inside, Nat.succ_ne_zero, if_true, if_false]
  refine ⟨_, rfl, ⟨by simp, by simp, fun address member => ?_⟩, by simp [succ],
    by simp [atFrontier, succ], fun i iInGroup => ?_⟩
  · simp [save_accessed, touch_accessed, base] at member
    tauto
  · have apart := base.pageAt_apart positive lengthInGroup
    simp [entries_zeroPage, entries_save, apart, base, lengthInGroup, iInGroup,
      zeroInGroup, positive.ne, first, succ]

/-- The allocator hands out the last page of a block that ends with the
group. -/
theorem kalloc_page_last
    (growing : Growing xlen heap)
    (atFrontier : heap.mem_page_next_free = heap.mem_page_length)
    (last : heap.mem_page_length + 1 = pageEntries xlen)
    (ends : heap.mem_page_max_length = pageEntries xlen) :
    ∃ after,
      kalloc_page xlen heap =
        (pageAt xlen heap.mem_page_start heap.mem_page_next_free, after) ∧
      WithinGroup heap after ∧ Exhausted xlen after := by
  have base := growing.base
  have positive := growing.head_open.1
  have unlinked := growing.entry_eq_zero_iff.mpr atFrontier
  rw [atFrontier] at positive unlinked
  have lengthInGroup : heap.mem_page_length < pageEntries xlen := by omega
  have zeroInGroup : 0 < pageEntries xlen := by omega
  have small := pageEntries_lt_size xlen
  have succ : xlen.wrap (heap.mem_page_length + 1) = pageEntries xlen := by
    rw [last]
    exact Xlen.wrap_of_lt (by omega)
  have room : heap.mem_page_length ≠ pageEntries xlen := by omega
  unfold kalloc_page
  simp only [atFrontier, positive.ne', Nat.div_eq_of_lt lengthInGroup,
    Nat.mod_eq_of_lt lengthInGroup, load_first, base, lengthInGroup, unlinked,
    save_fields, touch_fields, lengthUp_fields, nextFreeUp_fields, zeroInGroup,
    room, succ, ends, Nat.mod_self, if_true, if_false]
  refine ⟨_, rfl, ⟨by simp, by simp, fun address member => ?_⟩,
    by simpa using base, by simp, ?_⟩
  · simp [save_accessed, touch_accessed, base] at member
    tauto
  · have apart := base.pageAt_apart positive lengthInGroup
    simp [entries_zeroPage, entries_save, apart, base, zeroInGroup]

/-- At the group boundary the allocator takes page 1 for the section of the
second group. -/
theorem kalloc_page_boundary
    (growing : Growing xlen heap)
    (atFrontier : heap.mem_page_next_free = heap.mem_page_length)
    (boundary : AtGroupBoundary xlen heap) :
    pageAt xlen heap.mem_page_start 1 ∈ (kalloc_page xlen heap).2.accessed := by
  obtain ⟨last, beyond⟩ := boundary
  have base := growing.base
  have positive := growing.head_open.1
  have unlinked := growing.entry_eq_zero_iff.mpr atFrontier
  rw [atFrontier] at positive unlinked last
  have lengthInGroup : heap.mem_page_length < pageEntries xlen := by omega
  have zeroInGroup : 0 < pageEntries xlen := by omega
  have small := pageEntries_lt_size xlen
  have succ : xlen.wrap (heap.mem_page_length + 1) = pageEntries xlen := by
    rw [last]
    exact Xlen.wrap_of_lt (by omega)
  have one : xlen.wrap (0 + 1) = 1 := Xlen.wrap_of_lt (by omega)
  have room : heap.mem_page_length ≠ heap.mem_page_max_length := by omega
  have more : pageEntries xlen ≠ heap.mem_page_max_length := beyond.ne
  unfold kalloc_page
  simp only [atFrontier, positive.ne', Nat.div_eq_of_lt lengthInGroup,
    Nat.mod_eq_of_lt lengthInGroup, load_first, base, lengthInGroup, unlinked,
    save_fields, touch_fields, lengthUp_fields, nextFreeUp_fields, zeroInGroup,
    room, succ, more, one, Nat.mod_self, if_true, if_false]
  simp only [zeroPage_fields, countUp_fields]
  apply accessed_clearEntries
  exact mem_accessed_save (by simp [sectionAddress])

/-- `kalloc_page` returns the first free page unless there is none, or the
frontier has reached the capacity. -/
theorem kalloc_page_result
    (growing : Growing xlen heap) :
    (kalloc_page xlen heap).1 =
      if heap.mem_page_next_free = heap.mem_page_length ∧
          heap.mem_page_length = heap.mem_page_max_length then 0
      else pageAt xlen heap.mem_page_start heap.mem_page_next_free := by
  have base := growing.base
  have inGroup := growing.inGroup
  obtain ⟨positive, within, -⟩ := growing.head_open
  have nextInGroup : heap.mem_page_next_free < pageEntries xlen := by omega
  unfold kalloc_page
  simp only [positive.ne', Nat.div_eq_of_lt nextInGroup,
    Nat.mod_eq_of_lt nextInGroup, load_first base nextInGroup,
    growing.entry_eq_zero_iff, save_fields, touch_fields, if_false]
  by_cases atFrontier : heap.mem_page_next_free = heap.mem_page_length
  · by_cases full : heap.mem_page_length = heap.mem_page_max_length
    · simp [atFrontier, full]
    · simp [atFrontier, full, load, apply_ite Prod.fst]
  · simp [atFrontier]

/-- A call counts the page that it hands out. -/
theorem num_allocated_kalloc_page (heap : PageHeap) :
    (kalloc_page xlen heap).2.mem_page_num_allocated =
      if heap.mem_page_next_free = 0 ∨
          heap.mem (heap.entryAddress xlen
            (heap.mem_page_next_free / pageEntries xlen)
            (heap.mem_page_next_free % pageEntries xlen)) = 0 ∧
          heap.mem_page_length = heap.mem_page_max_length then
        heap.mem_page_num_allocated
      else xlen.wrap (heap.mem_page_num_allocated + 1) := by
  unfold kalloc_page
  by_cases empty : heap.mem_page_next_free = 0
  · simp only [empty, if_true, true_or]
  cases loaded : heap.load xlen (heap.mem_page_next_free / pageEntries xlen)
      (heap.mem_page_next_free % pageEntries xlen) with
  | mk page_entry touched =>
      have entryRead : heap.mem (heap.entryAddress xlen
          (heap.mem_page_next_free / pageEntries xlen)
          (heap.mem_page_next_free % pageEntries xlen)) = page_entry :=
        congrArg Prod.fst loaded
      have sameCounters : touched = heap.touch xlen
          (heap.mem_page_next_free / pageEntries xlen) :=
        (congrArg Prod.snd loaded).symm
      simp only [empty, if_false, false_or, entryRead, loaded]
      by_cases unlinked : page_entry = 0
      · by_cases full : heap.mem_page_length = heap.mem_page_max_length
        · simp [sameCounters, unlinked, full]
        · simp only [sameCounters, unlinked, save_fields, touch_fields, full,
            if_false, if_true, and_false]
          split
          · split <;> simp [load]
          · simp [load]
      · simp only [sameCounters, unlinked, if_false, false_and]
        split <;> simp

/-- In the first group a call counts its page unless there is none. -/
theorem num_allocated_growing
    (growing : Growing xlen heap) :
    (kalloc_page xlen heap).2.mem_page_num_allocated =
      if heap.mem_page_next_free = heap.mem_page_length ∧
          heap.mem_page_length = heap.mem_page_max_length then
        heap.mem_page_num_allocated
      else xlen.wrap (heap.mem_page_num_allocated + 1) := by
  have inGroup := growing.inGroup
  obtain ⟨positive, within, -⟩ := growing.head_open
  have nextInGroup : heap.mem_page_next_free < pageEntries xlen := by omega
  have entryRead := growing.entry_eq_zero_iff
  rw [entries] at entryRead
  rw [num_allocated_kalloc_page, Nat.div_eq_of_lt nextInGroup,
    Nat.mod_eq_of_lt nextInGroup, entryAddress_first growing.base nextInGroup]
  simp only [positive.ne', entryRead, false_or]

/-- Without a free page a call changes nothing. -/
theorem kalloc_page_refuses
    (growing : Growing xlen heap)
    (atFrontier : heap.mem_page_next_free = heap.mem_page_length)
    (full : heap.mem_page_length = heap.mem_page_max_length) :
    ∃ accessed,
      kalloc_page xlen heap = (0, { heap with accessed := accessed }) := by
  have base := growing.base
  have inGroup := growing.inGroup
  have positive := growing.head_open.1
  have nextInGroup : heap.mem_page_next_free < pageEntries xlen := by omega
  have unlinked := growing.entry_eq_zero_iff.mpr atFrontier
  have firstSave :
      (heap.touch xlen 0).entryAddress xlen 0 heap.mem_page_next_free =
        heap.mem_page_start + heap.mem_page_next_free * xlen.bytes :=
    entryAddress_first base nextInGroup
  have secondSave :
      ((heap.touch xlen 0).save xlen 0 heap.mem_page_next_free 1).entryAddress
          xlen 0 heap.mem_page_next_free =
        heap.mem_page_start + heap.mem_page_next_free * xlen.bytes :=
    entryAddress_first base nextInGroup
  generalize undone : ((heap.touch xlen 0).save xlen 0
    heap.mem_page_next_free 1).save xlen 0 heap.mem_page_next_free 0 = after
  have memKept : after.mem = heap.mem := by
    rw [← undone, save, secondSave, save, firstSave]
    simp only [touch, Function.update_idem]
    exact Function.update_eq_self_iff.mpr unlinked.symm
  refine ⟨after.accessed, ?_⟩
  unfold kalloc_page
  simp only [positive.ne', Nat.div_eq_of_lt nextInGroup,
    Nat.mod_eq_of_lt nextInGroup, load_first base nextInGroup, unlinked,
    save_fields, touch_fields, if_pos full, if_true, if_false]
  rw [undone, ← memKept, ← undone]
  rfl

/-- At the end of the group a call leaves it. -/
theorem kalloc_page_leaves
    (growing : Growing xlen heap)
    (atFrontier : heap.mem_page_next_free = heap.mem_page_length)
    (last : heap.mem_page_length + 1 = pageEntries xlen)
    (room : heap.mem_page_length ≠ heap.mem_page_max_length) :
    pageEntries xlen ≤ (kalloc_page xlen heap).2.mem_page_length := by
  have base := growing.base
  have positive := growing.head_open.1
  have unlinked := growing.entry_eq_zero_iff.mpr atFrontier
  rw [atFrontier] at positive unlinked
  have lengthInGroup : heap.mem_page_length < pageEntries xlen := by omega
  have zeroInGroup : 0 < pageEntries xlen := by omega
  have small := pageEntries_lt_size xlen
  have succ : xlen.wrap (heap.mem_page_length + 1) = pageEntries xlen := by
    rw [last]
    exact Xlen.wrap_of_lt (by omega)
  have next : xlen.wrap (pageEntries xlen + 1) = pageEntries xlen + 1 :=
    Xlen.wrap_of_lt small
  unfold kalloc_page
  simp only [atFrontier, positive.ne', Nat.div_eq_of_lt lengthInGroup,
    Nat.mod_eq_of_lt lengthInGroup, load_first, base, lengthInGroup, unlinked,
    save_fields, touch_fields, lengthUp_fields, nextFreeUp_fields, zeroInGroup,
    room, succ, Nat.mod_self, if_true, if_false]
  split <;> simp [succ, next]

end Kalloc

section Kfree

variable {xlen : Xlen} {heap : PageHeap}

/-- The search of `kfree_page` finds the last entry that is not 1. -/
theorem finalPageIndex_spec
    (heap : PageHeap)
    (turns first final : Nat)
    (base : PageBase xlen heap.mem_page_start)
    (inGroup : first + turns ≤ pageEntries xlen) :
    ∃ found after,
      finalPageIndex xlen 0 turns first final heap = (found, after) ∧
      ReadsOnly xlen heap after ∧
      (found = final ∨ first ≤ found ∧ found < first + turns ∧
        entries xlen heap found ≠ 1) ∧
      ∀ j, found < j → first ≤ j → j < first + turns →
        entries xlen heap j = 1 := by
  induction turns generalizing heap first final with
  | zero =>
      exact ⟨final, heap, rfl, .refl heap, .inl rfl,
        fun j _ low high => absurd high (by omega)⟩
  | succ turns inductionHypothesis =>
      have touched := ReadsOnly.touch base
      rw [finalPageIndex, load_first base (by omega)]
      by_cases free : entries xlen heap first ≠ 1
      · obtain ⟨found, after, search, reads, last, taken⟩ :=
          inductionHypothesis (heap.touch xlen 0) (first + 1) first base
            (by omega)
        refine ⟨found, after, by simpa [free] using search,
          touched.trans reads, ?_, ?_⟩
        · rcases last with rfl | ⟨low, high, open_⟩
          · exact .inr ⟨le_rfl, by omega, free⟩
          · exact .inr ⟨by omega, by omega, open_⟩
        · intro j behind low high
          have : first ≤ found := by
            rcases last with rfl | ⟨above, -, -⟩ <;> omega
          exact taken j behind (by omega) (by omega)
      · obtain ⟨found, after, search, reads, last, taken⟩ :=
          inductionHypothesis (heap.touch xlen 0) (first + 1) final base
            (by omega)
        refine ⟨found, after, by simpa [free] using search,
          touched.trans reads, ?_, ?_⟩
        · rcases last with rfl | ⟨low, high, open_⟩
          · exact .inl rfl
          · exact .inr ⟨by omega, by omega, open_⟩
        · intro j behind low high
          by_cases here : j = first
          · rw [here]
            simpa using free
          · exact taken j behind (by omega) (by omega)

/-- `kfree_page` puts a page back into the list. -/
theorem kfree_page_gives
    (growing : Growing xlen heap)
    {i : Nat}
    (positive : 0 < i)
    (below : i < heap.mem_page_length)
    (taken : entries xlen heap i = 1) :
    ∃ after final,
      kfree_page xlen heap (heap.mem_page_start + i * PAGE_SIZE) = after ∧
      WithinGroup heap after ∧
      after.mem_page_length = heap.mem_page_length ∧
      final < i ∧
      (final = 0 ∨ entries xlen heap final ≠ 1) ∧
      (∀ j, final < j → j < i → entries xlen heap j = 1) ∧
      entries xlen after = Function.update
        (Function.update (entries xlen heap) i (entries xlen heap final))
        final i ∧
      after.mem_page_next_free = entries xlen after 0 ∧
      after.mem_page_num_allocated =
        xlen.wrap (heap.mem_page_num_allocated + (xlen.size - 1)) := by
  have base := growing.base
  have lengthInGroup := growing.inGroup
  have inGroup : i < pageEntries xlen := by omega
  have zeroInGroup : 0 < pageEntries xlen := by omega
  obtain ⟨accepted, index⟩ := base.page_accepted positive
  obtain ⟨headPositive, headWithin, headFree⟩ := growing.head_open
  unfold kfree_page
  rw [if_neg accepted]
  simp only [index, positive.ne', Nat.div_eq_of_lt inGroup,
    Nat.mod_eq_of_lt inGroup, if_false]
  by_cases before : i < heap.mem_page_next_free
  · rw [if_pos before]
    refine ⟨_, 0, rfl, ⟨by simp, by simp, fun address member => ?_⟩, by simp,
      positive, .inl rfl, ?_, ?_, ?_, by simp⟩
    · simp [save_accessed, base] at member
      tauto
    · intro j jPositive jBelow
      by_contra free
      have := growing.threaded.head_le ⟨jPositive, by omega, free⟩
      rw [← growing.head] at this
      omega
    · simp [entries_save, base, inGroup, zeroInGroup, growing.head]
    · simp [entries_save, base, zeroInGroup]
  · have behind : heap.mem_page_next_free < i := by
      have : heap.mem_page_next_free ≠ i := fun same =>
        headFree (same ▸ taken)
      omega
    rw [if_neg before]
    simp only [load_first base zeroInGroup, ← growing.head, headPositive.ne',
      behind, ne_eq, not_false_eq_true, and_self, if_true]
    obtain ⟨found, after, search, reads, last, between⟩ :=
      finalPageIndex_spec (heap.touch xlen 0)
        (i - (heap.mem_page_next_free + 1)) (heap.mem_page_next_free + 1)
        heap.mem_page_next_free base (by omega)
    have reads := (ReadsOnly.touch base).trans reads
    have foundBelow : found < i := by omega
    have foundInGroup : found < pageEntries xlen := by omega
    have foundPositive : 0 < found := by omega
    have afterBase : PageBase xlen after.mem_page_start := by
      rw [reads.start_eq]
      exact base
    rw [search]
    simp only [load_first afterBase foundInGroup, reads.entries_eq]
    refine ⟨_, found, rfl, ⟨by simp [reads.start_eq], by simp [reads.max_eq],
      fun address member => ?_⟩, by simp [reads.length_eq], foundBelow,
      .inr ?_, ?_, ?_, ?_, by simp [reads.num_eq]⟩
    · have := reads.accessed address
      simp [save_accessed, touch_accessed, base, reads.start_eq] at member
      tauto
    · rcases last with rfl | ⟨-, -, free⟩
      · exact headFree
      · exact free
    · intro j jBehind jBelow
      exact between j jBehind (by omega) (by omega)
    · simp [entries_save, afterBase, inGroup, foundInGroup, reads.entries_eq]
    · have other : (0 : Nat) ≠ i := positive.ne
      simp [entries_save, afterBase, inGroup, foundInGroup, reads.entries_eq,
        foundPositive.ne, other, ← growing.head, reads.next_free_eq]

/-- A page that wrapped around the address space is never given back. -/
theorem kfree_page_wrapped
    {ptr : Nat}
    (wrapped : ptr ≤ heap.mem_page_start) :
    kfree_page xlen heap ptr = heap :=
  if_pos (.inr (.inr wrapped))

/-- A page given back to an exhausted allocator is lost. -/
theorem kfree_page_exhausted
    (exhausted : Exhausted xlen heap)
    {i : Nat}
    (positive : 0 < i)
    (inGroup : i < pageEntries xlen) :
    ReadsOnly xlen heap
      (kfree_page xlen heap (heap.mem_page_start + i * PAGE_SIZE)) := by
  have base := exhausted.base
  have zeroInGroup : 0 < pageEntries xlen := by omega
  obtain ⟨accepted, index⟩ := base.page_accepted positive
  unfold kfree_page
  rw [if_neg accepted]
  simp only [index, positive.ne', Nat.div_eq_of_lt inGroup,
    Nat.mod_eq_of_lt inGroup, exhausted.next_free, Nat.not_lt_zero,
    load_first base zeroInGroup, exhausted.first, ne_eq, not_true_eq_false,
    false_and, if_false]
  exact .touch base

end Kfree

end Memalloc
end EchelonSbi
