import EchelonSbi.Foundation.Region
import EchelonSbi.Foundation.ThreadedList
import EchelonSbi.Memalloc.Pages

/-!
# The first group of the page allocator

While the allocator stays in its first group, the entries of `section[0]` are a
threaded free list whose frontier is `mem_page_length`.  Each operation is
described by what it does to the entries.
-/

namespace EchelonSbi
namespace Memalloc

open Foundation

/-- The addresses of a page. -/
def pageRegion (page : Nat) : Region :=
  ⟨page, PAGE_SIZE⟩

theorem pageEntries_mul_bytes (xlen : Xlen) :
    pageEntries xlen * xlen.bytes = PAGE_SIZE := by
  cases xlen <;> decide

theorem pageEntries_gt (xlen : Xlen) : 2 < pageEntries xlen := by
  cases xlen <;> decide

theorem page_dvd_size (xlen : Xlen) : PAGE_SIZE ∣ xlen.size := by
  cases xlen <;> decide

/-- A group is far smaller than the address space. -/
theorem group_lt_size (xlen : Xlen) :
    pageEntries xlen * PAGE_SIZE < xlen.size := by
  cases xlen <;> decide

theorem pageEntries_lt_size (xlen : Xlen) :
    pageEntries xlen + 1 < xlen.size := by
  cases xlen <;> decide

/-- The alignment and room that `kalloc_pageinit` gives `mem_page_start`. -/
structure PageBase (xlen : Xlen) (start : Nat) : Prop where
  aligned : PAGE_SIZE ∣ start
  room : start + PAGE_SIZE < xlen.size

namespace PageBase

variable {xlen : Xlen} {start i j : Nat}

theorem lt_size (base : PageBase xlen start) : start < xlen.size := by
  have := base.room
  omega

theorem pageAt_aligned (base : PageBase xlen start) (i : Nat) :
    PAGE_SIZE ∣ pageAt xlen start i := by
  have total : PAGE_SIZE ∣ start + i * PAGE_SIZE :=
    Nat.dvd_add base.aligned (Nat.dvd_mul_left _ _)
  exact (Nat.dvd_mod_iff (page_dvd_size xlen)).mpr total

/-- Pages of one group do not wrap onto the first page. -/
theorem pageAt_eq
    (base : PageBase xlen start)
    (inGroup : i < pageEntries xlen) :
    pageAt xlen start i = start + i * PAGE_SIZE ∨
      pageAt xlen start i + xlen.size = start + i * PAGE_SIZE := by
  have inside : i * PAGE_SIZE < pageEntries xlen * PAGE_SIZE :=
    Nat.mul_lt_mul_of_pos_right inGroup (by decide)
  have group := group_lt_size xlen
  have low := base.lt_size
  by_cases fits : start + i * PAGE_SIZE < xlen.size
  · exact .inl (Xlen.wrap_of_lt fits)
  · right
    rw [pageAt, Xlen.wrap_of_le (by omega) (by omega)]
    omega

/-- Pages of one group are pairwise different. -/
theorem pageAt_inj
    (base : PageBase xlen start)
    (iInGroup : i < pageEntries xlen)
    (jInGroup : j < pageEntries xlen)
    (same : pageAt xlen start i = pageAt xlen start j) :
    i = j := by
  have group := group_lt_size xlen
  have iInside : i * PAGE_SIZE < pageEntries xlen * PAGE_SIZE :=
    Nat.mul_lt_mul_of_pos_right iInGroup (by decide)
  have jInside : j * PAGE_SIZE < pageEntries xlen * PAGE_SIZE :=
    Nat.mul_lt_mul_of_pos_right jInGroup (by decide)
  have iPage := base.pageAt_eq iInGroup
  have jPage := base.pageAt_eq jInGroup
  have equal : i * PAGE_SIZE = j * PAGE_SIZE := by omega
  exact Nat.eq_of_mul_eq_mul_right (by decide) equal

theorem pageAt_zero (base : PageBase xlen start) :
    pageAt xlen start 0 = start := by
  rw [pageAt, Nat.zero_mul, Nat.add_zero, Xlen.wrap_of_lt base.lt_size]

/-- Aligned pages that differ share no address. -/
theorem apart_of_ne
    {left right : Nat}
    (leftAligned : PAGE_SIZE ∣ left)
    (rightAligned : PAGE_SIZE ∣ right)
    (different : left ≠ right) :
    (pageRegion left).Apart (pageRegion right) := by
  obtain ⟨leftIndex, rfl⟩ := leftAligned
  obtain ⟨rightIndex, rfl⟩ := rightAligned
  have indices : leftIndex ≠ rightIndex := fun same => different (by rw [same])
  simp only [pageRegion, Region.Apart, PAGE_SIZE]
  omega

/-- A page of the group is apart from its section. -/
theorem pageAt_apart
    (base : PageBase xlen start)
    (positive : 0 < i)
    (inGroup : i < pageEntries xlen) :
    (pageRegion (pageAt xlen start i)).Apart (pageRegion start) := by
  refine apart_of_ne (base.pageAt_aligned i) base.aligned fun same => ?_
  have := base.pageAt_inj inGroup (by omega)
    (same.trans base.pageAt_zero.symm)
  omega

/-- `kfree_page` accepts the unwrapped pages of the block and finds their
index. -/
theorem page_accepted_of_aligned
    (aligned : PAGE_SIZE ∣ start)
    (positive : 0 < i) :
    ¬(start + i * PAGE_SIZE = 0 ∨ (start + i * PAGE_SIZE) % PAGE_SIZE ≠ 0 ∨
        start + i * PAGE_SIZE ≤ start) ∧
      (start + i * PAGE_SIZE - start) / PAGE_SIZE = i := by
  have pagePositive : 0 < PAGE_SIZE := by decide
  have offset : 0 < i * PAGE_SIZE := Nat.mul_pos positive pagePositive
  constructor
  · have aligned : (start + i * PAGE_SIZE) % PAGE_SIZE = 0 := by
      rw [Nat.add_mul_mod_self_right]
      exact Nat.mod_eq_zero_of_dvd aligned
    omega
  · rw [Nat.add_sub_cancel_left, Nat.mul_div_cancel _ pagePositive]

theorem page_accepted (base : PageBase xlen start) (positive : 0 < i) :
    ¬(start + i * PAGE_SIZE = 0 ∨ (start + i * PAGE_SIZE) % PAGE_SIZE ≠ 0 ∨
        start + i * PAGE_SIZE ≤ start) ∧
      (start + i * PAGE_SIZE - start) / PAGE_SIZE = i :=
  page_accepted_of_aligned base.aligned positive

end PageBase

/-! ## The entries of the first section -/

/-- `section[0].used_pages`. -/
def entries (xlen : Xlen) (heap : PageHeap) (i : Nat) : Nat :=
  heap.mem (heap.mem_page_start + i * xlen.bytes)

namespace PageHeap

variable {xlen : Xlen} {heap : PageHeap} {i : Nat}

/-! Only `save`, `clearEntries` and `zeroPage` change memory; the other
operations change one counter or the record of accesses. -/

@[simp]
theorem touch_fields (index : Nat) :
    (heap.touch xlen index).mem_page_start = heap.mem_page_start ∧
      (heap.touch xlen index).mem_page_next_free = heap.mem_page_next_free ∧
      (heap.touch xlen index).mem_page_length = heap.mem_page_length ∧
      (heap.touch xlen index).mem_page_max_length =
        heap.mem_page_max_length :=
  ⟨rfl, rfl, rfl, rfl⟩

@[simp]
theorem save_fields (index entry value : Nat) :
    (heap.save xlen index entry value).mem_page_start =
        heap.mem_page_start ∧
      (heap.save xlen index entry value).mem_page_next_free =
        heap.mem_page_next_free ∧
      (heap.save xlen index entry value).mem_page_length =
        heap.mem_page_length ∧
      (heap.save xlen index entry value).mem_page_max_length =
        heap.mem_page_max_length :=
  ⟨rfl, rfl, rfl, rfl⟩

@[simp]
theorem zeroPage_fields (page : Nat) :
    (heap.zeroPage xlen page).mem_page_start = heap.mem_page_start ∧
      (heap.zeroPage xlen page).mem_page_next_free =
        heap.mem_page_next_free ∧
      (heap.zeroPage xlen page).mem_page_length = heap.mem_page_length ∧
      (heap.zeroPage xlen page).mem_page_max_length =
        heap.mem_page_max_length ∧
      (heap.zeroPage xlen page).accessed = heap.accessed :=
  ⟨rfl, rfl, rfl, rfl, rfl⟩

@[simp]
theorem setNextFree_fields (value : Nat) :
    (heap.setNextFree value).mem_page_start = heap.mem_page_start ∧
      (heap.setNextFree value).mem_page_next_free = value ∧
      (heap.setNextFree value).mem_page_length = heap.mem_page_length ∧
      (heap.setNextFree value).mem_page_max_length =
        heap.mem_page_max_length ∧
      (heap.setNextFree value).accessed = heap.accessed :=
  ⟨rfl, rfl, rfl, rfl, rfl⟩

@[simp]
theorem nextFreeUp_fields :
    (heap.nextFreeUp xlen).mem_page_start = heap.mem_page_start ∧
      (heap.nextFreeUp xlen).mem_page_next_free =
        xlen.wrap (heap.mem_page_next_free + 1) ∧
      (heap.nextFreeUp xlen).mem_page_length = heap.mem_page_length ∧
      (heap.nextFreeUp xlen).mem_page_max_length =
        heap.mem_page_max_length ∧
      (heap.nextFreeUp xlen).accessed = heap.accessed :=
  ⟨rfl, rfl, rfl, rfl, rfl⟩

@[simp]
theorem lengthUp_fields :
    (heap.lengthUp xlen).mem_page_start = heap.mem_page_start ∧
      (heap.lengthUp xlen).mem_page_next_free = heap.mem_page_next_free ∧
      (heap.lengthUp xlen).mem_page_length =
        xlen.wrap (heap.mem_page_length + 1) ∧
      (heap.lengthUp xlen).mem_page_max_length = heap.mem_page_max_length ∧
      (heap.lengthUp xlen).accessed = heap.accessed :=
  ⟨rfl, rfl, rfl, rfl, rfl⟩

@[simp]
theorem countUp_fields :
    (heap.countUp xlen).mem_page_start = heap.mem_page_start ∧
      (heap.countUp xlen).mem_page_next_free = heap.mem_page_next_free ∧
      (heap.countUp xlen).mem_page_length = heap.mem_page_length ∧
      (heap.countUp xlen).mem_page_max_length = heap.mem_page_max_length ∧
      (heap.countUp xlen).accessed = heap.accessed :=
  ⟨rfl, rfl, rfl, rfl, rfl⟩

@[simp]
theorem countDown_fields :
    (heap.countDown xlen).mem_page_start = heap.mem_page_start ∧
      (heap.countDown xlen).mem_page_next_free = heap.mem_page_next_free ∧
      (heap.countDown xlen).mem_page_length = heap.mem_page_length ∧
      (heap.countDown xlen).mem_page_max_length = heap.mem_page_max_length ∧
      (heap.countDown xlen).accessed = heap.accessed :=
  ⟨rfl, rfl, rfl, rfl, rfl⟩

/-! Only `countUp` and `countDown` change the number of allocated pages. -/

@[simp]
theorem num_allocated_touch (index : Nat) :
    (heap.touch xlen index).mem_page_num_allocated =
      heap.mem_page_num_allocated :=
  rfl

@[simp]
theorem num_allocated_save (index entry value : Nat) :
    (heap.save xlen index entry value).mem_page_num_allocated =
      heap.mem_page_num_allocated :=
  rfl

@[simp]
theorem num_allocated_zeroPage (page : Nat) :
    (heap.zeroPage xlen page).mem_page_num_allocated =
      heap.mem_page_num_allocated :=
  rfl

@[simp]
theorem num_allocated_setNextFree (value : Nat) :
    (heap.setNextFree value).mem_page_num_allocated =
      heap.mem_page_num_allocated :=
  rfl

@[simp]
theorem num_allocated_counters :
    (heap.nextFreeUp xlen).mem_page_num_allocated =
        heap.mem_page_num_allocated ∧
      (heap.lengthUp xlen).mem_page_num_allocated =
        heap.mem_page_num_allocated ∧
      (heap.countUp xlen).mem_page_num_allocated =
        xlen.wrap (heap.mem_page_num_allocated + 1) ∧
      (heap.countDown xlen).mem_page_num_allocated =
        xlen.wrap (heap.mem_page_num_allocated + (xlen.size - 1)) :=
  ⟨rfl, rfl, rfl, rfl⟩

@[simp]
theorem entries_touch (index : Nat) :
    entries xlen (heap.touch xlen index) = entries xlen heap :=
  rfl

@[simp]
theorem entries_setNextFree (value : Nat) :
    entries xlen (heap.setNextFree value) = entries xlen heap :=
  rfl

/-- The counters are not memory. -/
@[simp]
theorem entries_counters :
    entries xlen (heap.nextFreeUp xlen) = entries xlen heap ∧
      entries xlen (heap.lengthUp xlen) = entries xlen heap ∧
      entries xlen (heap.countUp xlen) = entries xlen heap ∧
      entries xlen (heap.countDown xlen) = entries xlen heap :=
  ⟨rfl, rfl, rfl, rfl⟩

/-- An access to the first section is an access to the first page. -/
theorem touch_accessed (base : PageBase xlen heap.mem_page_start) :
    (heap.touch xlen 0).accessed = heap.mem_page_start :: heap.accessed := by
  have first : heap.sectionAddress xlen 0 = heap.mem_page_start :=
    base.pageAt_zero
  rw [touch, first]

theorem save_accessed
    (base : PageBase xlen heap.mem_page_start)
    (entry value : Nat) :
    (heap.save xlen 0 entry value).accessed =
      heap.mem_page_start :: heap.accessed :=
  touch_accessed base

/-- The entries of the first section do not wrap. -/
theorem entryAddress_first
    (base : PageBase xlen heap.mem_page_start)
    (inGroup : i < pageEntries xlen) :
    heap.entryAddress xlen 0 i = heap.mem_page_start + i * xlen.bytes := by
  have inside : i * xlen.bytes < pageEntries xlen * xlen.bytes :=
    Nat.mul_lt_mul_of_pos_right inGroup xlen.bytes_pos
  rw [pageEntries_mul_bytes] at inside
  have := base.room
  rw [entryAddress, Nat.zero_mul, Nat.add_zero, Xlen.wrap_of_lt (by omega)]

theorem load_first
    (base : PageBase xlen heap.mem_page_start)
    (inGroup : i < pageEntries xlen) :
    heap.load xlen 0 i = (entries xlen heap i, heap.touch xlen 0) := by
  rw [load, entryAddress_first base inGroup, entries]

/-- A store to the first section changes one entry. -/
theorem entries_save
    (base : PageBase xlen heap.mem_page_start)
    (inGroup : i < pageEntries xlen)
    (value : Nat) :
    entries xlen (heap.save xlen 0 i value) =
      Function.update (entries xlen heap) i value := by
  have positive := xlen.bytes_pos
  funext j
  simp only [entries, save, touch, entryAddress_first base inGroup]
  by_cases here : j = i
  · simp [here]
  · have : j * xlen.bytes ≠ i * xlen.bytes := fun same =>
      here (Nat.eq_of_mul_eq_mul_right positive same)
    rw [Function.update_of_ne (by omega), Function.update_of_ne here]
    rfl

/-- Entries of the group do not change when memory outside the section does. -/
theorem entries_of_outside
    {other : PageHeap}
    (sameStart : other.mem_page_start = heap.mem_page_start)
    (outside : ∀ cell, (pageRegion heap.mem_page_start).Contains cell →
      other.mem cell = heap.mem cell)
    (inGroup : i < pageEntries xlen) :
    entries xlen other i = entries xlen heap i := by
  have inside : i * xlen.bytes < pageEntries xlen * xlen.bytes :=
    Nat.mul_lt_mul_of_pos_right inGroup xlen.bytes_pos
  rw [pageEntries_mul_bytes] at inside
  rw [entries, entries, sameStart]
  exact outside _ ⟨Nat.le_add_right _ _, Nat.add_lt_add_left inside _⟩

/-- Clearing a page keeps the entries. -/
theorem entries_zeroPage
    {page : Nat}
    (apart : (pageRegion page).Apart (pageRegion heap.mem_page_start))
    (inGroup : i < pageEntries xlen) :
    entries xlen (heap.zeroPage xlen page) i = entries xlen heap i := by
  refine entries_of_outside rfl (fun cell inSection => ?_) inGroup
  have notInPage := apart.symm.not_contains inSection
  refine if_neg fun inPage => notInPage ⟨inPage.1, ?_⟩
  exact Nat.lt_of_lt_of_le inPage.2 (Nat.mod_le _ _)

theorem mem_accessed_save
    {index entry value address : Nat}
    (here : heap.sectionAddress xlen index = address) :
    address ∈ (heap.save xlen index entry value).accessed := by
  rw [← here]
  exact List.mem_cons_self

/-- The clearing loop forgets no access. -/
theorem accessed_clearEntries
    {index turns first address : Nat}
    (member : address ∈ heap.accessed) :
    address ∈ (heap.clearEntries xlen index turns first).accessed := by
  induction turns generalizing first heap with
  | zero => exact member
  | succ turns inductionHypothesis =>
      exact inductionHypothesis (List.mem_cons_of_mem _ member)

@[simp]
theorem clearEntries_fields (index turns first : Nat) :
    (heap.clearEntries xlen index turns first).mem_page_start =
        heap.mem_page_start ∧
      (heap.clearEntries xlen index turns first).mem_page_next_free =
        heap.mem_page_next_free ∧
      (heap.clearEntries xlen index turns first).mem_page_length =
        heap.mem_page_length ∧
      (heap.clearEntries xlen index turns first).mem_page_max_length =
        heap.mem_page_max_length := by
  induction turns generalizing first heap with
  | zero => exact ⟨rfl, rfl, rfl, rfl⟩
  | succ turns inductionHypothesis =>
      simpa [clearEntries] using
        @inductionHypothesis (heap.save xlen index first 0) (first + 1)

@[simp]
theorem num_allocated_clearEntries (index turns first : Nat) :
    (heap.clearEntries xlen index turns first).mem_page_num_allocated =
      heap.mem_page_num_allocated := by
  induction turns generalizing first heap with
  | zero => rfl
  | succ turns inductionHypothesis =>
      exact @inductionHypothesis (heap.save xlen index first 0) (first + 1)

/-- The clearing loop sets the entries from `first` on to 0. -/
theorem entries_clearEntries
    (heap : PageHeap)
    (turns first : Nat)
    (base : PageBase xlen heap.mem_page_start)
    (inGroup : first + turns ≤ pageEntries xlen)
    (i : Nat) :
    entries xlen (heap.clearEntries xlen 0 turns first) i =
      if first ≤ i ∧ i < first + turns then 0 else entries xlen heap i := by
  induction turns generalizing heap first with
  | zero =>
      rw [if_neg (by omega)]
      rfl
  | succ turns inductionHypothesis =>
      rw [clearEntries, inductionHypothesis (heap.save xlen 0 first 0)
        (first + 1) base (by omega), entries_save base (by omega)]
      by_cases here : i = first
      · simp [here]
      · rw [Function.update_of_ne here]
        congr 1
        simp only [eq_iff_iff]
        omega

end PageHeap

end Memalloc
end EchelonSbi
