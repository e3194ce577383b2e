import EchelonSbi.Word
import Mathlib.Logic.Function.Basic

/-!
# The page allocator

`kalloc_pageinit`, `kalloc_page` and `kfree_page` as the source computes them.
Pages form groups of as many pages as an `alloc_pagearray_section` has entries.
The code keeps the section of group `k` at `section[k]`, where `section` is
`mem_page_start`.  Every access to a section is recorded, so that statements
can say which memory the allocator uses.
-/

namespace EchelonSbi
namespace Memalloc

def PAGE_SIZE : Nat := 0x1000

/-- `PAGE_SIZE / PAGE_ENTRY_SIZE`, the number of entries of a section. -/
def pageEntries (xlen : Xlen) : Nat :=
  PAGE_SIZE / xlen.bytes

/-- `mem_page_start + i * PAGE_SIZE`. -/
def pageAt (xlen : Xlen) (mem_page_start i : Nat) : Nat :=
  xlen.wrap (mem_page_start + i * PAGE_SIZE)

/-- The globals of the page allocator and the memory it works in. -/
structure PageHeap where
  mem_page_start : Nat
  mem_page_end : Nat
  mem_page_num_allocated : Nat
  mem_page_next_free : Nat
  mem_page_length : Nat
  mem_page_max_length : Nat
  /-- The word at each address. -/
  mem : Nat → Nat
  /-- The addresses of the sections read or written so far. -/
  accessed : List Nat

namespace PageHeap

variable (xlen : Xlen) (heap : PageHeap)

/-- `section + index`; a section is as long as a page. -/
def sectionAddress (index : Nat) : Nat :=
  pageAt xlen heap.mem_page_start index

/-- `&section[index].used_pages[entry]`. -/
def entryAddress (index entry : Nat) : Nat :=
  xlen.wrap
    (heap.mem_page_start + index * PAGE_SIZE + entry * xlen.bytes)

/-- Record an access to `section[index]`. -/
def touch (index : Nat) : PageHeap :=
  { heap with accessed := sectionAddress xlen heap index :: heap.accessed }

/-- Read `section[index].used_pages[entry]`. -/
def load (index entry : Nat) : Nat × PageHeap :=
  (heap.mem (entryAddress xlen heap index entry), touch xlen heap index)

/-- `section[index].used_pages[entry] = value`. -/
def save (index entry value : Nat) : PageHeap :=
  { touch xlen heap index with
    mem := Function.update heap.mem (entryAddress xlen heap index entry)
      value }

/-- `memset(page_location, 0, PAGE_SIZE)`; the loop of `memset` compares with
the end of the page, which the last page of the address space wraps to 0. -/
def zeroPage (page_location : Nat) : PageHeap :=
  { heap with
    mem := fun address =>
      if page_location ≤ address ∧
          address < xlen.wrap (page_location + PAGE_SIZE) then 0
      else heap.mem address }

/-- Assign `mem_page_next_free`. -/
def setNextFree (value : Nat) : PageHeap :=
  { heap with mem_page_next_free := value }

/-- `mem_page_next_free++`. -/
def nextFreeUp : PageHeap :=
  heap.setNextFree (xlen.wrap (heap.mem_page_next_free + 1))

/-- `mem_page_length++`. -/
def lengthUp : PageHeap :=
  { heap with mem_page_length := xlen.wrap (heap.mem_page_length + 1) }

/-- `mem_page_num_allocated++`. -/
def countUp : PageHeap :=
  { heap with
    mem_page_num_allocated := xlen.wrap (heap.mem_page_num_allocated + 1) }

/-- `mem_page_num_allocated--`. -/
def countDown : PageHeap :=
  { heap with
    mem_page_num_allocated :=
      xlen.wrap (heap.mem_page_num_allocated + (xlen.size - 1)) }

/-- `section[index].used_pages[i] = 0` for `turns` values of `i`. -/
def clearEntries (index : Nat) : Nat → Nat → PageHeap → PageHeap
  | 0, _, heap => heap
  | turns + 1, i, heap =>
      clearEntries index turns (i + 1) (heap.save xlen index i 0)

end PageHeap

open PageHeap

/-- The first page boundary at or above `block_start`, and one page more. -/
def pageBlockStart (xlen : Xlen) (block_start : Nat) : Nat :=
  let tmp_block_start :=
    if block_start % PAGE_SIZE ≠ 0 then
      xlen.wrap (block_start + (PAGE_SIZE - block_start % PAGE_SIZE))
    else block_start
  xlen.wrap (tmp_block_start + PAGE_SIZE)

/-- `block_end & ~(PAGE_SIZE - 1)`. -/
def pageBlockEnd (block_end : Nat) : Nat :=
  block_end - block_end % PAGE_SIZE

/-- The tests of `kalloc_pageinit`. -/
def kalloc_pageinitAccepts
    (xlen : Xlen) (block_start block_end : Nat) : Prop :=
  block_start ≤ pageBlockStart xlen block_start ∧
    pageBlockStart xlen block_start < pageBlockEnd block_end

instance (xlen : Xlen) (block_start block_end : Nat) :
    Decidable (kalloc_pageinitAccepts xlen block_start block_end) :=
  inferInstanceAs (Decidable (_ ∧ _))

/-- `(tmp_block_start - block_end) / PAGE_SIZE` on registers. -/
def pageMaxLength (xlen : Xlen) (block_start block_end : Nat) : Nat :=
  xlen.wrap (pageBlockStart xlen block_start +
    (xlen.size - pageBlockEnd block_end)) / PAGE_SIZE

/-- `kalloc_pageinit`. -/
def kalloc_pageinit
    (xlen : Xlen) (heap : PageHeap) (block_start block_end : Nat) :
    PageHeap :=
  let heap := heap.setNextFree 0
  if kalloc_pageinitAccepts xlen block_start block_end then
    let heap := { heap with
      mem_page_start := pageBlockStart xlen block_start
      mem_page_end := pageBlockEnd block_end
      mem_page_num_allocated := 0
      mem_page_next_free := 1
      mem_page_length := 1
      mem_page_max_length := pageMaxLength xlen block_start block_end }
    (heap.save xlen 0 0 1).clearEntries xlen 0 (pageEntries xlen - 1) 1
  else heap

/-- `kalloc_page`: the pointer it returns and the state it leaves. -/
def kalloc_page (xlen : Xlen) (heap : PageHeap) : Nat × PageHeap :=
  if heap.mem_page_next_free = 0 then (0, heap)
  else
    let page_location :=
      pageAt xlen heap.mem_page_start heap.mem_page_next_free
    let pagearray_index := heap.mem_page_next_free / pageEntries xlen
    let page_index := heap.mem_page_next_free % pageEntries xlen
    let (page_entry, heap) := heap.load xlen pagearray_index page_index
    let heap := heap.save xlen pagearray_index page_index 1
    if page_entry = 0 then
      if heap.mem_page_length = heap.mem_page_max_length then
        (0, heap.save xlen pagearray_index page_index 0)
      else
        let heap := (heap.lengthUp xlen).nextFreeUp xlen
        let (first, heap) := heap.load xlen pagearray_index 0
        let heap := heap.save xlen pagearray_index 0 (xlen.wrap (first + 1))
        if heap.mem_page_next_free % pageEntries xlen = 0 then
          let heap := heap.save xlen pagearray_index 0 0
          if heap.mem_page_length = heap.mem_page_max_length then
            let heap := (heap.countUp xlen).setNextFree 0
            (page_location, heap.zeroPage xlen page_location)
          else
            let heap := (heap.lengthUp xlen).nextFreeUp xlen
            let pagearray_index := xlen.wrap (pagearray_index + 1)
            let heap := heap.save xlen pagearray_index 0 1
            let heap := heap.clearEntries xlen pagearray_index
              (pageEntries xlen - 1) 1
            let heap := heap.countUp xlen
            (page_location, heap.zeroPage xlen page_location)
        else
          let heap := heap.countUp xlen
          (page_location, heap.zeroPage xlen page_location)
    else
      let heap := heap.setNextFree page_entry
      let heap :=
        if page_entry / pageEntries xlen = pagearray_index then
          heap.save xlen pagearray_index 0 (page_entry % pageEntries xlen)
        else heap.save xlen pagearray_index 0 0
      let heap := heap.countUp xlen
      (page_location, heap.zeroPage xlen page_location)

/-- The loop of `kfree_page` for the last entry of `section[index]` that is
not 1, among `turns` entries from `i` on. -/
def finalPageIndex
    (xlen : Xlen) (index : Nat) :
    Nat → Nat → Nat → PageHeap → Nat × PageHeap
  | 0, _, final_page_index, heap => (final_page_index, heap)
  | turns + 1, i, final_page_index, heap =>
      let (entry, heap) := heap.load xlen index i
      if entry ≠ 1 then finalPageIndex xlen index turns (i + 1) i heap
      else finalPageIndex xlen index turns (i + 1) final_page_index heap

/-- The loop of `kfree_page` over the sections below `section[count]`, from
the last one down. -/
def linkFromEarlierSection
    (xlen : Xlen) (page_index_to_free : Nat) :
    Nat → PageHeap → PageHeap
  | 0, heap => heap
  | i + 1, heap =>
      let pagearray_index := page_index_to_free / pageEntries xlen
      let page_index := page_index_to_free % pageEntries xlen
      let (first, heap) := heap.load xlen i 0
      if first ≠ 0 then
        let (final_page_index, heap) := finalPageIndex xlen i
          (pageEntries xlen - (first + 1)) (first + 1) first heap
        let (next, heap) := heap.load xlen i final_page_index
        let heap := heap.save xlen pagearray_index page_index next
        let heap := heap.save xlen pagearray_index 0 page_index
        let heap := heap.save xlen i final_page_index page_index_to_free
        heap.countDown xlen
      else linkFromEarlierSection xlen page_index_to_free i heap

/-- `kfree_page`. -/
def kfree_page (xlen : Xlen) (heap : PageHeap) (ptr : Nat) : PageHeap :=
  if ptr = 0 ∨ ptr % PAGE_SIZE ≠ 0 ∨ ptr ≤ heap.mem_page_start then heap
  else
    let page_index_to_free := (ptr - heap.mem_page_start) / PAGE_SIZE
    if page_index_to_free = 0 then heap
    else
      let pagearray_index := page_index_to_free / pageEntries xlen
      let page_index := page_index_to_free % pageEntries xlen
      if page_index_to_free < heap.mem_page_next_free then
        let heap := heap.save xlen pagearray_index page_index
          heap.mem_page_next_free
        let heap := heap.save xlen pagearray_index 0 page_index
        (heap.setNextFree page_index_to_free).countDown xlen
      else
        let (first, heap) := heap.load xlen pagearray_index 0
        if first ≠ 0 ∧ first < page_index then
          let (final_page_index, heap) := finalPageIndex xlen pagearray_index
            (page_index - (first + 1)) (first + 1) first heap
          let (next, heap) := heap.load xlen pagearray_index final_page_index
          let heap := heap.save xlen pagearray_index page_index next
          let heap := heap.save xlen pagearray_index final_page_index
            page_index_to_free
          heap.countDown xlen
        else linkFromEarlierSection xlen page_index_to_free
          pagearray_index heap

end Memalloc
end EchelonSbi
