import EchelonSbi.Memalloc.PageOrder

/-!
# The page allocator with its sections apart from the pages

`kalloc_page` and `kfree_page` over sections that no page overlaps, so that
neither callers nor `memset` change an entry.  The code does not keep its
sections so beyond the first group; here every group has its own.
-/

namespace EchelonSbi
namespace Memalloc

open Foundation

/-- The globals of the page allocator and the entries of its sections. -/
structure PageTable where
  mem_page_start : Nat
  mem_page_num_allocated : Nat
  mem_page_next_free : Nat
  mem_page_length : Nat
  mem_page_max_length : Nat
  /-- `section[k].used_pages[i]` is at `k * (PAGE_SIZE / PAGE_ENTRY_SIZE) + i`. -/
  used_pages : Nat → Nat

namespace PageTable

variable (xlen : Xlen) (table : PageTable)

/-- Read `section[index].used_pages[i]`. -/
def entry (index i : Nat) : Nat :=
  table.used_pages (index * pageEntries xlen + i)

/-- `section[index].used_pages[i] = value`. -/
def setEntry (index i value : Nat) : PageTable :=
  { table with
    used_pages := Function.update table.used_pages
      (index * pageEntries xlen + i) value }

/-- Assign `mem_page_next_free`. -/
def setNextFree (value : Nat) : PageTable :=
  { table with mem_page_next_free := value }

/-- `mem_page_next_free++`. -/
def nextFreeUp : PageTable :=
  table.setNextFree (xlen.wrap (table.mem_page_next_free + 1))

/-- `mem_page_length++`. -/
def lengthUp : PageTable :=
  { table with mem_page_length := xlen.wrap (table.mem_page_length + 1) }

/-- `mem_page_num_allocated++`. -/
def countUp : PageTable :=
  { table with
    mem_page_num_allocated := xlen.wrap (table.mem_page_num_allocated + 1) }

/-- `mem_page_num_allocated--`. -/
def countDown : PageTable :=
  { table with
    mem_page_num_allocated :=
      xlen.wrap (table.mem_page_num_allocated + (xlen.size - 1)) }

/-- `section[index].used_pages[i] = 0` for `turns` values of `i`. -/
def clearEntries (index : Nat) : Nat → Nat → PageTable → PageTable
  | 0, _, table => table
  | turns + 1, i, table =>
      clearEntries index turns (i + 1) (table.setEntry xlen index i 0)

/-- What `kalloc_pageinit` leaves, with a given capacity. -/
def kalloc_pageinit (block_start capacity : Nat) : PageTable :=
  let table := { table with
    mem_page_start := pageBlockStart xlen block_start
    mem_page_num_allocated := 0
    mem_page_next_free := 1
    mem_page_length := 1
    mem_page_max_length := capacity }
  (table.setEntry xlen 0 0 1).clearEntries xlen 0 (pageEntries xlen - 1) 1

/-- `kalloc_page`: the pointer it returns and the state it leaves. -/
def kalloc_page : Nat × PageTable :=
  if table.mem_page_next_free = 0 then (0, table)
  else
    let page_location :=
      pageAt xlen table.mem_page_start table.mem_page_next_free
    let pagearray_index := table.mem_page_next_free / pageEntries xlen
    let page_index := table.mem_page_next_free % pageEntries xlen
    let page_entry := table.entry xlen pagearray_index page_index
    let table := table.setEntry xlen pagearray_index page_index 1
    if page_entry = 0 then
      if table.mem_page_length = table.mem_page_max_length then
        (0, table.setEntry xlen pagearray_index page_index 0)
      else
        let table := (table.lengthUp xlen).nextFreeUp xlen
        let table := table.setEntry xlen pagearray_index 0
          (xlen.wrap (table.entry xlen pagearray_index 0 + 1))
        if table.mem_page_next_free % pageEntries xlen = 0 then
          let table := table.setEntry xlen pagearray_index 0 0
          if table.mem_page_length = table.mem_page_max_length then
            (page_location, (table.countUp xlen).setNextFree 0)
          else
            let table := (table.lengthUp xlen).nextFreeUp xlen
            let pagearray_index := xlen.wrap (pagearray_index + 1)
            let table := table.setEntry xlen pagearray_index 0 1
            let table := table.clearEntries xlen pagearray_index
              (pageEntries xlen - 1) 1
            (page_location, table.countUp xlen)
        else (page_location, table.countUp xlen)
    else
      let table := table.setNextFree page_entry
      let table :=
        if page_entry / pageEntries xlen = pagearray_index then
          table.setEntry xlen pagearray_index 0
            (page_entry % pageEntries xlen)
        else table.setEntry xlen pagearray_index 0 0
      (page_location, table.countUp xlen)

/-- The loop of `kfree_page` for the last entry of `section[index]` that is
not 1, among `turns` entries from `i` on. -/
def finalPageIndex (index : Nat) : Nat → Nat → Nat → Nat
  | 0, _, final_page_index => final_page_index
  | turns + 1, i, final_page_index =>
      if table.entry xlen index i ≠ 1 then
        finalPageIndex index turns (i + 1) i
      else finalPageIndex index turns (i + 1) final_page_index

/-- The loop of `kfree_page` over the sections below `section[count]`, from
the last one down. -/
def linkFromEarlierSection (page_index_to_free : Nat) : Nat → PageTable
  | 0 => table
  | i + 1 =>
      let pagearray_index := page_index_to_free / pageEntries xlen
      let page_index := page_index_to_free % pageEntries xlen
      let first := table.entry xlen i 0
      if first ≠ 0 then
        let final_page_index := table.finalPageIndex xlen i
          (pageEntries xlen - (first + 1)) (first + 1) first
        let next := table.entry xlen i final_page_index
        (((table.setEntry xlen pagearray_index page_index next).setEntry xlen
          pagearray_index 0 page_index).setEntry xlen i final_page_index
          page_index_to_free).countDown xlen
      else linkFromEarlierSection page_index_to_free i

/-- `kfree_page`. -/
def kfree_page (ptr : Nat) : PageTable :=
  if ptr = 0 ∨ ptr % PAGE_SIZE ≠ 0 ∨ ptr ≤ table.mem_page_start then table
  else
    let page_index_to_free := (ptr - table.mem_page_start) / PAGE_SIZE
    if page_index_to_free = 0 then table
    else
      let pagearray_index := page_index_to_free / pageEntries xlen
      let page_index := page_index_to_free % pageEntries xlen
      if page_index_to_free < table.mem_page_next_free then
        (((table.setEntry xlen pagearray_index page_index
          table.mem_page_next_free).setEntry xlen pagearray_index 0
          page_index).setNextFree page_index_to_free).countDown xlen
      else
        let first := table.entry xlen pagearray_index 0
        if first ≠ 0 ∧ first < page_index then
          let final_page_index := table.finalPageIndex xlen pagearray_index
            (page_index - (first + 1)) (first + 1) first
          let next := table.entry xlen pagearray_index final_page_index
          ((table.setEntry xlen pagearray_index page_index next).setEntry xlen
            pagearray_index final_page_index page_index_to_free).countDown xlen
        else
          table.linkFromEarlierSection xlen page_index_to_free pagearray_index

end PageTable

end Memalloc
end EchelonSbi
