import EchelonSbi.Foundation.Loop
import EchelonSbi.Word
import Mathlib.Logic.Function.Basic

/-!
# The section allocator

`kmalloc`, `kfree` and `kallocinit` as the source computes them: a singly
linked list of section headers that starts at `mem_block_start`, in memory that
callers also write.  Memory is word-granular; a header is two words, `size` and
`next`.
-/

namespace EchelonSbi
namespace Memalloc

open Foundation

/-- The globals of the section allocator and the memory it works in. -/
structure Heap where
  mem_block_start : Nat
  mem_block_end : Nat
  /-- The word at each address. -/
  mem : Nat → Nat

/-- `sizeof(struct alloc_section)`. -/
def headerSize (xlen : Xlen) : Nat :=
  2 * xlen.bytes

namespace Heap

/-- `section->size`. -/
def sizeAt (heap : Heap) (section_ : Nat) : Nat :=
  heap.mem section_

/-- `section->next`. -/
def nextAt (xlen : Xlen) (heap : Heap) (section_ : Nat) : Nat :=
  heap.mem (xlen.wrap (section_ + xlen.bytes))

/-- Store one word. -/
def store (heap : Heap) (address value : Nat) : Heap :=
  { heap with mem := Function.update heap.mem address value }

/-- `section->size = value`. -/
def setSize (heap : Heap) (section_ value : Nat) : Heap :=
  heap.store section_ value

/-- `section->next = value`. -/
def setNext (xlen : Xlen) (heap : Heap) (section_ value : Nat) : Heap :=
  heap.store (xlen.wrap (section_ + xlen.bytes)) value

end Heap

/-- The tests at the top of `kallocinit`. -/
def kallocinitAccepts (xlen : Xlen) (block_start block_end : Nat) : Prop :=
  block_start ≤ block_end ∧ headerSize xlen ≤ block_end - block_start

instance (xlen : Xlen) (block_start block_end : Nat) :
    Decidable (kallocinitAccepts xlen block_start block_end) :=
  inferInstanceAs (Decidable (_ ∧ _))

/-- `kallocinit`: one header of size 0 at the start of the block. -/
def kallocinit
    (xlen : Xlen) (heap : Heap) (block_start block_end : Nat) : Heap :=
  if kallocinitAccepts xlen block_start block_end then
    let heap := { heap with
      mem_block_start := block_start
      mem_block_end := block_end }
    (heap.setSize block_start 0).setNext xlen block_start 0
  else heap

/-- The request of `kmalloc` rounded up to a whole number of words. -/
def roundRequest (xlen : Xlen) (size : Nat) : Nat :=
  if size % xlen.bytes ≠ 0 then
    xlen.wrap (size + (xlen.bytes - size % xlen.bytes))
  else size

/-- Write a new section of `size` bytes behind `section_`, with `next` as its
successor, and return its payload. -/
def placeAfter
    (xlen : Xlen) (heap : Heap) (section_ size next : Nat) : Nat × Heap :=
  let new := xlen.wrap (section_ + heap.sizeAt section_)
  (xlen.wrap (new + headerSize xlen),
    ((heap.setNext xlen section_ new).setSize new size).setNext xlen new next)

/-- One turn of the loop of `kmalloc`; `size` includes the header. -/
def kmallocTurn
    (xlen : Xlen) (heap : Heap) (size section_ : Nat) :
    Turn Nat (Nat × Heap) :=
  if section_ < heap.mem_block_end then
    let section_end := xlen.wrap (section_ + heap.sizeAt section_)
    if xlen.wrap (section_ + size) < section_ then .leave (0, heap)
    else if xlen.wrap (section_end + size) < section_ then .leave (0, heap)
    else if heap.nextAt xlen section_ = 0 then
      if xlen.wrap (section_end + size) ≤ heap.mem_block_end then
        .leave (placeAfter xlen heap section_ size 0)
      else .leave (0, heap)
    else if xlen.wrap (section_end + size) ≤ heap.nextAt xlen section_ then
      .leave (placeAfter xlen heap section_ size (heap.nextAt xlen section_))
    else .again (heap.nextAt xlen section_)
  else .leave (0, heap)

/-- `kmalloc`, with a bound on the turns of its loop. -/
def kmalloc
    (xlen : Xlen) (fuel : Nat) (heap : Heap) (size : Nat) :
    Option (Nat × Heap) :=
  let size := roundRequest xlen size
  if size = 0 ∨ xlen.wrap (size + headerSize xlen) < size then some (0, heap)
  else
    iterate (kmallocTurn xlen heap (xlen.wrap (size + headerSize xlen)))
      fuel heap.mem_block_start

/-- `kmalloc(size)` stops, returns `result` and leaves `after`. -/
def Kmalloc
    (xlen : Xlen) (heap : Heap) (size result : Nat) (after : Heap) : Prop :=
  ∃ fuel, kmalloc xlen fuel heap size = some (result, after)

/-- One turn of the loop of `kfree` on the section pointer and its
predecessor. -/
def kfreeTurn
    (xlen : Xlen) (heap : Heap) (ptr : Nat) :
    Nat × Nat → Turn (Nat × Nat) Heap
  | (section_, prev_section) =>
    if section_ < heap.mem_block_end then
      if section_ = ptr then
        if heap.sizeAt section_ = 0 then .leave heap
        else
          let heap := heap.setSize section_ 0
          if prev_section ≠ 0 then
            .leave (heap.setNext xlen prev_section
              (heap.nextAt xlen section_))
          else .leave heap
      else if heap.nextAt xlen section_ = 0 then .leave heap
      else .again (heap.nextAt xlen section_, section_)
    else .leave heap

/-- `ptr - sizeof(struct alloc_section)` on a register. -/
def headerOf (xlen : Xlen) (ptr : Nat) : Nat :=
  xlen.wrap (ptr + (xlen.size - headerSize xlen))

/-- `kfree`, with a bound on the turns of its loop. -/
def kfree
    (xlen : Xlen) (fuel : Nat) (heap : Heap) (ptr : Nat) : Option Heap :=
  let ptr := headerOf xlen ptr
  if ptr < heap.mem_block_start ∨ ptr ≥ heap.mem_block_end then some heap
  else iterate (kfreeTurn xlen heap ptr) fuel (heap.mem_block_start, 0)

/-- `kfree(ptr)` stops and leaves `after`. -/
def Kfree (xlen : Xlen) (heap : Heap) (ptr : Nat) (after : Heap) : Prop :=
  ∃ fuel, kfree xlen fuel heap ptr = some after

end Memalloc
end EchelonSbi
