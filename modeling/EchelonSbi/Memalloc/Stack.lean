import EchelonSbi.Memalloc.Completeness

/-!
# Stacks on the section heap

`kmalloc_stack` asks `kmalloc` for 32 bytes more than the stack, rounds the end
of the stack down to 16 bytes and keeps the pointer `kmalloc` returned in the
word above it.  Rounding down moves the start of the stack below the payload
unless the stack ends at a multiple of 16 already.
-/

namespace EchelonSbi
namespace Memalloc

open Foundation

/-- `over_alloc_size` of `kmalloc_stack`. -/
def overAllocSize (xlen : Xlen) (size : Nat) : Nat :=
  xlen.wrap (size + 0x20)

/-- `stack_pointer` of `kmalloc_stack`: a sum on a register without its lowest
four bits. -/
def stackPointer (xlen : Xlen) (allocation size : Nat) : Nat :=
  let top := xlen.wrap (allocation + size + 0x10)
  top - top % 0x10

/-- What `kmalloc_stack` does with the pointer that `kmalloc` returned. -/
def keepAllocation
    (xlen : Xlen) (size allocation : Nat) (heap : Heap) : Nat × Heap :=
  if allocation = 0 then (0, heap)
  else
    let stack_pointer := stackPointer xlen allocation size
    (xlen.wrap (stack_pointer + (xlen.size - 0x10)),
      heap.store stack_pointer allocation)

/-- `kmalloc_stack`, with a bound on the turns of the loop of `kmalloc`. -/
def kmalloc_stack
    (xlen : Xlen) (fuel : Nat) (heap : Heap) (size : Nat) :
    Option (Nat × Heap) :=
  (kmalloc xlen fuel heap (overAllocSize xlen size)).map
    fun (allocation, heap) => keepAllocation xlen size allocation heap

/-- `kmalloc_stack(size)` stops, returns `result` and leaves `after`. -/
def KmallocStack
    (xlen : Xlen) (heap : Heap) (size result : Nat) (after : Heap) : Prop :=
  ∃ fuel, kmalloc_stack xlen fuel heap size = some (result, after)

/-- `kfree_stack`, with a bound on the turns of the loop of `kfree`. -/
def kfree_stack
    (xlen : Xlen) (fuel : Nat) (heap : Heap) (ptr : Nat) : Option Heap :=
  if ptr = 0 then some heap
  else kfree xlen fuel heap (heap.mem (xlen.wrap (ptr + 0x10)))

/-- `kfree_stack(ptr)` stops and leaves `after`. -/
def KfreeStack
    (xlen : Xlen) (heap : Heap) (ptr : Nat) (after : Heap) : Prop :=
  ∃ fuel, kfree_stack xlen fuel heap ptr = some after

/-- The bytes of a section behind its header. -/
def AllocSection.payloadRegion (xlen : Xlen) (sect : AllocSection) : Region :=
  ⟨sect.payload xlen, sect.size - headerSize xlen⟩

/-- The stack of `size` bytes below `result` and the word that keeps the
pointer lie in the payload of `sect`, the one section that was added, and
nothing else was written; as long as the word is kept, `kfree_stack` removes
that section. -/
structure HoldsStack
    (xlen : Xlen) (block_start block_end : Nat)
    (state : HeapState) (size result : Nat) (after : Heap)
    (sect : AllocSection) : Prop where
  fromKmalloc : ∃ middle,
    Kmalloc xlen state.heap (overAllocSize xlen size) (sect.payload xlen)
      middle ∧ middle.sizeAt sect.address = sect.size
  aligned : 0x10 ∣ result
  stackInside : ∀ depth, 0 < depth → depth ≤ size →
    (sect.payloadRegion xlen).Contains
      (xlen.wrap (result + (xlen.size - depth)))
  savedInside : Region.Within ⟨xlen.wrap (result + 0x10), xlen.bytes⟩
    (sect.payloadRegion xlen).start (sect.payloadRegion xlen).stop
  oneMore : ∃ taken, sect ∈ taken ∧
    HeapSafe xlen block_start block_end
      ⟨after, ⟨sect.payload xlen, overAllocSize xlen size⟩ :: state.live⟩
      taken
  written : ∃ chain, HeapSafe xlen block_start block_end state chain ∧
    ∃ prev ∈ chain, prev.address + prev.size = sect.address ∧
      ∀ cell, cell ≠ prev.address + xlen.bytes → cell ≠ sect.address →
        cell ≠ sect.address + xlen.bytes →
        cell ≠ xlen.wrap (result + 0x10) →
        after.mem cell = state.heap.mem cell
  freed : ∀ events later,
    Run (HeapStep xlen)
      ⟨after, ⟨sect.payload xlen, overAllocSize xlen size⟩ :: state.live⟩
      events later →
    ⟨sect.payload xlen, overAllocSize xlen size⟩ ∈ later.live →
    later.heap.mem (xlen.wrap (result + 0x10)) =
      after.mem (xlen.wrap (result + 0x10)) →
    ∃ final, KfreeStack xlen later.heap result final ∧
      FreesExactly xlen block_start block_end later (sect.payload xlen) final

/-- What callers of `kmalloc_stack` expect of a call. -/
def StackContract
    (xlen : Xlen) (block_start block_end : Nat)
    (state : HeapState) (size : Nat) : Prop :=
  ∃ result after, KmallocStack xlen state.heap size result after ∧
    (result ≠ 0 →
      ∃ sect, HoldsStack xlen block_start block_end state size result after
        sect)

/-- The request is refused; or the stack would end at a multiple of 16 where
its section is placed, or is empty; or the size overflows and the stack would
end up at address 0. -/
def StackFits
    (xlen : Xlen) (block_start block_end : Nat)
    (live : List Allocation) (size : Nat) : Prop :=
  ¬Unplaceable xlen block_start block_end live (overAllocSize xlen size) →
    ∀ address,
      PlacedAt xlen block_start block_end live (overAllocSize xlen size)
        address →
      if size + 0x20 < xlen.size then
        size = 0 ∨ 0x10 ∣ address + headerSize xlen + size
      else
        let stop := address + headerSize xlen + overAllocSize xlen size
        0x20 ≤ stop ∧ stop < 0x30

/-! ## Calls -/

section Calls

variable {xlen : Xlen} {heap after : Heap} {size result : Nat}

theorem kmallocStack_iff :
    KmallocStack xlen heap size result after ↔
      ∃ allocation middle,
        Kmalloc xlen heap (overAllocSize xlen size) allocation middle ∧
          keepAllocation xlen size allocation middle = (result, after) := by
  simp only [KmallocStack, kmalloc_stack, Kmalloc, Option.map_eq_some_iff,
    Prod.exists]
  constructor
  · rintro ⟨fuel, allocation, middle, call, kept⟩
    exact ⟨allocation, middle, ⟨fuel, call⟩, kept⟩
  · rintro ⟨allocation, middle, ⟨fuel, call⟩, kept⟩
    exact ⟨fuel, allocation, middle, call, kept⟩

theorem kfreeStack_of_kfree
    {ptr allocation : Nat}
    (nonzero : ptr ≠ 0)
    (saved : heap.mem (xlen.wrap (ptr + 0x10)) = allocation)
    (call : Kfree xlen heap allocation after) :
    KfreeStack xlen heap ptr after := by
  obtain ⟨fuel, returned⟩ := call
  refine ⟨fuel, ?_⟩
  rw [kfree_stack, if_neg nonzero, saved, returned]

/-- Subtracting on a register. -/
theorem wrap_sub
    {value less : Nat}
    (enough : less ≤ value)
    (positive : 0 < less)
    (fits : value < xlen.size) :
    xlen.wrap (value + (xlen.size - less)) = value - less := by
  rw [Xlen.wrap_of_le (by omega) (by omega)]
  omega

theorem overAllocSize_of_fits
    (fits : size + 0x20 < xlen.size) :
    overAllocSize xlen size = size + 0x20 :=
  Xlen.wrap_of_lt fits

theorem overAllocSize_of_overflows
    (sizeFits : size < xlen.size)
    (overflows : ¬size + 0x20 < xlen.size) :
    overAllocSize xlen size + xlen.size = size + 0x20 := by
  have := xlen.bytes_lt_size
  have : 0x20 ≤ xlen.size := by
    cases xlen <;> decide
  rw [overAllocSize, Xlen.wrap_of_le (by omega) (by omega)]
  omega

/-- Without overflow the stack pointer is less than 16 bytes below the end of
the stack and the gap above it. -/
theorem stackPointer_of_fits
    {allocation : Nat}
    (fits : allocation + size + 0x10 < xlen.size) :
    stackPointer xlen allocation size + (allocation + size) % 0x10 =
      allocation + size + 0x10 := by
  simp only [stackPointer]
  rw [Xlen.wrap_of_lt fits]
  omega

end Calls

/-! ## The section under a stack -/

/-- A successful call of `kmalloc` added `sect` to the chain. -/
structure AddsSection
    (xlen : Xlen) (block_start block_end : Nat)
    (state : HeapState) (chain : List AllocSection) (request : Nat)
    (after : Heap) (taken : List AllocSection) (sect : AllocSection) :
    Prop where
  call : Kmalloc xlen state.heap request (sect.payload xlen) after
  invariant : HeapInvariant xlen block_start block_end
    ⟨after, ⟨sect.payload xlen, request⟩ :: state.live⟩ taken
  present : sect ∈ taken
  sizeRead : after.sizeAt sect.address = sect.size
  room : request + headerSize xlen ≤ sect.size
  writes : WritesHeader xlen state.heap chain sect.address after

section Sections

variable {xlen : Xlen} {block_start block_end request : Nat}
  {state : HeapState} {after : Heap} {chain taken : List AllocSection}
  {sect : AllocSection}

theorem HeapInvariant.addsSection
    (invariant : HeapInvariant xlen block_start block_end state chain)
    (block : Block xlen block_start block_end)
    (requestFits : request < xlen.size)
    {result : Nat}
    (nonzero : result ≠ 0)
    (call : Kmalloc xlen state.heap request result after) :
    ∃ taken sect, sect.payload xlen = result ∧
      AddsSection xlen block_start block_end state chain request after taken
        sect := by
  obtain ⟨taken, kept, outcome⟩ :=
    invariant.kmalloc_taken block requestFits call
  rcases outcome with ⟨zero, -⟩ | ⟨takes, writes⟩
  · exact absurd zero nonzero
  · have payload := takes.payload
    have requestLe := takes.request_le
    obtain ⟨present, -⟩ :=
      ((takes.fillsGap invariant.shape.chained).mem_iff _).mpr (.inr rfl)
    have payloadEq : result - headerSize xlen + headerSize xlen = result := by
      omega
    rw [if_neg nonzero] at kept
    refine ⟨taken, ⟨_, roundRequest xlen request + headerSize xlen⟩,
      payloadEq, ?_⟩
    constructor
    · rw [AllocSection.payload, payloadEq]
      exact call
    · rw [AllocSection.payload, payloadEq]
      exact kept
    · exact present
    · exact takes.linked.size_of_mem present
    · exact Nat.add_le_add_right requestLe _
    · exact writes

namespace AddsSection

/-- The new section lies in the block, behind two words that are not at
address 0. -/
theorem bounds
    (adds : AddsSection xlen block_start block_end state chain request after
      taken sect)
    (block : Block xlen block_start block_end) :
    0x10 ≤ sect.payload xlen ∧ sect.payload xlen + request < xlen.size ∧
      sect.address + sect.size < xlen.size := by
  have bounds := adds.invariant.packed.bounds adds.present
  have room := adds.room
  have above := sect.address_add_size_le_stop xlen
  have accepted := block.accepted.2
  have short := block.short
  have fits := block.fits
  have header : 8 ≤ headerSize xlen := by
    cases xlen <;> decide
  simp only [AllocSection.payload]
  omega

/-- Writing a word of the payload keeps the invariant. -/
theorem store
    (adds : AddsSection xlen block_start block_end state chain request after
      taken sect)
    (block : Block xlen block_start block_end)
    {cell : Nat}
    (value : Nat)
    (inside :
      Region.Contains ⟨sect.payload xlen, request⟩ cell) :
    HeapInvariant xlen block_start block_end
      ⟨after.store cell value, ⟨sect.payload xlen, request⟩ :: state.live⟩
      taken := by
  apply adds.invariant.write block
  intro other outside
  apply Function.update_of_ne
  rintro rfl
  exact outside _ List.mem_cons_self inside

/-- When the stack ends at a multiple of 16 and its size does not overflow,
`kmalloc_stack` returns its end. -/
theorem holdsStack
    {size : Nat}
    (adds : AddsSection xlen block_start block_end state chain
      (overAllocSize xlen size) after taken sect)
    (block : Block xlen block_start block_end)
    (invariant : HeapInvariant xlen block_start block_end state chain)
    (fits : size + 0x20 < xlen.size)
    (ends : size = 0 ∨ 0x10 ∣ sect.payload xlen + size)
    {result : Nat}
    {final : Heap}
    (kept : keepAllocation xlen size (sect.payload xlen) after =
      (result, final)) :
    HoldsStack xlen block_start block_end state size result final sect := by
  obtain ⟨payloadLarge, requestFits, sectionFits⟩ := adds.bounds block
  have overEq := overAllocSize_of_fits fits
  have room := adds.room
  rw [overEq] at requestFits room
  have pointer : stackPointer xlen (sect.payload xlen) size +
      (sect.payload xlen + size) % 0x10 = sect.payload xlen + size + 0x10 :=
    stackPointer_of_fits (by omega)
  have slack := Nat.mod_lt (sect.payload xlen + size)
    (by decide : 0x10 > 0)
  rw [keepAllocation, if_neg (by omega)] at kept
  obtain ⟨resultEq, rfl⟩ := Prod.mk.inj kept
  rw [wrap_sub (by omega) (by decide) (by omega)] at resultEq
  have savedEq : xlen.wrap (result + 0x10) =
      stackPointer xlen (sect.payload xlen) size := by
    rw [Xlen.wrap_of_lt (by omega)]
    omega
  have inside : Region.Contains ⟨sect.payload xlen, overAllocSize xlen size⟩
      (stackPointer xlen (sect.payload xlen) size) := by
    simp only [Region.Contains]
    omega
  have stored := adds.store block (sect.payload xlen) inside
  constructor
  · exact ⟨after, adds.call, adds.sizeRead⟩
  · apply Nat.dvd_of_mod_eq_zero
    omega
  · intro depth positive inStack
    have resultStop : result = sect.payload xlen + size := by omega
    rw [wrap_sub (by omega) positive (by omega)]
    simp only [Region.Contains, AllocSection.payloadRegion]
    omega
  · have words := xlen.bytes_cases
    rw [savedEq]
    simp only [Region.Within, Region.stop, AllocSection.payloadRegion]
    omega
  · exact ⟨taken, adds.present, stored.safe⟩
  · refine ⟨chain, invariant.safe, ?_⟩
    obtain ⟨prev, inChain, ends, untouched⟩ := adds.writes
    refine ⟨prev, inChain, ends, ?_⟩
    intro cell notLink notSize notNext notSaved
    rw [savedEq] at notSaved
    rw [← untouched cell notLink notSize notNext]
    exact Function.update_of_ne notSaved _ _
  · intro events later run live saved
    obtain ⟨laterChain, laterInvariant⟩ :=
      HeapInvariant.steps block run stored
    have payloadFits : sect.payload xlen < xlen.size := by omega
    obtain ⟨last, call, frees⟩ :=
      laterInvariant.kfree_exact block payloadFits
    refine ⟨last, kfreeStack_of_kfree (by omega) ?_ call, frees⟩
    rw [saved, savedEq]
    exact Function.update_self _ _ _

/-- Where the size does not overflow, the stack below the pointer returned
starts in the payload only if it is empty or ends at a multiple of 16. -/
theorem ends_of_stackInside
    {size : Nat}
    (adds : AddsSection xlen block_start block_end state chain
      (overAllocSize xlen size) after taken sect)
    (block : Block xlen block_start block_end)
    (fits : size + 0x20 < xlen.size)
    {result : Nat}
    {final : Heap}
    (kept : keepAllocation xlen size (sect.payload xlen) after =
      (result, final)) :
    result ≠ 0 ∧
      ((∀ depth, 0 < depth → depth ≤ size →
        (sect.payloadRegion xlen).Contains
          (xlen.wrap (result + (xlen.size - depth)))) →
        size = 0 ∨ 0x10 ∣ sect.payload xlen + size) := by
  obtain ⟨payloadLarge, requestFits, -⟩ := adds.bounds block
  rw [overAllocSize_of_fits fits] at requestFits
  have pointer : stackPointer xlen (sect.payload xlen) size +
      (sect.payload xlen + size) % 0x10 = sect.payload xlen + size + 0x10 :=
    stackPointer_of_fits (by omega)
  have slack := Nat.mod_lt (sect.payload xlen + size)
    (by decide : 0x10 > 0)
  rw [keepAllocation, if_neg (by omega)] at kept
  have resultEq := (Prod.mk.inj kept).1
  rw [wrap_sub (by omega) (by decide) (by omega)] at resultEq
  refine ⟨by omega, fun inside => ?_⟩
  by_cases empty : size = 0
  · exact .inl empty
  · right
    have lowest := (inside size (Nat.pos_of_ne_zero empty) le_rfl).1
    rw [wrap_sub (by omega) (Nat.pos_of_ne_zero empty) (by omega)] at lowest
    simp only [AllocSection.payloadRegion] at lowest
    apply Nat.dvd_of_mod_eq_zero
    omega

/-- Where the size overflows, the stack cannot lie in the payload, which is
shorter than 64 bytes. -/
theorem not_stackInside
    {size : Nat}
    (adds : AddsSection xlen block_start block_end state chain
      (overAllocSize xlen size) after taken sect)
    (block : Block xlen block_start block_end)
    (sizeFits : size < xlen.size)
    (overflows : ¬size + 0x20 < xlen.size)
    {result : Nat}
    {final : Heap}
    (kept : keepAllocation xlen size (sect.payload xlen) after =
      (result, final)) :
    (result = 0 ↔
      0x20 ≤ sect.payload xlen + overAllocSize xlen size ∧
        sect.payload xlen + overAllocSize xlen size < 0x30) ∧
      (result ≠ 0 → ¬∀ depth, 0 < depth → depth ≤ size →
        (sect.payloadRegion xlen).Contains
          (xlen.wrap (result + (xlen.size - depth)))) := by
  have payloadStart := (adds.invariant.packed.bounds adds.present).1
  have sectionStop := (adds.invariant.packed.bounds adds.present).2.2
  have above := sect.address_add_size_le_stop xlen
  have twice := block.end_le_two_mul
  obtain ⟨payloadLarge, requestFits, -⟩ := adds.bounds block
  have overEq := overAllocSize_of_overflows sizeFits overflows
  have top : xlen.wrap (sect.payload xlen + size + 0x10) =
      sect.payload xlen + overAllocSize xlen size - 0x10 := by
    rw [Xlen.wrap_of_le (by omega) (by omega)]
    omega
  rw [keepAllocation, if_neg (by omega)] at kept
  have resultEq := (Prod.mk.inj kept).1
  simp only [stackPointer, top] at resultEq
  have header : 8 ≤ headerSize xlen := by
    cases xlen <;> decide
  have large : 0x40 ≤ xlen.size := by
    cases xlen <;> decide
  by_cases below : sect.payload xlen + overAllocSize xlen size < 0x20
  · -- the saved word is at address 0 and the stack ends at the highest addresses
    rw [Nat.sub_eq_zero_of_le (by omega), Xlen.wrap_of_lt (by omega)]
      at resultEq
    refine ⟨by omega, fun _ inside => ?_⟩
    have highest := (inside 1 (by decide) (by omega)).2
    have lowest := (inside (xlen.size - 0x20) (by omega) (by omega)).1
    rw [wrap_sub (by omega) (by omega) (by omega)] at highest lowest
    simp only [AllocSection.payloadRegion, AllocSection.payload]
      at highest lowest
    omega
  · rw [wrap_sub (by omega) (by decide) (by omega)] at resultEq
    refine ⟨by omega, fun nonzero inside => ?_⟩
    -- the stack reaches down past address 0
    have lowest := (inside result (Nat.pos_of_ne_zero nonzero) (by omega)).1
    rw [wrap_sub le_rfl (Nat.pos_of_ne_zero nonzero) (by omega),
      Nat.sub_self] at lowest
    simp only [AllocSection.payloadRegion] at lowest
    omega

/-- The contract is about the section that was added. -/
theorem stackContract_iff
    {size : Nat}
    (adds : AddsSection xlen block_start block_end state chain
      (overAllocSize xlen size) after taken sect)
    {result : Nat}
    {final : Heap}
    (kept : keepAllocation xlen size (sect.payload xlen) after =
      (result, final)) :
    StackContract xlen block_start block_end state size ↔
      (result ≠ 0 → HoldsStack xlen block_start block_end state size result
        final sect) := by
  constructor
  · rintro ⟨otherResult, otherFinal, stackCall, holds⟩ nonzero
    obtain ⟨allocation, middle, call, otherKept⟩ :=
      kmallocStack_iff.mp stackCall
    obtain ⟨rfl, rfl⟩ := Prod.mk.inj (adds.call.unique call)
    obtain ⟨rfl, rfl⟩ := Prod.mk.inj (kept.symm.trans otherKept)
    obtain ⟨other, holds⟩ := holds nonzero
    obtain ⟨otherMiddle, otherCall, sizeRead⟩ := holds.fromKmalloc
    obtain ⟨samePayload, rfl⟩ := Prod.mk.inj (adds.call.unique otherCall)
    have sameAddress : sect.address = other.address :=
      Nat.add_right_cancel samePayload
    have sameSize : sect.size = other.size := by
      rw [← sizeRead, ← adds.sizeRead, sameAddress]
    obtain rfl : sect = other := by
      cases sect
      cases other
      cases sameAddress
      cases sameSize
      rfl
    exact holds
  · intro holds
    exact ⟨result, final,
      kmallocStack_iff.mpr ⟨_, after, adds.call, kept⟩,
      fun nonzero => ⟨sect, holds nonzero⟩⟩

end AddsSection

end Sections

/-! ## The contract -/

/-- Calls of `kmalloc_stack` in every state of a run.  The stack, the word
above it and the writes are as callers expect exactly where the request is
refused, or the stack ends at a multiple of 16 in its section. -/
theorem kmallocStack_contract_iff
    {xlen : Xlen}
    {block_start block_end : Nat}
    (block : Block xlen block_start block_end)
    {heap : Heap}
    {events : List HeapEvent}
    {state : HeapState}
    (run : Run (HeapStep xlen)
      ⟨kallocinit xlen heap block_start block_end, []⟩ events state)
    {size : Nat}
    (sizeFits : size < xlen.size) :
    StackContract xlen block_start block_end state size ↔
      StackFits xlen block_start block_end state.live size := by
  obtain ⟨chain, measured⟩ := Measured.of_run block run
  have overFits : overAllocSize xlen size < xlen.size := xlen.wrap_lt _
  obtain ⟨allocation, middle, call⟩ :=
    (heap_safety block run).2.1 _ overFits
  rcases measured.kmalloc_answers block overFits call with
    ⟨rfl, -, refused⟩ | ⟨header, placeable, placed⟩
  · apply iff_of_true
    · exact ⟨0, middle, kmallocStack_iff.mpr ⟨0, middle, call, if_pos rfl⟩,
        fun nonzero => absurd rfl nonzero⟩
    · exact fun placeable => absurd refused placeable
  · have nonzero : allocation ≠ 0 := by
      have := xlen.bytes_pos
      unfold headerSize at header
      omega
    obtain ⟨taken, sect, rfl, adds⟩ :=
      measured.toHeapInvariant.addsSection block overFits nonzero call
    cases kept : keepAllocation xlen size (sect.payload xlen) middle with
    | mk result after =>
        rw [adds.stackContract_iff kept]
        have atPayload : StackFits xlen block_start block_end state.live size ↔
            if size + 0x20 < xlen.size then
              size = 0 ∨ 0x10 ∣ sect.payload xlen + size
            else
              0x20 ≤ sect.payload xlen + overAllocSize xlen size ∧
                sect.payload xlen + overAllocSize xlen size < 0x30 := by
          have payloadEq := Nat.sub_add_cancel header
          constructor
          · intro fits
            have here := fits placeable _ placed
            rwa [payloadEq] at here
          · intro here _ address other
            rw [← placed.unique other, payloadEq]
            exact here
        rw [atPayload]
        split
        next fits =>
          have ends := adds.ends_of_stackInside block fits kept
          constructor
          · exact fun holds => ends.2 (holds ends.1).stackInside
          · intro atMultiple _
            exact adds.holdsStack block measured.toHeapInvariant fits
              atMultiple kept
        next overflows =>
          obtain ⟨atZero, outside⟩ :=
            adds.not_stackInside block sizeFits overflows kept
          rw [← atZero]
          constructor
          · intro holds
            by_contra nonzero
            exact outside nonzero (holds nonzero).stackInside
          · exact fun zero nonzero => absurd zero nonzero

/-- A stack of 16 bytes where the first of two sections was freed. -/
theorem kmallocStack_contract_iff_freed :
    ∃ first second freed,
      Kmalloc .rv64 (kallocinit .rv64 ⟨0, 0, fun _ => 0⟩ 0x1000 0x2000) 24 0x1010 first ∧
      Kmalloc .rv64 first 8 0x1038 second ∧ Kfree .rv64 second 0x1010 freed ∧
      (StackContract .rv64 0x1000 0x2000 ⟨freed, [⟨0x1038, 8⟩]⟩ 0x10 ↔
        StackFits .rv64 0x1000 0x2000 [⟨0x1038, 8⟩] 0x10) := by
  obtain ⟨first, second, freed, firstCall, secondCall, free⟩ : ∃ first second freed,
      Kmalloc .rv64 (kallocinit .rv64 ⟨0, 0, fun _ => 0⟩ 0x1000 0x2000) 24 0x1010 first ∧
      Kmalloc .rv64 first 8 0x1038 second ∧ Kfree .rv64 second 0x1010 freed :=
    ⟨_, _, _, ⟨1, rfl⟩, ⟨2, rfl⟩, ⟨2, rfl⟩⟩
  refine ⟨first, second, freed, firstCall, secondCall, free, ?_⟩
  have run := ((Run.single (@HeapStep.kmalloc _ _ _ [] _ _ (by decide) firstCall)).snoc
    (.kmalloc (by decide) secondCall)).snoc (.kfree (by decide) free)
  exact kmallocStack_contract_iff ⟨by decide, by decide, by decide, by decide⟩ run
    (by decide)

/-- Behind a section of three words the stack starts in the header. -/
theorem kmallocStack_overlaps_header :
    ¬∀ (heap : Heap) (events : List HeapEvent) (state : HeapState),
      Run (HeapStep .rv64) ⟨kallocinit .rv64 heap 0x1000 0x2000, []⟩ events
        state →
      ∀ size < Xlen.rv64.size, StackContract .rv64 0x1000 0x2000 state size := by
  intro claimed
  have first : Kmalloc .rv64
      (kallocinit .rv64 ⟨0, 0, fun _ => 0⟩ 0x1000 0x2000) 8 0x1010 _ :=
    ⟨1, rfl⟩
  obtain ⟨result, after, stackCall, holds⟩ := claimed _ _ _
    (.single (.kmalloc (by decide) first)) 0x10 (by decide)
  obtain ⟨allocation, middle, call, kept⟩ := kmallocStack_iff.mp stackCall
  cases call.unique (⟨1, rfl⟩ : Kmalloc _ _ _ 0x1028 _)
  cases kept
  obtain ⟨sect, holds⟩ := holds (by decide)
  obtain ⟨other, otherCall, -⟩ := holds.fromKmalloc
  have payload := (Prod.mk.inj (otherCall.unique call)).1
  have lowest : sect.payload .rv64 ≤ 0x1020 :=
    (holds.stackInside 0x10 (by decide) le_rfl).1
  omega

end Memalloc
end EchelonSbi
