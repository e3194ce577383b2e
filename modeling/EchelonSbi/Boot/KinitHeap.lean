import EchelonSbi.Boot.Kmain
import EchelonSbi.Memalloc.Packing
import EchelonSbi.Traps.Context

/-!
# The heap of `kinit`

`kinit` sets up the heap and takes from it five arrays and, for every hart, a block of
thread-local data and a stack, and tests none of the pointers that it gets.
-/

namespace EchelonSbi
namespace Boot

open Foundation
open Memalloc
open Traps (CT_SIZE)

def STACK_SIZE : Nat := 0x1000

/-- `&KHEAP_START + 0x10000`, where `KHEAP_START` is declared as a `void**`. -/
def heapEnd (xlen : Xlen) (KHEAP_START : Nat) : Nat :=
  KHEAP_START + 0x10000 * xlen.bytes

/-- `sizeof(Hart_Command)`. -/
def commandSize (xlen : Xlen) : Nat :=
  7 * xlen.bytes

/-- `sizeof(ksemaphore_t)` and `sizeof(sint32_t)`. -/
def semaphoreSize : Nat :=
  4

section Calls

variable (xlen : Xlen) (TOTAL_HART_COUNT tls_size : Nat)

/-- `hart_commands`, `hart_command_que_locks`, `sbi_hsm_locks`, `sbi_hsm_states` and
`hart_contexts`. -/
def kinitArrays : List HeapCall :=
  [.kmalloc (xlen.wrap (TOTAL_HART_COUNT * commandSize xlen)),
    .kmalloc (xlen.wrap (TOTAL_HART_COUNT * semaphoreSize)),
    .kmalloc (xlen.wrap (TOTAL_HART_COUNT * semaphoreSize)),
    .kmalloc (xlen.wrap (TOTAL_HART_COUNT * semaphoreSize)),
    .kmalloc (xlen.wrap (xlen.wrap (TOTAL_HART_COUNT * 3) * CT_SIZE xlen))]

/-- A turn of the loop over the contexts with the stacks of the harts. -/
def kinitTurn : List HeapCall :=
  [.kmalloc tls_size, .kmalloc_stack STACK_SIZE]

/-- What `kinit` takes from the heap, in order. -/
def kinitCalls : List HeapCall :=
  kinitArrays xlen TOTAL_HART_COUNT ++
    (List.range TOTAL_HART_COUNT).flatMap fun _ => kinitTurn tls_size

/-- The bytes of the sections of the arrays, if no product overflows. -/
def arraysSize : Nat :=
  sectionSize xlen (TOTAL_HART_COUNT * commandSize xlen) +
    3 * sectionSize xlen (TOTAL_HART_COUNT * semaphoreSize) +
      sectionSize xlen (TOTAL_HART_COUNT * 3 * CT_SIZE xlen)

/-- The bytes of the sections of a hart. -/
def hartSize : Nat :=
  sectionSize xlen tls_size + sectionSize xlen (STACK_SIZE + 0x20)

/-- The bytes that `kinit` takes from the heap. -/
def kinitSize : Nat :=
  arraysSize xlen TOTAL_HART_COUNT + TOTAL_HART_COUNT * hartSize xlen tls_size

end Calls

section Sizes

variable {xlen : Xlen} {TOTAL_HART_COUNT tls_size : Nat}

theorem request_kinitTurn :
    (kinitTurn tls_size).map (·.request xlen) = [tls_size, STACK_SIZE + 0x20] := by
  have overAllocated : overAllocSize xlen STACK_SIZE = STACK_SIZE + 0x20 := by
    cases xlen <;> rfl
  simp [kinitTurn, HeapCall.request, overAllocated]

theorem sectionsSize_turns (turns : List Nat) :
    sectionsSize xlen ((turns.flatMap fun _ => kinitTurn tls_size).map (·.request xlen)) =
      turns.length * hartSize xlen tls_size := by
  induction turns with
  | nil => simp
  | cons turn rest inductionHypothesis =>
      rw [List.flatMap_cons, List.map_append, sectionsSize_append, inductionHypothesis,
        request_kinitTurn, List.length_cons, Nat.succ_mul, hartSize]
      simp only [sectionsSize_cons, sectionsSize_nil]
      omega

/-- The stacks alone limit the number of harts. -/
theorem harts_lt
    (room : TOTAL_HART_COUNT * hartSize xlen tls_size ≤ 0x10000 * xlen.bytes) :
    TOTAL_HART_COUNT < 0x80 := by
  have stack : 0x1020 ≤ hartSize xlen tls_size := by
    unfold hartSize
    have : 0x1020 ≤ sectionSize xlen (STACK_SIZE + 0x20) := by
      cases xlen <;> decide
    omega
  have least := (Nat.mul_le_mul_left TOTAL_HART_COUNT stack).trans room
  have bytes : xlen.bytes ≤ 8 := by
    cases xlen <;> decide
  omega

/-- So few harts make no product overflow. -/
theorem sectionsSize_arrays
    (few : TOTAL_HART_COUNT < 0x80) :
    sectionsSize xlen ((kinitArrays xlen TOTAL_HART_COUNT).map (·.request xlen)) =
      arraysSize xlen TOTAL_HART_COUNT := by
  have room : 0x80 * 0x400 ≤ xlen.size := by
    cases xlen <;> decide
  have product {count size : Nat} (counts : count ≤ 3 * TOTAL_HART_COUNT)
      (small : size ≤ 0x118) : xlen.wrap (count * size) = count * size := by
    have bound : count * size ≤ 3 * TOTAL_HART_COUNT * 0x118 :=
      Nat.mul_le_mul counts small
    exact Xlen.wrap_of_lt (by omega)
  have commands : commandSize xlen ≤ 0x118 := by
    cases xlen <;> decide
  have contexts : CT_SIZE xlen ≤ 0x118 := by
    cases xlen <;> decide
  simp only [kinitArrays, List.map_cons, List.map_nil, HeapCall.request, arraysSize]
  rw [product (show TOTAL_HART_COUNT ≤ 3 * TOTAL_HART_COUNT by omega) commands,
    product (show TOTAL_HART_COUNT ≤ 3 * TOTAL_HART_COUNT by omega)
      (show semaphoreSize ≤ 0x118 by decide),
    product (show TOTAL_HART_COUNT ≤ 3 * TOTAL_HART_COUNT by omega)
      (show 3 ≤ 0x118 by decide),
    product (show TOTAL_HART_COUNT * 3 ≤ 3 * TOTAL_HART_COUNT by omega) contexts]
  simp only [sectionsSize_cons, sectionsSize_nil]
  omega

theorem kinitCalls_fit
    (tls : tls_size < xlen.size) :
    ∀ call ∈ kinitCalls xlen TOTAL_HART_COUNT tls_size, call.Fits xlen := by
  intro call member
  rcases List.mem_append.mp member with array | turn
  · simp only [kinitArrays, List.mem_cons, List.not_mem_nil, or_false] at array
    rcases array with rfl | rfl | rfl | rfl | rfl <;> exact xlen.wrap_lt _
  · obtain ⟨hart, -, inside⟩ := List.mem_flatMap.mp turn
    simp only [kinitTurn, List.mem_cons, List.not_mem_nil, or_false] at inside
    rcases inside with rfl | rfl
    · exact tls
    · simp only [HeapCall.Fits]
      cases xlen <;> decide

theorem kinitCalls_nonzero_iff
    (few : TOTAL_HART_COUNT < 0x80) :
    (∀ call ∈ kinitCalls xlen TOTAL_HART_COUNT tls_size, call.request xlen ≠ 0) ↔
      0 < TOTAL_HART_COUNT ∧ 0 < tls_size := by
  have room : 0x80 * 0x400 ≤ xlen.size := by
    cases xlen <;> decide
  have commands : 0 < commandSize xlen ∧ commandSize xlen ≤ 0x118 := by
    cases xlen <;> decide
  have contexts : 0 < CT_SIZE xlen ∧ CT_SIZE xlen ≤ 0x118 := by
    cases xlen <;> decide
  have product {count size : Nat} (counts : 0 < count ∧ count ≤ 3 * TOTAL_HART_COUNT)
      (small : 0 < size ∧ size ≤ 0x118) : xlen.wrap (count * size) ≠ 0 := by
    have bound : count * size ≤ 3 * TOTAL_HART_COUNT * 0x118 :=
      Nat.mul_le_mul counts.2 small.2
    have positive : 0 < count * size := Nat.mul_pos counts.1 small.1
    rw [Xlen.wrap_of_lt (by omega)]
    omega
  constructor
  · intro nonzero
    have harts : 0 < TOTAL_HART_COUNT := by
      apply Nat.pos_of_ne_zero
      rintro rfl
      refine nonzero (.kmalloc (xlen.wrap (0 * commandSize xlen))) ?_ ?_
      · simp [kinitCalls, kinitArrays]
      · simp [HeapCall.request, Xlen.wrap]
    refine ⟨harts, Nat.pos_of_ne_zero (nonzero (.kmalloc tls_size) ?_)⟩
    apply List.mem_append_right
    exact List.mem_flatMap.mpr ⟨0, List.mem_range.mpr harts, List.mem_cons_self⟩
  · rintro ⟨harts, tls⟩ call member
    have triple : xlen.wrap (TOTAL_HART_COUNT * 3) = TOTAL_HART_COUNT * 3 :=
      Xlen.wrap_of_lt (by omega)
    rcases List.mem_append.mp member with array | turn
    · simp only [kinitArrays, List.mem_cons, List.not_mem_nil, or_false] at array
      rcases array with rfl | rfl | rfl | rfl | rfl
      · exact product ⟨harts, by omega⟩ commands
      · exact product ⟨harts, by omega⟩ (by decide)
      · exact product ⟨harts, by omega⟩ (by decide)
      · exact product ⟨harts, by omega⟩ (by decide)
      · rw [HeapCall.request, triple]
        exact product ⟨by omega, by omega⟩ contexts
    · obtain ⟨hart, -, inside⟩ := List.mem_flatMap.mp turn
      simp only [kinitTurn, List.mem_cons, List.not_mem_nil, or_false] at inside
      rcases inside with rfl | rfl
      · exact tls.ne'
      · simp only [HeapCall.request]
        cases xlen <;> decide

end Sizes

/-! ## Where the areas lie -/

section Areas

variable (xlen : Xlen) (tls_size : Nat)

/-- The block of thread-local data of a hart, where the sections of the harts begin at
`low`. -/
def threadBlock (low hart : Nat) : Allocation :=
  ⟨low + hart * hartSize xlen tls_size + headerSize xlen, tls_size⟩

/-- What `kmalloc` gives `kmalloc_stack` for a hart. -/
def stackBlock (low hart : Nat) : Allocation :=
  ⟨low + hart * hartSize xlen tls_size + sectionSize xlen tls_size + headerSize xlen,
    STACK_SIZE + 0x20⟩

/-- What `kmalloc_stack` returns for a hart. -/
def stackTop (low hart : Nat) : Nat :=
  ((stackBlock xlen tls_size low hart).ptr + STACK_SIZE) / 0x10 * 0x10

variable {xlen tls_size} {low : Nat}

theorem allocations_turns (harts : Nat) :
    allocations xlen low (((List.range harts).flatMap fun _ => kinitTurn tls_size).map
        (·.request xlen)) =
      (List.range harts).flatMap fun hart =>
        [threadBlock xlen tls_size low hart, stackBlock xlen tls_size low hart] := by
  induction harts with
  | zero => rfl
  | succ harts inductionHypothesis =>
      rw [List.range_succ, List.flatMap_append, List.flatMap_append, List.map_append,
        allocations_append, inductionHypothesis, sectionsSize_turns, List.length_range,
        List.flatMap_singleton, List.flatMap_singleton, request_kinitTurn]
      simp [allocations, threadBlock, stackBlock]

theorem pointers_turns (harts : Nat) :
    pointers xlen low ((List.range harts).flatMap fun _ => kinitTurn tls_size) =
      (List.range harts).flatMap fun hart =>
        [(threadBlock xlen tls_size low hart).ptr, stackTop xlen tls_size low hart] := by
  induction harts with
  | zero => rfl
  | succ harts inductionHypothesis =>
      rw [List.range_succ, List.flatMap_append, List.flatMap_append, pointers_append,
        inductionHypothesis, sectionsSize_turns, List.length_range, List.flatMap_singleton,
        List.flatMap_singleton]
      simp [kinitTurn, pointers, HeapCall.pointer, HeapCall.request, threadBlock, stackTop,
        stackBlock]

/-- The areas of a hart: its block of thread-local data, and a stack of which at most
the lowest bytes lie below what `kmalloc` gave. -/
structure HartAreas (live : List Allocation) (tls_size tp sp : Nat) : Prop where
  thread : ⟨tp, tls_size⟩ ∈ live
  aligned : 0x10 ∣ sp
  stack : ∃ area ∈ live, area.request = STACK_SIZE + 0x20 ∧
    (∀ depth, 0 < depth → depth + area.ptr % 0x10 ≤ STACK_SIZE →
      area.payload.Contains (sp - depth)) ∧
    ((∀ depth, 0 < depth → depth ≤ STACK_SIZE → area.payload.Contains (sp - depth)) ↔
      0x10 ∣ area.ptr)

theorem hartAreas
    {live : List Allocation}
    {hart : Nat}
    (thread : threadBlock xlen tls_size low hart ∈ live)
    (stack : stackBlock xlen tls_size low hart ∈ live) :
    HartAreas live tls_size (threadBlock xlen tls_size low hart).ptr
      (stackTop xlen tls_size low hart) := by
  refine ⟨thread, Nat.dvd_mul_left .., _, stack, rfl, ?_, ?_⟩
  · intro depth positive inside
    simp only [Allocation.payload, Region.Contains, stackTop, stackBlock, STACK_SIZE] at *
    omega
  · simp only [Allocation.payload, Region.Contains, stackTop, stackBlock, STACK_SIZE]
    constructor
    · intro whole
      have lowest := whole 0x1000 (by decide) (Nat.le_refl _)
      omega
    · intro divides depth positive inside
      omega

end Areas

/-! ## The calls of `kinit` -/

section Kinit

variable {xlen : Xlen} {KHEAP_START TOTAL_HART_COUNT tls_size : Nat} {heap : Heap}
  {results : List Nat} {last : HeapState}

theorem kinit_block
    (aligned : 0x10 ∣ KHEAP_START)
    (above : PROGAMIMAGE_START ≤ KHEAP_START)
    (inside : heapEnd xlen KHEAP_START < xlen.size) :
    Block xlen KHEAP_START (heapEnd xlen KHEAP_START) := by
  have words := xlen.bytes_cases
  unfold PROGAMIMAGE_START at above
  refine ⟨⟨?_, ?_⟩, ?_, ?_, inside⟩
  · exact Nat.le_add_right ..
  · unfold heapEnd headerSize
    omega
  · have divides : xlen.bytes ∣ 0x10 := by
      cases xlen <;> decide
    exact divides.trans aligned
  · unfold heapEnd
    omega

/-- All calls get memory if and only if all sections fit. -/
theorem kinitCalls_iff
    (block : Block xlen KHEAP_START (heapEnd xlen KHEAP_START))
    (tls : tls_size < xlen.size) :
    (∃ results last,
        Calls xlen ⟨kallocinit xlen heap KHEAP_START (heapEnd xlen KHEAP_START), []⟩
          (kinitCalls xlen TOTAL_HART_COUNT tls_size) results last) ↔
      0 < TOTAL_HART_COUNT ∧ 0 < tls_size ∧
        kinitSize xlen TOTAL_HART_COUNT tls_size ≤ 0x10000 * xlen.bytes := by
  rw [exists_calls_iff block heap (kinitCalls_fit tls), kinitCalls, List.map_append,
    sectionsSize_append, sectionsSize_turns, List.length_range, ← kinitCalls, heapEnd,
    kinitSize]
  constructor
  · rintro ⟨nonzero, room⟩
    have few : TOTAL_HART_COUNT < 0x80 := @harts_lt xlen _ tls_size (by omega)
    obtain ⟨harts, thread⟩ := (kinitCalls_nonzero_iff few).mp nonzero
    rw [sectionsSize_arrays few] at room
    exact ⟨harts, thread, by omega⟩
  · rintro ⟨harts, thread, room⟩
    have few : TOTAL_HART_COUNT < 0x80 := @harts_lt xlen _ tls_size (by omega)
    rw [sectionsSize_arrays few]
    exact ⟨(kinitCalls_nonzero_iff few).mpr ⟨harts, thread⟩, by omega⟩

/-- What `kinit` gets if all its calls get memory. -/
structure KinitAreas
    (xlen : Xlen) (KHEAP_START TOTAL_HART_COUNT tls_size : Nat)
    (results : List Nat) (live : List Allocation) : Prop where
  apart : live.Pairwise fun left right => left.payload.Apart right.payload
  within : ∀ area ∈ live, area.payload.Within KHEAP_START (heapEnd xlen KHEAP_START)
  returned : ∃ (arrays : List Allocation) (tp sp : Nat → Nat),
    arrays ⊆ live ∧
    arrays.map Allocation.request =
      (kinitArrays xlen TOTAL_HART_COUNT).map (·.request xlen) ∧
    results = arrays.map Allocation.ptr ++
      (List.range TOTAL_HART_COUNT).flatMap (fun hart => [tp hart, sp hart]) ∧
    ∀ hart < TOTAL_HART_COUNT, HartAreas live tls_size (tp hart) (sp hart)

theorem kinitAreas
    (block : Block xlen KHEAP_START (heapEnd xlen KHEAP_START))
    (tls : tls_size < xlen.size)
    (run : Calls xlen ⟨kallocinit xlen heap KHEAP_START (heapEnd xlen KHEAP_START), []⟩
      (kinitCalls xlen TOTAL_HART_COUNT tls_size) results last) :
    KinitAreas xlen KHEAP_START TOTAL_HART_COUNT tls_size results last.live := by
  obtain ⟨-, returned, filled⟩ :=
    run.packed block (Filled.initial block heap) (kinitCalls_fit tls)
  obtain ⟨chain, measured⟩ := filled.measured
  have safe := measured.toHeapInvariant.safe
  have live := filled.live
  -- the sections of the harts begin behind those of the arrays
  obtain ⟨low, begins⟩ : ∃ low, KHEAP_START + sectionsSize xlen
      ((kinitArrays xlen TOTAL_HART_COUNT).map (·.request xlen)) = low := ⟨_, rfl⟩
  rw [sectionsSize_nil, Nat.add_zero, kinitCalls, pointers_append, pointers_turns, begins]
    at returned
  rw [List.nil_append, kinitCalls, List.map_append, allocations_append, allocations_turns,
    List.reverse_append, begins] at live
  refine ⟨safe.payloadsApart, safe.payloadWithin, allocations xlen KHEAP_START
    ((kinitArrays xlen TOTAL_HART_COUNT).map (·.request xlen)),
    fun hart => (threadBlock xlen tls_size low hart).ptr,
    fun hart => stackTop xlen tls_size low hart, ?_, ?_, ?_, ?_⟩
  · intro area present
    rw [live]
    exact List.mem_append_right _ (List.mem_reverse.mpr present)
  · simp [kinitArrays, allocations]
  · rw [returned]
    simp [kinitArrays, allocations, pointers, HeapCall.pointer]
  · intro hart small
    have owned (area : Allocation)
        (here : area ∈
          [threadBlock xlen tls_size low hart, stackBlock xlen tls_size low hart]) :
        area ∈ last.live := by
      rw [live]
      apply List.mem_append_left
      apply List.mem_reverse.mpr
      exact List.mem_flatMap.mpr ⟨hart, List.mem_range.mpr small, here⟩
    exact hartAreas (owned _ List.mem_cons_self)
      (owned _ (List.mem_cons_of_mem _ List.mem_cons_self))

/-- The heap of `kinit`.  Every call gets memory if and only if there is a hart, the
thread-local data are not empty and all sections fit into the heap; a call gets 0 if
and only if it does not fit behind those before it.  If all get memory, all areas are
apart and in the heap, and every hart has its block of thread-local data and its
aligned stack, of which at most the lowest bytes lie outside. -/
theorem kinit_heap
    (aligned : 0x10 ∣ KHEAP_START)
    (above : PROGAMIMAGE_START ≤ KHEAP_START)
    (inside : heapEnd xlen KHEAP_START < xlen.size)
    (tls : tls_size < xlen.size) :
    ((∃ results last,
        Calls xlen ⟨kallocinit xlen heap KHEAP_START (heapEnd xlen KHEAP_START), []⟩
          (kinitCalls xlen TOTAL_HART_COUNT tls_size) results last) ↔
      0 < TOTAL_HART_COUNT ∧ 0 < tls_size ∧
        kinitSize xlen TOTAL_HART_COUNT tls_size ≤ 0x10000 * xlen.bytes) ∧
    (∀ made next rest results middle,
      kinitCalls xlen TOTAL_HART_COUNT tls_size = made ++ next :: rest →
      Calls xlen ⟨kallocinit xlen heap KHEAP_START (heapEnd xlen KHEAP_START), []⟩
        made results middle →
      (∃ allocation result after,
        next.Returns xlen middle.heap allocation result after) ∧
      ∀ allocation result after, next.Returns xlen middle.heap allocation result after →
        (result ≠ 0 ↔ RoomFor xlen KHEAP_START (heapEnd xlen KHEAP_START)
          (made.map (·.request xlen)) (next.request xlen))) ∧
    ∀ results last,
      Calls xlen ⟨kallocinit xlen heap KHEAP_START (heapEnd xlen KHEAP_START), []⟩
        (kinitCalls xlen TOTAL_HART_COUNT tls_size) results last →
      KinitAreas xlen KHEAP_START TOTAL_HART_COUNT tls_size results last.live := by
  have block := kinit_block aligned above inside
  refine ⟨kinitCalls_iff block tls, ?_, fun results last run => kinitAreas block tls run⟩
  intro made next rest results middle split calls
  have fits := @kinitCalls_fit xlen TOTAL_HART_COUNT tls_size tls
  rw [split] at fits
  obtain ⟨-, -, filled⟩ := calls.packed block (Filled.initial block heap)
    fun call member => fits call (List.mem_append_left _ member)
  have here := fits next (by simp)
  refine ⟨filled.exists_returns block here, fun allocation result after returns => ?_⟩
  rcases filled.call block here returns with ⟨noRoom, zero⟩ | ⟨room, nonzero, -⟩
  · exact iff_of_false (not_not.mpr zero) noRoom
  · exact iff_of_true nonzero room

end Kinit

/-- Four harts with 24 bytes of thread-local data. -/
theorem kinit_heap_board :
    ∃ results last,
      Calls .rv64 ⟨kallocinit .rv64 ⟨0, 0, fun _ => 0⟩ 0x80020000 0x800A0000, []⟩
        (kinitCalls .rv64 4 24) results last ∧
      KinitAreas .rv64 0x80020000 4 24 results last.live := by
  obtain ⟨gets, -, areas⟩ := @kinit_heap .rv64 0x80020000 4 24 ⟨0, 0, fun _ => 0⟩
    (by decide) (by decide) (by decide) (by decide)
  obtain ⟨results, last, run⟩ := gets.mpr (by decide)
  exact ⟨results, last, run, areas results last run⟩

/-- The first numbers of harts that the heap is too small for, with 24 and 12 bytes of
thread-local data. -/
example :
    (List.range 0x80).findIdx? (0x80000 < kinitSize .rv64 · 24) = some 103 ∧
      (List.range 0x80).findIdx? (0x40000 < kinitSize .rv32 · 12) = some 57 := by
  decide

end Boot
end EchelonSbi
