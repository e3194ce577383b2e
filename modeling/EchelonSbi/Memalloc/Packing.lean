import EchelonSbi.Foundation.Tiling
import EchelonSbi.Memalloc.Stack

/-!
# Calls that free nothing

On a heap from which nothing was freed, `kmalloc` puts the sections one behind the
other.  So a sequence of calls of `kmalloc` and `kmalloc_stack` gets what it asks for
as long as the sections fit into the block, and the pointers can be computed.
-/

namespace EchelonSbi
namespace Memalloc

open Foundation Region

/-- A call that takes memory from the heap. -/
inductive HeapCall where
  | kmalloc (size : Nat)
  | kmalloc_stack (size : Nat)
  deriving DecidableEq, Repr

namespace HeapCall

variable (xlen : Xlen)

/-- What `kmalloc` is asked for. -/
def request : HeapCall → Nat
  | .kmalloc size => size
  | .kmalloc_stack size => overAllocSize xlen size

/-- What the call does with the pointer that `kmalloc` returned. -/
def finish (allocation : Nat) (heap : Heap) : HeapCall → Nat × Heap
  | .kmalloc _ => (allocation, heap)
  | .kmalloc_stack size => keepAllocation xlen size allocation heap

/-- The call stops, returns `result` and leaves `after`; inside, `kmalloc` returned
`allocation`. -/
def Returns
    (call : HeapCall) (heap : Heap) (allocation result : Nat) (after : Heap) : Prop :=
  ∃ middle, Kmalloc xlen heap (call.request xlen) allocation middle ∧
    call.finish xlen allocation middle = (result, after)

/-- The size that the call computes does not overflow. -/
def Fits : HeapCall → Prop
  | .kmalloc size => size < xlen.size
  | .kmalloc_stack size => size + 0x20 < xlen.size

/-- What the call returns, where `kmalloc` returned `allocation`. -/
def pointer (allocation : Nat) : HeapCall → Nat
  | .kmalloc _ => allocation
  | .kmalloc_stack size => (allocation + size) / 0x10 * 0x10

end HeapCall

theorem HeapCall.request_lt
    {xlen : Xlen}
    (call : HeapCall)
    (fits : call.Fits xlen) :
    call.request xlen < xlen.size := by
  cases call with
  | kmalloc size => exact fits
  | kmalloc_stack size =>
      rw [request, overAllocSize_of_fits fits]
      exact fits

theorem returns_kmalloc_iff
    {xlen : Xlen}
    {heap after : Heap}
    {size result : Nat} :
    (∃ allocation, (HeapCall.kmalloc size).Returns xlen heap allocation result after) ↔
      Kmalloc xlen heap size result after := by
  constructor
  · rintro ⟨allocation, middle, call, same⟩
    cases same
    exact call
  · exact fun call => ⟨result, after, call, rfl⟩

theorem returns_kmalloc_stack_iff
    {xlen : Xlen}
    {heap after : Heap}
    {size result : Nat} :
    (∃ allocation,
        (HeapCall.kmalloc_stack size).Returns xlen heap allocation result after) ↔
      KmallocStack xlen heap size result after :=
  kmallocStack_iff.symm

/-- Calls that get what they ask for, one after the other, with what they return.
Between two of them the callers write inside the payloads that they hold. -/
inductive Calls (xlen : Xlen) : HeapState → List HeapCall → List Nat → HeapState → Prop
  | done {state : HeapState} : Calls xlen state [] [] state
  | write {heap : Heap} {live : List Allocation} {mem : Nat → Nat}
      {calls : List HeapCall} {results : List Nat} {last : HeapState} :
      (∀ cell, (∀ allocation ∈ live, ¬allocation.payload.Contains cell) →
        mem cell = heap.mem cell) →
      Calls xlen ⟨{ heap with mem := mem }, live⟩ calls results last →
      Calls xlen ⟨heap, live⟩ calls results last
  | call {heap after : Heap} {live : List Allocation} {call : HeapCall}
      {allocation result : Nat} {calls : List HeapCall} {results : List Nat}
      {last : HeapState} :
      call.Returns xlen heap allocation result after →
      result ≠ 0 →
      Calls xlen ⟨after, ⟨allocation, call.request xlen⟩ :: live⟩ calls results last →
      Calls xlen ⟨heap, live⟩ (call :: calls) (result :: results) last

/-- The bytes that the sections of requests take. -/
def sectionsSize (xlen : Xlen) (requests : List Nat) : Nat :=
  (requests.map (sectionSize xlen)).sum

/-- The allocations of requests whose sections lie one behind the other. -/
def allocations (xlen : Xlen) (low : Nat) : List Nat → List Allocation
  | [] => []
  | request :: rest =>
      ⟨low + headerSize xlen, request⟩ ::
        allocations xlen (low + sectionSize xlen request) rest

/-- What calls return whose sections lie one behind the other. -/
def pointers (xlen : Xlen) (low : Nat) : List HeapCall → List Nat
  | [] => []
  | call :: rest =>
      call.pointer (low + headerSize xlen) ::
        pointers xlen (low + sectionSize xlen (call.request xlen)) rest

section Lists

variable {xlen : Xlen} {low : Nat}

@[simp] theorem sectionsSize_nil : sectionsSize xlen [] = 0 := rfl

@[simp] theorem sectionsSize_cons (request : Nat) (rest : List Nat) :
    sectionsSize xlen (request :: rest) =
      sectionSize xlen request + sectionsSize xlen rest := by
  simp [sectionsSize]

@[simp] theorem sectionsSize_append (left right : List Nat) :
    sectionsSize xlen (left ++ right) =
      sectionsSize xlen left + sectionsSize xlen right := by
  simp [sectionsSize]

theorem allocations_append (left right : List Nat) :
    allocations xlen low (left ++ right) =
      allocations xlen low left ++
        allocations xlen (low + sectionsSize xlen left) right := by
  induction left generalizing low with
  | nil => simp [allocations]
  | cons request rest inductionHypothesis =>
      rw [List.cons_append, allocations, allocations, inductionHypothesis,
        sectionsSize_cons, Nat.add_assoc, List.cons_append]

theorem pointers_append (left right : List HeapCall) :
    pointers xlen low (left ++ right) =
      pointers xlen low left ++
        pointers xlen (low + sectionsSize xlen (left.map (·.request xlen))) right := by
  induction left generalizing low with
  | nil => simp [pointers]
  | cons call rest inductionHypothesis =>
      rw [List.cons_append, pointers, pointers, inductionHypothesis, List.map_cons,
        sectionsSize_cons, Nat.add_assoc, List.cons_append]

/-- The sections are those of the allocations. -/
theorem sectionRegion_allocations (requests : List Nat) :
    (allocations xlen low requests).map (·.sectionRegion xlen) =
      tiles low (requests.map (sectionSize xlen)) := by
  induction requests generalizing low with
  | nil => rfl
  | cons request rest inductionHypothesis =>
      simp only [allocations, List.map_cons, tiles, inductionHypothesis]
      rw [Allocation.sectionRegion, Nat.add_sub_cancel]

theorem sectionSize_pos (request : Nat) : 0 < sectionSize xlen request := by
  have := xlen.bytes_pos
  unfold sectionSize headerSize
  omega

end Lists

/-- A successful `kmalloc` writes neither to what is live afterwards nor outside the
block. -/
theorem HeapInvariant.kmalloc_frame
    {xlen : Xlen}
    {block_start block_end size result cell : Nat}
    {heap after : Heap}
    {live : List Allocation}
    {chain : List AllocSection}
    (invariant : HeapInvariant xlen block_start block_end ⟨heap, live⟩ chain)
    (block : Block xlen block_start block_end)
    (sizeFits : size < xlen.size)
    (call : Kmalloc xlen heap size result after)
    (nonzero : result ≠ 0)
    (apart : (∃ allocation ∈ ⟨result, size⟩ :: live, allocation.payload.Contains cell) ∨
      cell < block_start ∨ block_end ≤ cell) :
    after.mem cell = heap.mem cell := by
  obtain ⟨taken, kept, outcome⟩ := invariant.kmalloc_taken block sizeFits call
  rw [if_neg nonzero] at kept
  rcases outcome with ⟨zero, -⟩ | ⟨takes, -⟩
  · exact absurd zero nonzero
  apply takes.headersOnly
  intro sect present
  have bytesPos := xlen.bytes_pos
  have header : headerSize xlen = 2 * xlen.bytes := rfl
  have bounds := kept.packed.bounds present
  have stop := sect.payload_le_stop xlen
  have notHeader : ¬(sect.header xlen).Contains cell := by
    rcases apart with ⟨allocation, here, inside⟩ | outside
    · exact (kept.shape.payload_apart_header here present).not_contains inside
    · simp only [Contains, AllocSection.header, AllocSection.payload] at *
      omega
  simp only [Contains, AllocSection.header] at notHeader
  omega

/-! ## The heap after some calls -/

/-- The heap after calls with these requests. -/
structure Filled
    (xlen : Xlen) (block_start block_end : Nat)
    (requests : List Nat) (state : HeapState) : Prop where
  measured : ∃ chain, Measured xlen block_start block_end state chain
  live : state.live = (allocations xlen block_start requests).reverse
  room : block_start + sectionsSize xlen requests ≤ block_end

/-- A request fits behind the sections of the requests before it. -/
def RoomFor
    (xlen : Xlen) (block_start block_end : Nat)
    (requests : List Nat) (request : Nat) : Prop :=
  request ≠ 0 ∧
    block_start + sectionsSize xlen requests + sectionSize xlen request ≤ block_end

namespace Filled

variable {xlen : Xlen} {block_start block_end : Nat} {requests : List Nat}
  {state : HeapState}

theorem initial
    (block : Block xlen block_start block_end)
    (heap : Heap) :
    Filled xlen block_start block_end []
      ⟨kallocinit xlen heap block_start block_end, []⟩ :=
  ⟨⟨_, .initial heap block, by simp⟩, rfl, block.accepted.1⟩

theorem liveSections_eq
    (filled : Filled xlen block_start block_end requests state) :
    liveSections xlen state.live =
      {region | region ∈ tiles block_start (requests.map (sectionSize xlen))} := by
  ext region
  rw [filled.live, ← sectionRegion_allocations]
  simp [liveSections]

theorem lengths_pos : ∀ length ∈ requests.map (sectionSize xlen), 0 < length := by
  intro length present
  obtain ⟨request, -, rfl⟩ := List.mem_map.mp present
  exact sectionSize_pos request

theorem unplaceable_iff
    (filled : Filled xlen block_start block_end requests state)
    (block : Block xlen block_start block_end)
    (request : Nat) :
    Unplaceable xlen block_start block_end state.live request ↔
      ¬RoomFor xlen block_start block_end requests request := by
  have room := filled.room
  have blockFits := block.fits
  rw [Unplaceable, filled.liveSections_eq, RoomFor]
  constructor
  · rintro (zero | large | short) ⟨nonzero, fits⟩
    · exact nonzero zero
    · omega
    · have behind := short _ (isGap_behind_tiles room lengths_pos)
      unfold sectionsSize at *
      simp only at behind
      omega
  · intro noRoom
    by_cases zero : request = 0
    · exact .inl zero
    · refine .inr (.inr fun gap isGap => ?_)
      rcases isGap_tiles room lengths_pos isGap with none_ | rfl
      · rw [none_]
        exact sectionSize_pos request
      · have tight := not_and.mp noRoom zero
        unfold sectionsSize at tight
        simp only
        omega

/-- `kmalloc` takes the next bytes of the block, or refuses. -/
theorem kmalloc
    (filled : Filled xlen block_start block_end requests state)
    (block : Block xlen block_start block_end)
    {request allocation : Nat}
    {after : Heap}
    (requestFits : request < xlen.size)
    (call : Kmalloc xlen state.heap request allocation after) :
    (¬RoomFor xlen block_start block_end requests request ∧ allocation = 0) ∨
      RoomFor xlen block_start block_end requests request ∧
        allocation = block_start + sectionsSize xlen requests + headerSize xlen ∧
          Filled xlen block_start block_end (requests ++ [request])
            ⟨after, ⟨allocation, request⟩ :: state.live⟩ := by
  obtain ⟨chain, measured⟩ := filled.measured
  rcases measured.kmalloc_answers block requestFits call with
    ⟨zero, -, refused⟩ | ⟨large, placeable, placed⟩
  · exact .inl ⟨(filled.unplaceable_iff block request).mp refused, zero⟩
  · rw [filled.unplaceable_iff block, not_not] at placeable
    rw [PlacedAt, filled.liveSections_eq] at placed
    obtain ⟨here, -⟩ := (lowestGap_tiles_iff filled.room lengths_pos
      (sectionSize_pos request)).mp placed
    have allocated : allocation =
        block_start + sectionsSize xlen requests + headerSize xlen := by
      unfold sectionsSize
      omega
    have header : 0 < headerSize xlen := Nat.mul_pos (by decide) xlen.bytes_pos
    obtain ⟨taken, kept⟩ := measured.kmalloc block requestFits call
    rw [if_neg (by omega)] at kept
    refine .inr ⟨placeable, allocated, ⟨taken, kept⟩, ?_, ?_⟩
    · rw [allocations_append, List.reverse_append, filled.live, allocated]
      rfl
    · rw [sectionsSize_append, sectionsSize_cons, sectionsSize_nil]
      have := placeable.2
      omega

/-- The callers write inside what they hold. -/
theorem write
    {heap : Heap}
    {live : List Allocation}
    {mem : Nat → Nat}
    (filled : Filled xlen block_start block_end requests ⟨heap, live⟩)
    (block : Block xlen block_start block_end)
    (inside : ∀ cell, (∀ allocation ∈ live, ¬allocation.payload.Contains cell) →
      mem cell = heap.mem cell) :
    Filled xlen block_start block_end requests ⟨{ heap with mem := mem }, live⟩ := by
  obtain ⟨chain, measured⟩ := filled.measured
  exact ⟨⟨chain, measured.toHeapInvariant.write block inside, measured.measured⟩,
    filled.live, filled.room⟩

/-- `kmalloc_stack` keeps the pointer that `kmalloc` returned in what it got. -/
theorem finish_stack
    {size allocation : Nat}
    {middle : Heap}
    {live : List Allocation}
    (filled : Filled xlen block_start block_end
      (requests ++ [(HeapCall.kmalloc_stack size).request xlen])
      ⟨middle, ⟨allocation, (HeapCall.kmalloc_stack size).request xlen⟩ :: live⟩)
    (block : Block xlen block_start block_end)
    (fits : (HeapCall.kmalloc_stack size).Fits xlen)
    (allocated : allocation =
      block_start + sectionsSize xlen requests + headerSize xlen) :
    (HeapCall.kmalloc_stack size).finish xlen allocation middle =
        ((allocation + size) / 0x10 * 0x10,
          middle.store (stackPointer xlen allocation size) allocation) ∧
      (⟨allocation, (HeapCall.kmalloc_stack size).request xlen⟩ :
        Allocation).payload.Contains (stackPointer xlen allocation size) := by
  have header : 8 ≤ headerSize xlen := by
    cases xlen <;> decide
  have accepted := block.accepted.2
  have short := block.short
  have overAllocated : overAllocSize xlen size = size + 0x20 :=
    overAllocSize_of_fits fits
  have blockFits := block.fits
  have room := filled.room
  have payload : size + 0x20 + headerSize xlen ≤ sectionSize xlen (size + 0x20) := by
    unfold sectionSize
    cases xlen <;> simp only [Xlen.bytes] <;> omega
  simp only [HeapCall.request, sectionsSize_append, sectionsSize_cons, sectionsSize_nil,
    overAllocated] at room
  have top : stackPointer xlen allocation size =
      (allocation + size) / 0x10 * 0x10 + 0x10 := by
    simp only [stackPointer]
    rw [Xlen.wrap_of_lt (by omega)]
    omega
  have below : xlen.wrap (stackPointer xlen allocation size + (xlen.size - 0x10)) =
      (allocation + size) / 0x10 * 0x10 := by
    rw [top, wrap_sub (by omega) (by decide) (by omega)]
    omega
  constructor
  · rw [HeapCall.finish, keepAllocation, if_neg (by omega)]
    exact congrArg (·, _) below
  · simp only [Allocation.payload, Contains, HeapCall.request, overAllocated, top]
    omega

/-- The rest of a call on the pointer that `kmalloc` returned. -/
theorem finish
    {call : HeapCall}
    {allocation : Nat}
    {middle : Heap}
    {live : List Allocation}
    (filled : Filled xlen block_start block_end (requests ++ [call.request xlen])
      ⟨middle, ⟨allocation, call.request xlen⟩ :: live⟩)
    (block : Block xlen block_start block_end)
    (fits : call.Fits xlen)
    (allocated : allocation =
      block_start + sectionsSize xlen requests + headerSize xlen) :
    (call.finish xlen allocation middle).1 = call.pointer allocation ∧
      call.pointer allocation ≠ 0 ∧
        (∀ cell, ¬(⟨allocation, call.request xlen⟩ : Allocation).payload.Contains cell →
          (call.finish xlen allocation middle).2.mem cell = middle.mem cell) ∧
          Filled xlen block_start block_end (requests ++ [call.request xlen])
            ⟨(call.finish xlen allocation middle).2,
              ⟨allocation, call.request xlen⟩ :: live⟩ := by
  have header : 8 ≤ headerSize xlen := by
    cases xlen <;> decide
  have accepted := block.accepted.2
  have short := block.short
  cases call with
  | kmalloc size =>
      refine ⟨rfl, ?_, fun _ _ => rfl, filled⟩
      simp only [HeapCall.pointer]
      omega
  | kmalloc_stack size =>
      obtain ⟨kept, saved⟩ := filled.finish_stack block fits allocated
      have stored : ∀ cell,
          ¬(⟨allocation, (HeapCall.kmalloc_stack size).request xlen⟩ :
            Allocation).payload.Contains cell →
          (middle.store (stackPointer xlen allocation size) allocation).mem cell =
            middle.mem cell := by
        intro cell outside
        apply Function.update_of_ne
        rintro rfl
        exact outside saved
      rw [kept]
      refine ⟨rfl, ?_, stored, filled.write block fun cell outside => ?_⟩
      · simp only [HeapCall.pointer]
        omega
      · exact stored cell (outside _ List.mem_cons_self)

/-- A call gets the next bytes of the block, or 0. -/
theorem call
    {heap after : Heap}
    {live : List Allocation}
    {call : HeapCall}
    {allocation result : Nat}
    (filled : Filled xlen block_start block_end requests ⟨heap, live⟩)
    (block : Block xlen block_start block_end)
    (fits : call.Fits xlen)
    (returns : call.Returns xlen heap allocation result after) :
    (¬RoomFor xlen block_start block_end requests (call.request xlen) ∧ result = 0) ∨
      RoomFor xlen block_start block_end requests (call.request xlen) ∧ result ≠ 0 ∧
        result = call.pointer
          (block_start + sectionsSize xlen requests + headerSize xlen) ∧
          Filled xlen block_start block_end (requests ++ [call.request xlen])
            ⟨after, ⟨allocation, call.request xlen⟩ :: live⟩ := by
  obtain ⟨middle, made, finished⟩ := returns
  rcases filled.kmalloc block (call.request_lt fits) made with
    ⟨noRoom, rfl⟩ | ⟨room, allocated, grown⟩
  · refine .inl ⟨noRoom, ?_⟩
    cases call with
    | kmalloc size => exact (congrArg Prod.fst finished).symm
    | kmalloc_stack size => exact (congrArg Prod.fst finished).symm
  · obtain ⟨pointer, nonzero, -, kept⟩ := grown.finish block fits allocated
    rw [finished] at pointer kept
    simp only at pointer kept
    rw [← allocated]
    exact .inr ⟨room, pointer ▸ nonzero, pointer, kept⟩

/-- A call that gets memory leaves what is live, and all memory outside the block. -/
theorem call_frame
    {heap after : Heap}
    {live : List Allocation}
    {call : HeapCall}
    {allocation result cell : Nat}
    (filled : Filled xlen block_start block_end requests ⟨heap, live⟩)
    (block : Block xlen block_start block_end)
    (fits : call.Fits xlen)
    (returns : call.Returns xlen heap allocation result after)
    (taken : result ≠ 0)
    (apart : (∃ other ∈ live, other.payload.Contains cell) ∨
      cell < block_start ∨ block_end ≤ cell) :
    after.mem cell = heap.mem cell := by
  obtain ⟨middle, made, finished⟩ := returns
  rcases filled.kmalloc block (call.request_lt fits) made with
    ⟨-, rfl⟩ | ⟨-, allocated, grown⟩
  · refine absurd ?_ taken
    cases call with
    | kmalloc size => exact (congrArg Prod.fst finished).symm
    | kmalloc_stack size => exact (congrArg Prod.fst finished).symm
  · obtain ⟨-, -, stored, -⟩ := grown.finish block fits allocated
    rw [finished] at stored
    have header : 8 ≤ headerSize xlen := by
      cases xlen <;> decide
    obtain ⟨chain, measured⟩ := filled.measured
    obtain ⟨takenChain, grownMeasured⟩ := grown.measured
    have safe := grownMeasured.toHeapInvariant.safe
    -- the new payload is in the block, and apart from what was live
    have outside : ¬(⟨allocation, call.request xlen⟩ : Allocation).payload.Contains
        cell := by
      intro inside
      rcases apart with ⟨other, present, holds⟩ | out
      · exact ((List.pairwise_cons.mp safe.payloadsApart).1 other present).not_contains
          inside holds
      · have within := safe.payloadWithin _ List.mem_cons_self
        simp only [Within, Contains, Allocation.payload] at within inside
        omega
    refine (stored cell outside).trans (measured.toHeapInvariant.kmalloc_frame block
      (call.request_lt fits) made (by omega) ?_)
    rcases apart with ⟨other, present, holds⟩ | out
    · exact .inl ⟨other, List.mem_cons_of_mem _ present, holds⟩
    · exact .inr out

/-- Every call stops. -/
theorem exists_returns
    (filled : Filled xlen block_start block_end requests state)
    (block : Block xlen block_start block_end)
    {call : HeapCall}
    (fits : call.Fits xlen) :
    ∃ allocation result after, call.Returns xlen state.heap allocation result after := by
  obtain ⟨chain, measured⟩ := filled.measured
  have stateBlock : Block xlen state.heap.mem_block_start state.heap.mem_block_end := by
    rw [measured.start_eq, measured.end_eq]
    exact block
  obtain ⟨allocation, middle, made, -⟩ :=
    kmalloc_outcome measured.shape.chained stateBlock.fits _ (call.request_lt fits)
      (measured.shape.chained.ordered.guarded stateBlock.end_le_two_mul _)
  exact ⟨allocation, _, _, middle, made, rfl⟩

/-- What fits is taken, call by call. -/
theorem exists_calls
    (filled : Filled xlen block_start block_end requests state)
    (block : Block xlen block_start block_end)
    {calls : List HeapCall}
    (fits : ∀ call ∈ calls, call.Fits xlen)
    (nonzero : ∀ call ∈ calls, call.request xlen ≠ 0)
    (room : block_start + sectionsSize xlen (requests ++ calls.map (·.request xlen)) ≤
      block_end) :
    ∃ results last, Calls xlen state calls results last := by
  induction calls generalizing requests state with
  | nil => exact ⟨[], state, .done⟩
  | cons call rest inductionHypothesis =>
      have here := fits call List.mem_cons_self
      obtain ⟨allocation, result, after, returns⟩ := filled.exists_returns block here
      rw [List.map_cons, List.append_cons] at room
      have front := room
      rw [sectionsSize_append, sectionsSize_append, sectionsSize_cons, sectionsSize_nil]
        at front
      rcases filled.call block here returns with ⟨noRoom, -⟩ | ⟨-, taken, -, grown⟩
      · exact absurd ⟨nonzero call List.mem_cons_self, by omega⟩ noRoom
      · obtain ⟨results, last, later⟩ := inductionHypothesis grown
          (fun other member => fits other (List.mem_cons_of_mem _ member))
          (fun other member => nonzero other (List.mem_cons_of_mem _ member)) room
        exact ⟨_, last, .call returns taken later⟩

end Filled

section Runs

variable {xlen : Xlen} {block_start block_end : Nat} {requests : List Nat}
  {state last : HeapState} {calls : List HeapCall} {results : List Nat}

/-- The run lemma: calls that get memory get it one behind the other. -/
theorem Calls.packed
    (run : Calls xlen state calls results last)
    (block : Block xlen block_start block_end)
    (filled : Filled xlen block_start block_end requests state)
    (fits : ∀ call ∈ calls, call.Fits xlen) :
    (∀ call ∈ calls, call.request xlen ≠ 0) ∧
      results = pointers xlen (block_start + sectionsSize xlen requests) calls ∧
        Filled xlen block_start block_end (requests ++ calls.map (·.request xlen)) last := by
  induction run generalizing requests with
  | done => exact ⟨by simp, rfl, by simpa using filled⟩
  | write inside _ inductionHypothesis =>
      exact inductionHypothesis (filled.write block inside) fits
  | @call heap after live call allocation result calls results last returns taken _
      inductionHypothesis =>
      have here := fits call List.mem_cons_self
      rcases filled.call block here returns with ⟨-, zero⟩ | ⟨room, -, pointer, grown⟩
      · exact absurd zero taken
      · obtain ⟨nonzero, later, whole⟩ := inductionHypothesis grown
          fun other member => fits other (List.mem_cons_of_mem _ member)
        refine ⟨?_, ?_, ?_⟩
        · rintro other (_ | ⟨_, member⟩)
          · exact room.1
          · exact nonzero other member
        · rw [pointers, ← pointer, later, sectionsSize_append, sectionsSize_cons,
            sectionsSize_nil, Nat.add_zero, Nat.add_assoc]
        · rwa [List.map_cons, List.append_cons]

/-- A call in a run of calls, with the heap before and behind it. -/
structure CallIn
    (xlen : Xlen) (first : HeapState) (made : List HeapCall) (call : HeapCall)
    (rest : List HeapCall) (results : List Nat) (last : HeapState) where
  before : Heap
  after : Heap
  live : List Allocation
  allocation : Nat
  result : Nat
  earlier : List Nat
  later : List Nat
  reached : Calls xlen first made earlier ⟨before, live⟩
  returns : call.Returns xlen before allocation result after
  taken : result ≠ 0
  remaining :
    Calls xlen ⟨after, ⟨allocation, call.request xlen⟩ :: live⟩ rest later last
  results_eq : results = earlier ++ result :: later

/-- Every call of a run is in it. -/
theorem Calls.callIn
    {made rest : List HeapCall}
    {call : HeapCall}
    (run : Calls xlen state calls results last)
    (split : calls = made ++ call :: rest) :
    Nonempty (CallIn xlen state made call rest results last) := by
  induction run generalizing made with
  | done => simp at split
  | write inside _ inductionHypothesis =>
      obtain ⟨here⟩ := inductionHypothesis split
      exact ⟨{ here with reached := .write inside here.reached }⟩
  | @call heap after live head allocation result calls results last returns taken rest
      inductionHypothesis =>
      cases made with
      | nil =>
          obtain ⟨rfl, rfl⟩ := List.cons.inj split
          exact ⟨⟨heap, after, live, allocation, result, [], results, .done, returns, taken,
            rest, rfl⟩⟩
      | cons front made =>
          obtain ⟨rfl, behind⟩ := List.cons.inj split
          obtain ⟨here⟩ := inductionHypothesis behind
          exact ⟨{ here with
            earlier := result :: here.earlier
            reached := .call returns taken here.reached
            results_eq := congrArg (result :: ·) here.results_eq }⟩

/-- Calls on a fresh heap get what they ask for if and only if the sections fit into
the block. -/
theorem exists_calls_iff
    (block : Block xlen block_start block_end)
    (heap : Heap)
    (fits : ∀ call ∈ calls, call.Fits xlen) :
    (∃ results last,
        Calls xlen ⟨kallocinit xlen heap block_start block_end, []⟩ calls results last) ↔
      (∀ call ∈ calls, call.request xlen ≠ 0) ∧
        block_start + sectionsSize xlen (calls.map (·.request xlen)) ≤ block_end := by
  have fresh := Filled.initial block heap
  constructor
  · rintro ⟨results, last, run⟩
    obtain ⟨nonzero, -, filled⟩ := run.packed block fresh fits
    exact ⟨nonzero, filled.room⟩
  · rintro ⟨nonzero, room⟩
    exact fresh.exists_calls block fits nonzero room

end Runs

end Memalloc
end EchelonSbi
