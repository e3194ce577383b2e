import EchelonSbi.Foundation.Region
import EchelonSbi.Foundation.Transition
import EchelonSbi.Memalloc.FirstFit
import EchelonSbi.Memalloc.Release
import Mathlib.Data.List.Perm.Basic

/-!
# Runs of the section allocator

A run calls `kmalloc` and `kfree` with arbitrary arguments, in any order and
number, and between calls the callers write inside the payloads they hold.
The chain of every state reached is well formed, and its sections of nonzero
size are exactly the allocations that are live.
-/

namespace EchelonSbi
namespace Memalloc

open Foundation

/-- A word-aligned block that `kallocinit` accepts and that is not longer than
its start address, as the one `kinit` passes. -/
structure Block (xlen : Xlen) (block_start block_end : Nat) : Prop where
  accepted : kallocinitAccepts xlen block_start block_end
  aligned : xlen.bytes ∣ block_start
  short : block_end - block_start ≤ block_start
  fits : block_end < xlen.size

/-- An allocation that was returned and not yet freed. -/
structure Allocation where
  /-- The pointer `kmalloc` returned. -/
  ptr : Nat
  /-- The size it was asked for. -/
  request : Nat
  deriving DecidableEq, Repr

/-- The bytes the caller asked for. -/
def Allocation.payload (allocation : Allocation) : Region :=
  ⟨allocation.ptr, allocation.request⟩

/-- The two words of a section header. -/
def AllocSection.header (xlen : Xlen) (sect : AllocSection) : Region :=
  ⟨sect.address, headerSize xlen⟩

/-- The heap together with the allocations its callers hold. -/
structure HeapState where
  heap : Heap
  live : List Allocation

/-- One event of a run. -/
inductive HeapEvent where
  | kmalloc (size result : Nat)
  | kfree (ptr : Nat)
  | write
  deriving DecidableEq, Repr

/-- One step of a run of the allocator and its callers. -/
inductive HeapStep (xlen : Xlen) : HeapState → HeapEvent → HeapState → Prop
  | kmalloc {heap after : Heap} {live : List Allocation} {size result : Nat} :
      size < xlen.size →
      Kmalloc xlen heap size result after →
      HeapStep xlen ⟨heap, live⟩ (.kmalloc size result)
        ⟨after, if result = 0 then live else ⟨result, size⟩ :: live⟩
  | kfree {heap after : Heap} {live : List Allocation} {ptr : Nat} :
      ptr < xlen.size →
      Kfree xlen heap ptr after →
      HeapStep xlen ⟨heap, live⟩ (.kfree ptr)
        ⟨after, live.filter fun allocation => allocation.ptr ≠ ptr⟩
  | write {heap : Heap} {live : List Allocation} {mem : Nat → Nat} :
      (∀ cell, (∀ allocation ∈ live, ¬allocation.payload.Contains cell) →
        mem cell = heap.mem cell) →
      HeapStep xlen ⟨heap, live⟩ .write ⟨{ heap with mem := mem }, live⟩

/-- The chain read from memory is well formed. -/
structure WellFormed
    (xlen : Xlen) (heap : Heap) (chain : List AllocSection) : Prop where
  linked : Linked xlen heap heap.mem_block_start chain
  packed : Packed xlen heap.mem_block_end heap.mem_block_start chain
  nonempty : chain ≠ []
  shaped : ∀ sect ∈ chain, sect.size = 0 ∨ sect.InUse xlen
  tailInUse : ∀ sect ∈ chain.tail, sect.InUse xlen

/-- A chain whose sections need not be aligned and may be empty anywhere, as
it is read from a block at any address. -/
structure Chained
    (xlen : Xlen) (heap : Heap) (chain : List AllocSection) : Prop where
  linked : Linked xlen heap heap.mem_block_start chain
  ordered : Ordered xlen heap.mem_block_end heap.mem_block_start chain
  nonempty : chain ≠ []
  shaped : ∀ sect ∈ chain, sect.size = 0 ∨ sect.InUse xlen

theorem WellFormed.chained
    {xlen : Xlen}
    {heap : Heap}
    {chain : List AllocSection}
    (wellFormed : WellFormed xlen heap chain) :
    Chained xlen heap chain :=
  ⟨wellFormed.linked, wellFormed.packed.ordered, wellFormed.nonempty,
    wellFormed.shaped⟩

/-- The section that holds an allocation. -/
def Allocation.HeldBy
    (xlen : Xlen) (allocation : Allocation) (sect : AllocSection) : Prop :=
  allocation.ptr = sect.payload xlen ∧
    allocation.request + headerSize xlen ≤ sect.size

/-- Sections of nonzero size and live allocations correspond. -/
structure Accounts
    (xlen : Xlen) (chain : List AllocSection) (live : List Allocation) :
    Prop where
  held : ∀ allocation ∈ live, ∃ sect ∈ chain,
    sect.size ≠ 0 ∧ allocation.HeldBy xlen sect
  holds : ∀ sect ∈ chain, sect.size ≠ 0 →
    ∃ allocation ∈ live, allocation.ptr = sect.payload xlen
  distinct : live.Pairwise fun left right => left.ptr ≠ right.ptr

/-- What a run keeps on a block at any address. -/
structure HeapShape
    (xlen : Xlen) (block_start block_end : Nat)
    (state : HeapState) (chain : List AllocSection) : Prop where
  start_eq : state.heap.mem_block_start = block_start
  end_eq : state.heap.mem_block_end = block_end
  chained : Chained xlen state.heap chain
  accounts : Accounts xlen chain state.live

/-- The invariant of a run, with the chain as its witness. -/
structure HeapInvariant
    (xlen : Xlen) (block_start block_end : Nat)
    (state : HeapState) (chain : List AllocSection) : Prop where
  start_eq : state.heap.mem_block_start = block_start
  end_eq : state.heap.mem_block_end = block_end
  wellFormed : WellFormed xlen state.heap chain
  accounts : Accounts xlen chain state.live

/-! ## Requests -/

/-- Rounding a request that does not overflow enlarges it to a multiple of the
word size. -/
theorem roundRequest_spec
    {xlen : Xlen}
    {size : Nat}
    (fits : size < xlen.size) :
    roundRequest xlen size = 0 ∨
      (size ≤ roundRequest xlen size ∧
        xlen.bytes ∣ roundRequest xlen size ∧
        roundRequest xlen size < xlen.size) := by
  have bytesPos := xlen.bytes_pos
  have remainder := Nat.mod_lt size bytesPos
  unfold roundRequest
  split
  next misaligned =>
    have multiple : xlen.bytes ∣ size + (xlen.bytes - size % xlen.bytes) := by
      have split_ := Nat.div_add_mod size xlen.bytes
      refine ⟨size / xlen.bytes + 1, ?_⟩
      rw [Nat.mul_add, Nat.mul_one]
      omega
    by_cases small : size + (xlen.bytes - size % xlen.bytes) < xlen.size
    · rw [Xlen.wrap_of_lt small]
      exact .inr ⟨by omega, multiple, small⟩
    · -- a multiple of the word size cannot lie strictly behind the last word
      left
      have exact_ : size + (xlen.bytes - size % xlen.bytes) = xlen.size := by
        obtain ⟨count, total⟩ := multiple
        obtain ⟨limit, whole⟩ := xlen.bytes_dvd_size
        rw [total, whole] at small ⊢
        have : xlen.bytes * count < xlen.bytes * (limit + 1) := by
          rw [← total, Nat.mul_add, ← whole]
          omega
        have upper := Nat.lt_of_mul_lt_mul_left this
        have lower := Nat.le_of_mul_le_mul_left (Nat.le_of_not_lt small) bytesPos
        have : count = limit := by omega
        rw [this]
      rw [exact_]
      exact Nat.mod_self _
  next aligned =>
    have divides : xlen.bytes ∣ size :=
      Nat.dvd_of_mod_eq_zero (by simpa using aligned)
    exact .inr ⟨le_rfl, divides, fits⟩

namespace Block

variable {xlen : Xlen} {block_start block_end : Nat}

/-- The block does not start at address 0. -/
theorem start_pos (block : Block xlen block_start block_end) :
    0 < block_start := by
  have := block.accepted.2
  have := block.short
  have := xlen.bytes_pos
  unfold headerSize at *
  omega

/-- No section can be longer than its own address. -/
theorem end_le_two_mul (block : Block xlen block_start block_end) :
    block_end ≤ 2 * block_start := by
  have := block.accepted.1
  have := block.short
  omega

end Block

/-- `kmalloc` has at most one outcome. -/
theorem Kmalloc.unique
    {xlen : Xlen}
    {heap first second : Heap}
    {size left right : Nat}
    (leftCall : Kmalloc xlen heap size left first)
    (rightCall : Kmalloc xlen heap size right second) :
    (left, first) = (right, second) := by
  obtain ⟨leftFuel, leftRun⟩ := leftCall
  obtain ⟨rightFuel, rightRun⟩ := rightCall
  simp only [kmalloc] at leftRun rightRun
  split at leftRun
  next refused =>
    rw [if_pos refused] at rightRun
    exact Option.some.inj (leftRun.symm.trans rightRun)
  next accepted =>
    rw [if_neg accepted] at rightRun
    exact Returns.unique ⟨leftFuel, leftRun⟩ ⟨rightFuel, rightRun⟩

/-- `kfree` has at most one outcome. -/
theorem Kfree.unique
    {xlen : Xlen}
    {heap first second : Heap}
    {ptr : Nat}
    (leftCall : Kfree xlen heap ptr first)
    (rightCall : Kfree xlen heap ptr second) :
    first = second := by
  obtain ⟨leftFuel, leftRun⟩ := leftCall
  obtain ⟨rightFuel, rightRun⟩ := rightCall
  simp only [kfree] at leftRun rightRun
  split at leftRun
  next refused =>
    rw [if_pos refused] at rightRun
    exact Option.some.inj (leftRun.symm.trans rightRun)
  next accepted =>
    rw [if_neg accepted] at rightRun
    exact Returns.unique ⟨leftFuel, leftRun⟩ ⟨rightFuel, rightRun⟩

/-- A successful `kmalloc` took the lowest gap of the chain for the rounded
request and its header, and wrote only headers. -/
structure Takes
    (xlen : Xlen) (heap : Heap) (chain : List AllocSection)
    (size result : Nat) (after : Heap) (taken : List AllocSection) : Prop where
  request_le : size ≤ roundRequest xlen size
  large : headerSize xlen + xlen.bytes ≤ roundRequest xlen size + headerSize xlen
  aligned : xlen.bytes ∣ roundRequest xlen size + headerSize xlen
  fit : firstFit heap.mem_block_end (roundRequest xlen size + headerSize xlen)
    chain = some (result - headerSize xlen, taken)
  payload : headerSize xlen ≤ result
  start_eq : after.mem_block_start = heap.mem_block_start
  end_eq : after.mem_block_end = heap.mem_block_end
  linked : Linked xlen after heap.mem_block_start taken
  headersOnly : ∀ cell, (∀ sect ∈ taken,
    cell ≠ sect.address ∧ cell ≠ sect.address + xlen.bytes) →
      after.mem cell = heap.mem cell

/-- The reasons for which `kmalloc` refuses a request. -/
def Refuses
    (xlen : Xlen) (heap : Heap) (chain : List AllocSection) (size : Nat) :
    Prop :=
  roundRequest xlen size = 0 ∨
    xlen.wrap (roundRequest xlen size + headerSize xlen) <
      roundRequest xlen size ∨
    firstFit heap.mem_block_end (roundRequest xlen size + headerSize xlen)
      chain = none

/-- A new section at `found` writes its header and the link in front of it. -/
def WritesHeader
    (xlen : Xlen) (heap : Heap) (chain : List AllocSection)
    (found : Nat) (after : Heap) : Prop :=
  ∃ prev ∈ chain, prev.address + prev.size = found ∧
    ∀ cell, cell ≠ prev.address + xlen.bytes → cell ≠ found →
      cell ≠ found + xlen.bytes → after.mem cell = heap.mem cell

/-- A successful `kmalloc` fills the gap it took. -/
theorem Takes.fillsGap
    {xlen : Xlen}
    {heap after : Heap}
    {chain taken : List AllocSection}
    {size result : Nat}
    (takes : Takes xlen heap chain size result after taken)
    (chained : Chained xlen heap chain) :
    FillsGap xlen heap.mem_block_end heap.mem_block_start
      (roundRequest xlen size + headerSize xlen) (result - headerSize xlen)
      chain taken :=
  firstFit_fillsGap chained.ordered chained.shaped takes.large takes.aligned
    takes.fit

/-- `kmalloc` on a guarded chain stops, and either returns 0 and changes
nothing or takes a gap. -/
theorem kmalloc_outcome
    {xlen : Xlen}
    {heap : Heap}
    {chain : List AllocSection}
    (chained : Chained xlen heap chain)
    (fits : heap.mem_block_end < xlen.size)
    (size : Nat)
    (sizeFits : size < xlen.size)
    (guarded :
      Guarded xlen (roundRequest xlen size + headerSize xlen) chain) :
    ∃ result after, Kmalloc xlen heap size result after ∧
      ((result = 0 ∧ after = heap ∧ Refuses xlen heap chain size) ∨
        ∃ taken, Takes xlen heap chain size result after taken ∧
          WritesHeader xlen heap chain (result - headerSize xlen) after) := by
  have bytesPos := xlen.bytes_pos
  have header : headerSize xlen = 2 * xlen.bytes := rfl
  have := xlen.bytes_lt_size
  by_cases refused : roundRequest xlen size = 0 ∨
      xlen.wrap (roundRequest xlen size + headerSize xlen) <
        roundRequest xlen size
  · exact ⟨0, heap, ⟨0, by simp only [kmalloc]; rw [if_pos refused]⟩,
      .inl ⟨rfl, rfl, refused.imp_right .inl⟩⟩
  · obtain ⟨nonzero, noWrap⟩ := not_or.mp refused
    obtain ⟨requestLe, rounded, roundedFits⟩ :=
      (roundRequest_spec sizeFits).resolve_left nonzero
    have sumFits : roundRequest xlen size + headerSize xlen < xlen.size := by
      have := (Xlen.wrap_add_lt_left_iff roundedFits
        (by omega : headerSize xlen < xlen.size)).not.mp noWrap
      omega
    have roundedLarge : xlen.bytes ≤ roundRequest xlen size :=
      Nat.le_of_dvd (Nat.pos_of_ne_zero nonzero) rounded
    have enter : ∀ {outcome}, Returns
        (kmallocTurn xlen heap (roundRequest xlen size + headerSize xlen))
        heap.mem_block_start outcome →
        Kmalloc xlen heap size outcome.1 outcome.2 := by
      rintro outcome ⟨fuel, left⟩
      refine ⟨fuel, ?_⟩
      simp only [kmalloc]
      rw [if_neg refused, Xlen.wrap_of_lt sumFits]
      exact left
    have loop := kmallocTurn_returns chained.linked chained.ordered
      chained.nonempty chained.shaped guarded fits (by omega) sumFits
    cases fit : firstFit heap.mem_block_end
        (roundRequest xlen size + headerSize xlen) chain with
    | none =>
        rw [fit] at loop
        exact ⟨0, heap, enter loop, .inl ⟨rfl, rfl, .inr (.inr fit)⟩⟩
    | some found =>
        obtain ⟨address, taken⟩ := found
        rw [fit] at loop
        obtain ⟨after, returned, startKept, endKept, takenLinked,
          prev, inChain, ends, kept⟩ := loop
        have large : headerSize xlen + xlen.bytes ≤
            roundRequest xlen size + headerSize xlen := by
          omega
        have aligned : xlen.bytes ∣
            roundRequest xlen size + headerSize xlen :=
          Nat.dvd_add rounded ⟨2, by omega⟩
        have fills := firstFit_fillsGap chained.ordered chained.shaped large
          aligned fit
        have headersOnly : ∀ cell, (∀ sect ∈ taken,
            cell ≠ sect.address ∧ cell ≠ sect.address + xlen.bytes) →
              after.mem cell = heap.mem cell := by
          intro cell outside
          obtain ⟨inTaken, -⟩ := (fills.mem_iff _).mpr (.inr rfl)
          obtain ⟨notSize, notNext⟩ := outside _ inTaken
          refine kept cell ?_ notSize notNext
          by_cases empty : prev.size = 0
          · simp only at notNext
            omega
          · obtain ⟨prevTaken, -⟩ :=
              (fills.mem_iff prev).mpr (.inl ⟨inChain, empty⟩)
            exact (outside prev prevTaken).2
        refine ⟨_, after, enter returned, .inr ⟨taken, ⟨requestLe, large,
          aligned, ?_, by omega, startKept, endKept, takenLinked,
          headersOnly⟩, ?_⟩⟩
        · rw [fit, Nat.add_sub_cancel]
        · rw [Nat.add_sub_cancel]
          exact ⟨prev, inChain, ends, kept⟩

/-! ## The invariant -/

/-- The chain `kallocinit` writes. -/
theorem HeapShape.initial
    {xlen : Xlen}
    {block_start block_end : Nat}
    (heap : Heap)
    (accepted : kallocinitAccepts xlen block_start block_end)
    (fits : block_end < xlen.size) :
    HeapShape xlen block_start block_end
      ⟨kallocinit xlen heap block_start block_end, []⟩ [⟨block_start, 0⟩] := by
  have bytesPos := xlen.bytes_pos
  have header : headerSize xlen = 2 * xlen.bytes := rfl
  have ordered := accepted.1
  have room := accepted.2
  have wrapNext : xlen.wrap (block_start + xlen.bytes) =
      block_start + xlen.bytes := Xlen.wrap_of_lt (by omega)
  unfold kallocinit
  rw [if_pos accepted]
  refine ⟨rfl, rfl, ⟨⟨rfl, ?_, ?_⟩, ⟨le_rfl, ?_⟩, by simp, by simp⟩,
    ⟨by simp, by simp, .nil⟩⟩
  · simp only [Heap.sizeAt, Heap.setNext, Heap.setSize, Heap.store, wrapNext]
    rw [Function.update_of_ne (by omega), Function.update_self]
  · exact Function.update_self _ _ _
  · simp only [AllocSection.stop, ordered_nil, Heap.setNext, Heap.setSize,
      Heap.store]
    omega

namespace HeapShape

variable {xlen : Xlen} {block_start block_end : Nat}
  {state : HeapState} {chain : List AllocSection}

/-- `kmalloc` preserves the shape. -/
theorem kmalloc
    {heap after : Heap}
    {live : List Allocation}
    {size result : Nat}
    (shape : HeapShape xlen block_start block_end ⟨heap, live⟩ chain)
    (fits : block_end < xlen.size)
    (sizeFits : size < xlen.size)
    (guarded :
      Guarded xlen (roundRequest xlen size + headerSize xlen) chain)
    (call : Kmalloc xlen heap size result after) :
    ∃ taken, HeapShape xlen block_start block_end
        ⟨after, if result = 0 then live else ⟨result, size⟩ :: live⟩ taken ∧
      ((result = 0 ∧ after = heap ∧ taken = chain ∧
          Refuses xlen heap chain size) ∨
        Takes xlen heap chain size result after taken ∧
          WritesHeader xlen heap chain (result - headerSize xlen) after) := by
  obtain ⟨rfl, rfl, chained, accounts⟩ := shape
  obtain ⟨other, final, otherCall, outcome⟩ :=
    kmalloc_outcome chained fits size sizeFits guarded
  obtain ⟨rfl, rfl⟩ := Prod.mk.inj (call.unique otherCall)
  rcases outcome with ⟨rfl, rfl, refused⟩ | ⟨taken, takes, writes⟩
  · exact ⟨chain, ⟨rfl, rfl, chained, accounts⟩, .inl ⟨rfl, rfl, rfl, refused⟩⟩
  · have gap := takes.fillsGap chained
    have bytesPos := xlen.bytes_pos
    have header : headerSize xlen = 2 * xlen.bytes := rfl
    have payload := takes.payload
    rw [if_neg (by omega)]
    refine ⟨taken, ⟨takes.start_eq, takes.end_eq,
      ⟨?_, ?_, gap.nonempty, gap.shaped⟩, ?_, ?_, ?_⟩, .inr ⟨takes, writes⟩⟩
    · rw [takes.start_eq]
      exact takes.linked
    · rw [takes.start_eq, takes.end_eq]
      exact gap.ordered
    · intro allocation present
      rcases List.mem_cons.mp present with rfl | old
      · have isNew := (gap.mem_iff _).mpr (.inr rfl)
        refine ⟨_, isNew.1, isNew.2, ?_, ?_⟩
        · simp only [AllocSection.payload]
          omega
        · have := takes.request_le
          simp only
          omega
      · obtain ⟨sect, inChain, occupied, holds⟩ :=
          accounts.held allocation old
        have kept := (gap.mem_iff sect).mpr (.inl ⟨inChain, occupied⟩)
        exact ⟨sect, kept.1, kept.2, holds⟩
    · intro sect inTaken occupied
      rcases (gap.mem_iff sect).mp ⟨inTaken, occupied⟩ with old | rfl
      · obtain ⟨allocation, present, holds⟩ :=
          accounts.holds sect old.1 old.2
        exact ⟨allocation, List.mem_cons_of_mem _ present, holds⟩
      · refine ⟨_, List.mem_cons_self, ?_⟩
        simp only [AllocSection.payload]
        omega
    · refine List.pairwise_cons.mpr ⟨?_, accounts.distinct⟩
      intro allocation old samePtr
      obtain ⟨sect, inChain, occupied, holds⟩ := accounts.held allocation old
      have := gap.fresh sect inChain occupied
      have holdsPtr := holds.1
      simp only [AllocSection.payload] at holdsPtr samePtr
      omega

/-- The header a pointer of a live allocation leads to. -/
theorem headerOf_eq_iff
    (shape : HeapShape xlen block_start block_end state chain)
    (fits : block_end < xlen.size)
    {ptr : Nat}
    (ptrFits : ptr < xlen.size)
    {sect : AllocSection}
    (present : sect ∈ chain) :
    headerOf xlen ptr = sect.address ↔ ptr = sect.payload xlen := by
  apply Memalloc.headerOf_eq_iff ptrFits
  have bounds := shape.chained.ordered.bounds present
  rw [shape.end_eq] at bounds
  have := sect.payload_le_stop xlen
  unfold AllocSection.payload at this
  omega

/-- `kfree` preserves the shape. -/
theorem kfree
    {heap after : Heap}
    {live : List Allocation}
    {ptr : Nat}
    (shape : HeapShape xlen block_start block_end ⟨heap, live⟩ chain)
    (fits : block_end < xlen.size)
    (ptrFits : ptr < xlen.size)
    (call : Kfree xlen heap ptr after) :
    HeapShape xlen block_start block_end
      ⟨after, live.filter fun allocation => allocation.ptr ≠ ptr⟩
      (releaseBehind 0 (headerOf xlen ptr) chain) := by
  have target : ∀ sect ∈ chain,
      headerOf xlen ptr = sect.address ↔ ptr = sect.payload xlen :=
    fun _ present => shape.headerOf_eq_iff fits ptrFits present
  obtain ⟨rfl, rfl, ⟨linked, ordered, nonempty, shaped⟩, accounts⟩ := shape
  obtain ⟨final, otherCall, startKept, endKept, finalLinked, _, _⟩ :=
    kfree_returns ptr linked ordered nonempty fits
  obtain rfl := call.unique otherCall
  have members := mem_releaseBehind_iff 0 (headerOf xlen ptr) ordered
  refine ⟨startKept, endKept, ⟨?_, ?_, releaseBehind_ne_nil nonempty, ?_⟩,
    ?_, ?_, ?_⟩
  · rw [startKept]
    exact finalLinked
  · rw [startKept, endKept]
    exact releaseBehind_ordered ordered
  · intro sect present
    rcases mem_of_mem_releaseBehind present with inChain | empty
    · exact shaped sect inChain
    · exact .inl empty
  · intro allocation present
    obtain ⟨old, notFreed⟩ := List.mem_filter.mp present
    obtain ⟨sect, inChain, occupied, holds⟩ := accounts.held allocation old
    have elsewhere : sect.address ≠ headerOf xlen ptr := by
      intro equal
      apply of_decide_eq_true notFreed
      rw [holds.1, (target sect inChain).mp equal.symm]
    have kept := (members sect).mpr ⟨inChain, occupied, elsewhere⟩
    exact ⟨sect, kept.1, kept.2, holds⟩
  · intro sect present occupied
    obtain ⟨inChain, _, elsewhere⟩ := (members sect).mp ⟨present, occupied⟩
    obtain ⟨allocation, old, holds⟩ := accounts.holds sect inChain occupied
    refine ⟨allocation, List.mem_filter.mpr ⟨old, decide_eq_true ?_⟩, holds⟩
    intro equal
    exact elsewhere ((target sect inChain).mpr (by rw [← equal, holds])).symm
  · exact accounts.distinct.filter _

/-- No live payload reaches into a header. -/
theorem payload_apart_header
    (shape : HeapShape xlen block_start block_end state chain)
    {allocation : Allocation}
    (live : allocation ∈ state.live)
    {sect : AllocSection}
    (present : sect ∈ chain) :
    allocation.payload.Apart (sect.header xlen) := by
  obtain ⟨holder, inChain, occupied, ptrRead, room⟩ :=
    shape.accounts.held allocation live
  simp only [Region.Apart, Allocation.payload, AllocSection.header,
    AllocSection.payload] at *
  by_cases same : holder = sect
  · subst same
    omega
  · have apart := shape.chained.ordered.apart inChain present same
    simp only [AllocSection.stop] at apart
    omega

/-- Callers' writes preserve the shape. -/
theorem write
    {heap : Heap}
    {live : List Allocation}
    {mem : Nat → Nat}
    (shape : HeapShape xlen block_start block_end ⟨heap, live⟩ chain)
    (fits : block_end < xlen.size)
    (inside : ∀ cell,
      (∀ allocation ∈ live, ¬allocation.payload.Contains cell) →
        mem cell = heap.mem cell) :
    HeapShape xlen block_start block_end
      ⟨{ heap with mem := mem }, live⟩ chain := by
  have bytesPos := xlen.bytes_pos
  have header : headerSize xlen = 2 * xlen.bytes := rfl
  have headerKept : ∀ sect ∈ chain, ∀ cell,
      (sect.header xlen).Contains cell → mem cell = heap.mem cell := by
    intro sect present cell inHeader
    apply inside
    intro allocation live
    exact (shape.payload_apart_header live present).symm.not_contains
      inHeader
  obtain ⟨rfl, rfl, chained, accounts⟩ := shape
  refine ⟨rfl, rfl, { chained with linked := ?_ }, accounts⟩
  apply chained.linked.frame
  intro sect present
  have bounds := chained.ordered.bounds present
  have := sect.payload_le_stop xlen
  have wrapNext : xlen.wrap (sect.address + xlen.bytes) =
      sect.address + xlen.bytes := by
    apply Xlen.wrap_of_lt
    simp only [AllocSection.payload] at *
    omega
  refine ⟨headerKept sect present sect.address ⟨le_rfl, ?_⟩, ?_⟩
  · simp only [AllocSection.header]
    omega
  · simp only [Heap.nextAt, wrapNext]
    apply headerKept sect present _
    simp only [Region.Contains, AllocSection.header]
    omega

end HeapShape

namespace HeapInvariant

variable {xlen : Xlen} {block_start block_end : Nat}
  {state : HeapState} {chain : List AllocSection}

theorem shape
    (invariant : HeapInvariant xlen block_start block_end state chain) :
    HeapShape xlen block_start block_end state chain :=
  ⟨invariant.start_eq, invariant.end_eq, invariant.wellFormed.chained,
    invariant.accounts⟩

/-- A shape whose sections are aligned and in use behind the first one. -/
theorem of_shape
    (shape : HeapShape xlen block_start block_end state chain)
    (packed : Packed xlen block_end block_start chain)
    (tailInUse : ∀ sect ∈ chain.tail, sect.InUse xlen) :
    HeapInvariant xlen block_start block_end state chain := by
  obtain ⟨rfl, rfl, chained, accounts⟩ := shape
  exact ⟨rfl, rfl, ⟨chained.linked, packed, chained.nonempty, chained.shaped,
    tailInUse⟩, accounts⟩

theorem packed
    (invariant : HeapInvariant xlen block_start block_end state chain) :
    Packed xlen block_end block_start chain := by
  have packed := invariant.wellFormed.packed
  rwa [invariant.start_eq, invariant.end_eq] at packed

/-- The chain `kallocinit` writes. -/
theorem initial
    (heap : Heap)
    (block : Block xlen block_start block_end) :
    HeapInvariant xlen block_start block_end
      ⟨kallocinit xlen heap block_start block_end, []⟩ [⟨block_start, 0⟩] := by
  have shape := HeapShape.initial heap block.accepted block.fits
  apply of_shape shape
  · apply Packed.of_ordered
    · have ordered := shape.chained.ordered
      rwa [shape.start_eq, shape.end_eq] at ordered
    · intro sect present
      rw [List.mem_singleton.mp present]
      exact block.aligned
  · simp

/-- `kmalloc` preserves the invariant, and takes a gap or refuses. -/
theorem kmalloc_taken
    {heap after : Heap}
    {live : List Allocation}
    {size result : Nat}
    (invariant : HeapInvariant xlen block_start block_end ⟨heap, live⟩ chain)
    (block : Block xlen block_start block_end)
    (sizeFits : size < xlen.size)
    (call : Kmalloc xlen heap size result after) :
    ∃ taken, HeapInvariant xlen block_start block_end
        ⟨after, if result = 0 then live else ⟨result, size⟩ :: live⟩ taken ∧
      ((result = 0 ∧ after = heap ∧ taken = chain ∧
          Refuses xlen heap chain size) ∨
        Takes xlen heap chain size result after taken ∧
          WritesHeader xlen heap chain (result - headerSize xlen) after) := by
  have packed := invariant.packed
  obtain ⟨taken, shape, outcome⟩ := invariant.shape.kmalloc block.fits sizeFits
    (packed.ordered.guarded block.end_le_two_mul _) call
  refine ⟨taken, ?_, outcome⟩
  rcases outcome with ⟨rfl, rfl, rfl, -⟩ | ⟨takes, -⟩
  · exact invariant
  · have gap := (takes.fillsGap invariant.shape.chained).takesGap
      invariant.wellFormed.packed invariant.wellFormed.shaped
      invariant.wellFormed.tailInUse
    have takenPacked := gap.packed
    rw [invariant.start_eq, invariant.end_eq] at takenPacked
    exact of_shape shape takenPacked gap.tailInUse

/-- `kfree` preserves the invariant. -/
theorem kfree
    {heap after : Heap}
    {live : List Allocation}
    {ptr : Nat}
    (invariant : HeapInvariant xlen block_start block_end ⟨heap, live⟩ chain)
    (block : Block xlen block_start block_end)
    (ptrFits : ptr < xlen.size)
    (call : Kfree xlen heap ptr after) :
    HeapInvariant xlen block_start block_end
      ⟨after, live.filter fun allocation => allocation.ptr ≠ ptr⟩
      (release (headerOf xlen ptr) chain) := by
  have packed := invariant.packed
  have tailInUse := invariant.wellFormed.tailInUse
  apply of_shape
  · rw [release_eq packed.ordered block.start_pos tailInUse]
    exact invariant.shape.kfree block.fits ptrFits call
  · exact release_packed packed block.start_pos tailInUse
  · intro sect present
    exact tailInUse sect (mem_tail_of_mem_release_tail present)

/-- Callers' writes preserve the invariant. -/
theorem write
    {heap : Heap}
    {live : List Allocation}
    {mem : Nat → Nat}
    (invariant : HeapInvariant xlen block_start block_end ⟨heap, live⟩ chain)
    (block : Block xlen block_start block_end)
    (inside : ∀ cell,
      (∀ allocation ∈ live, ¬allocation.payload.Contains cell) →
        mem cell = heap.mem cell) :
    HeapInvariant xlen block_start block_end
      ⟨{ heap with mem := mem }, live⟩ chain :=
  of_shape (invariant.shape.write block.fits inside) invariant.packed
    invariant.wellFormed.tailInUse

/-- A run preserves the invariant. -/
theorem steps
    {first : HeapState}
    {events : List HeapEvent}
    (block : Block xlen block_start block_end)
    (run : Run (HeapStep xlen) first events state)
    (invariant : HeapInvariant xlen block_start block_end first chain) :
    ∃ chain, HeapInvariant xlen block_start block_end state chain := by
  apply run.invariant ?_ ⟨chain, invariant⟩
  rintro before event after taken ⟨chain, invariant⟩
  cases taken with
  | kmalloc sizeFits call =>
      obtain ⟨taken, kept, -⟩ := invariant.kmalloc_taken block sizeFits call
      exact ⟨taken, kept⟩
  | kfree ptrFits call => exact ⟨_, invariant.kfree block ptrFits call⟩
  | write inside => exact ⟨chain, invariant.write block inside⟩

/-- Every state of a run has a well formed chain that accounts for its live
allocations. -/
theorem of_run
    {heap : Heap}
    {events : List HeapEvent}
    (block : Block xlen block_start block_end)
    (run : Run (HeapStep xlen)
      ⟨kallocinit xlen heap block_start block_end, []⟩ events state) :
    ∃ chain, HeapInvariant xlen block_start block_end state chain :=
  steps block run (initial heap block)

end HeapInvariant

/-! ## Safety -/

/-- What callers may rely on in a state of a run: the chain is finite, ordered
and non-overlapping, its used sections are the live allocations, and a live
payload is theirs alone. -/
structure HeapSafe
    (xlen : Xlen) (block_start block_end : Nat)
    (state : HeapState) (chain : List AllocSection) : Prop where
  linked : Linked xlen state.heap block_start chain
  ascending : chain.Pairwise fun left right => left.address < right.address
  sectionsApart : chain.Pairwise fun left right =>
    left.address + left.size ≤ right.address
  sectionsWithin : ∀ sect ∈ chain,
    Region.Within ⟨sect.address, sect.size⟩ block_start block_end
  exactlyLive :
    ((chain.filter fun sect => sect.size ≠ 0).map
      (AllocSection.payload xlen)).Perm (state.live.map Allocation.ptr)
  payloadAligned : ∀ allocation ∈ state.live, xlen.bytes ∣ allocation.ptr
  payloadWithin : ∀ allocation ∈ state.live,
    allocation.payload.Within block_start block_end
  payloadsApart : state.live.Pairwise fun left right =>
    left.payload.Apart right.payload
  headersApart : ∀ allocation ∈ state.live, ∀ sect ∈ chain,
    allocation.payload.Apart (sect.header xlen)

/-- `kfree(ptr)` removed the one allocation whose payload starts at `ptr`, kept
every other one and wrote only headers; or there was none and nothing
changed. -/
def FreesExactly
    (xlen : Xlen) (block_start block_end : Nat)
    (state : HeapState) (ptr : Nat) (after : Heap) : Prop :=
  (∃ allocation ∈ state.live, allocation.ptr = ptr ∧
    (∃ chain, HeapSafe xlen block_start block_end
      ⟨after, state.live.filter fun other => other ≠ allocation⟩ chain) ∧
    ∀ other ∈ state.live, ∀ cell, other.payload.Contains cell →
      after.mem cell = state.heap.mem cell) ∨
  ((∀ allocation ∈ state.live, allocation.ptr ≠ ptr) ∧ after = state.heap)

/-- The invariant gives callers what they rely on. -/
theorem HeapInvariant.safe
    {xlen : Xlen}
    {block_start block_end : Nat}
    {state : HeapState}
    {chain : List AllocSection}
    (invariant : HeapInvariant xlen block_start block_end state chain) :
    HeapSafe xlen block_start block_end state chain := by
  have headersApart : ∀ allocation ∈ state.live, ∀ sect ∈ chain,
      allocation.payload.Apart (sect.header xlen) :=
    fun _ live _ present => invariant.shape.payload_apart_header live present
  obtain ⟨rfl, rfl, wellFormed, accounts⟩ := invariant
  have bytesPos := xlen.bytes_pos
  have header : headerSize xlen = 2 * xlen.bytes := rfl
  have packed := wellFormed.packed
  have ordered : chain.Pairwise fun left right =>
      left.address < right.address := by
    refine packed.ordered.pairwise.imp ?_
    intro left right apart
    have := left.payload_le_stop xlen
    unfold AllocSection.payload at this
    omega
  refine ⟨wellFormed.linked, ordered, ?_, ?_, ?_, ?_, ?_, ?_, headersApart⟩
  · refine packed.ordered.pairwise.imp ?_
    intro left right apart
    have := left.address_add_size_le_stop xlen
    omega
  · intro sect present
    have bounds := packed.bounds present
    have := sect.address_add_size_le_stop xlen
    exact ⟨bounds.1, by simp only; omega⟩
  · have usedDistinct : ((chain.filter fun sect => sect.size ≠ 0).map
        (AllocSection.payload xlen)).Nodup := by
      refine List.pairwise_map.mpr ((ordered.filter _).imp ?_)
      intro left right below
      unfold AllocSection.payload
      omega
    have liveDistinct : (state.live.map Allocation.ptr).Nodup :=
      List.pairwise_map.mpr accounts.distinct
    refine (List.perm_ext_iff_of_nodup usedDistinct liveDistinct).mpr ?_
    intro ptr
    simp only [List.mem_map, List.mem_filter, decide_eq_true_eq]
    constructor
    · rintro ⟨sect, ⟨present, occupied⟩, rfl⟩
      obtain ⟨allocation, live, holds⟩ := accounts.holds sect present occupied
      exact ⟨allocation, live, holds⟩
    · rintro ⟨allocation, live, rfl⟩
      obtain ⟨sect, present, occupied, holds⟩ :=
        accounts.held allocation live
      exact ⟨sect, ⟨present, occupied⟩, holds.1.symm⟩
  · intro allocation live
    obtain ⟨sect, present, _, ptrRead, _⟩ := accounts.held allocation live
    rw [ptrRead]
    exact Nat.dvd_add (packed.bounds present).2.1 ⟨2, by omega⟩
  · intro allocation live
    obtain ⟨sect, present, _, ptrRead, room⟩ := accounts.held allocation live
    have bounds := packed.bounds present
    have := sect.address_add_size_le_stop xlen
    simp only [Region.Within, Allocation.payload, AllocSection.payload] at *
    omega
  · refine accounts.distinct.imp_of_mem ?_
    intro left right leftLive rightLive different
    obtain ⟨leftSect, leftIn, _, leftPtr, leftRoom⟩ :=
      accounts.held left leftLive
    obtain ⟨rightSect, rightIn, _, rightPtr, rightRoom⟩ :=
      accounts.held right rightLive
    have apart := packed.ordered.apart leftIn rightIn (by
      rintro rfl
      exact different (leftPtr.trans rightPtr.symm))
    simp only [Region.Apart, Allocation.payload, AllocSection.payload,
      AllocSection.stop] at *
    omega

/-- `kfree` on a state of a run stops and frees exactly. -/
theorem HeapInvariant.kfree_exact
    {xlen : Xlen}
    {block_start block_end ptr : Nat}
    {state : HeapState}
    {chain : List AllocSection}
    (invariant : HeapInvariant xlen block_start block_end state chain)
    (block : Block xlen block_start block_end)
    (ptrFits : ptr < xlen.size) :
    ∃ after, Kfree xlen state.heap ptr after ∧
      FreesExactly xlen block_start block_end state ptr after := by
  have bytesPos := xlen.bytes_pos
  have header : headerSize xlen = 2 * xlen.bytes := rfl
  obtain ⟨after, call, _, _, _, untouched, headersOnly⟩ :=
    kfree_returns ptr invariant.wellFormed.linked
      invariant.wellFormed.packed.ordered invariant.wellFormed.nonempty
      (by rw [invariant.end_eq]; exact block.fits)
  refine ⟨after, call, ?_⟩
  by_cases found : ∃ allocation ∈ state.live, allocation.ptr = ptr
  · obtain ⟨allocation, live, rfl⟩ := found
    have freed := (invariant.kfree block ptrFits call).safe
    have sameRest : (state.live.filter
        fun other => other.ptr ≠ allocation.ptr) =
          state.live.filter fun other => other ≠ allocation := by
      have symmetric : Std.Symm fun left right : Allocation =>
          left.ptr ≠ right.ptr := ⟨fun _ _ => Ne.symm⟩
      apply List.filter_congr
      intro other otherLive
      by_cases same : other = allocation
      · simp [same]
      · simp [same,
          invariant.accounts.distinct.forall otherLive live same]
    rw [sameRest] at freed
    refine .inl ⟨allocation, live, rfl, ⟨_, freed⟩, ?_⟩
    intro other otherLive cell inPayload
    apply headersOnly
    intro sect present
    have outside := (invariant.shape.payload_apart_header otherLive
      present).not_contains inPayload
    simp only [Region.Contains, AllocSection.header] at outside
    omega
  · refine .inr ⟨fun allocation live equal =>
      found ⟨allocation, live, equal⟩, untouched ?_⟩
    intro sect present occupied equal
    obtain ⟨allocation, live, holds⟩ :=
      invariant.accounts.holds sect present occupied
    exact found ⟨allocation, live, holds.trans
      ((invariant.shape.headerOf_eq_iff block.fits ptrFits
        present).mp equal.symm).symm⟩

/-- Heap safety over whole runs.  In every state that calls of `kmalloc` and
`kfree` and writes inside live payloads can reach, callers are safe, every
further call stops, and `kfree` removes exactly one live allocation or
nothing. -/
theorem heap_safety
    {xlen : Xlen}
    {block_start block_end : Nat}
    (block : Block xlen block_start block_end)
    {heap : Heap}
    {events : List HeapEvent}
    {state : HeapState}
    (run : Run (HeapStep xlen)
      ⟨kallocinit xlen heap block_start block_end, []⟩ events state) :
    (∃ chain, HeapSafe xlen block_start block_end state chain) ∧
      (∀ size < xlen.size, ∃ result after,
        Kmalloc xlen state.heap size result after) ∧
      ∀ ptr < xlen.size, ∃ after, Kfree xlen state.heap ptr after ∧
        FreesExactly xlen block_start block_end state ptr after := by
  obtain ⟨chain, invariant⟩ := HeapInvariant.of_run block run
  have stateBlock : Block xlen state.heap.mem_block_start
      state.heap.mem_block_end := by
    rw [invariant.start_eq, invariant.end_eq]
    exact block
  refine ⟨⟨chain, invariant.safe⟩, ?_, ?_⟩
  · intro size sizeFits
    obtain ⟨result, after, call, _⟩ :=
      kmalloc_outcome invariant.shape.chained stateBlock.fits size sizeFits
        (invariant.shape.chained.ordered.guarded stateBlock.end_le_two_mul _)
    exact ⟨result, after, call⟩
  · intro ptr ptrFits
    exact invariant.kfree_exact block ptrFits

/-- A first request on a block of 256 bytes takes the sentinel's place. -/
theorem heap_safety_first_request :
    ∃ after, Kmalloc .rv32
        (kallocinit .rv32 ⟨0, 0, fun _ => 0⟩ 0x1000 0x1100) 5 0x1008 after ∧
      ∃ chain, HeapSafe .rv32 0x1000 0x1100 ⟨after, [⟨0x1008, 5⟩]⟩ chain := by
  have block : Block .rv32 0x1000 0x1100 :=
    ⟨by decide, by decide, by decide, by decide⟩
  have call : Kmalloc .rv32
      (kallocinit .rv32 ⟨0, 0, fun _ => 0⟩ 0x1000 0x1100) 5 0x1008 _ :=
    ⟨1, rfl⟩
  exact ⟨_, call,
    (heap_safety block (.single (.kmalloc (by decide) call))).1⟩

end Memalloc
end EchelonSbi
