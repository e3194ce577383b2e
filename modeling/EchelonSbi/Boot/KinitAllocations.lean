import EchelonSbi.Boot.KinitHeap
import EchelonSbi.Traps.ContextSetup

/-!
# The allocations of `kinit`

What the setup of the contexts needs of `kmalloc` and `kmalloc_stack` follows from the
heap: once the contexts are taken, a call writes neither to them nor outside the heap.
-/

namespace EchelonSbi
namespace Boot

open Foundation
open Memalloc
open Traps (Allocations CT_SIZE Served Spares field)

variable {xlen : Xlen}

/-! ## One call -/

section Effect

variable {first last : HeapState} {made rest : List HeapCall} {call : HeapCall}
  {results : List Nat}

/-- What a call makes of memory. -/
def effect (here : CallIn xlen first made call rest results last)
    (memory : Word xlen → Word xlen) : Word xlen → Word xlen := fun address =>
  if here.after.mem address.toNat = here.before.mem address.toNat then memory address
  else BitVec.ofNat xlen.bits (here.after.mem address.toNat)

/-- Memory that holds the heap holds it afterwards. -/
theorem effect_holds
    (here : CallIn xlen first made call rest results last)
    {memory : Word xlen → Word xlen}
    (holds : ∀ address,
      memory address = BitVec.ofNat xlen.bits (here.before.mem address.toNat))
    (address : Word xlen) :
    effect here memory address =
      BitVec.ofNat xlen.bits (here.after.mem address.toNat) := by
  unfold effect
  split
  · next same => rw [holds, same]
  · rfl

end Effect

/-! ## The contexts on the heap -/

section Contexts

variable (xlen) (KHEAP_START TOTAL_HART_COUNT : Nat)

/-- The block of `hart_contexts`, behind those of the other arrays. -/
def contextsBlock : Allocation :=
  ⟨KHEAP_START +
      sectionsSize xlen (((kinitArrays xlen TOTAL_HART_COUNT).take 4).map (·.request xlen)) +
      headerSize xlen,
    xlen.wrap (xlen.wrap (TOTAL_HART_COUNT * 3) * CT_SIZE xlen)⟩

/-- The contexts of the trap code are those on the heap, and its variables lie outside
the heap. -/
structure OnHeap (served : Served xlen) : Prop where
  total : served.arrays.total = TOTAL_HART_COUNT
  base : served.arrays.base.toNat = (contextsBlock xlen KHEAP_START TOTAL_HART_COUNT).ptr
  outside : ∀ name,
    (served.firmware.names.address name).toNat < KHEAP_START ∨
      heapEnd xlen KHEAP_START ≤ (served.firmware.names.address name).toNat

variable {xlen KHEAP_START TOTAL_HART_COUNT} {tls_size : Nat} {heap : Heap}
  {served : Served xlen} {results : List Nat} {last : HeapState}
  {made rest : List HeapCall} {call : HeapCall}

/-- The contexts are among what the calls for the arrays got. -/
theorem contextsBlock_mem (more : List Nat) :
    contextsBlock xlen KHEAP_START TOTAL_HART_COUNT ∈
      (allocations xlen KHEAP_START
        ((kinitArrays xlen TOTAL_HART_COUNT).map (·.request xlen) ++ more)).reverse := by
  rw [List.mem_reverse, allocations_append]
  apply List.mem_append_left
  rw [← List.take_append_drop 4 (kinitArrays xlen TOTAL_HART_COUNT), List.map_append,
    allocations_append]
  exact List.mem_append_right _ List.mem_cons_self

/-- A word of a context is in the block. -/
theorem contains_field
    (onHeap : OnHeap xlen KHEAP_START TOTAL_HART_COUNT served)
    (few : TOTAL_HART_COUNT < 0x80)
    (within : (contextsBlock xlen KHEAP_START TOTAL_HART_COUNT).payload.Within KHEAP_START
      (heapEnd xlen KHEAP_START))
    (inside : heapEnd xlen KHEAP_START < xlen.size)
    {index word : Nat}
    (small : index < 3 * served.arrays.total)
    (narrow : word < 35) :
    (contextsBlock xlen KHEAP_START TOTAL_HART_COUNT).payload.Contains
      (field (served.arrays.context index) word).toNat := by
  have total := onHeap.total
  have base := onHeap.base
  have room : 0x80 * 0x400 ≤ xlen.size := by
    cases xlen <;> decide
  have size : CT_SIZE xlen = xlen.bytes * 35 := by
    cases xlen <;> decide
  have bytes : xlen.bytes = 4 ∨ xlen.bytes = 8 := by
    cases xlen <;> decide
  have request : xlen.wrap (xlen.wrap (TOTAL_HART_COUNT * 3) * CT_SIZE xlen) =
      TOTAL_HART_COUNT * 3 * (xlen.bytes * 35) := by
    rw [Xlen.wrap_of_lt (show TOTAL_HART_COUNT * 3 < xlen.size by omega), size]
    exact Xlen.wrap_of_lt (by rcases bytes with four | eight <;> simp only [*] <;> omega)
  have offset : xlen.bytes * (35 * index + word) <
      TOTAL_HART_COUNT * 3 * (xlen.bytes * 35) := by
    rcases bytes with four | eight <;> simp only [*] <;> omega
  simp only [Region.Within, Region.Contains, Allocation.payload, contextsBlock, request]
    at within base ⊢
  have place : (field (served.arrays.context index) word).toNat =
      served.arrays.base.toNat + xlen.bytes * (35 * index + word) := by
    have bits : 2 ^ xlen.bits = xlen.size := rfl
    rw [Traps.HartArrays.field_context, BitVec.toNat_add, BitVec.toNat_ofNat, bits,
      Nat.mod_eq_of_lt (show xlen.bytes * (35 * index + word) < xlen.size by omega),
      Nat.mod_eq_of_lt (by omega)]
  rw [place]
  omega

/-- A call behind those for the arrays spares the contexts and the variables. -/
theorem effect_spares
    (block : Block xlen KHEAP_START (heapEnd xlen KHEAP_START))
    (onHeap : OnHeap xlen KHEAP_START TOTAL_HART_COUNT served)
    (few : TOTAL_HART_COUNT < 0x80)
    (fits : ∀ other ∈ kinitArrays xlen TOTAL_HART_COUNT ++ made, other.Fits xlen)
    (callFits : call.Fits xlen)
    (here : CallIn xlen ⟨kallocinit xlen heap KHEAP_START (heapEnd xlen KHEAP_START), []⟩
      (kinitArrays xlen TOTAL_HART_COUNT ++ made) call rest results last)
    (memory : Word xlen → Word xlen) :
    Spares served memory (effect here memory) := by
  obtain ⟨-, -, filled⟩ := here.reached.packed block (Filled.initial block heap) fits
  have present : contextsBlock xlen KHEAP_START TOTAL_HART_COUNT ∈ here.live := by
    have live : here.live = _ := filled.live
    rw [List.nil_append, List.map_append] at live
    rw [live]
    exact contextsBlock_mem _
  obtain ⟨chain, measured⟩ := filled.measured
  have within := measured.toHeapInvariant.safe.payloadWithin _ present
  constructor
  · intro index small word narrow
    have inside := contains_field onHeap few within block.fits small narrow
    exact if_pos (filled.call_frame block callFits here.returns here.taken
      (.inl ⟨_, present, inside⟩))
  · intro name
    exact if_pos (filled.call_frame block callFits here.returns here.taken
      (.inr (onHeap.outside name)))

/-- The call for the contexts gets their block. -/
theorem contexts_result
    (block : Block xlen KHEAP_START (heapEnd xlen KHEAP_START))
    (here : CallIn xlen ⟨kallocinit xlen heap KHEAP_START (heapEnd xlen KHEAP_START), []⟩
      ((kinitArrays xlen TOTAL_HART_COUNT).take 4)
      (.kmalloc (contextsBlock xlen KHEAP_START TOTAL_HART_COUNT).request) rest results
      last)
    (fits : ∀ other ∈ (kinitArrays xlen TOTAL_HART_COUNT).take 4, other.Fits xlen) :
    here.allocation = (contextsBlock xlen KHEAP_START TOTAL_HART_COUNT).ptr ∧
      here.result = here.allocation ∧
      (contextsBlock xlen KHEAP_START TOTAL_HART_COUNT).payload.Within KHEAP_START
        (heapEnd xlen KHEAP_START) ∧
      ∀ cell, ((contextsBlock xlen KHEAP_START TOTAL_HART_COUNT).payload.Contains cell ∨
        cell < KHEAP_START ∨ heapEnd xlen KHEAP_START ≤ cell) →
        here.after.mem cell = here.before.mem cell := by
  obtain ⟨-, -, filled⟩ := here.reached.packed block (Filled.initial block heap) fits
  obtain ⟨middle, made, finished⟩ := here.returns
  obtain ⟨same, left⟩ := Prod.mk.inj finished
  have small : (contextsBlock xlen KHEAP_START TOTAL_HART_COUNT).request < xlen.size :=
    xlen.wrap_lt _
  rcases filled.kmalloc block small made with ⟨-, zero⟩ | ⟨-, allocated, grown⟩
  · exact absurd (same.symm.trans zero) here.taken
  obtain ⟨chain, measured⟩ := filled.measured
  obtain ⟨grownChain, grownMeasured⟩ := grown.measured
  have own : (⟨here.allocation, (contextsBlock xlen KHEAP_START TOTAL_HART_COUNT).request⟩ :
      Allocation) = contextsBlock xlen KHEAP_START TOTAL_HART_COUNT := by
    rw [allocated, List.nil_append]
    rfl
  refine ⟨congrArg Allocation.ptr own, same.symm, ?_, fun cell apart => ?_⟩
  · rw [← own]
    exact grownMeasured.toHeapInvariant.safe.payloadWithin _ List.mem_cons_self
  · rw [← left]
    apply measured.toHeapInvariant.kmalloc_frame block small made
    · exact fun zero => here.taken (same.symm.trans zero)
    · rw [← own] at apart
      rcases apart with inside | outside
      · exact .inl ⟨_, List.mem_cons_self, inside⟩
      · exact .inr outside

end Contexts

/-! ## The calls of `kinit` -/

section Kinit

variable {KHEAP_START TOTAL_HART_COUNT tls_size : Nat} {heap : Heap}
  {served : Served xlen} {results : List Nat} {last : HeapState}

/-- The calls for the first harts. -/
def kinitTurns (tls_size harts : Nat) : List HeapCall :=
  (List.range harts).flatMap fun _ => kinitTurn tls_size

/-- The turn of one hart. -/
theorem kinitTurns_split
    {hart : Nat}
    (small : hart < TOTAL_HART_COUNT) :
    kinitTurns tls_size TOTAL_HART_COUNT =
      kinitTurns tls_size hart ++
        (kinitTurn tls_size ++ kinitTurns tls_size (TOTAL_HART_COUNT - hart - 1)) := by
  have sum : TOTAL_HART_COUNT = hart + (1 + (TOTAL_HART_COUNT - hart - 1)) := by omega
  unfold kinitTurns
  conv => lhs; rw [sum]
  rw [List.range_add, List.flatMap_append, List.flatMap_map, List.range_add,
    List.flatMap_append, List.flatMap_map]
  rfl

theorem kinitTurns_fit
    (tls : tls_size < xlen.size)
    (harts : Nat) :
    ∀ call ∈ kinitTurns tls_size harts, call.Fits xlen := by
  intro call member
  apply @kinitCalls_fit xlen harts tls_size tls
  exact List.mem_append_right _ member

/-- The block of thread-local data that a call got is apart from the contexts. -/
theorem thread_apart
    {made rest : List HeapCall}
    (block : Block xlen KHEAP_START (heapEnd xlen KHEAP_START))
    (fits : ∀ other ∈ kinitArrays xlen TOTAL_HART_COUNT ++ made, other.Fits xlen)
    (tls : tls_size < xlen.size)
    (here : CallIn xlen ⟨kallocinit xlen heap KHEAP_START (heapEnd xlen KHEAP_START), []⟩
      (kinitArrays xlen TOTAL_HART_COUNT ++ made) (.kmalloc tls_size) rest results last) :
    (⟨here.result, tls_size⟩ : Allocation).payload.Apart
        (contextsBlock xlen KHEAP_START TOTAL_HART_COUNT).payload ∧
      (⟨here.result, tls_size⟩ : Allocation).payload.Within KHEAP_START
        (heapEnd xlen KHEAP_START) := by
  obtain ⟨-, -, filled⟩ := here.reached.packed block (Filled.initial block heap) fits
  have present : contextsBlock xlen KHEAP_START TOTAL_HART_COUNT ∈ here.live := by
    have live : here.live = _ := filled.live
    rw [List.nil_append, List.map_append] at live
    rw [live]
    exact contextsBlock_mem _
  have own : here.result = here.allocation := by
    obtain ⟨middle, -, finished⟩ := here.returns
    exact (congrArg Prod.fst finished).symm
  have callFits : (HeapCall.kmalloc tls_size).Fits xlen := tls
  rcases filled.call block callFits here.returns with ⟨-, zero⟩ | ⟨-, -, -, grown⟩
  · exact absurd zero here.taken
  obtain ⟨chain, measured⟩ := grown.measured
  have safe := measured.toHeapInvariant.safe
  rw [own]
  exact ⟨(List.pairwise_cons.mp safe.payloadsApart).1 _ present,
    safe.payloadWithin _ List.mem_cons_self⟩

/-- The copy of the thread-local data spares the contexts and the variables. -/
theorem copy_spares
    {made rest : List HeapCall}
    {copy : Nat → (Word xlen → Word xlen) → Word xlen → Word xlen}
    (block : Block xlen KHEAP_START (heapEnd xlen KHEAP_START))
    (onHeap : OnHeap xlen KHEAP_START TOTAL_HART_COUNT served)
    (few : TOTAL_HART_COUNT < 0x80)
    (within : (contextsBlock xlen KHEAP_START TOTAL_HART_COUNT).payload.Within KHEAP_START
      (heapEnd xlen KHEAP_START))
    (fits : ∀ other ∈ kinitArrays xlen TOTAL_HART_COUNT ++ made, other.Fits xlen)
    (tls : tls_size < xlen.size)
    (copies : ∀ ptr memory address,
      ¬(⟨ptr, tls_size⟩ : Allocation).payload.Contains address.toNat →
        copy ptr memory address = memory address)
    (here : CallIn xlen ⟨kallocinit xlen heap KHEAP_START (heapEnd xlen KHEAP_START), []⟩
      (kinitArrays xlen TOTAL_HART_COUNT ++ made) (.kmalloc tls_size) rest results last)
    (memory : Word xlen → Word xlen) :
    Spares served memory (copy here.result (effect here memory)) := by
  have callFits : (HeapCall.kmalloc tls_size).Fits xlen := tls
  have spares := effect_spares block onHeap few fits callFits here memory
  obtain ⟨apart, inHeap⟩ := thread_apart block fits tls here
  constructor
  · intro index small word narrow
    have inside := contains_field onHeap few within block.fits small narrow
    rw [copies _ _ _ (apart.symm.not_contains inside)]
    exact spares.contexts index small word narrow
  · intro name
    rw [copies]
    · exact spares.globals name
    · have outside := onHeap.outside name
      simp only [Region.Contains, Region.Within, Allocation.payload] at inHeap ⊢
      omega

/-- The calls around the turn of a hart. -/
theorem kinitCalls_split
    {hart : Nat}
    (small : hart < TOTAL_HART_COUNT) :
    kinitCalls xlen TOTAL_HART_COUNT tls_size =
      kinitArrays xlen TOTAL_HART_COUNT ++ kinitTurns tls_size hart ++
        .kmalloc tls_size :: .kmalloc_stack STACK_SIZE ::
          kinitTurns tls_size (TOTAL_HART_COUNT - hart - 1) := by
  show kinitArrays xlen TOTAL_HART_COUNT ++ kinitTurns tls_size TOTAL_HART_COUNT = _
  rw [kinitTurns_split small, List.append_assoc]
  rfl

theorem turns_fit
    (tls : tls_size < xlen.size)
    (harts : Nat) :
    ∀ other ∈ kinitArrays xlen TOTAL_HART_COUNT ++ kinitTurns tls_size harts,
      other.Fits xlen := by
  intro other member
  rcases List.mem_append.mp member with array | turn
  · exact @kinitCalls_fit xlen TOTAL_HART_COUNT tls_size tls other
      (List.mem_append_left _ array)
  · exact kinitTurns_fit tls harts other turn

theorem behind_fit
    (tls : tls_size < xlen.size)
    (harts : Nat) :
    ∀ other ∈ kinitArrays xlen TOTAL_HART_COUNT ++
      (kinitTurns tls_size harts ++ [.kmalloc tls_size]), other.Fits xlen := by
  intro other member
  rw [← List.append_assoc] at member
  rcases List.mem_append.mp member with early | turn
  · exact turns_fit tls harts other early
  · rw [List.mem_singleton.mp turn]
    exact tls

theorem stack_fits : (HeapCall.kmalloc_stack STACK_SIZE).Fits xlen := by
  simp only [HeapCall.Fits]
  cases xlen <;> decide

/-- The setup of the contexts takes what the calls of a run return, and the calls and the
copies of the thread-local data do to memory what they do to the heap. -/
structure FromRun
    (first : HeapState) (TOTAL_HART_COUNT tls_size KHEAP_START : Nat)
    (copy : Nat → (Word xlen → Word xlen) → Word xlen → Word xlen)
    (results : List Nat) (last : HeapState)
    (allocations : Allocations served) : Prop where
  contexts : ∃ contexts : CallIn xlen first ((kinitArrays xlen TOTAL_HART_COUNT).take 4)
      (.kmalloc (contextsBlock xlen KHEAP_START TOTAL_HART_COUNT).request)
      (kinitTurns tls_size TOTAL_HART_COUNT) results last,
    contexts.result = served.arrays.base.toNat ∧ allocations.contexts = effect contexts
  thread : ∀ hart < TOTAL_HART_COUNT, ∃ thread : CallIn xlen first
      (kinitArrays xlen TOTAL_HART_COUNT ++ kinitTurns tls_size hart) (.kmalloc tls_size)
      (.kmalloc_stack STACK_SIZE :: kinitTurns tls_size (TOTAL_HART_COUNT - hart - 1))
      results last,
    allocations.tp hart = BitVec.ofNat xlen.bits thread.result ∧
      ∀ memory, allocations.threadLocal hart memory =
        copy thread.result (effect thread memory)
  stack : ∀ hart < TOTAL_HART_COUNT, ∃ stack : CallIn xlen first
      (kinitArrays xlen TOTAL_HART_COUNT ++
        (kinitTurns tls_size hart ++ [.kmalloc tls_size])) (.kmalloc_stack STACK_SIZE)
      (kinitTurns tls_size (TOTAL_HART_COUNT - hart - 1)) results last,
    allocations.sp hart = BitVec.ofNat xlen.bits stack.result ∧
      allocations.stack hart = effect stack

/-- What the setup of the contexts needs of its allocations holds in every run of the
calls of `kinit` that get memory. -/
theorem kinit_allocations
    {copy : Nat → (Word xlen → Word xlen) → Word xlen → Word xlen}
    (block : Block xlen KHEAP_START (heapEnd xlen KHEAP_START))
    (onHeap : OnHeap xlen KHEAP_START TOTAL_HART_COUNT served)
    (tls : tls_size < xlen.size)
    (copies : ∀ ptr memory address,
      ¬(⟨ptr, tls_size⟩ : Allocation).payload.Contains address.toNat →
        copy ptr memory address = memory address)
    (run : Calls xlen ⟨kallocinit xlen heap KHEAP_START (heapEnd xlen KHEAP_START), []⟩
      (kinitCalls xlen TOTAL_HART_COUNT tls_size) results last) :
    ∃ allocations : Allocations served,
      FromRun ⟨kallocinit xlen heap KHEAP_START (heapEnd xlen KHEAP_START), []⟩
        TOTAL_HART_COUNT tls_size KHEAP_START copy results last allocations := by
  have few : TOTAL_HART_COUNT < 0x80 := by
    obtain ⟨-, -, room⟩ := (kinitCalls_iff block tls).mp ⟨results, last, run⟩
    apply @harts_lt xlen _ tls_size
    unfold kinitSize at room
    omega
  generalize opened :
    (⟨kallocinit xlen heap KHEAP_START (heapEnd xlen KHEAP_START), []⟩ : HeapState) = first
      at run
  -- the calls, in their order
  obtain ⟨contexts⟩ : Nonempty (CallIn xlen first
      ((kinitArrays xlen TOTAL_HART_COUNT).take 4)
      (.kmalloc (contextsBlock xlen KHEAP_START TOTAL_HART_COUNT).request)
      (kinitTurns tls_size TOTAL_HART_COUNT) results last) := run.callIn rfl
  have thread (hart : Nat) (small : hart < TOTAL_HART_COUNT) : CallIn xlen first
      (kinitArrays xlen TOTAL_HART_COUNT ++ kinitTurns tls_size hart) (.kmalloc tls_size)
      (.kmalloc_stack STACK_SIZE :: kinitTurns tls_size (TOTAL_HART_COUNT - hart - 1))
      results last :=
    Classical.choice (run.callIn (kinitCalls_split small))
  have stack (hart : Nat) (small : hart < TOTAL_HART_COUNT) : CallIn xlen first
      (kinitArrays xlen TOTAL_HART_COUNT ++
        (kinitTurns tls_size hart ++ [.kmalloc tls_size])) (.kmalloc_stack STACK_SIZE)
      (kinitTurns tls_size (TOTAL_HART_COUNT - hart - 1)) results last := by
    refine Classical.choice (run.callIn ((kinitCalls_split small).trans ?_))
    rw [List.append_cons, List.append_assoc (kinitArrays xlen TOTAL_HART_COUNT)]
  subst opened
  obtain ⟨placed, own, within, kept⟩ := contexts_result block contexts
    fun other member => @kinitCalls_fit xlen TOTAL_HART_COUNT tls_size tls other
      (List.mem_append_left _ (List.mem_of_mem_take member))
  have nothing (memory : Word xlen → Word xlen) : Spares served memory memory :=
    ⟨fun _ _ _ _ => rfl, fun _ => rfl⟩
  refine ⟨{
    tp := fun hart =>
      if small : hart < TOTAL_HART_COUNT then BitVec.ofNat _ (thread hart small).result
      else 0
    sp := fun hart =>
      if small : hart < TOTAL_HART_COUNT then BitVec.ofNat _ (stack hart small).result
      else 0
    contexts := effect contexts
    threadLocal := fun hart memory =>
      if small : hart < TOTAL_HART_COUNT then
        copy (thread hart small).result (effect (thread hart small) memory)
      else memory
    stack := fun hart =>
      if small : hart < TOTAL_HART_COUNT then effect (stack hart small)
      else fun memory => memory
    contexts_spares := ?_
    threadLocal_spares := ?_
    stack_spares := ?_ }, ⟨contexts, ?_, rfl⟩,
      fun hart small => ⟨thread hart small, dif_pos small, fun memory => dif_pos small⟩,
      fun hart small => ⟨stack hart small, dif_pos small, dif_pos small⟩⟩
  · intro memory
    constructor
    · intro index small word narrow
      exact if_pos (kept _
        (.inl (contains_field onHeap few within block.fits small narrow)))
    · intro name
      exact if_pos (kept _ (.inr (onHeap.outside name)))
  · intro hart memory
    split
    · next small =>
        exact copy_spares block onHeap few within (turns_fit tls hart) tls copies
          (thread hart small) memory
    · exact nothing memory
  · intro hart memory
    split
    · next small =>
        exact effect_spares block onHeap few (behind_fit tls hart) stack_fits
          (stack hart small) memory
    · exact nothing memory
  · exact own.trans (placed.trans onHeap.base.symm)

end Kinit

/-- Four harts whose contexts are on a heap at 0x80020000. -/
def heapServed : Served .rv64 where
  firmware := Traps.boardFirmware .rv64
  arrays :=
    { base := BitVec.ofNat 64 (contextsBlock .rv64 0x80020000 4).ptr
      total := 4
      fits := by decide }
  hart := 0
  hart_lt := by decide
  outside := by
    intro name index inside word within same
    obtain ⟨address, low⟩ := @Traps.toNat_boardAddress .rv64 name
    have numbers := congrArg BitVec.toNat same
    have pointer : (contextsBlock .rv64 0x80020000 4).ptr < 0x80030000 ∧
        0x80020000 ≤ (contextsBlock .rv64 0x80020000 4).ptr := by
      decide
    generalize (contextsBlock .rv64 0x80020000 4).ptr = ptr at numbers pointer
    have small : index < 12 := inside
    have names : ((Traps.boardFirmware .rv64).names.address name).toNat < 0x10000 :=
      address.trans_lt low
    have base : (BitVec.ofNat 64 ptr).toNat = ptr % 2 ^ 64 := BitVec.toNat_ofNat ..
    rw [Traps.HartArrays.field_context, BitVec.toNat_add, BitVec.toNat_ofNat] at numbers
    change _ = ((BitVec.ofNat 64 ptr).toNat + 8 * (35 * index + word) % 2 ^ 64) % 2 ^ 64
      at numbers
    rw [base] at numbers
    omega

theorem heapServed_onHeap : OnHeap .rv64 0x80020000 4 heapServed where
  total := rfl
  base := by decide
  outside name := by
    obtain ⟨address, low⟩ := @Traps.toNat_boardAddress .rv64 name
    have names : (heapServed.firmware.names.address name).toNat < 0x10000 :=
      address.trans_lt low
    omega

/-- What `kinit` takes from the heap for four harts. -/
theorem kinit_allocations_board :
    ∃ results last, ∃ allocations : Allocations heapServed,
      FromRun ⟨kallocinit .rv64 ⟨0, 0, fun _ => 0⟩ 0x80020000 0x800A0000, []⟩ 4 24
        0x80020000 (fun _ memory => memory) results last allocations := by
  have block : Block .rv64 0x80020000 (heapEnd .rv64 0x80020000) :=
    kinit_block (by decide) (by decide) (by decide)
  obtain ⟨results, last, run⟩ := (@kinitCalls_iff .rv64 0x80020000 4 24
    ⟨0, 0, fun _ => 0⟩ block (by decide)).mpr (by decide)
  obtain ⟨allocations, fromRun⟩ := kinit_allocations block heapServed_onHeap (by decide)
    (fun _ _ _ _ => rfl) run
  exact ⟨results, last, allocations, fromRun⟩

end Boot
end EchelonSbi
