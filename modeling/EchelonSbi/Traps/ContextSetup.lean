import EchelonSbi.Traps.Serving

/-!
# Setting up contexts

`kinit` gives each hart a context with its stack, and clears those for interrupts and
for the kernel.  The start of a hart fills the last one.
-/

namespace EchelonSbi
namespace Traps

open Riscv
open HandlerCode (REG_PC)

variable {xlen : Xlen}

/-! ## The C code -/

section Code

variable (record : Word xlen) (memory : Word xlen → Word xlen)

/-- `hart_context->regs[reg] = value`. -/
def setContextReg (reg : Reg) (value : Word xlen) : Word xlen → Word xlen :=
  Function.update memory (regField record reg) value

def clear_hart_context : Word xlen → Word xlen :=
  let identified := Function.update memory (field record 0) 0
  let unprivileged := Function.update identified (field record 1) 0
  let reserved := Function.update unprivileged (field record 2) 0
  (List.range 32).foldl (fun memory j => Function.update memory (field record (3 + j)) 0)
    reserved

/-- The branch `HARTCMD_STARTHART` of `interrupt_c_handler` on the context of the
kernel. -/
def startContext (mhartid param1 param2 : Word xlen) : Word xlen → Word xlen :=
  let cleared := clear_hart_context record memory
  let identified := Function.update cleared (field record 0) mhartid
  let privileged := Function.update identified (field record 1) (BitVec.ofNat xlen.bits EM_S)
  let located := setContextReg record privileged REG_PC param1
  setContextReg record (setContextReg record located .a0 mhartid) .a1 param2

end Code

/-! ## What it writes -/

/-- The memory differs in one context only, which is this one. -/
structure Wrote
    (record : Word xlen) (context : CPU_Context xlen)
    (memory after : Word xlen → Word xlen) : Prop where
  context : contextAt after record = context
  other : ∀ address, (∀ word < 35, address ≠ field record word) →
    after address = memory address

section Wrote

variable {record : Word xlen} {context : CPU_Context xlen}
  {memory after : Word xlen → Word xlen}

theorem Wrote.setReg
    (wrote : Wrote record context memory after)
    (reg : Reg)
    (value : Word xlen) :
    Wrote record (context.setReg reg value) memory
      (setContextReg record after reg value) where
  context := by
    rw [setContextReg, contextAt_update, wrote.context]
  other address apart := by
    have small := regNumber_lt reg
    rw [setContextReg, Function.update_of_ne, wrote.other address apart]
    rw [regField_eq_field]
    exact apart _ (by omega)

/-- A write of one word of a context leaves the others. -/
theorem update_field_of_ne
    (memory : Word xlen → Word xlen)
    (record value : Word xlen)
    {word other : Nat}
    (inside : word < 35)
    (otherInside : other < 35)
    (apart : other ≠ word) :
    Function.update memory (field record word) value (field record other) =
      memory (field record other) := by
  apply Function.update_of_ne
  rwa [Ne, field_inj otherInside inside]

theorem Wrote.setId
    (wrote : Wrote record context memory after)
    (value : Word xlen) :
    Wrote record { context with context_id := value } memory
      (Function.update after (field record 0) value) where
  context := by
    have others (other : Nat) (inside : other < 35) (apart : other ≠ 0) :=
      update_field_of_ne after record value (show 0 < 35 by decide) inside apart
    have regs (reg : Reg) : Function.update after (field record 0) value
        (regField record reg) = after (regField record reg) := by
      have small := regNumber_lt reg
      rw [regField_eq_field]
      exact others _ (by omega) (by omega)
    rw [← wrote.context]
    simp only [contextAt, others 1 (by decide) (by decide), others 2 (by decide) (by decide),
      regs, Function.update_self]
  other address apart := by
    rw [Function.update_of_ne (apart 0 (by decide)), wrote.other address apart]

theorem Wrote.setMode
    (wrote : Wrote record context memory after)
    (value : Word xlen) :
    Wrote record { context with execution_mode := value } memory
      (Function.update after (field record 1) value) where
  context := by
    have others (other : Nat) (inside : other < 35) (apart : other ≠ 1) :=
      update_field_of_ne after record value (show 1 < 35 by decide) inside apart
    have regs (reg : Reg) : Function.update after (field record 1) value
        (regField record reg) = after (regField record reg) := by
      have small := regNumber_lt reg
      rw [regField_eq_field]
      exact others _ (by omega) (by omega)
    rw [← wrote.context]
    simp only [contextAt, others 0 (by decide) (by decide), others 2 (by decide) (by decide),
      regs, Function.update_self]
  other address apart := by
    rw [Function.update_of_ne (apart 1 (by decide)), wrote.other address apart]

end Wrote

/-- A context of zeros. -/
def CPU_Context.cleared : CPU_Context xlen where
  context_id := 0
  execution_mode := 0
  reserved_0 := 0
  regs _ := 0

/-- The loop of `clear_hart_context`. -/
theorem foldl_clear
    (record : Word xlen)
    (memory : Word xlen → Word xlen)
    (count : Nat)
    (address : Word xlen) :
    (List.range count).foldl
        (fun memory j => Function.update memory (field record (3 + j)) 0) memory address =
      if ∃ j < count, address = field record (3 + j) then 0 else memory address := by
  induction count with
  | zero => simp
  | succ count inductionHypothesis =>
      rw [List.range_succ, List.foldl_append, List.foldl_cons, List.foldl_nil,
        Function.update_apply, inductionHypothesis]
      by_cases own : address = field record (3 + count)
      · rw [if_pos own, if_pos ⟨count, Nat.lt_succ_self count, own⟩]
      · rw [if_neg own]
        congr 1
        apply propext
        constructor
        · rintro ⟨j, inside, same⟩
          exact ⟨j, Nat.lt_succ_of_lt inside, same⟩
        · rintro ⟨j, inside, same⟩
          rcases Nat.lt_succ_iff_lt_or_eq.mp inside with before | rfl
          · exact ⟨j, before, same⟩
          · exact absurd same own

theorem clear_hart_context_wrote
    (record : Word xlen)
    (memory : Word xlen → Word xlen) :
    Wrote record .cleared memory (clear_hart_context record memory) := by
  have head (word : Nat) (small : word < 3) :
      ¬∃ j < 32, field record word = field record (3 + j) := by
    rintro ⟨j, inside, same⟩
    have := (field_inj (by omega) (by omega)).mp same
    omega
  have apart {word other : Nat} (differ : word ≠ other) (small : word < 3)
      (otherSmall : other < 3) : field record word ≠ field record other := by
    rwa [Ne, field_inj (by omega) (by omega)]
  constructor
  · have regs (reg : Reg) :
        clear_hart_context record memory (regField record reg) = 0 := by
      rw [clear_hart_context, foldl_clear, if_pos]
      exact ⟨regNumber reg, regNumber_lt reg, regField_eq_field record reg⟩
    have first : clear_hart_context record memory (field record 0) = 0 := by
      rw [clear_hart_context, foldl_clear, if_neg (head 0 (by decide)),
        Function.update_of_ne (apart (by decide) (by decide) (by decide)),
        Function.update_of_ne (apart (by decide) (by decide) (by decide)),
        Function.update_self]
    have second : clear_hart_context record memory (field record 1) = 0 := by
      rw [clear_hart_context, foldl_clear, if_neg (head 1 (by decide)),
        Function.update_of_ne (apart (by decide) (by decide) (by decide)),
        Function.update_self]
    have third : clear_hart_context record memory (field record 2) = 0 := by
      rw [clear_hart_context, foldl_clear, if_neg (head 2 (by decide)),
        Function.update_self]
    simp only [contextAt, CPU_Context.cleared, regs, first, second, third]
  · intro address outside
    rw [clear_hart_context, foldl_clear, if_neg,
      Function.update_of_ne (outside 2 (by decide)),
      Function.update_of_ne (outside 1 (by decide)),
      Function.update_of_ne (outside 0 (by decide))]
    rintro ⟨j, inside, same⟩
    exact outside (3 + j) (by omega) same

/-- The context with which a started hart enters the kernel. -/
def startedContext (mhartid param1 param2 : Word xlen) : CPU_Context xlen where
  context_id := mhartid
  execution_mode := BitVec.ofNat xlen.bits EM_S
  reserved_0 := 0
  regs reg :=
    if reg = .a1 then param2 else if reg = .a0 then mhartid
    else if reg = REG_PC then param1 else 0

theorem startContext_wrote
    (record : Word xlen)
    (memory : Word xlen → Word xlen)
    (mhartid param1 param2 : Word xlen) :
    Wrote record (startedContext mhartid param1 param2) memory
      (startContext record memory mhartid param1 param2) := by
  have cleared := clear_hart_context_wrote record memory
  have wrote := ((((cleared.setId mhartid).setMode (BitVec.ofNat xlen.bits EM_S)).setReg
    REG_PC param1).setReg .a0 mhartid).setReg .a1 param2
  refine ⟨wrote.context.trans ?_, wrote.other⟩
  rw [startedContext, CPU_Context.setReg, CPU_Context.setReg, CPU_Context.setReg,
    CPU_Context.mk.injEq]
  refine ⟨rfl, rfl, rfl, ?_⟩
  funext reg
  simp only [Function.update_apply, CPU_Context.cleared]

/-! ## All contexts of the harts -/

/-- Memory changes outside the contexts and the variables of the trap code. -/
structure Spares (served : Served xlen) (memory after : Word xlen → Word xlen) : Prop where
  contexts : ∀ index < 3 * served.arrays.total, ∀ word < 35,
    after (field (served.arrays.context index) word) =
      memory (field (served.arrays.context index) word)
  globals : ∀ name,
    after (served.firmware.names.address name) = memory (served.firmware.names.address name)

/-- One context is set up, and what the trap code finds else stays. -/
structure SetUp
    (served : Served xlen) (index : Nat) (context : CPU_Context xlen)
    (memory after : Word xlen → Word xlen) : Prop where
  context : contextAt after (served.arrays.context index) = context
  others : ∀ other < 3 * served.arrays.total, other ≠ index →
    contextAt after (served.arrays.context other) =
      contextAt memory (served.arrays.context other)
  globals : ∀ name,
    after (served.firmware.names.address name) = memory (served.firmware.names.address name)

section SetUp

variable {served : Served xlen} {index : Nat} {context : CPU_Context xlen}
  {memory middle after : Word xlen → Word xlen}

theorem Wrote.setUp
    (wrote : Wrote (served.arrays.context index) context memory after)
    (inside : index < 3 * served.arrays.total) :
    SetUp served index context memory after where
  context := wrote.context
  others other otherInside apart := by
    apply contextAt_congr
    intro word within
    apply wrote.other
    intro own ownWithin same
    exact apart ((HartArrays.field_context_inj otherInside inside within ownWithin).mp
      same).1
  globals name := by
    apply wrote.other
    exact fun word within => served.outside name index inside word within

theorem Spares.trans_setUp
    (spares : Spares served memory middle)
    (setUp : SetUp served index context middle after) :
    SetUp served index context memory after where
  context := setUp.context
  others other inside apart :=
    (setUp.others other inside apart).trans (contextAt_congr (spares.contexts other inside))
  globals name := (setUp.globals name).trans (spares.globals name)

theorem SetUp.trans_spares
    (setUp : SetUp served index context memory middle)
    (spares : Spares served middle after)
    (inside : index < 3 * served.arrays.total) :
    SetUp served index context memory after where
  context := (contextAt_congr (spares.contexts index inside)).trans setUp.context
  others other otherInside apart :=
    (contextAt_congr (spares.contexts other otherInside)).trans
      (setUp.others other otherInside apart)
  globals name := (spares.globals name).trans (setUp.globals name)

theorem SetUp.setReg
    (setUp : SetUp served index context memory after)
    (inside : index < 3 * served.arrays.total)
    (reg : Reg)
    (value : Word xlen) :
    SetUp served index (context.setReg reg value) memory
      (setContextReg (served.arrays.context index) after reg value) := by
  have same : Wrote (served.arrays.context index) context after after :=
    ⟨setUp.context, fun _ _ => rfl⟩
  have written := (same.setReg reg value).setUp inside
  exact ⟨written.context,
    fun other otherInside apart =>
      (written.others other otherInside apart).trans (setUp.others other otherInside apart),
    fun name => (written.globals name).trans (setUp.globals name)⟩

/-- A loop over contexts. -/
theorem foldl_setUp
    {body : Nat → (Word xlen → Word xlen) → Word xlen → Word xlen}
    {contexts : Nat → CPU_Context xlen}
    (indices : List Nat)
    (setUp : ∀ index ∈ indices, ∀ memory,
      SetUp served index (contexts index) memory (body index memory))
    (memory : Word xlen → Word xlen) :
    let last := indices.foldl (fun memory index => body index memory) memory
    (∀ other < 3 * served.arrays.total,
      contextAt last (served.arrays.context other) =
        if other ∈ indices then contexts other
        else contextAt memory (served.arrays.context other)) ∧
    ∀ name, last (served.firmware.names.address name) =
      memory (served.firmware.names.address name) := by
  induction indices generalizing memory with
  | nil => simp
  | cons index indices inductionHypothesis =>
      have first := setUp index List.mem_cons_self memory
      obtain ⟨later, globals⟩ := inductionHypothesis
        (fun other member => setUp other (List.mem_cons_of_mem _ member)) (body index memory)
      constructor
      · intro other inside
        rw [List.foldl_cons, later other inside]
        by_cases again : other ∈ indices
        · rw [if_pos again, if_pos (List.mem_cons_of_mem _ again)]
        · rw [if_neg again]
          by_cases own : other = index
          · rw [own, if_pos List.mem_cons_self, first.context]
          · rw [if_neg (by simp [own, again]), first.others other inside own]
      · intro name
        rw [List.foldl_cons, globals, first.globals]

end SetUp

/-! ## `kinit` -/

/-- The context that `kinit` gives a hart. -/
def kinitContext (hart tp sp : Word xlen) : CPU_Context xlen where
  context_id := hart
  execution_mode := BitVec.ofNat xlen.bits EM_M
  reserved_0 := 0
  regs reg := if reg = .sp then sp else if reg = .tp then tp else 0

/-- What `kinit` gets from `kmalloc` and `kmalloc_stack`, and what these and the setup
of thread-local data do to memory. -/
structure Allocations (served : Served xlen) where
  tp : Nat → Word xlen
  sp : Nat → Word xlen
  contexts : (Word xlen → Word xlen) → Word xlen → Word xlen
  threadLocal : Nat → (Word xlen → Word xlen) → Word xlen → Word xlen
  stack : Nat → (Word xlen → Word xlen) → Word xlen → Word xlen
  contexts_spares : ∀ memory, Spares served memory (contexts memory)
  threadLocal_spares : ∀ hart memory, Spares served memory (threadLocal hart memory)
  stack_spares : ∀ hart memory, Spares served memory (stack hart memory)

section Kinit

variable (served : Served xlen) (allocations : Allocations served)

/-- The body of the loop of `kinit` over the contexts with the stacks of the harts. -/
def kinitHart (hart : Nat) (memory : Word xlen → Word xlen) : Word xlen → Word xlen :=
  let record := served.arrays.own hart
  let cleared := clear_hart_context record (allocations.threadLocal hart memory)
  let identified := Function.update cleared (field record 0) (BitVec.ofNat xlen.bits hart)
  let privileged := Function.update identified (field record 1) (BitVec.ofNat xlen.bits EM_M)
  let threaded := setContextReg record privileged .tp (allocations.tp hart)
  setContextReg record (allocations.stack hart threaded) .sp (allocations.sp hart)

/-- `kinit` from `hart_context_count` on, up to the write of `mscratch`. -/
def kinit (memory : Word xlen → Word xlen) : Word xlen → Word xlen :=
  let address := served.firmware.names.address
  let counted := Function.update memory (address .hart_context_count)
    (BitVec.ofNat xlen.bits (3 * served.arrays.total))
  let based := Function.update (allocations.contexts counted) (address .hart_contexts)
    served.arrays.base
  let split := Function.update based (address .hart_contexts_exception)
    (served.arrays.context served.arrays.total)
  let owned := (List.range served.arrays.total).foldl
    (fun memory hart => kinitHart served allocations hart memory) split
  (List.range' served.arrays.total (2 * served.arrays.total)).foldl
    (fun memory index => clear_hart_context (served.arrays.context index) memory) owned

variable {served}

theorem kinitHart_setUp
    {hart : Nat}
    (inside : hart < served.arrays.total)
    (memory : Word xlen → Word xlen) :
    SetUp served hart
      (kinitContext (BitVec.ofNat xlen.bits hart) (allocations.tp hart) (allocations.sp hart))
      memory (kinitHart served allocations hart memory) := by
  have within : hart < 3 * served.arrays.total := by omega
  have cleared := clear_hart_context_wrote (served.arrays.context hart)
    (allocations.threadLocal hart memory)
  have threaded := (((cleared.setId (BitVec.ofNat xlen.bits hart)).setMode
    (BitVec.ofNat xlen.bits EM_M)).setReg .tp (allocations.tp hart)).setUp within
  have stacked := (threaded.trans_spares (allocations.stack_spares hart _) within).setReg
    within .sp (allocations.sp hart)
  have whole := (allocations.threadLocal_spares hart memory).trans_setUp stacked
  refine ⟨whole.context.trans ?_, whole.others, whole.globals⟩
  rw [kinitContext, CPU_Context.setReg, CPU_Context.setReg, CPU_Context.mk.injEq]
  refine ⟨rfl, rfl, rfl, ?_⟩
  funext reg
  simp only [Function.update_apply, CPU_Context.cleared]

/-- The loops of `kinit` set up all contexts, and leave the variables. -/
theorem kinit_loops (memory : Word xlen → Word xlen) :
    (∀ hart < served.arrays.total,
      contextAt (kinit served allocations memory) (served.arrays.own hart) =
        kinitContext (BitVec.ofNat xlen.bits hart) (allocations.tp hart)
          (allocations.sp hart)) ∧
    (∀ index, served.arrays.total ≤ index → index < 3 * served.arrays.total →
      contextAt (kinit served allocations memory) (served.arrays.context index) =
        .cleared) ∧
    ∀ name,
      kinit served allocations memory (served.firmware.names.address name) =
        Function.update
          (Function.update
            (allocations.contexts (Function.update memory
              (served.firmware.names.address .hart_context_count)
              (BitVec.ofNat xlen.bits (3 * served.arrays.total))))
            (served.firmware.names.address .hart_contexts) served.arrays.base)
          (served.firmware.names.address .hart_contexts_exception)
          (served.arrays.context served.arrays.total)
          (served.firmware.names.address name) := by
  obtain ⟨own, ownGlobals⟩ := foldl_setUp (List.range served.arrays.total)
    (fun hart member => kinitHart_setUp allocations (List.mem_range.mp member))
    (Function.update
      (Function.update
        (allocations.contexts (Function.update memory
          (served.firmware.names.address .hart_context_count)
          (BitVec.ofNat xlen.bits (3 * served.arrays.total))))
        (served.firmware.names.address .hart_contexts) served.arrays.base)
      (served.firmware.names.address .hart_contexts_exception)
      (served.arrays.context served.arrays.total))
  obtain ⟨rest, restGlobals⟩ := foldl_setUp
    (List.range' served.arrays.total (2 * served.arrays.total))
    (fun index member memory =>
      (clear_hart_context_wrote (served.arrays.context index) memory).setUp
        (by have := List.mem_range'_1.mp member; omega))
    _
  refine ⟨?_, ?_, fun name => (restGlobals name).trans (ownGlobals name)⟩
  · intro hart inside
    have outside : hart ∉ List.range' served.arrays.total (2 * served.arrays.total) := by
      rw [List.mem_range'_1]
      omega
    have kept := rest hart (by omega)
    rw [if_neg outside, own hart (by omega), if_pos (List.mem_range.mpr inside)] at kept
    exact kept
  · intro index low high
    have cleared := rest index high
    rw [if_pos (List.mem_range'_1.mpr (by omega))] at cleared
    exact cleared

/-- `kinit` leaves the contexts and the variables as the trap code needs them. -/
theorem kinit_arranged
    (distinct : Function.Injective served.firmware.names.address)
    (memory : Word xlen → Word xlen) :
    served.Arranged (kinit served allocations memory) ∧
      (∀ hart < served.arrays.total,
        contextAt (kinit served allocations memory) (served.arrays.own hart) =
          kinitContext (BitVec.ofNat xlen.bits hart) (allocations.tp hart)
            (allocations.sp hart)) ∧
      ∀ index, served.arrays.total ≤ index → index < 3 * served.arrays.total →
        contextAt (kinit served allocations memory) (served.arrays.context index) =
          .cleared := by
  have spared := allocations.contexts_spares (Function.update memory
    (served.firmware.names.address .hart_context_count)
    (BitVec.ofNat xlen.bits (3 * served.arrays.total)))
  have apart {name other : TrapName} (differ : name ≠ other) :
      served.firmware.names.address name ≠ served.firmware.names.address other :=
    fun same => differ (distinct same)
  obtain ⟨owns, others, globals⟩ := kinit_loops allocations memory
  refine ⟨⟨?_, ?_, ?_, ?_⟩, owns, others⟩
  · rw [globals, Function.update_of_ne (apart (by decide)), Function.update_self]
  · rw [globals, Function.update_of_ne (apart (by decide)),
      Function.update_of_ne (apart (by decide)), spared.globals, Function.update_self]
  · rw [globals, Function.update_self]
  · intro hart inside
    exact congrArg CPU_Context.context_id (owns hart inside)

end Kinit

/-- Allocations that write to no memory of the trap code. -/
def boardAllocations (xlen : Xlen) : Allocations (boardServed xlen) where
  tp _ := BitVec.ofNat xlen.bits 0x20000
  sp _ := BitVec.ofNat xlen.bits 0x30000
  contexts memory := memory
  threadLocal _ memory := memory
  stack _ memory := memory
  contexts_spares _ := ⟨fun _ _ _ _ => rfl, fun _ => rfl⟩
  threadLocal_spares _ _ := ⟨fun _ _ _ _ => rfl, fun _ => rfl⟩
  stack_spares _ _ := ⟨fun _ _ _ _ => rfl, fun _ => rfl⟩

theorem boardServed_distinct (xlen : Xlen) :
    Function.Injective (boardServed xlen).firmware.names.address := by
  intro name other same
  have numbers := congrArg BitVec.toNat same
  have first := (@toNat_boardAddress xlen name).1
  have second := (@toNat_boardAddress xlen other).1
  have addresses : boardAddress name = boardAddress other :=
    first.symm.trans (numbers.trans second)
  cases name <;> cases other <;> first | rfl | exact absurd addresses (by decide)

/-- Memory of zeros, after `kinit` on the board with one hart. -/
theorem kinit_arranged_board :
    (boardServed .rv32).Arranged (kinit (boardServed .rv32) (boardAllocations .rv32) 0) ∧
      contextAt (kinit (boardServed .rv32) (boardAllocations .rv32) 0)
        ((boardServed .rv32).arrays.own 0) =
          @kinitContext .rv32 0 0x20000 0x30000 := by
  obtain ⟨arranged, own, -⟩ :=
    kinit_arranged (boardAllocations .rv32) (boardServed_distinct .rv32) 0
  exact ⟨arranged, own 0 Nat.one_pos⟩

end Traps
end EchelonSbi
