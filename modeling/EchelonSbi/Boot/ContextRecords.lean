import EchelonSbi.Harts.Kinit
import EchelonSbi.Harts.Phases
import EchelonSbi.Traps.ContextSetup

/-!
# Contexts as records and in memory

The code of the harts assigns the fields of records, the code of the traps the words of
memory.  Both are views of the same functions: the assignments are the same, the records
are what the words hold, and the handlers end in the same way.
-/

namespace EchelonSbi
namespace Boot

open Riscv
open Harts (ContextField ContextRecord KinitData Op clearWrites)
open Sbi (Hart_Command)
open Traps (HandlerCode InterruptEnd Served contextAt field interrupt_c_handler
  regField regNumber)

variable {xlen : Xlen}

/-! ## The records -/

/-- The place of a register in a record. -/
def registerEquiv : Reg ≃ Fin 32 where
  toFun reg := ⟨regNumber reg, Traps.regNumber_lt reg⟩
  invFun i := Reg.ofNat i
  left_inv reg := by cases reg <;> rfl
  right_inv := by decide

/-- The record with the words of a context. -/
def recordEquiv : Traps.CPU_Context xlen ≃ Harts.CPU_Context xlen where
  toFun context :=
    ⟨context.context_id, context.execution_mode, context.reserved_0,
      fun i => context.regs (registerEquiv.symm i)⟩
  invFun record :=
    ⟨record.context_id, record.execution_mode, record.reserved_0,
      fun reg => record.regs (registerEquiv reg)⟩
  left_inv context := by simp
  right_inv record := by simp

/-- The record of a context in memory. -/
def recordAt (memory : Word xlen → Word xlen) (record : Word xlen) :
    Harts.CPU_Context xlen :=
  recordEquiv (contextAt memory record)

/-- The word of a context that holds a field. -/
def fieldWord : ContextField → Nat
  | .context_id => 0
  | .execution_mode => 1
  | .reserved_0 => 2
  | .regs i => 3 + i

theorem fieldWord_lt (assigned : ContextField) : fieldWord assigned < 35 := by
  cases assigned with
  | regs i => exact Nat.add_lt_add_left i.isLt 3
  | _ => decide

theorem recordAt_eq
    (memory : Word xlen → Word xlen)
    (record : Word xlen) :
    recordAt memory record =
      ⟨memory (field record 0), memory (field record 1), memory (field record 2),
        fun i => memory (field record (3 + i))⟩ := by
  have register (i : Fin 32) : regNumber (registerEquiv.symm i) = i :=
    congrArg Fin.val (registerEquiv.apply_symm_apply i)
  simp only [recordAt, recordEquiv, contextAt, Equiv.coe_fn_mk, Traps.regField_eq_field,
    register]

/-- A write of a word is an assignment to the field. -/
theorem recordAt_update
    (memory : Word xlen → Word xlen)
    (record value : Word xlen)
    (assigned : ContextField) :
    recordAt (Function.update memory (field record (fieldWord assigned)) value) record =
      (recordAt memory record).set value assigned := by
  -- a word of the context afterwards
  have word (other : Nat) (inside : other < 35) :
      Function.update memory (field record (fieldWord assigned)) value
          (field record other) =
        if other = fieldWord assigned then value else memory (field record other) := by
    simp only [Function.update_apply, Traps.field_inj inside (fieldWord_lt assigned)]
  have registers (i : Fin 32) := word (3 + i) (Nat.add_lt_add_left i.isLt 3)
  rw [recordAt_eq, recordAt_eq, word 0 (by decide), word 1 (by decide), word 2 (by decide)]
  simp only [registers]
  -- the words of the head are apart from the registers
  have apart (other i : Nat) (head : other < 3) : other ≠ 3 + i ∧ 3 + i ≠ other := by
    omega
  cases assigned with
  | regs i =>
      simp only [fieldWord, Harts.CPU_Context.set, Nat.add_right_inj, Fin.ext_iff,
        (apart 0 i (by decide)).1, (apart 1 i (by decide)).1, (apart 2 i (by decide)).1,
        if_false]
  | context_id => simp [fieldWord, Harts.CPU_Context.set]
  | execution_mode =>
      simp [fieldWord, Harts.CPU_Context.set, fun i => (apart 1 i (by decide)).2]
  | reserved_0 =>
      simp [fieldWord, Harts.CPU_Context.set, fun i => (apart 2 i (by decide)).2]

/-! ## The same assignments -/

/-- Assign fields of a context in memory. -/
def assignWords
    (record : Word xlen) (writes : List (ContextField × Word xlen))
    (memory : Word xlen → Word xlen) : Word xlen → Word xlen :=
  writes.foldl
    (fun memory write => Function.update memory (field record (fieldWord write.1)) write.2)
    memory

theorem recordAt_assignWords
    (record : Word xlen)
    (writes : List (ContextField × Word xlen))
    (memory : Word xlen → Word xlen) :
    recordAt (assignWords record writes memory) record =
      (recordAt memory record).assign writes := by
  induction writes generalizing memory with
  | nil => rfl
  | cons write writes inductionHypothesis =>
      have rest := inductionHypothesis
        (Function.update memory (field record (fieldWord write.1)) write.2)
      rw [recordAt_update] at rest
      exact rest

/-- The assignments of a list of operations. -/
def contextWrites (ops : List (Op xlen)) : List (ContextField × Word xlen) :=
  ops.filterMap fun op =>
    match op with
    | .write_context _ assigned value => some (assigned, value)
    | _ => none

/-- `clear_hart_context` in memory. -/
theorem clear_hart_context_words
    (record : Word xlen)
    (memory : Word xlen → Word xlen) :
    Traps.clear_hart_context record memory = assignWords record clearWrites memory := by
  rw [Traps.clear_hart_context, assignWords, clearWrites, List.foldl_append,
    List.foldl_map, ← List.map_coe_finRange_eq_range, List.foldl_map]
  rfl

/-- `clear_hart_context` on a record. -/
theorem clear_hart_context_record (record : ContextRecord) :
    (Harts.clear_hart_context record : List (Op xlen)) =
      clearWrites.map fun write => .write_context record write.1 write.2 := by
  simp [Harts.clear_hart_context, clearWrites]

theorem contextWrites_append
    (before after : List (Op xlen)) :
    contextWrites (before ++ after) = contextWrites before ++ contextWrites after :=
  List.filterMap_append

theorem contextWrites_clear (record : ContextRecord) :
    contextWrites (Harts.clear_hart_context record : List (Op xlen)) = clearWrites := by
  rw [clear_hart_context_record, contextWrites, List.filterMap_map]
  exact List.filterMap_some

/-- The start branch makes the same assignments in memory and on a record. -/
theorem startContext_words
    (record : Word xlen)
    (memory : Word xlen → Word xlen)
    (mhartid : Nat)
    (command : Hart_Command xlen) :
    Traps.startContext record memory (BitVec.ofNat _ mhartid) command.param1
        command.param2 =
      assignWords record (contextWrites (Harts.startContext mhartid command)) memory := by
  have mode : (BitVec.ofNat xlen.bits Traps.EM_S) = Harts.EM_S := rfl
  rw [Harts.startContext, contextWrites_append, contextWrites_append, contextWrites_clear,
    Traps.startContext, clear_hart_context_words, assignWords, assignWords,
    List.foldl_append, List.foldl_append]
  simp only [Traps.setContextReg, Traps.regField_eq_field, mode]
  rfl

/-- The record of a context that `kinit` gives a hart. -/
theorem recordEquiv_kinitContext
    (config : Harts.Config)
    (hart : Nat) :
    recordEquiv (Traps.kinitContext (BitVec.ofNat _ hart) (config.hart_tp hart)
      (config.hart_sp hart)) = Harts.kinitContext config hart := by
  have places : ∀ i : Fin 32,
      (registerEquiv.symm i = .sp ↔ i = Harts.REG_SP) ∧
        (registerEquiv.symm i = .tp ↔ i = Harts.REG_TP) := by
    decide
  simp only [recordEquiv, Traps.kinitContext, Harts.kinitContext, Equiv.coe_fn_mk,
    Harts.CPU_Context.mk.injEq, (places _).1, (places _).2]
  refine ⟨trivial, rfl, rfl, ?_⟩
  funext i
  by_cases stack : i = Harts.REG_SP
  · rw [if_pos stack, if_neg (by rw [stack]; decide), if_pos stack]
  · rw [if_neg stack, if_neg stack]
    rfl

/-! ## `kinit` -/

/-- `clear_hart_context` leaves nothing of a record. -/
theorem assign_clearWrites (context : Harts.CPU_Context xlen) :
    context.assign clearWrites = recordEquiv .cleared := by
  rw [clearWrites, Harts.assign_append, Harts.assign_regs]
  simp [Harts.CPU_Context.assign, Harts.CPU_Context.set, recordEquiv,
    Traps.CPU_Context.cleared]

/-- The contexts behind those with the stacks are cleared. -/
theorem kinit_cleared
    {config : Harts.Config}
    {index : Nat}
    (above : config.TOTAL_HART_COUNT ≤ index)
    (inside : index < 3 * config.TOTAL_HART_COUNT)
    (data : KinitData config.xlen) :
    (data.after (Harts.kinit config)).hart_contexts index = recordEquiv .cleared := by
  let holds (data : KinitData config.xlen) : Prop :=
    data.hart_contexts index = recordEquiv .cleared
  have loop : List.range' config.TOTAL_HART_COUNT (2 * config.TOTAL_HART_COUNT) =
      (List.range (2 * config.TOTAL_HART_COUNT)).map (config.TOTAL_HART_COUNT + ·) :=
    List.range'_eq_map_range ..
  simp only [Harts.kinit, Harts.after_append, loop, List.flatMap_map]
  apply Harts.after_keeps holds
  · intro op member data before
    obtain ⟨i, -, rfl⟩ := List.mem_map.mp member
    exact before
  apply Harts.after_keeps holds
  · intro op member data before
    obtain ⟨i, -, rfl⟩ := List.mem_map.mp member
    exact before
  apply Harts.after_range holds (i := index - config.TOTAL_HART_COUNT) (by omega)
  · intro data
    show (data.after _).hart_contexts index = _
    rw [Harts.after_writeContext, Nat.add_sub_cancel' above]
    simp only [Function.update_self, assign_clearWrites]
  · intro j differ data before
    show (data.after _).hart_contexts index = _
    rw [Harts.after_writeContext]
    exact (Function.update_of_ne (by omega) ..).trans before

/-- `kinit` leaves the same contexts in memory and as records. -/
theorem kinit_records
    {config : Harts.Config}
    {served : Served config.xlen}
    (allocations : Traps.Allocations served)
    (total : served.arrays.total = config.TOTAL_HART_COUNT)
    (threads : ∀ hart < config.TOTAL_HART_COUNT, allocations.tp hart = config.hart_tp hart)
    (tops : ∀ hart < config.TOTAL_HART_COUNT, allocations.sp hart = config.hart_sp hart)
    (memory : Word config.xlen → Word config.xlen)
    (data : KinitData config.xlen)
    {index : Nat}
    (inside : index < 3 * config.TOTAL_HART_COUNT) :
    recordAt (Traps.kinit served allocations memory) (served.arrays.context index) =
      (data.after (Harts.kinit config)).hart_contexts index := by
  obtain ⟨own, others, -⟩ := Traps.kinit_loops allocations memory
  rcases Nat.lt_or_ge index config.TOTAL_HART_COUNT with first | above
  · have context := own index (by omega)
    rw [threads index first, tops index first] at context
    rw [Harts.kinit_contexts first, ← recordEquiv_kinitContext]
    exact congrArg recordEquiv context
  · rw [kinit_cleared above inside]
    exact congrArg recordEquiv (others index (by omega) (by omega))

/-! ## The ends of the handlers -/

/-- How the C handler of an interrupt ends with an operation. -/
def interruptEnd : Op xlen → Option InterruptEnd
  | .resume => some .returns
  | .switch_to_user_context => some .switch_context
  | .switch_to_context _ => some .switch_context
  | .halt_not_handled => some .idle_loop
  | _ => none

/-- The operations end the handler with the last one, in this way. -/
def EndsWith (ending : InterruptEnd) (ops : List (Op xlen)) : Prop :=
  ∃ body last, ops = body ++ [last] ∧ (∀ op ∈ body, interruptEnd op = none) ∧
    interruptEnd last = some ending

theorem EndsWith.append
    {ending : InterruptEnd}
    {before ops : List (Op xlen)}
    (endsWith : EndsWith ending ops)
    (goesOn : ∀ op ∈ before, interruptEnd op = none) :
    EndsWith ending (before ++ ops) := by
  obtain ⟨body, last, rfl, inside, ends⟩ := endsWith
  refine ⟨before ++ body, last, (List.append_assoc ..).symm, fun op member => ?_, ends⟩
  exact (List.mem_append.mp member).elim (goesOn op) (inside op)

/-- Operations that only the hart itself notices go on. -/
theorem interruptEnd_local
    {op : Op xlen}
    (unnoticed : op.Local) :
    interruptEnd op = none := by
  cases op <;> first | rfl | exact unnoticed.elim

theorem handleStart_ends
    (config : Harts.Config)
    (mhartid : Nat)
    (command : Hart_Command config.xlen) :
    EndsWith .switch_context (Harts.handleStart config mhartid command) := by
  have commit : EndsWith .switch_context
      (Harts.ksem_wait (.sbi_hsm_locks mhartid) ++
        [.store_hart_state mhartid .STARTED] ++
        Harts.ksem_post (.sbi_hsm_locks mhartid) ++
        [.clear_command, .clear_msip, .switch_to_user_context] : List (Op config.xlen)) :=
    ⟨Harts.ksem_wait (.sbi_hsm_locks mhartid) ++
        [.store_hart_state mhartid .STARTED] ++
        Harts.ksem_post (.sbi_hsm_locks mhartid) ++ [.clear_command, .clear_msip], _, rfl,
      by simp [Harts.ksem_wait, Harts.ksem_post, interruptEnd], rfl⟩
  have context := commit.append fun op member =>
    interruptEnd_local (Harts.startContext_local mhartid command op member)
  have fixes : EndsWith .switch_context
      ((if config.MM_QEMU_VIRT then Harts.qemuFixes config mhartid else []) ++ _) :=
    context.append fun op member => by
      split_ifs at member
      · exact interruptEnd_local (Harts.qemuFixes_local config mhartid op member)
      · cases member
  have text := fixes.append fun op member =>
    interruptEnd_local
      (Harts.printm_local ("\tStarting: " ++ toString mhartid ++ "\n") op member)
  simpa only [Harts.handleStart, List.append_assoc] using text

/-- A command ends the handler of the software interrupt as the C handler does. -/
theorem handleCommand_ends
    (config : Harts.Config)
    (mhartid : Nat)
    (command : Hart_Command config.xlen)
    {cause_value : Word config.xlen}
    (software : cause_value.toNat = 3) :
    EndsWith (interrupt_c_handler cause_value command.command)
      (Harts.handleCommand config mhartid command) := by
  simp only [interrupt_c_handler, software, Harts.handleCommand]
  by_cases context : command.command = Sbi.HARTCMD_SWITCHCONTEXT
  · simp only [if_pos context]
    exact ⟨[.clear_command, .clear_msip], _, rfl, by simp [interruptEnd], rfl⟩
  simp only [if_neg context]
  by_cases start : command.command = Sbi.HARTCMD_STARTHART
  · simp only [if_pos start]
    exact handleStart_ends config mhartid command
  simp only [if_neg start]
  by_cases fence_i : command.command = Sbi.HARTCMD_REMOTE_FENCE_I
  · simp only [if_pos fence_i]
    exact ⟨[.fence_i, .clear_command, .clear_msip], _, rfl, by simp [interruptEnd], rfl⟩
  simp only [if_neg fence_i]
  by_cases fence_vma : command.command = Sbi.HARTCMD_REMOTE_SFENCE_VMA
  · simp only [if_pos fence_vma]
    exact ⟨[.sfence_vma, .clear_command, .clear_msip], _, rfl, by simp [interruptEnd], rfl⟩
  simp only [if_neg fence_vma]
  by_cases fence_asid : command.command = Sbi.HARTCMD_REMOTE_SFENCE_VMA_ASID
  · simp only [if_pos fence_asid]
    exact ⟨[.sfence_vma, .clear_command, .clear_msip], _, rfl, by simp [interruptEnd], rfl⟩
  simp only [if_neg fence_asid]
  by_cases softint : command.command = Sbi.HARTCMD_SMODE_SOFTINT
  · simp only [if_pos softint]
    exact ⟨[.clear_command, .clear_msip, .csr_bitset .mip 0x2#_], _, rfl,
      by simp [interruptEnd], rfl⟩
  · simp only [if_neg softint]
    exact ⟨_, _, rfl, by
      simp [Harts.printm, Harts.ksem_wait, Harts.ksem_post, interruptEnd], rfl⟩

/-- The handler of the timer interrupt returns, as the C handler does. -/
theorem machineTimerInterrupt_ends
    (config : Harts.Config)
    (mhartid : Nat)
    (command : Word config.xlen)
    {cause_value : Word config.xlen}
    (timer : cause_value.toNat = 7) :
    EndsWith (interrupt_c_handler cause_value command)
      (Harts.machineTimerInterrupt config mhartid) := by
  simp only [interrupt_c_handler, timer, Harts.machineTimerInterrupt]
  refine ⟨_, _, rfl, ?_, rfl⟩
  split <;> simp [interruptEnd]

/-- The handler of exceptions halts with interrupts disabled on the causes on which a
hart gives up. -/
theorem givesUpOn_iff (cause_value mtval : Word xlen) :
    Harts.GivesUpOn cause_value.toNat ↔
      ∃ format arguments, Traps.HandlerCode.exception_c_handler cause_value mtval =
        .halting format arguments := by
  unfold Traps.HandlerCode.exception_c_handler
  constructor
  · intro givesUp
    split
    all_goals first
      | exact ⟨_, _, rfl⟩
      | exact absurd (by rename_i number; rw [number]; decide) givesUp
  · rintro ⟨format, arguments, halts⟩ listed
    split at halts
    case h_15 => simp_all
    all_goals first
      | (rename_i number
         rw [number] at listed
         revert listed
         decide)
      | simp [Traps.HandlerCode.halting, Traps.HandlerCode.illegal_instruction,
          Traps.HandlerCode.sbi_call] at halts

end Boot
end EchelonSbi
