import EchelonSbi.Sbi.Platform
import EchelonSbi.Traps.Context

/-!
# The C handlers of traps

`exception_c_handler` as a tree: each node reads or writes the context of the trap,
or asks for something outside it, and goes on with the answer.
`interrupt_c_handler` by how it ends.
-/

namespace EchelonSbi
namespace Traps

open Riscv

/-- Write a register of a context. -/
def CPU_Context.setReg
    (context : CPU_Context xlen) (reg : Reg) (value : Word xlen) : CPU_Context xlen :=
  { context with regs := Function.update context.regs reg value }

/-- What a handler asks for outside the context. -/
inductive Question (xlen : Xlen) where
  /-- `CSR_READ(CSR_SATP)`. -/
  | CSR_SATP
  | mhartid
  | walk_pts (location csr_satp debug : Word xlen)
  /-- `*instruction`. -/
  | load (instruction : Word xlen)

/-- Code of a handler that has the context of the trap. -/
inductive HandlerCode (xlen : Xlen) where
  | ask (question : Question xlen) (rest : Word xlen → HandlerCode xlen)
  | printm (format : String) (arguments : List (Word xlen)) (rest : HandlerCode xlen)
  | print_reg_state (rest : HandlerCode xlen)
  /-- Read `cpu_context->execution_mode`. -/
  | execution_mode (rest : Word xlen → HandlerCode xlen)
  /-- Read `cpu_context->regs[reg]`. -/
  | get (reg : Reg) (rest : Word xlen → HandlerCode xlen)
  /-- Write `cpu_context->regs[reg]`. -/
  | set (reg : Reg) (value : Word xlen) (rest : HandlerCode xlen)
  /-- `CSR_BITCLR(CSR_MSTATUS, 0x8)`. -/
  | disable (rest : HandlerCode xlen)
  | call_to_sbi
      (EID FID : Word xlen) (params : List (Word xlen))
      (rest : Sbi.sbiret → HandlerCode xlen)
  /-- `s_delegation_trampoline(cpu_context, ..)`, which does not return. -/
  | s_delegation_trampoline (cause_value mtval : Word xlen)
  | idle_loop
  | return

namespace HandlerCode

/-- `REG_PC`. -/
def REG_PC : Reg := .zero

variable {xlen : Xlen}

/-- Interrupts are disabled, and the hart halts with a message. -/
def halting (format : String) (arguments : List (Word xlen)) : HandlerCode xlen :=
  .disable <| .printm format arguments <| .print_reg_state .idle_loop

/-- An illegal instruction.  What is decoded serves code that is switched off. -/
def illegal_instruction (cause_value mtval : Word xlen) : HandlerCode xlen :=
  let delegates (instruction : Word xlen) : HandlerCode xlen :=
    .ask (.load instruction) fun _ =>
      .execution_mode fun mode =>
        if mode = BitVec.ofNat xlen.bits EM_U then
          .s_delegation_trampoline cause_value mtval
        else
          .ask (.load instruction) fun word =>
            .printm "Illegal Instruction: 0x%08X\n" [word] <| .print_reg_state .idle_loop
  .ask .CSR_SATP fun csr_satp =>
    .get REG_PC fun instruction =>
      .execution_mode fun mode =>
        if mode ≠ BitVec.ofNat xlen.bits EM_M then
          .get REG_PC fun location =>
            .ask (.walk_pts location csr_satp 0) delegates
        else delegates instruction

/-- An environment call of S-mode. -/
def sbi_call : HandlerCode xlen :=
  .get REG_PC fun pc =>
    .set REG_PC (pc + 4) <|
      .get .a0 fun a0 => .get .a1 fun a1 => .get .a2 fun a2 => .get .a3 fun a3 =>
        .get .a4 fun a4 => .get .a5 fun a5 => .get .a7 fun EID => .get .a6 fun FID =>
          .call_to_sbi EID FID [a0, a1, a2, a3, a4, a5] fun sbi_return =>
            .set .a1 (BitVec.ofInt xlen.bits sbi_return.value) <|
              .set .a0 (BitVec.ofInt xlen.bits sbi_return.error) .return

def exception_c_handler (cause_value mtval : Word xlen) : HandlerCode xlen :=
  match cause_value.toNat with
  | 0 => .s_delegation_trampoline cause_value mtval
  | 1 => halting "Instruction Access Fault\n" []
  | 2 => illegal_instruction cause_value mtval
  | 3 => halting "Breakpoint Exception.  Trap Handler: M-Mode\n" []
  | 4 => .s_delegation_trampoline cause_value mtval
  | 5 => halting "Load Access Fault\n" []
  | 6 => .s_delegation_trampoline cause_value mtval
  | 7 => halting "Store/AMO Access Fault\n" []
  | 8 => .s_delegation_trampoline cause_value mtval
  | 9 => sbi_call
  | 11 =>
      .disable <| .ask .mhartid fun mhartid =>
        .printm
          "ESBI Trap Caught!  Machine-Mode Environment Exception.  Trap Handler: M-Mode. mhartid: %lu.  Halting.\n"
          [mhartid] <|
          .print_reg_state .idle_loop
  | 12 => .s_delegation_trampoline cause_value mtval
  | 13 => .s_delegation_trampoline cause_value mtval
  | 15 => .s_delegation_trampoline cause_value mtval
  | _ => halting "ESBI Exception!  Lower 31 mcause bits: %lu.  Halting.\n" [cause_value]

/-- The causes that are delegated in any mode. -/
def delegatedCauses : List Nat :=
  [0, 4, 6, 8, 12, 13, 15]

/-- How a handler ends. -/
inductive HandlerEnd (xlen : Xlen) where
  | delegates (cause_value mtval : Word xlen)
  | halts
  | returns
  /-- A call stops or suspends the hart, which goes on in another context. -/
  | switches

/-- The results with which a call of `call_to_sbi` may return; none if it stops or
suspends the hart. -/
abbrev SbiCalls (xlen : Xlen) :=
  Word xlen → Word xlen → List (Word xlen) → Sbi.sbiret → Prop

/-- The handler ends in this way, whatever it gets to know from outside the context.
The registers in the context are what it left there if they are `kept`. -/
def Ends
    (sbi : SbiCalls xlen) (kept : Prop) (post : HandlerEnd xlen → CPU_Context xlen → Prop) :
    CPU_Context xlen → HandlerCode xlen → Prop
  | context, .ask _ rest => ∀ answer, Ends sbi kept post context (rest answer)
  | context, .printm _ _ rest => Ends sbi kept post context rest
  | context, .print_reg_state rest => Ends sbi kept post context rest
  | context, .execution_mode rest =>
      Ends sbi kept post context (rest context.execution_mode)
  | context, .get reg rest =>
      ∀ value, (kept → value = context.regs reg) → Ends sbi kept post context (rest value)
  | context, .set reg value rest => Ends sbi kept post (context.setReg reg value) rest
  | context, .disable rest => Ends sbi kept post context rest
  | context, .call_to_sbi EID FID params rest =>
      (∀ result, sbi EID FID params result → Ends sbi kept post context (rest result)) ∧
        ((∀ result, ¬sbi EID FID params result) → post .switches context)
  | context, .s_delegation_trampoline cause_value mtval =>
      post (.delegates cause_value mtval) context
  | context, .idle_loop => post .halts context
  | context, .return => post .returns context

variable {sbi : SbiCalls xlen} {kept : Prop} {saved : CPU_Context xlen}
  {cause_value : Word xlen}

/-- The handler delegates only the trap that it was called for. -/
theorem exception_c_handler_own_cause
    (sbi : SbiCalls xlen)
    (kept : Prop)
    (saved : CPU_Context xlen)
    (cause_value mtval : Word xlen) :
    Ends sbi kept (fun ending _ => ∀ cause tval, ending = .delegates cause tval →
        cause = cause_value ∧ tval = mtval)
      saved (exception_c_handler cause_value mtval) := by
  unfold exception_c_handler
  split
  case h_3 =>
    intro csr_satp instruction _
    rw [Ends]
    by_cases user : saved.execution_mode = BitVec.ofNat xlen.bits EM_U
    all_goals
      split_ifs
      all_goals simp [Ends, user]
  all_goals simp [halting, sbi_call, Ends]

/-- Some causes are delegated at once. -/
theorem exception_c_handler_listed
    (listed : cause_value.toNat ∈ delegatedCauses)
    (mtval : Word xlen) :
    exception_c_handler cause_value mtval = .s_delegation_trampoline cause_value mtval := by
  simp only [delegatedCauses, List.mem_cons, List.not_mem_nil, or_false] at listed
  rcases listed with number | number | number | number | number | number | number
  all_goals simp only [exception_c_handler, number]

/-- The traps that the kernel of the hart is to handle are delegated. -/
theorem exception_c_handler_delegates
    (delegated : cause_value.toNat ∈ delegatedCauses ∨
      cause_value.toNat = 2 ∧ saved.execution_mode = BitVec.ofNat xlen.bits EM_U)
    (mtval : Word xlen) :
    Ends sbi kept (fun ending context =>
        ending = .delegates cause_value mtval ∧ context = saved)
      saved (exception_c_handler cause_value mtval) := by
  rcases delegated with listed | ⟨illegal, user⟩
  · rw [exception_c_handler_listed listed]
    exact ⟨rfl, rfl⟩
  · have differ : BitVec.ofNat xlen.bits EM_U ≠ BitVec.ofNat xlen.bits EM_M := by
      cases xlen <;> decide
    simp [exception_c_handler, illegal, illegal_instruction, Ends, user, differ]

/-- The context of a caller that gets the result of its call. -/
def answered (context : CPU_Context xlen) (result : Sbi.sbiret) : CPU_Context xlen :=
  ((context.setReg REG_PC (context.regs REG_PC + 4)).setReg .a1
    (BitVec.ofInt xlen.bits result.value)).setReg .a0 (BitVec.ofInt xlen.bits result.error)

theorem regs_answered
    (context : CPU_Context xlen)
    (result : Sbi.sbiret)
    (reg : Reg) :
    (answered context result).regs reg =
      if reg = .a0 then BitVec.ofInt xlen.bits result.error
      else if reg = .a1 then BitVec.ofInt xlen.bits result.value
      else if reg = REG_PC then context.regs REG_PC + 4
      else context.regs reg := by
  simp only [answered, CPU_Context.setReg, Function.update_apply]

/-- The arguments of an SBI call. -/
def sbiParams (context : CPU_Context xlen) : List (Word xlen) :=
  [Reg.a0, .a1, .a2, .a3, .a4, .a5].map context.regs

/-- An environment call of S-mode that returns is answered with the result of
`call_to_sbi`. -/
theorem exception_c_handler_calls
    (called : cause_value.toNat = 9)
    (faithful : kept)
    (returns : ∃ result, sbi (saved.regs .a7) (saved.regs .a6) (sbiParams saved) result)
    (mtval : Word xlen) :
    Ends sbi kept (fun ending context => ending = .returns ∧ ∃ result,
        sbi (saved.regs .a7) (saved.regs .a6) (sbiParams saved) result ∧
          context = answered saved result)
      saved (exception_c_handler cause_value mtval) := by
  simp only [exception_c_handler, called, sbi_call, Ends, faithful, forall_true_left,
    forall_eq]
  constructor
  · intro result returned
    exact ⟨trivial, result, returned, rfl⟩
  · intro never
    obtain ⟨result, returned⟩ := returns
    exact absurd returned (never result)

/-- All other traps halt the hart, and a call that does not return takes it away. -/
theorem exception_c_handler_ends
    (other : cause_value.toNat ∉ delegatedCauses)
    (supervisor : cause_value.toNat = 2 →
      saved.execution_mode ≠ BitVec.ofNat xlen.bits EM_U)
    (faithful : kept)
    (never : cause_value.toNat = 9 →
      ∀ result, ¬sbi (saved.regs .a7) (saved.regs .a6) (sbiParams saved) result)
    (mtval : Word xlen) :
    Ends sbi kept (fun ending _ => ending = .halts ∨ ending = .switches)
      saved (exception_c_handler cause_value mtval) := by
  unfold exception_c_handler
  split
  case h_3 illegal =>
    intro csr_satp instruction _
    rw [Ends]
    split_ifs
    all_goals simp [Ends, supervisor illegal]
  case h_10 called =>
    have calls := never called
    simp only [sbi_call, Ends, faithful, forall_true_left, forall_eq]
    exact ⟨fun result returned => absurd returned (calls result), fun _ => .inr trivial⟩
  all_goals first
    | exact absurd (by rename_i number; rw [number]; decide) other
    | simp [halting, Ends]

end HandlerCode

/-- How `interrupt_c_handler` ends. -/
inductive InterruptEnd where
  | returns
  | switch_context
  | idle_loop
  deriving DecidableEq, Repr

/-- `interrupt_c_handler` for a cause, with the command in the mailbox of the hart. -/
def interrupt_c_handler (cause_value command : Word xlen) : InterruptEnd :=
  match cause_value.toNat with
  | 3 =>
      if command = Sbi.HARTCMD_SWITCHCONTEXT then .switch_context
      else if command = Sbi.HARTCMD_STARTHART then .switch_context
      else if command = Sbi.HARTCMD_REMOTE_FENCE_I then .returns
      else if command = Sbi.HARTCMD_REMOTE_SFENCE_VMA then .returns
      else if command = Sbi.HARTCMD_REMOTE_SFENCE_VMA_ASID then .returns
      else if command = Sbi.HARTCMD_SMODE_SOFTINT then .returns
      else .idle_loop
  | 7 => .returns
  -- 1, 5, 9, 11 and all others
  | _ => .idle_loop

end Traps
end EchelonSbi
