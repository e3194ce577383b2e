import EchelonSbi.Traps.Interrupts

/-!
# The handler of an exception

From the trap to the return, the delegation or the halt.  The trap code is executed
line by line, the C code node by node, and at every instruction at which interrupts
are enabled any number of interrupts may be taken whose handlers return.
-/

namespace EchelonSbi
namespace Traps

open Riscv
open HandlerCode (exception_c_handler SbiCalls)

/-- What the hart executes in the handler of an exception. -/
inductive Stage (xlen : Xlen) where
  /-- `interrupt_entry_handler`, and `switch_context` behind it. -/
  | text
  /-- The rest of `exception_c_handler`, which was called in this state. -/
  | code (code : HandlerCode xlen) (call : Machine xlen.bits)
  | trampoline
  /-- The hart has returned from the trap. -/
  | left
  /-- The hart has halted, or switched to another context. -/
  | gone

/-- The trap code is executed. -/
def Stage.Text (stage : Stage xlen) : Prop :=
  stage = .text ∨ stage = .trampoline

/-- The handler is not done. -/
def Stage.Open : Stage xlen → Prop
  | .left => False
  | .gone => False
  | _ => True

/-- A hart in the handler of an exception, with the context of the trap as it was
saved and as the handler has changed it since. -/
structure Level (xlen : Xlen) where
  config : Config xlen.bits
  stage : Stage xlen
  context : CPU_Context xlen

section Step

variable {xlen : Xlen} (served : Served xlen) (sbi : SbiCalls xlen)

/-- One step of the handler of an exception. -/
inductive LevelStep : Level xlen → Level xlen → Prop where
  | line
      {config after : Config xlen.bits} {stage : Stage xlen} {context : CPU_Context xlen}
      (running : stage.Text)
      (inside : ¬served.firmware.Returning config.pc)
      (executes : served.firmware.next config = some after) :
      LevelStep ⟨config, stage, context⟩ ⟨after, stage, context⟩
  | leave
      {config : Config xlen.bits} {stage : Stage xlen} {context : CPU_Context xlen}
      (running : stage.Text)
      (returning : served.firmware.Returning config.pc) :
      LevelStep ⟨config, stage, context⟩ ⟨Program.mret config.machine, .left, context⟩
  | enter
      {config : Config xlen.bits} {context : CPU_Context xlen}
      (called : config.pc = served.firmware.names.address .exception_c_handler) :
      LevelStep ⟨config, .text, context⟩
        ⟨config, .code (exception_c_handler (config.machine.get .a1)
          (config.machine.get .a2)) config.machine, context⟩
  /-- Instructions of C code between the nodes. -/
  | work
      {config after : Config xlen.bits} {code : HandlerCode xlen}
      {call : Machine xlen.bits} {context : CPU_Context xlen}
      (frame : CFrame served config.machine after.machine) :
      LevelStep ⟨config, .code code call, context⟩ ⟨after, .code code call, context⟩
  | ask
      {config : Config xlen.bits} {question : Question xlen}
      {rest : Word xlen → HandlerCode xlen} {call : Machine xlen.bits}
      {context : CPU_Context xlen} (answer : Word xlen) :
      LevelStep ⟨config, .code (.ask question rest) call, context⟩
        ⟨config, .code (rest answer) call, context⟩
  | printm
      {config : Config xlen.bits} {format : String} {arguments : List (Word xlen)}
      {rest : HandlerCode xlen} {call : Machine xlen.bits} {context : CPU_Context xlen} :
      LevelStep ⟨config, .code (.printm format arguments rest) call, context⟩
        ⟨config, .code rest call, context⟩
  | print_reg_state
      {config : Config xlen.bits} {rest : HandlerCode xlen} {call : Machine xlen.bits}
      {context : CPU_Context xlen} :
      LevelStep ⟨config, .code (.print_reg_state rest) call, context⟩
        ⟨config, .code rest call, context⟩
  | execution_mode
      {config : Config xlen.bits} {rest : Word xlen → HandlerCode xlen}
      {call : Machine xlen.bits} {context : CPU_Context xlen} :
      LevelStep ⟨config, .code (.execution_mode rest) call, context⟩
        ⟨config, .code (rest (config.machine.memory (field (call.get .a0) 1))) call,
          context⟩
  | get
      {config : Config xlen.bits} {reg : Reg} {rest : Word xlen → HandlerCode xlen}
      {call : Machine xlen.bits} {context : CPU_Context xlen} :
      LevelStep ⟨config, .code (.get reg rest) call, context⟩
        ⟨config, .code (rest (config.machine.memory (regField (call.get .a0) reg))) call,
          context⟩
  | set
      {config : Config xlen.bits} {reg : Reg} {value : Word xlen}
      {rest : HandlerCode xlen} {call : Machine xlen.bits} {context : CPU_Context xlen} :
      LevelStep ⟨config, .code (.set reg value rest) call, context⟩
        ⟨⟨config.pc, config.machine.store (regField (call.get .a0) reg) value⟩,
          .code rest call, context.setReg reg value⟩
  | disable
      {config : Config xlen.bits} {rest : HandlerCode xlen} {call : Machine xlen.bits}
      {context : CPU_Context xlen} :
      LevelStep ⟨config, .code (.disable rest) call, context⟩
        ⟨⟨config.pc, disabled config.machine⟩, .code rest call, context⟩
  | call_to_sbi
      {config : Config xlen.bits} {EID FID : Word xlen} {params : List (Word xlen)}
      {rest : Sbi.sbiret → HandlerCode xlen} {call : Machine xlen.bits}
      {context : CPU_Context xlen} {result : Sbi.sbiret}
      (returns : sbi EID FID params result) :
      LevelStep ⟨config, .code (.call_to_sbi EID FID params rest) call, context⟩
        ⟨config, .code (rest result) call, context⟩
  /-- A call that does not return stops or suspends the hart. -/
  | switch
      {config : Config xlen.bits} {EID FID : Word xlen} {params : List (Word xlen)}
      {rest : Sbi.sbiret → HandlerCode xlen} {call : Machine xlen.bits}
      {context : CPU_Context xlen}
      (stays : ∀ result, ¬sbi EID FID params result) :
      LevelStep ⟨config, .code (.call_to_sbi EID FID params rest) call, context⟩
        ⟨config, .gone, context⟩
  | delegate
      {config after : Config xlen.bits} {cause_value mtval : Word xlen}
      {call : Machine xlen.bits} {context : CPU_Context xlen}
      (frame : CFrame served config.machine after.machine)
      (pc : after.pc = served.firmware.place Firmware.trampoline)
      (a0 : after.machine.get .a0 = call.get .a0)
      (a1 : after.machine.get .a1 = cause_value)
      (a2 : after.machine.get .a2 = mtval) :
      LevelStep ⟨config, .code (.s_delegation_trampoline cause_value mtval) call, context⟩
        ⟨after, .trampoline, context⟩
  | halt
      {config : Config xlen.bits} {call : Machine xlen.bits}
      {context : CPU_Context xlen} :
      LevelStep ⟨config, .code .idle_loop call, context⟩ ⟨config, .gone, context⟩
  | return
      {config after : Config xlen.bits} {call : Machine xlen.bits}
      {context : CPU_Context xlen}
      (frame : CFrame served config.machine after.machine)
      (pc : after.pc = call.get .ra)
      (s0 : after.machine.get .s0 = call.get .s0) :
      LevelStep ⟨config, .code .return call, context⟩ ⟨after, .text, context⟩
  | interrupt
      {config after : Config xlen.bits} {stage : Stage xlen} {context : CPU_Context xlen}
      {cause tval : Word xlen}
      (running : stage.Open)
      (taken : config.machine.Interruptible)
      (episode : Episode served cause tval config after) :
      LevelStep ⟨config, stage, context⟩ ⟨after, stage, context⟩

/-- Steps of the handler of an exception. -/
abbrev LevelReaches : Level xlen → Level xlen → Prop :=
  Relation.ReflTransGen (LevelStep served sbi)

end Step

/-- The word of a context at offset 8, which the trap code compares with `EM_M`. -/
def CPU_Context.offset_8 (context : CPU_Context xlen) : Word xlen :=
  match xlen with
  | .rv32 => context.reserved_0
  | .rv64 => context.execution_mode

section Start

variable {xlen : Xlen} (served : Served xlen) (index : Nat) (before : Config xlen.bits)

/-- The context that a trap saves. -/
def trapContext : CPU_Context xlen where
  context_id := before.machine.memory (field (served.arrays.context index) 0)
  execution_mode := BitVec.ofNat xlen.bits before.machine.mode.bits
  reserved_0 := before.machine.memory (field (served.arrays.context index) 2)
  regs reg := if reg = .zero then before.pc else before.machine.get reg

/-- The hart takes an exception. -/
def Level.start (cause tval : Word xlen) : Level xlen :=
  ⟨before.machine.trap before.pc cause tval, .text, trapContext served index before⟩

/-- Interrupts that are taken in the handler save to another context than the
exception, or are not enabled. -/
def Separate : Prop :=
  served.arrays.context index ≠ served.exception ∨
    (trapContext served index before).offset_8 = 3

end Start

end Traps
end EchelonSbi
