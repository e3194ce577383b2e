import EchelonSbi.Traps.Context

/-!
# The trap code

`interrupt_entry_handler`, `switch_context` and `s_delegation_trampoline` follow
each other in the source, and the first falls through to the second.  The jump
to `idle_loop` in front of them is the last line of `hart_init_handler`; the
search for the hart branches back to it.
-/

namespace EchelonSbi
namespace Traps

open Riscv

/-- What the trap code refers to outside itself. -/
inductive TrapName where
  | global_pointer
  | hart_contexts
  | hart_context_count
  | hart_contexts_exception
  | exception_c_handler
  | interrupt_c_handler
  | idle_loop
  deriving DecidableEq, Repr

open Line (plain labelled)

section Listing

variable (xlen : Xlen)

/-- The program counter and the mode go to the context. -/
def saveState : List (Line TrapName) :=
  [plain (.int (.mv .a0 .s0)),
    plain (.csrr .a1 .mepc),
    plain (.store .a1 (regOffset xlen .zero) .a0),
    plain (.csrr .a1 .mstatus),
    plain (.int (.srli .a1 .a1 11)),
    plain (.int (.andi .a1 .a1 0x3)),
    plain (.store .a1 (xlen.bytes * 1) .a0)]

/-- The cause, without the bit of an interrupt, which goes to `ra`. -/
def loadCause : List (Line TrapName) :=
  [labelled 1 (.auipc .gp .global_pointer),
    plain (.addi_lo .gp .gp .global_pointer),
    plain (.csrr .a1 .mcause),
    plain (.slti .ra .a1 0),
    plain (.int (.not .sp .zero)),
    plain (.int (.srli .sp .sp 1)),
    plain (.int (.and .a1 .a1 .sp))]

/-- The search for the hart starts at the first context. -/
def startSearch : List (Line TrapName) :=
  [plain (.csrr .t0 .mhartid),
    labelled 1 (.auipc .t1 .hart_contexts),
    plain (.load_lo .t1 .hart_contexts .t1),
    labelled 1 (.auipc .t2 .hart_context_count),
    plain (.load_lo .t2 .hart_context_count .t2),
    plain (.int (.li .a3 0)),
    plain (.int (.li .a5 0))]

/-- The search for the context of the hart. -/
def searchContext : List (Line TrapName) :=
  [labelled 2 (.int (.beq .t2 .a3 (.b 3))),
    plain (.load .a4 0 .t1),
    plain (.int (.beq .t0 .a4 (.f 2))),
    plain (.int (.addi .t1 .t1 (CT_SIZE xlen))),
    plain (.int (.addi .a5 .a5 (CT_SIZE xlen))),
    plain (.int (.addi .a3 .a3 1)),
    plain (.int (.j (.b 2)))]

/-- The stack and the thread pointer of the hart. -/
def loadStack : List (Line TrapName) :=
  [labelled 2 (.load .sp (regOffset xlen .sp) .t1),
    plain (.load .tp (regOffset xlen .tp) .t1),
    plain (.csrr .a2 .mtval)]

/-- An exception gets a stack below the one of interrupts, and interrupts another
context. -/
def exceptionContext : List (Line TrapName) :=
  [plain (.int (.addi .sp .sp (-0x800))),
    labelled 1 (.auipc .a3 .hart_contexts_exception),
    plain (.load_lo .a3 .hart_contexts_exception .a3),
    plain (.int (.add .a3 .a3 .a5)),
    plain (.csrw .mscratch .a3),
    plain (.load .a3 0x08 .a0),
    plain (.int (.li .a4 3))]

/-- The calls of the C code. -/
def callHandlers : List (Line TrapName) :=
  [plain (.int (.beq .a3 .a4 (.f 4))),
    plain (.csrsi .mstatus 0x8),
    labelled 4 (.call .exception_c_handler),
    plain (.int (.j (.f 3))),
    labelled 2 (.call .interrupt_c_handler),
    labelled 3 (.int (.mv .a0 .s0))]

def interrupt_entry_handler : List (Line TrapName) :=
  saveContext TrapName xlen ++ saveState xlen ++ loadCause ++ startSearch ++
    searchContext xlen ++ loadStack xlen ++ [plain (.int (.bne .ra .zero (.f 2)))] ++
    exceptionContext ++ callHandlers

/-- The return to the context in `a0`, up to its registers. -/
def resumeTrap : List (Line TrapName) :=
  [plain (.load .a4 (xlen.bytes * 1) .a0),
    plain (.load .a1 (regOffset xlen .zero) .a0),
    plain (.int (.andi .a4 .a4 0x3)),
    plain (.int (.slli .a4 .a4 11)),
    plain (.csrr .a2 .mstatus),
    plain (.int (.li .a3 0x3)),
    plain (.int (.slli .a3 .a3 11)),
    plain (.int (.not .a3 .a3)),
    plain (.int (.and .a2 .a2 .a3)),
    plain (.ori .a2 .a2 0x80),
    plain (.int (.or .a2 .a2 .a4)),
    plain (.csrw .mscratch .a0),
    plain (.csrw .mepc .a1)]

/-- The registers of a context, and the return. -/
def leaveTrap : List (Line TrapName) :=
  LOAD_REGS xlen .a0 ++ [plain .sfence_vma, plain .fence_i]

def switch_context : List (Line TrapName) :=
  [plain (.csrci .mstatus 0x8)] ++ resumeTrap xlen ++
    [plain (.csrw .mstatus .a2)] ++ leaveTrap xlen ++
    [plain .mret, plain (.jump .idle_loop)]

/-- What S-mode gets to know about the trap. -/
def delegateCause : List (Line TrapName) :=
  [plain (.csrw .mscratch .a0),
    plain (.csrw .scause .a1),
    plain (.csrw .stval .a2),
    plain (.load .t0 (regOffset xlen .zero) .a0),
    plain (.csrw .sepc .t0),
    plain (.csrr .t0 .stvec),
    plain (.int (.li .ra 1)),
    plain (.int (.andi .sp .t0 0x3))]

/-- The handler of S-mode, and its `mstatus`. -/
def delegateStatus : List (Line TrapName) :=
  [labelled 1 (.int (.andi .t0 .t0 (-4))),
    plain (.csrw .mepc .t0),
    plain (.csrr .t0 .mstatus),
    plain (.int (.andi .t0 .t0 0x2)),
    plain (.ori .t0 .t0 0x80),
    plain (.int (.slli .t0 .t0 4)),
    plain (.load .t1 (xlen.bytes * 1) .a0),
    plain (.int (.andi .t1 .t1 0x1)),
    plain (.int (.slli .t1 .t1 8)),
    plain (.int (.or .t0 .t0 .t1)),
    plain (.int (.addi .t1 .zero 0x19)),
    plain (.int (.slli .t1 .t1 8)),
    plain (.ori .t1 .t1 0x22)]

def s_delegation_trampoline : List (Line TrapName) :=
  [plain (.csrci .mstatus 0x8)] ++ delegateCause xlen ++
    [plain (.int (.bne .ra .sp (.f 1))),
      plain (.bge .a1 .zero (.f 1)),
      plain (.int (.slli .t1 .a1 2)),
      plain (.int (.add .t0 .t0 .t1))] ++
    delegateStatus xlen ++
    [plain (.csrc .mstatus .t1), plain (.csrs .mstatus .t0)] ++
    leaveTrap xlen ++ [plain .mret, plain (.jump .idle_loop)]

/-- The trap code, behind the line of `hart_init_handler` that halts. -/
def trapText : List (Line TrapName) :=
  [labelled 3 (.jump .idle_loop)] ++ interrupt_entry_handler xlen ++
    switch_context xlen ++ s_delegation_trampoline xlen

end Listing

/-- The trap code at the addresses that the linker gave it. -/
structure Firmware (xlen : Xlen) extends Program TrapName xlen.bits where
  lines_eq : lines = trapText xlen
  outside : ∀ name, lineAt (names.address name) = none

namespace Firmware

variable {xlen : Xlen} (firmware : Firmware xlen)

/-- The first line of `interrupt_entry_handler`. -/
def entry : Nat := 1

/-- The first line of `switch_context`. -/
def switch : Nat := 81

/-- The first line of `s_delegation_trampoline`. -/
def trampoline : Nat := 131

theorem holds_entry :
    firmware.HoldsAt entry
      (interrupt_entry_handler xlen ++ switch_context xlen ++
        s_delegation_trampoline xlen) :=
  ⟨[], by rw [firmware.lines_eq, List.append_nil]; rfl⟩

theorem holds_switch :
    firmware.HoldsAt switch (switch_context xlen ++ s_delegation_trampoline xlen) := by
  have holds := firmware.holds_entry
  rw [List.append_assoc] at holds
  exact holds.right

theorem holds_trampoline :
    firmware.HoldsAt trampoline (s_delegation_trampoline xlen) :=
  firmware.holds_switch.right

end Firmware

end Traps
end EchelonSbi
