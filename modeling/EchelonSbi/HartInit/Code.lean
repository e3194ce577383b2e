import EchelonSbi.Riscv.ByteCode
import EchelonSbi.Traps.Context

/-!
# The first interrupt of a hart

`hart_init_handler` and `probe_csr`, line by line.  The handler finds the context
of the hart, acknowledges the interrupt, sets `mscratch`, `tp` and `mtvec`, and
probes for `menvcfg`.  The probe assembles two instructions below the stack
pointer and jumps to them.
-/

namespace EchelonSbi
namespace HartInit

open Foundation
open Riscv
open Traps (CT_SIZE regOffset SAVE_REGS LOAD_REGS)

def CLINT_BASE : Nat := 0x02000000
def CSR_MSTATUS : BitVec 12 := 0x300
def CSR_MTVEC : BitVec 12 := 0x305
def CSR_MENVCFG : BitVec 12 := 0x30A
def CSR_MSCRATCH : BitVec 12 := 0x340
def CSR_MEPC : BitVec 12 := 0x341
def CSR_MCAUSE : BitVec 12 := 0x342
def CSR_MTVAL : BitVec 12 := 0x343

/-- What the code refers to by name, and by local label across `auipc`. -/
inductive InitName where
  | global_pointer
  | hart_contexts
  | hart_context_count
  | hart_contexts_user
  | mhartid
  | hart_has_menvcfg
  | interrupt_entry_handler
  | probe_csr
  | idle_loop
  /-- `3:` of `probe_csr`, the temporary trap handler. -/
  | trap_handler
  /-- `2:` of `probe_csr`, the return pathway. -/
  | return_pathway
  /-- `4:` of `probe_csr`, the template instructions. -/
  | template
  deriving DecidableEq, Repr

open ByteInstr Instr
open PrivInstr (auipc addi_lo load load_lo store csrr csrw csrrw)

/-- A line without a label. -/
def plain (instr : ByteInstr InitName) : ByteLine InitName :=
  ⟨[], instr⟩

section Handler

variable (xlen : Xlen)

/-- `s0` takes the place of `mscratch`. -/
def swapScratch : List (Line InitName) :=
  [.plain .sfence_vma,
    .plain .fence_i,
    .plain (csrrw .s0 .mscratch .s0)]

/-- The search for the hart starts at the first context. -/
def startSearch : List (Line InitName) :=
  [⟨[2, 1], auipc .gp .global_pointer⟩,
    .plain (addi_lo .gp .gp .global_pointer),
    .plain (csrr .a0 .mhartid),
    .labelled 1 (auipc .a1 .hart_contexts),
    .plain (load_lo .a1 .hart_contexts .a1),
    .labelled 1 (auipc .a2 .hart_context_count),
    .plain (load_lo .a2 .hart_context_count .a2),
    .plain (.int (li .a3 0)),
    .plain (.int (li .a5 0))]

/-- The search for the context of the hart. -/
def searchContext : List (Line InitName) :=
  [.labelled 2 (.int (bgeu .a3 .a2 (.f 3))),
    .plain (load .a4 0 .a1),
    .plain (.int (beq .a0 .a4 (.f 2))),
    .plain (.int (addi .a1 .a1 (CT_SIZE xlen))),
    .plain (.int (addi .a5 .a5 (CT_SIZE xlen))),
    .plain (.int (addi .a3 .a3 1)),
    .plain (.int (j (.b 2)))]

/-- The offset of the hart in the registers of the CLINT. -/
def findRegister : List (Line InitName) :=
  [.labelled 2 (.int (li .a3 0)),
    .plain (.int (li .a4 0)),
    .labelled 2 (.int (beq .a0 .a3 (.f 2))),
    .plain (.int (addi .a3 .a3 1)),
    .plain (.int (addi .a4 .a4 4)),
    .plain (.int (j (.b 2)))]

/-- The software interrupt is acknowledged. -/
def acknowledge : List (ByteLine InitName) :=
  [⟨[2], priv (.int (li .a3 CLINT_BASE))⟩,
    plain (priv (.int (add .a3 .a3 .a4))),
    plain (storeBytes 4 .zero 0 .a3)]

/-- `mscratch` and `tp` of the hart. -/
def loadContext : List (Line InitName) :=
  [.labelled 1 (auipc .a3 .hart_contexts_user),
    .plain (load_lo .a3 .hart_contexts_user .a3),
    .plain (.int (add .a3 .a3 .a5)),
    .plain (csrw .mscratch .a3),
    .plain (load .tp (regOffset xlen .tp) .a1)]

/-- A context that was saved gets `tp`, too. -/
def saveThread : List (Line InitName) :=
  [.plain (.int (beqz .s0 (.f 2))),
    .plain (store .tp (regOffset xlen .tp) .s0)]

/-- The number of the hart, and its trap vector. -/
def setHart : List (ByteLine InitName) :=
  [⟨[2], lui_tprel .a2 .mhartid⟩,
    plain (priv (.int (add .a2 .a2 .tp))),
    plain (store_tprel .a0 .mhartid .a2),
    ⟨[1], priv (auipc .a0 .interrupt_entry_handler)⟩,
    plain (priv (addi_lo .a0 .a0 .interrupt_entry_handler)),
    plain (priv (csrw .mtvec .a0)),
    plain (priv (.int (li .a0 CSR_MENVCFG.toNat)))]

/-- The answer of the probe is stored. -/
def storeAnswer : List (ByteLine InitName) :=
  [plain (lui_tprel .a1 .hart_has_menvcfg),
    plain (priv (.int (add .a1 .a1 .tp))),
    plain (store_tprel .a0 .hart_has_menvcfg .a1)]

def hart_init_handler : List (ByteLine InitName) :=
  swapScratch.map Line.toBytes ++
    [plain (priv (.int (beqz .s0 (.f 2))))] ++
    (SAVE_REGS xlen .s0).map Line.toBytes ++
    startSearch.map Line.toBytes ++
    (searchContext xlen).map Line.toBytes ++
    findRegister.map Line.toBytes ++
    acknowledge ++
    (loadContext xlen).map Line.toBytes ++
    (saveThread xlen).map Line.toBytes ++
    setHart ++
    [plain (priv (.call .probe_csr))] ++
    storeAnswer ++
    [plain (priv (.int (beqz .s0 (.f 2))))] ++
    (LOAD_REGS xlen .s0).map Line.toBytes ++
    [⟨[2], priv .sfence_vma⟩, plain (priv .fence_i), plain (priv .mret),
      ⟨[3], priv (.jump .idle_loop)⟩]

end Handler

section Probe

/-- The addresses that the probe uses, and the saved registers. -/
def saveCsrs : List (ByteLine InitName) :=
  [⟨[1], priv (auipc .t1 .trap_handler)⟩,
    plain (priv (addi_lo .t1 .t1 .trap_handler)),
    ⟨[1], priv (auipc .a4 .return_pathway)⟩,
    plain (priv (addi_lo .a4 .a4 .return_pathway)),
    ⟨[1], priv (auipc .a1 .template)⟩,
    plain (priv (addi_lo .a1 .a1 .template)),
    plain (csrrci .t0 .mstatus 0x8),
    plain (priv (csrrw .t1 .mtvec .t1)),
    plain (priv (csrr .t2 .mtval)),
    plain (priv (csrr .t3 .mepc)),
    plain (priv (csrr .t4 .mcause))]

/-- The constant parts of the instructions. -/
def copyTemplate : List (ByteLine InitName) :=
  [plain (loadBytes 2 .a2 0x0 .a1),
    plain (loadBytes 4 .a3 0x4 .a1),
    plain (storeBytes 2 .a2 (-0x8) .sp),
    plain (storeBytes 4 .a3 (-0x4) .sp)]

/-- The number of the register in the instructions. -/
def patchNumber : List (ByteLine InitName) :=
  [plain (loadBytes 1 .a2 0x2 .a1),
    plain (priv (.int (slli .a3 .a0 4))),
    plain (priv (.int (andi .a2 .a2 0x0F))),
    plain (priv (.int (srli .a0 .a0 4))),
    plain (priv (.int (.or .a2 .a2 .a3))),
    plain (storeBytes 1 .a0 (-0x5) .sp),
    plain (storeBytes 1 .a2 (-0x6) .sp)]

/-- The access to the register. -/
def attempt : List (ByteLine InitName) :=
  [plain (priv (.int (li .a0 1))),
    plain (jalr (-0x8) .sp)]

/-- The temporary trap handler and the return pathway. -/
def restoreCsrs : List (ByteLine InitName) :=
  [⟨[3], priv (.int (li .a0 0))⟩,
    ⟨[2], priv (csrw .mcause .t4)⟩,
    plain (priv (csrw .mepc .t3)),
    plain (priv (csrw .mtval .t2)),
    plain (priv (csrw .mtvec .t1)),
    plain (priv (csrw .mstatus .t0)),
    plain (priv (.int .ret))]

def probe_csr : List (ByteLine InitName) :=
  saveCsrs ++ copyTemplate ++ patchNumber ++ attempt ++ restoreCsrs

/-- The template: `csrrc zero, 0x000, zero` and `jalr zero, 0x000(a4)`. -/
def template : List (BitVec 8) :=
  [0x73, 0x30, 0x00, 0x00, 0x67, 0x00, 0x07, 0x00]

/-- The template in memory is made of the two instructions. -/
example :
    (template.take 4).reverse = [0x00, 0x00, 0x30, 0x73] ∧
      (Fetched.csrrc 0).encode = 0x00003073 ∧
      (Fetched.jalr 0 14).encode = 0x00070067 := by
  decide

end Probe

/-- The code at the addresses that the linker gave it. -/
structure Firmware (xlen : Xlen) extends ByteProgram InitName xlen.bits where
  lines_eq : lines = hart_init_handler xlen ++ probe_csr
  address_probe_csr : names.address .probe_csr = place 115
  address_trap_handler : names.address .trap_handler = place 139
  address_return_pathway : names.address .return_pathway = place 140
  place_even : ∀ {line}, line < lines.length → place line &&& ~~~1 = place line

end HartInit
end EchelonSbi
