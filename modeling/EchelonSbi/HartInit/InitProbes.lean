import EchelonSbi.HartInit.Handler

/-!
# The probe of `hart_init_handler`

The handler loads `tp` from the context of its hart, but never `sp`: whether the
probe keeps its contract depends on the stack pointer that the hart came with.
-/

namespace EchelonSbi
namespace HartInit

open Foundation
open Riscv
open ByteProgram
open Traps (CT_SIZE regOffset lowerRegs upperRegs LOAD_REGS)

section Back

/-! ## Behind the probe -/

variable {xlen : Xlen} {firmware : Firmware xlen} {contexts : Contexts xlen}
  {platform : Platform xlen.bits} {machine now call results : ByteMachine xlen.bits}

/-- A block behind the probe. -/
theorem back_lines
    {line : Nat}
    (block : List (ByteLine InitName))
    (holds : firmware.HoldsAt line block)
    (falls : block.all (·.instr.falls) = true)
    (allowed : firmware.Allowed platform Set.univ block now) :
    firmware.Reaches platform ∅ Set.univ ⟨firmware.place line, now⟩
      ⟨firmware.place (line + block.length), firmware.effects block now⟩ :=
  Reaches.lines _ holds falls (fun _ _ => Set.notMem_empty _) allowed

/-- Loads of registers from their places. -/
def loadAt (xlen : Xlen) (regs : List Reg) : List (Line InitName) :=
  regs.map fun reg => .plain (.load reg (regOffset xlen reg) .s0)

/-- The registers that are loaded before `s0`. -/
def loadedRegs : List Reg :=
  (lowerRegs ++ upperRegs).filter (· ≠ .s0)

theorem LOAD_REGS_eq (xlen : Xlen) :
    (LOAD_REGS xlen .s0 : List (Line InitName)) =
      loadAt xlen loadedRegs ++ loadAt xlen [.s0] :=
  rfl

/-- Loads of registers from the context in `s0`. -/
theorem loads_path
    {line : Nat}
    (regs : List Reg)
    (others : .s0 ∉ regs)
    (holds : firmware.HoldsAt line ((loadAt xlen regs).map Line.toBytes))
    (permitted : ∀ reg, platform.loads
      (now.get .s0 + BitVec.ofNat xlen.bits (regOffset xlen reg)) xlen.bytes = true) :
    ∃ after,
      firmware.Reaches platform ∅ Set.univ ⟨firmware.place line, now⟩
        ⟨firmware.place (line + regs.length), after⟩ ∧
      after.memory = now.memory ∧ after.get .s0 = now.get .s0 := by
  induction regs generalizing line now with
  | nil => exact ⟨now, .refl, rfl, rfl⟩
  | cons reg regs inductionHypothesis =>
      rw [List.mem_cons, not_or] at others
      have access := permitted reg
      rw [← bits_div] at access
      have step := @Step.of_line _ _ platform _ _ now _ _ ∅ Set.univ holds.getElem? _
        (Set.notMem_empty _) access (Set.subset_univ _) rfl
      rw [Line.instr_plain, ByteInstr.effect_load] at step
      generalize now.memory.load (now.get .s0 +
        BitVec.ofNat xlen.bits (regOffset xlen reg)) (xlen.bits / 8) = value at step
      have pointer : (now.setReg reg value).get .s0 = now.get .s0 := by
        rw [ByteMachine.get_setReg, if_neg fun both => others.1 both.1]
      rw [← pointer] at permitted
      obtain ⟨after, path, memory, kept⟩ :=
        inductionHypothesis others.2 holds.tail permitted
      rw [show line + (reg :: regs).length = line + 1 + regs.length by
        rw [List.length_cons]
        omega]
      exact ⟨after, path.head step, memory, kept.trans pointer⟩

/-- Behind the probe the answer is stored, and the hart returns from the trap. -/
theorem answer_path
    (arranged : Arranged platform firmware contexts machine)
    (called : Called firmware contexts machine call)
    {answer : Word xlen}
    (returned : Returned call results answer) :
    ∃ last,
      firmware.Reaches platform ∅ Set.univ ⟨firmware.place 76, results⟩
        ⟨firmware.place 113, last⟩ ∧
      last.memory.load (threadLocal firmware contexts .hart_has_menvcfg) xlen.bytes =
        answer := by
  obtain ⟨-, -, -, -, -, -, -, -, -, -, -, stores, branch, loads, fences⟩ :=
    holds_handler_blocks firmware
  obtain ⟨-, -, -, -, -, -, skips⟩ := resolve_handler firmware
  have tp : results.get .tp = contexts.thread :=
    (returned.kept .tp (by decide)).trans called.tp
  have s0 : results.get .s0 = machine.csrs .mscratch :=
    (returned.kept .s0 (by decide)).trans called.handling.s0
  have permitted := arranged.locals .hart_has_menvcfg (by decide)
  have path :
      firmware.Reaches platform ∅ Set.univ ⟨firmware.place 76, results⟩
        ⟨firmware.place 79, _⟩ :=
    back_lines _ stores rfl (by
      simp [storeAnswer, Allowed, plain, ByteInstr.access, Platform.permits, tp,
        threadLocal_eq, bits_div, permitted])
  have pointer : (firmware.effects storeAnswer results).get .s0 =
      machine.csrs .mscratch := by
    simp [storeAnswer, plain, s0]
  have word : (firmware.effects storeAnswer results).memory.load
      (threadLocal firmware contexts .hart_has_menvcfg) xlen.bytes = answer := by
    have same : 8 * xlen.bytes = xlen.bits := by
      cases xlen <;> rfl
    simp [storeAnswer, plain, tp, threadLocal_eq, bits_div, returned.answer,
      ByteMemory.load_store (bytes_le xlen) same]
  generalize firmware.effects storeAnswer results = written at path pointer word
  have leaves (last : ByteMachine xlen.bits) :
      firmware.Reaches platform ∅ Set.univ ⟨firmware.place 111, last⟩
        ⟨firmware.place 113, last⟩ := by
    have both : firmware.HoldsAt 111
        ([⟨[2], .priv .sfence_vma⟩, plain (.priv .fence_i)] ++
          [plain (.priv .mret), ⟨[3], .priv (.jump .idle_loop)⟩]) := fences
    exact back_lines _ both.left rfl (by
      simp [Allowed, plain, ByteInstr.access, Platform.permits])
  by_cases record : machine.csrs .mscratch = 0
  · have jumps : (Instr.beqz .s0 (.f 2)).jumps written.registers = some (.f 2) :=
      if_pos (pointer.trans record)
    have jumped :
        firmware.Step platform ∅ Set.univ ⟨firmware.place 79, written⟩
          ⟨firmware.place 111, written⟩ :=
      Step.of_line branch.getElem? (Set.notMem_empty _) rfl (Set.subset_univ _)
        (follow_of_jump jumps skips)
    exact ⟨written, (path.tail jumped).trans (leaves written), word⟩
  · have stays : (Instr.beqz .s0 (.f 2)).jumps written.registers = none :=
      if_neg fun zero => record (pointer.symm.trans zero)
    have fell :
        firmware.Step platform ∅ Set.univ ⟨firmware.place 79, written⟩
          ⟨firmware.place 80, written⟩ :=
      Step.of_line branch.getElem? (Set.notMem_empty _) rfl (Set.subset_univ _)
        (follow_of_stay stays (by decide))
    have access (reg : Reg) : platform.loads
        (written.get .s0 + BitVec.ofNat xlen.bits (regOffset xlen reg)) xlen.bytes =
          true := by
      rw [pointer]
      exact (arranged.record record reg).2
    rw [LOAD_REGS_eq, List.map_append] at loads
    obtain ⟨most, mostPath, mostMemory, kept⟩ :=
      loads_path loadedRegs (by decide) loads.left access
    have lastLoad : firmware.HoldsAt 110 ((loadAt xlen [.s0]).map Line.toBytes) :=
      loads.right
    rw [← kept] at access
    have ended :
        firmware.Reaches platform ∅ Set.univ ⟨firmware.place 110, most⟩
          ⟨firmware.place 111, _⟩ :=
      back_lines _ lastLoad rfl (by
        simp [loadAt, Allowed, Line.toBytes, Line.plain, ByteInstr.access,
          Platform.permits, bits_div, access])
    refine ⟨_, (((path.tail fell).trans mostPath).trans ended).trans (leaves _), ?_⟩
    exact (congrArg (ByteMemory.load · _ _) mostMemory).trans word

end Back

/-- The registers that the comment of the probe excludes. -/
def usedCsrs : List (BitVec 12) :=
  [CSR_MSTATUS, CSR_MTVEC, CSR_MTVAL, CSR_MEPC, CSR_MCAUSE]

/-- The handler calls the probe so that it keeps its contract for every argument,
and the hart has `menvcfg` if and only if `hart_has_menvcfg` says so. -/
structure InitProbes
    (platform : Platform xlen.bits) (firmware : Firmware xlen)
    (contexts : Contexts xlen) (stack : Set (Word xlen))
    (machine : ByteMachine xlen.bits) : Prop where
  probes : ∃ call,
    firmware.Reaches platform {firmware.place 115} Set.univ ⟨firmware.place 0, machine⟩
      ⟨firmware.place 115, call⟩ ∧
    ∀ argument : Word xlen, argument.setWidth 12 ∉ usedCsrs →
      Probes platform firmware stack (call.setReg .a0 argument)
  answer : ∃ last,
    firmware.Reaches platform ∅ Set.univ ⟨firmware.place 0, machine⟩
      ⟨firmware.place 113, last⟩ ∧
    last.memory.load (threadLocal firmware contexts .hart_has_menvcfg) xlen.bytes =
      if platform.implements CSR_MENVCFG then (1 : Word xlen) else 0

section Contract

variable {xlen : Xlen} {firmware : Firmware xlen} {contexts : Contexts xlen}
  {platform : Platform xlen.bits} {stack : Set (Word xlen)}
  {machine call : ByteMachine xlen.bits}

/-- The call of the handler, with any argument. -/
theorem Called.probeCall
    (arranged : Arranged platform firmware contexts machine)
    (called : Called firmware contexts machine call)
    (argument : Word xlen) :
    ProbeCall firmware (call.setReg .a0 argument) where
  back := by
    rw [ByteMachine.get_setReg, if_neg (by decide)]
    exact called.ra
  template := called.handling.template arranged.template

/-- The stack pointer of the call is that of the hart. -/
theorem Called.sp
    (called : Called firmware contexts machine call)
    (argument : Word xlen) :
    (call.setReg .a0 argument).get .sp = machine.get .sp := by
  rw [ByteMachine.get_setReg, if_neg (by decide)]
  exact called.handling.sp

/-- The handler's probe keeps its contract on a stack that is ready. -/
theorem initProbes_of_ready
    (coherent : platform.Coherent)
    (arranged : Arranged platform firmware contexts machine)
    (layout : StackLayout firmware stack)
    (ready : StackReady platform stack (machine.get .sp)) :
    InitProbes platform firmware contexts stack machine := by
  obtain ⟨call, path, called⟩ := call_path arranged
  have probes (argument : Word xlen) :
      Probes platform firmware stack (call.setReg .a0 argument) :=
    probes_of_ready coherent layout arranged.readsTemplate
      (called.probeCall arranged argument) (by rwa [called.sp])
  refine ⟨⟨call, path, fun argument _ => probes argument⟩, ?_⟩
  have own : call.setReg .a0 (call.get .a0) = call := by
    have registers : call.registers.set .a0 (call.registers.get .a0) = call.registers :=
      Function.update_eq_self ..
    rw [ByteMachine.setReg, ByteMachine.get, registers]
  have asked := probes (call.get .a0)
  rw [own] at asked
  obtain ⟨results, returns, returned⟩ := asked.returns
  have number : (call.get .a0).setWidth 12 = CSR_MENVCFG := by
    rw [called.a0]
    cases xlen <;> rfl
  rw [number] at returned
  obtain ⟨last, leaves, answer⟩ := answer_path arranged called returned
  refine ⟨last, (Reaches.mono (Set.empty_subset _) (Set.Subset.refl _) path).trans
    ((Reaches.mono (Set.empty_subset _) (Set.Subset.refl _) returns).trans leaves), ?_⟩
  exact answer

/-- The handler's probe keeps its contract only on a stack that is ready: the probe
for `mscratch`, which every hart has, needs it. -/
theorem ready_of_initProbes
    (coherent : platform.Coherent)
    (arranged : Arranged platform firmware contexts machine)
    (layout : StackLayout firmware stack)
    (scratch : platform.implements CSR_MSCRATCH = true)
    (probes : InitProbes platform firmware contexts stack machine) :
    StackReady platform stack (machine.get .sp) := by
  obtain ⟨call, path, called⟩ := call_path arranged
  obtain ⟨⟨other, otherPath, kept⟩, -⟩ := probes
  have same := path.same_end (Set.mem_singleton _) otherPath (Set.mem_singleton _)
  obtain rfl : other = call := congrArg ByteConfig.machine same
  have number : (BitVec.ofNat xlen.bits CSR_MSCRATCH.toNat).setWidth 12 =
      CSR_MSCRATCH := by
    cases xlen <;> rfl
  have asked := kept (BitVec.ofNat xlen.bits CSR_MSCRATCH.toNat)
    (by rw [number]; decide)
  have argument : (other.setReg .a0 (BitVec.ofNat xlen.bits CSR_MSCRATCH.toNat)).get
      .a0 = BitVec.ofNat xlen.bits CSR_MSCRATCH.toNat := by
    simp
  have ready := ready_of_probes coherent layout arranged.readsTemplate
    (called.probeCall arranged _) (by rw [argument, number, scratch]) asked
  rwa [called.sp] at ready

/-- On a hart that runs `hart_init_handler` and fetches what it stored, the probe
keeps its contract if and only if the stack pointer that the hart came with points
into its stack, where it can write and execute. -/
theorem hart_init_probe
    (platform : Platform xlen.bits)
    (firmware : Firmware xlen)
    (contexts : Contexts xlen)
    (stack : Set (Word xlen))
    (machine : ByteMachine xlen.bits)
    (coherent : platform.Coherent)
    (arranged : Arranged platform firmware contexts machine)
    (layout : StackLayout firmware stack)
    (scratch : platform.implements CSR_MSCRATCH = true) :
    InitProbes platform firmware contexts stack machine ↔
      StackReady platform stack (machine.get .sp) :=
  ⟨ready_of_initProbes coherent arranged layout scratch,
    initProbes_of_ready coherent arranged layout⟩

end Contract

section Board

/-! ## A board with two harts -/

/-- The lines are at the beginning of the memory. -/
def boardPlace (line : Nat) : BitVec 64 :=
  0x80000000 + BitVec.ofNat 64 (4 * line)

def boardLine (address : BitVec 64) : Option Nat :=
  let offset := (address - 0x80000000).toNat
  if offset % 4 = 0 ∧ offset / 4 < 146 then some (offset / 4) else none

theorem boardLine_boardPlace
    {line : Nat}
    (inside : line < 146) :
    boardLine (boardPlace line) = some line := by
  have offset : (boardPlace line - 0x80000000).toNat = 4 * line := by
    simp only [boardPlace]
    bv_omega
  simp only [boardLine, offset]
  rw [if_pos (by omega), Nat.mul_div_cancel_left _ (by decide)]

def boardAddress : InitName → BitVec 64
  | .global_pointer => 0x80001800
  | .hart_contexts => 0x80001000
  | .hart_context_count => 0x80001008
  | .hart_contexts_user => 0x80001010
  | .interrupt_entry_handler => 0x80000800
  | .probe_csr => boardPlace 115
  | .idle_loop => 0x80000700
  | .trap_handler => boardPlace 139
  | .return_pathway => boardPlace 140
  | .template => 0x80000400
  | .mhartid | .hart_has_menvcfg => 0

def boardFirmware : Firmware .rv64 where
  lines := hart_init_handler .rv64 ++ probe_csr
  names := ⟨boardAddress, fun _ => 0⟩
  tprel name := if name = .hart_has_menvcfg then 8 else 0
  tprel_lo name := if name = .hart_has_menvcfg then 8 else 0
  place := boardPlace
  lineAt := boardLine
  lineAt_place := boardLine_boardPlace
  lines_eq := rfl
  address_probe_csr := rfl
  address_trap_handler := rfl
  address_return_pathway := rfl
  place_even := by
    have even : ∀ line < 146, boardPlace line &&& ~~~1 = boardPlace line := by
      decide +kernel
    exact fun {line} inside => even line inside

/-- RAM allows everything, the CLINT loads and stores. -/
def boardRam (address : BitVec 64) (size : Nat) : Bool :=
  0x80000000 ≤ address.toNat && address.toNat + size ≤ 0x88000000

def boardClint (address : BitVec 64) (size : Nat) : Bool :=
  0x02000000 ≤ address.toNat && address.toNat + size ≤ 0x02010000

def boardPlatform : Platform 64 where
  loads address size := boardRam address size || boardClint address size
  stores address size := boardRam address size || boardClint address size
  executes address := boardRam address 4
  fetches memory address := memory.bytes address 4
  implements csr := csr ∈ CSR_MSCRATCH :: CSR_MENVCFG :: usedCsrs
  cause _ := 7
  tval _ := 0

theorem boardPlatform_coherent : boardPlatform.Coherent := fun _ _ => rfl

/-- The second hart. -/
def boardContexts : Contexts .rv64 where
  base := 0x80010000
  user := 0x80010460
  count := 6
  count_lt := by decide
  own := 1
  own_lt := by decide
  thread := 0x80030000

def boardMemory : ByteMemory 64 := fun address =>
  if (address - 0x80000400).toNat < 8 then
    template.getD (address - 0x80000400).toNat 0
  else
    let zeroes : ByteMemory 64 := fun _ => 0
    (((((zeroes.store 0x80001000 8 (0x80010000 : BitVec 64)).store 0x80001008 8
      (6 : BitVec 64)).store 0x80001010 8 (0x80010460 : BitVec 64)).store 0x80010118 8
        (1 : BitVec 64)).store 0x80010150 8 (0x80030000 : BitVec 64)) address

/-- The second hart when it takes its first interrupt. -/
def boardHart (sp : BitVec 64) : ByteMachine 64 where
  registers reg := if reg = .sp then sp else 0
  csrs csr := if csr = .mhartid then 1 else 0
  memory := boardMemory

/-- The stack of the second hart. -/
def boardStack : Set (BitVec 64) :=
  ByteMemory.span 0x80020000 0x1000

theorem boardStack_bounds
    {address : BitVec 64}
    (inside : address ∈ boardStack) :
    0x80020000 ≤ address.toNat ∧ address.toNat < 0x80021000 :=
  (ByteMemory.mem_span_toNat (by decide)).mp inside

theorem boardLine_boardStack
    {address : BitVec 64}
    (inside : address ∈ boardStack) :
    boardLine address = none := by
  have bounds := boardStack_bounds inside
  refine if_neg fun both => ?_
  bv_omega

theorem boardStack_even
    {address : BitVec 64}
    (inside : address ∈ boardStack) :
    address &&& ~~~1 ∈ boardStack := by
  by_cases even : address &&& ~~~1 = address
  · rwa [even]
  · have behind := clear_add_one even
    have above : address ≠ 0x80020000 := by
      rintro rfl
      exact even (by decide)
    have bounds := boardStack_bounds inside
    apply (ByteMemory.mem_span_toNat (by decide)).mpr
    generalize address &&& ~~~1 = lower at behind
    bv_omega

theorem boardStack_layout : @StackLayout .rv64 boardFirmware boardStack where
  code _ := boardLine_boardStack
  template := ByteMemory.span_disjoint (by decide) (by decide)
  even _ := boardStack_even

/-- What the handler reads is in the first 128 KiB of the memory. -/
theorem board_inputs
    {address : BitVec 64}
    (read : address ∈ @inputs .rv64 boardFirmware boardContexts) :
    0x80000000 ≤ address.toNat ∧ address.toNat < 0x80020000 := by
  -- a span that is there
  have low {base : BitVec 64} {size : Nat} (inside : address ∈ ByteMemory.span base size)
      (above : 0x80000000 ≤ base.toNat) (under : base.toNat + size ≤ 0x80020000) :
      0x80000000 ≤ address.toNat ∧ address.toNat < 0x80020000 := by
    have bounds := (ByteMemory.mem_span_toNat (by omega)).mp inside
    omega
  rcases read with ⟨name, member, inside⟩ | ⟨index, before, inside⟩ | inside
  · have all : ∀ name ∈ globals, 0x80000000 ≤ (boardAddress name).toNat ∧
        (boardAddress name).toNat + 8 ≤ 0x80020000 := by
      decide
    exact low inside (all name member).1 (all name member).2
  · have all : ∀ index ≤ 1, 0x80000000 ≤ (boardContexts.context index).toNat ∧
        (boardContexts.context index).toNat + CT_SIZE .rv64 ≤ 0x80020000 := by
      decide
    exact low inside (all index before).1 (all index before).2
  · exact low inside (by decide) (by decide)

/-- What the handler writes is elsewhere. -/
theorem board_outputs
    {sp address : BitVec 64}
    (written : address ∈
      @outputs .rv64 boardFirmware boardContexts (boardHart sp)) :
    address.toNat < 0x80000000 ∨ 0x80020000 ≤ address.toNat := by
  rcases written with ⟨record, -⟩ | inside | inside
  · exact absurd rfl record
  · have word : address ∈ ByteMemory.span (0x02000004 : BitVec 64) 4 := inside
    have bounds : 0x02000004 ≤ address.toNat ∧ address.toNat < 0x02000008 :=
      (ByteMemory.mem_span_toNat (by decide)).mp word
    omega
  · have bounds : 0x80030000 ≤ address.toNat ∧ address.toNat < 0x80030008 :=
      (ByteMemory.mem_span_toNat (by decide)).mp inside
    omega

theorem boardHart_arranged (sp : BitVec 64) :
    @Arranged .rv64 boardPlatform boardFirmware boardContexts (boardHart sp) where
  hart_contexts := by
    show boardMemory.load (0x80001000 : BitVec 64) 8 = (0x80010000 : BitVec 64)
    decide +kernel
  hart_context_count := by
    show boardMemory.load (0x80001008 : BitVec 64) 8 = (6 : BitVec 64)
    decide +kernel
  hart_contexts_user := by
    show boardMemory.load (0x80001010 : BitVec 64) 8 = (0x80010460 : BitVec 64)
    decide +kernel
  own := by
    show boardMemory.load (0x80010118 : BitVec 64) 8 = (1 : BitVec 64)
    decide +kernel
  earlier index before := by
    obtain rfl : index = 0 := by
      have : index < 1 := before
      omega
    show boardMemory.load (0x80010000 : BitVec 64) 8 ≠ (1 : BitVec 64)
    decide +kernel
  thread := by
    show boardMemory.load (0x80010150 : BitVec 64) 8 = (0x80030000 : BitVec 64)
    decide +kernel
  template := by
    have bytes : ∀ index (inside : index < template.length),
        boardMemory (0x80000400 + BitVec.ofNat 64 index) = template[index] := by
      decide +kernel
    exact bytes
  apart := by
    apply Set.disjoint_left.mpr
    intro address written read
    have low := board_inputs read
    have elsewhere := board_outputs written
    omega
  readsVariables := by decide +kernel
  readsNumbers := by decide +kernel
  readsThread := by decide +kernel
  readsTemplate := by
    unfold ReadsTemplate
    decide +kernel
  record nonzero := absurd rfl nonzero
  clint := by
    show boardPlatform.stores 0x02000004 4 = true
    decide +kernel
  locals := by decide +kernel

theorem boardStack_ready : StackReady boardPlatform boardStack 0x80021000 where
  inside := by
    intro address inside
    have bounds : 0x80020ff8 ≤ address.toNat ∧ address.toNat < 0x80021000 :=
      (ByteMemory.mem_span_toNat (by decide)).mp inside
    apply (ByteMemory.mem_span_toNat (by decide)).mpr
    bv_omega
  even := by decide
  stores := by decide +kernel
  executes := by decide +kernel
  executesNext := by decide +kernel

/-- With the stack pointer at the top of the stack, the probe keeps its contract. -/
theorem hart_init_probe_board :
    @InitProbes .rv64 boardPlatform boardFirmware boardContexts boardStack
      (boardHart 0x80021000) :=
  (hart_init_probe _ _ _ _ _ boardPlatform_coherent (boardHart_arranged 0x80021000)
    boardStack_layout (by decide)).mpr boardStack_ready

/-- With 0 in `sp`, where nothing has set it, the probe does not keep its contract. -/
theorem not_initProbes_board :
    boardPlatform.Coherent ∧
      @Arranged .rv64 boardPlatform boardFirmware boardContexts (boardHart 0) ∧
      @StackLayout .rv64 boardFirmware boardStack ∧
      boardPlatform.implements CSR_MSCRATCH = true ∧
      ¬@InitProbes .rv64 boardPlatform boardFirmware boardContexts boardStack
        (boardHart 0) := by
  refine ⟨boardPlatform_coherent, boardHart_arranged 0, boardStack_layout, by decide,
    fun probes => ?_⟩
  have ready := ready_of_initProbes boardPlatform_coherent (boardHart_arranged 0)
    boardStack_layout (by decide) probes
  have first : below (0 : BitVec 64) ∈ ByteMemory.span (below 0) 8 :=
    show (below 0 - below 0 : BitVec 64).toNat < 8 by decide
  have inside := boardStack_bounds (ready.inside first)
  revert inside
  decide

end Board

end HartInit
end EchelonSbi
