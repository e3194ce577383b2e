import EchelonSbi.Traps.Handlers
import EchelonSbi.Traps.Leaving

/-!
# Machine interrupts that return

An interrupt that is taken at some instruction, in any mode, goes through
`interrupt_entry_handler`, `interrupt_c_handler` and `switch_context`.  If the C
code returns, the hart goes on where it was, with all its registers.
-/

namespace EchelonSbi
namespace Traps

open Riscv

variable {xlen : Xlen}

/-- Interrupts in M-mode are disabled by `csrci mstatus, 0x8`. -/
def disabled (machine : Machine xlen.bits) : Machine xlen.bits :=
  machine.setCsr .mstatus (machine.csrs .mstatus &&& ~~~BitVec.ofNat xlen.bits 0x8)

section Disabled

variable {firmware : Firmware xlen} {machine : Machine xlen.bits}

@[simp] theorem get_disabled (reg : Reg) : (disabled machine).get reg = machine.get reg :=
  rfl

@[simp] theorem memory_disabled : (disabled machine).memory = machine.memory := rfl

theorem csrs_disabled
    {csr : Csr}
    (other : csr ≠ .mstatus) :
    (disabled machine).csrs csr = machine.csrs csr :=
  Function.update_of_ne other _ _

theorem quiet_disabled
    (mode : machine.mode = .M) :
    (disabled machine).Quiet := by
  refine ⟨mode, ?_⟩
  rw [Machine.MIE, disabled, Machine.csrs_setCsr, Function.update_self,
    getLsbD_clear_MIE]
  exact Bool.and_false _

theorem status_disabled :
    SameStatus ((disabled machine).csrs .mstatus) (machine.csrs .mstatus) := by
  intro bit outside
  have apart : bit ≠ 3 := by
    rintro rfl
    exact outside (by decide)
  rw [disabled, Machine.csrs_setCsr, Function.update_self, getLsbD_clear_MIE,
    decide_eq_true apart, Bool.and_true]

/-- The first lines of `switch_context` and `s_delegation_trampoline`. -/
theorem next_disabled
    {line : Nat}
    (first : line = 81 ∨ line = 131) :
    firmware.next ⟨firmware.place line, machine⟩ =
        some ⟨firmware.place (line + 1), disabled machine⟩ ∧
      ¬firmware.Returning (firmware.place line) := by
  have holds : firmware.HoldsAt line [.plain (.csrci .mstatus 0x8)] := by
    rcases first with rfl | rfl
    · exact (holds_switch_blocks firmware).1
    · exact (holds_trampoline_blocks firmware).1
  constructor
  · rw [Program.next_of_getElem? holds.getElem?]
    rfl
  · exact Program.not_returning_of_getElem? holds.getElem? (by rintro ⟨⟩)

end Disabled

/-! ## C code -/

variable (served : Served xlen)

/-- C code changes neither the mode, nor the registers of traps, nor the contexts
and the variables that lead to them; it may use all other registers and memory. -/
structure CFrame (machine after : Machine xlen.bits) : Prop where
  mode : after.mode = machine.mode
  csrs : after.csrs = machine.csrs
  contexts : ∀ index < 3 * served.arrays.total, ∀ word < 35,
    after.memory (field (served.arrays.context index) word) =
      machine.memory (field (served.arrays.context index) word)
  globals : ∀ name,
    after.memory (served.firmware.names.address name) =
      machine.memory (served.firmware.names.address name)

/-- `interrupt_c_handler` returns to `ra`, with `s0` as a callee has to leave it. -/
structure InterruptReturns (call back : Config xlen.bits) : Prop where
  returns : ∃ command, interrupt_c_handler (call.machine.get .a1) command = .returns
  pc : back.pc = call.machine.get .ra
  s0 : back.machine.get .s0 = call.machine.get .s0
  frame : CFrame served call.machine back.machine

/-- The hart takes an interrupt whose handler returns. -/
structure Episode
    (cause tval : Word xlen) (before after : Config xlen.bits) : Prop where
  interrupt : cause.toInt < 0
  run : ∃ call back pc last,
    served.firmware.QuietPath (before.machine.trap before.pc cause tval) call ∧
    call.pc = served.firmware.names.address .interrupt_c_handler ∧
    InterruptReturns served call back ∧
    served.firmware.QuietPath back ⟨pc, last⟩ ∧
    served.firmware.Returning pc ∧
    after = Program.mret last

/-- The trap code can serve the hart, which saves to one of the contexts. -/
structure Armed (index : Nat) (machine : Machine xlen.bits) : Prop where
  arranged : served.Arranged machine.memory
  inside : index < 3 * served.arrays.total
  mscratch : machine.csrs .mscratch = served.arrays.context index
  mhartid : machine.csrs .mhartid = BitVec.ofNat xlen.bits served.hart
  mtvec : machine.csrs .mtvec = served.firmware.place Firmware.entry

/-- The registers that a trap to M-mode writes. -/
def trapCsrs : List Csr :=
  [.mstatus, .mepc, .mcause, .mtval]

/-- The hart goes on where an interrupt was taken. -/
structure Interrupted (index : Nat) (before after : Config xlen.bits) : Prop where
  pc : after.pc = before.pc
  mode : after.machine.mode = before.machine.mode
  regs : ∀ reg, after.machine.get reg = before.machine.get reg
  mie : after.machine.MIE = true
  status : SameStatus (after.machine.csrs .mstatus) (before.machine.csrs .mstatus)
  csrs : ∀ csr ∉ trapCsrs, after.machine.csrs csr = before.machine.csrs csr
  saved : ∀ reg,
    after.machine.memory (regField (served.arrays.context index) reg) =
      if reg = .zero then before.pc else before.machine.get reg
  execution_mode :
    after.machine.memory (field (served.arrays.context index) 1) =
      BitVec.ofNat xlen.bits before.machine.mode.bits
  others : ∀ other < 3 * served.arrays.total, ∀ word < 35,
    other ≠ index ∨ word = 0 ∨ word = 2 →
    after.machine.memory (field (served.arrays.context other) word) =
      before.machine.memory (field (served.arrays.context other) word)
  globals : ∀ name,
    after.machine.memory (served.firmware.names.address name) =
      before.machine.memory (served.firmware.names.address name)

section Resume

variable {served} {index : Nat} {before after : Config xlen.bits}

theorem CFrame.refl
    (machine : Machine xlen.bits) :
    CFrame served machine machine :=
  ⟨rfl, rfl, fun _ _ _ _ => rfl, fun _ => rfl⟩

/-- The trap code finds the same after C code, and after an interrupt. -/
theorem Served.Arranged.of_same
    {memory later : Word xlen → Word xlen}
    (arranged : served.Arranged memory)
    (globals : ∀ name,
      later (served.firmware.names.address name) =
        memory (served.firmware.names.address name))
    (numbers : ∀ hart < served.arrays.total,
      later (field (served.arrays.own hart) 0) =
        memory (field (served.arrays.own hart) 0)) :
    served.Arranged later where
  hart_contexts := (globals _).trans arranged.hart_contexts
  hart_context_count := (globals _).trans arranged.hart_context_count
  hart_contexts_exception := (globals _).trans arranged.hart_contexts_exception
  context_id hart inside := (numbers hart inside).trans (arranged.context_id hart inside)

/-- What a trap leaves as it was. -/
theorem csrs_trap
    (machine : Machine xlen.bits)
    (pc cause tval : Word xlen)
    {csr : Csr}
    (other : csr ∉ trapCsrs) :
    (machine.trap pc cause tval).machine.csrs csr = machine.csrs csr := by
  simp only [trapCsrs, List.mem_cons, List.not_mem_nil, or_false, not_or] at other
  simp [Machine.trap, other]

theorem Armed.trap
    {machine : Machine xlen.bits}
    (armed : Armed served index machine)
    (pc cause tval : Word xlen) :
    Armed served index (machine.trap pc cause tval).machine where
  arranged := armed.arranged
  inside := armed.inside
  mscratch := (csrs_trap _ _ _ _ (by decide)).trans armed.mscratch
  mhartid := (csrs_trap _ _ _ _ (by decide)).trans armed.mhartid
  mtvec := (csrs_trap _ _ _ _ (by decide)).trans armed.mtvec

/-- The mode that a trap leaves in `mstatus`. -/
theorem trapped_mode
    (machine : Machine xlen.bits)
    (pc cause tval : Word xlen) :
    (machine.trap pc cause tval).machine.csrs .mstatus >>> 11 &&& 3 =
      BitVec.ofNat xlen.bits machine.mode.bits := by
  have wide : 32 ≤ xlen.bits := by
    cases xlen <;> decide
  have eleven : 11 < xlen.bits := by omega
  have twelve : 12 < xlen.bits := by omega
  apply saved_mode
  · simp only [Machine.trap, Machine.csrs_setCsr, Function.update_self, getLsbD_setBit]
    simp [eleven]
  · simp only [Machine.trap, Machine.csrs_setCsr, Function.update_self, getLsbD_setBit]
    simp [twelve]

theorem status_trap
    (machine : Machine xlen.bits)
    (pc cause tval : Word xlen) :
    SameStatus ((machine.trap pc cause tval).machine.csrs .mstatus)
      (machine.csrs .mstatus) := by
  intro bit outside
  simp only [trapBits, List.mem_cons, List.not_mem_nil, or_false, not_or] at outside
  simp [Machine.trap, outside]

/-- The way of an interrupt to the C code. -/
theorem interrupt_path
    (armed : Armed served index before.machine)
    {cause : Word xlen}
    (interrupt : cause.toInt < 0)
    (tval : Word xlen) :
    ∃ call,
      served.firmware.QuietPath (before.machine.trap before.pc cause tval) call ∧
      call.pc = served.firmware.names.address .interrupt_c_handler ∧
      call.machine.get .ra = served.firmware.place 80 ∧
      call.machine.get .s0 = served.arrays.context index ∧
      call.machine.get .a1 = cause &&& (~~~0 : Word xlen) >>> 1 ∧
      call.machine.mode = .M ∧
      call.machine.csrs = (before.machine.trap before.pc cause tval).machine.csrs ∧
      SavedAt (served.arrays.context index)
        (before.machine.trap before.pc cause tval).machine call.machine.memory := by
  have quiet := before.machine.quiet_trap before.pc cause tval
  have trapArmed := armed.trap before.pc cause tval
  have causeSaved : (before.machine.trap before.pc cause tval).machine.csrs .mcause =
      cause := by
    simp [Machine.trap]
  have start : before.machine.trap before.pc cause tval =
      ⟨served.firmware.place 1, (before.machine.trap before.pc cause tval).machine⟩ :=
    congrArg (Config.mk · _) armed.mtvec
  rw [start]
  generalize (before.machine.trap before.pc cause tval).machine = trapped
    at quiet trapArmed causeSaved
  obtain ⟨entered, path, facts⟩ :=
    entry_path quiet trapArmed.arranged trapArmed.mscratch trapArmed.inside
      trapArmed.mhartid
  obtain ⟨-, -, -, -, -, -, branch, -, calls⟩ := holds_entry_blocks served.firmware
  obtain ⟨-, -, target, -⟩ := resolve_entry served.firmware
  have enteredQuiet : entered.Quiet :=
    ⟨facts.mode.trans quiet.mode, by
      rw [Machine.MIE, facts.csrs]
      exact quiet.mie⟩
  have flag : entered.get .ra ≠ entered.get .zero := by
    rw [facts.ra, causeSaved, if_pos interrupt, Machine.get_zero]
    cases xlen <;> decide
  have jumped := Program.QuietPath.branch enteredQuiet branch.getElem? rfl (if_pos flag)
    target
  have fetched : served.firmware.lines[79]? = some ⟨[2], .call .interrupt_c_handler⟩ :=
    (calls.drop (show 4 ≤ 6 by decide)).getElem?
  have called := Program.QuietPath.call enteredQuiet fetched
  refine ⟨_, (path.trans jumped).trans called, rfl, ?_, ?_, ?_, ?_, facts.csrs, ?_⟩
  · simp
  · simp [facts.s0, trapArmed.mscratch]
  · simp [facts.a1, causeSaved]
  · exact facts.mode.trans quiet.mode
  · exact trapArmed.mscratch ▸ facts.saved

/-- The words that a trap does not save. -/
theorem SavedAt.others
    {machine : Machine xlen.bits}
    {memory : Word xlen → Word xlen}
    (saved : SavedAt (served.arrays.context index) machine memory)
    (inside : index < 3 * served.arrays.total)
    {other word : Nat}
    (otherInside : other < 3 * served.arrays.total)
    (wordInside : word < 35)
    (apart : other ≠ index ∨ word = 0 ∨ word = 2) :
    memory (field (served.arrays.context other) word) =
      machine.memory (field (served.arrays.context other) word) := by
  apply saved.other
  intro own ownInside first third same
  obtain ⟨sameIndex, sameWord⟩ :=
    (HartArrays.field_context_inj otherInside inside wordInside ownInside).mp same
  omega

theorem SavedAt.globals
    {machine : Machine xlen.bits}
    {memory : Word xlen → Word xlen}
    (saved : SavedAt (served.arrays.context index) machine memory)
    (inside : index < 3 * served.arrays.total)
    (name : TrapName) :
    memory (served.firmware.names.address name) =
      machine.memory (served.firmware.names.address name) :=
  saved.other _ fun word high _ _ => served.outside name index inside word high

/-- The end of a trap handler, from where the C code returns, with interrupts off. -/
theorem return_path
    {machine : Machine xlen.bits}
    (quiet : machine.Quiet)
    {mode : Mode}
    (saved : machine.memory (field (machine.get .s0) 1) =
      BitVec.ofNat xlen.bits mode.bits) :
    ∃ pc last,
      served.firmware.QuietPath ⟨served.firmware.place 80, machine⟩ ⟨pc, last⟩ ∧
      served.firmware.Returning pc ∧ last.Quiet ∧
      Resumed (machine.get .s0) mode (disabled (machine.setReg .a0 (machine.get .s0)))
        (Program.mret last) := by
  obtain ⟨-, -, -, -, -, -, -, -, calls⟩ := holds_entry_blocks served.firmware
  have moves : served.firmware.HoldsAt 80 [.labelled 3 (.int (.mv .a0 .s0))] :=
    calls.drop (show 5 ≤ 6 by decide)
  have moved :
      served.firmware.QuietPath ⟨served.firmware.place 80, machine⟩
        ⟨served.firmware.place 81, machine.setReg .a0 (machine.get .s0)⟩ :=
    Program.QuietPath.straight _ quiet moves rfl
  have movedQuiet := quiet.setReg .a0 (machine.get .s0)
  obtain ⟨executes, inside⟩ := @next_disabled _ served.firmware
    (machine.setReg .a0 (machine.get .s0)) 81 (.inl rfl)
  have pointer : (disabled (machine.setReg .a0 (machine.get .s0))).get .a0 =
      machine.get .s0 := by
    simp
  obtain ⟨pc, last, path, returning, lastQuiet, resumed⟩ :=
    resume_path served.firmware (quiet_disabled movedQuiet.mode)
      (show (disabled (machine.setReg .a0 (machine.get .s0))).memory (field
        ((disabled (machine.setReg .a0 (machine.get .s0))).get .a0) 1) = _ by
          rw [pointer]
          exact saved)
  rw [pointer] at resumed
  exact ⟨pc, last, (moved.tail ⟨movedQuiet, inside, executes⟩).trans path, returning,
    lastQuiet, resumed⟩

/-- The hart comes to `interrupt_c_handler` in one way only. -/
theorem interrupt_called
    (armed : Armed served index before.machine)
    {cause tval : Word xlen}
    (interrupt : cause.toInt < 0)
    {call : Config xlen.bits}
    (goes : served.firmware.QuietPath (before.machine.trap before.pc cause tval) call)
    (called : call.pc = served.firmware.names.address .interrupt_c_handler) :
    call.machine.get .ra = served.firmware.place 80 ∧
      call.machine.get .s0 = served.arrays.context index ∧
      call.machine.get .a1 = cause &&& (~~~0 : Word xlen) >>> 1 ∧
      call.machine.mode = .M ∧
      call.machine.csrs = (before.machine.trap before.pc cause tval).machine.csrs ∧
      SavedAt (served.arrays.context index)
        (before.machine.trap before.pc cause tval).machine call.machine.memory := by
  obtain ⟨reached, path, reachedPc, facts⟩ := interrupt_path armed interrupt tval
  have outside (config : Config xlen.bits)
      (pc : config.pc = served.firmware.names.address .interrupt_c_handler) :
      ∀ next, ¬served.firmware.QuietStep config next :=
    Program.not_quietStep_of_outside (pc ▸ served.firmware.outside _)
  obtain rfl : call = reached :=
    path.same_end goes (outside reached reachedPc) (outside call called)
  exact facts

/-- The handler of an interrupt that is served returns. -/
theorem Episode.returns
    (armed : Armed served index before.machine)
    {cause tval : Word xlen}
    (episode : Episode served cause tval before after) :
    ∃ command, interrupt_c_handler (cause &&& (~~~0 : Word xlen) >>> 1) command =
      .returns := by
  obtain ⟨call, _, _, _, goes, called, returns, -⟩ := episode.run
  obtain ⟨-, -, a1, -⟩ := interrupt_called armed episode.interrupt goes called
  rw [← a1]
  exact returns.returns

/-- An interrupt whose handler returns is transparent. -/
theorem Episode.interrupted
    (armed : Armed served index before.machine)
    {cause tval : Word xlen}
    (episode : Episode served cause tval before after) :
    Interrupted served index before after := by
  obtain ⟨call, back, pc, last, goes, called, returns, leaves, returning, rfl⟩ :=
    episode.run
  obtain ⟨ra, s0, -, mode, csrs, saved⟩ :=
    interrupt_called armed episode.interrupt goes called
  have frame := returns.frame
  have backQuiet : back.machine.Quiet := by
    refine ⟨frame.mode.trans mode, ?_⟩
    rw [Machine.MIE, frame.csrs, csrs]
    exact (before.machine.quiet_trap before.pc cause tval).mie
  have backS0 : back.machine.get .s0 = served.arrays.context index :=
    returns.s0.trans s0
  have word : back.machine.memory (field (served.arrays.context index) 1) =
      BitVec.ofNat xlen.bits before.machine.mode.bits := by
    rw [frame.contexts index armed.inside 1 (by decide), saved.execution_mode]
    exact trapped_mode _ _ _ _
  obtain ⟨endPc, final, rest, ending, -, resumed⟩ :=
    @return_path _ served _ backQuiet before.machine.mode (by rw [backS0]; exact word)
  have start : back = ⟨served.firmware.place 80, back.machine⟩ :=
    congrArg (Config.mk · _) (returns.pc.trans ra)
  rw [start] at leaves
  have same := rest.same_end leaves (Program.not_quietStep_of_returning ending)
    (Program.not_quietStep_of_returning returning)
  obtain rfl : last = final := congrArg Config.machine same
  rw [backS0] at resumed
  have memory : (Program.mret last).machine.memory = back.machine.memory := resumed.memory
  have contexts (other : Nat) (otherInside : other < 3 * served.arrays.total)
      (word : Nat) (wordInside : word < 35) :
      back.machine.memory (field (served.arrays.context other) word) =
        call.machine.memory (field (served.arrays.context other) word) :=
    frame.contexts other otherInside word wordInside
  have registers (reg : Reg) :
      back.machine.memory (regField (served.arrays.context index) reg) =
        call.machine.memory (regField (served.arrays.context index) reg) := by
    have small := regNumber_lt reg
    rw [regField_eq_field]
    exact contexts index armed.inside _ (by omega)
  have own (reg : Reg) :
      back.machine.memory (regField (served.arrays.context index) reg) =
        if reg = .zero then before.pc else before.machine.get reg := by
    rw [registers]
    split_ifs with wired
    · rw [wired, saved.pc]
      simp [Machine.trap]
    · exact saved.regs reg wired
  constructor
  · exact resumed.pc.trans (own .zero)
  · exact resumed.mode
  · intro reg
    by_cases wired : reg = .zero
    · rw [wired, Machine.get_zero, Machine.get_zero]
    · exact (resumed.regs reg wired).trans ((own reg).trans (if_neg wired))
  · exact resumed.mie
  · have trapped := status_trap before.machine before.pc cause tval
    rw [← csrs, ← frame.csrs] at trapped
    exact (resumed.status.trans status_disabled).trans trapped
  · intro csr outside
    have trapped := csrs_trap before.machine before.pc cause tval outside
    rw [← csrs, ← frame.csrs] at trapped
    by_cases scratch : csr = .mscratch
    · rw [scratch, resumed.mscratch, armed.mscratch]
    · have apart := outside
      simp only [trapCsrs, List.mem_cons, List.not_mem_nil, or_false, not_or] at apart
      rw [resumed.csrs csr (by simp [apart, scratch]), csrs_disabled apart.1]
      exact trapped
  · intro reg
    rw [memory, own]
  · rw [memory, word]
  · intro other otherInside number numberInside apart
    rw [memory, contexts other otherInside number numberInside]
    exact saved.others armed.inside otherInside numberInside apart
  · intro name
    rw [memory, frame.globals]
    exact saved.globals armed.inside name

/-- An interrupt is served if `interrupt_c_handler` returns. -/
theorem exists_episode
    (armed : Armed served index before.machine)
    {cause : Word xlen}
    (interrupt : cause.toInt < 0)
    (returns : ∃ command, interrupt_c_handler (cause &&& (~~~0 : Word xlen) >>> 1) command =
      .returns)
    (tval : Word xlen) :
    ∃ after, Episode served cause tval before after := by
  obtain ⟨call, path, pc, ra, s0, a1, mode, csrs, saved⟩ :=
    interrupt_path armed interrupt tval
  have quiet : call.machine.Quiet := by
    refine ⟨mode, ?_⟩
    rw [Machine.MIE, csrs]
    exact (before.machine.quiet_trap before.pc cause tval).mie
  have word : call.machine.memory (field (call.machine.get .s0) 1) =
      BitVec.ofNat xlen.bits before.machine.mode.bits := by
    rw [s0, saved.execution_mode]
    exact trapped_mode _ _ _ _
  obtain ⟨endPc, last, rest, ending, -, -⟩ := @return_path _ served _ quiet _ word
  refine ⟨Program.mret last, interrupt, call, ⟨served.firmware.place 80, call.machine⟩,
    endPc, last, path, pc, ⟨?_, ra.symm, rfl, CFrame.refl _⟩, rest, ending, rfl⟩
  rwa [a1]

end Resume

/-! ## A board with one hart -/

section Board

/-- Where the trap code and what it names are. -/
def boardAddress : TrapName → Nat
  | .global_pointer => 0x1000
  | .hart_contexts => 0x2000
  | .hart_context_count => 0x2008
  | .hart_contexts_exception => 0x2010
  | .exception_c_handler => 0x3000
  | .interrupt_c_handler => 0x4000
  | .idle_loop => 0x5000

def boardPlace (xlen : Xlen) (line : Nat) : Word xlen :=
  BitVec.ofNat xlen.bits (0x80000000 + 4 * line)

def boardLine (address : Word xlen) : Option Nat :=
  if 0x80000000 ≤ address.toNat then some ((address.toNat - 0x80000000) / 4) else none

theorem toNat_boardPlace
    {line : Nat}
    (inside : line < 1000) :
    (boardPlace xlen line).toNat = 0x80000000 + 4 * line := by
  have wide : 2 ^ 32 ≤ 2 ^ xlen.bits := by
    cases xlen <;> decide
  rw [boardPlace, BitVec.toNat_ofNat, Nat.mod_eq_of_lt (by omega)]

theorem toNat_boardAddress (name : TrapName) :
    (BitVec.ofNat xlen.bits (boardAddress name)).toNat = boardAddress name ∧
      boardAddress name < 0x10000 := by
  have wide : 2 ^ 32 ≤ 2 ^ xlen.bits := by
    cases xlen <;> decide
  have low : boardAddress name < 0x10000 := by
    cases name <;> decide
  refine ⟨?_, low⟩
  rw [BitVec.toNat_ofNat, Nat.mod_eq_of_lt (by omega)]

def boardFirmware (xlen : Xlen) : Firmware xlen where
  lines := trapText xlen
  names := ⟨fun name => BitVec.ofNat xlen.bits (boardAddress name), fun _ => 0⟩
  place := boardPlace xlen
  lineAt := boardLine
  lineAt_place := by
    intro line inside
    have count : (trapText xlen).length < 1000 := by
      cases xlen <;> decide +kernel
    have place := @toNat_boardPlace xlen line (by omega)
    rw [boardLine, place, if_pos (by omega)]
    congr
    omega
  lines_eq := rfl
  outside := by
    intro name
    obtain ⟨same, low⟩ := @toNat_boardAddress xlen name
    rw [boardLine, same, if_neg (by omega)]

def boardArrays (xlen : Xlen) : HartArrays xlen where
  base := BitVec.ofNat xlen.bits 0x10000
  total := 1
  fits := by
    cases xlen <;> decide

def boardServed (xlen : Xlen) : Served xlen where
  firmware := boardFirmware xlen
  arrays := boardArrays xlen
  hart := 0
  hart_lt := Nat.one_pos
  outside := by
    intro name index inside word within same
    have wide : 2 ^ 32 ≤ 2 ^ xlen.bits := by
      cases xlen <;> decide
    have size : xlen.bytes ≤ 8 := by
      cases xlen <;> decide
    have offset : xlen.bytes * (35 * index + word) ≤ 8 * 104 := by
      have places : 35 * index + word ≤ 104 := by
        have total : (boardArrays xlen).total = 1 := rfl
        omega
      exact Nat.mul_le_mul size places
    obtain ⟨address, low⟩ := @toNat_boardAddress xlen name
    rw [HartArrays.field_context] at same
    have numbers := congrArg BitVec.toNat same
    rw [BitVec.toNat_add, BitVec.toNat_ofNat,
      Nat.mod_eq_of_lt (show xlen.bytes * (35 * index + word) < 2 ^ xlen.bits by omega),
      boardArrays, BitVec.toNat_ofNat,
      Nat.mod_eq_of_lt (show 0x10000 < 2 ^ xlen.bits by omega),
      Nat.mod_eq_of_lt
        (show 0x10000 + xlen.bytes * (35 * index + word) < 2 ^ xlen.bits by omega)]
          at numbers
    have names : (boardFirmware xlen).names.address name =
        BitVec.ofNat xlen.bits (boardAddress name) := rfl
    rw [names, address] at numbers
    omega

def boardMemory (xlen : Xlen) : Word xlen → Word xlen := fun address =>
  if address = BitVec.ofNat xlen.bits 0x2000 then (boardArrays xlen).base
  else if address = BitVec.ofNat xlen.bits 0x2008 then 3
  else if address = BitVec.ofNat xlen.bits 0x2010 then (boardArrays xlen).context 1
  else 0

theorem boardMemory_arranged (xlen : Xlen) :
    (boardServed xlen).Arranged (boardMemory xlen) := by
  constructor
  · cases xlen <;> decide
  · cases xlen <;> decide
  · cases xlen <;> decide
  · intro hart inside
    obtain rfl : hart = 0 := Nat.lt_one_iff.mp inside
    cases xlen <;> decide

/-- The hart in a mode, with a context of the board in `mscratch`. -/
def boardHart (xlen : Xlen) (mode : Mode) (index : Nat) : Config xlen.bits where
  pc := 0x40
  machine :=
    { mode
      registers := fun _ => 7
      csrs := fun csr =>
        match csr with
        | .mscratch => (boardArrays xlen).context index
        | .mtvec => boardPlace xlen Firmware.entry
        | _ => 0
      memory := boardMemory xlen }

theorem boardHart_armed
    (xlen : Xlen)
    (mode : Mode)
    {index : Nat}
    (inside : index < 3) :
    Armed (boardServed xlen) index (boardHart xlen mode index).machine where
  arranged := boardMemory_arranged xlen
  inside := inside
  mscratch := rfl
  mhartid := rfl
  mtvec := rfl

/-- Calls that succeed. -/
def boardCalls (xlen : Xlen) : HandlerCode.SbiCalls xlen :=
  fun _ _ _ result => result = ⟨Sbi.SBI_SUCCESS, 0⟩

end Board

end Traps
end EchelonSbi
