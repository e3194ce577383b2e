import EchelonSbi.Traps.KernelRuns

/-!
# The start of the kernel

The interrupt with the command `HARTCMD_STARTHART`, in any mode, brings the hart to the
kernel, whatever the hart did before.
-/

namespace EchelonSbi
namespace Traps

open Riscv

variable {xlen : Xlen}

/-! ## The interrupt -/

section Start

variable (served : Served xlen) (param1 param2 : Word xlen)

/-- The branch `HARTCMD_STARTHART` of `interrupt_c_handler`, up to the call of
`switch_context`. -/
structure StartsHart (call jump : Config xlen.bits) : Prop where
  handler :
    interrupt_c_handler (call.machine.get .a1) Sbi.HARTCMD_STARTHART = .switch_context
  pc : jump.pc = served.firmware.place Firmware.switch
  a0 : jump.machine.get .a0 = served.user
  mode : jump.machine.mode = call.machine.mode
  status : jump.machine.csrs .mstatus =
    (call.machine.csrs .mstatus &&& ~~~BitVec.ofNat xlen.bits 0x2A) |||
      BitVec.ofNat xlen.bits 0x80
  csrs : ∀ csr, csr ≠ .mstatus → jump.machine.csrs csr = call.machine.csrs csr
  memory : Spares served
    (startContext served.user call.machine.memory (BitVec.ofNat xlen.bits served.hart) param1
      param2)
    jump.machine.memory

/-- The hart takes the interrupt that starts it. -/
structure StartEpisode
    (cause tval : Word xlen) (before after : Config xlen.bits) : Prop where
  interrupt : cause.toInt < 0
  run : ∃ call jump pc last,
    served.firmware.QuietPath (before.machine.trap before.pc cause tval) call ∧
    call.pc = served.firmware.names.address .interrupt_c_handler ∧
    StartsHart served param1 param2 call jump ∧
    served.firmware.QuietPath jump ⟨pc, last⟩ ∧
    served.firmware.Returning pc ∧
    after = Program.mret last

/-- The kernel has been started on the hart, with the interrupts of S-mode disabled. -/
structure KernelStarted (after : Config xlen.bits) : Prop where
  onKernel : OnKernel served after
  pc : after.pc = param1
  mode : after.machine.mode = .S
  regs : ∀ reg, after.machine.get reg =
    if reg = .a1 then param2 else if reg = .a0 then BitVec.ofNat xlen.bits served.hart
    else 0
  SIE : (after.machine.csrs .mstatus).getLsbD 1 = false
  SPIE : (after.machine.csrs .mstatus).getLsbD 5 = false

end Start

/-! ## The way to the kernel -/

/-- `CSR_BITCLR(CSR_MSTATUS, 0x2A)` disables interrupts. -/
theorem getLsbD_start_status
    (status : Word xlen)
    {bit : Nat}
    (cleared : bit ∈ [1, 3, 5]) :
    ((status &&& ~~~BitVec.ofNat xlen.bits 0x2A) |||
      BitVec.ofNat xlen.bits 0x80).getLsbD bit = false := by
  have masks : (BitVec.ofNat xlen.bits 0x2A).getLsbD bit = true ∧
      (BitVec.ofNat xlen.bits 0x80).getLsbD bit = false := by
    simp only [List.mem_cons, List.not_mem_nil, or_false] at cleared
    rcases cleared with rfl | rfl | rfl
    all_goals cases xlen <;> decide
  rw [BitVec.getLsbD_or, BitVec.getLsbD_and, BitVec.getLsbD_not, masks.1, masks.2]
  simp

section Way

variable {served : Served xlen} {index : Nat} {param1 param2 cause tval : Word xlen}
  {before after call jump : Config xlen.bits} {machine : Machine xlen.bits}

/-- The context of the kernel, and what else the trap code finds. -/
theorem StartsHart.setUp
    (starts : StartsHart served param1 param2 call jump) :
    SetUp served served.userIndex
      (startedContext (BitVec.ofNat xlen.bits served.hart) param1 param2)
      call.machine.memory jump.machine.memory :=
  ((startContext_wrote served.user call.machine.memory _ param1 param2).setUp
    served.userIndex_lt).trans_spares starts.memory served.userIndex_lt

theorem StartsHart.arranged
    (starts : StartsHart served param1 param2 call jump)
    (arranged : served.Arranged call.machine.memory) :
    served.Arranged jump.machine.memory := by
  have setUp := starts.setUp
  apply arranged.of_same setUp.globals
  intro hart inside
  have others := setUp.others hart (by omega) (by rw [Served.userIndex]; omega)
  exact congrArg CPU_Context.context_id others

/-- `switch_context` goes to the kernel. -/
theorem StartsHart.path
    (starts : StartsHart served param1 param2 call jump)
    (machineMode : call.machine.mode = .M) :
    ∃ pc last,
      served.firmware.QuietPath jump ⟨pc, last⟩ ∧
      served.firmware.Returning pc ∧
      Resumed served.user .S (disabled jump.machine) (Program.mret last) := by
  have quiet : jump.machine.Quiet := by
    refine ⟨starts.mode.trans machineMode, ?_⟩
    rw [Machine.MIE, starts.status]
    exact getLsbD_start_status _ (by decide)
  obtain ⟨executes, inside⟩ := @next_disabled _ served.firmware jump.machine 81 (.inl rfl)
  have pointer : (disabled jump.machine).get .a0 = served.user := starts.a0
  have word : (disabled jump.machine).memory
      (field ((disabled jump.machine).get .a0) 1) = BitVec.ofNat xlen.bits Mode.S.bits := by
    rw [pointer]
    exact congrArg CPU_Context.execution_mode starts.setUp.context
  obtain ⟨pc, last, path, returning, -, resumed⟩ :=
    resume_path served.firmware (quiet_disabled quiet.mode) word
  rw [pointer] at resumed
  have start : jump = ⟨served.firmware.place 81, jump.machine⟩ :=
    congrArg (Config.mk · _) starts.pc
  rw [start]
  exact ⟨pc, last, path.head ⟨quiet, inside, executes⟩, returning, resumed⟩

/-- The hart after `switch_context`. -/
theorem StartsHart.kernelStarted
    (starts : StartsHart served param1 param2 call jump)
    (arranged : served.Arranged call.machine.memory)
    (hartid : call.machine.csrs .mhartid = BitVec.ofNat xlen.bits served.hart)
    (vector : call.machine.csrs .mtvec = served.firmware.place Firmware.entry)
    (resumed : Resumed served.user .S (disabled jump.machine) after) :
    KernelStarted served param1 param2 after := by
  have context := starts.setUp.context
  have register (reg : Reg) : jump.machine.memory (regField served.user reg) =
      (startedContext (BitVec.ofNat xlen.bits served.hart) param1 param2).regs reg :=
    congrFun (congrArg CPU_Context.regs context) reg
  have kept (csr : Csr) (other : csr ∉ [Csr.mstatus, .mscratch, .mepc]) :
      after.machine.csrs csr = call.machine.csrs csr := by
    have status : csr ≠ .mstatus := by
      rintro rfl
      exact other (by decide)
    rw [resumed.csrs csr other, csrs_disabled status, starts.csrs csr status]
  have bit (number : Nat) (cleared : number ∈ [1, 3, 5]) (outside : number ∉ trapBits) :
      (after.machine.csrs .mstatus).getLsbD number = false := by
    rw [resumed.status number outside, status_disabled number outside, starts.status]
    exact getLsbD_start_status _ cleared
  refine ⟨⟨?_, ?_, served.userIndex_lt, resumed.mscratch, ?_, ?_⟩, ?_, resumed.mode, ?_,
    bit 1 (by decide) (by decide), bit 5 (by decide) (by decide)⟩
  · rw [resumed.mode]
    decide
  · rw [resumed.memory]
    exact starts.arranged arranged
  · exact (kept .mhartid (by decide)).trans hartid
  · exact (kept .mtvec (by decide)).trans vector
  · rw [resumed.pc]
    exact register .zero
  · intro reg
    by_cases wired : reg = .zero
    · rw [wired, Machine.get_zero]
      rfl
    · rw [resumed.regs reg wired]
      refine (register reg).trans ?_
      simp [startedContext, HandlerCode.REG_PC, wired]

/-- Code of the branch that writes nothing else. -/
theorem exists_startsHart
    (served : Served xlen)
    (param1 param2 : Word xlen)
    (call : Config xlen.bits)
    (software : (call.machine.get .a1).toNat = 3) :
    ∃ jump, StartsHart served param1 param2 call jump := by
  refine ⟨⟨served.firmware.place Firmware.switch,
    { (call.machine.setReg .a0 served.user).setCsr .mstatus
        ((call.machine.csrs .mstatus &&& ~~~BitVec.ofNat xlen.bits 0x2A) |||
          BitVec.ofNat xlen.bits 0x80) with
      memory := startContext served.user call.machine.memory
        (BitVec.ofNat xlen.bits served.hart) param1 param2 }⟩, ?_⟩
  constructor
  · simp [interrupt_c_handler, software]
  · rfl
  · exact (Machine.get_setReg _ .a0 .a0 _).trans (if_pos ⟨rfl, by decide⟩)
  · rfl
  · simp [Machine.setCsr]
  · exact fun csr other => Function.update_of_ne other _ _
  · exact ⟨fun _ _ _ _ => rfl, fun _ => rfl⟩

/-- The start command brings the hart to the kernel, from any mode and with any context
for the trap. -/
theorem start_reaches_kernel
    (armed : Armed served index before.machine)
    (interrupt : cause.toInt < 0)
    (software : (cause &&& (~~~0 : Word xlen) >>> 1).toNat = 3)
    (tval param1 param2 : Word xlen) :
    (∃ after, StartEpisode served param1 param2 cause tval before after) ∧
      ∀ after, StartEpisode served param1 param2 cause tval before after →
        KernelStarted served param1 param2 after := by
  constructor
  · obtain ⟨call, goes, pc, -, -, a1, mode, -⟩ := interrupt_path armed interrupt tval
    obtain ⟨jump, starts⟩ := exists_startsHart served param1 param2 call (by rwa [a1])
    obtain ⟨place, last, path, returning, -⟩ := starts.path mode
    exact ⟨_, interrupt, call, jump, place, last, goes, pc, starts, path, returning, rfl⟩
  · rintro after ⟨-, call, jump, pc, last, goes, called, starts, path, returning, rfl⟩
    obtain ⟨-, -, -, mode, csrs, saved⟩ := interrupt_called armed interrupt goes called
    have trapped := armed.trap before.pc cause tval
    obtain ⟨place, final, other, otherReturning, resumed⟩ := starts.path mode
    have same := other.same_end path (Program.not_quietStep_of_returning otherReturning)
      (Program.not_quietStep_of_returning returning)
    obtain rfl : last = final := congrArg Config.machine same
    apply starts.kernelStarted _ _ _ resumed
    · apply trapped.arranged.of_same (saved.globals armed.inside)
      intro hart inside
      exact saved.others armed.inside (by omega) (by decide) (.inr (.inl rfl))
    · rw [csrs]
      exact trapped.mhartid
    · rw [csrs]
      exact trapped.mtvec

/-- The hart is started in M-mode, with the context that it waits in. -/
theorem start_reaches_kernel_board :
    ∃ after, StartEpisode (boardServed .rv64) 0x80200000 0x82000000
        (BitVec.ofInt 64 (-2 ^ 63 + 3)) 0 (boardHart .rv64 .M 0) after ∧
      KernelStarted (boardServed .rv64) 0x80200000 0x82000000 after := by
  obtain ⟨⟨after, episode⟩, started⟩ := start_reaches_kernel
    (boardHart_armed .rv64 .M (show 0 < 3 by decide))
    (show (BitVec.ofInt 64 (-2 ^ 63 + 3)).toInt < 0 by decide) (by decide) 0 0x80200000
    0x82000000
  exact ⟨after, episode, started after episode⟩

end Way

end Traps
end EchelonSbi
