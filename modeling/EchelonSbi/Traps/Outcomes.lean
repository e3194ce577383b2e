import EchelonSbi.Traps.Completion

/-!
# What becomes of traps

The kernel of the hart sees nothing of the interrupts that return, gets the results
of its SBI calls and the traps that are its own, and no trap of the firmware.
-/

namespace EchelonSbi
namespace Traps

open Riscv
open HandlerCode

variable {xlen : Xlen} {served : Served xlen} {sbi : SbiCalls xlen} {index : Nat}
  {before : Config xlen.bits} {cause tval : Word xlen}

/-- The handler reads and writes the words that the trap code saves and loads. -/
theorem Serving.register
    {machine : Machine xlen.bits}
    {context : CPU_Context xlen}
    (serving : Serving served index before machine context)
    (separate : Separate served index before)
    (reg : Reg) :
    machine.memory (regField (served.arrays.context index) reg) = context.regs reg :=
  congrFun (congrArg CPU_Context.regs (serving.saved separate)) reg

/-- The numbers of exceptions are small. -/
theorem nonneg_of_small
    {cause : Word xlen}
    (small : cause.toNat < 2 ^ 31) :
    0 ≤ cause.toInt := by
  have wide : 2 * 2 ^ 31 ≤ 2 ^ xlen.bits := by
    cases xlen <;> decide
  have half : 2 * cause.toNat < 2 ^ xlen.bits := by omega
  rw [BitVec.toInt_eq_toNat_of_lt half]
  omega

/-- A handler delegates no trap but its own. -/
def DelegatesOwn (cause tval : Word xlen)
    (ending : HandlerEnd xlen) (_ : CPU_Context xlen) : Prop :=
  ∀ cause_value mtval, ending = .delegates cause_value mtval →
    cause_value = cause ∧ mtval = tval

theorem handled_of_exception
    (sbi : SbiCalls xlen)
    (armed : Armed served index before.machine)
    (separate : Separate served index before)
    (exception : 0 ≤ cause.toInt)
    (tval : Word xlen) :
    Handled served sbi index before cause tval (DelegatesOwn cause tval) := by
  refine ⟨armed, .inl separate, exception, exception_c_handler_own_cause _ _ _ _ _, ?_⟩
  intro cause_value mtval _ own
  obtain ⟨same, -⟩ := own cause_value mtval rfl
  rw [same]
  exact exception

/-! ## Delegation -/

/-- The registers of S-mode that traps write or need. -/
def kernelCsrs : List Csr :=
  [.stvec, .sepc, .scause, .stval]

/-- S-mode sees no difference between two harts. -/
structure SeenAlike (config other : Config xlen.bits) : Prop where
  pc : config.pc = other.pc
  mode : config.machine.mode = other.machine.mode
  regs : ∀ reg, config.machine.get reg = other.machine.get reg
  status : SameStatus (config.machine.csrs .mstatus) (other.machine.csrs .mstatus)
  csrs : ∀ csr ∈ kernelCsrs, config.machine.csrs csr = other.machine.csrs csr

/-- The trampoline does what a delegated trap does. -/
theorem Serving.delegated
    {machine : Machine xlen.bits}
    {after : Config xlen.bits}
    (serving : Serving served index before machine (trapContext served index before))
    (separate : Separate served index before)
    (delegated : Delegated (served.arrays.context index) cause tval before.machine.mode
      machine after) :
    SeenAlike after (before.machine.delegatedTrap before.pc cause tval) := by
  have wide : 32 ≤ xlen.bits := by
    cases xlen <;> decide
  have stvec : machine.csrs .stvec = before.machine.csrs .stvec :=
    serving.csrs .stvec (by decide)
  constructor
  · rw [delegated.pc, stvec]
    rfl
  · exact delegated.mode
  · intro reg
    by_cases wired : reg = .zero
    · rw [wired, Machine.get_zero, Machine.get_zero]
    · rw [delegated.regs reg wired, serving.register separate]
      exact if_neg wired
  · intro bit outside
    have sie := serving.status 1 (by decide)
    have same := serving.status bit outside
    rw [delegated.status bit outside, sie, same]
    simp only [Machine.delegatedTrap, Machine.csrs_setCsr, Function.update_self,
      getLsbD_setBit]
    by_cases enable : bit = 1
    · simp [enable]
    by_cases previous : bit = 5
    · simp [previous, show 5 < xlen.bits by omega]
    by_cases mode : bit = 8
    · simp [mode, show 8 < xlen.bits by omega]
    · simp [enable, previous, mode]
  · have pc := serving.register separate .zero
    intro csr inside
    simp only [kernelCsrs, List.mem_cons, List.not_mem_nil, or_false] at inside
    rcases inside with rfl | rfl | rfl | rfl
    · rw [delegated.csrs .stvec (by decide), stvec]
      simp [Machine.delegatedTrap]
    · rw [delegated.sepc, pc]
      simp [Machine.delegatedTrap, trapContext]
    · rw [delegated.scause]
      simp [Machine.delegatedTrap]
    · rw [delegated.stval]
      simp [Machine.delegatedTrap]

/-- How a handler that delegates its trap ends. -/
def Delegates (saved : CPU_Context xlen) (cause tval : Word xlen)
    (ending : HandlerEnd xlen) (context : CPU_Context xlen) : Prop :=
  ending = .delegates cause tval ∧ context = saved

/-- What becomes of a trap whose handler delegates it. -/
theorem Handled.delegation
    {level : Level xlen}
    (handled : Handled served sbi index before cause tval
      (Delegates (trapContext served index before) cause tval))
    (separate : Separate served index before)
    (run : LevelReaches served sbi (Level.start served index before cause tval) level) :
    Finishes served sbi level ∧
      (level.stage = .left →
        SeenAlike level.config (before.machine.delegatedTrap before.pc cause tval)) := by
  have underway := handled.underway run
  constructor
  · apply underway.finishes handled
    intro context
    constructor
    · rintro ⟨⟨⟩, -⟩
    · rintro ⟨⟨⟩, -⟩
  · intro left
    obtain ⟨stage, machine, serving, way⟩ := underway.of_left left
    cases way with
    | resumes done => cases done.1
    | delegates done delegated =>
        obtain ⟨same, context⟩ := done
        cases same
        rw [context] at serving
        exact serving.delegated separate delegated

theorem handled_of_delegated
    (sbi : SbiCalls xlen)
    (armed : Armed served index before.machine)
    (separate : Separate served index before)
    (delegated : cause.toNat ∈ delegatedCauses ∨
      cause.toNat = 2 ∧ before.machine.mode = .U)
    (tval : Word xlen) :
    Handled served sbi index before cause tval
      (Delegates (trapContext served index before) cause tval) := by
  have small : cause.toNat < 16 := by
    rcases delegated with listed | ⟨illegal, -⟩
    · simp only [delegatedCauses, List.mem_cons, List.not_mem_nil, or_false] at listed
      omega
    · omega
  have nonneg : 0 ≤ cause.toInt := nonneg_of_small (small.trans (by decide))
  refine ⟨armed, .inl separate, nonneg, ?_, ?_⟩
  · apply exception_c_handler_delegates
    refine delegated.imp_right fun user => ⟨user.1, ?_⟩
    rw [trapContext, user.2]
    rfl
  · rintro cause_value mtval context ⟨same, -⟩
    cases same
    exact nonneg

/-- Software delegation leaves the hart as a delegated trap does, from wherever it is
in the handler and whatever interrupts are served. -/
theorem software_delegation
    (sbi : SbiCalls xlen)
    (armed : Armed served index before.machine)
    (below : served.arrays.context index ≠ served.exception)
    (delegated : cause.toNat ∈ delegatedCauses ∨
      cause.toNat = 2 ∧ before.machine.mode = .U)
    (tval : Word xlen)
    {level : Level xlen}
    (run : LevelReaches served sbi (Level.start served index before cause tval) level) :
    Finishes served sbi level ∧
      (level.stage = .left →
        SeenAlike level.config (before.machine.delegatedTrap before.pc cause tval)) :=
  (handled_of_delegated sbi armed (.inl below) delegated tval).delegation (.inl below) run

/-- A call of the kernel from U-mode is delegated to it. -/
theorem software_delegation_board :
    ∃ last,
      LevelReaches (boardServed .rv64) (boardCalls .rv64)
        (Level.start (boardServed .rv64) 2 (boardHart .rv64 .U 2) 8 0) last ∧
      last.stage = .left ∧
      SeenAlike last.config
        ((boardHart .rv64 .U 2).machine.delegatedTrap (boardHart .rv64 .U 2).pc 8 0) := by
  have armed := boardHart_armed .rv64 .U (show 2 < 3 by decide)
  have below : (boardServed .rv64).arrays.context 2 ≠ (boardServed .rv64).exception := by
    decide
  have listed : (8 : Word .rv64).toNat ∈ delegatedCauses := by decide
  obtain ⟨last, run, left⟩ :=
    (software_delegation (boardCalls .rv64) armed below (.inl listed) 0 .refl).1
  exact ⟨last, run, left,
    (software_delegation (boardCalls .rv64) armed below (.inl listed) 0 run).2 left⟩

/-! ## Transparency -/

/-- The hart goes on where it was. -/
structure GoesOn (before after : Config xlen.bits) : Prop where
  pc : after.pc = before.pc
  mode : after.machine.mode = before.machine.mode
  regs : ∀ reg, after.machine.get reg = before.machine.get reg
  status : SameStatus (after.machine.csrs .mstatus) (before.machine.csrs .mstatus)
  csrs : ∀ csr ∈ kernelCsrs, after.machine.csrs csr = before.machine.csrs csr

/-- Traps to M-mode are not seen in the registers of S-mode. -/
theorem not_mem_of_mem_kernelCsrs
    {csr : Csr}
    (inside : csr ∈ kernelCsrs) :
    csr ∉ Csr.mscratch :: trapCsrs := by
  revert inside
  cases csr <;> decide

theorem Interrupted.goesOn
    {after : Config xlen.bits}
    (interrupted : Interrupted served index before after) :
    GoesOn before after where
  pc := interrupted.pc
  mode := interrupted.mode
  regs := interrupted.regs
  status := interrupted.status
  csrs csr inside := by
    apply interrupted.csrs
    intro trap
    exact not_mem_of_mem_kernelCsrs inside (List.mem_cons_of_mem _ trap)

/-- The call of `call_to_sbi` for the registers of the caller. -/
def Calls (sbi : SbiCalls xlen) (machine : Machine xlen.bits) : Sbi.sbiret → Prop :=
  sbi (machine.get .a7) (machine.get .a6) ([.a0, .a1, .a2, .a3, .a4, .a5].map machine.get)

/-- The caller has the result of its SBI call. -/
structure Answered (before after : Config xlen.bits) (result : Sbi.sbiret) : Prop where
  pc : after.pc = before.pc + 4
  mode : after.machine.mode = before.machine.mode
  a0 : after.machine.get .a0 = BitVec.ofInt xlen.bits result.error
  a1 : after.machine.get .a1 = BitVec.ofInt xlen.bits result.value
  regs : ∀ reg, reg ≠ .a0 → reg ≠ .a1 → after.machine.get reg = before.machine.get reg
  status : SameStatus (after.machine.csrs .mstatus) (before.machine.csrs .mstatus)
  csrs : ∀ csr ∈ kernelCsrs, after.machine.csrs csr = before.machine.csrs csr

/-- The trap code returns to the caller with the result in its context. -/
theorem Serving.answered
    {machine : Machine xlen.bits}
    {after : Config xlen.bits}
    {result : Sbi.sbiret}
    (serving : Serving served index before machine
      (HandlerCode.answered (trapContext served index before) result))
    (separate : Separate served index before)
    (resumed : Resumed (served.arrays.context index) before.machine.mode machine after) :
    Answered before after result := by
  have register (reg : Reg) (wired : reg ≠ .zero) : after.machine.get reg =
      (HandlerCode.answered (trapContext served index before) result).regs reg := by
    rw [resumed.regs reg wired]
    exact serving.register separate reg
  constructor
  · rw [resumed.pc, serving.register separate]
    rfl
  · exact resumed.mode
  · rw [register .a0 (by decide), regs_answered, if_pos rfl]
  · rw [register .a1 (by decide), regs_answered, if_neg (by decide), if_pos rfl]
  · intro reg first second
    by_cases wired : reg = .zero
    · rw [wired, Machine.get_zero, Machine.get_zero]
    · rw [register reg wired, regs_answered, if_neg first, if_neg second, REG_PC,
        if_neg wired]
      exact if_neg wired
  · exact resumed.status.trans serving.status
  · intro csr inside
    have outside := not_mem_of_mem_kernelCsrs inside
    have kept := outside
    simp only [trapCsrs, List.mem_cons, List.not_mem_nil, or_false, not_or] at kept
    rw [resumed.csrs csr (by simp [kept])]
    exact serving.csrs csr outside

/-- How the handler of an SBI call that returns ends. -/
def Answers
    (sbi : SbiCalls xlen) (served : Served xlen) (index : Nat) (before : Config xlen.bits)
    (ending : HandlerEnd xlen) (context : CPU_Context xlen) : Prop :=
  ending = .returns ∧ ∃ result, Calls sbi before.machine result ∧
    context = HandlerCode.answered (trapContext served index before) result

/-- An SBI call that returns, with the interrupts that are served in its handler. -/
theorem Handled.answers
    {level : Level xlen}
    (handled : Handled served sbi index before cause tval
      (Answers sbi served index before))
    (separate : Separate served index before)
    (run : LevelReaches served sbi (Level.start served index before cause tval) level) :
    Finishes served sbi level ∧
      (level.stage = .left →
        ∃ result, Calls sbi before.machine result ∧ Answered before level.config result) ∧
      (level.stage.Open → level.config.machine.Interruptible →
        ∀ cause tval after, Episode served cause tval level.config after →
          GoesOn level.config after) := by
  have underway := handled.underway run
  refine ⟨?_, ?_, ?_⟩
  · apply underway.finishes handled
    intro context
    constructor
    · rintro ⟨⟨⟩, -⟩
    · rintro ⟨⟨⟩, -⟩
  · intro left
    obtain ⟨stage, machine, serving, way⟩ := underway.of_left left
    cases way with
    | resumes done resumed =>
        obtain ⟨-, result, called, context⟩ := done
        rw [context] at serving
        exact ⟨result, called, serving.answered separate resumed⟩
    | delegates done => cases done.1
  · intro isOpen taken _ _ after episode
    have serving := underway.serving isOpen taken
    have armed := serving.armed handled.armed.mhartid handled.armed.mtvec
    exact (episode.interrupted armed).goesOn

theorem handled_of_call
    (armed : Armed served index before.machine)
    (separate : Separate served index before)
    (called : cause.toNat = 9)
    (returns : ∃ result, Calls sbi before.machine result)
    (tval : Word xlen) :
    Handled served sbi index before cause tval (Answers sbi served index before) := by
  have nonneg : 0 ≤ cause.toInt := nonneg_of_small (by rw [called]; decide)
  refine ⟨armed, .inl separate, nonneg, ?_, ?_⟩
  · exact @exception_c_handler_calls _ sbi (Separate served index before)
      (trapContext served index before) cause called separate returns tval
  · rintro cause_value mtval context ⟨⟨⟩, -⟩

/-- Interrupts that return are transparent in any mode, and an SBI call that returns
changes `a0`, `a1` and the program counter only, with the interrupts that are served in
its handler. -/
theorem trap_transparent
    (sbi : SbiCalls xlen)
    (armed : Armed served index before.machine) :
    (∀ cause tval after, Episode served cause tval before after → GoesOn before after) ∧
      (∀ cause tval : Word xlen, cause.toInt < 0 →
        (∃ command, interrupt_c_handler (cause &&& (~~~0 : Word xlen) >>> 1) command =
          .returns) →
        ∃ after, Episode served cause tval before after) ∧
      ∀ cause tval : Word xlen, cause.toNat = 9 →
        served.arrays.context index ≠ served.exception →
        (∃ result, Calls sbi before.machine result) →
        ∀ level,
          LevelReaches served sbi (Level.start served index before cause tval) level →
          Finishes served sbi level ∧
            (level.stage = .left → ∃ result, Calls sbi before.machine result ∧
              Answered before level.config result) ∧
            (level.stage.Open → level.config.machine.Interruptible →
              ∀ number value after, Episode served number value level.config after →
                GoesOn level.config after) := by
  refine ⟨?_, ?_, ?_⟩
  · exact fun _ _ after episode => (episode.interrupted armed).goesOn
  · exact fun cause tval interrupt returns => exists_episode armed interrupt returns tval
  · intro cause tval called below returns level run
    exact (handled_of_call armed (.inl below) called returns tval).answers (.inl below) run

/-- A timer interrupt in U-mode, and a call of S-mode. -/
theorem trap_transparent_board :
    (∃ after, Episode (boardServed .rv64) (BitVec.ofInt 64 (-2 ^ 63 + 7)) 0
        (boardHart .rv64 .U 2) after ∧
      GoesOn (boardHart .rv64 .U 2) after) ∧
    ∃ last,
      LevelReaches (boardServed .rv32) (boardCalls .rv32)
        (Level.start (boardServed .rv32) 2 (boardHart .rv32 .S 2) 9 0) last ∧
      last.stage = .left ∧
      Answered (boardHart .rv32 .S 2) last.config ⟨Sbi.SBI_SUCCESS, 0⟩ := by
  constructor
  · obtain ⟨same, exist, -⟩ := trap_transparent (boardCalls .rv64)
      (boardHart_armed .rv64 .U (show 2 < 3 by decide))
    obtain ⟨after, episode⟩ := exist (BitVec.ofInt 64 (-2 ^ 63 + 7)) 0 (by decide)
      ⟨0, by decide⟩
    exact ⟨after, episode, same _ _ after episode⟩
  · obtain ⟨-, -, calls⟩ := trap_transparent (boardCalls .rv32)
      (boardHart_armed .rv32 .S (show 2 < 3 by decide))
    have answers := calls 9 0 (by decide) (by decide) ⟨_, rfl⟩
    obtain ⟨last, run, left⟩ := (answers _ .refl).1
    obtain ⟨result, rfl, answered⟩ := (answers last run).2.1 left
    exact ⟨last, run, left, answered⟩

/-! ## Traps of the firmware -/

/-- The context of the trap is what the handler made of it, and interrupts are enabled
only with another context for them. -/
def Survives
    (served : Served xlen) (sbi : SbiCalls xlen) (index : Nat) (before : Config xlen.bits)
    (cause tval : Word xlen) : Prop :=
  ∀ level, LevelReaches served sbi (Level.start served index before cause tval) level →
    ((∃ code call, level.stage = .code code call) →
      contextAt level.config.machine.memory (served.arrays.context index) =
        level.context) ∧
    (level.stage.Open → level.config.machine.MIE = true →
      level.config.machine.csrs .mscratch ≠ served.arrays.context index)

/-- The context of a trap survives if and only if interrupts save to another one or the
trap code takes the word at offset 8 for the one of M-mode. -/
theorem survives_iff
    (sbi : SbiCalls xlen)
    (armed : Armed served index before.machine)
    (exception : 0 ≤ cause.toInt)
    (tval : Word xlen) :
    Survives served sbi index before cause tval ↔ Separate served index before := by
  constructor
  · intro survives
    by_contra joined
    rw [Separate, not_or, not_not] at joined
    obtain ⟨machine, run, serving, -, enabled⟩ := exists_calling sbi armed exception tval
    apply (survives _ run).2 trivial (enabled joined.2)
    exact serving.mscratch.trans joined.1.symm
  · intro separate level run
    have handled := handled_of_exception sbi armed separate exception tval
    have underway := handled.underway run
    constructor
    · rintro ⟨code, call, handling⟩
      cases underway with
      | entering => cases handling
      | spot serving => exact serving.saved separate
      | leaving leaving =>
          obtain ⟨_, _, _, _, _, _, _, way⟩ := leaving.leaves
          cases way <;> cases handling
      | left => cases handling
      | gone => cases handling
    · intro isOpen enabled same
      have serving := underway.serving isOpen (.inr enabled)
      apply serving.guarded enabled separate
      exact same.symm.trans serving.mscratch

/-- A trap in the handler of an exception keeps its context on the wider machine only. -/
theorem survives_iff_board :
    Survives (boardServed .rv64) (boardCalls .rv64) 1 (boardHart .rv64 .M 1) 5 0 ∧
      ¬Survives (boardServed .rv32) (boardCalls .rv32) 1 (boardHart .rv32 .M 1) 5 0 := by
  constructor
  · apply (survives_iff (boardCalls .rv64)
      (boardHart_armed .rv64 .M (show 1 < 3 by decide)) (by decide) 0).mpr
    exact .inr rfl
  · intro survives
    have separate := (survives_iff (boardCalls .rv32)
      (boardHart_armed .rv32 .M (show 1 < 3 by decide)) (by decide) 0).mp survives
    rcases separate with apart | machineMode
    · exact apart rfl
    · exact absurd machineMode (by decide)

end Traps
end EchelonSbi
