import EchelonSbi.Foundation.Transition
import EchelonSbi.Traps.ContextSetup
import EchelonSbi.Traps.Outcomes

/-!
# Runs of the kernel

The hart, with the firmware that serves its traps, does what a hart would do that
delegates traps to S-mode by itself and executes an SBI call as one instruction.
-/

namespace EchelonSbi
namespace Traps

open Riscv
open HandlerCode
open Foundation (Run)

variable {xlen : Xlen}

/-! ## The ideal hart -/

/-- What the kernel sees of the hart. -/
@[ext] structure KernelView (xlen : Xlen) where
  pc : Word xlen
  mode : Mode
  regs : Reg → Word xlen
  /-- The bits of `mstatus` that traps to M-mode leave. -/
  status : Nat → Bool
  stvec : Word xlen
  sepc : Word xlen
  scause : Word xlen
  stval : Word xlen

namespace KernelView

variable (view : KernelView xlen)

/-- An exception that the hart delegates. -/
def trapped (cause tval : Word xlen) : KernelView xlen where
  pc := view.stvec &&& ~~~3
  mode := .S
  regs := view.regs
  status bit :=
    if bit = 8 then view.mode.low
    else if bit = 1 then false
    else if bit = 5 then view.status 1
    else view.status bit
  stvec := view.stvec
  sepc := view.pc
  scause := cause
  stval := tval

/-- The arguments of an SBI call. -/
def params : List (Word xlen) :=
  [.a0, .a1, .a2, .a3, .a4, .a5].map view.regs

/-- An SBI call as an instruction. -/
def answered (result : Sbi.sbiret) : KernelView xlen :=
  { view with
    pc := view.pc + 4
    regs := fun reg =>
      if reg = .a0 then BitVec.ofInt xlen.bits result.error
      else if reg = .a1 then BitVec.ofInt xlen.bits result.value
      else view.regs reg }

end KernelView

/-- What happens to the kernel. -/
inductive KernelEvent (xlen : Xlen) where
  | instruction
  | interrupt (cause tval : Word xlen)
  | exception (cause tval : Word xlen)

/-- The ideal hart. -/
inductive IdealStep (sbi : SbiCalls xlen) :
    KernelView xlen → KernelEvent xlen → KernelView xlen → Prop where
  | instruction
      {view next : KernelView xlen}
      (below : next.mode ≠ .M) :
      IdealStep sbi view .instruction next
  | interrupt
      {view : KernelView xlen} {cause tval : Word xlen}
      (interrupt : cause.toInt < 0)
      (returns : ∃ command,
        interrupt_c_handler (cause &&& (~~~0 : Word xlen) >>> 1) command = .returns) :
      IdealStep sbi view (.interrupt cause tval) view
  | delegated
      {view : KernelView xlen} {cause tval : Word xlen}
      (delegated : cause.toNat ∈ delegatedCauses ∨ cause.toNat = 2 ∧ view.mode = .U) :
      IdealStep sbi view (.exception cause tval) (view.trapped cause tval)
  | called
      {view : KernelView xlen} {cause tval : Word xlen} {result : Sbi.sbiret}
      (called : cause.toNat = 9)
      (returns : sbi (view.regs .a7) (view.regs .a6) view.params result) :
      IdealStep sbi view (.exception cause tval) (view.answered result)

/-! ## The hart with its firmware -/

/-- What the kernel sees of a hart. -/
def kernelView (config : Config xlen.bits) : KernelView xlen where
  pc := config.pc
  mode := config.machine.mode
  regs := config.machine.get
  status bit := if bit ∈ trapBits then false else (config.machine.csrs .mstatus).getLsbD bit
  stvec := config.machine.csrs .stvec
  sepc := config.machine.csrs .sepc
  scause := config.machine.csrs .scause
  stval := config.machine.csrs .stval

section Runs

variable (served : Served xlen) (sbi : SbiCalls xlen)

/-- The index of the context of the kernel. -/
def Served.userIndex : Nat :=
  2 * served.arrays.total + served.hart

/-- The kernel runs on the hart, and traps save to its context. -/
structure OnKernel (config : Config xlen.bits) : Prop where
  below : config.machine.mode ≠ .M
  armed : Armed served served.userIndex config.machine

/-- An instruction of the kernel, or what other harts do meanwhile.  Memory protection
keeps the kernel from the memory of the firmware. -/
structure KernelInstruction (before after : Config xlen.bits) : Prop where
  below : after.machine.mode ≠ .M
  csrs : ∀ csr ∈ [Csr.mtvec, .mscratch, .mhartid],
    after.machine.csrs csr = before.machine.csrs csr
  globals : ∀ name,
    after.machine.memory (served.firmware.names.address name) =
      before.machine.memory (served.firmware.names.address name)
  numbers : ∀ hart < served.arrays.total,
    after.machine.memory (field (served.arrays.own hart) 0) =
      before.machine.memory (field (served.arrays.own hart) 0)

/-- From the kernel to the kernel. -/
inductive HartStep :
    Config xlen.bits → KernelEvent xlen → Config xlen.bits → Prop where
  | instruction
      {before after : Config xlen.bits}
      (instruction : KernelInstruction served before after) :
      HartStep before .instruction after
  | interrupt
      {before after : Config xlen.bits} {cause tval : Word xlen}
      (episode : Episode served cause tval before after) :
      HartStep before (.interrupt cause tval) after
  | exception
      {before : Config xlen.bits} {cause tval : Word xlen} {level : Level xlen}
      (exception : 0 ≤ cause.toInt)
      (run : LevelReaches served sbi (Level.start served served.userIndex before cause tval)
        level)
      (left : level.stage = .left) :
      HartStep before (.exception cause tval) level.config

variable {served sbi} {before after : Config xlen.bits} {cause tval : Word xlen}

theorem Served.userIndex_lt : served.userIndex < 3 * served.arrays.total := by
  have := served.hart_lt
  rw [Served.userIndex]
  omega

/-- The context of the kernel is not the one of interrupts in exception handlers. -/
theorem Served.user_ne_exception :
    served.arrays.context served.userIndex ≠ served.exception := by
  intro same
  have hart := served.hart_lt
  have inside : served.arrays.total + served.hart < 3 * served.arrays.total := by omega
  have fields : field (served.arrays.context served.userIndex) 0 =
      field (served.arrays.context (served.arrays.total + served.hart)) 0 :=
    congrArg (field · 0) same
  have places := ((HartArrays.field_context_inj served.userIndex_lt inside
    (by decide) (by decide)).mp fields).1
  rw [Served.userIndex] at places
  omega

theorem Served.separate_user : Separate served served.userIndex before :=
  .inl served.user_ne_exception

/-! ## Views -/

section Views

theorem SameStatus.kernelView
    (same : SameStatus (after.machine.csrs .mstatus) (before.machine.csrs .mstatus)) :
    (Traps.kernelView after).status = (Traps.kernelView before).status := by
  funext bit
  by_cases trap : bit ∈ trapBits
  · simp only [Traps.kernelView, if_pos trap]
  · simp only [Traps.kernelView, if_neg trap, same bit trap]

theorem kernelView_congr
    (pc : after.pc = before.pc)
    (mode : after.machine.mode = before.machine.mode)
    (regs : ∀ reg, after.machine.get reg = before.machine.get reg)
    (status : SameStatus (after.machine.csrs .mstatus) (before.machine.csrs .mstatus))
    (csrs : ∀ csr ∈ kernelCsrs, after.machine.csrs csr = before.machine.csrs csr) :
    kernelView after = kernelView before := by
  apply KernelView.ext pc mode (funext regs) status.kernelView
  · exact csrs .stvec (by decide)
  · exact csrs .sepc (by decide)
  · exact csrs .scause (by decide)
  · exact csrs .stval (by decide)

theorem GoesOn.kernelView
    (goesOn : GoesOn before after) :
    Traps.kernelView after = Traps.kernelView before :=
  kernelView_congr goesOn.pc goesOn.mode goesOn.regs goesOn.status goesOn.csrs

theorem SeenAlike.kernelView
    (alike : SeenAlike after before) :
    Traps.kernelView after = Traps.kernelView before :=
  kernelView_congr alike.pc alike.mode alike.regs alike.status alike.csrs

/-- The trap that the hardware would deliver. -/
theorem kernelView_delegatedTrap
    (before : Config xlen.bits)
    (cause tval : Word xlen) :
    kernelView (before.machine.delegatedTrap before.pc cause tval) =
      (kernelView before).trapped cause tval := by
  have wide : 32 ≤ xlen.bits := by
    cases xlen <;> decide
  apply KernelView.ext
  · rfl
  · rfl
  · rfl
  · funext bit
    by_cases trap : bit ∈ trapBits
    · have apart : bit ≠ 1 ∧ bit ≠ 5 ∧ bit ≠ 8 := by
        refine ⟨?_, ?_, ?_⟩
        all_goals
          rintro rfl
          exact absurd trap (by decide)
      simp [kernelView, KernelView.trapped, trap, apart]
    · have one : 1 ∉ trapBits := by decide
      simp only [kernelView, KernelView.trapped, Machine.delegatedTrap, if_neg trap,
        if_neg one, Machine.csrs_setCsr, Function.update_self, getLsbD_setBit]
      by_cases mode : bit = 8
      · simp [mode, show 8 < xlen.bits by omega]
      by_cases enable : bit = 1
      · simp [enable]
      by_cases previous : bit = 5
      · simp [previous, show 5 < xlen.bits by omega]
      · simp [mode, enable, previous]
  all_goals simp [kernelView, KernelView.trapped, Machine.delegatedTrap]

theorem Answered.kernelView
    {result : Sbi.sbiret}
    (answered : Answered before after result) :
    Traps.kernelView after = (Traps.kernelView before).answered result := by
  apply KernelView.ext answered.pc answered.mode
  · funext reg
    by_cases first : reg = .a0
    · rw [first]
      exact answered.a0
    by_cases second : reg = .a1
    · rw [second]
      exact answered.a1
    · exact (answered.regs reg first second).trans
        ((if_neg first).trans (if_neg second)).symm
  · exact answered.status.kernelView
  · exact answered.csrs .stvec (by decide)
  · exact answered.csrs .sepc (by decide)
  · exact answered.csrs .scause (by decide)
  · exact answered.csrs .stval (by decide)

end Views

/-! ## Steps -/

section Steps

theorem OnKernel.instruction
    (onKernel : OnKernel served before)
    (instruction : KernelInstruction served before after) :
    OnKernel served after where
  below := instruction.below
  armed :=
    { arranged :=
        onKernel.armed.arranged.of_same instruction.globals instruction.numbers
      inside := onKernel.armed.inside
      mscratch := (instruction.csrs .mscratch (by decide)).trans onKernel.armed.mscratch
      mhartid := (instruction.csrs .mhartid (by decide)).trans onKernel.armed.mhartid
      mtvec := (instruction.csrs .mtvec (by decide)).trans onKernel.armed.mtvec }

theorem OnKernel.interrupt
    (onKernel : OnKernel served before)
    (episode : Episode served cause tval before after) :
    OnKernel served after := by
  have interrupted := episode.interrupted onKernel.armed
  refine ⟨?_, ?_, onKernel.armed.inside, ?_, ?_, ?_⟩
  · rw [interrupted.mode]
    exact onKernel.below
  · apply onKernel.armed.arranged.of_same interrupted.globals
    intro hart inside
    exact interrupted.others hart (by omega) 0 (by decide) (.inr (.inl rfl))
  · exact (interrupted.csrs .mscratch (by decide)).trans onKernel.armed.mscratch
  · exact (interrupted.csrs .mhartid (by decide)).trans onKernel.armed.mhartid
  · exact (interrupted.csrs .mtvec (by decide)).trans onKernel.armed.mtvec

/-- The handler returns to the kernel, in one way or the other. -/
theorem OnKernel.way
    {post : HandlerEnd xlen → CPU_Context xlen → Prop}
    {stage : Stage xlen}
    {context : CPU_Context xlen}
    {machine : Machine xlen.bits}
    (onKernel : OnKernel served before)
    (serving : Serving served served.userIndex before machine context)
    (way : Way served served.userIndex before post stage context machine after) :
    OnKernel served after := by
  have hartid := (serving.csrs .mhartid (by decide)).trans onKernel.armed.mhartid
  have vector := (serving.csrs .mtvec (by decide)).trans onKernel.armed.mtvec
  cases way with
  | resumes _ resumed =>
      refine ⟨?_, ?_, onKernel.armed.inside, resumed.mscratch, ?_, ?_⟩
      · rw [resumed.mode]
        exact onKernel.below
      · rw [resumed.memory]
        exact serving.arranged
      · exact (resumed.csrs .mhartid (by decide)).trans hartid
      · exact (resumed.csrs .mtvec (by decide)).trans vector
  | delegates _ delegated =>
      refine ⟨?_, ?_, onKernel.armed.inside, delegated.mscratch, ?_, ?_⟩
      · rw [delegated.mode]
        decide
      · rw [delegated.memory]
        exact serving.arranged
      · exact (delegated.csrs .mhartid (by decide)).trans hartid
      · exact (delegated.csrs .mtvec (by decide)).trans vector

theorem OnKernel.exception
    {level : Level xlen}
    (onKernel : OnKernel served before)
    (exception : 0 ≤ cause.toInt)
    (run : LevelReaches served sbi (Level.start served served.userIndex before cause tval)
      level)
    (left : level.stage = .left) :
    OnKernel served level.config := by
  have handled := handled_of_exception sbi onKernel.armed served.separate_user exception tval
  obtain ⟨stage, machine, serving, way⟩ := (handled.underway run).of_left left
  exact onKernel.way serving way

/-- The encodings of the modes differ. -/
theorem eq_U_of_bits
    {mode : Mode}
    (same : BitVec.ofNat xlen.bits mode.bits = BitVec.ofNat xlen.bits EM_U) :
    mode = .U := by
  revert same
  cases mode <;> cases xlen <;> decide

/-- An exception whose handler returns is a step of the ideal hart. -/
theorem OnKernel.idealException
    {level : Level xlen}
    (onKernel : OnKernel served before)
    (exception : 0 ≤ cause.toInt)
    (run : LevelReaches served sbi (Level.start served served.userIndex before cause tval)
      level)
    (left : level.stage = .left) :
    IdealStep sbi (kernelView before) (.exception cause tval) (kernelView level.config) := by
  have separate := @Served.separate_user _ served before
  by_cases delegated : cause.toNat ∈ delegatedCauses ∨
      cause.toNat = 2 ∧ before.machine.mode = .U
  · have handled := handled_of_delegated sbi onKernel.armed separate delegated tval
    have alike := (handled.delegation separate run).2 left
    rw [alike.kernelView, kernelView_delegatedTrap]
    exact .delegated delegated
  rw [not_or] at delegated
  by_cases answers : cause.toNat = 9 ∧ ∃ result, Calls sbi before.machine result
  · obtain ⟨called, returns⟩ := answers
    have handled := handled_of_call onKernel.armed separate called returns tval
    obtain ⟨result, calls, answered⟩ := (handled.answers separate run).2.1 left
    rw [answered.kernelView]
    exact .called called calls
  · -- the handler does not come back to the kernel
    have handled : Handled served sbi served.userIndex before cause tval
        (fun ending _ => ending = .halts ∨ ending = .switches) := by
      refine ⟨onKernel.armed, .inl separate, exception, ?_, ?_⟩
      · apply exception_c_handler_ends delegated.1
        · intro illegal user
          apply delegated.2 ⟨illegal, ?_⟩
          exact eq_U_of_bits user
        · exact separate
        · exact fun called result returns => answers ⟨called, result, returns⟩
      · rintro cause_value mtval context (⟨⟨⟩⟩ | ⟨⟨⟩⟩)
    obtain ⟨stage, machine, -, way⟩ := (handled.underway run).of_left left
    cases way with
    | resumes done => exact absurd done (by simp)
    | delegates done => exact absurd done (by simp)

/-- Each step of the hart is one of the ideal hart. -/
theorem OnKernel.step
    {event : KernelEvent xlen}
    (onKernel : OnKernel served before)
    (step : HartStep served sbi before event after) :
    IdealStep sbi (kernelView before) event (kernelView after) ∧ OnKernel served after := by
  cases step with
  | instruction instruction =>
      exact ⟨.instruction instruction.below, onKernel.instruction instruction⟩
  | interrupt episode =>
      refine ⟨?_, onKernel.interrupt episode⟩
      rw [(episode.interrupted onKernel.armed).goesOn.kernelView]
      exact .interrupt episode.interrupt (episode.returns onKernel.armed)
  | exception exception run left =>
      exact ⟨onKernel.idealException exception run left,
        onKernel.exception exception run left⟩

/-- The hart answers each trap that the ideal hart answers. -/
theorem OnKernel.exists_step
    {event : KernelEvent xlen}
    {view : KernelView xlen}
    (onKernel : OnKernel served before)
    (ideal : IdealStep sbi (kernelView before) event view)
    (trap : event ≠ .instruction) :
    ∃ after, HartStep served sbi before event after := by
  have separate := @Served.separate_user _ served before
  cases ideal with
  | instruction => exact absurd rfl trap
  | @interrupt _ tval interrupt returns =>
      obtain ⟨after, episode⟩ := exists_episode onKernel.armed interrupt returns tval
      exact ⟨after, .interrupt episode⟩
  | @delegated _ tval delegated =>
      have handled := handled_of_delegated sbi onKernel.armed separate delegated tval
      obtain ⟨last, run, left⟩ := (handled.delegation separate .refl).1
      exact ⟨last.config, .exception handled.exception run left⟩
  | @called _ tval result called returns =>
      have handled := handled_of_call onKernel.armed separate called ⟨result, returns⟩ tval
      obtain ⟨last, run, left⟩ := (handled.answers separate .refl).1
      exact ⟨last.config, .exception handled.exception run left⟩

end Steps

/-- Every run of the kernel on the hart with its firmware is a run on the ideal hart,
and in every state the same traps come back to the kernel. -/
theorem kernel_runs_refine
    {first last : Config xlen.bits}
    {events : List (KernelEvent xlen)}
    (onKernel : OnKernel served first)
    (run : Run (HartStep served sbi) first events last) :
    Run (IdealStep sbi) (kernelView first) events (kernelView last) ∧
      OnKernel served last ∧
      ∀ event, event ≠ .instruction →
        ((∃ after, HartStep served sbi last event after) ↔
          ∃ view, IdealStep sbi (kernelView last) event view) := by
  have refined := @Run.refines _ _ _ _ _ (IdealStep sbi) kernelView id (OnKernel served)
    first last events run (fun step holds => holds.step step) onKernel
  rw [List.map_id] at refined
  refine ⟨refined.1, refined.2, ?_⟩
  intro event trap
  constructor
  · rintro ⟨after, step⟩
    exact ⟨_, (refined.2.step step).1⟩
  · rintro ⟨view, ideal⟩
    exact refined.2.exists_step ideal trap

end Runs

/-- The kernel in S-mode makes an SBI call. -/
theorem kernel_runs_refine_board :
    ∃ last, Run (HartStep (boardServed .rv32) (boardCalls .rv32)) (boardHart .rv32 .S 2)
        [.exception 9 0] last ∧
      Run (IdealStep (boardCalls .rv32)) (kernelView (boardHart .rv32 .S 2))
        [.exception 9 0] (kernelView last) := by
  have onKernel : OnKernel (boardServed .rv32) (boardHart .rv32 .S 2) :=
    ⟨by decide, boardHart_armed .rv32 .S (show 2 < 3 by decide)⟩
  obtain ⟨-, -, traps⟩ := @kernel_runs_refine _ (boardServed .rv32) (boardCalls .rv32) _ _ _
    onKernel (.refl _)
  obtain ⟨last, step⟩ := (traps (.exception 9 0) (by rintro ⟨⟩)).mpr
    ⟨_, .called (by decide) rfl⟩
  exact ⟨last, .single step, (kernel_runs_refine onKernel (.single step)).1⟩

end Traps
end EchelonSbi
