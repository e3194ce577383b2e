import EchelonSbi.Traps.Levels

/-!
# What a hart keeps in the handler of an exception

C code, the writes of the handler and interrupts that return leave the machine to
the handler as it needs it.  The context of the trap is what the handler made of it
if interrupts save to another one.
-/

namespace EchelonSbi
namespace Traps

open Riscv

variable {xlen : Xlen} {served : Served xlen} {index : Nat} {before : Config xlen.bits}

/-! ## Contexts in memory -/

section Contexts

variable {memory later : Word xlen → Word xlen} {record : Word xlen}

theorem contextAt_congr
    (same : ∀ word < 35, later (field record word) = memory (field record word)) :
    contextAt later record = contextAt memory record := by
  have regs (reg : Reg) : later (regField record reg) = memory (regField record reg) := by
    have small := regNumber_lt reg
    rw [regField_eq_field]
    exact same _ (by omega)
  simp only [contextAt, same 0 (by decide), same 1 (by decide), same 2 (by decide), regs]

/-- A write of a register of a context. -/
theorem contextAt_update
    (memory : Word xlen → Word xlen)
    (record : Word xlen)
    (reg : Reg)
    (value : Word xlen) :
    contextAt (Function.update memory (regField record reg) value) record =
      (contextAt memory record).setReg reg value := by
  have apart (word : Nat) (first : word < 3) :
      field record word ≠ regField record reg := by
    have small := regNumber_lt reg
    rw [regField_eq_field, Ne, field_inj (by omega) (by omega)]
    omega
  have regs : (fun other =>
      Function.update memory (regField record reg) value (regField record other)) =
        Function.update (fun other => memory (regField record other)) reg value := by
    funext other
    by_cases own : other = reg
    · rw [own, Function.update_self, Function.update_self]
    · rw [Function.update_of_ne own,
        Function.update_of_ne fun same => own (regField_inj.mp same)]
  simp only [contextAt, CPU_Context.setReg, regs,
    Function.update_of_ne (apart 0 (by decide)), Function.update_of_ne (apart 1 (by decide)),
    Function.update_of_ne (apart 2 (by decide))]

/-- The context that a trap leaves in memory. -/
theorem SavedAt.contextAt
    {trapped : Machine xlen.bits}
    (inside : index < 3 * served.arrays.total)
    {cause tval : Word xlen}
    (same : trapped = (before.machine.trap before.pc cause tval).machine)
    (saved : SavedAt (served.arrays.context index) trapped memory) :
    Traps.contextAt memory (served.arrays.context index) =
      trapContext served index before := by
  have kept (word : Nat) (apart : word = 0 ∨ word = 2) :
      memory (field (served.arrays.context index) word) =
        before.machine.memory (field (served.arrays.context index) word) := by
    subst same
    exact saved.others inside inside (by omega) (.inr apart)
  have mode : memory (field (served.arrays.context index) 1) =
      BitVec.ofNat xlen.bits before.machine.mode.bits := by
    rw [saved.execution_mode, same]
    exact trapped_mode _ _ _ _
  have regs (reg : Reg) : memory (regField (served.arrays.context index) reg) =
      if reg = .zero then before.pc else before.machine.get reg := by
    split_ifs with wired
    · rw [wired, saved.pc, same]
      simp [Machine.trap]
    · rw [saved.regs reg wired, same]
      rfl
  simp only [Traps.contextAt, trapContext, kept 0 (.inl rfl), kept 2 (.inr rfl), mode, regs]

end Contexts

/-! ## The invariant of the handler -/

/-- What the hart keeps in the handler of an exception. -/
structure Serving
    (served : Served xlen) (index : Nat) (before : Config xlen.bits)
    (machine : Machine xlen.bits) (context : CPU_Context xlen) : Prop where
  mode : machine.mode = .M
  status : SameStatus (machine.csrs .mstatus) (before.machine.csrs .mstatus)
  mscratch : machine.csrs .mscratch = served.exception
  csrs : ∀ csr ∉ Csr.mscratch :: trapCsrs, machine.csrs csr = before.machine.csrs csr
  arranged : served.Arranged machine.memory
  execution_mode :
    machine.memory (field (served.arrays.context index) 1) = context.execution_mode
  trapped : context.execution_mode = BitVec.ofNat xlen.bits before.machine.mode.bits
  guarded : machine.MIE = true → Separate served index before →
    served.arrays.context index ≠ served.exception
  saved : Separate served index before →
    contextAt machine.memory (served.arrays.context index) = context

namespace Serving

variable {machine after : Machine xlen.bits} {context : CPU_Context xlen}

/-- The registers of the C code do not matter. -/
theorem setReg
    (serving : Serving served index before machine context)
    (reg : Reg)
    (value : Word xlen) :
    Serving served index before (machine.setReg reg value) context where
  mode := serving.mode
  status := serving.status
  mscratch := serving.mscratch
  csrs := serving.csrs
  arranged := serving.arranged
  execution_mode := serving.execution_mode
  trapped := serving.trapped
  guarded := serving.guarded
  saved := serving.saved

/-- C code keeps the contexts. -/
theorem frame
    (inside : index < 3 * served.arrays.total)
    (serving : Serving served index before machine context)
    (frame : CFrame served machine after) :
    Serving served index before after context where
  mode := frame.mode.trans serving.mode
  status := frame.csrs ▸ serving.status
  mscratch := (congrFun frame.csrs _).trans serving.mscratch
  csrs csr outside := (congrFun frame.csrs csr).trans (serving.csrs csr outside)
  arranged :=
    serving.arranged.of_same frame.globals fun hart within =>
      frame.contexts hart (by omega) 0 (by decide)
  execution_mode := (frame.contexts index inside 1 (by decide)).trans serving.execution_mode
  trapped := serving.trapped
  guarded enabled := by
    rw [Machine.MIE, frame.csrs] at enabled
    exact serving.guarded enabled
  saved separate :=
    (contextAt_congr (frame.contexts index inside)).trans (serving.saved separate)

/-- The handler writes a register of the context. -/
theorem store
    (inside : index < 3 * served.arrays.total)
    (serving : Serving served index before machine context)
    (reg : Reg)
    (value : Word xlen) :
    Serving served index before
      (machine.store (regField (served.arrays.context index) reg) value)
      (context.setReg reg value) := by
  have small := regNumber_lt reg
  have apart (other word : Nat) (otherInside : other < 3 * served.arrays.total)
      (first : word < 3) :
      field (served.arrays.context other) word ≠
        regField (served.arrays.context index) reg := by
    rw [regField_eq_field, Ne,
      HartArrays.field_context_inj otherInside inside (by omega) (by omega)]
    omega
  constructor
  · exact serving.mode
  · exact serving.status
  · exact serving.mscratch
  · exact serving.csrs
  · apply serving.arranged.of_same
    · intro name
      apply Function.update_of_ne
      rw [regField_eq_field]
      exact served.outside name index inside _ (by omega)
    · intro hart within
      exact Function.update_of_ne (apart hart 0 (by omega) (by decide)) _ _
  · exact (Function.update_of_ne (apart index 1 inside (by decide)) _ _).trans
      serving.execution_mode
  · exact serving.trapped
  · exact serving.guarded
  · intro separate
    rw [Machine.memory_store, contextAt_update, serving.saved separate]

/-- The handler disables interrupts. -/
theorem disabled
    (serving : Serving served index before machine context) :
    Serving served index before (disabled machine) context where
  mode := serving.mode
  status := status_disabled.trans serving.status
  mscratch := serving.mscratch
  csrs csr outside := by
    have other : csr ≠ .mstatus := by
      rintro rfl
      exact outside (by decide)
    rw [csrs_disabled other]
    exact serving.csrs csr outside
  arranged := serving.arranged
  execution_mode := serving.execution_mode
  trapped := serving.trapped
  guarded enabled := by
    have off := (quiet_disabled serving.mode).mie
    rw [enabled] at off
    cases off
  saved := serving.saved

/-- Interrupts are enabled by `csrsi mstatus, 0x8`. -/
theorem enabled
    (serving : Serving served index before machine context)
    (apart : (trapContext served index before).offset_8 ≠ 3) :
    Serving served index before
      (machine.setCsr .mstatus (machine.csrs .mstatus ||| BitVec.ofNat xlen.bits 0x8))
      context := by
  have others (csr : Csr) (other : csr ≠ .mstatus) :
      (machine.setCsr .mstatus
        (machine.csrs .mstatus ||| BitVec.ofNat xlen.bits 0x8)).csrs csr =
          machine.csrs csr :=
    Function.update_of_ne other _ _
  constructor
  · exact serving.mode
  · intro bit outside
    have three : bit ≠ 3 := by
      rintro rfl
      exact outside (by decide)
    have mask := @getLsbD_pow xlen 3 (by decide) bit
    rw [show (2 : Nat) ^ 3 = 0x8 from rfl, decide_eq_false three] at mask
    rw [Machine.csrs_setCsr, Function.update_self, BitVec.getLsbD_or, mask, Bool.or_false]
    exact serving.status bit outside
  · exact (others .mscratch (by decide)).trans serving.mscratch
  · intro csr outside
    have other : csr ≠ .mstatus := by
      rintro rfl
      exact outside (by decide)
    exact (others csr other).trans (serving.csrs csr outside)
  · exact serving.arranged
  · exact serving.execution_mode
  · exact serving.trapped
  · exact fun _ separate => separate.resolve_right apart
  · exact serving.saved

/-- Interrupts of the handler are served with the context for them. -/
theorem armed
    (hartid : before.machine.csrs .mhartid = BitVec.ofNat xlen.bits served.hart)
    (vector : before.machine.csrs .mtvec = served.firmware.place Firmware.entry)
    (serving : Serving served index before machine context) :
    Armed served (served.arrays.total + served.hart) machine where
  arranged := serving.arranged
  inside := by
    have := served.hart_lt
    omega
  mscratch := serving.mscratch
  mhartid := (serving.csrs .mhartid (by decide)).trans hartid
  mtvec := (serving.csrs .mtvec (by decide)).trans vector

/-- An interrupt keeps the context of the trap, if it saves to another one. -/
theorem interrupted
    {config other : Config xlen.bits}
    (inside : index < 3 * served.arrays.total)
    (sound : Separate served index before ∨ before.machine.mode = .M)
    (serving : Serving served index before config.machine context)
    (taken : config.machine.Interruptible)
    (interrupted :
      Interrupted served (served.arrays.total + served.hart) config other) :
    Serving served index before other.machine context := by
  have enabled : config.machine.MIE = true :=
    taken.resolve_left (not_not.mpr serving.mode)
  have elsewhere (separate : Separate served index before) :
      index ≠ served.arrays.total + served.hart := by
    rintro rfl
    exact serving.guarded enabled separate rfl
  have hart := served.hart_lt
  constructor
  · exact interrupted.mode.trans serving.mode
  · exact interrupted.status.trans serving.status
  · exact (interrupted.csrs .mscratch (by decide)).trans serving.mscratch
  · intro csr outside
    refine (interrupted.csrs csr fun member => ?_).trans (serving.csrs csr outside)
    exact outside (List.mem_cons_of_mem _ member)
  · apply serving.arranged.of_same interrupted.globals
    intro hart within
    exact interrupted.others hart (by omega) 0 (by decide) (.inr (.inl rfl))
  · by_cases own : index = served.arrays.total + served.hart
    · -- the interrupt overwrites the mode of the trap with the same one
      have machine : before.machine.mode = .M :=
        sound.resolve_left fun separate => elsewhere separate own
      rw [serving.trapped, machine, own, interrupted.execution_mode, serving.mode]
    · rw [interrupted.others index inside 1 (by decide) (.inl own)]
      exact serving.execution_mode
  · exact serving.trapped
  · exact fun _ => serving.guarded enabled
  · intro separate
    rw [← serving.saved separate]
    apply contextAt_congr
    intro word within
    exact interrupted.others index inside word within (.inl (elsewhere separate))

end Serving

end Traps
end EchelonSbi
