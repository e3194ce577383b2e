import EchelonSbi.Foundation.Transition
import EchelonSbi.Harts.Program
import Mathlib.Logic.Function.Basic

/-!
# Harts that share memory

The harts run the operations of `Program` on one sequentially consistent
memory.  Each hart executes at most two pieces of firmware: main code, which
machine interrupts may interrupt, and on top of it a handler, which they may
not.  Below both lies what the hart runs otherwise: the kernel, the idle loop,
or a context it was parked in.
-/

namespace EchelonSbi
namespace Harts

open Foundation
open Sbi

/-- What a hart runs when it executes no firmware function. -/
inductive Base where
  /-- S- or U-mode code. -/
  | kernel
  /-- `idle_loop`, with machine interrupts enabled. -/
  | idle
  /-- The context of `hart_contexts[mhartid]`. -/
  | parked
  deriving DecidableEq, Repr

/-- The two levels of firmware code on one hart. -/
inductive Level where
  | main
  | handler
  deriving DecidableEq, Repr

/-- One hart. -/
structure HartState (xlen : Xlen) where
  base : Base
  /-- What is left of an SBI call or of `kmain`. -/
  main : List (Op xlen)
  /-- What is left of a handler. -/
  handler : Option (List (Op xlen))
  /-- The local `command` of `interrupt_c_handler`. -/
  command : Hart_Command xlen
  /-- `hart_contexts[mhartid]`. -/
  hart_context : CPU_Context xlen
  /-- `hart_contexts_user[mhartid]`. -/
  user_context : CPU_Context xlen
  csrs : Csr → Word xlen

/-- The memory that harts share. -/
structure Memory (xlen : Xlen) where
  locks : Lock → Nat
  sbi_hsm_states : Nat → SBI_HSM
  hart_commands : Nat → Hart_Command xlen
  clint_msip : Nat → Nat

/-- All harts and their memory. -/
structure System (xlen : Xlen) where
  harts : Nat → HartState xlen
  memory : Memory xlen

/-- What an observer sees of one step. -/
inductive Event (xlen : Xlen) where
  | silent
  | interrupted
  /-- The kernel made the call whose code is `ops`. -/
  | called (ops : List (Op xlen))
  /-- A send to `hart_id` took `hart_command_que_locks[hart_id]`. -/
  | acquired (hart_id : Nat)
  /-- `command` was sent to `hart_id`. -/
  | raised (hart_id : Nat) (command : Hart_Command xlen)
  /-- The handler of the hart read `command`. -/
  | received (command : Hart_Command xlen)
  | executed_sfence_vma
  | executed_fence_i
  /-- `sbi_hart_start`, which has prepared `command`, accepted or refused the
  state of `hartid`. -/
  | decided (hartid : Nat) (command : Hart_Command xlen) (accepted : Bool)
  | stored (hartid : Nat) (old new : SBI_HSM)
  | returned (retval : sbiret)
  /-- The hart entered S-mode with these registers. -/
  | entered (context : CPU_Context xlen) (csrs : Csr → Word xlen)
  | switched (context : Word xlen)
  | parked (context : CPU_Context xlen)

/-- One step: the hart, the level of its code, and what happened. -/
structure Label (xlen : Xlen) where
  hart : Nat
  level : Level
  event : Event xlen

namespace HartState

/-- Replace the remaining operations of one level. -/
@[simp]
def put (hart : HartState xlen) (ops : List (Op xlen)) :
    Level → HartState xlen
  | .main => { hart with main := ops }
  | .handler => { hart with handler := some ops }

/-- Assign one field of a context record. -/
def setContext
    (hart : HartState xlen) (field : ContextField) (value : Word xlen) :
    ContextRecord → HartState xlen
  | .hart_contexts =>
      { hart with hart_context := hart.hart_context.set value field }
  | .hart_contexts_user =>
      { hart with user_context := hart.user_context.set value field }

/-- `switch_context` to the context behind `base`: the code that called it is
gone. -/
@[simp]
def switch (hart : HartState xlen) (base : Base) : HartState xlen :=
  { hart with base := base, main := [], handler := none }

/-- The exceptions of a hart that `exception_c_handler` gives up on.  A parked hart
fetches at address 0, where neither board has memory; the kernel can do anything. -/
def Raises (hart : HartState xlen) (cause_value : Nat) : Prop :=
  hart.base = .parked ∧ hart.hart_context.regs REG_PC = 0#_ ∧ cause_value = 1 ∨
    hart.base = .kernel ∧ GivesUpOn cause_value

instance (hart : HartState xlen) (cause_value : Nat) : Decidable (hart.Raises cause_value) :=
  inferInstanceAs (Decidable (_ ∨ _))

/-- What a trap saves where nothing but the base runs.  The register file of
the kernel is accounted for by its own steps; a parked hart saves the registers
it was given, together with its mode. -/
def save (hart : HartState xlen) : HartState xlen :=
  if hart.base = .parked ∧ hart.main = [] then
    { hart with
      hart_context := { hart.hart_context with execution_mode := EM_M } }
  else hart

end HartState

namespace Memory

def setLock (memory : Memory xlen) (lock : Lock) (value : Nat) :
    Memory xlen :=
  { memory with locks := Function.update memory.locks lock value }

def setState (memory : Memory xlen) (hart : Nat) (state : SBI_HSM) :
    Memory xlen :=
  { memory with
    sbi_hsm_states := Function.update memory.sbi_hsm_states hart state }

def setCommand
    (memory : Memory xlen)
    (hart : Nat) (field : CommandField) (value : Word xlen) : Memory xlen :=
  { memory with
    hart_commands := Function.update memory.hart_commands hart
      (field.set (memory.hart_commands hart) value) }

def setMsip (memory : Memory xlen) (hart value : Nat) : Memory xlen :=
  { memory with clint_msip := Function.update memory.clint_msip hart value }

end Memory

/-- What taking a lock shows. -/
def acquireEvent : Lock → Event xlen
  | .hart_command_que_locks hart_id => .acquired hart_id
  | _ => .silent

/-- Execute one operation of hart `h` at `level`, where `rest` follows it. -/
def exec
    (config : Config)
    (h : Nat)
    (level : Level)
    (rest : List (Op config.xlen))
    (hart : HartState config.xlen)
    (memory : Memory config.xlen) :
    Op config.xlen →
      Event config.xlen × HartState config.xlen × Memory config.xlen
  | .wait_load lock =>
      if memory.locks lock = 0 then (.silent, hart.put rest level, memory)
      else (.silent, hart.put (.wait_load lock :: rest) level, memory)
  | .wait_swap lock =>
      if memory.locks lock = 0 then
        (acquireEvent lock, hart.put rest level, memory.setLock lock 1)
      else
        (.silent, hart.put (.wait_load lock :: .wait_swap lock :: rest) level,
          memory.setLock lock 1)
  | .post lock => (.silent, hart.put rest level, memory.setLock lock 0)
  | .print _ => (.silent, hart.put rest level, memory)
  | .sfence_vma => (.executed_sfence_vma, hart.put rest level, memory)
  | .fence_i => (.executed_fence_i, hart.put rest level, memory)
  | .poll hart_id =>
      if memory.clint_msip hart_id = 0 then
        (.silent, hart.put rest level, memory)
      else (.silent, hart.put (.poll hart_id :: rest) level, memory)
  | .copy hart_id field value =>
      (.silent, hart.put rest level, memory.setCommand hart_id field value)
  | .raise hart_id command =>
      (.raised hart_id command, hart.put rest level, memory.setMsip hart_id 1)
  | .check_hart_state hartid command =>
      if refusesStart (memory.sbi_hsm_states hartid) then
        (.decided hartid command false,
          hart.put (startRefused hartid ++ rest) level, memory)
      else
        (.decided hartid command true,
          hart.put (startAccepted hartid command ++ rest) level, memory)
  | .store_hart_state hartid state =>
      (.stored hartid (memory.sbi_hsm_states hartid) state,
        hart.put rest level, memory.setState hartid state)
  | .ret_hart_state hartid =>
      (.returned ⟨SBI_SUCCESS, (memory.sbi_hsm_states hartid).value⟩,
        hart.put [] level, memory)
  | .ret retval => (.returned retval, hart.put [] level, memory)
  | .switch_to_hart_context =>
      (.parked hart.hart_context, hart.switch .parked, memory)
  | .load_command field =>
      (.silent,
        { hart.put rest level with
          command := field.set hart.command
            (field.get (memory.hart_commands h)) },
        memory)
  | .dispatch =>
      (.received hart.command,
        hart.put (handleCommand config h hart.command ++ rest) level, memory)
  | .clear_command =>
      (.silent, hart.put rest level, memory.setCommand h .command 0#_)
  | .clear_msip => (.silent, hart.put rest level, memory.setMsip h 0)
  | .csr_write csr value =>
      (.silent,
        { hart.put rest level with
          csrs := Function.update hart.csrs csr value },
        memory)
  | .csr_bitset csr mask =>
      (.silent,
        { hart.put rest level with
          csrs := Function.update hart.csrs csr (hart.csrs csr ||| mask) },
        memory)
  | .csr_bitclr csr mask =>
      (.silent,
        { hart.put rest level with
          csrs := Function.update hart.csrs csr (hart.csrs csr &&& ~~~mask) },
        memory)
  | .write_context record field value =>
      (.silent, (hart.put rest level).setContext field value record, memory)
  | .resume => (.silent, { hart with handler := none }, memory)
  | .switch_to_user_context =>
      (.entered hart.user_context hart.csrs, hart.switch .kernel, memory)
  | .switch_to_context context =>
      (.switched context, hart.switch .kernel, memory)
  | .halt_not_handled =>
      (.silent, hart.put (.halt_not_handled :: rest) level, memory)
  | .halt_exception =>
      (.silent, hart.put (.halt_exception :: rest) level, memory)

/-- Replace one hart and the memory. -/
def System.set
    (system : System xlen)
    (h : Nat)
    (outcome : Event xlen × HartState xlen × Memory xlen) : System xlen :=
  ⟨Function.update system.harts h outcome.2.1, outcome.2.2⟩

/-- Replace one hart. -/
def System.setHart
    (system : System xlen) (h : Nat) (hart : HartState xlen) : System xlen :=
  { system with harts := Function.update system.harts h hart }

/-- One step of one hart.  `calls` says which main code the kernel of a hart
can start. -/
inductive Step
    (config : Config) (calls : Nat → List (Op config.xlen) → Prop) :
    System config.xlen → Label config.xlen → System config.xlen → Prop
  /-- Main code runs while no handler does. -/
  | main {system : System config.xlen} {h : Nat} {op : Op config.xlen}
      {rest : List (Op config.xlen)} :
      (system.harts h).handler = none →
      (system.harts h).main = op :: rest →
      Step config calls system
        ⟨h, .main, (exec config h .main rest (system.harts h)
          system.memory op).1⟩
        (system.set h (exec config h .main rest (system.harts h)
          system.memory op))
  | handler {system : System config.xlen} {h : Nat} {op : Op config.xlen}
      {rest : List (Op config.xlen)} :
      (system.harts h).handler = some (op :: rest) →
      Step config calls system
        ⟨h, .handler, (exec config h .handler rest (system.harts h)
          system.memory op).1⟩
        (system.set h (exec config h .handler rest (system.harts h)
          system.memory op))
  /-- A machine software interrupt is taken. -/
  | software_interrupt {system : System config.xlen} {h : Nat} :
      (system.harts h).handler = none →
      system.memory.clint_msip h ≠ 0 →
      Step config calls system ⟨h, .handler, .interrupted⟩
        (system.setHart h
          { (system.harts h).save with
            handler := some machineSoftwareInterrupt })
  /-- A machine timer interrupt is taken; software interrupts come first. -/
  | timer_interrupt {system : System config.xlen} {h : Nat} :
      (system.harts h).handler = none →
      system.memory.clint_msip h = 0 →
      Step config calls system ⟨h, .handler, .interrupted⟩
        (system.setHart h
          { (system.harts h).save with
            handler := some (machineTimerInterrupt config h) })
  /-- The kernel makes a call. -/
  | call {system : System config.xlen} {h : Nat}
      {ops : List (Op config.xlen)} :
      (system.harts h).base = .kernel →
      (system.harts h).main = [] →
      (system.harts h).handler = none →
      calls h ops →
      Step config calls system ⟨h, .main, .called ops⟩
        (system.setHart h { system.harts h with main := ops })
  /-- The kernel, the idle loop or the rest of `kmain` runs: the registers that
  the next trap saves, and the control registers, become anything. -/
  | run {system : System config.xlen} {h : Nat}
      {user_context : CPU_Context config.xlen}
      {csrs : Csr → Word config.xlen} :
      (system.harts h).base = .idle ∨
        (system.harts h).base = .kernel ∧ (system.harts h).main = [] →
      (system.harts h).handler = none →
      Step config calls system ⟨h, .main, .silent⟩
        (system.setHart h
          { system.harts h with user_context := user_context, csrs := csrs })
  /-- A hart has an exception that `exception_c_handler` gives up on. -/
  | exception {system : System config.xlen} {h cause_value : Nat}
      {lines : List String} :
      (system.harts h).Raises cause_value →
      (system.harts h).main = [] →
      (system.harts h).handler = none →
      Step config calls system ⟨h, .handler, .interrupted⟩
        (system.setHart h
          { (system.harts h).save with
            handler := some (exceptionHalt h cause_value lines) })

/-- A step of one hart is no step of another. -/
theorem Step.frame
    {config : Config}
    {calls : Nat → List (Op config.xlen) → Prop}
    {system next : System config.xlen}
    {label : Label config.xlen}
    {g : Nat}
    (step : Step config calls system label next)
    (other : g ≠ label.hart) :
    next.harts g = system.harts g := by
  cases step <;> exact Function.update_of_ne other ..

/-- While a handler runs on a hart, the hart does nothing else. -/
theorem Step.running
    {config : Config}
    {calls : Nat → List (Op config.xlen) → Prop}
    {system next : System config.xlen}
    {label : Label config.xlen}
    {ops : List (Op config.xlen)}
    (step : Step config calls system label next)
    (code : (system.harts label.hart).handler = some ops) :
    ∃ op rest, ops = op :: rest ∧ label.level = .handler ∧
      label.event = (exec config label.hart .handler rest
        (system.harts label.hart) system.memory op).1 ∧
      next = system.set label.hart (exec config label.hart .handler rest
        (system.harts label.hart) system.memory op) := by
  cases step with
  | @handler h op rest runs =>
      cases code.symm.trans runs
      exact ⟨op, rest, rfl, rfl, rfl, rfl⟩
  | main idle _ => cases idle.symm.trans code
  | software_interrupt idle _ => cases idle.symm.trans code
  | timer_interrupt idle _ => cases idle.symm.trans code
  | call _ _ idle _ => cases idle.symm.trans code
  | run _ idle => cases idle.symm.trans code
  | exception _ _ idle => cases idle.symm.trans code

/-- The calls of a kernel: any SBI call with any arguments. -/
def sbiCalls (config : Config) (h : Nat) (ops : List (Op config.xlen)) :
    Prop :=
  ∃ request, ops = call_to_sbi config.toPlatform h request

/-- The context record that `kinit` leaves for a hart. -/
def kinitContext (config : Config) (h : Nat) : CPU_Context config.xlen where
  context_id := BitVec.ofNat _ h
  execution_mode := EM_M
  reserved_0 := 0#_
  regs i :=
    if i = REG_TP then config.hart_tp h
    else if i = REG_SP then config.hart_sp h
    else 0#_

/-- The state after `kinit`: hart 0 is about to run the end of `kmain`, and
every other hart is about to return from `hart_init_handler` to the idle
loop. -/
structure Booted (config : Config) (system : System config.xlen) : Prop where
  boot_main : ∃ stack, (system.harts 0).main = kmain config stack
  boot_handler : (system.harts 0).handler = none
  other_main : ∀ h, h ≠ 0 → (system.harts h).main = []
  other_handler : ∀ h, h ≠ 0 → (system.harts h).handler = some [.resume]
  base : ∀ h, (system.harts h).base = .idle
  hart_context : ∀ h, (system.harts h).hart_context = kinitContext config h
  locks : ∀ lock, system.memory.locks lock = 0
  states : ∀ h, system.memory.sbi_hsm_states h = .STOPPED
  commands : ∀ h, system.memory.hart_commands h = .cleared
  msip : ∀ h, system.memory.clint_msip h = 0

/-- A state after `kinit`. -/
def bootSystem (config : Config) : System config.xlen where
  harts h :=
    { base := .idle
      main := if h = 0 then kmain config .cleared else []
      handler := if h = 0 then none else some [.resume]
      command := .cleared
      hart_context := kinitContext config h
      user_context := ⟨0#_, 0#_, 0#_, fun _ => 0#_⟩
      csrs := fun _ => 0#_ }
  memory :=
    { locks := fun _ => 0
      sbi_hsm_states := fun _ => .STOPPED
      hart_commands := fun _ => .cleared
      clint_msip := fun _ => 0 }

theorem bootSystem_booted (config : Config) :
    Booted config (bootSystem config) where
  boot_main := ⟨.cleared, by simp [bootSystem]⟩
  boot_handler := by simp [bootSystem]
  other_main h other := by simp [bootSystem, other]
  other_handler h other := by simp [bootSystem, other]
  base _ := rfl
  hart_context _ := rfl
  locks _ := rfl
  states _ := rfl
  commands _ := rfl
  msip _ := rfl

/-- Two harts, both for the kernel. -/
def twoHartBoard : Config where
  xlen := .rv64
  TOTAL_HART_COUNT := 2
  USE_HART_COUNT := 2
  use_le_total := Nat.le_refl 2
  total_le_size := by decide
  MM_QEMU_VIRT := false
  kernel_load_to_point := 0x80200000#_
  dtb_load_to_point := 0x82000000#_
  hart_has_menvcfg _ := false
  sstc_writable _ := false
  hart_tp h := BitVec.ofNat _ (0x80100000 + 0x100 * h)
  hart_sp h := BitVec.ofNat _ (0x80110000 + 0x1000 * h)

end Harts
end EchelonSbi
