import EchelonSbi.Harts.Management
import EchelonSbi.Harts.Operations
import EchelonSbi.Harts.Schedule

/-!
# The context in which a hart is parked

`kinit` gives the context of a hart a mode, a stack and a thread pointer, and
leaves its program counter cleared.  No later writer of the context changes
any of them.
-/

namespace EchelonSbi
namespace Harts

open Foundation
open Sbi

variable {xlen : Xlen}

/-- The context lets hart `h` wait at an address of the code `firmware`. -/
structure ParkedInFirmware
    (config : Config) (firmware : Word config.xlen → Prop) (h : Nat)
    (context : CPU_Context config.xlen) : Prop where
  execution_mode : context.execution_mode = EM_M
  sp : context.regs REG_SP = config.hart_sp h
  tp : context.regs REG_TP = config.hart_tp h
  /-- The cleared register is no address of the code. -/
  pc : firmware (context.regs REG_PC) ∧ context.regs REG_PC ≠ 0#_

/-- What stays in `hart_contexts[h]` of what `kinit` wrote. -/
structure Unmoved
    (config : Config) (h : Nat) (context : CPU_Context config.xlen) : Prop where
  execution_mode : context.execution_mode = EM_M
  sp : context.regs REG_SP = config.hart_sp h
  tp : context.regs REG_TP = config.hart_tp h
  pc : context.regs REG_PC = 0#_

/-- Operations that leave the place of `hart_contexts[mhartid]` alone. -/
@[simp]
def Op.KeepsPlace : Op xlen → Prop
  | .write_context .hart_contexts (.regs i) _ =>
      i ≠ REG_PC ∧ i ≠ REG_SP ∧ i ≠ REG_TP
  | .write_context .hart_contexts _ _ => False
  | _ => True

/-- Code that leaves the place alone. -/
def KeepsPlace (ops : List (Op xlen)) : Prop :=
  EverySuffix (fun op _ => op.KeepsPlace) ops

theorem keepsPlace_iff {ops : List (Op xlen)} :
    KeepsPlace ops ↔ ∀ op ∈ ops, op.KeepsPlace :=
  everySuffix_iff_forall

section Code

variable {left right : List (Op xlen)}

theorem KeepsPlace.append
    (first : KeepsPlace left)
    (second : KeepsPlace right) :
    KeepsPlace (left ++ right) := by
  rw [keepsPlace_iff] at *
  intro op member
  rcases List.mem_append.mp member with before | after
  · exact first op before
  · exact second op after

theorem KeepsPlace.flatMap
    {items : List α}
    {code : α → List (Op xlen)}
    (each : ∀ item ∈ items, KeepsPlace (code item)) :
    KeepsPlace (items.flatMap code) := by
  rw [keepsPlace_iff]
  intro op member
  obtain ⟨item, inside, here⟩ := List.mem_flatMap.mp member
  exact keepsPlace_iff.mp (each item inside) op here

/-- Operations of calls assign no field of the place. -/
theorem Op.OfCall.keepsPlace {op : Op xlen} (ofCall : op.OfCall) :
    op.KeepsPlace := by
  cases op with
  | write_context record field value =>
      obtain ⟨rfl, rfl | rfl | rfl⟩ := ofCall <;>
        simp [Op.KeepsPlace, REG_A0, REG_A1, REG_A2, REG_PC, REG_SP, REG_TP]
  | _ => trivial

theorem KeepsPlace.of_ofCall
    {ops : List (Op xlen)}
    (ofCall : ∀ op ∈ ops, op.OfCall) :
    KeepsPlace ops :=
  keepsPlace_iff.mpr fun op member => (ofCall op member).keepsPlace

theorem printm_keeps (text : String) :
    KeepsPlace (printm text : List (Op xlen)) :=
  .of_ofCall (printm_ofCall text)

theorem startContext_keeps (h : Nat) (command : Hart_Command xlen) :
    KeepsPlace (startContext h command) := by
  rw [keepsPlace_iff]
  intro op member
  simp only [startContext, clear_hart_context, List.mem_append, List.mem_cons,
    List.mem_map, List.not_mem_nil, or_false] at member
  rcases member with (setup | (rfl | rfl | rfl) | ⟨i, -, rfl⟩) | fields
  · rcases setup with rfl | rfl | rfl | rfl | rfl | rfl | rfl <;> trivial
  · trivial
  · trivial
  · trivial
  · trivial
  · rcases fields with rfl | rfl | rfl | rfl | rfl <;> trivial

theorem qemuFixes_keeps (config : Config) (h : Nat) :
    KeepsPlace (qemuFixes config h) := by
  refine KeepsPlace.append (.append (.append ?_ ?_) ?_) ?_
  · simp [KeepsPlace]
  · split_ifs
    · split <;> simp [KeepsPlace]
    · trivial
  · split_ifs
    · exact (printm_keeps _).append (by simp [KeepsPlace])
    · trivial
  · split_ifs <;> simp [KeepsPlace]

theorem handle_keeps
    (config : Config)
    (h : Nat)
    (command : Hart_Command config.xlen) :
    KeepsPlace (handleCommand config h command) := by
  unfold handleCommand
  split_ifs
  · simp [KeepsPlace]
  · have fixes : KeepsPlace
        (if config.MM_QEMU_VIRT then qemuFixes config h else []) := by
      split_ifs
      · exact qemuFixes_keeps config h
      · trivial
    refine KeepsPlace.append ?_ (by simp [KeepsPlace])
    refine KeepsPlace.append ?_ (by simp [KeepsPlace, ksem_post])
    refine KeepsPlace.append ?_ (by simp [KeepsPlace])
    refine KeepsPlace.append ?_ (by simp [KeepsPlace, ksem_wait])
    exact ((printm_keeps _).append fixes).append (startContext_keeps ..)
  · simp [KeepsPlace]
  · simp [KeepsPlace]
  · simp [KeepsPlace]
  · simp [KeepsPlace]
  · exact (printm_keeps _).append (by simp [KeepsPlace])

theorem software_keeps :
    KeepsPlace (machineSoftwareInterrupt : List (Op xlen)) := by
  simp [KeepsPlace, machineSoftwareInterrupt, CommandField.all]

theorem timer_keeps (config : Config) (h : Nat) :
    KeepsPlace (machineTimerInterrupt config h) := by
  unfold machineTimerInterrupt
  split_ifs <;> simp [KeepsPlace]

theorem exception_keeps (h cause_value : Nat) (lines : List String) :
    KeepsPlace (exceptionHalt h cause_value lines : List (Op xlen)) :=
  ((KeepsPlace.append (by simp [KeepsPlace]) (printm_keeps _)).append
    (.flatMap fun _ _ => printm_keeps _)).append (by simp [KeepsPlace])

end Code

/-- All code leaves the place of every hart alone, and it is as after
`kinit`. -/
structure Placed (config : Config) (system : System config.xlen) : Prop where
  main : ∀ k, KeepsPlace (system.harts k).main
  handler : ∀ k ops, (system.harts k).handler = some ops → KeepsPlace ops
  context : ∀ k, Unmoved config k (system.harts k).hart_context

section Step

variable {config : Config} {system next : System config.xlen}
  {label : Label config.xlen} {k : Nat}
  {op : Op config.xlen} {rest ops : List (Op config.xlen)}

@[simp]
theorem put_hart_context
    (hart : HartState xlen) (ops : List (Op xlen)) (level : Level) :
    (hart.put ops level).hart_context = hart.hart_context := by
  cases level <;> rfl

theorem Unmoved.set_regs
    {context : CPU_Context config.xlen}
    {i : Fin 32}
    {value : Word config.xlen}
    (unmoved : Unmoved config k context)
    (other : i ≠ REG_PC ∧ i ≠ REG_SP ∧ i ≠ REG_TP) :
    Unmoved config k (context.set value (.regs i)) :=
  ⟨unmoved.execution_mode, by simp [CPU_Context.set, other.2.1.symm, unmoved.sp],
    by simp [CPU_Context.set, other.2.2.symm, unmoved.tp],
    by simp [CPU_Context.set, other.1.symm, unmoved.pc]⟩

/-- An operation that leaves the place alone. -/
theorem exec_unmoved
    {h : Nat}
    {level : Level}
    {hart : HartState config.xlen}
    {memory : Memory config.xlen}
    (keeps : op.KeepsPlace)
    (unmoved : Unmoved config k hart.hart_context) :
    Unmoved config k
      (exec config h level rest hart memory op).2.1.hart_context := by
  cases op with
  | write_context record field value =>
      cases record with
      | hart_contexts_user => cases level <;> exact unmoved
      | hart_contexts =>
          cases field with
          | regs i =>
              simpa only [exec, HartState.setContext, put_hart_context]
                using unmoved.set_regs keeps
          | _ => exact keeps.elim
  | wait_load lock =>
      simp only [exec]
      split_ifs <;> cases level <;> exact unmoved
  | wait_swap lock =>
      simp only [exec]
      split_ifs <;> cases level <;> exact unmoved
  | poll t =>
      simp only [exec]
      split_ifs <;> cases level <;> exact unmoved
  | check_hart_state t command =>
      simp only [exec]
      split_ifs <;> cases level <;> exact unmoved
  | _ => cases level <;> exact unmoved

theorem Continues.keepsPlace
    {command : Hart_Command config.xlen}
    (continues : Continues config k command op rest ops)
    (keeps : KeepsPlace (op :: rest)) :
    KeepsPlace ops := by
  refine continues.keeps keeps (fun _ => trivial) (fun {t start} _ => ?_)
    fun _ => ?_
  · have refused : KeepsPlace (startRefused t : List (Op config.xlen)) :=
      .of_ofCall (startRefused_ofCall t)
    have accepted := KeepsPlace.of_ofCall (startAccepted_ofCall t start)
    exact ⟨refused.append keeps.2, accepted.append keeps.2⟩
  · exact (handle_keeps ..).append keeps.2

/-- One hart moves. -/
theorem Placed.set
    {outcome : Event config.xlen × HartState config.xlen × Memory config.xlen}
    (placed : Placed config system)
    (main : KeepsPlace outcome.2.1.main)
    (handler : ∀ ops, outcome.2.1.handler = some ops → KeepsPlace ops)
    (context : Unmoved config k outcome.2.1.hart_context) :
    Placed config (system.set k outcome) := by
  refine ⟨fun j => ?_, fun j ops => ?_, fun j => ?_⟩
  · by_cases same : j = k
    · subst same
      rwa [set_self]
    · rw [set_of_ne same]
      exact placed.main j
  · by_cases same : j = k
    · subst same
      rw [set_self]
      exact handler ops
    · rw [set_of_ne same]
      exact placed.handler j ops
  · by_cases same : j = k
    · subst same
      rwa [set_self]
    · rw [set_of_ne same]
      exact placed.context j

/-- An interrupt saves at most the mode of the parked context. -/
theorem Placed.interrupt
    (placed : Placed config system)
    (keeps : KeepsPlace ops) :
    Placed config (system.setHart k
      { (system.harts k).save with handler := some ops }) := by
  rw [setHart_eq_set]
  refine placed.set (by simpa using placed.main k) (by rintro _ ⟨⟩; exact keeps) ?_
  have before := placed.context k
  simp only [HartState.save]
  split_ifs
  · exact ⟨rfl, before.sp, before.tp, before.pc⟩
  · exact before

theorem Placed.step
    (placed : Placed config system)
    (step : Step config (sbiCalls config) system label next) :
    Placed config next := by
  cases step with
  | @main k op rest idle code =>
      have keeps := placed.main k
      rw [code] at keeps
      refine placed.set ((exec_main_continues code).keepsPlace keeps) ?_
        (exec_unmoved keeps.1 (placed.context k))
      intro ops running
      cases (exec_main_handler idle).symm.trans running
  | @handler k op rest code =>
      have keeps := placed.handler k _ code
      refine placed.set ?_
        (fun ops after => (exec_handler_continues after).keepsPlace keeps)
        (exec_unmoved keeps.1 (placed.context k))
      rcases exec_handler_main with same | dropped
      · rw [same]
        exact placed.main k
      · rw [dropped]
        trivial
  | software_interrupt idle up => exact placed.interrupt software_keeps
  | timer_interrupt idle low => exact placed.interrupt (timer_keeps ..)
  | @call k ops kernel empty idle allowed =>
      obtain ⟨request, rfl⟩ := allowed
      rw [setHart_eq_set]
      exact placed.set (.of_ofCall (call_ofCall _ k request)) (placed.handler k) (placed.context k)
  | @run k user_context csrs outside idle =>
      rw [setHart_eq_set]
      exact placed.set (placed.main k) (placed.handler k) (placed.context k)
  | exception raises empty idle =>
      exact placed.interrupt (exception_keeps ..)

theorem Booted.placed (booted : Booted config system) :
    Placed config system := by
  refine ⟨fun k => ?_, fun k ops running => ?_, fun k => ?_⟩
  · by_cases boot : k = 0
    · obtain ⟨stack, main⟩ := booted.boot_main
      rw [boot, main]
      exact .of_ofCall (kmain_ofCall config stack)
    · rw [booted.other_main k boot]
      trivial
  · by_cases boot : k = 0
    · rw [boot, booted.boot_handler] at running
      cases running
    · rw [booted.other_handler k boot] at running
      cases running
      simp [KeepsPlace]
  · rw [booted.hart_context k]
    exact ⟨rfl, rfl, rfl, rfl⟩

theorem exec_parked
    {h : Nat}
    {level : Level}
    {hart : HartState config.xlen}
    {memory : Memory config.xlen}
    {context : CPU_Context config.xlen}
    (parked : (exec config h level rest hart memory op).1 = .parked context) :
    context = hart.hart_context := by
  cases op with
  | switch_to_hart_context => cases parked; rfl
  | wait_load lock => simp only [exec] at parked; split_ifs at parked
  | wait_swap lock =>
      simp only [exec] at parked
      split_ifs at parked
      cases lock <;> cases parked
  | poll t => simp only [exec] at parked; split_ifs at parked
  | check_hart_state t command => simp only [exec] at parked; split_ifs at parked
  | _ => cases parked

/-- A hart parks in its own context. -/
theorem Step.parked
    {context : CPU_Context config.xlen}
    {calls : Nat → List (Op config.xlen) → Prop}
    (step : Step config calls system label next)
    (parks : label.event = .parked context) :
    context = (system.harts label.hart).hart_context := by
  cases step with
  | main _ _ => exact exec_parked parks
  | handler _ => exact exec_parked parks
  | _ => cases parks

/-- Along a run from boot, a hart parks where `kinit` left its context. -/
theorem Booted.parks_unmoved
    {first last : System config.xlen}
    {labels : List (Label config.xlen)}
    {context : CPU_Context config.xlen}
    (booted : Booted config first)
    (run : Run (Step config (sbiCalls config)) first labels last)
    (taken : label ∈ labels)
    (parks : label.event = .parked context) :
    Unmoved config label.hart context := by
  obtain ⟨before, after, rfl⟩ := List.append_of_mem taken
  obtain ⟨middle, earlier, later⟩ := run.of_append
  obtain ⟨_, step, -⟩ := later.of_cons
  have placed := earlier.invariant (fun taken before => before.step taken)
    booted.placed
  rw [step.parked parks]
  exact placed.context label.hart

/-- Whenever a hart parks, it does so with the mode, the stack and the thread
pointer of `kinit`, but at address 0, whatever addresses the firmware's code
has. -/
theorem parked_at_zero
    {first last : System config.xlen}
    {labels : List (Label config.xlen)}
    {context : CPU_Context config.xlen}
    (booted : Booted config first)
    (run : Run (Step config (sbiCalls config)) first labels last)
    (taken : label ∈ labels)
    (parks : label.event = .parked context) :
    Unmoved config label.hart context ∧
      ∀ firmware, ¬ParkedInFirmware config firmware label.hart context := by
  have unmoved := booted.parks_unmoved run taken parks
  exact ⟨unmoved, fun firmware inFirmware => inFirmware.pc.2 unmoved.pc⟩

/-- The boot hart enters the kernel, which stops it. -/
def stopSchedule : List (Move twoHartBoard.xlen) :=
  bootSchedule ++ .call 0 .hart_stop :: List.replicate 9 (.advance 0)

/-- A step in which a hart parks. -/
def Label.parks (label : Label xlen) : Bool :=
  match label.event with
  | .parked _ => true
  | _ => false

theorem Label.event_of_parks
    {label : Label xlen}
    (parks : label.parks = true) :
    ∃ context, label.event = .parked context := by
  unfold Label.parks at parks
  split at parks
  · next context event => exact ⟨context, event⟩
  · cases parks

set_option maxRecDepth 4000 in
theorem stop_reaches_parking :
    ∃ labels last label context,
      Run (Step twoHartBoard (sbiCalls twoHartBoard)) (bootSystem twoHartBoard)
        labels last ∧ label ∈ labels ∧ label.event = .parked context := by
  have played : (play twoHartBoard stopSchedule
      (bootSystem twoHartBoard)).any (fun result =>
        result.1.any Label.parks) = true := by
    decide
  obtain ⟨labels, last, run, -, reached⟩ :=
    play_reaches (fun labels _ => labels.any Label.parks) played
  obtain ⟨label, taken, parks⟩ := List.any_eq_true.mp reached
  obtain ⟨context, event⟩ := Label.event_of_parks parks
  exact ⟨labels, last, label, context, run, taken, event⟩

theorem parked_at_zero_stop :
    ∃ (label : Label twoHartBoard.xlen) (context : _),
      label.event = .parked context ∧
        Unmoved twoHartBoard label.hart context := by
  obtain ⟨labels, last, label, context, run, taken, parks⟩ :=
    stop_reaches_parking
  exact ⟨label, context, parks, (parked_at_zero
    (bootSystem_booted twoHartBoard) run taken parks).1⟩

theorem not_parked_in_firmware :
    ¬∀ (first last : System twoHartBoard.xlen) labels label context,
      Booted twoHartBoard first →
        Run (Step twoHartBoard (sbiCalls twoHartBoard)) first labels last →
          label ∈ labels → label.event = .parked context →
            ∃ firmware,
              ParkedInFirmware twoHartBoard firmware label.hart context := by
  intro always
  obtain ⟨labels, last, label, context, run, taken, parks⟩ :=
    stop_reaches_parking
  obtain ⟨firmware, inFirmware⟩ := always _ last labels label context
    (bootSystem_booted twoHartBoard) run taken parks
  have unmoved := (bootSystem_booted twoHartBoard).parks_unmoved run taken parks
  exact inFirmware.pc.2 unmoved.pc

end Step

end Harts
end EchelonSbi
