import EchelonSbi.Harts.CommandLocks
import EchelonSbi.Harts.Management
import EchelonSbi.Harts.Operations
import EchelonSbi.Harts.Schedule
import EchelonSbi.Harts.StartProgress

/-!
# The agreement about a start

One of the calls of `sbi_hart_start` for a hart that is down is accepted, and the hart
enters S-mode with the address and the argument of this call.
-/

namespace EchelonSbi
namespace Harts

open Foundation
open Sbi

variable {xlen : Xlen}

/-! ## The start branch -/

/-- The registers with which a hart enters S-mode for a start command. -/
structure StartedWith
    (h : Nat) (command : Hart_Command xlen) (context : CPU_Context xlen)
    (csrs : Csr → Word xlen) : Prop where
  mode : context.execution_mode = EM_S
  pc : context.regs REG_PC = command.param1
  a0 : context.regs REG_A0 = BitVec.ofNat _ h
  a1 : context.regs REG_A1 = command.param2
  others : ∀ i, i ≠ REG_PC → i ≠ REG_A0 → i ≠ REG_A1 → context.regs i = 0#_
  satp : csrs .satp = 0#_
  SIE : (csrs .mstatus).getLsbD 1 = false

/-- What is left of a handler ends with these registers, if it comes to the switch. -/
@[simp]
def Enters (h : Nat) (command : Hart_Command xlen) :
    List (Op xlen) → CPU_Context xlen → (Csr → Word xlen) → Prop
  | [], _, _ => True
  | .switch_to_user_context :: _, context, csrs => StartedWith h command context csrs
  | .write_context .hart_contexts_user field value :: rest, context, csrs =>
      Enters h command rest (context.set value field) csrs
  | .csr_write csr value :: rest, context, csrs =>
      Enters h command rest context (Function.update csrs csr value)
  | .csr_bitset csr mask :: rest, context, csrs =>
      Enters h command rest context (Function.update csrs csr (csrs csr ||| mask))
  | .csr_bitclr csr mask :: rest, context, csrs =>
      Enters h command rest context (Function.update csrs csr (csrs csr &&& ~~~mask))
  | .load_command _ :: _, _, _ => False
  | .dispatch :: _, _, _ => False
  | _ :: rest, context, csrs => Enters h command rest context csrs

section Branch

variable {h : Nat} {command : Hart_Command xlen} {left rest : List (Op xlen)}

/-- Code in front that takes no part in the protocol. -/
theorem enters_locals
    (after : ∀ context csrs, Enters h command rest context csrs)
    (local_ : ∀ op ∈ left, op.Local)
    (context : CPU_Context xlen)
    (csrs : Csr → Word xlen) :
    Enters h command (left ++ rest) context csrs := by
  induction left generalizing context csrs with
  | nil => exact after context csrs
  | cons op left inductionHypothesis =>
      have here := local_ op List.mem_cons_self
      have later := inductionHypothesis fun other member =>
        local_ other (List.mem_cons_of_mem _ member)
      rw [List.cons_append]
      cases op with
      | write_context record field value =>
          cases record with
          | hart_contexts => exact later _ _
          | hart_contexts_user => exact later _ _
      | load_command field => exact here.elim
      | dispatch => exact here.elim
      | switch_to_user_context => exact here.elim
      | _ => exact later _ _

/-- The loop of `clear_hart_context`. -/
theorem enters_clears
    (js : List (Fin 32))
    (context : CPU_Context xlen)
    (csrs : Csr → Word xlen) :
    Enters h command
        (js.map (fun j => .write_context .hart_contexts_user (.regs j) 0#_) ++ rest)
        context csrs ↔
      Enters h command rest
        { context with regs := fun i => if i ∈ js then 0#_ else context.regs i } csrs := by
  induction js generalizing context with
  | nil => simp
  | cons j js inductionHypothesis =>
      rw [List.map_cons, List.cons_append, Enters, inductionHypothesis]
      have regs : (fun i => if i ∈ js then 0#_
          else (context.set 0#_ (.regs j)).regs i) =
            fun i => if i ∈ j :: js then 0#_ else context.regs i := by
        funext i
        by_cases own : i = j
        · simp [CPU_Context.set, own]
        · simp [CPU_Context.set, own]
      rw [regs]
      rfl

/-- The start branch. -/
theorem enters_handleStart
    (config : Config)
    (h : Nat)
    (command : Hart_Command config.xlen)
    (context : CPU_Context config.xlen)
    (csrs : Csr → Word config.xlen) :
    Enters h command (handleStart config h command) context csrs := by
  have sie : (BitVec.ofNat config.xlen.bits 0x2A).getLsbD 1 = true ∧
      (BitVec.ofNat config.xlen.bits 0x80).getLsbD 1 = false := by
    cases config.xlen <;> decide
  have set_ (context : CPU_Context config.xlen) (csrs : Csr → Word config.xlen) :
      Enters h command (startContext h command ++ (ksem_wait (.sbi_hsm_locks h) ++
        ([.store_hart_state h .STARTED] ++ (ksem_post (.sbi_hsm_locks h) ++
          [.clear_command, .clear_msip, .switch_to_user_context])))) context csrs := by
    rw [startContext, clear_hart_context]
    simp only [List.append_assoc, List.cons_append, List.nil_append, Enters, enters_clears,
      ksem_wait, ksem_post]
    constructor
    · simp [CPU_Context.set]
    · simp [CPU_Context.set, REG_PC, REG_A0, REG_A1]
    · simp [CPU_Context.set, REG_A0, REG_A1]
    · simp [CPU_Context.set]
    · intro i pc a0 a1
      simp [CPU_Context.set, pc, a0, a1]
    · simp
    · simp [sie.1, sie.2]
  have fixes : ∀ op ∈ printm ("\tStarting: " ++ toString h ++ "\n") ++
      (if config.MM_QEMU_VIRT then qemuFixes config h else []), op.Local := by
    intro op member
    rcases List.mem_append.mp member with text | fixes
    · exact printm_local _ op text
    · split_ifs at fixes
      · exact qemuFixes_local config h op fixes
      · cases fixes
  have whole := enters_locals set_ fixes context csrs
  rw [handleStart]
  simpa only [List.append_assoc] using whole

end Branch

/-! ## The invariant of the handler -/

/-- The start branch, wherever the hart is in it, ends with the registers of its
command. -/
def Waking (h : Nat) (hart : HartState xlen) : Prop :=
  ∀ ops, hart.handler = some ops → wakeStage h ops ≠ none →
    Enters h hart.command ops hart.user_context hart.csrs

section Step

variable {config : Config} {system next : System config.xlen}
  {label : Label config.xlen} {h : Nat}

/-- What comes before the start branch belongs to it. -/
theorem wakeStage_cons_ne_none
    {op : Op xlen}
    {rest : List (Op xlen)}
    (wakes : wakeStage h rest ≠ none) :
    wakeStage h (op :: rest) ≠ none := by
  rw [wakeStage_cons]
  cases op with
  | wait_load lock => simp only [wakeStageBefore]; split_ifs <;> simp [wakes]
  | wait_swap lock => simp only [wakeStageBefore]; split_ifs <;> simp [wakes]
  | post lock => simp only [wakeStageBefore]; split_ifs <;> simp [wakes]
  | store_hart_state t state => simp
  | switch_to_user_context => simp
  | _ => exact wakes

theorem Waking.exec
    {hart : HartState config.xlen}
    {memory : Memory config.xlen}
    {op : Op config.xlen}
    {rest : List (Op config.xlen)}
    (waking : Waking h hart)
    (code : hart.handler = some (op :: rest))
    (contract : WakeContract h op rest)
    (known : op = .dispatch → hart.command.command ≠ HARTCMD_SWITCHCONTEXT) :
    Waking h (exec config h .handler rest hart memory op).2.1 := by
  have here (wakes : wakeStage h rest ≠ none) :=
    waking _ code (wakeStage_cons_ne_none wakes)
  intro ops after wakes
  cases op with
  | wait_load lock =>
      simp only [Harts.exec] at after ⊢
      split_ifs at after ⊢
      · cases after
        exact here wakes
      · cases after
        exact waking _ code wakes
  | wait_swap lock =>
      simp only [Harts.exec] at after ⊢
      split_ifs at after ⊢
      · cases after
        exact here wakes
      · cases after
        have same : wakeStage h (.wait_swap lock :: rest) ≠ none := by
          by_cases own : lock = .sbi_hsm_locks h <;> simp_all
        exact waking (.wait_swap lock :: rest) code same
  | dispatch =>
      obtain rfl : rest = [] := contract
      cases after
      rw [List.append_nil] at wakes ⊢
      have start : hart.command.command = HARTCMD_STARTHART := by
        by_contra other
        rw [(handle_wake config (known rfl)).2, if_neg other] at wakes
        exact wakes rfl
      rw [handleCommand, if_neg (known rfl), if_pos start]
      exact enters_handleStart config h _ _ _
  | write_context record field value =>
      cases record with
      | hart_contexts =>
          cases after
          exact here wakes
      | hart_contexts_user =>
          cases after
          exact here wakes
  | csr_write csr value =>
      cases after
      exact here wakes
  | csr_bitset csr mask =>
      cases after
      exact here wakes
  | csr_bitclr csr mask =>
      cases after
      exact here wakes
  | load_command field =>
      cases after
      exact (here wakes).elim
  | switch_to_user_context => cases after
  | switch_to_context context => exact contract.elim
  | resume => cases after
  | poll t => exact contract.elim
  | check_hart_state t command => exact contract.elim
  | ret retval => exact contract.elim
  | ret_hart_state t => exact contract.elim
  | switch_to_hart_context => exact contract.elim
  | halt_not_handled =>
      cases after
      exact waking _ code wakes
  | halt_exception =>
      cases after
      exact waking _ code wakes
  | _ =>
      cases after
      exact here wakes

/-- Each step keeps the invariant of all handlers. -/
theorem Managed.waking
    {started : Bool}
    (managed : Managed started system)
    (waking : ∀ k, Waking k (system.harts k))
    (step : Step config (sbiCalls config) system label next)
    (k : Nat) :
    Waking k (next.harts k) := by
  by_cases own : k = label.hart
  · subst own
    cases step with
    | @main k op rest idle code =>
        intro ops after
        rw [set_self, exec_main_handler idle] at after
        cases after
    | @handler k op rest code =>
        have contract := managed.handler k _ code
        rw [set_self]
        exact (waking k).exec code contract.1 fun dispatches =>
          managed.known k _ (managed.dispatched code dispatches)
    | @software_interrupt k idle up =>
        rintro ops after wakes
        rw [setHart_eq_set, set_self] at after
        cases after
        exact absurd software_wake.2 wakes
    | @timer_interrupt k idle low =>
        rintro ops after wakes
        rw [setHart_eq_set, set_self] at after
        cases after
        exact absurd (timer_wake config).2 wakes
    | @call k ops kernel empty idle allowed =>
        intro ops after
        rw [setHart_eq_set, set_self] at after
        cases idle.symm.trans after
    | @run k user_context csrs outside idle =>
        intro ops after
        rw [setHart_eq_set, set_self] at after
        cases idle.symm.trans after
    | @exception k cause_value lines raises empty idle =>
        rintro ops after wakes
        rw [setHart_eq_set, set_self] at after
        cases after
        exact absurd (exception_wake k cause_value lines).2 wakes
  · rw [step.frame own]
    exact waking k

/-- Only a load changes the command of a hart. -/
theorem exec_command
    {hart : HartState config.xlen}
    {memory : Memory config.xlen}
    {op : Op config.xlen}
    {rest : List (Op config.xlen)}
    (other : ∀ field, op ≠ .load_command field) :
    (exec config h .handler rest hart memory op).2.1.command = hart.command := by
  cases op with
  | load_command field => exact absurd rfl (other field)
  | wait_load lock => simp only [exec]; split_ifs <;> rfl
  | wait_swap lock => simp only [exec]; split_ifs <;> rfl
  | poll t => simp only [exec]; split_ifs <;> rfl
  | check_hart_state t command => simp only [exec]; split_ifs <;> rfl
  | write_context record field value => cases record <;> rfl
  | _ => rfl

/-- The hart enters S-mode with the registers of its command. -/
theorem Managed.startedWith
    {started : Bool}
    {context : CPU_Context config.xlen}
    {csrs : Csr → Word config.xlen}
    (managed : Managed started system)
    (waking : ∀ k, Waking k (system.harts k))
    (step : Step config (sbiCalls config) system label next)
    (entered : label.event = .entered context csrs) :
    StartedWith label.hart (system.harts label.hart).command context csrs := by
  obtain ⟨⟨rest, code⟩, rfl, rfl⟩ := managed.entered step entered
  exact waking label.hart _ code (by simp)

/-- What a hart receives is its command afterwards. -/
theorem Step.received
    {command : Hart_Command config.xlen}
    (step : Step config (sbiCalls config) system label next)
    (received : label.event = .received command) :
    (next.harts label.hart).command = command := by
  cases step with
  | @main k op rest idle code =>
      obtain ⟨rfl, rfl⟩ := exec_received received
      rw [set_self]
      rfl
  | @handler k op rest code =>
      obtain ⟨rfl, rfl⟩ := exec_received received
      rw [set_self]
      rfl
  | _ => cases received

/-- In the start branch a hart keeps its command. -/
theorem Step.command
    (step : Step config (sbiCalls config) system label next)
    (waking : Waking h (system.harts h))
    (awake : handlerWake h (system.harts h).handler ≠ none) :
    (next.harts h).command = (system.harts h).command := by
  by_cases own : h = label.hart
  · subst own
    cases running : (system.harts label.hart).handler with
    | none =>
        rw [running] at awake
        exact absurd rfl awake
    | some ops =>
        rw [running] at awake
        obtain ⟨op, rest, rfl, -, -, same⟩ := step.running running
        rw [same, set_self]
        apply exec_command
        rintro field rfl
        exact waking _ running awake
  · rw [step.frame own]

/-! ## Runs -/

/-- The firmware keeps the order of starts of a hart. -/
structure Tracks
    (h : Nat) (origin : Lifecycle.Progress (Hart_Command config.xlen))
    (history : List (Label config.xlen)) (system : System config.xlen)
    (progress : Lifecycle.Progress (Hart_Command config.xlen)) : Prop where
  turns : Run Lifecycle.Turn origin (history.map (Label.start h)) progress
  at_ : (lifecycle h (history.any Label.boots) system).At progress
  command : ∀ message, progress = .received message →
    (system.harts h).command = message

/-- A hart whose stage is that of a start executes the start branch. -/
theorem handlerWake_of_waking
    {hart : HartState xlen}
    (waking : stage h hart ∈ Lifecycle.wakingStages) :
    handlerWake h hart.handler ≠ none := by
  intro outside
  rw [stage, outside, Option.getD_none] at waking
  revert waking
  cases startPhase h hart.main <;> cases hart.base <;>
    simp [StartPhase.stage, Base.stage, Lifecycle.wakingStages]

/-- What is received as a start is a command to this hart. -/
theorem Label.event_of_received
    {label : Label xlen}
    {command : Hart_Command xlen}
    (received : label.start h = .received command) :
    label.hart = h ∧ label.event = .received command := by
  obtain ⟨k, level, event⟩ := label
  cases event with
  | received other =>
      simp only [Label.start] at received
      split_ifs at received with own
      cases received
      exact ⟨own.1, rfl⟩
  | decided t other accepted =>
      cases accepted
      all_goals
        simp only [Label.start] at received
        split_ifs at received
  | stored t old new =>
      simp only [Label.start] at received
      split_ifs at received
  | entered context csrs =>
      simp only [Label.start] at received
      split_ifs at received
  | _ => cases received

/-- The step lemma. -/
theorem Tracks.step
    {origin progress : Lifecycle.Progress (Hart_Command config.xlen)}
    {history : List (Label config.xlen)}
    (tracks : Tracks h origin history system progress)
    (managed : Managed (history.any Label.boots) system)
    (waking : Waking h (system.harts h))
    (step : Step config (sbiCalls config) system label next) :
    ∃ after, Tracks h origin (history ++ [label]) next after := by
  obtain ⟨after, turn, at_⟩ := (managed.protocol h).turn tracks.at_ ((managed.step step).1 h)
  have boots : (history ++ [label]).any Label.boots =
      (history.any Label.boots || label.boots) := by
    rw [List.any_append]
    simp
  refine ⟨after, ?_, ?_, ?_⟩
  · rw [List.map_append]
    exact tracks.turns.snoc turn
  · rw [boots]
    exact at_
  · rintro message rfl
    have kept (before : progress = .received message) :
        (next.harts h).command = message := by
      have awake : (lifecycle h (history.any Label.boots) system).stage ∈
          Lifecycle.wakingStages := by
        have stages := tracks.at_.stage
        rwa [before] at stages
      rw [step.command waking (handlerWake_of_waking awake)]
      exact tracks.command message before
    generalize same : label.start h = event at turn
    cases turn with
    | received =>
        obtain ⟨rfl, received⟩ := Label.event_of_received same
        exact step.received received
    | _ => exact kept rfl

/-- Hart 0 is claimed by the end of `kmain`, and all others are down. -/
def bootProgress (config : Config) (stack : Hart_Command config.xlen) (h : Nat) :
    Lifecycle.Progress (Hart_Command config.xlen) :=
  if h = 0 then
    .claimed (startCommand stack 0#_ config.kernel_load_to_point config.dtb_load_to_point)
  else .down

theorem Booted.at_
    {stack : Hart_Command config.xlen}
    (booted : Booted config system)
    (boot : (system.harts 0).main = kmain config stack)
    (h : Nat) :
    (lifecycle h false system).At (bootProgress config stack h) := by
  have asleep : stage h (system.harts h) = .down := by
    by_cases first : h = 0
    · rw [stage, first, booted.boot_handler, boot, (kmain_contract config stack).2.2,
        if_pos rfl, booted.base]
      rfl
    · rw [stage, booted.other_handler h first, booted.other_main h first, booted.base]
      rfl
  by_cases first : h = 0
  · subst first
    rw [bootProgress, if_pos rfl]
    refine ⟨by simp [lifecycle, asleep, Lifecycle.Progress.stages], by rintro ⟨⟩, ?_⟩
    rintro message ⟨⟩
    refine .inr ⟨0, ?_⟩
    simp [lifecycle, boot, (kmain_contract config stack).2.2, Lifecycle.Caller.message]
  · rw [bootProgress, if_neg first]
    refine ⟨by simp [lifecycle, asleep, Lifecycle.Progress.stages], fun _ => ⟨?_, ?_⟩,
      by rintro _ ⟨⟩⟩
    · simp [lifecycle, first, booted.states]
    · intro k
      by_cases own : k = 0
      · simp [lifecycle, own, boot, (kmain_contract config stack).2.2, Ne.symm first,
          Lifecycle.Caller.message]
      · simp [lifecycle, booted.other_main k own, Lifecycle.Caller.message]

/-- No start branch runs after boot. -/
theorem Booted.waking
    (booted : Booted config system)
    (k : Nat) :
    Waking k (system.harts k) := by
  intro ops running wakes
  by_cases own : k = 0
  · rw [own, booted.boot_handler] at running
    cases running
  · rw [booted.other_handler k own] at running
    cases running
    exact absurd rfl wakes

/-- The start branches and the order of starts, along every run. -/
theorem Booted.tracks
    {first last : System config.xlen}
    {labels : List (Label config.xlen)}
    {stack : Hart_Command config.xlen}
    (booted : Booted config first)
    (boot : (first.harts 0).main = kmain config stack)
    (run : Run (Step config (sbiCalls config)) first labels last)
    (h : Nat) :
    (Managed (labels.any Label.boots) last ∧ ∀ k, Waking k (last.harts k)) ∧
      ∃ progress, Tracks h (bootProgress config stack h) labels last progress := by
  have kept := run.invariant_history
    (fun history current =>
      (Managed (history.any Label.boots) current ∧ ∀ k, Waking k (current.harts k)) ∧
        ∃ progress, Tracks h (bootProgress config stack h) history current progress)
    (fun {history _ label _} taken ⟨⟨managed, waking⟩, progress, tracks⟩ => by
      refine ⟨⟨?_, managed.waking waking taken⟩, tracks.step managed (waking h) taken⟩
      rw [List.any_append]
      simpa using (managed.step taken).2)
    ⟨⟨by simpa using booted.managed, booted.waking⟩, _, .refl _, booted.at_ boot h, ?_⟩
  · exact kept
  · rintro message received
    rw [bootProgress] at received
    split_ifs at received

/-! ## The agreement -/

/-- The hart executes the kernel. -/
def HartState.belowM (hart : HartState xlen) : Prop :=
  hart.base = .kernel ∧ hart.main = [] ∧ hart.handler = none

/-- A start command for hart `h` is on its way exactly once: in its mailbox, or in the
code of one hart. -/
def StartInFlight (h : Nat) (system : System xlen) (command : Hart_Command xlen) : Prop :=
  let held (k : Nat) := (startPhase h (system.harts k).main).caller.message
  pendingStarts h system = [command] ∧ (∀ k, held k = none) ∨
    pendingStarts h system = [] ∧ ∃ k, held k = some command ∧
      ∀ other, other ≠ k → held other = none

/-- What is agreed about the start of hart `h` in a part of a run. -/
structure StartAgreed
    (h : Nat) (window : List (Label xlen)) (last : System xlen)
    (progress : Lifecycle.Progress (Hart_Command xlen)) : Prop where
  /-- One call is accepted, and all others refused. -/
  session : Lifecycle.Session (window.map (Label.start h)) progress
  pending : last.memory.sbi_hsm_states h = .START_PENDING →
    (∃ command, progress = .claimed command ∧ StartInFlight h last command) ∨
      ∃ command, progress = .received command
  entered : ∀ level context csrs, ⟨h, level, .entered context csrs⟩ ∈ window →
    ∃ command, Lifecycle.Won command (window.map (Label.start h)) ∧
      StartedWith h command context csrs
  below : (last.harts h).belowM → last.memory.sbi_hsm_states h = .STARTED

/-- Hart `h` has just gone down, or is one that is down at boot. -/
def WentDown (h : Nat) (before : List (Label xlen)) : Prop :=
  before = [] ∧ h ≠ 0 ∨
    ∃ earlier label status, before = earlier ++ [label] ∧ Lifecycle.Stopped status ∧
      label.start h = .said status

theorem WentDown.down
    {before : List (Label config.xlen)}
    {stack : Hart_Command config.xlen}
    {progress : Lifecycle.Progress (Hart_Command config.xlen)}
    (down : WentDown h before)
    (run : Run Lifecycle.Turn (bootProgress config stack h) (before.map (Label.start h))
      progress) :
    progress = .down := by
  rcases down with ⟨rfl, other⟩ | ⟨earlier, label, status, rfl, stopped, said⟩
  · rw [← run.of_nil, bootProgress, if_neg other]
  · rw [List.map_append, List.map_singleton, said] at run
    exact Lifecycle.down_of_run run stopped

/-- A hart that is to start has been claimed. -/
theorem Managed.pending
    {started : Bool}
    {progress : Lifecycle.Progress (Hart_Command config.xlen)}
    (managed : Managed started system)
    (at_ : (lifecycle h started system).At progress)
    (pending : system.memory.sbi_hsm_states h = .START_PENDING) :
    (∃ command, progress = .claimed command ∧ StartInFlight h system command) ∨
      ∃ command, progress = .received command := by
  have invariant := managed.protocol h
  have shows_ := invariant.target.shows_
  have status : (lifecycle h started system).status = .START_PENDING := by
    simp only [lifecycle, pending, ite_self]
  cases progress with
  | down =>
      rcases (at_.down rfl).1 with stopped | stopped
      all_goals cases status.symm.trans stopped
  | claimed command => exact .inl ⟨command, rfl, at_.once invariant⟩
  | received command => exact .inr ⟨command, rfl⟩
  | up =>
      have awake : (lifecycle h started system).stage = .up ∨
          (lifecycle h started system).stage = .leaving := by
        simpa [Lifecycle.Progress.stages] using at_.stage
      rcases awake with here | here
      all_goals
        rw [here] at shows_
        cases status.symm.trans shows_

/-- A hart that executes the kernel is started. -/
theorem Managed.below
    {started : Bool}
    (managed : Managed started system)
    (h : Nat)
    (below : (system.harts h).belowM) :
    system.memory.sbi_hsm_states h = .STARTED := by
  obtain ⟨kernel, empty, idle⟩ := below
  have shows_ := (managed.protocol h).target.shows_
  have awake : (lifecycle h started system).stage = .up := by
    simp [lifecycle, stage, handlerWake, idle, empty, kernel, Base.stage]
  rw [awake] at shows_
  have booted : ¬(h = 0 ∧ started = false) := by
    rintro ⟨-, off⟩
    exact (managed.boot off h).2.1 kernel
  simpa only [lifecycle, if_neg booted, Lifecycle.Stage.Shows] using shows_

/-- The session of a hart in a part of a run. -/
theorem Tracks.session
    {before window : List (Label config.xlen)}
    {stack : Hart_Command config.xlen}
    {progress : Lifecycle.Progress (Hart_Command config.xlen)}
    (tracks : Tracks h (bootProgress config stack h) (before ++ window) system progress)
    (down : WentDown h before)
    (stays : ∀ label ∈ window, ∀ status, Lifecycle.Stopped status →
      label.start h ≠ .said status) :
    Lifecycle.Session (window.map (Label.start h)) progress := by
  have turns := tracks.turns
  rw [List.map_append] at turns
  obtain ⟨middle, first, rest⟩ := turns.of_append
  obtain rfl := down.down first
  apply Lifecycle.session_of_run rest
  intro status stopped inside
  obtain ⟨label, member, said⟩ := List.mem_map.mp inside
  exact stays label member status stopped said

/-- From going down until it goes down again, one call that starts the hart is
accepted, and the hart enters S-mode with what this call asked for. -/
theorem hart_start_agreement
    {first last : System config.xlen}
    {before window : List (Label config.xlen)}
    (booted : Booted config first)
    (run : Run (Step config (sbiCalls config)) first (before ++ window) last)
    (down : WentDown h before)
    (stays : ∀ label ∈ window, ∀ status, Lifecycle.Stopped status →
      label.start h ≠ .said status) :
    ∃ progress, StartAgreed h window last progress := by
  obtain ⟨stack, boot⟩ := booted.boot_main
  obtain ⟨⟨managed, -⟩, progress, tracks⟩ := booted.tracks boot run h
  have session := tracks.session down stays
  refine ⟨progress, session, managed.pending tracks.at_, ?_, managed.below h⟩
  · intro level context csrs inside
    obtain ⟨left, right, rfl⟩ := List.append_of_mem inside
    rw [← List.append_assoc] at run
    obtain ⟨middle, earlier, later⟩ := run.of_append
    obtain ⟨next, step, -⟩ := later.of_cons
    obtain ⟨⟨held, waking⟩, reached, sofar⟩ := booted.tracks boot earlier h
    have opening := sofar.session down fun label member =>
      stays label (List.mem_append_left _ member)
    obtain ⟨after, turn, -⟩ :=
      (held.protocol h).turn sofar.at_ ((held.step step).1 h)
    have up : Label.start h ⟨h, level, .entered context csrs⟩ = .came_up := by
      simp [Label.start]
    rw [up] at turn
    cases turn with
    | @came_up command =>
        have started := held.startedWith waking step rfl
        rw [sofar.command command rfl] at started
        rw [List.map_append] at session ⊢
        exact ⟨command, opening.1.of_session session, started⟩

/-- Hart `h` says that it is down. -/
def Label.saysDown (h : Nat) (label : Label xlen) : Bool :=
  match label.event with
  | .stored t _ .STOPPED => t == h
  | .stored t _ .SUSPENDED => t == h
  | _ => false

theorem Label.saysDown_of_start
    {label : Label xlen}
    {status : SBI_HSM}
    (said : label.start h = .said status)
    (stopped : Lifecycle.Stopped status) :
    label.saysDown h = true := by
  obtain ⟨k, level, event⟩ := label
  cases event with
  | stored t old new =>
      simp only [Label.start] at said
      split_ifs at said with own
      cases said
      rcases stopped with rfl | rfl
      all_goals simp [Label.saysDown, own]
  | decided t other accepted =>
      cases accepted
      all_goals
        simp only [Label.start] at said
        split_ifs at said
  | received other =>
      simp only [Label.start] at said
      split_ifs at said
  | entered context csrs =>
      simp only [Label.start] at said
      split_ifs at said
  | _ => cases said

set_option maxRecDepth 4000 in
/-- The kernel on hart 0 starts hart 1. -/
theorem hart_start_agreement_board :
    ∃ labels last progress,
      Run (Step twoHartBoard (sbiCalls twoHartBoard)) (bootSystem twoHartBoard) labels last ∧
        last.memory.sbi_hsm_states 1 = .STARTED ∧ StartAgreed 1 labels last progress := by
  have played : (play twoHartBoard (bootSchedule ++ startSchedule)
      (bootSystem twoHartBoard)).any (fun result =>
        result.1.all (fun label => !label.saysDown 1) &&
          result.2.memory.sbi_hsm_states 1 = .STARTED) = true := by
    decide
  obtain ⟨labels, last, run, -, reached⟩ := play_reaches
    (fun labels last => labels.all (fun label => !label.saysDown 1) &&
      last.memory.sbi_hsm_states 1 = .STARTED) played
  obtain ⟨stays, started⟩ := Bool.and_eq_true_iff.mp reached
  obtain ⟨progress, agreed⟩ := @hart_start_agreement _ 1 _ _ [] labels
    (bootSystem_booted twoHartBoard) run (.inl ⟨rfl, Nat.one_ne_zero⟩)
    (by
      intro label inside status stopped said
      have silent := List.all_eq_true.mp stays label inside
      rw [Label.saysDown_of_start said stopped] at silent
      cases silent)
  exact ⟨labels, last, progress, run, of_decide_eq_true started, agreed⟩

end Step

end Harts
end EchelonSbi
