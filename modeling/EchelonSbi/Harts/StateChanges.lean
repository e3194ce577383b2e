import EchelonSbi.Harts.CallResults
import EchelonSbi.Harts.Operations
import EchelonSbi.Harts.Schedule

/-!
# The changes of the hart states

Every change of `sbi_hsm_states` is made by one of four pieces of code: the
accepted end of `sbi_hart_start`, the ends of `sbi_hart_stop` and
`sbi_hart_suspend`, and the end of the start branch.
-/

namespace EchelonSbi
namespace Harts

open Foundation
open Sbi

variable {xlen : Xlen}

/-- `sbi_hart_stop` and `sbi_hart_suspend` from their store on. -/
def goDownFrom (mhartid : Nat) (state : SBI_HSM) : List (Op xlen) :=
  [.store_hart_state mhartid state] ++ ksem_post (.sbi_hsm_locks mhartid) ++
    [.switch_to_hart_context]

/-- The start branch from its store on. -/
def wakeFrom (mhartid : Nat) : List (Op xlen) :=
  [.store_hart_state mhartid .STARTED] ++ ksem_post (.sbi_hsm_locks mhartid) ++
    [.clear_command, .clear_msip, .switch_to_user_context]

/-- Where main code of hart `k` stores a state. -/
@[simp]
def StoreSite (k : Nat) : Op xlen → List (Op xlen) → Prop
  | .store_hart_state t state, rest =>
      (state = .START_PENDING ∧ ∃ command,
        .store_hart_state t state :: rest = startAccepted t command) ∨
      Lifecycle.Stopped state ∧
        .store_hart_state t state :: rest = goDownFrom k state
  | .check_hart_state _ _, rest => rest = []
  | _, _ => True

/-- Where a handler of hart `k` stores a state. -/
@[simp]
def WakeSite (k : Nat) : Op xlen → List (Op xlen) → Prop
  | .store_hart_state t state, rest =>
      .store_hart_state t state :: rest = wakeFrom k
  | .dispatch, rest => rest = []
  | .check_hart_state _ _, _ => False
  | _, _ => True

/-- A change of the state of hart `h` by a step from `system`, after
`history`. -/
inductive StateChange
    (history : List (Label xlen)) (system : System xlen) (label : Label xlen)
    (h : Nat) : SBI_HSM → SBI_HSM → Prop
  /-- By `sbi_hart_start` on any hart. -/
  | start {old : SBI_HSM} {command : Hart_Command xlen} :
      label.level = .main →
      (system.harts label.hart).main = startAccepted h command →
      Lifecycle.Stopped old →
      StateChange history system label h old .START_PENDING
  /-- By the start branch on hart `h`. -/
  | started :
      label.hart = h →
      label.level = .handler →
      (system.harts h).handler = some (wakeFrom h) →
      StateChange history system label h .START_PENDING .STARTED
  /-- By `sbi_hart_stop` on hart `h`. -/
  | stop :
      label.hart = h →
      label.level = .main →
      (system.harts h).main = goDownFrom h .STOPPED →
      StateChange history system label h .STARTED .STOPPED
  /-- By `sbi_hart_suspend` on hart `h`. -/
  | suspend :
      label.hart = h →
      label.level = .main →
      (system.harts h).main = goDownFrom h .SUSPENDED →
      StateChange history system label h .STARTED .SUSPENDED
  /-- By the first start of the boot hart. -/
  | boot :
      h = 0 →
      label.hart = 0 →
      label.level = .handler →
      (system.harts 0).handler = some (wakeFrom 0) →
      history.any Label.boots = false →
      StateChange history system label h .STOPPED .STARTED

/-- The code of every hart stores states at the known places only. -/
structure Sites (system : System xlen) : Prop where
  main : ∀ k, EverySuffix (StoreSite k) (system.harts k).main
  handler : ∀ k ops, (system.harts k).handler = some ops →
    EverySuffix (WakeSite k) ops

section Code

variable {k : Nat} {left rest : List (Op xlen)}

theorem StoreSite.plains
    (after : EverySuffix (StoreSite k) rest)
    (plain : ∀ op ∈ left, op.Plain) :
    EverySuffix (StoreSite k) (left ++ rest) := by
  refine after.append fun op member _ => ?_
  have here := plain op member
  cases op <;> simp_all [Op.Plain]

theorem StoreSite.locals
    (after : EverySuffix (StoreSite k) rest)
    (local_ : ∀ op ∈ left, op.Local) :
    EverySuffix (StoreSite k) (left ++ rest) :=
  StoreSite.plains after fun op member => (local_ op member).plain

theorem WakeSite.locals
    (after : EverySuffix (WakeSite k) rest)
    (local_ : ∀ op ∈ left, op.Local) :
    EverySuffix (WakeSite k) (left ++ rest) := by
  refine after.append fun op member _ => ?_
  have here := local_ op member
  cases op <;> simp_all [Op.Local]

theorem startRefused_sites (t : Nat) :
    EverySuffix (StoreSite k) (startRefused t : List (Op xlen)) := by
  simp [startRefused, printm, ksem_wait, ksem_post]

theorem startAccepted_sites (t : Nat) (command : Hart_Command xlen) :
    EverySuffix (StoreSite k) (startAccepted t command) := by
  simp [startAccepted, send_hart_command_que, copy_command, CommandField.all,
    ksem_wait, ksem_post]

theorem goDown_sites
    {state : SBI_HSM}
    (stopped : Lifecycle.Stopped state) :
    EverySuffix (StoreSite k) (goDown k state : List (Op xlen)) := by
  simp only [goDown, goDownFrom, ksem_wait, ksem_post, List.cons_append,
    List.nil_append, everySuffix_cons, everySuffix_nil, StoreSite, true_and,
    and_true]
  exact .inr stopped

theorem ret_sites (retval : sbiret) :
    EverySuffix (StoreSite k) ([.ret retval] : List (Op xlen)) := by
  simp

theorem call_sites
    (platform : Platform)
    (request : Request platform.xlen) :
    EverySuffix (StoreSite k) (call_to_sbi platform k request) := by
  cases request with
  | mask call hart_mask hart_mask_base stack =>
      rw [call_to_sbi, maskedOps, List.append_assoc, HartMaskCall.run_eq]
      split_ifs
      · refine StoreSite.plains ?_ (by simp)
        refine StoreSite.plains (ret_sites _) fun op member => ?_
        obtain ⟨action, inside, here⟩ := List.mem_flatMap.mp member
        obtain ⟨hartid, -, rfl⟩ := List.mem_map.mp inside
        exact action_plain op here
      · exact StoreSite.locals (StoreSite.plains (ret_sites _) (by simp))
          (prints_local _)
  | hart_start hartid start_addr opaque_ stack =>
      rw [call_to_sbi, sbi_hart_start]
      split_ifs
      · exact StoreSite.locals (ret_sites _) (printm_local _)
      · exact StoreSite.locals (ret_sites _) (printm_local _)
      · exact StoreSite.locals (ret_sites _) (printm_local _)
      · simp [ksem_wait]
  | hart_stop => exact StoreSite.locals (goDown_sites (.inl rfl)) (printm_local _)
  | hart_get_status hartid =>
      refine StoreSite.locals ?_ (printm_local _)
      split_ifs
      · exact ret_sites _
      · simp
  | hart_suspend suspend_type resume_addr opaque_ =>
      refine StoreSite.locals ?_ (printm_local _)
      split_ifs
      · exact ret_sites _
      · exact StoreSite.plains (goDown_sites (.inr rfl)) (by simp [Op.Plain])
      · exact ret_sites _
  | other printed ret => exact StoreSite.locals (ret_sites _) (prints_local _)

theorem kmain_sites
    (config : Config)
    (stack : Hart_Command config.xlen) :
    EverySuffix (StoreSite k) (kmain config stack) := by
  simp [kmain, printm, send_hart_command_que, copy_command, CommandField.all,
    ksem_wait, ksem_post]

theorem software_sites :
    EverySuffix (WakeSite k) (machineSoftwareInterrupt : List (Op xlen)) := by
  simp [machineSoftwareInterrupt, CommandField.all]

theorem timer_sites (config : Config) :
    EverySuffix (WakeSite k) (machineTimerInterrupt config k) := by
  unfold machineTimerInterrupt
  split_ifs <;> simp

theorem exception_sites (h cause_value : Nat) (lines : List String) :
    EverySuffix (WakeSite k) (exceptionHalt h cause_value lines : List (Op xlen)) := by
  refine WakeSite.locals (by simp) fun op member => ?_
  simp only [List.mem_append, List.mem_singleton] at member
  rcases member with (rfl | text) | text
  · trivial
  · exact printm_local _ op text
  · exact prints_local _ op text

theorem handle_sites
    (config : Config)
    (command : Hart_Command config.xlen) :
    EverySuffix (WakeSite k) (handleCommand config k command) := by
  unfold handleCommand
  split_ifs
  · simp
  · have commit : EverySuffix (WakeSite k)
        (ksem_wait (.sbi_hsm_locks k) ++ wakeFrom k : List (Op config.xlen)) := by
      simp [ksem_wait, ksem_post, wakeFrom]
    have parts : ∀ op ∈ printm ("\tStarting: " ++ toString k ++ "\n") ++
        (if config.MM_QEMU_VIRT then qemuFixes config k else []) ++
        startContext k command, op.Local := by
      intro op member
      simp only [List.mem_append] at member
      rcases member with (text | fixes) | context
      · exact printm_local _ op text
      · split_ifs at fixes
        · exact qemuFixes_local config k op fixes
        · cases fixes
      · exact startContext_local k command op context
    simpa [handleStart, wakeFrom, List.append_assoc]
      using WakeSite.locals commit parts
  · simp
  · simp
  · simp
  · simp
  · exact WakeSite.locals (by simp) (printm_local _)

end Code

section Step

variable {config : Config} {system next : System config.xlen}
  {label : Label config.xlen} {started : Bool}

theorem Booted.sites (booted : Booted config system) : Sites system := by
  refine ⟨fun k => ?_, fun k ops running => ?_⟩
  · by_cases boot : k = 0
    · obtain ⟨stack, main⟩ := booted.boot_main
      rw [boot, main]
      exact kmain_sites config stack
    · rw [booted.other_main k boot]
      trivial
  · by_cases boot : k = 0
    · rw [boot, booted.boot_handler] at running
      cases running
    · rw [booted.other_handler k boot] at running
      cases running
      simp

/-- One hart moves. -/
theorem Sites.set
    {k : Nat}
    {outcome : Event xlen × HartState xlen × Memory xlen}
    {system : System xlen}
    (sites : Sites system)
    (main : EverySuffix (StoreSite k) outcome.2.1.main)
    (handler : ∀ ops, outcome.2.1.handler = some ops →
      EverySuffix (WakeSite k) ops) :
    Sites (system.set k outcome) := by
  refine ⟨fun j => ?_, fun j ops => ?_⟩
  · by_cases same : j = k
    · subst same
      rwa [set_self]
    · rw [set_of_ne same]
      exact sites.main j
  · by_cases same : j = k
    · subst same
      rw [set_self]
      exact handler ops
    · rw [set_of_ne same]
      exact sites.handler j ops

theorem Sites.step
    (sites : Sites system)
    (managed : Managed started system)
    (step : Step config (sbiCalls config) system label next) :
    Sites next := by
  cases step with
  | @main k op rest idle code =>
      have contract := sites.main k
      rw [code] at contract
      refine sites.set ((exec_main_continues code).keeps contract (by simp) ?_ ?_) ?_
      · rintro t start rfl
        have none_follows : rest = [] := contract.1
        subst none_follows
        exact ⟨by simpa using startRefused_sites t,
          by simpa using startAccepted_sites t start⟩
      · rintro rfl
        have rule := managed.main 0 k
        rw [code] at rule
        exact rule.1.2.elim
      · intro ops running
        cases (exec_main_handler idle).symm.trans running
  | @handler k op rest code =>
      have contract := sites.handler k _ code
      refine sites.set ?_ fun ops after =>
        (exec_handler_continues after).keeps contract (by simp) ?_ ?_
      · rcases exec_handler_main with same | dropped
        · rw [same]
          exact sites.main k
        · rw [dropped]
          trivial
      · rintro t start rfl
        exact contract.1.elim
      · rintro rfl
        have none_follows : rest = [] := contract.1
        rw [none_follows, List.append_nil]
        exact handle_sites config _
  | @software_interrupt k idle up =>
      rw [setHart_eq_set]
      exact sites.set (by simpa using sites.main k)
        (by rintro ops ⟨⟩; exact software_sites)
  | @timer_interrupt k idle low =>
      rw [setHart_eq_set]
      exact sites.set (by simpa using sites.main k)
        (by rintro ops ⟨⟩; exact timer_sites config)
  | @call k ops kernel empty idle allowed =>
      obtain ⟨request, rfl⟩ := allowed
      rw [setHart_eq_set]
      exact sites.set (call_sites config.toPlatform request) (sites.handler k)
  | @run k user_context csrs outside idle =>
      rw [setHart_eq_set]
      exact sites.set (sites.main k) (sites.handler k)
  | @exception k cause_value lines raises empty idle =>
      rw [setHart_eq_set]
      exact sites.set (by simpa using sites.main k)
        (by rintro ops ⟨⟩; exact exception_sites k cause_value lines)

/-- An operation leaves the state of hart `h` alone or stores it. -/
theorem exec_state
    (h k : Nat)
    (level : Level)
    (hart : HartState config.xlen)
    (memory : Memory config.xlen)
    (op : Op config.xlen)
    (rest : List (Op config.xlen)) :
    (exec config k level rest hart memory op).2.2.sbi_hsm_states h =
        memory.sbi_hsm_states h ∨
      ∃ state, op = .store_hart_state h state ∧
        (exec config k level rest hart memory op).2.2.sbi_hsm_states h =
          state := by
  cases op with
  | store_hart_state t state =>
      by_cases own : h = t
      · subst own
        exact .inr ⟨state, rfl, Function.update_self ..⟩
      · exact .inl (Function.update_of_ne own ..)
  | wait_load lock => left; simp only [exec]; split_ifs <;> rfl
  | wait_swap lock => left; simp only [exec]; split_ifs <;> rfl
  | poll t => left; simp only [exec]; split_ifs <;> rfl
  | check_hart_state t command => left; simp only [exec]; split_ifs <;> rfl
  | _ => exact .inl rfl

/-- Main code that stores a state is inside `sbi_hart_start` or takes its own
hart down. -/
theorem Managed.stores_main
    {history : List (Label config.xlen)}
    {rest : List (Op config.xlen)}
    {k h : Nat}
    {state : SBI_HSM}
    (managed : Managed started system)
    (sites : Sites system)
    (idle : (system.harts k).handler = none)
    (code : (system.harts k).main = .store_hart_state h state :: rest) :
    StateChange history system
      ⟨k, .main, .stored h (system.memory.sbi_hsm_states h) state⟩ h
      (system.memory.sbi_hsm_states h) state := by
  have booted : started = true := by
    by_contra off
    simp only [Bool.not_eq_true] at off
    subst off
    exact (managed.booting code).2
  subst booted
  have site := (sites.main k)
  have contract := managed.main h k
  rw [code, everySuffix_cons] at site contract
  have phase : startPhase h (system.harts k).main =
      startPhaseBefore h (.store_hart_state h state) (startPhase h rest) := by
    rw [code, startPhase_cons]
  rcases contract.1.2 rfl with ⟨rfl, command, stores⟩ | ⟨rfl, stopped, leaves⟩
  · obtain ⟨other, same⟩ : ∃ command, .store_hart_state h .START_PENDING :: rest =
        startAccepted h command := by
      rcases site.1 with ⟨-, command, same⟩ | ⟨stopped, -⟩
      · exact ⟨command, same⟩
      · rcases stopped with same | same <;> cases same
    have held : (lifecycle h true system).caller k = .storing command := by
      simp [lifecycle, phase, stores]
    have admits := (managed.protocol h).callers k
    rw [held] at admits
    exact .start rfl (code.trans same) (by simpa [lifecycle] using admits.2.2.2)
  · have same : .store_hart_state k state :: rest = goDownFrom k state := by
      rcases site.1 with ⟨rfl, -⟩ | ⟨-, same⟩
      · rcases stopped with same | same <;> cases same
      · exact same
    have away : (lifecycle k true system).stage = .leaving := by
      simp [lifecycle, stage, idle, handlerWake, phase, leaves]
    have shows_ := (managed.protocol k).target.shows_
    rw [away] at shows_
    have before : system.memory.sbi_hsm_states k = .STARTED := by
      simpa [lifecycle] using shows_
    rw [before]
    rcases stopped with rfl | rfl
    · exact .stop rfl rfl (code.trans same)
    · exact .suspend rfl rfl (code.trans same)

/-- A handler that stores a state ends the start branch. -/
theorem Managed.stores_handler
    {history : List (Label config.xlen)}
    {rest : List (Op config.xlen)}
    {k h : Nat}
    {state : SBI_HSM}
    (managed : Managed (history.any Label.boots) system)
    (sites : Sites system)
    (code : (system.harts k).handler = some (.store_hart_state h state :: rest)) :
    StateChange history system
      ⟨k, .handler, .stored h (system.memory.sbi_hsm_states h) state⟩ h
      (system.memory.sbi_hsm_states h) state := by
  have site := sites.handler k _ code
  have contract := managed.handler k _ code
  rw [everySuffix_cons] at site contract
  obtain ⟨rfl, rfl, -⟩ := contract.1
  have waking : (lifecycle h (history.any Label.boots) system).stage =
      .wakingLocked := by
    simp [lifecycle, stage, code, handlerWake]
  have shows_ := (managed.protocol h).target.shows_
  rw [waking] at shows_
  by_cases boot : h = 0 ∧ history.any Label.boots = false
  · obtain ⟨rfl, first⟩ := boot
    rw [first] at managed
    rw [(managed.boot rfl 0).1]
    exact .boot rfl rfl rfl (code.trans (by rw [site.1])) first
  · have before : system.memory.sbi_hsm_states h = .START_PENDING := by
      simpa only [lifecycle, if_neg boot, Lifecycle.Stage.Shows] using shows_
    rw [before]
    exact .started rfl rfl (code.trans (by rw [site.1]))

/-- Every step changes a state as the table says, or not at all. -/
theorem Managed.state_change
    {history : List (Label config.xlen)}
    (managed : Managed (history.any Label.boots) system)
    (sites : Sites system)
    (step : Step config (sbiCalls config) system label next)
    (h : Nat) :
    next.memory.sbi_hsm_states h = system.memory.sbi_hsm_states h ∨
      StateChange history system label h (system.memory.sbi_hsm_states h)
        (next.memory.sbi_hsm_states h) := by
  cases step with
  | @main k op rest idle code =>
      rcases exec_state h k .main (system.harts k) system.memory op rest with
        same | ⟨state, rfl, stored⟩
      · exact .inl same
      · refine .inr ?_
        have change : StateChange history system _ h _ _ :=
          managed.stores_main sites idle code
        rwa [System.set, stored]
  | @handler k op rest code =>
      rcases exec_state h k .handler (system.harts k) system.memory op rest with
        same | ⟨state, rfl, stored⟩
      · exact .inl same
      · refine .inr ?_
        have change : StateChange history system _ h _ _ :=
          managed.stores_handler sites code
        rwa [System.set, stored]
  | _ => exact .inl rfl

/-- What holds along a run from boot. -/
theorem Booted.sites_run
    {first last : System config.xlen}
    {labels : List (Label config.xlen)}
    (booted : Booted config first)
    (run : Run (Step config (sbiCalls config)) first labels last) :
    Managed (labels.any Label.boots) last ∧ Sites last := by
  have kept := run.invariant_history
    (fun history current => Managed (history.any Label.boots) current ∧
      Sites current)
    (fun {history _ label _} taken ⟨managed, sites⟩ => by
      refine ⟨?_, sites.step managed taken⟩
      rw [List.any_append]
      simpa using (managed.step taken).2)
    ⟨by simpa using booted.managed, booted.sites⟩
  exact kept

/-- The accepted decision of a start is made for a hart that is down. -/
theorem Managed.accepts
    {k t : Nat}
    {command : Hart_Command config.xlen}
    (managed : Managed started system)
    (step : Step config (sbiCalls config) system
      (decision k t command true) next) :
    Lifecycle.Stopped (system.memory.sbi_hsm_states t) := by
  have taken := (managed.step step).1 t
  have accepts : (decision k t command true).start t = .accepted k command := by
    simp [decision, Label.start]
  rw [accepts] at taken
  have stopped := (managed.protocol t).stopped_of_accepted taken
  by_cases boot : t = 0 ∧ started = false
  · simp [lifecycle, boot] at stopped
  · simpa only [lifecycle, if_neg boot] using stopped

/-- Along every run from boot, each change of a hart state is one of the
table, and `sbi_hart_start` succeeds only where it accepted a hart that was
stopped or suspended. -/
theorem hart_states_change
    {first last : System config.xlen}
    {labels : List (Label config.xlen)}
    (booted : Booted config first)
    (run : Run (Step config (sbiCalls config)) first labels last) :
    (∀ label next h, Step config (sbiCalls config) last label next →
      next.memory.sbi_hsm_states h = last.memory.sbi_hsm_states h ∨
        StateChange labels last label h (last.memory.sbi_hsm_states h)
          (next.memory.sbi_hsm_states h)) ∧
    ∀ before window k stack hartid start_addr opaque_ retval,
      labels = before ++ ⟨k, .main, .called (sbi_hart_start config.toPlatform k
          stack hartid start_addr opaque_)⟩ :: window ++
        [⟨k, .main, .returned retval⟩] →
      (∀ other, ⟨k, .main, .called other⟩ ∉ window) →
      retval.error = SBI_SUCCESS →
      ∃ left right middle,
        window = left ++ decision k hartid.toNat
          (startCommand stack hartid start_addr opaque_) true :: right ∧
        Run (Step config (sbiCalls config)) first
          (before ++ ⟨k, .main, .called (sbi_hart_start config.toPlatform k
            stack hartid start_addr opaque_)⟩ :: left) middle ∧
        Lifecycle.Stopped (middle.memory.sbi_hsm_states hartid.toNat) := by
  refine ⟨fun label next h step => ?_, ?_⟩
  · obtain ⟨managed, sites⟩ := booted.sites_run run
    exact managed.state_change sites step h
  · rintro before window k stack hartid start_addr opaque_ retval rfl within success
    rcases call_returns booted.managed run within with
      ⟨-, answers⟩ | ⟨t, command, accepted, left, right, checks, rfl, -, -, answer⟩
    · rcases callEnd_hart_start config.toPlatform k stack hartid start_addr opaque_
        with ⟨checks, -⟩ | ⟨error, failed, returns⟩
      · rcases answers with same | ⟨_, same⟩ <;> cases checks.symm.trans same
      · rcases answers with same | ⟨_, same⟩
        · cases returns.symm.trans same
          exact absurd success failed
        · cases returns.symm.trans same
    · rcases callEnd_hart_start config.toPlatform k stack hartid start_addr opaque_
        with ⟨mine, -⟩ | ⟨error, failed, returns⟩
      · cases checks.symm.trans mine
        cases accepted with
        | false =>
            rw [answer] at success
            cases success
        | true =>
            have path : Run (Step config (sbiCalls config)) first
                ((before ++ ⟨k, .main, .called (sbi_hart_start config.toPlatform
                    k stack hartid start_addr opaque_)⟩ :: left) ++
                  decision k hartid.toNat
                    (startCommand stack hartid start_addr opaque_) true ::
                      (right ++ [⟨k, .main, .returned retval⟩])) last := by
              simpa using run
            obtain ⟨middle, earlier, later⟩ := path.of_append
            obtain ⟨next, decided, -⟩ := later.of_cons
            exact ⟨left, right, middle, rfl, earlier,
              (booted.sites_run earlier).1.accepts decided⟩
      · cases checks.symm.trans returns

/-- The boot hart is up, and the kernel on it is about to store that hart 1
starts. -/
def acceptSchedule : List (Move twoHartBoard.xlen) :=
  bootSchedule ++ .advance 1 ::
    .call 0 (.hart_start 1#_ 0x80200000#_ 0#_ .cleared) ::
      List.replicate 3 (.advance 0)

set_option maxRecDepth 4000 in
theorem hart_states_change_accept :
    ∃ labels last label next,
      Step twoHartBoard (sbiCalls twoHartBoard) last label next ∧
        StateChange labels last label 1 .STOPPED .START_PENDING := by
  have played : (play twoHartBoard acceptSchedule
      (bootSystem twoHartBoard)).any (fun result =>
        ((Move.advance 0).take twoHartBoard result.2).any fun taken =>
          result.2.memory.sbi_hsm_states 1 = .STOPPED ∧
            taken.2.memory.sbi_hsm_states 1 = .START_PENDING) = true := by
    decide
  obtain ⟨labels, last, label, next, run, step, reached⟩ := play_steps
    (fun last next => last.memory.sbi_hsm_states 1 = .STOPPED ∧
      next.memory.sbi_hsm_states 1 = .START_PENDING) played
  obtain ⟨stopped, pending⟩ := of_decide_eq_true reached
  refine ⟨labels, last, label, next, step, ?_⟩
  rcases (hart_states_change (bootSystem_booted twoHartBoard) run).1
    label next 1 step with same | change
  · rw [stopped, pending] at same
    cases same
  · rwa [stopped, pending] at change

/-- The changes of a state machine in which only a stopped hart is started. -/
def StoppedChange (h : Nat) (old new : SBI_HSM) : Prop :=
  old = .STOPPED ∧ new = .START_PENDING ∨
    old = .START_PENDING ∧ new = .STARTED ∨
      old = .STARTED ∧ (new = .STOPPED ∨ new = .SUSPENDED) ∨
        h = 0 ∧ old = .STOPPED ∧ new = .STARTED

/-- Hart 1 suspends itself, and the kernel on hart 0 is about to store that
hart 1 starts. -/
def resumeSchedule : List (Move twoHartBoard.xlen) :=
  bootSchedule ++ startSchedule ++
    .call 1 (.hart_suspend 0 0x80200000#_ 0#_) :: List.replicate 12 (.advance 1) ++
      .call 0 (.hart_start 1#_ 0x80200000#_ 0#_ .cleared) ::
        List.replicate 3 (.advance 0)

set_option maxRecDepth 4000 in
theorem not_stopped_changes :
    ¬∀ first labels last label next h,
      Booted twoHartBoard first →
        Run (Step twoHartBoard (sbiCalls twoHartBoard)) first labels last →
          Step twoHartBoard (sbiCalls twoHartBoard) last label next →
            next.memory.sbi_hsm_states h = last.memory.sbi_hsm_states h ∨
              StoppedChange h (last.memory.sbi_hsm_states h)
                (next.memory.sbi_hsm_states h) := by
  intro always
  have played : (play twoHartBoard resumeSchedule
      (bootSystem twoHartBoard)).any (fun result =>
        ((Move.advance 0).take twoHartBoard result.2).any fun taken =>
          result.2.memory.sbi_hsm_states 1 = .SUSPENDED ∧
            taken.2.memory.sbi_hsm_states 1 = .START_PENDING) = true := by
    decide
  obtain ⟨labels, last, label, next, run, step, reached⟩ := play_steps
    (fun last next => last.memory.sbi_hsm_states 1 = .SUSPENDED ∧
      next.memory.sbi_hsm_states 1 = .START_PENDING) played
  obtain ⟨suspended, pending⟩ := of_decide_eq_true reached
  have change := always _ labels last label next 1
    (bootSystem_booted twoHartBoard) run step
  rw [suspended, pending] at change
  simp [StoppedChange] at change

end Step

end Harts
end EchelonSbi
