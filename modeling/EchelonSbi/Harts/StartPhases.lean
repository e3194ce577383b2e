import EchelonSbi.Harts.Lifecycle
import EchelonSbi.Harts.Phases
import EchelonSbi.Sbi.HartMaskSelection

/-!
# Where a piece of code stands in starting or stopping a hart

As in `Phases`, the place is read off from the operations that remain, here in
`sbi_hart_start`, `sbi_hart_stop`, `sbi_hart_suspend` and the start branch of
`interrupt_c_handler`.
-/

namespace EchelonSbi
namespace Harts

open Foundation
open Sbi

variable {xlen : Xlen}

/-- Where main code stands with respect to one target hart. -/
inductive StartPhase (xlen : Xlen) where
  | out
  | checking
  | refused
  | storing (command : Hart_Command xlen)
  | stored (command : Hart_Command xlen)
  | sending (command : Hart_Command xlen)
  /-- Before the store of `sbi_hart_stop` or `sbi_hart_suspend`. -/
  | leaving
  | left
  /-- Before the switch to `hart_contexts[mhartid]`. -/
  | parking

/-- The phase with respect to hart `h` before an operation, given the phase
after it. -/
@[simp]
def startPhaseBefore (h : Nat) : Op xlen → StartPhase xlen → StartPhase xlen
  | .wait_load lock, after => if lock = .sbi_hsm_locks h then .out else after
  | .wait_swap lock, after => if lock = .sbi_hsm_locks h then .out else after
  | .check_hart_state t _, after => if t = h then .checking else after
  | .store_hart_state t _, after =>
      if t = h then
        match after with
        | .stored command => .storing command
        | _ => .leaving
      else after
  | .post lock, after =>
      if lock = .sbi_hsm_locks h then
        match after with
        | .sending command => .stored command
        | .parking => .left
        | _ => .refused
      else after
  | .raise t command, after =>
      if t = h ∧ command.command = HARTCMD_STARTHART then .sending command
      else after
  | .switch_to_hart_context, _ => .parking
  | _, after => after

/-- The phase of main code that is still to run. -/
def startPhase (h : Nat) (ops : List (Op xlen)) : StartPhase xlen :=
  ops.foldr (startPhaseBefore h) .out

/-- The caller that a phase belongs to. -/
@[simp]
def StartPhase.caller : StartPhase xlen → Lifecycle.Caller (Hart_Command xlen)
  | .checking => .checking
  | .refused => .refused
  | .storing command => .storing command
  | .stored command => .stored command
  | .sending command => .sending command
  | _ => .out

/-- The stage of the start branch of hart `h` before an operation, given the
stage after it. -/
@[simp]
def wakeStageBefore (h : Nat) :
    Op xlen → Option Lifecycle.Stage → Option Lifecycle.Stage
  | .wait_load lock, after =>
      if lock = .sbi_hsm_locks h then some .waking else after
  | .wait_swap lock, after =>
      if lock = .sbi_hsm_locks h then some .waking else after
  | .store_hart_state _ _, _ => some .wakingLocked
  | .post lock, after =>
      if lock = .sbi_hsm_locks h then some .wokenLocked else after
  | .switch_to_user_context, _ => some .woken
  | _, after => after

/-- The stage of a handler of hart `h`, where it is in the start branch. -/
def wakeStage (h : Nat) (ops : List (Op xlen)) : Option Lifecycle.Stage :=
  ops.foldr (wakeStageBefore h) none

/-- What main code of hart `k` keeps to with respect to hart `h`. -/
@[simp]
def StartRule (h k : Nat) : Op xlen → List (Op xlen) → Prop
  | .wait_load lock, rest => lock = .sbi_hsm_locks h → startPhase h rest = .out
  | .wait_swap lock, rest =>
      lock = .sbi_hsm_locks h →
        startPhase h rest = .checking ∨ k = h ∧ startPhase h rest = .leaving
  | .check_hart_state _ command, rest =>
      command.command = HARTCMD_STARTHART ∧ rest = []
  | .store_hart_state t state, rest =>
      t = h →
        (state = .START_PENDING ∧ ∃ command, startPhase h rest = .stored command) ∨
          k = h ∧ Lifecycle.Stopped state ∧ startPhase h rest = .left
  | .post lock, rest =>
      lock = .sbi_hsm_locks h →
        startPhase h rest = .out ∨
          (∃ command, startPhase h rest = .sending command) ∨
            k = h ∧ startPhase h rest = .parking
  | .raise t command, rest =>
      command.command ≠ HARTCMD_SWITCHCONTEXT ∧
        (t = h → command.command = HARTCMD_STARTHART →
          startPhase h rest = .out)
  | .ret _, rest => rest = []
  | .ret_hart_state _, rest => rest = []
  | .switch_to_hart_context, rest => rest = []
  | .load_command _, _ => False
  | .dispatch, _ => False
  | .clear_command, _ => False
  | .clear_msip, _ => False
  | .resume, _ => False
  | .switch_to_user_context, _ => False
  | .switch_to_context _, _ => False
  | .halt_not_handled, _ => False
  | .halt_exception, _ => False
  | _, _ => True

/-- The rule, and nothing but the release of the own lock comes before the
switch. -/
def StartContract (h k : Nat) (op : Op xlen) (rest : List (Op xlen)) : Prop :=
  (k = h → op ≠ .post (.sbi_hsm_locks h) → startPhase h rest ≠ .parking) ∧
    StartRule h k op rest

/-- What the handlers of hart `h` keep to. -/
@[simp]
def WakeContract (h : Nat) : Op xlen → List (Op xlen) → Prop
  | .wait_load lock, rest =>
      ∀ t, lock = .sbi_hsm_locks t → t = h ∧ wakeStage h rest = some .waking
  | .wait_swap lock, rest =>
      ∀ t, lock = .sbi_hsm_locks t →
        t = h ∧ wakeStage h rest = some .wakingLocked
  | .store_hart_state t state, rest =>
      t = h ∧ state = .STARTED ∧ wakeStage h rest = some .wokenLocked
  | .post lock, rest =>
      ∀ t, lock = .sbi_hsm_locks t → t = h ∧ wakeStage h rest = some .woken
  | .dispatch, rest => rest = []
  | .resume, rest => rest = []
  | .switch_to_user_context, rest => rest = []
  | .switch_to_context _, _ => False
  | .poll _, _ => False
  | .copy _ _ _, _ => False
  | .raise _ _, _ => False
  | .check_hart_state _ _, _ => False
  | .ret_hart_state _, _ => False
  | .ret _, _ => False
  | .switch_to_hart_context, _ => False
  | _, _ => True

/-- What the end of `kmain` on hart `k` keeps to: it is on its way to the raise
or right behind it. -/
@[simp]
def BootContract (k : Nat) : Op xlen → List (Op xlen) → Prop
  | .raise t command, rest =>
      t = k ∧ command.command = HARTCMD_STARTHART ∧
        rest = [.post (.hart_command_que_locks k)]
  | .post lock, rest =>
      (lock = .printm_lock ∧ ∃ command, startPhase k rest = .sending command) ∨
        lock = .hart_command_que_locks k ∧ rest = []
  | .wait_load lock, rest =>
      (∀ t, lock ≠ .sbi_hsm_locks t) ∧
        ∃ command, startPhase k rest = .sending command
  | .wait_swap lock, rest =>
      (∀ t, lock ≠ .sbi_hsm_locks t) ∧
        ∃ command, startPhase k rest = .sending command
  | .print _, rest => ∃ command, startPhase k rest = .sending command
  | .sfence_vma, rest => ∃ command, startPhase k rest = .sending command
  | .fence_i, rest => ∃ command, startPhase k rest = .sending command
  | .poll _, rest => ∃ command, startPhase k rest = .sending command
  | .copy _ _ _, rest => ∃ command, startPhase k rest = .sending command
  | _, _ => False

/-- Complete pieces of main code of hart `k`. -/
def StartsToEnd (h k : Nat) (ops : List (Op xlen)) : Prop :=
  EverySuffix (StartContract h k) ops ∧
    (startPhase h ops = .out ∨ k ≠ h ∧ startPhase h ops = .parking)

@[simp]
theorem startPhase_nil (h : Nat) : startPhase h ([] : List (Op xlen)) = .out :=
  rfl

@[simp]
theorem startPhase_cons (h : Nat) (op : Op xlen) (rest : List (Op xlen)) :
    startPhase h (op :: rest) = startPhaseBefore h op (startPhase h rest) :=
  rfl

@[simp]
theorem wakeStage_nil (h : Nat) : wakeStage h ([] : List (Op xlen)) = none :=
  rfl

@[simp]
theorem wakeStage_cons (h : Nat) (op : Op xlen) (rest : List (Op xlen)) :
    wakeStage h (op :: rest) = wakeStageBefore h op (wakeStage h rest) :=
  rfl

/-- A start is no switch of the context. -/
@[simp]
theorem HARTCMD_STARTHART_ne_SWITCHCONTEXT :
    (HARTCMD_STARTHART : Word xlen) ≠ HARTCMD_SWITCHCONTEXT := by
  cases xlen <;> decide

section Main

variable {h k t : Nat} {rest : List (Op xlen)}

/-- Where the phase is no other hart's parking, the own switch is not next. -/
theorem StartsToEnd.calm (after : StartsToEnd h k rest) :
    k = h → startPhase h rest ≠ .parking := by
  rintro same
  rcases after.2 with out | ⟨other, -⟩
  · simp [out]
  · exact absurd same other

/-- Operations that have no part in starting or stopping a hart. -/
def Op.Plain : Op xlen → Prop
  | .wait_load lock => ∀ t, lock ≠ .sbi_hsm_locks t
  | .wait_swap lock => ∀ t, lock ≠ .sbi_hsm_locks t
  | .post lock => ∀ t, lock ≠ .sbi_hsm_locks t
  | .raise _ command =>
      command.command ≠ HARTCMD_STARTHART ∧
        command.command ≠ HARTCMD_SWITCHCONTEXT
  | .print _ => True
  | .sfence_vma => True
  | .fence_i => True
  | .poll _ => True
  | .copy _ _ _ => True
  | .csr_write _ _ => True
  | .csr_bitset _ _ => True
  | .csr_bitclr _ _ => True
  | .write_context _ _ _ => True
  | _ => False

theorem startPhase_plain
    {op : Op xlen}
    (plain : op.Plain) :
    startPhase h (op :: rest) = startPhase h rest := by
  cases op <;> simp_all [Op.Plain]

theorem StartsToEnd.plain
    {op : Op xlen}
    (after : StartsToEnd h k rest)
    (plain : op.Plain) :
    StartsToEnd h k (op :: rest) := by
  refine ⟨⟨⟨fun same _ => after.calm same, ?_⟩, after.1⟩, ?_⟩
  · cases op <;> simp_all [Op.Plain]
  · rw [startPhase_plain plain]
    exact after.2

theorem StartsToEnd.plains
    {left : List (Op xlen)}
    (after : StartsToEnd h k rest)
    (plain : ∀ op ∈ left, op.Plain) :
    StartsToEnd h k (left ++ rest) := by
  induction left with
  | nil => exact after
  | cons op left inductionHypothesis =>
      exact (inductionHypothesis fun other member =>
        plain other (by simp [member])).plain (plain op (by simp))

theorem Op.Local.plain {op : Op xlen} (local_ : op.Local) : op.Plain := by
  cases op <;> simp_all [Op.Local, Op.Plain]

theorem StartsToEnd.locals
    {left : List (Op xlen)}
    (after : StartsToEnd h k rest)
    (local_ : ∀ op ∈ left, op.Local) :
    StartsToEnd h k (left ++ rest) :=
  after.plains fun op member => (local_ op member).plain

theorem send_plain
    {command : Hart_Command xlen}
    (notStart : command.command ≠ HARTCMD_STARTHART)
    (notSwitch : command.command ≠ HARTCMD_SWITCHCONTEXT) :
    ∀ op ∈ send_hart_command_que t command, op.Plain := by
  simp [send_hart_command_que, ksem_wait, ksem_post, copy_command,
    CommandField.all, Op.Plain, notStart, notSwitch]

theorem StartsToEnd.ret (retval : sbiret) :
    StartsToEnd h k ([.ret retval] : List (Op xlen)) := by
  simp [StartsToEnd, StartContract]

theorem action_plain
    {mhartid hartid : Word xlen}
    {stack : Word xlen → Hart_Command xlen}
    {call : HartMaskCall xlen} :
    ∀ op ∈ actionOps (call.actionFor mhartid stack hartid), op.Plain := by
  unfold HartMaskCall.actionFor
  by_cases own : hartid = mhartid
  · rw [if_pos own]
    cases call <;> simp [HartMaskCall.localAction, actionOps, Op.Plain]
  · rw [if_neg own]
    obtain ⟨notStart, notSwitch⟩ := call.commandFor_command stack hartid
    exact send_plain notStart notSwitch

theorem StartsToEnd.masked
    (platform : Platform)
    (mhartid hart_mask hart_mask_base : Word platform.xlen)
    (stack : Word platform.xlen → Hart_Command platform.xlen)
    (call : HartMaskCall platform.xlen) :
    StartsToEnd h k
      (maskedOps (call.run platform mhartid stack hart_mask hart_mask_base)) := by
  rw [maskedOps, List.append_assoc, HartMaskCall.run_eq]
  split_ifs
  · refine StartsToEnd.plains ?_ (by simp)
    refine (StartsToEnd.ret _).plains fun op member => ?_
    obtain ⟨action, inside, here⟩ := List.mem_flatMap.mp member
    obtain ⟨hartid, -, rfl⟩ := List.mem_map.mp inside
    exact action_plain op here
  · exact (StartsToEnd.plains (.ret _) (by simp)).locals (prints_local _)

theorem StartsToEnd.goDown
    {state : SBI_HSM}
    (stopped : Lifecycle.Stopped state) :
    StartsToEnd h k (goDown k state : List (Op xlen)) := by
  by_cases own : k = h
  · subst own
    simpa [StartsToEnd, StartContract, Harts.goDown, ksem_wait, ksem_post]
      using stopped
  · simp [StartsToEnd, StartContract, Harts.goDown, ksem_wait, ksem_post, own]

theorem StartsToEnd.hart_start
    (platform : Platform)
    (stack : Hart_Command platform.xlen)
    (hartid start_addr opaque_ : Word platform.xlen) :
    StartsToEnd h k
      (sbi_hart_start platform k stack hartid start_addr opaque_) := by
  unfold sbi_hart_start
  split_ifs
  · exact (StartsToEnd.ret _).locals (printm_local _)
  · exact (StartsToEnd.ret _).locals (printm_local _)
  · exact (StartsToEnd.ret _).locals (printm_local _)
  · by_cases target : hartid.toNat = h
    · simp [StartsToEnd, StartContract, ksem_wait, target, startCommand]
    · simp [StartsToEnd, StartContract, ksem_wait, target, startCommand]

theorem StartsToEnd.hart_suspend
    (suspend_type : BitVec 32)
    (resume_addr opaque_ : Word xlen) :
    StartsToEnd h k (sbi_hart_suspend k suspend_type resume_addr opaque_) := by
  refine StartsToEnd.locals ?_ (printm_local _)
  split_ifs
  · exact .ret _
  · exact (StartsToEnd.goDown (.inr rfl)).plains (by simp [Op.Plain])
  · exact .ret _

/-- Every SBI call keeps to the contract of every target. -/
theorem StartsToEnd.call
    (platform : Platform)
    (request : Request platform.xlen) :
    StartsToEnd h k (call_to_sbi platform k request) := by
  cases request with
  | mask call hart_mask hart_mask_base stack => exact .masked ..
  | hart_start hartid start_addr opaque_ stack => exact .hart_start ..
  | hart_stop => exact (StartsToEnd.goDown (.inl rfl)).locals (printm_local _)
  | hart_get_status hartid =>
      refine StartsToEnd.locals ?_ (printm_local _)
      split_ifs
      · exact .ret _
      · simp [StartsToEnd, StartContract]
  | hart_suspend suspend_type resume_addr opaque_ => exact .hart_suspend ..
  | other printed ret => exact (StartsToEnd.ret _).locals (prints_local _)

/-- A refused start: the lock is still to be released. -/
theorem startRefused_contract :
    EverySuffix (StartContract h k) (startRefused t : List (Op xlen)) ∧
      startPhase h (startRefused t : List (Op xlen)) =
        if t = h then .refused else .out := by
  by_cases target : t = h
  · simp [startRefused, printm, ksem_wait, ksem_post, StartContract, target]
  · simp [startRefused, printm, ksem_wait, ksem_post, StartContract, target]

/-- An accepted start. -/
theorem startAccepted_contract
    {command : Hart_Command xlen}
    (start : command.command = HARTCMD_STARTHART) :
    EverySuffix (StartContract h k) (startAccepted t command) ∧
      startPhase h (startAccepted t command) =
        if t = h then .storing command else .out := by
  by_cases target : t = h
  · simp [startAccepted, send_hart_command_que, copy_command,
      CommandField.all, ksem_wait, ksem_post, StartContract, target, start]
  · simp [startAccepted, send_hart_command_que, copy_command,
      CommandField.all, ksem_wait, ksem_post, StartContract, target, start]

/-- The end of `kmain` starts hart 0. -/
theorem kmain_contract
    (config : Config)
    (stack : Hart_Command config.xlen) :
    EverySuffix (StartContract h 0) (kmain config stack) ∧
      EverySuffix (BootContract 0) (kmain config stack) ∧
      startPhase h (kmain config stack) =
        if 0 = h then
          .sending (startCommand stack 0#_
            config.kernel_load_to_point config.dtb_load_to_point)
        else .out := by
  have start : (startCommand stack 0#_ config.kernel_load_to_point
      config.dtb_load_to_point).command = HARTCMD_STARTHART := rfl
  by_cases target : 0 = h
  · subst target
    simp [kmain, printm, send_hart_command_que, copy_command,
      CommandField.all, ksem_wait, ksem_post, StartContract, start]
  · simp [kmain, printm, send_hart_command_que, copy_command,
      CommandField.all, ksem_wait, ksem_post, StartContract, target, start]

/-- Only the switch itself is parking. -/
theorem StartContract.of_parking
    {op : Op xlen}
    (contract : StartContract k k op rest)
    (parks : startPhase k (op :: rest) = .parking) :
    op :: rest = [.switch_to_hart_context] := by
  obtain ⟨calm, rule⟩ := contract
  cases op with
  | switch_to_hart_context =>
      have none_follows : rest = [] := rule
      rw [none_follows]
  | post lock =>
      by_cases own : lock = .sbi_hsm_locks k
      · subst own
        simp only [startPhase_cons, startPhaseBefore, if_true] at parks
        split at parks <;> cases parks
      · exact absurd (by simpa [own] using parks) (calm rfl (by simp [own]))
  | wait_load lock =>
      by_cases own : lock = .sbi_hsm_locks k
      · simp [own] at parks
      · exact absurd (by simpa [own] using parks) (calm rfl (by simp))
  | wait_swap lock =>
      by_cases own : lock = .sbi_hsm_locks k
      · simp [own] at parks
      · exact absurd (by simpa [own] using parks) (calm rfl (by simp))
  | check_hart_state t command =>
      by_cases own : t = k
      · simp [own] at parks
      · exact absurd (by simpa [own] using parks) (calm rfl (by simp))
  | store_hart_state t state =>
      by_cases own : t = k
      · simp only [startPhase_cons, startPhaseBefore, own, if_true] at parks
        split at parks <;> cases parks
      · exact absurd (by simpa [own] using parks) (calm rfl (by simp))
  | raise t command =>
      by_cases start : t = k ∧ command.command = HARTCMD_STARTHART
      · simp [start] at parks
      · exact absurd (by simpa [start] using parks) (calm rfl (by simp))
  | _ => exact absurd parks (calm rfl (by simp))

/-- The end of `kmain` behind its raise is the release of the lock. -/
theorem BootContract.of_sent
    {op : Op xlen}
    (contract : BootContract k op rest)
    (sent : ∀ command, startPhase k (op :: rest) ≠ .sending command) :
    op :: rest = [.post (.hart_command_que_locks k)] := by
  cases op with
  | post lock =>
      rcases contract with ⟨rfl, command, sends⟩ | ⟨rfl, rfl⟩
      · exact absurd (by simpa using sends) (sent command)
      · rfl
  | raise t command =>
      obtain ⟨rfl, start, -⟩ := contract
      exact absurd (by simp [start]) (sent command)
  | wait_load lock =>
      obtain ⟨apart, command, sends⟩ := contract
      exact absurd (by simpa [apart k] using sends) (sent command)
  | wait_swap lock =>
      obtain ⟨apart, command, sends⟩ := contract
      exact absurd (by simpa [apart k] using sends) (sent command)
  | print text => exact contract.elim fun command sends => absurd sends (sent command)
  | sfence_vma => exact contract.elim fun command sends => absurd sends (sent command)
  | fence_i => exact contract.elim fun command sends => absurd sends (sent command)
  | poll t => exact contract.elim fun command sends => absurd sends (sent command)
  | copy t field value =>
      exact contract.elim fun command sends => absurd sends (sent command)
  | _ => exact contract.elim

end Main

section Handler

variable {h : Nat} {rest : List (Op xlen)}

theorem wakeStage_plain
    {op : Op xlen}
    (plain : op.Plain) :
    wakeStage h (op :: rest) = wakeStage h rest := by
  cases op <;> simp_all [Op.Plain]

theorem wake_locals
    {left : List (Op xlen)}
    (after : EverySuffix (WakeContract h) rest)
    (local_ : ∀ op ∈ left, op.Local) :
    EverySuffix (WakeContract h) (left ++ rest) ∧
      wakeStage h (left ++ rest) = wakeStage h rest := by
  induction left with
  | nil => exact ⟨after, rfl⟩
  | cons op left inductionHypothesis =>
      obtain ⟨contract, same⟩ := inductionHypothesis fun other member =>
        local_ other (by simp [member])
      have here := local_ op (by simp)
      refine ⟨⟨?_, contract⟩, ?_⟩
      · cases op <;> simp_all [Op.Local]
      · rw [← same]
        exact wakeStage_plain here.plain

theorem software_wake :
    EverySuffix (WakeContract h) (machineSoftwareInterrupt : List (Op xlen)) ∧
      wakeStage h (machineSoftwareInterrupt : List (Op xlen)) = none := by
  simp [machineSoftwareInterrupt, CommandField.all]

theorem timer_wake (config : Config) :
    EverySuffix (WakeContract h) (machineTimerInterrupt config h) ∧
      wakeStage h (machineTimerInterrupt config h) = none := by
  unfold machineTimerInterrupt
  split_ifs <;> simp

theorem exception_wake (k cause_value : Nat) (lines : List String) :
    EverySuffix (WakeContract h) (exceptionHalt k cause_value lines : List (Op xlen)) ∧
      wakeStage h (exceptionHalt k cause_value lines : List (Op xlen)) = none := by
  unfold exceptionHalt
  refine wake_locals ?_ ?_
  · simp
  · intro op member
    simp only [List.mem_append, List.mem_singleton] at member
    rcases member with (rfl | text) | text
    · trivial
    · exact printm_local _ op text
    · exact prints_local _ op text

/-- The start branch. -/
theorem start_wake
    (config : Config)
    (command : Hart_Command config.xlen) :
    EverySuffix (WakeContract h) (handleStart config h command) ∧
      wakeStage h (handleStart config h command) = some .waking := by
  have commit : EverySuffix (WakeContract h)
        (ksem_wait (.sbi_hsm_locks h) ++ .store_hart_state h .STARTED ::
          (ksem_post (.sbi_hsm_locks h) ++
            [.clear_command, .clear_msip, .switch_to_user_context]) :
              List (Op config.xlen)) ∧
      wakeStage h
        (ksem_wait (.sbi_hsm_locks h) ++ .store_hart_state h .STARTED ::
          (ksem_post (.sbi_hsm_locks h) ++
            [.clear_command, .clear_msip, .switch_to_user_context]) :
              List (Op config.xlen)) = some .waking := by
    simp [ksem_wait, ksem_post]
  have parts : ∀ op ∈ printm ("\tStarting: " ++ toString h ++ "\n") ++
      (if config.MM_QEMU_VIRT then qemuFixes config h else []) ++
      startContext h command, op.Local := by
    intro op member
    simp only [List.mem_append] at member
    rcases member with (text | fixes) | context
    · exact printm_local _ op text
    · split_ifs at fixes
      · exact qemuFixes_local config h op fixes
      · cases fixes
    · exact startContext_local h command op context
  have setup := wake_locals commit.1 parts
  rw [commit.2] at setup
  simpa [handleStart, List.append_assoc] using setup

/-- The branches other than that of the switch: only the start wakes. -/
theorem handle_wake
    (config : Config)
    {command : Hart_Command config.xlen}
    (notSwitch : command.command ≠ HARTCMD_SWITCHCONTEXT) :
    EverySuffix (WakeContract h) (handleCommand config h command) ∧
      wakeStage h (handleCommand config h command) =
        if command.command = HARTCMD_STARTHART then some .waking else none := by
  unfold handleCommand
  rw [if_neg notSwitch]
  by_cases start : command.command = HARTCMD_STARTHART
  · rw [if_pos start, if_pos start]
    exact start_wake config command
  · rw [if_neg start, if_neg start]
    split_ifs
    · simp
    · simp
    · simp
    · simp
    · exact wake_locals (by simp) (printm_local _)

end Handler

end Harts
end EchelonSbi
