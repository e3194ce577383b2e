import EchelonSbi.Foundation.EverySuffix
import EchelonSbi.Foundation.Mailbox
import EchelonSbi.Harts.Program

/-!
# What a remaining piece of code says about where it stands

A sender stands somewhere in `send_hart_command_que`, and a handler somewhere
in the cause-3 branch of `interrupt_c_handler`.  Both places can be read off
from the operations that remain.  A contract between each operation and what
follows it holds of every piece of firmware code.
-/

namespace EchelonSbi
namespace Harts

open Foundation
open Sbi

variable {xlen : Xlen}

/-- The phase of a send to hart `g` before an operation, given the phase after
it. -/
@[simp]
def sendPhaseBefore (g : Nat) :
    Op xlen → Mailbox.Sender (Hart_Command xlen) →
      Mailbox.Sender (Hart_Command xlen)
  | .wait_load lock, after =>
      if lock = .hart_command_que_locks g then .out else after
  | .wait_swap lock, after =>
      if lock = .hart_command_que_locks g then .out else after
  | .poll t, after => if t = g then .locked else after
  | .raise t command, after => if t = g then .writing command else after
  | .post lock, after =>
      if lock = .hart_command_que_locks g then .raised else after
  | _, after => after

/-- The phase of a send to hart `g` in code that is still to run. -/
def sendPhase (g : Nat) (ops : List (Op xlen)) :
    Mailbox.Sender (Hart_Command xlen) :=
  ops.foldr (sendPhaseBefore g) .out

/-- The mailbox of hart `g` at its next raise, when it is `slot` now and only
the given code writes it. -/
@[simp]
def written (g : Nat) :
    List (Op xlen) → Hart_Command xlen → Hart_Command xlen
  | .copy t field value :: rest, slot =>
      written g rest (if t = g then field.set slot value else slot)
  | .raise t _ :: rest, slot => if t = g then slot else written g rest slot
  | _ :: rest, slot => written g rest slot
  | [], slot => slot

/-- The phase of a handler before an operation, given the phase after it. -/
@[simp]
def handlerPhaseBefore : Op xlen → Mailbox.Receiver → Mailbox.Receiver
  | .dispatch, _ => .reading
  | .clear_msip, _ => .busy
  | .halt_not_handled, _ => .busy
  | _, after => after

/-- The phase of a handler that is still to run. -/
def handlerPhase (ops : List (Op xlen)) : Mailbox.Receiver :=
  ops.foldr handlerPhaseBefore .idle

/-- The local copy of the mailbox at the dispatch, when it is `command` now and
the mailbox stays `slot`. -/
@[simp]
def loaded (slot : Hart_Command xlen) :
    List (Op xlen) → Hart_Command xlen → Hart_Command xlen
  | .load_command field :: rest, command =>
      loaded slot rest (field.set command (field.get slot))
  | .dispatch :: _, command => command
  | _ :: rest, command => loaded slot rest command
  | [], command => command

/-- What main code that sends to hart `g` keeps to. -/
@[simp]
def SendContract (g : Nat) : Op xlen → List (Op xlen) → Prop
  | .wait_load lock, rest =>
      lock = .hart_command_que_locks g → sendPhase g rest = .out
  | .wait_swap lock, rest =>
      lock = .hart_command_que_locks g → sendPhase g rest = .locked
  | .poll t, rest =>
      t = g → ∃ command, sendPhase g rest = .writing command ∧
        ∀ slot, written g rest slot = command
  | .copy t _ _, rest =>
      t = g → ∃ command, sendPhase g rest = .writing command
  | .raise t _, rest => t = g → sendPhase g rest = .raised
  | .post lock, rest =>
      lock = .hart_command_que_locks g → sendPhase g rest = .out
  | .check_hart_state _ _, rest => sendPhase g rest = .out
  | .ret _, rest => sendPhase g rest = .out
  | .ret_hart_state _, rest => sendPhase g rest = .out
  | .switch_to_hart_context, rest => sendPhase g rest = .out
  | .load_command _, _ => False
  | .dispatch, _ => False
  | .clear_command, _ => False
  | .clear_msip, _ => False
  | .resume, _ => False
  | .switch_to_user_context, _ => False
  | .switch_to_context _, _ => False
  | .halt_not_handled, _ => False
  | .halt_exception, _ => False
  | _, _ => True

/-- What a handler keeps to. -/
@[simp]
def HandlerContract : Op xlen → List (Op xlen) → Prop
  | .wait_load lock, _ => ∀ g, lock ≠ .hart_command_que_locks g
  | .wait_swap lock, _ => ∀ g, lock ≠ .hart_command_que_locks g
  | .post lock, _ => ∀ g, lock ≠ .hart_command_que_locks g
  | .load_command _, rest => handlerPhase rest = .reading
  | .dispatch, rest => rest = []
  | .clear_command, rest => handlerPhase rest = .busy
  | .clear_msip, rest => handlerPhase rest = .idle
  | .resume, rest => handlerPhase rest = .idle
  | .switch_to_user_context, rest => handlerPhase rest = .idle
  | .switch_to_context _, rest => handlerPhase rest = .idle
  | .poll _, _ => False
  | .copy _ _ _, _ => False
  | .raise _ _, _ => False
  | .check_hart_state _ _, _ => False
  | .ret_hart_state _, _ => False
  | .ret _, _ => False
  | .switch_to_hart_context, _ => False
  | _, _ => True

/-- Complete pieces of main code. -/
def SendsToEnd (g : Nat) (ops : List (Op xlen)) : Prop :=
  EverySuffix (SendContract g) ops ∧ sendPhase g ops = .out

/-- Handler code that starts in a given phase. -/
def HandlerFrom (phase : Mailbox.Receiver) (ops : List (Op xlen)) : Prop :=
  EverySuffix HandlerContract ops ∧ handlerPhase ops = phase

@[simp]
theorem sendPhase_nil (g : Nat) : sendPhase g ([] : List (Op xlen)) = .out :=
  rfl

@[simp]
theorem sendPhase_cons (g : Nat) (op : Op xlen) (rest : List (Op xlen)) :
    sendPhase g (op :: rest) = sendPhaseBefore g op (sendPhase g rest) :=
  rfl

@[simp]
theorem handlerPhase_nil : handlerPhase ([] : List (Op xlen)) = .idle :=
  rfl

@[simp]
theorem handlerPhase_cons (op : Op xlen) (rest : List (Op xlen)) :
    handlerPhase (op :: rest) = handlerPhaseBefore op (handlerPhase rest) :=
  rfl

/-- Operations that have no part in sending, receiving, starting or stopping. -/
def Op.Local : Op xlen → Prop
  | .wait_load lock => lock = .printm_lock
  | .wait_swap lock => lock = .printm_lock
  | .post lock => lock = .printm_lock
  | .print _ => True
  | .sfence_vma => True
  | .fence_i => True
  | .csr_write _ _ => True
  | .csr_bitset _ _ => True
  | .csr_bitclr _ _ => True
  | .write_context _ _ _ => True
  | _ => False

theorem printm_local (text : String) :
    ∀ op ∈ (printm text : List (Op xlen)), op.Local := by
  simp [printm, ksem_wait, ksem_post, Op.Local]

theorem prints_local (lines : List String) :
    ∀ op ∈ (lines.flatMap printm : List (Op xlen)), op.Local := by
  intro op member
  obtain ⟨line, -, inside⟩ := List.mem_flatMap.mp member
  exact printm_local line op inside

theorem startContext_local (h : Nat) (command : Hart_Command xlen) :
    ∀ op ∈ startContext h command, op.Local := by
  intro op member
  simp only [startContext, clear_hart_context, List.mem_append, List.mem_cons,
    List.mem_map, List.not_mem_nil, or_false] at member
  rcases member with (setup | (rfl | rfl | rfl) | ⟨i, -, rfl⟩) | fields
  · rcases setup with rfl | rfl | rfl | rfl | rfl | rfl | rfl <;> trivial
  · trivial
  · trivial
  · trivial
  · trivial
  · rcases fields with rfl | rfl | rfl | rfl | rfl <;> trivial

theorem qemuFixes_local (config : Config) (h : Nat) :
    ∀ op ∈ qemuFixes config h, op.Local := by
  intro op member
  simp only [qemuFixes, List.mem_append] at member
  rcases member with ((pmp | sstc) | extension) | environment
  · simp only [List.mem_cons, List.not_mem_nil, or_false] at pmp
    rcases pmp with rfl | rfl | rfl | rfl <;> trivial
  · split_ifs at sstc
    · split at sstc <;> cases List.mem_singleton.mp sstc <;> trivial
    · cases sstc
  · split_ifs at extension
    · rcases List.mem_append.mp extension with text | enable
      · exact printm_local _ op text
      · cases List.mem_singleton.mp enable
        trivial
    · cases extension
  · split_ifs at environment
    · simp only [List.mem_cons, List.not_mem_nil, or_false] at environment
      rcases environment with rfl | rfl | rfl <;> trivial
    · cases environment

theorem SendsToEnd.nil (g : Nat) : SendsToEnd g ([] : List (Op xlen)) :=
  ⟨trivial, rfl⟩

section Main

variable {g t : Nat} {rest : List (Op xlen)}

theorem SendsToEnd.wait
    {lock : Lock}
    (after : SendsToEnd g rest)
    (other : lock ≠ .hart_command_que_locks g) :
    SendsToEnd g (ksem_wait lock ++ rest) := by
  obtain ⟨contract, out⟩ := after
  simp [SendsToEnd, ksem_wait, contract, out, other]

theorem SendsToEnd.post
    {lock : Lock}
    (after : SendsToEnd g rest)
    (other : lock ≠ .hart_command_que_locks g) :
    SendsToEnd g (.post lock :: rest) := by
  obtain ⟨contract, out⟩ := after
  simp [SendsToEnd, contract, out, other]

theorem SendsToEnd.store
    {state : SBI_HSM}
    (after : SendsToEnd g rest) :
    SendsToEnd g (.store_hart_state t state :: rest) :=
  ⟨⟨trivial, after.1⟩, after.2⟩

theorem SendsToEnd.locals
    {left : List (Op xlen)}
    (after : SendsToEnd g rest)
    (local_ : ∀ op ∈ left, op.Local) :
    SendsToEnd g (left ++ rest) := by
  induction left with
  | nil => exact after
  | cons op left inductionHypothesis =>
      obtain ⟨contract, out⟩ := inductionHypothesis fun other member =>
        local_ other (by simp [member])
      have here := local_ op (by simp)
      cases op <;> simp_all [SendsToEnd, Op.Local]

/-- The send itself keeps to the contract of its target. -/
theorem SendsToEnd.send
    {command : Hart_Command xlen}
    (after : SendsToEnd g rest) :
    SendsToEnd g (send_hart_command_que t command ++ rest) := by
  obtain ⟨contract, out⟩ := after
  by_cases same : t = g
  · subst same
    simp [SendsToEnd, send_hart_command_que, copy_command, CommandField.all,
      ksem_wait, ksem_post, CommandField.set, CommandField.get, contract, out]
  · simp [SendsToEnd, send_hart_command_que, copy_command, CommandField.all,
      ksem_wait, ksem_post, contract, out, same]

/-- The end of a call. -/
theorem SendsToEnd.ret (retval : sbiret) :
    SendsToEnd g ([.ret retval] : List (Op xlen)) := by
  simp [SendsToEnd]

theorem SendsToEnd.action
    {action : HartAction xlen}
    (after : SendsToEnd g rest) :
    SendsToEnd g (actionOps action ++ rest) := by
  cases action with
  | setSoftwareInterrupt => exact after.locals (by simp [actionOps, Op.Local])
  | fenceI => exact after.locals (by simp [actionOps, Op.Local])
  | sfenceVma => exact after.locals (by simp [actionOps, Op.Local])
  | send hart_id command => exact after.send

theorem SendsToEnd.masked (outcome : MaskedOutcome xlen) :
    SendsToEnd g (maskedOps outcome) := by
  rw [maskedOps, List.append_assoc]
  exact SendsToEnd.locals
    (flatMap_append_preserves (fun _ _ _ done => done.action) (.ret _))
    (prints_local _)

theorem SendsToEnd.startRefused
    (after : sendPhase g rest = .out)
    (contract : EverySuffix (SendContract g) rest) :
    SendsToEnd g (startRefused t ++ rest) := by
  rw [Harts.startRefused, List.append_assoc, List.append_assoc]
  have returns : SendsToEnd g (.ret ⟨SBI_ERR_ALREADY_AVAILABLE, 0⟩ :: rest) := by
    simp [SendsToEnd, after, contract]
  exact (returns.post (by simp)).locals (printm_local _)

theorem SendsToEnd.startAccepted
    {command : Hart_Command xlen}
    (after : sendPhase g rest = .out)
    (contract : EverySuffix (SendContract g) rest) :
    SendsToEnd g (startAccepted t command ++ rest) := by
  rw [Harts.startAccepted, List.append_assoc, List.append_assoc,
    List.append_assoc]
  have returns : SendsToEnd g (.ret ⟨SBI_SUCCESS, 0⟩ :: rest) := by
    simp [SendsToEnd, after, contract]
  exact (returns.send.post (by simp)).store

theorem SendsToEnd.goDown (h : Nat) (state : SBI_HSM) :
    SendsToEnd g (goDown h state : List (Op xlen)) := by
  simp [Harts.goDown, SendsToEnd, ksem_wait, ksem_post]

theorem SendsToEnd.hart_start
    (platform : Platform)
    (h : Nat)
    (stack : Hart_Command platform.xlen)
    (hartid start_addr opaque_ : Word platform.xlen) :
    SendsToEnd g (sbi_hart_start platform h stack hartid start_addr opaque_) := by
  unfold sbi_hart_start
  split_ifs
  · exact (SendsToEnd.ret _).locals (printm_local _)
  · exact (SendsToEnd.ret _).locals (printm_local _)
  · exact (SendsToEnd.ret _).locals (printm_local _)
  · exact SendsToEnd.wait (by simp [SendsToEnd]) (by simp)

theorem SendsToEnd.hart_suspend
    (h : Nat)
    (suspend_type : BitVec 32)
    (resume_addr opaque_ : Word xlen) :
    SendsToEnd g (sbi_hart_suspend h suspend_type resume_addr opaque_) := by
  refine SendsToEnd.locals ?_ (printm_local _)
  split_ifs
  · exact .ret _
  · exact (SendsToEnd.goDown h _).locals (by simp [Op.Local])
  · exact .ret _

/-- Every SBI call keeps to the contract of every target. -/
theorem SendsToEnd.call
    (platform : Platform)
    (h : Nat)
    (request : Request platform.xlen) :
    SendsToEnd g (call_to_sbi platform h request) := by
  cases request with
  | mask call hart_mask hart_mask_base stack => exact .masked _
  | hart_start hartid start_addr opaque_ stack => exact .hart_start ..
  | hart_stop => exact (SendsToEnd.goDown h _).locals (printm_local _)
  | hart_get_status hartid =>
      refine SendsToEnd.locals ?_ (printm_local _)
      split_ifs
      · exact .ret _
      · simp [SendsToEnd]
  | hart_suspend suspend_type resume_addr opaque_ => exact .hart_suspend ..
  | other printed ret => exact (SendsToEnd.ret _).locals (prints_local _)

theorem SendsToEnd.boot
    (config : Config)
    (stack : Hart_Command config.xlen) :
    SendsToEnd g (kmain config stack) := by
  have sends : SendsToEnd g (send_hart_command_que 0 (startCommand stack 0#_
      config.kernel_load_to_point config.dtb_load_to_point) ++ []) :=
    (SendsToEnd.nil g).send
  rw [List.append_nil] at sends
  exact sends.locals (printm_local _)

end Main

section Handler

variable {phase : Mailbox.Receiver} {rest : List (Op xlen)}

theorem HandlerFrom.locals
    {left : List (Op xlen)}
    (after : HandlerFrom phase rest)
    (local_ : ∀ op ∈ left, op.Local) :
    HandlerFrom phase (left ++ rest) := by
  induction left with
  | nil => exact after
  | cons op left inductionHypothesis =>
      obtain ⟨contract, same⟩ := inductionHypothesis fun other member =>
        local_ other (by simp [member])
      have here := local_ op (by simp)
      cases op <;> simp_all [HandlerFrom, Op.Local]

theorem HandlerFrom.resume :
    HandlerFrom .idle ([.resume] : List (Op xlen)) := by
  simp [HandlerFrom]

theorem HandlerFrom.timer (config : Config) (h : Nat) :
    HandlerFrom .idle (machineTimerInterrupt config h) := by
  unfold machineTimerInterrupt
  split_ifs
  · exact .resume
  · exact HandlerFrom.resume.locals (by simp [Op.Local])

theorem HandlerFrom.exception (h cause_value : Nat) (lines : List String) :
    HandlerFrom .idle (exceptionHalt h cause_value lines : List (Op xlen)) := by
  refine HandlerFrom.locals (by simp [HandlerFrom]) fun op member => ?_
  simp only [List.mem_append, List.mem_singleton] at member
  rcases member with (rfl | text) | text
  · trivial
  · exact printm_local _ op text
  · exact prints_local _ op text

theorem HandlerFrom.software :
    HandlerFrom .reading (machineSoftwareInterrupt : List (Op xlen)) := by
  simp [HandlerFrom, machineSoftwareInterrupt, CommandField.all]

/-- The mailbox is copied whole. -/
theorem loaded_machineSoftwareInterrupt (slot command : Hart_Command xlen) :
    loaded slot machineSoftwareInterrupt command = slot := by
  simp [machineSoftwareInterrupt, CommandField.all, CommandField.set,
    CommandField.get]

theorem HandlerFrom.start
    (config : Config)
    (h : Nat)
    (command : Hart_Command config.xlen) :
    HandlerFrom .busy (handleStart config h command) := by
  have commit : HandlerFrom .busy
      (ksem_wait (.sbi_hsm_locks h) ++ .store_hart_state h .STARTED ::
        (ksem_post (.sbi_hsm_locks h) ++
          [.clear_command, .clear_msip, .switch_to_user_context]) :
            List (Op config.xlen)) := by
    simp [HandlerFrom, ksem_wait, ksem_post]
  have setup := commit.locals (startContext_local h command)
  unfold handleStart
  simp only [List.append_assoc]
  refine HandlerFrom.locals ?_ (printm_local _)
  by_cases qemu : config.MM_QEMU_VIRT = true
  · rw [if_pos qemu]
    exact setup.locals (qemuFixes_local config h)
  · rw [if_neg qemu]
    exact setup

/-- Every branch acknowledges the command or halts. -/
theorem HandlerFrom.handle
    (config : Config)
    (h : Nat)
    (command : Hart_Command config.xlen) :
    HandlerFrom .busy (handleCommand config h command) := by
  unfold handleCommand
  split_ifs
  · simp [HandlerFrom]
  · exact .start config h command
  · simp [HandlerFrom]
  · simp [HandlerFrom]
  · simp [HandlerFrom]
  · simp [HandlerFrom]
  · exact HandlerFrom.locals (by simp [HandlerFrom]) (printm_local _)

end Handler

end Harts
end EchelonSbi
