import EchelonSbi.Harts.SelfDeadlock

/-!
# Every command that is sent is served

All commands that a hart can receive have a branch in `interrupt_c_handler`.  So a
handler comes to its end, and waits for locks only in the start branch or where the
hart has given up already.
-/

namespace EchelonSbi
namespace Harts

open Foundation
open Sbi

variable {xlen : Xlen}

/-! ## The commands that are sent -/

/-- A command that `interrupt_c_handler` has a branch for, other than that of the
switch. -/
def Served (command : Hart_Command xlen) : Prop :=
  command.command = HARTCMD_STARTHART ∨ command.command = HARTCMD_REMOTE_FENCE_I ∨
    command.command = HARTCMD_REMOTE_SFENCE_VMA ∨
      command.command = HARTCMD_REMOTE_SFENCE_VMA_ASID ∨
        command.command = HARTCMD_SMODE_SOFTINT

/-- What the operation sends, or prepares to send, is served. -/
@[simp]
def Op.SendsServed : Op xlen → Prop
  | .raise _ command => Served command
  | .check_hart_state _ command => Served command
  | .dispatch => False
  | _ => True

section Commands

variable {t : Nat}

theorem Op.Local.sendsServed {op : Op xlen} (local_ : op.Local) : op.SendsServed := by
  cases op <;> first | exact local_.elim | trivial

theorem printm_served (text : String) :
    ∀ op ∈ (printm text : List (Op xlen)), op.SendsServed :=
  fun op member => (printm_local text op member).sendsServed

theorem send_served
    {command : Hart_Command xlen}
    (served : Served command) :
    ∀ op ∈ send_hart_command_que t command, op.SendsServed := by
  simp [send_hart_command_que, copy_command, CommandField.all, ksem_wait, ksem_post, served]

theorem startRefused_served :
    ∀ op ∈ (startRefused t : List (Op xlen)), op.SendsServed := by
  apply forall_mem_append
  · exact forall_mem_append (printm_served _) (by simp [ksem_post])
  · simp

theorem startAccepted_served
    {command : Hart_Command xlen}
    (served : Served command) :
    ∀ op ∈ startAccepted t command, op.SendsServed := by
  apply forall_mem_append
  · exact forall_mem_append (by simp [ksem_post]) (send_served served)
  · simp

theorem startCommand_served
    (stack : Hart_Command xlen)
    (hartid start_addr opaque_ : Word xlen) :
    Served (startCommand stack hartid start_addr opaque_) :=
  .inl rfl

theorem goDown_served (state : SBI_HSM) :
    ∀ op ∈ (goDown t state : List (Op xlen)), op.SendsServed := by
  simp [goDown, ksem_wait, ksem_post]

theorem commandFor_served
    (stack : Word xlen → Hart_Command xlen)
    (hartid : Word xlen)
    (call : HartMaskCall xlen) :
    Served (call.commandFor stack hartid) := by
  cases call with
  | sendIpi => exact .inr (.inr (.inr (.inr rfl)))
  | remoteFenceI => exact .inr (.inl rfl)
  | remoteSfenceVma start_addr size => exact .inr (.inr (.inl rfl))
  | remoteSfenceVmaAsid start_addr size asid => exact .inr (.inr (.inr (.inl rfl)))

theorem masked_served
    {platform : Platform}
    {hart_mask hart_mask_base mhartid : Word platform.xlen}
    {stack : Word platform.xlen → Hart_Command platform.xlen}
    (call : HartMaskCall platform.xlen) :
    ∀ op ∈ maskedOps (call.run platform mhartid stack hart_mask hart_mask_base),
      op.SendsServed := by
  rw [maskedOps, HartMaskCall.run_eq]
  apply forall_mem_append
  · apply forall_mem_append
    · exact forall_mem_flatMap fun text _ => printm_served text
    · apply forall_mem_flatMap
      intro action inside
      split_ifs at inside
      · obtain ⟨hartid, -, rfl⟩ := List.mem_map.mp inside
        rw [HartMaskCall.actionFor]
        split_ifs
        · cases call <;> simp [HartMaskCall.localAction, actionOps]
        · exact send_served (commandFor_served stack hartid call)
      · cases inside
  · simp

/-- Every call sends served commands. -/
theorem call_served
    (platform : Platform)
    (k : Nat)
    (request : Request platform.xlen) :
    ∀ op ∈ call_to_sbi platform k request, op.SendsServed := by
  cases request with
  | mask call hart_mask hart_mask_base stack => exact masked_served call
  | hart_start hartid start_addr opaque_ stack =>
      rw [call_to_sbi, sbi_hart_start]
      split_ifs
      · exact forall_mem_append (printm_served _) (by simp)
      · exact forall_mem_append (printm_served _) (by simp)
      · exact forall_mem_append (printm_served _) (by simp)
      · simp [ksem_wait, startCommand_served]
  | hart_stop => exact forall_mem_append (printm_served _) (goDown_served _)
  | hart_get_status hartid =>
      apply forall_mem_append (printm_served _)
      split_ifs <;> simp
  | hart_suspend suspend_type resume_addr opaque_ =>
      apply forall_mem_append (printm_served _)
      split_ifs
      · simp
      · exact forall_mem_append (by simp) (goDown_served _)
      · simp
  | other printed ret =>
      exact forall_mem_append (forall_mem_flatMap fun text _ => printm_served text) (by simp)

theorem kmain_served (config : Config) (stack : Hart_Command config.xlen) :
    ∀ op ∈ kmain config stack, op.SendsServed :=
  forall_mem_append (printm_served _) (send_served (startCommand_served _ _ _ _))

end Commands

/-- All commands that are or will be sent are served. -/
structure Sending (system : System xlen) : Prop where
  main : ∀ k, ∀ op ∈ (system.harts k).main, op.SendsServed
  unread : ∀ g, ∀ command ∈ (mailbox g system).unread, Served command

section Sends

variable {config : Config} {system next : System config.xlen}
  {label : Label config.xlen} {started : Bool} {k : Nat}
  {op : Op config.xlen} {rest : List (Op config.xlen)}

/-- Main code goes on sending served commands. -/
theorem Sending.continues
    {ops : List (Op config.xlen)}
    {command : Hart_Command config.xlen}
    (served : ∀ other ∈ op :: rest, other.SendsServed)
    (continues : Continues config k command op rest ops) :
    ∀ other ∈ ops, other.SendsServed := by
  rw [← everySuffix_iff_forall] at served ⊢
  refine continues.keeps served id ?_ ?_
  · rintro t start rfl
    exact ⟨everySuffix_iff_forall.mpr
        (forall_mem_append startRefused_served (everySuffix_iff_forall.mp served.2)),
      everySuffix_iff_forall.mpr
        (forall_mem_append (startAccepted_served served.1)
          (everySuffix_iff_forall.mp served.2))⟩
  · rintro rfl
    exact served.1.elim

/-- A hart changes its code to some that sends as before, and no mail moves. -/
theorem Sending.of_main
    (sending : Sending system)
    (quiet : ∀ g, (mailbox g next).unread = (mailbox g system).unread)
    (main : ∀ j, (next.harts j).main = (system.harts j).main ∨
      ∀ op ∈ (next.harts j).main, op.SendsServed) :
    Sending next := by
  refine ⟨fun j => ?_, fun g => ?_⟩
  · rcases main j with same | served
    · rw [same]
      exact sending.main j
    · exact served
  · rw [quiet g]
    exact sending.unread g

theorem Sending.step
    (sending : Sending system)
    (managed : Managed started system)
    (step : Step config (sbiCalls config) system label next) :
    Sending next := by
  have frame {j : Nat} (other : j ≠ label.hart) :
      (next.harts j).main = (system.harts j).main := by
    rw [step.frame other]
  have balance (g : Nat) : (mailbox g system).unread ++
        (Mailbox.sent [label.mail g]).map Prod.snd =
      Mailbox.receipts [label.mail g] ++ (mailbox g next).unread :=
    ((managed.delivery g).step
      (fun h ops code => SendingCode.complete h ops (.inl code))
        step).1.unread_balance (managed.delivery g).invariant
  have still (silent : ∀ g, label.mail g = .internal) (g : Nat) :
      (mailbox g next).unread = (mailbox g system).unread := by
    have both := balance g
    rw [silent g] at both
    simpa [Mailbox.sent, Mailbox.receipts] using both.symm
  have own (silent : ∀ g, label.mail g = .internal)
      (main : (next.harts label.hart).main = (system.harts label.hart).main ∨
        ∀ op ∈ (next.harts label.hart).main, op.SendsServed) :
      Sending next := by
    apply sending.of_main (still silent)
    intro j
    by_cases mover : j = label.hart
    · rw [mover]
      exact main
    · exact .inl (frame mover)
  cases step with
  | @main k op rest idle code =>
      have served := sending.main k
      rw [code] at served
      refine ⟨fun j => ?_, fun g command unread => ?_⟩
      · by_cases mover : j = k
        · subst mover
          rw [set_self]
          exact Sending.continues served (exec_main_continues code)
        · rw [frame mover]
          exact sending.main j
      · rw [unread_main (managed.delivery g) idle code, List.mem_append] at unread
        rcases unread with before | sent
        · exact sending.unread g command before
        · have here := served op (by simp)
          cases op with
          | raise t sends =>
              simp only [Op.sends] at sent
              split_ifs at sent
              · obtain rfl := List.mem_singleton.mp sent
                exact here
              · cases sent
          | _ => cases sent
  | @handler k op rest code =>
      refine ⟨fun j => ?_, fun g command unread => ?_⟩
      · by_cases mover : j = k
        · subst mover
          rw [set_self]
          rcases exec_handler_main with same | dropped
          · rw [same]
            exact sending.main j
          · rw [dropped]
            simp
        · rw [frame mover]
          exact sending.main j
      · apply sending.unread g command
        rw [unread_handler (managed.delivery g) code]
        exact List.mem_append_right _ unread
  | @software_interrupt k idle up =>
      exact own (fun _ => rfl) (.inl (by rw [setHart_eq_set, set_self]; exact save_main _))
  | @timer_interrupt k idle low =>
      exact own (fun _ => rfl) (.inl (by rw [setHart_eq_set, set_self]; exact save_main _))
  | @call k ops kernel empty idle allowed =>
      obtain ⟨request, rfl⟩ := allowed
      apply own (fun _ => rfl)
      right
      rw [setHart_eq_set, set_self]
      exact call_served config.toPlatform k request
  | @run k user_context csrs outside idle =>
      exact own (fun _ => rfl) (.inl (by rw [setHart_eq_set, set_self]))
  | @exception k cause_value lines raises empty idle =>
      exact own (fun _ => rfl) (.inl (by rw [setHart_eq_set, set_self]; exact save_main _))

theorem Booted.sending
    (booted : Booted config system) :
    Sending system := by
  obtain ⟨stack, boot⟩ := booted.boot_main
  refine ⟨fun k => ?_, fun g => ?_⟩
  · by_cases first : k = 0
    · rw [first, boot]
      exact kmain_served config stack
    · rw [booted.other_main k first]
      simp
  · simp [Mailbox.State.unread, mailbox, booted.msip]

end Sends

/-! ## What handlers are up to -/

/-- The operation ends a handler, or chooses its branch. -/
@[simp]
def Op.EndsHandler : Op xlen → Prop
  | .dispatch => True
  | .resume => True
  | .switch_to_user_context => True
  | .switch_to_context _ => True
  | .halt_exception => True
  | _ => False

/-- What is left of a handler of hart `k` on top of the code `main`. -/
structure Serving (k : Nat) (ops main : List (Op xlen)) : Prop where
  ends : ∃ op ∈ ops, op.EndsHandler
  known : ∀ op ∈ ops, op ≠ .halt_not_handled
  below : (∃ op ∈ ops, ∃ lock, op.WaitsFor lock) → Left k main

section Handlers

variable {config : Config} {k : Nat} {main rest ops : List (Op xlen)}

/-- Handlers that do not wait. -/
theorem Serving.of_not_waits
    (ends : ∃ op ∈ ops, op.EndsHandler)
    (known : ∀ op ∈ ops, op ≠ .halt_not_handled)
    (quiet : ∀ op ∈ ops, ∀ lock, ¬op.WaitsFor lock) :
    Serving k ops main where
  ends := ends
  known := known
  below := fun ⟨op, member, lock, waits⟩ => absurd waits (quiet op member lock)

theorem Serving.tail
    {op : Op xlen}
    (serving : Serving k (op :: rest) main)
    (goesOn : ¬op.EndsHandler) :
    Serving k rest main := by
  refine ⟨?_, fun other member => serving.known other (by simp [member]), ?_⟩
  · obtain ⟨last, member, ends⟩ := serving.ends
    rcases List.mem_cons.mp member with rfl | later
    · exact absurd ends goesOn
    · exact ⟨last, later, ends⟩
  · rintro ⟨other, member, waits⟩
    exact serving.below ⟨other, by simp [member], waits⟩

theorem Serving.spin
    {lock : Lock}
    (serving : Serving k (.wait_swap lock :: rest) main) :
    Serving k (.wait_load lock :: .wait_swap lock :: rest) main where
  ends :=
    let ⟨op, member, ends⟩ := serving.ends
    ⟨op, by simp [member], ends⟩
  known := by
    intro op member
    rcases List.mem_cons.mp member with rfl | inside
    · simp
    · exact serving.known op inside
  below _ := serving.below ⟨.wait_swap lock, by simp, lock, rfl⟩

theorem Op.Local.known {op : Op xlen} (local_ : op.Local) : op ≠ .halt_not_handled := by
  rintro rfl
  exact local_

theorem Served.not_switch
    {command : Hart_Command xlen}
    (served : Served command) :
    command.command ≠ HARTCMD_SWITCHCONTEXT := by
  rcases served with same | same | same | same | same <;> rw [same] <;> cases xlen <;> decide

/-- The start branch. -/
theorem Serving.start
    {main : List (Op config.xlen)}
    (command : Hart_Command config.xlen)
    (left : Left k main) :
    Serving k (handleStart config k command) main := by
  refine ⟨⟨.switch_to_user_context, by simp [handleStart], trivial⟩, ?_, fun _ => left⟩
  rw [handleStart]
  simp only [List.append_assoc]
  apply forall_mem_append fun op member => (printm_local _ op member).known
  apply forall_mem_append
  · split_ifs
    · exact fun op member => (qemuFixes_local config k op member).known
    · simp
  · apply forall_mem_append fun op member => (startContext_local k command op member).known
    simp [ksem_wait, ksem_post]

/-- The branch of a command that is served. -/
theorem Serving.handle
    {main : List (Op config.xlen)}
    {command : Hart_Command config.xlen}
    (served : Served command)
    (asleep : command.command = HARTCMD_STARTHART → Left k main) :
    Serving k (handleCommand config k command) main := by
  rw [handleCommand]
  split_ifs with switch start fence sfence asid soft
  · exact absurd switch served.not_switch
  · exact .start command (asleep start)
  · exact .of_not_waits ⟨.resume, by simp⟩ (by simp) (by simp)
  · exact .of_not_waits ⟨.resume, by simp⟩ (by simp) (by simp)
  · exact .of_not_waits ⟨.resume, by simp⟩ (by simp) (by simp)
  · exact .of_not_waits ⟨.resume, by simp⟩ (by simp) (by simp)
  · rcases served with same | same | same | same | same <;> contradiction

theorem Serving.software :
    Serving k (machineSoftwareInterrupt : List (Op xlen)) main :=
  .of_not_waits ⟨.dispatch, by simp [machineSoftwareInterrupt]⟩
    (by simp [machineSoftwareInterrupt, CommandField.all])
    (by simp [machineSoftwareInterrupt, CommandField.all])

theorem Serving.timer
    {main : List (Op config.xlen)} :
    Serving k (machineTimerInterrupt config k) main := by
  rw [machineTimerInterrupt]
  apply Serving.of_not_waits
  · exact ⟨.resume, by simp⟩
  · split_ifs <;> simp
  · split_ifs <;> simp

theorem Serving.exception
    (cause_value : Nat)
    (lines : List String) :
    Serving k (exceptionHalt k cause_value lines : List (Op xlen)) [] := by
  refine ⟨⟨.halt_exception, by simp [exceptionHalt], trivial⟩, ?_,
    fun _ => .inl rfl⟩
  rw [exceptionHalt]
  apply forall_mem_append
  · apply forall_mem_append
    · exact forall_mem_append (by simp) fun op member => (printm_local _ op member).known
    · exact fun op member => (prints_local lines op member).known
  · simp

/-- One operation of a handler. -/
theorem Serving.exec
    {main rest ops : List (Op config.xlen)}
    {hart : HartState config.xlen}
    {memory : Memory config.xlen}
    {op : Op config.xlen}
    (serving : Serving k (op :: rest) main)
    (contract : WakeContract k op rest)
    (served : op = .dispatch → Served hart.command ∧
      (hart.command.command = HARTCMD_STARTHART → Left k main))
    (after : (exec config k .handler rest hart memory op).2.1.handler = some ops) :
    Serving k ops main := by
  cases op with
  | wait_load lock =>
      simp only [Harts.exec] at after
      split_ifs at after
      · cases after
        exact serving.tail (by simp)
      · cases after
        exact serving
  | wait_swap lock =>
      simp only [Harts.exec] at after
      split_ifs at after
      · cases after
        exact serving.tail (by simp)
      · cases after
        exact serving.spin
  | dispatch =>
      obtain rfl : rest = [] := contract
      cases after
      rw [List.append_nil]
      exact .handle (served rfl).1 (served rfl).2
  | poll t => exact contract.elim
  | check_hart_state t command => exact contract.elim
  | ret retval => exact contract.elim
  | ret_hart_state t => exact contract.elim
  | resume => cases after
  | switch_to_hart_context => cases after
  | switch_to_user_context => cases after
  | switch_to_context context => cases after
  | halt_not_handled => exact absurd rfl (serving.known _ (by simp))
  | halt_exception => cases after; exact serving
  | write_context record field value =>
      cases record <;> cases after <;> exact serving.tail (by simp)
  | _ => cases after; exact serving.tail (by simp)

end Handlers

end Harts
end EchelonSbi
