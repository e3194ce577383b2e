import EchelonSbi.Harts.Phases
import EchelonSbi.Harts.System

/-!
# The delivery of hart commands

Seen from one target hart, the harts are a one-slot mailbox: the senders are
the harts inside `send_hart_command_que`, the receiver is the cause-3 branch of
the target, the flag is its software interrupt.
-/

namespace EchelonSbi
namespace Harts

open Foundation
open Sbi

variable {xlen : Xlen}

/-- The phase of the handler of a hart, if one runs. -/
def receiverPhase : Option (List (Op xlen)) → Mailbox.Receiver
  | none => .idle
  | some ops => handlerPhase ops

/-- The mailbox of hart `g`. -/
def mailbox (g : Nat) (system : System xlen) :
    Mailbox.State Nat (Hart_Command xlen) where
  lock := system.memory.locks (.hart_command_que_locks g) != 0
  flag := system.memory.clint_msip g != 0
  slot := system.memory.hart_commands g
  sender h := sendPhase g (system.harts h).main
  receiver := receiverPhase (system.harts g).handler

/-- What a step means for the mailbox of hart `g`. -/
def Label.mail (g : Nat) (label : Label xlen) :
    Mailbox.Event Nat (Hart_Command xlen) :=
  match label.event with
  | .acquired t => if t = g then .acquired label.hart else .internal
  | .raised t command =>
      if t = g then .raised label.hart command else .internal
  | .received command =>
      if label.hart = g then .received command else .internal
  | .entered _ _ => .abandoned label.hart
  | .switched _ => .abandoned label.hart
  | _ => .internal

/-- The invariant of the delivery to hart `g`. -/
structure Delivery (g : Nat) (system : System xlen) : Prop where
  main : ∀ h, EverySuffix (SendContract g) (system.harts h).main
  handler : ∀ h ops, (system.harts h).handler = some ops →
    EverySuffix HandlerContract ops
  written : ∀ h command,
    sendPhase g (system.harts h).main = .writing command →
      written g (system.harts h).main (system.memory.hart_commands g) = command
  reading : ∀ ops, (system.harts g).handler = some ops →
    handlerPhase ops = .reading →
      ops <:+ machineSoftwareInterrupt ∧
      loaded (system.memory.hart_commands g) ops (system.harts g).command =
        system.memory.hart_commands g
  invariant : Mailbox.Invariant (mailbox g system)

section

variable {g h : Nat} {system : System xlen}
  {outcome : Event xlen × HartState xlen × Memory xlen}

theorem set_self : (system.set h outcome).harts h = outcome.2.1 :=
  Function.update_self ..

theorem set_of_ne {k : Nat} (other : k ≠ h) :
    (system.set h outcome).harts k = system.harts k :=
  Function.update_of_ne other ..

/-- One hart moves, and the memory changes. -/
theorem mailbox_set :
    mailbox g (system.set h outcome) =
      { lock := outcome.2.2.locks (.hart_command_que_locks g) != 0
        flag := outcome.2.2.clint_msip g != 0
        slot := outcome.2.2.hart_commands g
        sender := Function.update (mailbox g system).sender h
          (sendPhase g outcome.2.1.main)
        receiver := receiverPhase
          (if g = h then outcome.2.1 else system.harts g).handler } := by
  have senders : (mailbox g (system.set h outcome)).sender =
      Function.update (mailbox g system).sender h
        (sendPhase g outcome.2.1.main) := by
    funext k
    by_cases same : k = h
    · subst same
      simp [mailbox, set_self]
    · simp [mailbox, set_of_ne same, same]
  rw [← senders]
  simp only [mailbox, System.set, Function.update_apply]

/-- A step that leaves the memory behind the mailbox alone and is no step of
its receiver. -/
theorem mailbox_set_sender
    (lock : (outcome.2.2.locks (.hart_command_que_locks g) != 0) =
      (system.memory.locks (.hart_command_que_locks g) != 0))
    (flag : outcome.2.2.clint_msip g = system.memory.clint_msip g)
    (slot : outcome.2.2.hart_commands g = system.memory.hart_commands g)
    (receiver : h = g →
      receiverPhase outcome.2.1.handler =
        receiverPhase (system.harts g).handler) :
    mailbox g (system.set h outcome) =
      (mailbox g system).setSender h (sendPhase g outcome.2.1.main) := by
  rw [mailbox_set, lock, flag, slot]
  by_cases same : g = h
  · subst same
    simp [Mailbox.State.setSender, mailbox, receiver]
  · simp [Mailbox.State.setSender, mailbox, same]

/-- A step that the mailbox does not see. -/
theorem mailbox_stutters
    (lock : (outcome.2.2.locks (.hart_command_que_locks g) != 0) =
      (system.memory.locks (.hart_command_que_locks g) != 0))
    (flag : outcome.2.2.clint_msip g = system.memory.clint_msip g)
    (slot : outcome.2.2.hart_commands g = system.memory.hart_commands g)
    (receiver : h = g →
      receiverPhase outcome.2.1.handler =
        receiverPhase (system.harts g).handler)
    (sender : sendPhase g outcome.2.1.main =
      sendPhase g (system.harts h).main) :
    Mailbox.Step (mailbox g system) .internal
      (mailbox g (system.set h outcome)) := by
  have still : (mailbox g system).setSender h
      (sendPhase g (system.harts h).main) = mailbox g system :=
    Mailbox.setSender_eq_self rfl
  rw [mailbox_set_sender lock flag slot receiver, sender, still]
  exact .stutter

/-- Main code moves on, and the memory changes. -/
theorem mailbox_put
    (event : Event xlen)
    (ops : List (Op xlen))
    (memory : Memory xlen) :
    mailbox g (system.set h (event, (system.harts h).put ops .main, memory)) =
      { (mailbox g system).setSender h (sendPhase g ops) with
        lock := memory.locks (.hart_command_que_locks g) != 0
        flag := memory.clint_msip g != 0
        slot := memory.hart_commands g } := by
  rw [mailbox_set]
  by_cases same : g = h
  · subst same
    simp [Mailbox.State.setSender, mailbox]
  · simp [Mailbox.State.setSender, mailbox, same]

@[simp]
theorem setLock_self (memory : Memory xlen) (lock : Lock) (value : Nat) :
    (memory.setLock lock value).locks lock = value :=
  Function.update_self ..

theorem setLock_of_ne
    {memory : Memory xlen}
    {lock other : Lock}
    (different : other ≠ lock)
    (value : Nat) :
    (memory.setLock lock value).locks other = memory.locks other :=
  Function.update_of_ne different ..

/-- A step of main code is a step of the mailbox. -/
theorem Delivery.mainStep
    {config : Config}
    {system : System config.xlen}
    {op : Op config.xlen}
    {rest : List (Op config.xlen)}
    (delivery : Delivery g system)
    (idle : (system.harts h).handler = none)
    (code : (system.harts h).main = op :: rest) :
    Mailbox.Step (mailbox g system)
      (Label.mail g ⟨h, .main, (exec config h .main rest (system.harts h)
        system.memory op).1⟩)
      (mailbox g (system.set h (exec config h .main rest (system.harts h)
        system.memory op))) := by
  have contract := delivery.main h
  rw [code, everySuffix_cons] at contract
  obtain ⟨contract, later⟩ := contract
  have phase : (mailbox g system).sender h =
      sendPhaseBefore g op (sendPhase g rest) := by
    simp [mailbox, code]
  have sameHandler (e : h = g) : receiverPhase (system.harts h).handler =
      receiverPhase (system.harts g).handler := by
    rw [e]
  cases op with
  | wait_load lock =>
      have same : sendPhase g rest = sendPhase g (system.harts h).main := by
        rw [code]
        by_cases own : lock = .hart_command_que_locks g
        · simp [own, contract own]
        · simp [own]
      by_cases free : system.memory.locks lock = 0
      · simp only [exec, free, if_true]
        exact mailbox_stutters rfl rfl rfl sameHandler same
      · simp only [exec, free, if_false]
        exact mailbox_stutters rfl rfl rfl sameHandler (by rw [code]; rfl)
  | wait_swap lock =>
      by_cases free : system.memory.locks lock = 0
      · simp only [exec, free, if_true]
        by_cases own : lock = .hart_command_que_locks g
        · subst own
          exact (Mailbox.Step.acquire (by simp [mailbox, free])
            (by simpa using phase)).congr (by simp [Label.mail, acquireEvent])
              (by rw [mailbox_put, contract rfl, setLock_self]; rfl)
        · have silent : Label.mail g ⟨h, .main, acquireEvent lock⟩ =
              (.internal : Mailbox.Event Nat (Hart_Command config.xlen)) := by
            cases lock <;> simp_all [Label.mail, acquireEvent]
          rw [silent]
          exact mailbox_stutters
            (by rw [setLock_of_ne (fun same => own same.symm)]) rfl rfl
            sameHandler (by simp [code, own])
      · simp only [exec, free, if_false]
        refine mailbox_stutters ?_ rfl rfl sameHandler (by
          rw [code]
          by_cases own : lock = .hart_command_que_locks g <;> simp [own])
        by_cases own : lock = .hart_command_que_locks g
        · subst own
          simp [free]
        · rw [setLock_of_ne (fun same => own same.symm)]
  | post lock =>
      by_cases own : lock = .hart_command_que_locks g
      · subst own
        exact (Mailbox.Step.release (by simpa using phase)).congr
          (by simp [Label.mail, exec])
          (by rw [exec, mailbox_put, contract rfl, setLock_self]; rfl)
      · refine mailbox_stutters ?_ rfl rfl sameHandler
          (by simp [exec, code, own])
        rw [exec, setLock_of_ne (fun same => own same.symm)]
  | poll t =>
      by_cases low : system.memory.clint_msip t = 0
      · simp only [exec, low, if_true]
        by_cases own : t = g
        · subst own
          obtain ⟨command, writes, -⟩ := contract rfl
          exact (Mailbox.Step.poll (by simpa using phase)
            (by simp [mailbox, low])).congr (by simp [Label.mail])
              (by rw [mailbox_put, writes]; rfl)
        · exact mailbox_stutters rfl rfl rfl sameHandler (by simp [code, own])
      · simp only [exec, low, if_false]
        exact mailbox_stutters rfl rfl rfl sameHandler (by rw [code]; rfl)
  | copy t field value =>
      by_cases own : t = g
      · subst own
        obtain ⟨command, writes⟩ := contract rfl
        have still : (mailbox t system).setSender h (sendPhase t rest) =
            mailbox t system := Mailbox.setSender_eq_self (by simpa using phase)
        exact (Mailbox.Step.write (by rw [phase]; simpa using writes)).congr
          (by simp [Label.mail, exec]) (by rw [exec, mailbox_put, still]; rfl)
      · refine mailbox_stutters rfl rfl ?_ sameHandler (by simp [exec, code])
        exact Function.update_of_ne (fun same => own same.symm) ..
  | raise t command =>
      by_cases own : t = g
      · subst own
        have filled : system.memory.hart_commands t = command := by
          simpa [code] using delivery.written h command (by simp [code])
        refine (Mailbox.Step.raise (by simpa using phase) filled).congr
          (by simp [Label.mail, exec]) ?_
        rw [exec, mailbox_put, contract rfl]
        simp [Memory.setMsip, mailbox, Mailbox.State.setSender]
      · refine (mailbox_stutters rfl ?_ rfl sameHandler
          (by simp [exec, code, own])).congr (by simp [Label.mail, exec, own]) rfl
        exact Function.update_of_ne (fun same => own same.symm) ..
  | check_hart_state t command =>
      simp only [exec]
      split_ifs
      · exact mailbox_stutters rfl rfl rfl sameHandler
          (by simpa [code] using
            (SendsToEnd.startRefused contract later).2.trans contract.symm)
      · exact mailbox_stutters rfl rfl rfl sameHandler
          (by simpa [code] using
            (SendsToEnd.startAccepted contract later).2.trans contract.symm)
  | load_command field => exact contract.elim
  | dispatch => exact contract.elim
  | clear_command => exact contract.elim
  | clear_msip => exact contract.elim
  | resume => exact contract.elim
  | switch_to_user_context => exact contract.elim
  | switch_to_context context => exact contract.elim
  | halt_not_handled => exact contract.elim
  | halt_exception => exact contract.elim
  | ret retval =>
      exact mailbox_stutters rfl rfl rfl sameHandler
        (by simpa [code, exec] using contract.symm)
  | ret_hart_state t =>
      exact mailbox_stutters rfl rfl rfl sameHandler
        (by simpa [code, exec] using contract.symm)
  | switch_to_hart_context =>
      refine mailbox_stutters rfl rfl rfl (fun e => ?_)
        (by simpa [code, exec] using contract.symm)
      rw [← e, idle]
      rfl
  | write_context record field value =>
      cases record <;>
        exact mailbox_stutters rfl rfl rfl sameHandler (by simp [code, exec, HartState.setContext])
  | _ =>
      exact mailbox_stutters rfl rfl rfl sameHandler (by simp [code, exec])

/-- The handler moves on, and the memory changes. -/
theorem mailbox_handler
    (hart : HartState xlen)
    (event : Event xlen)
    (memory : Memory xlen)
    (main : sendPhase g hart.main = sendPhase g (system.harts h).main) :
    mailbox g (system.set h (event, hart, memory)) =
      { mailbox g system with
        lock := memory.locks (.hart_command_que_locks g) != 0
        flag := memory.clint_msip g != 0
        slot := memory.hart_commands g
        receiver := receiverPhase
          (if g = h then hart else system.harts g).handler } := by
  rw [mailbox_set]
  have still : Function.update (mailbox g system).sender h
      (sendPhase g hart.main) = (mailbox g system).sender := by
    rw [main]
    exact Function.update_eq_self ..
  simp only [still]

/-- A step of a handler is a step of the mailbox. -/
theorem Delivery.handlerStep
    {config : Config}
    {system : System config.xlen}
    {op : Op config.xlen}
    {rest : List (Op config.xlen)}
    (delivery : Delivery g system)
    (code : (system.harts h).handler = some (op :: rest)) :
    Mailbox.Step (mailbox g system)
      (Label.mail g ⟨h, .handler, (exec config h .handler rest (system.harts h)
        system.memory op).1⟩)
      (mailbox g (system.set h (exec config h .handler rest (system.harts h)
        system.memory op))) := by
  have contract := delivery.handler h _ code
  rw [everySuffix_cons] at contract
  obtain ⟨contract, later⟩ := contract
  have phase : receiverPhase (system.harts h).handler =
      handlerPhaseBefore op (handlerPhase rest) := by
    simp [receiverPhase, code]
  have still (ops : List (Op config.xlen))
      (same : handlerPhase ops = receiverPhase (system.harts h).handler)
      (e : h = g) :
      receiverPhase (some ops) = receiverPhase (system.harts g).handler := by
    rw [← e]
    exact same
  cases op with
  | wait_load lock =>
      by_cases free : system.memory.locks lock = 0
      · simp only [exec, free, if_true]
        exact mailbox_stutters rfl rfl rfl (still _ phase.symm) rfl
      · simp only [exec, free, if_false]
        exact mailbox_stutters rfl rfl rfl (still _ phase.symm) rfl
  | wait_swap lock =>
      have other := contract g
      by_cases free : system.memory.locks lock = 0
      · simp only [exec, free, if_true]
        have silent : Label.mail g ⟨h, .handler, acquireEvent lock⟩ =
            (.internal : Mailbox.Event Nat (Hart_Command config.xlen)) := by
          cases lock <;> simp_all [Label.mail, acquireEvent]
        rw [silent]
        exact mailbox_stutters
          (by rw [setLock_of_ne (fun same => other same.symm)]) rfl rfl
          (still _ phase.symm) rfl
      · simp only [exec, free, if_false]
        exact mailbox_stutters
          (by rw [setLock_of_ne (fun same => other same.symm)]) rfl rfl
          (still _ phase.symm) rfl
  | post lock =>
      have other := contract g
      refine mailbox_stutters ?_ rfl rfl (still _ phase.symm) rfl
      rw [exec, setLock_of_ne (fun same => other same.symm)]
  | poll t => exact contract.elim
  | copy t field value => exact contract.elim
  | raise t command => exact contract.elim
  | check_hart_state t command => exact contract.elim
  | ret_hart_state t => exact contract.elim
  | ret retval => exact contract.elim
  | switch_to_hart_context => exact contract.elim
  | load_command field =>
      exact mailbox_stutters rfl rfl rfl
        (still _ phase.symm) rfl
  | dispatch =>
      have busy : handlerPhase (handleCommand config h (system.harts h).command ++
          rest) = .busy := by
        rw [show rest = [] from contract, List.append_nil]
        exact (HandlerFrom.handle config h _).2
      by_cases own : h = g
      · subst own
        have read : (system.harts h).command =
            system.memory.hart_commands h :=
          (delivery.reading _ code rfl).2
        refine (Mailbox.Step.receive phase).congr
          (by simp [Label.mail, exec, read, mailbox]) ?_
        rw [exec, mailbox_handler _ _ _ (by simp)]
        simp [mailbox, receiverPhase, busy]
      · exact (mailbox_stutters rfl rfl rfl (fun e => absurd e own) rfl).congr
          (by simp [Label.mail, exec, own]) rfl
  | clear_command =>
      by_cases own : h = g
      · subst own
        refine (Mailbox.Step.overwrite
          { system.memory.hart_commands h with command := 0#_ }
          (phase.trans contract)).congr (by simp [Label.mail, exec]) ?_
        rw [exec, mailbox_handler _ _ _ (by simp)]
        simp [mailbox, receiverPhase, Memory.setCommand, CommandField.set, code]
      · refine mailbox_stutters rfl rfl ?_ (fun e => absurd e own) rfl
        exact Function.update_of_ne (fun same => own same.symm) ..
  | clear_msip =>
      by_cases own : h = g
      · subst own
        refine (Mailbox.Step.acknowledge phase).congr
          (by simp [Label.mail, exec]) ?_
        rw [exec, mailbox_handler _ _ _ (by simp)]
        simp [mailbox, receiverPhase, Memory.setMsip, show handlerPhase rest = .idle from contract]
      · refine mailbox_stutters rfl ?_ rfl (fun e => absurd e own) rfl
        exact Function.update_of_ne (fun same => own same.symm) ..
  | resume =>
      exact mailbox_stutters rfl rfl rfl
        (fun e => by subst e; exact (phase.trans contract).symm) rfl
  | switch_to_user_context =>
      refine (Mailbox.Step.abandon h).congr (by simp [Label.mail, exec]) ?_
      exact mailbox_set_sender rfl rfl rfl
        (fun e => by subst e; exact (phase.trans contract).symm)
  | switch_to_context context =>
      refine (Mailbox.Step.abandon h).congr (by simp [Label.mail, exec]) ?_
      exact mailbox_set_sender rfl rfl rfl
        (fun e => by subst e; exact (phase.trans contract).symm)
  | write_context record field value =>
      cases record <;>
        exact mailbox_stutters rfl rfl rfl (still _ phase.symm) rfl
  | _ =>
      exact mailbox_stutters rfl rfl rfl (still _ phase.symm) rfl

/-- Main code stays within its contract. -/
theorem exec_main_code
    {config : Config}
    {hart : HartState config.xlen}
    {memory : Memory config.xlen}
    {op : Op config.xlen}
    {rest : List (Op config.xlen)}
    (contract : EverySuffix (SendContract g) (op :: rest)) :
    EverySuffix (SendContract g)
      (exec config h .main rest hart memory op).2.1.main := by
  obtain ⟨now, later⟩ := contract
  cases op with
  | wait_load lock =>
      simp only [exec]
      split_ifs
      · exact later
      · exact ⟨now, later⟩
  | wait_swap lock =>
      simp only [exec]
      split_ifs
      · exact later
      · exact ⟨fun own => by simp [own], now, later⟩
  | poll t =>
      simp only [exec]
      split_ifs
      · exact later
      · exact ⟨now, later⟩
  | check_hart_state t command =>
      simp only [exec]
      split_ifs
      · exact (SendsToEnd.startRefused now later).1
      · exact (SendsToEnd.startAccepted now later).1
  | ret retval => trivial
  | ret_hart_state t => trivial
  | switch_to_hart_context => trivial
  | write_context record field value => cases record <;> exact later
  | load_command field => exact now.elim
  | dispatch => exact now.elim
  | resume => exact now.elim
  | switch_to_user_context => exact now.elim
  | switch_to_context context => exact now.elim
  | halt_not_handled => exact now.elim
  | halt_exception => exact now.elim
  | _ => exact later

/-- The words that are still to be copied make up the command. -/
theorem exec_main_written
    {config : Config}
    {hart : HartState config.xlen}
    {memory : Memory config.xlen}
    {op : Op config.xlen}
    {rest : List (Op config.xlen)}
    (contract : EverySuffix (SendContract g) (op :: rest))
    (before : ∀ command, sendPhase g (op :: rest) = .writing command →
      written g (op :: rest) (memory.hart_commands g) = command)
    {command : Hart_Command config.xlen}
    (writes : sendPhase g (exec config h .main rest hart memory op).2.1.main =
      .writing command) :
    written g (exec config h .main rest hart memory op).2.1.main
      ((exec config h .main rest hart memory op).2.2.hart_commands g) =
        command := by
  obtain ⟨now, later⟩ := contract
  cases op with
  | wait_load lock =>
      by_cases free : memory.locks lock = 0
      · simp only [exec, free, if_true, HartState.put] at writes ⊢
        by_cases own : lock = .hart_command_que_locks g
        · cases (now own).symm.trans writes
        · exact before command (by simpa [own] using writes)
      · simp only [exec, free, if_false, HartState.put] at writes ⊢
        exact before command writes
  | wait_swap lock =>
      by_cases free : memory.locks lock = 0
      · simp only [exec, free, if_true, HartState.put] at writes ⊢
        by_cases own : lock = .hart_command_que_locks g
        · cases (now own).symm.trans writes
        · exact before command (by simpa [own] using writes)
      · simp only [exec, free, if_false, HartState.put] at writes ⊢
        by_cases own : lock = .hart_command_que_locks g
        · simp [own] at writes
        · exact before command (by simpa [own] using writes)
  | poll t =>
      by_cases low : memory.clint_msip t = 0
      · simp only [exec, low, if_true, HartState.put] at writes ⊢
        by_cases own : t = g
        · obtain ⟨target, phase, whole⟩ := now own
          cases phase.symm.trans writes
          exact whole _
        · exact before command (by simpa [own] using writes)
      · simp only [exec, low, if_false, HartState.put] at writes ⊢
        exact before command writes
  | check_hart_state t prepared =>
      simp only [exec] at writes
      split_ifs at writes
      · cases (SendsToEnd.startRefused now later).2.symm.trans writes
      · cases (SendsToEnd.startAccepted now later).2.symm.trans writes
  | copy t field value =>
      have filled := before command writes
      by_cases own : t = g
      · subst own
        simpa [exec, Memory.setCommand] using filled
      · simp only [exec, Memory.setCommand, HartState.put]
        rw [Function.update_of_ne (fun same => own same.symm)]
        simpa [own] using filled
  | raise t prepared =>
      by_cases own : t = g
      · cases (now own).symm.trans writes
      · simpa [own, exec, Memory.setMsip] using before command
          (by simpa [own, exec] using writes)
  | post lock =>
      by_cases own : lock = .hart_command_que_locks g
      · cases (now own).symm.trans writes
      · exact before command (by simpa [own, exec] using writes)
  | ret retval => cases writes
  | ret_hart_state t => cases writes
  | switch_to_hart_context => cases writes
  | write_context record field value =>
      cases record <;> exact before command writes
  | load_command field => exact now.elim
  | dispatch => exact now.elim
  | resume => exact now.elim
  | switch_to_user_context => exact now.elim
  | switch_to_context context => exact now.elim
  | clear_command => exact now.elim
  | clear_msip => exact now.elim
  | halt_not_handled => exact now.elim
  | halt_exception => exact now.elim
  | _ => exact before command writes

/-- Main code writes a mailbox only where it is the writing sender. -/
theorem exec_main_slot
    {config : Config}
    {hart : HartState config.xlen}
    {memory : Memory config.xlen}
    {op : Op config.xlen}
    {rest : List (Op config.xlen)}
    (contract : EverySuffix (SendContract g) (op :: rest)) :
    (exec config h .main rest hart memory op).2.2.hart_commands g =
        memory.hart_commands g ∨
      ∃ command, sendPhase g (op :: rest) = .writing command := by
  obtain ⟨now, -⟩ := contract
  cases op with
  | copy t field value =>
      by_cases own : t = g
      · exact .inr (now own)
      · exact .inl (Function.update_of_ne (fun same => own same.symm) ..)
  | clear_command => exact now.elim
  | wait_load lock => left; simp only [exec]; split_ifs <;> rfl
  | wait_swap lock => left; simp only [exec]; split_ifs <;> rfl
  | poll t => left; simp only [exec]; split_ifs <;> rfl
  | check_hart_state t command => left; simp only [exec]; split_ifs <;> rfl
  | _ => exact .inl rfl

/-- Main code does not start a handler. -/
theorem exec_main_handler
    {config : Config}
    {hart : HartState config.xlen}
    {memory : Memory config.xlen}
    {op : Op config.xlen}
    {rest : List (Op config.xlen)}
    (idle : hart.handler = none) :
    (exec config h .main rest hart memory op).2.1.handler = none := by
  cases op with
  | wait_load lock => simp only [exec]; split_ifs <;> exact idle
  | wait_swap lock => simp only [exec]; split_ifs <;> exact idle
  | poll t => simp only [exec]; split_ifs <;> exact idle
  | check_hart_state t command => simp only [exec]; split_ifs <;> exact idle
  | write_context record field value => cases record <;> exact idle
  | switch_to_hart_context => rfl
  | resume => rfl
  | switch_to_user_context => rfl
  | switch_to_context context => rfl
  | _ => exact idle

/-- Handlers stay within their contract. -/
theorem exec_handler_code
    {config : Config}
    {hart : HartState config.xlen}
    {memory : Memory config.xlen}
    {op : Op config.xlen}
    {rest ops : List (Op config.xlen)}
    (contract : EverySuffix HandlerContract (op :: rest))
    (after : (exec config h .handler rest hart memory op).2.1.handler =
      some ops) :
    EverySuffix HandlerContract ops := by
  obtain ⟨now, later⟩ := contract
  cases op with
  | wait_load lock =>
      simp only [exec] at after
      split_ifs at after
      · cases after
        exact later
      · cases after
        exact ⟨now, later⟩
  | wait_swap lock =>
      simp only [exec] at after
      split_ifs at after
      · cases after
        exact later
      · cases after
        exact ⟨now, now, later⟩
  | dispatch =>
      have none_follows : rest = [] := now
      subst none_follows
      cases after
      rw [List.append_nil]
      exact (HandlerFrom.handle config h _).1
  | poll t => exact now.elim
  | check_hart_state t command => exact now.elim
  | ret retval => exact now.elim
  | ret_hart_state t => exact now.elim
  | switch_to_hart_context => exact now.elim
  | resume => cases after
  | switch_to_user_context => cases after
  | switch_to_context context => cases after
  | halt_not_handled => cases after; exact ⟨now, later⟩
  | halt_exception => cases after; exact ⟨now, later⟩
  | write_context record field value => cases record <;> cases after <;> exact later
  | _ => cases after; exact later

/-- A handler writes a mailbox only if it is its own and was read. -/
theorem exec_handler_slot
    {config : Config}
    {hart : HartState config.xlen}
    {memory : Memory config.xlen}
    {op : Op config.xlen}
    {rest : List (Op config.xlen)}
    (contract : EverySuffix HandlerContract (op :: rest)) :
    (exec config h .handler rest hart memory op).2.2.hart_commands g =
        memory.hart_commands g ∨
      h = g ∧ handlerPhase (op :: rest) = .busy := by
  obtain ⟨now, -⟩ := contract
  cases op with
  | clear_command =>
      by_cases own : h = g
      · exact .inr ⟨own, now⟩
      · exact .inl (Function.update_of_ne (fun same => own same.symm) ..)
  | copy t field value => exact now.elim
  | wait_load lock => left; simp only [exec]; split_ifs <;> rfl
  | wait_swap lock => left; simp only [exec]; split_ifs <;> rfl
  | poll t => left; simp only [exec]; split_ifs <;> rfl
  | check_hart_state t command => left; simp only [exec]; split_ifs <;> rfl
  | _ => exact .inl rfl

/-- A handler leaves the interrupted code as it is or drops it. -/
theorem exec_handler_main
    {config : Config}
    {hart : HartState config.xlen}
    {memory : Memory config.xlen}
    {op : Op config.xlen}
    {rest : List (Op config.xlen)} :
    (exec config h .handler rest hart memory op).2.1.main = hart.main ∨
      (exec config h .handler rest hart memory op).2.1.main = [] := by
  cases op with
  | wait_load lock => left; simp only [exec]; split_ifs <;> rfl
  | wait_swap lock => left; simp only [exec]; split_ifs <;> rfl
  | poll t => left; simp only [exec]; split_ifs <;> rfl
  | check_hart_state t command => left; simp only [exec]; split_ifs <;> rfl
  | write_context record field value => cases record <;> exact .inl rfl
  | switch_to_hart_context => exact .inr rfl
  | switch_to_user_context => exact .inr rfl
  | switch_to_context context => exact .inr rfl
  | _ => exact .inl rfl

/-- A handler that reads after a step read before it, and loaded a word. -/
theorem exec_handler_reading
    {config : Config}
    {hart : HartState config.xlen}
    {memory : Memory config.xlen}
    {op : Op config.xlen}
    {rest ops : List (Op config.xlen)}
    (contract : EverySuffix HandlerContract (op :: rest))
    (suffix : handlerPhase (op :: rest) = .reading →
      op :: rest <:+ machineSoftwareInterrupt)
    (after : (exec config h .handler rest hart memory op).2.1.handler =
      some ops)
    (reading : handlerPhase ops = .reading) :
    ∃ field, op = .load_command field ∧ ops = rest := by
  obtain ⟨now, later⟩ := contract
  have head (before : handlerPhase (op :: rest) = .reading) :
      (∃ field, op = .load_command field) ∨ op = .dispatch := by
    have member := (suffix before).subset (List.mem_cons_self ..)
    simp only [machineSoftwareInterrupt, List.mem_append, List.mem_map,
      List.mem_singleton] at member
    rcases member with ⟨field, -, rfl⟩ | rfl
    · exact .inl ⟨field, rfl⟩
    · exact .inr rfl
  cases op with
  | load_command field => cases after; exact ⟨field, rfl, rfl⟩
  | dispatch =>
      have none_follows : rest = [] := now
      subst none_follows
      cases after
      rw [List.append_nil] at reading
      cases (HandlerFrom.handle config h hart.command).2.symm.trans reading
  | wait_load lock =>
      simp only [exec] at after
      split_ifs at after <;> cases after <;> simpa using head reading
  | wait_swap lock =>
      simp only [exec] at after
      split_ifs at after <;> cases after <;> simpa using head reading
  | clear_msip => cases after; cases now.symm.trans reading
  | halt_not_handled => cases after; cases reading
  | resume => cases after
  | switch_to_user_context => cases after
  | switch_to_context context => cases after
  | poll t => exact now.elim
  | copy t field value => exact now.elim
  | raise t command => exact now.elim
  | check_hart_state t command => exact now.elim
  | ret retval => exact now.elim
  | ret_hart_state t => exact now.elim
  | switch_to_hart_context => exact now.elim
  | write_context record field value =>
      cases record <;> cases after <;> simpa using head reading
  | _ => cases after; simpa using head reading

end

/-- One hart moves: what the invariant asks of it. -/
theorem Delivery.set
    {g h : Nat}
    {system : System xlen}
    {outcome : Event xlen × HartState xlen × Memory xlen}
    {event : Mailbox.Event Nat (Hart_Command xlen)}
    (delivery : Delivery g system)
    (step : Mailbox.Step (mailbox g system) event
      (mailbox g (system.set h outcome)))
    (main : EverySuffix (SendContract g) outcome.2.1.main)
    (handler : ∀ ops, outcome.2.1.handler = some ops →
      EverySuffix HandlerContract ops)
    (own : ∀ command, sendPhase g outcome.2.1.main = .writing command →
      Harts.written g outcome.2.1.main (outcome.2.2.hart_commands g) = command)
    (slot : outcome.2.2.hart_commands g = system.memory.hart_commands g ∨
      (∃ command, (mailbox g system).sender h = .writing command) ∨
      (mailbox g system).receiver = .busy)
    (reading : h = g → ∀ ops, outcome.2.1.handler = some ops →
      handlerPhase ops = .reading →
        ops <:+ machineSoftwareInterrupt ∧
        Harts.loaded (outcome.2.2.hart_commands g) ops outcome.2.1.command =
          outcome.2.2.hart_commands g) :
    Delivery g (system.set h outcome) := by
  have invariant := delivery.invariant
  refine ⟨fun k => ?_, fun k => ?_, fun k => ?_, ?_, invariant.step step⟩
  · by_cases same : k = h
    · subst same
      rwa [set_self]
    · rw [set_of_ne same]
      exact delivery.main k
  · by_cases same : k = h
    · subst same
      rwa [set_self]
    · rw [set_of_ne same]
      exact delivery.handler k
  · by_cases same : k = h
    · subst same
      rwa [set_self]
    · rw [set_of_ne same]
      intro command writes
      rcases slot with still | ⟨other, otherWrites⟩ | busy
      · show Harts.written g _ (outcome.2.2.hart_commands g) = command
        rw [still]
        exact delivery.written k command writes
      · refine absurd (invariant.exclusive k h ?_ ?_) same
        · simp [mailbox, writes]
        · simp [otherWrites]
      · have low := invariant.lowered k command writes
        have up := invariant.raised (by simp [busy])
        cases low.symm.trans up
  · by_cases same : g = h
    · subst same
      rw [set_self]
      exact reading rfl
    · rw [set_of_ne same]
      intro ops code reads
      have active : (mailbox g system).receiver = .reading := by
        simpa [mailbox, code, receiverPhase] using reads
      rcases slot with still | ⟨other, otherWrites⟩ | busy
      · show _ ∧ Harts.loaded (outcome.2.2.hart_commands g) ops _ =
          outcome.2.2.hart_commands g
        rw [still]
        exact delivery.reading ops code reads
      · have low := invariant.lowered h other otherWrites
        have up := invariant.raised (by simp [active])
        cases low.symm.trans up
      · cases active.symm.trans busy

end Harts
end EchelonSbi
