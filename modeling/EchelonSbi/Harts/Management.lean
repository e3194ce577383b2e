import EchelonSbi.Harts.InOrder
import EchelonSbi.Harts.StartPhases

/-!
# The firmware implements the start protocol

Seen from one target hart, the harts run the protocol of `Lifecycle`: callers
are the harts inside `sbi_hart_start`, the target is the hart that stops,
suspends or handles the start command.  Until the boot hart is up, its own
start by `kmain` counts as one that was claimed.
-/

namespace EchelonSbi
namespace Harts

open Foundation
open Sbi

variable {xlen : Xlen}

/-- The stage of the handler of hart `h`, where it is in the start branch. -/
def handlerWake (h : Nat) : Option (List (Op xlen)) → Option Lifecycle.Stage
  | none => none
  | some ops => wakeStage h ops

/-- The stage of a hart outside its firmware code. -/
def Base.stage : Base → Lifecycle.Stage
  | .kernel => .up
  | _ => .down

/-- The stage of a hart outside the start branch. -/
@[simp]
def StartPhase.stage (base : Base) : StartPhase xlen → Lifecycle.Stage
  | .leaving => .leaving
  | .left => .left
  | .parking => .down
  | _ => base.stage

/-- The stage of hart `h`. -/
def stage (h : Nat) (hart : HartState xlen) : Lifecycle.Stage :=
  (handlerWake h hart.handler).getD
    ((startPhase h hart.main).stage hart.base)

/-- The start commands that were sent to hart `h` and not received. -/
def pendingStarts (h : Nat) (system : System xlen) :
    List (Hart_Command xlen) :=
  (mailbox h system).unread.filter fun command =>
    command.command = HARTCMD_STARTHART

/-- The protocol state of hart `h`; `started` says whether the boot hart is
up. -/
def lifecycle (h : Nat) (started : Bool) (system : System xlen) :
    Lifecycle.State Nat (Hart_Command xlen) where
  status :=
    if h = 0 ∧ started = false then .START_PENDING
    else system.memory.sbi_hsm_states h
  lock := system.memory.locks (.sbi_hsm_locks h) != 0
  caller k := (startPhase h (system.harts k).main).caller
  stage := stage h (system.harts h)
  unread := pendingStarts h system

/-- A step that changes the state of the boot hart. -/
def Label.boots (label : Label xlen) : Bool :=
  match label.event with
  | .stored t _ _ => t == 0
  | _ => false

/-- What a step means for starting and stopping hart `h`. -/
def Label.start (h : Nat) (label : Label xlen) :
    Lifecycle.Event Nat (Hart_Command xlen) :=
  match label.event with
  | .decided t command true =>
      if t = h then .accepted label.hart command else .internal
  | .decided t _ false => if t = h then .refused label.hart else .internal
  | .stored t _ new => if t = h then .said new else .internal
  | .received command =>
      if label.hart = h ∧ command.command = HARTCMD_STARTHART then
        .received command
      else .internal
  | .entered _ _ => if label.hart = h then .came_up else .internal
  | _ => .internal

@[simp]
theorem start_acquire (h k : Nat) (level : Level) (lock : Lock) :
    (⟨k, level, acquireEvent lock⟩ : Label xlen).start h = .internal := by
  cases lock <;> rfl

/-- The invariant of the hart state management. -/
structure Managed (started : Bool) (system : System xlen) : Prop where
  delivery : ∀ g, Delivery g system
  main : ∀ h k, EverySuffix (StartContract h k) (system.harts k).main
  handler : ∀ k ops, (system.harts k).handler = some ops →
    EverySuffix (WakeContract k) ops
  outside : ∀ k, (system.harts k).base ≠ .kernel →
    EverySuffix (BootContract k) (system.harts k).main
  asleep : ∀ k, handlerWake k (system.harts k).handler ≠ none →
    (system.harts k).main = [] ∨
      (system.harts k).main = [.switch_to_hart_context] ∨
        (system.harts k).main = [.post (.hart_command_que_locks k)]
  known : ∀ h, ∀ command ∈ (mailbox h system).unread,
    command.command ≠ HARTCMD_SWITCHCONTEXT
  protocol : ∀ h, Lifecycle.Invariant (lifecycle h started system)
  boot : started = false → ∀ k,
    system.memory.sbi_hsm_states k = .STOPPED ∧
      (system.harts k).base ≠ .kernel ∧ (k ≠ 0 → (system.harts k).main = [])

section

variable {h k : Nat} {started : Bool} {system : System xlen}
  {outcome : Event xlen × HartState xlen × Memory xlen}

/-- One hart moves. -/
theorem lifecycle_set
    (started : Bool)
    {after : Bool} :
    lifecycle h after (system.set k outcome) =
      { status :=
          if h = 0 ∧ after = false then .START_PENDING
          else outcome.2.2.sbi_hsm_states h
        lock := outcome.2.2.locks (.sbi_hsm_locks h) != 0
        caller := Function.update (lifecycle h started system).caller k
          (startPhase h outcome.2.1.main).caller
        stage := stage h (if h = k then outcome.2.1 else system.harts h)
        unread := pendingStarts h (system.set k outcome) } := by
  have callers : (lifecycle h after (system.set k outcome)).caller =
      Function.update (lifecycle h started system).caller k
        (startPhase h outcome.2.1.main).caller := by
    funext j
    by_cases same : j = k
    · subst same
      simp [lifecycle, set_self]
    · simp [lifecycle, set_of_ne same, same]
  rw [← callers]
  simp only [lifecycle, System.set, Function.update_apply]

/-- A step that has no part in starting or stopping the hart. -/
theorem lifecycle_stutters
    (status : outcome.2.2.sbi_hsm_states h = system.memory.sbi_hsm_states h)
    (lock : (outcome.2.2.locks (.sbi_hsm_locks h) != 0) =
      (system.memory.locks (.sbi_hsm_locks h) != 0))
    (caller : (startPhase h outcome.2.1.main).caller =
      (startPhase h (system.harts k).main).caller)
    (stages : k = h → stage h outcome.2.1 = stage h (system.harts h))
    (unread : pendingStarts h (system.set k outcome) =
      pendingStarts h system) :
    lifecycle h started (system.set k outcome) = lifecycle h started system := by
  rw [lifecycle_set started, caller, status, lock, unread]
  have still : Function.update (lifecycle h started system).caller k
      (startPhase h (system.harts k).main).caller =
        (lifecycle h started system).caller :=
    Function.update_eq_self ..
  rw [still]
  by_cases same : h = k
  · subst same
    simp only [if_true, stages, lifecycle]
  · simp only [same, if_false, lifecycle]

/-- The commands that an operation sends to hart `h`. -/
def Op.sends (h : Nat) : Op xlen → List (Hart_Command xlen)
  | .raise t command => if t = h then [command] else []
  | _ => []

/-- Main code sends by its raises and receives nothing. -/
theorem exec_main_mail
    {config : Config}
    {hart : HartState config.xlen}
    {memory : Memory config.xlen}
    {op : Op config.xlen}
    {rest : List (Op config.xlen)}
    (contract : SendContract h op rest) :
    (Mailbox.sent [Label.mail h ⟨k, .main, (exec config k .main rest hart
        memory op).1⟩]).map Prod.snd = op.sends h ∧
      Mailbox.receipts [Label.mail h ⟨k, .main, (exec config k .main rest hart
        memory op).1⟩] = [] := by
  cases op with
  | raise t command =>
      by_cases target : t = h <;> simp [exec, Label.mail, Op.sends, target]
  | wait_load lock => simp only [exec]; split_ifs <;> simp [Label.mail, Op.sends]
  | wait_swap lock =>
      simp only [exec]
      split_ifs
      · cases lock with
        | hart_command_que_locks t =>
            by_cases target : t = h <;>
              simp [acquireEvent, Label.mail, Op.sends, target]
        | _ => simp [acquireEvent, Label.mail, Op.sends]
      · simp [Label.mail, Op.sends]
  | poll t => simp only [exec]; split_ifs <;> simp [Label.mail, Op.sends]
  | check_hart_state t command =>
      simp only [exec]
      split_ifs <;> simp [Label.mail, Op.sends]
  | dispatch => exact contract.elim
  | _ => simp [exec, Label.mail, Op.sends]

/-- What main code sends to a hart arrives in its mailbox. -/
theorem unread_main
    {config : Config}
    {system : System config.xlen}
    {op : Op config.xlen}
    {rest : List (Op config.xlen)}
    (delivery : Delivery h system)
    (idle : (system.harts k).handler = none)
    (code : (system.harts k).main = op :: rest) :
    (mailbox h (system.set k (exec config k .main rest (system.harts k)
        system.memory op))).unread =
      (mailbox h system).unread ++ op.sends h := by
  have balance := (delivery.mainStep idle code).unread_balance
    delivery.invariant
  have contract := delivery.main k
  rw [code, everySuffix_cons] at contract
  obtain ⟨sent, received⟩ := exec_main_mail contract.1
  rw [sent, received, List.nil_append] at balance
  exact balance.symm

/-- What the handler of hart `k` receives with an operation. -/
def Op.receives (command : Hart_Command xlen) :
    Op xlen → List (Hart_Command xlen)
  | .dispatch => [command]
  | _ => []

/-- A handler sends nothing, and receives by its dispatch. -/
theorem exec_handler_mail
    {config : Config}
    {hart : HartState config.xlen}
    {memory : Memory config.xlen}
    {op : Op config.xlen}
    {rest : List (Op config.xlen)}
    (contract : HandlerContract op rest) :
    (Mailbox.sent [Label.mail h ⟨k, .handler, (exec config k .handler rest hart
        memory op).1⟩]).map Prod.snd = [] ∧
      Mailbox.receipts [Label.mail h ⟨k, .handler, (exec config k .handler rest
        hart memory op).1⟩] = if k = h then op.receives hart.command else [] := by
  cases op with
  | raise t command => exact contract.elim
  | wait_load lock =>
      simp only [exec]; split_ifs <;> simp [Label.mail, Op.receives]
  | wait_swap lock =>
      have other := contract h
      simp only [exec]
      cases lock <;> split_ifs <;>
        simp_all [acquireEvent, Label.mail, Op.receives]
  | poll t => exact contract.elim
  | check_hart_state t command => exact contract.elim
  | dispatch =>
      by_cases own : k = h <;> simp [exec, Label.mail, Op.receives, own]
  | _ => simp [exec, Label.mail, Op.receives]

/-- What the handler of a hart reads leaves its mailbox. -/
theorem unread_handler
    {config : Config}
    {system : System config.xlen}
    {op : Op config.xlen}
    {rest : List (Op config.xlen)}
    (delivery : Delivery h system)
    (code : (system.harts k).handler = some (op :: rest)) :
    (mailbox h system).unread =
      (if k = h then op.receives (system.harts k).command else []) ++
        (mailbox h (system.set k (exec config k .handler rest (system.harts k)
          system.memory op))).unread := by
  have balance := (delivery.handlerStep code).unread_balance delivery.invariant
  have contract := delivery.handler k _ code
  rw [everySuffix_cons] at contract
  obtain ⟨sent, received⟩ := exec_handler_mail contract.1
  rw [sent, received, List.append_nil] at balance
  exact balance

/-- Before the boot hart is up, main code is the end of `kmain`. -/
theorem Managed.booting
    {op : Op xlen}
    {rest : List (Op xlen)}
    (managed : Managed false system)
    (code : (system.harts k).main = op :: rest) :
    k = 0 ∧ BootContract 0 op rest := by
  obtain ⟨-, outside, others⟩ := managed.boot rfl k
  have boot : k = 0 := by
    by_contra other
    rw [others other] at code
    cases code
  subst boot
  have contract := managed.outside 0 outside
  rw [code, everySuffix_cons] at contract
  exact ⟨rfl, contract.1⟩

/-- A step of main code that does not move the hart that runs it. -/
theorem lifecycle_caller
    (idle : (system.harts k).handler = none)
    (idleAfter : outcome.2.1.handler = none)
    (stages : k = h → (startPhase h outcome.2.1.main).stage outcome.2.1.base =
      (startPhase h (system.harts k).main).stage (system.harts k).base) :
    lifecycle h started (system.set k outcome) =
      { (lifecycle h started system).setCaller k
          (startPhase h outcome.2.1.main).caller with
        status :=
          if h = 0 ∧ started = false then .START_PENDING
          else outcome.2.2.sbi_hsm_states h
        lock := outcome.2.2.locks (.sbi_hsm_locks h) != 0
        unread := pendingStarts h (system.set k outcome) } := by
  rw [lifecycle_set started]
  by_cases same : h = k
  · subst same
    have still : stage h outcome.2.1 = stage h (system.harts h) := by
      rw [stage, stage, idle, idleAfter]
      exact stages rfl
    simp only [if_true, still]
    rfl
  · simp only [same, if_false]
    rfl

/-- A step of main code of hart `h` that moves it. -/
theorem lifecycle_target
    (idleAfter : outcome.2.1.handler = none)
    (caller : (startPhase h outcome.2.1.main).caller =
      (startPhase h (system.harts h).main).caller) :
    lifecycle h started (system.set h outcome) =
      { lifecycle h started system with
        status :=
          if h = 0 ∧ started = false then .START_PENDING
          else outcome.2.2.sbi_hsm_states h
        lock := outcome.2.2.locks (.sbi_hsm_locks h) != 0
        stage := (startPhase h outcome.2.1.main).stage outcome.2.1.base
        unread := pendingStarts h (system.set h outcome) } := by
  have still : Function.update (lifecycle h started system).caller h
      (startPhase h (system.harts h).main).caller =
        (lifecycle h started system).caller :=
    Function.update_eq_self ..
  rw [lifecycle_set started, caller, still, if_pos rfl, stage, idleAfter]
  rfl

/-- A step of main code that has no part in starting or stopping hart `h`. -/
theorem main_stutters
    {event : Lifecycle.Event Nat (Hart_Command xlen)}
    (shown : event = .internal)
    (idle : (system.harts k).handler = none)
    (idleAfter : outcome.2.1.handler = none)
    (status : outcome.2.2.sbi_hsm_states h = system.memory.sbi_hsm_states h)
    (lock : (outcome.2.2.locks (.sbi_hsm_locks h) != 0) =
      (system.memory.locks (.sbi_hsm_locks h) != 0))
    (base : outcome.2.1.base = (system.harts k).base)
    (phase : startPhase h outcome.2.1.main = startPhase h (system.harts k).main)
    (unread : pendingStarts h (system.set k outcome) =
      pendingStarts h system) :
    Lifecycle.Step (lifecycle h started system) event
      (lifecycle h started (system.set k outcome)) := by
  subst shown
  rw [lifecycle_stutters status lock (by rw [phase]) ?_ unread]
  · exact .stutter
  · rintro rfl
    rw [stage, stage, idle, idleAfter, phase, base]

/-- A step of main code of hart `k` is a step of the protocol of hart `h`. -/
def MainStep
    {config : Config}
    (h k : Nat) (started : Bool) (system : System config.xlen)
    (op : Op config.xlen) (rest : List (Op config.xlen)) : Prop :=
  Lifecycle.Step (lifecycle h started system)
    (Label.start h ⟨k, .main, (exec config k .main rest (system.harts k)
      system.memory op).1⟩)
    (lifecycle h started (system.set k
      (exec config k .main rest (system.harts k) system.memory op)))

/-- Hart `k` is about to execute `op` of its main code; `rule` is what `op` has to do
with the start of hart `h`. -/
structure MainTurn
    {config : Config}
    (h k : Nat) (system : System config.xlen)
    (op : Op config.xlen) (rest : List (Op config.xlen)) : Prop where
  idle : (system.harts k).handler = none
  code : (system.harts k).main = op :: rest
  phase : startPhase h (system.harts k).main = startPhaseBefore h op (startPhase h rest)
  rule : StartRule h k op rest
  quiet : op.sends h = [] →
    pendingStarts h (system.set k
      (exec config k .main rest (system.harts k) system.memory op)) =
      pendingStarts h system
  unread : (mailbox h (system.set k (exec config k .main rest (system.harts k)
      system.memory op))).unread = (mailbox h system).unread ++ op.sends h
  stages : k = h →
    stage h (system.harts h) =
      (startPhase h (system.harts k).main).stage (system.harts k).base

theorem Managed.mainTurn
    {config : Config}
    {system : System config.xlen}
    {op : Op config.xlen}
    {rest : List (Op config.xlen)}
    (managed : Managed started system)
    (idle : (system.harts k).handler = none)
    (code : (system.harts k).main = op :: rest)
    (h : Nat) :
    MainTurn h k system op rest := by
  have unread := unread_main (managed.delivery h) idle code
  have contract := managed.main h k
  rw [code, everySuffix_cons] at contract
  refine ⟨idle, code, by rw [code, startPhase_cons], contract.1.2, fun none_ => ?_, unread,
    ?_⟩
  · rw [pendingStarts, unread, none_, List.append_nil, pendingStarts]
  · rintro rfl
    simp [stage, idle, handlerWake]

/-- Before the boot hart is up, nothing reads or writes the state of a hart. -/
theorem Managed.started_of_state
    {op : Op xlen}
    {rest : List (Op xlen)}
    (managed : Managed started system)
    (code : (system.harts k).main = op :: rest)
    (outside : ¬BootContract 0 op rest) :
    started = true := by
  by_contra off
  rw [Bool.not_eq_true] at off
  subst off
  exact outside (managed.booting code).2

/-- A turn of the first loop of a lock. -/
theorem MainTurn.wait_load
    {config : Config}
    {system : System config.xlen}
    {rest : List (Op config.xlen)}
    {lock : Lock}
    (turn : MainTurn h k system (.wait_load lock) rest) :
    MainStep h k started system (.wait_load lock) rest := by
  obtain ⟨idle, -, phase, rule, quiet, -, -⟩ := turn
  unfold MainStep
  have same : startPhase h rest = startPhase h (system.harts k).main := by
    rw [phase]
    by_cases own : lock = .sbi_hsm_locks h
    · simp [own, rule own]
    · simp [own]
  have pending := quiet rfl
  by_cases free : system.memory.locks lock = 0
  · simp only [exec, free, if_true] at pending ⊢
    exact main_stutters rfl idle idle rfl rfl rfl same pending
  · simp only [exec, free, if_false] at pending ⊢
    exact main_stutters rfl idle idle rfl rfl rfl
      (by rw [phase]; rfl) pending

/-- A turn of the second loop of a lock: that of the state of hart `h` is taken by a caller
or by a hart that leaves. -/
theorem MainTurn.wait_swap
    {config : Config}
    {system : System config.xlen}
    {rest : List (Op config.xlen)}
    {lock : Lock}
    (turn : MainTurn h k system (.wait_swap lock) rest)
    (kernel : lock = .sbi_hsm_locks h → (system.harts k).base = .kernel) :
    MainStep h k started system (.wait_swap lock) rest := by
  obtain ⟨idle, -, phase, rule, quiet, -, stages⟩ := turn
  have mine : (lifecycle h started system).caller k =
      (startPhase h (system.harts k).main).caller := rfl
  unfold MainStep
  have pending := quiet rfl
  by_cases own : lock = .sbi_hsm_locks h
  · subst own
    simp only [startPhaseBefore, if_true] at phase
    by_cases free : system.memory.locks (.sbi_hsm_locks h) = 0
    · simp only [exec, free, if_true] at pending ⊢
      have unlocked : (lifecycle h started system).lock = false := by
        simp [lifecycle, free]
      rcases rule rfl with checks | ⟨rfl, leaves⟩
      · refine (Lifecycle.Step.lock unlocked
          (mine.trans (by simp [phase]))).congr rfl ?_
        rw [lifecycle_caller idle idle, pending]
        · simp [checks, lifecycle, Lifecycle.State.setCaller, Memory.setLock]
        · simp [checks, phase]
      · have base := kernel rfl
        refine (Lifecycle.Step.leave
          (by simp [lifecycle, stages, phase, base, Base.stage]) unlocked).congr rfl ?_
        rw [lifecycle_target idle (by simp [leaves, phase]), pending]
        simp [leaves, lifecycle, Memory.setLock]
    · simp only [exec, free, if_false] at pending ⊢
      refine main_stutters rfl idle idle rfl ?_ rfl (by simp [phase]) pending
      simp [free]
  · have apart : Lock.sbi_hsm_locks h ≠ lock := fun same => own same.symm
    have same : startPhase h rest = startPhase h (system.harts k).main := by
      simp [phase, own]
    by_cases free : system.memory.locks lock = 0
    · simp only [exec, free, if_true] at pending ⊢
      exact main_stutters (start_acquire ..) idle idle rfl (by rw [setLock_of_ne apart]) rfl
        same pending
    · simp only [exec, free, if_false] at pending ⊢
      exact main_stutters rfl idle idle rfl (by rw [setLock_of_ne apart]) rfl
        (by simp [phase, own]) pending

/-- The lock of the state of hart `h` is released by a caller that was refused or accepted, or
by a hart that parks. -/
theorem MainTurn.post
    {config : Config}
    {system : System config.xlen}
    {rest : List (Op config.xlen)}
    {lock : Lock}
    (turn : MainTurn h k system (.post lock) rest) :
    MainStep h k started system (.post lock) rest := by
  obtain ⟨idle, -, phase, rule, quiet, -, stages⟩ := turn
  have mine : (lifecycle h started system).caller k =
      (startPhase h (system.harts k).main).caller := rfl
  unfold MainStep
  have pending := quiet rfl
  simp only [exec] at pending ⊢
  by_cases own : lock = .sbi_hsm_locks h
  · subst own
    simp only [startPhaseBefore, if_true] at phase
    rcases rule rfl with out | ⟨command, sends⟩ | ⟨rfl, parks⟩
    · rw [out] at phase
      refine (Lifecycle.Step.unlock_refused
        (mine.trans (by simp [phase]))).congr rfl ?_
      rw [lifecycle_caller idle idle, pending]
      · simp [out, lifecycle, Lifecycle.State.setCaller, Memory.setLock]
      · simp [out, phase]
    · rw [sends] at phase
      have held : (lifecycle h started system).caller k =
          .stored command := mine.trans (by simp [phase])
      refine (Lifecycle.Step.unlock_stored held).congr rfl ?_
      rw [lifecycle_caller idle idle, pending]
      · simp [sends, lifecycle, Lifecycle.State.setCaller, Memory.setLock]
      · simp [sends, phase]
    · rw [parks] at phase
      refine (Lifecycle.Step.unlock_left
        (by simp [lifecycle, stages, phase])).congr rfl ?_
      rw [lifecycle_target idle (by simp [parks, phase]), pending]
      simp [parks, lifecycle, Memory.setLock]
  · have apart : Lock.sbi_hsm_locks h ≠ lock := fun same => own same.symm
    exact main_stutters rfl idle idle rfl (by rw [setLock_of_ne apart]) rfl
      (by simp [phase, own]) pending

/-- A command is sent; one that starts hart `h` is the only one. -/
theorem MainTurn.raise
    {config : Config}
    {system : System config.xlen}
    {rest : List (Op config.xlen)}
    {t : Nat}
    {command : Hart_Command config.xlen}
    (turn : MainTurn h k system (.raise t command) rest)
    (protocol : Lifecycle.Invariant (lifecycle h started system)) :
    MainStep h k started system (.raise t command) rest := by
  obtain ⟨idle, -, phase, rule, -, unread, -⟩ := turn
  have mine : (lifecycle h started system).caller k =
      (startPhase h (system.harts k).main).caller := rfl
  unfold MainStep
  by_cases target : t = h ∧ command.command = HARTCMD_STARTHART
  · obtain ⟨rfl, start⟩ := target
    simp only [startPhaseBefore, start, true_and, if_true] at phase
    have out := rule.2 rfl start
    have mineSends : (lifecycle t started system).caller k =
        .sending command := mine.trans (by simp [phase])
    have empty : pendingStarts t system = [] := by
      have admits := protocol.callers k
      rw [mineSends] at admits
      exact admits.2.1
    refine (Lifecycle.Step.send mineSends).congr rfl ?_
    rw [lifecycle_caller idle idle]
    · rw [pendingStarts, unread, List.filter_append]
      rw [pendingStarts] at empty
      rw [empty]
      simp [exec, out, start, Op.sends, lifecycle, Memory.setMsip,
        Lifecycle.State.setCaller]
    · simp [exec, out, phase]
  · refine main_stutters rfl idle idle rfl rfl rfl ?_ ?_
    · simp [exec, phase, target]
    · rw [pendingStarts, unread, List.filter_append, pendingStarts]
      by_cases here : t = h
      · have other : command.command ≠ HARTCMD_STARTHART :=
          fun start => target ⟨here, start⟩
        simp [Op.sends, here, other]
      · simp [Op.sends, here]

/-- A call is refused or accepted. -/
theorem MainTurn.check_hart_state
    {config : Config}
    {system : System config.xlen}
    {rest : List (Op config.xlen)}
    {t : Nat}
    {command : Hart_Command config.xlen}
    (turn : MainTurn h k system (.check_hart_state t command) rest)
    (booted : started = true) :
    MainStep h k started system (.check_hart_state t command) rest := by
  obtain ⟨idle, -, phase, rule, quiet, -, -⟩ := turn
  have mine : (lifecycle h started system).caller k =
      (startPhase h (system.harts k).main).caller := rfl
  unfold MainStep
  have pending := quiet rfl
  obtain ⟨start, rfl⟩ := rule
  subst booted
  by_cases refuses : refusesStart (system.memory.sbi_hsm_states t) = true
  · simp only [exec, refuses, if_true, List.append_nil] at pending ⊢
    have after : startPhase h (startRefused t : List (Op config.xlen)) =
        if t = h then .refused else .out :=
      (startRefused_contract (k := k)).2
    by_cases target : t = h
    · subst target
      rw [if_pos rfl] at after
      refine (Lifecycle.Step.refuse (mine.trans (by simp [phase]))
        (by simpa [lifecycle] using refuses)).congr (by simp [Label.start]) ?_
      rw [lifecycle_caller idle idle, pending]
      · simp [after, lifecycle, Lifecycle.State.setCaller]
      · simp [after, phase]
    · rw [if_neg target] at after
      exact main_stutters (by simp [Label.start, target]) idle idle rfl rfl rfl
        (by simp [after, phase, target]) pending
  · simp only [exec, refuses, Bool.false_eq_true, if_false,
      List.append_nil] at pending ⊢
    have after : startPhase h (startAccepted t command) =
        if t = h then .storing command else .out :=
      (startAccepted_contract (k := k) start).2
    by_cases target : t = h
    · subst target
      rw [if_pos rfl] at after
      refine (Lifecycle.Step.accept command (mine.trans (by simp [phase]))
        (by simpa [lifecycle] using refuses)).congr (by simp [Label.start]) ?_
      rw [lifecycle_caller idle idle, pending]
      · simp [after, lifecycle, Lifecycle.State.setCaller]
      · simp [after, phase]
    · rw [if_neg target] at after
      exact main_stutters (by simp [Label.start, target]) idle idle rfl rfl rfl
        (by simp [after, phase, target]) pending

/-- A caller says that the hart is to start, or the hart that it stops. -/
theorem MainTurn.store_hart_state
    {config : Config}
    {system : System config.xlen}
    {rest : List (Op config.xlen)}
    {t : Nat}
    {state : SBI_HSM}
    (turn : MainTurn h k system (.store_hart_state t state) rest)
    (booted : started = true) :
    MainStep h k started system (.store_hart_state t state) rest := by
  obtain ⟨idle, -, phase, rule, quiet, -, stages⟩ := turn
  have mine : (lifecycle h started system).caller k =
      (startPhase h (system.harts k).main).caller := rfl
  unfold MainStep
  have pending := quiet rfl
  subst booted
  by_cases target : t = h
  · subst target
    rcases rule rfl with ⟨rfl, command, stores⟩ | ⟨rfl, stopped, leaves⟩
    · have held : (lifecycle t true system).caller k =
          .storing command := mine.trans (by simp [phase, stores])
      refine (Lifecycle.Step.store held).congr (by simp [exec, Label.start]) ?_
      rw [lifecycle_caller idle idle, pending]
      · simp [exec, stores, lifecycle, Lifecycle.State.setCaller,
          Memory.setState]
      · simp [exec, stores, phase]
    · refine (Lifecycle.Step.say_down
        (by simp [lifecycle, stages, phase, leaves]) stopped).congr (by simp [exec, Label.start]) ?_
      rw [lifecycle_target idle (by simp [exec, leaves, phase]), pending]
      simp [exec, leaves, lifecycle, Memory.setState]
  · refine main_stutters (by simp [exec, Label.start, target]) idle idle ?_ rfl rfl
      (by simp [exec, phase, target]) pending
    exact Function.update_of_ne (fun same => target same.symm) ..

/-- A step of main code is a step of the protocol of each hart. -/
theorem Managed.mainStep
    {config : Config}
    {system : System config.xlen}
    {op : Op config.xlen}
    {rest : List (Op config.xlen)}
    (managed : Managed started system)
    (idle : (system.harts k).handler = none)
    (code : (system.harts k).main = op :: rest)
    (h : Nat) :
    MainStep h k started system op rest := by
  have turn := managed.mainTurn idle code h
  obtain ⟨-, -, phase, rule, quiet, -, stages⟩ := id turn
  cases op with
  | wait_load lock => exact turn.wait_load
  | wait_swap lock =>
      refine turn.wait_swap fun own => ?_
      subst own
      by_contra elsewhere
      have boot := managed.outside k elsewhere
      rw [code, everySuffix_cons] at boot
      exact boot.1.1 h rfl
  | post lock => exact turn.post
  | poll t =>
      have pending := quiet rfl
      unfold MainStep
      by_cases low : system.memory.clint_msip t = 0
      · simp only [exec, low, if_true] at pending ⊢
        exact main_stutters rfl idle idle rfl rfl rfl phase.symm pending
      · simp only [exec, low, if_false] at pending ⊢
        exact main_stutters rfl idle idle rfl rfl rfl phase.symm pending
  | copy t field value =>
      exact main_stutters rfl idle idle rfl rfl rfl phase.symm (quiet rfl)
  | raise t command => exact turn.raise (managed.protocol h)
  | check_hart_state t command =>
      exact turn.check_hart_state (managed.started_of_state code id)
  | store_hart_state t state =>
      exact turn.store_hart_state (managed.started_of_state code id)
  | ret retval =>
      have none_follows : rest = [] := rule
      subst none_follows
      exact main_stutters rfl idle idle rfl rfl rfl phase.symm (quiet rfl)
  | ret_hart_state t =>
      have none_follows : rest = [] := rule
      subst none_follows
      exact main_stutters rfl idle idle rfl rfl rfl phase.symm (quiet rfl)
  | switch_to_hart_context =>
      have none_follows : rest = [] := rule
      subst none_follows
      unfold MainStep
      rw [lifecycle_stutters rfl rfl (by simp [exec, phase]) ?_ (quiet rfl)]
      · exact .stutter
      · intro own
        rw [stages own, phase]
        simp [stage, exec, handlerWake, Base.stage]
  | load_command field => exact rule.elim
  | dispatch => exact rule.elim
  | clear_command => exact rule.elim
  | clear_msip => exact rule.elim
  | resume => exact rule.elim
  | switch_to_user_context => exact rule.elim
  | switch_to_context context => exact rule.elim
  | halt_not_handled => exact rule.elim
  | halt_exception => exact rule.elim
  | write_context record field value =>
      cases record <;>
        exact main_stutters rfl idle idle rfl rfl rfl phase.symm (quiet rfl)
  | _ => exact main_stutters rfl idle idle rfl rfl rfl phase.symm (quiet rfl)

@[simp]
theorem boots_acquire (level : Level) (lock : Lock) :
    (⟨k, level, acquireEvent lock⟩ : Label xlen).boots = false := by
  cases lock <;> rfl

/-- Only the boot hart depends on whether it is up. -/
theorem lifecycle_other
    (other : h ≠ 0)
    (after : Bool) :
    lifecycle h after system = lifecycle h started system := by
  simp [lifecycle, other]

/-- A step of a handler that has no part in starting hart `h`. -/
theorem handler_stutters
    {event : Lifecycle.Event Nat (Hart_Command xlen)}
    (shown : event = .internal)
    (status : outcome.2.2.sbi_hsm_states h = system.memory.sbi_hsm_states h)
    (lock : (outcome.2.2.locks (.sbi_hsm_locks h) != 0) =
      (system.memory.locks (.sbi_hsm_locks h) != 0))
    (base : outcome.2.1.base = (system.harts k).base)
    (main : outcome.2.1.main = (system.harts k).main)
    (wake : k = h → handlerWake h outcome.2.1.handler =
      handlerWake h (system.harts k).handler)
    (unread : pendingStarts h (system.set k outcome) =
      pendingStarts h system) :
    Lifecycle.Step (lifecycle h started system) event
      (lifecycle h started (system.set k outcome)) := by
  subst shown
  rw [lifecycle_stutters status lock (by rw [main]) ?_ unread]
  · exact .stutter
  · intro own
    rw [stage, stage, wake own, main, base, own]

/-- A step of the handler of hart `h` that moves it. -/
theorem lifecycle_wakes
    (started : Bool)
    (wakes : Lifecycle.Stage)
    {after : Bool}
    (main : outcome.2.1.main = (system.harts h).main)
    (wake : handlerWake h outcome.2.1.handler = some wakes) :
    lifecycle h after (system.set h outcome) =
      { lifecycle h started system with
        status :=
          if h = 0 ∧ after = false then .START_PENDING
          else outcome.2.2.sbi_hsm_states h
        lock := outcome.2.2.locks (.sbi_hsm_locks h) != 0
        stage := wakes
        unread := pendingStarts h (system.set h outcome) } := by
  have still : Function.update (lifecycle h started system).caller h
      (startPhase h (system.harts h).main).caller =
        (lifecycle h started system).caller :=
    Function.update_eq_self ..
  rw [lifecycle_set started, main, still, if_pos rfl, stage, wake]
  rfl

/-- What a woken hart drops has no part in starting any hart. -/
theorem Managed.dropped
    (managed : Managed started system)
    (awake : handlerWake k (system.harts k).handler ≠ none)
    (h : Nat) :
    (startPhase h (system.harts k).main).caller = .out := by
  rcases managed.asleep k awake with empty | parks | posts
  · simp [empty]
  · simp [parks]
  · simp [posts]

/-- A step of the handler of hart `k` is a step of the protocol of hart `h`. -/
def HandlerStep
    {config : Config}
    (h k : Nat) (started : Bool) (system : System config.xlen)
    (op : Op config.xlen) (rest : List (Op config.xlen)) : Prop :=
  Lifecycle.Step (lifecycle h started system)
    (Label.start h ⟨k, .handler, (exec config k .handler rest
      (system.harts k) system.memory op).1⟩)
    (lifecycle h
      (started || Label.boots ⟨k, .handler, (exec config k .handler rest
        (system.harts k) system.memory op).1⟩)
      (system.set k
        (exec config k .handler rest (system.harts k) system.memory op)))

/-- The handler of hart `k` is about to execute `op`; `wake` is what `op` has to do with
the start of hart `h`. -/
structure HandlerTurn
    {config : Config}
    (h k : Nat) (system : System config.xlen)
    (op : Op config.xlen) (rest : List (Op config.xlen)) : Prop where
  code : (system.harts k).handler = some (op :: rest)
  wake : handlerWake h (system.harts k).handler = wakeStageBefore h op (wakeStage h rest)
  contract : WakeContract k op rest
  mail : (mailbox h system).unread =
    (if k = h then op.receives (system.harts k).command else []) ++
      (mailbox h (system.set k (exec config k .handler rest (system.harts k)
        system.memory op))).unread
  quiet : op.receives (system.harts k).command = [] →
    pendingStarts h (system.set k
      (exec config k .handler rest (system.harts k) system.memory op)) =
      pendingStarts h system

theorem Managed.handlerTurn
    {config : Config}
    {system : System config.xlen}
    {op : Op config.xlen}
    {rest : List (Op config.xlen)}
    (managed : Managed started system)
    (code : (system.harts k).handler = some (op :: rest))
    (h : Nat) :
    HandlerTurn h k system op rest := by
  have mail := unread_handler (managed.delivery h) code
  have contract := managed.handler k _ code
  rw [everySuffix_cons] at contract
  refine ⟨code, by rw [code]; rfl, contract.1, mail, fun none_ => ?_⟩
  rw [none_, ite_self, List.nil_append] at mail
  rw [pendingStarts, pendingStarts, mail]

/-- A turn of the first loop of a lock. -/
theorem HandlerTurn.wait_load
    {config : Config}
    {system : System config.xlen}
    {rest : List (Op config.xlen)}
    {lock : Lock}
    (turn : HandlerTurn h k system (.wait_load lock) rest) :
    HandlerStep h k started system (.wait_load lock) rest := by
  obtain ⟨-, wake, contract, -, quiet⟩ := turn
  unfold HandlerStep
  have pending := quiet rfl
  have same (own : k = h) : wakeStage h rest =
      handlerWake h (system.harts k).handler := by
    subst own
    rw [wake]
    by_cases locks : lock = .sbi_hsm_locks k
    · simp [locks, (contract k locks).2]
    · simp [locks]
  by_cases free : system.memory.locks lock = 0
  · simp only [exec, free, if_true, Label.boots, Bool.or_false] at pending ⊢
    exact handler_stutters rfl rfl rfl rfl rfl same pending
  · simp only [exec, free, if_false, Label.boots, Bool.or_false] at pending ⊢
    exact handler_stutters rfl rfl rfl rfl rfl (fun _ => wake.symm) pending

/-- A turn of the second loop of a lock: that of its own state the hart takes to come up. -/
theorem HandlerTurn.wait_swap
    {config : Config}
    {system : System config.xlen}
    {rest : List (Op config.xlen)}
    {lock : Lock}
    (turn : HandlerTurn h k system (.wait_swap lock) rest) :
    HandlerStep h k started system (.wait_swap lock) rest := by
  obtain ⟨-, wake, contract, -, quiet⟩ := turn
  unfold HandlerStep
  have pending := quiet rfl
  by_cases free : system.memory.locks lock = 0
  · simp only [exec, free, if_true, boots_acquire, Bool.or_false]
      at pending ⊢
    by_cases locks : lock = .sbi_hsm_locks h
    · obtain ⟨rfl, wakes⟩ := contract h locks
      subst locks
      have waking : (lifecycle h started system).stage = .waking := by
        simp [lifecycle, stage, wake]
      refine (Lifecycle.Step.lock_waking waking
        (by simp [lifecycle, free])).congr rfl ?_
      rw [lifecycle_wakes started .wakingLocked rfl (by exact wakes), pending]
      simp [lifecycle, Memory.setLock]
    · have apart : Lock.sbi_hsm_locks h ≠ lock := fun same => locks same.symm
      refine handler_stutters (start_acquire ..) rfl (by rw [setLock_of_ne apart])
        rfl rfl (fun own => ?_) pending
      rw [wake]
      simp [handlerWake, locks]
  · simp only [exec, free, if_false, Label.boots, Bool.or_false] at pending ⊢
    refine handler_stutters rfl rfl ?_ rfl rfl (fun own => ?_) pending
    · by_cases locks : lock = .sbi_hsm_locks h
      · subst locks
        simp [free]
      · rw [setLock_of_ne (fun same => locks same.symm)]
    · rw [wake]
      by_cases locks : lock = .sbi_hsm_locks h <;>
        simp [handlerWake, locks]

/-- The hart that comes up releases the lock of its state. -/
theorem HandlerTurn.post
    {config : Config}
    {system : System config.xlen}
    {rest : List (Op config.xlen)}
    {lock : Lock}
    (turn : HandlerTurn h k system (.post lock) rest) :
    HandlerStep h k started system (.post lock) rest := by
  obtain ⟨-, wake, contract, -, quiet⟩ := turn
  unfold HandlerStep
  have pending := quiet rfl
  simp only [exec, Label.boots, Bool.or_false] at pending ⊢
  by_cases locks : lock = .sbi_hsm_locks h
  · obtain ⟨rfl, wakes⟩ := contract h locks
    subst locks
    have woken : (lifecycle h started system).stage = .wokenLocked := by
      simp [lifecycle, stage, wake]
    refine (Lifecycle.Step.unlock_woken woken).congr rfl ?_
    rw [lifecycle_wakes started .woken rfl (by exact wakes), pending]
    simp [lifecycle, Memory.setLock]
  · have apart : Lock.sbi_hsm_locks h ≠ lock := fun same => locks same.symm
    refine handler_stutters rfl rfl (by rw [setLock_of_ne apart]) rfl rfl
      (fun own => ?_) pending
    rw [wake]
    simp [handlerWake, locks]

/-- The hart says that it is up. -/
theorem HandlerTurn.store_hart_state
    {config : Config}
    {system : System config.xlen}
    {rest : List (Op config.xlen)}
    {t : Nat}
    {state : SBI_HSM}
    (turn : HandlerTurn h k system (.store_hart_state t state) rest) :
    HandlerStep h k started system (.store_hart_state t state) rest := by
  obtain ⟨-, wake, contract, -, quiet⟩ := turn
  unfold HandlerStep
  have pending := quiet rfl
  obtain ⟨rfl, rfl, wakes⟩ := contract
  simp only [exec, Label.boots] at pending ⊢
  by_cases own : t = h
  · subst own
    have waking : (lifecycle t started system).stage = .wakingLocked := by
      simp [lifecycle, stage, wake]
    refine (Lifecycle.Step.say_up waking).congr (by simp [Label.start]) ?_
    rw [lifecycle_wakes started .wokenLocked rfl (by exact wakes), pending]
    by_cases boot : t = 0 <;> simp [lifecycle, Memory.setState, boot]
  · refine (handler_stutters rfl
      (Function.update_of_ne (fun same => own same.symm) ..) rfl rfl rfl
      (fun same => absurd same own) pending).congr
        (by simp [Label.start, own]) ?_
    by_cases boot : t = 0
    · exact lifecycle_other (fun same => own (boot.trans same.symm)) _
    · rw [beq_eq_false_iff_ne.mpr boot, Bool.or_false]

/-- The hart receives its command, and comes up with one that starts it. -/
theorem HandlerTurn.dispatch
    {config : Config}
    {system : System config.xlen}
    {rest : List (Op config.xlen)}
    (turn : HandlerTurn h k system .dispatch rest)
    (known : ∀ command ∈ (mailbox h system).unread,
      command.command ≠ HARTCMD_SWITCHCONTEXT) :
    HandlerStep h k started system .dispatch rest := by
  obtain ⟨-, wake, contract, mail, -⟩ := turn
  unfold HandlerStep
  have none_follows : rest = [] := contract
  subst none_follows
  simp only [exec, Label.boots, Bool.or_false, List.append_nil] at mail ⊢
  by_cases own : k = h
  · subst own
    simp only [if_true, Op.receives, List.singleton_append] at mail
    have listed := known (system.harts k).command (by simp [mail])
    have wakes := (handle_wake config (h := k) listed).2
    have short := Mailbox.State.unread_length (mailbox k system)
    have emptied : (mailbox k (system.set k
        (.received (system.harts k).command,
          (system.harts k).put (handleCommand config k
            (system.harts k).command) .handler, system.memory))).unread =
          [] := by
      rw [mail, List.length_cons] at short
      exact List.length_eq_zero_iff.mp (by omega)
    by_cases start : (system.harts k).command.command = HARTCMD_STARTHART
    · rw [if_pos start] at wakes
      have pending : pendingStarts k system = [(system.harts k).command] := by
        rw [pendingStarts, mail, emptied]
        simp [start]
      refine (Lifecycle.Step.receive pending).congr
        (by simp [Label.start, start]) ?_
      rw [lifecycle_wakes started .waking rfl (by exact wakes),
        pendingStarts, emptied]
      rfl
    · rw [if_neg start] at wakes
      refine handler_stutters (by simp [Label.start, start]) rfl rfl rfl rfl
        (fun _ => ?_) ?_
      · rw [wake]
        exact wakes
      · rw [pendingStarts, pendingStarts, mail, emptied]
        simp [start]
  · refine handler_stutters (by simp [Label.start, own]) rfl rfl rfl rfl
      (fun same => absurd same own) ?_
    rw [pendingStarts, pendingStarts, mail, if_neg own, List.nil_append]

/-- The hart enters the kernel. -/
theorem HandlerTurn.switch_to_user_context
    {config : Config}
    {system : System config.xlen}
    {rest : List (Op config.xlen)}
    (turn : HandlerTurn h k system .switch_to_user_context rest)
    (dropped : (startPhase h (system.harts k).main).caller = .out) :
    HandlerStep h k started system .switch_to_user_context rest := by
  obtain ⟨-, wake, -, -, quiet⟩ := turn
  unfold HandlerStep
  have pending := quiet rfl
  simp only [exec, Label.boots, Bool.or_false] at pending ⊢
  by_cases own : k = h
  · subst own
    have woken : (lifecycle k started system).stage = .woken := by
      simp [lifecycle, stage, wake]
    refine (Lifecycle.Step.come_up woken).congr (by simp [Label.start]) ?_
    rw [lifecycle_target rfl (by exact dropped.symm), pending]
    rfl
  · rw [lifecycle_stutters rfl rfl (by exact dropped.symm)
      (fun same => absurd same own) pending]
    exact Lifecycle.Step.stutter.congr (by simp [Label.start, own]) rfl

/-- A step of a handler is a step of the protocol of each hart. -/
theorem Managed.handlerStep
    {config : Config}
    {system : System config.xlen}
    {op : Op config.xlen}
    {rest : List (Op config.xlen)}
    (managed : Managed started system)
    (code : (system.harts k).handler = some (op :: rest))
    (h : Nat) :
    HandlerStep h k started system op rest := by
  have turn := managed.handlerTurn code h
  obtain ⟨-, wake, contract, -, quiet⟩ := id turn
  cases op with
  | wait_load lock => exact turn.wait_load
  | wait_swap lock => exact turn.wait_swap
  | post lock => exact turn.post
  | store_hart_state t state => exact turn.store_hart_state
  | dispatch => exact turn.dispatch (managed.known h)
  | switch_to_user_context =>
      refine turn.switch_to_user_context (managed.dropped ?_ h)
      rw [code]
      simp [handlerWake]
  | resume =>
      have none_follows : rest = [] := contract
      subst none_follows
      unfold HandlerStep
      simp only [exec, Label.boots, Bool.or_false]
      exact handler_stutters rfl rfl rfl rfl rfl (fun _ => wake.symm) (quiet rfl)
  | switch_to_context context => exact contract.elim
  | poll t => exact contract.elim
  | copy t field value => exact contract.elim
  | raise t command => exact contract.elim
  | check_hart_state t command => exact contract.elim
  | ret retval => exact contract.elim
  | ret_hart_state t => exact contract.elim
  | switch_to_hart_context => exact contract.elim
  | write_context record field value =>
      unfold HandlerStep
      simp only [exec, Label.boots, Bool.or_false]
      cases record <;>
        exact handler_stutters rfl rfl rfl rfl rfl (fun _ => wake.symm) (quiet rfl)
  | _ =>
      unfold HandlerStep
      simp only [exec, Label.boots, Bool.or_false]
      exact handler_stutters rfl rfl rfl rfl rfl (fun _ => wake.symm) (quiet rfl)

/-! ## The invariant over a step -/

section Exec

variable {config : Config} {hart : HartState config.xlen}
  {memory : Memory config.xlen} {op : Op config.xlen}
  {rest ops : List (Op config.xlen)}

theorem exec_main_starts
    (contract : EverySuffix (StartContract h k) (op :: rest)) :
    EverySuffix (StartContract h k)
      (exec config k .main rest hart memory op).2.1.main := by
  obtain ⟨⟨calm, rule⟩, later⟩ := contract
  cases op with
  | wait_load lock =>
      simp only [exec]
      split_ifs
      · exact later
      · exact ⟨⟨calm, rule⟩, later⟩
  | wait_swap lock =>
      simp only [exec]
      split_ifs
      · exact later
      · refine ⟨⟨fun own _ => ?_, fun own => by simp [own]⟩, ⟨calm, rule⟩, later⟩
        have quiet := calm own (by simp)
        by_cases locks : lock = .sbi_hsm_locks h <;> simp [locks, quiet]
  | poll t =>
      simp only [exec]
      split_ifs
      · exact later
      · exact ⟨⟨calm, rule⟩, later⟩
  | check_hart_state t command =>
      obtain ⟨start, rfl⟩ := rule
      simp only [exec]
      split_ifs
      · simpa using startRefused_contract.1
      · simpa using (startAccepted_contract start).1
  | ret retval => trivial
  | ret_hart_state t => trivial
  | switch_to_hart_context => trivial
  | write_context record field value => cases record <;> exact later
  | load_command field => exact rule.elim
  | dispatch => exact rule.elim
  | resume => exact rule.elim
  | switch_to_user_context => exact rule.elim
  | switch_to_context context => exact rule.elim
  | halt_not_handled => exact rule.elim
  | halt_exception => exact rule.elim
  | _ => exact later

/-- Main code parks its hart or leaves it where it is. -/
theorem exec_main_base
    (contract : StartContract h k op rest) :
    (exec config k .main rest hart memory op).2.1.base = hart.base ∨
      (exec config k .main rest hart memory op).2.1.main = [] := by
  obtain ⟨-, rule⟩ := contract
  cases op with
  | wait_load lock => left; simp only [exec]; split_ifs <;> rfl
  | wait_swap lock => left; simp only [exec]; split_ifs <;> rfl
  | poll t => left; simp only [exec]; split_ifs <;> rfl
  | check_hart_state t command => left; simp only [exec]; split_ifs <;> rfl
  | switch_to_hart_context => exact .inr rfl
  | switch_to_user_context => exact .inr rfl
  | switch_to_context context => exact .inr rfl
  | write_context record field value => cases record <;> exact .inl rfl
  | _ => exact .inl rfl

theorem exec_main_boot
    (contract : EverySuffix (BootContract k) (op :: rest)) :
    EverySuffix (BootContract k)
        (exec config k .main rest hart memory op).2.1.main ∧
      (exec config k .main rest hart memory op).2.1.base = hart.base ∧
      (exec config k .main rest hart memory op).2.2.sbi_hsm_states =
        memory.sbi_hsm_states := by
  obtain ⟨rule, later⟩ := contract
  cases op with
  | wait_load lock =>
      simp only [exec]
      split_ifs
      · exact ⟨later, rfl, rfl⟩
      · exact ⟨⟨rule, later⟩, rfl, rfl⟩
  | wait_swap lock =>
      simp only [exec]
      split_ifs
      · exact ⟨later, rfl, rfl⟩
      · refine ⟨⟨⟨rule.1, ?_⟩, rule, later⟩, rfl, rfl⟩
        simpa [rule.1 k] using rule.2
  | poll t =>
      simp only [exec]
      split_ifs
      · exact ⟨later, rfl, rfl⟩
      · exact ⟨⟨rule, later⟩, rfl, rfl⟩
  | post lock => exact ⟨later, rfl, rfl⟩
  | print text => exact ⟨later, rfl, rfl⟩
  | sfence_vma => exact ⟨later, rfl, rfl⟩
  | fence_i => exact ⟨later, rfl, rfl⟩
  | copy t field value => exact ⟨later, rfl, rfl⟩
  | raise t command => exact ⟨later, rfl, rfl⟩
  | _ => exact rule.elim

theorem exec_handler_wakes
    (contract : EverySuffix (WakeContract k) (op :: rest))
    (known : op = .dispatch → hart.command.command ≠ HARTCMD_SWITCHCONTEXT)
    (after : (exec config k .handler rest hart memory op).2.1.handler =
      some ops) :
    EverySuffix (WakeContract k) ops := by
  obtain ⟨rule, later⟩ := contract
  cases op with
  | wait_load lock =>
      simp only [exec] at after
      split_ifs at after
      · cases after
        exact later
      · cases after
        exact ⟨rule, later⟩
  | wait_swap lock =>
      simp only [exec] at after
      split_ifs at after
      · cases after
        exact later
      · cases after
        refine ⟨fun t locks => ?_, rule, later⟩
        obtain ⟨rfl, -⟩ := rule t locks
        exact ⟨rfl, by simp [locks]⟩
  | dispatch =>
      have none_follows : rest = [] := rule
      subst none_follows
      cases after
      rw [List.append_nil]
      exact (handle_wake config (known rfl)).1
  | resume => cases after
  | switch_to_user_context => cases after
  | switch_to_context context => exact rule.elim
  | poll t => exact rule.elim
  | check_hart_state t command => exact rule.elim
  | ret retval => exact rule.elim
  | ret_hart_state t => exact rule.elim
  | switch_to_hart_context => exact rule.elim
  | halt_not_handled => cases after; exact ⟨rule, later⟩
  | halt_exception => cases after; exact ⟨rule, later⟩
  | write_context record field value =>
      cases record <;> cases after <;> exact later
  | _ => cases after; exact later

/-- A handler wakes by receiving a start. -/
theorem exec_handler_awake
    (contract : EverySuffix (WakeContract k) (op :: rest))
    (known : op = .dispatch → hart.command.command ≠ HARTCMD_SWITCHCONTEXT)
    (awake : handlerWake k
      (exec config k .handler rest hart memory op).2.1.handler ≠ none) :
    handlerWake k (some (op :: rest)) ≠ none ∨
      op = .dispatch ∧ hart.command.command = HARTCMD_STARTHART := by
  obtain ⟨rule, later⟩ := contract
  cases op with
  | dispatch =>
      have none_follows : rest = [] := rule
      subst none_follows
      simp only [exec, HartState.put, List.append_nil, handlerWake,
        (handle_wake config (known rfl)).2] at awake
      by_contra asleep
      push Not at asleep
      exact awake (by simp [asleep.2 rfl])
  | wait_load lock =>
      left
      simp only [exec] at awake
      split_ifs at awake
      · by_cases locks : lock = .sbi_hsm_locks k
        · simp [handlerWake, locks]
        · simpa [handlerWake, locks] using awake
      · exact awake
  | wait_swap lock =>
      left
      simp only [exec] at awake
      split_ifs at awake
      · by_cases locks : lock = .sbi_hsm_locks k
        · simp [handlerWake, locks]
        · simpa [handlerWake, locks] using awake
      · by_cases locks : lock = .sbi_hsm_locks k
        · simp [handlerWake, locks]
        · simpa [handlerWake, locks] using awake
  | post lock =>
      left
      by_cases locks : lock = .sbi_hsm_locks k
      · simp [handlerWake, locks]
      · simpa [handlerWake, locks, exec] using awake
  | store_hart_state t state => left; simp [handlerWake]
  | resume => simp [exec, handlerWake] at awake
  | switch_to_user_context => simp [exec, handlerWake] at awake
  | switch_to_context context => exact rule.elim
  | poll t => exact rule.elim
  | check_hart_state t command => exact rule.elim
  | ret retval => exact rule.elim
  | ret_hart_state t => exact rule.elim
  | switch_to_hart_context => exact rule.elim
  | write_context record field value => cases record <;> exact .inl awake
  | _ => exact .inl awake

/-- A handler leaves the interrupted code and the hart where they are, or ends
the start branch. -/
theorem exec_handler_frame
    (contract : WakeContract k op rest) :
    (exec config k .handler rest hart memory op).2.1.main = hart.main ∧
        (exec config k .handler rest hart memory op).2.1.base = hart.base ∨
      op = .switch_to_user_context := by
  cases op with
  | wait_load lock => left; simp only [exec]; split_ifs <;> exact ⟨rfl, rfl⟩
  | wait_swap lock => left; simp only [exec]; split_ifs <;> exact ⟨rfl, rfl⟩
  | poll t => exact contract.elim
  | check_hart_state t command => exact contract.elim
  | switch_to_hart_context => exact contract.elim
  | switch_to_context context => exact contract.elim
  | switch_to_user_context => exact .inr rfl
  | ret retval => exact contract.elim
  | ret_hart_state t => exact contract.elim
  | write_context record field value => cases record <;> exact .inl ⟨rfl, rfl⟩
  | _ => exact .inl ⟨rfl, rfl⟩

/-- A handler changes the state of its own hart, at the end of the start
branch. -/
theorem exec_handler_states
    (contract : WakeContract k op rest) :
    (exec config k .handler rest hart memory op).2.2.sbi_hsm_states =
        memory.sbi_hsm_states ∨
      op = .store_hart_state k .STARTED := by
  cases op with
  | store_hart_state t state =>
      obtain ⟨rfl, rfl, -⟩ := contract
      exact .inr rfl
  | wait_load lock => left; simp only [exec]; split_ifs <;> rfl
  | wait_swap lock => left; simp only [exec]; split_ifs <;> rfl
  | poll t => left; simp only [exec]; split_ifs <;> rfl
  | check_hart_state t command => left; simp only [exec]; split_ifs <;> rfl
  | _ => exact .inl rfl

end Exec

section Step

variable {config : Config} {system next : System config.xlen}
  {op : Op config.xlen} {rest : List (Op config.xlen)}

/-- Where a start waits for a hart outside firmware code, what the hart drops
is the end of its parking or of `kmain`. -/
theorem Managed.asleep_of_pending
    (managed : Managed started system)
    (pending : pendingStarts k system ≠ [])
    (notAwake : handlerWake k (system.harts k).handler = none) :
    (system.harts k).main = [] ∨
      (system.harts k).main = [.switch_to_hart_context] ∨
        (system.harts k).main = [.post (.hart_command_que_locks k)] := by
  have down := ((managed.protocol k).target.unread pending).1
  have quiet (command : Hart_Command config.xlen) :
      startPhase k (system.harts k).main ≠ .sending command := by
    intro sends
    have mine : (lifecycle k started system).caller k = .sending command := by
      simp [lifecycle, sends]
    have admits := (managed.protocol k).callers k
    rw [mine] at admits
    exact pending admits.2.1
  have here : stage k (system.harts k) = .down := down
  rw [stage, notAwake, Option.getD_none] at here
  cases code : (system.harts k).main with
  | nil => exact .inl rfl
  | cons op rest =>
      have contract := managed.main k k
      rw [code, everySuffix_cons] at contract
      rw [code] at here quiet
      by_cases kernel : (system.harts k).base = .kernel
      · have parks : startPhase k (op :: rest) = .parking := by
          rw [kernel] at here
          cases phase : startPhase k (op :: rest) with
          | parking => rfl
          | _ => rw [phase] at here; cases here
        exact .inr (.inl (contract.1.of_parking parks))
      · have boot := managed.outside k kernel
        rw [code, everySuffix_cons] at boot
        exact .inr (.inr (boot.1.of_sent quiet))

/-- A step of main code keeps the invariant. -/
theorem Managed.main_step
    (managed : Managed started system)
    (idle : (system.harts k).handler = none)
    (code : (system.harts k).main = op :: rest)
    (deliveries : ∀ g, Delivery g (system.set k
      (exec config k .main rest (system.harts k) system.memory op))) :
    Managed started (system.set k
      (exec config k .main rest (system.harts k) system.memory op)) := by
  have contract (h : Nat) : EverySuffix (StartContract h k) (op :: rest) := by
    rw [← code]
    exact managed.main h k
  have still : (exec config k .main rest (system.harts k) system.memory
      op).2.1.handler = none :=
    exec_main_handler idle
  refine ⟨deliveries, fun h j => ?_, fun j ops => ?_, fun j elsewhere => ?_,
    fun j awake => ?_, fun h command unread => ?_, fun h => ?_, fun off j => ?_⟩
  · by_cases same : j = k
    · subst same
      rw [set_self]
      exact exec_main_starts (contract h)
    · rw [set_of_ne same]
      exact managed.main h j
  · by_cases same : j = k
    · subst same
      rw [set_self, still]
      exact fun running => by cases running
    · rw [set_of_ne same]
      exact managed.handler j ops
  · by_cases same : j = k
    · subst same
      rw [set_self] at elsewhere ⊢
      rcases exec_main_base (contract 0).1 with base | empty
      · rw [base] at elsewhere
        have boot := managed.outside j elsewhere
        rw [code] at boot
        exact (exec_main_boot boot).1
      · rw [empty]
        trivial
    · rw [set_of_ne same] at elsewhere ⊢
      exact managed.outside j elsewhere
  · by_cases same : j = k
    · subst same
      rw [set_self, still] at awake
      exact absurd rfl awake
    · rw [set_of_ne same] at awake ⊢
      exact managed.asleep j awake
  · rw [unread_main (managed.delivery h) idle code, List.mem_append] at unread
    rcases unread with old | new
    · exact managed.known h command old
    · obtain ⟨⟨-, rule⟩, -⟩ := contract h
      cases op with
      | raise t sent =>
          simp only [Op.sends] at new
          split_ifs at new
          · rw [List.mem_singleton.mp new]
            exact rule.1
          · cases new
      | _ => cases new
  · exact (managed.protocol h).step (managed.mainStep idle code h)
  · subst off
    obtain ⟨rfl, rule⟩ := managed.booting code
    have outside := (managed.boot rfl 0).2.1
    have boot := managed.outside 0 outside
    rw [code] at boot
    obtain ⟨-, base, states⟩ := exec_main_boot boot
    obtain ⟨stopped, elsewhere, empty⟩ := managed.boot rfl j
    refine ⟨?_, ?_, fun other => ?_⟩
    · show (exec config 0 .main rest (system.harts 0) system.memory
        op).2.2.sbi_hsm_states j = .STOPPED
      rw [states]
      exact stopped
    · by_cases same : j = 0
      · subst same
        rw [set_self, base]
        exact outside
      · rw [set_of_ne same]
        exact elsewhere
    · rw [set_of_ne other]
      exact empty other

/-- What a handler reads is no switch of the context. -/
theorem Managed.dispatched
    (managed : Managed started system)
    (code : (system.harts k).handler = some (op :: rest))
    (dispatches : op = .dispatch) :
    (system.harts k).command ∈ (mailbox k system).unread := by
  subst dispatches
  rw [unread_handler (managed.delivery k) code, if_pos rfl]
  exact List.mem_append_left _ (List.mem_singleton_self _)

/-- Before the boot hart is up, no start branch has come past its store, and
none but that of the boot hart comes to it. -/
theorem Managed.boot_waking
    {wakes : Lifecycle.Stage}
    (managed : Managed false system)
    (awake : handlerWake k (system.harts k).handler = some wakes) :
    wakes ≠ .woken ∧ (wakes = .wakingLocked → k = 0) := by
  have shows_ := (managed.protocol k).target.shows_
  have stopped := (managed.boot rfl k).1
  simp only [lifecycle, stage, awake, Option.getD_some, and_true] at shows_
  refine ⟨?_, ?_⟩
  · rintro rfl
    by_cases boot : k = 0 <;> simp [boot, stopped] at shows_
  · rintro rfl
    by_contra other
    simp [other, stopped] at shows_

/-- A step of a handler keeps the invariant. -/
theorem Managed.handler_step
    (managed : Managed started system)
    (code : (system.harts k).handler = some (op :: rest))
    (deliveries : ∀ g, Delivery g (system.set k
      (exec config k .handler rest (system.harts k) system.memory op))) :
    Managed
      (started || Label.boots ⟨k, .handler, (exec config k .handler rest
        (system.harts k) system.memory op).1⟩)
      (system.set k
        (exec config k .handler rest (system.harts k) system.memory op)) := by
  have contract := managed.handler k _ code
  have known (dispatches : op = .dispatch) :
      (system.harts k).command.command ≠ HARTCMD_SWITCHCONTEXT :=
    managed.known k _ (managed.dispatched code dispatches)
  have frame : (exec config k .handler rest (system.harts k) system.memory
          op).2.1.main = (system.harts k).main ∧
        (exec config k .handler rest (system.harts k) system.memory
          op).2.1.base = (system.harts k).base ∨
      op = .switch_to_user_context := exec_handler_frame contract.1
  have mainSame : (exec config k .handler rest (system.harts k) system.memory
        op).2.1.main = (system.harts k).main ∨
      (exec config k .handler rest (system.harts k) system.memory
        op).2.1.main = [] := exec_handler_main
  refine ⟨deliveries, fun h j => ?_, fun j ops => ?_, fun j elsewhere => ?_,
    fun j awake => ?_, fun h command unread => ?_, fun h => ?_, fun off j => ?_⟩
  · by_cases same : j = k
    · subst same
      rw [set_self]
      rcases mainSame with main | main
      · rw [main]
        exact managed.main h j
      · rw [main]
        trivial
    · rw [set_of_ne same]
      exact managed.main h j
  · by_cases same : j = k
    · subst same
      rw [set_self]
      exact exec_handler_wakes contract known
    · rw [set_of_ne same]
      exact managed.handler j ops
  · by_cases same : j = k
    · subst same
      rw [set_self] at elsewhere ⊢
      rcases frame with ⟨main, base⟩ | rfl
      · rw [main]
        rw [base] at elsewhere
        exact managed.outside j elsewhere
      · trivial
    · rw [set_of_ne same] at elsewhere ⊢
      exact managed.outside j elsewhere
  · by_cases same : j = k
    · subst same
      rw [set_self] at awake ⊢
      rcases mainSame with main | main
      · rw [main]
        rcases exec_handler_awake contract known awake with before | ⟨rfl, start⟩
        · exact managed.asleep j (by rwa [code])
        · refine managed.asleep_of_pending ?_ ?_
          · refine List.ne_nil_of_mem (List.mem_filter.mpr
              ⟨managed.dispatched code rfl, by simpa using start⟩)
          · rw [code]
            have rule : rest = [] := contract.1
            simp [handlerWake, rule]
      · exact .inl main
    · rw [set_of_ne same] at awake ⊢
      exact managed.asleep j awake
  · refine managed.known h command ?_
    rw [unread_handler (managed.delivery h) code]
    exact List.mem_append_right _ unread
  · exact (managed.protocol h).step (managed.handlerStep code h)
  · obtain ⟨off, silent⟩ := Bool.or_eq_false_iff.mp off
    subst off
    have notSwitch : op ≠ .switch_to_user_context := by
      rintro rfl
      have awake : handlerWake k (system.harts k).handler = some .woken := by
        rw [code]
        rfl
      exact (managed.boot_waking awake).1 rfl
    obtain ⟨main, base⟩ := frame.resolve_right notSwitch
    have states : (exec config k .handler rest (system.harts k) system.memory
        op).2.2.sbi_hsm_states = system.memory.sbi_hsm_states := by
      rcases exec_handler_states contract.1 with states | rfl
      · exact states
      · have awake : handlerWake k (system.harts k).handler =
            some .wakingLocked := by
          rw [code]
          rfl
        have boot := (managed.boot_waking awake).2 rfl
        subst boot
        simp [exec, Label.boots] at silent
    obtain ⟨stopped, elsewhere, empty⟩ := managed.boot rfl j
    refine ⟨?_, ?_, fun other => ?_⟩
    · show (exec config k .handler rest (system.harts k) system.memory
        op).2.2.sbi_hsm_states j = .STOPPED
      rw [states]
      exact stopped
    · by_cases same : j = k
      · subst same
        rw [set_self, base]
        exact elsewhere
      · rw [set_of_ne same]
        exact elsewhere
    · by_cases same : j = k
      · subst same
        rw [set_self, main]
        exact empty other
      · rw [set_of_ne same]
        exact empty other

/-- A hart outside its handlers changes its code or takes an interrupt. -/
theorem Managed.setHart
    {hart : HartState config.xlen}
    (managed : Managed started system)
    (deliveries : ∀ g,
      Mailbox.Step (mailbox g system) .internal
          (mailbox g (system.setHart k hart)) ∧
        Delivery g (system.setHart k hart))
    (idle : (system.harts k).handler = none)
    (base : hart.base = (system.harts k).base)
    (main : hart.main = (system.harts k).main ∨
      (system.harts k).base = .kernel ∧ (system.harts k).main = [] ∧
        ∀ h, StartsToEnd h k hart.main)
    (handler : ∀ ops, hart.handler = some ops →
      EverySuffix (WakeContract k) ops ∧ wakeStage k ops = none) :
    (∀ h, lifecycle h started (system.setHart k hart) =
        lifecycle h started system) ∧
      Managed started (system.setHart k hart) := by
  have unread (g : Nat) : (mailbox g (system.setHart k hart)).unread =
      (mailbox g system).unread := by
    have balance := (deliveries g).1.unread_balance
      (managed.delivery g).invariant
    simpa using balance.symm
  have asleep : handlerWake k hart.handler = none := by
    cases running : hart.handler with
    | none => rfl
    | some ops => exact (handler ops running).2
  have caller (h : Nat) : (startPhase h hart.main).caller =
      (startPhase h (system.harts k).main).caller := by
    rcases main with same | ⟨-, empty, complete⟩
    · rw [same]
    · rw [empty]
      rcases (complete h).2 with out | ⟨-, parks⟩
      · rw [out]
        rfl
      · rw [parks]
        rfl
  have stages : stage k hart = stage k (system.harts k) := by
    rw [stage, stage, asleep, idle, base]
    rcases main with same | ⟨-, empty, complete⟩
    · rw [same]
      rfl
    · rw [empty, ((complete k).2.resolve_right fun other => other.1 rfl)]
      rfl
  have unchanged (h : Nat) : lifecycle h started (system.setHart k hart) =
      lifecycle h started system := by
    rw [setHart_eq_set] at unread ⊢
    refine lifecycle_stutters rfl rfl (caller h) ?_ ?_
    · rintro rfl
      exact stages
    · rw [pendingStarts, unread h, pendingStarts]
  refine ⟨unchanged, fun g => (deliveries g).2, fun h j => ?_, fun j ops => ?_,
    fun j elsewhere => ?_, fun j awake => ?_, fun h command => ?_,
    fun h => by rw [unchanged h]; exact managed.protocol h, fun off j => ?_⟩
  all_goals rw [setHart_eq_set] at *
  · by_cases same : j = k
    · subst same
      rw [set_self]
      rcases main with main | ⟨-, -, complete⟩
      · rw [main]
        exact managed.main h j
      · exact (complete h).1
    · rw [set_of_ne same]
      exact managed.main h j
  · by_cases same : j = k
    · subst same
      rw [set_self]
      exact fun running => (handler ops running).1
    · rw [set_of_ne same]
      exact managed.handler j ops
  · by_cases same : j = k
    · subst same
      rw [set_self] at elsewhere ⊢
      rw [base] at elsewhere
      rcases main with main | ⟨kernel, -, -⟩
      · rw [main]
        exact managed.outside j elsewhere
      · exact absurd kernel elsewhere
    · rw [set_of_ne same] at elsewhere ⊢
      exact managed.outside j elsewhere
  · by_cases same : j = k
    · subst same
      rw [set_self] at awake
      exact absurd asleep awake
    · rw [set_of_ne same] at awake ⊢
      exact managed.asleep j awake
  · rw [unread h]
    exact managed.known h command
  · subst off
    obtain ⟨stopped, elsewhere, empty⟩ := managed.boot rfl j
    by_cases same : j = k
    · subst same
      rw [set_self, base]
      refine ⟨stopped, elsewhere, fun other => ?_⟩
      rcases main with main | ⟨kernel, -, -⟩
      · rw [main]
        exact empty other
      · exact absurd kernel elsewhere
    · rw [set_of_ne same]
      exact ⟨stopped, elsewhere, empty⟩

/-- Main code stores no state before the boot hart is up. -/
theorem Managed.boots_main
    (managed : Managed started system)
    (code : (system.harts k).main = op :: rest) :
    (started || Label.boots ⟨k, .main, (exec config k .main rest
      (system.harts k) system.memory op).1⟩) = started := by
  cases booted : started with
  | true => rfl
  | false =>
      subst booted
      obtain ⟨rfl, rule⟩ := managed.booting code
      cases op with
      | wait_load lock => simp only [exec]; split_ifs <;> rfl
      | wait_swap lock => simp only [exec]; split_ifs <;> cases lock <;> rfl
      | poll t => simp only [exec]; split_ifs <;> rfl
      | check_hart_state t command => exact rule.elim
      | store_hart_state t state => exact rule.elim
      | _ => rfl

/-- The step lemma: each step is a step of the protocol of each hart, and keeps
the invariant. -/
theorem Managed.step
    {label : Label config.xlen}
    (managed : Managed started system)
    (step : Step config (sbiCalls config) system label next) :
    (∀ h, Lifecycle.Step (lifecycle h started system) (label.start h)
        (lifecycle h (started || label.boots) next)) ∧
      Managed (started || label.boots) next := by
  have moved (g : Nat) : Mailbox.Step (mailbox g system) (label.mail g)
      (mailbox g next) ∧ Delivery g next :=
    (managed.delivery g).step
      (fun h ops code => SendingCode.complete h ops (.inl code)) step
  cases step with
  | @main k op rest idle code =>
      rw [managed.boots_main code]
      exact ⟨managed.mainStep idle code,
        managed.main_step idle code fun g => (moved g).2⟩
  | @handler k op rest code =>
      exact ⟨managed.handlerStep code,
        managed.handler_step code fun g => (moved g).2⟩
  | @software_interrupt k idle up =>
      simp only [Label.boots, Bool.or_false]
      obtain ⟨same, kept⟩ := managed.setHart moved idle (by simp)
        (.inl (by simp)) (by rintro ops ⟨⟩; exact software_wake)
      exact ⟨fun h => Lifecycle.Step.stutter.congr rfl (same h), kept⟩
  | @timer_interrupt k idle low =>
      simp only [Label.boots, Bool.or_false]
      obtain ⟨same, kept⟩ := managed.setHart moved idle (by simp)
        (.inl (by simp)) (by rintro ops ⟨⟩; exact timer_wake config)
      exact ⟨fun h => Lifecycle.Step.stutter.congr rfl (same h), kept⟩
  | @call k ops kernel empty idle allowed =>
      simp only [Label.boots, Bool.or_false]
      have complete (h : Nat) : StartsToEnd h k ops := by
        obtain ⟨request, rfl⟩ := allowed
        exact .call config.toPlatform request
      obtain ⟨same, kept⟩ := managed.setHart moved idle rfl
        (.inr ⟨kernel, empty, complete⟩)
        (fun ops running => by cases idle.symm.trans running)
      exact ⟨fun h => Lifecycle.Step.stutter.congr rfl (same h), kept⟩
  | @run k user_context csrs outside idle =>
      simp only [Label.boots, Bool.or_false]
      obtain ⟨same, kept⟩ := managed.setHart moved idle rfl (.inl rfl)
        (fun ops running => by cases idle.symm.trans running)
      exact ⟨fun h => Lifecycle.Step.stutter.congr rfl (same h), kept⟩
  | @exception k cause_value lines raises empty idle =>
      simp only [Label.boots, Bool.or_false]
      obtain ⟨same, kept⟩ := managed.setHart moved idle (by simp)
        (.inl (by simp)) (by rintro ops ⟨⟩; exact exception_wake k cause_value lines)
      exact ⟨fun h => Lifecycle.Step.stutter.congr rfl (same h), kept⟩

/-- What `kinit` leaves satisfies the invariant. -/
theorem Booted.managed
    (booted : Booted config system) :
    Managed false system := by
  obtain ⟨stack, boot⟩ := booted.boot_main
  have main (k : Nat) : (system.harts k).main = [] ∨
      k = 0 ∧ (system.harts k).main = kmain config stack := by
    by_cases own : k = 0
    · exact .inr ⟨own, by rw [own, boot]⟩
    · exact .inl (booted.other_main k own)
  have handler (k : Nat) : (system.harts k).handler = none ∨
      (system.harts k).handler = some [.resume] := by
    by_cases own : k = 0
    · exact .inl (by rw [own, booted.boot_handler])
    · exact .inr (booted.other_handler k own)
  have empty (g : Nat) : (mailbox g system).unread = [] := by
    simp [Mailbox.State.unread, mailbox, booted.msip]
  have asleep (k : Nat) :
      handlerWake k (system.harts k).handler = none := by
    rcases handler k with none_ | resumes
    · rw [none_]
      rfl
    · rw [resumes]
      rfl
  have quiet (h k : Nat) (other : k ≠ 0 ∨ h ≠ 0) :
      startPhase h (system.harts k).main = .out := by
    rcases main k with none_ | ⟨rfl, code⟩
    · rw [none_]
      rfl
    · rw [code, (kmain_contract config stack).2.2, if_neg]
      rintro rfl
      rcases other with other | other <;> exact other rfl
  have stages (h : Nat) : stage h (system.harts h) = .down := by
    rw [stage, asleep h, booted.base h, Option.getD_none]
    rcases main h with none_ | ⟨rfl, code⟩
    · rw [none_]
      rfl
    · rw [code, (kmain_contract config stack).2.2]
      rfl
  refine ⟨fun g => booted.unsent.delivery g, fun h k => ?_, fun k ops code => ?_,
    fun k _ => ?_, fun k awake => absurd (asleep k) awake,
    fun h command unread => ?_, fun h => ?_, fun _ k => ?_⟩
  · rcases main k with none_ | ⟨rfl, code⟩
    · rw [none_]
      trivial
    · rw [code]
      exact (kmain_contract config stack).1
  · rcases handler k with none_ | resumes
    · cases none_.symm.trans code
    · cases resumes.symm.trans code
      simp
  · rcases main k with none_ | ⟨rfl, code⟩
    · rw [none_]
      trivial
    · rw [code]
      exact (kmain_contract (h := 0) config stack).2.1
  · rw [empty h] at unread
    cases unread
  · have pending : pendingStarts h system = [] := by
      rw [pendingStarts, empty h, List.filter_nil]
    by_cases first : h = 0
    · subst first
      have sends : (lifecycle 0 false system).caller 0 = .sending
          (startCommand stack 0#_ config.kernel_load_to_point
            config.dtb_load_to_point) := by
        simp [lifecycle, boot, (kmain_contract (h := 0) config stack).2.2]
      have others (k : Nat) (other : k ≠ 0) :
          (lifecycle 0 false system).caller k = .out := by
        simp [lifecycle, quiet 0 k (.inl other)]
      refine ⟨⟨?_, ?_, ?_, ?_⟩, fun k => ?_, fun j k different => ?_, fun _ _ => ?_⟩
      · simp [lifecycle, stages]
      · simp [lifecycle, stages]
      · simp [lifecycle, pending]
      · simp [lifecycle, pending]
      · by_cases own : k = 0
        · rw [own, sends]
          exact ⟨stages 0, pending, by simp [lifecycle]⟩
        · rw [others k own]
          trivial
      · by_cases jFirst : j = 0
        · rw [others k fun kFirst => different (jFirst.trans kFirst.symm)]
          simp
        · rw [others j jFirst]
          simp
      · exact .inr ⟨0, _, .inr sends⟩
    · have callers (k : Nat) : (lifecycle h false system).caller k = .out := by
        simp [lifecycle, quiet h k (.inr first)]
      refine ⟨⟨?_, ?_, ?_, ?_⟩, fun k => ?_, fun j k _ => ?_, fun starts _ => ?_⟩
      · simp [lifecycle, stages]
      · simp [lifecycle, stages, first, booted.states]
      · simp [lifecycle, pending]
      · simp [lifecycle, pending]
      · rw [callers k]
        trivial
      · rw [callers j]
        simp
      · simp [lifecycle, first, booted.states] at starts
  · exact ⟨booted.states k, by simp [booted.base k], booted.other_main k⟩

/-- The run lemma. -/
theorem Managed.run
    {labels : List (Label config.xlen)}
    (managed : Managed started system)
    (run : Run (Step config (sbiCalls config)) system labels next) :
    Managed (started || labels.any Label.boots) next := by
  have kept := run.invariant_history
    (fun history current => Managed (started || history.any Label.boots) current)
    (fun taken before => by
      rw [List.any_append, ← Bool.or_assoc]
      simpa using (before.step taken).2)
    (by simpa using managed)
  exact kept

end Step

end

end Harts
end EchelonSbi
