import EchelonSbi.Harts.InOrder
import EchelonSbi.Harts.Schedule

/-!
# Commands that are read, and commands that are lost

A hart reads its commands as long as its handlers return.  `exception_c_handler`
gives up on a hart for good; whoever sends to it does not see that, and the call
succeeds.  Those commands are the only ones that are lost: from every other state
the next steps of the handler of the target read what was sent.
-/

namespace EchelonSbi
namespace Harts

open Foundation
open Sbi

variable {xlen : Xlen}

/-- The last operation of `exception_c_handler` where it gives up. -/
def Op.givesUp : Op xlen → Bool
  | .halt_exception => true
  | _ => false

/-- `exception_c_handler` gives up, or has given up, on hart `g`. -/
def GivingUp (system : System xlen) (g : Nat) : Bool :=
  (system.harts g).handler.any fun ops => ops.any Op.givesUp

/-- A step loses a command for hart `g`: the command is sent to a hart that
`exception_c_handler` has given up on, or an exception that it gives up on comes
before the interrupt of the command. -/
def Loses (g : Nat) (system : System xlen) (label : Label xlen) (next : System xlen) :
    Prop :=
  (GivingUp system g = true ∧ ∃ command, label.event = .raised g command) ∨
    GivingUp system g = false ∧ GivingUp next g = true ∧ system.memory.clint_msip g ≠ 0

/-- How many steps of its handler a hart needs at most to read a command. -/
def due (hart : HartState xlen) : Nat :=
  let whole := (machineSoftwareInterrupt : List (Op xlen)).length
  match hart.handler with
  | none => whole + 1
  | some ops =>
      if handlerPhase ops = .reading then ops.length else ops.length + (whole + 1)

/-- All commands sent to hart `g` in a run are read by its handler once, as they were
sent, and in the order in which their senders took the lock, but for at most one.
That one steps of hart `g` alone can read, and whatever the harts do, the next `due`
steps of the handler of hart `g` do, unless another step loses it. -/
structure Delivered
    (config : Config) (g : Nat) (labels : List (Label config.xlen))
    (last : System config.xlen) : Prop where
  whole : (sentTo g labels).map Prod.snd = readBy g labels ++ (mailbox g last).unread
  short : (mailbox g last).unread.length ≤ 1
  ordered : ∃ holder : List Nat, holder.length ≤ 1 ∧
    lockOrder g labels = (sentTo g labels).map Prod.fst ++ holder
  readable : ∀ command ∈ (mailbox g last).unread, ∃ later next,
    Run (Step config (SendingCode config)) last later next ∧
      (∀ label ∈ later, label.hart = g) ∧ readBy g later = [command]
  soon : ∀ command ∈ (mailbox g last).unread, ∀ later next,
    Run (fun before label after =>
      Step config (SendingCode config) before label after ∧ ¬Loses g before label after)
        last later next →
      due (last.harts g) ≤ handlerSteps g later → command ∈ readBy g later

/-! ## Handlers return or give up -/

/-- Code that leaves the handler without waiting. -/
@[simp]
def Leaves : List (Op xlen) → Prop
  | .csr_bitset _ _ :: rest => Leaves rest
  | .csr_bitclr _ _ :: rest => Leaves rest
  | .resume :: _ => True
  | .switch_to_user_context :: _ => True
  | .switch_to_context _ :: _ => True
  | _ => False

/-- A handler that is not about to read or to acknowledge leaves, or gives up. -/
def InTime (ops : List (Op xlen)) : Prop :=
  handlerPhase ops = .idle → Leaves ops ∨ ops.any Op.givesUp = true

/-- What a handler keeps to after it has acknowledged its command. -/
@[simp]
def ReturnContract : Op xlen → List (Op xlen) → Prop
  | .dispatch, rest => rest = []
  | .clear_msip, rest => InTime rest
  | .resume, rest => rest = []
  | .switch_to_user_context, rest => rest = []
  | .switch_to_context _, rest => rest = []
  | _, _ => True

/-- A handler that returns or gives up. -/
def Returning (ops : List (Op xlen)) : Prop :=
  EverySuffix ReturnContract ops ∧ InTime ops

theorem inTime_of_phase
    {ops : List (Op xlen)}
    (phase : handlerPhase ops ≠ .idle) :
    InTime ops :=
  fun idle => absurd idle phase

theorem ReturnContract.of_local
    {op : Op xlen}
    (local_ : op.Local)
    (rest : List (Op xlen)) :
    ReturnContract op rest := by
  cases op <;> trivial

theorem returns_append
    {left rest : List (Op xlen)}
    (after : EverySuffix ReturnContract rest)
    (local_ : ∀ op ∈ left, op.Local) :
    EverySuffix ReturnContract (left ++ rest) :=
  after.append fun op member => .of_local (local_ op member)

theorem Returning.software :
    Returning (machineSoftwareInterrupt : List (Op xlen)) := by
  refine ⟨?_, inTime_of_phase (by rw [HandlerFrom.software.2]; simp)⟩
  simp [machineSoftwareInterrupt, CommandField.all]

theorem Returning.resume :
    Returning ([.resume] : List (Op xlen)) :=
  ⟨by simp, fun _ => .inl trivial⟩

theorem Returning.timer (config : Config) (h : Nat) :
    Returning (machineTimerInterrupt config h) := by
  unfold machineTimerInterrupt
  split_ifs
  · exact .resume
  · exact ⟨by simp, fun _ => .inl trivial⟩

theorem Returning.exception (h cause_value : Nat) (lines : List String) :
    Returning (exceptionHalt h cause_value lines : List (Op xlen)) := by
  refine ⟨returns_append (by simp) fun op member => ?_,
    fun _ => .inr (by simp [exceptionHalt, Op.givesUp])⟩
  simp only [List.mem_append, List.mem_singleton] at member
  rcases member with (rfl | text) | text
  · trivial
  · exact printm_local _ op text
  · exact prints_local _ op text

theorem handleStart_returns
    (config : Config)
    (h : Nat)
    (command : Hart_Command config.xlen) :
    EverySuffix ReturnContract (handleStart config h command) := by
  unfold handleStart
  simp only [List.append_assoc]
  refine returns_append ?_ (printm_local _)
  have commit : EverySuffix ReturnContract
      (ksem_wait (.sbi_hsm_locks h) ++ ([.store_hart_state h .STARTED] ++
        (ksem_post (.sbi_hsm_locks h) ++
          [.clear_command, .clear_msip, .switch_to_user_context])) :
            List (Op config.xlen)) := by
    simp [ksem_wait, ksem_post, InTime]
  have setup := returns_append commit (startContext_local h command)
  split_ifs
  · exact returns_append setup (qemuFixes_local config h)
  · exact setup

/-- Every branch returns after its acknowledgement. -/
theorem Returning.handle
    (config : Config)
    (h : Nat)
    (command : Hart_Command config.xlen) :
    Returning (handleCommand config h command) := by
  refine ⟨?_, inTime_of_phase (by rw [(HandlerFrom.handle config h command).2]; simp)⟩
  unfold handleCommand
  split_ifs
  · simp [InTime]
  · exact handleStart_returns config h command
  · simp [InTime]
  · simp [InTime]
  · simp [InTime]
  · simp [InTime]
  · exact returns_append (by simp) (printm_local _)

/-- No branch gives up like an exception. -/
theorem handle_keeps_on
    (config : Config)
    (h : Nat)
    (command : Hart_Command config.xlen) :
    (handleCommand config h command).any Op.givesUp = false := by
  have quiet {ops : List (Op config.xlen)} (local_ : ∀ op ∈ ops, op.Local) :
      ops.any Op.givesUp = false := by
    rw [List.any_eq_false]
    intro op member
    have here := local_ op member
    cases op <;> first | exact here.elim | simp [Op.givesUp]
  unfold handleCommand
  split_ifs
  · simp [Op.givesUp]
  · unfold handleStart
    simp only [List.any_append, quiet (printm_local _), quiet (startContext_local h command)]
    split_ifs <;> simp [quiet (qemuFixes_local config h), ksem_wait, ksem_post, Op.givesUp]
  · simp [Op.givesUp]
  · simp [Op.givesUp]
  · simp [Op.givesUp]
  · simp [Op.givesUp]
  · simp [quiet (printm_local _), Op.givesUp]

section Steps

variable {config : Config} {g h : Nat} {system next : System config.xlen}
  {label : Label config.xlen} {op : Op config.xlen} {rest ops : List (Op config.xlen)}
  {calls : Nat → List (Op config.xlen) → Prop}

theorem Returning.tail
    (returning : Returning (op :: rest))
    (phase : handlerPhase rest = handlerPhase (op :: rest))
    (leaves : Leaves (op :: rest) → Leaves rest)
    (goesOn : op.givesUp = false) :
    Returning rest := by
  obtain ⟨contract, inTime⟩ := returning
  refine ⟨contract.2, fun idle => ?_⟩
  rw [phase] at idle
  refine (inTime idle).imp leaves fun halts => ?_
  rwa [List.any_cons, goesOn, Bool.false_or] at halts

/-- One operation of a handler. -/
theorem exec_returning
    {hart : HartState config.xlen}
    {memory : Memory config.xlen}
    (returning : Returning (op :: rest))
    (contract : HandlerContract op rest)
    (after : (exec config h .handler rest hart memory op).2.1.handler = some ops) :
    Returning ops ∧ ops.any Op.givesUp = (op :: rest).any Op.givesUp := by
  cases op with
  | wait_load lock =>
      simp only [exec] at after
      split_ifs at after
      · cases after
        exact ⟨returning.tail rfl False.elim rfl, by simp [Op.givesUp]⟩
      · cases after
        exact ⟨returning, rfl⟩
  | wait_swap lock =>
      simp only [exec] at after
      split_ifs at after
      · cases after
        exact ⟨returning.tail rfl False.elim rfl, by simp [Op.givesUp]⟩
      · cases after
        refine ⟨⟨⟨trivial, returning.1⟩, fun idle => ?_⟩, by simp [Op.givesUp]⟩
        exact (returning.2 idle).imp False.elim fun halts => by simpa [Op.givesUp] using halts
  | dispatch =>
      obtain rfl : rest = [] := contract
      cases after
      rw [List.append_nil]
      exact ⟨.handle config h _, handle_keeps_on ..⟩
  | clear_msip =>
      cases after
      exact ⟨⟨returning.1.2, returning.1.1⟩, by simp [Op.givesUp]⟩
  | resume => cases after
  | switch_to_user_context => cases after
  | switch_to_context context => cases after
  | halt_not_handled => cases after; exact ⟨returning, rfl⟩
  | halt_exception => cases after; exact ⟨returning, rfl⟩
  | poll t => exact contract.elim
  | copy t field value => exact contract.elim
  | raise t command => exact contract.elim
  | check_hart_state t command => exact contract.elim
  | ret retval => exact contract.elim
  | ret_hart_state t => exact contract.elim
  | switch_to_hart_context => exact contract.elim
  | csr_bitset csr mask => cases after; exact ⟨returning.tail rfl id rfl, by simp [Op.givesUp]⟩
  | csr_bitclr csr mask => cases after; exact ⟨returning.tail rfl id rfl, by simp [Op.givesUp]⟩
  | write_context record field value =>
      cases record <;> cases after <;> exact ⟨returning.tail rfl False.elim rfl, by simp [Op.givesUp]⟩
  | _ => cases after; exact ⟨returning.tail rfl False.elim rfl, by simp [Op.givesUp]⟩

/-- What ends a handler that returns does not give up. -/
theorem exec_returned
    {hart : HartState config.xlen}
    {memory : Memory config.xlen}
    (returning : Returning (op :: rest))
    (contract : HandlerContract op rest)
    (after : (exec config h .handler rest hart memory op).2.1.handler = none) :
    (op :: rest).any Op.givesUp = false := by
  cases op with
  | resume =>
      obtain rfl : rest = [] := returning.1.1
      rfl
  | switch_to_user_context =>
      obtain rfl : rest = [] := returning.1.1
      rfl
  | switch_to_context context =>
      obtain rfl : rest = [] := returning.1.1
      rfl
  | wait_load lock => simp only [exec] at after; split_ifs at after <;> cases after
  | wait_swap lock => simp only [exec] at after; split_ifs at after <;> cases after
  | write_context record field value => cases record <;> cases after
  | poll t => exact contract.elim
  | check_hart_state t command => exact contract.elim
  | switch_to_hart_context => exact contract.elim
  | _ => cases after

/-- The target of commands: what is sent is delivered, and its handlers return or give
up. -/
structure Attentive (g : Nat) (system : System config.xlen) : Prop where
  delivery : Delivery g system
  returning : ∀ ops, (system.harts g).handler = some ops → Returning ops

/-- Only an exception that comes to a hart without a handler makes it give up. -/
theorem Attentive.step
    (complete : ∀ h ops, calls h ops → SendsToEnd g ops)
    (attentive : Attentive g system)
    (step : Step config calls system label next) :
    Attentive g next ∧
      (GivingUp next g = GivingUp system g ∨
        (system.harts g).handler = none ∧ label = ⟨g, .handler, .interrupted⟩) := by
  have delivery := (attentive.delivery.step complete step).2
  by_cases own : g = label.hart
  · cases step with
    | @main h op rest idle code =>
        subst own
        have still : ((system.set g (exec config g .main rest (system.harts g) system.memory
            op)).harts g).handler = none := by
          rw [set_self]
          exact exec_main_handler idle
        refine ⟨⟨delivery, fun ops running => nomatch still.symm.trans running⟩, .inl ?_⟩
        simp [GivingUp, still, idle]
    | @handler h op rest code =>
        subst own
        have contract := (attentive.delivery.handler g _ code).1
        have returning := attentive.returning _ code
        refine ⟨⟨delivery, fun ops running => ?_⟩, .inl ?_⟩
        · rw [set_self] at running
          exact (exec_returning returning contract running).1
        · rw [GivingUp, GivingUp, set_self, code]
          cases after : (exec config g .handler rest (system.harts g) system.memory
              op).2.1.handler with
          | none => exact (exec_returned returning contract after).symm
          | some ops => exact (exec_returning returning contract after).2
    | @software_interrupt h idle up =>
        subst own
        refine ⟨⟨delivery, fun ops running => ?_⟩, .inr ⟨idle, rfl⟩⟩
        rw [setHart_eq_set, set_self] at running
        cases running
        exact .software
    | @timer_interrupt h idle low =>
        subst own
        refine ⟨⟨delivery, fun ops running => ?_⟩, .inr ⟨idle, rfl⟩⟩
        rw [setHart_eq_set, set_self] at running
        cases running
        exact .timer config g
    | @exception h cause_value lines raises empty idle =>
        subst own
        refine ⟨⟨delivery, fun ops running => ?_⟩, .inr ⟨idle, rfl⟩⟩
        rw [setHart_eq_set, set_self] at running
        cases running
        exact .exception g cause_value lines
    | @call h ops kernel empty idle allowed =>
        subst own
        refine ⟨⟨delivery, fun ops running => ?_⟩, .inl ?_⟩
        · rw [setHart_eq_set, set_self] at running
          exact nomatch idle.symm.trans running
        · rw [GivingUp, GivingUp, setHart_eq_set, set_self]
    | @run h user_context csrs outside idle =>
        subst own
        refine ⟨⟨delivery, fun ops running => ?_⟩, .inl ?_⟩
        · rw [setHart_eq_set, set_self] at running
          exact nomatch idle.symm.trans running
        · rw [GivingUp, GivingUp, setHart_eq_set, set_self]
  · refine ⟨⟨delivery, fun ops running => ?_⟩, .inl ?_⟩
    · rw [step.frame own] at running
      exact attentive.returning ops running
    · rw [GivingUp, GivingUp, step.frame own]

/-! ## Given up, nothing is read any more -/

/-- A hart that `exception_c_handler` gives up on reads nothing. -/
theorem Attentive.reads_nothing
    (attentive : Attentive g system)
    (givingUp : GivingUp system g = true)
    (step : Step config calls system label next) :
    Mailbox.receipts [label.mail g] = [] := by
  rw [Mailbox.receipts_singleton]
  split
  · next command received =>
      obtain ⟨rfl, event⟩ := Label.of_mail_received received
      obtain ⟨ops, running, halts⟩ := Option.any_eq_true _ _ |>.mp givingUp
      obtain ⟨op, rest, rfl, -, same, -⟩ := step.running running
      obtain ⟨rfl, -⟩ := exec_received (same.symm.trans event)
      obtain rfl : rest = [] := (attentive.returning _ running).1.1
      cases halts
  · rfl

/-- A command for hart `g` is not read, and the hart reads no more. -/
structure Lost (g : Nat) (system : System config.xlen) : Prop where
  givingUp : GivingUp system g = true
  unread : (mailbox g system).unread ≠ []

theorem Attentive.stays_given_up
    (complete : ∀ h ops, calls h ops → SendsToEnd g ops)
    (attentive : Attentive g system)
    (givingUp : GivingUp system g = true)
    (step : Step config calls system label next) :
    GivingUp next g = true ∧
      (mailbox g next).unread =
        (mailbox g system).unread ++ (Mailbox.sent [label.mail g]).map Prod.snd := by
  constructor
  · rcases (attentive.step complete step).2 with same | ⟨idle, -⟩
    · exact same.trans givingUp
    · rw [GivingUp, idle] at givingUp
      cases givingUp
  · rw [attentive.delivery.balance complete step, attentive.reads_nothing givingUp step,
      List.nil_append]

/-- What is lost stays lost, and a step loses a command if it is lost after it and was
not before. -/
theorem Attentive.lost_step
    (complete : ∀ h ops, calls h ops → SendsToEnd g ops)
    (attentive : Attentive g system)
    (step : Step config calls system label next) :
    Lost g next ↔ Lost g system ∨ Loses g system label next := by
  cases before : GivingUp system g with
  | true =>
      obtain ⟨after, unread⟩ := attentive.stays_given_up complete before step
      constructor
      · rintro ⟨-, some_⟩
        by_cases empty : (mailbox g system).unread = []
        · refine .inr (.inl ⟨before, ?_⟩)
          rw [unread, empty, List.nil_append, Mailbox.sent_singleton] at some_
          split at some_
          · next sender command raised => exact ⟨command, Label.of_mail_raised raised⟩
          · exact absurd rfl some_
        · exact .inl ⟨before, empty⟩
      · rintro (⟨-, some_⟩ | ⟨-, command, raised⟩ | ⟨awake, -⟩)
        · exact ⟨after, by simp [unread, some_]⟩
        · exact ⟨after, by simp [unread, Label.mail, raised]⟩
        · cases before.symm.trans awake
  | false =>
      constructor
      · rintro ⟨after, some_⟩
        refine .inr (.inr ⟨before, after, ?_⟩)
        rcases (attentive.step complete step).2 with same | ⟨idle, rfl⟩
        · cases (after.symm.trans same).trans before
        · have balance := attentive.delivery.balance complete step
          rintro low
          have empty : (mailbox g system).unread = [] := by
            simp [Mailbox.State.unread, mailbox, low]
          rw [empty] at balance
          exact some_ balance.symm
      · rintro (⟨givingUp, -⟩ | ⟨givingUp, -⟩ | ⟨-, after, up⟩)
        · cases before.symm.trans givingUp
        · cases before.symm.trans givingUp
        · refine ⟨after, ?_⟩
          rcases (attentive.step complete step).2 with same | ⟨idle, rfl⟩
          · cases (after.symm.trans same).trans before
          · have balance := attentive.delivery.balance complete step
            have pending : (mailbox g system).unread ≠ [] := by
              simp [Mailbox.State.unread, mailbox, idle, receiverPhase, up]
            intro none_
            rw [none_, List.append_nil] at balance
            exact pending (List.append_eq_nil_iff.mp balance).1

/-! ## The next steps of the handler read -/

/-- A hart that has an unread command and is not given up on has not read it yet. -/
theorem unread_not_busy
    {command : Hart_Command config.xlen}
    (unread : (mailbox g system).unread = [command]) :
    system.memory.clint_msip g ≠ 0 ∧
      receiverPhase (system.harts g).handler ≠ .busy := by
  constructor
  · intro low
    simp [Mailbox.State.unread, mailbox, low] at unread
  · intro busy
    simp [Mailbox.State.unread, mailbox, busy] at unread

theorem due_of_idle
    {hart : HartState config.xlen}
    (idle : hart.handler = none) :
    due hart = (machineSoftwareInterrupt : List (Op config.xlen)).length + 1 := by
  rw [due, idle]

theorem due_of_leaving
    {hart : HartState config.xlen}
    (code : hart.handler = some ops)
    (leaving : handlerPhase ops = .idle) :
    due hart = ops.length +
      ((machineSoftwareInterrupt : List (Op config.xlen)).length + 1) := by
  simp only [due, code]
  rw [if_neg (by simp [leaving])]

theorem due_of_reading
    {hart : HartState config.xlen}
    (code : hart.handler = some ops)
    (reading : handlerPhase ops = .reading) :
    due hart = ops.length := by
  simp only [due, code]
  rw [if_pos reading]

/-- One operation of a handler brings the hart closer to what it has not read. -/
theorem Attentive.due_handler
    {command : Hart_Command config.xlen}
    (attentive : Attentive g system)
    (unread : (mailbox g system).unread = [command])
    (awake : GivingUp system g = false)
    (code : (system.harts g).handler = some (op :: rest)) :
    (∃ read, (exec config g .handler rest (system.harts g) system.memory op).1 =
        .received read) ∨
      due (exec config g .handler rest (system.harts g) system.memory op).2.1 + 1 ≤
        due (system.harts g) := by
  have returning := attentive.returning _ code
  rw [GivingUp, code, Option.any_some] at awake
  have notBusy := (unread_not_busy unread).2
  rw [code] at notBusy
  cases phase : handlerPhase (op :: rest) with
  | busy => exact absurd phase notBusy
  | reading =>
      have member := (attentive.delivery.reading _ code phase).1.subset
        (List.mem_cons_self ..)
      simp only [machineSoftwareInterrupt, List.mem_append, List.mem_map,
        List.mem_singleton] at member
      rcases member with ⟨field, -, rfl⟩ | rfl
      · right
        rw [due_of_reading code phase,
          due_of_reading (show (exec ..).2.1.handler = some rest from rfl) phase]
        exact Nat.le_refl _
      · exact .inl ⟨_, rfl⟩
  | idle =>
      right
      have leaves := (returning.2 phase).resolve_right (by simp [awake])
      rw [due_of_leaving code phase, List.length_cons]
      cases op with
      | csr_bitset csr mask =>
          rw [due_of_leaving (show (exec ..).2.1.handler = some rest from rfl) phase]
          omega
      | csr_bitclr csr mask =>
          rw [due_of_leaving (show (exec ..).2.1.handler = some rest from rfl) phase]
          omega
      | resume => rw [due_of_idle rfl]; omega
      | switch_to_user_context => rw [due_of_idle rfl]; omega
      | switch_to_context context => rw [due_of_idle rfl]; omega
      | _ => exact leaves.elim

/-- As long as no step loses the command, each step of the handler brings the hart closer
to it, and no other step keeps it from it. -/
theorem Attentive.due_step
    {command : Hart_Command config.xlen}
    (complete : ∀ h ops, calls h ops → SendsToEnd g ops)
    (attentive : Attentive g system)
    (unread : (mailbox g system).unread = [command])
    (awake : GivingUp system g = false)
    (step : Step config calls system label next)
    (keeps : ¬Loses g system label next) :
    (label.hart = g ∧ label.event = .received command) ∨
      (mailbox g next).unread = [command] ∧ GivingUp next g = false ∧
        (∀ other, label.mail g ≠ .received other) ∧
          due (next.harts g) + handlerSteps g [label] ≤ due (system.harts g) := by
  rcases attentive.delivery.keeps_unread complete step unread with received | ⟨kept, silent⟩
  · exact .inl received
  have up := (unread_not_busy unread).1
  have stillAwake : GivingUp next g = false := by
    by_contra givingUp
    exact keeps (.inr ⟨awake, by simpa using givingUp, up⟩)
  refine .inr ⟨kept, stillAwake, silent, ?_⟩
  by_cases own : g = label.hart
  · cases step with
    | @main h op rest idle code =>
        subst own
        have still : (exec config g .main rest (system.harts g) system.memory
            op).2.1.handler = none := exec_main_handler idle
        rw [set_self, due_of_idle still, due_of_idle idle]
        simp [handlerSteps]
    | @handler h op rest code =>
        subst own
        rw [set_self]
        rcases attentive.due_handler unread awake code with ⟨read, received⟩ | closer
        · refine absurd ?_ (silent read)
          simp [Label.mail, received]
        · simpa [handlerSteps] using closer
    | @software_interrupt h idle up =>
        subst own
        rw [setHart_eq_set, set_self, due_of_idle idle,
          due_of_reading rfl HandlerFrom.software.2]
        simp [handlerSteps]
    | @timer_interrupt h idle low =>
        subst own
        exact absurd low up
    | @exception h cause_value lines raises empty idle =>
        subst own
        rw [GivingUp, setHart_eq_set, set_self] at stillAwake
        simp [exceptionHalt, Op.givesUp] at stillAwake
    | @call h ops kernel empty idle allowed =>
        subst own
        rw [setHart_eq_set, set_self, due, due]
        simp [handlerSteps]
    | @run h user_context csrs outside idle =>
        subst own
        rw [setHart_eq_set, set_self, due, due]
        simp [handlerSteps]
  · rw [step.frame own]
    simp [handlerSteps, Ne.symm own]

/-- A hart that is not given up on has a next step towards an unread command. -/
theorem Attentive.exists_step
    {command : Hart_Command config.xlen}
    (complete : ∀ h ops, calls h ops → SendsToEnd g ops)
    (attentive : Attentive g system)
    (unread : (mailbox g system).unread = [command])
    (awake : GivingUp system g = false) :
    ∃ label next, Step config calls system label next ∧ label.hart = g ∧
      label.level = .handler ∧ ¬Loses g system label next := by
  obtain ⟨label, next, step, own, level, still⟩ : ∃ label next,
      Step config calls system label next ∧ label.hart = g ∧ label.level = .handler ∧
        GivingUp next g = false := by
    cases running : (system.harts g).handler with
    | none =>
        refine ⟨_, _, .software_interrupt running (unread_not_busy unread).1, rfl, rfl, ?_⟩
        rw [GivingUp, setHart_eq_set, set_self]
        simp [machineSoftwareInterrupt, CommandField.all, Op.givesUp]
    | some ops =>
        cases ops with
        | nil =>
            rcases (attentive.returning _ running).2 rfl with leaves | halts
            · exact leaves.elim
            · cases halts
        | cons op rest =>
            have step := @Step.handler config calls _ _ _ _ running
            refine ⟨_, _, step, rfl, rfl, ?_⟩
            rcases (attentive.step complete step).2 with same | ⟨idle, -⟩
            · rw [same, awake]
            · cases idle.symm.trans running
  refine ⟨label, next, step, own, level, ?_⟩
  rintro (⟨givingUp, -⟩ | ⟨-, givingUp, -⟩)
  · cases awake.symm.trans givingUp
  · cases still.symm.trans givingUp

theorem due_pos (hart : HartState config.xlen) : 0 < due hart := by
  cases code : hart.handler with
  | none =>
      rw [due_of_idle code]
      omega
  | some ops =>
      simp only [due, code]
      split_ifs with reading
      · rw [List.length_pos_iff]
        rintro rfl
        cases reading
      · omega

/-- Steps of the target alone read an unread command. -/
theorem Attentive.readable
    {command : Hart_Command config.xlen}
    (complete : ∀ h ops, calls h ops → SendsToEnd g ops)
    (attentive : Attentive g system)
    (unread : (mailbox g system).unread = [command])
    (awake : GivingUp system g = false) :
    ∃ later next, Run (Step config calls) system later next ∧
      (∀ label ∈ later, label.hart = g) ∧ readBy g later = [command] := by
  induction measure : due (system.harts g) using Nat.strongRecOn generalizing system with
  | ind n inductionHypothesis =>
      obtain ⟨label, next, step, own, level, keeps⟩ :=
        attentive.exists_step complete unread awake
      rcases attentive.due_step complete unread awake step keeps with
        ⟨-, event⟩ | ⟨kept, stillAwake, silent, closer⟩
      · refine ⟨[label], next, .single step, by simp [own], ?_⟩
        simp [readBy, Label.mail, event, own]
      · have one : handlerSteps g [label] = 1 := by
          simp [handlerSteps, own, level]
        obtain ⟨later, last, path, alone, read⟩ := inductionHypothesis _ (by omega)
          (attentive.step complete step).1 kept stillAwake rfl
        refine ⟨label :: later, last, path.cons step, ?_, ?_⟩
        · rintro other (_ | ⟨_, member⟩)
          · exact own
          · exact alone other member
        · have nothing : Mailbox.receipts [label.mail g] = [] := by
            rw [Mailbox.receipts_singleton]
            split
            · next other received => exact absurd received (silent other)
            · rfl
          rw [readBy, List.map_cons, ← List.singleton_append, Mailbox.receipts_append,
            nothing, List.nil_append]
          exact read

theorem handlerSteps_append (left right : List (Label config.xlen)) :
    handlerSteps g (left ++ right) = handlerSteps g left + handlerSteps g right :=
  List.countP_append

theorem readBy_append (left right : List (Label config.xlen)) :
    readBy g (left ++ right) = readBy g left ++ readBy g right := by
  rw [readBy, List.map_append, Mailbox.receipts_append]
  rfl

/-- Whatever the harts do, the next steps of the handler of the target read an unread
command. -/
theorem Attentive.soon
    {command : Hart_Command config.xlen}
    {later : List (Label config.xlen)}
    (complete : ∀ h ops, calls h ops → SendsToEnd g ops)
    (attentive : Attentive g system)
    (unread : (mailbox g system).unread = [command])
    (awake : GivingUp system g = false)
    (run : Run (fun before label after =>
      Step config calls before label after ∧ ¬Loses g before label after) system later next)
    (enough : due (system.harts g) ≤ handlerSteps g later) :
    command ∈ readBy g later := by
  have closer := run.invariant_history
    (fun history current => Attentive g current ∧ (command ∈ readBy g history ∨
      (mailbox g current).unread = [command] ∧ GivingUp current g = false ∧
        due (current.harts g) + handlerSteps g history ≤ due (system.harts g)))
    (by
      rintro history before label after ⟨step, keeps⟩ ⟨attends, waits⟩
      refine ⟨(attends.step complete step).1, ?_⟩
      rw [readBy_append, handlerSteps_append]
      rcases waits with read | ⟨pending, alert, near⟩
      · exact .inl (List.mem_append_left _ read)
      · rcases attends.due_step complete pending alert step keeps with
          ⟨own, event⟩ | ⟨kept, still, -, nearer⟩
        · exact .inl (List.mem_append_right _ (by simp [readBy, Label.mail, event, own]))
        · exact .inr ⟨kept, still, by omega⟩)
    ⟨attentive, .inr ⟨unread, awake, by simp [handlerSteps]⟩⟩
  refine closer.2.resolve_right ?_
  rintro ⟨-, -, near⟩
  have positive := due_pos (next.harts g)
  omega

/-! ## Runs -/

theorem Attentive.run
    {labels : List (Label config.xlen)}
    (complete : ∀ h ops, calls h ops → SendsToEnd g ops)
    (attentive : Attentive g system)
    (run : Run (Step config calls) system labels next) :
    Attentive g next :=
  run.invariant (fun step before => (before.step complete step).1) attentive

/-- A hart that is given up on reads nothing in any run. -/
theorem Attentive.run_reads_nothing
    {later : List (Label config.xlen)}
    (complete : ∀ h ops, calls h ops → SendsToEnd g ops)
    (attentive : Attentive g system)
    (givingUp : GivingUp system g = true)
    (run : Run (Step config calls) system later next) :
    readBy g later = [] := by
  have silent := run.invariant_history
    (fun history current => (Attentive g current ∧ GivingUp current g = true) ∧
      readBy g history = [])
    (fun {history before label after} step ⟨⟨attends, given⟩, nothing⟩ => by
      refine ⟨⟨(attends.step complete step).1,
        (attends.stays_given_up complete given step).1⟩, ?_⟩
      rw [readBy_append, nothing]
      exact attends.reads_nothing given step)
    ⟨⟨attentive, givingUp⟩, rfl⟩
  exact silent.2

/-- A command is lost at the end of a run if and only if a step has lost one. -/
theorem Attentive.lost_iff
    {labels : List (Label config.xlen)}
    (complete : ∀ h ops, calls h ops → SendsToEnd g ops)
    (attentive : Attentive g system)
    (found : ¬Lost g system)
    (run : Run (Step config calls) system labels next) :
    Lost g next ↔ Occurs (Step config calls) (Loses g) system labels next := by
  constructor
  · intro lost
    refine (run.occurs_or_waits (Attentive g) (fun current => ¬Lost g current)
      (fun step before => (before.step complete step).1) ?_ attentive found).resolve_right
        (not_not.mpr lost)
    intro before label after step attends found
    by_cases loses : Loses g before label after
    · exact .inl loses
    · exact .inr fun lost =>
        ((attends.lost_step complete step).mp lost).elim found loses
  · intro occurs
    induction occurs with
    | now path step loses =>
        exact ((attentive.run complete path).lost_step complete step).mpr (.inr loses)
    | later before step inductionHypothesis =>
        exact ((attentive.run complete before.run).lost_step complete step).mpr
          (.inl (inductionHypothesis before.run))

theorem Unsent.attentive
    (unsent : Unsent config system)
    (g : Nat) :
    Attentive g system := by
  refine ⟨unsent.delivery g, fun ops running => ?_⟩
  rcases unsent.handler g with none_ | resumes
  · exact nomatch none_.symm.trans running
  · cases resumes.symm.trans running
    exact .resume

theorem Unsent.not_lost
    (unsent : Unsent config system)
    (g : Nat) :
    ¬Lost g system := by
  rintro ⟨-, unread⟩
  exact unread (by simp [Mailbox.State.unread, mailbox, unsent.msip])

theorem Step.widen
    {wider : Nat → List (Op config.xlen) → Prop}
    (allowed : ∀ h ops, calls h ops → wider h ops)
    (step : Step config calls system label next) :
    Step config wider system label next := by
  cases step with
  | main idle code => exact .main idle code
  | handler code => exact .handler code
  | software_interrupt idle up => exact .software_interrupt idle up
  | timer_interrupt idle low => exact .timer_interrupt idle low
  | exception raises empty idle => exact .exception raises empty idle
  | call kernel empty idle code => exact .call kernel empty idle (allowed _ _ code)
  | run outside idle => exact .run outside idle

/-- In every run, the commands sent to hart `g` are read once, as they were sent and in
the order in which their senders took the lock, if and only if no step loses one. -/
theorem commands_delivered
    {first last : System config.xlen}
    {labels : List (Label config.xlen)}
    (unsent : Unsent config first)
    (run : Run (Step config (SendingCode config)) first labels last)
    (g : Nat) :
    Delivered config g labels last ↔
      ¬Occurs (Step config (SendingCode config)) (Loses g) first labels last := by
  have attentive := (unsent.attentive g).run SendingCode.complete run
  rw [← (unsent.attentive g).lost_iff SendingCode.complete (unsent.not_lost g) run]
  constructor
  · rintro delivered ⟨givingUp, unread⟩
    obtain ⟨command, pending⟩ := List.exists_mem_of_ne_nil _ unread
    obtain ⟨later, next, path, -, read⟩ := delivered.readable command pending
    rw [attentive.run_reads_nothing SendingCode.complete givingUp path] at read
    cases read
  · intro found
    have mailRun := ((unsent.delivery g).run SendingCode.complete run).1
    obtain ⟨⟨received, holder, order, holds⟩, -⟩ :=
      Mailbox.ordered_of_run mailRun (unsent.quiet g)
    have alert (command : Hart_Command config.xlen)
        (pending : command ∈ (mailbox g last).unread) :
        (mailbox g last).unread = [command] ∧ GivingUp last g = false := by
      constructor
      · obtain ⟨only, same⟩ := List.length_eq_one_iff.mp (Nat.le_antisymm
          (Mailbox.State.unread_length (mailbox g last)) (List.length_pos_of_mem pending))
        rw [same] at pending ⊢
        rw [List.mem_singleton.mp pending]
      · by_contra givingUp
        exact found ⟨by simpa using givingUp, List.ne_nil_of_mem pending⟩
    refine ⟨received, Mailbox.State.unread_length _, ⟨holder, holds.short, order⟩, ?_, ?_⟩
    · intro command pending
      obtain ⟨unread, awake⟩ := alert command pending
      exact attentive.readable SendingCode.complete unread awake
    · intro command pending later next path enough
      obtain ⟨unread, awake⟩ := alert command pending
      exact attentive.soon SendingCode.complete unread awake path enough

end Steps

/-- A run without a hart that is given up on at its end has lost nothing. -/
theorem Attentive.keeps
    {config : Config}
    {g : Nat}
    {first last : System config.xlen}
    {labels : List (Label config.xlen)}
    {calls : Nat → List (Op config.xlen) → Prop}
    (complete : ∀ h ops, calls h ops → SendsToEnd g ops)
    (attentive : Attentive g first)
    (awake : GivingUp last g = false)
    (run : Run (Step config calls) first labels last) :
    ¬Occurs (Step config calls) (Loses g) first labels last := by
  have begins : GivingUp first g = false := by
    by_contra given
    have stays := run.invariant_history
      (fun _ current => Attentive g current ∧ GivingUp current g = true)
      (fun step before => ⟨(before.1.step complete step).1,
        (before.1.stays_given_up complete before.2 step).1⟩)
      ⟨attentive, by simpa using given⟩
    cases awake.symm.trans stays.2
  rw [← attentive.lost_iff complete (fun lost => by cases begins.symm.trans lost.givingUp) run]
  exact fun lost => by cases awake.symm.trans lost.givingUp

set_option maxRecDepth 8000 in
/-- The kernel on hart 0 starts hart 1, which reads the command. -/
theorem commands_delivered_booted :
    ∃ labels last,
      Run (Step twoHartBoard (SendingCode twoHartBoard)) (bootSystem twoHartBoard)
        labels last ∧
      (sentTo 1 labels).length = 1 ∧ (readBy 1 labels).length = 1 ∧
      Delivered twoHartBoard 1 labels last := by
  obtain ⟨labels, last, played, -, reached⟩ := @play_reaches
    twoHartBoard (bootSystem twoHartBoard) (bootSchedule ++ startSchedule)
    (fun labels last => (sentTo 1 labels).length = 1 &&
      ((readBy 1 labels).length = 1 && !GivingUp last 1))
    (by decide)
  simp only [Bool.and_eq_true, decide_eq_true_eq, Bool.not_eq_true'] at reached
  obtain ⟨sent, read, awake⟩ := reached
  have run : Run (Step twoHartBoard (SendingCode twoHartBoard)) (bootSystem twoHartBoard)
      labels last :=
    played.mono fun step => step.widen fun _ _ code => .inl code
  have unsent := (bootSystem_booted twoHartBoard).unsent
  exact ⟨labels, last, run, sent, read, (commands_delivered unsent run 1).mpr
    ((unsent.attentive 1).keeps SendingCode.complete awake run)⟩

/-- Hart 1 is started, its kernel stops it, and the parked hart executes address 0;
then hart 0 sends to it. -/
def stoppedSchedule : List (Move twoHartBoard.xlen) :=
  bootSchedule ++ startSchedule ++ .call 1 .hart_stop :: List.replicate 9 (.advance 1) ++
    .fault 1 1 :: List.replicate 5 (.advance 1) ++
      .call 0 (.mask .sendIpi 2#_ 0#_ fun _ => .cleared) :: List.replicate 15 (.advance 0)

set_option maxRecDepth 8000 in
theorem not_commands_delivered :
    ¬∀ first labels last g, Booted twoHartBoard first →
      Run (Step twoHartBoard (sbiCalls twoHartBoard)) first labels last →
        ∃ later next, Run (Step twoHartBoard (sbiCalls twoHartBoard)) last later next ∧
          (sentTo g labels).map Prod.snd <+: readBy g (labels ++ later) := by
  intro always
  obtain ⟨labels, last, run, -, reached⟩ := @play_reaches
    twoHartBoard (bootSystem twoHartBoard) stoppedSchedule
    (fun labels last => (sentTo 1 labels).length = 2 &&
      ((readBy 1 labels).length = 1 && GivingUp last 1))
    (by decide)
  simp only [Bool.and_eq_true, decide_eq_true_eq] at reached
  obtain ⟨sent, read, givingUp⟩ := reached
  have booted := bootSystem_booted twoHartBoard
  obtain ⟨later, next, path, all⟩ := always _ labels last 1 booted run
  have complete (h : Nat) (ops : List (Op twoHartBoard.xlen))
      (code : sbiCalls twoHartBoard h ops) : SendsToEnd 1 ops :=
    SendingCode.complete h ops (.inl code)
  have attentive := (booted.unsent.attentive 1).run complete run
  have length := all.length_le
  rw [readBy_append, attentive.run_reads_nothing complete givingUp path, List.append_nil,
    List.length_map, sent, read] at length
  omega

end Harts
end EchelonSbi
