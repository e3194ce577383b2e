import EchelonSbi.Harts.Management
import EchelonSbi.Harts.Schedule

/-!
# The release of the command locks

A command lock is held by a hart inside `send_hart_command_que`, which releases
it unless the hart never comes back there.  A start command is the only reason
not to come back, and it reaches only harts with nothing left to do, or the
boot hart between the raise and the release of its own start.
-/

namespace EchelonSbi
namespace Harts

open Foundation
open Sbi

variable {xlen : Xlen}

/-- The start branch leaves for the kernel on a hart whose interrupted code is
about to release the command lock of the hart itself. -/
def AbandonsOwnSend (system : System xlen) (label : Label xlen) : Prop :=
  (∃ context csrs, label.event = .entered context csrs) ∧
    ∃ rest, (system.harts label.hart).main =
      .post (.hart_command_que_locks label.hart) :: rest

section

variable {config : Config} {system next : System config.xlen}
  {label : Label config.xlen} {started : Bool} {g : Nat}

/-- Only the last operation of the start branch enters S-mode. -/
theorem exec_entered
    {h : Nat}
    {level : Level}
    {hart : HartState config.xlen}
    {memory : Memory config.xlen}
    {op : Op config.xlen}
    {rest : List (Op config.xlen)}
    {context : CPU_Context config.xlen}
    {csrs : Csr → Word config.xlen}
    (entered : (exec config h level rest hart memory op).1 =
      .entered context csrs) :
    op = .switch_to_user_context ∧ context = hart.user_context ∧
      csrs = hart.csrs := by
  cases op with
  | switch_to_user_context => cases entered; exact ⟨rfl, rfl, rfl⟩
  | wait_load lock => simp only [exec] at entered; split_ifs at entered
  | wait_swap lock =>
      simp only [exec] at entered
      split_ifs at entered
      cases lock <;> cases entered
  | poll t => simp only [exec] at entered; split_ifs at entered
  | check_hart_state t command =>
      simp only [exec] at entered
      split_ifs at entered
  | _ => cases entered

theorem exec_switched
    {h : Nat}
    {level : Level}
    {hart : HartState config.xlen}
    {memory : Memory config.xlen}
    {op : Op config.xlen}
    {rest : List (Op config.xlen)}
    {context : Word config.xlen}
    (switched : (exec config h level rest hart memory op).1 =
      .switched context) :
    op = .switch_to_context context := by
  cases op with
  | switch_to_context other => cases switched; rfl
  | wait_load lock => simp only [exec] at switched; split_ifs at switched
  | wait_swap lock =>
      simp only [exec] at switched
      split_ifs at switched
      cases lock <;> cases switched
  | poll t => simp only [exec] at switched; split_ifs at switched
  | check_hart_state t command =>
      simp only [exec] at switched
      split_ifs at switched
  | _ => cases switched

/-- No hart switches to a context that it was sent. -/
theorem Managed.not_switched
    {context : Word config.xlen}
    (managed : Managed started system)
    (step : Step config (sbiCalls config) system label next) :
    label.event ≠ .switched context := by
  intro switches
  cases step with
  | @main k op rest idle code =>
      cases exec_switched switches
      have contract := managed.main 0 k
      rw [code] at contract
      exact contract.1.2.elim
  | @handler k op rest code =>
      cases exec_switched switches
      exact (managed.handler k _ code).1.elim
  | _ => cases switches

/-- Where a hart enters S-mode, its start branch ends. -/
theorem Managed.entered
    {context : CPU_Context config.xlen}
    {csrs : Csr → Word config.xlen}
    (managed : Managed started system)
    (step : Step config (sbiCalls config) system label next)
    (enters : label.event = .entered context csrs) :
    (∃ rest, (system.harts label.hart).handler =
        some (.switch_to_user_context :: rest)) ∧
      context = (system.harts label.hart).user_context ∧
        csrs = (system.harts label.hart).csrs := by
  cases step with
  | @main k op rest idle code =>
      obtain ⟨rfl, same⟩ := exec_entered enters
      have contract := managed.main 0 k
      rw [code] at contract
      exact contract.1.2.elim
  | @handler k op rest code =>
      obtain ⟨rfl, same⟩ := exec_entered enters
      exact ⟨⟨rest, code⟩, same⟩
  | _ => cases enters

/-- A step drops no sender, unless it abandons the own send of a hart. -/
theorem Managed.drops_no_sender
    {k : Nat}
    (managed : Managed started system)
    (step : Step config (sbiCalls config) system label next)
    (regular : ¬AbandonsOwnSend system label)
    (abandons : label.mail g = .abandoned k) :
    (mailbox g system).sender k = .out := by
  have event : k = label.hart ∧
      ∃ context csrs, label.event = .entered context csrs := by
    unfold Label.mail at abandons
    split at abandons
    · split_ifs at abandons
    · split_ifs at abandons
    · split_ifs at abandons
    · next context csrs event =>
        cases abandons
        exact ⟨rfl, context, csrs, event⟩
    · next context event => exact absurd event (managed.not_switched step)
    · cases abandons
  obtain ⟨rfl, context, csrs, enters⟩ := event
  obtain ⟨⟨rest, code⟩, -⟩ := managed.entered step enters
  have awake : handlerWake label.hart (system.harts label.hart).handler ≠
      none := by
    rw [code]
    simp [handlerWake]
  rcases managed.asleep label.hart awake with empty | parks | posts
  · simp [mailbox, empty]
  · simp [mailbox, parks]
  · exact absurd ⟨⟨context, csrs, enters⟩, [], posts⟩ regular

/-- Along every run from boot in which no step abandons the own send of a hart,
a command lock that no hart is about to release is free. -/
theorem command_locks_released
    {first last : System config.xlen}
    {labels : List (Label config.xlen)}
    (booted : Booted config first)
    (run : Run (fun before label after =>
      Step config (sbiCalls config) before label after ∧
        ¬AbandonsOwnSend before label) first labels last)
    (g : Nat)
    (outside : ∀ k, sendPhase g (last.harts k).main = .out) :
    last.memory.locks (.hart_command_que_locks g) = 0 := by
  have kept := run.invariant_history
    (fun history current => Managed (history.any Label.boots) current ∧
      Mailbox.Held (mailbox g current))
    (fun {history _ label _} ⟨taken, regular⟩ ⟨managed, held⟩ => by
      have moved := (managed.delivery g).step
        (fun h ops code => SendingCode.complete h ops (.inl code)) taken
      refine ⟨?_, held.step
        (fun k => managed.drops_no_sender taken regular) moved.1⟩
      rw [List.any_append]
      simpa using (managed.step taken).2)
    ⟨by simpa using booted.managed, by
      intro locked
      simp [mailbox, booted.locks] at locked⟩
  by_contra taken
  obtain ⟨k, inside⟩ := kept.2 (by simpa [mailbox] using taken)
  exact inside (outside k)

/-- A hart that enters S-mode has left nothing behind. -/
def entersFree (system : System xlen) (label : Label xlen) : Bool :=
  match label.event with
  | .entered _ _ => (system.harts label.hart).main.isEmpty
  | _ => true

theorem not_abandons_of_entersFree
    {label : Label xlen}
    {system : System xlen}
    (free : entersFree system label = true) :
    ¬AbandonsOwnSend system label := by
  rintro ⟨⟨context, csrs, enters⟩, rest, main⟩
  rw [entersFree, enters] at free
  rw [List.isEmpty_iff.mp free] at main
  cases main

/-- Where only the boot hart has moved and has nothing left to do, nobody sends. -/
theorem outside_of_frame
    {last : System config.xlen}
    {moves : List (Move config.xlen)}
    (alone : ∀ move ∈ moves, move.hart = 0)
    (frame : ∀ k, (∀ move ∈ moves, move.hart ≠ k) →
      last.harts k = (bootSystem config).harts k)
    (empty : (last.harts 0).main = [])
    (g k : Nat) :
    sendPhase g (last.harts k).main = .out := by
  by_cases boot : k = 0
  · rw [boot, empty]
    rfl
  · rw [frame k fun move member same => boot (same.symm.trans (alone move member))]
    simp [bootSystem, boot]

set_option maxRecDepth 4000 in
/-- The boot hart takes and releases its command lock, is interrupted and enters the
kernel. -/
theorem command_locks_released_booted :
    ∃ labels last,
      Run (fun before label after =>
        Step twoHartBoard (sbiCalls twoHartBoard) before label after ∧
          ¬AbandonsOwnSend before label) (bootSystem twoHartBoard) labels last ∧
      lockOrder 0 labels = [0] ∧ (last.harts 0).base = .kernel ∧
      last.memory.locks (.hart_command_que_locks 0) = 0 := by
  have played : (play twoHartBoard bootSchedule (bootSystem twoHartBoard)).any
      (fun result => (result.2.harts 0).main.isEmpty && (lockOrder 0 result.1 = [0] &&
        (result.2.harts 0).base = .kernel)) = true := by
    decide
  obtain ⟨⟨labels, last⟩, result, reached⟩ := Option.any_eq_true _ _ |>.mp played
  obtain ⟨empty, shown⟩ := Bool.and_eq_true_iff.mp reached
  obtain ⟨taken, kernel⟩ := Bool.and_eq_true_iff.mp shown
  have run := (play_run_passes result (show passes twoHartBoard entersFree bootSchedule
    (bootSystem twoHartBoard) = true by decide)).mono
      fun step => And.imp_right not_abandons_of_entersFree step
  refine ⟨labels, last, run, of_decide_eq_true taken, of_decide_eq_true kernel, ?_⟩
  have alone : ∀ move ∈ bootSchedule, move.hart = 0 := by
    simp [bootSchedule, Move.hart]
  exact command_locks_released (bootSystem_booted twoHartBoard) run 0
    (outside_of_frame alone (play_run result).2 (List.isEmpty_iff.mp empty) 0)

/-- The boot hart takes the interrupt of its own start before it has released
its command lock. -/
def selfStartSchedule : List (Move twoHartBoard.xlen) :=
  List.replicate 17 (.advance 0) ++ .interrupt 0 :: List.replicate 66 (.advance 0)

set_option maxRecDepth 4000 in
theorem not_command_locks_released :
    ¬∀ first labels last g,
      Booted twoHartBoard first →
        Run (Step twoHartBoard (sbiCalls twoHartBoard)) first labels last →
          (∀ k, sendPhase g (last.harts k).main = .out) →
            last.memory.locks (.hart_command_que_locks g) = 0 := by
  intro always
  have played : (play twoHartBoard selfStartSchedule
      (bootSystem twoHartBoard)).any (fun result =>
        (result.2.harts 0).main.isEmpty ∧
          result.2.memory.locks (.hart_command_que_locks 0) = 1) = true := by
    decide
  obtain ⟨labels, last, run, frame, reached⟩ := play_reaches
    (fun _ last => (last.harts 0).main.isEmpty ∧
      last.memory.locks (.hart_command_que_locks 0) = 1) played
  obtain ⟨empty, leaked⟩ := of_decide_eq_true reached
  have alone : ∀ move ∈ selfStartSchedule, move.hart = 0 := by
    simp [selfStartSchedule, Move.hart]
  have outside := outside_of_frame alone frame (List.isEmpty_iff.mp empty) 0
  have free := always _ labels last 0 (bootSystem_booted twoHartBoard) run outside
  cases leaked.symm.trans free

end

end Harts
end EchelonSbi
