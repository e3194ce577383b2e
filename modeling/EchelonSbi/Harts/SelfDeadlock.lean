import EchelonSbi.Harts.CommandLocks
import EchelonSbi.Harts.Operations

/-!
# No hart waits for a lock that it took below

A handler runs on top of the code it interrupted, which cannot release a lock
before the handler is done, and never does once the start branch has left for
the kernel.  The start branch is the only handler that waits for locks, and it
runs where the code below holds none of those.
-/

namespace EchelonSbi
namespace Harts

open Foundation
open Sbi

variable {xlen : Xlen}

/-- Code that has taken `lock` and has not released it. -/
@[simp]
def Holds (lock : Lock) : List (Op xlen) → Prop
  | [] => False
  | .wait_load other :: rest => other ≠ lock ∧ Holds lock rest
  | .wait_swap other :: rest => other ≠ lock ∧ Holds lock rest
  | .post other :: rest => other = lock ∨ Holds lock rest
  | .check_hart_state t _ :: rest => lock = .sbi_hsm_locks t ∨ Holds lock rest
  | _ :: rest => Holds lock rest

/-- The operation is a part of `ksem_wait` on `lock`. -/
@[simp]
def Op.WaitsFor (lock : Lock) : Op xlen → Prop
  | .wait_load other => other = lock
  | .wait_swap other => other = lock
  | _ => False

/-- Code that ends in `idle_loop`. -/
def Halts (ops : List (Op xlen)) : Prop :=
  .halt_not_handled ∈ ops ∨ .halt_exception ∈ ops

/-- The firmware code that a hart executes next. -/
def HartState.running (hart : HartState xlen) : List (Op xlen) :=
  hart.handler.getD hart.main

/-- A system, and for each hart the code that handlers have interrupted and
that was not resumed, latest first. -/
structure Traced (xlen : Xlen) where
  system : System xlen
  interrupted : Nat → List (List (Op xlen))

/-- What a step makes of the interrupted code of the hart that takes it. -/
def interruptedAfter
    (before after : HartState xlen) (event : Event xlen)
    (codes : List (List (Op xlen))) : List (List (Op xlen)) :=
  match event with
  | .interrupted => before.main :: codes
  | .entered _ _ => codes
  | .switched _ => codes
  | _ =>
      if before.handler.isSome ∧ after.handler.isNone then codes.tail else codes

/-- A step of the system that keeps the books. -/
inductive TracedStep (config : Config) :
    Traced config.xlen → Label config.xlen → Traced config.xlen → Prop
  | step {before after : System config.xlen} {label : Label config.xlen}
      {codes : Nat → List (List (Op config.xlen))} :
      Step config (sbiCalls config) before label after →
      TracedStep config ⟨before, codes⟩ label
        ⟨after, Function.update codes label.hart
          (interruptedAfter (before.harts label.hart) (after.harts label.hart)
            label.event (codes label.hart))⟩

/-- The books at boot. -/
def Traced.boot (system : System xlen) : Traced xlen where
  system := system
  interrupted h :=
    if (system.harts h).handler.isSome then [(system.harts h).main] else []

/-- Interrupted code of hart `h` that is never resumed: nothing, the end of a
parking, or the end of the start that `kmain` sends to its own hart. -/
def Left (h : Nat) (code : List (Op xlen)) : Prop :=
  code = [] ∨ code = [.switch_to_hart_context] ∨
    code = [.post (.hart_command_que_locks h)]

/-- Code that does not send to hart `h`. -/
@[simp]
def Op.Spares (h : Nat) : Op xlen → Prop
  | .wait_load lock => lock ≠ .hart_command_que_locks h
  | .wait_swap lock => lock ≠ .hart_command_que_locks h
  | .check_hart_state t _ => t ≠ h
  | _ => True

/-- A handler that waits is in the start branch, or on its way to
`idle_loop`. -/
def WaitsInStart (h : Nat) (op : Op xlen) (rest : List (Op xlen)) : Prop :=
  ∀ lock, op.WaitsFor lock → wakeStage h (op :: rest) ≠ none ∨ Halts rest

theorem Left.not_holds
    {h : Nat}
    {lock : Lock}
    {code : List (Op xlen)}
    (left : Left h code)
    (other : lock ≠ .hart_command_que_locks h) :
    ¬Holds lock code := by
  rcases left with rfl | rfl | rfl
  · simp
  · simp
  · simpa using other.symm

/-! ## Calls do not send to their own hart -/

section Calls

variable {h t : Nat}

theorem Op.Local.spares {op : Op xlen} (local_ : op.Local) : op.Spares h := by
  cases op <;> simp_all [Op.Local]

theorem printm_spares (text : String) :
    ∀ op ∈ (printm text : List (Op xlen)), op.Spares h :=
  fun op member => (printm_local text op member).spares

theorem prints_spares (lines : List String) :
    ∀ op ∈ (lines.flatMap printm : List (Op xlen)), op.Spares h :=
  fun op member => (prints_local lines op member).spares

theorem send_spares
    {command : Hart_Command xlen}
    (other : t ≠ h) :
    ∀ op ∈ send_hart_command_que t command, op.Spares h := by
  intro op member
  simp only [send_hart_command_que, copy_command, CommandField.all, ksem_wait,
    ksem_post, List.map_cons, List.map_nil, List.cons_append, List.nil_append,
    List.mem_cons, List.not_mem_nil, or_false] at member
  rcases member with rfl | rfl | rfl | rfl | rfl | rfl | rfl | rfl | rfl | rfl |
    rfl | rfl | rfl | rfl <;> simp [other]

theorem startRefused_spares :
    ∀ op ∈ (startRefused t : List (Op xlen)), op.Spares h := by
  intro op member
  simp only [startRefused, ksem_post, List.append_assoc, List.mem_append,
    List.mem_singleton] at member
  rcases member with printed | rfl | rfl
  · exact printm_spares _ op printed
  · trivial
  · trivial

theorem startAccepted_spares
    {command : Hart_Command xlen}
    (other : t ≠ h) :
    ∀ op ∈ startAccepted t command, op.Spares h := by
  intro op member
  simp only [startAccepted, ksem_post, List.append_assoc, List.mem_append,
    List.mem_singleton] at member
  rcases member with rfl | rfl | sends | rfl
  · trivial
  · trivial
  · exact send_spares other op sends
  · trivial

theorem goDown_spares (state : SBI_HSM) :
    ∀ op ∈ (goDown t state : List (Op xlen)), op.Spares h := by
  simp [goDown, ksem_wait, ksem_post]

theorem masked_spares
    {platform : Platform}
    {hart_mask hart_mask_base : Word platform.xlen}
    {stack : Word platform.xlen → Hart_Command platform.xlen}
    (call : HartMaskCall platform.xlen) :
    ∀ op ∈ maskedOps (call.run platform (BitVec.ofNat _ h) stack hart_mask
      hart_mask_base), op.Spares h := by
  intro op member
  rw [maskedOps, HartMaskCall.run_eq] at member
  simp only [List.mem_append, List.mem_singleton] at member
  rcases member with (printed | acts) | rfl
  · exact prints_spares _ op printed
  · obtain ⟨action, inside, here⟩ := List.mem_flatMap.mp acts
    split_ifs at inside
    · obtain ⟨hartid, -, rfl⟩ := List.mem_map.mp inside
      by_cases own : hartid = BitVec.ofNat _ h
      · rw [HartMaskCall.actionFor, if_pos own] at here
        cases call <;>
          simp only [HartMaskCall.localAction, actionOps, List.mem_singleton]
            at here <;> subst here <;> trivial
      · rw [HartMaskCall.actionFor, if_neg own] at here
        refine send_spares (fun same => own ?_) op here
        rw [← same, BitVec.ofNat_toNat, BitVec.setWidth_eq]
    · cases inside
  · trivial

/-- No call sends to the hart that makes it. -/
theorem call_spares
    (platform : Platform)
    (request : Request platform.xlen) :
    ∀ op ∈ call_to_sbi platform h request, op.Spares h := by
  cases request with
  | mask call hart_mask hart_mask_base stack => exact masked_spares call
  | hart_start hartid start_addr opaque_ stack =>
      intro op member
      rw [call_to_sbi, sbi_hart_start] at member
      split_ifs at member with invalid unmapped own
      · rcases List.mem_append.mp member with printed | final
        · exact printm_spares _ op printed
        · simp_all
      · rcases List.mem_append.mp member with printed | final
        · exact printm_spares _ op printed
        · simp_all
      · rcases List.mem_append.mp member with printed | final
        · exact printm_spares _ op printed
        · simp_all
      · simp only [ksem_wait, List.cons_append, List.nil_append, List.mem_cons,
          List.not_mem_nil, or_false] at member
        rcases member with rfl | rfl | rfl <;> simp [own]
  | hart_stop =>
      intro op member
      rcases List.mem_append.mp member with printed | down
      · exact printm_spares _ op printed
      · exact goDown_spares _ op down
  | hart_get_status hartid =>
      intro op member
      rcases List.mem_append.mp member with printed | final
      · exact printm_spares _ op printed
      · split_ifs at final <;> simp_all
  | hart_suspend suspend_type resume_addr opaque_ =>
      intro op member
      rcases List.mem_append.mp member with printed | final
      · exact printm_spares _ op printed
      · split_ifs at final
        · simp_all
        · rcases List.mem_append.mp final with written | down
          · simp only [List.mem_cons, List.not_mem_nil, or_false] at written
            rcases written with rfl | rfl | rfl <;> trivial
          · exact goDown_spares _ op down
        · simp_all
  | other printed ret =>
      intro op member
      rcases List.mem_append.mp member with lines | final
      · exact prints_spares _ op lines
      · simp_all

end Calls

/-! ## Which handlers wait -/

section Handlers

variable {h : Nat} {left rest : List (Op xlen)}

theorem WaitsInStart.of_not_waits
    {op : Op xlen}
    (quiet : ∀ lock, ¬op.WaitsFor lock) :
    WaitsInStart h op rest :=
  fun lock waits => absurd waits (quiet lock)

/-- Code that does not wait. -/
theorem waitsInStart_quiet
    {ops : List (Op xlen)}
    (quiet : ∀ op ∈ ops, ∀ lock, ¬op.WaitsFor lock) :
    EverySuffix (WaitsInStart h) ops := by
  induction ops with
  | nil => trivial
  | cons op ops inductionHypothesis =>
      exact ⟨.of_not_waits (quiet op (by simp)),
        inductionHypothesis fun other member => quiet other (by simp [member])⟩

/-- Code in front of a halt. -/
theorem waitsInStart_halts
    {ops : List (Op xlen)}
    (halts : Halts rest)
    (after : EverySuffix (WaitsInStart h) rest) :
    EverySuffix (WaitsInStart h) (ops ++ rest) := by
  induction ops with
  | nil => exact after
  | cons op ops inductionHypothesis =>
      refine ⟨fun lock waits => .inr ?_, inductionHypothesis⟩
      exact halts.imp (List.mem_append_right _) (List.mem_append_right _)

/-- Code of the start branch in front of the wait for the own state lock. -/
def WaitsAwake (h : Nat) (ops : List (Op xlen)) : Prop :=
  EverySuffix (WaitsInStart h) ops ∧ wakeStage h ops ≠ none

theorem WaitsAwake.locals
    {ops : List (Op xlen)}
    (locals : ∀ op ∈ ops, op.Local)
    (after : WaitsAwake h rest) :
    WaitsAwake h (ops ++ rest) := by
  induction ops with
  | nil => exact after
  | cons op ops inductionHypothesis =>
      obtain ⟨kept, awake⟩ := inductionHypothesis fun other member =>
        locals other (by simp [member])
      have here : wakeStage h ((op :: ops) ++ rest) ≠ none := by
        have local_ := locals op (by simp)
        cases op <;> simp_all [Op.Local]
      exact ⟨⟨fun lock waits => .inl here, kept⟩, here⟩

theorem waitsInStart_handle
    (config : Config)
    (command : Hart_Command config.xlen) :
    EverySuffix (WaitsInStart h) (handleCommand config h command) := by
  unfold handleCommand
  split_ifs
  · exact waitsInStart_quiet (by simp)
  · rw [handleStart]
    simp only [List.append_assoc]
    have fixes : ∀ op ∈ (if config.MM_QEMU_VIRT then qemuFixes config h else []),
        op.Local := by
      split_ifs
      · exact qemuFixes_local config h
      · simp
    refine (WaitsAwake.locals (printm_local _) (.locals fixes
      (.locals (startContext_local h command) ?_))).1
    constructor <;> simp [ksem_wait, ksem_post, WaitsInStart]
  · exact waitsInStart_quiet (by simp)
  · exact waitsInStart_quiet (by simp)
  · exact waitsInStart_quiet (by simp)
  · exact waitsInStart_quiet (by simp)
  · exact waitsInStart_halts (.inl (by simp)) (waitsInStart_quiet (by simp))

theorem waitsInStart_software :
    EverySuffix (WaitsInStart h) (machineSoftwareInterrupt : List (Op xlen)) :=
  waitsInStart_quiet (by simp [machineSoftwareInterrupt, CommandField.all])

theorem waitsInStart_timer (config : Config) :
    EverySuffix (WaitsInStart h) (machineTimerInterrupt config h) := by
  refine waitsInStart_quiet ?_
  unfold machineTimerInterrupt
  split_ifs <;> simp

theorem waitsInStart_exception (k cause_value : Nat) (lines : List String) :
    EverySuffix (WaitsInStart h)
      (exceptionHalt k cause_value lines : List (Op xlen)) :=
  waitsInStart_halts (.inr (by simp)) (waitsInStart_quiet (by simp))

end Handlers

/-! ## Runs -/

section Runs

variable {config : Config}

/-- Keeping the books does not hold up a run. -/
theorem Traced.of_run
    {first last : System config.xlen}
    {labels : List (Label config.xlen)}
    (run : Run (Step config (sbiCalls config)) first labels last) :
    ∃ codes, Run (TracedStep config) (.boot first) labels ⟨last, codes⟩ := by
  have answered {before after : System config.xlen}
      {label : Label config.xlen}
      {traced : Traced config.xlen}
      (taken : Step config (sbiCalls config) before label after)
      (same : traced.system = before) :
      ∃ next, TracedStep config traced label next ∧ next.system = after := by
    subst same
    exact ⟨_, .step taken, rfl⟩
  obtain ⟨⟨system, codes⟩, traced, rfl⟩ := run.simulates
    (fun system (traced : Traced config.xlen) => traced.system = system)
    answered (rfl : (Traced.boot first).system = first)
  exact ⟨codes, by simpa using traced⟩

/-- The books of hart `h`: below a running handler is the code it interrupted,
and what lies deeper is never resumed. -/
structure Booked
    (h : Nat) (hart : HartState xlen) (codes : List (List (Op xlen))) :
    Prop where
  books : ∃ older,
    codes = (if hart.handler.isSome then hart.main :: older else older) ∧
      (∀ code ∈ older, Left h code) ∧ (hart.base = .idle → older = [])
  waits : ∀ ops, hart.handler = some ops → EverySuffix (WaitsInStart h) ops
  spares : hart.base ≠ .idle → ∀ op ∈ hart.main, op.Spares h

section Exec

variable {h : Nat} {level : Level} {hart : HartState config.xlen}
  {memory : Memory config.xlen} {op : Op config.xlen}
  {rest : List (Op config.xlen)}

theorem exec_not_interrupted :
    (exec config h level rest hart memory op).1 ≠ .interrupted := by
  cases op with
  | wait_load lock => simp only [exec]; split_ifs <;> simp
  | wait_swap lock =>
      simp only [exec]
      split_ifs
      · cases lock <;> simp [acquireEvent]
      · simp
  | poll t => simp only [exec]; split_ifs <;> simp
  | check_hart_state t command => simp only [exec]; split_ifs <;> simp
  | _ => simp [exec]

/-- No hart returns to the idle loop it was booted into. -/
theorem exec_idle
    (idle : (exec config h level rest hart memory op).2.1.base = .idle) :
    hart.base = .idle := by
  have put (ops : List (Op config.xlen)) :
      (hart.put ops level).base = hart.base := by
    cases level <;> rfl
  cases op with
  | wait_load lock =>
      simp only [exec] at idle; split_ifs at idle <;> exact (put _).symm.trans idle
  | wait_swap lock =>
      simp only [exec] at idle; split_ifs at idle <;> exact (put _).symm.trans idle
  | poll t =>
      simp only [exec] at idle; split_ifs at idle <;> exact (put _).symm.trans idle
  | check_hart_state t command =>
      simp only [exec] at idle; split_ifs at idle <;> exact (put _).symm.trans idle
  | switch_to_hart_context => cases idle
  | switch_to_user_context => cases idle
  | switch_to_context context => cases idle
  | resume => exact idle
  | write_context record field value =>
      cases record <;> exact (put _).symm.trans idle
  | _ => exact (put _).symm.trans idle

/-- A step outside handlers leaves the books alone. -/
theorem interruptedAfter_main
    {before after : HartState config.xlen}
    {event : Event config.xlen}
    {codes : List (List (Op config.xlen))}
    (idle : before.handler = none)
    (quiet : event ≠ .interrupted) :
    interruptedAfter before after event codes = codes := by
  unfold interruptedAfter
  split
  · exact absurd rfl quiet
  · rfl
  · rfl
  · simp [idle]

/-- The spin of `ksem_wait` keeps its place. -/
theorem WaitsInStart.spin
    {lock : Lock}
    {rest : List (Op xlen)}
    (waits : WaitsInStart h (.wait_swap lock) rest) :
    WaitsInStart h (.wait_load lock) (.wait_swap lock :: rest) := by
  rintro other rfl
  rcases waits lock rfl with awake | halts
  · left
    rw [wakeStage_cons]
    by_cases own : lock = .sbi_hsm_locks h
    · simp [own]
    · simpa [own] using awake
  · exact .inr (halts.imp (List.mem_cons_of_mem _) (List.mem_cons_of_mem _))

end Exec

section Step

variable {started : Bool} {system next : System config.xlen} {k : Nat}
  {op : Op config.xlen} {rest : List (Op config.xlen)}
  {codes : List (List (Op config.xlen))}

theorem Booked.main
    (managed : Managed started system)
    (booked : Booked k (system.harts k) codes)
    (idle : (system.harts k).handler = none)
    (code : (system.harts k).main = op :: rest) :
    Booked k (exec config k .main rest (system.harts k) system.memory op).2.1
      codes := by
  obtain ⟨⟨older, rfl, left, fresh⟩, -, spares⟩ := booked
  have after : (exec config k .main rest (system.harts k) system.memory
      op).2.1.handler = none :=
    exec_main_handler idle
  refine ⟨⟨older, by simp [idle, after], left, fun still =>
    fresh (exec_idle still)⟩, by simp [after], fun moved => ?_⟩
  have contract := managed.main k k
  rw [code, everySuffix_cons] at contract
  rcases exec_main_base contract.1 with base | ends
  · rw [base] at moved
    have before := spares moved
    rw [code] at before
    rw [← everySuffix_iff_forall] at before ⊢
    refine (exec_main_continues code).keeps before id ?_ ?_
    · rintro t start rfl
      exact ⟨everySuffix_iff_forall.mpr fun other member =>
          (List.mem_append.mp member).elim (startRefused_spares other)
            (everySuffix_iff_forall.mp before.2 other),
        everySuffix_iff_forall.mpr fun other member =>
          (List.mem_append.mp member).elim (startAccepted_spares before.1 other)
            (everySuffix_iff_forall.mp before.2 other)⟩
    · rintro rfl
      exact contract.1.2.elim
  · rw [ends]
    simp

theorem Booked.handler
    (managed : Managed started system)
    (booked : Booked k (system.harts k) codes)
    (code : (system.harts k).handler = some (op :: rest)) :
    Booked k
      (exec config k .handler rest (system.harts k) system.memory op).2.1
      (interruptedAfter (system.harts k)
        (exec config k .handler rest (system.harts k) system.memory op).2.1
        (exec config k .handler rest (system.harts k) system.memory op).1
        codes) := by
  obtain ⟨⟨older, rfl, left, fresh⟩, waits, spares⟩ := booked
  have suffixes := managed.handler k _ code
  obtain ⟨contract, -⟩ := suffixes
  by_cases leaves : op = .switch_to_user_context
  · subst leaves
    have awake : handlerWake k (system.harts k).handler ≠ none := by
      rw [code]
      simp [handlerWake]
    refine ⟨⟨(system.harts k).main :: older, by simp [exec, interruptedAfter,
      code], ?_, by simp [exec]⟩, by simp [exec], by simp [exec]⟩
    rintro other (_ | ⟨_, member⟩)
    · exact managed.asleep k awake
    · exact left other member
  have frame :
      (exec config k .handler rest (system.harts k) system.memory op).2.1.main =
          (system.harts k).main ∧
        (exec config k .handler rest (system.harts k) system.memory
          op).2.1.base = (system.harts k).base :=
    (exec_handler_frame contract).resolve_right leaves
  obtain ⟨main, base⟩ := frame
  have kept : EverySuffix (WaitsInStart k) (op :: rest) := waits _ code
  refine ⟨⟨older, ?_, left, fun still => fresh (exec_idle still)⟩,
    fun ops after => ?_, fun moved => ?_⟩
  · unfold interruptedAfter
    split
    · next event => exact absurd event exec_not_interrupted
    · next event => exact absurd (exec_entered event).1 leaves
    · next event => cases exec_switched event; exact contract.elim
    · cases after : (exec config k .handler rest (system.harts k)
        system.memory op).2.1.handler <;> simp [code, main]
  · refine (exec_handler_continues after).keeps kept .spin ?_ ?_
    · rintro t start rfl
      exact contract.elim
    · rintro rfl
      obtain rfl : rest = [] := contract
      rw [List.append_nil]
      exact waitsInStart_handle config _
  · rw [main]
    exact spares (base ▸ moved)

/-- A trap puts the code that it interrupts on top. -/
theorem Booked.trap
    {ops : List (Op config.xlen)}
    (booked : Booked k (system.harts k) codes)
    (idle : (system.harts k).handler = none)
    (waits : EverySuffix (WaitsInStart k) ops) :
    Booked k { (system.harts k).save with handler := some ops }
      ((system.harts k).main :: codes) := by
  obtain ⟨⟨older, rfl, left, fresh⟩, -, spares⟩ := booked
  have saved : (system.harts k).save.main = (system.harts k).main ∧
      (system.harts k).save.base = (system.harts k).base := by
    unfold HartState.save
    split_ifs <;> exact ⟨rfl, rfl⟩
  refine ⟨⟨older, by simp [idle], left, ?_⟩, ?_, ?_⟩
  · simpa [saved.2] using fresh
  · rintro ops' ⟨⟩
    exact waits
  · simpa [saved.1, saved.2] using spares

/-- The step lemma for the hart that takes the step. -/
theorem Booked.step
    {label : Label config.xlen}
    (managed : Managed started system)
    (booked : Booked label.hart (system.harts label.hart) codes)
    (step : Step config (sbiCalls config) system label next) :
    Booked label.hart (next.harts label.hart)
      (interruptedAfter (system.harts label.hart) (next.harts label.hart)
        label.event codes) := by
  cases step with
  | @main k op rest idle code =>
      rw [interruptedAfter_main idle exec_not_interrupted]
      simpa [System.set] using booked.main managed idle code
  | @handler k op rest code =>
      simpa [System.set] using booked.handler managed code
  | @software_interrupt k idle up =>
      simpa [System.setHart, interruptedAfter] using
        booked.trap idle waitsInStart_software
  | @timer_interrupt k idle low =>
      simpa [System.setHart, interruptedAfter] using
        booked.trap idle (waitsInStart_timer config)
  | @call k ops kernel empty idle allowed =>
      obtain ⟨request, rfl⟩ := allowed
      rw [interruptedAfter_main idle (by simp)]
      obtain ⟨⟨older, same, left, fresh⟩, -, -⟩ := booked
      exact ⟨⟨older, by simpa [System.setHart, idle] using same, left,
        by simpa [System.setHart] using fresh⟩, by simp [System.setHart, idle],
        by simpa [System.setHart] using fun _ =>
          call_spares config.toPlatform request⟩
  | @run k user_context csrs outside idle =>
      rw [interruptedAfter_main idle (by simp)]
      simpa [System.setHart] using
        (⟨booked.books, booked.waits, booked.spares⟩ : Booked k
          { system.harts k with user_context := user_context, csrs := csrs }
          codes)
  | @exception k cause_value lines raises empty idle =>
      simpa [System.setHart, interruptedAfter] using
        booked.trap idle (waitsInStart_exception k cause_value lines)

end Step

/-- The books after `kinit`. -/
theorem Booted.booked
    {system : System config.xlen}
    (booted : Booted config system)
    (h : Nat) :
    Booked h (system.harts h) ((Traced.boot system).interrupted h) := by
  refine ⟨⟨[], rfl, by simp, by simp⟩, ?_, by simp [booted.base h]⟩
  intro ops code
  by_cases boot : h = 0
  · rw [boot, booted.boot_handler] at code
    cases code
  · rw [booted.other_handler h boot] at code
    cases code
    exact waitsInStart_quiet (by simp)

/-- Along every run from boot, where a hart is about to wait for a lock and not
on its way to `idle_loop`, no code that its handlers have interrupted holds the
lock. -/
theorem no_self_deadlock
    {first : System config.xlen}
    {last : Traced config.xlen}
    {labels : List (Label config.xlen)}
    {h : Nat}
    {lock : Lock}
    {op : Op config.xlen}
    {rest : List (Op config.xlen)}
    (booted : Booted config first)
    (run : Run (TracedStep config) (.boot first) labels last)
    (next : (last.system.harts h).running = op :: rest)
    (waits : op.WaitsFor lock)
    (regular : ¬Halts (op :: rest)) :
    ∀ code ∈ last.interrupted h, ¬Holds lock code := by
  have kept := run.invariant_history
    (fun history traced =>
      Managed (history.any Label.boots) traced.system ∧
        ∀ g, Booked g (traced.system.harts g) (traced.interrupted g))
    (fun {history before label after} taken ⟨managed, booked⟩ => by
      cases taken with
      | @step system next label codes taken =>
          refine ⟨?_, fun g => ?_⟩
          · rw [List.any_append]
            simpa using (managed.step taken).2
          · by_cases own : g = label.hart
            · subst own
              simpa only [Function.update_self] using
                (booked _).step managed taken
            · simpa only [Function.update_of_ne own, taken.frame own] using
                booked g)
    ⟨by simpa [Traced.boot] using booted.managed, booted.booked⟩
  obtain ⟨managed, booked⟩ := kept
  obtain ⟨⟨older, codes, left, fresh⟩, waiting, spares⟩ := booked h
  rw [codes]
  cases handler : (last.system.harts h).handler with
  | none =>
      rw [HartState.running, handler, Option.getD_none] at next
      intro code member
      have down : (last.system.harts h).base ≠ .idle := by
        intro idle
        rw [fresh idle] at member
        cases member
      refine (left code member).not_holds ?_
      have here := spares down op (by rw [next]; simp)
      rintro rfl
      cases op <;> simp_all
  | some ops =>
      rw [HartState.running, handler, Option.getD_some] at next
      subst next
      have awake : handlerWake h (last.system.harts h).handler ≠ none := by
        rw [handler]
        refine ((waiting _ handler).1 lock waits).resolve_right fun halts => ?_
        exact regular (halts.imp (List.mem_cons_of_mem _)
          (List.mem_cons_of_mem _))
      have other : lock ≠ .hart_command_que_locks h := by
        have contract := (managed.delivery h).handler h _ handler
        rw [everySuffix_cons] at contract
        rintro rfl
        cases op <;> simp_all
      rintro code (_ | ⟨_, member⟩)
      · exact Left.not_holds (managed.asleep h awake) other
      · exact (left code member).not_holds other

/-- The operation does not halt. -/
def Op.goesOn : Op xlen → Bool
  | .halt_not_handled => false
  | .halt_exception => false
  | _ => true

/-- The handler is about to take the lock of `printm`, and goes on behind it. -/
def startsPrinting : Option (List (Op xlen)) → Bool
  | some (.wait_load .printm_lock :: ops) => ops.all Op.goesOn
  | _ => false

set_option maxRecDepth 4000 in
/-- Hart 0 took the interrupt of its own start and is about to print. -/
theorem no_self_deadlock_boot :
    ∃ (last : Traced twoHartBoard.xlen) (ops : List (Op twoHartBoard.xlen)),
      (last.system.harts 0).handler = some (.wait_load .printm_lock :: ops) ∧
        ∀ code ∈ last.interrupted 0, ¬Holds .printm_lock code := by
  let starting (_ : List (Label twoHartBoard.xlen))
      (last : System twoHartBoard.xlen) : Bool :=
    startsPrinting (last.harts 0).handler
  have played : (play twoHartBoard (List.replicate 17 (.advance 0) ++
      .interrupt 0 :: List.replicate 8 (.advance 0))
      (bootSystem twoHartBoard)).any
        (fun result => starting result.1 result.2) = true := by
    decide
  obtain ⟨labels, last, run, -, reached⟩ := play_reaches starting played
  obtain ⟨codes, traced⟩ := Traced.of_run run
  simp only [starting, startsPrinting] at reached
  split at reached
  · next ops code =>
      have next : (last.harts 0).running = .wait_load .printm_lock :: ops := by
        rw [HartState.running, code, Option.getD_some]
      refine ⟨⟨last, codes⟩, ops, code, no_self_deadlock
        (bootSystem_booted twoHartBoard) traced next
        (rfl : Op.WaitsFor .printm_lock (.wait_load .printm_lock)) ?_⟩
      rintro (halts | halts)
      · rcases List.mem_cons.mp halts with same | member
        · cases same
        · exact absurd (List.all_eq_true.mp reached _ member) (by simp [Op.goesOn])
      · rcases List.mem_cons.mp halts with same | member
        · cases same
        · exact absurd (List.all_eq_true.mp reached _ member) (by simp [Op.goesOn])
  · cases reached

end Runs

end Harts
end EchelonSbi
