import EchelonSbi.Harts.Blocking
import EchelonSbi.Harts.Kinit
import EchelonSbi.Harts.Settlement

/-!
# From reset to the kernel

After `kinit` the boot hart sends itself the start command, and every other hart stays
in `idle_loop`.  So the boot hart is the first to enter S-mode, it does so at the
kernel, and nothing can keep it from it.
-/

namespace EchelonSbi
namespace Harts

open Foundation
open Sbi

variable {xlen : Xlen}

/-- The command with which the boot hart starts itself. -/
def bootCommand (config : Config) (stack : Hart_Command config.xlen) :
    Hart_Command config.xlen :=
  startCommand stack 0#_ config.kernel_load_to_point config.dtb_load_to_point

/-- The rest of a timer interrupt, or of `hart_init_handler`, if a handler runs. -/
inductive Calm : Option (List (Op xlen)) → Prop
  | idle : Calm none
  | resume : Calm (some [.resume])
  | bitset : Calm (some [.csr_bitset .mip 0x20#_, .resume])
  | bitclr : Calm (some [.csr_bitclr .mie 0x80#_, .csr_bitset .mip 0x20#_, .resume])

/-- What `kmain` does before it raises the interrupt of its hart. -/
@[simp]
def Op.Prepares : Op xlen → Prop
  | .wait_load _ => True
  | .wait_swap _ => True
  | .post _ => True
  | .print _ => True
  | .sfence_vma => True
  | .fence_i => True
  | .copy _ _ _ => True
  | .poll t => t = 0
  | _ => False

/-- Operations with nothing but the rest of their code behind them. -/
@[simp]
def Op.GoesOn : Op xlen → Prop
  | .check_hart_state _ _ => False
  | .ret_hart_state _ => False
  | .ret _ => False
  | .switch_to_hart_context => False
  | .load_command _ => False
  | .dispatch => False
  | .resume => False
  | .switch_to_user_context => False
  | .switch_to_context _ => False
  | .halt_not_handled => False
  | .halt_exception => False
  | _ => True

/-- How far the boot hart is. -/
inductive BootStage
    (config : Config) (command : Hart_Command config.xlen) (system : System config.xlen) :
    Prop
  | sending (front : List (Op config.xlen)) :
      Calm (system.harts 0).handler →
      (∀ op ∈ front, op.Prepares) →
      (system.harts 0).main =
        front ++ [.raise 0 command, .post (.hart_command_que_locks 0)] →
      system.memory.clint_msip 0 = 0 →
      BootStage config command system
  | pending :
      (system.harts 0).handler = none →
      (system.harts 0).main = [.post (.hart_command_que_locks 0)] ∨
        (system.harts 0).main = [] →
      (mailbox 0 system).unread = [command] →
      BootStage config command system
  | reading (ops : List (Op config.xlen)) :
      (system.harts 0).handler = some ops →
      handlerPhase ops = .reading →
      (mailbox 0 system).unread = [command] →
      BootStage config command system
  | starting (front : List (Op config.xlen)) :
      (system.harts 0).handler = some (front ++ [.switch_to_user_context]) →
      (∀ op ∈ front, op.GoesOn) →
      (system.harts 0).command = command →
      BootStage config command system

/-- No hart has entered S-mode. -/
structure Booting
    (config : Config) (stack : Hart_Command config.xlen) (system : System config.xlen) :
    Prop where
  idle : ∀ k, (system.harts k).base = .idle
  main : ∀ k, k ≠ 0 → (system.harts k).main = []
  low : ∀ k, k ≠ 0 → system.memory.clint_msip k = 0
  calm : ∀ k, k ≠ 0 → Calm (system.harts k).handler
  owned : ∀ lock, SpinLock.Owned (system.memory.locks lock) (Holder lock system)
  stage : BootStage config (bootCommand config stack) system

/-! ## Operations that go on -/

theorem Op.Prepares.goesOn {op : Op xlen} (prepares : op.Prepares) : op.GoesOn := by
  cases op <;> first | exact prepares.elim | trivial

theorem Op.Local.goesOn {op : Op xlen} (local_ : op.Local) : op.GoesOn := by
  cases op <;> first | exact local_.elim | trivial

section Exec

variable {config : Config} {h : Nat} {level : Level} {hart : HartState config.xlen}
  {memory : Memory config.xlen} {op : Op config.xlen} {rest : List (Op config.xlen)}

theorem exec_goesOn
    (goesOn : op.GoesOn)
    (proceeds : op.Proceeds memory) :
    (exec config h level rest hart memory op).2.1.base = hart.base ∧
      (exec config h level rest hart memory op).2.1.command = hart.command ∧
      (exec config h level rest hart memory op).2.1.main = (hart.put rest level).main ∧
      (exec config h level rest hart memory op).2.1.handler =
        (hart.put rest level).handler := by
  cases op with
  | wait_load lock =>
      have free : memory.locks lock = 0 := proceeds
      simp only [exec, if_pos free]
      cases level <;> simp
  | wait_swap lock =>
      have free : memory.locks lock = 0 := proceeds
      simp only [exec, if_pos free]
      cases level <;> simp
  | poll t =>
      have low : memory.clint_msip t = 0 := proceeds
      simp only [exec, if_pos low]
      cases level <;> simp
  | write_context record field value =>
      cases record <;> cases level <;> exact ⟨rfl, rfl, rfl, rfl⟩
  | check_hart_state t command => exact goesOn.elim
  | ret_hart_state t => exact goesOn.elim
  | ret retval => exact goesOn.elim
  | switch_to_hart_context => exact goesOn.elim
  | load_command field => exact goesOn.elim
  | dispatch => exact goesOn.elim
  | resume => exact goesOn.elim
  | switch_to_user_context => exact goesOn.elim
  | switch_to_context context => exact goesOn.elim
  | halt_not_handled => exact goesOn.elim
  | halt_exception => exact goesOn.elim
  | _ => cases level <;> exact ⟨rfl, rfl, rfl, rfl⟩

/-- Preparation raises no interrupt. -/
theorem exec_prepares
    (prepares : op.Prepares) :
    (exec config h level rest hart memory op).2.2.clint_msip = memory.clint_msip := by
  cases op with
  | wait_load lock => simp only [exec]; split_ifs <;> rfl
  | wait_swap lock => simp only [exec]; split_ifs <;> rfl
  | poll t => simp only [exec]; split_ifs <;> rfl
  | post lock => rfl
  | print text => rfl
  | sfence_vma => rfl
  | fence_i => rfl
  | copy t field value => rfl
  | _ => exact prepares.elim

end Exec

/-- The start branch ends with the switch. -/
theorem handleStart_goesOn
    (config : Config)
    (h : Nat)
    (command : Hart_Command config.xlen) :
    ∃ front, handleStart config h command = front ++ [.switch_to_user_context] ∧
      ∀ op ∈ front, op.GoesOn := by
  refine ⟨printm ("\tStarting: " ++ toString h ++ "\n") ++
    (if config.MM_QEMU_VIRT then qemuFixes config h else []) ++ startContext h command ++
      ksem_wait (.sbi_hsm_locks h) ++ [.store_hart_state h .STARTED] ++
        ksem_post (.sbi_hsm_locks h) ++ [.clear_command, .clear_msip], ?_, ?_⟩
  · simp [handleStart]
  · apply forall_mem_append
    · apply forall_mem_append
      · apply forall_mem_append
        · apply forall_mem_append
          · apply forall_mem_append
            · apply forall_mem_append
              · exact fun op member => (printm_local _ op member).goesOn
              · split_ifs
                · exact fun op member => (qemuFixes_local config h op member).goesOn
                · simp
            · exact fun op member => (startContext_local h command op member).goesOn
          · simp [ksem_wait]
        · simp
      · simp [ksem_post]
    · simp

section Step

variable {config : Config} {stack : Hart_Command config.xlen}
  {system next : System config.xlen} {label : Label config.xlen} {started : Bool}
  {k : Nat} {op : Op config.xlen} {rest : List (Op config.xlen)} {lock : Lock}

/-- A timer interrupt holds no lock. -/
theorem Calm.free
    {handler : Option (List (Op xlen))}
    (calm : Calm handler) :
    ¬Holds lock (handler.getD []) := by
  cases calm <;> exact id

/-- Only the boot hart holds locks. -/
theorem Booting.holder
    {level : Level}
    (booting : Booting config stack system)
    (holder : Holder lock system (k, level)) :
    k = 0 := by
  by_contra other
  cases level with
  | main =>
      rw [Holder, HartState.code, booting.main k other] at holder
      exact holder
  | handler => exact (booting.calm k other).free holder

/-- Nothing keeps the boot hart. -/
theorem Booting.proceeds
    (booting : Booting config stack system)
    (supplied : Supplied system)
    (managed : Managed started system)
    (code : (system.harts 0).running = op :: rest)
    (goesOn : op.GoesOn)
    (polls : ∀ t, op = .poll t → system.memory.clint_msip t = 0) :
    op.Proceeds system.memory := by
  have free {lock : Lock} (waits : op.WaitsFor lock) : system.memory.locks lock = 0 := by
    by_contra taken
    obtain ⟨⟨k, level⟩, holder⟩ := booting.owned lock taken
    obtain rfl := booting.holder holder
    exact absurd (supplied.order managed holder code waits) (lt_irrefl _)
  cases op with
  | wait_load lock => exact free rfl
  | wait_swap lock => exact free rfl
  | poll t => exact polls t rfl
  | halt_not_handled => exact goesOn.elim
  | halt_exception => exact goesOn.elim
  | _ => trivial

theorem calm_timer (config : Config) (k : Nat) :
    Calm (some (machineTimerInterrupt config k)) := by
  unfold machineTimerInterrupt
  split_ifs
  · exact .resume
  · exact .bitclr

/-- A timer interrupt goes on. -/
theorem Calm.exec
    {hart : HartState config.xlen}
    {memory : Memory config.xlen}
    (calm : Calm hart.handler)
    (code : hart.handler = some (op :: rest)) :
    (exec config k .handler rest hart memory op).2.2 = memory ∧
      (exec config k .handler rest hart memory op).2.1.base = hart.base ∧
      (exec config k .handler rest hart memory op).2.1.main = hart.main ∧
      Calm (exec config k .handler rest hart memory op).2.1.handler := by
  rw [code] at calm
  cases calm with
  | resume => exact ⟨rfl, rfl, rfl, .idle⟩
  | bitset => exact ⟨rfl, rfl, rfl, .resume⟩
  | bitclr => exact ⟨rfl, rfl, rfl, .bitset⟩

/-- How far the boot hart is depends on its code and the memory. -/
theorem BootStage.congr
    {command : Hart_Command config.xlen}
    (stage : BootStage config command system)
    (handler : (next.harts 0).handler = (system.harts 0).handler)
    (main : (next.harts 0).main = (system.harts 0).main)
    (same : (next.harts 0).command = (system.harts 0).command)
    (memory : next.memory = system.memory) :
    BootStage config command next := by
  have unread : (mailbox 0 next).unread = (mailbox 0 system).unread := by
    simp [Mailbox.State.unread, mailbox, handler, memory]
  cases stage with
  | sending front calm prepares sends low =>
      exact .sending front (handler ▸ calm) prepares (main.trans sends) (memory ▸ low)
  | pending idle posts pending =>
      exact .pending (handler.trans idle) (main ▸ posts) (unread.trans pending)
  | reading ops code reads pending =>
      exact .reading ops (handler.trans code) reads (unread.trans pending)
  | starting front code goesOn command =>
      exact .starting front (handler.trans code) goesOn (same.trans command)

/-- Other harts do not change how far the boot hart is. -/
theorem BootStage.frame
    {command : Hart_Command config.xlen}
    (stage : BootStage config command system)
    (hart : next.harts 0 = system.harts 0)
    (memory : next.memory = system.memory) :
    BootStage config command next :=
  stage.congr (by rw [hart]) (by rw [hart]) (by rw [hart]) memory

/-- One hart executes an operation. -/
theorem Booting.set
    {level : Level}
    (booting : Booting config stack system)
    (supplied : Supplied system)
    (code : (system.harts k).code level = op :: rest)
    (base : (exec config k level rest (system.harts k) system.memory op).2.1.base = .idle)
    (kept : ∀ other, other ≠ level →
      (exec config k level rest (system.harts k) system.memory op).2.1.code other =
        (system.harts k).code other)
    (low : ∀ j, j ≠ 0 →
      (exec config k level rest (system.harts k) system.memory op).2.2.clint_msip j =
        system.memory.clint_msip j)
    (others : k ≠ 0 →
      (exec config k level rest (system.harts k) system.memory op).2.1.main = [] ∧
        Calm (exec config k level rest (system.harts k) system.memory op).2.1.handler)
    (stage : BootStage config (bootCommand config stack)
      (system.set k (exec config k level rest (system.harts k) system.memory op))) :
    Booting config stack
      (system.set k (exec config k level rest (system.harts k) system.memory op)) := by
  refine ⟨fun j => ?_, fun j other => ?_, fun j other => ?_, fun j other => ?_,
    fun lock => ?_, stage⟩
  · by_cases own : j = k
    · subst own
      rw [set_self]
      exact base
    · rw [set_of_ne own]
      exact booting.idle j
  · by_cases own : j = k
    · subst own
      rw [set_self]
      exact (others other).1
    · rw [set_of_ne own]
      exact booting.main j other
  · exact (low j other).trans (booting.low j other)
  · by_cases own : j = k
    · subst own
      rw [set_self]
      exact (others other).2
    · rw [set_of_ne own]
      exact booting.calm j other
  · apply owned_exec supplied.disciplined (booting.owned lock) code
    intro level differs holds
    rwa [kept level differs]

/-- One hart changes without an operation. -/
theorem Booting.setHart
    {hart : HartState config.xlen}
    (booting : Booting config stack system)
    (base : hart.base = .idle)
    (main : hart.main = (system.harts k).main)
    (idle : (system.harts k).handler = none)
    (others : k ≠ 0 → Calm hart.handler)
    (stage : BootStage config (bootCommand config stack) (system.setHart k hart)) :
    Booting config stack (system.setHart k hart) := by
  refine ⟨fun j => ?_, fun j other => ?_, booting.low, fun j other => ?_,
    fun lock => ?_, stage⟩
  · rw [setHart_eq_set]
    by_cases own : j = k
    · subst own
      rw [set_self]
      exact base
    · rw [set_of_ne own]
      exact booting.idle j
  · rw [setHart_eq_set]
    by_cases own : j = k
    · subst own
      rw [set_self, main]
      exact booting.main j other
    · rw [set_of_ne own]
      exact booting.main j other
  · rw [setHart_eq_set]
    by_cases own : j = k
    · subst own
      rw [set_self]
      exact others other
    · rw [set_of_ne own]
      exact booting.calm j other
  · apply owned_setHart (booting.owned lock)
    intro level holds
    cases level with
    | main => rwa [HartState.code, main]
    | handler =>
        rw [HartState.code, idle] at holds
        exact holds.elim

/-- `kmain` goes on. -/
theorem Booting.mainStep
    (booting : Booting config stack system)
    (managed : Managed started system)
    (supplied : Supplied system)
    (idle : (system.harts k).handler = none)
    (code : (system.harts k).main = op :: rest) :
    Booting config stack
      (system.set k (exec config k .main rest (system.harts k) system.memory op)) := by
  obtain rfl : k = 0 := by
    by_contra other
    rw [booting.main k other] at code
    cases code
  have step := @Step.main config (sbiCalls config) _ _ _ _ idle code
  have still : (exec config 0 .main rest (system.harts 0) system.memory op).2.1.handler =
      none :=
    exec_main_handler idle
  have running : (system.harts 0).running = op :: rest := by rw [running_of_idle idle, code]
  have moved (goesOn : op.GoesOn)
      (polls : ∀ t, op = .poll t → system.memory.clint_msip t = 0)
      (low : ∀ j, j ≠ 0 →
        (exec config 0 .main rest (system.harts 0) system.memory op).2.2.clint_msip j =
          system.memory.clint_msip j)
      (stage : (exec config 0 .main rest (system.harts 0) system.memory op).2.1.main = rest →
        BootStage config (bootCommand config stack)
          (system.set 0 (exec config 0 .main rest (system.harts 0) system.memory op))) :
      Booting config stack
        (system.set 0 (exec config 0 .main rest (system.harts 0) system.memory op)) := by
    have proceeds := booting.proceeds supplied managed running goesOn polls
    obtain ⟨base, -, main, handler⟩ := @exec_goesOn config 0 .main (system.harts 0)
      system.memory op rest goesOn proceeds
    refine booting.set supplied (show (system.harts 0).code .main = op :: rest from code)
      (base.trans (booting.idle 0)) ?_ low (fun other => absurd rfl other) (stage main)
    intro other differs
    cases other with
    | main => exact absurd rfl differs
    | handler => rw [HartState.code, HartState.code, still, idle]
  have handler_none : ((system.set 0 (exec config 0 .main rest (system.harts 0)
      system.memory op)).harts 0).handler = none := by
    rw [set_self]
    exact still
  cases booting.stage with
  | sending front calm prepares main low =>
      rw [main] at code
      cases front with
      | nil =>
          cases code
          refine moved trivial (by simp) ?_ fun after => ?_
          · intro j other
            exact Function.update_of_ne other ..
          · refine .pending handler_none (.inl ?_) (managed.raised step rfl)
            rw [set_self]
            exact after
      | cons first front =>
          cases code
          have here := prepares op (by simp)
          refine moved here.goesOn ?_ ?_ fun after => ?_
          · rintro t rfl
            obtain rfl : t = 0 := here
            exact low
          · intro j other
            rw [exec_prepares here]
          · refine .sending front ?_ (fun other member => prepares other (by simp [member]))
              ?_ ?_
            · rw [handler_none]
              exact .idle
            · rw [set_self]
              exact after
            · exact (congrFun (exec_prepares here) 0).trans low
  | pending _ main unread =>
      rcases main with posts | done
      · rw [posts] at code
        cases code
        refine moved trivial (by simp) (fun j other => rfl) fun after => ?_
        refine .pending handler_none (.inr ?_) ?_
        · rw [set_self]
          exact after
        · rcases managed.keeps_unread step unread with ⟨-, event⟩ | ⟨kept, -⟩
          · cases event
          · exact kept
      · rw [done] at code
        cases code
  | reading ops handler _ _ => cases idle.symm.trans handler
  | starting front handler _ _ => cases idle.symm.trans handler

theorem handle_bootCommand (config : Config) (stack : Hart_Command config.xlen) :
    handleCommand config 0 (bootCommand config stack) =
      handleStart config 0 (bootCommand config stack) := by
  have start : (bootCommand config stack).command = HARTCMD_STARTHART := rfl
  rw [handleCommand, start, if_neg HARTCMD_STARTHART_ne_SWITCHCONTEXT, if_pos rfl]

/-- A handler lowers no interrupt but that of its hart, and raises none. -/
theorem exec_handler_msip
    {hart : HartState config.xlen}
    {memory : Memory config.xlen}
    {j : Nat}
    (contract : HandlerContract op rest)
    (other : j ≠ k) :
    (exec config k .handler rest hart memory op).2.2.clint_msip j =
      memory.clint_msip j := by
  cases op with
  | wait_load lock => simp only [exec]; split_ifs <;> rfl
  | wait_swap lock => simp only [exec]; split_ifs <;> rfl
  | poll t => exact contract.elim
  | copy t field value => exact contract.elim
  | raise t command => exact contract.elim
  | check_hart_state t command => exact contract.elim
  | clear_msip => exact Function.update_of_ne other ..
  | _ => rfl

/-- Handlers go on. -/
theorem Booting.handlerStep
    (booting : Booting config stack system)
    (managed : Managed started system)
    (supplied : Supplied system)
    (code : (system.harts k).handler = some (op :: rest))
    (early : ∀ context csrs,
      (exec config k .handler rest (system.harts k) system.memory op).1 ≠
        .entered context csrs) :
    Booting config stack
      (system.set k (exec config k .handler rest (system.harts k) system.memory op)) := by
  have step := @Step.handler config (sbiCalls config) _ _ _ _ code
  have contract := (managed.delivery k).handler k _ code
  rw [everySuffix_cons] at contract
  have running : (system.harts k).code .handler = op :: rest := by
    rw [HartState.code, code]
    rfl
  have moved
      (base : (exec config k .handler rest (system.harts k) system.memory op).2.1.base =
        (system.harts k).base)
      (main : (exec config k .handler rest (system.harts k) system.memory op).2.1.main =
        (system.harts k).main)
      (low : ∀ j, j ≠ 0 →
        (exec config k .handler rest (system.harts k) system.memory op).2.2.clint_msip j =
          system.memory.clint_msip j)
      (others : k ≠ 0 →
        Calm (exec config k .handler rest (system.harts k) system.memory op).2.1.handler)
      (stage : BootStage config (bootCommand config stack)
        (system.set k (exec config k .handler rest (system.harts k) system.memory op))) :
      Booting config stack
        (system.set k (exec config k .handler rest (system.harts k) system.memory op)) := by
    refine booting.set supplied running (base.trans (booting.idle k)) ?_ low
      (fun other => ⟨main.trans (booting.main k other), others other⟩) stage
    intro level differs
    cases level with
    | main => exact main
    | handler => exact absurd rfl differs
  by_cases boot : k = 0
  · subst boot
    cases booting.stage with
    | sending front calm prepares main low =>
        obtain ⟨memory, base, same, after⟩ :=
          @Calm.exec config 0 op rest _ system.memory calm code
        refine moved base same (fun j _ => by rw [memory]) (fun other => absurd rfl other) ?_
        refine .sending front ?_ prepares ?_ ?_
        · rwa [set_self]
        · rw [set_self, same, main]
        · rw [show (system.set 0 _).memory = _ from memory, low]
    | pending idle _ _ => cases idle.symm.trans code
    | reading ops handler reads unread =>
        cases handler.symm.trans code
        have member := ((managed.delivery 0).reading _ code reads).1.subset
          (List.mem_cons_self ..)
        simp only [machineSoftwareInterrupt, List.mem_append, List.mem_map,
          List.mem_singleton] at member
        rcases managed.keeps_unread step unread with ⟨-, event⟩ | ⟨kept, silent⟩
        · obtain ⟨rfl, -⟩ := exec_received event
          refine moved rfl rfl (fun _ _ => rfl) (fun other => absurd rfl other) ?_
          obtain ⟨front, whole, goesOn⟩ :=
            handleStart_goesOn config 0 (bootCommand config stack)
          refine .starting front ?_ goesOn (step.received event)
          rw [← whole]
          exact (managed.receives step event).trans
            (congrArg some (handle_bootCommand config stack))
        · rcases member with ⟨field, -, rfl⟩ | rfl
          · refine moved rfl rfl (fun _ _ => rfl) (fun other => absurd rfl other) ?_
            refine .reading rest ?_ contract.1 kept
            rw [set_self]
            rfl
          · exact absurd rfl (silent (system.harts 0).command)
    | starting front handler goesOn same =>
        cases front with
        | nil =>
            cases handler.symm.trans code
            exact absurd rfl (early _ _)
        | cons first front =>
            cases handler.symm.trans code
            have here := goesOn op (by simp)
            have proceeds := booting.proceeds supplied managed (running_of_handler code) here
              (by
                rintro t rfl
                exact contract.1.elim)
            obtain ⟨base, command, main, after⟩ := @exec_goesOn config 0 .handler
              (system.harts 0) system.memory op _ here proceeds
            refine moved base main (fun j other => exec_handler_msip contract.1 other)
              (fun other => absurd rfl other) ?_
            refine .starting front ?_ (fun other member => goesOn other (by simp [member])) ?_
            · rw [set_self, after]
              rfl
            · rw [set_self, command, same]
  · obtain ⟨memory, base, same, after⟩ := @Calm.exec config k op rest _ system.memory
      (booting.calm k boot) code
    refine moved base same (fun j _ => by rw [memory]) (fun _ => after) ?_
    exact booting.stage.frame (set_of_ne (Ne.symm boot)) memory

/-- The step lemma. -/
theorem Booting.step
    (booting : Booting config stack system)
    (managed : Managed started system)
    (supplied : Supplied system)
    (step : Step config (sbiCalls config) system label next)
    (early : label.enters = false) :
    Booting config stack next := by
  have taken := step
  cases step with
  | @main k op rest idle code => exact booting.mainStep managed supplied idle code
  | @handler k op rest code =>
      refine booting.handlerStep managed supplied code fun context csrs enters => ?_
      rw [Label.enters, enters] at early
      cases early
  | @software_interrupt k idle up =>
      obtain rfl : k = 0 := by
        by_contra other
        exact up (booting.low k other)
      refine booting.setHart ?_ (save_main _) idle (fun other => absurd rfl other) ?_
      · exact (save_base _).trans (booting.idle 0)
      · cases booting.stage with
        | sending front calm prepares main low => exact absurd low up
        | pending _ main unread =>
            rcases managed.keeps_unread taken unread with ⟨-, event⟩ | ⟨kept, -⟩
            · cases event
            · exact .reading _ (by simp [System.setHart]) HandlerFrom.software.2 kept
        | reading ops handler _ _ => cases idle.symm.trans handler
        | starting front handler _ _ => cases idle.symm.trans handler
  | @timer_interrupt k idle low =>
      refine booting.setHart ?_ (save_main _) idle (fun _ => calm_timer config k) ?_
      · exact (save_base _).trans (booting.idle k)
      · by_cases boot : k = 0
        · subst boot
          cases booting.stage with
          | sending front calm prepares main _ =>
              refine .sending front ?_ prepares ?_ low
              · simpa [System.setHart] using calm_timer config 0
              · simpa [System.setHart, save_main] using main
          | pending _ main unread => simp [Mailbox.State.unread, mailbox, low] at unread
          | reading ops handler _ _ => cases idle.symm.trans handler
          | starting front handler _ _ => cases idle.symm.trans handler
        · exact booting.stage.frame (Function.update_of_ne (Ne.symm boot) ..) rfl
  | @call k ops kernel empty idle allowed => cases (booting.idle k).symm.trans kernel
  | @run k user_context csrs outside idle =>
      refine booting.setHart (booting.idle k) rfl idle (booting.calm k) ?_
      by_cases boot : k = 0
      · subst boot
        apply booting.stage.congr <;> simp [System.setHart]
      · exact booting.stage.frame (Function.update_of_ne (Ne.symm boot) ..) rfl
  | @exception k cause_value lines raises empty idle =>
      simp [HartState.Raises, booting.idle k] at raises

/-! ## The boot hart goes on by itself -/

/-- Steps of the boot hart alone make it enter S-mode. -/
def Awakes (config : Config) (system : System config.xlen) : Prop :=
  ∃ labels next last context csrs,
    Run (Step config (sbiCalls config)) system labels next ∧
      Step config (sbiCalls config) next ⟨0, .handler, .entered context csrs⟩ last ∧
      ∀ label ∈ labels, label.hart = 0

theorem Awakes.cons
    (awakes : Awakes config next)
    (step : Step config (sbiCalls config) system label next)
    (own : label.hart = 0) :
    Awakes config system := by
  obtain ⟨labels, finish, last, context, csrs, path, enters, alone⟩ := awakes
  refine ⟨label :: labels, finish, last, context, csrs, path.cons step, enters, ?_⟩
  rintro other (_ | ⟨_, member⟩)
  · exact own
  · exact alone other member

/-- The invariants of the harts before the first entry. -/
structure Starting
    (config : Config) (stack : Hart_Command config.xlen) (system : System config.xlen) :
    Prop where
  managed : ∃ started, Managed started system
  waking : ∀ k, Waking k (system.harts k)
  supplied : Supplied system
  booting : Booting config stack system

theorem Starting.step
    (starting : Starting config stack system)
    (step : Step config (sbiCalls config) system label next)
    (early : label.enters = false) :
    Starting config stack next := by
  obtain ⟨⟨started, managed⟩, waking, supplied, booting⟩ := starting
  exact ⟨⟨_, (managed.step step).2⟩, managed.waking waking step,
    supplied.step managed step, booting.step managed supplied step early⟩

theorem Starting.run
    {labels : List (Label config.xlen)}
    (starting : Starting config stack system)
    (run : Run (Step config (sbiCalls config)) system labels next)
    (early : ∀ label ∈ labels, label.enters = false) :
    Starting config stack next :=
  (run.labelled early).invariant (fun taken before => before.step taken.1 taken.2) starting

/-- The start branch runs to its end. -/
theorem Starting.awakes_branch
    {front : List (Op config.xlen)}
    (starting : Starting config stack system)
    (code : (system.harts 0).handler = some (front ++ [.switch_to_user_context]))
    (goesOn : ∀ op ∈ front, op.GoesOn) :
    Awakes config system := by
  induction front generalizing system with
  | nil => exact ⟨[], system, _, _, _, .refl _, .handler code, by simp⟩
  | cons op front inductionHypothesis =>
      rw [List.cons_append] at code
      obtain ⟨⟨started, managed⟩, -, supplied, booting⟩ := id starting
      have contract := (managed.delivery 0).handler 0 _ code
      rw [everySuffix_cons] at contract
      have here := goesOn op (by simp)
      have proceeds := booting.proceeds supplied managed (running_of_handler code) here
        (by
          rintro t rfl
          exact contract.1.elim)
      obtain ⟨-, -, -, after⟩ := @exec_goesOn config 0 .handler (system.harts 0)
        system.memory op (front ++ [.switch_to_user_context]) here proceeds
      have step := @Step.handler config (sbiCalls config) _ _ _ _ code
      have next := starting.step step (exec_stays (by
        rintro rfl
        exact here))
      refine (inductionHypothesis next ?_ fun other member =>
        goesOn other (by simp [member])).cons step rfl
      rw [set_self, after]
      rfl

/-- The start branch is all that is left to the boot hart when it has received its
command. -/
theorem Starting.awakes_received
    (starting : Starting config stack system)
    (receives : Receives config 0 (bootCommand config stack) system) :
    Awakes config system := by
  obtain ⟨front, reached, path, code, alone⟩ := receives
  rw [handle_bootCommand] at code
  obtain ⟨branch, whole, goesOn⟩ := handleStart_goesOn config 0 (bootCommand config stack)
  rw [whole] at code
  have there := starting.run path fun label member => (alone label member).2
  obtain ⟨labels, next, last, context, csrs, rest, enters, own⟩ :=
    there.awakes_branch code goesOn
  refine ⟨front ++ labels, next, last, context, csrs, path.append rest, enters, ?_⟩
  intro label member
  rcases List.mem_append.mp member with first | later
  · exact (alone label first).1
  · exact own label later

/-- `kmain` raises the interrupt of its hart. -/
theorem Starting.awakes_sending
    {front : List (Op config.xlen)}
    (starting : Starting config stack system)
    (idle : (system.harts 0).handler = none)
    (prepares : ∀ op ∈ front, op.Prepares)
    (main : (system.harts 0).main = front ++
      [.raise 0 (bootCommand config stack), .post (.hart_command_que_locks 0)])
    (low : system.memory.clint_msip 0 = 0) :
    Awakes config system := by
  induction front generalizing system with
  | nil =>
      obtain ⟨⟨started, managed⟩, -, -, -⟩ := id starting
      have step := @Step.main config (sbiCalls config) _ _ _ _ idle main
      have after := starting.step step rfl
      refine (after.awakes_received ?_).cons step rfl
      refine (managed.step step).2.receives_pending ?_ (managed.raised step rfl)
      rw [set_self]
      exact idle
  | cons op front inductionHypothesis =>
      rw [List.cons_append] at main
      obtain ⟨⟨started, managed⟩, -, supplied, booting⟩ := id starting
      have here := prepares op (by simp)
      have proceeds := booting.proceeds supplied managed
        ((running_of_idle idle).trans main) here.goesOn (by
          rintro t rfl
          obtain rfl : t = 0 := here
          exact low)
      obtain ⟨-, -, after, still⟩ := @exec_goesOn config 0 .main (system.harts 0)
        system.memory op (front ++ [.raise 0 (bootCommand config stack),
          .post (.hart_command_que_locks 0)]) here.goesOn proceeds
      have step := @Step.main config (sbiCalls config) _ _ _ _ idle main
      have next := starting.step step (exec_stays (by
        rintro rfl
        exact here))
      refine (inductionHypothesis next ?_ (fun other member => prepares other (by simp [member]))
        ?_ ?_).cons step rfl
      · rw [set_self, still]
        exact idle
      · rw [set_self, after]
        rfl
      · exact (congrFun (exec_prepares here) 0).trans low

/-- A handler of a timer interrupt returns. -/
theorem Starting.awakes_calm
    (starting : Starting config stack system)
    (calm : Calm (system.harts 0).handler)
    (returned : ∀ {next}, Starting config stack next → (next.harts 0).handler = none →
      (next.harts 0).main = (system.harts 0).main →
        next.memory = system.memory → Awakes config next) :
    Awakes config system := by
  cases handler : (system.harts 0).handler with
  | none => exact returned starting handler rfl rfl
  | some ops =>
      induction ops generalizing system with
      | nil =>
          rw [handler] at calm
          cases calm
      | cons op rest inductionHypothesis =>
          have step := @Step.handler config (sbiCalls config) _ _ _ _ handler
          rw [handler] at calm
          have next := starting.step step (exec_stays (by
            rintro rfl
            cases calm))
          refine Awakes.cons ?_ step rfl
          cases calm with
          | resume => exact returned next (by rw [set_self]; rfl) (by rw [set_self]; rfl) rfl
          | bitset =>
              refine inductionHypothesis next ?_ ?_ (by rw [set_self]; rfl)
              · rw [set_self]
                exact .resume
              · intro last later idle main memory
                refine returned later idle (main.trans ?_) memory
                rw [set_self]
                rfl
          | bitclr =>
              refine inductionHypothesis next ?_ ?_ (by rw [set_self]; rfl)
              · rw [set_self]
                exact .bitset
              · intro last later idle main memory
                refine returned later idle (main.trans ?_) memory
                rw [set_self]
                rfl

/-- The boot hart enters S-mode. -/
theorem Starting.awakes
    (starting : Starting config stack system) :
    Awakes config system := by
  obtain ⟨⟨started, managed⟩, -, -, booting⟩ := id starting
  cases booting.stage with
  | sending front calm prepares main low =>
      refine starting.awakes_calm calm fun later idle same memory => ?_
      exact later.awakes_sending idle prepares (same.trans main) (by rw [memory, low])
  | pending idle _ unread =>
      exact starting.awakes_received (managed.receives_pending idle unread)
  | reading ops code reads unread =>
      exact starting.awakes_received (managed.receives_reading code reads unread)
  | starting front code goesOn _ => exact starting.awakes_branch code goesOn

/-- The first entry is that of the boot hart, at the kernel. -/
theorem Starting.entered
    {context : CPU_Context config.xlen}
    {csrs : Csr → Word config.xlen}
    (starting : Starting config stack system)
    (step : Step config (sbiCalls config) system label next)
    (entered : label.event = .entered context csrs) :
    label.hart = 0 ∧ StartedWith 0 (bootCommand config stack) context csrs := by
  obtain ⟨⟨started, managed⟩, waking, -, booting⟩ := starting
  obtain ⟨⟨rest, code⟩, -, -⟩ := managed.entered step entered
  have boot : label.hart = 0 := by
    by_contra other
    have calm := booting.calm _ other
    rw [code] at calm
    cases calm
  refine ⟨boot, ?_⟩
  have with_ := managed.startedWith waking step entered
  rw [boot] at with_ code
  cases booting.stage with
  | sending front calm prepares main low =>
      rw [code] at calm
      cases calm
  | pending idle _ _ => cases idle.symm.trans code
  | reading ops handler reads _ =>
      cases handler.symm.trans code
      cases reads.symm.trans ((managed.delivery 0).handler 0 _ code).1
  | starting front _ _ same => rwa [same] at with_

/-- After `kinit` no hart has entered S-mode. -/
theorem Booted.starting
    (booted : Booted config system) :
    ∃ stack, Starting config stack system := by
  obtain ⟨stack, main⟩ := booted.boot_main
  refine ⟨stack, ⟨_, booted.managed⟩, booted.waking, booted.supplied, ?_⟩
  refine ⟨booted.base, booted.other_main, fun k _ => booted.msip k, fun k other => ?_,
    fun lock taken => absurd (booted.locks lock) taken, ?_⟩
  · rw [booted.other_handler k other]
    exact .resume
  · refine .sending (printm "--Start Hart--\n" ++ [.sfence_vma, .fence_i] ++
      ksem_wait (.hart_command_que_locks 0) ++ [.poll 0] ++
        copy_command 0 (bootCommand config stack)) ?_ ?_ ?_ (booted.msip 0)
    · rw [booted.boot_handler]
      exact .idle
    · simp [printm, ksem_wait, ksem_post, copy_command, CommandField.all]
    · rw [main]
      simp [kmain, send_hart_command_que, ksem_post, bootCommand]

end Step

/-- From reset to the kernel, whatever the records hold and however the harts take
turns: once `kinit` has returned, and until a hart has entered S-mode, every hart is in
the firmware; the first hart to enter S-mode is the boot hart, with the registers of the
start command for the kernel; and in every state before that, steps of the boot hart
alone make it do so. -/
theorem reset_reaches_kernel
    {config : Config}
    {first ended : KinitState config.xlen}
    {turns : List Nat}
    {stack : Hart_Command config.xlen}
    {harts : Nat → HartState config.xlen}
    {last : System config.xlen}
    {labels : List (Label config.xlen)}
    (board : 0 < config.TOTAL_HART_COUNT)
    (reset : Reset config first)
    (kinits : Run (KinitStep config) first turns ended)
    (returned : ended.code = [])
    (run : Run (Step config (sbiCalls config)) (ended.system config stack harts) labels last)
    (early : ∀ label ∈ labels, label.enters = false) :
    (∀ k, (last.harts k).base = .idle) ∧
      (∀ label next context csrs, Step config (sbiCalls config) last label next →
        label.event = .entered context csrs →
          label.hart = 0 ∧ StartedWith 0 (bootCommand config stack) context csrs) ∧
      Awakes config last := by
  have barrier := reset.run kinits
  obtain ⟨silences, path, silent⟩ := barrier.comes board returned stack harts
  obtain ⟨other, starting⟩ :=
    (barrier.booted reset.printm returned stack harts).starting
  have before := starting.run path fun label member => by
    obtain ⟨_, -, rfl⟩ := silent label member
    rfl
  have now := before.run run early
  refine ⟨now.booting.idle, fun label next context csrs step entered => ?_, now.awakes⟩
  obtain ⟨boot, with_⟩ := now.entered step entered
  exact ⟨boot, with_.mode, with_.pc, with_.a0, with_.a1, with_.others, with_.satp, with_.SIE⟩

theorem reset_reaches_kernel_board :
    ∃ ended turns, Run (KinitStep twoHartBoard) (resetState twoHartBoard) turns ended ∧
      ended.code = [] ∧
      Awakes twoHartBoard
        (ended.system twoHartBoard .cleared (bootSystem twoHartBoard).harts) := by
  have reset : Reset twoHartBoard (resetState twoHartBoard) :=
    ⟨rfl, fun _ => rfl, fun _ => rfl, rfl⟩
  obtain ⟨ended, path, returned⟩ := reset.barrier.returns fun _ inside => kinit_contexts inside
  obtain ⟨turns, kinits⟩ := Run.of_reflTransGen path
  exact ⟨ended, turns, kinits, returned,
    (reset_reaches_kernel (by decide) reset kinits returned (.refl _) (by simp)).2.2⟩

end Harts
end EchelonSbi
