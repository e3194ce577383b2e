import EchelonSbi.Harts.LockDiscipline
import EchelonSbi.Harts.RemoteFences
import EchelonSbi.Harts.StartAgreement

/-!
# What a mask call brings about

`sbi_send_ipi` and the remote fences return before the other harts have done what
they were asked for.  Each of them does it in the handler of its next software
interrupt: a hart that has no handler running and no interrupt pending has done it.
-/

namespace EchelonSbi
namespace Harts

open Foundation
open Sbi

variable {xlen : Xlen}

/-- The hart enters S-mode. -/
def Label.enters (label : Label xlen) : Bool :=
  match label.event with
  | .entered _ _ => true
  | _ => false

/-- In this step, hart `g` executes `op`. -/
def Executes
    (config : Config)
    (g : Nat)
    (op : Op config.xlen)
    (system : System config.xlen)
    (label : Label config.xlen)
    (next : System config.xlen) : Prop :=
  ∃ level rest, (system.harts g).code level = op :: rest ∧
    label = ⟨g, level, (exec config g level rest (system.harts g) system.memory op).1⟩ ∧
    next = system.set g (exec config g level rest (system.harts g) system.memory op)

/-- In this run, hart `g` executes `op`. -/
abbrev Executed (config : Config) (g : Nat) (op : Op config.xlen) :=
  Occurs (Step config (sbiCalls config)) (Executes config g op)

/-- What a mask call has every selected hart do. -/
@[simp]
def effect : HartMaskCall xlen → Op xlen
  | .sendIpi => .csr_bitset .mip 0x2#_
  | .remoteFenceI => .fence_i
  | .remoteSfenceVma _ _ => .sfence_vma
  | .remoteSfenceVmaAsid _ _ _ => .sfence_vma

/-- Code that only acknowledges its command before it executes `op`. -/
inductive LeadsTo (op : Op xlen) : List (Op xlen) → Prop
  | now (rest : List (Op xlen)) : LeadsTo op (op :: rest)
  | clear_command {rest : List (Op xlen)} :
      LeadsTo op rest → LeadsTo op (.clear_command :: rest)
  | clear_msip {rest : List (Op xlen)} :
      LeadsTo op rest → LeadsTo op (.clear_msip :: rest)

/-- The branch for the command of a mask call. -/
theorem handle_leadsTo
    (config : Config)
    (g : Nat)
    (call : HartMaskCall config.xlen)
    (stack : Word config.xlen → Hart_Command config.xlen)
    (hartid : Word config.xlen) :
    LeadsTo (effect call) (handleCommand config g (call.commandFor stack hartid)) := by
  have commands : (HARTCMD_REMOTE_FENCE_I : Word config.xlen) ≠ HARTCMD_SWITCHCONTEXT ∧
      (HARTCMD_REMOTE_FENCE_I : Word config.xlen) ≠ HARTCMD_STARTHART ∧
      (HARTCMD_REMOTE_SFENCE_VMA : Word config.xlen) ≠ HARTCMD_SWITCHCONTEXT ∧
      (HARTCMD_REMOTE_SFENCE_VMA : Word config.xlen) ≠ HARTCMD_STARTHART ∧
      (HARTCMD_REMOTE_SFENCE_VMA : Word config.xlen) ≠ HARTCMD_REMOTE_FENCE_I ∧
      (HARTCMD_REMOTE_SFENCE_VMA_ASID : Word config.xlen) ≠ HARTCMD_SWITCHCONTEXT ∧
      (HARTCMD_REMOTE_SFENCE_VMA_ASID : Word config.xlen) ≠ HARTCMD_STARTHART ∧
      (HARTCMD_REMOTE_SFENCE_VMA_ASID : Word config.xlen) ≠ HARTCMD_REMOTE_FENCE_I ∧
      (HARTCMD_REMOTE_SFENCE_VMA_ASID : Word config.xlen) ≠ HARTCMD_REMOTE_SFENCE_VMA ∧
      (HARTCMD_SMODE_SOFTINT : Word config.xlen) ≠ HARTCMD_SWITCHCONTEXT ∧
      (HARTCMD_SMODE_SOFTINT : Word config.xlen) ≠ HARTCMD_STARTHART ∧
      (HARTCMD_SMODE_SOFTINT : Word config.xlen) ≠ HARTCMD_REMOTE_FENCE_I ∧
      (HARTCMD_SMODE_SOFTINT : Word config.xlen) ≠ HARTCMD_REMOTE_SFENCE_VMA ∧
      (HARTCMD_SMODE_SOFTINT : Word config.xlen) ≠ HARTCMD_REMOTE_SFENCE_VMA_ASID := by
    cases config.xlen <;> decide
  cases call with
  | sendIpi =>
      simp only [handleCommand, HartMaskCall.commandFor, commands, if_false, if_true]
      exact .clear_command (.clear_msip (.now _))
  | remoteFenceI =>
      simp only [handleCommand, HartMaskCall.commandFor, commands, if_false, if_true]
      exact .now _
  | remoteSfenceVma start_addr size =>
      simp only [handleCommand, HartMaskCall.commandFor, commands, if_false, if_true]
      exact .now _
  | remoteSfenceVmaAsid start_addr size asid =>
      simp only [handleCommand, HartMaskCall.commandFor, commands, if_false, if_true]
      exact .now _

section

variable {config : Config} {system next : System config.xlen}
  {label : Label config.xlen} {g k : Nat} {op : Op config.xlen}

/-- Hart `g` has a command, or a branch of its handler, that leads to `op`. -/
def Settling
    (config : Config) (g : Nat) (op : Op config.xlen) (system : System config.xlen) :
    Prop :=
  (∃ ops, (system.harts g).handler = some ops ∧ LeadsTo op ops) ∨
    ∃ command, (mailbox g system).unread = [command] ∧
      LeadsTo op (handleCommand config g command)

/-- The handler of the hart that receives a command enters the branch for it. -/
theorem Managed.receives
    {started : Bool}
    {command : Hart_Command config.xlen}
    (managed : Managed started system)
    (step : Step config (sbiCalls config) system label next)
    (received : label.event = .received command) :
    (next.harts label.hart).handler = some (handleCommand config label.hart command) := by
  cases step with
  | @main h op rest idle code =>
      obtain ⟨rfl, -⟩ := exec_received received
      have contract := (managed.delivery 0).main h
      rw [code, everySuffix_cons] at contract
      exact contract.1.elim
  | @handler h op rest code =>
      obtain ⟨rfl, rfl⟩ := exec_received received
      have contract := (managed.delivery 0).handler h _ code
      rw [everySuffix_cons] at contract
      obtain rfl : rest = [] := contract.1
      rw [set_self]
      simp [exec]
  | _ => cases received

/-- A command that is unread stays so until its hart receives it. -/
theorem Managed.keeps_unread
    {started : Bool}
    {command : Hart_Command config.xlen}
    (managed : Managed started system)
    (step : Step config (sbiCalls config) system label next)
    (unread : (mailbox g system).unread = [command]) :
    (label.hart = g ∧ label.event = .received command) ∨
      (mailbox g next).unread = [command] ∧ ∀ other, label.mail g ≠ .received other := by
  exact (managed.delivery g).keeps_unread
    (fun h ops code => SendingCode.complete h ops (.inl code)) step unread

/-- A hart settles on until it executes the operation. -/
theorem Settling.step
    {started : Bool}
    (settling : Settling config g op system)
    (managed : Managed started system)
    (step : Step config (sbiCalls config) system label next) :
    Executes config g op system label next ∨ Settling config g op next := by
  rcases settling with ⟨ops, code, leads⟩ | ⟨command, unread, leads⟩
  · by_cases own : g = label.hart
    · subst own
      obtain ⟨first, rest, rfl, level, event, same⟩ := step.running code
      cases leads with
      | now =>
          refine .inl ⟨.handler, rest, by simp [code], ?_, same⟩
          rw [← event, ← level]
      | clear_command later =>
          refine .inr (.inl ⟨rest, ?_, later⟩)
          rw [same, set_self]
          rfl
      | clear_msip later =>
          refine .inr (.inl ⟨rest, ?_, later⟩)
          rw [same, set_self]
          rfl
    · refine .inr (.inl ⟨ops, ?_, leads⟩)
      rwa [step.frame own]
  · rcases managed.keeps_unread step unread with ⟨rfl, event⟩ | ⟨kept, -⟩
    · exact .inr (.inl ⟨_, managed.receives step event, leads⟩)
    · exact .inr (.inr ⟨command, kept, leads⟩)

theorem Settling.run
    {started : Bool}
    {labels : List (Label config.xlen)}
    (settling : Settling config g op system)
    (managed : Managed started system)
    (run : Run (Step config (sbiCalls config)) system labels next) :
    Executed config g op system labels next ∨ Settling config g op next :=
  run.occurs_or_waits (fun current => ∃ started, Managed started current)
    (Settling config g op)
    (fun taken ⟨_, before⟩ => ⟨_, (before.step taken).2⟩)
    (fun taken ⟨_, before⟩ waits => waits.step before taken)
    ⟨started, managed⟩ settling

/-- A hart without a handler and without an interrupt has nothing to settle. -/
theorem Settling.busy
    (settling : Settling config g op system)
    (low : system.memory.clint_msip g = 0) :
    (system.harts g).handler ≠ none := by
  rcases settling with ⟨ops, code, -⟩ | ⟨command, unread, -⟩
  · rw [code]
    simp
  · simp [Mailbox.State.unread, mailbox, low] at unread

/-- What hart `k` has yet to do in a mask call for hart `g`: the operation itself, or
the send of a command that leads to it. -/
def Duty (config : Config) (k g : Nat) (op : Op config.xlen) (duty : Op config.xlen) :
    Prop :=
  k = g ∧ duty = op ∨
    ∃ command, duty = .raise g command ∧ LeadsTo op (handleCommand config g command)

/-- The mask call has reached hart `g`, or will do so. -/
def Reaching
    (config : Config) (k g : Nat) (op : Op config.xlen) (system : System config.xlen) :
    Prop :=
  Settling config g op system ∨ (system.harts k).main = [] ∨
    ∃ duty ∈ (system.harts k).main, Duty config k g op duty

/-- A raise leaves its command unread. -/
theorem Managed.raised
    {started : Bool}
    {command : Hart_Command config.xlen}
    (managed : Managed started system)
    (step : Step config (sbiCalls config) system label next)
    (event : label.event = .raised g command) :
    (mailbox g next).unread = [command] := by
  have moves := ((managed.delivery g).step
    (fun h ops code => SendingCode.complete h ops (.inl code)) step).1
  have balance := moves.unread_balance (managed.delivery g).invariant
  have short := (mailbox g next).unread_length
  simp only [Label.mail, event, if_true, Mailbox.sent_singleton,
    Mailbox.receipts_singleton, List.map_cons, List.map_nil, List.nil_append] at balance
  rw [← balance, List.length_append, List.length_singleton] at short
  have empty : (mailbox g system).unread = [] := List.length_eq_zero_iff.mp (by omega)
  rw [← balance, empty, List.nil_append]

theorem Reaching.step
    {started : Bool}
    (reaching : Reaching config k g op system)
    (managed : Managed started system)
    (step : Step config (sbiCalls config) system label next)
    (same : ∀ ops, label ≠ ⟨k, .main, .called ops⟩) :
    Executes config g op system label next ∨ Reaching config k g op next := by
  rcases reaching with settling | waiting
  · exact (settling.step managed step).imp_right .inl
  rcases step.main_cases k with
    ⟨main, -⟩ | ⟨ops, called, -, -⟩ | ⟨first, rest, idle, code, labelled, moved⟩
  · rcases main with kept | gone
    · exact .inr (.inr (by rwa [kept]))
    · exact .inr (.inr (.inl gone))
  · exact absurd called (same ops)
  · obtain ⟨duty, inside, owed⟩ := waiting.resolve_left (by rw [code]; simp)
    rw [code] at inside
    rcases List.mem_cons.mp inside with rfl | later
    · rcases owed with ⟨rfl, rfl⟩ | ⟨command, rfl, leads⟩
      · exact .inl ⟨.main, rest, code, labelled, moved⟩
      · refine .inr (.inl (.inr ⟨command, managed.raised step ?_, leads⟩))
        rw [labelled]
        rfl
    · rcases (exec_main_continues code).mem later with gone | inside
      · refine .inr (.inr (.inl ?_))
        rw [moved, set_self]
        exact gone
      · refine .inr (.inr (.inr ⟨duty, ?_, owed⟩))
        rw [moved, set_self]
        exact inside

/-! ## The settling hart goes on by itself -/

/-- Only the switch enters S-mode. -/
theorem exec_stays
    (other : op ≠ .switch_to_user_context) :
    Label.enters ⟨h, level, (exec config h level rest hart memory op).1⟩ = false := by
  cases op with
  | wait_load lock => simp only [exec]; split_ifs <;> rfl
  | wait_swap lock =>
      simp only [exec]
      split_ifs
      · cases lock <;> rfl
      · rfl
  | poll t => simp only [exec]; split_ifs <;> rfl
  | check_hart_state t command => simp only [exec]; split_ifs <;> rfl
  | switch_to_user_context => exact absurd rfl other
  | _ => rfl

/-- Steps of hart `g` alone lead to `op`. -/
def Finishes
    (config : Config) (g : Nat) (op : Op config.xlen) (system : System config.xlen) :
    Prop :=
  ∃ labels last, Executed config g op system labels last ∧
    ∀ label ∈ labels, label.hart = g

theorem Finishes.cons
    (finishes : Finishes config g op next)
    (step : Step config (sbiCalls config) system label next)
    (own : label.hart = g) :
    Finishes config g op system := by
  obtain ⟨labels, last, executed, alone⟩ := finishes
  refine ⟨label :: labels, last, Occurs.prepend (.single step) executed, ?_⟩
  rintro other (_ | ⟨_, member⟩)
  · exact own
  · exact alone other member

theorem LeadsTo.finishes
    {ops : List (Op config.xlen)}
    (leads : LeadsTo op ops)
    (code : (system.harts g).handler = some ops) :
    Finishes config g op system := by
  induction leads generalizing system with
  | now rest =>
      have step := @Step.handler config (sbiCalls config) _ _ _ _ code
      refine ⟨[_], _, .now (.refl _) step ⟨.handler, rest, by simp [code], rfl, rfl⟩, ?_⟩
      simp
  | clear_command _ inductionHypothesis =>
      refine (inductionHypothesis ?_).cons (.handler code) rfl
      rw [set_self]
      rfl
  | clear_msip _ inductionHypothesis =>
      refine (inductionHypothesis ?_).cons (.handler code) rfl
      rw [set_self]
      rfl

/-- Steps of hart `g` alone, none of which enters S-mode, make it receive `command`. -/
def Receives
    (config : Config) (g : Nat) (command : Hart_Command config.xlen)
    (system : System config.xlen) : Prop :=
  ∃ labels last, Run (Step config (sbiCalls config)) system labels last ∧
    (last.harts g).handler = some (handleCommand config g command) ∧
      ∀ label ∈ labels, label.hart = g ∧ label.enters = false

theorem Receives.cons
    {command : Hart_Command config.xlen}
    (receives : Receives config g command next)
    (step : Step config (sbiCalls config) system label next)
    (own : label.hart = g)
    (early : label.enters = false) :
    Receives config g command system := by
  obtain ⟨labels, last, path, code, alone⟩ := receives
  refine ⟨label :: labels, last, path.cons step, code, ?_⟩
  rintro other (_ | ⟨_, member⟩)
  · exact ⟨own, early⟩
  · exact alone other member

/-- A handler that reads gets to the branch of the unread command. -/
theorem Managed.receives_reading
    {started : Bool}
    {ops : List (Op config.xlen)}
    {command : Hart_Command config.xlen}
    (managed : Managed started system)
    (code : (system.harts g).handler = some ops)
    (reads : handlerPhase ops = .reading)
    (unread : (mailbox g system).unread = [command]) :
    Receives config g command system := by
  induction length : ops.length generalizing system started ops with
  | zero =>
      rw [List.length_eq_zero_iff.mp length] at reads
      cases reads
  | succ n inductionHypothesis =>
      obtain ⟨op, rest, rfl⟩ := List.exists_cons_of_length_eq_add_one length
      obtain ⟨label, next, step, own, level, early⟩ : ∃ label next,
          Step config (sbiCalls config) system label next ∧ label.hart = g ∧
            label.level = .handler ∧ label.enters = false := by
        refine ⟨_, _, .handler code, rfl, rfl, exec_stays ?_⟩
        rintro rfl
        cases reads.symm.trans ((managed.delivery g).handler g _ code).1
      rcases managed.keeps_unread step unread with ⟨-, event⟩ | ⟨kept, silent⟩
      · have after := managed.receives step event
        rw [own] at after
        refine ⟨[label], next, .single step, after, ?_⟩
        simp [own, early]
      · rcases (managed.delivery g).reading_step code reads step with
          ⟨other, received⟩ | ⟨after, codeAfter, readsAfter, count⟩
        · exact absurd received (silent other)
        · have one : handlerSteps g [label] = 1 := by
            simp [handlerSteps, own, level]
          have closer : after.length = n := by
            rw [one, length] at count
            omega
          exact (inductionHypothesis (managed.step step).2 codeAfter readsAfter kept
            closer).cons step own early

/-- A hart without a handler takes its interrupt and receives its command. -/
theorem Managed.receives_pending
    {started : Bool}
    {command : Hart_Command config.xlen}
    (managed : Managed started system)
    (idle : (system.harts g).handler = none)
    (unread : (mailbox g system).unread = [command]) :
    Receives config g command system := by
  have up : system.memory.clint_msip g ≠ 0 := by
    intro low
    simp [Mailbox.State.unread, mailbox, low] at unread
  have step := @Step.software_interrupt config (sbiCalls config) _ _ idle up
  rcases managed.keeps_unread step unread with ⟨-, event⟩ | ⟨kept, -⟩
  · cases event
  · have reading := (managed.step step).2.receives_reading (by simp [System.setHart])
      HandlerFrom.software.2 kept
    exact reading.cons step rfl rfl

/-- A hart without a handler settles by itself. -/
theorem Settling.finishes
    {started : Bool}
    (settling : Settling config g op system)
    (managed : Managed started system)
    (idle : (system.harts g).handler = none) :
    Finishes config g op system := by
  rcases settling with ⟨ops, code, -⟩ | ⟨command, unread, leads⟩
  · cases idle.symm.trans code
  · obtain ⟨front, reached, path, code, own⟩ := managed.receives_pending idle unread
    obtain ⟨labels, last, executed, alone⟩ := leads.finishes code
    refine ⟨front ++ labels, last, Occurs.prepend path executed, fun label member => ?_⟩
    rcases List.mem_append.mp member with first | later
    · exact (own label first).1
    · exact alone label later

/-! ## Mask calls -/

/-- A call that succeeds visits every hart that it selects. -/
theorem selected_visited
    {hart_mask hart_mask_base : Word config.xlen}
    (fits : config.TOTAL_HART_COUNT ≤ config.xlen.bits)
    (selected : g ∈ SelectedHarts config.toPlatform hart_mask hart_mask_base)
    (valid : config.ValidHart g) :
    BitVec.ofNat _ g ∈ visitedHarts config.toPlatform hart_mask hart_mask_base := by
  obtain ⟨i, bit, rfl⟩ := (mem_selectedHarts fits ..).mp selected
  have size := config.total_le_size
  have inside := valid.2
  refine List.mem_map.mpr ⟨i, bit, ?_⟩
  apply BitVec.eq_of_toNat_eq
  rw [toNat_hartidAt (by omega), BitVec.toNat_ofNat, Nat.mod_eq_of_lt]
  unfold Xlen.size at size
  omega

/-- The code of a mask call that succeeds has a duty for every hart that it
selects. -/
theorem duty_of_selected
    {call : HartMaskCall config.xlen}
    {hart_mask hart_mask_base : Word config.xlen}
    {stack : Word config.xlen → Hart_Command config.xlen}
    (fits : config.TOTAL_HART_COUNT ≤ config.xlen.bits)
    (caller : k < config.TOTAL_HART_COUNT)
    (success : (call.run config.toPlatform (BitVec.ofNat _ k) stack hart_mask
      hart_mask_base).ret.error = SBI_SUCCESS)
    (selected : g ∈ SelectedHarts config.toPlatform hart_mask hart_mask_base)
    (valid : config.ValidHart g) :
    ∃ duty ∈ call_to_sbi config.toPlatform k (.mask call hart_mask hart_mask_base stack),
      Duty config k g (effect call) duty := by
  rw [HartMaskCall.run_success_iff] at success
  have visited := selected_visited fits selected valid
  have size := config.total_le_size
  unfold Xlen.size at size
  have same : (BitVec.ofNat config.xlen.bits g).toNat = g :=
    (BitVec.toNat_ofNat ..).trans (Nat.mod_eq_of_lt (by have := valid.2; omega))
  have acts : ∃ duty ∈ actionOps (call.actionFor (BitVec.ofNat _ k) stack
      (BitVec.ofNat _ g)), Duty config k g (effect call) duty := by
    by_cases own : k = g
    · refine ⟨effect call, ?_, .inl ⟨own, rfl⟩⟩
      rw [HartMaskCall.actionFor, if_pos (by rw [own])]
      cases call <;> simp [HartMaskCall.localAction, actionOps]
    · have differ : BitVec.ofNat config.xlen.bits g ≠ BitVec.ofNat config.xlen.bits k := by
        intro equal
        have numbers := congrArg BitVec.toNat equal
        rw [same, BitVec.toNat_ofNat, Nat.mod_eq_of_lt (by omega)] at numbers
        exact own numbers.symm
      refine ⟨.raise g (call.commandFor stack (BitVec.ofNat _ g)), ?_,
        .inr ⟨_, rfl, handle_leadsTo config g call stack _⟩⟩
      rw [HartMaskCall.actionFor, if_neg differ, actionOps, same]
      simp [send_hart_command_que]
  obtain ⟨duty, inside, owed⟩ := acts
  refine ⟨duty, ?_, owed⟩
  rw [call_to_sbi, maskedOps, HartMaskCall.run_eq, if_pos success]
  simp only [List.flatMap_nil, List.nil_append]
  refine List.mem_append_left _ (List.mem_flatMap.mpr ⟨_, ?_, inside⟩)
  exact List.mem_map_of_mem visited

/-- From the call on, until it returns, the call reaches hart `g`. -/
theorem Reaching.run
    {started : Bool}
    {window : List (Label config.xlen)}
    (reaching : Reaching config k g op system)
    (managed : Managed started system)
    (run : Run (Step config (sbiCalls config)) system window next)
    (within : ∀ ops, ⟨k, .main, .called ops⟩ ∉ window) :
    Executed config g op system window next ∨ Reaching config k g op next := by
  have other : Run (fun before label after =>
      Step config (sbiCalls config) before label after ∧
        ∀ ops, label ≠ ⟨k, .main, .called ops⟩) system window next := by
    apply run.labelled
    rintro label member ops rfl
    exact within ops member
  have settled := @Run.occurs_or_waits _ _ _ (Executes config g op) _ _ _ other
    (fun current => ∃ started, Managed started current) (Reaching config k g op)
    (fun taken ⟨_, before⟩ => ⟨_, (before.step taken.1).2⟩)
    (fun taken ⟨_, before⟩ waits => waits.step before taken.1 taken.2)
    ⟨started, managed⟩ reaching
  exact settled.imp_left fun occurs => occurs.mono And.left

/-- The code that returns has no duty left. -/
theorem Reaching.returned
    {started : Bool}
    {retval : sbiret}
    (reaching : Reaching config k g op system)
    (managed : Managed started system)
    (lasting : ∀ value, op ≠ .ret value)
    (loading : ∀ t, op ≠ .ret_hart_state t)
    (step : Step config (sbiCalls config) system ⟨k, .main, .returned retval⟩ next) :
    Settling config g op system := by
  refine reaching.resolve_right fun waiting => ?_
  rcases step.main_cases k with
    ⟨-, silent⟩ | ⟨ops, called, -, -⟩ | ⟨first, rest, idle, code, labelled, -⟩
  · cases silent rfl rfl
  · cases called
  · have contract := managed.main 0 k
    rw [code, everySuffix_cons] at contract
    obtain ⟨rfl, ends⟩ :=
      exec_main_returned contract.1 (congrArg Label.event labelled).symm
    rw [code] at waiting
    obtain ⟨duty, inside, owed⟩ := waiting.resolve_left (by simp)
    obtain rfl := List.mem_singleton.mp inside
    rcases owed with ⟨-, same⟩ | ⟨command, same, -⟩
    · rcases ends with rfl | ⟨t, rfl⟩
      · exact lasting retval same.symm
      · exact loading t same.symm
    · subst same
      rcases ends with ends | ⟨t, ends⟩ <;> cases ends

/-- Along every run from boot, after a successful `sbi_send_ipi` or remote fence every
hart that it selects has done what it was asked for, since the call, as soon as it has
no handler running and no interrupt pending.  While it has an interrupt pending and no
handler running, its own steps get it there. -/
theorem mask_calls_settle
    {first start begun finish returned last : System config.xlen}
    {before window after : List (Label config.xlen)}
    {call : HartMaskCall config.xlen}
    {hart_mask hart_mask_base : Word config.xlen}
    {stack : Word config.xlen → Hart_Command config.xlen}
    {retval : sbiret}
    (fits : config.TOTAL_HART_COUNT ≤ config.xlen.bits)
    (caller : k < config.TOTAL_HART_COUNT)
    (booted : Booted config first)
    (earlier : Run (Step config (sbiCalls config)) first before start)
    (called : Step config (sbiCalls config) start
      ⟨k, .main, .called (call_to_sbi config.toPlatform k
        (.mask call hart_mask hart_mask_base stack))⟩ begun)
    (body : Run (Step config (sbiCalls config)) begun window finish)
    (within : ∀ ops, ⟨k, .main, .called ops⟩ ∉ window)
    (returns : Step config (sbiCalls config) finish ⟨k, .main, .returned retval⟩ returned)
    (success : retval.error = SBI_SUCCESS)
    (later : Run (Step config (sbiCalls config)) returned after last) :
    ∀ g ∈ SelectedHarts config.toPlatform hart_mask hart_mask_base, config.ValidHart g →
      (last.harts g).handler = none →
        (last.memory.clint_msip g = 0 →
          Executed config g (effect call) begun
            (window ++ ⟨k, .main, .returned retval⟩ :: after) last) ∧
        ∃ more end_, Executed config g (effect call) begun
            (window ++ ⟨k, .main, .returned retval⟩ :: after ++ more) end_ ∧
          Run (Step config (sbiCalls config)) last more end_ ∧
          ∀ label ∈ more, label.hart = g := by
  intro g selected valid idle
  have managedStart := booted.managed.run earlier
  have managedBegun := (managedStart.step called).2
  have main : (begun.harts k).main = call_to_sbi config.toPlatform k
      (.mask call hart_mask hart_mask_base stack) := by
    rcases called.main_cases k with
      ⟨-, silent⟩ | ⟨other, same, -, main⟩ | ⟨op, code, -, -, same, -⟩
    · cases silent rfl rfl
    · cases same
      exact main
    · exact absurd (congrArg Label.event same).symm exec_not_called
  have answer : (call.run config.toPlatform (BitVec.ofNat _ k) stack hart_mask
      hart_mask_base).ret = retval := by
    have whole := ((earlier.append (Run.cons called body)).snoc returns)
    have ends := callEnd_masked config.toPlatform (BitVec.ofNat _ k) hart_mask
      hart_mask_base stack call
    rcases call_returns booted.managed whole within with
      ⟨-, same | ⟨t, same⟩⟩ | ⟨_, _, _, _, _, same, _⟩
    · cases ends.symm.trans same
      rfl
    · cases ends.symm.trans same
    · cases ends.symm.trans same
  have owed : ∃ duty ∈ call_to_sbi config.toPlatform k
      (.mask call hart_mask hart_mask_base stack), Duty config k g (effect call) duty :=
    duty_of_selected fits caller (by rw [answer]; exact success) selected valid
  have reaching : Reaching config k g (effect call) begun := .inr (.inr (by rwa [main]))
  have settled : Executed config g (effect call) begun
      (window ++ ⟨k, .main, .returned retval⟩ :: after) last ∨
        Settling config g (effect call) last := by
    have rest := Run.cons returns later
    rcases reaching.run managedBegun body within with executed | reaching
    · exact .inl (executed.append rest)
    · have managedFinish := managedBegun.run body
      have settling := reaching.returned managedFinish (by cases call <;> simp)
        (by cases call <;> simp) returns
      exact (settling.run managedFinish rest).imp_left (Occurs.prepend body)
  refine ⟨fun low => settled.resolve_right fun settling => settling.busy low idle, ?_⟩
  rcases settled with executed | settling
  · exact ⟨[], last, by simpa using executed, .refl _, by simp⟩
  · have managedLast := (managedBegun.run body).run (Run.cons returns later)
    obtain ⟨more, end_, executed, alone⟩ := settling.finishes managedLast idle
    refine ⟨more, end_, ?_, executed.run, alone⟩
    exact Occurs.prepend (body.append (Run.cons returns later)) executed

/-- A schedule that begins with a call makes the step of the call first. -/
theorem play_call
    {moves : List (Move config.xlen)}
    {request : Request config.xlen}
    {result : List (Label config.xlen) × System config.xlen}
    (played : play config (.call k request :: moves) system = some result) :
    ∃ begun labels,
      result.1 = ⟨k, .main, .called (call_to_sbi config.toPlatform k request)⟩ :: labels ∧
      Step config (sbiCalls config) system
        ⟨k, .main, .called (call_to_sbi config.toPlatform k request)⟩ begun ∧
      Run (Step config (sbiCalls config)) begun labels result.2 := by
  simp only [play] at played
  split at played
  · cases played
  · next label begun taken =>
      split at played
      · cases played
      · next labels last rest =>
          cases played
          have step := (Move.take_step taken).1
          have here : label =
              ⟨k, .main, .called (call_to_sbi config.toPlatform k request)⟩ := by
            simp only [Move.take] at taken
            split at taken
            · cases taken
              rfl
            · cases taken
          subst here
          exact ⟨begun, labels, rfl, step, (play_run rest).1⟩

set_option maxRecDepth 8000 in
/-- Both harts run the kernel, and the one calls for a fence on the other. -/
theorem mask_calls_settle_board :
    ∃ begun labels last, Executed twoHartBoard 1 .fence_i begun labels last := by
  have played : (play twoHartBoard (bootSchedule ++ startSchedule)
      (bootSystem twoHartBoard)).any (fun reached =>
        (play twoHartBoard (.call 0 (.mask .remoteFenceI 2#_ 0#_ fun _ => .cleared)
            :: List.replicate 15 (.advance 0)) reached.2).any fun result =>
          succeeds 0 result.1.tail && (result.2.harts 1).handler.isNone) = true := by
    decide
  obtain ⟨before, start, earlier, -, reached⟩ := play_reaches (fun _ start =>
    (play twoHartBoard (.call 0 (.mask .remoteFenceI 2#_ 0#_ fun _ => .cleared)
        :: List.replicate 15 (.advance 0)) start).any fun result =>
      succeeds 0 result.1.tail && (result.2.harts 1).handler.isNone) played
  cases result : play twoHartBoard (.call 0 (.mask .remoteFenceI 2#_ 0#_ fun _ => .cleared)
      :: List.replicate 15 (.advance 0)) start with
  | none =>
      rw [result] at reached
      cases reached
  | some done =>
      rw [result] at reached
      obtain ⟨success, idle⟩ := Bool.and_eq_true_iff.mp reached
      obtain ⟨begun, labels, shape, called, run⟩ := play_call result
      rw [shape, List.tail_cons] at success
      obtain ⟨window, retval, rfl, error, within⟩ := succeeds_iff success
      obtain ⟨finish, body, final⟩ := run.of_append
      obtain ⟨returned, returns, rest⟩ := final.of_cons
      obtain rfl := rest.of_nil
      have selected : 1 ∈ SelectedHarts twoHartBoard.toPlatform 2#_ 0#_ := by
        rw [SelectedHarts, if_neg (by decide)]
        exact ⟨1, by decide, by decide⟩
      obtain ⟨-, more, end_, executed, -⟩ := mask_calls_settle (by decide) (by decide)
        (bootSystem_booted twoHartBoard) earlier called body within returns error (.refl _)
        1 selected (by decide) (Option.isNone_iff_eq_none.mp idle)
      exact ⟨begun, _, end_, executed⟩

end

end Harts
end EchelonSbi
