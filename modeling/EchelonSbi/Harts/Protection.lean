import EchelonSbi.Harts.Parking

/-!
# The registers of the physical memory protection

On the QEMU board the start branch writes four registers before it enters
S-mode.  No other firmware code writes them, and code below M-mode cannot.  So
they hold what the start branch wrote on every hart that has entered S-mode.
-/

namespace EchelonSbi
namespace Harts

open Foundation
open Sbi

section Code

variable {config : Config} {csrs later : Csr → Word config.xlen}
  {op : Op config.xlen} {left ops : List (Op config.xlen)}

/-- `0x003FFFFFFFFFFFFF` or `0xFFFFFFFF`: the bits of an address register. -/
def pmpMask : (xlen : Xlen) → Word xlen
  | .rv32 => 0xFFFFFFFF#_
  | .rv64 => 0x003FFFFFFFFFFFFF#_

/-- What the start branch writes to the registers of the protection. -/
def pmpValue (config : Config) : Csr → Option (Word config.xlen)
  | .pmpaddr0 => some (0x80000000#_ >>> 2 &&& pmpMask config.xlen)
  | .pmpaddr1 => some (config.kernel_load_to_point >>> 2 &&& pmpMask config.xlen)
  | .pmpaddr2 => some (BitVec.allOnes _ >>> 2 &&& pmpMask config.xlen)
  | .pmpcfg0 => some (0x0F0000#_ ||| 0x0800#_ ||| 0x0B#_)
  | _ => none

/-- The registers hold what the start branch writes. -/
def PmpInstalled (config : Config) (csrs : Csr → Word config.xlen) : Prop :=
  ∀ csr value, pmpValue config csr = some value → csrs csr = value

/-- The control registers after an operation. -/
def Op.csrsAfter (csrs : Csr → Word xlen) : Op xlen → Csr → Word xlen
  | .csr_write csr value => Function.update csrs csr value
  | .csr_bitset csr mask => Function.update csrs csr (csrs csr ||| mask)
  | .csr_bitclr csr mask => Function.update csrs csr (csrs csr &&& ~~~mask)
  | _ => csrs

/-- An operation that writes nothing else to the registers of the
protection. -/
def Op.Installs (config : Config) : Op config.xlen → Prop
  | .csr_write csr value =>
      ∀ installed, pmpValue config csr = some installed → value = installed
  | .csr_bitset csr _ => pmpValue config csr = none
  | .csr_bitclr csr _ => pmpValue config csr = none
  | _ => True

/-- Code enters S-mode with the registers installed only. -/
def LeadsIn (config : Config) :
    (Csr → Word config.xlen) → List (Op config.xlen) → Prop
  | _, [] => True
  | csrs, op :: rest =>
      (op = .switch_to_user_context → PmpInstalled config csrs) ∧
        LeadsIn config (op.csrsAfter csrs) rest

/-- The registers installed before are installed later. -/
def AtLeast (config : Config) (csrs later : Csr → Word config.xlen) : Prop :=
  ∀ csr value, pmpValue config csr = some value → csrs csr = value →
    later csr = value

theorem Op.Installs.atLeast (installs : op.Installs config) :
    AtLeast config csrs (op.csrsAfter csrs) := by
  intro csr value installed held
  cases op with
  | csr_write written other =>
      by_cases same : csr = written
      · subst same
        rw [csrsAfter, Function.update_self]
        exact installs value installed
      · rw [csrsAfter, Function.update_of_ne same]
        exact held
  | csr_bitset written mask =>
      rw [csrsAfter, Function.update_of_ne]
      · exact held
      · rintro rfl
        cases installs.symm.trans installed
  | csr_bitclr written mask =>
      rw [csrsAfter, Function.update_of_ne]
      · exact held
      · rintro rfl
        cases installs.symm.trans installed
  | _ => exact held

theorem AtLeast.step
    (more : AtLeast config csrs later)
    (op : Op config.xlen)
    (installs : op.Installs config) :
    AtLeast config (op.csrsAfter csrs) (op.csrsAfter later) := by
  intro csr value installed held
  cases op with
  | csr_write written other =>
      by_cases same : csr = written
      · subst same
        rw [Op.csrsAfter, Function.update_self] at held ⊢
        exact held
      · rw [Op.csrsAfter, Function.update_of_ne same] at held ⊢
        exact more csr value installed held
  | csr_bitset written mask =>
      have other : csr ≠ written := by
        rintro rfl
        cases installs.symm.trans installed
      rw [Op.csrsAfter, Function.update_of_ne other] at held ⊢
      exact more csr value installed held
  | csr_bitclr written mask =>
      have other : csr ≠ written := by
        rintro rfl
        cases installs.symm.trans installed
      rw [Op.csrsAfter, Function.update_of_ne other] at held ⊢
      exact more csr value installed held
  | _ => exact more csr value installed held

theorem PmpInstalled.atLeast
    (installed : PmpInstalled config csrs)
    (more : AtLeast config csrs later) :
    PmpInstalled config later :=
  fun csr value here => more csr value here (installed csr value here)

theorem LeadsIn.mono
    (leads : LeadsIn config csrs ops)
    (installs : ∀ op ∈ ops, op.Installs config)
    (more : AtLeast config csrs later) :
    LeadsIn config later ops := by
  induction ops generalizing csrs later with
  | nil => trivial
  | cons op rest inductionHypothesis =>
      refine ⟨fun enters => (leads.1 enters).atLeast more, ?_⟩
      exact inductionHypothesis leads.2
        (fun other member => installs other (List.mem_cons_of_mem _ member))
        (more.step op (installs op List.mem_cons_self))

/-- With the registers installed code can enter S-mode. -/
theorem LeadsIn.of_installed
    (installed : PmpInstalled config csrs)
    (installs : ∀ op ∈ ops, op.Installs config) :
    LeadsIn config csrs ops := by
  induction ops generalizing csrs with
  | nil => trivial
  | cons op rest inductionHypothesis =>
      refine ⟨fun _ => installed, ?_⟩
      exact inductionHypothesis
        (installed.atLeast (installs op List.mem_cons_self).atLeast)
        fun other member => installs other (List.mem_cons_of_mem _ member)

/-- Code that does not enter S-mode can be put in front. -/
theorem LeadsIn.append
    (leads : ∀ later, LeadsIn config later ops)
    (stays : ∀ op ∈ left, op ≠ .switch_to_user_context) :
    LeadsIn config csrs (left ++ ops) := by
  induction left generalizing csrs with
  | nil => exact leads csrs
  | cons op left inductionHypothesis =>
      refine ⟨fun enters => absurd enters (stays op List.mem_cons_self), ?_⟩
      exact inductionHypothesis
        fun other member => stays other (List.mem_cons_of_mem _ member)

theorem LeadsIn.of_stays
    (stays : ∀ op ∈ ops, op ≠ .switch_to_user_context) :
    LeadsIn config csrs ops := by
  have leads : LeadsIn config csrs (ops ++ []) :=
    LeadsIn.append (fun _ => trivial) stays
  rwa [List.append_nil] at leads

/-- Operations of calls write none of the registers and do not enter
S-mode. -/
theorem Op.OfCall.installs
    (config : Config)
    {op : Op config.xlen}
    (ofCall : op.OfCall) :
    op.Installs config ∧ op ≠ .switch_to_user_context := by
  cases op with
  | csr_bitset csr mask =>
      obtain rfl : csr = .mip := ofCall
      exact ⟨rfl, nofun⟩
  | csr_write csr value => exact ofCall.elim
  | csr_bitclr csr mask => exact ofCall.elim
  | switch_to_user_context => exact ofCall.elim
  | _ => exact ⟨trivial, nofun⟩

end Code

section Handlers

/-! ## The code of the handlers -/

variable {config : Config}

theorem printm_installs (text : String) :
    ∀ op ∈ (printm text : List (Op config.xlen)), op.Installs config :=
  fun op member => ((printm_ofCall text op member).installs config).1

theorem printm_stays (text : String) :
    ∀ op ∈ (printm text : List (Op config.xlen)),
      op ≠ .switch_to_user_context :=
  fun op member => ((printm_ofCall text op member).installs config).2

theorem startContext_installs (h : Nat) (command : Hart_Command config.xlen) :
    ∀ op ∈ startContext h command, op.Installs config := by
  apply forall_mem_append
  · apply forall_mem_append
    · simp [Op.Installs, pmpValue]
    · apply forall_mem_append
      · simp [Op.Installs]
      · intro op member
        obtain ⟨i, -, rfl⟩ := List.mem_map.mp member
        trivial
  · simp [Op.Installs]

theorem qemuFixes_installs (config : Config) (h : Nat) :
    ∀ op ∈ qemuFixes config h, op.Installs config := by
  apply forall_mem_append
  · apply forall_mem_append
    · apply forall_mem_append
      · rintro op member
        simp only [List.mem_cons, List.not_mem_nil, or_false] at member
        rcases member with rfl | rfl | rfl | rfl
        all_goals
          rintro installed here
          exact Option.some.inj here
      · split_ifs
        · split <;> simp [Op.Installs, pmpValue]
        · simp
    · split_ifs
      · exact forall_mem_append (printm_installs _)
          (by simp [Op.Installs, pmpValue])
      · simp
  · split_ifs <;> simp [Op.Installs, pmpValue]

theorem handleStart_installs (h : Nat) (command : Hart_Command config.xlen) :
    ∀ op ∈ handleStart config h command, op.Installs config := by
  have fixes : ∀ op ∈ (if config.MM_QEMU_VIRT then qemuFixes config h else []),
      op.Installs config := by
    split_ifs
    · exact qemuFixes_installs config h
    · simp
  apply forall_mem_append
  · apply forall_mem_append
    · apply forall_mem_append
      · apply forall_mem_append
        · apply forall_mem_append
          · exact forall_mem_append (printm_installs _) fixes
          · exact startContext_installs h command
        · simp [ksem_wait, Op.Installs]
      · simp [Op.Installs]
    · simp [ksem_post, Op.Installs]
  · simp [Op.Installs]

/-- The start branch installs the registers before it enters S-mode. -/
theorem handleStart_leads
    (qemu : config.MM_QEMU_VIRT = true)
    (h : Nat)
    (command : Hart_Command config.xlen)
    (csrs : Csr → Word config.xlen) :
    LeadsIn config csrs (handleStart config h command) := by
  have installs := handleStart_installs h command
  unfold handleStart qemuFixes at *
  simp only [qemu, if_true, List.append_assoc] at installs ⊢
  apply LeadsIn.append (fun later => ?_) (printm_stays _)
  refine ⟨nofun, nofun, nofun, nofun, ?_⟩
  apply LeadsIn.of_installed
  · intro csr value installed
    cases csr <;> cases installed <;> rfl
  · intro op member
    exact installs op (List.mem_append_right _
      (List.mem_append_right _ member))

theorem handle_installs (h : Nat) (command : Hart_Command config.xlen) :
    ∀ op ∈ handleCommand config h command, op.Installs config := by
  unfold handleCommand
  split_ifs
  · simp [Op.Installs]
  · exact handleStart_installs h command
  · simp [Op.Installs]
  · simp [Op.Installs]
  · simp [Op.Installs]
  · simp [Op.Installs, pmpValue]
  · exact forall_mem_append (printm_installs _) (by simp [Op.Installs])

theorem handle_leads
    (qemu : config.MM_QEMU_VIRT = true)
    (h : Nat)
    (command : Hart_Command config.xlen)
    (csrs : Csr → Word config.xlen) :
    LeadsIn config csrs (handleCommand config h command) := by
  unfold handleCommand
  split_ifs
  · exact LeadsIn.of_stays (by simp)
  · exact handleStart_leads qemu h command csrs
  · exact LeadsIn.of_stays (by simp)
  · exact LeadsIn.of_stays (by simp)
  · exact LeadsIn.of_stays (by simp)
  · exact LeadsIn.of_stays (by simp)
  · exact LeadsIn.of_stays (forall_mem_append (printm_stays _) (by simp))

/-- Code of a handler writes nothing else to the registers and enters S-mode
with them installed only. -/
structure HandlerCode
    (config : Config) (csrs : Csr → Word config.xlen)
    (ops : List (Op config.xlen)) : Prop where
  installs : ∀ op ∈ ops, op.Installs config
  leads : LeadsIn config csrs ops

theorem HandlerCode.of_stays
    {csrs : Csr → Word config.xlen}
    {ops : List (Op config.xlen)}
    (each : ∀ op ∈ ops, op.Installs config ∧ op ≠ .switch_to_user_context) :
    HandlerCode config csrs ops :=
  ⟨fun op member => (each op member).1,
    LeadsIn.of_stays fun op member => (each op member).2⟩

theorem HandlerCode.append
    {csrs : Csr → Word config.xlen}
    {left right : List (Op config.xlen)}
    (first : HandlerCode config csrs left)
    (second : HandlerCode config csrs right) :
    HandlerCode config csrs (left ++ right) := by
  refine ⟨forall_mem_append first.installs second.installs, ?_⟩
  induction left generalizing csrs with
  | nil => exact second.leads
  | cons op left inductionHypothesis =>
      have more : AtLeast config csrs (op.csrsAfter csrs) :=
        (first.installs op List.mem_cons_self).atLeast
      refine ⟨first.leads.1, inductionHypothesis ⟨fun other member =>
        first.installs other (List.mem_cons_of_mem _ member), first.leads.2⟩
        ⟨second.installs, second.leads.mono second.installs more⟩⟩

theorem HandlerCode.of_ofCall
    {csrs : Csr → Word config.xlen}
    {ops : List (Op config.xlen)}
    (ofCall : ∀ op ∈ ops, op.OfCall) :
    HandlerCode config csrs ops :=
  .of_stays fun op member => (ofCall op member).installs config

theorem software_handlerCode (csrs : Csr → Word config.xlen) :
    HandlerCode config csrs machineSoftwareInterrupt :=
  .of_stays (by simp [machineSoftwareInterrupt, CommandField.all, Op.Installs])

theorem timer_handlerCode (h : Nat) (csrs : Csr → Word config.xlen) :
    HandlerCode config csrs (machineTimerInterrupt config h) := by
  apply HandlerCode.of_stays
  unfold machineTimerInterrupt
  split_ifs <;> simp [Op.Installs, pmpValue]

theorem exception_handlerCode
    (h cause_value : Nat) (lines : List String) (csrs : Csr → Word config.xlen) :
    HandlerCode config csrs (exceptionHalt h cause_value lines) := by
  have prints (text : String) : ∀ op ∈ (printm text : List (Op config.xlen)),
      op.Installs config ∧ op ≠ .switch_to_user_context :=
    fun op member => (printm_ofCall text op member).installs config
  apply HandlerCode.of_stays
  apply forall_mem_append
  · apply forall_mem_append
    · apply forall_mem_append
      · simp [Op.Installs, pmpValue]
      · exact prints _
    · exact forall_mem_flatMap fun line _ => prints line
  · simp [Op.Installs]

end Handlers

section Runs

/-! ## Whole runs -/

variable {config : Config} {system next : System config.xlen}
  {label : Label config.xlen} {labels : List (Label config.xlen)}
  {op : Op config.xlen} {rest ops : List (Op config.xlen)}

/-- A step in which only firmware code changes the registers of the
protection, as they cannot be written below M-mode. -/
def ProtectedStep
    (config : Config)
    (before : System config.xlen) (label : Label config.xlen)
    (after : System config.xlen) : Prop :=
  Step config (sbiCalls config) before label after ∧
    ∀ h, (after.harts h).main = (before.harts h).main →
      (after.harts h).handler = (before.harts h).handler →
      ∀ csr, pmpValue config csr ≠ none →
        (after.harts h).csrs csr = (before.harts h).csrs csr

/-- The hart has processed a start command: it has entered S-mode. -/
def Entered (labels : List (Label xlen)) (h : Nat) : Prop :=
  ∃ level context csrs, ⟨h, level, .entered context csrs⟩ ∈ labels

theorem exec_csrs
    {h : Nat}
    {level : Level}
    {hart : HartState config.xlen}
    {memory : Memory config.xlen} :
    (exec config h level rest hart memory op).2.1.csrs =
      op.csrsAfter hart.csrs := by
  cases op with
  | wait_load lock => simp only [exec]; split_ifs <;> cases level <;> rfl
  | wait_swap lock => simp only [exec]; split_ifs <;> cases level <;> rfl
  | poll t => simp only [exec]; split_ifs <;> cases level <;> rfl
  | check_hart_state t command =>
      simp only [exec]; split_ifs <;> cases level <;> rfl
  | write_context record field value => cases record <;> cases level <;> rfl
  | _ => cases level <;> rfl

/-- Only one operation enters S-mode. -/
theorem exec_enters
    {h : Nat}
    {level : Level}
    {hart : HartState config.xlen}
    {memory : Memory config.xlen}
    {context : CPU_Context config.xlen}
    {csrs : Csr → Word config.xlen}
    (enters : (exec config h level rest hart memory op).1 =
      .entered context csrs) :
    op = .switch_to_user_context := by
  cases op with
  | switch_to_user_context => rfl
  | wait_load lock => simp only [exec] at enters; split_ifs at enters
  | wait_swap lock =>
      simp only [exec] at enters
      split_ifs at enters
      cases lock <;> cases enters
  | poll t => simp only [exec] at enters; split_ifs at enters
  | check_hart_state t command =>
      simp only [exec] at enters; split_ifs at enters
  | _ => cases enters

/-- What the code of a hart does to the registers of its protection. -/
structure HartProtected
    (config : Config) (labels : List (Label config.xlen)) (h : Nat)
    (hart : HartState config.xlen) : Prop where
  main : ∀ op ∈ hart.main, op.OfCall
  handler : ∀ ops, hart.handler = some ops → HandlerCode config hart.csrs ops
  entered : Entered labels h → PmpInstalled config hart.csrs

theorem Continues.ofCall
    {h : Nat}
    {command : Hart_Command config.xlen}
    (continues : Continues config h command op rest ops)
    (ofCall : ∀ other ∈ op :: rest, other.OfCall) :
    ∀ other ∈ ops, other.OfCall := by
  have here := ofCall op List.mem_cons_self
  have later : ∀ other ∈ rest, other.OfCall :=
    fun other member => ofCall other (List.mem_cons_of_mem _ member)
  cases continues with
  | next => exact later
  | again => exact ofCall
  | spin =>
      intro other member
      rcases List.mem_cons.mp member with rfl | member
      · trivial
      · exact ofCall other member
  | refused => exact forall_mem_append (startRefused_ofCall _) later
  | accepted => exact forall_mem_append (startAccepted_ofCall _ _) later
  | dispatched => exact here.elim
  | ended => simp

/-- What is left of a handler after one of its operations. -/
theorem Continues.handlerCode
    {h : Nat}
    {command : Hart_Command config.xlen}
    {csrs : Csr → Word config.xlen}
    (qemu : config.MM_QEMU_VIRT = true)
    (continues : Continues config h command op rest ops)
    (code : HandlerCode config csrs (op :: rest)) :
    HandlerCode config (op.csrsAfter csrs) ops := by
  have more : AtLeast config csrs (op.csrsAfter csrs) :=
    (code.installs op List.mem_cons_self).atLeast
  have later : ∀ other ∈ rest, other.Installs config :=
    fun other member => code.installs other (List.mem_cons_of_mem _ member)
  have restCode : HandlerCode config (op.csrsAfter csrs) rest :=
    ⟨later, code.leads.2⟩
  cases continues with
  | next => exact restCode
  | again => exact ⟨code.installs, code.leads.mono code.installs more⟩
  | spin =>
      refine ⟨?_, nofun, code.leads⟩
      intro other member
      rcases List.mem_cons.mp member with rfl | member
      · trivial
      · exact code.installs other member
  | refused =>
      exact (HandlerCode.of_ofCall (startRefused_ofCall _)).append restCode
  | accepted =>
      exact (HandlerCode.of_ofCall (startAccepted_ofCall _ _)).append restCode
  | dispatched =>
      exact HandlerCode.append
        ⟨handle_installs h command, handle_leads qemu h command _⟩ restCode
  | ended => exact ⟨by simp, trivial⟩

theorem entered_snoc_iff (h : Nat) :
    Entered (labels ++ [label]) h ↔
      Entered labels h ∨ ∃ context csrs,
        label.hart = h ∧ label.event = .entered context csrs := by
  simp only [Entered, List.mem_append, List.mem_singleton]
  constructor
  · rintro ⟨level, context, csrs, before | rfl⟩
    · exact .inl ⟨level, context, csrs, before⟩
    · exact .inr ⟨context, csrs, rfl, rfl⟩
  · rintro (⟨level, context, csrs, before⟩ | ⟨context, csrs, rfl, event⟩)
    · exact ⟨level, context, csrs, .inl before⟩
    · exact ⟨label.level, context, csrs, .inr (by rw [← event])⟩

theorem save_csrs (hart : HartState config.xlen) :
    hart.save.csrs = hart.csrs := by
  rw [HartState.save]
  split_ifs <;> rfl

namespace HartProtected

variable {hart : HartState config.xlen} {h : Nat}

/-- One operation of the main code. -/
theorem main_step
    {memory : Memory config.xlen}
    (protected_ : HartProtected config labels h hart)
    (idle : hart.handler = none)
    (code : hart.main = op :: rest) :
    HartProtected config
      (labels ++ [⟨h, .main, (exec config h .main rest hart memory op).1⟩]) h
      (exec config h .main rest hart memory op).2.1 := by
  have ofCall := protected_.main
  rw [code] at ofCall
  obtain ⟨installs, stays⟩ :=
    (ofCall op List.mem_cons_self).installs config
  refine ⟨(exec_main_continues code).ofCall ofCall, fun ops running => ?_,
    fun entered => ?_⟩
  · cases (exec_main_handler idle).symm.trans running
  · rw [exec_csrs]
    rcases (entered_snoc_iff h).mp entered with before | ⟨_, _, -, enters⟩
    · exact (protected_.entered before).atLeast installs.atLeast
    · exact absurd (exec_enters enters) stays

/-- One operation of a handler. -/
theorem handler_step
    {memory : Memory config.xlen}
    (qemu : config.MM_QEMU_VIRT = true)
    (protected_ : HartProtected config labels h hart)
    (code : hart.handler = some (op :: rest)) :
    HartProtected config
      (labels ++ [⟨h, .handler, (exec config h .handler rest hart memory op).1⟩])
      h (exec config h .handler rest hart memory op).2.1 := by
  have handlerCode := protected_.handler _ code
  have more : AtLeast config hart.csrs (op.csrsAfter hart.csrs) :=
    (handlerCode.installs op List.mem_cons_self).atLeast
  refine ⟨?_, fun ops after => ?_, fun entered => ?_⟩
  · rcases exec_handler_main with same | dropped
    · rw [same]
      exact protected_.main
    · rw [dropped]
      simp
  · rw [exec_csrs]
    exact (exec_handler_continues after).handlerCode qemu handlerCode
  · rw [exec_csrs]
    rcases (entered_snoc_iff h).mp entered with before | ⟨_, _, -, enters⟩
    · exact (protected_.entered before).atLeast more
    · exact (handlerCode.leads.1 (exec_enters enters)).atLeast more

/-- A hart that does not enter S-mode keeps what it installed. -/
theorem idle
    {after : HartState config.xlen}
    (protected_ : HartProtected config labels h hart)
    (silent : ∀ context csrs, label.hart = h →
      label.event ≠ .entered context csrs)
    (kept : ∀ csr, pmpValue config csr ≠ none → after.csrs csr = hart.csrs csr)
    (main : ∀ op ∈ after.main, op.OfCall)
    (handler : ∀ ops, after.handler = some ops →
      HandlerCode config after.csrs ops) :
    HartProtected config (labels ++ [label]) h after := by
  refine ⟨main, handler, fun entered => ?_⟩
  have before := ((entered_snoc_iff h).mp entered).resolve_right
    fun ⟨context, csrs, own, event⟩ => silent context csrs own event
  intro csr value installed
  rw [kept csr (by rw [installed]; nofun)]
  exact protected_.entered before csr value installed

/-- A trap takes the hart to a handler. -/
theorem interrupt
    {level : Level}
    (protected_ : HartProtected config labels h hart)
    (code : HandlerCode config hart.csrs ops) :
    HartProtected config (labels ++ [⟨h, level, .interrupted⟩]) h
      { hart.save with handler := some ops } := by
  have csrs := save_csrs hart
  apply protected_.idle
  · exact fun _ _ _ => nofun
  · intro csr _
    exact congrFun csrs csr
  · rw [save_main]
    exact protected_.main
  · rintro _ ⟨⟩
    rw [csrs]
    exact code

end HartProtected

theorem setHart_self (h : Nat) (hart : HartState config.xlen) :
    (system.setHart h hart).harts h = hart :=
  Function.update_self ..

/-- The step lemma. -/
theorem HartProtected.step
    (qemu : config.MM_QEMU_VIRT = true)
    (protected_ : ∀ h, HartProtected config labels h (system.harts h))
    (taken : ProtectedStep config system label next)
    (h : Nat) :
    HartProtected config (labels ++ [label]) h (next.harts h) := by
  obtain ⟨step, keeps⟩ := taken
  by_cases own : h = label.hart
  · subst own
    cases step with
    | main idle code =>
        rw [set_self]
        exact (protected_ _).main_step idle code
    | handler code =>
        rw [set_self]
        exact (protected_ _).handler_step qemu code
    | software_interrupt idle up =>
        rw [setHart_self]
        exact (protected_ _).interrupt (software_handlerCode _)
    | timer_interrupt idle low =>
        rw [setHart_self]
        exact (protected_ _).interrupt (timer_handlerCode _ _)
    | exception raises empty idle =>
        rw [setHart_self]
        exact (protected_ _).interrupt (exception_handlerCode ..)
    | call base empty idle allowed =>
        obtain ⟨request, rfl⟩ := allowed
        rw [setHart_self]
        refine (protected_ _).idle (fun _ _ _ => nofun) (fun _ _ => rfl)
          (call_ofCall _ _ request) fun ops running => ?_
        exact nomatch idle.symm.trans running
    | @run k user_context csrs outside idle =>
        have kept := keeps k
        rw [setHart_self] at kept ⊢
        refine (protected_ k).idle (fun _ _ _ => nofun) (kept rfl rfl)
          (protected_ k).main fun ops running => ?_
        exact nomatch idle.symm.trans running
  · rw [step.frame own]
    exact (protected_ h).idle (fun _ _ hart => absurd hart.symm own)
      (fun _ _ => rfl) (protected_ h).main (protected_ h).handler

/-- After boot no hart has entered S-mode. -/
theorem Booted.hartProtected
    (booted : Booted config system)
    (h : Nat) :
    HartProtected config [] h (system.harts h) := by
  refine ⟨?_, fun ops running => ?_, fun ⟨_, _, _, member⟩ => nomatch member⟩
  · by_cases boot : h = 0
    · obtain ⟨stack, main⟩ := booted.boot_main
      rw [boot, main]
      exact kmain_ofCall config stack
    · rw [booted.other_main h boot]
      simp
  · by_cases boot : h = 0
    · rw [boot, booted.boot_handler] at running
      cases running
    · rw [booted.other_handler h boot] at running
      cases running
      exact .of_stays (by simp [Op.Installs])

/-- In every run the registers of the protection are installed on every hart
that has entered S-mode. -/
theorem pmp_installed
    {first last : System config.xlen}
    (qemu : config.MM_QEMU_VIRT = true)
    (booted : Booted config first)
    (run : Run (ProtectedStep config) first labels last)
    {h : Nat}
    (entered : Entered labels h) :
    PmpInstalled config (last.harts h).csrs := by
  have kept : ∀ h, HartProtected config labels h (last.harts h) :=
    run.invariant_history
      (fun labels system => ∀ h, HartProtected config labels h (system.harts h))
      (fun taken kept => HartProtected.step qemu kept taken)
      booted.hartProtected
  exact (kept h).entered entered

/-- An operation that changes control registers is executed once. -/
theorem csrsAfter_eq_of_again
    {csrs : Csr → Word config.xlen}
    {hart : HartState config.xlen}
    {memory : Memory config.xlen}
    {h : Nat}
    {level : Level}
    (again : ((exec config h level rest hart memory op).2.1.main = op :: rest ∧
        level = .main) ∨
      ((exec config h level rest hart memory op).2.1.handler =
        some (op :: rest) ∧ level = .handler)) :
    op.csrsAfter csrs = csrs := by
  have longer : rest ≠ op :: rest := List.ne_cons_self
  cases op with
  | csr_write csr value =>
      rcases again with ⟨same, rfl⟩ | ⟨same, rfl⟩
      · exact absurd same longer
      · exact absurd (Option.some.inj same) longer
  | csr_bitset csr mask =>
      rcases again with ⟨same, rfl⟩ | ⟨same, rfl⟩
      · exact absurd same longer
      · exact absurd (Option.some.inj same) longer
  | csr_bitclr csr mask =>
      rcases again with ⟨same, rfl⟩ | ⟨same, rfl⟩
      · exact absurd same longer
      · exact absurd (Option.some.inj same) longer
  | _ => rfl

/-- The interpreter makes steps of this system. -/
theorem Move.take_protected
    {move : Move config.xlen}
    (taken : move.take config system = some (label, next)) :
    ProtectedStep config system label next := by
  refine ⟨(Move.take_step taken).1, fun h sameMain sameHandler csr _ => ?_⟩
  by_cases own : h = label.hart
  · subst own
    cases move with
    | advance k =>
        simp only [Move.take] at taken
        split at taken
        · next _ op rest code =>
            cases taken
            rw [set_self] at sameHandler ⊢
            have again := sameHandler.trans code
            rw [exec_csrs, csrsAfter_eq_of_again (.inr ⟨again, rfl⟩)]
        · next op rest idle code =>
            cases taken
            rw [set_self] at sameMain ⊢
            have again := sameMain.trans code
            rw [exec_csrs, csrsAfter_eq_of_again (.inl ⟨again, rfl⟩)]
        · cases taken
    | interrupt k =>
        simp only [Move.take] at taken
        split at taken
        · split_ifs at taken
          cases taken
          rw [setHart_self]
          exact congrFun (save_csrs _) csr
        · cases taken
    | call k request =>
        simp only [Move.take] at taken
        split at taken
        · cases taken
          rw [setHart_self]
        · cases taken
    | fault k cause_value =>
        simp only [Move.take] at taken
        split at taken
        · split_ifs at taken
          cases taken
          rw [setHart_self]
          exact congrFun (save_csrs _) csr
        · cases taken
  · rw [(Move.take_step taken).1.frame own]

end Runs

end Harts
end EchelonSbi
