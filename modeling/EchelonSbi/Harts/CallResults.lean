import EchelonSbi.Harts.Management

/-!
# What a call returns

What the code of a call will return is read off from the operations that
remain, except that `sbi_hart_start` returns what it decides.
-/

namespace EchelonSbi
namespace Harts

open Foundation
open Sbi

variable {xlen : Xlen}

/-- How code of a call ends. -/
inductive CallEnd (xlen : Xlen) where
  /-- Without a return. -/
  | none_
  /-- By the test of `sbi_hsm_states[t]`. -/
  | checks (t : Nat) (command : Hart_Command xlen)
  /-- By the return of `sbi_hsm_states[t]`. -/
  | reads (t : Nat)
  | returns (retval : sbiret)

/-- The end of code that begins with an operation, given the end of the rest. -/
@[simp]
def callEndBefore : Op xlen → CallEnd xlen → CallEnd xlen
  | .check_hart_state t command, _ => .checks t command
  | .ret_hart_state t, _ => .reads t
  | .ret retval, _ => .returns retval
  | _, after => after

/-- The end of code. -/
def callEnd (ops : List (Op xlen)) : CallEnd xlen :=
  ops.foldr callEndBefore .none_

@[simp]
theorem callEnd_nil : callEnd ([] : List (Op xlen)) = .none_ :=
  rfl

@[simp]
theorem callEnd_cons (op : Op xlen) (rest : List (Op xlen)) :
    callEnd (op :: rest) = callEndBefore op (callEnd rest) :=
  rfl

/-- Code that only computes does not end a call. -/
theorem callEnd_locals
    {left rest : List (Op xlen)}
    (local_ : ∀ op ∈ left, op.Local) :
    callEnd (left ++ rest) = callEnd rest := by
  refine foldr_append_ignored fun op member value => ?_
  have here := local_ op member
  cases op <;> simp_all [Op.Local]

/-- What `sbi_hart_start` returns, given whether it accepted the state. -/
def startAnswer (accepted : Bool) : sbiret :=
  if accepted then ⟨SBI_SUCCESS, 0⟩ else ⟨SBI_ERR_ALREADY_AVAILABLE, 0⟩

theorem callEnd_startRefused (t : Nat) :
    callEnd (startRefused t : List (Op xlen)) = .returns (startAnswer false) :=
  rfl

theorem callEnd_startAccepted (t : Nat) (command : Hart_Command xlen) :
    callEnd (startAccepted t command) = .returns (startAnswer true) :=
  rfl

/-- `sbi_hart_start` looks at the state of its target or returns an error. -/
theorem callEnd_hart_start
    (platform : Platform)
    (k : Nat)
    (stack : Hart_Command platform.xlen)
    (hartid start_addr opaque_ : Word platform.xlen) :
    (callEnd (sbi_hart_start platform k stack hartid start_addr opaque_) =
        .checks hartid.toNat (startCommand stack hartid start_addr opaque_) ∧
      is_valid_hartid platform hartid = true ∧
      is_valid_phys_mem_addr start_addr 2 = true ∧ hartid.toNat ≠ k) ∨
    ∃ retval, retval.error ≠ SBI_SUCCESS ∧
      callEnd (sbi_hart_start platform k stack hartid start_addr opaque_) =
        .returns retval := by
  unfold sbi_hart_start
  split_ifs with hart address own
  · exact .inr ⟨_, by decide, callEnd_locals (printm_local _)⟩
  · exact .inr ⟨_, by decide, callEnd_locals (printm_local _)⟩
  · exact .inr ⟨_, by decide, callEnd_locals (printm_local _)⟩
  · exact .inl ⟨rfl, by simpa using hart, by simpa using address, own⟩

section

variable {config : Config} {system next : System config.xlen}
  {label : Label config.xlen} {k : Nat} {started : Bool}
  {calls : Nat → List (Op config.xlen) → Prop}

/-- What a step does to the main code of hart `k`: nothing visible, a new call,
or one operation. -/
theorem Step.main_cases
    (step : Step config calls system label next)
    (k : Nat) :
    (((next.harts k).main = (system.harts k).main ∨ (next.harts k).main = []) ∧
        (label.hart = k → label.level = .main → label.event = .silent)) ∨
      (∃ ops, label = ⟨k, .main, .called ops⟩ ∧ (system.harts k).main = [] ∧
        (next.harts k).main = ops) ∨
      ∃ op rest, (system.harts k).handler = none ∧
        (system.harts k).main = op :: rest ∧
        label = ⟨k, .main, (exec config k .main rest (system.harts k)
          system.memory op).1⟩ ∧
        next = system.set k (exec config k .main rest (system.harts k)
          system.memory op) := by
  by_cases own : k = label.hart
  · cases step with
    | main idle code =>
        subst own
        exact .inr (.inr ⟨_, _, idle, code, rfl, rfl⟩)
    | handler code =>
        subst own
        refine .inl ⟨?_, fun _ level => by cases level⟩
        rw [set_self]
        exact exec_handler_main
    | call base empty idle allowed =>
        subst own
        exact .inr (.inl ⟨_, rfl, empty, by simp [System.setHart]⟩)
    | software_interrupt idle up =>
        subst own
        exact .inl ⟨.inl (by simp [System.setHart]), fun _ level => by cases level⟩
    | timer_interrupt idle low =>
        subst own
        exact .inl ⟨.inl (by simp [System.setHart]), fun _ level => by cases level⟩
    | run outside idle =>
        subst own
        exact .inl ⟨.inl (by simp [System.setHart]), fun _ _ => rfl⟩
    | exception raises empty idle =>
        subst own
        exact .inl ⟨.inl (by simp [System.setHart]), fun _ level => by cases level⟩
  · exact .inl ⟨.inl (by rw [step.frame own]), fun same => absurd same.symm own⟩

/-- One operation of main code: it decides a start, it returns, or it leaves
the end of the code as it is. -/
theorem exec_main_callEnd
    {hart : HartState config.xlen}
    {memory : Memory config.xlen}
    {op : Op config.xlen}
    {rest : List (Op config.xlen)}
    (contract : StartContract 0 k op rest) :
    (∃ t command accepted,
        callEnd (op :: rest) = .checks t command ∧
        (exec config k .main rest hart memory op).1 =
          .decided t command accepted ∧
        callEnd (exec config k .main rest hart memory op).2.1.main =
          .returns (startAnswer accepted)) ∨
      (∃ retval,
        (exec config k .main rest hart memory op).1 = .returned retval ∧
        (exec config k .main rest hart memory op).2.1.main = [] ∧
        (callEnd (op :: rest) = .returns retval ∨
          ∃ t, callEnd (op :: rest) = .reads t)) ∨
      (∀ t command accepted, (exec config k .main rest hart memory op).1 ≠
        .decided t command accepted) ∧
      (∀ retval, (exec config k .main rest hart memory op).1 ≠
        .returned retval) ∧
      (callEnd (exec config k .main rest hart memory op).2.1.main =
          callEnd (op :: rest) ∨
        (exec config k .main rest hart memory op).2.1.main = []) := by
  obtain ⟨-, rule⟩ := contract
  cases op with
  | check_hart_state t command =>
      obtain ⟨-, rfl⟩ := rule
      refine .inl ⟨t, command, !refusesStart (memory.sbi_hsm_states t), rfl, ?_⟩
      cases refuses : refusesStart (memory.sbi_hsm_states t) with
      | true => simp [exec, refuses, callEnd_startRefused]
      | false => simp [exec, refuses, callEnd_startAccepted]
  | ret retval =>
      exact .inr (.inl ⟨retval, rfl, rfl, .inl rfl⟩)
  | ret_hart_state t =>
      exact .inr (.inl ⟨_, rfl, rfl, .inr ⟨t, rfl⟩⟩)
  | wait_load lock => right; right; simp only [exec]; split_ifs <;> simp
  | wait_swap lock =>
      right; right
      simp only [exec]
      split_ifs
      · cases lock <;> simp [acquireEvent]
      · simp
  | poll t => right; right; simp only [exec]; split_ifs <;> simp
  | write_context record field value =>
      right; right
      cases record <;> simp [exec, HartState.setContext]
  | load_command field => exact rule.elim
  | dispatch => exact rule.elim
  | resume => exact rule.elim
  | switch_to_user_context => exact rule.elim
  | switch_to_context context => exact rule.elim
  | halt_not_handled => exact rule.elim
  | halt_exception => exact rule.elim
  | _ => right; right; simp [exec]

theorem exec_not_called
    {h : Nat}
    {level : Level}
    {hart : HartState config.xlen}
    {memory : Memory config.xlen}
    {op : Op config.xlen}
    {rest ops : List (Op config.xlen)} :
    (exec config h level rest hart memory op).1 ≠ .called ops := by
  cases op with
  | wait_load lock => simp only [exec]; split_ifs <;> simp
  | wait_swap lock =>
      simp only [exec]
      split_ifs
      · cases lock <;> simp [acquireEvent]
      · simp
  | poll t => simp only [exec]; split_ifs <;> simp
  | check_hart_state t command => simp only [exec]; split_ifs <;> simp
  | _ => simp [exec]

/-- The decision of a start by hart `k`. -/
def decision
    (k t : Nat) (command : Hart_Command xlen) (accepted : Bool) : Label xlen :=
  ⟨k, .main, .decided t command accepted⟩

/-- No start is decided by hart `k`. -/
def Undecided (k : Nat) (labels : List (Label xlen)) : Prop :=
  ∀ t command accepted, decision k t command accepted ∉ labels

/-- What happened so far in a call of hart `k` that ends as `end_` says. -/
def CallProgress
    (k : Nat)
    (end_ : CallEnd xlen)
    (window : List (Label xlen))
    (main : List (Op xlen)) : Prop :=
  (Undecided k window ∧ (main = [] ∨ callEnd main = end_)) ∨
    ∃ t command accepted left right,
      end_ = .checks t command ∧
      window = left ++ decision k t command accepted :: right ∧
      Undecided k left ∧ Undecided k right ∧
      (main = [] ∨ callEnd main = .returns (startAnswer accepted))

theorem Undecided.snoc
    {window : List (Label xlen)}
    {label : Label xlen}
    (undecided : Undecided k window)
    (quiet : ∀ t command accepted, label ≠ decision k t command accepted) :
    Undecided k (window ++ [label]) := by
  intro t command accepted member
  rcases List.mem_append.mp member with before | now
  · exact undecided t command accepted before
  · exact quiet t command accepted (List.mem_singleton.mp now).symm

/-- A step that decides nothing in the call. -/
theorem CallProgress.snoc
    {end_ : CallEnd xlen}
    {window : List (Label xlen)}
    {label : Label xlen}
    {main after : List (Op xlen)}
    (progress : CallProgress k end_ window main)
    (quiet : ∀ t command accepted, label ≠ decision k t command accepted)
    (kept : after = [] ∨ after = main ∨
      main ≠ [] ∧ callEnd after = callEnd main) :
    CallProgress k end_ (window ++ [label]) after := by
  have goes {final : CallEnd xlen} (before : main = [] ∨ callEnd main = final) :
      after = [] ∨ callEnd after = final := by
    rcases kept with gone | rfl | ⟨some_, same⟩
    · exact .inl gone
    · exact before
    · exact .inr (same.trans (before.resolve_left some_))
  rcases progress with
    ⟨undecided, main⟩ | ⟨t, command, accepted, left, right, checks, whole,
      first, last, main⟩
  · exact .inl ⟨undecided.snoc quiet, goes main⟩
  · refine .inr ⟨t, command, accepted, left, right ++ [label], checks, ?_, first,
      last.snoc quiet, goes main⟩
    rw [whole, List.append_assoc, List.cons_append]

/-- The step lemma of a call. -/
theorem CallProgress.step
    {end_ : CallEnd config.xlen}
    {window : List (Label config.xlen)}
    (managed : Managed started system)
    (progress : CallProgress k end_ window (system.harts k).main)
    (same : ∀ ops, label ≠ ⟨k, .main, .called ops⟩)
    (step : Step config calls system label next) :
    CallProgress k end_ (window ++ [label]) (next.harts k).main := by
  rcases step.main_cases k with
    ⟨main, silent⟩ | ⟨ops, called, -, -⟩ | ⟨op, rest, idle, code, rfl, rfl⟩
  · refine progress.snoc (fun t command accepted decides => ?_) ?_
    · subst decides
      cases silent rfl rfl
    · rcases main with kept | gone
      · exact .inr (.inl kept)
      · exact .inl gone
  · exact absurd called (same ops)
  · have contract := managed.main 0 k
    rw [code, everySuffix_cons] at contract
    rw [set_self]
    rw [code] at progress
    rcases exec_main_callEnd contract.1 with
      ⟨t, command, accepted, checks, decides, answers⟩ |
        ⟨retval, returns, gone, -⟩ | ⟨quiet, -, kept⟩
    · rw [decides]
      rcases progress with
        ⟨undecided, main⟩ | ⟨_, _, _, _, _, _, _, _, _, main⟩
      · have ends := main.resolve_left (by simp)
        exact .inr ⟨t, command, accepted, window, [], ends.symm.trans checks, rfl,
          undecided, by simp [Undecided], .inr answers⟩
      · cases checks.symm.trans (main.resolve_left (by simp))
    · refine progress.snoc (fun t command accepted decides => ?_) (.inl gone)
      rw [returns] at decides
      cases decides
    · refine progress.snoc (fun t command accepted decides => ?_) ?_
      · exact quiet t command accepted (congrArg Label.event decides)
      · rcases kept with same | gone
        · exact .inr (.inr ⟨by simp, same⟩)
        · exact .inl gone

/-- The rule of a call: what holds of its code when it is made, and is kept by
every step until it returns, holds of the code that returns. -/
theorem call_rule
    {first last : System config.xlen}
    {before window : List (Label config.xlen)}
    {ops : List (Op config.xlen)}
    {retval : sbiret}
    (progress : List (Label config.xlen) → List (Op config.xlen) → Prop)
    (begins : progress [] ops)
    (steps : ∀ {up system label next history},
      Managed up system → progress history (system.harts k).main →
        (∀ other, label ≠ ⟨k, .main, .called other⟩) →
          Step config (sbiCalls config) system label next →
            progress (history ++ [label]) (next.harts k).main)
    (managed : Managed started first)
    (run : Run (Step config (sbiCalls config)) first
      (before ++ ⟨k, .main, .called ops⟩ :: window ++
        [⟨k, .main, .returned retval⟩]) last)
    (within : ∀ other, ⟨k, .main, .called other⟩ ∉ window) :
    ∃ (system : System config.xlen) (op : _) (rest : _),
      StartContract 0 k op rest ∧ progress window (op :: rest) ∧
      (exec config k .main rest (system.harts k) system.memory op).1 =
        .returned retval := by
  rw [List.append_assoc, List.cons_append] at run
  obtain ⟨start, earlier, later⟩ := run.of_append
  obtain ⟨begin_, called, rest⟩ := later.of_cons
  obtain ⟨finish, body, final⟩ := rest.of_append
  obtain ⟨_, returned, _⟩ := final.of_cons
  obtain ⟨-, managedBegin⟩ := (managed.run earlier).step called
  have main : (begin_.harts k).main = ops := by
    rcases called.main_cases k with
      ⟨-, silent⟩ | ⟨other, same, -, main⟩ | ⟨op, code, -, -, same, -⟩
    · cases silent rfl rfl
    · cases same
      exact main
    · exact absurd (congrArg Label.event same).symm exec_not_called
  have kept := body.invariant_history
    (fun history current =>
      (∀ other, ⟨k, .main, .called other⟩ ∉ history) →
        (∃ up, Managed up current) ∧ progress history (current.harts k).main)
    (fun {history _ label _} taken kept quiet => by
      obtain ⟨⟨up, managed⟩, progress⟩ := kept fun other member =>
        quiet other (List.mem_append_left _ member)
      refine ⟨⟨_, (managed.step taken).2⟩, steps managed progress ?_ taken⟩
      rintro other rfl
      exact quiet other (by simp))
    (fun _ => ⟨⟨_, managedBegin⟩, by rwa [main]⟩)
  obtain ⟨⟨up, managedEnd⟩, progress⟩ := kept within
  rcases returned.main_cases k with
    ⟨-, silent⟩ | ⟨other, same, -, -⟩ | ⟨op, code, idle, main, same, -⟩
  · cases silent rfl rfl
  · cases same
  · have contract := managedEnd.main 0 k
    rw [main, everySuffix_cons] at contract
    rw [main] at progress
    exact ⟨finish, op, code, contract.1, progress,
      (congrArg Label.event same).symm⟩

/-- A call of `sbi_hart_start` that looks at the state of its target decides
once, and returns what it decided; another call decides nothing and returns
what its code says. -/
theorem call_returns
    {first last : System config.xlen}
    {before window : List (Label config.xlen)}
    {ops : List (Op config.xlen)}
    {retval : sbiret}
    (managed : Managed started first)
    (run : Run (Step config (sbiCalls config)) first
      (before ++ ⟨k, .main, .called ops⟩ :: window ++
        [⟨k, .main, .returned retval⟩]) last)
    (within : ∀ other, ⟨k, .main, .called other⟩ ∉ window) :
    (Undecided k window ∧
        (callEnd ops = .returns retval ∨ ∃ t, callEnd ops = .reads t)) ∨
      ∃ t command accepted left right,
        callEnd ops = .checks t command ∧
        window = left ++ decision k t command accepted :: right ∧
        Undecided k left ∧ Undecided k right ∧
        retval = startAnswer accepted := by
  obtain ⟨finish, op, rest, contract, progress, event⟩ := call_rule
    (CallProgress k (callEnd ops)) (.inl ⟨by simp [Undecided], .inr rfl⟩)
    (fun managed progress same step => progress.step managed same step)
    managed run within
  have ends : callEnd (op :: rest) = .returns retval ∨
      ∃ t, callEnd (op :: rest) = .reads t := by
    rcases exec_main_callEnd contract with
      ⟨t, command, accepted, -, decides, -⟩ | ⟨given, returned, -, here⟩ |
        ⟨-, silent, -⟩
    · cases decides.symm.trans event
    · cases returned.symm.trans event
      exact here
    · exact absurd event (silent retval)
  rcases progress with
    ⟨undecided, main⟩ | ⟨t, command, accepted, left, right, checks, whole,
      first, last, main⟩
  · rw [main.resolve_left (by simp)] at ends
    exact .inl ⟨undecided, ends⟩
  · rw [main.resolve_left (by simp)] at ends
    rcases ends with same | ⟨_, same⟩
    · cases same
      exact .inr ⟨t, command, accepted, left, right, checks, whole, first, last,
        rfl⟩
    · cases same

end

end Harts
end EchelonSbi
