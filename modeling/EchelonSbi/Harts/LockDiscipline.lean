import EchelonSbi.Foundation.SpinLock
import EchelonSbi.Harts.SelfDeadlock

/-!
# The discipline of the spin locks

Every piece of firmware code takes its locks in one order, releases what it has
taken, and makes its guarded accesses in between.  So each lock is held by at
most one piece of code of one hart, and its word is set as long as it is.
-/

namespace EchelonSbi
namespace Harts

open Foundation
open Sbi

variable {xlen : Xlen}

/-- The place of a lock in the order in which code takes them. -/
@[simp]
def Lock.rank : Lock → Nat
  | .hart_command_que_locks _ => 0
  | .sbi_hsm_locks _ => 1
  | .printm_lock => 2

/-- The lock that guards the access of an operation. -/
@[simp]
def Op.guard : Op xlen → Option Lock
  | .print _ => some .printm_lock
  | .poll t => some (.hart_command_que_locks t)
  | .copy t _ _ => some (.hart_command_que_locks t)
  | .raise t _ => some (.hart_command_que_locks t)
  | .check_hart_state t _ => some (.sbi_hsm_locks t)
  | .store_hart_state t _ => some (.sbi_hsm_locks t)
  | .post lock => some lock
  | _ => none

/-- Code that holds no lock. -/
def Free (ops : List (Op xlen)) : Prop :=
  ∀ lock, ¬Holds lock ops

/-- What every piece of firmware code keeps to. -/
@[simp]
def LockContract : Op xlen → List (Op xlen) → Prop
  | .wait_load lock, rest =>
      ¬Holds lock rest ∧ ∀ other, Holds other rest → other.rank < lock.rank
  | .wait_swap lock, rest =>
      Holds lock rest ∧
        ∀ other, other ≠ lock → Holds other rest → other.rank < lock.rank
  | .post lock, rest => ¬Holds lock rest
  | .print _, rest => Holds .printm_lock rest
  | .poll t, rest =>
      Holds (.hart_command_que_locks t) rest ∧
        ∀ other, Holds other rest → other.rank = 0
  | .copy t _ _, rest => Holds (.hart_command_que_locks t) rest
  | .raise t _, rest => Holds (.hart_command_que_locks t) rest
  | .store_hart_state t _, rest => Holds (.sbi_hsm_locks t) rest
  | .check_hart_state _ _, rest => rest = []
  | .dispatch, rest => rest = []
  | .ret _, rest => Free rest
  | .ret_hart_state _, rest => Free rest
  | .resume, rest => Free rest
  | .switch_to_hart_context, rest => Free rest
  | .switch_to_user_context, rest => Free rest
  | .switch_to_context _, rest => Free rest
  | _, _ => True

/-- Code that keeps to the contract where it starts with the locks `held`. -/
structure Keeps (held : Set Lock) (ops : List (Op xlen)) : Prop where
  contract : EverySuffix LockContract ops
  holds : ∀ lock, Holds lock ops ↔ lock ∈ held

@[simp]
theorem free_nil : Free ([] : List (Op xlen)) :=
  fun _ => id

theorem Keeps.free
    {ops : List (Op xlen)}
    (keeps : Keeps ∅ ops) :
    Free ops :=
  fun lock holds => (keeps.holds lock).mp holds

/-! ## The pieces of code -/

section Pieces

variable {held : Set Lock} {rest : List (Op xlen)} {t : Nat} {lock : Lock}

theorem Keeps.nil : Keeps ∅ ([] : List (Op xlen)) :=
  ⟨trivial, fun lock => by simp⟩

/-- Operations that are no part of taking or releasing a lock. -/
theorem Keeps.cons
    (keeps : Keeps held rest)
    (op : Op xlen)
    (allowed : LockContract op rest)
    (same : ∀ lock, Holds lock (op :: rest) ↔ Holds lock rest) :
    Keeps held (op :: rest) :=
  ⟨⟨allowed, keeps.contract⟩, fun lock => (same lock).trans (keeps.holds lock)⟩

theorem Keeps.wait
    (keeps : Keeps (insert lock held) rest)
    (out : lock ∉ held)
    (order : ∀ other ∈ held, other.rank < lock.rank) :
    Keeps held (ksem_wait lock ++ rest) := by
  have inside : Holds lock rest := (keeps.holds lock).mpr (Set.mem_insert _ _)
  have others {other : Lock} (differ : other ≠ lock) (holds : Holds other rest) :
      other ∈ held :=
    ((keeps.holds other).mp holds).resolve_left differ
  refine ⟨⟨⟨by simp, ?_⟩, ⟨inside, ?_⟩, keeps.contract⟩, fun other => ?_⟩
  · rintro other ⟨differ, holds⟩
    exact order other (others differ.symm holds)
  · exact fun other differ holds => order other (others differ holds)
  · constructor
    · rintro ⟨differ, -, holds⟩
      exact others differ.symm holds
    · intro member
      have differ : lock ≠ other := by
        rintro rfl
        exact out member
      exact ⟨differ, differ, (keeps.holds other).mpr (Set.mem_insert_of_mem _ member)⟩

theorem Keeps.post
    (keeps : Keeps held rest)
    (out : lock ∉ held) :
    Keeps (insert lock held) (ksem_post lock ++ rest) := by
  refine ⟨⟨fun holds => out ((keeps.holds lock).mp holds), keeps.contract⟩, fun other => ?_⟩
  rw [Set.mem_insert_iff, ← keeps.holds other]
  exact or_congr_left eq_comm

/-- An access of the holder. -/
theorem Keeps.printm
    (keeps : Keeps held rest)
    (out : .printm_lock ∉ held)
    (text : String) :
    Keeps held (printm text ++ rest) := by
  have order : ∀ other ∈ held, other.rank < Lock.printm_lock.rank := by
    intro other member
    cases other with
    | printm_lock => exact absurd member out
    | hart_command_que_locks t => simp
    | sbi_hsm_locks t => simp
  have posted := keeps.post out
  rw [Harts.printm, List.append_assoc, List.append_assoc]
  refine Keeps.wait (posted.cons (.print text) ?_ fun _ => Iff.rfl) out order
  exact (posted.holds _).mpr (Set.mem_insert _ _)

theorem Keeps.prints
    (keeps : Keeps held rest)
    (out : .printm_lock ∉ held)
    (lines : List String) :
    Keeps held (lines.flatMap Harts.printm ++ rest) :=
  flatMap_append_preserves (motive := fun ops => Keeps held ops)
    (fun text _ _ after => after.printm out text) keeps

/-- `send_hart_command_que` in code that holds nothing. -/
theorem Keeps.send
    (keeps : Keeps ∅ rest)
    (t : Nat)
    (command : Hart_Command xlen) :
    Keeps ∅ (send_hart_command_que t command ++ rest) := by
  have posted := keeps.post (Set.notMem_empty (Lock.hart_command_que_locks t))
  have holder : Holds (.hart_command_que_locks t)
      (ksem_post (.hart_command_que_locks t) ++ rest) :=
    (posted.holds _).mpr (Set.mem_insert _ _)
  have raised := posted.cons (.raise t command) holder fun _ => Iff.rfl
  have copied : Keeps (insert (.hart_command_que_locks t) ∅) (copy_command t command ++
      .raise t command :: (ksem_post (.hart_command_que_locks t) ++ rest)) := by
    rw [copy_command]
    generalize CommandField.all = fields
    induction fields with
    | nil => exact raised
    | cons field fields inductionHypothesis =>
        exact inductionHypothesis.cons (.copy t field (field.get command))
          ((inductionHypothesis.holds _).mpr (Set.mem_insert _ _)) fun _ => Iff.rfl
  have polled := copied.cons (.poll t)
    ⟨(copied.holds _).mpr (Set.mem_insert _ _), fun other holds => by
      rcases (copied.holds other).mp holds with rfl | none_
      · rfl
      · exact none_.elim⟩ fun _ => Iff.rfl
  have waits := polled.wait (Set.notMem_empty _) fun _ member => member.elim
  simp only [send_hart_command_que, List.append_assoc]
  exact (waits.cons .fence_i trivial fun _ => Iff.rfl).cons
    .sfence_vma trivial fun _ => Iff.rfl

theorem Keeps.ret
    (retval : sbiret) :
    Keeps ∅ [(.ret retval : Op xlen)] :=
  Keeps.nil.cons (.ret retval) free_nil fun _ => Iff.rfl

theorem startRefused_locks :
    Keeps {.sbi_hsm_locks t} (startRefused t : List (Op xlen)) := by
  rw [startRefused, List.append_assoc]
  apply Keeps.printm _ (by simp)
  have posted := (@Keeps.ret xlen ⟨SBI_ERR_ALREADY_AVAILABLE, 0⟩).post
    (Set.notMem_empty (Lock.sbi_hsm_locks t))
  rwa [insert_empty_eq] at posted

theorem startAccepted_locks
    (command : Hart_Command xlen) :
    Keeps {.sbi_hsm_locks t} (startAccepted t command) := by
  have posted := ((Keeps.ret ⟨SBI_SUCCESS, 0⟩).send t command).post
    (Set.notMem_empty (Lock.sbi_hsm_locks t))
  rw [insert_empty_eq] at posted
  rw [startAccepted, List.append_assoc, List.append_assoc]
  exact posted.cons (.store_hart_state t .START_PENDING)
    ((posted.holds _).mpr rfl) fun _ => Iff.rfl

theorem goDown_locks
    (state : SBI_HSM) :
    Keeps ∅ (goDown t state : List (Op xlen)) := by
  have posted := (Keeps.nil.cons ((.switch_to_hart_context : Op xlen)) free_nil
    fun _ => Iff.rfl).post (Set.notMem_empty (Lock.sbi_hsm_locks t))
  have stored := posted.cons (.store_hart_state t state)
    ((posted.holds _).mpr (Set.mem_insert _ _)) fun _ => Iff.rfl
  rw [goDown, List.append_assoc, List.append_assoc]
  exact stored.wait (Set.notMem_empty _) fun _ member => member.elim

/-- Operations that have nothing to do with locks. -/
@[simp]
def Op.Quiet : Op xlen → Prop
  | .sfence_vma => True
  | .fence_i => True
  | .load_command _ => True
  | .clear_command => True
  | .clear_msip => True
  | .csr_write _ _ => True
  | .csr_bitset _ _ => True
  | .csr_bitclr _ _ => True
  | .write_context _ _ _ => True
  | .halt_not_handled => True
  | .halt_exception => True
  | _ => False

theorem Keeps.quiet
    (keeps : Keeps held rest)
    (ops : List (Op xlen))
    (quiet : ∀ op ∈ ops, op.Quiet) :
    Keeps held (ops ++ rest) := by
  induction ops with
  | nil => exact keeps
  | cons op ops inductionHypothesis =>
      have after := inductionHypothesis fun other member => quiet other (by simp [member])
      have here := quiet op (by simp)
      cases op with
      | _ =>
          first
          | exact here.elim
          | exact after.cons _ trivial fun _ => Iff.rfl

theorem masked_locks
    (outcome : MaskedOutcome xlen) :
    Keeps ∅ (maskedOps outcome) := by
  rw [maskedOps, List.append_assoc]
  apply Keeps.prints _ (Set.notMem_empty _)
  refine flatMap_append_preserves (motive := fun ops => Keeps ∅ ops) ?_ (Keeps.ret _)
  intro action _ after keeps
  cases action with
  | send hart_id command => exact keeps.send _ command
  | _ => exact keeps.quiet _ (by simp [actionOps])

/-- Every call keeps to the contract. -/
theorem call_locks
    (platform : Platform)
    (k : Nat)
    (request : Request platform.xlen) :
    Keeps ∅ (call_to_sbi platform k request) := by
  cases request with
  | mask call hart_mask hart_mask_base stack => exact masked_locks _
  | hart_start hartid start_addr opaque_ stack =>
      rw [call_to_sbi, sbi_hart_start]
      split_ifs
      · exact (Keeps.ret _).printm (Set.notMem_empty _) _
      · exact (Keeps.ret _).printm (Set.notMem_empty _) _
      · exact (Keeps.ret _).printm (Set.notMem_empty _) _
      · refine Keeps.wait ⟨⟨rfl, trivial⟩, fun lock => ?_⟩ (Set.notMem_empty _)
          fun _ member => member.elim
        simp
  | hart_stop => exact (goDown_locks _).printm (Set.notMem_empty _) _
  | hart_get_status hartid =>
      apply Keeps.printm _ (Set.notMem_empty _)
      split_ifs
      · exact Keeps.ret _
      · exact Keeps.nil.cons (.ret_hart_state hartid.toNat) free_nil fun _ => Iff.rfl
  | hart_suspend suspend_type resume_addr opaque_ =>
      apply Keeps.printm _ (Set.notMem_empty _)
      split_ifs
      · exact Keeps.ret _
      · exact (goDown_locks _).quiet _ (by simp)
      · exact Keeps.ret _
  | other printed ret => exact (Keeps.ret _).prints (Set.notMem_empty _) _

theorem kmain_locks
    (config : Config)
    (stack : Hart_Command config.xlen) :
    Keeps ∅ (kmain config stack) := by
  have sends := (Keeps.nil.send 0 (startCommand stack 0#_
    config.kernel_load_to_point config.dtb_load_to_point)).printm (Set.notMem_empty _)
      "--Start Hart--\n"
  rwa [List.append_nil] at sends

theorem Keeps.resume : Keeps ∅ [(.resume : Op xlen)] :=
  Keeps.nil.cons .resume free_nil fun _ => Iff.rfl

theorem software_locks : Keeps ∅ (machineSoftwareInterrupt : List (Op xlen)) :=
  (Keeps.nil.cons .dispatch rfl fun _ => Iff.rfl).quiet _ (by simp [CommandField.all])

theorem timer_locks
    (config : Config)
    (k : Nat) :
    Keeps ∅ (machineTimerInterrupt config k) := by
  rw [machineTimerInterrupt]
  apply Keeps.resume.quiet _
  split_ifs <;> simp

theorem exception_locks
    (k cause_value : Nat)
    (lines : List String) :
    Keeps ∅ (exceptionHalt k cause_value lines : List (Op xlen)) := by
  have halts : Keeps ∅ [(.halt_exception : Op xlen)] :=
    Keeps.nil.quiet [.halt_exception] (by simp)
  rw [exceptionHalt, List.append_assoc, List.append_assoc]
  exact ((halts.prints (Set.notMem_empty _) lines).printm (Set.notMem_empty _) _).quiet
    [.csr_bitclr .mstatus 0x8#_] (by simp)

theorem Keeps.qemuFixes
    {config : Config}
    {rest : List (Op config.xlen)}
    (keeps : Keeps ∅ rest)
    (k : Nat) :
    Keeps ∅ (qemuFixes config k ++ rest) := by
  have lines (condition : Bool) (ops after : List (Op config.xlen))
      (kept : Keeps ∅ after) (quiet : ∀ op ∈ ops, op.Quiet) :
      Keeps ∅ ((if condition then ops else []) ++ after) := by
    cases condition with
    | false => exact kept
    | true => exact kept.quiet ops quiet
  rw [Harts.qemuFixes]
  simp only [List.append_assoc]
  refine Keeps.quiet (lines _ _ _ ?_ ?_) _ (by simp)
  · have cache := lines (config.hart_has_menvcfg k)
      [.csr_bitset .menvcfg (3#_ <<< 4), .csr_bitset .menvcfg (1#_ <<< 6),
        .csr_bitset .menvcfg (1#_ <<< 7)] rest keeps (by simp)
    cases uses : hart_using_ext_sstc config k with
    | false => exact cache
    | true =>
        exact (cache.quiet [.csr_bitset .mcounteren 0x2#_] (by simp)).printm
          (Set.notMem_empty _) "\tUsing ISA Extenstion: SSTC\n"
  · split <;> simp

theorem startContext_quiet
    (k : Nat)
    (command : Hart_Command xlen) :
    ∀ op ∈ startContext k command, op.Quiet := by
  rw [startContext, clear_hart_context]
  apply forall_mem_append
  · apply forall_mem_append
    · simp
    · apply forall_mem_append
      · simp
      · simp
  · simp

theorem handleStart_locks
    (config : Config)
    (k : Nat)
    (command : Hart_Command config.xlen) :
    Keeps ∅ (handleStart config k command) := by
  have leaves : Keeps ∅ [(.clear_command : Op config.xlen), .clear_msip,
      .switch_to_user_context] :=
    (Keeps.nil.cons .switch_to_user_context free_nil fun _ => Iff.rfl).quiet
      [.clear_command, .clear_msip] (by simp)
  have posted := leaves.post (Set.notMem_empty (Lock.sbi_hsm_locks k))
  have stored := posted.cons (.store_hart_state k .STARTED)
    ((posted.holds _).mpr (Set.mem_insert _ _)) fun _ => Iff.rfl
  have waits := stored.wait (Set.notMem_empty _) fun _ member => member.elim
  have context := waits.quiet (startContext k command) (startContext_quiet k command)
  rw [handleStart]
  simp only [List.append_assoc]
  apply Keeps.printm _ (Set.notMem_empty _)
  split_ifs
  · exact context.qemuFixes k
  · exact context

/-- So does every branch of the interrupt handler. -/
theorem handle_locks
    (config : Config)
    (k : Nat)
    (command : Hart_Command config.xlen) :
    Keeps ∅ (handleCommand config k command) := by
  have switches (context : Word config.xlen) :
      Keeps ∅ [(.switch_to_context context : Op config.xlen)] :=
    Keeps.nil.cons (.switch_to_context context) free_nil fun _ => Iff.rfl
  have halts : Keeps ∅ [(.halt_not_handled : Op config.xlen)] :=
    Keeps.nil.quiet [.halt_not_handled] (by simp)
  rw [handleCommand]
  split_ifs
  · exact (switches command.param0).quiet [.clear_command, .clear_msip] (by simp)
  · exact handleStart_locks config k command
  · exact Keeps.resume.quiet [.fence_i, .clear_command, .clear_msip] (by simp)
  · exact Keeps.resume.quiet [.sfence_vma, .clear_command, .clear_msip] (by simp)
  · exact Keeps.resume.quiet [.sfence_vma, .clear_command, .clear_msip] (by simp)
  · exact Keeps.resume.quiet
      [.clear_command, .clear_msip, .csr_bitset .mip 0x2#_] (by simp)
  · exact halts.printm (Set.notMem_empty _) _

end Pieces

/-! ## Steps -/

/-- The code of one level of a hart. -/
@[simp]
def HartState.code (hart : HartState xlen) : Level → List (Op xlen)
  | .main => hart.main
  | .handler => hart.handler.getD []

section Exec

variable {config : Config} {h : Nat} {level : Level} {hart : HartState config.xlen}
  {memory : Memory config.xlen} {op : Op config.xlen}
  {rest ops : List (Op config.xlen)}

theorem code_put (hart : HartState xlen) (ops : List (Op xlen)) (level : Level) :
    (hart.put ops level).code level = ops := by
  cases level <;> rfl

/-- What an operation does to the word of a lock, and to who holds it. -/
theorem exec_lock
    (lock : Lock)
    (code : hart.code level = op :: rest)
    (contract : LockContract op rest)
    (taken : Holds lock (op :: rest) → memory.locks lock ≠ 0) :
    SpinLock.Move (memory.locks lock)
      ((exec config h level rest hart memory op).2.2.locks lock)
      (Holds lock (op :: rest))
      (Holds lock ((exec config h level rest hart memory op).2.1.code level)) := by
  have ends (free : Free rest) (same : Holds lock (op :: rest) ↔ Holds lock rest) :
      SpinLock.Move (memory.locks lock) (memory.locks lock) (Holds lock (op :: rest))
        (Holds lock ([] : List (Op config.xlen))) :=
    .stays taken ⟨False.elim, fun holds => free lock (same.mp holds)⟩
  cases op with
  | wait_load other =>
      simp only [exec]
      split_ifs
      · rw [code_put]
        refine .stays taken ⟨fun holds => ⟨?_, holds⟩, And.right⟩
        rintro rfl
        exact contract.1 holds
      · rw [code_put]
        exact .stays taken Iff.rfl
  | wait_swap other =>
      simp only [exec]
      split_ifs with free
      · rw [code_put]
        by_cases own : lock = other
        · subst own
          rw [setLock_self]
          exact .take free contract.1
        · rw [setLock_of_ne own]
          exact .stays taken ⟨fun holds => ⟨Ne.symm own, holds⟩, And.right⟩
      · rw [code_put]
        by_cases own : lock = other
        · subst own
          rw [setLock_self]
          exact .spin free ⟨And.right, fun holds => ⟨holds.1, holds⟩⟩
        · rw [setLock_of_ne own]
          exact .stays taken ⟨And.right, fun holds => ⟨holds.1, holds⟩⟩
  | post other =>
      simp only [exec]
      rw [code_put]
      by_cases own : lock = other
      · subst own
        rw [setLock_self]
        exact .release (.inl rfl) contract
      · rw [setLock_of_ne own]
        exact .stays taken ⟨.inr, fun holds => holds.resolve_left (Ne.symm own)⟩
  | check_hart_state t command =>
      obtain rfl : rest = [] := contract
      have same {after : List (Op config.xlen)} (keeps : Keeps {.sbi_hsm_locks t} after) :
          Holds lock (after ++ []) ↔ Holds lock [.check_hart_state t command] := by
        rw [List.append_nil, keeps.holds lock]
        simp
      simp only [exec]
      split_ifs
      · rw [code_put]
        exact .stays taken (same startRefused_locks)
      · rw [code_put]
        exact .stays taken (same (startAccepted_locks command))
  | dispatch =>
      obtain rfl : rest = [] := contract
      simp only [exec]
      rw [code_put, List.append_nil]
      exact .stays taken ⟨fun holds => (handle_locks config h hart.command).free lock holds,
        False.elim⟩
  | poll t =>
      simp only [exec]
      split_ifs
      · rw [code_put]
        exact .stays taken Iff.rfl
      · rw [code_put]
        exact .stays taken Iff.rfl
  | resume =>
      cases level with
      | main => exact .stays taken (by simp only [exec]; rw [← code]; rfl)
      | handler => exact ends contract Iff.rfl
  | ret retval => cases level <;> exact ends contract Iff.rfl
  | ret_hart_state t => cases level <;> exact ends contract Iff.rfl
  | switch_to_hart_context => cases level <;> exact ends contract Iff.rfl
  | switch_to_user_context => cases level <;> exact ends contract Iff.rfl
  | switch_to_context context => cases level <;> exact ends contract Iff.rfl
  | write_context record field value =>
      cases record <;> cases level <;> exact .stays taken Iff.rfl
  | _ => cases level <;> exact .stays taken Iff.rfl

/-- Code stays within the contract. -/
theorem Continues.keepsLocks
    {command : Hart_Command config.xlen}
    (continues : Continues config h command op rest ops)
    (contract : EverySuffix LockContract (op :: rest)) :
    EverySuffix LockContract ops := by
  refine continues.keeps contract ?_ ?_ ?_
  · intro lock rest contract
    refine ⟨fun holds => holds.1 rfl, fun other holds => ?_⟩
    exact contract.2 other (Ne.symm holds.1) holds.2
  · rintro t start rfl
    obtain rfl : rest = [] := contract.1
    rw [List.append_nil, List.append_nil]
    exact ⟨startRefused_locks.contract, (startAccepted_locks start).contract⟩
  · rintro rfl
    obtain rfl : rest = [] := contract.1
    rw [List.append_nil]
    exact (handle_locks config h command).contract

end Exec

/-- The code of a level of a hart that holds a lock. -/
def Holder (lock : Lock) (system : System xlen) (agent : Nat × Level) : Prop :=
  Holds lock ((system.harts agent.1).code agent.2)

/-- All code keeps to the contract, and no lock has two holders. -/
structure Disciplined (system : System xlen) : Prop where
  contract : ∀ k level, EverySuffix LockContract ((system.harts k).code level)
  exclusive : ∀ lock, SpinLock.Exclusive (system.memory.locks lock) (Holder lock system)

section Step

variable {config : Config} {system next : System config.xlen}
  {label : Label config.xlen} {k : Nat}

/-- A hart changes its code to some that holds no more. -/
theorem Disciplined.setHart
    {hart : HartState config.xlen}
    (disciplined : Disciplined system)
    (codes : ∀ level, hart.code level = (system.harts k).code level ∨
      Keeps ∅ (hart.code level)) :
    Disciplined (system.setHart k hart) := by
  rw [setHart_eq_set]
  constructor
  · intro j level
    by_cases own : j = k
    · subst own
      rw [set_self]
      rcases codes level with same | fresh
      · rw [same]
        exact disciplined.contract j level
      · exact fresh.contract
    · rw [set_of_ne own]
      exact disciplined.contract j level
  · intro lock
    apply (disciplined.exclusive lock).mono
    rintro ⟨j, level⟩ holds
    by_cases own : j = k
    · subst own
      rw [Holder, set_self] at holds
      rcases codes level with same | fresh
      · rw [Holder, ← same]
        exact holds
      · exact absurd holds (fresh.free lock)
    · rwa [Holder, set_of_ne own] at holds

/-- A trap starts a handler. -/
theorem Disciplined.trap
    {ops : List (Op config.xlen)}
    (disciplined : Disciplined system)
    (keeps : Keeps ∅ ops) :
    Disciplined (system.setHart k { (system.harts k).save with handler := some ops }) := by
  apply disciplined.setHart
  intro level
  cases level with
  | main => exact .inl (save_main _)
  | handler => exact .inr keeps

/-- One operation of a level, where the other level holds no more than before. -/
theorem Disciplined.exec
    {level : Level}
    {op : Op config.xlen}
    {rest : List (Op config.xlen)}
    (disciplined : Disciplined system)
    (code : (system.harts k).code level = op :: rest)
    (contracts : ∀ other, EverySuffix LockContract
      ((exec config k level rest (system.harts k) system.memory op).2.1.code other))
    (fewer : ∀ other, other ≠ level → ∀ lock,
      Holds lock
          ((exec config k level rest (system.harts k) system.memory op).2.1.code other) →
        Holds lock ((system.harts k).code other)) :
    Disciplined (system.set k
      (exec config k level rest (system.harts k) system.memory op)) := by
  have contract := disciplined.contract k level
  rw [code] at contract
  constructor
  · intro j other
    by_cases own : j = k
    · subst own
      rw [set_self]
      exact contracts other
    · rw [set_of_ne own]
      exact disciplined.contract j other
  · intro lock
    have exclusive := disciplined.exclusive lock
    have move := @exec_lock config k level (system.harts k) system.memory op rest lock code
      contract.1 fun holds => exclusive.taken (k, level) (by rwa [Holder, code])
    rw [← code] at move
    apply (exclusive.move (i := (k, level)) move).mono
    rintro ⟨j, other⟩ holds
    by_cases own : j = k
    · subst own
      rw [Holder, set_self] at holds
      by_cases same : other = level
      · subst same
        rwa [Function.update_self]
      · rw [Function.update_of_ne (by simpa using same)]
        exact fewer other same lock holds
    · rw [Holder, set_of_ne own] at holds
      rwa [Function.update_of_ne (by simp [own])]

/-- The step lemma of the discipline. -/
theorem Disciplined.step
    (disciplined : Disciplined system)
    (step : Step config (sbiCalls config) system label next) :
    Disciplined next := by
  cases step with
  | @main k op rest idle code =>
      have still : (Harts.exec config k .main rest (system.harts k) system.memory
          op).2.1.handler = none := exec_main_handler idle
      have contract := disciplined.contract k .main
      rw [HartState.code, code] at contract
      apply disciplined.exec (show (system.harts k).code .main = op :: rest from code)
      · intro other
        cases other with
        | main => exact (exec_main_continues code).keepsLocks contract
        | handler =>
            rw [HartState.code, still]
            trivial
      · intro other differs lock holds
        cases other with
        | main => exact absurd rfl differs
        | handler =>
            rw [HartState.code, still] at holds
            exact holds.elim
  | @handler k op rest code =>
      have running : (system.harts k).code .handler = op :: rest := by
        rw [HartState.code, code]
        rfl
      have contract := disciplined.contract k .handler
      rw [running] at contract
      have below : (Harts.exec config k .handler rest (system.harts k) system.memory
            op).2.1.main = (system.harts k).main ∨
          (Harts.exec config k .handler rest (system.harts k) system.memory
            op).2.1.main = [] :=
        exec_handler_main
      apply disciplined.exec running
      · intro other
        cases other with
        | main =>
            rcases below with same | dropped
            · rw [HartState.code, same]
              exact disciplined.contract k .main
            · rw [HartState.code, dropped]
              trivial
        | handler =>
            rw [HartState.code]
            cases after : (Harts.exec config k .handler rest (system.harts k) system.memory
              op).2.1.handler with
            | none => trivial
            | some ops => exact (exec_handler_continues after).keepsLocks contract
      · intro other differs lock holds
        cases other with
        | main =>
            rcases below with same | dropped
            · rwa [HartState.code, same] at holds
            · rw [HartState.code, dropped] at holds
              exact holds.elim
        | handler => exact absurd rfl differs
  | @software_interrupt k idle up =>
      exact disciplined.trap software_locks
  | @timer_interrupt k idle low =>
      exact disciplined.trap (timer_locks config k)
  | @call k ops kernel empty idle allowed =>
      obtain ⟨request, rfl⟩ := allowed
      apply disciplined.setHart
      intro level
      cases level with
      | main => exact .inr (call_locks config.toPlatform k request)
      | handler => exact .inl rfl
  | @run k user_context csrs outside idle =>
      apply disciplined.setHart
      intro level
      cases level with
      | main => exact .inl rfl
      | handler => exact .inl rfl
  | @exception k cause_value lines raises empty idle =>
      exact disciplined.trap (exception_locks k cause_value lines)

/-- What `kinit` leaves holds no lock. -/
theorem Booted.disciplined
    (booted : Booted config system) :
    Disciplined system := by
  obtain ⟨stack, boot⟩ := booted.boot_main
  have keeps (k : Nat) (level : Level) : Keeps ∅ ((system.harts k).code level) := by
    cases level with
    | main =>
        by_cases first : k = 0
        · subst first
          rw [HartState.code, boot]
          exact kmain_locks config stack
        · rw [HartState.code, booted.other_main k first]
          exact .nil
    | handler =>
        by_cases first : k = 0
        · subst first
          rw [HartState.code, booted.boot_handler]
          exact .nil
        · rw [HartState.code, booted.other_handler k first]
          exact .resume
  refine ⟨fun k level => (keeps k level).contract, fun lock => ⟨?_, ?_⟩⟩
  · exact fun agent holds => absurd holds ((keeps agent.1 agent.2).free lock)
  · exact fun agent _ holds _ => absurd holds ((keeps agent.1 agent.2).free lock)

theorem Disciplined.run
    {labels : List (Label config.xlen)}
    (disciplined : Disciplined system)
    (run : Run (Step config (sbiCalls config)) system labels next) :
    Disciplined next :=
  run.invariant (fun taken before => before.step taken) disciplined

/-- Who makes a guarded access holds the lock. -/
theorem LockContract.guarded
    {op : Op xlen}
    {rest : List (Op xlen)}
    {lock : Lock}
    (contract : LockContract op rest)
    (guard : op.guard = some lock) :
    Holds lock (op :: rest) := by
  cases op with
  | print text => cases guard; exact contract
  | poll t => cases guard; exact contract.1
  | copy t field value => cases guard; exact contract
  | raise t command => cases guard; exact contract
  | check_hart_state t command => cases guard; exact .inl rfl
  | store_hart_state t state => cases guard; exact contract
  | post other => cases guard; exact .inl rfl
  | _ => cases guard

/-- Along every run from boot, a lock has at most one holder, its word is set while
it has one, and output, mailboxes, states and releases are accesses of the holder
alone. -/
theorem locks_exclude
    {first last : System config.xlen}
    {labels : List (Label config.xlen)}
    (booted : Booted config first)
    (run : Run (Step config (sbiCalls config)) first labels last) :
    (∀ lock, SpinLock.Exclusive (last.memory.locks lock) (Holder lock last)) ∧
      ∀ agent op rest lock, (last.harts agent.1).code agent.2 = op :: rest →
        op.guard = some lock →
          last.memory.locks lock ≠ 0 ∧ ∀ other, Holder lock last other ↔ other = agent := by
  obtain ⟨contract, exclusive⟩ := booted.disciplined.run run
  refine ⟨exclusive, fun agent op rest lock code guard => ?_⟩
  have here := contract agent.1 agent.2
  rw [code] at here
  have holds : Holder lock last agent := by
    rw [Holder, code]
    exact LockContract.guarded here.1 guard
  refine ⟨(exclusive lock).taken agent holds, fun other => ⟨fun holding => ?_, ?_⟩⟩
  · exact (exclusive lock).alone other agent holding holds
  · rintro rfl
    exact holds

end Step

/-- The next operation is output. -/
def isPrinting : List (Op xlen) → Bool
  | .print _ :: _ => true
  | _ => false

/-- The boot hart has taken `printm_lock` and is about to print. -/
theorem locks_exclude_boot :
    ∃ (last : System twoHartBoard.xlen) (text : String) (rest : List (Op twoHartBoard.xlen)),
      (last.harts 0).main = .print text :: rest ∧
        last.memory.locks .printm_lock ≠ 0 ∧
          ∀ other, Holder .printm_lock last other ↔ other = (0, .main) := by
  have played : (play twoHartBoard (List.replicate 2 (.advance 0))
      (bootSystem twoHartBoard)).any
        (fun result => isPrinting (result.2.harts 0).main) = true := by
    decide
  obtain ⟨labels, last, run, -, reached⟩ :=
    play_reaches (fun _ last => isPrinting (last.harts 0).main) played
  unfold isPrinting at reached
  split at reached
  · next text rest code =>
      exact ⟨last, text, rest, code,
        (locks_exclude (bootSystem_booted twoHartBoard) run).2 (0, .main) _ _ _ code rfl⟩
  · cases reached

end Harts
end EchelonSbi
