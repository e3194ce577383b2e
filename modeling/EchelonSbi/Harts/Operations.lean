import EchelonSbi.Foundation.EverySuffix
import EchelonSbi.Harts.System

/-!
# What an operation leaves of the code it begins

A contract of code is a property of each operation together with what follows
it.  Most operations leave what follows them; the rules below collect the
others, so that a contract need only be checked against them.
-/

namespace EchelonSbi
namespace Harts

open Foundation
open Sbi

/-- What an operation of hart `h` can leave of the code it was the first of,
when the handler holds `command`. -/
inductive Continues
    (config : Config) (h : Nat) (command : Hart_Command config.xlen) :
    Op config.xlen → List (Op config.xlen) → List (Op config.xlen) → Prop
  | next {op : Op config.xlen} {rest : List (Op config.xlen)} :
      Continues config h command op rest rest
  | again {op : Op config.xlen} {rest : List (Op config.xlen)} :
      Continues config h command op rest (op :: rest)
  | spin {lock : Lock} {rest : List (Op config.xlen)} :
      Continues config h command (.wait_swap lock) rest
        (.wait_load lock :: .wait_swap lock :: rest)
  | refused {t : Nat} {start : Hart_Command config.xlen}
      {rest : List (Op config.xlen)} :
      Continues config h command (.check_hart_state t start) rest
        (startRefused t ++ rest)
  | accepted {t : Nat} {start : Hart_Command config.xlen}
      {rest : List (Op config.xlen)} :
      Continues config h command (.check_hart_state t start) rest
        (startAccepted t start ++ rest)
  | dispatched {rest : List (Op config.xlen)} :
      Continues config h command .dispatch rest
        (handleCommand config h command ++ rest)
  | ended {op : Op config.xlen} {rest : List (Op config.xlen)} :
      Continues config h command op rest []

section

variable {config : Config} {h : Nat} {hart : HartState config.xlen}
  {memory : Memory config.xlen} {op : Op config.xlen}
  {rest ops : List (Op config.xlen)}

theorem exec_main_continues
    (code : hart.main = op :: rest) :
    Continues config h hart.command op rest
      (exec config h .main rest hart memory op).2.1.main := by
  cases op with
  | wait_load lock => simp only [exec]; split_ifs; exacts [.next, .again]
  | wait_swap lock => simp only [exec]; split_ifs; exacts [.next, .spin]
  | poll t => simp only [exec]; split_ifs; exacts [.next, .again]
  | check_hart_state t start =>
      simp only [exec]
      split_ifs
      · exact .refused
      · exact .accepted
  | dispatch => exact .dispatched
  | ret retval => exact .ended
  | ret_hart_state t => exact .ended
  | switch_to_hart_context => exact .ended
  | switch_to_user_context => exact .ended
  | switch_to_context context => exact .ended
  | resume =>
      simp only [exec, code]
      exact .again
  | halt_not_handled => exact .again
  | halt_exception => exact .again
  | write_context record field value => cases record <;> exact .next
  | _ => exact .next

theorem exec_handler_continues
    (after : (exec config h .handler rest hart memory op).2.1.handler =
      some ops) :
    Continues config h hart.command op rest ops := by
  cases op with
  | wait_load lock =>
      simp only [exec] at after
      split_ifs at after <;> cases after
      exacts [.next, .again]
  | wait_swap lock =>
      simp only [exec] at after
      split_ifs at after <;> cases after
      exacts [.next, .spin]
  | poll t =>
      simp only [exec] at after
      split_ifs at after <;> cases after
      exacts [.next, .again]
  | check_hart_state t start =>
      simp only [exec] at after
      split_ifs at after <;> cases after
      exacts [.refused, .accepted]
  | dispatch => cases after; exact .dispatched
  | ret retval => cases after; exact .ended
  | ret_hart_state t => cases after; exact .ended
  | switch_to_hart_context => cases after
  | switch_to_user_context => cases after
  | switch_to_context context => cases after
  | resume => cases after
  | halt_not_handled => cases after; exact .again
  | halt_exception => cases after; exact .again
  | write_context record field value => cases record <;> cases after <;> exact .next
  | _ => cases after; exact .next

/-- A contract is kept if spinning, the two ways out of the check of
`sbi_hart_start` and the dispatch of a handler keep it. -/
theorem Continues.keeps
    {contract : Op config.xlen → List (Op config.xlen) → Prop}
    {command : Hart_Command config.xlen}
    (continues : Continues config h command op rest ops)
    (suffixes : EverySuffix contract (op :: rest))
    (spin : ∀ {lock rest}, contract (.wait_swap lock) rest →
      contract (.wait_load lock) (.wait_swap lock :: rest))
    (checked : ∀ {t start}, op = .check_hart_state t start →
      EverySuffix contract (startRefused t ++ rest) ∧
        EverySuffix contract (startAccepted t start ++ rest))
    (dispatched : op = .dispatch →
      EverySuffix contract (handleCommand config h command ++ rest)) :
    EverySuffix contract ops := by
  cases continues with
  | next => exact suffixes.2
  | again => exact suffixes
  | spin => exact ⟨spin suffixes.1, suffixes⟩
  | refused => exact (checked rfl).1
  | accepted => exact (checked rfl).2
  | dispatched => exact dispatched rfl
  | ended => trivial

/-- Nothing that follows an operation is skipped. -/
theorem Continues.mem
    {later : Op config.xlen}
    {command : Hart_Command config.xlen}
    (continues : Continues config h command op rest ops)
    (inside : later ∈ rest) :
    ops = [] ∨ later ∈ ops := by
  cases continues with
  | next => exact .inr inside
  | again => exact .inr (List.mem_cons_of_mem _ inside)
  | spin => exact .inr (List.mem_cons_of_mem _ (List.mem_cons_of_mem _ inside))
  | refused => exact .inr (List.mem_append_right _ inside)
  | accepted => exact .inr (List.mem_append_right _ inside)
  | dispatched => exact .inr (List.mem_append_right _ inside)
  | ended => exact .inl rfl

end

/-! ## The operations of calls -/

section Calls

variable {xlen : Xlen}

/-- The operations that the code of SBI calls consists of. -/
def Op.OfCall : Op xlen → Prop
  | .csr_bitset csr _ => csr = .mip
  | .write_context record field _ =>
      record = .hart_contexts ∧
        (field = .regs REG_A0 ∨ field = .regs REG_A1 ∨ field = .regs REG_A2)
  | .load_command _ => False
  | .dispatch => False
  | .clear_command => False
  | .clear_msip => False
  | .csr_write _ _ => False
  | .csr_bitclr _ _ => False
  | .resume => False
  | .switch_to_user_context => False
  | .switch_to_context _ => False
  | .halt_not_handled => False
  | .halt_exception => False
  | _ => True

theorem forall_mem_append
    {property : Op xlen → Prop}
    {left right : List (Op xlen)}
    (first : ∀ op ∈ left, property op)
    (second : ∀ op ∈ right, property op) :
    ∀ op ∈ left ++ right, property op := by
  intro op member
  rcases List.mem_append.mp member with before | after
  · exact first op before
  · exact second op after

theorem forall_mem_flatMap
    {property : Op xlen → Prop}
    {items : List α}
    {code : α → List (Op xlen)}
    (each : ∀ item ∈ items, ∀ op ∈ code item, property op) :
    ∀ op ∈ items.flatMap code, property op := by
  intro op member
  obtain ⟨item, inside, here⟩ := List.mem_flatMap.mp member
  exact each item inside op here

theorem printm_ofCall (text : String) :
    ∀ op ∈ (printm text : List (Op xlen)), op.OfCall := by
  simp [printm, ksem_wait, ksem_post, Op.OfCall]

theorem send_ofCall (t : Nat) (command : Hart_Command xlen) :
    ∀ op ∈ send_hart_command_que t command, op.OfCall := by
  simp [send_hart_command_que, copy_command, CommandField.all, ksem_wait,
    ksem_post, Op.OfCall]

theorem masked_ofCall (outcome : MaskedOutcome xlen) :
    ∀ op ∈ maskedOps outcome, op.OfCall := by
  apply forall_mem_append
  · apply forall_mem_append
    · exact forall_mem_flatMap fun text _ => printm_ofCall text
    · apply forall_mem_flatMap
      intro action _
      cases action with
      | send hart_id command => exact send_ofCall _ command
      | _ => simp [actionOps, Op.OfCall]
  · simp [Op.OfCall]

theorem startRefused_ofCall (t : Nat) :
    ∀ op ∈ (startRefused t : List (Op xlen)), op.OfCall := by
  apply forall_mem_append
  · exact forall_mem_append (printm_ofCall _) (by simp [ksem_post, Op.OfCall])
  · simp [Op.OfCall]

theorem startAccepted_ofCall (t : Nat) (command : Hart_Command xlen) :
    ∀ op ∈ startAccepted t command, op.OfCall := by
  apply forall_mem_append
  · exact forall_mem_append (by simp [ksem_post, Op.OfCall])
      (send_ofCall t command)
  · simp [Op.OfCall]

theorem goDown_ofCall (k : Nat) (state : SBI_HSM) :
    ∀ op ∈ (goDown k state : List (Op xlen)), op.OfCall := by
  simp [goDown, ksem_wait, ksem_post, Op.OfCall]

theorem call_ofCall
    (platform : Platform)
    (k : Nat)
    (request : Request platform.xlen) :
    ∀ op ∈ call_to_sbi platform k request, op.OfCall := by
  cases request with
  | mask call hart_mask hart_mask_base stack => exact masked_ofCall _
  | hart_start hartid start_addr opaque_ stack =>
      rw [call_to_sbi, sbi_hart_start]
      split_ifs
      · exact forall_mem_append (printm_ofCall _) (by simp [Op.OfCall])
      · exact forall_mem_append (printm_ofCall _) (by simp [Op.OfCall])
      · exact forall_mem_append (printm_ofCall _) (by simp [Op.OfCall])
      · simp [ksem_wait, Op.OfCall]
  | hart_stop => exact forall_mem_append (printm_ofCall _) (goDown_ofCall _ _)
  | hart_get_status hartid =>
      apply forall_mem_append (printm_ofCall _)
      split_ifs <;> simp [Op.OfCall]
  | hart_suspend suspend_type resume_addr opaque_ =>
      apply forall_mem_append (printm_ofCall _)
      split_ifs
      · simp [Op.OfCall]
      · exact forall_mem_append (by simp [Op.OfCall]) (goDown_ofCall _ _)
      · simp [Op.OfCall]
  | other printed ret =>
      exact forall_mem_append (forall_mem_flatMap fun _ _ => printm_ofCall _)
        (by simp [Op.OfCall])

theorem kmain_ofCall (config : Config) (stack : Hart_Command config.xlen) :
    ∀ op ∈ kmain config stack, op.OfCall :=
  forall_mem_append (printm_ofCall _) (send_ofCall _ _)

end Calls

end Harts
end EchelonSbi
