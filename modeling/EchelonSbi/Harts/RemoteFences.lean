import EchelonSbi.Harts.CallResults
import EchelonSbi.Harts.Operations
import EchelonSbi.Harts.Schedule

/-!
# What a remote fence has done when it returns

The calling hart fences itself before it returns.  To other harts it leaves a
command and does not wait for its handling.
-/

namespace EchelonSbi

namespace Sbi

open Foundation

/-- The bits of the mask of all harts, whatever the number of harts. -/
theorem getLsbD_foldl_or_of_mem
    (harts : List Nat)
    (mask : BitVec w)
    {hart : Nat}
    (inside : hart ∈ harts)
    (positive : 0 < w) :
    (harts.foldl (fun mask hart => mask ||| 1#w <<< (hart % w)) mask).getLsbD
        (hart % w) := by
  have kept (others : List Nat) (mask : BitVec w) (i : Nat)
      (bit : mask.getLsbD i) :
      (others.foldl (fun mask hart => mask ||| 1#w <<< (hart % w)) mask).getLsbD
        i := by
    induction others generalizing mask with
    | nil => exact bit
    | cons other rest inductionHypothesis =>
        exact inductionHypothesis _ (by simp [bit])
  induction harts generalizing mask with
  | nil => cases inside
  | cons first rest inductionHypothesis =>
      rcases List.mem_cons.mp inside with rfl | later
      · refine kept rest _ _ ?_
        have below := Nat.mod_lt hart positive
        simp [below]
      · exact inductionHypothesis _ later

/-- A call that succeeds visits its own hart, where that is the only one
selected. -/
theorem own_visited
    {platform : Platform}
    {hart_mask hart_mask_base : Word platform.xlen}
    {k : Nat}
    (selected : k ∈ SelectedHarts platform hart_mask hart_mask_base)
    (valid : platform.ValidHart k)
    (only : ∀ hart ∈ SelectedHarts platform hart_mask hart_mask_base,
      platform.ValidHart hart → hart = k)
    (accepted : ∀ hartid ∈ visitedHarts platform hart_mask hart_mask_base,
      is_valid_hartid platform hartid) :
    BitVec.ofNat _ k ∈ visitedHarts platform hart_mask hart_mask_base := by
  have counts := platform.use_le_total
  have fits := platform.total_le_size
  have positive := bits_pos platform.xlen
  by_cases all : hart_mask_base = BitVec.allOnes _
  · have bit : (allHarts platform).getLsbD (k % platform.xlen.bits) := by
      refine getLsbD_foldl_or_of_mem _ _ ?_ positive
      rw [List.mem_range'_1]
      have := valid.1
      have := valid.2
      omega
    have visited : BitVec.ofNat _ (k % platform.xlen.bits) ∈
        visitedHarts platform hart_mask hart_mask_base := by
      refine List.mem_map.mpr ⟨k % platform.xlen.bits, ?_, ?_⟩
      · simpa [identifyHarts, all] using bit
      · simp [identifyHarts, all, hartidAt]
    have here := (is_valid_hartid_iff ..).mp (accepted _ visited)
    have below := Nat.mod_lt k positive
    have small := bits_lt_size platform.xlen
    rw [BitVec.toNat_ofNat, Nat.mod_eq_of_lt (by unfold Xlen.size at small; omega)]
      at here
    have same := only (k % platform.xlen.bits)
      (by simpa [SelectedHarts, all] using here) here
    rwa [same] at visited
  · simp only [SelectedHarts, if_neg all, Set.mem_ofPred_eq] at selected
    obtain ⟨i, bit, sum⟩ := selected
    refine List.mem_map.mpr ⟨i, by simpa [identifyHarts, all] using bit, ?_⟩
    apply BitVec.eq_of_toNat_eq
    have inside : hart_mask_base.toNat + i < platform.xlen.size := by
      have := valid.2
      omega
    simp only [identifyHarts, if_neg all]
    rw [toNat_hartidAt inside, BitVec.toNat_ofNat, ← sum, Nat.mod_eq_of_lt]
    rw [sum]
    exact inside

end Sbi

namespace Harts

open Foundation
open Sbi

variable {xlen : Xlen}

/-- The fence that a call is for. -/
def fence : HartMaskCall xlen → Option (Op xlen × Event xlen)
  | .sendIpi => none
  | .remoteFenceI => some (.fence_i, .executed_fence_i)
  | .remoteSfenceVma _ _ => some (.sfence_vma, .executed_sfence_vma)
  | .remoteSfenceVmaAsid _ _ _ => some (.sfence_vma, .executed_sfence_vma)

/-- Code of a call that neither decides nor returns does not end it. -/
theorem callEnd_plains
    {left rest : List (Op xlen)}
    (plain : ∀ op ∈ left, op.Plain) :
    callEnd (left ++ rest) = callEnd rest := by
  refine foldr_append_ignored fun op member value => ?_
  have here := plain op member
  cases op <;> simp_all [Op.Plain]

/-- A mask call returns its outcome. -/
theorem callEnd_masked
    (platform : Platform)
    (mhartid hart_mask hart_mask_base : Word platform.xlen)
    (stack : Word platform.xlen → Hart_Command platform.xlen)
    (call : HartMaskCall platform.xlen) :
    callEnd (maskedOps
        (call.run platform mhartid stack hart_mask hart_mask_base)) =
      .returns (call.run platform mhartid stack hart_mask hart_mask_base).ret := by
  rw [maskedOps, List.append_assoc, HartMaskCall.run_eq]
  split_ifs
  · rw [callEnd_plains (by simp), callEnd_plains]
    · rfl
    · intro op member
      obtain ⟨action, inside, here⟩ := List.mem_flatMap.mp member
      obtain ⟨hartid, -, rfl⟩ := List.mem_map.mp inside
      exact action_plain op here
  · rw [callEnd_locals (prints_local _)]
    rfl

/-- A call that succeeds for its own hart alone has its fence in its code. -/
theorem fence_mem_call
    {platform : Platform}
    {hart_mask hart_mask_base : Word platform.xlen}
    {stack : Word platform.xlen → Hart_Command platform.xlen}
    {call : HartMaskCall platform.xlen}
    {k : Nat}
    {op : Op platform.xlen}
    {event : Event platform.xlen}
    (fenced : fence call = some (op, event))
    (success : (call.run platform (BitVec.ofNat _ k) stack hart_mask
      hart_mask_base).ret.error = SBI_SUCCESS)
    (selected : k ∈ SelectedHarts platform hart_mask hart_mask_base)
    (valid : platform.ValidHart k)
    (only : ∀ hart ∈ SelectedHarts platform hart_mask hart_mask_base,
      platform.ValidHart hart → hart = k) :
    op ∈ call_to_sbi platform k
      (.mask call hart_mask hart_mask_base stack) := by
  rw [HartMaskCall.run_success_iff] at success
  have visited := own_visited selected valid only success
  have acts : op ∈ actionOps (call.actionFor (BitVec.ofNat _ k) stack
      (BitVec.ofNat _ k)) := by
    cases call <;> cases fenced <;>
      simp [HartMaskCall.actionFor, HartMaskCall.localAction, actionOps]
  rw [call_to_sbi, maskedOps, HartMaskCall.run_eq, if_pos success]
  simp only [List.flatMap_nil, List.nil_append]
  refine List.mem_append_left _ (List.mem_flatMap.mpr ⟨_, ?_, acts⟩)
  exact List.mem_map_of_mem visited

section

variable {config : Config} {system next : System config.xlen}
  {label : Label config.xlen} {k : Nat} {started : Bool}

/-- The fence of a call was executed in it, or is still to come. -/
def FenceProgress
    (k : Nat) (op : Op xlen) (event : Event xlen) (window : List (Label xlen))
    (main : List (Op xlen)) : Prop :=
  ⟨k, .main, event⟩ ∈ window ∨ main = [] ∨ op ∈ main

/-- The step lemma of the fence. -/
theorem FenceProgress.step
    {call : HartMaskCall config.xlen}
    {op : Op config.xlen}
    {event : Event config.xlen}
    {window : List (Label config.xlen)}
    (fenced : fence call = some (op, event))
    (progress : FenceProgress k op event window (system.harts k).main)
    (same : ∀ ops, label ≠ ⟨k, .main, .called ops⟩)
    (step : Step config (sbiCalls config) system label next) :
    FenceProgress k op event (window ++ [label]) (next.harts k).main := by
  rcases progress with done | waiting
  · exact .inl (List.mem_append_left _ done)
  rcases step.main_cases k with
    ⟨main, -⟩ | ⟨ops, called, -, -⟩ | ⟨first, rest, idle, code, rfl, rfl⟩
  · rcases main with kept | gone
    · exact .inr (by rwa [kept])
    · exact .inr (.inl gone)
  · exact absurd called (same ops)
  · have inside : op ∈ first :: rest := by
      rw [code] at waiting
      exact waiting.resolve_left (by simp)
    by_cases now : first = op
    · subst now
      refine .inl (List.mem_append_right _ (List.mem_singleton.mpr ?_))
      cases call <;> cases fenced <;> rfl
    · have later : op ∈ rest :=
        (List.mem_cons.mp inside).resolve_left (Ne.symm now)
      refine .inr ?_
      rw [set_self]
      exact (exec_main_continues code).mem later

/-- What ends a call by a return. -/
theorem exec_main_returned
    {hart : HartState config.xlen}
    {memory : Memory config.xlen}
    {op : Op config.xlen}
    {rest : List (Op config.xlen)}
    {retval : sbiret}
    (contract : StartContract 0 k op rest)
    (returned : (exec config k .main rest hart memory op).1 =
      .returned retval) :
    rest = [] ∧ (op = .ret retval ∨ ∃ t, op = .ret_hart_state t) := by
  obtain ⟨-, rule⟩ := contract
  cases op with
  | ret given => cases returned; exact ⟨rule, .inl rfl⟩
  | ret_hart_state t => exact ⟨rule, .inr ⟨t, rfl⟩⟩
  | wait_load lock => simp only [exec] at returned; split_ifs at returned
  | wait_swap lock =>
      simp only [exec] at returned
      split_ifs at returned
      cases lock <;> cases returned
  | poll t => simp only [exec] at returned; split_ifs at returned
  | check_hart_state t command =>
      simp only [exec] at returned
      split_ifs at returned
  | _ => cases returned

/-- Along every run from boot, a remote fence that returns `SBI_SUCCESS` and
selects no hart but the one that called has been executed by every hart that it
selects since it was called. -/
theorem remote_fences_complete
    {first last : System config.xlen}
    {before window : List (Label config.xlen)}
    {call : HartMaskCall config.xlen}
    {hart_mask hart_mask_base : Word config.xlen}
    {stack : Word config.xlen → Hart_Command config.xlen}
    {op : Op config.xlen}
    {event : Event config.xlen}
    {retval : sbiret}
    (booted : Booted config first)
    (run : Run (Step config (sbiCalls config)) first
      (before ++ ⟨k, .main, .called (call_to_sbi config.toPlatform k
          (.mask call hart_mask hart_mask_base stack))⟩ :: window ++
        [⟨k, .main, .returned retval⟩]) last)
    (within : ∀ other, ⟨k, .main, .called other⟩ ∉ window)
    (fenced : fence call = some (op, event))
    (success : retval.error = SBI_SUCCESS)
    (only : ∀ hart ∈ SelectedHarts config.toPlatform hart_mask hart_mask_base,
      config.ValidHart hart → hart = k) :
    ∀ hart ∈ SelectedHarts config.toPlatform hart_mask hart_mask_base,
      config.ValidHart hart → ∃ level, ⟨hart, level, event⟩ ∈ window := by
  intro hart selected valid
  obtain rfl := only hart selected valid
  have returns : callEnd (call_to_sbi config.toPlatform hart
      (.mask call hart_mask hart_mask_base stack)) = .returns retval := by
    have masked := callEnd_masked config.toPlatform (BitVec.ofNat _ hart)
      hart_mask hart_mask_base stack call
    rcases call_returns booted.managed run within with
      ⟨-, same | ⟨_, same⟩⟩ | ⟨_, _, _, _, _, same, _⟩
    · exact same
    · cases masked.symm.trans same
    · cases masked.symm.trans same
  have answer : (call.run config.toPlatform (BitVec.ofNat _ hart) stack hart_mask
      hart_mask_base).ret = retval := by
    cases (callEnd_masked ..).symm.trans returns
    rfl
  have inside : op ∈ call_to_sbi config.toPlatform hart
      (.mask call hart_mask hart_mask_base stack) :=
    fence_mem_call fenced (by rw [answer]; exact success) selected valid only
  obtain ⟨finish, next, rest, contract, progress, event_⟩ := call_rule
    (FenceProgress hart op event) (.inr (.inr inside))
    (fun _ progress same step => progress.step fenced same step)
    booted.managed run within
  obtain ⟨rfl, ends⟩ := exec_main_returned contract event_
  rcases progress with done | gone | waiting
  · exact ⟨.main, done⟩
  · cases gone
  · rw [List.mem_singleton.mp waiting] at fenced
    rcases ends with rfl | ⟨t, rfl⟩ <;> cases call <;> cases fenced

set_option maxRecDepth 4000 in
theorem remote_fences_complete_own :
    ∃ (window : List (Label twoHartBoard.xlen)) (level : Level),
      ⟨0, level, .executed_fence_i⟩ ∈ window := by
  have played : (play twoHartBoard bootSchedule (bootSystem twoHartBoard)).any
      (fun reached =>
        (play twoHartBoard (.call 0 (.mask .remoteFenceI 1#_ 0#_ fun _ => .cleared)
            :: List.replicate 2 (.advance 0)) reached.2).any fun result =>
          succeeds 0 result.1.tail && true) = true := by
    decide
  obtain ⟨before, window, retval, last, run, within, success, -⟩ :=
    play_succeeds (fun _ => true) played
  have own (hart : Nat) :
      hart ∈ SelectedHarts twoHartBoard.toPlatform 1#_ 0#_ ↔ hart = 0 := by
    rw [SelectedHarts, if_neg (by decide)]
    constructor
    · rintro ⟨i, bit, rfl⟩
      rw [BitVec.getLsbD_one] at bit
      simp only [Bool.and_eq_true, decide_eq_true_eq] at bit
      rw [bit.2]
      rfl
    · rintro rfl
      exact ⟨0, by decide, by decide⟩
  exact ⟨window, remote_fences_complete (bootSystem_booted twoHartBoard) run
    within rfl success (fun hart selected _ => (own hart).mp selected) 0
      ((own 0).mpr rfl) (by decide)⟩

set_option maxRecDepth 8000 in
theorem not_remote_fences_complete :
    ¬∀ (first last : System twoHartBoard.xlen) before window k
        (call : HartMaskCall twoHartBoard.xlen) hart_mask hart_mask_base stack op
        event retval,
      Booted twoHartBoard first →
        Run (Step twoHartBoard (sbiCalls twoHartBoard)) first
          (before ++ ⟨k, .main, .called (call_to_sbi twoHartBoard.toPlatform k
              (.mask call hart_mask hart_mask_base stack))⟩ :: window ++
            [⟨k, .main, .returned retval⟩]) last →
          (∀ other, ⟨k, .main, .called other⟩ ∉ window) →
            fence call = some (op, event) → retval.error = SBI_SUCCESS →
              ∀ hart ∈ SelectedHarts twoHartBoard.toPlatform hart_mask
                  hart_mask_base,
                twoHartBoard.ValidHart hart →
                  ∃ level, ⟨hart, level, event⟩ ∈ window := by
  intro always
  have played : (play twoHartBoard (bootSchedule ++ startSchedule)
      (bootSystem twoHartBoard)).any (fun reached =>
        (play twoHartBoard (.call 0 (.mask .remoteFenceI 2#_ 0#_ fun _ => .cleared)
            :: List.replicate 15 (.advance 0)) reached.2).any fun result =>
          succeeds 0 result.1.tail &&
            result.1.tail.all fun label => label.hart = 0) = true := by
    decide
  obtain ⟨before, window, retval, last, run, within, success, silent⟩ :=
    play_succeeds (fun labels => labels.all fun label => label.hart = 0) played
  have selected : 1 ∈ SelectedHarts twoHartBoard.toPlatform 2#_ 0#_ := by
    rw [SelectedHarts, if_neg (by decide)]
    exact ⟨1, by decide, by decide⟩
  obtain ⟨level, executed⟩ := always _ last before window 0 .remoteFenceI 2#_ 0#_
    (fun _ => .cleared) _ _ retval (bootSystem_booted twoHartBoard) run within
      rfl success 1 selected (by decide)
  have here := List.all_eq_true.mp silent _ (List.mem_append_left _ executed)
  cases of_decide_eq_true here

end

end Harts
end EchelonSbi
