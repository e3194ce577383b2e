import EchelonSbi.Sbi.HartMask
import Mathlib.Data.Set.Basic

/-!
# Which harts a mask call acts on

A mask and a base select the harts at the unbounded sums `base + i`.  The calls
compute these sums in a register.  The two agree unless a sum wraps, and a
wrapped sum goes unnoticed exactly when every sum, wrapped, is a valid hart id.
-/

namespace EchelonSbi
namespace Sbi

open Foundation

/-- The harts that a mask and a base select, as unbounded numbers. -/
def SelectedHarts
    (platform : Platform) (hart_mask hart_mask_base : Word platform.xlen) :
    Set Nat :=
  if hart_mask_base = BitVec.allOnes _ then { hart | platform.ValidHart hart }
  else { hart | ∃ i, hart_mask.getLsbD i ∧ hart = hart_mask_base.toNat + i }

namespace HartMaskCall

/-- What a call does to the calling hart. -/
def localAction : HartMaskCall xlen → HartAction xlen
  | .sendIpi => .setSoftwareInterrupt
  | .remoteFenceI => .fenceI
  | .remoteSfenceVma _ _ => .sfenceVma
  | .remoteSfenceVmaAsid _ _ _ => .sfenceVma

/-- The command asks hart `hart_id` for what the call promises. -/
def Carries (hart_id : Word xlen) (command : Hart_Command xlen) :
    HartMaskCall xlen → Prop
  | .sendIpi =>
      command.command = HARTCMD_SMODE_SOFTINT ∧ command.param0 = hart_id
  | .remoteFenceI =>
      command.command = HARTCMD_REMOTE_FENCE_I ∧ command.param0 = hart_id
  | .remoteSfenceVma start_addr size =>
      command.command = HARTCMD_REMOTE_SFENCE_VMA ∧
        command.param0 = hart_id ∧
        command.param1 = start_addr ∧ command.param2 = size
  | .remoteSfenceVmaAsid start_addr size asid =>
      command.command = HARTCMD_REMOTE_SFENCE_VMA_ASID ∧
        command.param0 = hart_id ∧
        command.param1 = start_addr ∧ command.param2 = size ∧
        command.param3 = asid

/-- The action that a call owes to one selected hart: a local one for the
calling hart, one command for any other. -/
def ActsOn
    (mhartid : Word xlen)
    (call : HartMaskCall xlen)
    (hart : Nat)
    (action : HartAction xlen) : Prop :=
  if hart = mhartid.toNat then action = call.localAction
  else ∃ hart_id command,
    action = .send hart_id command ∧ hart_id.toNat = hart ∧
      call.Carries hart_id command

/-- Success exactly when every selected hart is valid, then one action for
each selected hart and no other; else a refusal without any action. -/
def SelectsExactly
    (platform : Platform)
    (mhartid hart_mask hart_mask_base : Word platform.xlen)
    (call : HartMaskCall platform.xlen)
    (outcome : MaskedOutcome platform.xlen) : Prop :=
  (outcome.ret.error = SBI_SUCCESS ↔
    ∀ hart ∈ SelectedHarts platform hart_mask hart_mask_base,
      platform.ValidHart hart) ∧
  (outcome.ret.error = SBI_SUCCESS →
    ∃ targets : List Nat,
      targets.Nodup ∧
      (∀ hart, hart ∈ targets ↔
        hart ∈ SelectedHarts platform hart_mask hart_mask_base) ∧
      List.Forall₂ (call.ActsOn mhartid) targets outcome.actions) ∧
  (outcome.ret.error ≠ SBI_SUCCESS →
    outcome.ret.error = SBI_ERR_INVALID_PARAM ∧ outcome.actions = [])

/-- The command that a call builds for another hart. -/
def commandFor
    (stack : Word xlen → Hart_Command xlen)
    (call : HartMaskCall xlen)
    (hartid : Word xlen) : Hart_Command xlen :=
  match call with
  | .sendIpi =>
      { stack hartid with
        command := HARTCMD_SMODE_SOFTINT
        param0 := hartid }
  | .remoteFenceI =>
      { stack hartid with
        command := HARTCMD_REMOTE_FENCE_I
        param0 := hartid }
  | .remoteSfenceVma start_addr size =>
      { stack hartid with
        command := HARTCMD_REMOTE_SFENCE_VMA
        param0 := hartid
        param1 := start_addr
        param2 := size }
  | .remoteSfenceVmaAsid start_addr size asid =>
      { stack hartid with
        command := HARTCMD_REMOTE_SFENCE_VMA_ASID
        param0 := hartid
        param1 := start_addr
        param2 := size
        param3 := asid }

/-- The text a call prints when it refuses. -/
def failure : HartMaskCall xlen → String
  | .sendIpi => "SBI FAILURE: SEND_IPI\n"
  | .remoteFenceI => "SBI FAILURE: Remote Fence.I\n"
  | .remoteSfenceVma _ _ => "SBI FAILURE: Remote SFence.VMA\n"
  | .remoteSfenceVmaAsid _ _ _ => "SBI FAILURE: Remote SFence.VMA_ASID\n"

theorem commandFor_carries
    (stack : Word xlen → Hart_Command xlen)
    (hartid : Word xlen)
    (call : HartMaskCall xlen) :
    call.Carries hartid (call.commandFor stack hartid) := by
  cases call <;> simp [Carries, commandFor]

/-- A mask call neither starts a hart nor switches its context. -/
theorem commandFor_command
    (stack : Word xlen → Hart_Command xlen)
    (hartid : Word xlen)
    (call : HartMaskCall xlen) :
    (call.commandFor stack hartid).command ≠ HARTCMD_STARTHART ∧
      (call.commandFor stack hartid).command ≠ HARTCMD_SWITCHCONTEXT := by
  cases call <;> cases xlen <;> exact ⟨by simp [commandFor]; decide, by simp [commandFor]; decide⟩

/-- The action of the second pass on one hart id. -/
def actionFor
    (mhartid : Word xlen)
    (stack : Word xlen → Hart_Command xlen)
    (call : HartMaskCall xlen)
    (hartid : Word xlen) : HartAction xlen :=
  if hartid = mhartid then call.localAction
  else .send hartid (call.commandFor stack hartid)

theorem actsOn_actionFor
    (mhartid : Word xlen)
    (stack : Word xlen → Hart_Command xlen)
    (call : HartMaskCall xlen)
    (hartid : Word xlen) :
    call.ActsOn mhartid hartid.toNat
      (call.actionFor mhartid stack hartid) := by
  unfold ActsOn actionFor
  by_cases own : hartid = mhartid
  · simp [own]
  · rw [if_neg own, if_neg fun same => own (BitVec.eq_of_toNat_eq same)]
    exact ⟨hartid, _, rfl, rfl, call.commandFor_carries stack hartid⟩

/-- The four calls differ in these three arguments only. -/
theorem run_eq_maskedCall
    (platform : Platform)
    (mhartid : Word platform.xlen)
    (stack : Word platform.xlen → Hart_Command platform.xlen)
    (hart_mask hart_mask_base : Word platform.xlen)
    (call : HartMaskCall platform.xlen) :
    call.run platform mhartid stack hart_mask hart_mask_base =
      maskedCall platform call.failure mhartid call.localAction
        (call.commandFor stack) hart_mask hart_mask_base := by
  cases call <;> rfl

/-- All four calls without their loops. -/
theorem run_eq
    (platform : Platform)
    (mhartid : Word platform.xlen)
    (stack : Word platform.xlen → Hart_Command platform.xlen)
    (hart_mask hart_mask_base : Word platform.xlen)
    (call : HartMaskCall platform.xlen) :
    call.run platform mhartid stack hart_mask hart_mask_base =
      if ∀ hartid ∈ visitedHarts platform hart_mask hart_mask_base,
          is_valid_hartid platform hartid then
        ⟨⟨SBI_SUCCESS, 0⟩,
          (visitedHarts platform hart_mask hart_mask_base).map
            (call.actionFor mhartid stack),
          []⟩
      else ⟨⟨SBI_ERR_INVALID_PARAM, 0⟩, [], [call.failure]⟩ := by
  rw [run_eq_maskedCall, maskedCall_eq]
  rfl

/-- A call succeeds exactly when every visited hart is valid. -/
theorem run_success_iff
    (platform : Platform)
    (mhartid : Word platform.xlen)
    (stack : Word platform.xlen → Hart_Command platform.xlen)
    (hart_mask hart_mask_base : Word platform.xlen)
    (call : HartMaskCall platform.xlen) :
    (call.run platform mhartid stack hart_mask hart_mask_base).ret.error =
        SBI_SUCCESS ↔
      ∀ hartid ∈ visitedHarts platform hart_mask hart_mask_base,
        is_valid_hartid platform hartid := by
  rw [run_eq]
  split
  case isTrue accepted => simpa using accepted
  case isFalse refused =>
    simp only [refused, iff_false]
    decide

end HartMaskCall

/-! ## Selected and visited harts -/

theorem getLsbD_foldl_or
    (harts : List Nat)
    (mask : BitVec w)
    (below : ∀ hart ∈ harts, hart < w)
    (i : Nat) :
    (harts.foldl (fun mask hart => mask ||| 1#w <<< (hart % w)) mask).getLsbD
        i ↔ mask.getLsbD i ∨ i ∈ harts := by
  induction harts generalizing mask with
  | nil => simp
  | cons hart rest inductionHypothesis =>
      have hartBelow : hart < w := below hart (by simp)
      have bit : (1#w <<< hart).getLsbD i ↔ i = hart := by
        simp only [BitVec.getLsbD_shiftLeft, BitVec.getLsbD_one]
        simp
        omega
      rw [List.foldl_cons, inductionHypothesis _
        (fun other inRest => below other (by simp [inRest])),
        BitVec.getLsbD_or, Nat.mod_eq_of_lt hartBelow, Bool.or_eq_true, bit,
        List.mem_cons, or_assoc]

/-- The mask that stands for all harts has exactly their bits. -/
theorem getLsbD_allHarts
    {platform : Platform}
    (fits : platform.TOTAL_HART_COUNT ≤ platform.xlen.bits)
    (i : Nat) :
    (allHarts platform).getLsbD i ↔ platform.ValidHart i := by
  have counts := platform.use_le_total
  rw [allHarts, getLsbD_foldl_or]
  · simp only [BitVec.getLsbD_zero, Bool.false_eq_true, false_or,
      List.mem_range'_1, Platform.ValidHart]
    omega
  · intro hart member
    rw [List.mem_range'_1] at member
    omega

theorem bits_lt_size (xlen : Xlen) : xlen.bits < xlen.size :=
  Nat.lt_two_pow_self

/-- The selected harts in terms of the mask and the base of the passes. -/
theorem mem_selectedHarts
    {platform : Platform}
    (fits : platform.TOTAL_HART_COUNT ≤ platform.xlen.bits)
    (hart_mask hart_mask_base : Word platform.xlen)
    (hart : Nat) :
    hart ∈ SelectedHarts platform hart_mask hart_mask_base ↔
      ∃ i ∈ setBits (identifyHarts platform hart_mask hart_mask_base).1,
        hart =
          (identifyHarts platform hart_mask hart_mask_base).2.toNat + i := by
  unfold SelectedHarts identifyHarts
  by_cases all : hart_mask_base = BitVec.allOnes _
  · simp [all, getLsbD_allHarts fits]
  · simp [all]

/-- The register sum is the unbounded one unless it wraps. -/
theorem toNat_hartidAt
    {base : Word xlen}
    {i : Nat}
    (fits : base.toNat + i < xlen.size) :
    (hartidAt base i).toNat = base.toNat + i := by
  have small : i < 2 ^ xlen.bits := by
    unfold Xlen.size at fits
    omega
  rw [hartidAt, BitVec.toNat_add, BitVec.toNat_ofNat, Nat.mod_eq_of_lt small]
  exact Nat.mod_eq_of_lt fits

/-- Different bits of a mask stand for different harts. -/
theorem visitedHarts_nodup
    (platform : Platform) (hart_mask hart_mask_base : Word platform.xlen) :
    (visitedHarts platform hart_mask hart_mask_base).Nodup := by
  refine List.Nodup.map_on ?_ (setBits_nodup _)
  intro i iSet j jSet same
  have small := bits_lt_size platform.xlen
  have iBelow := BitVec.lt_of_getLsbD (mem_setBits.mp iSet)
  have jBelow := BitVec.lt_of_getLsbD (mem_setBits.mp jSet)
  have offsets := congrArg BitVec.toNat (BitVec.add_right_inj _ |>.mp same)
  unfold Xlen.size at small
  rwa [BitVec.toNat_ofNat, BitVec.toNat_ofNat,
    Nat.mod_eq_of_lt (by omega), Nat.mod_eq_of_lt (by omega)] at offsets

/-- The register sums agree with the unbounded ones as far as a call can tell:
the base is all ones, or no sum wraps, or some sum is refused. -/
def SumsAgree
    (platform : Platform) (hart_mask hart_mask_base : Word platform.xlen) :
    Prop :=
  hart_mask_base = BitVec.allOnes _ ∨
    (∀ i, hart_mask.getLsbD i →
      hart_mask_base.toNat + i < platform.xlen.size) ∨
    ∃ i, hart_mask.getLsbD i ∧
      is_valid_hartid platform (hartidAt hart_mask_base i) = false

namespace HartMaskCall

section Selection

variable
  {platform : Platform}
  (fits : platform.TOTAL_HART_COUNT ≤ platform.xlen.bits)
  (mhartid : Word platform.xlen)
  (stack : Word platform.xlen → Hart_Command platform.xlen)
  {hart_mask hart_mask_base : Word platform.xlen}
  (call : HartMaskCall platform.xlen)

include fits

/-- Without a wrapped sum a call acts on the selected harts. -/
theorem selectsExactly_of_no_wrap
    (unwrapped :
      ∀ i ∈ setBits (identifyHarts platform hart_mask hart_mask_base).1,
        (identifyHarts platform hart_mask hart_mask_base).2.toNat + i <
          platform.xlen.size) :
    call.SelectsExactly platform mhartid hart_mask hart_mask_base
      (call.run platform mhartid stack hart_mask hart_mask_base) := by
  have visited (hart : Nat) :
      hart ∈ SelectedHarts platform hart_mask hart_mask_base ↔
        ∃ hartid ∈ visitedHarts platform hart_mask hart_mask_base,
          hart = hartid.toNat := by
    rw [mem_selectedHarts fits]
    unfold visitedHarts
    constructor
    · rintro ⟨i, iSet, rfl⟩
      exact ⟨_, List.mem_map_of_mem iSet,
        (toNat_hartidAt (unwrapped i iSet)).symm⟩
    · rintro ⟨hartid, member, rfl⟩
      obtain ⟨i, iSet, rfl⟩ := List.mem_map.mp member
      exact ⟨i, iSet, toNat_hartidAt (unwrapped i iSet)⟩
  have allValid :
      (∀ hart ∈ SelectedHarts platform hart_mask hart_mask_base,
        platform.ValidHart hart) ↔
      ∀ hartid ∈ visitedHarts platform hart_mask hart_mask_base,
        is_valid_hartid platform hartid := by
    simp only [visited, is_valid_hartid_iff]
    constructor
    · intro valid hartid member
      exact valid _ ⟨hartid, member, rfl⟩
    · rintro valid _ ⟨hartid, member, rfl⟩
      exact valid hartid member
  refine ⟨(run_success_iff ..).trans allValid.symm, ?_, ?_⟩
  · intro success
    rw [run_success_iff] at success
    refine ⟨(visitedHarts platform hart_mask hart_mask_base).map
      BitVec.toNat, ?_, ?_, ?_⟩
    · exact (visitedHarts_nodup ..).map fun _ _ => BitVec.eq_of_toNat_eq
    · intro hart
      simp [visited, eq_comm]
    · rw [run_eq, if_pos success, List.forall₂_map_left_iff,
        List.forall₂_map_right_iff, List.forall₂_same]
      exact fun hartid _ => actsOn_actionFor mhartid stack call hartid
  · intro failed
    rw [ne_eq, run_success_iff] at failed
    rw [run_eq, if_neg failed]
    exact ⟨rfl, rfl⟩

/-- With a wrapped sum a call is right exactly when it refuses. -/
theorem selectsExactly_of_wrap
    {i : Nat}
    (iSet : i ∈ setBits (identifyHarts platform hart_mask hart_mask_base).1)
    (wraps : platform.xlen.size ≤
      (identifyHarts platform hart_mask hart_mask_base).2.toNat + i) :
    call.SelectsExactly platform mhartid hart_mask hart_mask_base
        (call.run platform mhartid stack hart_mask hart_mask_base) ↔
      ¬∀ hartid ∈ visitedHarts platform hart_mask hart_mask_base,
        is_valid_hartid platform hartid := by
  have beyond :
      ¬∀ hart ∈ SelectedHarts platform hart_mask hart_mask_base,
        platform.ValidHart hart := by
    intro valid
    have := (valid _ ((mem_selectedHarts fits ..).mpr ⟨i, iSet, rfl⟩)).2
    have := platform.total_le_size
    omega
  constructor
  · rintro ⟨success, -, -⟩ accepted
    exact beyond (success.mp ((run_success_iff ..).mpr accepted))
  · intro refused
    refine ⟨⟨fun success => absurd ((run_success_iff ..).mp success) refused,
      fun valid => absurd valid beyond⟩,
      fun success => absurd ((run_success_iff ..).mp success) refused, ?_⟩
    intro _
    rw [run_eq, if_neg refused]
    exact ⟨rfl, rfl⟩

/-- The four calls act on exactly the selected harts, and refuse exactly when
one of them is invalid, if and only if the register sums agree with the
unbounded ones. -/
theorem selectsExactly_iff_sumsAgree :
    call.SelectsExactly platform mhartid hart_mask hart_mask_base
        (call.run platform mhartid stack hart_mask hart_mask_base) ↔
      SumsAgree platform hart_mask hart_mask_base := by
  by_cases unwrapped :
      ∀ i ∈ setBits (identifyHarts platform hart_mask hart_mask_base).1,
        (identifyHarts platform hart_mask hart_mask_base).2.toNat + i <
          platform.xlen.size
  · refine iff_of_true
      (selectsExactly_of_no_wrap fits mhartid stack call unwrapped) ?_
    by_cases all : hart_mask_base = BitVec.allOnes _
    · exact .inl all
    · simp only [identifyHarts, if_neg all, mem_setBits] at unwrapped
      exact .inr (.inl unwrapped)
  · push Not at unwrapped
    obtain ⟨i, iSet, wraps⟩ := unwrapped
    rw [selectsExactly_of_wrap fits mhartid stack call iSet wraps]
    have small := bits_lt_size platform.xlen
    have below := BitVec.lt_of_getLsbD (mem_setBits.mp iSet)
    have notAll : hart_mask_base ≠ BitVec.allOnes _ := by
      intro all
      simp only [identifyHarts, if_pos all, BitVec.toNat_ofNat,
        Nat.zero_mod] at wraps
      omega
    simp only [visitedHarts, identifyHarts, if_neg notAll, mem_setBits,
      List.forall_mem_map] at iSet wraps ⊢
    constructor
    · intro refused
      push Not at refused
      obtain ⟨j, jSet, invalid⟩ := refused
      exact .inr (.inr ⟨j, jSet, by simpa using invalid⟩)
    · rintro (all | unwrapped | ⟨j, jSet, invalid⟩) accepted
      · exact notAll all
      · exact absurd (unwrapped i iSet) (by omega)
      · simp [accepted j jSet] at invalid

end Selection

/-- Four harts, of which the last three are in use. -/
def threeOfFourHarts : Platform where
  xlen := .rv64
  TOTAL_HART_COUNT := 4
  USE_HART_COUNT := 3
  use_le_total := by decide
  total_le_size := by decide

theorem selectsExactly_two_harts :
    HartMaskCall.sendIpi.SelectsExactly threeOfFourHarts 1#_ 3#_ 1#_
      (HartMaskCall.sendIpi.run threeOfFourHarts 1#_
        (fun _ => .cleared) 3#_ 1#_) := by
  refine (selectsExactly_iff_sumsAgree (by decide) _ _ _).mpr
    (.inr (.inl fun i iSet => ?_))
  have below := BitVec.lt_of_getLsbD iSet
  exact Nat.lt_trans (Nat.add_lt_add_left below _) (by decide)

/-- A single hart. -/
def oneHart : Platform where
  xlen := .rv64
  TOTAL_HART_COUNT := 1
  USE_HART_COUNT := 1
  use_le_total := by decide
  total_le_size := by decide

/-- Bit 2 above base `2 ^ 64 - 2` selects no hart, but the call acts on hart 0
and reports success. -/
theorem not_selectsExactly_wrapped_sum :
    ¬HartMaskCall.sendIpi.SelectsExactly oneHart 0#_ 4#_ (-2#_)
      (HartMaskCall.sendIpi.run oneHart 0#_
        (fun _ => .cleared) 4#_ (-2#_)) := by
  intro selectsExactly
  have visited : visitedHarts oneHart 4#_ (-2#_) = [0#_] := by
    decide +kernel
  have third : 2 ∈ setBits (identifyHarts oneHart 4#_ (-2#_)).1 :=
    mem_setBits.mpr (by decide +kernel)
  have wraps : oneHart.xlen.size ≤
      (identifyHarts oneHart 4#_ (-2#_)).2.toNat + 2 := by
    decide +kernel
  have refused :=
    (selectsExactly_of_wrap (by decide) _ _ _ third wraps).mp selectsExactly
  apply refused
  rw [visited]
  exact List.forall_mem_singleton.mpr (by decide)

end HartMaskCall

end Sbi
end EchelonSbi
