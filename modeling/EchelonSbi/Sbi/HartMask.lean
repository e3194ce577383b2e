import EchelonSbi.Foundation.BitScan
import EchelonSbi.Sbi.Platform

/-!
# SBI calls that act on the harts of a mask

`sbi_send_ipi`, `sbi_remote_fence_i`, `sbi_remote_sfence_vma` and
`sbi_remote_sfence_vma_asid`.  The four functions differ in the action on the
calling hart, in the command for the other harts and in the text they print;
`maskedCall` is what they share.
-/

namespace EchelonSbi
namespace Sbi

open Foundation

/-- What a call does to one hart of its mask. -/
inductive HartAction (xlen : Xlen) where
  /-- `CSRI_BITSET(CSR_MIP, 0x2)`. -/
  | setSoftwareInterrupt
  /-- `CPU_FENCEI()`. -/
  | fenceI
  /-- `CPU_SFENCEVMA()`. -/
  | sfenceVma
  /-- `send_hart_command_que(hart_id, &command)`. -/
  | send (hart_id : Word xlen) (command : Hart_Command xlen)
  deriving DecidableEq

/-- The result of a call, its actions in order, and the text it prints. -/
structure MaskedOutcome (xlen : Xlen) where
  ret : sbiret
  actions : List (HartAction xlen)
  printed : List String
  deriving DecidableEq

/-- The mask of all harts in use.  `1ul << i` uses the low bits of `i`, as the
shift instruction does. -/
def allHarts (platform : Platform) : Word platform.xlen :=
  (List.range' (platform.TOTAL_HART_COUNT - platform.USE_HART_COUNT)
    platform.USE_HART_COUNT).foldl
      (fun hart_mask i =>
        hart_mask ||| 1#(platform.xlen.bits) <<< (i % platform.xlen.bits))
      0#_

/-- The mask and the base that the two passes use. -/
def identifyHarts
    (platform : Platform) (hart_mask hart_mask_base : Word platform.xlen) :
    Word platform.xlen × Word platform.xlen :=
  if hart_mask_base = BitVec.allOnes _ then (allHarts platform, 0#_)
  else (hart_mask, hart_mask_base)

/-- `hart_mask_base + i`. -/
def hartidAt (hart_mask_base : Word xlen) (i : Nat) : Word xlen :=
  hart_mask_base + BitVec.ofNat _ i

/-- The body of the four functions: the pass that checks the hart ids, then
the pass that acts on them.  `command` gives the contents of the local
`Hart_Command` at the send. -/
def maskedCall
    (platform : Platform)
    (failure : String)
    (mhartid : Word platform.xlen)
    (localAction : HartAction platform.xlen)
    (command : Word platform.xlen → Hart_Command platform.xlen)
    (hart_mask hart_mask_base : Word platform.xlen) :
    MaskedOutcome platform.xlen :=
  let (hart_mask, hart_mask_base) :=
    identifyHarts platform hart_mask hart_mask_base
  let passes :
      Except (MaskedOutcome platform.xlen) (List (HartAction platform.xlen)) :=
    do
      scanBits
        (fun i () =>
          if is_valid_hartid platform (hartidAt hart_mask_base i) then .ok ()
          else .error ⟨⟨SBI_ERR_INVALID_PARAM, 0⟩, [], [failure]⟩)
        platform.xlen.bits 0 hart_mask ()
      scanBits
        (fun i actions =>
          let hartid := hartidAt hart_mask_base i
          .ok (actions ++
            [if hartid = mhartid then localAction
             else .send hartid (command hartid)]))
        platform.xlen.bits 0 hart_mask []
  match passes with
  | .error outcome => outcome
  | .ok actions => ⟨⟨SBI_SUCCESS, 0⟩, actions, []⟩

section Calls

/-! The fields of the local `Hart_Command` that a function does not assign keep
whatever its stack slot held, here `stack hartid`. -/

variable
  (platform : Platform)
  (mhartid : Word platform.xlen)
  (stack : Word platform.xlen → Hart_Command platform.xlen)
  (hart_mask hart_mask_base : Word platform.xlen)

/-- `sbi_send_ipi`. -/
def sbi_send_ipi : MaskedOutcome platform.xlen :=
  maskedCall platform "SBI FAILURE: SEND_IPI\n" mhartid .setSoftwareInterrupt
    (fun hartid =>
      { stack hartid with
        command := HARTCMD_SMODE_SOFTINT
        param0 := hartid })
    hart_mask hart_mask_base

/-- `sbi_remote_fence_i`. -/
def sbi_remote_fence_i : MaskedOutcome platform.xlen :=
  maskedCall platform "SBI FAILURE: Remote Fence.I\n" mhartid .fenceI
    (fun hartid =>
      { stack hartid with
        command := HARTCMD_REMOTE_FENCE_I
        param0 := hartid })
    hart_mask hart_mask_base

/-- `sbi_remote_sfence_vma`. -/
def sbi_remote_sfence_vma
    (start_addr size : Word platform.xlen) : MaskedOutcome platform.xlen :=
  maskedCall platform "SBI FAILURE: Remote SFence.VMA\n" mhartid .sfenceVma
    (fun hartid =>
      { stack hartid with
        command := HARTCMD_REMOTE_SFENCE_VMA
        param0 := hartid
        param1 := start_addr
        param2 := size })
    hart_mask hart_mask_base

/-- `sbi_remote_sfence_vma_asid`. -/
def sbi_remote_sfence_vma_asid
    (start_addr size asid : Word platform.xlen) : MaskedOutcome platform.xlen :=
  maskedCall platform "SBI FAILURE: Remote SFence.VMA_ASID\n" mhartid .sfenceVma
    (fun hartid =>
      { stack hartid with
        command := HARTCMD_REMOTE_SFENCE_VMA_ASID
        param0 := hartid
        param1 := start_addr
        param2 := size
        param3 := asid })
    hart_mask hart_mask_base

end Calls

/-- One of the four calls, with the arguments other than mask and base. -/
inductive HartMaskCall (xlen : Xlen) where
  | sendIpi
  | remoteFenceI
  | remoteSfenceVma (start_addr size : Word xlen)
  | remoteSfenceVmaAsid (start_addr size asid : Word xlen)
  deriving DecidableEq

namespace HartMaskCall

/-- Run the function that a call names. -/
def run
    (platform : Platform)
    (mhartid : Word platform.xlen)
    (stack : Word platform.xlen → Hart_Command platform.xlen)
    (hart_mask hart_mask_base : Word platform.xlen) :
    HartMaskCall platform.xlen → MaskedOutcome platform.xlen
  | .sendIpi =>
      sbi_send_ipi platform mhartid stack hart_mask hart_mask_base
  | .remoteFenceI =>
      sbi_remote_fence_i platform mhartid stack hart_mask hart_mask_base
  | .remoteSfenceVma start_addr size =>
      sbi_remote_sfence_vma platform mhartid stack hart_mask hart_mask_base
        start_addr size
  | .remoteSfenceVmaAsid start_addr size asid =>
      sbi_remote_sfence_vma_asid platform mhartid stack hart_mask
        hart_mask_base start_addr size asid

end HartMaskCall

/-! ## The harts that the passes visit -/

theorem bits_pos (xlen : Xlen) : 0 < xlen.bits := by
  cases xlen <;> decide

/-- The hart ids that the two passes visit, in order. -/
def visitedHarts
    (platform : Platform) (hart_mask hart_mask_base : Word platform.xlen) :
    List (Word platform.xlen) :=
  (setBits (identifyHarts platform hart_mask hart_mask_base).1).map
    (hartidAt (identifyHarts platform hart_mask hart_mask_base).2)

/-- `maskedCall` without its loops: refuse when some visited hart is invalid,
else act on every visited hart. -/
theorem maskedCall_eq
    (platform : Platform)
    (failure : String)
    (mhartid : Word platform.xlen)
    (localAction : HartAction platform.xlen)
    (command : Word platform.xlen → Hart_Command platform.xlen)
    (hart_mask hart_mask_base : Word platform.xlen) :
    maskedCall platform failure mhartid localAction command
        hart_mask hart_mask_base =
      if ∀ hartid ∈ visitedHarts platform hart_mask hart_mask_base,
          is_valid_hartid platform hartid then
        ⟨⟨SBI_SUCCESS, 0⟩,
          (visitedHarts platform hart_mask hart_mask_base).map fun hartid =>
            if hartid = mhartid then localAction
            else .send hartid (command hartid),
          []⟩
      else ⟨⟨SBI_ERR_INVALID_PARAM, 0⟩, [], [failure]⟩ := by
  unfold maskedCall visitedHarts
  rcases identifyHarts platform hart_mask hart_mask_base with ⟨mask, base⟩
  simp only [scanBits_all, List.forall_mem_map, List.map_map]
  rw [foldlM_check (fun i => is_valid_hartid platform (hartidAt base i))]
  by_cases accepted :
      ∀ i ∈ setBits mask, is_valid_hartid platform (hartidAt base i)
  · rw [if_pos accepted, if_pos accepted]
    rw [show
      (Except.ok () : Except (MaskedOutcome platform.xlen) Unit) = pure ()
      from rfl, pure_bind, foldlM_collect]
    simp [Function.comp_def]
  · rw [if_neg accepted, if_neg accepted]
    rfl

end Sbi
end EchelonSbi
