import EchelonSbi.Word

/-!
# Platform constants and the types shared by the SBI calls

The hart counts, the physical memory map, the command record that one hart
leaves for another, and the two validity checks of `sbi_commands.c`.
-/

namespace EchelonSbi
namespace Sbi

/-- The build-time configuration of the firmware. -/
structure Platform where
  xlen : Xlen
  TOTAL_HART_COUNT : Nat
  USE_HART_COUNT : Nat
  use_le_total : USE_HART_COUNT ≤ TOTAL_HART_COUNT
  /-- Every hart id fits in a register. -/
  total_le_size : TOTAL_HART_COUNT ≤ xlen.size

/-- The record of `hart_commands`. -/
structure Hart_Command (xlen : Xlen) where
  command : Word xlen
  param0 : Word xlen
  param1 : Word xlen
  param2 : Word xlen
  param3 : Word xlen
  param4 : Word xlen
  param5 : Word xlen
  deriving DecidableEq

/-- A record of zeros, as `kinit` leaves it. -/
def Hart_Command.cleared : Hart_Command xlen :=
  ⟨0#_, 0#_, 0#_, 0#_, 0#_, 0#_, 0#_⟩

/-- The result of an SBI call. -/
structure sbiret where
  error : Int
  value : Int
  deriving DecidableEq, Repr

def SBI_SUCCESS : Int := 0
def SBI_ERR_NOT_SUPPORTED : Int := -2
def SBI_ERR_INVALID_PARAM : Int := -3
def SBI_ERR_INVALID_ADDRESS : Int := -5
def SBI_ERR_ALREADY_AVAILABLE : Int := -6

section Commands

variable {xlen : Xlen}

def HARTCMD_SWITCHCONTEXT : Word xlen := 1#_
def HARTCMD_STARTHART : Word xlen := 14#_
def HARTCMD_REMOTE_FENCE_I : Word xlen := 17#_
def HARTCMD_REMOTE_SFENCE_VMA : Word xlen := 18#_
def HARTCMD_REMOTE_SFENCE_VMA_ASID : Word xlen := 19#_
def HARTCMD_SMODE_SOFTINT : Word xlen := 20#_

end Commands

def MEMORY_BASE : Nat := 0x80000000
def MEMORY_AVAILABLE : Nat := 0x08000000

namespace Platform

/-- The harts the firmware hands to the kernel. -/
def ValidHart (platform : Platform) (hart : Nat) : Prop :=
  platform.TOTAL_HART_COUNT - platform.USE_HART_COUNT ≤ hart ∧
    hart < platform.TOTAL_HART_COUNT

instance (platform : Platform) (hart : Nat) :
    Decidable (platform.ValidHart hart) :=
  inferInstanceAs (Decidable (_ ∧ _))

end Platform

/-- `is_valid_hartid`. -/
def is_valid_hartid
    (platform : Platform) (hartid : Word platform.xlen) : Bool :=
  if hartid.toNat < platform.TOTAL_HART_COUNT - platform.USE_HART_COUNT ∨
      hartid.toNat ≥ platform.TOTAL_HART_COUNT then false
  else true

/-- `is_valid_phys_mem_addr`. -/
def is_valid_phys_mem_addr
    (address : Word xlen) (required_alignment : Nat) : Bool :=
  if address &&& (1#(xlen.bits) <<< required_alignment - 1#(xlen.bits)) ≠ 0#_ then
    false
  else if address.toNat < MEMORY_BASE ∨
      address.toNat ≥ MEMORY_BASE + MEMORY_AVAILABLE then false
  else true

theorem is_valid_hartid_iff
    {platform : Platform}
    {hartid : Word platform.xlen} :
    is_valid_hartid platform hartid ↔ platform.ValidHart hartid.toNat := by
  unfold is_valid_hartid Platform.ValidHart
  split <;> simp <;> omega

end Sbi
end EchelonSbi
