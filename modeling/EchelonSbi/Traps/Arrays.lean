import EchelonSbi.Traps.TrapCode

/-!
# The context arrays

`kinit` allocates three contexts for each hart in one block: one with the stack
of the hart, one for interrupts of an exception handler and one for the kernel.
The trap code finds those of its hart by the `context_id` of the first kind.
-/

namespace EchelonSbi
namespace Traps

open Riscv

/-- The block of contexts for `total` harts (`TOTAL_HART_COUNT`). -/
structure HartArrays (xlen : Xlen) where
  base : Word xlen
  total : Nat
  fits : CT_SIZE xlen * (3 * total) ≤ 2 ^ xlen.bits

namespace HartArrays

variable {xlen : Xlen} (arrays : HartArrays xlen)

/-- The address of a context of the block. -/
def context (index : Nat) : Word xlen :=
  arrays.base + BitVec.ofNat xlen.bits (CT_SIZE xlen * index)

/-- `hart_contexts + hart`. -/
def own (hart : Nat) : Word xlen :=
  arrays.context hart

/-- `hart_contexts_exception + hart`. -/
def exception (hart : Nat) : Word xlen :=
  arrays.context (arrays.total + hart)

/-- `hart_contexts_user + hart`. -/
def user (hart : Nat) : Word xlen :=
  arrays.context (2 * arrays.total + hart)

variable {arrays}

theorem field_context
    (index word : Nat) :
    field (arrays.context index) word =
      arrays.base + BitVec.ofNat xlen.bits (xlen.bytes * (35 * index + word)) := by
  have size : CT_SIZE xlen = xlen.bytes * 35 := by
    rw [CT_SIZE, CT_R_ST, ← Nat.mul_add]
  rw [field, context, BitVec.add_assoc, BitVec.ofNat_add_ofNat, size, Nat.mul_add,
    Nat.mul_assoc]

/-- The words of the block are apart. -/
theorem field_context_inj
    {index other word otherWord : Nat}
    (inside : index < 3 * arrays.total)
    (otherInside : other < 3 * arrays.total)
    (wordInside : word < 35)
    (otherWordInside : otherWord < 35) :
    field (arrays.context index) word = field (arrays.context other) otherWord ↔
      index = other ∧ word = otherWord := by
  constructor
  · intro same
    rw [field_context, field_context] at same
    have offsets := congrArg BitVec.toNat (BitVec.add_right_inj arrays.base |>.mp same)
    have fits := arrays.fits
    rw [CT_SIZE, CT_R_ST, ← Nat.mul_add, Nat.mul_assoc] at fits
    have bound (index word : Nat) (inside : index < 3 * arrays.total) (within : word < 35) :
        xlen.bytes * (35 * index + word) < 2 ^ xlen.bits := by
      refine lt_of_lt_of_le ?_ fits
      exact Nat.mul_lt_mul_of_pos_left (by omega) xlen.bytes_pos
    rw [BitVec.toNat_ofNat, BitVec.toNat_ofNat,
      Nat.mod_eq_of_lt (bound _ _ inside wordInside),
      Nat.mod_eq_of_lt (bound _ _ otherInside otherWordInside)] at offsets
    have places := Nat.eq_of_mul_eq_mul_left xlen.bytes_pos offsets
    omega
  · rintro ⟨rfl, rfl⟩
    rfl

end HartArrays

/-- A hart and the firmware that serves its traps. -/
structure Served (xlen : Xlen) where
  firmware : Firmware xlen
  arrays : HartArrays xlen
  hart : Nat
  hart_lt : hart < arrays.total
  /-- The variables of the firmware are outside the block. -/
  outside :
    ∀ name : TrapName, ∀ index < 3 * arrays.total, ∀ word < 35,
      firmware.names.address name ≠ field (arrays.context index) word

namespace Served

variable {xlen : Xlen} (served : Served xlen)

/-- The context that interrupts of an exception handler use. -/
abbrev exception : Word xlen :=
  served.arrays.exception served.hart

/-- The context of the kernel. -/
abbrev user : Word xlen :=
  served.arrays.user served.hart

/-- Memory holds the block, and the variables that lead to it. -/
structure Arranged (memory : Word xlen → Word xlen) : Prop where
  hart_contexts :
    memory (served.firmware.names.address .hart_contexts) = served.arrays.base
  hart_context_count :
    memory (served.firmware.names.address .hart_context_count) =
      BitVec.ofNat xlen.bits (3 * served.arrays.total)
  hart_contexts_exception :
    memory (served.firmware.names.address .hart_contexts_exception) =
      served.arrays.context served.arrays.total
  context_id :
    ∀ hart < served.arrays.total,
      memory (field (served.arrays.own hart) 0) = BitVec.ofNat xlen.bits hart

end Served

end Traps
end EchelonSbi
