import Mathlib.Data.BitVec

/-!
# Register widths and unsigned address arithmetic

The firmware is written for registers of 32 and 64 bits (`uintRL_t`).  Where
the code computes with addresses and sizes, a value is a natural number below
`Xlen.size` and every addition is followed by `Xlen.wrap`.  Where it works on
the bits of a register, a value is a `Word`.
-/

namespace EchelonSbi

/-- The register width the firmware is built for (`__riscv_xlen`). -/
inductive Xlen where
  | rv32
  | rv64
  deriving DecidableEq, Repr

namespace Xlen

/-- `sizeof(uintRL_t)`, also the size of a pointer. -/
def bytes : Xlen → Nat
  | .rv32 => 4
  | .rv64 => 8

/-- `__riscv_xlen`. -/
def bits (xlen : Xlen) : Nat :=
  8 * xlen.bytes

/-- Number of values of a register. -/
def size (xlen : Xlen) : Nat :=
  2 ^ xlen.bits

/-- Reduction of an arithmetic result to a register. -/
def wrap (xlen : Xlen) (value : Nat) : Nat :=
  value % xlen.size

theorem bytes_cases (xlen : Xlen) : xlen.bytes = 4 ∨ xlen.bytes = 8 := by
  cases xlen <;> simp [bytes]

theorem bytes_pos (xlen : Xlen) : 0 < xlen.bytes := by
  have := xlen.bytes_cases
  omega

theorem size_pos (xlen : Xlen) : 0 < xlen.size :=
  Nat.two_pow_pos _

theorem bytes_lt_size (xlen : Xlen) : 8 * xlen.bytes < xlen.size :=
  Nat.lt_two_pow_self

/-- A register holds a whole number of words. -/
theorem bytes_dvd_size (xlen : Xlen) : xlen.bytes ∣ xlen.size := by
  cases xlen <;> decide

theorem wrap_lt (xlen : Xlen) (value : Nat) : xlen.wrap value < xlen.size :=
  Nat.mod_lt _ xlen.size_pos

/-- A value that fits is not changed. -/
theorem wrap_of_lt
    {xlen : Xlen}
    {value : Nat}
    (fits : value < xlen.size) :
    xlen.wrap value = value :=
  Nat.mod_eq_of_lt fits

/-- A value one register size too large loses exactly that. -/
theorem wrap_of_le
    {xlen : Xlen}
    {value : Nat}
    (overflows : xlen.size ≤ value)
    (once : value < 2 * xlen.size) :
    xlen.wrap value = value - xlen.size := by
  rw [wrap, Nat.mod_eq_sub_mod overflows, Nat.mod_eq_of_lt (by omega)]

/-- The overflow test `a + b < a` on unsigned registers. -/
theorem wrap_add_lt_left_iff
    {xlen : Xlen}
    {left right : Nat}
    (leftFits : left < xlen.size)
    (rightFits : right < xlen.size) :
    xlen.wrap (left + right) < left ↔ xlen.size ≤ left + right := by
  by_cases overflows : xlen.size ≤ left + right
  · rw [wrap_of_le overflows (by omega)]
    omega
  · rw [wrap_of_lt (by omega)]
    omega

end Xlen

/-- A register (`uintRL_t`, `unsigned long`). -/
abbrev Word (xlen : Xlen) :=
  BitVec xlen.bits

end EchelonSbi
