import EchelonSbi.Word
import EchelonSbi.Riscv.Base

/-!
# Division without the M extension

The division routines of `ext_m_supplement.S`, line by line.  Text that the
file repeats is one block here: the sign reversals and the four loops.
-/

namespace EchelonSbi
namespace SoftDivision

open Riscv
open Riscv.Instr
open Riscv.Target

/-- `SZREG`. -/
def SZREG (xlen : Xlen) : Nat :=
  xlen.bytes

/-- 2's complement sign reversal if the register `sign` is negative. -/
def signReversal (sign reg : Reg) : Listing :=
  [ bgez sign (f 1),
    .not reg reg,
    addi reg reg 1,
    label 1 ]

/-- The sign reversal of a register pair. -/
def doubleSignReversal (sign lower upper : Reg) : Listing :=
  [ bgez sign (f 1),
    .not lower lower,
    .not upper upper,
    addi lower lower 1,
    bnez lower (f 1),
    addi upper upper 1,
    label 1 ]

/-- Long division of `a0` by `a1` with the quotient in `t2`. -/
def singleQuotient : Listing :=
  [ li .t0 0,
    li .t1 1,
    li .t2 0,
    -- shift divisor left until it is just greater than dividend
    label 1,
    bltu .a0 .a1 (f 2),
    bgez .a1 (f 3),
    sub .a0 .a0 .a1,
    sll .t2 .t1 .t0,
    j (f 2),
    label 3,
    slli .a1 .a1 1,
    addi .t0 .t0 1,
    j (b 1),
    label 2,
    -- perform binary long division
    sll .t1 .t1 .t0,
    label 1,
    beqz .t0 (f 2),
    srli .a1 .a1 1,
    srli .t1 .t1 1,
    addi .t0 .t0 (-1),
    bltu .a0 .a1 (f 3),
    sub .a0 .a0 .a1,
    .or .t2 .t2 .t1,
    label 3,
    j (b 1),
    label 2 ]

/-- Long division of `a0` by `a1` with the remainder in `a0`. -/
def singleRemainder : Listing :=
  [ li .t0 0,
    -- shift divisor left until it is just greater than dividend
    label 1,
    bltu .a0 .a1 (f 2),
    bgez .a1 (f 3),
    sub .a0 .a0 .a1,
    j (f 2),
    label 3,
    slli .a1 .a1 1,
    addi .t0 .t0 1,
    j (b 1),
    label 2,
    -- perform binary long division
    label 1,
    beqz .t0 (f 2),
    srli .a1 .a1 1,
    addi .t0 .t0 (-1),
    bltu .a0 .a1 (f 3),
    sub .a0 .a0 .a1,
    label 3,
    j (b 1),
    label 2 ]

/-- Long division of `a1:a0` by `a3:a2` with the quotient in `t3:t2`. -/
def doubleQuotient (xlen : Xlen) : Listing :=
  [ li .t0 0,
    li .t1 1,
    li .t2 0,
    li .t3 0,
    li .t4 (SZREG xlen * 8),
    li .t5 0,
    -- shift divisor left until it is just greater than dividend
    label 1,
    bltu .a3 .a1 (f 4),
    bne .a1 .a3 (f 2),
    bltu .a0 .a2 (f 2),
    label 4,
    bgez .a3 (f 3),
    bgeu .a0 .a2 (f 7),
    addi .a1 .a1 (-1),
    label 7,
    sub .a0 .a0 .a2,
    sub .a1 .a1 .a3,
    bltu .t0 .t4 (f 5),
    addi .t3 .t0 (-(SZREG xlen * 8)),
    sll .t3 .t1 .t3,
    j (f 2),
    label 5,
    sll .t2 .t1 .t0,
    label 6,
    j (f 2),
    label 3,
    -- shift divisor left by 1
    srli .a5 .a2 (SZREG xlen * 8 - 1),
    slli .a3 .a3 1,
    slli .a2 .a2 1,
    .or .a3 .a3 .a5,
    addi .t0 .t0 1,
    j (b 1),
    label 2,
    -- perform binary long division
    bltu .t0 .t4 (f 5),
    addi .t5 .t0 (-(SZREG xlen * 8)),
    sll .t5 .t1 .t5,
    li .t1 0,
    j (f 1),
    label 5,
    sll .t1 .t1 .t0,
    label 1,
    beqz .t0 (f 2),
    -- shift divisor right by 1
    slli .a5 .a3 (SZREG xlen * 8 - 1),
    srli .a2 .a2 1,
    srli .a3 .a3 1,
    .or .a2 .a2 .a5,
    -- shift mask right by 1
    slli .t6 .t5 (SZREG xlen * 8 - 1),
    srli .t1 .t1 1,
    srli .t5 .t5 1,
    .or .t1 .t1 .t6,
    addi .t0 .t0 (-1),
    bltu .a3 .a1 (f 4),
    bne .a3 .a1 (f 3),
    bltu .a0 .a2 (f 3),
    label 4,
    bgeu .a0 .a2 (f 7),
    addi .a1 .a1 (-1),
    label 7,
    .or .t2 .t2 .t1,
    .or .t3 .t3 .t5,
    sub .a1 .a1 .a3,
    sub .a0 .a0 .a2,
    label 3,
    j (b 1),
    label 2 ]

/-- Long division of `a1:a0` by `a3:a2` with the remainder in `a1:a0`.  The
second loop jumps back to the label of the first one. -/
def doubleRemainder (xlen : Xlen) : Listing :=
  [ li .t0 0,
    -- shift divisor left until it is just greater than dividend
    label 1,
    bltu .a3 .a1 (f 4),
    bne .a1 .a3 (f 2),
    bltu .a0 .a2 (f 2),
    label 4,
    bgez .a3 (f 3),
    bgeu .a0 .a2 (f 7),
    addi .a1 .a1 (-1),
    label 7,
    sub .a0 .a0 .a2,
    sub .a1 .a1 .a3,
    j (f 2),
    label 3,
    -- shift divisor left by 1
    srli .a5 .a2 (SZREG xlen * 8 - 1),
    slli .a3 .a3 1,
    slli .a2 .a2 1,
    .or .a3 .a3 .a5,
    addi .t0 .t0 1,
    j (b 1),
    label 2,
    beqz .t0 (f 2),
    -- shift divisor right by 1
    slli .a5 .a3 (SZREG xlen * 8 - 1),
    srli .a2 .a2 1,
    srli .a3 .a3 1,
    .or .a2 .a2 .a5,
    addi .t0 .t0 (-1),
    bltu .a3 .a1 (f 4),
    bne .a3 .a1 (f 3),
    bltu .a0 .a2 (f 3),
    label 4,
    bgeu .a0 .a2 (f 7),
    addi .a1 .a1 (-1),
    label 7,
    sub .a1 .a1 .a3,
    sub .a0 .a0 .a2,
    label 3,
    j (b 1),
    label 2 ]

/-- Return with -1 if the divisor is 0. -/
def singleQuotientGuard : Listing :=
  [ bnez .a1 (f 1),
    li .a0 (-1),
    ret,
    label 1 ]

/-- Return with the dividend if the divisor is 0. -/
def singleRemainderGuard : Listing :=
  [ bnez .a1 (f 1),
    ret,
    label 1 ]

def doubleQuotientGuard : Listing :=
  [ .or .a5 .a2 .a3,
    bnez .a5 (f 1),
    li .a0 (-1),
    li .a1 (-1),
    ret,
    label 1 ]

def doubleRemainderGuard : Listing :=
  [ .or .a5 .a2 .a3,
    bnez .a5 (f 1),
    ret,
    label 1 ]

def SINGLE_DIV : Listing :=
  singleQuotientGuard ++
  [.xor .a7 .a0 .a1] ++
  signReversal .a0 .a0 ++
  signReversal .a1 .a1 ++
  singleQuotient ++
  signReversal .a7 .t2 ++
  [mv .a0 .t2] ++
  [ret]

def DOUBLE_DIV (xlen : Xlen) : Listing :=
  doubleQuotientGuard ++
  [.xor .a7 .a1 .a3] ++
  doubleSignReversal .a1 .a0 .a1 ++
  doubleSignReversal .a3 .a2 .a3 ++
  doubleQuotient xlen ++
  doubleSignReversal .a7 .t2 .t3 ++
  [mv .a0 .t2, mv .a1 .t3] ++
  [ret]

def SINGLE_UDIV : Listing :=
  singleQuotientGuard ++
  singleQuotient ++
  [mv .a0 .t2] ++
  [ret]

def DOUBLE_UDIV (xlen : Xlen) : Listing :=
  doubleQuotientGuard ++
  doubleQuotient xlen ++
  [mv .a0 .t2, mv .a1 .t3] ++
  [ret]

def SINGLE_MOD : Listing :=
  singleRemainderGuard ++
  [mv .a7 .a0] ++
  signReversal .a0 .a0 ++
  signReversal .a1 .a1 ++
  singleRemainder ++
  signReversal .a7 .a0 ++
  [ret]

/-- The divisor's sign is reversed before the dividend's here. -/
def DOUBLE_MOD (xlen : Xlen) : Listing :=
  doubleRemainderGuard ++
  [mv .a7 .a1] ++
  doubleSignReversal .a3 .a2 .a3 ++
  doubleSignReversal .a1 .a0 .a1 ++
  doubleRemainder xlen ++
  doubleSignReversal .a7 .a0 .a1 ++
  [ret]

def SINGLE_UMOD : Listing :=
  singleRemainderGuard ++
  singleRemainder ++
  [ret]

def DOUBLE_UMOD (xlen : Xlen) : Listing :=
  doubleRemainderGuard ++
  doubleRemainder xlen ++
  [ret]

end SoftDivision
end EchelonSbi
