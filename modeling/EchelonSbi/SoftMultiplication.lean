import EchelonSbi.Foundation.LongMultiplication
import EchelonSbi.SoftDivision.Double

/-!
# Multiplication without the M extension

The multiplication routines of `ext_m_supplement.S`, line by line, and what
they compute.  The loops shift and add; they end after as many rounds as the
operands have bits, or as soon as a factor is 0.
-/

namespace EchelonSbi
namespace SoftMultiplication

open Foundation
open Riscv
open Riscv.Instr
open Riscv.Target
open SoftDivision (SZREG SZREG_bits bits_pos double_bits_lt)

/-- `SINGLE_MUL`: the product of `a0` and `a1` in `a0`. -/
def SINGLE_MUL (xlen : Xlen) : Listing :=
  [ li .t0 (SZREG xlen * 8),
    mv .t2 .zero,
    label 1,
    beqz .a0 (f 2),
    beqz .a1 (f 2),
    andi .t1 .a0 1,
    addi .t0 .t0 (-1),
    beqz .t1 (f 3),
    add .t2 .t2 .a1,
    label 3,
    srli .a0 .a0 1,
    slli .a1 .a1 1,
    bnez .t0 (b 1),
    label 2,
    mv .a0 .t2,
    ret ]

/-- `DOUBLE_MUL`: the product of `a1:a0` and `a3:a2` in `a1:a0`. -/
def DOUBLE_MUL (xlen : Xlen) : Listing :=
  [ li .t0 (SZREG xlen * 8 * 2),
    li .t2 0,
    li .t3 0,
    label 1,
    .or .a4 .a0 .a1,
    .or .a5 .a2 .a3,
    andi .t1 .a0 1,
    addi .t0 .t0 (-1),
    beqz .a4 (f 2),
    beqz .a5 (f 2),
    beqz .t1 (f 3),
    add .a4 .t2 .a2,
    add .t3 .t3 .a3,
    sltu .a5 .a4 .t2,
    mv .t2 .a4,
    add .t3 .t3 .a5,
    label 3,
    srli .a0 .a0 1,
    slli .a4 .a1 (SZREG xlen * 8 - 1),
    slli .a3 .a3 1,
    srli .a5 .a2 (SZREG xlen * 8 - 1),
    .or .a0 .a0 .a4,
    srli .a1 .a1 1,
    .or .a3 .a3 .a5,
    slli .a2 .a2 1,
    bnez .t0 (b 1),
    label 2,
    mv .a0 .t2,
    mv .a1 .t3,
    ret ]

/-- The test for an odd multiplier. -/
theorem and_one_eq_zero_iff
    (value : BitVec w) :
    value &&& BitVec.ofInt w 1 = 0 ↔ value.getLsbD 0 = false := by
  cases w with
  | zero => simp [BitVec.of_length_zero]
  | succ w =>
      have one : (BitVec.ofInt (w + 1) 1).toNat = 1 := by
        rw [BitVec.ofInt_ofNat, BitVec.toNat_ofNat,
          Nat.mod_eq_of_lt (Nat.one_lt_two_pow (by omega))]
      rw [← BitVec.toNat_inj, BitVec.toNat_and, one, Nat.and_one_is_mod,
        BitVec.getLsbD, Nat.testBit_zero, decide_eq_false_iff_not]
      show value.toNat % 2 = 0 ↔ _
      omega

/-- The numbers of a multiplication, with the rounds in a register. -/
structure Holds
    (multiplication : Multiplication n)
    (multiplier multiplicand product : BitVec n) (rounds : BitVec w) : Prop where
  multiplier : multiplier = multiplication.multiplier
  multiplicand : multiplicand = multiplication.multiplicand
  product : product = multiplication.product
  rounds : rounds.toNat = multiplication.rounds

namespace Holds

variable {multiplication : Multiplication n}
  {multiplier multiplicand product result : BitVec n} {rounds : BitVec w}

/-- The test that leaves the loop. -/
theorem stops_iff
    (holds : Holds multiplication multiplier multiplicand product rounds) :
    multiplication.Stops ↔ multiplier = 0 ∨ multiplicand = 0 := by
  rw [holds.multiplier, holds.multiplicand]
  rfl

/-- The test at the end of a round. -/
theorem rounds_iff
    (holds : Holds multiplication multiplier multiplicand product rounds) :
    rounds = 0 ↔ multiplication.rounds = 0 := by
  rw [← BitVec.toNat_inj, holds.rounds]
  rfl

theorem turned
    (holds : Holds multiplication multiplier multiplicand product rounds)
    (valid : multiplication.Valid result)
    (goesOn : ¬multiplication.Stops)
    {sum : BitVec n}
    (added : sum =
      if multiplier.getLsbD 0 then product + multiplicand else product) :
    Holds multiplication.turned (multiplier >>> 1) (multiplicand <<< 1) sum
      (rounds + BitVec.ofInt w (-1)) := by
  have positive := valid.rounds_pos fun zero => goesOn (.inl zero)
  rw [← holds.rounds] at positive
  refine ⟨?_, ?_, ?_, ?_⟩
  · rw [holds.multiplier]
    rfl
  · rw [holds.multiplicand]
    rfl
  · rw [added, holds.multiplier, holds.multiplicand, holds.product]
    rfl
  · exact (toNat_add_neg positive).trans (by rw [holds.rounds]; rfl)

end Holds

section Single

/-! ## Single registers -/

variable {xlen : Xlen} {multiplication : Multiplication xlen.bits}
  {registers : Registers xlen.bits} {result : Word xlen}

/-- The registers of a multiplication of single registers. -/
abbrev SingleHolds
    (multiplication : Multiplication w) (registers : Registers w) : Prop :=
  Holds multiplication (registers.get .a0) (registers.get .a1)
    (registers.get .t2) (registers.get .t0)

/-- The loop, before a test. -/
structure SingleTurning
    (multiplication : Multiplication w) (state : State w) : Prop where
  line : state.pc = 2
  holds : SingleHolds multiplication state.registers

/-- The end of the loop. -/
structure SingleFinished (product : BitVec w) (state : State w) : Prop where
  line : state.pc = 13
  product : state.registers.get .t2 = product

/-- A round goes up to the branch at its end. -/
theorem single_round
    (valid : multiplication.Valid result)
    (goesOn : ¬multiplication.Stops)
    (holds : SingleHolds multiplication registers) :
    ∃ results, Reaches (SINGLE_MUL xlen) ⟨2, registers⟩ ⟨12, results⟩ ∧
      SingleHolds multiplication.turned results := by
  have nonzero := holds.stops_iff.not.mp goesOn
  rw [not_or] at nonzero
  have even := and_one_eq_zero_iff (registers.get .a0)
  -- the registers at the test of the lowest bit
  let tested := (registers.set .t1
    (registers.get .a0 &&& BitVec.ofInt xlen.bits 1)).set .t0
      (registers.get .t0 + BitVec.ofInt xlen.bits (-1))
  have path {last : State xlen.bits}
      (rest : Reaches (SINGLE_MUL xlen) ⟨7, tested⟩ last) :
      Reaches (SINGLE_MUL xlen) ⟨2, registers⟩ last := by
    refine Reaches.straight 1 rfl ?_
    refine Reaches.fall rfl nofun (if_neg nonzero.1) ?_
    refine Reaches.fall rfl nofun (if_neg nonzero.2) ?_
    exact Reaches.straight 2 rfl rest
  cases bit : (registers.get .a0).getLsbD 0 with
  | false =>
      refine ⟨(tested.set .a0 (registers.get .a0 >>> 1)).set .a1
        (registers.get .a1 <<< 1), path ?_, ?_⟩
      · refine Reaches.jump rfl (if_pos (even.mpr bit)) rfl ?_
        exact Reaches.straight 3 rfl .refl
      · apply holds.turned valid goesOn
        rw [bit]
        rfl
  | true =>
      refine ⟨((tested.set .t2 (registers.get .t2 + registers.get .a1)).set .a0
        (registers.get .a0 >>> 1)).set .a1 (registers.get .a1 <<< 1),
        path ?_, ?_⟩
      · refine Reaches.fall rfl nofun
          (if_neg (mt even.mp (by rw [bit]; decide))) ?_
        exact Reaches.straight 4 rfl .refl
      · apply holds.turned valid goesOn
        rw [bit]
        rfl

theorem single_rounds
    (result : Word xlen) :
    Multiplication.Rounds (Step (SINGLE_MUL xlen)) SingleTurning SingleFinished
      result where
  leaves := by
    rintro multiplication ⟨pc, registers⟩ valid ⟨rfl, holds⟩ stops
    refine ⟨⟨13, registers⟩, ?_, rfl, holds.product⟩
    refine Reaches.straight 1 rfl ?_
    by_cases multiplier : registers.get .a0 = 0
    · exact Reaches.jump rfl (if_pos multiplier) rfl .refl
    · have multiplicand := (holds.stops_iff.mp stops).resolve_left multiplier
      refine Reaches.fall rfl nofun (if_neg multiplier) ?_
      exact Reaches.jump rfl (if_pos multiplicand) rfl .refl
  ends := by
    rintro multiplication ⟨pc, registers⟩ valid ⟨rfl, holds⟩ goesOn last
    obtain ⟨results, path, after⟩ := single_round valid goesOn holds
    refine ⟨⟨13, results⟩, path.trans ?_, rfl, after.product⟩
    exact Reaches.fall rfl nofun
      (if_neg (not_not_intro (after.rounds_iff.mpr last))) .refl
  turns := by
    rintro multiplication ⟨pc, registers⟩ valid ⟨rfl, holds⟩ goesOn more
    obtain ⟨results, path, after⟩ := single_round valid goesOn holds
    refine ⟨⟨2, results⟩, path.trans ?_, rfl, after⟩
    exact Reaches.jump rfl (if_pos (mt after.rounds_iff.mp more)) rfl .refl

variable (registers)

theorem SINGLE_MUL_returns :
    ∃ results, Returns (SINGLE_MUL xlen) registers results ∧
      results.get .a0 = registers.get .a0 * registers.get .a1 := by
  have start : SingleTurning
      (Multiplication.start (registers.get .a0) (registers.get .a1))
      ⟨2, (registers.set .t0 (BitVec.ofInt xlen.bits (SZREG xlen * 8))).set .t2
        0⟩ := by
    refine ⟨rfl, rfl, rfl, rfl, ?_⟩
    show (BitVec.ofInt xlen.bits (SZREG xlen * 8)).toNat = _
    rw [← Nat.cast_ofNat, ← Nat.cast_mul, SZREG_bits, BitVec.ofInt_natCast,
      BitVec.toNat_ofNat, Nat.mod_eq_of_lt Nat.lt_two_pow_self]
    rfl
  obtain ⟨⟨pc, results⟩, path, rfl, product⟩ :=
    (single_rounds _).multiplies (Multiplication.start_valid _ _) start
  refine ⟨results.set .a0 (results.get .t2), ⟨15, ?_, rfl⟩, product⟩
  refine Reaches.straight 2 rfl (path.trans ?_)
  exact Reaches.straight 2 rfl .refl

end Single

section Double

/-! ## Register pairs -/

variable {xlen : Xlen} {multiplication : Multiplication (xlen.bits + xlen.bits)}
  {registers : Registers xlen.bits}
  {result : BitVec (xlen.bits + xlen.bits)}

/-- The registers of a multiplication of register pairs. -/
abbrev DoubleHolds
    (multiplication : Multiplication (w + w)) (registers : Registers w) : Prop :=
  Holds multiplication (registers.pair .a1 .a0) (registers.pair .a3 .a2)
    (registers.pair .t3 .t2) (registers.get .t0)

/-- The loop, before a test. -/
structure DoubleTurning
    (multiplication : Multiplication (w + w)) (state : State w) : Prop where
  line : state.pc = 3
  holds : DoubleHolds multiplication state.registers

/-- The end of the loop. -/
structure DoubleFinished (product : BitVec (w + w)) (state : State w) :
    Prop where
  line : state.pc = 26
  product : state.registers.pair .t3 .t2 = product

/-- The test of a pair for 0. -/
theorem or_eq_zero_iff
    (upper lower : Reg) :
    registers.get lower ||| registers.get upper = 0 ↔
      registers.pair upper lower = 0 := by
  exact BitVec.or_eq_zero_iff.trans (And.comm.trans WordPair.pair_eq_zero.symm)

/-- The registers at the tests of a round. -/
def doubleTested (registers : Registers w) : Registers w :=
  (((registers.set .a4 (registers.get .a0 ||| registers.get .a1)).set .a5
    (registers.get .a2 ||| registers.get .a3)).set .t1
      (registers.get .a0 &&& BitVec.ofInt w 1)).set .t0
        (registers.get .t0 + BitVec.ofInt w (-1))

/-- The registers after the shifts of a round. -/
def doubleShifted (xlen : Xlen) (registers : Registers w) : Registers w :=
  ((((((((registers.set .a0 (registers.get .a0 >>> 1)).set .a4
    (registers.get .a1 <<< (SZREG xlen * 8 - 1))).set .a3
      (registers.get .a3 <<< 1)).set .a5
        (registers.get .a2 >>> (SZREG xlen * 8 - 1))).set .a0
          (registers.get .a0 >>> 1 |||
            registers.get .a1 <<< (SZREG xlen * 8 - 1))).set .a1
              (registers.get .a1 >>> 1)).set .a3
                (registers.get .a3 <<< 1 |||
                  registers.get .a2 >>> (SZREG xlen * 8 - 1))).set .a2
                    (registers.get .a2 <<< 1))

/-- The registers after the addition of a round. -/
def doubleAdded (registers : Registers w) : Registers w :=
  let sum := registers.get .t2 + registers.get .a2
  let carry := if sum < registers.get .t2 then 1 else 0
  ((((registers.set .a4 sum).set .t3
    (registers.get .t3 + registers.get .a3)).set .a5 carry).set .t2 sum).set .t3
      (registers.get .t3 + registers.get .a3 + carry)

theorem doubleShifted_multiplier :
    (doubleShifted xlen registers).pair .a1 .a0 = registers.pair .a1 .a0 >>> 1 :=
  SoftDivision.pair_halved _ _

theorem doubleShifted_multiplicand :
    (doubleShifted xlen registers).pair .a3 .a2 = registers.pair .a3 .a2 <<< 1 :=
  SoftDivision.divisor_doubled registers

theorem doubleAdded_product :
    (doubleAdded registers).pair .t3 .t2 =
      registers.pair .t3 .t2 + registers.pair .a3 .a2 :=
  WordPair.add_pair.symm

/-- A round goes up to the branch at its end. -/
theorem double_round
    (valid : multiplication.Valid result)
    (goesOn : ¬multiplication.Stops)
    (holds : DoubleHolds multiplication registers) :
    ∃ results, Reaches (DOUBLE_MUL xlen) ⟨3, registers⟩ ⟨25, results⟩ ∧
      DoubleHolds multiplication.turned results := by
  have nonzero := holds.stops_iff.not.mp goesOn
  rw [not_or, ← or_eq_zero_iff, ← or_eq_zero_iff] at nonzero
  have even := and_one_eq_zero_iff (registers.get .a0)
  have lowest : (registers.pair .a1 .a0).getLsbD 0 =
      (registers.get .a0).getLsbD 0 := by
    rw [Registers.pair, BitVec.getLsbD_append, if_pos (bits_pos xlen)]
  have path {last : State xlen.bits}
      (rest : Reaches (DOUBLE_MUL xlen) ⟨10, doubleTested registers⟩ last) :
      Reaches (DOUBLE_MUL xlen) ⟨3, registers⟩ last := by
    refine Reaches.straight 5 rfl ?_
    refine Reaches.fall rfl nofun (if_neg nonzero.1) ?_
    exact Reaches.fall rfl nofun (if_neg nonzero.2) rest
  have shifts (before : Registers xlen.bits) :
      Reaches (DOUBLE_MUL xlen) ⟨16, before⟩ ⟨25, doubleShifted xlen before⟩ :=
    Reaches.straight 9 rfl .refl
  cases bit : (registers.get .a0).getLsbD 0 with
  | false =>
      refine ⟨doubleShifted xlen (doubleTested registers), path ?_, ?_⟩
      · refine Reaches.jump rfl (if_pos (even.mpr bit)) rfl ?_
        exact shifts _
      · rw [DoubleHolds, doubleShifted_multiplier, doubleShifted_multiplicand]
        apply holds.turned valid goesOn
        rw [lowest, bit]
        rfl
  | true =>
      refine ⟨doubleShifted xlen (doubleAdded (doubleTested registers)),
        path ?_, ?_⟩
      · refine Reaches.fall rfl nofun
          (if_neg (mt even.mp (by rw [bit]; decide))) ?_
        exact Reaches.straight 5 rfl (shifts _)
      · rw [DoubleHolds, doubleShifted_multiplier, doubleShifted_multiplicand]
        apply holds.turned valid goesOn
        rw [lowest, bit]
        exact doubleAdded_product

theorem double_rounds
    (result : BitVec (xlen.bits + xlen.bits)) :
    Multiplication.Rounds (Step (DOUBLE_MUL xlen)) DoubleTurning DoubleFinished
      result where
  leaves := by
    rintro multiplication ⟨pc, registers⟩ valid ⟨rfl, holds⟩ stops
    rw [holds.stops_iff, ← or_eq_zero_iff, ← or_eq_zero_iff] at stops
    refine ⟨⟨26, doubleTested registers⟩, ?_, rfl, holds.product⟩
    refine Reaches.straight 5 rfl ?_
    by_cases multiplier : registers.get .a0 ||| registers.get .a1 = 0
    · exact Reaches.jump rfl (if_pos multiplier) rfl .refl
    · refine Reaches.fall rfl nofun (if_neg multiplier) ?_
      exact Reaches.jump rfl (if_pos (stops.resolve_left multiplier)) rfl .refl
  ends := by
    rintro multiplication ⟨pc, registers⟩ valid ⟨rfl, holds⟩ goesOn last
    obtain ⟨results, path, after⟩ := double_round valid goesOn holds
    refine ⟨⟨26, results⟩, path.trans ?_, rfl, after.product⟩
    exact Reaches.fall rfl nofun
      (if_neg (not_not_intro (after.rounds_iff.mpr last))) .refl
  turns := by
    rintro multiplication ⟨pc, registers⟩ valid ⟨rfl, holds⟩ goesOn more
    obtain ⟨results, path, after⟩ := double_round valid goesOn holds
    refine ⟨⟨3, results⟩, path.trans ?_, rfl, after⟩
    exact Reaches.jump rfl (if_pos (mt after.rounds_iff.mp more)) rfl .refl

variable (registers)

theorem DOUBLE_MUL_returns :
    ∃ results, Returns (DOUBLE_MUL xlen) registers results ∧
      results.pair .a1 .a0 =
        registers.pair .a1 .a0 * registers.pair .a3 .a2 := by
  have start : DoubleTurning
      (Multiplication.start (registers.pair .a1 .a0) (registers.pair .a3 .a2))
      ⟨3, ((registers.set .t0 (BitVec.ofInt xlen.bits (SZREG xlen * 8 * 2))).set
        .t2 (BitVec.ofInt xlen.bits 0)).set .t3 (BitVec.ofInt xlen.bits 0)⟩ := by
    refine ⟨rfl, rfl, rfl, ?_, ?_⟩
    · show BitVec.ofInt xlen.bits 0 ++ BitVec.ofInt xlen.bits 0 =
        0#(xlen.bits + xlen.bits)
      rw [BitVec.ofInt_ofNat]
      exact BitVec.zero_append_zero
    · have twice : (SZREG xlen * 8 * 2 : Int) =
          (xlen.bits + xlen.bits : Nat) := by
        rw [← SZREG_bits]
        omega
      show (BitVec.ofInt xlen.bits (SZREG xlen * 8 * 2)).toNat = _
      rw [twice, BitVec.ofInt_natCast, BitVec.toNat_ofNat,
        Nat.mod_eq_of_lt (double_bits_lt xlen)]
      rfl
  obtain ⟨⟨pc, results⟩, path, rfl, product⟩ :=
    (double_rounds _).multiplies (Multiplication.start_valid _ _) start
  refine ⟨(results.set .a0 (results.get .t2)).set .a1 (results.get .t3),
    ⟨29, ?_, rfl⟩, product⟩
  refine Reaches.straight 3 rfl (path.trans ?_)
  exact Reaches.straight 3 rfl .refl

end Double

section Contract

/-- The product of two registers, or pairs, as unsigned and as signed
numbers. -/
structure Product (left right result : BitVec n) : Prop where
  unsigned : result.toNat = left.toNat * right.toNat % 2 ^ n
  signed : result.toInt = (left.toInt * right.toInt).bmod (2 ^ n)

theorem product_mul
    (left right : BitVec n) :
    Product left right (left * right) where
  unsigned := BitVec.toNat_mul left right
  signed := BitVec.toInt_mul left right

/-- The multiplication routines terminate with the product of their
operands. -/
theorem soft_multiplication
    (xlen : Xlen)
    (registers : Registers xlen.bits) :
    Computes (SINGLE_MUL xlen) registers (fun results =>
      Product (registers.get .a0) (registers.get .a1) (results.get .a0)) ∧
    Computes (DOUBLE_MUL xlen) registers (fun results =>
      Product (registers.pair .a1 .a0) (registers.pair .a3 .a2)
        (results.pair .a1 .a0)) := by
  obtain ⟨single, singleReturns, singleSame⟩ := SINGLE_MUL_returns registers
  obtain ⟨double, doubleReturns, doubleSame⟩ := DOUBLE_MUL_returns registers
  refine ⟨.of_returns ⟨single, singleReturns, ?_⟩,
    .of_returns ⟨double, doubleReturns, ?_⟩⟩
  · rw [singleSame]
    exact product_mul _ _
  · rw [doubleSame]
    exact product_mul _ _

end Contract

end SoftMultiplication
end EchelonSbi
