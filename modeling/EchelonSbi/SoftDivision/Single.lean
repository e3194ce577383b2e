import EchelonSbi.Foundation.LongDivision
import EchelonSbi.Foundation.WordPair
import EchelonSbi.SoftDivision.Routines

/-!
# The division loops on single registers

Both loops take the steps of long division: the dividend in `a0`, the divisor
in `a1`, the number of doublings in `t0`.
-/

namespace EchelonSbi
namespace SoftDivision

open Foundation
open Riscv

theorem nonnegative_iff
    {value : BitVec n} :
    0 ≤ value.toInt ↔ value.msb = false := by
  rw [BitVec.msb_eq_toInt]
  simp

/-- The top bit is clear where a number can be doubled. -/
theorem nonnegative_iff_fits
    {value : BitVec n} :
    0 ≤ value.toInt ↔ 2 * value.toNat < 2 ^ n := by
  rw [BitVec.toInt_eq_toNat_cond]
  have := value.isLt
  split_ifs <;> omega

/-- The registers of a division of single registers. -/
structure SingleNumbers (division : Division) (registers : Registers w) :
    Prop where
  remainder : (registers.get .a0).toNat = division.remainder
  divisor : (registers.get .a1).toNat = division.divisor
  shift : (registers.get .t0).toNat = division.shift

namespace SingleNumbers

variable {division : Division} {registers results : Registers w}
  {dividend divisor : Nat}

theorem below_iff (numbers : SingleNumbers division registers) :
    registers.get .a0 < registers.get .a1 ↔
      division.remainder < division.divisor := by
  rw [BitVec.lt_def, numbers.remainder, numbers.divisor]

theorem doubles_iff (numbers : SingleNumbers division registers) :
    0 ≤ (registers.get .a1).toInt ↔ 2 * division.divisor < 2 ^ w := by
  rw [← numbers.divisor, nonnegative_iff_fits]

theorem down_iff (numbers : SingleNumbers division registers) :
    registers.get .t0 = 0 ↔ division.shift = 0 := by
  rw [← BitVec.toNat_inj, numbers.shift]
  rfl

/-- The register of the shift amount is not truncated. -/
theorem amount
    (numbers : SingleNumbers division registers)
    (valid : division.Valid w dividend divisor) :
    (registers.get .t0).toNat % w = division.shift := by
  rw [numbers.shift, Nat.mod_eq_of_lt valid.shift_lt]

theorem taken
    (numbers : SingleNumbers division registers)
    (within : division.divisor ≤ division.remainder)
    (remainder : results.get .a0 = registers.get .a0 - registers.get .a1)
    (divisor : results.get .a1 = registers.get .a1)
    (shift : results.get .t0 = registers.get .t0) :
    SingleNumbers division.taken results where
  remainder := by
    rw [remainder, BitVec.toNat_sub_of_le, numbers.remainder, numbers.divisor]
    · rfl
    · rwa [BitVec.le_def, numbers.remainder, numbers.divisor]
  divisor := by rw [divisor, numbers.divisor]; rfl
  shift := by rw [shift, numbers.shift]; rfl

theorem doubled
    (numbers : SingleNumbers division registers)
    (valid : division.Valid w dividend divisor)
    (fits : 2 * division.divisor < 2 ^ w)
    (remainder : results.get .a0 = registers.get .a0)
    (divisor : results.get .a1 = registers.get .a1 <<< 1)
    (shift : results.get .t0 = registers.get .t0 + BitVec.ofInt w 1) :
    SingleNumbers division.doubled results where
  remainder := by rw [remainder, numbers.remainder]; rfl
  divisor := by
    rw [← numbers.divisor] at fits
    rw [divisor, WordPair.toNat_shiftLeft_one fits, numbers.divisor]
    rfl
  shift := by
    have below : division.shift + 1 < 2 ^ w :=
      Nat.lt_of_le_of_lt valid.shift_lt Nat.lt_two_pow_self
    rw [← numbers.shift] at below
    rw [shift, toNat_add_one below, numbers.shift]
    rfl

theorem halved
    (numbers : SingleNumbers division registers)
    (up : 0 < division.shift)
    (remainder : results.get .a0 = registers.get .a0)
    (divisor : results.get .a1 = registers.get .a1 >>> 1)
    (shift : results.get .t0 = registers.get .t0 + BitVec.ofInt w (-1)) :
    SingleNumbers division.halved results where
  remainder := by rw [remainder, numbers.remainder]; rfl
  divisor := by
    rw [divisor, WordPair.toNat_ushiftRight_one, numbers.divisor]
    rfl
  shift := by
    rw [← numbers.shift] at up
    rw [shift]
    exact (toNat_add_neg up).trans (by rw [numbers.shift]; rfl)

end SingleNumbers

section Quotient

/-! ## The loop that keeps the quotient -/

/-- The first loop, before a test. -/
structure SingleQuotientScaling (kept : BitVec w) (division : Division)
    (state : State w) : Prop where
  line : state.pc = 3
  numbers : SingleNumbers division state.registers
  one : state.registers.get .t1 = 1
  zero : state.registers.get .t2 = 0
  kept : state.registers.get .a7 = kept

/-- The second loop, before a test. -/
structure SingleQuotientReducing (kept : BitVec w) (division : Division)
    (state : State w) : Prop where
  line : state.pc = 15
  numbers : SingleNumbers division state.registers
  mask : (state.registers.get .t1).toNat = 2 ^ division.shift
  quotient : (state.registers.get .t2).toNat = division.quotient
  kept : state.registers.get .a7 = kept

theorem singleQuotient_steps
    (kept : BitVec w)
    (dividend divisor : Nat) :
    Division.Steps (Step singleQuotient) (SingleQuotientScaling kept)
      (SingleQuotientReducing kept) w dividend divisor where
  leaves := by
    rintro division ⟨pc, registers⟩ valid fresh ⟨rfl, numbers, one, zero, keeps⟩
      below
    refine ⟨⟨15, registers.set .t1
      (registers.get .t1 <<< ((registers.get .t0).toNat % w))⟩, ?_, ?_⟩
    · refine Reaches.straight 1 rfl ?_
      refine Reaches.jump rfl (if_pos (numbers.below_iff.mpr below)) rfl ?_
      exact Reaches.straight 2 rfl .refl
    · refine ⟨rfl, ⟨numbers.remainder, numbers.divisor, numbers.shift⟩, ?_, ?_,
        keeps⟩
      · simp only [Registers.get_set]
        rw [if_pos (by decide), numbers.amount valid, one]
        exact WordPair.toNat_one_shiftLeft valid.shift_lt
      · simp only [Registers.get_set]
        rw [if_neg (by decide), zero, fresh]
        rfl
  takes := by
    rintro division ⟨pc, registers⟩ valid fresh ⟨rfl, numbers, one, zero, keeps⟩
      within top
    have mask : (registers.get .t1 <<<
        ((registers.get .t0).toNat % w)).toNat = 2 ^ division.shift := by
      rw [numbers.amount valid, one]
      exact WordPair.toNat_one_shiftLeft valid.shift_lt
    refine ⟨⟨15, ((registers.set .a0
      (registers.get .a0 - registers.get .a1)).set .t2
        (registers.get .t1 <<< ((registers.get .t0).toNat % w))).set .t1
          (registers.get .t1 <<< ((registers.get .t0).toNat % w))⟩, ?_, ?_⟩
    · refine Reaches.straight 1 rfl ?_
      refine Reaches.fall rfl nofun
        (if_neg (mt numbers.below_iff.mp (by omega))) ?_
      refine Reaches.fall rfl nofun
        (if_neg (mt numbers.doubles_iff.mp (by omega))) ?_
      exact Reaches.straight 5 rfl .refl
    · refine ⟨rfl, numbers.taken within rfl rfl rfl, mask, ?_, keeps⟩
      rw [Division.taken_quotient, fresh, Nat.zero_add]
      exact mask
  doubles := by
    rintro division ⟨pc, registers⟩ valid fresh ⟨rfl, numbers, one, zero, keeps⟩
      within fits
    refine ⟨⟨3, (registers.set .a1 (registers.get .a1 <<< 1)).set .t0
      (registers.get .t0 + BitVec.ofInt w 1)⟩, ?_, ?_⟩
    · refine Reaches.straight 1 rfl ?_
      refine Reaches.fall rfl nofun
        (if_neg (mt numbers.below_iff.mp (by omega))) ?_
      refine Reaches.jump rfl (if_pos (numbers.doubles_iff.mpr fits)) rfl ?_
      exact Reaches.straight 4 rfl .refl
    · exact ⟨rfl, numbers.doubled valid fits rfl rfl rfl, one, zero, keeps⟩
  reduces := by
    rintro division ⟨pc, registers⟩ valid up ⟨rfl, numbers, mask, quotient, keeps⟩
      below
    -- the registers after the divisor is halved
    generalize halves : ((registers.set .a1 (registers.get .a1 >>> 1)).set .t1
      (registers.get .t1 >>> 1)).set .t0
        (registers.get .t0 + BitVec.ofInt w (-1)) = halved
    have halvedNumbers : SingleNumbers division.halved halved := by
      subst halves
      exact numbers.halved up rfl rfl rfl
    have halvedMask : (halved.get .t1).toNat = 2 ^ (division.shift - 1) := by
      subst halves
      refine (WordPair.toNat_ushiftRight_one _).trans ?_
      rw [mask, ← Nat.pow_sub_one (by decide) up.ne']
    have halvedQuotient : (halved.get .t2).toNat = division.quotient := by
      subst halves
      exact quotient
    have halvedKept : halved.get .a7 = kept := by
      subst halves
      exact keeps
    have path {last : State w}
        (rest : Reaches singleQuotient ⟨20, halved⟩ last) :
        Reaches singleQuotient ⟨15, registers⟩ last := by
      subst halves
      refine Reaches.straight 1 rfl ?_
      refine Reaches.fall rfl nofun (if_neg (mt numbers.down_iff.mp up.ne')) ?_
      exact Reaches.straight 3 rfl rest
    unfold Division.reduced
    split_ifs with small
    · refine ⟨⟨15, halved⟩, path ?_, rfl, halvedNumbers, halvedMask,
        halvedQuotient, halvedKept⟩
      refine Reaches.jump rfl (if_pos (halvedNumbers.below_iff.mpr small)) rfl ?_
      exact Reaches.straight 2 rfl .refl
    · refine ⟨⟨15, (halved.set .a0 (halved.get .a0 - halved.get .a1)).set .t2
        (halved.get .t2 ||| halved.get .t1)⟩, path ?_, rfl,
        halvedNumbers.taken (by omega) rfl rfl rfl, halvedMask, ?_, halvedKept⟩
      · refine Reaches.fall rfl nofun
          (if_neg (mt halvedNumbers.below_iff.mp small)) ?_
        exact Reaches.straight 4 rfl .refl
      · refine (BitVec.toNat_or _ _).trans ?_
        rw [halvedQuotient, halvedMask, valid.or_eq_add up]
        rfl

end Quotient

section Remainder

/-! ## The loop that keeps the remainder only -/

/-- The first loop, before a test. -/
structure SingleRemainderScaling (kept : BitVec w) (division : Division)
    (state : State w) : Prop where
  line : state.pc = 1
  numbers : SingleNumbers division state.registers
  kept : state.registers.get .a7 = kept

/-- The second loop, before a test. -/
structure SingleRemainderReducing (kept : BitVec w) (division : Division)
    (state : State w) : Prop where
  line : state.pc = 11
  numbers : SingleNumbers division state.registers
  kept : state.registers.get .a7 = kept

theorem singleRemainder_steps
    (kept : BitVec w)
    (dividend divisor : Nat) :
    Division.Steps (Step singleRemainder) (SingleRemainderScaling kept)
      (SingleRemainderReducing kept) w dividend divisor where
  leaves := by
    rintro division ⟨pc, registers⟩ valid fresh ⟨rfl, numbers, keeps⟩ below
    refine ⟨⟨11, registers⟩, ?_, rfl, numbers, keeps⟩
    refine Reaches.straight 1 rfl ?_
    refine Reaches.jump rfl (if_pos (numbers.below_iff.mpr below)) rfl ?_
    exact Reaches.straight 1 rfl .refl
  takes := by
    rintro division ⟨pc, registers⟩ valid fresh ⟨rfl, numbers, keeps⟩ within top
    refine ⟨⟨11, registers.set .a0 (registers.get .a0 - registers.get .a1)⟩,
      ?_, rfl, numbers.taken within rfl rfl rfl, keeps⟩
    refine Reaches.straight 1 rfl ?_
    refine Reaches.fall rfl nofun
      (if_neg (mt numbers.below_iff.mp (by omega))) ?_
    refine Reaches.fall rfl nofun
      (if_neg (mt numbers.doubles_iff.mp (by omega))) ?_
    exact Reaches.straight 3 rfl .refl
  doubles := by
    rintro division ⟨pc, registers⟩ valid fresh ⟨rfl, numbers, keeps⟩ within fits
    refine ⟨⟨1, (registers.set .a1 (registers.get .a1 <<< 1)).set .t0
      (registers.get .t0 + BitVec.ofInt w 1)⟩, ?_, rfl,
      numbers.doubled valid fits rfl rfl rfl, keeps⟩
    refine Reaches.straight 1 rfl ?_
    refine Reaches.fall rfl nofun
      (if_neg (mt numbers.below_iff.mp (by omega))) ?_
    refine Reaches.jump rfl (if_pos (numbers.doubles_iff.mpr fits)) rfl ?_
    exact Reaches.straight 4 rfl .refl
  reduces := by
    rintro division ⟨pc, registers⟩ valid up ⟨rfl, numbers, keeps⟩ below
    -- the registers after the divisor is halved
    generalize halves : (registers.set .a1 (registers.get .a1 >>> 1)).set .t0
      (registers.get .t0 + BitVec.ofInt w (-1)) = halved
    have halvedNumbers : SingleNumbers division.halved halved := by
      subst halves
      exact numbers.halved up rfl rfl rfl
    have halvedKept : halved.get .a7 = kept := by
      subst halves
      exact keeps
    have path {last : State w}
        (rest : Reaches singleRemainder ⟨15, halved⟩ last) :
        Reaches singleRemainder ⟨11, registers⟩ last := by
      subst halves
      refine Reaches.straight 1 rfl ?_
      refine Reaches.fall rfl nofun (if_neg (mt numbers.down_iff.mp up.ne')) ?_
      exact Reaches.straight 2 rfl rest
    unfold Division.reduced
    split_ifs with small
    · refine ⟨⟨11, halved⟩, path ?_, rfl, halvedNumbers, halvedKept⟩
      refine Reaches.jump rfl (if_pos (halvedNumbers.below_iff.mpr small)) rfl ?_
      exact Reaches.straight 2 rfl .refl
    · refine ⟨⟨11, halved.set .a0 (halved.get .a0 - halved.get .a1)⟩, path ?_,
        rfl, halvedNumbers.taken (by omega) rfl rfl rfl, halvedKept⟩
      refine Reaches.fall rfl nofun
        (if_neg (mt halvedNumbers.below_iff.mp small)) ?_
      exact Reaches.straight 3 rfl .refl

end Remainder

section Blocks

/-! ## The loops as blocks -/

variable (registers : Registers w)

theorem positive_of_ne_zero
    {value : BitVec n}
    (nonzero : value ≠ 0) :
    0 < value.toNat := by
  rw [Nat.pos_iff_ne_zero]
  exact fun zero => nonzero (BitVec.eq_of_toNat_eq zero)

/-- The loop leaves the quotient in `t2`. -/
theorem singleQuotient_runs
    (nonzero : registers.get .a1 ≠ 0) :
    ∃ results, Runs singleQuotient registers results ∧
      results.get .t2 = registers.get .a0 / registers.get .a1 ∧
        results.get .a7 = registers.get .a7 := by
  have start : SingleQuotientScaling (registers.get .a7)
      (Division.start (registers.get .a0).toNat (registers.get .a1).toNat)
      ⟨3, ((registers.set .t0 (BitVec.ofInt w 0)).set .t1
        (BitVec.ofInt w 1)).set .t2 (BitVec.ofInt w 0)⟩ := by
    refine ⟨rfl, ⟨rfl, rfl, ?_⟩, ?_, ?_, rfl⟩
    · exact congrArg BitVec.toNat (BitVec.ofInt_ofNat w 0)
    · exact BitVec.ofInt_ofNat w 1
    · exact BitVec.ofInt_ofNat w 0
  obtain ⟨⟨pc, results⟩, path, rfl, numbers, mask, quotient, kept⟩ :=
    (singleQuotient_steps _ _ _).divides (positive_of_ne_zero nonzero)
      (registers.get .a0).isLt (registers.get .a1).isLt start
  refine ⟨results, ?_, ?_, kept⟩
  · refine Reaches.straight 3 rfl (path.trans ?_)
    refine Reaches.straight 1 rfl ?_
    refine Reaches.jump rfl (if_pos (numbers.down_iff.mpr rfl)) rfl ?_
    exact Reaches.straight 1 rfl .refl
  · apply BitVec.eq_of_toNat_eq
    rw [quotient, BitVec.toNat_udiv]

/-- The loop leaves the remainder in `a0`. -/
theorem singleRemainder_runs
    (nonzero : registers.get .a1 ≠ 0) :
    ∃ results, Runs singleRemainder registers results ∧
      results.get .a0 = registers.get .a0 % registers.get .a1 ∧
        results.get .a7 = registers.get .a7 := by
  have start : SingleRemainderScaling (registers.get .a7)
      (Division.start (registers.get .a0).toNat (registers.get .a1).toNat)
      ⟨1, registers.set .t0 (BitVec.ofInt w 0)⟩ := by
    refine ⟨rfl, ⟨rfl, rfl, ?_⟩, rfl⟩
    exact congrArg BitVec.toNat (BitVec.ofInt_ofNat w 0)
  obtain ⟨⟨pc, results⟩, path, rfl, numbers, kept⟩ :=
    (singleRemainder_steps _ _ _).divides (positive_of_ne_zero nonzero)
      (registers.get .a0).isLt (registers.get .a1).isLt start
  refine ⟨results, ?_, ?_, kept⟩
  · refine Reaches.straight 1 rfl (path.trans ?_)
    refine Reaches.straight 1 rfl ?_
    refine Reaches.jump rfl (if_pos (numbers.down_iff.mpr rfl)) rfl ?_
    exact Reaches.straight 1 rfl .refl
  · apply BitVec.eq_of_toNat_eq
    rw [numbers.remainder, BitVec.toNat_umod]

end Blocks

end SoftDivision
end EchelonSbi
