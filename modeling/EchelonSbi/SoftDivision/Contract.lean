import EchelonSbi.SoftDivision.Double

/-!
# The division routines compute what the M extension would

The guards and the sign reversals are put around the loops.  On every pair of
operands a routine returns, with the result of the division instruction of its
width.
-/

namespace EchelonSbi
namespace SoftDivision

open Foundation
open Riscv

section Single

/-! ## The routines on single registers -/

variable (registers : Registers w)

/-- A sign reversal negates a register where the sign register is negative. -/
theorem signReversal_runs
    (sign reg : Reg)
    (ordinary : reg ≠ .zero) :
    Runs (signReversal sign reg) registers
      (registers.set reg (if (registers.get sign).msb then -registers.get reg
        else registers.get reg)) := by
  cases negative : (registers.get sign).msb with
  | false =>
      rw [if_neg (by decide), Registers.set_get]
      refine Reaches.jump rfl (if_pos (nonnegative_iff.mpr negative)) rfl ?_
      exact Reaches.straight 1 rfl .refl
  | true =>
      have negated : (registers.set reg (~~~registers.get reg)).set reg
          ((registers.set reg (~~~registers.get reg)).get reg +
            BitVec.ofInt w 1) = registers.set reg (-registers.get reg) := by
        rw [Registers.set_set, Registers.get_set, if_pos ⟨rfl, ordinary⟩,
          BitVec.neg_eq_not_add, BitVec.ofInt_ofNat]
      rw [if_pos rfl, ← negated]
      refine Reaches.fall rfl nofun
        (if_neg (mt nonnegative_iff.mp (by simp [negative]))) ?_
      exact Reaches.straight 3 rfl .refl

theorem singleQuotientGuard_runs
    (nonzero : registers.get .a1 ≠ 0) :
    Runs singleQuotientGuard registers registers := by
  refine Reaches.jump rfl (if_pos nonzero) rfl ?_
  exact Reaches.straight 1 rfl .refl

theorem singleQuotientGuard_returns
    (zero : registers.get .a1 = 0) :
    ∃ results, Returns singleQuotientGuard registers results ∧
      results.get .a0 = .allOnes w := by
  refine ⟨registers.set .a0 (BitVec.ofInt w (-1)), ⟨2, ?_, rfl⟩, ?_⟩
  · refine Reaches.fall rfl nofun (if_neg (by simpa using zero)) ?_
    exact Reaches.straight 1 rfl .refl
  · show BitVec.ofInt w (-1) = .allOnes w
    rw [BitVec.ofInt_neg, BitVec.ofInt_ofNat, BitVec.neg_one_eq_allOnes]

theorem singleRemainderGuard_runs
    (nonzero : registers.get .a1 ≠ 0) :
    Runs singleRemainderGuard registers registers := by
  refine Reaches.jump rfl (if_pos nonzero) rfl ?_
  exact Reaches.straight 1 rfl .refl

theorem singleRemainderGuard_returns
    (zero : registers.get .a1 = 0) :
    Returns singleRemainderGuard registers registers := by
  refine ⟨1, ?_, rfl⟩
  exact Reaches.fall rfl nofun (if_neg (by simpa using zero)) .refl

theorem SINGLE_UDIV_returns :
    ∃ results, Returns SINGLE_UDIV registers results ∧
      results.get .a0 = divu (registers.get .a0) (registers.get .a1) := by
  by_cases zero : registers.get .a1 = 0
  · obtain ⟨results, returns, ones⟩ := singleQuotientGuard_returns registers zero
    refine ⟨results, ((returns.early _).early _).early _, ?_⟩
    rw [ones, divu, if_pos zero]
  · obtain ⟨quotient, runs, same, -⟩ := singleQuotient_runs registers zero
    refine ⟨quotient.set .a0 (quotient.get .t2), ?_, ?_⟩
    · refine Runs.returns ?_ .ret
      refine ((singleQuotientGuard_runs registers zero).append runs).append ?_
      exact Reaches.straight 1 rfl .refl
    · rw [divu_eq zero, ← same]
      rfl

theorem SINGLE_UMOD_returns :
    ∃ results, Returns SINGLE_UMOD registers results ∧
      results.get .a0 = remu (registers.get .a0) (registers.get .a1) := by
  by_cases zero : registers.get .a1 = 0
  · refine ⟨registers, ((singleRemainderGuard_returns registers zero).early
      _).early _, ?_⟩
    rw [remu, if_pos zero]
  · obtain ⟨remainder, runs, same, -⟩ := singleRemainder_runs registers zero
    refine ⟨remainder, Runs.returns
      ((singleRemainderGuard_runs registers zero).append runs) .ret, ?_⟩
    rw [remu_eq zero, same]

theorem SINGLE_DIV_returns :
    ∃ results, Returns SINGLE_DIV registers results ∧
      results.get .a0 = div (registers.get .a0) (registers.get .a1) := by
  by_cases zero : registers.get .a1 = 0
  · obtain ⟨results, returns, ones⟩ := singleQuotientGuard_returns registers zero
    refine ⟨results, (((((((returns.early _).early _).early _).early _).early
      _).early _).early _), ?_⟩
    rw [ones, div, if_pos zero]
  · -- the sign, and the magnitudes of the operands
    let signed := registers.set .a7 (registers.get .a0 ^^^ registers.get .a1)
    let dividend := signed.set .a0 (registers.get .a0).abs
    let operands := dividend.set .a1 (registers.get .a1).abs
    have sign : Runs [.xor .a7 .a0 .a1] registers signed :=
      Reaches.straight 1 rfl .refl
    obtain ⟨quotient, runs, same, kept⟩ :=
      singleQuotient_runs operands (mt abs_eq_zero.mp zero)
    let reversed := quotient.set .t2
      (if (quotient.get .a7).msb then -quotient.get .t2 else quotient.get .t2)
    refine ⟨reversed.set .a0 (reversed.get .t2), ?_, ?_⟩
    · have prepared := ((singleQuotientGuard_runs registers zero).append
        sign).append (signReversal_runs signed .a0 .a0 (by decide))
      have divided :=
        (prepared.append (signReversal_runs _ .a1 .a1 (by decide))).append runs
      refine Runs.returns ((divided.append
        (signReversal_runs quotient .a7 .t2 (by decide))).append ?_) .ret
      exact Reaches.straight 1 rfl .refl
    · rw [div_eq zero]
      show (if (quotient.get .a7).msb then -quotient.get .t2
        else quotient.get .t2) = _
      rw [kept, same]
      rfl

theorem SINGLE_MOD_returns :
    ∃ results, Returns SINGLE_MOD registers results ∧
      results.get .a0 = rem (registers.get .a0) (registers.get .a1) := by
  by_cases zero : registers.get .a1 = 0
  · refine ⟨registers, (((((singleRemainderGuard_returns registers zero).early
      _).early _).early _).early _).early _ |>.early _, ?_⟩
    rw [rem, if_pos zero]
  · -- the sign, and the magnitudes of the operands
    let signed := registers.set .a7 (registers.get .a0)
    let dividend := signed.set .a0 (registers.get .a0).abs
    let operands := dividend.set .a1 (registers.get .a1).abs
    have sign : Runs [.mv .a7 .a0] registers signed :=
      Reaches.straight 1 rfl .refl
    obtain ⟨remainder, runs, same, kept⟩ :=
      singleRemainder_runs operands (mt abs_eq_zero.mp zero)
    refine ⟨remainder.set .a0 (if (remainder.get .a7).msb then
      -remainder.get .a0 else remainder.get .a0), ?_, ?_⟩
    · have prepared := ((singleRemainderGuard_runs registers zero).append
        sign).append (signReversal_runs signed .a0 .a0 (by decide))
      have divided :=
        (prepared.append (signReversal_runs _ .a1 .a1 (by decide))).append runs
      exact Runs.returns (divided.append
        (signReversal_runs remainder .a7 .a0 (by decide))) .ret
    · rw [rem_eq zero]
      show (if (remainder.get .a7).msb then -remainder.get .a0
        else remainder.get .a0) = _
      rw [kept, same]
      rfl

end Single

section Double

/-! ## The routines on register pairs -/

variable {xlen : Xlen} (registers : Registers xlen.bits)

/-- A sign reversal negates a register pair where the sign register is
negative. -/
theorem doubleSignReversal_runs
    (sign lower upper : Reg)
    (lowerOrdinary : lower ≠ .zero)
    (upperOrdinary : upper ≠ .zero)
    (distinct : upper ≠ lower) :
    ∃ results, Runs (doubleSignReversal sign lower upper) registers results ∧
      results.pair upper lower =
        (if (registers.get sign).msb then -registers.pair upper lower
          else registers.pair upper lower) ∧
        ∀ reg, reg ≠ lower → reg ≠ upper →
          results.get reg = registers.get reg := by
  cases negative : (registers.get sign).msb with
  | false =>
      refine ⟨registers, ?_, rfl, fun _ _ _ => rfl⟩
      refine Reaches.jump rfl (if_pos (nonnegative_iff.mpr negative)) rfl ?_
      exact Reaches.straight 1 rfl .refl
  | true =>
      let flipped := (registers.set lower (~~~registers.get lower)).set upper
        (~~~(registers.set lower (~~~registers.get lower)).get upper)
      have flippedLower : flipped.get lower = ~~~registers.get lower := by
        rw [Registers.get_set, if_neg fun same => distinct same.1.symm,
          Registers.get_set, if_pos ⟨rfl, lowerOrdinary⟩]
      have flippedUpper : flipped.get upper = ~~~registers.get upper := by
        rw [Registers.get_set, if_pos ⟨rfl, upperOrdinary⟩, Registers.get_set,
          if_neg fun same => distinct same.1]
      let added := flipped.set lower
        (flipped.get lower + BitVec.ofInt xlen.bits 1)
      have addedLower : added.get lower = ~~~registers.get lower + 1 := by
        rw [Registers.get_set, if_pos ⟨rfl, lowerOrdinary⟩, flippedLower,
          BitVec.ofInt_ofNat]
        rfl
      have addedUpper : added.get upper = ~~~registers.get upper := by
        rw [Registers.get_set, if_neg fun same => distinct same.1, flippedUpper]
      have others (reg : Reg) (notLower : reg ≠ lower) (notUpper : reg ≠ upper) :
          added.get reg = registers.get reg := by
        rw [Registers.get_set, if_neg fun same => notLower same.1,
          Registers.get_set, if_neg fun same => notUpper same.1,
          Registers.get_set, if_neg fun same => notLower same.1]
      have path {last : State xlen.bits}
          (rest : Reaches (doubleSignReversal sign lower upper) ⟨4, added⟩ last) :
          Reaches (doubleSignReversal sign lower upper) ⟨0, registers⟩ last := by
        refine Reaches.fall rfl nofun
          (if_neg (mt nonnegative_iff.mp (by simp [negative]))) ?_
        exact Reaches.straight 3 rfl rest
      rw [if_pos rfl, Registers.pair, WordPair.neg_pair (bits_pos xlen)]
      by_cases carry : added.get lower = 0
      · refine ⟨added.set upper
          (added.get upper + BitVec.ofInt xlen.bits 1), path ?_, ?_, ?_⟩
        · refine Reaches.fall rfl nofun (if_neg (not_not_intro carry)) ?_
          exact Reaches.straight 2 rfl .refl
        · have upperHalf : (added.set upper (added.get upper +
              BitVec.ofInt xlen.bits 1)).get upper =
                ~~~registers.get upper + 1 := by
            rw [Registers.get_set, if_pos ⟨rfl, upperOrdinary⟩, addedUpper,
              BitVec.ofInt_ofNat]
            rfl
          have lowerHalf : (added.set upper (added.get upper +
              BitVec.ofInt xlen.bits 1)).get lower =
                ~~~registers.get lower + 1 := by
            rw [Registers.get_set, if_neg fun same => distinct same.1.symm,
              addedLower]
          rw [Registers.pair, upperHalf, lowerHalf, if_pos (addedLower ▸ carry)]
        · intro reg notLower notUpper
          rw [Registers.get_set, if_neg fun same => notUpper same.1,
            others reg notLower notUpper]
      · refine ⟨added, path ?_, ?_, others⟩
        · refine Reaches.jump rfl (if_pos carry) rfl ?_
          exact Reaches.straight 1 rfl .refl
        · rw [Registers.pair, addedUpper, ← addedLower, if_neg carry]

theorem pair_msb
    (upper lower : Reg) :
    (registers.pair upper lower).msb = (registers.get upper).msb := by
  rw [Registers.pair, BitVec.msb_append, if_neg (bits_pos xlen).ne']

/-- By the sign of its own upper half a pair becomes its magnitude. -/
theorem magnitude_runs
    (lower upper : Reg)
    (lowerOrdinary : lower ≠ .zero)
    (upperOrdinary : upper ≠ .zero)
    (distinct : upper ≠ lower) :
    ∃ results, Runs (doubleSignReversal upper lower upper) registers results ∧
      results.pair upper lower = (registers.pair upper lower).abs ∧
        ∀ reg, reg ≠ lower → reg ≠ upper →
          results.get reg = registers.get reg := by
  obtain ⟨results, runs, same, others⟩ := doubleSignReversal_runs registers upper
    lower upper lowerOrdinary upperOrdinary distinct
  refine ⟨results, runs, ?_, others⟩
  rw [same, BitVec.abs, pair_msb]
  rfl

/-- The test for a divisor of 0. -/
theorem or_eq_zero_iff :
    registers.get .a2 ||| registers.get .a3 = 0 ↔ registers.pair .a3 .a2 = 0 := by
  exact BitVec.or_eq_zero_iff.trans (And.comm.trans WordPair.pair_eq_zero.symm)

/-- The registers after the test for a divisor of 0. -/
def tested (registers : Registers w) : Registers w :=
  registers.set .a5 (registers.get .a2 ||| registers.get .a3)

theorem doubleQuotientGuard_runs
    (nonzero : registers.pair .a3 .a2 ≠ 0) :
    Runs doubleQuotientGuard registers (tested registers) := by
  refine Reaches.straight 1 rfl ?_
  refine Reaches.jump rfl (if_pos ((or_eq_zero_iff registers).not.mpr nonzero))
    rfl ?_
  exact Reaches.straight 1 rfl .refl

theorem doubleQuotientGuard_returns
    (zero : registers.pair .a3 .a2 = 0) :
    ∃ results, Returns doubleQuotientGuard registers results ∧
      results.pair .a1 .a0 = .allOnes (xlen.bits + xlen.bits) := by
  refine ⟨((tested registers).set .a0 (BitVec.ofInt xlen.bits (-1))).set .a1
    (BitVec.ofInt xlen.bits (-1)), ⟨4, ?_, rfl⟩, ?_⟩
  · refine Reaches.straight 1 rfl ?_
    refine Reaches.fall rfl nofun
      (if_neg (not_not_intro ((or_eq_zero_iff registers).mpr zero))) ?_
    exact Reaches.straight 2 rfl .refl
  · have ones : BitVec.ofInt xlen.bits (-1) = .allOnes xlen.bits := by
      rw [BitVec.ofInt_neg, BitVec.ofInt_ofNat, BitVec.neg_one_eq_allOnes]
    exact (congrArg₂ (· ++ ·) ones ones).trans WordPair.allOnes_pair

theorem doubleRemainderGuard_runs
    (nonzero : registers.pair .a3 .a2 ≠ 0) :
    Runs doubleRemainderGuard registers (tested registers) := by
  refine Reaches.straight 1 rfl ?_
  refine Reaches.jump rfl (if_pos ((or_eq_zero_iff registers).not.mpr nonzero))
    rfl ?_
  exact Reaches.straight 1 rfl .refl

theorem doubleRemainderGuard_returns
    (zero : registers.pair .a3 .a2 = 0) :
    Returns doubleRemainderGuard registers (tested registers) := by
  refine ⟨2, ?_, rfl⟩
  refine Reaches.straight 1 rfl ?_
  exact Reaches.fall rfl nofun
    (if_neg (not_not_intro ((or_eq_zero_iff registers).mpr zero))) .refl

theorem DOUBLE_UDIV_returns :
    ∃ results, Returns (DOUBLE_UDIV xlen) registers results ∧
      results.pair .a1 .a0 =
        divu (registers.pair .a1 .a0) (registers.pair .a3 .a2) := by
  by_cases zero : registers.pair .a3 .a2 = 0
  · obtain ⟨results, returns, ones⟩ := doubleQuotientGuard_returns registers zero
    refine ⟨results, ((returns.early _).early _).early _, ?_⟩
    rw [ones, divu, if_pos zero]
  · obtain ⟨quotient, runs, same, -⟩ :=
      doubleQuotient_runs (tested registers) zero
    refine ⟨(quotient.set .a0 (quotient.get .t2)).set .a1 (quotient.get .t3),
      ?_, ?_⟩
    · refine Runs.returns ?_ .ret
      refine ((doubleQuotientGuard_runs registers zero).append runs).append ?_
      exact Reaches.straight 2 rfl .refl
    · rw [divu_eq zero]
      exact same

theorem DOUBLE_UMOD_returns :
    ∃ results, Returns (DOUBLE_UMOD xlen) registers results ∧
      results.pair .a1 .a0 =
        remu (registers.pair .a1 .a0) (registers.pair .a3 .a2) := by
  by_cases zero : registers.pair .a3 .a2 = 0
  · refine ⟨tested registers,
      ((doubleRemainderGuard_returns registers zero).early _).early _, ?_⟩
    rw [remu, if_pos zero]
    rfl
  · obtain ⟨remainder, runs, same, -⟩ :=
      doubleRemainder_runs (tested registers) zero
    refine ⟨remainder, Runs.returns
      ((doubleRemainderGuard_runs registers zero).append runs) .ret, ?_⟩
    rw [remu_eq zero]
    exact same

theorem DOUBLE_DIV_returns :
    ∃ results, Returns (DOUBLE_DIV xlen) registers results ∧
      results.pair .a1 .a0 =
        div (registers.pair .a1 .a0) (registers.pair .a3 .a2) := by
  by_cases zero : registers.pair .a3 .a2 = 0
  · obtain ⟨results, returns, ones⟩ := doubleQuotientGuard_returns registers zero
    refine ⟨results, ((((((returns.early _).early _).early _).early _).early
      _).early _).early _, ?_⟩
    rw [ones, div, if_pos zero]
  · -- the sign, and the magnitudes of the operands
    let signed := (tested registers).set .a7
      (registers.get .a1 ^^^ registers.get .a3)
    have sign : Runs [.xor .a7 .a1 .a3] (tested registers) signed :=
      Reaches.straight 1 rfl .refl
    obtain ⟨dividend, dividendRuns, dividendPair, dividendOthers⟩ :=
      magnitude_runs signed .a0 .a1 (by decide) (by decide) (by decide)
    obtain ⟨operands, divisorRuns, divisorPair, divisorOthers⟩ :=
      magnitude_runs dividend .a2 .a3 (by decide) (by decide) (by decide)
    have dividendSame : operands.pair .a1 .a0 = (registers.pair .a1 .a0).abs := by
      rw [Registers.pair, divisorOthers .a1 (by decide) (by decide),
        divisorOthers .a0 (by decide) (by decide)]
      exact dividendPair
    have divisorSame : operands.pair .a3 .a2 = (registers.pair .a3 .a2).abs := by
      rw [divisorPair, Registers.pair, dividendOthers .a3 (by decide) (by decide),
        dividendOthers .a2 (by decide) (by decide)]
      rfl
    have signSame : (operands.get .a7).msb =
        (registers.pair .a1 .a0 ^^^ registers.pair .a3 .a2).msb := by
      rw [divisorOthers .a7 (by decide) (by decide),
        dividendOthers .a7 (by decide) (by decide), BitVec.msb_xor, pair_msb,
        pair_msb]
      exact BitVec.msb_xor
    obtain ⟨quotient, runs, same, kept⟩ := doubleQuotient_runs operands
      (divisorSame ▸ mt abs_eq_zero.mp zero)
    obtain ⟨reversed, reversedRuns, reversedPair, -⟩ := doubleSignReversal_runs
      quotient .a7 .t2 .t3 (by decide) (by decide) (by decide)
    refine ⟨(reversed.set .a0 (reversed.get .t2)).set .a1 (reversed.get .t3),
      ?_, ?_⟩
    · have prepared := (((doubleQuotientGuard_runs registers zero).append
        sign).append dividendRuns).append divisorRuns
      refine Runs.returns
        (((prepared.append runs).append reversedRuns).append ?_) .ret
      exact Reaches.straight 2 rfl .refl
    · rw [div_eq zero, ← signSame, ← dividendSame, ← divisorSame, ← same, ← kept]
      exact reversedPair

theorem DOUBLE_MOD_returns :
    ∃ results, Returns (DOUBLE_MOD xlen) registers results ∧
      results.pair .a1 .a0 =
        rem (registers.pair .a1 .a0) (registers.pair .a3 .a2) := by
  by_cases zero : registers.pair .a3 .a2 = 0
  · have returns := doubleRemainderGuard_returns registers zero
    refine ⟨tested registers, (((((returns.early _).early _).early _).early
      _).early _).early _, ?_⟩
    rw [rem, if_pos zero]
    rfl
  · -- the sign, and the magnitudes of the operands
    let signed := (tested registers).set .a7 (registers.get .a1)
    have sign : Runs [.mv .a7 .a1] (tested registers) signed :=
      Reaches.straight 1 rfl .refl
    obtain ⟨divisor, divisorRuns, divisorPair, divisorOthers⟩ :=
      magnitude_runs signed .a2 .a3 (by decide) (by decide) (by decide)
    obtain ⟨operands, dividendRuns, dividendPair, dividendOthers⟩ :=
      magnitude_runs divisor .a0 .a1 (by decide) (by decide) (by decide)
    have dividendSame : operands.pair .a1 .a0 = (registers.pair .a1 .a0).abs := by
      rw [dividendPair, Registers.pair, divisorOthers .a1 (by decide) (by decide),
        divisorOthers .a0 (by decide) (by decide)]
      rfl
    have divisorSame : operands.pair .a3 .a2 = (registers.pair .a3 .a2).abs := by
      rw [Registers.pair, dividendOthers .a3 (by decide) (by decide),
        dividendOthers .a2 (by decide) (by decide)]
      exact divisorPair
    have signSame : (operands.get .a7).msb = (registers.pair .a1 .a0).msb := by
      rw [dividendOthers .a7 (by decide) (by decide),
        divisorOthers .a7 (by decide) (by decide), pair_msb]
      rfl
    obtain ⟨remainder, runs, same, kept⟩ := doubleRemainder_runs operands
      (divisorSame ▸ mt abs_eq_zero.mp zero)
    obtain ⟨results, reversedRuns, reversedPair, -⟩ := doubleSignReversal_runs
      remainder .a7 .a0 .a1 (by decide) (by decide) (by decide)
    refine ⟨results, ?_, ?_⟩
    · have prepared := (((doubleRemainderGuard_runs registers zero).append
        sign).append divisorRuns).append dividendRuns
      exact Runs.returns ((prepared.append runs).append reversedRuns) .ret
    · rw [rem_eq zero, ← signSame, ← dividendSame, ← divisorSame, ← same, ← kept]
      exact reversedPair

end Double

section Contract

variable (xlen : Xlen) (registers : Registers xlen.bits)

/-- The quotient routines terminate with the quotient of their operands. -/
theorem soft_division :
    Computes SINGLE_UDIV registers (fun results => results.get .a0 =
      divu (registers.get .a0) (registers.get .a1)) ∧
    Computes (DOUBLE_UDIV xlen) registers (fun results => results.pair .a1 .a0 =
      divu (registers.pair .a1 .a0) (registers.pair .a3 .a2)) ∧
    Computes SINGLE_DIV registers (fun results => results.get .a0 =
      div (registers.get .a0) (registers.get .a1)) ∧
    Computes (DOUBLE_DIV xlen) registers (fun results => results.pair .a1 .a0 =
      div (registers.pair .a1 .a0) (registers.pair .a3 .a2)) :=
  ⟨.of_returns (SINGLE_UDIV_returns registers),
    .of_returns (DOUBLE_UDIV_returns registers),
    .of_returns (SINGLE_DIV_returns registers),
    .of_returns (DOUBLE_DIV_returns registers)⟩

/-- The remainder routines terminate with the remainder of their operands. -/
theorem soft_remainder :
    Computes SINGLE_UMOD registers (fun results => results.get .a0 =
      remu (registers.get .a0) (registers.get .a1)) ∧
    Computes (DOUBLE_UMOD xlen) registers (fun results => results.pair .a1 .a0 =
      remu (registers.pair .a1 .a0) (registers.pair .a3 .a2)) ∧
    Computes SINGLE_MOD registers (fun results => results.get .a0 =
      rem (registers.get .a0) (registers.get .a1)) ∧
    Computes (DOUBLE_MOD xlen) registers (fun results => results.pair .a1 .a0 =
      rem (registers.pair .a1 .a0) (registers.pair .a3 .a2)) :=
  ⟨.of_returns (SINGLE_UMOD_returns registers),
    .of_returns (DOUBLE_UMOD_returns registers),
    .of_returns (SINGLE_MOD_returns registers),
    .of_returns (DOUBLE_MOD_returns registers)⟩

end Contract

end SoftDivision
end EchelonSbi
