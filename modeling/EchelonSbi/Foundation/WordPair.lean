import Mathlib.Data.BitVec
import Mathlib.Data.Nat.ModEq

/-!
# Double words in two registers

A number of twice the register width is kept as `high ++ low`.  The lemmas say
which operations on the two halves are the ones on the number.
-/

namespace EchelonSbi
namespace Foundation
namespace WordPair

variable {high low high' low' : BitVec w}

theorem toNat_pair :
    (high ++ low).toNat = high.toNat * 2 ^ w + low.toNat := by
  rw [BitVec.toNat_append, Nat.shiftLeft_eq,
    Nat.mul_comm high.toNat, ← Nat.two_pow_add_eq_or_of_lt low.isLt]

theorem pair_eq_zero :
    high ++ low = 0#(w + w) ↔ high = 0 ∧ low = 0 := by
  have positive := Nat.two_pow_pos w
  rw [← BitVec.toNat_inj, ← BitVec.toNat_inj, ← BitVec.toNat_inj, toNat_pair]
  simp

theorem allOnes_pair :
    BitVec.allOnes w ++ BitVec.allOnes w = BitVec.allOnes (w + w) := by
  rw [← BitVec.not_zero, ← BitVec.not_append, BitVec.zero_append_zero,
    BitVec.not_zero]

/-- The upper halves decide unless they are equal. -/
theorem pair_lt_iff :
    high ++ low < high' ++ low' ↔
      high < high' ∨ high = high' ∧ low < low' := by
  have lowFits := low.isLt
  have lowFits' := low'.isLt
  rw [BitVec.lt_def, BitVec.lt_def, BitVec.lt_def, ← BitVec.toNat_inj,
    toNat_pair, toNat_pair]
  rcases Nat.lt_trichotomy high.toNat high'.toNat with below | same | above
  · have := Nat.mul_le_mul_right (2 ^ w) below
    rw [Nat.succ_mul] at this
    omega
  · rw [same]
    omega
  · have := Nat.mul_le_mul_right (2 ^ w) above
    rw [Nat.succ_mul] at this
    omega

section Sums

/-! ## Sums and differences -/

theorem split_mod
    (upper : Nat)
    {lower base : Nat}
    (fits : lower < base) :
    (upper * base + lower) % (base * base) = upper % base * base + lower := by
  have positive : 0 < base := by omega
  rw [Nat.mod_mul, Nat.mul_comm upper, Nat.mul_add_mod,
    Nat.mul_add_div positive, Nat.mod_eq_of_lt fits, Nat.div_eq_of_lt fits,
    Nat.add_zero, Nat.mul_comm base, Nat.add_comm]

theorem add_of_fits
    (fits : low.toNat + low'.toNat < 2 ^ w) :
    (high ++ low) + (high' ++ low') = (high + high') ++ (low + low') := by
  apply BitVec.eq_of_toNat_eq
  rw [BitVec.toNat_add, toNat_pair, toNat_pair, toNat_pair, BitVec.toNat_add,
    BitVec.toNat_add, Nat.mod_eq_of_lt fits, Nat.pow_add,
    ← split_mod _ fits, Nat.add_mul]
  congr 1
  omega

theorem add_of_carries
    (carries : 2 ^ w ≤ low.toNat + low'.toNat) :
    (high ++ low) + (high' ++ low') = (high + high' + 1) ++ (low + low') := by
  have lowFits := low.isLt
  have lowFits' := low'.isLt
  have fits : low.toNat + low'.toNat - 2 ^ w < 2 ^ w := by omega
  have lower : (low.toNat + low'.toNat) % 2 ^ w =
      low.toNat + low'.toNat - 2 ^ w := by
    rw [Nat.mod_eq_sub_mod carries, Nat.mod_eq_of_lt fits]
  have upper : (high + high' + 1).toNat =
      (high.toNat + high'.toNat + 1) % 2 ^ w := by
    simp [BitVec.toNat_add, Nat.add_mod]
  apply BitVec.eq_of_toNat_eq
  rw [BitVec.toNat_add, toNat_pair, toNat_pair, toNat_pair, upper,
    BitVec.toNat_add, lower, Nat.pow_add, ← split_mod _ fits, Nat.add_mul,
    Nat.add_mul]
  congr 1
  omega

/-- The carry into the upper half shows in the lower sum. -/
theorem add_pair :
    (high ++ low) + (high' ++ low') =
      (high + high' + if low + low' < low then 1#w else 0#w) ++
        (low + low') := by
  have fits := low.isLt
  have fits' := low'.isLt
  by_cases carries : 2 ^ w ≤ low.toNat + low'.toNat
  · have wraps : low + low' < low := by
      rw [BitVec.lt_def, BitVec.toNat_add, Nat.mod_eq_sub_mod carries,
        Nat.mod_eq_of_lt (by omega)]
      omega
    rw [if_pos wraps]
    exact add_of_carries carries
  · have grows : ¬low + low' < low := by
      rw [BitVec.lt_def, BitVec.toNat_add, Nat.mod_eq_of_lt (by omega)]
      omega
    rw [if_neg grows, BitVec.add_zero]
    exact add_of_fits (by omega)

theorem sub_of_le
    (within : low' ≤ low) :
    (high ++ low) - (high' ++ low') = (high - high') ++ (low - low') := by
  rw [BitVec.le_def] at within
  have fits := low.isLt
  have back : (low - low').toNat + low'.toNat = low.toNat := by
    rw [BitVec.toNat_sub_of_le within]
    omega
  rw [BitVec.sub_eq_iff_eq_add, add_of_fits (by omega), BitVec.sub_add_cancel,
    BitVec.sub_add_cancel]

/-- Where the lower halves wrap, one is borrowed from the upper one. -/
theorem sub_of_lt
    (wraps : low < low') :
    (high ++ low) - (high' ++ low') =
      (high + BitVec.ofInt w (-1) - high') ++ (low - low') := by
  rw [BitVec.lt_def] at wraps
  have fits := low.isLt
  have fits' := low'.isLt
  have back : (low - low').toNat + low'.toNat = low.toNat + 2 ^ w := by
    rw [BitVec.toNat_sub, Nat.mod_eq_of_lt (by omega)]
    omega
  have borrowed : high + BitVec.ofInt w (-1) - high' + high' + 1 = high := by
    rw [BitVec.sub_add_cancel, BitVec.add_assoc]
    simp [BitVec.ofInt_neg]
  rw [BitVec.sub_eq_iff_eq_add, add_of_carries (by omega), borrowed,
    BitVec.sub_add_cancel]

theorem one_eq_pair : 1#(w + w) = 0#w ++ 1#w := by
  apply BitVec.eq_of_toNat_eq
  rw [toNat_pair]
  rcases Nat.eq_zero_or_pos w with rfl | positive
  · simp
  · have small : 1 < 2 ^ w := Nat.one_lt_two_pow positive.ne'
    have double : 1 < 2 ^ (w + w) := Nat.one_lt_two_pow (by omega)
    simp [Nat.mod_eq_of_lt small, Nat.mod_eq_of_lt double]

/-- The complement plus one, with the carry into the upper half. -/
theorem neg_pair
    (positive : 0 < w) :
    -(high ++ low) =
      (if ~~~low + 1 = 0 then ~~~high + 1 else ~~~high) ++ (~~~low + 1) := by
  have fits := (~~~low).isLt
  have one : (1#w).toNat = 1 := by
    rw [BitVec.toNat_ofNat, Nat.mod_eq_of_lt (Nat.one_lt_two_pow positive.ne')]
  have wraps : ~~~low + 1 = 0 ↔ 2 ^ w ≤ (~~~low).toNat + (1#w).toNat := by
    rw [← BitVec.toNat_inj, BitVec.toNat_add, BitVec.ofNat_eq_ofNat, one,
      BitVec.ofNat_eq_ofNat, BitVec.toNat_ofNat, Nat.zero_mod]
    by_cases carry : (~~~low).toNat + 1 < 2 ^ w
    · rw [Nat.mod_eq_of_lt carry]
      omega
    · rw [show (~~~low).toNat + 1 = 2 ^ w by omega, Nat.mod_self]
      simp
  rw [BitVec.neg_eq_not_add, BitVec.not_append, one_eq_pair]
  split_ifs with carry
  · rw [add_of_carries (wraps.mp carry), BitVec.add_zero]
    rfl
  · rw [add_of_fits (Nat.not_le.mp (mt wraps.mpr carry)), BitVec.add_zero]
    rfl

end Sums

section Shifts

/-! ## Shifts by one -/

theorem shiftLeft_pair
    (positive : 0 < w) :
    (high <<< 1 ||| low >>> (w - 1)) ++ (low <<< 1) = (high ++ low) <<< 1 := by
  ext i inside
  simp only [BitVec.getElem_append, BitVec.getElem_shiftLeft, BitVec.getElem_or,
    BitVec.getElem_ushiftRight]
  by_cases lower : i < w
  · by_cases first : i = 0
    · simp [first, positive]
    · have inLow : i - 1 < w := by omega
      simp [lower, first, inLow]
  · by_cases top : i = w
    · have inLow : w - 1 < w := by omega
      simp [top, inLow, positive.ne']
    · have inHigh : ¬i - 1 < w := by omega
      have shifted : ¬i - w < 1 := by omega
      have same : i - 1 - w = i - w - 1 := by omega
      have carried : low.getLsbD (w - 1 + (i - w)) = false :=
        BitVec.getLsbD_of_ge _ _ (by omega)
      have later : i ≠ 0 := by omega
      simp [lower, inHigh, shifted, same, carried, later]

theorem ushiftRight_pair
    (positive : 0 < w) :
    (high >>> 1) ++ (low >>> 1 ||| high <<< (w - 1)) = (high ++ low) >>> 1 := by
  ext i inside
  simp only [BitVec.getElem_append, BitVec.getElem_ushiftRight, BitVec.getElem_or,
    BitVec.getLsbD_append, BitVec.getElem_shiftLeft]
  by_cases lower : i < w
  · by_cases top : i = w - 1
    · have past : 1 + (w - 1) = w := by omega
      have inLow : w - 1 < w := by omega
      simp [top, positive, past, inLow]
    · have inLow : 1 + i < w := by omega
      have under : i < w - 1 := by omega
      simp [lower, inLow, under]
  · have inHigh : ¬1 + i < w := by omega
    have same : 1 + i - w = 1 + (i - w) := by omega
    simp [lower, inHigh, same]

theorem toNat_shiftLeft_one
    {value : BitVec n}
    (fits : 2 * value.toNat < 2 ^ n) :
    (value <<< 1).toNat = 2 * value.toNat := by
  rw [BitVec.toNat_shiftLeft, Nat.shiftLeft_eq, Nat.mod_eq_of_lt (by omega)]
  omega

theorem toNat_ushiftRight_one
    (value : BitVec n) :
    (value >>> 1).toNat = value.toNat / 2 := by
  rw [BitVec.toNat_ushiftRight, Nat.shiftRight_eq_div_pow, Nat.pow_one]

theorem toNat_one_shiftLeft
    {shift : Nat}
    (inside : shift < n) :
    (1#n <<< shift).toNat = 2 ^ shift := by
  have one : 1 < 2 ^ n := Nat.one_lt_two_pow (by omega)
  rw [BitVec.toNat_shiftLeft, BitVec.toNat_ofNat, Nat.mod_eq_of_lt one,
    Nat.one_shiftLeft,
    Nat.mod_eq_of_lt (Nat.pow_lt_pow_right (by decide) inside)]

/-- A bit of the lower half. -/
theorem toNat_lower_bit
    {shift : Nat}
    (lower : shift < w) :
    (0#w ++ 1#w <<< shift).toNat = 2 ^ shift := by
  rw [toNat_pair, toNat_one_shiftLeft lower]
  simp

/-- A bit of the upper half. -/
theorem toNat_upper_bit
    {shift : Nat}
    (upper : w ≤ shift)
    (inside : shift < w + w) :
    ((1#w <<< (shift - w)) ++ 0#w).toNat = 2 ^ shift := by
  rw [toNat_pair, toNat_one_shiftLeft (by omega), ← Nat.pow_add,
    Nat.sub_add_cancel upper]
  simp

end Shifts

end WordPair
end Foundation
end EchelonSbi
