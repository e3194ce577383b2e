import EchelonSbi.SoftDivision.Single

/-!
# The division loops on register pairs

The dividend is in `a1:a0`, the divisor in `a3:a2`.  The loops take the steps
of long division on numbers of twice the register width.
-/

namespace EchelonSbi
namespace SoftDivision

open Foundation
open Riscv

/-- The registers of a division of register pairs. -/
structure DoubleNumbers (division : Division) (registers : Registers w) :
    Prop where
  remainder : (registers.get .a1 ++ registers.get .a0).toNat = division.remainder
  divisor : (registers.get .a3 ++ registers.get .a2).toNat = division.divisor
  shift : (registers.get .t0).toNat = division.shift

namespace DoubleNumbers

variable {division : Division} {registers results : Registers w}
  {dividend divisor : Nat}

theorem congr
    (numbers : DoubleNumbers division registers)
    (same : ∀ reg ∈ [Reg.a0, .a1, .a2, .a3, .t0],
      results.get reg = registers.get reg) :
    DoubleNumbers division results where
  remainder := by
    rw [same .a1 (by decide), same .a0 (by decide), numbers.remainder]
  divisor := by
    rw [same .a3 (by decide), same .a2 (by decide), numbers.divisor]
  shift := by rw [same .t0 (by decide), numbers.shift]

theorem below_iff (numbers : DoubleNumbers division registers) :
    registers.get .a1 ++ registers.get .a0 <
        registers.get .a3 ++ registers.get .a2 ↔
      division.remainder < division.divisor := by
  rw [BitVec.lt_def, numbers.remainder, numbers.divisor]

theorem doubles_iff
    (numbers : DoubleNumbers division registers)
    (positive : 0 < w) :
    0 ≤ (registers.get .a3).toInt ↔ 2 * division.divisor < 2 ^ (w + w) := by
  have pair : (registers.get .a3 ++ registers.get .a2).msb =
      (registers.get .a3).msb := by
    rw [BitVec.msb_append, if_neg positive.ne']
  rw [← numbers.divisor, ← nonnegative_iff_fits, nonnegative_iff,
    nonnegative_iff, pair]

theorem down_iff (numbers : DoubleNumbers division registers) :
    registers.get .t0 = 0 ↔ division.shift = 0 := by
  rw [← BitVec.toNat_inj, numbers.shift]
  rfl

theorem taken
    (numbers : DoubleNumbers division registers)
    (within : division.divisor ≤ division.remainder)
    (remainder : results.get .a1 ++ results.get .a0 =
      (registers.get .a1 ++ registers.get .a0) -
        (registers.get .a3 ++ registers.get .a2))
    (upper : results.get .a3 = registers.get .a3)
    (lower : results.get .a2 = registers.get .a2)
    (shift : results.get .t0 = registers.get .t0) :
    DoubleNumbers division.taken results where
  remainder := by
    rw [remainder, BitVec.toNat_sub_of_le, numbers.remainder, numbers.divisor]
    · rfl
    · rwa [BitVec.le_def, numbers.remainder, numbers.divisor]
  divisor := by rw [upper, lower, numbers.divisor]; rfl
  shift := by rw [shift, numbers.shift]; rfl

theorem doubled
    (numbers : DoubleNumbers division registers)
    (valid : division.Valid (w + w) dividend divisor)
    (room : w + w < 2 ^ w)
    (fits : 2 * division.divisor < 2 ^ (w + w))
    (remainder : results.get .a1 ++ results.get .a0 =
      registers.get .a1 ++ registers.get .a0)
    (divisor : results.get .a3 ++ results.get .a2 =
      (registers.get .a3 ++ registers.get .a2) <<< 1)
    (shift : results.get .t0 = registers.get .t0 + BitVec.ofInt w 1) :
    DoubleNumbers division.doubled results where
  remainder := by rw [remainder, numbers.remainder]; rfl
  divisor := by
    rw [← numbers.divisor] at fits
    rw [divisor, WordPair.toNat_shiftLeft_one fits, numbers.divisor]
    rfl
  shift := by
    have below := valid.shift_lt
    rw [← numbers.shift] at below
    rw [shift, toNat_add_one (by omega), numbers.shift]
    rfl

theorem halved
    (numbers : DoubleNumbers division registers)
    (up : 0 < division.shift)
    (remainder : results.get .a1 ++ results.get .a0 =
      registers.get .a1 ++ registers.get .a0)
    (divisor : results.get .a3 ++ results.get .a2 =
      (registers.get .a3 ++ registers.get .a2) >>> 1)
    (shift : results.get .t0 = registers.get .t0 + BitVec.ofInt w (-1)) :
    DoubleNumbers division.halved results where
  remainder := by rw [remainder, numbers.remainder]; rfl
  divisor := by
    rw [divisor, WordPair.toNat_ushiftRight_one, numbers.divisor]
    rfl
  shift := by
    rw [← numbers.shift] at up
    rw [shift]
    exact (toNat_add_neg up).trans (by rw [numbers.shift]; rfl)

end DoubleNumbers

section Parts

/-! ## Parts of the loops -/

variable {listing : Listing} {pc dest : Nat} {registers : Registers w}
  {last : State w}

/-- The comparison goes on where the remainder is at least the divisor. -/
theorem compare_within
    {left right : Reg}
    (within : ¬registers.get .a1 ++ registers.get .a0 <
      registers.get .a3 ++ registers.get .a2)
    (upper : listing[pc]? = some (.bltu .a3 .a1 (.f 4)))
    (differ : listing[pc + 1]? = some (.bne left right (.f n)))
    (sides : registers.get left = registers.get right ↔
      registers.get .a1 = registers.get .a3)
    (lower : listing[pc + 2]? = some (.bltu .a0 .a2 (.f n)))
    (resolves : listing.resolve pc (.f 4) = some (pc + 3))
    (rest : Reaches listing ⟨pc + 3, registers⟩ last) :
    Reaches listing ⟨pc, registers⟩ last := by
  rw [WordPair.pair_lt_iff] at within
  by_cases above : registers.get .a3 < registers.get .a1
  · exact Reaches.jump upper (if_pos above) resolves rest
  · have same : registers.get .a1 = registers.get .a3 := by
      exact BitVec.le_antisymm (BitVec.not_lt.mp above)
        (BitVec.not_lt.mp fun less => within (.inl less))
    refine Reaches.fall upper nofun (if_neg above) ?_
    refine Reaches.fall differ nofun
      (if_neg (not_not_intro (sides.mpr same))) ?_
    refine Reaches.fall lower nofun (if_neg fun less => ?_) rest
    exact within (.inr ⟨same, less⟩)

/-- The comparison leaves where the remainder is below the divisor. -/
theorem compare_below
    {left right : Reg}
    (below : registers.get .a1 ++ registers.get .a0 <
      registers.get .a3 ++ registers.get .a2)
    (upper : listing[pc]? = some (.bltu .a3 .a1 (.f 4)))
    (differ : listing[pc + 1]? = some (.bne left right (.f n)))
    (sides : registers.get left = registers.get right ↔
      registers.get .a1 = registers.get .a3)
    (lower : listing[pc + 2]? = some (.bltu .a0 .a2 (.f n)))
    (resolvesUpper : listing.resolve (pc + 1) (.f n) = some dest)
    (resolvesLower : listing.resolve (pc + 2) (.f n) = some dest)
    (rest : Reaches listing ⟨dest, registers⟩ last) :
    Reaches listing ⟨pc, registers⟩ last := by
  rw [WordPair.pair_lt_iff] at below
  have above : ¬registers.get .a3 < registers.get .a1 := by
    rcases below with less | ⟨same, -⟩
    · exact fun more => BitVec.lt_irrefl _ (BitVec.lt_trans less more)
    · exact same ▸ BitVec.lt_irrefl _
  refine Reaches.fall upper nofun (if_neg above) ?_
  by_cases same : registers.get left = registers.get right
  · have less : registers.get .a0 < registers.get .a2 := by
      rcases below with less | ⟨-, less⟩
      · exact absurd (sides.mp same ▸ less) (BitVec.lt_irrefl _)
      · exact less
    refine Reaches.fall differ nofun (if_neg (not_not_intro same)) ?_
    exact Reaches.jump lower (if_pos less) resolvesLower rest
  · exact Reaches.jump differ (if_pos same) resolvesUpper rest

/-- The registers after the borrow from the upper half. -/
def borrowed (registers : Registers w) : Registers w :=
  if registers.get .a2 ≤ registers.get .a0 then registers
  else registers.set .a1 (registers.get .a1 + BitVec.ofInt w (-1))

theorem borrowed_get
    {reg : Reg}
    (other : reg ≠ .a1) :
    (borrowed registers).get reg = registers.get reg := by
  unfold borrowed
  split_ifs
  · rfl
  · rw [Registers.get_set, if_neg fun same => other same.1]

theorem borrowed_sub :
    ((borrowed registers).get .a1 - registers.get .a3) ++
        (registers.get .a0 - registers.get .a2) =
      (registers.get .a1 ++ registers.get .a0) -
        (registers.get .a3 ++ registers.get .a2) := by
  unfold borrowed
  split_ifs with within
  · exact (WordPair.sub_of_le within).symm
  · exact (WordPair.sub_of_lt (BitVec.not_le.mp within)).symm

/-- A subtraction of the divisor. -/
theorem DoubleNumbers.borrows
    {division : Division}
    {results : Registers w}
    (numbers : DoubleNumbers division registers)
    (within : division.divisor ≤ division.remainder)
    (upperHalf : results.get .a1 =
      (borrowed registers).get .a1 - (borrowed registers).get .a3)
    (lowerHalf : results.get .a0 =
      (borrowed registers).get .a0 - (borrowed registers).get .a2)
    (upper : results.get .a3 = (borrowed registers).get .a3)
    (lower : results.get .a2 = (borrowed registers).get .a2)
    (shift : results.get .t0 = (borrowed registers).get .t0) :
    DoubleNumbers division.taken results := by
  rw [borrowed_get (show Reg.a3 ≠ .a1 by decide)] at upperHalf upper
  rw [borrowed_get (by decide)] at lower shift
  rw [borrowed_get (by decide), borrowed_get (by decide)] at lowerHalf
  refine numbers.taken within ?_ upper lower shift
  rw [upperHalf, lowerHalf, borrowed_sub]

theorem borrow
    (compare : listing[pc]? = some (.bgeu .a0 .a2 (.f 7)))
    (decrement : listing[pc + 1]? = some (.addi .a1 .a1 (-1)))
    (resolves : listing.resolve pc (.f 7) = some (pc + 2))
    (rest : Reaches listing ⟨pc + 2, borrowed registers⟩ last) :
    Reaches listing ⟨pc, registers⟩ last := by
  unfold borrowed at rest
  split_ifs at rest with within
  · exact Reaches.jump compare (if_pos within) resolves rest
  · refine Reaches.fall compare nofun (if_neg within) ?_
    exact Reaches.fall decrement nofun rfl rest

end Parts

section Quotient

/-! ## The loop that keeps the quotient -/

variable {xlen : Xlen}

theorem SZREG_bits (xlen : Xlen) : SZREG xlen * 8 = xlen.bits := by
  rw [SZREG, Xlen.bits, Nat.mul_comm]

theorem bits_pos (xlen : Xlen) : 0 < xlen.bits := by
  have := xlen.bytes_pos
  rw [Xlen.bits]
  omega

theorem double_bits_lt (xlen : Xlen) : xlen.bits + xlen.bits < 2 ^ xlen.bits := by
  cases xlen <;> decide

/-- The shift amount for a bit of the upper half. -/
theorem upper_amount
    {value : Word xlen}
    {shift : Nat}
    (here : value.toNat = shift)
    (upper : xlen.bits ≤ shift)
    (inside : shift < xlen.bits + xlen.bits) :
    (value + BitVec.ofInt xlen.bits (-(SZREG xlen * 8))).toNat % xlen.bits =
      shift - xlen.bits := by
  have amount : (-(SZREG xlen * 8) : Int) = -(xlen.bits : Int) := by
    rw [← SZREG_bits xlen]
    push_cast
    rfl
  rw [← here] at upper
  rw [amount, toNat_add_neg upper, here, Nat.mod_eq_of_lt (by omega)]

variable {registers : Registers xlen.bits} {shift : Nat}

/-- The bit of the quotient for the subtraction between the loops. -/
theorem quotient_placed
    (here : (registers.get .t0).toNat = shift)
    (inside : shift < xlen.bits + xlen.bits)
    (limit : (registers.get .t4).toNat = xlen.bits)
    (one : registers.get .t1 = 1)
    (lower : registers.get .t2 = 0)
    (upper : registers.get .t3 = 0) :
    ∃ results, Reaches (doubleQuotient xlen) ⟨17, registers⟩ ⟨32, results⟩ ∧
      (results.get .t3 ++ results.get .t2).toNat = 2 ^ shift ∧
        ∀ reg, reg ≠ .t2 → reg ≠ .t3 → results.get reg = registers.get reg := by
  by_cases below : shift < xlen.bits
  · have less : registers.get .t0 < registers.get .t4 := by
      rwa [BitVec.lt_def, here, limit]
    refine ⟨registers.set .t2
      (registers.get .t1 <<< ((registers.get .t0).toNat % xlen.bits)),
      ?_, ?_, ?_⟩
    · refine Reaches.jump rfl (if_pos less) rfl ?_
      exact Reaches.straight 4 rfl .refl
    · show (registers.get .t3 ++ registers.get .t1 <<<
        ((registers.get .t0).toNat % xlen.bits)).toNat = _
      rw [upper, one, here, Nat.mod_eq_of_lt below]
      exact WordPair.toNat_lower_bit below
    · intro reg other _
      rw [Registers.get_set, if_neg fun same => other same.1]
  · have more : ¬registers.get .t0 < registers.get .t4 := by
      rwa [BitVec.lt_def, here, limit]
    refine ⟨(registers.set .t3 (registers.get .t0 +
      BitVec.ofInt xlen.bits (-(SZREG xlen * 8)))).set .t3
        (registers.get .t1 <<< ((registers.get .t0 +
          BitVec.ofInt xlen.bits (-(SZREG xlen * 8))).toNat % xlen.bits)),
      ?_, ?_, ?_⟩
    · refine Reaches.fall rfl nofun (if_neg more) ?_
      exact Reaches.straight 3 rfl .refl
    · show (registers.get .t1 <<< ((registers.get .t0 +
        BitVec.ofInt xlen.bits (-(SZREG xlen * 8))).toNat % xlen.bits) ++
          registers.get .t2).toNat = _
      rw [lower, one, upper_amount here (by omega) inside]
      exact WordPair.toNat_upper_bit (by omega) inside
    · intro reg _ other
      rw [Registers.set_set, Registers.get_set, if_neg fun same => other same.1]

/-- The mask of the second loop. -/
theorem mask_placed
    (here : (registers.get .t0).toNat = shift)
    (inside : shift < xlen.bits + xlen.bits)
    (limit : (registers.get .t4).toNat = xlen.bits)
    (one : registers.get .t1 = 1)
    (upper : registers.get .t5 = 0) :
    ∃ results, Reaches (doubleQuotient xlen) ⟨32, registers⟩ ⟨40, results⟩ ∧
      (results.get .t5 ++ results.get .t1).toNat = 2 ^ shift ∧
        ∀ reg, reg ≠ .t1 → reg ≠ .t5 → results.get reg = registers.get reg := by
  by_cases below : shift < xlen.bits
  · have less : registers.get .t0 < registers.get .t4 := by
      rwa [BitVec.lt_def, here, limit]
    refine ⟨registers.set .t1
      (registers.get .t1 <<< ((registers.get .t0).toNat % xlen.bits)),
      ?_, ?_, ?_⟩
    · refine Reaches.straight 1 rfl ?_
      refine Reaches.jump rfl (if_pos less) rfl ?_
      exact Reaches.straight 2 rfl .refl
    · show (registers.get .t5 ++ registers.get .t1 <<<
        ((registers.get .t0).toNat % xlen.bits)).toNat = _
      rw [upper, one, here, Nat.mod_eq_of_lt below]
      exact WordPair.toNat_lower_bit below
    · intro reg other _
      rw [Registers.get_set, if_neg fun same => other same.1]
  · have more : ¬registers.get .t0 < registers.get .t4 := by
      rwa [BitVec.lt_def, here, limit]
    refine ⟨((registers.set .t5 (registers.get .t0 +
      BitVec.ofInt xlen.bits (-(SZREG xlen * 8)))).set .t5
        (registers.get .t1 <<< ((registers.get .t0 +
          BitVec.ofInt xlen.bits (-(SZREG xlen * 8))).toNat %
            xlen.bits))).set .t1 (BitVec.ofInt xlen.bits 0), ?_, ?_, ?_⟩
    · refine Reaches.straight 1 rfl ?_
      refine Reaches.fall rfl nofun (if_neg more) ?_
      exact Reaches.straight 4 rfl .refl
    · show (registers.get .t1 <<< ((registers.get .t0 +
        BitVec.ofInt xlen.bits (-(SZREG xlen * 8))).toNat % xlen.bits) ++
          BitVec.ofInt xlen.bits 0).toNat = _
      rw [one, upper_amount here (by omega) inside, BitVec.ofInt_ofNat]
      exact WordPair.toNat_upper_bit (by omega) inside
    · intro reg lower other
      rw [Registers.set_set, Registers.get_set, if_neg fun same => lower same.1,
        Registers.get_set, if_neg fun same => other same.1]

/-- The first loop, before a test. -/
structure DoubleQuotientScaling (kept : Word xlen) (division : Division)
    (state : State xlen.bits) : Prop where
  line : state.pc = 6
  numbers : DoubleNumbers division state.registers
  one : state.registers.get .t1 = 1
  lower : state.registers.get .t2 = 0
  upper : state.registers.get .t3 = 0
  limit : (state.registers.get .t4).toNat = xlen.bits
  mask : state.registers.get .t5 = 0
  kept : state.registers.get .a7 = kept

/-- The second loop, before a test. -/
structure DoubleQuotientReducing (kept : Word xlen) (division : Division)
    (state : State xlen.bits) : Prop where
  line : state.pc = 40
  numbers : DoubleNumbers division state.registers
  mask : (state.registers.get .t5 ++ state.registers.get .t1).toNat =
    2 ^ division.shift
  quotient : (state.registers.get .t3 ++ state.registers.get .t2).toNat =
    division.quotient
  kept : state.registers.get .a7 = kept

/-- The pair of the divisor, shifted left by one. -/
theorem divisor_doubled
    (registers : Registers xlen.bits) :
    (registers.get .a3 <<< 1 |||
        registers.get .a2 >>> (SZREG xlen * 8 - 1)) ++ registers.get .a2 <<< 1 =
      (registers.get .a3 ++ registers.get .a2) <<< 1 := by
  rw [SZREG_bits, WordPair.shiftLeft_pair (bits_pos xlen)]

theorem pair_halved
    (upper lower : Word xlen) :
    upper >>> 1 ++ (lower >>> 1 ||| upper <<< (SZREG xlen * 8 - 1)) =
      (upper ++ lower) >>> 1 := by
  rw [SZREG_bits, WordPair.ushiftRight_pair (bits_pos xlen)]

theorem doubleQuotient_steps
    (kept : Word xlen)
    (dividend divisor : Nat) :
    Division.Steps (Step (doubleQuotient xlen)) (DoubleQuotientScaling kept)
      (DoubleQuotientReducing kept) (xlen.bits + xlen.bits) dividend divisor where
  leaves := by
    rintro division ⟨pc, registers⟩ valid fresh
      ⟨rfl, numbers, one, lower, upper, limit, zero, keeps⟩ below
    obtain ⟨results, placed, mask, others⟩ :=
      mask_placed numbers.shift valid.shift_lt limit one zero
    refine ⟨⟨40, results⟩, ?_, rfl, numbers.congr ?_, mask, ?_, ?_⟩
    · refine Reaches.straight 1 rfl ?_
      exact compare_below (numbers.below_iff.mpr below) rfl rfl .rfl rfl rfl rfl
        placed
    · intro reg listed
      refine others reg ?_ ?_ <;> rintro rfl <;> simp at listed
    · show (results.get .t3 ++ results.get .t2).toNat = _
      rw [others .t3 (by decide) (by decide), others .t2 (by decide) (by decide),
        fresh]
      exact congrArg BitVec.toNat (WordPair.pair_eq_zero.mpr ⟨upper, lower⟩)
    · exact (others .a7 (by decide) (by decide)).trans keeps
  takes := by
    rintro division ⟨pc, registers⟩ valid fresh
      ⟨rfl, numbers, one, lower, upper, limit, zero, keeps⟩ within top
    have above := mt numbers.below_iff.mp (by omega)
    -- the registers after the subtraction
    let taken := ((borrowed registers).set .a0 ((borrowed registers).get .a0 -
      (borrowed registers).get .a2)).set .a1
        ((borrowed registers).get .a1 - (borrowed registers).get .a3)
    have takenNumbers : DoubleNumbers division.taken taken :=
      numbers.borrows within rfl rfl rfl rfl rfl
    have same (reg : Reg) (notLower : reg ≠ .a0) (notUpper : reg ≠ .a1) :
        taken.get reg = registers.get reg := by
      rw [Registers.get_set, if_neg fun same => notUpper same.1,
        Registers.get_set, if_neg fun same => notLower same.1,
        borrowed_get notUpper]
    have takenLimit : (taken.get .t4).toNat = xlen.bits := by
      rw [same .t4 (by decide) (by decide), limit]
    have takenOne : taken.get .t1 = 1 :=
      (same .t1 (by decide) (by decide)).trans one
    obtain ⟨counted, placed, quotient, others⟩ :=
      quotient_placed takenNumbers.shift valid.shift_lt takenLimit takenOne
        ((same .t2 (by decide) (by decide)).trans lower)
        ((same .t3 (by decide) (by decide)).trans upper)
    have countedNumbers : DoubleNumbers division.taken counted := by
      refine takenNumbers.congr fun reg listed => ?_
      refine others reg ?_ ?_ <;> rintro rfl <;> simp at listed
    have countedLimit : (counted.get .t4).toNat = xlen.bits := by
      rw [others .t4 (by decide) (by decide), takenLimit]
    have countedZero : counted.get .t5 = 0 :=
      (others .t5 (by decide) (by decide)).trans
        ((same .t5 (by decide) (by decide)).trans zero)
    obtain ⟨results, masked, mask, rest⟩ :=
      mask_placed countedNumbers.shift valid.shift_lt countedLimit
        ((others .t1 (by decide) (by decide)).trans takenOne) countedZero
    refine ⟨⟨40, results⟩, ?_, rfl, countedNumbers.congr ?_, mask, ?_, ?_⟩
    · refine Reaches.straight 1 rfl ?_
      refine compare_within above rfl rfl .rfl rfl rfl ?_
      refine Reaches.straight 1 rfl ?_
      refine Reaches.fall rfl nofun
        (if_neg (mt (numbers.doubles_iff (bits_pos xlen)).mp (by omega))) ?_
      refine borrow rfl rfl rfl ?_
      exact Reaches.straight 3 rfl (placed.trans masked)
    · intro reg listed
      refine rest reg ?_ ?_ <;> rintro rfl <;> simp at listed
    · show (results.get .t3 ++ results.get .t2).toNat = _
      rw [rest .t3 (by decide) (by decide), rest .t2 (by decide) (by decide),
        quotient, Division.taken_quotient, fresh, Nat.zero_add]
      rfl
    · exact (rest .a7 (by decide) (by decide)).trans
        ((others .a7 (by decide) (by decide)).trans
          ((same .a7 (by decide) (by decide)).trans keeps))
  doubles := by
    rintro division ⟨pc, registers⟩ valid fresh
      ⟨rfl, numbers, one, lower, upper, limit, zero, keeps⟩ within fits
    have above := mt numbers.below_iff.mp (by omega)
    refine ⟨⟨6, ((((registers.set .a5
      (registers.get .a2 >>> (SZREG xlen * 8 - 1))).set .a3
        (registers.get .a3 <<< 1)).set .a2 (registers.get .a2 <<< 1)).set .a3
          (registers.get .a3 <<< 1 |||
            registers.get .a2 >>> (SZREG xlen * 8 - 1))).set .t0
              (registers.get .t0 + BitVec.ofInt xlen.bits 1)⟩,
      ?_, rfl, ?_, one, lower, upper, limit, zero, keeps⟩
    · refine Reaches.straight 1 rfl ?_
      refine compare_within above rfl rfl .rfl rfl rfl ?_
      refine Reaches.straight 1 rfl ?_
      refine Reaches.jump rfl
        (if_pos ((numbers.doubles_iff (bits_pos xlen)).mpr fits)) rfl ?_
      exact Reaches.straight 7 rfl .refl
    · exact numbers.doubled valid (double_bits_lt xlen) fits rfl
        (divisor_doubled registers) rfl
  reduces := by
    rintro division ⟨pc, registers⟩ valid up
      ⟨rfl, numbers, mask, quotient, keeps⟩ below
    -- the registers after the divisor and the mask are halved
    generalize halves : ((((((((registers.set .a5
      (registers.get .a3 <<< (SZREG xlen * 8 - 1))).set .a2
        (registers.get .a2 >>> 1)).set .a3 (registers.get .a3 >>> 1)).set .a2
          (registers.get .a2 >>> 1 |||
            registers.get .a3 <<< (SZREG xlen * 8 - 1))).set .t6
              (registers.get .t5 <<< (SZREG xlen * 8 - 1))).set .t1
                (registers.get .t1 >>> 1)).set .t5
                  (registers.get .t5 >>> 1)).set .t1
                    (registers.get .t1 >>> 1 |||
                      registers.get .t5 <<< (SZREG xlen * 8 - 1))).set .t0
                        (registers.get .t0 + BitVec.ofInt xlen.bits (-1)) =
      halved
    have halvedNumbers : DoubleNumbers division.halved halved := by
      subst halves
      exact numbers.halved up rfl (pair_halved _ _) rfl
    have halvedMask : (halved.get .t5 ++ halved.get .t1).toNat =
        2 ^ (division.shift - 1) := by
      have pair : halved.get .t5 ++ halved.get .t1 =
          (registers.get .t5 ++ registers.get .t1) >>> 1 := by
        subst halves
        exact pair_halved _ _
      rw [pair, WordPair.toNat_ushiftRight_one, mask,
        ← Nat.pow_sub_one (by decide) up.ne']
    have halvedQuotient : (halved.get .t3 ++ halved.get .t2).toNat =
        division.quotient := by
      subst halves
      exact quotient
    have halvedKept : halved.get .a7 = kept := by
      subst halves
      exact keeps
    have path {last : State xlen.bits}
        (rest : Reaches (doubleQuotient xlen) ⟨51, halved⟩ last) :
        Reaches (doubleQuotient xlen) ⟨40, registers⟩ last := by
      subst halves
      refine Reaches.straight 1 rfl ?_
      refine Reaches.fall rfl nofun (if_neg (mt numbers.down_iff.mp up.ne')) ?_
      exact Reaches.straight 9 rfl rest
    unfold Division.reduced
    split_ifs with small
    · refine ⟨⟨40, halved⟩, path ?_, rfl, halvedNumbers, halvedMask,
        halvedQuotient, halvedKept⟩
      refine compare_below (halvedNumbers.below_iff.mpr small) rfl rfl
        ⟨Eq.symm, Eq.symm⟩ rfl rfl rfl ?_
      exact Reaches.straight 2 rfl .refl
    · have above := mt halvedNumbers.below_iff.mp small
      -- the registers after the subtraction
      let counted := ((borrowed halved).set .t2 ((borrowed halved).get .t2 |||
        (borrowed halved).get .t1)).set .t3 ((borrowed halved).get .t3 |||
          (borrowed halved).get .t5)
      let taken := (counted.set .a1 ((borrowed halved).get .a1 -
        (borrowed halved).get .a3)).set .a0 ((borrowed halved).get .a0 -
          (borrowed halved).get .a2)
      refine ⟨⟨40, taken⟩, path ?_, rfl,
        halvedNumbers.borrows (by omega) rfl rfl rfl rfl rfl, ?_, ?_, ?_⟩
      · refine compare_within above rfl rfl ⟨Eq.symm, Eq.symm⟩ rfl rfl ?_
        refine Reaches.straight 1 rfl ?_
        refine borrow rfl rfl rfl ?_
        exact Reaches.straight 7 rfl .refl
      · show ((borrowed halved).get .t5 ++ (borrowed halved).get .t1).toNat = _
        rw [borrowed_get (by decide), borrowed_get (by decide), halvedMask]
        rfl
      · show (((borrowed halved).get .t3 ||| (borrowed halved).get .t5) ++
          ((borrowed halved).get .t2 ||| (borrowed halved).get .t1)).toNat = _
        rw [borrowed_get (by decide), borrowed_get (by decide),
          borrowed_get (by decide), borrowed_get (by decide),
          ← BitVec.or_append, BitVec.toNat_or, halvedQuotient, halvedMask,
          valid.or_eq_add up]
        rfl
      · exact (borrowed_get (by decide)).trans halvedKept

end Quotient

section Remainder

/-! ## The loop that keeps the remainder only -/

variable {xlen : Xlen}

/-- The first loop, before a test. -/
structure DoubleRemainderScaling (kept : Word xlen) (division : Division)
    (state : State xlen.bits) : Prop where
  line : state.pc = 1
  numbers : DoubleNumbers division state.registers
  kept : state.registers.get .a7 = kept

/-- The second loop, before a test. -/
structure DoubleRemainderReducing (kept : Word xlen) (division : Division)
    (state : State xlen.bits) : Prop where
  line : state.pc = 20
  numbers : DoubleNumbers division state.registers
  kept : state.registers.get .a7 = kept

/-- The first loop is left at its first test where the remainder is below the
divisor. -/
theorem doubleRemainder_enters
    {division : Division}
    {registers : Registers xlen.bits}
    (numbers : DoubleNumbers division registers)
    (below : division.remainder < division.divisor) :
    Reaches (doubleRemainder xlen) ⟨1, registers⟩ ⟨20, registers⟩ := by
  refine Reaches.straight 1 rfl ?_
  exact compare_below (numbers.below_iff.mpr below) rfl rfl .rfl rfl rfl rfl .refl

theorem doubleRemainder_steps
    (kept : Word xlen)
    (dividend divisor : Nat) :
    Division.Steps (Step (doubleRemainder xlen)) (DoubleRemainderScaling kept)
      (DoubleRemainderReducing kept) (xlen.bits + xlen.bits)
      dividend divisor where
  leaves := by
    rintro division ⟨pc, registers⟩ valid fresh ⟨rfl, numbers, keeps⟩ below
    exact ⟨⟨20, registers⟩, doubleRemainder_enters numbers below, rfl, numbers,
      keeps⟩
  takes := by
    rintro division ⟨pc, registers⟩ valid fresh ⟨rfl, numbers, keeps⟩ within top
    have above := mt numbers.below_iff.mp (by omega)
    refine ⟨⟨20, ((borrowed registers).set .a0 ((borrowed registers).get .a0 -
      (borrowed registers).get .a2)).set .a1 ((borrowed registers).get .a1 -
        (borrowed registers).get .a3)⟩, ?_, rfl,
      numbers.borrows within rfl rfl rfl rfl rfl,
      (borrowed_get (by decide)).trans keeps⟩
    refine Reaches.straight 1 rfl ?_
    refine compare_within above rfl rfl .rfl rfl rfl ?_
    refine Reaches.straight 1 rfl ?_
    refine Reaches.fall rfl nofun
      (if_neg (mt (numbers.doubles_iff (bits_pos xlen)).mp (by omega))) ?_
    refine borrow rfl rfl rfl ?_
    exact Reaches.straight 4 rfl .refl
  doubles := by
    rintro division ⟨pc, registers⟩ valid fresh ⟨rfl, numbers, keeps⟩ within fits
    have above := mt numbers.below_iff.mp (by omega)
    refine ⟨⟨1, ((((registers.set .a5
      (registers.get .a2 >>> (SZREG xlen * 8 - 1))).set .a3
        (registers.get .a3 <<< 1)).set .a2 (registers.get .a2 <<< 1)).set .a3
          (registers.get .a3 <<< 1 |||
            registers.get .a2 >>> (SZREG xlen * 8 - 1))).set .t0
              (registers.get .t0 + BitVec.ofInt xlen.bits 1)⟩,
      ?_, rfl, ?_, keeps⟩
    · refine Reaches.straight 1 rfl ?_
      refine compare_within above rfl rfl .rfl rfl rfl ?_
      refine Reaches.straight 1 rfl ?_
      refine Reaches.jump rfl
        (if_pos ((numbers.doubles_iff (bits_pos xlen)).mpr fits)) rfl ?_
      exact Reaches.straight 7 rfl .refl
    · exact numbers.doubled valid (double_bits_lt xlen) fits rfl
        (divisor_doubled registers) rfl
  reduces := by
    rintro division ⟨pc, registers⟩ valid up ⟨rfl, numbers, keeps⟩ below
    obtain ⟨-, -, reducedBelow⟩ := valid.reduced up below
    -- the registers after the divisor is halved
    generalize halves : ((((registers.set .a5
      (registers.get .a3 <<< (SZREG xlen * 8 - 1))).set .a2
        (registers.get .a2 >>> 1)).set .a3 (registers.get .a3 >>> 1)).set .a2
          (registers.get .a2 >>> 1 |||
            registers.get .a3 <<< (SZREG xlen * 8 - 1))).set .t0
              (registers.get .t0 + BitVec.ofInt xlen.bits (-1)) = halved
    have halvedNumbers : DoubleNumbers division.halved halved := by
      subst halves
      exact numbers.halved up rfl (pair_halved _ _) rfl
    have halvedKept : halved.get .a7 = kept := by
      subst halves
      exact keeps
    have path {last : State xlen.bits}
        (rest : Reaches (doubleRemainder xlen) ⟨27, halved⟩ last) :
        Reaches (doubleRemainder xlen) ⟨20, registers⟩ last := by
      subst halves
      refine Reaches.straight 1 rfl ?_
      refine Reaches.fall rfl nofun (if_neg (mt numbers.down_iff.mp up.ne')) ?_
      exact Reaches.straight 5 rfl rest
    -- the jump back goes through the test of the first loop
    unfold Division.reduced at reducedBelow ⊢
    split_ifs at reducedBelow ⊢ with small
    · refine ⟨⟨20, halved⟩, path ?_, rfl, halvedNumbers, halvedKept⟩
      refine compare_below (halvedNumbers.below_iff.mpr small) rfl rfl
        ⟨Eq.symm, Eq.symm⟩ rfl rfl rfl ?_
      exact Reaches.straight 2 rfl
        (doubleRemainder_enters halvedNumbers reducedBelow)
    · have above := mt halvedNumbers.below_iff.mp small
      let taken := ((borrowed halved).set .a1 ((borrowed halved).get .a1 -
        (borrowed halved).get .a3)).set .a0 ((borrowed halved).get .a0 -
          (borrowed halved).get .a2)
      have takenNumbers : DoubleNumbers division.halved.taken taken :=
        halvedNumbers.borrows (by omega) rfl rfl rfl rfl rfl
      refine ⟨⟨20, taken⟩, path ?_, rfl, takenNumbers,
        (borrowed_get (by decide)).trans halvedKept⟩
      refine compare_within above rfl rfl ⟨Eq.symm, Eq.symm⟩ rfl rfl ?_
      refine Reaches.straight 1 rfl ?_
      refine borrow rfl rfl rfl ?_
      exact Reaches.straight 5 rfl
        (doubleRemainder_enters takenNumbers reducedBelow)

end Remainder

section Blocks

/-! ## The loops as blocks -/

variable {xlen : Xlen} (registers : Registers xlen.bits)

/-- The loop leaves the quotient in `t3:t2`. -/
theorem doubleQuotient_runs
    (nonzero : registers.pair .a3 .a2 ≠ 0) :
    ∃ results, Runs (doubleQuotient xlen) registers results ∧
      results.pair .t3 .t2 = registers.pair .a1 .a0 / registers.pair .a3 .a2 ∧
        results.get .a7 = registers.get .a7 := by
  have start : DoubleQuotientScaling (registers.get .a7)
      (Division.start (registers.pair .a1 .a0).toNat
        (registers.pair .a3 .a2).toNat)
      ⟨6, (((((registers.set .t0 (BitVec.ofInt xlen.bits 0)).set .t1
        (BitVec.ofInt xlen.bits 1)).set .t2 (BitVec.ofInt xlen.bits 0)).set .t3
          (BitVec.ofInt xlen.bits 0)).set .t4
            (BitVec.ofInt xlen.bits (SZREG xlen * 8))).set .t5
              (BitVec.ofInt xlen.bits 0)⟩ := by
    refine ⟨rfl, ⟨rfl, rfl, ?_⟩, ?_, ?_, ?_, ?_, ?_, rfl⟩
    · exact congrArg BitVec.toNat (BitVec.ofInt_ofNat _ 0)
    · exact BitVec.ofInt_ofNat _ 1
    · exact BitVec.ofInt_ofNat _ 0
    · exact BitVec.ofInt_ofNat _ 0
    · show (BitVec.ofInt xlen.bits (SZREG xlen * 8)).toNat = _
      rw [← Nat.cast_ofNat, ← Nat.cast_mul, SZREG_bits, BitVec.ofInt_natCast,
        BitVec.toNat_ofNat, Nat.mod_eq_of_lt Nat.lt_two_pow_self]
    · exact BitVec.ofInt_ofNat _ 0
  obtain ⟨⟨pc, results⟩, path, rfl, numbers, mask, quotient, kept⟩ :=
    (doubleQuotient_steps _ _ _).divides (positive_of_ne_zero nonzero)
      (registers.pair .a1 .a0).isLt
      (registers.pair .a3 .a2).isLt start
  refine ⟨results, ?_, ?_, kept⟩
  · refine Reaches.straight 6 rfl (path.trans ?_)
    refine Reaches.straight 1 rfl ?_
    refine Reaches.jump rfl (if_pos (numbers.down_iff.mpr rfl)) rfl ?_
    exact Reaches.straight 1 rfl .refl
  · apply BitVec.eq_of_toNat_eq
    rw [quotient, BitVec.toNat_udiv]

/-- The loop leaves the remainder in `a1:a0`. -/
theorem doubleRemainder_runs
    (nonzero : registers.pair .a3 .a2 ≠ 0) :
    ∃ results, Runs (doubleRemainder xlen) registers results ∧
      results.pair .a1 .a0 = registers.pair .a1 .a0 % registers.pair .a3 .a2 ∧
        results.get .a7 = registers.get .a7 := by
  have start : DoubleRemainderScaling (registers.get .a7)
      (Division.start (registers.pair .a1 .a0).toNat
        (registers.pair .a3 .a2).toNat)
      ⟨1, registers.set .t0 (BitVec.ofInt xlen.bits 0)⟩ := by
    refine ⟨rfl, ⟨rfl, rfl, ?_⟩, rfl⟩
    exact congrArg BitVec.toNat (BitVec.ofInt_ofNat _ 0)
  obtain ⟨⟨pc, results⟩, path, rfl, numbers, kept⟩ :=
    (doubleRemainder_steps _ _ _).divides (positive_of_ne_zero nonzero)
      (registers.pair .a1 .a0).isLt
      (registers.pair .a3 .a2).isLt start
  refine ⟨results, ?_, ?_, kept⟩
  · refine Reaches.straight 1 rfl (path.trans ?_)
    refine Reaches.straight 1 rfl ?_
    refine Reaches.jump rfl (if_pos (numbers.down_iff.mpr rfl)) rfl ?_
    exact Reaches.straight 1 rfl .refl
  · apply BitVec.eq_of_toNat_eq
    rw [numbers.remainder, BitVec.toNat_umod]

end Blocks

end SoftDivision
end EchelonSbi
