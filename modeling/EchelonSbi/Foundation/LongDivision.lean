import Mathlib.Logic.Relation
import Mathlib.Data.Nat.Bitwise
import Mathlib.Tactic.Ring

/-!
# Binary long division by scaling up and down

The divisor is doubled until it exceeds the remainder or its top bit is set,
and then halved back to what it was; at each halving one bit of the quotient is
decided.  A program that takes these steps, on whatever it keeps the four
numbers in, divides.
-/

namespace EchelonSbi
namespace Foundation

/-- The numbers of a division under way. -/
@[ext]
structure Division where
  remainder : Nat
  divisor : Nat
  shift : Nat
  quotient : Nat
  deriving DecidableEq, Repr

namespace Division

variable (division : Division)

/-- Double the divisor. -/
@[simps]
def doubled : Division where
  remainder := division.remainder
  divisor := 2 * division.divisor
  shift := division.shift + 1
  quotient := division.quotient

/-- Subtract the divisor and count it. -/
@[simps]
def taken : Division where
  remainder := division.remainder - division.divisor
  divisor := division.divisor
  shift := division.shift
  quotient := division.quotient + 2 ^ division.shift

/-- Halve the divisor. -/
@[simps]
def halved : Division where
  remainder := division.remainder
  divisor := division.divisor / 2
  shift := division.shift - 1
  quotient := division.quotient

/-- Halve the divisor, and subtract it where it fits. -/
def reduced : Division :=
  if division.halved.remainder < division.halved.divisor then division.halved
  else division.halved.taken

/-- A division of `dividend` by `divisor` of numbers below `2 ^ width`. -/
structure Valid (width dividend divisor : Nat) : Prop where
  scaled : division.divisor = divisor * 2 ^ division.shift
  positive : 0 < divisor
  total : division.quotient * divisor + division.remainder = dividend
  aligned : 2 ^ division.shift ∣ division.quotient
  divisorFits : division.divisor < 2 ^ width
  dividendFits : dividend < 2 ^ width

variable {division} {width dividend divisor : Nat}

namespace Valid

theorem remainderFits (valid : division.Valid width dividend divisor) :
    division.remainder < 2 ^ width := by
  have := valid.total
  have := valid.dividendFits
  omega

theorem divisorPositive (valid : division.Valid width dividend divisor) :
    0 < division.divisor := by
  rw [valid.scaled]
  exact Nat.mul_pos valid.positive (Nat.two_pow_pos _)

/-- The divisor was scaled at most to the top of its register. -/
theorem shift_lt (valid : division.Valid width dividend divisor) :
    division.shift < width := by
  have fits := valid.divisorFits
  rw [valid.scaled] at fits
  have scaled := Nat.le_mul_of_pos_left (2 ^ division.shift) valid.positive
  exact (Nat.pow_lt_pow_iff_right Nat.one_lt_two).mp
    (Nat.lt_of_le_of_lt scaled fits)

theorem doubled
    (valid : division.Valid width dividend divisor)
    (fits : 2 * division.divisor < 2 ^ width)
    (fresh : division.quotient = 0) :
    division.doubled.Valid width dividend divisor := by
  refine ⟨?_, valid.positive, valid.total, ?_, fits, valid.dividendFits⟩
  · simp only [doubled_divisor, doubled_shift, valid.scaled, Nat.pow_succ]
    ring
  · simp [fresh]

theorem taken
    (valid : division.Valid width dividend divisor)
    (within : division.divisor ≤ division.remainder) :
    division.taken.Valid width dividend divisor := by
  refine ⟨valid.scaled, valid.positive, ?_, ?_, valid.divisorFits,
    valid.dividendFits⟩
  · have total := valid.total
    simp only [taken_quotient, taken_remainder, Nat.add_mul]
    rw [Nat.mul_comm (2 ^ _), ← valid.scaled]
    omega
  · exact Nat.dvd_add valid.aligned (Nat.dvd_refl _)

theorem halved
    (valid : division.Valid width dividend divisor)
    (up : 0 < division.shift) :
    division.halved.Valid width dividend divisor := by
  obtain ⟨shift, same⟩ := Nat.exists_eq_succ_of_ne_zero up.ne'
  have scaled := valid.scaled
  have aligned := valid.aligned
  have fits := valid.divisorFits
  rw [same, Nat.pow_succ] at scaled aligned
  have half : division.divisor / 2 = divisor * 2 ^ shift := by
    rw [scaled, ← Nat.mul_assoc, Nat.mul_div_cancel _ (by decide)]
  refine ⟨?_, valid.positive, valid.total, ?_, ?_, valid.dividendFits⟩
  · simp [half, same]
  · simp only [halved_shift, same, Nat.succ_eq_add_one, Nat.add_sub_cancel]
    exact Nat.dvd_trans (Nat.dvd_mul_right _ _) aligned
  · simp only [halved_divisor]
    omega

/-- Where the quotient bit of the shift is still 0, counting it is setting
it. -/
theorem or_eq_add
    (valid : division.Valid width dividend divisor)
    (up : 0 < division.shift) :
    division.quotient ||| 2 ^ (division.shift - 1) =
      division.quotient + 2 ^ (division.shift - 1) := by
  obtain ⟨shift, same⟩ := Nat.exists_eq_succ_of_ne_zero up.ne'
  obtain ⟨count, here⟩ := valid.aligned
  have bit : 2 ^ shift < 2 ^ (shift + 1) :=
    Nat.pow_lt_pow_right (by decide) (by omega)
  rw [here, same, Nat.succ_eq_add_one, Nat.add_sub_cancel,
    ← Nat.two_pow_add_eq_or_of_lt bit]

theorem reduced
    (valid : division.Valid width dividend divisor)
    (up : 0 < division.shift)
    (below : division.remainder < division.divisor) :
    division.reduced.Valid width dividend divisor ∧
      division.reduced.shift = division.shift - 1 ∧
        division.reduced.remainder < division.reduced.divisor := by
  have even : division.divisor = 2 * (division.divisor / 2) := by
    obtain ⟨shift, same⟩ := Nat.exists_eq_succ_of_ne_zero up.ne'
    have scaled := valid.scaled
    rw [same, Nat.pow_succ, ← Nat.mul_assoc] at scaled
    omega
  unfold Division.reduced
  split_ifs with small
  · exact ⟨valid.halved up, rfl, small⟩
  · refine ⟨(valid.halved up).taken (by omega), rfl, ?_⟩
    simp only [halved_remainder, halved_divisor, taken_remainder,
      taken_divisor] at *
    omega

/-- At shift 0 the division is done. -/
theorem done
    (valid : division.Valid width dividend divisor)
    (down : division.shift = 0)
    (below : division.remainder < division.divisor) :
    division.remainder = dividend % divisor ∧
      division.quotient = dividend / divisor := by
  have scaled := valid.scaled
  rw [down, Nat.pow_zero, Nat.mul_one] at scaled
  rw [scaled] at below
  have total : division.remainder + divisor * division.quotient = dividend := by
    rw [← valid.total]
    ring
  obtain ⟨quotient, remainder⟩ :=
    (Nat.div_mod_unique valid.positive).mpr ⟨total, below⟩
  exact ⟨remainder.symm, quotient.symm⟩

end Valid

/-- The division before its first step. -/
@[simps]
def start (dividend divisor : Nat) : Division where
  remainder := dividend
  divisor := divisor
  shift := 0
  quotient := 0

theorem start_valid
    (positive : 0 < divisor)
    (dividendFits : dividend < 2 ^ width)
    (divisorFits : divisor < 2 ^ width) :
    (start dividend divisor).Valid width dividend divisor := by
  refine ⟨by simp, positive, by simp, by simp, divisorFits, dividendFits⟩

section Program

/-! ## Programs that divide -/

variable {σ : Type*} {step : σ → σ → Prop}

/-- A program that takes the steps of long division between two places. -/
structure Steps
    (step : σ → σ → Prop) (scaling reducing : Division → σ → Prop)
    (width dividend divisor : Nat) : Prop where
  /-- The divisor exceeds the remainder. -/
  leaves : ∀ {division state}, division.Valid width dividend divisor →
    division.quotient = 0 → scaling division state →
      division.remainder < division.divisor →
        ∃ next, Relation.ReflTransGen step state next ∧ reducing division next
  /-- The divisor cannot be doubled. -/
  takes : ∀ {division state}, division.Valid width dividend divisor →
    division.quotient = 0 → scaling division state →
      division.divisor ≤ division.remainder →
        2 ^ width ≤ 2 * division.divisor →
          ∃ next, Relation.ReflTransGen step state next ∧
            reducing division.taken next
  doubles : ∀ {division state}, division.Valid width dividend divisor →
    division.quotient = 0 → scaling division state →
      division.divisor ≤ division.remainder →
        2 * division.divisor < 2 ^ width →
          ∃ next, Relation.ReflTransGen step state next ∧
            scaling division.doubled next
  reduces : ∀ {division state}, division.Valid width dividend divisor →
    0 < division.shift → reducing division state →
      division.remainder < division.divisor →
        ∃ next, Relation.ReflTransGen step state next ∧
          reducing division.reduced next

variable {scaling reducing : Division → σ → Prop}

namespace Steps

/-- Scaling up ends with a remainder below the divisor. -/
theorem scales
    (steps : Steps step scaling reducing width dividend divisor)
    {state : σ}
    (valid : division.Valid width dividend divisor)
    (fresh : division.quotient = 0)
    (here : scaling division state) :
    ∃ final next, Relation.ReflTransGen step state next ∧
      final.Valid width dividend divisor ∧
        final.remainder < final.divisor ∧ reducing final next := by
  -- each doubling brings the divisor closer to the remainder
  generalize distance : division.remainder + 1 - division.divisor = measure
  induction measure using Nat.strong_induction_on generalizing division state with
  | _ measure inductionHypothesis =>
      by_cases below : division.remainder < division.divisor
      · obtain ⟨next, path, there⟩ := steps.leaves valid fresh here below
        exact ⟨division, next, path, valid, below, there⟩
      have within : division.divisor ≤ division.remainder := by omega
      by_cases fits : 2 * division.divisor < 2 ^ width
      · obtain ⟨middle, path, there⟩ :=
          steps.doubles valid fresh here within fits
        have positive := valid.divisorPositive
        obtain ⟨final, next, rest, result⟩ := inductionHypothesis
          (division.doubled.remainder + 1 - division.doubled.divisor)
          (by simp only [doubled_remainder, doubled_divisor]; omega)
          (valid.doubled fits fresh) fresh there rfl
        exact ⟨final, next, path.trans rest, result⟩
      · obtain ⟨next, path, there⟩ :=
          steps.takes valid fresh here within (by omega)
        have remainderFits := valid.remainderFits
        refine ⟨division.taken, next, path, valid.taken within, ?_, there⟩
        simp only [taken_remainder, taken_divisor]
        omega

/-- Scaling down ends with the remainder and the quotient. -/
theorem unscales
    (steps : Steps step scaling reducing width dividend divisor)
    {state : σ}
    (valid : division.Valid width dividend divisor)
    (below : division.remainder < division.divisor)
    (here : reducing division state) :
    ∃ next, Relation.ReflTransGen step state next ∧
      reducing ⟨dividend % divisor, divisor, 0, dividend / divisor⟩ next := by
  generalize height : division.shift = shift
  induction shift generalizing division state with
  | zero =>
      obtain ⟨remainder, quotient⟩ := valid.done height below
      have scaled := valid.scaled
      rw [height, Nat.pow_zero, Nat.mul_one] at scaled
      have final : division =
          ⟨dividend % divisor, divisor, 0, dividend / divisor⟩ :=
        Division.ext remainder scaled height quotient
      exact ⟨state, .refl, final ▸ here⟩
  | succ shift inductionHypothesis =>
      obtain ⟨middle, path, there⟩ :=
        steps.reduces valid (by omega) here below
      obtain ⟨kept, lower, small⟩ := valid.reduced (by omega) below
      obtain ⟨next, rest, final⟩ :=
        inductionHypothesis kept small there (by omega)
      exact ⟨next, path.trans rest, final⟩

/-- The rule for programs that divide. -/
theorem divides
    (steps : Steps step scaling reducing width dividend divisor)
    {state : σ}
    (positive : 0 < divisor)
    (dividendFits : dividend < 2 ^ width)
    (divisorFits : divisor < 2 ^ width)
    (here : scaling (start dividend divisor) state) :
    ∃ next, Relation.ReflTransGen step state next ∧
      reducing ⟨dividend % divisor, divisor, 0, dividend / divisor⟩ next := by
  obtain ⟨final, middle, path, valid, below, there⟩ :=
    steps.scales (start_valid positive dividendFits divisorFits) rfl here
  obtain ⟨next, rest, done⟩ := steps.unscales valid below there
  exact ⟨next, path.trans rest, done⟩

end Steps

end Program

end Division

end Foundation
end EchelonSbi
