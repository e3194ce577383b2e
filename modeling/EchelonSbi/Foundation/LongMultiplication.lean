import EchelonSbi.Foundation.WordPair
import Mathlib.Logic.Relation
import Mathlib.Tactic.Ring

/-!
# Binary multiplication by shifting and adding

In each round the multiplicand is added where the lowest bit of the multiplier
is set; then the multiplier is halved and the multiplicand doubled.  What is
still to be added is the product of the two, so the rounds may end as soon as
either is 0.  A program that takes these rounds, on whatever it keeps the four
numbers in, multiplies modulo `2 ^ width`.
-/

namespace EchelonSbi
namespace Foundation

/-- The numbers of a multiplication under way. -/
structure Multiplication (w : Nat) where
  multiplier : BitVec w
  multiplicand : BitVec w
  rounds : Nat
  product : BitVec w

namespace Multiplication

variable {w : Nat} (multiplication : Multiplication w)

/-- Nothing is left to be added. -/
def Stops : Prop :=
  multiplication.multiplier = 0 ∨ multiplication.multiplicand = 0

/-- One round. -/
@[simps]
def turned : Multiplication w where
  multiplier := multiplication.multiplier >>> 1
  multiplicand := multiplication.multiplicand <<< 1
  rounds := multiplication.rounds - 1
  product :=
    if multiplication.multiplier.getLsbD 0 then
      multiplication.product + multiplication.multiplicand
    else multiplication.product

/-- A multiplication with the given result. -/
structure Valid (result : BitVec w) : Prop where
  total : multiplication.product +
    multiplication.multiplier * multiplication.multiplicand = result
  multiplierFits : multiplication.multiplier.toNat < 2 ^ multiplication.rounds
  roundsFit : multiplication.rounds ≤ w

variable {multiplication} {result : BitVec w}

/-- The lowest bit and the rest make up a number. -/
theorem halves
    (value : BitVec w) :
    (if value.getLsbD 0 then 1#w else 0#w) + (value >>> 1) <<< 1 = value := by
  have rest := WordPair.toNat_ushiftRight_one value
  have inside := value.isLt
  have doubled : ((value >>> 1) <<< 1).toNat = 2 * (value.toNat / 2) := by
    rw [WordPair.toNat_shiftLeft_one (by omega), rest]
  apply BitVec.eq_of_toNat_eq
  rw [BitVec.toNat_add, doubled, BitVec.getLsbD, Nat.testBit_zero]
  by_cases odd : value.toNat % 2 = 1
  · have one : (1#w).toNat = 1 := by
      rw [BitVec.toNat_ofNat, Nat.mod_eq_of_lt (by omega)]
    rw [if_pos (decide_eq_true odd), one,
      Nat.mod_eq_of_lt (by omega)]
    omega
  · rw [if_neg (by simpa using odd), BitVec.toNat_ofNat,
      Nat.zero_mod, Nat.mod_eq_of_lt (by omega)]
    omega

/-- What a round adds is what it takes from the rest. -/
theorem mul_eq_turned
    (multiplier multiplicand : BitVec w) :
    multiplier * multiplicand =
      (if multiplier.getLsbD 0 then multiplicand else 0#w) +
        (multiplier >>> 1) * (multiplicand <<< 1) := by
  calc multiplier * multiplicand
      = ((if multiplier.getLsbD 0 then 1#w else 0#w) +
          (multiplier >>> 1) <<< 1) * multiplicand := by rw [halves]
    _ = (if multiplier.getLsbD 0 then 1#w else 0#w) * multiplicand +
          (multiplier >>> 1) * (multiplicand <<< 1) := by
        rw [BitVec.shiftLeft_eq_mul_twoPow, BitVec.shiftLeft_eq_mul_twoPow]
        ring
    _ = (if multiplier.getLsbD 0 then multiplicand else 0#w) +
          (multiplier >>> 1) * (multiplicand <<< 1) := by
        split_ifs
        · rw [BitVec.one_mul]
        · rw [BitVec.zero_mul]

namespace Valid

/-- A multiplier other than 0 has a round left. -/
theorem rounds_pos
    (valid : multiplication.Valid result)
    (nonzero : multiplication.multiplier ≠ 0) :
    0 < multiplication.rounds := by
  have fits := valid.multiplierFits
  refine Nat.pos_of_ne_zero fun none => nonzero ?_
  apply BitVec.eq_of_toNat_eq
  rw [none, Nat.pow_zero] at fits
  rw [BitVec.ofNat_eq_ofNat, BitVec.toNat_ofNat, Nat.zero_mod]
  omega

theorem turned
    (valid : multiplication.Valid result)
    (nonzero : multiplication.multiplier ≠ 0) :
    multiplication.turned.Valid result := by
  have positive := valid.rounds_pos nonzero
  refine ⟨?_, ?_, ?_⟩
  · rw [← valid.total, mul_eq_turned multiplication.multiplier]
    simp only [turned_product, turned_multiplier, turned_multiplicand]
    split_ifs
    · rw [BitVec.add_assoc]
    · rw [BitVec.zero_add]
  · have fits := valid.multiplierFits
    rw [← Nat.succ_pred_eq_of_pos positive, Nat.pow_succ] at fits
    rw [turned_multiplier, WordPair.toNat_ushiftRight_one, turned_rounds]
    exact Nat.div_lt_of_lt_mul (by rwa [Nat.mul_comm])
  · exact Nat.le_trans (Nat.sub_le _ _) valid.roundsFit

/-- Once either factor is 0 the product is complete. -/
theorem done
    (valid : multiplication.Valid result)
    (stops : multiplication.Stops) :
    multiplication.product = result := by
  rw [← valid.total]
  rcases stops with zero | zero
  · rw [zero, zero_mul, add_zero]
  · rw [zero, mul_zero, add_zero]

/-- Without a round left the multiplier is 0. -/
theorem stops_of_rounds
    (valid : multiplication.Valid result)
    (none : multiplication.rounds = 0) :
    multiplication.Stops := by
  by_contra goesOn
  have := valid.rounds_pos fun zero => goesOn (.inl zero)
  omega

end Valid

/-- The multiplication before its first round. -/
@[simps]
def start (multiplier multiplicand : BitVec w) : Multiplication w where
  multiplier := multiplier
  multiplicand := multiplicand
  rounds := w
  product := 0

theorem start_valid
    (multiplier multiplicand : BitVec w) :
    (start multiplier multiplicand).Valid (multiplier * multiplicand) where
  total := BitVec.zero_add _
  multiplierFits := multiplier.isLt
  roundsFit := Nat.le_refl _

section Program

/-! ## Programs that multiply -/

variable {σ : Type*} {step : σ → σ → Prop}
  {turning : Multiplication w → σ → Prop}
  {finished : BitVec w → σ → Prop}

/-- A program that takes the rounds of a multiplication, from the place where
one begins. -/
structure Rounds
    (step : σ → σ → Prop) (turning : Multiplication w → σ → Prop)
    (finished : BitVec w → σ → Prop) (result : BitVec w) : Prop where
  /-- A factor is 0. -/
  leaves : ∀ {multiplication state}, multiplication.Valid result →
    turning multiplication state → multiplication.Stops →
      ∃ next, Relation.ReflTransGen step state next ∧
        finished multiplication.product next
  /-- The last round. -/
  ends : ∀ {multiplication state}, multiplication.Valid result →
    turning multiplication state → ¬multiplication.Stops →
      multiplication.turned.rounds = 0 →
        ∃ next, Relation.ReflTransGen step state next ∧
          finished multiplication.turned.product next
  turns : ∀ {multiplication state}, multiplication.Valid result →
    turning multiplication state → ¬multiplication.Stops →
      multiplication.turned.rounds ≠ 0 →
        ∃ next, Relation.ReflTransGen step state next ∧
          turning multiplication.turned next

/-- The rule for programs that multiply. -/
theorem Rounds.multiplies
    (program : Rounds step turning finished result)
    {state : σ}
    (valid : multiplication.Valid result)
    (here : turning multiplication state) :
    ∃ next, Relation.ReflTransGen step state next ∧ finished result next := by
  -- the number of rounds that are left
  generalize left : multiplication.rounds = rounds
  induction rounds generalizing multiplication state with
  | zero =>
      have stops := valid.stops_of_rounds left
      obtain ⟨next, path, there⟩ := program.leaves valid here stops
      exact ⟨next, path, valid.done stops ▸ there⟩
  | succ rounds inductionHypothesis =>
      by_cases stops : multiplication.Stops
      · obtain ⟨next, path, there⟩ := program.leaves valid here stops
        exact ⟨next, path, valid.done stops ▸ there⟩
      have turned := valid.turned fun zero => stops (.inl zero)
      have fewer : multiplication.turned.rounds = rounds := by
        rw [turned_rounds, left, Nat.add_sub_cancel]
      by_cases last : multiplication.turned.rounds = 0
      · obtain ⟨next, path, there⟩ := program.ends valid here stops last
        have complete := turned.done (turned.stops_of_rounds last)
        exact ⟨next, path, complete ▸ there⟩
      · obtain ⟨middle, path, there⟩ := program.turns valid here stops last
        obtain ⟨next, rest, done⟩ := inductionHypothesis turned there fewer
        exact ⟨next, path.trans rest, done⟩

end Program

end Multiplication

end Foundation
end EchelonSbi
