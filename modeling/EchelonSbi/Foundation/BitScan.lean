import Mathlib.Data.List.Nodup

/-!
# Passes over the bits of a mask

A pass looks at the lowest bit of a mask, shifts the mask down and goes on.  It
visits the positions of the set bits in increasing order, and a visit may end
the pass early with a result of its own.
-/

namespace EchelonSbi
namespace Foundation

/-- The positions of the set bits of a mask, in increasing order. -/
def setBits (mask : BitVec w) : List Nat :=
  (List.range w).filter mask.getLsbD

@[simp]
theorem mem_setBits {mask : BitVec w} {i : Nat} :
    i ∈ setBits mask ↔ mask.getLsbD i := by
  simp only [setBits, List.mem_filter, List.mem_range, and_iff_right_iff_imp]
  exact BitVec.lt_of_getLsbD

theorem setBits_nodup (mask : BitVec w) : (setBits mask).Nodup :=
  List.nodup_range.filter _

/-- A pass of `turns` turns whose first bit has position `i`. -/
def scanBits (visit : Nat → σ → Except ρ σ) :
    Nat → Nat → BitVec w → σ → Except ρ σ
  | 0, _, _, state => .ok state
  | turns + 1, i, mask, state =>
      if mask &&& 1#w ≠ 0#w then
        match visit i state with
        | .ok next => scanBits visit turns (i + 1) (mask >>> 1) next
        | .error result => .error result
      else scanBits visit turns (i + 1) (mask >>> 1) state

theorem and_one_ne_zero_iff (mask : BitVec w) :
    mask &&& 1#w ≠ 0#w ↔ mask.getLsbD 0 := by
  constructor
  · intro nonzero
    by_contra bit
    apply nonzero
    apply BitVec.eq_of_getLsbD_eq
    intro i _
    rcases Nat.eq_zero_or_pos i with rfl | positive
    · simp [bit]
    · simp [BitVec.getLsbD_one, Nat.pos_iff_ne_zero.mp positive]
  · intro bit zero
    have inside : 0 < w := BitVec.lt_of_getLsbD bit
    have := congrArg (BitVec.getLsbD · 0) zero
    rw [BitVec.getLsbD_and, bit] at this
    simp [inside] at this

/-- The positions still to visit when `turns` turns are left. -/
theorem scanBits_eq_foldlM
    (visit : Nat → σ → Except ρ σ)
    (mask : BitVec w)
    (turns i : Nat)
    (state : σ) :
    scanBits visit turns i (mask >>> i) state =
      ((List.range' i turns).filter mask.getLsbD).foldlM
        (fun state i => visit i state) state := by
  induction turns generalizing i state with
  | zero => rfl
  | succ turns inductionHypothesis =>
      have lowBit : mask >>> i &&& 1#w ≠ 0#w ↔ mask.getLsbD i := by
        rw [and_one_ne_zero_iff]
        simp
      have shifted : mask >>> i >>> 1 = mask >>> (i + 1) :=
        (BitVec.shiftRight_add mask i 1).symm
      rw [scanBits, shifted, List.range'_succ]
      by_cases bit : mask.getLsbD i
      · rw [if_pos (lowBit.mpr bit), List.filter_cons_of_pos bit,
          List.foldlM_cons]
        cases visit i state with
        | ok next => exact inductionHypothesis (i + 1) next
        | error result => rfl
      · rw [if_neg (mt lowBit.mp bit), List.filter_cons_of_neg bit]
        exact inductionHypothesis (i + 1) state

/-- A pass over the whole mask visits exactly its set bits. -/
theorem scanBits_all
    (visit : Nat → σ → Except ρ σ)
    (mask : BitVec w)
    (state : σ) :
    scanBits visit w 0 mask state =
      (setBits mask).foldlM (fun state i => visit i state) state := by
  have whole := scanBits_eq_foldlM visit mask w 0 state
  rwa [BitVec.ushiftRight_zero, ← List.range_eq_range'] at whole

/-- A pass that only tests: it ends early iff some visited position fails. -/
theorem foldlM_check
    (accepts : Nat → Bool)
    (refusal : ρ)
    (positions : List Nat) :
    positions.foldlM
        (fun (_ : Unit) i =>
          if accepts i then Except.ok () else Except.error refusal) () =
      if ∀ i ∈ positions, accepts i then .ok () else .error refusal := by
  induction positions with
  | nil => simp [pure, Except.pure]
  | cons first rest inductionHypothesis =>
      rw [List.foldlM_cons]
      by_cases accepted : accepts first
      · simp [accepted, bind, Except.bind, inductionHypothesis]
      · simp [accepted, bind, Except.bind]

/-- A pass that only collects never ends early. -/
theorem foldlM_collect
    (value : Nat → α)
    (positions : List Nat)
    (collected : List α) :
    positions.foldlM
        (fun collected i => (Except.ok (collected ++ [value i]) : Except ρ (List α)))
        collected =
      .ok (collected ++ positions.map value) := by
  induction positions generalizing collected with
  | nil => simp [pure, Except.pure]
  | cons first rest inductionHypothesis =>
      rw [List.foldlM_cons]
      simpa [bind, Except.bind] using
        inductionHypothesis (collected ++ [value first])

end Foundation
end EchelonSbi
