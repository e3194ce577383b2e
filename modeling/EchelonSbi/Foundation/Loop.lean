/-!
# Loops that may fail to stop

A loop of the source is one function from a state to either the next state or
a result.  `iterate` runs it for a bounded number of turns, and `Returns` says
that some bound is enough.  Nothing here assumes that a loop stops: that is
proved for each loop from its own invariant and measure.
-/

namespace EchelonSbi
namespace Foundation

/-- What one turn of a loop does: go round again, or leave with a result. -/
inductive Turn (σ : Type u) (ρ : Type v) where
  | again (state : σ)
  | leave (result : ρ)

/-- Run a loop body for at most `fuel` turns. -/
def iterate (body : σ → Turn σ ρ) : Nat → σ → Option ρ
  | 0, _ => none
  | fuel + 1, state =>
      match body state with
      | .again next => iterate body fuel next
      | .leave result => some result

/-- The loop entered at `state` leaves with `result`. -/
def Returns (body : σ → Turn σ ρ) (state : σ) (result : ρ) : Prop :=
  ∃ fuel, iterate body fuel state = some result

/-- A larger bound never changes the result of a loop that left. -/
theorem iterate_mono
    {body : σ → Turn σ ρ}
    {fuel : Nat}
    {state : σ}
    {result : ρ}
    (left : iterate body fuel state = some result)
    (extra : Nat) :
    iterate body (fuel + extra) state = some result := by
  induction fuel generalizing state with
  | zero => simp [iterate] at left
  | succ fuel inductionHypothesis =>
      rw [Nat.add_right_comm]
      cases turn : body state with
      | again next =>
          simp only [iterate, turn] at left ⊢
          exact inductionHypothesis left
      | leave value => simpa [iterate, turn] using left

/-- The loop entered at one state comes to another one. -/
inductive Reaches (body : σ → Turn σ ρ) : σ → σ → Prop
  | refl (state : σ) : Reaches body state state
  | again {state next last : σ} :
      body state = .again next →
      Reaches body next last →
      Reaches body state last

namespace Reaches

variable {body : σ → Turn σ ρ} {state middle last : σ}

theorem trans
    (first : Reaches body state middle)
    (second : Reaches body middle last) :
    Reaches body state last := by
  induction first with
  | refl => exact second
  | again turn _ inductionHypothesis => exact .again turn (inductionHypothesis second)

/-- One more turn. -/
theorem tail
    (reached : Reaches body state middle)
    (turn : body middle = .again last) :
    Reaches body state last :=
  reached.trans (.again turn (.refl last))

/-- What every turn keeps holds wherever the loop comes to. -/
theorem keeps
    (invariant : σ → Prop)
    (reached : Reaches body state last)
    (kept :
      ∀ state next, invariant state → body state = .again next → invariant next)
    (start : invariant state) :
    invariant last := by
  induction reached with
  | refl => exact start
  | again turn _ inductionHypothesis => exact inductionHypothesis (kept _ _ start turn)

end Reaches

namespace Returns

variable {body : σ → Turn σ ρ}

/-- A turn that leaves determines the result. -/
theorem of_leave
    {state : σ}
    {result : ρ}
    (turn : body state = .leave result) :
    Returns body state result :=
  ⟨1, by simp [iterate, turn]⟩

/-- A turn that goes round again defers to the next state. -/
theorem of_again
    {state next : σ}
    {result : ρ}
    (turn : body state = .again next)
    (rest : Returns body next result) :
    Returns body state result := by
  obtain ⟨fuel, left⟩ := rest
  exact ⟨fuel + 1, by simp [iterate, turn, left]⟩

/-- A loop leaves with at most one result. -/
theorem unique
    {state : σ}
    {first second : ρ}
    (left : Returns body state first)
    (right : Returns body state second) :
    first = second := by
  obtain ⟨leftFuel, leftRun⟩ := left
  obtain ⟨rightFuel, rightRun⟩ := right
  have leftLong := iterate_mono leftRun rightFuel
  have rightLong := iterate_mono rightRun leftFuel
  rw [Nat.add_comm] at rightLong
  exact Option.some.inj (leftLong.symm.trans rightLong)

/-- A loop leaves at a state that it reaches. -/
theorem exists_reaches
    {state : σ}
    {result : ρ}
    (left : Returns body state result) :
    ∃ last, Reaches body state last ∧ body last = .leave result := by
  obtain ⟨fuel, run⟩ := left
  induction fuel generalizing state with
  | zero => simp [iterate] at run
  | succ fuel inductionHypothesis =>
      cases turn : body state with
      | again next =>
          simp only [iterate, turn] at run
          obtain ⟨last, reached, leaves⟩ := inductionHypothesis run
          exact ⟨last, .again turn reached, leaves⟩
      | leave value =>
          simp only [iterate, turn, Option.some.injEq] at run
          exact ⟨state, .refl state, by rw [turn, run]⟩

/-- A loop leaves if every turn that goes on from a state that it comes to makes a
measure smaller. -/
theorem of_decreasing
    (measure : σ → Nat)
    (state : σ)
    (decreases :
      ∀ middle next, Reaches body state middle → body middle = .again next →
        measure next < measure middle) :
    ∃ result, Returns body state result := by
  induction size : measure state using Nat.strongRecOn generalizing state with
  | ind size inductionHypothesis =>
      cases turn : body state with
      | leave result => exact ⟨result, of_leave turn⟩
      | again next =>
          have smaller := decreases state next (.refl state) turn
          obtain ⟨result, returns⟩ := inductionHypothesis (measure next) (by omega) next
            (fun middle later reached => decreases middle later (.again turn reached)) rfl
          exact ⟨result, of_again turn returns⟩

/-- A loop that reaches a state from which it leaves does so. -/
theorem of_reaches
    {state last : σ}
    {result : ρ}
    (reached : Reaches body state last)
    (leaves : body last = .leave result) :
    Returns body state result := by
  induction reached with
  | refl => exact of_leave leaves
  | again turn _ inductionHypothesis =>
      exact of_again turn (inductionHypothesis leaves)

end Returns

end Foundation
end EchelonSbi
