import EchelonSbi.Foundation.Gaps
import Mathlib.Algebra.BigOperators.Group.List.Basic
import Mathlib.Algebra.Ring.Nat

/-!
# Regions one behind the other

Regions of given lengths that leave no gap between each other.  The only gap of any
length is the one behind the last of them, so first fit goes there.
-/

namespace EchelonSbi
namespace Foundation
namespace Region

/-- Regions of these lengths, one behind the other. -/
def tiles (low : Nat) : List Nat → List Region
  | [] => []
  | length :: rest => ⟨low, length⟩ :: tiles (low + length) rest

variable {low high : Nat} {lengths : List Nat} {gap : Region}

theorem length_of_mem_tiles
    {region : Region}
    (present : region ∈ tiles low lengths) :
    region.length ∈ lengths := by
  induction lengths generalizing low with
  | nil => cases present
  | cons length rest inductionHypothesis =>
      rcases List.mem_cons.mp present with rfl | later
      · exact List.mem_cons_self
      · exact List.mem_cons_of_mem _ (inductionHypothesis later)

theorem tiles_stacked
    (room : low + lengths.sum ≤ high) :
    Stacked high low (tiles low lengths) := by
  induction lengths generalizing low with
  | nil => simpa [tiles, Stacked] using room
  | cons length rest inductionHypothesis =>
      rw [List.sum_cons, ← Nat.add_assoc] at room
      exact ⟨Nat.le_refl _, inductionHypothesis room⟩

/-- Between the regions there are gaps of no length, and one gap is behind them. -/
theorem gaps_tiles :
    gaps high low (tiles low lengths) =
      (tiles low lengths).map (fun region => ⟨region.start, 0⟩) ++
        [⟨low + lengths.sum, high - (low + lengths.sum)⟩] := by
  induction lengths generalizing low with
  | nil => simp [tiles, gaps]
  | cons length rest inductionHypothesis =>
      have behind := @inductionHypothesis (low + length)
      rw [Nat.add_assoc, ← List.sum_cons] at behind
      simp only [tiles, gaps, List.map_cons, List.cons_append, Nat.sub_self, stop]
      rw [behind]

/-- A gap between regions without gaps has no length, or is behind all of them. -/
theorem isGap_tiles
    (room : low + lengths.sum ≤ high)
    (nonempty : ∀ length ∈ lengths, 0 < length)
    (isGap : IsGap {region | region ∈ tiles low lengths} low high gap) :
    gap.length = 0 ∨ gap = ⟨low + lengths.sum, high - (low + lengths.sum)⟩ := by
  have present := (mem_gaps_iff (tiles_stacked room)
    (fun region member => nonempty _ (length_of_mem_tiles member))).mpr isGap
  rw [gaps_tiles, List.mem_append, List.mem_map, List.mem_singleton] at present
  apply present.imp_left
  rintro ⟨region, -, rfl⟩
  rfl

/-- Behind all regions there is a gap. -/
theorem isGap_behind_tiles
    (room : low + lengths.sum ≤ high)
    (nonempty : ∀ length ∈ lengths, 0 < length) :
    IsGap {region | region ∈ tiles low lengths} low high
      ⟨low + lengths.sum, high - (low + lengths.sum)⟩ := by
  apply (mem_gaps_iff (tiles_stacked room)
    (fun region member => nonempty _ (length_of_mem_tiles member))).mp
  rw [gaps_tiles]
  exact List.mem_append_right _ (List.mem_singleton_self _)

/-- First fit goes behind all regions. -/
theorem lowestGap_tiles_iff
    {size start : Nat}
    (room : low + lengths.sum ≤ high)
    (nonempty : ∀ length ∈ lengths, 0 < length)
    (positive : 0 < size) :
    LowestGap {region | region ∈ tiles low lengths} low high size start ↔
      start = low + lengths.sum ∧ start + size ≤ high := by
  constructor
  · rintro ⟨⟨gap, isGap, fits, rfl⟩, -⟩
    rcases isGap_tiles room nonempty isGap with none_ | rfl
    · omega
    · refine ⟨rfl, ?_⟩
      simp only at fits ⊢
      omega
  · rintro ⟨rfl, fits⟩
    refine ⟨⟨_, isGap_behind_tiles room nonempty, ?_, rfl⟩, ?_⟩
    · simp only
      omega
    · rintro other ⟨gap, isGap, large, rfl⟩
      rcases isGap_tiles room nonempty isGap with none_ | rfl
      · omega
      · exact Nat.le_refl _

end Region
end Foundation
end EchelonSbi
