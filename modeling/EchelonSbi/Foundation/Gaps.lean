import EchelonSbi.Foundation.Region
import Mathlib.Data.List.Pairwise
import Mathlib.Order.Bounds.Basic

/-!
# Gaps between regions

Regions between two addresses leave gaps: each starts at the lower address or
at the end of a region, and stops at the next start of a region or at the upper
address.  `IsGap` says so of a set of regions, and `gaps` lists them for
regions in order.  Where a request goes under first fit is then a property of
the set alone.
-/

namespace EchelonSbi
namespace Foundation
namespace Region

/-- The first address behind a region. -/
def stop (region : Region) : Nat :=
  region.start + region.length

/-- A gap that a set of regions leaves between two addresses. -/
structure IsGap
    (regions : Set Region) (low high : Nat) (gap : Region) : Prop where
  starts : gap.start = low ∨ ∃ region ∈ regions, gap.start = region.stop
  stops : IsLeast
    {stop | gap.start ≤ stop ∧
      (stop = high ∨ ∃ region ∈ regions, stop = region.start)} gap.stop

/-- The lowest gap of at least `size` addresses starts at `start`. -/
def LowestGap
    (regions : Set Region) (low high size start : Nat) : Prop :=
  IsLeast
    {start | ∃ gap, IsGap regions low high gap ∧ size ≤ gap.length ∧
      gap.start = start} start

/-- The regions lie in order between two addresses. -/
def Stacked (high : Nat) : Nat → List Region → Prop
  | low, [] => low ≤ high
  | low, region :: rest => low ≤ region.start ∧ Stacked high region.stop rest

/-- The gaps between regions in order. -/
def gaps (high : Nat) : Nat → List Region → List Region
  | low, [] => [⟨low, high - low⟩]
  | low, region :: rest =>
      ⟨low, region.start - low⟩ :: gaps high region.stop rest

section Stacked

variable {low high size : Nat} {regions : List Region} {gap : Region}

theorem Stacked.low_le_high (stacked : Stacked high low regions) :
    low ≤ high := by
  induction regions generalizing low with
  | nil => exact stacked
  | cons region rest inductionHypothesis =>
      have above := inductionHypothesis stacked.2
      have := stacked.1
      unfold stop at above
      omega

theorem Stacked.bounds
    (stacked : Stacked high low regions)
    {region : Region}
    (present : region ∈ regions) :
    low ≤ region.start ∧ region.stop ≤ high := by
  induction regions generalizing low with
  | nil => simp at present
  | cons first rest inductionHypothesis =>
      obtain ⟨lowBound, restStacked⟩ := stacked
      rcases List.mem_cons.mp present with rfl | inRest
      · exact ⟨lowBound, restStacked.low_le_high⟩
      · obtain ⟨restLow, restHigh⟩ := inductionHypothesis restStacked inRest
        unfold stop at restLow
        exact ⟨by omega, restHigh⟩

/-- A gap behind the first region is a gap of the rest. -/
theorem isGap_cons_of_le
    {first : Region}
    (nonempty : 0 < first.length)
    (behind : first.stop ≤ gap.start) :
    {stop | gap.start ≤ stop ∧ (stop = high ∨
        ∃ region ∈ {region | region ∈ first :: regions},
          stop = region.start)} =
      {stop | gap.start ≤ stop ∧ (stop = high ∨
        ∃ region ∈ {region | region ∈ regions}, stop = region.start)} := by
  ext stop
  simp only [Set.mem_ofPred_eq, List.mem_cons, exists_eq_or_imp]
  apply and_congr_right
  intro above
  apply or_congr_right
  apply or_iff_right
  rintro rfl
  unfold Region.stop at behind
  omega

/-- The listed gaps are all gaps. -/
theorem mem_gaps_iff
    (stacked : Stacked high low regions)
    (nonempty : ∀ region ∈ regions, 0 < region.length) :
    gap ∈ gaps high low regions ↔
      IsGap {region | region ∈ regions} low high gap := by
  induction regions generalizing low with
  | nil =>
      have room : low ≤ high := stacked
      have stops : IsLeast {stop | low ≤ stop ∧ (stop = high ∨
          ∃ region ∈ {region : Region | region ∈ []}, stop = region.start)}
          high := by
        refine ⟨⟨room, .inl rfl⟩, ?_⟩
        rintro stop ⟨-, rfl | ⟨region, absent, -⟩⟩
        · exact le_rfl
        · simp at absent
      rw [gaps, List.mem_singleton]
      constructor
      · rintro rfl
        refine ⟨.inl rfl, ?_⟩
        rw [show Region.stop ⟨low, high - low⟩ = high by
          simp only [stop]; omega]
        exact stops
      · rintro ⟨here | ⟨region, absent, -⟩, least⟩
        · rw [here] at least
          have ends := least.unique stops
          rw [stop, here] at ends
          rw [← here, ← ends, here, Nat.add_sub_cancel_left]
          exact Region.ext here rfl
        · simp at absent
  | cons first rest inductionHypothesis =>
      obtain ⟨lowBound, restStacked⟩ := stacked
      have firstNonempty := nonempty first List.mem_cons_self
      have restNonempty : ∀ region ∈ rest, 0 < region.length :=
        fun region present => nonempty region (List.mem_cons_of_mem _ present)
      have stops : IsLeast {stop | low ≤ stop ∧ (stop = high ∨
          ∃ region ∈ {region | region ∈ first :: rest},
            stop = region.start)} first.start := by
        refine ⟨⟨lowBound, .inr ⟨first, List.mem_cons_self, rfl⟩⟩, ?_⟩
        rintro stop ⟨-, rfl | ⟨region, present, rfl⟩⟩
        · have := restStacked.low_le_high
          unfold Region.stop at this
          omega
        · rcases List.mem_cons.mp present with rfl | inRest
          · exact le_rfl
          · have := (restStacked.bounds inRest).1
            unfold Region.stop at this
            omega
      rw [gaps, List.mem_cons, inductionHypothesis restStacked restNonempty]
      constructor
      · rintro (rfl | ⟨starts, least⟩)
        · refine ⟨.inl rfl, ?_⟩
          rw [show Region.stop ⟨low, first.start - low⟩ = first.start by
            simp only [stop]; omega]
          exact stops
        · have behind : first.stop ≤ gap.start := by
            rcases starts with here | ⟨region, present, here⟩
            · exact here.ge
            · have := (restStacked.bounds present).1
              rw [here]
              unfold Region.stop at *
              omega
          refine ⟨.inr ?_, ?_⟩
          · rcases starts with here | ⟨region, present, here⟩
            · exact ⟨first, List.mem_cons_self, here⟩
            · exact ⟨region, List.mem_cons_of_mem _ present, here⟩
          · rw [isGap_cons_of_le firstNonempty behind]
            exact least
      · rintro ⟨here | ⟨region, present, here⟩, least⟩
        · left
          rw [here] at least
          have ends := least.unique stops
          rw [stop, here] at ends
          exact Region.ext here (by simp only; omega)
        · right
          have behind : first.stop ≤ gap.start := by
            rw [here]
            rcases List.mem_cons.mp present with rfl | inRest
            · exact le_rfl
            · have := (restStacked.bounds inRest).1
              unfold Region.stop at *
              omega
          rw [isGap_cons_of_le firstNonempty behind] at least
          refine ⟨?_, least⟩
          rcases List.mem_cons.mp present with rfl | inRest
          · exact .inl here
          · exact .inr ⟨region, inRest, here⟩

/-- Gaps are listed from the lowest one up. -/
theorem gaps_ascending (stacked : Stacked high low regions) :
    (gaps high low regions).Pairwise fun left right =>
      left.start ≤ right.start := by
  have above : ∀ {low : Nat} {regions : List Region},
      Stacked high low regions → ∀ gap ∈ gaps high low regions,
        low ≤ gap.start := by
    intro low regions stacked gap present
    induction regions generalizing low with
    | nil =>
        rw [gaps, List.mem_singleton] at present
        rw [present]
    | cons first rest inductionHypothesis =>
        rcases List.mem_cons.mp present with rfl | inRest
        · exact le_rfl
        · have := inductionHypothesis stacked.2 inRest
          have := stacked.1
          unfold stop at *
          omega
  induction regions generalizing low with
  | nil => exact List.pairwise_singleton _ _
  | cons first rest inductionHypothesis =>
      refine List.pairwise_cons.mpr ⟨?_, inductionHypothesis stacked.2⟩
      intro gap present
      have := above stacked.2 gap present
      have := stacked.1
      unfold stop at *
      simp only
      omega

/-- The first gap listed that is long enough is the lowest one. -/
theorem lowestGap_of_find
    (stacked : Stacked high low regions)
    (nonempty : ∀ region ∈ regions, 0 < region.length)
    (found : (gaps high low regions).find? (fun gap => size ≤ gap.length) =
      some gap) :
    LowestGap {region | region ∈ regions} low high size gap.start := by
  obtain ⟨fits, before, after, listed, tooShort⟩ :=
    List.find?_eq_some_iff_append.mp found
  have ascending := gaps_ascending stacked
  rw [listed] at ascending
  constructor
  · refine ⟨gap, (mem_gaps_iff stacked nonempty).mp ?_,
      of_decide_eq_true fits, rfl⟩
    rw [listed]
    exact List.mem_append_right _ List.mem_cons_self
  · rintro start ⟨other, isGap, otherFits, rfl⟩
    have present := (mem_gaps_iff stacked nonempty).mpr isGap
    rw [listed, List.mem_append, List.mem_cons] at present
    rcases present with inBefore | rfl | inAfter
    · have := tooShort other inBefore
      simp only [otherFits, decide_true, Bool.not_true, Bool.false_eq_true]
        at this
    · exact le_rfl
    · have behind := (List.pairwise_append.mp ascending).2.1
      exact (List.pairwise_cons.mp behind).1 other inAfter

/-- Where no gap is listed as long enough, there is none. -/
theorem no_gap_of_find
    (stacked : Stacked high low regions)
    (nonempty : ∀ region ∈ regions, 0 < region.length)
    (missed : (gaps high low regions).find? (fun gap => size ≤ gap.length) =
      none)
    (isGap : IsGap {region | region ∈ regions} low high gap) :
    gap.length < size := by
  have present := (mem_gaps_iff stacked nonempty).mpr isGap
  have tooShort := List.find?_eq_none.mp missed gap present
  simpa using tooShort

end Stacked

end Region
end Foundation
end EchelonSbi
