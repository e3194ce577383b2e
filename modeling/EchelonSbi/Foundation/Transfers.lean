import Mathlib.Logic.Function.Basic
import Mathlib.Logic.Nontrivial.Basic
import Mathlib.Data.List.Pairwise
import Mathlib.Data.Nat.ModEq

/-!
# Payloads copied one after the other

A loader copies payloads forwards, cell by cell, in a memory whose addresses
wrap at `size`, and leaves others in place.  The payloads arrive whole, whatever
they hold, exactly when no copy writes where another payload is or will be read
from, or ahead of itself.
-/

namespace EchelonSbi
namespace Foundation

/-- A payload, and where it is expected in the end. -/
structure Payload where
  source : Nat
  target : Nat
  length : Nat
  /-- The loader copies it.  Otherwise it is left in place. -/
  moved : Bool
  deriving DecidableEq, Repr

/-- The memory after the first cells of a forward copy. -/
def copied (size : Nat) (memory : Nat → α) (target source : Nat) : Nat → Nat → α
  | 0 => memory
  | count + 1 =>
      let before := copied size memory target source count
      Function.update before ((target + count) % size) (before ((source + count) % size))

namespace Payload

variable (size : Nat) (payload : Payload)

/-- A cell of the payload before the copies. -/
def sourceCell (i : Nat) : Nat :=
  (payload.source + i) % size

/-- The cell of the payload after the copies. -/
def targetCell (i : Nat) : Nat :=
  (payload.target + i) % size

/-- The loader's treatment of one payload. -/
def move (memory : Nat → α) : Nat → α :=
  if payload.moved then copied size memory payload.target payload.source payload.length
  else memory

/-- The payload is at its target what it was at its source. -/
def Kept (before after : Nat → α) : Prop :=
  ∀ i < payload.length,
    after (payload.targetCell size i) = before (payload.sourceCell size i)

/-- The two payloads come from different cells. -/
def SourcesApart (first second : Payload) : Prop :=
  ∀ i < first.length, ∀ j < second.length,
    first.sourceCell size i ≠ second.sourceCell size j

/-- The two payloads are expected in different cells. -/
def TargetsApart (first second : Payload) : Prop :=
  ∀ i < first.length, ∀ j < second.length,
    first.targetCell size i ≠ second.targetCell size j

/-- A copy of the first payload does not write where the second comes from. -/
def Spares (first second : Payload) : Prop :=
  first.moved = true → ∀ i < first.length, ∀ j < second.length,
    first.targetCell size i ≠ second.sourceCell size j

/-- A copy of the payload does not write where it has yet to read. -/
def ReadsAhead : Prop :=
  payload.moved = true → ∀ i j, i < j → j < payload.length →
    payload.targetCell size i ≠ payload.sourceCell size j

/-- A payload that is left in place is expected in place. -/
def Still : Prop :=
  payload.moved = false → ∀ i < payload.length,
    payload.targetCell size i = payload.sourceCell size i

instance : Std.Symm (TargetsApart size) :=
  ⟨fun _ _ apart j jInside i iInside => (apart i iInside j jInside).symm⟩

end Payload

/-- The memory after all payloads. -/
def moveAll (size : Nat) : List Payload → (Nat → α) → Nat → α
  | [], memory => memory
  | payload :: rest, memory => moveAll size rest (payload.move size memory)

/-- Nothing of a plan gets in the way of anything else. -/
structure Clear (size : Nat) (plan : List Payload) : Prop where
  targets : plan.Pairwise (Payload.TargetsApart size)
  /-- No copy writes over a payload that is still to come. -/
  sources : plan.Pairwise (Payload.Spares size)
  ahead : ∀ payload ∈ plan, payload.ReadsAhead size
  still : ∀ payload ∈ plan, payload.Still size

section Copies

/-! ## One copy -/

variable {size : Nat} {memory : Nat → α} {target source : Nat}

/-- A copy changes nothing but its target. -/
theorem copied_outside
    {count address : Nat}
    (outside : ∀ i < count, (target + i) % size ≠ address) :
    copied size memory target source count address = memory address := by
  induction count with
  | zero => rfl
  | succ count inductionHypothesis =>
      have others := inductionHypothesis fun i inside => outside i (by omega)
      rw [copied, Function.update_of_ne (outside count (by omega)).symm, others]

/-- Cells of one stretch are distinct when the stretch is no longer than the
memory. -/
theorem cell_inj
    {count start i j : Nat}
    (fits : count ≤ size)
    (iInside : i < count)
    (jInside : j < count)
    (same : (start + i) % size = (start + j) % size) :
    i = j := by
  have congruent : i ≡ j [MOD size] := Nat.ModEq.add_left_cancel' start same
  exact congruent.eq_of_lt_of_lt (by omega) (by omega)

/-- Stretches that do not wrap and do not meet have no cell in common. -/
theorem cells_apart
    {start other count others : Nat}
    (fits : start + count ≤ size)
    (otherFits : other + others ≤ size)
    (apart : start + count ≤ other ∨ other + others ≤ start) :
    ∀ i < count, ∀ j < others, (start + i) % size ≠ (other + j) % size := by
  intro i iInside j jInside
  rw [Nat.mod_eq_of_lt (by omega), Nat.mod_eq_of_lt (by omega)]
  omega

/-- What a copy wrote stays as it goes on. -/
theorem copied_written
    {count i : Nat}
    (fits : count ≤ size)
    (inside : i < count) :
    copied size memory target source count ((target + i) % size) =
      copied size memory target source i ((source + i) % size) := by
  induction count with
  | zero => exact absurd inside (Nat.not_lt_zero _)
  | succ count inductionHypothesis =>
      by_cases last : i = count
      · rw [last, copied, Function.update_self]
      · have other : (target + i) % size ≠ (target + count) % size := fun same =>
          last (cell_inj fits inside (Nat.lt_succ_self _) same)
        rw [copied, Function.update_of_ne other]
        exact inductionHypothesis (by omega) (by omega)

/-- A copy that does not write ahead of itself copies what was there. -/
theorem copied_forward
    {count i : Nat}
    (fits : count ≤ size)
    (ahead : ∀ i j, i < j → j < count → (target + i) % size ≠ (source + j) % size)
    (inside : i < count) :
    copied size memory target source count ((target + i) % size) =
      memory ((source + i) % size) := by
  rw [copied_written fits inside]
  exact copied_outside fun k before => ahead k i before inside

/-- A copy that writes ahead of itself reads what it wrote. -/
theorem copied_behind
    (memory : Nat → α)
    {count i j : Nat}
    (fits : count ≤ size)
    (before : i < j)
    (inside : j < count)
    (ahead : (target + i) % size = (source + j) % size) :
    copied size memory target source count ((target + j) % size) =
      copied size memory target source count ((target + i) % size) := by
  rw [copied_written fits inside, ← ahead, copied_written (by omega) before,
    copied_written fits (by omega)]

end Copies

section Plans

/-! ## A plan that is clear -/

variable {size : Nat} {plan rest : List Payload} (memory : Nat → α) {address : Nat}

namespace Payload

variable {payload : Payload}

theorem move_outside
    (outside : payload.moved = true →
      ∀ i < payload.length, payload.targetCell size i ≠ address) :
    payload.move size memory address = memory address := by
  cases moved : payload.moved with
  | true =>
      rw [move, if_pos moved]
      exact copied_outside (outside moved)
  | false => rw [move, if_neg (by simp [moved])]

/-- One payload on its own. -/
theorem move_kept
    (fits : payload.length ≤ size)
    (ahead : payload.ReadsAhead size)
    (still : payload.Still size) :
    payload.Kept size memory (payload.move size memory) := by
  intro i inside
  cases moved : payload.moved with
  | true =>
      rw [move, if_pos moved]
      exact copied_forward fits (ahead moved) inside
  | false => rw [move, if_neg (by simp [moved]), still moved i inside]

end Payload

/-- A cell that is the target of no copy keeps its contents. -/
theorem moveAll_outside
    (outside : ∀ payload ∈ plan, payload.moved = true →
      ∀ i < payload.length, payload.targetCell size i ≠ address) :
    moveAll size plan memory address = memory address := by
  induction plan generalizing memory with
  | nil => rfl
  | cons payload rest inductionHypothesis =>
      rw [List.forall_mem_cons] at outside
      rw [moveAll, inductionHypothesis _ outside.2, payload.move_outside memory outside.1]

/-- A clear plan keeps every payload. -/
theorem Clear.kept
    (clear : Clear size plan)
    (fits : ∀ payload ∈ plan, payload.length ≤ size) :
    ∀ payload ∈ plan, payload.Kept size memory (moveAll size plan memory) := by
  obtain ⟨targets, sources, ahead, still⟩ := clear
  induction plan generalizing memory with
  | nil => exact fun payload member => absurd member List.not_mem_nil
  | cons first rest inductionHypothesis =>
      rw [List.pairwise_cons] at targets sources
      rw [List.forall_mem_cons] at ahead still fits ⊢
      refine ⟨fun i inside => ?_, fun payload member i inside => ?_⟩
      · have later := moveAll_outside (first.move size memory) fun other member _ j within =>
          (targets.1 other member i inside j within).symm
        rw [moveAll, later]
        exact first.move_kept memory fits.1 ahead.1 still.1 i inside
      · have here := inductionHypothesis (first.move size memory) fits.2 targets.2
          sources.2 ahead.2 still.2 payload member i inside
        rw [moveAll, here]
        exact first.move_outside memory fun moved j within =>
          sources.1 payload member moved j within i inside

/-- Copies from below to stretches behind all sources do not get in each other's way. -/
theorem clear_of_stretches
    (moved : ∀ payload ∈ plan, payload.moved = true)
    (fits : ∀ payload ∈ plan, payload.target + payload.length ≤ size)
    (below : ∀ payload ∈ plan, ∀ other ∈ plan,
      payload.source + payload.length ≤ other.target)
    (apart : plan.Pairwise fun first second =>
      first.target + first.length ≤ second.target ∨
        second.target + second.length ≤ first.target) :
    Clear size plan := by
  have sources (first second : Payload) (here : first ∈ plan)
      (there : second ∈ plan) :
      ∀ i < first.length, ∀ j < second.length,
        first.targetCell size i ≠ second.sourceCell size j := by
    have behind := below second there first here
    have inside := fits first here
    exact cells_apart inside (by omega) (.inr behind)
  refine ⟨?_, ?_, ?_, ?_⟩
  · exact apart.imp_of_mem fun here there separate =>
      cells_apart (fits _ here) (fits _ there) separate
  · exact apart.imp_of_mem fun here there _ _ => sources _ _ here there
  · intro payload here _ i j before inside
    exact sources payload payload here here i (before.trans inside) j inside
  · intro payload here still
    rw [moved payload here] at still
    cases still

end Plans

section Exactness

/-! ## A plan that is not clear -/

variable {size : Nat} {plan rest : List Payload}

/-- A payload that is read where nothing was written is read unchanged. -/
theorem moveAll_reads
    (memory : Nat → α)
    (fits : ∀ payload ∈ plan, payload.length ≤ size)
    (targets : plan.Pairwise (Payload.TargetsApart size))
    {payload : Payload}
    (member : payload ∈ plan)
    (moved : payload.moved = true)
    {j : Nat}
    (inside : j < payload.length)
    (unwritten : ∀ other ∈ plan, other.moved = true → ∀ i < other.length,
      other.targetCell size i ≠ payload.sourceCell size j) :
    moveAll size plan memory (payload.targetCell size j) =
      memory (payload.sourceCell size j) := by
  induction plan generalizing memory with
  | nil => exact absurd member List.not_mem_nil
  | cons first rest inductionHypothesis =>
      rw [List.pairwise_cons] at targets
      rw [List.forall_mem_cons] at fits unwritten
      rw [moveAll]
      rcases List.mem_cons.mp member with rfl | member
      · rw [moveAll_outside _ fun other later _ i within =>
          (targets.1 other later j inside i within).symm, Payload.move, if_pos moved]
        rw [Payload.targetCell, copied_written fits.1 inside]
        exact copied_outside fun k before => unwritten.1 moved k (by omega)
      · rw [inductionHypothesis _ fits.2 targets.2 member unwritten.2]
        exact first.move_outside memory unwritten.1

/-- The copies do not look at what they copy. -/
theorem copied_map
    (contents : α → β)
    (memory : Nat → α)
    (target source count : Nat) :
    copied size (contents ∘ memory) target source count =
      contents ∘ copied size memory target source count := by
  induction count with
  | zero => rfl
  | succ count inductionHypothesis =>
      rw [copied, copied, inductionHypothesis]
      exact (Function.comp_update ..).symm

theorem moveAll_map
    (contents : α → β)
    (memory : Nat → α) :
    moveAll size plan (contents ∘ memory) = contents ∘ moveAll size plan memory := by
  induction plan generalizing memory with
  | nil => rfl
  | cons payload rest inductionHypothesis =>
      have moved : payload.move size (contents ∘ memory) =
          contents ∘ payload.move size memory := by
        rw [Payload.move, Payload.move]
        split
        · exact copied_map contents memory _ _ _
        · rfl
      rw [moveAll, moveAll, moved, inductionHypothesis]

/-- What is kept whatever the cells hold is kept cell by cell. -/
theorem kept_cells
    [Nontrivial β]
    {payload : Payload}
    (kept : ∀ contents : Nat → β, payload.Kept size contents (moveAll size plan contents)) :
    payload.Kept size id (moveAll size plan id) := by
  intro i inside
  obtain ⟨one, other, differ⟩ := exists_pair_ne β
  -- contents that mark the cell that arrived
  obtain ⟨marks, arrived, elsewhere⟩ : ∃ marks : Nat → β,
      marks (moveAll size plan id (payload.targetCell size i)) = one ∧
        ∀ address ≠ moveAll size plan id (payload.targetCell size i),
          marks address = other :=
    ⟨Function.update (fun _ => other) _ one, Function.update_self .., fun _ differs =>
      Function.update_of_ne differs ..⟩
  have here := kept marks i inside
  rw [← Function.comp_id marks, moveAll_map, Function.comp_apply, arrived] at here
  by_contra wrong
  exact differ (here.trans (elsewhere _ (Ne.symm wrong)))

section Clearing

variable {memory : Nat → Nat}

/-- Payloads from different cells end in different cells. -/
theorem targets_of_kept
    {after : Nat → Nat}
    (distinct : plan.Pairwise (Payload.SourcesApart size))
    (kept : ∀ payload ∈ plan, payload.Kept size id after) :
    plan.Pairwise (Payload.TargetsApart size) := by
  refine distinct.imp_of_mem fun {first second} firstIn secondIn apart i iInside j jInside
    same => apart i iInside j jInside ?_
  have arrived := kept first firstIn i iInside
  rw [same, kept second secondIn j jInside] at arrived
  exact arrived.symm

/-- A kept payload is copied without writing ahead of itself. -/
theorem ahead_of_kept
    {payload : Payload}
    (fits : payload.length ≤ size)
    (kept : ∀ i < payload.length,
      copied size memory payload.target payload.source payload.length
        (payload.targetCell size i) = payload.sourceCell size i)
    {i j : Nat}
    (before : i < j)
    (inside : j < payload.length) :
    payload.targetCell size i ≠ payload.sourceCell size j := by
  intro same
  have behind := copied_behind memory fits before inside same
  have arrived := kept j inside
  rw [Payload.targetCell, behind] at arrived
  have earlier := kept i (by omega)
  rw [Payload.targetCell, arrived] at earlier
  have equal := cell_inj fits inside (by omega) earlier
  omega

/-- In a plan that keeps its payloads no copy is in the way of a later one or of
itself. -/
theorem unobstructed_of_kept
    (memory : Nat → Nat)
    (fits : ∀ payload ∈ plan, payload.length ≤ size)
    (distinct : plan.Pairwise (Payload.SourcesApart size))
    (targets : plan.Pairwise (Payload.TargetsApart size))
    (still : ∀ payload ∈ plan, payload.Still size)
    (kept : ∀ payload ∈ plan, payload.Kept size id (moveAll size plan memory)) :
    plan.Pairwise (Payload.Spares size) ∧
      ∀ payload ∈ plan, payload.ReadsAhead size := by
  induction plan generalizing memory with
  | nil => exact ⟨.nil, fun payload member => absurd member List.not_mem_nil⟩
  | cons first rest inductionHypothesis =>
      rw [List.pairwise_cons] at distinct targets
      rw [List.forall_mem_cons] at fits still kept
      obtain ⟨sources, ahead⟩ := inductionHypothesis (first.move size memory) fits.2
        distinct.2 targets.2 still.2 kept.2
      -- the rest of the plan leaves the cells of the first payload alone
      have apart (i : Nat) (inside : i < first.length) : ∀ other ∈ rest,
          other.moved = true → ∀ k < other.length,
            other.targetCell size k ≠ first.targetCell size i :=
        fun other member _ k within => (targets.1 other member i inside k within).symm
      have arrived (i : Nat) (inside : i < first.length) :
          first.move size memory (first.targetCell size i) = first.sourceCell size i := by
        rw [← moveAll_outside (first.move size memory) (apart i inside)]
        exact kept.1 i inside
      rw [List.pairwise_cons, List.forall_mem_cons]
      refine ⟨⟨fun second member moved i iInside j jInside same => ?_, sources⟩,
        fun moved i j before inside => ?_, ahead⟩
      · cases second_moved : second.moved with
        | true =>
            have read := moveAll_reads (first.move size memory) fits.2 targets.2 member
              second_moved jInside (by rw [← same]; exact apart i iInside)
            rw [← same, arrived i iInside] at read
            exact distinct.1 second member i iInside j jInside
              (read.symm.trans (kept.2 second member j jInside))
        | false =>
            exact targets.1 second member i iInside j jInside
              (same.trans (still.2 second member second_moved j jInside).symm)
      · rw [Payload.move, if_pos moved] at arrived
        exact ahead_of_kept fits.1 arrived before inside

/-- A plan for payloads from different cells that keeps them, whatever they
hold, is clear. -/
theorem clear_of_kept
    [Nontrivial β]
    (fits : ∀ payload ∈ plan, payload.length ≤ size)
    (distinct : plan.Pairwise (Payload.SourcesApart size))
    (kept : ∀ contents : Nat → β, ∀ payload ∈ plan,
      payload.Kept size contents (moveAll size plan contents)) :
    Clear size plan := by
  have cells : ∀ payload ∈ plan, payload.Kept size id (moveAll size plan id) :=
    fun payload member => kept_cells fun contents => kept contents payload member
  have targets := targets_of_kept distinct cells
  have still : ∀ payload ∈ plan, payload.Still size := by
    intro payload member unmoved i inside
    have untouched : moveAll size plan id (payload.targetCell size i) =
        payload.targetCell size i := by
      refine moveAll_outside id fun other otherIn moved k within => ?_
      have different : other ≠ payload := by
        rintro rfl
        rw [moved] at unmoved
        cases unmoved
      exact targets.forall otherIn member different k within i inside
    exact untouched.symm.trans (cells payload member i inside)
  obtain ⟨sources, ahead⟩ :=
    unobstructed_of_kept id fits distinct targets still cells
  exact ⟨targets, sources, ahead, still⟩

end Clearing

end Exactness

end Foundation
end EchelonSbi
