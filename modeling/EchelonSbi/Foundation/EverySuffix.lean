import Mathlib.Data.List.Basic

/-!
# Properties of every suffix of a list

A list of operations that is executed from the left is, at each moment, a
suffix of what it was at first.  A property of each first operation together
with what follows it is then an invariant of the execution.
-/

namespace EchelonSbi
namespace Foundation

/-- Every element, together with the elements after it, satisfies `holds`. -/
def EverySuffix (holds : α → List α → Prop) : List α → Prop
  | [] => True
  | first :: rest => holds first rest ∧ EverySuffix holds rest

variable {holds : α → List α → Prop} {first : α} {left rest : List α}

@[simp]
theorem everySuffix_nil : EverySuffix holds [] :=
  trivial

@[simp]
theorem everySuffix_cons :
    EverySuffix holds (first :: rest) ↔
      holds first rest ∧ EverySuffix holds rest :=
  Iff.rfl

/-- A property of the elements alone. -/
theorem everySuffix_iff_forall
    {property : α → Prop} :
    EverySuffix (fun x _ => property x) rest ↔ ∀ x ∈ rest, property x := by
  induction rest with
  | nil => simp
  | cons x rest inductionHypothesis => simp [inductionHypothesis]

/-- Elements that satisfy the property whatever follows can be put in front. -/
theorem EverySuffix.append
    (suffixes : EverySuffix holds rest)
    (free : ∀ x ∈ left, ∀ after, holds x after) :
    EverySuffix holds (left ++ rest) := by
  induction left with
  | nil => exact suffixes
  | cons x left inductionHypothesis =>
      exact ⟨free x (by simp) _,
        inductionHypothesis fun y member => free y (by simp [member])⟩

/-- A fold from the right passes over elements that it ignores. -/
theorem foldr_append_ignored
    {f : α → β → β}
    {initial : β}
    (ignored : ∀ x ∈ left, ∀ value, f x value = value) :
    (left ++ rest).foldr f initial = rest.foldr f initial := by
  induction left with
  | nil => rfl
  | cons x left inductionHypothesis =>
      rw [List.cons_append, List.foldr_cons, ignored x (by simp),
        inductionHypothesis fun y member => ignored y (by simp [member])]

/-- What each block of a list preserves, the whole list preserves. -/
theorem flatMap_append_preserves
    {motive : List β → Prop}
    {blocks : List α}
    {code : α → List β}
    {rest : List β}
    (block : ∀ x ∈ blocks, ∀ after, motive after → motive (code x ++ after))
    (finally_ : motive rest) :
    motive (blocks.flatMap code ++ rest) := by
  induction blocks with
  | nil => exact finally_
  | cons x blocks inductionHypothesis =>
      rw [List.flatMap_cons, List.append_assoc]
      exact block x (by simp) _
        (inductionHypothesis fun y member => block y (by simp [member]))

end Foundation
end EchelonSbi
