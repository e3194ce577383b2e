import Mathlib.Order.Basic

/-!
# Regions of addresses

Half-open address ranges and the relation that two of them share no address.
An allocator is safe when the regions it has handed out are pairwise apart.
-/

namespace EchelonSbi
namespace Foundation

/-- The addresses from `start` up to, not including, `start + length`. -/
@[ext]
structure Region where
  start : Nat
  length : Nat
  deriving DecidableEq, Repr

namespace Region

/-- The address lies in the region. -/
def Contains (region : Region) (cell : Nat) : Prop :=
  region.start ≤ cell ∧ cell < region.start + region.length

/-- One region ends before the other one starts. -/
def Apart (left right : Region) : Prop :=
  left.start + left.length ≤ right.start ∨
    right.start + right.length ≤ left.start

/-- The region lies between two addresses. -/
def Within (region : Region) (low high : Nat) : Prop :=
  low ≤ region.start ∧ region.start + region.length ≤ high

instance (left right : Region) : Decidable (left.Apart right) :=
  inferInstanceAs (Decidable (_ ∨ _))

instance (region : Region) (cell : Nat) :
    Decidable (region.Contains cell) :=
  inferInstanceAs (Decidable (_ ∧ _))

/-- Being apart does not depend on the order. -/
theorem Apart.symm {left right : Region} (apart : left.Apart right) :
    right.Apart left :=
  Or.symm apart

/-- Regions that are apart share no address. -/
theorem Apart.not_contains
    {left right : Region}
    {cell : Nat}
    (apart : left.Apart right)
    (inLeft : left.Contains cell) :
    ¬right.Contains cell := by
  unfold Apart Contains at *
  omega

end Region

end Foundation
end EchelonSbi
