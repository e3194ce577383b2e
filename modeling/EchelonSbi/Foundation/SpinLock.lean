import Mathlib.Logic.Function.Basic

/-!
# A lock word and its holders

A spin lock is a word that is zero while the lock is free.  Who holds it is not
in the word: it is where the agents stand in their code.  The rules below
connect the two, one step of one agent at a time.
-/

namespace EchelonSbi
namespace Foundation
namespace SpinLock

variable {word after : Nat} {holds : ι → Prop} {held kept : Prop} {i : ι}

/-- What a step of an agent does to a lock word, where the agent holds the lock
before and after the step as `held` and `kept` say. -/
structure Move (word after : Nat) (held kept : Prop) : Prop where
  gains : kept → held ∨ word = 0
  frees : after = 0 → ¬kept ∧ (word = 0 ∨ held)
  takes : after ≠ 0 → word ≠ 0 ∨ kept
  drops : held → kept ∨ after = 0

/-- A step that has no part in the lock. -/
theorem Move.stays
    (taken : held → word ≠ 0)
    (same : kept ↔ held) :
    Move word word held kept where
  gains keeps := .inl (same.mp keeps)
  frees free := ⟨fun keeps => taken (same.mp keeps) free, .inl free⟩
  takes := .inl
  drops holds := .inl (same.mpr holds)

/-- The free lock is taken. -/
theorem Move.take
    (free : word = 0)
    (keeps : kept) :
    Move word 1 held kept where
  gains _ := .inr free
  frees zero := absurd zero Nat.one_ne_zero
  takes _ := .inr keeps
  drops _ := .inl keeps

/-- The swap finds the lock taken. -/
theorem Move.spin
    (taken : word ≠ 0)
    (same : kept ↔ held) :
    Move word 1 held kept where
  gains keeps := .inl (same.mp keeps)
  frees zero := absurd zero Nat.one_ne_zero
  takes _ := .inl taken
  drops holds := .inl (same.mpr holds)

/-- The holder releases the lock. -/
theorem Move.release
    (holder : held)
    (left : ¬kept) :
    Move word 0 held kept where
  gains keeps := absurd keeps left
  frees _ := ⟨left, .inr holder⟩
  takes taken := absurd rfl taken
  drops _ := .inr rfl

/-- At most one agent holds the lock, and the word of a held lock is set. -/
structure Exclusive (word : Nat) (holds : ι → Prop) : Prop where
  taken : ∀ i, holds i → word ≠ 0
  alone : ∀ i j, holds i → holds j → i = j

/-- The word of a lock is set only while an agent holds it. -/
def Owned (word : Nat) (holds : ι → Prop) : Prop :=
  word ≠ 0 → ∃ i, holds i

/-- The step lemma of mutual exclusion. -/
theorem Exclusive.move
    [DecidableEq ι]
    (exclusive : Exclusive word holds)
    (move : Move word after (holds i) kept) :
    Exclusive after (Function.update holds i kept) := by
  have others {j : ι} (other : j ≠ i) (holding : holds j) : after ≠ 0 ∧ ¬kept := by
    have alone (holder : holds i) : False := other (exclusive.alone j i holding holder)
    have taken := exclusive.taken j holding
    refine ⟨fun zero => ?_, fun keeps => ?_⟩
    · exact (move.frees zero).2.elim taken alone
    · exact (move.gains keeps).elim alone taken
  constructor
  · intro j holding zero
    by_cases own : j = i
    · subst own
      rw [Function.update_self] at holding
      exact (move.frees zero).1 holding
    · rw [Function.update_of_ne own] at holding
      exact (others own holding).1 zero
  · intro j k jHolds kHolds
    by_cases jOwn : j = i
    · by_cases kOwn : k = i
      · rw [jOwn, kOwn]
      · rw [jOwn, Function.update_self] at jHolds
        rw [Function.update_of_ne kOwn] at kHolds
        exact absurd jHolds (others kOwn kHolds).2
    · rw [Function.update_of_ne jOwn] at jHolds
      by_cases kOwn : k = i
      · rw [kOwn, Function.update_self] at kHolds
        exact absurd kHolds (others jOwn jHolds).2
      · rw [Function.update_of_ne kOwn] at kHolds
        exact exclusive.alone j k jHolds kHolds

/-- Holders that go away leave the others alone. -/
theorem Exclusive.mono
    {fewer : ι → Prop}
    (exclusive : Exclusive word holds)
    (less : ∀ i, fewer i → holds i) :
    Exclusive word fewer where
  taken i holding := exclusive.taken i (less i holding)
  alone i j iHolds jHolds := exclusive.alone i j (less i iHolds) (less j jHolds)

/-- The step lemma of ownership. -/
theorem Owned.move
    [DecidableEq ι]
    (owned : Owned word holds)
    (move : Move word after (holds i) kept) :
    Owned after (Function.update holds i kept) := by
  intro taken
  by_cases keeps : kept
  · exact ⟨i, by rwa [Function.update_self]⟩
  · obtain ⟨j, holding⟩ := owned ((move.takes taken).resolve_right keeps)
    refine ⟨j, ?_⟩
    rw [Function.update_of_ne]
    · exact holding
    · rintro rfl
      exact (move.drops holding).elim keeps taken

end SpinLock
end Foundation
end EchelonSbi
