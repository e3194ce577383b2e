import EchelonSbi.Foundation.Loop
import Mathlib.Data.BitVec

/-!
# Bytes in memory

Memory is a function from addresses to bytes.  A list of bytes lies at an
address, and lies in parts where the parts lie one after the other.  A C string
is a sequence of bytes up to its first zero.
-/

namespace EchelonSbi
namespace Foundation

abbrev Byte := BitVec 8

/-- A character constant. -/
def ascii (c : Char) : Byte :=
  BitVec.ofNat 8 c.toNat

/-- The contents of memory. -/
abbrev Memory := Nat → Byte

/-- The bytes lie in memory from `address` on. -/
def Memory.Holds (memory : Memory) (address : Nat) (bytes : List Byte) : Prop :=
  ∀ offset (inside : offset < bytes.length),
    memory (address + offset) = bytes[offset]

instance (memory : Memory) (address : Nat) (bytes : List Byte) :
    Decidable (memory.Holds address bytes) :=
  inferInstanceAs (Decidable (∀ offset (inside : offset < bytes.length),
    memory (address + offset) = bytes[offset]))

/-- Memory with nothing but `bytes` at `address`. -/
def Memory.stored (address : Nat) (bytes : List Byte) : Memory :=
  fun here => if here < address then 0 else bytes.getD (here - address) 0

theorem Memory.stored_holds
    (address : Nat)
    (bytes : List Byte) :
    (Memory.stored address bytes).Holds address bytes := by
  intro offset inside
  rw [Memory.stored, if_neg (by omega), Nat.add_sub_cancel_left,
    List.getD_eq_getElem?_getD, List.getElem?_eq_getElem inside,
    Option.getD_some]

namespace Memory
namespace Holds

variable {memory : Memory} {address : Nat} {first second bytes : List Byte}

theorem nil : memory.Holds address [] :=
  fun _ inside => absurd inside (Nat.not_lt_zero _)

theorem append_iff :
    memory.Holds address (first ++ second) ↔
      memory.Holds address first ∧
        memory.Holds (address + first.length) second := by
  constructor
  · intro holds
    refine ⟨fun offset inside => ?_, fun offset inside => ?_⟩
    · have here := holds offset (by simp only [List.length_append]; omega)
      rwa [List.getElem_append_left inside] at here
    · have here := holds (first.length + offset)
        (by simp only [List.length_append]; omega)
      rw [List.getElem_append_right (by omega)] at here
      simp only [Nat.add_sub_cancel_left] at here
      rwa [Nat.add_assoc]
  · rintro ⟨left, right⟩ offset inside
    by_cases early : offset < first.length
    · rw [List.getElem_append_left early, left offset early]
    · rw [List.length_append] at inside
      have here := right (offset - first.length) (by omega)
      rw [List.getElem_append_right (by omega), ← here]
      congr 1
      omega

theorem cons_iff {byte : Byte} :
    memory.Holds address (byte :: bytes) ↔
      memory address = byte ∧ memory.Holds (address + 1) bytes := by
  have one : memory.Holds address [byte] ↔ memory address = byte := by
    constructor
    · exact fun holds => holds 0 Nat.zero_lt_one
    · intro here offset inside
      obtain rfl : offset = 0 := by simpa using inside
      exact here
  rw [← one, ← List.singleton_append, append_iff]
  rfl

/-- Of items of one size each lies at its own offset. -/
theorem item
    {encode : α → List Byte}
    {size : Nat}
    (sized : ∀ item, (encode item).length = size)
    {items : List α}
    (holds : memory.Holds address (items.flatMap encode))
    (k : Nat)
    (inside : k < items.length) :
    memory.Holds (address + size * k) (encode items[k]) := by
  induction items generalizing address k with
  | nil => exact absurd inside (Nat.not_lt_zero _)
  | cons item items inductionHypothesis =>
      obtain ⟨here, later⟩ := append_iff.mp holds
      cases k with
      | zero => exact here
      | succ k =>
          rw [sized] at later
          have rest := inductionHypothesis later k (by simpa using inside)
          rwa [Nat.add_assoc, Nat.add_comm size, ← Nat.mul_succ] at rest

end Holds
end Memory

/-- The sequence of bytes is the C string `text`. -/
structure Spells (sequence : Nat → Byte) (text : List Byte) : Prop where
  spelled : ∀ i (inside : i < text.length), sequence i = text[i]
  ended : sequence text.length = 0
  proper : 0 ∉ text

namespace Spells

variable {sequence : Nat → Byte} {text : List Byte} {byte : Byte}

theorem nil_iff : Spells sequence [] ↔ sequence 0 = 0 := by
  constructor
  · exact fun spells => spells.ended
  · exact fun ended => ⟨nofun, ended, List.not_mem_nil⟩

/-- A string is its first byte and the string after it. -/
theorem cons_iff :
    Spells sequence (byte :: text) ↔
      sequence 0 = byte ∧ byte ≠ 0 ∧ Spells (fun i => sequence (i + 1)) text := by
  constructor
  · rintro ⟨spelled, ended, proper⟩
    rw [List.mem_cons, not_or] at proper
    refine ⟨spelled 0 (by simp), Ne.symm proper.1, ?_, ended, proper.2⟩
    exact fun i inside => spelled (i + 1) (by simpa using inside)
  · rintro ⟨first, nonzero, rest⟩
    refine ⟨?_, rest.ended, ?_⟩
    · intro i inside
      cases i with
      | zero => exact first
      | succ i => exact rest.spelled i (by simpa using inside)
    · rw [List.mem_cons, not_or]
      exact ⟨Ne.symm nonzero, rest.proper⟩

/-- What lies in memory with a zero after it is a string. -/
theorem of_holds
    {memory : Memory}
    {address : Nat}
    (holds : memory.Holds address (text ++ [0]))
    (proper : 0 ∉ text) :
    Spells (fun i => memory (address + i)) text := by
  obtain ⟨spelled, ended⟩ := Memory.Holds.append_iff.mp holds
  exact ⟨spelled, ended 0 Nat.zero_lt_one, proper⟩

/-- A sequence with a zero in it spells the string up to the first one. -/
theorem exists_of_zero
    {index : Nat}
    (zero : sequence index = 0) :
    ∃ text, Spells sequence text := by
  induction index generalizing sequence with
  | zero => exact ⟨[], nil_iff.mpr zero⟩
  | succ index inductionHypothesis =>
      obtain ⟨rest, spells⟩ := @inductionHypothesis (fun i => sequence (i + 1)) zero
      by_cases first : sequence 0 = 0
      · exact ⟨[], nil_iff.mpr first⟩
      · exact ⟨sequence 0 :: rest, cons_iff.mpr ⟨rfl, first, spells⟩⟩

end Spells

end Foundation
end EchelonSbi
