import EchelonSbi.Word
import EchelonSbi.Foundation.Bytes

/-!
# The string functions

The functions of `string.c` that the parsers call.  A string argument is the
sequence of bytes that its pointer reads.
-/

namespace EchelonSbi
namespace DataParse

open Foundation

/-- The bytes that a pointer reads. -/
def fromPointer (xlen : Xlen) (memory : Memory) (pointer : Nat) (i : Nat) : Byte :=
  memory (xlen.wrap (pointer + i))

/-- The bytes of a string literal. -/
def literal (text : List Byte) (i : Nat) : Byte :=
  text.getD i 0

/-- One turn of the loop of `strcmp`; `i` is an `unsigned int`. -/
def strcmp_turn (s1 s2 : Nat → Byte) (i : Nat) : Turn Nat Int :=
  if s1 i = s2 i then
    if s1 i = 0 then .leave 0
    else .again ((i + 1) % 2 ^ 32)
  else .leave 1

/-- `strcmp`.  The index has 2^32 values, so that a loop with more turns never
leaves. -/
def strcmp (s1 s2 : Nat → Byte) : Option Int :=
  iterate (strcmp_turn s1 s2) (2 ^ 32) 0

/-- One turn of the loop of `strlen`; `i` is a `size_t`. -/
def strlen_turn (xlen : Xlen) (str : Nat → Byte) (i : Nat) : Turn Nat Nat :=
  if str i ≠ 0 then .again (xlen.wrap (i + 1)) else .leave i

/-- `strlen`. -/
def strlen (xlen : Xlen) (str : Nat → Byte) : Option Nat :=
  iterate (strlen_turn xlen str) xlen.size 0

theorem fromPointer_spells
    {xlen : Xlen}
    {memory : Memory}
    {pointer : Nat}
    {text : List Byte}
    (holds : memory.Holds pointer (text ++ [0]))
    (fits : pointer + text.length < xlen.size)
    (proper : 0 ∉ text) :
    Spells (fromPointer xlen memory pointer) text := by
  obtain ⟨spelled, ended, proper⟩ := Spells.of_holds holds proper
  refine ⟨fun i inside => ?_, ?_, proper⟩
  · rw [fromPointer, Xlen.wrap_of_lt (by omega), spelled i inside]
  · rw [fromPointer, Xlen.wrap_of_lt fits, ended]

/-- A string in memory is shorter than the memory is large. -/
theorem fromPointer_length_lt
    {xlen : Xlen}
    {memory : Memory}
    {pointer : Nat}
    {text : List Byte}
    (spelled : Spells (fromPointer xlen memory pointer) text) :
    text.length < xlen.size := by
  by_contra long
  have early : text.length % xlen.size < text.length :=
    (Nat.mod_lt _ xlen.size_pos).trans_le (by omega)
  have again : fromPointer xlen memory pointer (text.length % xlen.size) =
      fromPointer xlen memory pointer text.length := by
    rw [fromPointer, fromPointer, Xlen.wrap, Xlen.wrap, Nat.add_mod_mod]
  have zero : text[text.length % xlen.size] = 0 := by
    rw [← spelled.spelled _ early, again, spelled.ended]
  exact spelled.proper (zero ▸ List.getElem_mem early)

theorem literal_spells
    {text : List Byte}
    (proper : 0 ∉ text) :
    Spells (literal text) text := by
  refine ⟨fun i inside => ?_, ?_, proper⟩
  · simp [literal, inside]
  · simp [literal]

theorem strcmp_differs
    {s1 s2 : Nat → Byte}
    {i : Nat}
    (differ : s1 i ≠ s2 i) :
    iterate (strcmp_turn s1 s2) 1 i = some 1 := by
  rw [iterate, strcmp_turn, if_neg differ]

theorem strcmp_ends
    {s1 s2 : Nat → Byte}
    {i : Nat}
    (same : s1 i = s2 i)
    (ended : s1 i = 0) :
    iterate (strcmp_turn s1 s2) 1 i = some 0 := by
  rw [iterate, strcmp_turn, if_pos same, if_pos ended]

/-- The loop of `strcmp` compares what is left of the two strings. -/
theorem strcmp_turns
    {s1 s2 : Nat → Byte}
    {text1 text2 : List Byte}
    {i : Nat}
    (first : Spells (fun j => s1 (i + j)) text1)
    (second : Spells (fun j => s2 (i + j)) text2)
    (fits : i + text1.length < 2 ^ 32) :
    ∃ fuel ≤ text1.length + 1, iterate (strcmp_turn s1 s2) fuel i =
      some (if text1 = text2 then 0 else 1) := by
  induction text1 generalizing text2 i with
  | nil =>
      have ended : s1 i = 0 := Spells.nil_iff.mp first
      refine ⟨1, by simp, ?_⟩
      cases text2 with
      | nil =>
          have ended' : s2 i = 0 := Spells.nil_iff.mp second
          rw [strcmp_ends (ended.trans ended'.symm) ended, if_pos rfl]
      | cons byte rest =>
          obtain ⟨here, nonzero, -⟩ := Spells.cons_iff.mp second
          have differ : s1 i ≠ s2 i := fun same =>
            nonzero (here.symm.trans (same.symm.trans ended))
          rw [strcmp_differs differ, if_neg nofun]
  | cons byte rest inductionHypothesis =>
      obtain ⟨here, nonzero, later⟩ := Spells.cons_iff.mp first
      cases text2 with
      | nil =>
          have ended' : s2 i = 0 := Spells.nil_iff.mp second
          have differ : s1 i ≠ s2 i := fun same =>
            nonzero (here.symm.trans (same.trans ended'))
          exact ⟨1, by simp, by rw [strcmp_differs differ, if_neg nofun]⟩
      | cons other others =>
          obtain ⟨there, -, later'⟩ := Spells.cons_iff.mp second
          by_cases same : byte = other
          · subst same
            have equal : s1 i = s2 i := here.trans there.symm
            have goesOn : s1 i ≠ 0 := fun zero => nonzero (here.symm.trans zero)
            simp only [List.length_cons] at fits
            have index : (i + 1) % 2 ^ 32 = i + 1 := Nat.mod_eq_of_lt (by omega)
            have rest1 : Spells (fun j => s1 (i + 1 + j)) rest := by
              simpa only [Nat.add_assoc, Nat.add_comm 1] using later
            have rest2 : Spells (fun j => s2 (i + 1 + j)) others := by
              simpa only [Nat.add_assoc, Nat.add_comm 1] using later'
            obtain ⟨fuel, few, left⟩ :=
              inductionHypothesis rest1 rest2 (by omega)
            refine ⟨fuel + 1, by simpa using few, ?_⟩
            rw [iterate, strcmp_turn, if_pos equal, if_neg goesOn, index]
            simpa using left
          · have differ : s1 i ≠ s2 i := fun equal =>
              same (here.symm.trans (equal.trans there))
            refine ⟨1, by simp, ?_⟩
            rw [strcmp_differs differ, if_neg fun equal => same (List.cons.inj equal).1]

theorem strcmp_eq
    {s1 s2 : Nat → Byte}
    {text1 text2 : List Byte}
    (first : Spells s1 text1)
    (second : Spells s2 text2)
    (fits : text1.length < 2 ^ 32) :
    strcmp s1 s2 = some (if text1 = text2 then 0 else 1) := by
  have start1 : Spells (fun j => s1 (0 + j)) text1 := by simpa using first
  have start2 : Spells (fun j => s2 (0 + j)) text2 := by simpa using second
  obtain ⟨fuel, few, left⟩ := strcmp_turns start1 start2 (by omega)
  have enough : fuel + (2 ^ 32 - fuel) = 2 ^ 32 := by omega
  rw [strcmp, ← enough]
  exact iterate_mono left _

theorem strlen_turns
    {xlen : Xlen}
    {str : Nat → Byte}
    {text : List Byte}
    {i : Nat}
    (spells : Spells (fun j => str (i + j)) text)
    (fits : i + text.length < xlen.size) :
    iterate (strlen_turn xlen str) (text.length + 1) i =
      some (i + text.length) := by
  induction text generalizing i with
  | nil =>
      have ended : str i = 0 := Spells.nil_iff.mp spells
      rw [List.length_nil, iterate, strlen_turn, if_neg (not_not_intro ended)]
      rfl
  | cons byte rest inductionHypothesis =>
      obtain ⟨here, nonzero, later⟩ := Spells.cons_iff.mp spells
      have goesOn : str i ≠ 0 := fun zero => nonzero (here.symm.trans zero)
      have after : Spells (fun j => str (i + 1 + j)) rest := by
        simpa only [Nat.add_assoc, Nat.add_comm 1] using later
      rw [List.length_cons] at fits ⊢
      rw [iterate, strlen_turn, if_pos goesOn, Xlen.wrap_of_lt (by omega)]
      rw [show i + (rest.length + 1) = i + 1 + rest.length by omega]
      exact inductionHypothesis after (by omega)

theorem strlen_eq
    {xlen : Xlen}
    {str : Nat → Byte}
    {text : List Byte}
    (spells : Spells str text)
    (fits : text.length < xlen.size) :
    strlen xlen str = some text.length := by
  have start : Spells (fun j => str (0 + j)) text := by simpa using spells
  have turns := strlen_turns start (by rwa [Nat.zero_add])
  have enough : text.length + 1 + (xlen.size - (text.length + 1)) = xlen.size := by
    omega
  rw [Nat.zero_add] at turns
  rw [strlen, ← enough]
  exact iterate_mono turns _

end DataParse
end EchelonSbi
