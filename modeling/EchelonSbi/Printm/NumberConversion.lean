import EchelonSbi.Printm.Numerals
import Mathlib.Tactic.IntervalCases

/-!
# Number conversion

`_itoa` for every radix and every length of the buffer: the digits that there is
room for, and the number read back where there is room for all.
-/

namespace EchelonSbi
namespace Printm

open Foundation DataParse

section Reading

/-! ## Reading digits -/

/-- The value of a character as a digit. -/
def digitValue (ten : Char) (c : Byte) : Nat :=
  if c.toNat ≤ '9'.toNat then c.toNat - '0'.toNat else c.toNat - ten.toNat + 10

/-- The number that a text is in a radix. -/
def readDigits (ten : Char) (base : Nat) (text : List Byte) : Nat :=
  text.foldl (fun number c => number * base + digitValue ten c) 0

/-- The number of digits of a number; 0 has one. -/
def digitCount (base n : Nat) : Nat :=
  max 1 (Nat.digits base n).length

/-- The letter for ten, in upper or lower case. -/
def Letter (ten : Char) : Prop :=
  ten = 'A' ∨ ten = 'a'

variable {ten : Char} {base : Nat}

theorem digitValue_digit
    (letter : Letter ten)
    {d : Nat}
    (small : d < 36) :
    digitValue ten (digit ten d) = d := by
  have values : ∀ d < 36, digitValue 'A' (digit 'A' d) = d ∧
      digitValue 'a' (digit 'a' d) = d := by
    decide
  rcases letter with rfl | rfl
  · exact (values d small).1
  · exact (values d small).2

/-- Digits are read back from the last to the first. -/
theorem readDigits_reverse
    (letter : Letter ten)
    (digits : List Nat)
    (small : ∀ d ∈ digits, d < 36) :
    readDigits ten base (digits.map (digit ten)).reverse = Nat.ofDigits base digits := by
  induction digits with
  | nil => rfl
  | cons d digits inductionHypothesis =>
      have rest := inductionHypothesis fun d inside =>
        small d (List.mem_cons_of_mem _ inside)
      have first := digitValue_digit letter (small d List.mem_cons_self)
      rw [readDigits] at rest
      rw [readDigits, List.map_cons, List.reverse_cons, List.foldl_append, rest,
        List.foldl_cons, List.foldl_nil, first, Nat.ofDigits_cons]
      ring

theorem readDigits_numeral
    (letter : Letter ten)
    (two : 2 ≤ base)
    (small : base ≤ 36)
    (n : Nat) :
    readDigits ten base (numeral ten base n) = n := by
  by_cases zero : n = 0
  · subst zero
    rw [numeral, if_pos rfl]
    show 0 * base + digitValue ten (digit ten 0) = 0
    rw [digitValue_digit letter (by decide), Nat.zero_mul]
  · rw [numeral, if_neg zero, readDigits_reverse letter, Nat.ofDigits_digits]
    intro d inside
    exact (Nat.digits_lt_base (by omega) inside).trans_le small

/-- The characters of a numeral from its end. -/
theorem numeral_getElem?
    (ten : Char)
    (two : 2 ≤ base)
    {n place : Nat}
    (inside : place < digitCount base n) :
    (numeral ten base n)[digitCount base n - 1 - place]? =
      some (digit ten (n / base ^ place % base)) := by
  by_cases zero : n = 0
  · subst zero
    rw [digitCount, Nat.digits_zero] at inside ⊢
    have first : place = 0 := by
      rw [List.length_nil] at inside
      omega
    subst first
    rw [numeral, if_pos rfl, Nat.zero_div, Nat.zero_mod]
    rfl
  · have positive : 0 < (Nat.digits base n).length :=
      List.length_pos_iff.mpr (Nat.digits_ne_nil_iff_ne_zero.mpr zero)
    have count : digitCount base n = (Nat.digits base n).length := by
      rw [digitCount]
      omega
    rw [count] at inside ⊢
    have value := Nat.getD_digits n place two
    rw [List.getD_eq_getElem?_getD, List.getElem?_eq_getElem inside, Option.getD_some]
      at value
    rw [numeral, if_neg zero, List.getElem?_reverse (by rw [List.length_map]; omega),
      List.length_map, List.getElem?_map,
      show (Nat.digits base n).length - 1 - ((Nat.digits base n).length - 1 - place) =
        place by omega,
      List.getElem?_eq_getElem inside, Option.map_some, value]

end Reading

section Conversion

/-! ## The conversion -/

/-- What `_itoa` should leave in an array, and return. -/
structure Converted
    {size : Nat}
    (ten : Char) (base number buf_len : Nat)
    (buf next : Chars size) (k : Nat) : Prop where
  length : k = min buf_len (digitCount base number)
  /-- The lowest digits, the most significant one first. -/
  digits :
    ∀ m < k, next[m]? = some (digit ten (number / base ^ (k - 1 - m) % base))
  /-- Nothing is written behind the room. -/
  behind : ∀ m : Nat, buf_len ≤ m → next[m]? = buf[m]?
  read :
    digitCount base number ≤ buf_len →
      readDigits ten base (next.toList.take k) = number

theorem Chars.Starts.take
    {size : Nat}
    {buf : Chars size}
    {text : List Byte}
    (starts : buf.Starts text) :
    buf.toList.take text.length = text := by
  apply List.ext_getElem?
  intro m
  by_cases inside : m < text.length
  · have here := starts m inside
    rw [List.getElem?_take_of_lt inside, ← here, Vector.getElem?_toList]
  · rw [List.getElem?_eq_none (by rw [List.length_take]; omega),
      List.getElem?_eq_none (by omega)]

/-- `_itoa` converts every number, in every radix that there are characters for. -/
theorem _itoa_converts
    {size : Nat}
    (number : BitVec 64)
    (buf : Chars size)
    (buf_len : Nat)
    (base : Int)
    (room : buf_len ≤ size)
    (two : 2 ≤ base.natAbs)
    (small : base.natAbs ≤ 36) :
    ∃ next k, _itoa number buf buf_len base = some (next, k) ∧
      Converted (if base < 0 then 'A' else 'a') base.natAbs number.toNat buf_len buf next
        k := by
  have letter : Letter (if base < 0 then 'A' else 'a') := by
    split_ifs
    · exact .inl rfl
    · exact .inr rfl
  generalize upper : (if base < 0 then 'A' else 'a') = ten at letter ⊢
  obtain ⟨next, converted, starts, behind⟩ :=
    _itoa_truncated (coded_of_natAbs two small) number buf room
  rw [upper] at converted starts
  have count : (numeral ten base.natAbs number.toNat).length =
      digitCount base.natAbs number.toNat :=
    numeral_length ..
  rw [count] at converted starts
  refine ⟨next, _, converted, rfl, fun m inside => ?_, behind, fun fits => ?_⟩
  · have here := starts m (by rw [List.length_drop, count]; omega)
    have digits := numeral_getElem? ten two
      (show min buf_len (digitCount base.natAbs number.toNat) - 1 - m <
        digitCount base.natAbs number.toNat by omega)
    rw [here, List.getElem?_drop, ← digits]
    congr 1
    omega
  · rw [Nat.sub_eq_zero_of_le fits, List.drop_zero] at starts
    have whole := starts.take
    rw [count] at whole
    rw [Nat.min_eq_right fits, whole, readDigits_numeral letter two small]

/-- The two lowest digits of 1234 in radix 10 where there is room for two. -/
theorem _itoa_converts_truncated :
    ∃ next k, _itoa 1234 (Vector.replicate 4 0) 2 10 = some (next, k) ∧
      Converted 'a' 10 1234 2 (Vector.replicate 4 0) next k :=
  _itoa_converts 1234 (Vector.replicate 4 0) 2 10 (by decide) (by decide) (by decide)

end Conversion

end Printm
end EchelonSbi
