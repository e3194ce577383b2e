import EchelonSbi.Printm.Format
import Mathlib.Data.Nat.Digits.Lemmas

/-!
# Numerals in the buffer

`_itoa` writes the digits of a number from the last to the first and then turns
them round.  What it leaves at the start of the buffer is the numeral.
-/

namespace EchelonSbi
namespace Printm

open Foundation DataParse

/-- The array starts with the text. -/
def Chars.Starts (buf : Chars size) (text : List Byte) : Prop :=
  ∀ k < text.length, buf[k]? = text[k]?

namespace Chars

variable {size : Nat} {buf : Chars size} {text : List Byte} {index : Nat} {value : Byte}

theorem starts_nil (buf : Chars size) : buf.Starts [] :=
  fun _ inside => absurd inside (Nat.not_lt_zero _)

theorem store_of_lt (inside : index < size) :
    buf.store index value = some (buf.set index value) :=
  dif_pos inside

theorem getElem?_set (inside : index < size) (k : Nat) :
    (buf.set index value)[k]? = if index = k then some value else buf[k]? :=
  Vector.getElem?_set inside

/-- A byte stored behind the text continues it, and leaves what is behind. -/
theorem Starts.store
    (starts : buf.Starts text)
    (room : text.length < size)
    (value : Byte) :
    ∃ next, buf.store text.length value = some next ∧ next.Starts (text ++ [value]) ∧
      ∀ m : Nat, text.length < m → next[m]? = buf[m]? := by
  refine ⟨_, store_of_lt room, fun k inside => ?_, fun m behind => ?_⟩
  · rw [getElem?_set room]
    by_cases last : text.length = k
    · subst last
      simp
    · rw [List.length_append, List.length_singleton] at inside
      rw [if_neg last, List.getElem?_append_left (by omega)]
      exact starts k (by omega)
  · rw [getElem?_set room, if_neg (by omega)]

end Chars

section Writing

/-! ## Reading the buffer out -/

/-- `uart_write` hands over the bytes it can read. -/
theorem uart_write_loop_eq
    {str : Nat → Option Byte}
    {bytes : List Byte}
    (reads : ∀ k < bytes.length, str k = bytes[k]?) :
    uart_write_loop str bytes.length = some bytes := by
  induction bytes generalizing str with
  | nil => rfl
  | cons byte bytes inductionHypothesis =>
      have first : str 0 = some byte := reads 0 (by simp)
      have rest : uart_write_loop (fun k => str (k + 1)) bytes.length = some bytes :=
        inductionHypothesis fun k inside => reads (k + 1) (by simpa using inside)
      rw [List.length_cons, uart_write_loop, first, rest]
      rfl

theorem Chars.Starts.uart_write
    {buf : Chars size}
    {text : List Byte}
    (starts : buf.Starts text) :
    uart_write buf.reader text.length = some text :=
  uart_write_loop_eq starts

theorem uart_write_quoted (text : List Byte) :
    uart_write (quoted text) text.length = some text := by
  refine uart_write_loop_eq fun k inside => ?_
  rw [List.getElem?_eq_getElem inside, literal, List.getD_eq_getElem?_getD,
    List.getElem?_eq_getElem inside, Option.getD_some]

end Writing

section Digits

/-! ## The digits, last first -/

variable {ten : Char} {base : Nat}

/-- The last digit is the first that `Nat.digits` lists. -/
theorem digits_of_pos
    (radix : 2 ≤ base)
    {n : Nat}
    (positive : 0 < n) :
    (Nat.digits base n).map (digit ten) =
      digit ten (n % base) :: (Nat.digits base (n / base)).map (digit ten) := by
  rw [Nat.digits_def' (by omega) positive, List.map_cons]

theorem digits_length_le
    (radix : 2 ≤ base)
    (number : BitVec 64) :
    (Nat.digits base number.toNat).length ≤ 0x40 := by
  rw [Nat.digits_length_le_iff (by omega)]
  exact number.isLt.trans_le (Nat.pow_le_pow_left radix 64)

/-- The radices of `_itoa`, with the letters that it uses for them. -/
structure Radix (ten : Char) (base : Nat) (hex_offset : Byte) : Prop where
  two : 2 ≤ base
  small : base ≤ 36
  character : ∀ d < base, digit_character hex_offset (BitVec.ofNat 8 d) = digit ten d

/-- The character that the loop stores for the last digit. -/
theorem Radix.digit_character_last
    {hex_offset : Byte}
    (radix : Radix ten base hex_offset)
    (number : BitVec 64) :
    digit_character hex_offset ((number % BitVec.ofNat 64 base).setWidth 8) =
      digit ten (number.toNat % base) := by
  obtain ⟨two, small, character⟩ := radix
  have below : number.toNat % base < base := Nat.mod_lt _ (by omega)
  have last : (number % BitVec.ofNat 64 base).setWidth 8 =
      BitVec.ofNat 8 (number.toNat % base) := by
    apply BitVec.eq_of_toNat_eq
    rw [BitVec.toNat_setWidth, BitVec.toNat_umod, BitVec.toNat_ofNat,
      BitVec.toNat_ofNat, Nat.mod_eq_of_lt (show base < 2 ^ 64 by omega)]
  rw [last, character _ below]

/-- The first loop of `_itoa` puts the digits that there is room for behind what the
array holds. -/
theorem _itoa_digit_turns
    {hex_offset : Byte}
    (radix : Radix ten base hex_offset)
    (number : BitVec 64)
    {size buf_len : Nat}
    (room : buf_len ≤ size)
    {buf : Chars size}
    {text : List Byte}
    (starts : buf.Starts text)
    (inside : text.length ≤ buf_len) :
    ∃ next fuel, fuel ≤ buf_len - text.length + 1 ∧
      iterate (_itoa_digit_turn buf_len hex_offset (BitVec.ofNat 64 base)) fuel
        ⟨number, buf, text.length⟩ =
          some (some (next, text.length +
            min (buf_len - text.length) (Nat.digits base number.toNat).length)) ∧
      next.Starts (text ++ ((Nat.digits base number.toNat).map (digit ten)).take
        (buf_len - text.length)) ∧
      ∀ m : Nat, buf_len ≤ m → next[m]? = buf[m]? := by
  have two := radix.two
  have small := radix.small
  induction value : number.toNat using Nat.strong_induction_on
    generalizing number buf text with
  | _ n inductionHypothesis =>
    subst value
    by_cases more : 0 < number.toNat ∧ text.length < buf_len
    · obtain ⟨positive, before⟩ := more
      have goesOn : 0 < number := by simpa [BitVec.lt_def] using positive
      have divided : (number / BitVec.ofNat 64 base).toNat = number.toNat / base := by
        rw [BitVec.toNat_udiv, BitVec.toNat_ofNat,
          Nat.mod_eq_of_lt (show base < 2 ^ 64 by omega)]
      have smaller : number.toNat / base < number.toNat :=
        Nat.div_lt_self positive (by omega)
      have unfolded := Nat.digits_def' (show 1 < base by omega) positive
      obtain ⟨buf', stored, starts', kept⟩ := starts.store (by omega)
        (digit ten (number.toNat % base))
      have turn : _itoa_digit_turn buf_len hex_offset (BitVec.ofNat 64 base)
          ⟨number, buf, text.length⟩ =
            .again ⟨number / BitVec.ofNat 64 base, buf', text.length + 1⟩ := by
        rw [_itoa_digit_turn, if_pos ⟨goesOn, before⟩]
        simp only [radix.digit_character_last, stored]
      have longer : (text ++ [digit ten (number.toNat % base)]).length =
          text.length + 1 := by
        rw [List.length_append, List.length_singleton]
      obtain ⟨next, fuel, few, left, holds, behind⟩ := inductionHypothesis _ smaller
        (number / BitVec.ofNat 64 base) starts' (by omega) divided
      rw [longer] at few left holds
      have rest : buf_len - text.length = buf_len - (text.length + 1) + 1 := by omega
      refine ⟨next, fuel + 1, by omega, ?_, ?_, ?_⟩
      · rw [iterate, turn]
        simp only [left, unfolded, List.length_cons]
        congr 3
        omega
      · rw [unfolded, List.map_cons, rest, List.take_succ_cons]
        rwa [List.append_assoc, List.singleton_append] at holds
      · intro m after
        rw [behind m after, kept m (by omega)]
    · have stops : ¬(0 < number ∧ text.length < buf_len) := by
        simpa [BitVec.lt_def] using more
      have none : min (buf_len - text.length) (Nat.digits base number.toNat).length = 0 := by
        by_cases zero : number.toNat = 0
        · rw [zero, Nat.digits_zero, List.length_nil, Nat.min_zero]
        · rw [show buf_len - text.length = 0 by omega, Nat.zero_min]
      refine ⟨buf, 1, by omega, ?_, ?_, fun _ _ => rfl⟩
      · rw [iterate, _itoa_digit_turn, if_neg (by exact stops), none]
        rfl
      · have empty : ((Nat.digits base number.toNat).map (digit ten)).take
            (buf_len - text.length) = [] := by
          rw [← List.length_eq_zero_iff, List.length_take, List.length_map]
          exact none
        rw [empty, List.append_nil]
        exact starts

end Digits

section Swapping

/-! ## Turning them round -/

/-- The second loop of `_itoa` turns the bytes from `k` to `j` round. -/
theorem _itoa_swap_turns
    {size : Nat}
    (buf : Chars size)
    (j k : Nat)
    (inside : j ≤ size) :
    ∃ next fuel, fuel ≤ j - k + 1 ∧
      iterate _itoa_swap_turn fuel ⟨buf, j, k⟩ = some (some next) ∧
      ∀ m : Nat, next[m]? =
        if k ≤ m ∧ m < j then buf[k + (j - 1 - m)]? else buf[m]? := by
  induction distance : j - k using Nat.strong_induction_on generalizing buf j k with
  | _ n inductionHypothesis =>
    subst distance
    by_cases close : j ≤ k + 1
    · -- At most one byte is left, which stays.
      refine ⟨buf, 1, by omega, ?_, fun m => ?_⟩
      · rw [iterate, _itoa_swap_turn]
        by_cases none : 0 < j
        · rw [if_pos none]
          simp only
          rw [if_pos (by omega)]
        · rw [if_neg none]
      · split
        · congr 1
          omega
        · rfl
    · have front : buf[k]? = some buf[k] := Vector.getElem?_eq_getElem (by omega)
      have back : buf[j - 1]? = some buf[j - 1] := Vector.getElem?_eq_getElem (by omega)
      have turn : _itoa_swap_turn ⟨buf, j, k⟩ =
          .again ⟨(buf.set k buf[j - 1]).set (j - 1) buf[k], j - 1, k + 1⟩ := by
        rw [_itoa_swap_turn, if_pos (by simp only; omega)]
        simp only
        rw [if_neg (by omega)]
        simp only [front, back, Option.bind_eq_bind, Option.bind_some]
        rw [Chars.store_of_lt (by omega)]
        simp only [Option.bind_some]
        rw [Chars.store_of_lt (by omega)]
      obtain ⟨next, fuel, few, left, placed⟩ := inductionHypothesis
        (j - 1 - (k + 1)) (by omega)
        ((buf.set k buf[j - 1]).set (j - 1) buf[k]) (j - 1) (k + 1) (by omega) rfl
      refine ⟨next, fuel + 1, by omega, by rw [iterate, turn]; exact left, fun m => ?_⟩
      rw [placed m]
      simp only [Chars.getElem?_set (show j - 1 < size by omega),
        Chars.getElem?_set (show k < size by omega)]
      by_cases first : m = k
      · subst first
        rw [if_neg (by omega), if_neg (by omega), if_pos rfl, if_pos (by omega), back.symm]
        congr 1
        omega
      · by_cases last : m = j - 1
        · subst last
          rw [if_neg (by omega), if_pos rfl, if_pos (by omega), front.symm]
          congr 1
          omega
        · by_cases between : k ≤ m ∧ m < j
          · rw [if_pos (by omega), if_pos between, if_neg (by omega), if_neg (by omega)]
            congr 1
            omega
          · rw [if_neg (by omega), if_neg between, if_neg (by omega), if_neg (by omega)]

theorem Chars.Starts.reverse
    {size : Nat}
    {buf next : Chars size}
    {text : List Byte}
    (starts : buf.Starts text)
    (turned : ∀ m : Nat, next[m]? =
      if 0 ≤ m ∧ m < text.length then buf[0 + (text.length - 1 - m)]? else buf[m]?) :
    next.Starts text.reverse := by
  intro k inside
  rw [List.length_reverse] at inside
  rw [turned k, if_pos ⟨Nat.zero_le _, inside⟩, Nat.zero_add,
    starts _ (by omega), List.getElem?_reverse inside]

end Swapping

section Itoa

/-! ## The numeral -/

/-- The argument `base` of `_itoa`: a negative one asks for upper case. -/
structure Coded (code : Int) (ten : Char) (base : Nat) : Prop where
  word : BitVec.ofInt 64 (if code < 0 then -code else code) = BitVec.ofNat 64 base
  radix : Radix ten base (if code < 0 then ascii 'A' - 10 else ascii 'a' - 10)

theorem coded_decimal : Coded 10 'a' 10 :=
  ⟨by decide, by decide, by decide, by decide⟩

theorem coded_octal : Coded 8 'a' 8 :=
  ⟨by decide, by decide, by decide, by decide⟩

theorem coded_lower : Coded 16 'a' 16 :=
  ⟨by decide, by decide, by decide, by decide⟩

theorem coded_upper : Coded (-16) 'A' 16 :=
  ⟨by decide, by decide, by decide, by decide⟩

/-- Every radix that the digits and letters allow. -/
theorem coded_of_natAbs
    {code : Int}
    (two : 2 ≤ code.natAbs)
    (small : code.natAbs ≤ 36) :
    Coded code (if code < 0 then 'A' else 'a') code.natAbs := by
  have character (upper : Prop) [Decidable upper] :
      ∀ d < 36,
        digit_character (if upper then ascii 'A' - 10 else ascii 'a' - 10)
            (BitVec.ofNat 8 d) =
          digit (if upper then 'A' else 'a') d := by
    split_ifs <;> decide
  refine ⟨?_, two, small, fun d inside => character (code < 0) d (by omega)⟩
  have absolute : (if code < 0 then -code else code) = (code.natAbs : Int) := by
    split_ifs <;> omega
  rw [absolute, BitVec.ofInt_natCast]

/-- The second loop leaves the text turned round, and what is behind it. -/
theorem _itoa_swapped
    {size : Nat}
    {buf : Chars size}
    {text : List Byte}
    (starts : buf.Starts text)
    (fits : text.length ≤ size) :
    ∃ next, iterate _itoa_swap_turn (text.length + 1) ⟨buf, text.length, 0⟩ =
      some (some next) ∧ next.Starts text.reverse ∧
        ∀ m : Nat, text.length ≤ m → next[m]? = buf[m]? := by
  obtain ⟨next, fuel, few, left, turned⟩ := _itoa_swap_turns buf text.length 0 fits
  have long := iterate_mono left (text.length + 1 - fuel)
  rw [show fuel + (text.length + 1 - fuel) = text.length + 1 by omega] at long
  refine ⟨next, long, starts.reverse turned, fun m behind => ?_⟩
  rw [turned m, if_neg (by omega)]

theorem numeral_length
    (ten : Char)
    (base n : Nat) :
    (numeral ten base n).length = max 1 (Nat.digits base n).length := by
  by_cases zero : n = 0
  · rw [numeral, if_pos zero, zero, Nat.digits_zero]
    rfl
  · have positive : 0 < (Nat.digits base n).length :=
      List.length_pos_iff.mpr (Nat.digits_ne_nil_iff_ne_zero.mpr zero)
    rw [numeral, if_neg zero, List.length_reverse, List.length_map]
    omega

/-- `_itoa` leaves the end of the numeral that there is room for at the start of the
array, and nothing behind the room. -/
theorem _itoa_truncated
    {code : Int}
    {ten : Char}
    {base size buf_len : Nat}
    (coded : Coded code ten base)
    (number : BitVec 64)
    (buf : Chars size)
    (room : buf_len ≤ size) :
    ∃ next, _itoa number buf buf_len code =
        some (next, min buf_len (numeral ten base number.toNat).length) ∧
      next.Starts ((numeral ten base number.toNat).drop
        ((numeral ten base number.toNat).length - buf_len)) ∧
      ∀ m : Nat, buf_len ≤ m → next[m]? = buf[m]? := by
  obtain ⟨word, radix⟩ := coded
  obtain ⟨buf', fuel, few, left, starts, kept⟩ :=
    _itoa_digit_turns radix number room (Chars.starts_nil buf) (Nat.zero_le _)
  simp only [List.length_nil, Nat.zero_add, Nat.sub_zero, List.nil_append]
    at few left starts
  have long := iterate_mono left (buf_len + 1 - fuel)
  rw [show fuel + (buf_len + 1 - fuel) = buf_len + 1 by omega] at long
  rw [_itoa, word]
  simp only [long, Option.bind_eq_bind, Option.bind_some]
  by_cases zero : number.toNat = 0
  · rw [zero, Nat.digits_zero] at starts ⊢
    simp only [List.map_nil, List.take_nil, List.length_nil, Nat.min_zero, and_true]
      at starts ⊢
    have one : numeral ten base 0 = [ascii '0'] := if_pos rfl
    rw [one]
    by_cases empty : buf_len = 0
    · obtain ⟨next, swapped, turned, behind⟩ := _itoa_swapped starts (Nat.zero_le _)
      refine ⟨next, ?_, ?_, fun m after => ?_⟩
      · rw [if_neg (by omega), empty]
        rw [List.length_nil] at swapped
        simp [swapped]
      · simpa [empty] using turned
      · rw [behind m (Nat.zero_le _), kept m after]
    · obtain ⟨padded, stored, shown, storeKept⟩ :=
        starts.store (show ([] : List Byte).length < size by simp; omega) (ascii '0')
      obtain ⟨next, swapped, turned, behind⟩ :=
        _itoa_swapped shown (show ([] ++ [ascii '0']).length ≤ size by simp; omega)
      simp only [List.length_nil, List.nil_append, List.length_singleton,
        List.reverse_singleton] at stored swapped turned behind
      refine ⟨next, ?_, ?_, fun m after => ?_⟩
      · rw [if_pos (by omega), stored, List.length_singleton,
          Nat.min_eq_right (by omega)]
        simp [swapped]
      · rw [List.length_singleton, Nat.sub_eq_zero_of_le (by omega), List.drop_zero]
        exact turned
      · rw [behind m (by omega), storeKept m (by simp; omega), kept m after]
  · have positive : 0 < (Nat.digits base number.toNat).length :=
      List.length_pos_iff.mpr (Nat.digits_ne_nil_iff_ne_zero.mpr zero)
    have length : (((Nat.digits base number.toNat).map (digit ten)).take buf_len).length =
        min buf_len (Nat.digits base number.toNat).length := by
      rw [List.length_take, List.length_map]
    obtain ⟨next, swapped, turned, behind⟩ := _itoa_swapped starts (by omega)
    rw [length] at swapped behind
    have full : numeral ten base number.toNat =
        ((Nat.digits base number.toNat).map (digit ten)).reverse :=
      if_neg zero
    refine ⟨next, ?_, ?_, fun m after => ?_⟩
    · rw [if_neg (by omega), full, List.length_reverse, List.length_map]
      simp [swapped]
    · rw [full, List.length_reverse, ← List.reverse_take]
      exact turned
    · rw [behind m (by omega), kept m after]

/-- `_itoa` leaves the numeral at the start of the buffer. -/
theorem _itoa_eq
    {code : Int}
    {ten : Char}
    {base : Nat}
    (coded : Coded code ten base)
    (number : BitVec 64)
    (buf : Buffer) :
    ∃ next, _itoa number buf 0x40 code =
        some (next, (numeral ten base number.toNat).length) ∧
      next.Starts (numeral ten base number.toNat) := by
  have fits : (numeral ten base number.toNat).length ≤ 0x40 := by
    have short := digits_length_le coded.radix.two number
    rw [numeral_length]
    omega
  obtain ⟨next, converted, starts, -⟩ :=
    _itoa_truncated coded number buf (Nat.le_refl 0x40)
  rw [Nat.min_eq_right fits] at converted
  rw [Nat.sub_eq_zero_of_le fits, List.drop_zero] at starts
  exact ⟨next, converted, starts⟩

end Itoa

end Printm
end EchelonSbi
