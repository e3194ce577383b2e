import EchelonSbi.DataParse.DeviceTree
import Mathlib.Tactic.IntervalCases

/-!
# Byte order of the device tree

The two conversions of `dtb_parse.c` share a loop that moves two bytes a turn
through masks of type `unsigned long`.  A mask reaches every byte of a number
that is not wider than a register.
-/

namespace EchelonSbi
namespace DataParse

open Foundation

section Masks

/-! ## Masks -/

/-- The bits of a mask. -/
theorem getLsbD_mask
    (xlen : Xlen)
    (width shift bit : Nat)
    (reaches : shift + 8 ≤ xlen.bits)
    (inside : shift + 8 ≤ width) :
    ((0xFF#(xlen.bits) <<< shift).setWidth width).getLsbD bit =
      decide (shift ≤ bit ∧ bit < shift + 8) := by
  have byte (index : Nat) : (0xFF#(xlen.bits)).getLsbD index = decide (index < 8) := by
    rw [BitVec.getLsbD_ofNat, show (0xFF : Nat) = 2 ^ 8 - 1 from rfl,
      Nat.testBit_two_pow_sub_one]
    by_cases low : index < 8
    · simp [low, show index < xlen.bits by omega]
    · simp [low]
  rw [BitVec.getLsbD_setWidth, BitVec.getLsbD_shiftLeft, byte]
  apply Bool.eq_iff_iff.mpr
  simp only [Bool.and_eq_true, Bool.not_eq_true', decide_eq_true_eq,
    decide_eq_false_iff_not]
  omega

variable {xlen : Xlen} {width i shift place : Nat} {val : BitVec width}

/-- A byte that a turn moves down. -/
theorem extract_down
    (reaches : 8 * shift + 8 ≤ xlen.bits)
    (inside : 8 * shift + 8 ≤ width) :
    ((val >>> i) &&& (0xFF#(xlen.bits) <<< (8 * shift)).setWidth width).extractLsb'
        (8 * place) 8 =
      if place = shift then val.extractLsb' (i + 8 * shift) 8 else 0 := by
  apply BitVec.eq_of_getLsbD_eq
  intro bit small
  rw [BitVec.getLsbD_extractLsb', BitVec.getLsbD_and, BitVec.getLsbD_ushiftRight,
    getLsbD_mask xlen width _ _ reaches inside]
  split_ifs with same
  · rw [same, BitVec.getLsbD_extractLsb', Nat.add_assoc]
    simp [small]
  · have apart : ¬(8 * shift ≤ 8 * place + bit ∧ 8 * place + bit < 8 * shift + 8) := by
      omega
    rw [decide_eq_false apart]
    simp

/-- A byte that a turn moves up. -/
theorem extract_up
    (reaches : 8 * shift + 8 ≤ xlen.bits)
    (inside : 8 * shift + 8 ≤ width)
    (from_below : i ≤ 8 * shift) :
    ((val <<< i) &&& (0xFF#(xlen.bits) <<< (8 * shift)).setWidth width).extractLsb'
        (8 * place) 8 =
      if place = shift then val.extractLsb' (8 * shift - i) 8 else 0 := by
  apply BitVec.eq_of_getLsbD_eq
  intro bit small
  rw [BitVec.getLsbD_extractLsb', BitVec.getLsbD_and, BitVec.getLsbD_shiftLeft,
    getLsbD_mask xlen width _ _ reaches inside]
  split_ifs with same
  · rw [same, BitVec.getLsbD_extractLsb',
      show 8 * shift - i + bit = 8 * shift + bit - i by omega]
    simp [small, show 8 * shift + bit < width by omega,
      show ¬8 * shift + bit < i by omega]
  · have apart : ¬(8 * shift ≤ 8 * place + bit ∧ 8 * place + bit < 8 * shift + 8) := by
      omega
    rw [decide_eq_false apart]
    simp

end Masks

section Bytes

/-! ## Bytes in reverse order -/

/-- The bytes of a number, the lowest first. -/
def numberBytes (val : BitVec width) : List Byte :=
  (List.range (width / 8)).map fun place => val.extractLsb' (8 * place) 8

theorem getElem_numberBytes
    (val : BitVec width)
    (place : Nat)
    (inside : place < (numberBytes val).length) :
    (numberBytes val)[place] = val.extractLsb' (8 * place) 8 := by
  simp [numberBytes]

/-- A number of whole bytes is known from its bytes. -/
theorem numberBytes_injective
    (whole : width % 8 = 0) :
    Function.Injective (numberBytes : BitVec width → List Byte) := by
  intro val other same
  apply BitVec.eq_of_getLsbD_eq
  intro bit inside
  have place : bit / 8 < (numberBytes val).length := by
    rw [numberBytes, List.length_map, List.length_range]
    omega
  have bytes := congrArg (·[bit / 8]?) same
  have otherPlace : bit / 8 < (numberBytes other).length := by
    rwa [← same]
  simp only [List.getElem?_eq_getElem place, List.getElem?_eq_getElem otherPlace,
    getElem_numberBytes, Option.some.injEq] at bytes
  have bits := congrArg (·.getLsbD (bit % 8)) bytes
  simp only [BitVec.getLsbD_extractLsb', Nat.mod_lt bit (show 0 < 8 by decide),
    decide_true, Bool.true_and, Nat.div_add_mod] at bits
  exact bits

variable (xlen : Xlen)

/-- Where every place of a number gets the byte of the opposite place, the bytes
are in reverse order. -/
theorem numberBytes_reverse
    {val swapped : BitVec width}
    (opposite :
      ∀ place < width / 8,
        swapped.extractLsb' (8 * place) 8 =
          val.extractLsb' (8 * (width / 8 - 1 - place)) 8) :
    numberBytes swapped = (numberBytes val).reverse := by
  have lengths (number : BitVec width) : (numberBytes number).length = width / 8 := by
    rw [numberBytes, List.length_map, List.length_range]
  apply List.ext_getElem
  · rw [List.length_reverse, lengths, lengths]
  · intro place inside _
    rw [lengths] at inside
    rw [List.getElem_reverse, getElem_numberBytes, getElem_numberBytes,
      opposite place inside, lengths]

/-- The conversion of 32 bits takes two turns. -/
theorem dtb_parse_swap_endianess_32
    (val : BitVec 32) :
    dtb_parse_swap_endianess xlen val =
      0#32 ||| ((val >>> 8) &&& (0xFF#(xlen.bits) <<< (8 * 1)).setWidth 32) |||
        ((val <<< 8) &&& (0xFF#(xlen.bits) <<< (8 * 2)).setWidth 32) |||
        ((val >>> 24) &&& (0xFF#(xlen.bits) <<< (8 * 0)).setWidth 32) |||
        ((val <<< 24) &&& (0xFF#(xlen.bits) <<< (8 * 3)).setWidth 32) := by
  rw [dtb_parse_swap_endianess, swap_endianess_loop, if_pos (by decide),
    swap_endianess_loop, if_pos (by decide), swap_endianess_loop,
    if_neg (by decide)]
  rfl

/-- The conversion of 64 bits takes four turns. -/
theorem dtb_parse_swap_endianess_64
    (val : BitVec 64) :
    dtb_parse_swap_endianess xlen val =
      0#64 ||| ((val >>> 8) &&& (0xFF#(xlen.bits) <<< (8 * 3)).setWidth 64) |||
        ((val <<< 8) &&& (0xFF#(xlen.bits) <<< (8 * 4)).setWidth 64) |||
        ((val >>> 24) &&& (0xFF#(xlen.bits) <<< (8 * 2)).setWidth 64) |||
        ((val <<< 24) &&& (0xFF#(xlen.bits) <<< (8 * 5)).setWidth 64) |||
        ((val >>> 40) &&& (0xFF#(xlen.bits) <<< (8 * 1)).setWidth 64) |||
        ((val <<< 40) &&& (0xFF#(xlen.bits) <<< (8 * 6)).setWidth 64) |||
        ((val >>> 56) &&& (0xFF#(xlen.bits) <<< (8 * 0)).setWidth 64) |||
        ((val <<< 56) &&& (0xFF#(xlen.bits) <<< (8 * 7)).setWidth 64) := by
  rw [dtb_parse_swap_endianess, swap_endianess_loop, if_pos (by decide),
    swap_endianess_loop, if_pos (by decide), swap_endianess_loop,
    if_pos (by decide), swap_endianess_loop, if_pos (by decide),
    swap_endianess_loop, if_neg (by decide)]
  rfl

theorem numberBytes_swap_32
    (val : BitVec 32) :
    numberBytes (dtb_parse_swap_endianess xlen val) = (numberBytes val).reverse := by
  have reaches : 32 ≤ xlen.bits := by
    cases xlen <;> decide
  apply numberBytes_reverse
  intro place inside
  rw [dtb_parse_swap_endianess_32]
  simp (disch := omega) only [BitVec.extractLsb'_or, extract_down, extract_up]
  have place_lt : place < 4 := inside
  interval_cases place <;> simp

theorem numberBytes_swap_64
    (val : BitVec 64) :
    numberBytes (dtb_parse_swap_endianess .rv64 val) = (numberBytes val).reverse := by
  have reaches : Xlen.rv64.bits = 64 := rfl
  apply numberBytes_reverse
  intro place inside
  rw [dtb_parse_swap_endianess_64]
  simp (disch := omega) only [BitVec.extractLsb'_or, extract_down, extract_up]
  have place_lt : place < 8 := inside
  interval_cases place <;> simp

/-- Numbers whose bytes are reversed twice are what they were. -/
theorem dtb_parse_swap_endianess_twice
    (val : BitVec 32) :
    dtb_parse_swap_endianess xlen (dtb_parse_swap_endianess xlen val) = val := by
  apply numberBytes_injective (by decide)
  rw [numberBytes_swap_32, numberBytes_swap_32, List.reverse_reverse]

end Bytes

section Conversion

/-! ## The conversions -/

/-- The shifts of the conversion of a number. -/
def conversion_shifts (xlen : Xlen) (width : Nat) : List Shift :=
  swap_endianess_shifts xlen width 8 (width / 2) (width / 2 - 8)

/-- What the conversion of a number should do. -/
structure Converts (xlen : Xlen) (val : BitVec width) : Prop where
  reversed :
    numberBytes (dtb_parse_swap_endianess xlen val) = (numberBytes val).reverse
  inverse : dtb_parse_swap_endianess xlen (dtb_parse_swap_endianess xlen val) = val
  /-- No shift is by the width of its left operand or more. -/
  defined : ∀ shift ∈ conversion_shifts xlen width, shift.amount < shift.width

theorem conversion_shifts_32
    (xlen : Xlen) :
    conversion_shifts xlen 32 =
      [⟨32, 8⟩, ⟨xlen.bits, 8⟩, ⟨32, 8⟩, ⟨xlen.bits, 16⟩,
        ⟨32, 24⟩, ⟨xlen.bits, 0⟩, ⟨32, 24⟩, ⟨xlen.bits, 24⟩] := by
  rw [conversion_shifts, swap_endianess_shifts, if_pos (by decide),
    swap_endianess_shifts, if_pos (by decide), swap_endianess_shifts,
    if_neg (by decide)]
  rfl

theorem conversion_shifts_64
    (xlen : Xlen) :
    conversion_shifts xlen 64 =
      [⟨64, 8⟩, ⟨xlen.bits, 24⟩, ⟨64, 8⟩, ⟨xlen.bits, 32⟩,
        ⟨64, 24⟩, ⟨xlen.bits, 16⟩, ⟨64, 24⟩, ⟨xlen.bits, 40⟩,
        ⟨64, 40⟩, ⟨xlen.bits, 8⟩, ⟨64, 40⟩, ⟨xlen.bits, 48⟩,
        ⟨64, 56⟩, ⟨xlen.bits, 0⟩, ⟨64, 56⟩, ⟨xlen.bits, 56⟩] := by
  rw [conversion_shifts, swap_endianess_shifts, if_pos (by decide),
    swap_endianess_shifts, if_pos (by decide), swap_endianess_shifts,
    if_pos (by decide), swap_endianess_shifts, if_pos (by decide),
    swap_endianess_shifts, if_neg (by decide)]
  rfl

theorem converts_32
    (xlen : Xlen)
    (val : BitVec 32) :
    Converts xlen val := by
  refine ⟨numberBytes_swap_32 xlen val, dtb_parse_swap_endianess_twice xlen val, ?_⟩
  rw [conversion_shifts_32]
  cases xlen <;> decide

theorem converts_64
    (val : BitVec 64) :
    Converts .rv64 val := by
  refine ⟨numberBytes_swap_64 val, ?_, ?_⟩
  · apply numberBytes_injective (by decide)
    rw [numberBytes_swap_64, numberBytes_swap_64, List.reverse_reverse]
  · rw [conversion_shifts_64]
    decide

/-- A mask for the fifth byte is shifted by 32 bits. -/
theorem shift_past_mask : ⟨Xlen.rv32.bits, 32⟩ ∈ conversion_shifts .rv32 64 := by
  rw [conversion_shifts_64]
  decide

/-- The conversion of 64 bits needs registers of 64 bits. -/
theorem conversions_iff
    (xlen : Xlen) :
    (∀ val : BitVec 32, Converts xlen val) ∧
      ∀ val : BitVec 64, Converts xlen val ↔ xlen = .rv64 := by
  refine ⟨converts_32 xlen, fun val => ⟨fun converts => ?_, ?_⟩⟩
  · cases xlen with
    | rv32 => exact absurd (converts.defined _ shift_past_mask) (Nat.lt_irrefl _)
    | rv64 => rfl
  · rintro rfl
    exact converts_64 val

/-- On 32 bits the lowest byte is lost: the mask for its place is 0. -/
theorem conversion_loses_byte :
    dtb_parse_swap_endianess .rv32 (1 : BitVec 64) = 0 ∧
      ¬Converts .rv32 (1 : BitVec 64) := by
  have lost : dtb_parse_swap_endianess .rv32 (1 : BitVec 64) = 0 := by
    rw [dtb_parse_swap_endianess_64]
    decide
  refine ⟨lost, fun converts => ?_⟩
  have reversed := converts.reversed
  rw [lost] at reversed
  exact absurd reversed (by decide)

end Conversion

end DataParse
end EchelonSbi
