import EchelonSbi.DataParse.SwapEndianess
import Mathlib.Data.List.TakeWhile
import Mathlib.Tactic.IntervalCases

/-!
# The scan finds the two properties

The scan goes from token to token of the structure block, whatever the names
and the values contain.
-/

namespace EchelonSbi
namespace DataParse

open Foundation

section Numbers

/-! ## Numbers in host order -/

/-- The bytes of a number, read by a little-endian host and swapped. -/
theorem bytes_swapped_whole
    (xlen : Xlen)
    (value : BitVec 32) :
    dtb_parse_swap_endianess xlen
      ((value.setWidth 8).setWidth 32 <<< 24 |||
        ((value >>> 8).setWidth 8).setWidth 32 <<< 16 |||
          ((value >>> 16).setWidth 8).setWidth 32 <<< 8 |||
            ((value >>> 24).setWidth 8).setWidth 32) = value := by
  apply numberBytes_injective (by decide)
  have bytes (first second third fourth : Byte) :
      numberBytes (first.setWidth 32 <<< 24 ||| second.setWidth 32 <<< 16 |||
        third.setWidth 32 <<< 8 ||| fourth.setWidth 32) =
          [fourth, third, second, first] := by
    refine List.cons_eq_cons.mpr ⟨?_, List.cons_eq_cons.mpr ⟨?_,
      List.cons_eq_cons.mpr ⟨?_, List.cons_eq_cons.mpr ⟨?_, rfl⟩⟩⟩⟩
    all_goals
      apply BitVec.eq_of_getLsbD_eq
      intro bit small
      have below : bit < 16 ∧ bit < 24 ∧ bit < 32 ∧ 8 + bit < 16 ∧ 8 + bit < 24 ∧
          8 + bit < 32 ∧ 16 + bit < 24 ∧ 16 + bit < 32 ∧ 24 + bit < 32 := by
        omega
      simp (disch := omega) [small, below, BitVec.getLsbD_of_ge]
  rw [numberBytes_swap_32, bytes]
  rfl

theorem wordAt_eq
    {xlen : Xlen}
    {memory : Memory}
    {value : BitVec 32}
    {pointer offset : Nat}
    (holds : memory.Holds (pointer + offset) (bigEndian32 value))
    (fits : pointer + offset + 3 < xlen.size) :
    dtb_parse_swap_endianess xlen (wordAt xlen memory pointer offset) = value := by
  simp only [bigEndian32, Memory.Holds.cons_iff] at holds
  obtain ⟨first, second, third, fourth, -⟩ := holds
  unfold wordAt fromPointer
  simp only [Nat.add_zero]
  rw [Xlen.wrap_of_lt (by omega), Xlen.wrap_of_lt (by omega),
    Xlen.wrap_of_lt (by omega), Xlen.wrap_of_lt (by omega)]
  simp only [Nat.add_assoc, Nat.reduceAdd] at first second third fourth ⊢
  rw [first, second, third, fourth]
  exact bytes_swapped_whole xlen value

end Numbers

section Values

/-! ## Values -/

/-- Append the bytes of a value to a number. -/
def appended (number : BitVec width) (value : List Byte) : BitVec width :=
  value.foldl (fun number byte => number <<< 8 ||| byte.setWidth width) number

theorem shift_or_byte
    (number : Nat)
    (byte : Byte) :
    (BitVec.ofNat width number <<< 8 ||| byte.setWidth width) =
      BitVec.ofNat width (number * 256 + byte.toNat) := by
  apply BitVec.eq_of_getLsbD_eq
  intro i inside
  rw [Nat.mul_comm, BitVec.getLsbD_ofNat,
    Nat.testBit_two_pow_mul_add number byte.isLt]
  by_cases lower : i < 8
  · simp [inside, lower, BitVec.getElem_eq_testBit_toNat]
  · have upper : i - 8 < width := by omega
    have past : byte.getLsbD i = false := BitVec.getLsbD_of_ge _ _ (by omega)
    have bit : (BitVec.ofNat width number).getLsbD (i - 8) =
        number.testBit (i - 8) := by
      rw [BitVec.getLsbD_ofNat, decide_eq_true upper, Bool.true_and]
    rw [BitVec.getLsbD_or, BitVec.getLsbD_shiftLeft, BitVec.getLsbD_setWidth,
      past, bit]
    simp [inside, lower]

theorem appended_ofNat
    (number : Nat)
    (value : List Byte) :
    appended (BitVec.ofNat width number) value =
      BitVec.ofNat width
        (value.foldl (fun number byte => number * 256 + byte.toNat) number) := by
  induction value generalizing number with
  | nil => rfl
  | cons byte value inductionHypothesis =>
      rw [appended, List.foldl_cons, shift_or_byte, List.foldl_cons]
      exact inductionHypothesis _

theorem shift_in_eq
    {xlen : Xlen}
    {memory : Memory}
    {value : List Byte}
    {byte_ptr : Nat}
    (holds : memory.Holds byte_ptr value)
    (fits : byte_ptr + value.length ≤ xlen.size)
    (initial : Word xlen) :
    shift_in xlen memory byte_ptr value.length initial =
      appended initial value := by
  induction value using List.reverseRecOn with
  | nil => rfl
  | append_singleton value byte inductionHypothesis =>
      obtain ⟨earlier, last⟩ := Memory.Holds.append_iff.mp holds
      rw [List.length_append, List.length_singleton] at fits ⊢
      have here : fromPointer xlen memory byte_ptr value.length = byte := by
        rw [fromPointer, Xlen.wrap_of_lt (by omega)]
        exact last 0 Nat.zero_lt_one
      have before := inductionHypothesis earlier (by omega)
      rw [shift_in] at before ⊢
      rw [List.range_succ, List.foldl_append, before, appended, appended,
        List.foldl_append, List.foldl_cons, List.foldl_nil, List.foldl_cons,
        List.foldl_nil, here]

end Values

section Names

/-! ## Names -/

theorem eq_takeWhile
    {bytes : List Byte}
    (ended : 0 ∈ bytes) :
    ∃ rest, bytes = bytes.takeWhile (· ≠ 0) ++ [0] ++ rest := by
  induction bytes with
  | nil => exact absurd ended List.not_mem_nil
  | cons byte bytes inductionHypothesis =>
      by_cases last : byte = 0
      · exact ⟨bytes, by simp [last]⟩
      · have later : 0 ∈ bytes := by
          rcases List.mem_cons.mp ended with same | later
          · exact absurd same.symm last
          · exact later
        obtain ⟨rest, same⟩ := inductionHypothesis later
        refine ⟨rest, ?_⟩
        rw [List.takeWhile_cons_of_pos (by simpa using last), List.cons_append,
          List.cons_append, ← same]

theorem stringAt_spells
    {xlen : Xlen}
    {memory : Memory}
    {strings : List Byte}
    {address offset : Nat}
    (holds : memory.Holds address strings)
    (fits : address + strings.length ≤ xlen.size)
    (ended : 0 ∈ strings.drop offset) :
    Spells (fromPointer xlen memory (xlen.wrap (address + offset)))
      (stringAt strings offset) := by
  have inside : offset < strings.length := by
    by_contra past
    rw [List.drop_eq_nil_of_le (by omega)] at ended
    exact absurd ended List.not_mem_nil
  obtain ⟨rest, same⟩ := eq_takeWhile ended
  rw [← List.take_append_drop offset strings] at holds
  have here := (Memory.Holds.append_iff.mp holds).2
  rw [List.length_take, Nat.min_eq_left (by omega), same] at here
  have lengths := congrArg List.length same
  simp only [List.length_drop, List.length_append, List.length_singleton]
    at lengths
  rw [Xlen.wrap_of_lt (by omega)]
  refine fromPointer_spells (Memory.Holds.append_iff.mp here).1 ?_ ?_
  · rw [stringAt]
    omega
  · intro member
    simpa using List.mem_takeWhile_imp member

end Names

section Scan

/-! ## The scan -/

/-- What a token adds to the number of the properties with a name. -/
def Token.collect
    (strings name : List Byte) (number : BitVec width) : Token → BitVec width
  | .property nameoff value =>
      if stringAt strings nameoff.toNat = name then appended number value
      else number
  | _ => number

theorem align_to_struct_eq
    (xlen : Xlen)
    (dt_struct size : Nat)
    (fits : dt_struct + size + (4 - size % 4) % 4 < xlen.size) :
    align_to_struct xlen dt_struct (dt_struct + size) =
      dt_struct + (size + (4 - size % 4) % 4) := by
  have offset : xlen.wrap (dt_struct + size + (xlen.size - dt_struct)) = size := by
    rw [show dt_struct + size + (xlen.size - dt_struct) = xlen.size + size by omega,
      Xlen.wrap_of_le (by omega) (by omega), Nat.add_sub_cancel_left]
  simp only [align_to_struct, offset]
  split_ifs with odd
  · have rounded : xlen.wrap (size - size % 4 + 4) = size - size % 4 + 4 :=
      Xlen.wrap_of_lt (by omega)
    rw [rounded, Xlen.wrap_of_lt (by omega)]
    omega
  · rw [Xlen.wrap_of_lt (by omega)]
    omega

theorem padded4_length
    (bytes : List Byte) :
    (padded4 bytes).length = bytes.length + (4 - bytes.length % 4) % 4 := by
  rw [padded4, List.length_append, List.length_replicate]

theorem bigEndian32_length
    (value : BitVec 32) :
    (bigEndian32 value).length = 4 :=
  rfl

section Turns

variable {xlen : Xlen} {memory : Memory} {strings : List Byte}
  {dt_struct dt_strings size_dt_struct : Nat} {scan : TreeScan xlen}

/-- The scan is at a token that `bytes` are, with room for another one. -/
structure AtToken
    (xlen : Xlen) (memory : Memory)
    (dt_struct dt_strings size_dt_struct : Nat) (scan : TreeScan xlen)
    (bytes : List Byte) : Prop where
  holds : memory.Holds scan.i bytes
  inStruct : scan.i + bytes.length ≤ dt_struct + size_dt_struct
  ordered : dt_struct + size_dt_struct ≤ dt_strings
  fits : dt_strings < xlen.size
  started : dt_struct ≤ scan.i
  aligned : (scan.i - dt_struct) % 4 = 0

/-- The token word. -/
theorem AtToken.token
    {word : BitVec 32}
    {rest : List Byte}
    (here : AtToken xlen memory dt_struct dt_strings size_dt_struct scan
      (bigEndian32 word ++ rest)) :
    (scan.i < dt_strings ∧ scan.i < xlen.wrap (dt_struct + size_dt_struct)) ∧
      dtb_parse_swap_endianess xlen (wordAt xlen memory scan.i 0) = word := by
  obtain ⟨holds, inStruct, ordered, fits, -, -⟩ := here
  rw [List.length_append, bigEndian32_length] at inStruct
  refine ⟨⟨by omega, ?_⟩, ?_⟩
  · rw [Xlen.wrap_of_lt (by omega)]
    omega
  · exact wordAt_eq (Memory.Holds.append_iff.mp holds).1 (by omega)

/-- The scan goes on past a token that is a number only. -/
theorem turn_at_word
    {word : BitVec 32}
    {rest : List Byte}
    (here : AtToken xlen memory dt_struct dt_strings size_dt_struct scan
      (bigEndian32 word ++ rest))
    (more : 0 < rest.length)
    (plain : word = FDT_END_NODE ∨ word = FDT_NOP) :
    ∃ next, scan_turn xlen memory (dtb_parse_swap_endianess xlen) dt_struct dt_strings
        size_dt_struct scan = .again next ∧
      next.i = scan.i + 4 ∧
      next.linux_initrd_start = scan.linux_initrd_start ∧
      next.linux_initrd_end = scan.linux_initrd_end := by
  obtain ⟨inBlocks, token⟩ := here.token
  have inside : scan.i + 4 < xlen.size := by
    obtain ⟨-, inStruct, ordered, fits, -, -⟩ := here
    rw [List.length_append, bigEndian32_length] at inStruct
    omega
  unfold scan_turn
  rw [if_pos inBlocks]
  simp only [token, Xlen.wrap_of_lt inside]
  rcases plain with rfl | rfl
  · rw [if_neg (by decide), if_pos rfl]
    exact ⟨_, rfl, rfl, rfl, rfl⟩
  · rw [if_neg (by decide), if_neg (by decide), if_neg (by decide), if_pos rfl]
    exact ⟨_, rfl, rfl, rfl, rfl⟩

/-- The scan goes on past the name of a node. -/
theorem turn_at_node
    {name rest : List Byte}
    (proper : 0 ∉ name)
    (here : AtToken xlen memory dt_struct dt_strings size_dt_struct scan
      (bigEndian32 1 ++ (padded4 (name ++ [0]) ++ rest)))
    (more : 0 < rest.length) :
    ∃ next, scan_turn xlen memory (dtb_parse_swap_endianess xlen) dt_struct dt_strings
        size_dt_struct scan = .again next ∧
      next.i = scan.i + 4 + (padded4 (name ++ [0])).length ∧
      next.linux_initrd_start = scan.linux_initrd_start ∧
      next.linux_initrd_end = scan.linux_initrd_end := by
  obtain ⟨inBlocks, token⟩ := here.token
  obtain ⟨holds, inStruct, ordered, fits, started, aligned⟩ := here
  simp only [List.length_append, bigEndian32_length, padded4_length,
    List.length_singleton] at inStruct
  have next : xlen.wrap (scan.i + 4) = scan.i + 4 := Xlen.wrap_of_lt (by omega)
  have spells : Spells (fromPointer xlen memory (scan.i + 4)) name := by
    have named := (Memory.Holds.append_iff.mp
      (Memory.Holds.append_iff.mp holds).2).1
    exact fromPointer_spells (Memory.Holds.append_iff.mp named).1 (by omega) proper
  have short : name.length < xlen.size := by omega
  have past : xlen.wrap (scan.i + 4 + name.length + 1) =
      dt_struct + (scan.i - dt_struct + 4 + (name.length + 1)) := by
    rw [Xlen.wrap_of_lt (by omega)]
    omega
  have aligns := align_to_struct_eq xlen dt_struct
    (scan.i - dt_struct + 4 + (name.length + 1)) (by omega)
  unfold scan_turn
  rw [if_pos inBlocks]
  simp only [token, next, strlen_eq spells short, past, aligns]
  rw [if_neg (by decide), if_neg (by decide), if_pos (by decide)]
  refine ⟨_, rfl, ?_, rfl, rfl⟩
  rw [padded4_length, List.length_append, List.length_singleton]
  simp only
  omega

/-- The scan goes on past a property, and takes its value where it has one of
the two names. -/
theorem turn_at_property
    {nameoff : BitVec 32}
    {value rest : List Byte}
    (proper : 0 ∈ strings.drop nameoff.toNat)
    (named : memory.Holds dt_strings strings)
    (stringsFit : dt_strings + strings.length ≤ xlen.size)
    (stringsShort : strings.length < 2 ^ 32)
    (here : AtToken xlen memory dt_struct dt_strings size_dt_struct scan
      (bigEndian32 3 ++ (bigEndian32 (BitVec.ofNat 32 value.length) ++
        (bigEndian32 nameoff ++ (padded4 value ++ rest)))))
    (sized : value.length < 2 ^ 32)
    (more : 0 < rest.length) :
    ∃ next, scan_turn xlen memory (dtb_parse_swap_endianess xlen) dt_struct dt_strings
        size_dt_struct scan = .again next ∧
      next.i = scan.i + 12 + (padded4 value).length ∧
      next.linux_initrd_start =
        (Token.property nameoff value).collect strings INITRD_START
          scan.linux_initrd_start ∧
      next.linux_initrd_end =
        (Token.property nameoff value).collect strings INITRD_END
          scan.linux_initrd_end := by
  obtain ⟨inBlocks, token⟩ := here.token
  obtain ⟨holds, inStruct, ordered, fits, started, aligned⟩ := here
  simp only [List.length_append, bigEndian32_length, padded4_length] at inStruct
  have next : xlen.wrap (scan.i + 4) = scan.i + 4 := Xlen.wrap_of_lt (by omega)
  have after : xlen.wrap (scan.i + 4 + 8) = scan.i + 12 :=
    Xlen.wrap_of_lt (by omega)
  obtain ⟨lenHolds, holds⟩ := Memory.Holds.append_iff.mp
    (Memory.Holds.append_iff.mp holds).2
  obtain ⟨nameHolds, holds⟩ := Memory.Holds.append_iff.mp holds
  have valueHolds := (Memory.Holds.append_iff.mp
    (Memory.Holds.append_iff.mp holds).1).1
  simp only [bigEndian32_length] at lenHolds nameHolds valueHolds
  have len : dtb_parse_swap_endianess xlen (wordAt xlen memory (scan.i + 4) 0) =
      BitVec.ofNat 32 value.length :=
    wordAt_eq lenHolds (by omega)
  have off : dtb_parse_swap_endianess xlen (wordAt xlen memory (scan.i + 4) 4) =
      nameoff :=
    wordAt_eq nameHolds (by omega)
  have lenNat : (BitVec.ofNat 32 value.length).toNat = value.length := by
    rw [BitVec.toNat_ofNat, Nat.mod_eq_of_lt sized]
  have name := stringAt_spells named stringsFit proper
  have short : (stringAt strings nameoff.toNat).length < 2 ^ 32 := by
    have part : (stringAt strings nameoff.toNat).length ≤ strings.length :=
      (List.takeWhile_sublist _).length_le.trans (List.drop_sublist _ _).length_le
    omega
  have start : Spells (literal INITRD_START) INITRD_START :=
    literal_spells (by decide)
  have finish : Spells (literal INITRD_END) INITRD_END :=
    literal_spells (by decide)
  have valueFits : scan.i + 12 + value.length ≤ xlen.size := by omega
  have past : xlen.wrap (scan.i + 12 + value.length) =
      dt_struct + (scan.i - dt_struct + 12 + value.length) := by
    rw [Xlen.wrap_of_lt (by omega)]
    omega
  have aligns : align_to_struct xlen dt_struct
      (dt_struct + (scan.i - dt_struct + 12 + value.length)) =
        scan.i + 12 + (padded4 value).length := by
    rw [align_to_struct_eq xlen dt_struct
      (scan.i - dt_struct + 12 + value.length) (by omega), padded4_length]
    omega
  have turn : scan_turn xlen memory (dtb_parse_swap_endianess xlen) dt_struct dt_strings
      size_dt_struct scan = property_turn xlen memory (dtb_parse_swap_endianess xlen)
        dt_struct dt_strings scan := by
    unfold scan_turn
    rw [if_pos inBlocks]
    simp only [token]
    rw [if_neg (by decide), if_neg (by decide), if_neg (by decide),
      if_neg (by decide), if_pos (by decide)]
  rw [turn]
  unfold property_turn
  simp only [next, len, off, after, lenNat, past, aligns,
    strcmp_eq name start short, strcmp_eq name finish short,
    shift_in_eq valueHolds valueFits, Token.collect]
  by_cases isStart : stringAt strings nameoff.toNat = INITRD_START
  · have notEnd : INITRD_START ≠ INITRD_END := by decide
    simp only [isStart, if_pos, if_neg notEnd]
    exact ⟨_, rfl, rfl, rfl, rfl⟩
  · by_cases isEnd : stringAt strings nameoff.toNat = INITRD_END
    · have notStart : INITRD_END ≠ INITRD_START := by decide
      simp only [isEnd, if_pos, if_neg notStart]
      exact ⟨_, rfl, rfl, rfl, rfl⟩
    · simp only [if_neg isStart, if_neg isEnd]
      exact ⟨_, rfl, rfl, rfl, rfl⟩

end Turns

/-- One turn of the scan goes on to the token after this one. -/
theorem turn_at_token
    {xlen : Xlen}
    {memory : Memory}
    {strings rest : List Byte}
    {token : Token}
    {dt_struct dt_strings size_dt_struct : Nat}
    {scan : TreeScan xlen}
    (proper : token.Proper strings)
    (named : memory.Holds dt_strings strings)
    (stringsFit : dt_strings + strings.length ≤ xlen.size)
    (stringsShort : strings.length < 2 ^ 32)
    (here : AtToken xlen memory dt_struct dt_strings size_dt_struct scan
      (token.encode ++ rest))
    (structShort : size_dt_struct < 2 ^ 32)
    (more : 0 < rest.length) :
    ∃ next, scan_turn xlen memory (dtb_parse_swap_endianess xlen) dt_struct dt_strings
        size_dt_struct scan = .again next ∧
      next.i = scan.i + token.encode.length ∧
      next.linux_initrd_start =
        token.collect strings INITRD_START scan.linux_initrd_start ∧
      next.linux_initrd_end =
        token.collect strings INITRD_END scan.linux_initrd_end := by
  cases token with
  | endNode => exact turn_at_word here more (.inl rfl)
  | nop => exact turn_at_word here more (.inr rfl)
  | beginNode name =>
      rw [Token.encode, List.append_assoc] at here
      obtain ⟨next, turn, moved, start, finish⟩ := turn_at_node proper here more
      refine ⟨next, turn, ?_, start, finish⟩
      rw [moved, Token.encode, List.length_append, bigEndian32_length]
      omega
  | property nameoff value =>
      have sized : value.length < 2 ^ 32 := by
        have inside := here.inStruct
        have started := here.started
        simp only [Token.encode, List.length_append, padded4_length] at inside
        omega
      rw [Token.encode, List.append_assoc, List.append_assoc, List.append_assoc]
        at here
      obtain ⟨next, turn, moved, start, finish⟩ :=
        turn_at_property proper named stringsFit stringsShort here sized more
      refine ⟨next, turn, ?_, start, finish⟩
      rw [moved, Token.encode, List.length_append, List.length_append,
        List.length_append, bigEndian32_length, bigEndian32_length,
        bigEndian32_length]
      omega

theorem Token.encode_aligned
    (token : Token) :
    token.encode.length % 4 = 0 := by
  cases token with
  | endNode => rfl
  | nop => rfl
  | beginNode name =>
      rw [encode, List.length_append, bigEndian32_length, padded4_length]
      omega
  | property nameoff value =>
      rw [encode, List.length_append, List.length_append, List.length_append,
        bigEndian32_length, bigEndian32_length, bigEndian32_length,
        padded4_length]
      omega

/-- What the tokens make of the number of the properties with a name. -/
def collected
    (strings name : List Byte) (tokens : List Token) (number : BitVec width) :
    BitVec width :=
  tokens.foldl (fun number token => token.collect strings name number) number

/-- The scan goes through all tokens. -/
theorem scan_tokens
    {xlen : Xlen}
    {memory : Memory}
    {strings : List Byte}
    {tokens : List Token}
    {dt_struct dt_strings size_dt_struct : Nat}
    {scan : TreeScan xlen}
    (proper : ∀ token ∈ tokens, token.Proper strings)
    (named : memory.Holds dt_strings strings)
    (stringsFit : dt_strings + strings.length ≤ xlen.size)
    (stringsShort : strings.length < 2 ^ 32)
    (here : AtToken xlen memory dt_struct dt_strings size_dt_struct scan
      (tokens.flatMap Token.encode ++ bigEndian32 9))
    (structShort : size_dt_struct < 2 ^ 32) :
    ∃ final, Returns (scan_turn xlen memory (dtb_parse_swap_endianess xlen) dt_struct
        dt_strings size_dt_struct) scan final ∧
      final.linux_initrd_start =
        collected strings INITRD_START tokens scan.linux_initrd_start ∧
      final.linux_initrd_end =
        collected strings INITRD_END tokens scan.linux_initrd_end := by
  induction tokens generalizing scan with
  | nil =>
      rw [List.flatMap_nil, List.nil_append, ← List.append_nil (bigEndian32 9)]
        at here
      obtain ⟨inBlocks, token⟩ := here.token
      refine ⟨scan, .of_leave ?_, rfl, rfl⟩
      unfold scan_turn
      rw [if_pos inBlocks]
      simp only [token]
      rw [if_pos (by decide)]
  | cons token tokens inductionHypothesis =>
      rw [List.flatMap_cons, List.append_assoc] at here
      have more : 0 < (tokens.flatMap Token.encode ++ bigEndian32 9).length := by
        rw [List.length_append, bigEndian32_length]
        omega
      obtain ⟨next, turn, moved, start, finish⟩ := turn_at_token
        (proper token (by simp)) named stringsFit stringsShort here structShort
        more
      obtain ⟨holds, inStruct, ordered, fits, started, aligned⟩ := here
      have size := token.encode_aligned
      rw [List.length_append] at inStruct
      have later : AtToken xlen memory dt_struct dt_strings size_dt_struct next
          (tokens.flatMap Token.encode ++ bigEndian32 9) := by
        refine ⟨?_, by omega, ordered, fits, by omega, by omega⟩
        rw [moved]
        exact (Memory.Holds.append_iff.mp holds).2
      obtain ⟨final, rest, finalStart, finalEnd⟩ := inductionHypothesis
        (fun other listed => proper other (by simp [listed])) later
      refine ⟨final, .of_again turn rest, ?_, ?_⟩
      · rw [finalStart, start]
        rfl
      · rw [finalEnd, finish]
        rfl

end Scan

section Reservations

/-- The loop over the memory reservations ends. -/
theorem rsvmap_returns
    {xlen : Xlen}
    {dt_struct i : Nat}
    (memory : Memory)
    (swap64 : BitVec 64 → BitVec 64)
    (room : dt_struct + 16 ≤ xlen.size) :
    Returns (rsvmap_turn xlen memory swap64 dt_struct) i () := by
  generalize distance : dt_struct - i = measure
  induction measure using Nat.strong_induction_on generalizing i with
  | _ measure inductionHypothesis =>
      cases turn : rsvmap_turn xlen memory swap64 dt_struct i with
      | leave result => exact .of_leave turn
      | again next =>
          have moved : i < dt_struct ∧ next = i + 16 := by
            unfold rsvmap_turn at turn
            simp only at turn
            split_ifs at turn with before
            cases turn
            exact ⟨before, Xlen.wrap_of_lt (by omega)⟩
          exact .of_again turn
            (inductionHypothesis (dt_struct - next) (by omega) rfl)

end Reservations

section Properties

/-! ## From tokens to properties -/

mutual

theorem Item.tokens_properties : (item : Item) →
    item.tokens.filterMap Token.property? = item.properties
  | .nop => rfl
  | .property nameoff value => rfl
  | .node name items => by
      rw [Item.tokens, List.cons_append, List.filterMap_cons_none rfl,
        List.filterMap_append, Item.listTokens_properties items]
      exact List.append_nil _

theorem Item.listTokens_properties : (items : List Item) →
    (Item.listTokens items).filterMap Token.property? = Item.listProperties items
  | [] => rfl
  | item :: items => by
      rw [Item.listTokens, List.filterMap_append, Item.tokens_properties item,
        Item.listTokens_properties items, Item.listProperties]

end

theorem Item.listTokens_append
    (first second : List Item) :
    Item.listTokens (first ++ second) =
      Item.listTokens first ++ Item.listTokens second := by
  induction first with
  | nil => rfl
  | cons item first inductionHypothesis =>
      rw [List.cons_append, Item.listTokens, inductionHypothesis,
        Item.listTokens, List.append_assoc]

/-- Only the properties with the name count. -/
theorem collected_eq
    (strings name : List Byte)
    (tokens : List Token)
    (number : BitVec width) :
    collected strings name tokens number =
      (((tokens.filterMap Token.property?).filter
        fun property => stringAt strings property.1.toNat = name).map
          Prod.snd).foldl appended number := by
  induction tokens generalizing number with
  | nil => rfl
  | cons token tokens inductionHypothesis =>
      rw [collected, List.foldl_cons]
      cases token with
      | property nameoff value =>
          have found : Token.property? (.property nameoff value) =
              some (nameoff, value) := rfl
          rw [List.filterMap_cons_some found]
          by_cases same : stringAt strings nameoff.toNat = name
          · rw [List.filter_cons_of_pos (by simpa using same), List.map_cons,
              List.foldl_cons, Token.collect, if_pos same]
            exact inductionHypothesis _
          · rw [List.filter_cons_of_neg (by simpa using same), Token.collect,
              if_neg same]
            exact inductionHypothesis _
      | _ => exact inductionHypothesis _

end Properties

section Search

/-! ## The search -/

namespace DeviceTree

variable (tree : DeviceTree)

/-- The number of the property with a name, 0 where there is none. -/
def number (width : Nat) (name : List Byte) : BitVec width :=
  match tree.values name with
  | [] => 0
  | value :: _ => bigEndian width value

/-- The number of all properties with a name, their values one behind the other. -/
def joined (width : Nat) (name : List Byte) : BitVec width :=
  bigEndian width (tree.values name).flatten

/-- A name on one property at most has the number of that property. -/
theorem joined_eq_number
    {width : Nat}
    {name : List Byte}
    (once : (tree.values name).length ≤ 1) :
    tree.joined width name = tree.number width name := by
  rw [joined, number]
  match values : tree.values name with
  | [] => rfl
  | [value] => rw [List.flatten_singleton]
  | _ :: _ :: _ =>
      rw [values, List.length_cons, List.length_cons] at once
      omega

theorem collected_joined
    (width : Nat)
    (name : List Byte) :
    collected tree.strings name tree.tokens (0 : BitVec width) =
      tree.joined width name := by
  rw [collected_eq, tokens, Item.listTokens_properties]
  calc (tree.values name).foldl appended (0 : BitVec width)
      = appended 0 (tree.values name).flatten := List.foldl_flatten.symm
    _ = tree.joined width name := appended_ofNat 0 _

/-- The root node takes 12 bytes, the token after it 4. -/
theorem structBlock_length : 16 ≤ tree.structBlock.length := by
  rw [structBlock, structureBlock, rooted, Item.listTokens_append,
    Item.listTokens_append, List.flatMap_append, List.flatMap_append]
  simp only [Item.listTokens, Item.tokens, List.flatMap_append,
    List.flatMap_cons, List.flatMap_nil, List.length_append, Token.encode,
    bigEndian32_length, padded4_length, List.length_singleton,
    List.append_nil]
  omega

variable {tree} {xlen : Xlen} {memory : Memory} {location : Nat}

/-- The header in host order. -/
theorem Placed.copied
    (placed : tree.Placed xlen memory location) :
    wordAt xlen memory location 0 = 0xEDFE0DD0 ∧
      fdt_header.copied (dtb_parse_swap_endianess xlen) xlen memory location =
        { magic := 0xD00DFEED
          totalsize := tree.totalsize
          off_dt_struct := tree.off_dt_struct
          off_dt_strings := tree.off_dt_strings
          off_mem_rsvmap := tree.off_mem_rsvmap
          version := 17
          last_comp_version := tree.last_comp_version
          boot_cpuid_phys := tree.boot_cpuid_phys
          size_dt_strings := BitVec.ofNat 32 tree.strings.length
          size_dt_struct := BitVec.ofNat 32 tree.structBlock.length } := by
  have whole := tree.headerInside
  have fits := placed.fits
  have words (k : Nat) (inside : k < 10) :
      dtb_parse_swap_endianess xlen (wordAt xlen memory location (4 * k)) =
        tree.headerWords.get ⟨k, inside⟩ := by
    exact wordAt_eq (placed.header.item bigEndian32_length k inside) (by omega)
  constructor
  · rw [← dtb_parse_swap_endianess_twice xlen (wordAt xlen memory location 0),
      words 0 (by decide)]
    show dtb_parse_swap_endianess xlen (0xD00DFEED : BitVec 32) = 0xEDFE0DD0
    rw [dtb_parse_swap_endianess_32]
    cases xlen <;> decide
  · simp only [fdt_header.copied]
    rw [words 0 (by decide), words 1 (by decide), words 2 (by decide),
      words 3 (by decide), words 4 (by decide), words 5 (by decide),
      words 6 (by decide), words 7 (by decide), words 8 (by decide),
      words 9 (by decide)]
    rfl

/-- Without strings there are no properties. -/
theorem joined_of_nil
    (width : Nat)
    (name : List Byte)
    (none : tree.strings = []) :
    tree.joined width name = 0 := by
  have empty : tree.tokens.filterMap Token.property? = [] := by
    rw [List.filterMap_eq_nil_iff]
    intro token listed
    have proper := tree.proper token listed
    cases token with
    | property nameoff value =>
        rw [none] at proper
        simp [Token.Proper] at proper
    | _ => rfl
  rw [tokens, Item.listTokens_properties] at empty
  rw [joined, values, empty]
  rfl

/-- The scan of the structure block returns with the two numbers. -/
theorem scan_returns
    (placed : tree.Placed xlen memory location) :
    ∃ final, Returns (scan_turn xlen memory (dtb_parse_swap_endianess xlen)
        (xlen.wrap (location + tree.off_dt_struct.toNat))
        (xlen.wrap (location + tree.off_dt_strings.toNat))
        (BitVec.ofNat 32 tree.structBlock.length).toNat)
        ⟨xlen.wrap (location + tree.off_dt_struct.toNat), 0, 0, 0⟩ final ∧
      final.linux_initrd_start = tree.joined xlen.bits INITRD_START ∧
      final.linux_initrd_end = tree.joined xlen.bits INITRD_END := by
  have size := tree.structBlock_length
  have ordered : tree.off_dt_struct.toNat + tree.structBlock.length ≤
      tree.off_dt_strings.toNat := tree.ordered
  have inside := tree.inside
  have fits := placed.fits
  have short := tree.totalsize.isLt
  have sizeNat : (BitVec.ofNat 32 tree.structBlock.length).toNat =
      tree.structBlock.length := by
    rw [BitVec.toNat_ofNat, Nat.mod_eq_of_lt (by omega)]
  have structs : xlen.wrap (location + tree.off_dt_struct.toNat) =
      location + tree.off_dt_struct.toNat :=
    Xlen.wrap_of_lt (by omega)
  rw [sizeNat, structs]
  by_cases room : location + tree.off_dt_strings.toNat < xlen.size
  · rw [Xlen.wrap_of_lt room]
    have here : AtToken xlen memory (location + tree.off_dt_struct.toNat)
        (location + tree.off_dt_strings.toNat) tree.structBlock.length
        ⟨location + tree.off_dt_struct.toNat, 0, 0, 0⟩
        (tree.tokens.flatMap Token.encode ++ bigEndian32 9) := by
      refine ⟨placed.structs, Nat.le_refl _, by omega, room, Nat.le_refl _, ?_⟩
      rw [Nat.sub_self]
    obtain ⟨final, returns, start, finish⟩ := scan_tokens tree.proper
      placed.strings (by omega) (by omega) here (by omega)
    refine ⟨final, returns, ?_, ?_⟩
    · rw [start]
      exact tree.collected_joined ..
    · rw [finish]
      exact tree.collected_joined ..
  · -- the strings block is empty and ends where memory does
    have none : tree.strings = [] := List.eq_nil_of_length_eq_zero (by omega)
    have wraps : xlen.wrap (location + tree.off_dt_strings.toNat) = 0 := by
      rw [Xlen.wrap_of_le (by omega) (by omega)]
      omega
    rw [wraps, joined_of_nil _ _ none, joined_of_nil _ _ none]
    refine ⟨⟨location + tree.off_dt_struct.toNat, 0, 0, 0⟩, .of_leave ?_, rfl,
      rfl⟩
    exact if_neg fun before => Nat.not_lt_zero _ before.1

/-- A placed tree is parsed. -/
theorem Placed.parses
    (placed : tree.Placed xlen memory location)
    (initrd_start initrd_end : Option (Word xlen)) :
    dtb_parse xlen memory location initrd_start initrd_end
      (initrd_start.map fun _ => tree.joined xlen.bits INITRD_START,
        initrd_end.map fun _ => tree.joined xlen.bits INITRD_END) := by
  obtain ⟨magic, header⟩ := placed.copied
  obtain ⟨final, returns, start, finish⟩ := DeviceTree.scan_returns placed
  have size := tree.structBlock_length
  have ordered : tree.off_dt_struct.toNat + tree.structBlock.length ≤
      tree.off_dt_strings.toNat := tree.ordered
  have inside := tree.inside
  have fits := placed.fits
  have structs : xlen.wrap (location + tree.off_dt_struct.toNat) =
      location + tree.off_dt_struct.toNat :=
    Xlen.wrap_of_lt (by omega)
  have reservations : Returns (rsvmap_turn xlen memory (dtb_parse_swap_endianess xlen)
      (xlen.wrap (location + tree.off_dt_struct.toNat)))
      (xlen.wrap (location + tree.off_mem_rsvmap.toNat)) () :=
    rsvmap_returns memory _ (by omega)
  unfold dtb_parse
  simp only [magic, header]
  rw [if_neg (by decide), if_pos trivial, ← start, ← finish]
  exact ⟨final, ⟨reservations, returns⟩, rfl⟩

end DeviceTree

/-- `dtb_parse` has at most one result. -/
theorem dtb_parse_unique
    {xlen : Xlen}
    {memory : Memory}
    {location : Nat}
    {initrd_start initrd_end : Option (Word xlen)}
    {first second : Option (Word xlen) × Option (Word xlen)}
    (left : dtb_parse xlen memory location initrd_start initrd_end first)
    (right : dtb_parse xlen memory location initrd_start initrd_end second) :
    first = second := by
  unfold dtb_parse at left right
  simp only at left right
  split at left
  · rename_i big
    rw [if_pos big] at right
    obtain ⟨final, ⟨-, returns⟩, rfl⟩ := left
    obtain ⟨other, ⟨-, otherReturns⟩, rfl⟩ := right
    rw [returns.unique otherReturns]
  · rename_i notBig
    rw [if_neg notBig] at right
    split at left
    · rename_i little
      rw [if_pos little] at right
      obtain ⟨final, ⟨-, returns⟩, rfl⟩ := left
      obtain ⟨other, ⟨-, otherReturns⟩, rfl⟩ := right
      rw [returns.unique otherReturns]
    · rename_i notLittle
      rw [if_neg notLittle] at right
      exact left.trans right.symm

/-- `dtb_parse` returns, and stores the numbers of the two properties. -/
theorem dtb_parse_initrd
    {xlen : Xlen}
    {memory : Memory}
    {location : Nat}
    {tree : DeviceTree}
    (placed : tree.Placed xlen memory location)
    (onceStart : (tree.values INITRD_START).length ≤ 1)
    (onceEnd : (tree.values INITRD_END).length ≤ 1)
    (initrd_start initrd_end : Option (Word xlen))
    (result : Option (Word xlen) × Option (Word xlen)) :
    dtb_parse xlen memory location initrd_start initrd_end result ↔
      result =
        (initrd_start.map fun _ => tree.number xlen.bits INITRD_START,
          initrd_end.map fun _ => tree.number xlen.bits INITRD_END) := by
  have parses := placed.parses initrd_start initrd_end
  rw [tree.joined_eq_number onceStart, tree.joined_eq_number onceEnd] at parses
  constructor
  · exact fun other => dtb_parse_unique other parses
  · rintro rfl
    exact parses

/-- A root node with the start of the initial file system only. -/
def startTree : DeviceTree where
  leading := 0
  name := []
  items := [.property 0 [0x86, 0, 0, 0]]
  trailing := 0
  strings := INITRD_START ++ [0]
  totalsize := 107
  off_dt_struct := 56
  off_dt_strings := 88
  off_mem_rsvmap := 40
  last_comp_version := 16
  boot_cpuid_phys := 0
  proper := by
    intro token listed
    change token ∈ [.beginNode [], .property 0 [0x86, 0, 0, 0], .endNode] at listed
    simp only [List.mem_cons, List.not_mem_nil, or_false] at listed
    rcases listed with rfl | rfl | rfl
    · exact List.not_mem_nil
    · show 0 ∈ (INITRD_START ++ [0]).drop 0
      decide
    · trivial
  headerInside := by decide
  ordered := by decide
  inside := by decide

/-- The tree in memory. -/
def startTreeMemory : Memory :=
  .stored 0x82200000 (startTree.headerWords.flatMap bigEndian32 ++
    (List.replicate 16 0 ++ (startTree.structBlock ++ startTree.strings)))

theorem startTree_placed :
    startTree.Placed .rv32 startTreeMemory 0x82200000 := by
  obtain ⟨header, blocks⟩ := Memory.Holds.append_iff.mp
    (Memory.stored_holds 0x82200000 (startTree.headerWords.flatMap bigEndian32 ++
      (List.replicate 16 0 ++ (startTree.structBlock ++ startTree.strings))))
  obtain ⟨-, blocks⟩ := Memory.Holds.append_iff.mp blocks
  obtain ⟨structs, strings⟩ := Memory.Holds.append_iff.mp blocks
  exact ⟨header, structs, strings, by decide⟩

theorem dtb_parse_initrd_startTree :
    startTree.number 32 INITRD_START = 0x86000000#32 ∧
      dtb_parse .rv32 startTreeMemory 0x82200000 (some 0) none
        (some (startTree.number 32 INITRD_START), none) :=
  ⟨by decide, (dtb_parse_initrd startTree_placed (by decide) (by decide) (some 0)
    none _).mpr rfl⟩

end Search

end DataParse
end EchelonSbi
