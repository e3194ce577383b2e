import EchelonSbi.Printm.Numerals

/-!
# The conversions print their fields

Each conversion of the code, in a state whose flags show a layout, hands the
field of its argument to the UART and goes back to literal text.
-/

namespace EchelonSbi
namespace Printm

open Foundation DataParse

variable {xlen : Xlen}

namespace State

section Printing

/-! ## Printing one part -/

variable (state : State xlen)

/-- More bytes have been handed to the UART. -/
def printed (bytes : List Byte) : State xlen :=
  { state with output := state.output ++ bytes }

@[simp]
theorem printed_buf (bytes : List Byte) : (state.printed bytes).buf = state.buf := rfl

@[simp]
theorem printed_flags (bytes : List Byte) :
    (state.printed bytes).flags = state.flags := rfl

@[simp]
theorem printed_fdwidth (bytes : List Byte) :
    (state.printed bytes).fdwidth = state.fdwidth := rfl

@[simp]
theorem printed_nil : state.printed [] = state := by
  simp [printed]

@[simp]
theorem printed_printed (first second : List Byte) :
    (state.printed first).printed second = state.printed (first ++ second) := by
  simp [printed]

theorem _printm_quoted (text : List Byte) :
    state._printm (quoted text) text.length = some (state.printed text) := by
  rw [_printm, uart_write_quoted]
  rfl

theorem _printm_buffer
    {text : List Byte}
    (starts : state.buf.Starts text) :
    state._printm state.buf.reader text.length = some (state.printed text) := by
  rw [_printm, starts.uart_write]
  rfl

theorem _printm_buffer_later
    {text : List Byte}
    (starts : state.buf.Starts text)
    (bytes : List Byte) :
    (state.printed bytes)._printm state.buf.reader text.length =
      some (state.printed (bytes ++ text)) := by
  rw [← printed_printed]
  exact (state.printed bytes)._printm_buffer starts

/-- The padding loop fills the field up. -/
theorem pad_field_eq (pad : Byte) (full_number_length : Nat) :
    state.pad_field pad full_number_length =
      state.printed (List.replicate (state.fdwidth - full_number_length) pad) := by
  fun_induction pad_field pad full_number_length state with
  | case1 full_number_length state short inductionHypothesis =>
      rw [inductionHypothesis]
      have more : state.fdwidth - full_number_length =
          state.fdwidth - (full_number_length + 1) + 1 := by omega
      rw [more, List.replicate_succ]
      simp [printed]
  | case2 full_number_length state long =>
      rw [Nat.sub_eq_zero_of_le (by omega), List.replicate_zero, printed_nil]

end Printing

end State

section Shows

/-! ## Flags and layouts -/

/-- The flags and the width are those of the layout. -/
structure State.Shows (state : State xlen) (layout : Layout) : Prop where
  altform : state.flags.altform = decide (Flag.alternate ∈ layout.flags)
  zeropad : state.flags.zeropad = decide (Flag.zero ∈ layout.flags)
  leftadj : state.flags.leftadj = decide (Flag.left ∈ layout.flags)
  spacepd : state.flags.spacepd = decide (Flag.space ∈ layout.flags)
  asigned : state.flags.asigned = decide (Flag.plus ∈ layout.flags)
  width : state.fdwidth = layout.least

/-- The state with an argument fetched and a new buffer. -/
def State.fetched (state : State xlen) (ap : List (Argument xlen)) (buf : Buffer) :
    State xlen :=
  { state with ap, buf }

theorem State.Shows.fetched
    {state : State xlen}
    {layout : Layout}
    (shows : state.Shows layout)
    (ap : List (Argument xlen))
    (buf : Buffer) :
    (state.fetched ap buf).Shows layout :=
  ⟨shows.altform, shows.zeropad, shows.leftadj, shows.spacepd, shows.asigned, shows.width⟩

namespace Layout

variable {layout : Layout} {lead digits : List Byte}

/-- A field under `-`. -/
theorem field_left (left : Flag.left ∈ layout.flags) :
    layout.field lead digits = lead ++ digits ++
      List.replicate (layout.least - (lead.length + digits.length)) (ascii ' ') := by
  simp [field, left]

/-- A field under `0` and not `-`. -/
theorem field_zeros
    (right : Flag.left ∉ layout.flags)
    (zero : Flag.zero ∈ layout.flags) :
    layout.field lead digits = lead ++
      List.replicate (layout.least - (lead.length + digits.length)) (ascii '0') ++
        digits := by
  simp [field, right, zero]

/-- A field under neither. -/
theorem field_spaces
    (right : Flag.left ∉ layout.flags)
    (blank : Flag.zero ∉ layout.flags) :
    layout.field lead digits =
      List.replicate (layout.least - (lead.length + digits.length)) (ascii ' ') ++
        lead ++ digits := by
  simp [field, right, blank]

end Layout

end Shows

namespace State

section Integers

/-! ## Integers -/

variable {state : State xlen} {layout : Layout}

/-- The magnitude and the sign are those of the number. -/
theorem sign_of_eq
    (shows : state.Shows layout)
    (num : BitVec 64) :
    (sign_of state.flags num).1.toNat = num.toInt.natAbs ∧
      (sign_of state.flags num).2 = layout.sign num.toInt := by
  have negative : num.slt 0 = true ↔ num.toInt < 0 := by
    rw [BitVec.slt_iff_toInt_lt]
    rfl
  by_cases below : num.toInt < 0
  · rw [sign_of, if_pos (negative.mpr below), Layout.sign, if_pos below]
    refine ⟨?_, rfl⟩
    rw [BitVec.toNat_neg]
    rw [BitVec.toInt_eq_toNat_cond] at below ⊢
    split at below
    · omega
    · rename_i large
      rw [if_neg large]
      omega
  · have natural : num.toNat = num.toInt.natAbs := by
      rw [BitVec.toInt_eq_toNat_cond] at below ⊢
      split at below
      · rename_i small
        rw [if_pos small]
        omega
      · omega
    rw [sign_of, if_neg (fun slt => below (negative.mp slt)), Layout.sign, if_neg below]
    simp only [shows.asigned, shows.spacepd, decide_eq_true_eq]
    by_cases plus : Flag.plus ∈ layout.flags
    · rw [if_pos plus, if_pos plus]
      exact ⟨natural, rfl⟩
    · rw [if_neg plus, if_neg plus]
      by_cases space : Flag.space ∈ layout.flags
      · rw [if_pos space, if_pos space]
        exact ⟨natural, rfl⟩
      · rw [if_neg space, if_neg space]
        exact ⟨natural, rfl⟩

/-- `d` and `i` print the field of the number. -/
theorem signed_decimal_eq
    (shows : state.Shows layout)
    {num : BitVec 64}
    {ap : List (Argument xlen)}
    (argument : state.signed_argument = some (num, { state with ap })) :
    ∃ buf, state.signed_decimal = some ((state.fetched ap buf).printed
      (layout.field (layout.sign num.toInt) (numeral 'a' 10 num.toInt.natAbs))).end_special := by
  obtain ⟨magnitude, sign⟩ := sign_of_eq shows num
  obtain ⟨buf, written, starts⟩ :=
    _itoa_eq coded_decimal (sign_of state.flags num).1 state.buf
  rw [magnitude] at written starts
  have ready := shows.fetched ap buf
  refine ⟨buf, ?_⟩
  rw [signed_decimal, argument]
  simp only [Option.bind_eq_bind, Option.bind_some, written, sign, shows.leftadj,
    shows.zeropad]
  have same : ({ state with ap, buf } : State xlen) = state.fetched ap buf := rfl
  rw [same]
  replace starts : (state.fetched ap buf).buf.Starts _ := starts
  generalize state.fetched ap buf = state at ready starts ⊢
  generalize numeral 'a' 10 num.toInt.natAbs = digits at starts ⊢
  have short : (layout.sign num.toInt).length ≤ 1 := by
    unfold Layout.sign
    split_ifs <;> simp
  generalize layout.sign num.toInt = lead at short ⊢
  have leadPrinted (state : State xlen) := state._printm_quoted lead
  have digitsPrinted := state._printm_buffer_later starts
  by_cases left : Flag.left ∈ layout.flags
  · simp [left, leadPrinted, digitsPrinted, pad_field_eq, ready.leftadj, ready.width,
      Layout.field_left left]
  · by_cases zero : Flag.zero ∈ layout.flags
    · simp [left, zero, leadPrinted, digitsPrinted, pad_field_eq, ready.leftadj,
        ready.width, Layout.field_zeros left zero]
    · rw [Layout.field_spaces left zero]
      cases lead with
      | nil =>
          simp [left, zero, digitsPrinted, pad_field_eq, ready.leftadj, ready.width]
      | cons c rest =>
          obtain rfl : rest = [] := by simpa using short
          simp only [List.length_singleton] at leadPrinted
          simp [left, zero, leadPrinted, digitsPrinted, pad_field_eq, ready.leftadj,
            ready.width]

/-- The radix prefix is printed when the flags ask for it. -/
theorem print_radix_eq
    (state : State xlen)
    (altform : state.flags.altform = decide (Flag.alternate ∈ layout.flags))
    (lead : List Byte) :
    state.print_radix lead = some (state.printed (layout.radix lead)) := by
  rw [print_radix, altform, Layout.radix]
  by_cases alternate : Flag.alternate ∈ layout.flags
  · simp only [alternate, decide_true, if_true, _printm_quoted]
  · simp only [alternate, decide_false, Bool.false_eq_true, if_false, printed_nil]

/-- `o`, `x`, `p` and `X` print the field of the number. -/
theorem radix_field_eq
    (shows : state.Shows layout)
    {code : Int}
    {ten : Char}
    {base : Nat}
    (coded : Coded code ten base)
    (lead : List Byte)
    (number : BitVec 64)
    (ap : List (Argument xlen)) :
    ∃ buf, { state with ap }.radix_field code lead number =
      some ((state.fetched ap buf).printed
        (layout.field (layout.radix lead) (numeral ten base number.toNat))).end_special := by
  obtain ⟨buf, written, starts⟩ := _itoa_eq coded number state.buf
  have ready := shows.fetched ap buf
  refine ⟨buf, ?_⟩
  rw [radix_field]
  simp only [Option.bind_eq_bind, Option.bind_some, written, shows.leftadj,
    shows.zeropad]
  have same : ({ state with ap, buf } : State xlen) = state.fetched ap buf := rfl
  rw [same]
  replace starts : (state.fetched ap buf).buf.Starts _ := starts
  generalize state.fetched ap buf = state at ready starts ⊢
  generalize numeral ten base number.toNat = digits at starts ⊢
  have digitsPrinted := state._printm_buffer_later starts
  have total : (if Flag.alternate ∈ layout.flags then digits.length + lead.length
      else digits.length) = (layout.radix lead).length + digits.length := by
    rw [Layout.radix]
    split
    · exact Nat.add_comm _ _
    · simp
  by_cases left : Flag.left ∈ layout.flags
  · simp [left, state.print_radix_eq ready.altform, digitsPrinted, pad_field_eq,
      ready.leftadj, ready.altform, ready.width, total, Layout.field_left left]
    simp [printed, end_special, ready.width]
  · by_cases zero : Flag.zero ∈ layout.flags
    · simp [left, zero, state.print_radix_eq ready.altform, digitsPrinted, pad_field_eq,
        ready.leftadj, ready.zeropad, ready.altform, ready.width, total,
        Layout.field_zeros left zero]
    · have leadPrinted (bytes : List Byte) :=
        (state.printed bytes).print_radix_eq ready.altform lead
      simp [left, zero, leadPrinted, digitsPrinted, pad_field_eq, ready.leftadj,
        ready.zeropad, shows.altform, ready.width, total, Layout.field_spaces left zero]

/-- `u` is the case without a radix prefix. -/
theorem unsigned_decimal_eq
    (shows : state.Shows layout)
    {number : BitVec 64}
    {ap : List (Argument xlen)}
    (argument : state.unsigned_argument = some (number, { state with ap })) :
    ∃ buf, state.unsigned_decimal = some ((state.fetched ap buf).printed
      (layout.field [] (numeral 'a' 10 number.toNat))).end_special := by
  obtain ⟨buf, written, starts⟩ := _itoa_eq coded_decimal number state.buf
  have ready := shows.fetched ap buf
  refine ⟨buf, ?_⟩
  rw [unsigned_decimal, argument]
  simp only [Option.bind_eq_bind, Option.bind_some, written, shows.leftadj,
    shows.zeropad]
  have same : ({ state with ap, buf } : State xlen) = state.fetched ap buf := rfl
  rw [same]
  replace starts : (state.fetched ap buf).buf.Starts _ := starts
  have digitsFirst : (state.fetched ap buf)._printm buf.reader _ = some _ :=
    (state.fetched ap buf)._printm_buffer starts
  generalize state.fetched ap buf = state at ready starts digitsFirst ⊢
  generalize numeral 'a' 10 number.toNat = digits at starts digitsFirst ⊢
  have digitsPrinted := state._printm_buffer_later starts
  by_cases left : Flag.left ∈ layout.flags
  · simp [left, digitsFirst, pad_field_eq, ready.leftadj, ready.width,
      Layout.field_left left]
  · by_cases zero : Flag.zero ∈ layout.flags
    · simp [left, zero, digitsPrinted, pad_field_eq, ready.leftadj, ready.width,
        Layout.field_zeros left zero]
    · simp [left, zero, digitsPrinted, pad_field_eq, ready.leftadj, ready.width,
        Layout.field_spaces left zero]

end Integers

section Others

/-! ## Characters and strings -/

variable {state : State xlen}

theorem character_eq
    {value : BitVec 32}
    {ap : List (Argument xlen)}
    (argument : state.ap = .int value :: ap) :
    ∃ buf, state.character =
      some ((state.fetched ap buf).printed [value.setWidth 8]).end_special := by
  obtain ⟨buf, stored, starts, -⟩ :=
    (Chars.starts_nil state.buf).store (by decide) (value.setWidth 8)
  refine ⟨buf, ?_⟩
  rw [List.length_nil] at stored
  have written := (state.fetched ap buf)._printm_buffer starts
  rw [character, argument]
  simp only [va_arg_int, Option.bind_eq_bind, Option.bind_some, stored]
  simp only [List.nil_append, List.length_singleton] at written
  rw [fetched] at written
  rw [written]
  rfl

theorem delimited_percent_eq :
    state.delimited_percent = some (state.printed [ascii '%']).end_special := by
  rw [delimited_percent, show 1 = [ascii '%'].length from rfl, _printm_quoted]
  rfl

theorem c_string_eq
    {memory : Memory}
    {address : Word xlen}
    {contents : List Byte}
    (present : address ≠ 0)
    (spelled : Spells (fromPointer xlen memory address.toNat) contents)
    {ap : List (Argument xlen)}
    (argument : state.ap = .pointer address :: ap)
    (unbounded : state.fdwidth = 0) :
    state.c_string memory =
      some ((state.fetched ap state.buf).printed contents).end_special := by
  have fits := fromPointer_length_lt spelled
  have written : uart_write_loop
      (fun k => some (fromPointer xlen memory address.toNat k)) contents.length =
        some contents := by
    refine uart_write_loop_eq fun k inside => ?_
    rw [spelled.spelled k inside, List.getElem?_eq_getElem inside]
  rw [c_string, argument]
  simp only [va_arg_pointer, Option.bind_eq_bind, Option.bind_some, unbounded]
  rw [if_neg (Nat.lt_irrefl 0), strlen_eq spelled fits, if_neg present]
  simp only [Option.bind_some, _printm, uart_write, written, Option.map_some]
  simp [fetched, printed, end_special, unbounded]

end Others

end State

end Printm
end EchelonSbi
