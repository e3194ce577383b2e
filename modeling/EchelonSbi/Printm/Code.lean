import EchelonSbi.DataParse.Strings
import Mathlib.Data.Nat.Digits.Defs

/-!
# The code of `printm`

The body of `printm` between taking and giving back `printm_lock`, as one turn
of its loop over the format string.  A turn has no result where the code would
leave its buffer or read an argument of another type than the one passed.
-/

namespace EchelonSbi
namespace Printm

open Foundation DataParse

section Uart

/-! ## The driver -/

/-- The loop of `uart_write`: the bytes it hands to `uart_putc`, which stores
them to the transmit register and sends a return after a newline. -/
def uart_write_loop (str : Nat → Option Byte) : Nat → Option (List Byte)
  | 0 => some []
  | count + 1 => do
      let c ← str 0
      let rest ← uart_write_loop (fun k => str (k + 1)) count
      some (c :: rest)

/-- `uart_write`; the null pointer is `none`. -/
def uart_write (str : Option (Nat → Option Byte)) (count : Nat) : Option (List Byte) :=
  match str with
  | none => some []
  | some str => uart_write_loop str count

end Uart

section Buffer

/-! ## Numbers in the buffer -/

/-- An array of `char`. -/
abbrev Chars (size : Nat) :=
  Vector Byte size

/-- `char buf[0x40]`. -/
abbrev Buffer :=
  Chars 0x40

namespace Chars

/-- `buf[index] = value`. -/
def store (buf : Chars size) (index : Nat) (value : Byte) : Option (Chars size) :=
  if inside : index < size then some (buf.set index value) else none

/-- The buffer as the argument of `_printm`. -/
def reader (buf : Chars size) : Option (Nat → Option Byte) :=
  some fun k => buf[k]?

end Chars

/-- A string literal as the argument of `_printm`. -/
def quoted (text : List Byte) : Option (Nat → Option Byte) :=
  some fun k => some (literal text k)

/-- The state of the first loop of `_itoa`. -/
structure DigitLoop (size : Nat) where
  number : BitVec 64
  buf : Chars size
  i : Nat

/-- The digit as a character; `hex_offset` and `base` are set up by `_itoa`. -/
def digit_character (hex_offset digit : Byte) : Byte :=
  if 10 ≤ digit.toNat then digit + hex_offset else digit + ascii '0'

/-- One turn of the first loop of `_itoa`. -/
def _itoa_digit_turn (buf_len : Nat) (hex_offset : Byte) (base : BitVec 64)
    (loop : DigitLoop size) : Turn (DigitLoop size) (Option (Chars size × Nat)) :=
  if 0 < loop.number ∧ loop.i < buf_len then
    let digit := (loop.number % base).setWidth 8
    match loop.buf.store loop.i (digit_character hex_offset digit) with
    | none => .leave none
    | some buf => .again ⟨loop.number / base, buf, loop.i + 1⟩
  else .leave (some (loop.buf, loop.i))

/-- The state of the second loop of `_itoa`. -/
structure SwapLoop (size : Nat) where
  buf : Chars size
  j : Nat
  k : Nat

/-- One turn of the second loop of `_itoa`. -/
def _itoa_swap_turn (loop : SwapLoop size) :
    Turn (SwapLoop size) (Option (Chars size)) :=
  if 0 < loop.j then
    let j := loop.j - 1
    if j ≤ loop.k then .leave (some loop.buf)
    else
      let swapped := do
        let front ← loop.buf[loop.k]?
        let back ← loop.buf[j]?
        let buf ← loop.buf.store loop.k back
        buf.store j front
      match swapped with
      | none => .leave none
      | some buf => .again ⟨buf, j, loop.k + 1⟩
  else .leave (some loop.buf)

/-- `_itoa`.  The first loop leaves when the buffer is full and the second when
its two indices meet. -/
def _itoa (number : BitVec 64) (buf : Chars size) (buf_len : Nat) (base : Int) :
    Option (Chars size × Nat) := do
  let hex_offset := if base < 0 then ascii 'A' - 10 else ascii 'a' - 10
  let radix := BitVec.ofInt 64 (if base < 0 then -base else base)
  let (buf, i) ← (← iterate (_itoa_digit_turn buf_len hex_offset radix)
    (buf_len + 1) ⟨number, buf, 0⟩)
  let (buf, i) ←
    if 0 < buf_len ∧ i = 0 then do
      let buf ← buf.store 0 (ascii '0')
      some (buf, i + 1)
    else some (buf, i)
  let buf ← (← iterate _itoa_swap_turn (i + 1) ⟨buf, i, 0⟩)
  some (buf, i)

end Buffer

section Arguments

/-! ## Variable arguments -/

/-- A variable argument, by the type it is passed as. -/
inductive Argument (xlen : Xlen) where
  | int (value : BitVec 32)
  | long (value : Word xlen)
  | longlong (value : BitVec 64)
  | pointer (value : Word xlen)

/-- `va_arg(ap, int)`, signed or not. -/
def va_arg_int : List (Argument xlen) → Option (BitVec 32 × List (Argument xlen))
  | .int value :: ap => some (value, ap)
  | _ => none

/-- `va_arg(ap, long)`, signed or not. -/
def va_arg_long : List (Argument xlen) → Option (Word xlen × List (Argument xlen))
  | .long value :: ap => some (value, ap)
  | _ => none

/-- `va_arg(ap, long long)`, signed or not. -/
def va_arg_longlong : List (Argument xlen) → Option (BitVec 64 × List (Argument xlen))
  | .longlong value :: ap => some (value, ap)
  | _ => none

/-- `va_arg(ap, void*)`. -/
def va_arg_pointer : List (Argument xlen) → Option (Word xlen × List (Argument xlen))
  | .pointer value :: ap => some (value, ap)
  | _ => none

end Arguments

section Conversions

/-! ## The conversions -/

/-- The bits of `flags`. -/
structure Flags where
  special : Bool := false
  altform : Bool := false
  zeropad : Bool := false
  leftadj : Bool := false
  spacepd : Bool := false
  asigned : Bool := false
  lmod_hh : Bool := false
  lmod_h_ : Bool := false
  lmod_l_ : Bool := false
  lmod_ll : Bool := false
  fdwidth : Bool := false
  deriving DecidableEq, Repr

/-- The variables of `printm` other than its index, and the bytes handed to the
UART so far. -/
structure State (xlen : Xlen) where
  ap : List (Argument xlen)
  buf : Buffer
  j : Nat
  flags : Flags
  fdwidth : Nat
  output : List Byte

namespace State

variable {xlen : Xlen}

/-- `_printm`. -/
def _printm (state : State xlen) (buffer : Option (Nat → Option Byte)) (length : Nat) :
    Option (State xlen) :=
  (uart_write buffer length).map fun bytes =>
    { state with output := state.output ++ bytes }

/-- The padding loop: `_printm(pad, 1)` while the field is too short. -/
def pad_field (pad : Byte) (full_number_length : Nat) (state : State xlen) : State xlen :=
  if full_number_length < state.fdwidth then
    pad_field pad (full_number_length + 1)
      { state with output := state.output ++ [pad] }
  else state
termination_by state.fdwidth - full_number_length

/-- The label `end_special`. -/
def end_special (state : State xlen) : State xlen :=
  { state with flags := {}, j := 0 }

/-- The argument of a signed conversion. -/
def signed_argument (state : State xlen) : Option (BitVec 64 × State xlen) :=
  if state.flags.lmod_hh then do
    let (tmp_num, ap) ← va_arg_int state.ap
    some ((tmp_num.setWidth 8).signExtend 64, { state with ap })
  else if state.flags.lmod_ll then do
    let (tmp_num, ap) ← va_arg_longlong state.ap
    some (tmp_num, { state with ap })
  else if state.flags.lmod_h_ then do
    let (tmp_num, ap) ← va_arg_int state.ap
    some ((tmp_num.setWidth 16).signExtend 64, { state with ap })
  else if state.flags.lmod_l_ then do
    let (tmp_num, ap) ← va_arg_long state.ap
    some (tmp_num.signExtend 64, { state with ap })
  else do
    let (tmp_num, ap) ← va_arg_int state.ap
    some (tmp_num.signExtend 64, { state with ap })

/-- The argument of an unsigned conversion. -/
def unsigned_argument (state : State xlen) : Option (BitVec 64 × State xlen) :=
  if state.flags.lmod_hh then do
    let (tmp_num, ap) ← va_arg_int state.ap
    some ((tmp_num.setWidth 8).setWidth 64, { state with ap })
  else if state.flags.lmod_ll then do
    let (tmp_num, ap) ← va_arg_longlong state.ap
    some (tmp_num, { state with ap })
  else if state.flags.lmod_h_ then do
    let (tmp_num, ap) ← va_arg_int state.ap
    some ((tmp_num.setWidth 16).setWidth 64, { state with ap })
  else if state.flags.lmod_l_ then do
    let (tmp_num, ap) ← va_arg_long state.ap
    some (tmp_num.setWidth 64, { state with ap })
  else do
    let (tmp_num, ap) ← va_arg_int state.ap
    some (tmp_num.setWidth 64, { state with ap })

/-- The argument of `p`. -/
def pointer_argument (state : State xlen) : Option (BitVec 64 × State xlen) := do
  let (tmp_num, ap) ← va_arg_pointer state.ap
  some (tmp_num.setWidth 64, { state with ap })

/-- The magnitude of a signed number and the text of `prefix`.  The machine's
negation keeps the most negative number. -/
def sign_of (flags : Flags) (num : BitVec 64) : BitVec 64 × List Byte :=
  if num.slt 0 then (-num, [ascii '-'])
  else if flags.asigned then (num, [ascii '+'])
  else if flags.spacepd then (num, [ascii ' '])
  else (num, [])

/-- Signed decimal: `d` and `i`. -/
def signed_decimal (state : State xlen) : Option (State xlen) := do
  let (num, state) ← state.signed_argument
  let (number, sign) := sign_of state.flags num
  let full_number_length := sign.length
  let (buf, number_length) ← _itoa number state.buf 0x40 10
  let state := { state with buf }
  let (state, lead, pad) ←
    if state.flags.leftadj then do
      let state ← state._printm (quoted sign) full_number_length
      let state ← state._printm state.buf.reader number_length
      some (state, none, ascii ' ')
    else if state.flags.zeropad then do
      let state ← state._printm (quoted sign) full_number_length
      some (state, none, ascii '0')
    else some (state, some sign, ascii ' ')
  let lead := if full_number_length = 0 then none else lead
  let state := state.pad_field pad (full_number_length + number_length)
  let state ←
    match lead with
    | some sign => state._printm (quoted sign) 1
    | none => some state
  let state ←
    if !state.flags.leftadj then state._printm state.buf.reader number_length
    else some state
  some state.end_special

/-- Unsigned decimal: `u`. -/
def unsigned_decimal (state : State xlen) : Option (State xlen) := do
  let (number, state) ← state.unsigned_argument
  let (buf, number_length) ← _itoa number state.buf 0x40 10
  let state := { state with buf }
  let (state, pad) ←
    if state.flags.leftadj then do
      let state ← state._printm state.buf.reader number_length
      some (state, ascii ' ')
    else if state.flags.zeropad then some (state, ascii '0')
    else some (state, ascii ' ')
  let state := state.pad_field pad number_length
  let state ←
    if !state.flags.leftadj then state._printm state.buf.reader number_length
    else some state
  some state.end_special

/-- The radix prefix of the alternate form. -/
def print_radix (radix : List Byte) (state : State xlen) : Option (State xlen) :=
  if state.flags.altform then state._printm (quoted radix) radix.length
  else some state

/-- The conversions with a radix prefix, after their argument is fetched. -/
def radix_field (base : Int) (radix : List Byte) (number : BitVec 64)
    (state : State xlen) : Option (State xlen) := do
  let (buf, number_length) ← _itoa number state.buf 0x40 base
  let state := { state with buf }
  let (state, pad) ←
    if state.flags.leftadj then do
      let state ← state.print_radix radix
      let state ← state._printm state.buf.reader number_length
      some ({ state with flags := { state.flags with zeropad := true } }, ascii ' ')
    else if state.flags.zeropad then do
      let state ← state.print_radix radix
      some (state, ascii '0')
    else some (state, ascii ' ')
  let full_number_length :=
    if state.flags.altform then number_length + radix.length else number_length
  let state := state.pad_field pad full_number_length
  let state ←
    if !state.flags.zeropad then state.print_radix radix else some state
  let state ←
    if !state.flags.leftadj then state._printm state.buf.reader number_length
    else some state
  some state.end_special

/-- Unsigned octal: `o`. -/
def unsigned_octal (state : State xlen) : Option (State xlen) := do
  let (number, state) ← state.unsigned_argument
  state.radix_field 8 [ascii '0'] number

/-- Unsigned lower-case hexadecimal: `x`, and `p` with its own argument. -/
def lower_hexadecimal (c : Byte) (state : State xlen) : Option (State xlen) := do
  let (number, state) ←
    if c = ascii 'p' then state.pointer_argument else state.unsigned_argument
  state.radix_field 16 [ascii '0', ascii 'x'] number

/-- Unsigned upper-case hexadecimal: `X`. -/
def upper_hexadecimal (state : State xlen) : Option (State xlen) := do
  let (number, state) ← state.unsigned_argument
  state.radix_field (-16) [ascii '0', ascii 'X'] number

/-- Character: `c`. -/
def character (state : State xlen) : Option (State xlen) := do
  let (tmp_num, ap) ← va_arg_int state.ap
  let buf ← state.buf.store 0 (tmp_num.setWidth 8)
  let state ← { state with ap, buf }._printm buf.reader 1
  some state.end_special

/-- One turn of the loop of `strnlen`; `i` is a `size_t`. -/
def strnlen_turn (xlen : Xlen) (str : Nat → Byte) (maxlen i : Nat) : Turn Nat Nat :=
  if i < maxlen then
    if str i = 0 then .leave i else .again (xlen.wrap (i + 1))
  else .leave i

/-- `strnlen`. -/
def strnlen (xlen : Xlen) (str : Nat → Byte) (maxlen : Nat) : Option Nat :=
  iterate (strnlen_turn xlen str maxlen) (maxlen + 1) 0

/-- C string: `s`. -/
def c_string (memory : Memory) (state : State xlen) : Option (State xlen) := do
  let (number, ap) ← va_arg_pointer state.ap
  let str := fromPointer xlen memory number.toNat
  let str_length ←
    if 0 < state.fdwidth then strnlen xlen str state.fdwidth else strlen xlen str
  let state ← { state with ap }._printm
    (if number = 0 then none else some fun k => some (str k)) str_length
  some state.end_special

/-- Delimited `%`. -/
def delimited_percent (state : State xlen) : Option (State xlen) := do
  let state ← state._printm (quoted [ascii '%']) 1
  some state.end_special

/-- The letters that are known but not supported. -/
def unsupported : List Byte :=
  ['e', 'E', 'f', 'F', 'g', 'G', 'a', 'A', 'C', 'S', 'n', 'M'].map ascii

/-- The conversion specifiers.  Any other character changes nothing. -/
def conversion (memory : Memory) (c : Byte) (state : State xlen) :
    Option (State xlen) :=
  if c = ascii 'd' ∨ c = ascii 'i' then state.signed_decimal
  else if c = ascii 'u' then state.unsigned_decimal
  else if c = ascii 'o' then state.unsigned_octal
  else if c = ascii 'x' ∨ c = ascii 'p' then state.lower_hexadecimal c
  else if c = ascii 'X' then state.upper_hexadecimal
  else if c = ascii 'c' then state.character
  else if c = ascii 's' then state.c_string memory
  else if c = ascii '%' then state.delimited_percent
  else if c ∈ unsupported then some state.end_special
  else some state

/-- A character of a directive, after its `%`. -/
def special (memory : Memory) (c : Byte) (state : State xlen) : Option (State xlen) :=
  if (c = ascii '0' ∧ state.flags.fdwidth) ∨ (ascii '1' ≤ c ∧ c ≤ ascii '9') then
    some { state with
      fdwidth := (state.fdwidth * 10 % 2 ^ 32 + (c - ascii '0').toNat) % 2 ^ 32
      flags := { state.flags with fdwidth := true } }
  else
    let flags := { state.flags with fdwidth := false }
    let state := { state with flags }
    if c = ascii '#' then some { state with flags := { flags with altform := true } }
    else if c = ascii '0' then some { state with flags := { flags with zeropad := true } }
    else if c = ascii '-' then some { state with flags := { flags with leftadj := true } }
    else if c = ascii ' ' then some { state with flags := { flags with spacepd := true } }
    else if c = ascii '+' then some { state with flags := { flags with asigned := true } }
    else if c = ascii 'h' then
      some { state with flags :=
        { flags with lmod_hh := flags.lmod_hh || flags.lmod_h_, lmod_h_ := true } }
    else if c = ascii 'l' then
      some { state with flags :=
        { flags with lmod_ll := flags.lmod_ll || flags.lmod_l_, lmod_l_ := true } }
    else state.conversion memory c

/-- A literal character goes to the buffer, which is flushed when full. -/
def buffered (c : Byte) (state : State xlen) : Option (State xlen) := do
  let buf ← state.buf.store state.j c
  let state := { state with buf, j := state.j + 1 }
  if state.j = 0x40 then
    let state ← state._printm buf.reader state.j
    some { state with j := 0 }
  else some state

/-- The `%` that starts a directive flushes the buffer. -/
def enter_special (state : State xlen) : Option (State xlen) := do
  let state ← state._printm state.buf.reader state.j
  some { state with j := 0, fdwidth := 0, flags := { special := true } }

/-- The body of the loop of `printm`, at the character `c`. -/
def body (memory : Memory) (c : Byte) (state : State xlen) : Option (State xlen) :=
  if c ≠ ascii '%' ∧ state.flags = {} then state.buffered c
  else if state.flags.special then state.special memory c
  else state.enter_special

end State

end Conversions

section Loop

/-! ## The loop -/

variable {xlen : Xlen}

/-- The variables of `printm`; `i` is an `unsigned int`. -/
structure Loop (xlen : Xlen) where
  i : Nat
  state : State xlen

/-- One turn of the loop of `printm`.  The loop leaves with the bytes handed to
the UART, the rest of the buffer included. -/
def printm_turn (memory : Memory) (format : Nat → Byte) (loop : Loop xlen) :
    Turn (Loop xlen) (Option (List Byte)) :=
  let { i, state } := loop
  if format i ≠ 0 then
    match state.body memory (format i) with
    | none => .leave none
    | some state => .again { i := (i + 1) % 2 ^ 32, state }
  else if 0 < state.j then
    .leave ((state._printm state.buf.reader state.j).map (·.output))
  else .leave (some state.output)

/-- The variables as `printm` sets them up; what `buf` holds is not known. -/
def printm_entry (ap : List (Argument xlen)) (buf : Buffer) : State xlen where
  ap := ap
  buf := buf
  j := 0
  flags := {}
  fdwidth := 0
  output := []

/-- `printm` of the string at `format` hands `output` to the UART and returns. -/
def Prints (memory : Memory) (format : Word xlen) (ap : List (Argument xlen))
    (buf : Buffer) (output : List Byte) : Prop :=
  Returns (printm_turn memory (fromPointer xlen memory format.toNat))
    { i := 0, state := printm_entry ap buf } (some output)

end Loop

end Printm
end EchelonSbi
