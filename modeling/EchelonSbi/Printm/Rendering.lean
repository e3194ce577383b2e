import EchelonSbi.Printm.Fields

/-!
# `printm` prints its format string

The loop reads the format string piece by piece.  A directive sets the flags of
its layout, fetches its argument and prints its field.  The index of the loop
has 2^32 values, so a longer string is never read to its end.
-/

namespace EchelonSbi
namespace Printm

open Foundation DataParse

variable {xlen : Xlen}

section Arguments

/-! ## Arguments -/

/-- The flags are those of the length modifier. -/
structure Flags.Modified (flags : Flags) (length : Option Length) : Prop where
  hh : flags.lmod_hh = decide (length = some .hh)
  h : flags.lmod_h_ = decide (length = some .hh ∨ length = some .h)
  l : flags.lmod_l_ = decide (length = some .l ∨ length = some .ll)
  ll : flags.lmod_ll = decide (length = some .ll)

theorem bits_le (xlen : Xlen) : xlen.bits ≤ 64 := by
  cases xlen <;> decide

/-- A signed argument is fetched as the number it stands for. -/
theorem State.signed_argument_eq
    {state : State xlen}
    {number : Sized xlen}
    {ap : List (Argument xlen)}
    (modified : state.flags.Modified number.length)
    (given : state.ap = number.argument :: ap) :
    ∃ num, state.signed_argument = some (num, { state with ap }) ∧
      num.toInt = number.signed := by
  obtain ⟨hh, h, l, ll⟩ := modified
  rw [State.signed_argument, hh, h, l, ll, given]
  cases number with
  | plain value =>
      exact ⟨value.signExtend 64, rfl, BitVec.toInt_signExtend_of_le (by decide)⟩
  | hh value =>
      exact ⟨(value.setWidth 8).signExtend 64, rfl,
        BitVec.toInt_signExtend_of_le (by decide)⟩
  | h value =>
      exact ⟨(value.setWidth 16).signExtend 64, rfl,
        BitVec.toInt_signExtend_of_le (by decide)⟩
  | l value =>
      exact ⟨value.signExtend 64, rfl, BitVec.toInt_signExtend_of_le (bits_le xlen)⟩
  | ll value => exact ⟨value, rfl, rfl⟩

/-- An unsigned argument is fetched as the number it stands for. -/
theorem State.unsigned_argument_eq
    {state : State xlen}
    {number : Sized xlen}
    {ap : List (Argument xlen)}
    (modified : state.flags.Modified number.length)
    (given : state.ap = number.argument :: ap) :
    ∃ num, state.unsigned_argument = some (num, { state with ap }) ∧
      num.toNat = number.unsigned := by
  obtain ⟨hh, h, l, ll⟩ := modified
  rw [State.unsigned_argument, hh, h, l, ll, given]
  cases number with
  | plain value =>
      exact ⟨value.setWidth 64, rfl, BitVec.toNat_setWidth_of_le (by decide)⟩
  | hh value =>
      exact ⟨(value.setWidth 8).setWidth 64, rfl,
        (BitVec.toNat_setWidth_of_le (by decide)).trans (BitVec.toNat_setWidth ..)⟩
  | h value =>
      exact ⟨(value.setWidth 16).setWidth 64, rfl,
        (BitVec.toNat_setWidth_of_le (by decide)).trans (BitVec.toNat_setWidth ..)⟩
  | l value =>
      exact ⟨value.setWidth 64, rfl, BitVec.toNat_setWidth_of_le (bits_le xlen)⟩
  | ll value => exact ⟨value, rfl, rfl⟩

/-- The argument of `p` is fetched whatever the length modifier. -/
theorem State.pointer_argument_eq
    {state : State xlen}
    {value : Word xlen}
    {ap : List (Argument xlen)}
    (given : state.ap = .pointer value :: ap) :
    ∃ num, state.pointer_argument = some (num, { state with ap }) ∧
      num.toNat = value.toNat := by
  rw [State.pointer_argument, given]
  exact ⟨value.setWidth 64, rfl, BitVec.toNat_setWidth_of_le (bits_le xlen)⟩

end Arguments

section Directives

/-! ## Reading a directive -/

namespace State

/-- The code at each of the characters in turn. -/
def read (memory : Memory) (characters : List Byte) (state : State xlen) :
    Option (State xlen) :=
  characters.foldlM (fun state c => state.body memory c) state

variable {memory : Memory} {state next : State xlen} {first second : List Byte}

theorem read_singleton (c : Byte) : state.read memory [c] = state.body memory c := by
  simp [read]

/-- What is read in parts is read as a whole. -/
theorem read_append
    (read : state.read memory first = some next) :
    state.read memory (first ++ second) = next.read memory second := by
  rw [State.read] at read ⊢
  rw [List.foldlM_append, read]
  rfl

/-- Within a directive every character is the directive's. -/
theorem body_special
    (special : state.flags.special = true)
    (c : Byte) :
    state.body memory c = state.special memory c := by
  have started : state.flags ≠ {} := by
    intro none
    rw [none] at special
    exact absurd special (by decide)
  rw [body, if_neg (fun both => started both.2), if_pos special]

end State

/-- The flags with one more of them set. -/
def Flags.add (flags : Flags) : Flag → Flags
  | .alternate => { flags with altform := true }
  | .zero => { flags with zeropad := true }
  | .left => { flags with leftadj := true }
  | .space => { flags with spacepd := true }
  | .plus => { flags with asigned := true }

/-- The flags of a directive are those of its text and of its length. -/
structure Flags.Of (flags : Flags) (shown : List Flag) : Prop where
  special : flags.special = true
  altform : flags.altform = decide (Flag.alternate ∈ shown)
  zeropad : flags.zeropad = decide (Flag.zero ∈ shown)
  leftadj : flags.leftadj = decide (Flag.left ∈ shown)
  spacepd : flags.spacepd = decide (Flag.space ∈ shown)
  asigned : flags.asigned = decide (Flag.plus ∈ shown)

theorem Flags.Of.add
    {flags : Flags}
    {shown : List Flag}
    (of : flags.Of shown)
    (flag : Flag) :
    (flags.add flag).Of (shown ++ [flag]) := by
  obtain ⟨special, altform, zeropad, leftadj, spacepd, asigned⟩ := of
  constructor <;> cases flag <;> simp [Flags.add, *]

namespace State

variable {memory : Memory} {state : State xlen} {shown : List Flag}

/-- The character of a flag sets it. -/
theorem body_flag
    (of : state.flags.Of shown)
    (noWidth : state.flags.fdwidth = false)
    (flag : Flag) :
    state.body memory flag.byte =
      some { state with flags := state.flags.add flag } := by
  rw [body_special of.special, special, noWidth]
  cases flag <;> simp [Flag.byte, ascii, Flags.add, noWidth]

/-- The flags of a directive are read one after the other. -/
theorem read_flags
    (memory : Memory)
    (state : State xlen)
    (of : state.flags.Of shown)
    (plain : state.flags.Modified none)
    (noWidth : state.flags.fdwidth = false)
    (flags : List Flag) :
    ∃ after, state.read memory (flags.map Flag.byte) = some { state with flags := after } ∧
      after.Of (shown ++ flags) ∧ after.Modified none ∧ after.fdwidth = false := by
  induction flags generalizing state shown with
  | nil => exact ⟨state.flags, rfl, by rwa [List.append_nil], plain, noWidth⟩
  | cons flag flags inductionHypothesis =>
      have added : (state.flags.add flag).Modified none := by
        obtain ⟨hh, h, l, ll⟩ := plain
        constructor <;> cases flag <;> assumption
      have still : (state.flags.add flag).fdwidth = false := by
        cases flag <;> exact noWidth
      obtain ⟨after, rest, of', plain', noWidth'⟩ :=
        inductionHypothesis { state with flags := state.flags.add flag }
          (of.add flag) added still
      refine ⟨after, ?_, ?_, plain', noWidth'⟩
      · rw [List.map_cons, ← List.singleton_append,
          read_append ((read_singleton _).trans (body_flag of noWidth flag)), rest]
      · rwa [List.append_assoc, List.singleton_append] at of'

/-- A digit that is not the first, or not zero, continues the width. -/
theorem body_digit
    (of : state.flags.Of shown)
    {d : Nat}
    (decimal : d < 10)
    (continues : state.flags.fdwidth = true ∨ 0 < d) :
    state.body memory (digit 'a' d) = some { state with
      fdwidth := (state.fdwidth * 10 % 2 ^ 32 + d) % 2 ^ 32
      flags := { state.flags with fdwidth := true } } := by
  have digits : ∀ d < 10, (digit 'a' d - ascii '0').toNat = d ∧
      (digit 'a' d = ascii '0' ∨ ascii '1' ≤ digit 'a' d ∧ digit 'a' d ≤ ascii '9') ∧
        (digit 'a' d = ascii '0' → d = 0) := by decide
  obtain ⟨value, range, zero⟩ := digits d decimal
  rw [body_special of.special, special, value]
  refine if_pos ?_
  cases range with
  | inl isZero =>
      refine .inl ⟨isZero, ?_⟩
      cases continues with
      | inl started => exact started
      | inr positive => exact absurd (zero isZero) (by omega)
  | inr others => exact .inr others

/-- The width of a directive is read digit by digit. -/
theorem read_width
    (memory : Memory)
    (state : State xlen)
    (of : state.flags.Of shown)
    (unset : state.fdwidth = 0)
    (value : Nat)
    (positive : 0 < value)
    (fits : value < 2 ^ 32) :
    state.read memory (numeral 'a' 10 value) = some { state with
      fdwidth := value
      flags := { state.flags with fdwidth := true } } := by
  induction value using Nat.strong_induction_on with
  | _ value inductionHypothesis =>
    have last : value % 10 < 10 := Nat.mod_lt _ (by decide)
    have split : (Nat.digits 10 value).map (digit 'a') = _ :=
      digits_of_pos (by decide) positive
    rw [numeral, if_neg (by omega), split, List.reverse_cons]
    by_cases single : value / 10 = 0
    · rw [single, Nat.digits_zero, List.map_nil, List.reverse_nil, List.nil_append,
        read_singleton, body_digit of last (.inr (by omega)), unset]
      congr 2
      omega
    · have shorter := inductionHypothesis (value / 10) (by omega) (by omega) (by omega)
      rw [numeral, if_neg single] at shorter
      have started : { state.flags with fdwidth := true }.Of shown :=
        ⟨of.special, of.altform, of.zeropad, of.leftadj, of.spacepd, of.asigned⟩
      rw [read_append shorter, read_singleton, body_digit started last (.inl rfl)]
      congr 2
      simp only
      omega

theorem body_h (of : state.flags.Of shown) :
    state.body memory (ascii 'h') = some { state with flags := { state.flags with
      fdwidth := false
      lmod_hh := state.flags.lmod_hh || state.flags.lmod_h_
      lmod_h_ := true } } := by
  rw [body_special of.special, special]
  simp [ascii]

theorem body_l (of : state.flags.Of shown) :
    state.body memory (ascii 'l') = some { state with flags := { state.flags with
      fdwidth := false
      lmod_ll := state.flags.lmod_ll || state.flags.lmod_l_
      lmod_l_ := true } } := by
  rw [body_special of.special, special]
  simp [ascii]

/-- The flags and the width of a directive. -/
theorem read_layout
    (memory : Memory)
    (state : State xlen)
    (of : state.flags.Of [])
    (plain : state.flags.Modified none)
    (noWidth : state.flags.fdwidth = false)
    (unset : state.fdwidth = 0)
    (layout : Layout) :
    ∃ after, state.read memory layout.text =
        some { state with flags := after, fdwidth := layout.least } ∧
      after.Of layout.flags ∧ after.Modified none := by
  obtain ⟨after, flagsRead, of', plain', -⟩ :=
    state.read_flags memory of plain noWidth layout.flags
  rw [List.nil_append] at of'
  rw [Layout.text, Layout.least, read_append flagsRead]
  cases layout.width with
  | none => exact ⟨after, by rw [← unset]; rfl, of', plain'⟩
  | some width =>
      refine ⟨_, read_width memory { state with flags := after } of' unset width.value
        width.positive width.fits, ?_, ?_⟩
      · exact ⟨of'.special, of'.altform, of'.zeropad, of'.leftadj, of'.spacepd,
          of'.asigned⟩
      · exact ⟨plain'.hh, plain'.h, plain'.l, plain'.ll⟩

/-- The length modifier of a directive. -/
theorem read_length
    (memory : Memory)
    (state : State xlen)
    (of : state.flags.Of shown)
    (plain : state.flags.Modified none)
    (length : Option Length) :
    ∃ after, state.read memory (lengthText length) = some { state with flags := after } ∧
      after.Of shown ∧ after.Modified length := by
  obtain ⟨hh, h, l, ll⟩ := plain
  have once (flags : Flags) (same : flags = { state.flags with
      fdwidth := flags.fdwidth
      lmod_hh := flags.lmod_hh
      lmod_h_ := flags.lmod_h_
      lmod_l_ := flags.lmod_l_
      lmod_ll := flags.lmod_ll }) : flags.Of shown := by
    rw [same]
    exact ⟨of.special, of.altform, of.zeropad, of.leftadj, of.spacepd, of.asigned⟩
  cases length with
  | none => exact ⟨state.flags, rfl, of, hh, h, l, ll⟩
  | some length =>
      cases length with
      | h =>
          refine ⟨_, (read_singleton _).trans (body_h of), once _ rfl, ?_⟩
          exact ⟨by simp [hh, h], rfl, by simp [l], by simp [ll]⟩
      | l =>
          refine ⟨_, (read_singleton _).trans (body_l of), once _ rfl, ?_⟩
          exact ⟨by simp [hh], by simp [h], rfl, by simp [l, ll]⟩
      | hh =>
          have first : state.read memory [ascii 'h'] = some _ :=
            (read_singleton _).trans (body_h of)
          refine ⟨_, (read_append first).trans
            ((read_singleton _).trans (body_h (once _ rfl))), once _ rfl, ?_⟩
          exact ⟨by simp, rfl, by simp [l], by simp [ll]⟩
      | ll =>
          have first : state.read memory [ascii 'l'] = some _ :=
            (read_singleton _).trans (body_l of)
          refine ⟨_, (read_append first).trans
            ((read_singleton _).trans (body_l (once _ rfl))), once _ rfl, ?_⟩
          exact ⟨by simp [hh], by simp [h], rfl, by simp⟩

/-- The letters of the supported conversions. -/
def letters : List Byte :=
  ['d', 'i', 'u', 'o', 'x', 'X', 'p', 'c', '%', 's'].map ascii

/-- A letter ends the flags, the width and the length modifier. -/
theorem body_letter
    (of : state.flags.Of shown)
    {letter : Byte}
    (known : letter ∈ letters) :
    state.body memory letter =
      { state with flags := { state.flags with fdwidth := false } }.conversion
        memory letter := by
  have others : ∀ c ∈ letters, c ≠ ascii '0' ∧ ¬(ascii '1' ≤ c ∧ c ≤ ascii '9') ∧
      c ≠ ascii '#' ∧ c ≠ ascii '-' ∧ c ≠ ascii ' ' ∧ c ≠ ascii '+' ∧
        c ≠ ascii 'h' ∧ c ≠ ascii 'l' := by decide
  obtain ⟨zero, digit, alternate, left, space, plus, h, l⟩ := others letter known
  have noDigit : ¬((letter = ascii '0' ∧ state.flags.fdwidth = true) ∨
      (ascii '1' ≤ letter ∧ letter ≤ ascii '9')) := by
    rintro (isZero | isDigit)
    · exact zero isZero.1
    · exact digit isDigit
  rw [body_special of.special, special, if_neg noDigit]
  simp only [zero, alternate, left, space, plus, h, l, if_false]

end State

end Directives

section Text

/-! ## Between directives -/

/-- The state is outside of a directive, and `handed` is what has been handed
over together with what is still in the buffer. -/
structure State.Between (state : State xlen) (handed : List Byte) : Prop where
  literal : state.flags = {}
  pending : ∃ pending, state.j = pending.length ∧ pending.length < 0x40 ∧
    state.buf.Starts pending ∧ state.output ++ pending = handed

namespace State

variable {memory : Memory} {state : State xlen} {handed : List Byte}

/-- A conversion leaves nothing in the buffer. -/
theorem between_end_special : state.end_special.Between state.output :=
  ⟨rfl, [], rfl, by decide, Chars.starts_nil _, List.append_nil _⟩

/-- A literal character is kept, and a full buffer is flushed. -/
theorem body_literal
    (memory : Memory)
    (state : State xlen)
    (between : state.Between handed)
    {c : Byte}
    (ordinary : c ≠ ascii '%') :
    ∃ next, state.body memory c = some next ∧ next.Between (handed ++ [c]) ∧
      next.ap = state.ap := by
  obtain ⟨literal, pending, count, room, starts, rfl⟩ := between
  obtain ⟨buf, stored, starts', -⟩ := starts.store room c
  rw [body, if_pos ⟨ordinary, literal⟩, buffered, count, stored]
  simp only [Option.bind_eq_bind, Option.bind_some]
  by_cases full : pending.length + 1 = 0x40
  · have flushed := ({ state with buf, j := pending.length + 1 } : State xlen)._printm_buffer
      starts'
    rw [List.length_append, List.length_singleton] at flushed
    rw [if_pos full, flushed]
    refine ⟨_, rfl, ⟨literal, [], rfl, by decide, Chars.starts_nil _, ?_⟩, rfl⟩
    rw [List.append_nil, List.append_assoc]
    rfl
  · rw [if_neg full]
    refine ⟨_, rfl, ⟨literal, pending ++ [c], ?_, ?_, starts', ?_⟩, rfl⟩
    · rw [List.length_append, List.length_singleton]
    · rw [List.length_append, List.length_singleton]
      omega
    · rw [List.append_assoc]

/-- The `%` of a directive flushes the buffer. -/
theorem body_percent (between : state.Between handed) :
    state.body memory (ascii '%') = some { state with
      j := 0, flags := { special := true }, fdwidth := 0, output := handed } := by
  obtain ⟨literal, pending, count, room, starts, rfl⟩ := between
  rw [body, if_neg (fun both => both.1 rfl), literal, if_neg (by decide), enter_special,
    count, state._printm_buffer starts]
  rfl

/-- A directive up to its letter. -/
theorem read_directive
    (memory : Memory)
    (state : State xlen)
    (between : state.Between handed)
    (layout : Layout)
    (length : Option Length)
    {letter : Byte}
    (known : letter ∈ letters) :
    ∃ ready, state.read memory (directive layout length letter) =
        State.conversion memory letter ready ∧
      ready.Shows layout ∧ ready.flags.Modified length ∧ ready.ap = state.ap ∧
        ready.output = handed := by
  have started : ({ special := true } : Flags).Of [] := by constructor <;> rfl
  have plain : ({ special := true } : Flags).Modified none := by constructor <;> rfl
  have entered : state.read memory [ascii '%'] = some _ :=
    (read_singleton _).trans (body_percent between)
  obtain ⟨withLayout, layoutRead, of, plain'⟩ := read_layout memory
    { state with
      j := 0, flags := { special := true }, fdwidth := 0, output := handed }
    started plain rfl rfl layout
  obtain ⟨withLength, lengthRead, of', modified⟩ := read_length memory
    { state with
      j := 0, flags := withLayout, fdwidth := layout.least, output := handed }
    of plain' length
  refine ⟨{ state with
    j := 0, flags := { withLength with fdwidth := false }, fdwidth := layout.least,
    output := handed }, ?_, ?_, ?_, rfl, rfl⟩
  · rw [directive, ← List.singleton_append, read_append entered, List.append_assoc,
      read_append layoutRead, read_append lengthRead, read_singleton,
      body_letter of' known]
  · exact ⟨of'.altform, of'.zeropad, of'.leftadj, of'.spacepd, of'.asigned, rfl⟩
  · exact ⟨modified.hh, modified.h, modified.l, modified.ll⟩

/-- After a conversion. -/
theorem between_converted
    (start : state.output = handed)
    (ap : List (Argument xlen))
    (buf : Buffer)
    (bytes : List Byte) :
    ((state.fetched ap buf).printed bytes).end_special.Between (handed ++ bytes) := by
  rw [← start]
  exact between_end_special

end State

/-- The unsigned conversions print the field of their argument. -/
theorem State.unsigned_conversion_eq
    (memory : Memory)
    {state : State xlen}
    {layout : Layout}
    (shows : state.Shows layout)
    {number : BitVec 64}
    {ap : List (Argument xlen)}
    (argument : state.unsigned_argument = some (number, { state with ap }))
    (letter : UnsignedLetter) :
    ∃ buf, state.conversion memory letter.byte = some ((state.fetched ap buf).printed
      (layout.field (layout.radix letter.lead) (letter.numeral number.toNat))).end_special := by
  cases letter with
  | u =>
      have chosen : state.conversion memory UnsignedLetter.u.byte =
          state.unsigned_decimal := by
        simp [conversion, UnsignedLetter.byte, ascii]
      have noLead : layout.radix UnsignedLetter.u.lead = [] := by
        simp [Layout.radix, UnsignedLetter.lead]
      rw [chosen, noLead]
      exact unsigned_decimal_eq shows argument
  | o =>
      have chosen : state.conversion memory UnsignedLetter.o.byte =
          state.unsigned_octal := by
        simp [conversion, UnsignedLetter.byte, ascii]
      rw [chosen, unsigned_octal, argument]
      exact radix_field_eq shows coded_octal _ number ap
  | x =>
      have chosen : state.conversion memory UnsignedLetter.x.byte =
          state.lower_hexadecimal UnsignedLetter.x.byte := by
        simp [conversion, UnsignedLetter.byte, ascii]
      rw [chosen, lower_hexadecimal, if_neg (by decide), argument]
      exact radix_field_eq shows coded_lower _ number ap
  | X =>
      have chosen : state.conversion memory UnsignedLetter.X.byte =
          state.upper_hexadecimal := by
        simp [conversion, UnsignedLetter.byte, ascii]
      rw [chosen, upper_hexadecimal, argument]
      exact radix_field_eq shows coded_upper _ number ap

/-- A piece is read and printed. -/
theorem Piece.read
    {memory : Memory}
    {state : State xlen}
    {handed : List Byte}
    (between : state.Between handed)
    (piece : Piece xlen)
    (placed : piece.Placed memory)
    {ap : List (Argument xlen)}
    (given : state.ap = piece.arguments ++ ap) :
    ∃ next, state.read memory piece.text = some next ∧
      next.Between (handed ++ piece.rendered) ∧ next.ap = ap := by
  cases piece with
  | literal c nonzero ordinary =>
      obtain ⟨next, body, after, same⟩ := state.body_literal memory between ordinary
      exact ⟨next, (State.read_singleton c).trans body, after, same.trans given⟩
  | signed letter layout number =>
      have known : letter.byte ∈ State.letters := by cases letter <;> decide
      obtain ⟨ready, read, shows, modified, same, start⟩ :=
        state.read_directive memory between layout number.length known
      obtain ⟨num, argument, value⟩ :=
        State.signed_argument_eq modified (same.trans given)
      obtain ⟨buf, converted⟩ := State.signed_decimal_eq shows argument
      have chosen : ready.conversion memory letter.byte = ready.signed_decimal := by
        cases letter <;> simp [State.conversion, SignedLetter.byte]
      rw [value] at converted
      exact ⟨_, read.trans (chosen.trans converted),
        State.between_converted start ap buf _, rfl⟩
  | unsigned letter layout number =>
      have known : letter.byte ∈ State.letters := by cases letter <;> decide
      obtain ⟨ready, read, shows, modified, same, start⟩ :=
        state.read_directive memory between layout number.length known
      obtain ⟨num, argument, value⟩ :=
        State.unsigned_argument_eq modified (same.trans given)
      obtain ⟨buf, converted⟩ :=
        State.unsigned_conversion_eq memory shows argument letter
      rw [value] at converted
      exact ⟨_, read.trans converted, State.between_converted start ap buf _, rfl⟩
  | pointer layout length value =>
      have known : ascii 'p' ∈ State.letters := by decide
      obtain ⟨ready, read, shows, -, same, start⟩ :=
        state.read_directive memory between layout length known
      obtain ⟨num, argument, number⟩ := State.pointer_argument_eq (same.trans given)
      obtain ⟨buf, converted⟩ := State.radix_field_eq shows coded_lower
        [ascii '0', ascii 'x'] num ap
      have chosen : ready.conversion memory (ascii 'p') =
          ready.lower_hexadecimal (ascii 'p') := by
        simp [State.conversion, ascii]
      rw [number] at converted
      refine ⟨_, read.trans (chosen.trans ?_), State.between_converted start ap buf _, rfl⟩
      rw [State.lower_hexadecimal, if_pos rfl, argument]
      exact converted
  | character layout length value =>
      have known : ascii 'c' ∈ State.letters := by decide
      obtain ⟨ready, read, -, -, same, start⟩ :=
        state.read_directive memory between layout length known
      obtain ⟨buf, converted⟩ := State.character_eq (same.trans given)
      have chosen : ready.conversion memory (ascii 'c') = ready.character := by
        simp [State.conversion, ascii]
      exact ⟨_, read.trans (chosen.trans converted),
        State.between_converted start ap buf _, rfl⟩
  | percent layout length =>
      have known : ascii '%' ∈ State.letters := by decide
      obtain ⟨ready, read, -, -, same, start⟩ :=
        state.read_directive memory between layout length known
      have chosen : ready.conversion memory (ascii '%') = ready.delimited_percent := by
        simp [State.conversion, ascii]
      exact ⟨_, read.trans (chosen.trans State.delimited_percent_eq),
        State.between_converted start ready.ap ready.buf _, same.trans given⟩
  | string flags length address contents =>
      obtain ⟨present, spelled⟩ := placed
      have known : ascii 's' ∈ State.letters := by decide
      obtain ⟨ready, read, shows, -, same, start⟩ :=
        state.read_directive memory between ⟨flags, none⟩ length known
      have converted := State.c_string_eq present spelled (same.trans given) shows.width
      have chosen : ready.conversion memory (ascii 's') = ready.c_string memory := by
        simp [State.conversion, ascii]
      exact ⟨_, read.trans (chosen.trans converted),
        State.between_converted start ap ready.buf _, rfl⟩

/-- The pieces are read and printed in order. -/
theorem read_pieces
    {memory : Memory}
    {state : State xlen}
    {handed : List Byte}
    (between : state.Between handed)
    (pieces : List (Piece xlen))
    (placed : ∀ piece ∈ pieces, piece.Placed memory)
    (given : state.ap = arguments pieces) :
    ∃ next, state.read memory (text pieces) = some next ∧
      next.Between (handed ++ rendered pieces) := by
  induction pieces generalizing state handed with
  | nil => exact ⟨state, rfl, by simpa [rendered] using between⟩
  | cons piece pieces inductionHypothesis =>
      obtain ⟨next, read, after, rest⟩ :=
        piece.read between (placed piece (by simp)) given
      obtain ⟨last, reads, finished⟩ :=
        inductionHypothesis after (fun other later => placed other (by simp [later])) rest
      refine ⟨last, ?_, ?_⟩
      · rw [text, List.flatMap_cons, State.read_append read]
        exact reads
      · rw [rendered, List.flatMap_cons, ← List.append_assoc]
        exact finished

end Text

section Run

/-! ## The loop -/

variable {memory : Memory} {format : Nat → Byte} {state : State xlen} {i : Nat}

/-- A turn at a character of the string. -/
theorem printm_turn_read
    {next : State xlen}
    (nonzero : format i ≠ 0)
    (body : state.body memory (format i) = some next) :
    printm_turn memory format ⟨i, state⟩ = .again ⟨(i + 1) % 2 ^ 32, next⟩ := by
  simp only [printm_turn]
  rw [if_pos nonzero, body]

/-- The loop reads characters while the index does not wrap. -/
theorem returns_of_read
    {characters : List Byte}
    (spelled : Spells (fun k => format (i + k)) characters)
    (fits : i + characters.length < 2 ^ 32)
    {next : State xlen}
    (read : state.read memory characters = some next)
    {result : Option (List Byte)}
    (left : Returns (printm_turn memory format) ⟨i + characters.length, next⟩ result) :
    Returns (printm_turn memory format) ⟨i, state⟩ result := by
  induction characters generalizing i state with
  | nil =>
      obtain rfl : state = next := by simpa [State.read] using read
      exact left
  | cons c characters inductionHypothesis =>
      obtain ⟨here, nonzero, later⟩ := Spells.cons_iff.mp spelled
      obtain rfl : format i = c := here
      have after : Spells (fun k => format (i + 1 + k)) characters := by
        simpa only [Nat.add_assoc, Nat.add_comm 1] using later
      rw [State.read, List.foldlM_cons, Option.bind_eq_bind] at read
      obtain ⟨middle, body, rest⟩ := Option.bind_eq_some_iff.mp read
      rw [List.length_cons] at fits left
      refine Returns.of_again (printm_turn_read nonzero body) ?_
      rw [Nat.mod_eq_of_lt (by omega)]
      refine inductionHypothesis after (by omega) rest ?_
      rwa [Nat.add_assoc, Nat.add_comm 1]

/-- At the end of the string the rest of the buffer is handed over. -/
theorem returns_at_end
    {handed : List Byte}
    (between : state.Between handed)
    (ended : format i = 0) :
    Returns (printm_turn memory format) ⟨i, state⟩ (some handed) := by
  obtain ⟨-, pending, count, -, starts, rfl⟩ := between
  refine Returns.of_leave ?_
  simp only [printm_turn]
  rw [if_neg (fun nonzero => nonzero ended), count]
  by_cases any : 0 < pending.length
  · rw [if_pos any, state._printm_buffer starts]
    rfl
  · obtain rfl : pending = [] := by simpa using any
    rw [if_neg any, List.append_nil]

/-- Without a zero that the index can reach the loop never comes to an end. -/
theorem never_returns
    (endless : ∀ k < 2 ^ 32, format k ≠ 0)
    (inside : i < 2 ^ 32)
    (output : List Byte) :
    ¬Returns (printm_turn memory format) ⟨i, state⟩ (some output) := by
  rintro ⟨fuel, left⟩
  induction fuel generalizing i state with
  | zero => simp [iterate] at left
  | succ fuel inductionHypothesis =>
      have nonzero := endless i inside
      cases body : state.body memory (format i) with
      | none =>
          have turn : printm_turn memory format ⟨i, state⟩ = .leave none := by
            simp only [printm_turn]
            rw [if_pos nonzero, body]
          rw [iterate, turn] at left
          cases left
      | some next =>
          rw [iterate, printm_turn_read nonzero body] at left
          exact inductionHypothesis (Nat.mod_lt _ (by decide)) left

/-- A string that the index cannot count is never printed. -/
theorem not_prints_of_long
    {format : Word xlen}
    {text : List Byte}
    (spelled : Spells (fromPointer xlen memory format.toNat) text)
    (long : 2 ^ 32 ≤ text.length)
    (ap : List (Argument xlen))
    (buf : Buffer)
    (output : List Byte) :
    ¬Prints memory format ap buf output := by
  refine never_returns (fun k inside => ?_) (by decide) output
  have early : k < text.length := by omega
  rw [spelled.spelled k early]
  exact fun zero => spelled.proper (zero ▸ List.getElem_mem early)

end Run

section Contract

/-! ## The contract -/

/-- `printm` prints what its format string and arguments stand for when, and
only when, the string is shorter than its index can count. -/
theorem printm_renders
    (memory : Memory)
    (format : Word xlen)
    (pieces : List (Piece xlen))
    (buf : Buffer)
    (spelled : Spells (fromPointer xlen memory format.toNat) (text pieces))
    (placed : ∀ piece ∈ pieces, piece.Placed memory) :
    Prints memory format (arguments pieces) buf (rendered pieces) ↔
      (text pieces).length < 2 ^ 32 := by
  constructor
  · intro prints
    by_contra long
    exact not_prints_of_long spelled (by omega) _ _ _ prints
  · intro short
    have start : (printm_entry (arguments pieces) buf).Between [] :=
      ⟨rfl, [], rfl, by decide, Chars.starts_nil _, rfl⟩
    obtain ⟨last, read, finished⟩ := read_pieces start pieces placed rfl
    have whole : Spells (fun k => fromPointer xlen memory format.toNat (0 + k))
        (text pieces) := by simpa using spelled
    refine returns_of_read whole (by omega) read ?_
    rw [Nat.zero_add]
    exact returns_at_end finished spelled.ended

/-- A format string alone in memory. -/
theorem stored_spelled
    (format : Word xlen)
    {text : List Byte}
    (fits : format.toNat + text.length < xlen.size)
    (proper : 0 ∉ text) :
    Spells (fromPointer xlen (Memory.stored format.toNat (text ++ [0])) format.toNat)
      text :=
  fromPointer_spells (Memory.stored_holds _ _) fits proper

/-- `[%-5d]` and `%#06hhx`. -/
def twoFields : List (Piece .rv32) :=
  [.literal (ascii '[') (by decide) (by decide),
    .signed .d ⟨[.left], some ⟨5, by decide, by decide⟩⟩ (.plain (-42)),
    .literal (ascii ']') (by decide) (by decide),
    .unsigned .x ⟨[.alternate, .zero], some ⟨6, by decide, by decide⟩⟩ (.hh 0x1AB)]

theorem printm_renders_twoFields :
    Prints (Memory.stored 0x80001000 (text twoFields ++ [0])) (0x80001000 : Word .rv32)
      [.int (-42), .int 0x1AB] (Vector.replicate 0x40 0)
        (['[', '-', '4', '2', ' ', ' ', ']', '0', 'x', '0', '0', 'a', 'b'].map ascii) := by
  have placed : ∀ piece ∈ twoFields,
      piece.Placed (Memory.stored 0x80001000 (text twoFields ++ [0])) := by
    intro piece member
    simp only [twoFields, List.mem_cons, List.not_mem_nil, or_false] at member
    rcases member with rfl | rfl | rfl | rfl <;> trivial
  have prints := (printm_renders _ (0x80001000 : Word .rv32) twoFields
    (Vector.replicate 0x40 0)
    (stored_spelled _ (by decide) (by decide)) placed).mpr (by decide)
  have shown : rendered twoFields =
      ['[', '-', '4', '2', ' ', ' ', ']', '0', 'x', '0', '0', 'a', 'b'].map ascii := by
    decide
  rwa [shown] at prints

/-- A format string of ordinary letters. -/
def repeated (n : Nat) : List (Piece .rv64) :=
  List.replicate n (.literal (ascii 'a') (by decide) (by decide))

theorem text_repeated (n : Nat) : text (repeated n) = List.replicate n (ascii 'a') := by
  induction n with
  | zero => rfl
  | succ n inductionHypothesis =>
      rw [repeated, List.replicate_succ, text, List.flatMap_cons]
      exact congrArg (ascii 'a' :: ·) inductionHypothesis

/-- Not every format string is printed. -/
theorem not_printm_renders :
    ¬∀ (memory : Memory) (format : Word .rv64) (pieces : List (Piece .rv64))
      (buf : Buffer),
      Spells (fromPointer .rv64 memory format.toNat) (text pieces) →
      (∀ piece ∈ pieces, piece.Placed memory) →
      Prints memory format (arguments pieces) buf (rendered pieces) := by
  intro always
  have length : (text (repeated (2 ^ 32))).length = 2 ^ 32 := by
    rw [text_repeated, List.length_replicate]
  have proper : 0 ∉ text (repeated (2 ^ 32)) := by
    rw [text_repeated]
    exact fun zero => absurd (List.eq_of_mem_replicate zero) (by decide)
  have spelled := stored_spelled (0x80000000 : Word .rv64)
    (show _ + (text (repeated (2 ^ 32))).length < _ by rw [length]; decide) proper
  refine not_prints_of_long spelled (by rw [length]) _ (Vector.replicate 0x40 0) _
    (always _ _ _ _ spelled fun piece member => ?_)
  rw [List.eq_of_mem_replicate member]
  trivial

end Contract

end Printm
end EchelonSbi
