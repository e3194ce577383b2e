import EchelonSbi.Printm.Code

/-!
# Format strings and what they stand for

A format string as a list of pieces, each with the argument it takes.  A piece
says which bytes it is in the string, which argument it takes from the list and
which bytes it is printed as.
-/

namespace EchelonSbi
namespace Printm

open Foundation DataParse

section Fields

/-! ## Fields -/

/-- A digit; `ten` is the letter for the digit ten. -/
def digit (ten : Char) (d : Nat) : Byte :=
  if d < 10 then BitVec.ofNat 8 ('0'.toNat + d)
  else BitVec.ofNat 8 (ten.toNat + (d - 10))

/-- The numeral of a number, without leading zeros. -/
def numeral (ten : Char) (base n : Nat) : List Byte :=
  if n = 0 then [ascii '0'] else ((Nat.digits base n).map (digit ten)).reverse

/-- The flags of a directive. -/
inductive Flag where
  | alternate
  | zero
  | left
  | space
  | plus
  deriving DecidableEq, Repr

def Flag.byte : Flag → Byte
  | .alternate => ascii '#'
  | .zero => ascii '0'
  | .left => ascii '-'
  | .space => ascii ' '
  | .plus => ascii '+'

/-- A width is written without leading zeros. -/
structure Width where
  value : Nat
  positive : 0 < value
  fits : value < 2 ^ 32

/-- The flags of a directive, in any order, and its width. -/
structure Layout where
  flags : List Flag
  width : Option Width

namespace Layout

variable (layout : Layout)

/-- The text of the layout in the format string. -/
def text : List Byte :=
  layout.flags.map Flag.byte ++
    match layout.width with
    | none => []
    | some width => numeral 'a' 10 width.value

/-- The least length of the field. -/
def least : Nat :=
  match layout.width with
  | none => 0
  | some width => width.value

/-- The field of a number: `lead` is its sign or radix prefix. -/
def field (lead digits : List Byte) : List Byte :=
  let padding := layout.least - (lead.length + digits.length)
  let left := Flag.left ∈ layout.flags
  let zeros := Flag.zero ∈ layout.flags ∧ ¬left
  List.replicate (if ¬left ∧ ¬zeros then padding else 0) (ascii ' ') ++ lead ++
    List.replicate (if zeros then padding else 0) (ascii '0') ++ digits ++
      List.replicate (if left then padding else 0) (ascii ' ')

/-- A field is as long as its contents and at least as long as asked for. -/
theorem field_length
    (lead digits : List Byte) :
    (layout.field lead digits).length =
      max layout.least (lead.length + digits.length) := by
  by_cases left : Flag.left ∈ layout.flags
  · simp [field, left]
    omega
  · by_cases zero : Flag.zero ∈ layout.flags
    · simp [field, left, zero]
      omega
    · simp [field, left, zero]
      omega

/-- The sign of a number. -/
def sign (value : Int) : List Byte :=
  if value < 0 then [ascii '-']
  else if Flag.plus ∈ layout.flags then [ascii '+']
  else if Flag.space ∈ layout.flags then [ascii ' ']
  else []

/-- The radix prefix is printed in the alternate form. -/
def radix (lead : List Byte) : List Byte :=
  if Flag.alternate ∈ layout.flags then lead else []

end Layout

end Fields

section Pieces

/-! ## Pieces -/

/-- The length modifiers. -/
inductive Length where
  | hh
  | h
  | l
  | ll
  deriving DecidableEq, Repr

def Length.text : Length → List Byte
  | .hh => [ascii 'h', ascii 'h']
  | .h => [ascii 'h']
  | .l => [ascii 'l']
  | .ll => [ascii 'l', ascii 'l']

/-- The text of an optional length modifier. -/
def lengthText (length : Option Length) : List Byte :=
  match length with
  | none => []
  | some length => length.text

/-- An integer argument, of the type that the length modifier asks for. -/
inductive Sized (xlen : Xlen) where
  | plain (value : BitVec 32)
  | hh (value : BitVec 32)
  | h (value : BitVec 32)
  | l (value : Word xlen)
  | ll (value : BitVec 64)

namespace Sized

variable {xlen : Xlen}

def length : Sized xlen → Option Length
  | .plain _ => none
  | .hh _ => some .hh
  | .h _ => some .h
  | .l _ => some .l
  | .ll _ => some .ll

def argument : Sized xlen → Argument xlen
  | .plain value => .int value
  | .hh value => .int value
  | .h value => .int value
  | .l value => .long value
  | .ll value => .longlong value

/-- The argument as a signed number of the asked length. -/
def signed : Sized xlen → Int
  | .plain value => value.toInt
  | .hh value => (value.setWidth 8).toInt
  | .h value => (value.setWidth 16).toInt
  | .l value => value.toInt
  | .ll value => value.toInt

/-- The argument as an unsigned number of the asked length. -/
def unsigned : Sized xlen → Nat
  | .plain value => value.toNat
  | .hh value => value.toNat % 2 ^ 8
  | .h value => value.toNat % 2 ^ 16
  | .l value => value.toNat
  | .ll value => value.toNat

end Sized

/-- `d` and `i`. -/
inductive SignedLetter where
  | d
  | i
  deriving DecidableEq, Repr

def SignedLetter.byte : SignedLetter → Byte
  | .d => ascii 'd'
  | .i => ascii 'i'

/-- `u`, `o`, `x` and `X`. -/
inductive UnsignedLetter where
  | u
  | o
  | x
  | X
  deriving DecidableEq, Repr

namespace UnsignedLetter

def byte : UnsignedLetter → Byte
  | .u => ascii 'u'
  | .o => ascii 'o'
  | .x => ascii 'x'
  | .X => ascii 'X'

/-- The radix prefix. -/
def lead : UnsignedLetter → List Byte
  | .u => []
  | .o => [ascii '0']
  | .x => [ascii '0', ascii 'x']
  | .X => [ascii '0', ascii 'X']

def numeral (letter : UnsignedLetter) (n : Nat) : List Byte :=
  match letter with
  | .u => Printm.numeral 'a' 10 n
  | .o => Printm.numeral 'a' 8 n
  | .x => Printm.numeral 'a' 16 n
  | .X => Printm.numeral 'A' 16 n

end UnsignedLetter

/-- A piece of a format string, with the argument it takes.  A string argument
is given with its address. -/
inductive Piece (xlen : Xlen) where
  | literal (c : Byte) (nonzero : c ≠ 0) (ordinary : c ≠ ascii '%')
  | signed (letter : SignedLetter) (layout : Layout) (number : Sized xlen)
  | unsigned (letter : UnsignedLetter) (layout : Layout) (number : Sized xlen)
  | pointer (layout : Layout) (length : Option Length) (value : Word xlen)
  | character (layout : Layout) (length : Option Length) (value : BitVec 32)
  | percent (layout : Layout) (length : Option Length)
  | string (flags : List Flag) (length : Option Length) (address : Word xlen)
      (contents : List Byte)

/-- A directive in the format string. -/
def directive (layout : Layout) (length : Option Length) (letter : Byte) : List Byte :=
  ascii '%' :: (layout.text ++ lengthText length ++ [letter])

namespace Piece

variable {xlen : Xlen}

/-- The piece in the format string. -/
def text : Piece xlen → List Byte
  | .literal c _ _ => [c]
  | .signed letter layout number => directive layout number.length letter.byte
  | .unsigned letter layout number => directive layout number.length letter.byte
  | .pointer layout length _ => directive layout length (ascii 'p')
  | .character layout length _ => directive layout length (ascii 'c')
  | .percent layout length => directive layout length (ascii '%')
  | .string flags length _ _ => directive ⟨flags, none⟩ length (ascii 's')

/-- The argument that the piece takes. -/
def arguments : Piece xlen → List (Argument xlen)
  | .literal _ _ _ => []
  | .signed _ _ number => [number.argument]
  | .unsigned _ _ number => [number.argument]
  | .pointer _ _ value => [.pointer value]
  | .character _ _ value => [.int value]
  | .percent _ _ => []
  | .string _ _ address _ => [.pointer address]

/-- What the piece is printed as. -/
def rendered : Piece xlen → List Byte
  | .literal c _ _ => [c]
  | .signed _ layout number =>
      layout.field (layout.sign number.signed) (numeral 'a' 10 number.signed.natAbs)
  | .unsigned letter layout number =>
      layout.field (layout.radix letter.lead) (letter.numeral number.unsigned)
  | .pointer layout _ value =>
      layout.field (layout.radix [ascii '0', ascii 'x']) (numeral 'a' 16 value.toNat)
  | .character _ _ value => [value.setWidth 8]
  | .percent _ _ => [ascii '%']
  | .string _ _ _ contents => contents

/-- A string argument is a string in memory. -/
def Placed (memory : Memory) : Piece xlen → Prop
  | .string _ _ address contents =>
      address ≠ 0 ∧ Spells (fromPointer xlen memory address.toNat) contents
  | _ => True

end Piece

variable {xlen : Xlen}

/-- The format string of the pieces. -/
def text (pieces : List (Piece xlen)) : List Byte :=
  pieces.flatMap Piece.text

/-- The arguments that the pieces take, in order. -/
def arguments (pieces : List (Piece xlen)) : List (Argument xlen) :=
  pieces.flatMap Piece.arguments

/-- What the pieces are printed as. -/
def rendered (pieces : List (Piece xlen)) : List Byte :=
  pieces.flatMap Piece.rendered

end Pieces

end Printm
end EchelonSbi
