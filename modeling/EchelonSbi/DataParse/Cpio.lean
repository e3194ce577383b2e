import EchelonSbi.DataParse.Strings

/-!
# CPIO archives

The old binary format, and the lookup of `cpio_parse.c` in it.  An archive is
described by its entries; `encode` is what a writer of either byte order makes
of it.
-/

namespace EchelonSbi
namespace DataParse

open Foundation

section Format

/-! ## The format -/

/-- The byte order of the machine that wrote the archive. -/
inductive ByteOrder where
  | little
  | big
  deriving DecidableEq, Repr

namespace ByteOrder

/-- A 16-bit number. -/
def halfWord (order : ByteOrder) (value : BitVec 16) : List Byte :=
  match order with
  | .little => [value.setWidth 8, (value >>> 8).setWidth 8]
  | .big => [(value >>> 8).setWidth 8, value.setWidth 8]

end ByteOrder

/-- The upper half of a 32-bit number comes first, in either byte order. -/
def halves (value : BitVec 32) : List (BitVec 16) :=
  [(value >>> 16).setWidth 16, value.setWidth 16]

/-- A file in an archive. -/
structure Entry where
  dev : BitVec 16
  ino : BitVec 16
  mode : BitVec 16
  uid : BitVec 16
  gid : BitVec 16
  nlink : BitVec 16
  majmin : BitVec 16
  mtime : BitVec 32
  name : List Byte
  data : List Byte
  /-- A name has no zero in it. -/
  proper : 0 ∉ name
  /-- The size of the name, with its zero, is a 16-bit number. -/
  nameFits : name.length + 1 < 2 ^ 16
  /-- The size of the data is a 32-bit number. -/
  dataFits : data.length < 2 ^ 32

/-- Bytes are padded to even length. -/
def padded (bytes : List Byte) : List Byte :=
  bytes ++ List.replicate (bytes.length % 2) 0

namespace Entry

variable (entry : Entry)

/-- The header as half-words. -/
def headerWords : List (BitVec 16) :=
  [0x71C7, entry.dev, entry.ino, entry.mode, entry.uid, entry.gid, entry.nlink,
    entry.majmin] ++ halves entry.mtime ++
      [BitVec.ofNat 16 (entry.name.length + 1)] ++
        halves (BitVec.ofNat 32 entry.data.length)

/-- The name and the data, padded. -/
def contents : List Byte :=
  padded (entry.name ++ [0]) ++ padded entry.data

def encode (order : ByteOrder) : List Byte :=
  entry.headerWords.flatMap order.halfWord ++ entry.contents

end Entry

/-- `TRAILER!!!`. -/
def TRAILER : List Byte :=
  [0x54, 0x52, 0x41, 0x49, 0x4C, 0x45, 0x52, 0x21, 0x21, 0x21]

/-- An archive is ended by an entry with the name of the trailer. -/
structure Archive where
  entries : List Entry
  trailer : Entry
  ordinary : ∀ entry ∈ entries, entry.name ≠ TRAILER
  ended : trailer.name = TRAILER

def Archive.encode (archive : Archive) (order : ByteOrder) : List Byte :=
  archive.entries.flatMap (·.encode order) ++ archive.trailer.encode order

end Format

section Code

/-! ## The code -/

/-- `struct bits16`. -/
structure bits16 where
  hi16 : BitVec 16
  lw16 : BitVec 16
  deriving DecidableEq, Repr

/-- `union hwords`, as its half-words. -/
structure hwords where
  hwds : bits16
  deriving DecidableEq, Repr

/-- The other member of the union: on a little-endian host the half-word at the
lower address is the lower half of the number. -/
def hwords.vl32 (union : hwords) : BitVec 32 :=
  union.hwds.lw16.setWidth 32 <<< 16 ||| union.hwds.hi16.setWidth 32

/-- `struct header_pwb_cpio`. -/
structure header_pwb_cpio where
  h_magic : BitVec 16
  h_dev : BitVec 16
  h_ino : BitVec 16
  h_mode : BitVec 16
  h_uid : BitVec 16
  h_gid : BitVec 16
  h_nlink : BitVec 16
  h_majmin : BitVec 16
  h_mtime : hwords
  h_namesize : BitVec 16
  h_filesize : hwords
  deriving DecidableEq, Repr

/-- `sizeof(struct header_pwb_cpio)`. -/
def header_size : Nat := 26

/-- The `uint16_t` at an offset from a pointer, on a little-endian host. -/
def halfWordAt
    (xlen : Xlen) (memory : Memory) (pointer offset : Nat) : BitVec 16 :=
  (fromPointer xlen memory pointer (offset + 1)).setWidth 16 <<< 8 |||
    (fromPointer xlen memory pointer offset).setWidth 16

/-- What `memcpy` copies into a header. -/
def header_pwb_cpio.copied
    (xlen : Xlen) (memory : Memory) (pointer : Nat) : header_pwb_cpio :=
  let word := halfWordAt xlen memory pointer
  { h_magic := word 0
    h_dev := word 2
    h_ino := word 4
    h_mode := word 6
    h_uid := word 8
    h_gid := word 10
    h_nlink := word 12
    h_majmin := word 14
    h_mtime := ⟨⟨word 16, word 18⟩⟩
    h_namesize := word 20
    h_filesize := ⟨⟨word 22, word 24⟩⟩ }

/-- `cpio_parse_swap_endianess_16`. -/
def cpio_parse_swap_endianess_16 (val : BitVec 16) : BitVec 16 :=
  let retval := (val <<< 8) &&& 0xFF00
  retval ||| ((val >>> 8) &&& 0x00FF)

/-- The first half of `read_entry`: undo the byte order of the writer. -/
def swap_entry (cpio_head : header_pwb_cpio) : header_pwb_cpio :=
  let swap := cpio_parse_swap_endianess_16
  if cpio_head.h_magic ≠ 0x71C7 then
    { h_magic := swap cpio_head.h_magic
      h_dev := swap cpio_head.h_dev
      h_ino := swap cpio_head.h_ino
      h_mode := swap cpio_head.h_mode
      h_uid := swap cpio_head.h_uid
      h_gid := swap cpio_head.h_gid
      h_nlink := swap cpio_head.h_nlink
      h_majmin := swap cpio_head.h_majmin
      h_mtime := ⟨⟨swap cpio_head.h_mtime.hwds.hi16,
        swap cpio_head.h_mtime.hwds.lw16⟩⟩
      h_namesize := swap cpio_head.h_namesize
      h_filesize := ⟨⟨swap cpio_head.h_filesize.hwds.hi16,
        swap cpio_head.h_filesize.hwds.lw16⟩⟩ }
  else cpio_head

/-- The byte of `tmpval` that `ptrval` points at, on a little-endian host. -/
def firstByte (tmpval : BitVec 16) : Byte :=
  tmpval.setWidth 8

/-- `read_entry`. -/
def read_entry (cpio_head : header_pwb_cpio) : header_pwb_cpio :=
  let cpio_head := swap_entry cpio_head
  if firstByte 0x0123 = 0x23 then
    { cpio_head with
      h_mtime := ⟨⟨cpio_head.h_mtime.hwds.lw16, cpio_head.h_mtime.hwds.hi16⟩⟩
      h_filesize :=
        ⟨⟨cpio_head.h_filesize.hwds.lw16, cpio_head.h_filesize.hwds.hi16⟩⟩ }
  else cpio_head

/-- The variables that live across the turns of the lookup. -/
structure Scan where
  ptr : Nat
  entry_datasize : BitVec 32

/-- One turn of the loop of `get_cpio_entry_header`.  The result is the returned
pointer and the contents of `buffer`. -/
def get_cpio_entry_header_turn
    (xlen : Xlen) (memory : Memory) (filename : Nat) (buffer : header_pwb_cpio)
    (scan : Scan) : Turn Scan (Nat × header_pwb_cpio) :=
  let ptr := xlen.wrap (scan.ptr + scan.entry_datasize.toNat)
  let cpio_head := header_pwb_cpio.copied xlen memory ptr
  if cpio_head.h_magic ≠ 0x71C7 ∧ cpio_head.h_magic ≠ 0xC771 then
    .leave (0, buffer)
  else
    let ptr := xlen.wrap (ptr + header_size)
    let cpio_head := read_entry cpio_head
    let namesize := cpio_head.h_namesize.setWidth 32
    let namesize := namesize + (namesize &&& 1)
    match strcmp (fromPointer xlen memory ptr)
        (fromPointer xlen memory filename) with
    -- the comparison never ends
    | none => .again scan
    | some 0 => .leave (xlen.wrap (ptr + namesize.toNat), cpio_head)
    | some _ =>
        let filesize := cpio_head.h_filesize.vl32
        let filesize := filesize + (filesize &&& 1)
        let entry_datasize := namesize + filesize
        match strcmp (fromPointer xlen memory ptr) (literal TRAILER) with
        | none => .again scan
        | some 0 => .leave (0, buffer)
        | some _ => .again ⟨ptr, entry_datasize⟩

/-- `get_cpio_entry_header` returns. -/
def get_cpio_entry_header
    (xlen : Xlen) (memory : Memory) (filename cpio_archive : Nat)
    (buffer : header_pwb_cpio) (result : Nat × header_pwb_cpio) : Prop :=
  Returns (get_cpio_entry_header_turn xlen memory filename buffer)
    ⟨cpio_archive, 0⟩ result

end Code

end DataParse
end EchelonSbi
