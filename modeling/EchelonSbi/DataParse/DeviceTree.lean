import EchelonSbi.DataParse.Strings

/-!
# Flattened device trees

The format, version 17, and the search of `dtb_parse.c` in it.  A tree is given
by its nodes and properties; its structure block is a list of tokens.
-/

namespace EchelonSbi
namespace DataParse

open Foundation

section Format

/-! ## The format -/

/-- A big-endian number. -/
def bigEndian32 (value : BitVec 32) : List Byte :=
  [(value >>> 24).setWidth 8, (value >>> 16).setWidth 8,
    (value >>> 8).setWidth 8, value.setWidth 8]

/-- Bytes are padded to a multiple of 4. -/
def padded4 (bytes : List Byte) : List Byte :=
  bytes ++ List.replicate ((4 - bytes.length % 4) % 4) 0

/-- What a node contains. -/
inductive Item where
  | nop
  | property (nameoff : BitVec 32) (value : List Byte)
  | node (name : List Byte) (items : List Item)

/-- A token of the structure block, with what belongs to it. -/
inductive Token where
  | beginNode (name : List Byte)
  | endNode
  | property (nameoff : BitVec 32) (value : List Byte)
  | nop
  deriving DecidableEq, Repr

mutual

/-- The tokens of an item. -/
def Item.tokens : Item → List Token
  | .nop => [.nop]
  | .property nameoff value => [.property nameoff value]
  | .node name items => .beginNode name :: Item.listTokens items ++ [.endNode]

/-- The tokens of a list of items. -/
def Item.listTokens : List Item → List Token
  | [] => []
  | item :: items => item.tokens ++ Item.listTokens items

end

mutual

/-- The properties in an item, at any depth. -/
def Item.properties : Item → List (BitVec 32 × List Byte)
  | .nop => []
  | .property nameoff value => [(nameoff, value)]
  | .node _ items => Item.listProperties items

/-- The properties in a list of items. -/
def Item.listProperties : List Item → List (BitVec 32 × List Byte)
  | [] => []
  | item :: items => item.properties ++ Item.listProperties items

end

namespace Token

def encode : Token → List Byte
  | beginNode name => bigEndian32 1 ++ padded4 (name ++ [0])
  | endNode => bigEndian32 2
  | property nameoff value =>
      bigEndian32 3 ++ bigEndian32 (BitVec.ofNat 32 value.length) ++
        bigEndian32 nameoff ++ padded4 value
  | nop => bigEndian32 4

/-- The property of a token. -/
def property? : Token → Option (BitVec 32 × List Byte)
  | property nameoff value => some (nameoff, value)
  | _ => none

/-- A name has no zero in it; a property has a name in the strings block. -/
def Proper (strings : List Byte) : Token → Prop
  | beginNode name => 0 ∉ name
  | property nameoff _ => 0 ∈ strings.drop nameoff.toNat
  | _ => True

end Token

/-- The string at an offset in the strings block. -/
def stringAt (strings : List Byte) (offset : Nat) : List Byte :=
  (strings.drop offset).takeWhile (· ≠ 0)

/-- The structure block. -/
def structureBlock (items : List Item) : List Byte :=
  (Item.listTokens items).flatMap Token.encode ++ bigEndian32 9

/-- A root node with NOPs around it. -/
def rooted (leading : Nat) (name : List Byte) (items : List Item)
    (trailing : Nat) : List Item :=
  List.replicate leading .nop ++ [.node name items] ++
    List.replicate trailing .nop

/-- A device tree and where its blocks are. -/
structure DeviceTree where
  leading : Nat
  name : List Byte
  items : List Item
  trailing : Nat
  strings : List Byte
  totalsize : BitVec 32
  off_dt_struct : BitVec 32
  off_dt_strings : BitVec 32
  off_mem_rsvmap : BitVec 32
  last_comp_version : BitVec 32
  boot_cpuid_phys : BitVec 32
  proper : ∀ token ∈ Item.listTokens (rooted leading name items trailing),
    token.Proper strings
  headerInside : 40 ≤ totalsize.toNat
  /-- The structure block is before the strings block. -/
  ordered : off_dt_struct.toNat +
      (structureBlock (rooted leading name items trailing)).length ≤
    off_dt_strings.toNat
  inside : off_dt_strings.toNat + strings.length ≤ totalsize.toNat

namespace DeviceTree

variable (tree : DeviceTree)

def tokens : List Token :=
  Item.listTokens (rooted tree.leading tree.name tree.items tree.trailing)

def structBlock : List Byte :=
  structureBlock (rooted tree.leading tree.name tree.items tree.trailing)

/-- The header, as the numbers in it. -/
def headerWords : List (BitVec 32) :=
  [0xD00DFEED, tree.totalsize, tree.off_dt_struct, tree.off_dt_strings,
    tree.off_mem_rsvmap, 17, tree.last_comp_version, tree.boot_cpuid_phys,
    BitVec.ofNat 32 tree.strings.length,
    BitVec.ofNat 32 tree.structBlock.length]

/-- The values of the properties with a name. -/
def values (name : List Byte) : List (List Byte) :=
  ((Item.listProperties
      (rooted tree.leading tree.name tree.items tree.trailing)).filter
    fun property => stringAt tree.strings property.1.toNat = name).map
      Prod.snd

/-- The tree is in memory. -/
structure Placed (xlen : Xlen) (memory : Memory) (location : Nat) : Prop where
  header : memory.Holds location (tree.headerWords.flatMap bigEndian32)
  structs : memory.Holds (location + tree.off_dt_struct.toNat)
    tree.structBlock
  strings : memory.Holds (location + tree.off_dt_strings.toNat) tree.strings
  fits : location + tree.totalsize.toNat ≤ xlen.size

end DeviceTree

/-- The number that a value is, big-endian and as far as it fits. -/
def bigEndian (width : Nat) (value : List Byte) : BitVec width :=
  BitVec.ofNat width (value.foldl (fun number byte => number * 256 + byte.toNat) 0)

end Format

section Code

/-! ## The code -/

/-- `linux,initrd-start`. -/
def INITRD_START : List Byte :=
  [0x6C, 0x69, 0x6E, 0x75, 0x78, 0x2C, 0x69, 0x6E, 0x69, 0x74, 0x72, 0x64, 0x2D,
    0x73, 0x74, 0x61, 0x72, 0x74]

/-- `linux,initrd-end`. -/
def INITRD_END : List Byte :=
  [0x6C, 0x69, 0x6E, 0x75, 0x78, 0x2C, 0x69, 0x6E, 0x69, 0x74, 0x72, 0x64, 0x2D,
    0x65, 0x6E, 0x64]

def FDT_BEGIN_NODE : BitVec 32 := 1
def FDT_END_NODE : BitVec 32 := 2
def FDT_PROP : BitVec 32 := 3
def FDT_NOP : BitVec 32 := 4
def FDT_END : BitVec 32 := 9

/-- A shift of the code: the width of its left operand, and its amount. -/
structure Shift where
  width : Nat
  amount : Nat
  deriving DecidableEq, Repr

section Swap

variable (xlen : Xlen)

/-- The loop of `dtb_parse_swap_endianess_32` and
`dtb_parse_swap_endianess_64`, `width` being `bitwidth`.  The masks are of type
`unsigned long`. -/
def swap_endianess_loop
    (val : BitVec width) (i j k : Nat) (retval : BitVec width) : BitVec width :=
  if i < width then
    let retval :=
      retval ||| ((val >>> i) &&& (0xFF#(xlen.bits) <<< k).setWidth width)
    let retval :=
      retval ||| ((val <<< i) &&& (0xFF#(xlen.bits) <<< j).setWidth width)
    swap_endianess_loop val (i + 16) (j + 8) (k - 8) retval
  else retval
termination_by width - i

/-- The shifts of the loop in order. -/
def swap_endianess_shifts (width i j k : Nat) : List Shift :=
  if i < width then
    [⟨width, i⟩, ⟨xlen.bits, k⟩, ⟨width, i⟩, ⟨xlen.bits, j⟩] ++
      swap_endianess_shifts width (i + 16) (j + 8) (k - 8)
  else []
termination_by width - i

/-- `dtb_parse_swap_endianess_32` and `dtb_parse_swap_endianess_64`. -/
def dtb_parse_swap_endianess (val : BitVec width) : BitVec width :=
  swap_endianess_loop xlen val 8 (width / 2) (width / 2 - 8) 0

end Swap

/-- The `uint32_t` at an offset from a pointer, on a little-endian host. -/
def wordAt
    (xlen : Xlen) (memory : Memory) (pointer offset : Nat) : BitVec 32 :=
  let byte i := (fromPointer xlen memory pointer (offset + i)).setWidth 32
  byte 3 <<< 24 ||| byte 2 <<< 16 ||| byte 1 <<< 8 ||| byte 0

/-- `struct fdt_header`. -/
structure fdt_header where
  magic : BitVec 32
  totalsize : BitVec 32
  off_dt_struct : BitVec 32
  off_dt_strings : BitVec 32
  off_mem_rsvmap : BitVec 32
  version : BitVec 32
  last_comp_version : BitVec 32
  boot_cpuid_phys : BitVec 32
  size_dt_strings : BitVec 32
  size_dt_struct : BitVec 32
  deriving DecidableEq, Repr

/-- What `memcpy` copies into a header, and what the loop over its words makes
of it. -/
def fdt_header.copied
    (convert : BitVec 32 → BitVec 32)
    (xlen : Xlen) (memory : Memory) (pointer : Nat) : fdt_header :=
  let word offset := convert (wordAt xlen memory pointer offset)
  { magic := word 0
    totalsize := word 4
    off_dt_struct := word 8
    off_dt_strings := word 12
    off_mem_rsvmap := word 16
    version := word 20
    last_comp_version := word 24
    boot_cpuid_phys := word 28
    size_dt_strings := word 32
    size_dt_struct := word 36 }

section Loops

variable (xlen : Xlen) (memory : Memory)
  /- What a 32-bit number is converted with where `ptr` is set. -/
  (convert : BitVec 32 → BitVec 32)

/-- `i` rounded up to a multiple of 4 from `dt_struct`. -/
def align_to_struct (dt_struct i : Nat) : Nat :=
  let addr := xlen.wrap (i + (xlen.size - dt_struct))
  let addr :=
    if addr % 4 ≠ 0 then xlen.wrap (addr - addr % 4 + 4) else addr
  xlen.wrap (addr + dt_struct)

/-- The loop over the bytes of a value. -/
def shift_in (byte_ptr len : Nat) (initial : Word xlen) : Word xlen :=
  (List.range len).foldl
    (fun number j => number <<< 8 |||
      (fromPointer xlen memory byte_ptr j).setWidth xlen.bits) initial

/-- The variables of the scan. -/
structure TreeScan (xlen : Xlen) where
  i : Nat
  tree_depth : BitVec 32
  linux_initrd_start : Word xlen
  linux_initrd_end : Word xlen

/-- One turn over the memory reservations: `leave` at the entry that ends them
or at the structure block. -/
def rsvmap_turn
    (swap64 : BitVec 64 → BitVec 64) (dt_struct i : Nat) : Turn Nat Unit :=
  let doubleWord offset :=
    swap64 ((wordAt xlen memory i (offset + 4)).setWidth 64 <<< 32 |||
      (wordAt xlen memory i offset).setWidth 64)
  if i < dt_struct then
    if doubleWord 0 = 0 ∧ doubleWord 8 = 0 then .leave ()
    else .again (xlen.wrap (i + 16))
  else .leave ()

/-- The part of a turn for a property. -/
def property_turn
    (dt_struct dt_strings : Nat) (scan : TreeScan xlen) :
    Turn (TreeScan xlen) (TreeScan xlen) :=
  let i := xlen.wrap (scan.i + 4)
  let len := convert (wordAt xlen memory i 0)
  let nameoff := convert (wordAt xlen memory i 4)
  let i := xlen.wrap (i + 8)
  let name := fromPointer xlen memory (xlen.wrap (dt_strings + nameoff.toNat))
  let next := align_to_struct xlen dt_struct (xlen.wrap (i + len.toNat))
  match strcmp name (literal INITRD_START) with
  -- the comparison never ends
  | none => .again scan
  | some 0 =>
      .again { scan with
        i := next
        linux_initrd_start :=
          shift_in xlen memory i len.toNat scan.linux_initrd_start }
  | some _ =>
      match strcmp name (literal INITRD_END) with
      | none => .again scan
      | some 0 =>
          .again { scan with
            i := next
            linux_initrd_end :=
              shift_in xlen memory i len.toNat scan.linux_initrd_end }
      | some _ => .again { scan with i := next }

/-- One turn of the scan of the structure block. -/
def scan_turn
    (dt_struct dt_strings size_dt_struct : Nat) (scan : TreeScan xlen) :
    Turn (TreeScan xlen) (TreeScan xlen) :=
  if scan.i < dt_strings ∧ scan.i < xlen.wrap (dt_struct + size_dt_struct) then
    let prop_token := convert (wordAt xlen memory scan.i 0)
    if prop_token = FDT_END then .leave scan
    else if prop_token = FDT_END_NODE then
      .again { scan with
        i := xlen.wrap (scan.i + 4)
        tree_depth :=
          if 0 < scan.tree_depth then scan.tree_depth - 1 else scan.tree_depth }
    else if prop_token = FDT_BEGIN_NODE then
      let i := xlen.wrap (scan.i + 4)
      match strlen xlen (fromPointer xlen memory i) with
      -- the name never ends
      | none => .again scan
      | some length =>
          .again { scan with
            i := align_to_struct xlen dt_struct (xlen.wrap (i + length + 1))
            tree_depth := scan.tree_depth + 1 }
    else if prop_token = FDT_NOP then
      .again { scan with i := xlen.wrap (scan.i + 4) }
    else if prop_token = FDT_PROP then
      property_turn xlen memory convert dt_struct dt_strings scan
    else .again { scan with i := xlen.wrap (scan.i + 4) }
  else .leave scan

/-- `dtb_parse` after the byte order is known. -/
def parse_blocks
    (swap64 : BitVec 64 → BitVec 64) (dtb_location : Nat)
    (dtb_header : fdt_header) (final : TreeScan xlen) : Prop :=
  let rsvmap := xlen.wrap (dtb_location + dtb_header.off_mem_rsvmap.toNat)
  let dt_struct := xlen.wrap (dtb_location + dtb_header.off_dt_struct.toNat)
  let dt_strings := xlen.wrap (dtb_location + dtb_header.off_dt_strings.toNat)
  Returns (rsvmap_turn xlen memory swap64 dt_struct) rsvmap () ∧
    Returns (scan_turn xlen memory convert dt_struct dt_strings
      dtb_header.size_dt_struct.toNat) ⟨dt_struct, 0, 0, 0⟩ final

end Loops

/-- `dtb_parse` returns.  What the two pointers point at is before it
`initrd_start` and `initrd_end`, none for a null pointer, and `result` after
it. -/
def dtb_parse
    (xlen : Xlen) (memory : Memory) (dtb_location : Nat)
    (initrd_start initrd_end : Option (Word xlen))
    (result : Option (Word xlen) × Option (Word xlen)) : Prop :=
  let stored (final : TreeScan xlen) :=
    (initrd_start.map fun _ => final.linux_initrd_start,
      initrd_end.map fun _ => final.linux_initrd_end)
  let magic := wordAt xlen memory dtb_location 0
  if magic = 0xD00DFEED then
    ∃ final, parse_blocks xlen memory id id dtb_location
      (.copied id xlen memory dtb_location) final ∧ result = stored final
  else if magic = 0xEDFE0DD0 then
    ∃ final, parse_blocks xlen memory (dtb_parse_swap_endianess xlen)
      (dtb_parse_swap_endianess xlen) dtb_location
      (.copied (dtb_parse_swap_endianess xlen) xlen memory dtb_location) final ∧
        result = stored final
  else result = (initrd_start, initrd_end)

end Code

end DataParse
end EchelonSbi
