import EchelonSbi.DataParse.Cpio
import EchelonSbi.DataParse.DeviceTree
import EchelonSbi.Foundation.Transfers

/-!
# Boot staging

The part of `kmain` that finds the kernel, the device tree and the initramfs and
copies them to where the kernel is started.  The printing between its steps is
left out.
-/

namespace EchelonSbi
namespace Boot

open Foundation DataParse

/-- The first address of the firmware, which the linker script sets. -/
def PROGAMIMAGE_START : Nat := 0x80000000

/-- The address of the archive. -/
def CPIO_ARCHIVE : Nat := 0x20000000

def FW_DYNAMIC_INFO_MAGIC_VALUE : Nat := 0x4942534F

/-- `kernel.bin`. -/
def KERNEL_BIN : List Byte :=
  ['k', 'e', 'r', 'n', 'e', 'l', '.', 'b', 'i', 'n'].map ascii

/-- `echelon_emu_v0.1.1.dtb`. -/
def DTB_NAME : List Byte :=
  ['e', 'c', 'h', 'e', 'l', 'o', 'n', '_', 'e', 'm', 'u', '_', 'v', '0', '.', '1',
    '.', '1', '.', 'd', 't', 'b'].map ascii

/-- `initramfs.cpio.gz`. -/
def INITRAMFS_NAME : List Byte :=
  ['i', 'n', 'i', 't', 'r', 'a', 'm', 'f', 's', '.', 'c', 'p', 'i', 'o', '.', 'g',
    'z'].map ascii

/-- What `kmain` starts from: the memory, the registers saved on reset, the end of
the firmware's heap and the addresses of its string literals. -/
structure Machine (xlen : Xlen) where
  memory : Memory
  init_reg_a1 : Word xlen
  init_reg_a2 : Word xlen
  mem_block_end : Word xlen
  kernel_bin : Nat
  dtb_name : Nat
  initramfs_name : Nat
  kernel_bin_held : memory.Holds kernel_bin (KERNEL_BIN ++ [0])
  dtb_name_held : memory.Holds dtb_name (DTB_NAME ++ [0])
  initramfs_name_held : memory.Holds initramfs_name (INITRAMFS_NAME ++ [0])

section Headers

/-! ## What is read -/

variable (xlen : Xlen) (memory : Memory)

/-- The `uintRL_t` at an offset from a pointer, on a little-endian host. -/
def registerAt (pointer offset : Nat) : Nat :=
  match xlen with
  | .rv32 => (wordAt .rv32 memory pointer offset).toNat
  | .rv64 => (wordAt .rv64 memory pointer (offset + 4)).toNat * 2 ^ 32 +
      (wordAt .rv64 memory pointer offset).toNat

/-- `struct fw_dynamic_info`, as far as it is used. -/
structure fw_dynamic_info where
  magic : Nat
  next_addr : Nat

/-- What `memcpy` copies into `fw_dyninfo`. -/
def fw_dynamic_info.copied (pointer : Nat) : fw_dynamic_info where
  magic := registerAt xlen memory pointer 0
  next_addr := registerAt xlen memory pointer (2 * xlen.bytes)

/-- `struct kernel_boot_header`, as far as it is used. -/
structure kernel_boot_header where
  text_offset_a : BitVec 32
  text_offset_b : BitVec 32
  image_size_a : BitVec 32
  image_size_b : BitVec 32

/-- What `memcpy` copies into `tmp_kernel_header`. -/
def kernel_boot_header.copied (pointer : Nat) : kernel_boot_header :=
  let word := wordAt xlen memory pointer
  { text_offset_a := word 8
    text_offset_b := word 12
    image_size_a := word 16
    image_size_b := word 20 }

/-- A number of the kernel header from its halves.  Where a register has 32 bits,
C does not say what `<<= 32` makes of it, and `shifted` stands for it. -/
def header_number (shifted : BitVec 32 → BitVec 32) (b a : BitVec 32) : Nat :=
  match xlen with
  | .rv32 => (shifted b ||| a).toNat
  | .rv64 => (b.setWidth 64 <<< 32 ||| a.setWidth 64).toNat

end Headers

section Copy

/-! ## `memcpy` -/

/-- The memory and the pointers of `memcpy`. -/
structure Cursor where
  memory : Memory
  ptr_dest : Nat
  ptr_src : Nat

/-- One turn of the loop of `memcpy`. -/
def memcpy_turn (xlen : Xlen) (dest_end : Nat) (cursor : Cursor) : Turn Cursor Memory :=
  let { memory, ptr_dest, ptr_src } := cursor
  if ptr_dest ≠ dest_end then
    .again ⟨Function.update memory ptr_dest (memory ptr_src), xlen.wrap (ptr_dest + 1),
      xlen.wrap (ptr_src + 1)⟩
  else .leave memory

/-- `memcpy` returns. -/
def memcpy (xlen : Xlen) (memory : Memory) (dest src n : Nat) (result : Memory) : Prop :=
  Returns (memcpy_turn xlen (xlen.wrap (dest + n))) ⟨memory, dest, src⟩ result

end Copy

section Locate

/-! ## Finding the payloads -/

/-- A pointer and the archive entry it was found with.  `h_magic` is zero where
the pointer is not from the archive. -/
abbrev Found :=
  Nat × header_pwb_cpio

/-- A header after `memset`. -/
def zero_header : header_pwb_cpio :=
  ⟨0, 0, 0, 0, 0, 0, 0, 0, ⟨⟨0, 0⟩⟩, 0, ⟨⟨0, 0⟩⟩⟩

/-- The pointers that `kmain` ends up with. -/
structure Located where
  kernel : Found
  dtb : Found
  initramfs : Found

variable {xlen : Xlen} (machine : Machine xlen)

/-- A file of the archive. -/
def in_archive (name : Nat) (found : Found) : Prop :=
  get_cpio_entry_header xlen machine.memory name CPIO_ARCHIVE zero_header found

/-- The address that the firmware info names, if any. -/
def named_kernel : Nat :=
  let info := fw_dynamic_info.copied xlen machine.memory machine.init_reg_a2.toNat
  if machine.init_reg_a2 ≠ 0 ∧ info.magic = FW_DYNAMIC_INFO_MAGIC_VALUE then
    info.next_addr
  else 0

/-- Locate Kernel. -/
def locate_kernel (found : Found) : Prop :=
  if named_kernel machine = 0 then in_archive machine machine.kernel_bin found
  else found = (named_kernel machine, zero_header)

/-- Locate DTB. -/
def locate_dtb (found : Found) : Prop :=
  if machine.init_reg_a1 = 0 then in_archive machine machine.dtb_name found
  else found = (machine.init_reg_a1.toNat, zero_header)

/-- Locate Initramfs.  A device tree from the archive is not searched. -/
def locate_initramfs (dtb found : Found) : Prop :=
  ∃ start : Word xlen,
    (if machine.init_reg_a1 = 0 then start = 0
      else dtb_parse xlen machine.memory dtb.1 (some 0) none (some start, none)) ∧
    if start = 0 then in_archive machine machine.initramfs_name found
    else found = (start.toNat, zero_header)

/-- `kmain` finds all three and does not halt. -/
structure Locates (located : Located) : Prop where
  kernel : locate_kernel machine located.kernel
  kernel_found : located.kernel.1 ≠ 0
  dtb : locate_dtb machine located.dtb
  dtb_found : located.dtb.1 ≠ 0
  initramfs : locate_initramfs machine located.dtb located.initramfs
  initramfs_found : located.initramfs.1 ≠ 0

end Locate

section Stage

/-! ## Copying them -/

variable (xlen : Xlen)

/-- The kernel's address before it is moved out of the firmware. -/
def load_point_start (text_offset : Nat) : Nat :=
  let kernel_load_to_point := xlen.wrap (PROGAMIMAGE_START + text_offset)
  if kernel_load_to_point % 0x200000 ≠ 0 then
    xlen.wrap (kernel_load_to_point - kernel_load_to_point % 0x200000 + 0x200000)
  else kernel_load_to_point

/-- One turn of the loop that moves the kernel's address out of the firmware. -/
def load_point_turn (mem_block_end kernel_load_to_point : Nat) : Turn Nat Nat :=
  if kernel_load_to_point < mem_block_end then
    .again (xlen.wrap (kernel_load_to_point + 0x200000))
  else .leave kernel_load_to_point

/-- The numbers of the kernel header. -/
structure Numbers where
  text_offset : Nat
  image_size : Nat
  deriving DecidableEq, Repr

/-- What `kmain` starts hart 0 with, the memory it leaves, and the addresses and
sizes of the copies it made. -/
structure Started where
  memory : Memory
  kernel_load_to_point : Nat
  dtb_load_to_point : Nat
  initramfs_load_to_point : Nat
  copies : List (Nat × Nat)

/-- The size of an archive entry. -/
def Found.filesize (found : Found) : Nat :=
  found.2.h_filesize.vl32.toNat

/-- The size that the kernel is copied with. -/
def kernel_size (numbers : Numbers) (kernel : Found) : Nat :=
  if kernel.2.h_magic ≠ 0 then Found.filesize kernel else numbers.image_size

/-- The address of the device tree, rounded down to a multiple of 16. -/
def dtb_point (numbers : Numbers) (dtb : Found) (kernel_load_to_point : Nat) : Nat :=
  let dtb_load_to_point :=
    if dtb.2.h_magic ≠ 0 then
      xlen.wrap (kernel_load_to_point + numbers.image_size + 0x10)
    else dtb.1
  dtb_load_to_point - dtb_load_to_point % 16

/-- The address of the initramfs. -/
def initramfs_point (initramfs : Found) : Nat :=
  if initramfs.2.h_magic ≠ 0 then 0x86000000 else initramfs.1

/-- A file of the archive is copied, anything else is not. -/
def stage_entry (found : Found) (dest : Nat) (before after : Memory) : Prop :=
  if found.2.h_magic ≠ 0 then
    memcpy xlen before dest found.1 (Found.filesize found) after
  else after = before

/-- The copies that `stage_entry` makes. -/
def entry_copies (found : Found) (dest : Nat) : List (Nat × Nat) :=
  if found.2.h_magic ≠ 0 then [(dest, Found.filesize found)] else []

/-- The second half of `kmain`, from the memory on. -/
def stage (mem_block_end : Nat) (numbers : Numbers) (located : Located)
    (memory : Memory) (started : Started) : Prop :=
  let kernel_load_to_point := started.kernel_load_to_point
  let dtb_load_to_point := started.dtb_load_to_point
  let initramfs_load_to_point := started.initramfs_load_to_point
  ∃ withKernel withDtb,
    Returns (load_point_turn xlen mem_block_end)
      (load_point_start xlen numbers.text_offset) kernel_load_to_point ∧
    memcpy xlen memory kernel_load_to_point located.kernel.1
      (kernel_size numbers located.kernel) withKernel ∧
    dtb_load_to_point = dtb_point xlen numbers located.dtb kernel_load_to_point ∧
    stage_entry xlen located.dtb dtb_load_to_point withKernel withDtb ∧
    initramfs_load_to_point = initramfs_point located.initramfs ∧
    stage_entry xlen located.initramfs initramfs_load_to_point withDtb started.memory ∧
    started.copies = (kernel_load_to_point, kernel_size numbers located.kernel) ::
      (entry_copies located.dtb dtb_load_to_point ++
        entry_copies located.initramfs initramfs_load_to_point)

end Stage

/-- The numbers of the header at the kernel. -/
def numbers_at (shifted : BitVec 32 → BitVec 32) {xlen : Xlen} (machine : Machine xlen)
    (kernel : Found) : Numbers :=
  let header := kernel_boot_header.copied xlen machine.memory kernel.1
  { text_offset := header_number xlen shifted header.text_offset_b header.text_offset_a
    image_size := header_number xlen shifted header.image_size_b header.image_size_a }

/-- `kmain` reaches the start command. -/
structure kmain (shifted : BitVec 32 → BitVec 32) {xlen : Xlen} (machine : Machine xlen)
    (located : Located) (started : Started) : Prop where
  locates : Locates machine located
  stages : stage xlen machine.mem_block_end.toNat
    (numbers_at shifted machine located.kernel) located machine.memory started

end Boot
end EchelonSbi
