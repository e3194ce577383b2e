import EchelonSbi.Boot.Staging
import EchelonSbi.DataParse.CpioFiles

/-!
# From the archive and the device tree to the kernel

What `kmain` makes of a well-formed archive and a well-formed device tree: which
payloads it finds, when it reaches the start command, and what lies then at the
addresses that the kernel is started with.
-/

namespace EchelonSbi
namespace Boot

open Foundation DataParse

/-- What a machine is booted from. -/
structure Media where
  archive : Archive
  order : ByteOrder
  tree : DeviceTree

namespace Media

variable (media : Media)

/-- The first file of the archive with a name. -/
def file (name : List Byte) : Option (Nat × Entry) :=
  fileFrom name CPIO_ARCHIVE media.archive.entries

/-- A payload that is named, or else is looked for in the archive. -/
def payload (named : Nat) (name : List Byte) : Found :=
  if named = 0 then lookupResult zero_header (media.file name) else (named, zero_header)

/-- A payload is named or in the archive. -/
def Has (named : Nat) (name : List Byte) : Prop :=
  named ≠ 0 ∨ ∃ entry ∈ media.archive.entries, entry.name = name

/-- The payload lies at an address after staging: the data of the file, or what lay
where a payload is named. -/
def Delivered
    (xlen : Xlen) (before after : Memory) (named : Nat) (name : List Byte)
    (address length : Nat) : Prop :=
  if named = 0 then
    ∃ data entry, media.file name = some (data, entry) ∧
      ∀ i (inside : i < entry.data.length), after (xlen.wrap (address + i)) = entry.data[i]
  else Holds xlen before after address named length

end Media

theorem toNat_eq_zero_iff
    {xlen : Xlen}
    {value : Word xlen} :
    value.toNat = 0 ↔ value = 0 := by
  constructor
  · exact fun zero => BitVec.eq_of_toNat_eq zero
  · rintro rfl
    rfl

section Payloads

variable {xlen : Xlen} (machine : Machine xlen) (media : Media)

/-- The initramfs that the device tree in `a1` names, if any. -/
def named_initramfs : Word xlen :=
  if machine.init_reg_a1 = 0 then 0 else media.tree.joined xlen.bits INITRD_START

/-- The payloads of a machine. -/
def payloads : Located where
  kernel := media.payload (named_kernel machine) KERNEL_BIN
  dtb := media.payload machine.init_reg_a1.toNat DTB_NAME
  initramfs := media.payload (named_initramfs machine media).toNat INITRAMFS_NAME

/-- All payloads are there. -/
structure Complete : Prop where
  kernel : media.Has (named_kernel machine) KERNEL_BIN
  dtb : media.Has machine.init_reg_a1.toNat DTB_NAME
  initramfs : media.Has (named_initramfs machine media).toNat INITRAMFS_NAME

/-- A payload is looked for in the archive. -/
def Sought : Prop :=
  named_kernel machine = 0 ∨ machine.init_reg_a1 = 0 ∨ named_initramfs machine media = 0

/-- The memory holds the device tree where `a1` names one, and the archive where a
payload is looked for. -/
structure Provided : Prop where
  tree : machine.init_reg_a1 ≠ 0 →
    media.tree.Placed xlen machine.memory machine.init_reg_a1.toNat
  archive : Sought machine media →
    machine.memory.Holds CPIO_ARCHIVE (media.archive.encode media.order)
  archiveFits : CPIO_ARCHIVE + (media.archive.encode media.order).length ≤ xlen.size
  small : ∀ entry ∈ media.archive.entries, entry.skipped < 2 ^ 32
  kernel_bin : machine.kernel_bin + KERNEL_BIN.length < xlen.size
  dtb_name : machine.dtb_name + DTB_NAME.length < xlen.size
  initramfs_name : machine.initramfs_name + INITRAMFS_NAME.length < xlen.size

/-- The plan for the payloads.  The device tree gives its own length and that of the
initramfs. -/
def payloadPlan (shifted : BitVec 32 → BitVec 32) : List Payload :=
  plan xlen machine.mem_block_end.toNat
    (numbers_at shifted machine (payloads machine media).kernel) (payloads machine media)
    media.tree.totalsize.toNat
    (media.tree.joined xlen.bits INITRD_END - named_initramfs machine media).toNat

/-- What the kernel is started with. -/
structure Arrived (shifted : BitVec 32 → BitVec 32) (started : Started) : Prop where
  kernel : media.Delivered xlen machine.memory started.memory (named_kernel machine)
    KERNEL_BIN started.kernel_load_to_point
    (numbers_at shifted machine (payloads machine media).kernel).image_size
  dtb : media.Delivered xlen machine.memory started.memory machine.init_reg_a1.toNat
    DTB_NAME started.dtb_load_to_point media.tree.totalsize.toNat
  /-- The kernel finds the device tree that `a1` named. -/
  tree : machine.init_reg_a1 ≠ 0 →
    media.tree.Placed xlen started.memory started.dtb_load_to_point
  initramfs : media.Delivered xlen machine.memory started.memory
    (named_initramfs machine media).toNat INITRAMFS_NAME started.initramfs_load_to_point
    (media.tree.joined xlen.bits INITRD_END - named_initramfs machine media).toNat

end Payloads

section Finding

/-! ## What is found -/

variable {xlen : Xlen} {machine : Machine xlen} {media : Media} {found : Found}
  {named : Nat} {text : List Byte}

theorem Sought.of_dtb
    (zero : machine.init_reg_a1.toNat = 0) :
    Sought machine media :=
  .inr (.inl (toNat_eq_zero_iff.mp zero))

theorem Sought.of_initramfs
    (zero : (named_initramfs machine media).toNat = 0) :
    Sought machine media :=
  .inr (.inr (toNat_eq_zero_iff.mp zero))

namespace Provided

/-- The first file with a name lies in memory. -/
theorem file_held
    (provided : Provided machine media)
    (sought : Sought machine media)
    {data : Nat}
    {entry : Entry}
    (here : media.file text = some (data, entry)) :
    machine.memory.Holds data entry.data ∧ data ≠ 0 ∧
      data + entry.data.length ≤ xlen.size := by
  have fits := provided.archiveFits
  obtain ⟨-, -, body, above, below⟩ := fileFrom_some (provided.archive sought) here
  rw [Archive.encode] at fits
  refine ⟨body, ?_, by omega⟩
  unfold header_size at above
  omega

/-- A payload that is not named is found in the archive. -/
theorem payload_iff
    (provided : Provided machine media)
    {name : Nat}
    (held : machine.memory.Holds name (text ++ [0]))
    (fits : name + text.length < xlen.size)
    (proper : 0 ∉ text)
    (file : text ≠ TRAILER)
    (sought : named = 0 → Sought machine media) :
    (if named = 0 then in_archive machine name found else found = (named, zero_header)) ↔
      found = media.payload named text := by
  rw [Media.payload]
  split
  next none_ =>
    exact get_cpio_entry_header_iff (provided.archive (sought none_)) provided.archiveFits
      provided.small (fromPointer_spells held fits proper) file
  next => exact Iff.rfl

theorem payload_ne_zero_iff
    (provided : Provided machine media)
    (sought : named = 0 → Sought machine media) :
    (media.payload named text).1 ≠ 0 ↔ media.Has named text := by
  rw [Media.payload, Media.Has]
  by_cases none_ : named = 0
  · rw [if_pos none_]
    cases here : media.file text with
    | none =>
        have others := fileFrom_eq_none_iff.mp here
        simp only [lookupResult, ne_eq, none_, not_true_eq_false, false_or, false_iff]
        rintro ⟨entry, listed, same⟩
        exact others entry listed same
    | some file =>
        have nonzero := (provided.file_held (sought none_) here).2.1
        have listed := fileFrom_some (provided.archive (sought none_)) here
        exact iff_of_true nonzero (.inr ⟨file.2, listed.1, listed.2.1⟩)
  · rw [if_neg none_]
    exact iff_of_true none_ (.inl none_)

theorem locate_kernel_iff
    (provided : Provided machine media) :
    locate_kernel machine found ↔ found = (payloads machine media).kernel :=
  provided.payload_iff machine.kernel_bin_held provided.kernel_bin (by decide) (by decide)
    .inl

theorem locate_dtb_iff
    (provided : Provided machine media) :
    locate_dtb machine found ↔ found = (payloads machine media).dtb := by
  simp only [locate_dtb, ← toNat_eq_zero_iff]
  exact provided.payload_iff machine.dtb_name_held provided.dtb_name (by decide) (by decide)
    .of_dtb

/-- The search of the device tree, if there is one. -/
theorem parse_iff
    (provided : Provided machine media)
    {start : Word xlen} :
    (if machine.init_reg_a1 = 0 then start = 0
      else dtb_parse xlen machine.memory (payloads machine media).dtb.1 (some 0) none
        (some start, none)) ↔ start = named_initramfs machine media := by
  rw [named_initramfs]
  split
  next => exact Iff.rfl
  next named =>
    have here : (payloads machine media).dtb = _ :=
      if_neg (mt toNat_eq_zero_iff.mp named)
    have parses := (provided.tree named).parses (some 0) none
    rw [here]
    constructor
    · intro other
      have same := dtb_parse_unique other parses
      exact Option.some.inj (congrArg Prod.fst same)
    · rintro rfl
      exact parses

theorem locate_initramfs_iff
    (provided : Provided machine media) :
    locate_initramfs machine (payloads machine media).dtb found ↔
      found = (payloads machine media).initramfs := by
  simp only [locate_initramfs, provided.parse_iff, exists_eq_left]
  simp only [← toNat_eq_zero_iff]
  exact provided.payload_iff machine.initramfs_name_held provided.initramfs_name
    (by decide) (by decide) .of_initramfs

/-- `kmain` finds the payloads if they are all there, and halts otherwise. -/
theorem locates_iff
    (provided : Provided machine media)
    (located : Located) :
    Locates machine located ↔
      located = payloads machine media ∧ Complete machine media := by
  have kernel : (payloads machine media).kernel.1 ≠ 0 ↔ _ :=
    provided.payload_ne_zero_iff .inl
  have dtb : (payloads machine media).dtb.1 ≠ 0 ↔ _ :=
    provided.payload_ne_zero_iff .of_dtb
  have initramfs : (payloads machine media).initramfs.1 ≠ 0 ↔ _ :=
    provided.payload_ne_zero_iff .of_initramfs
  constructor
  · rintro ⟨kernelHere, kernelFound, dtbHere, dtbFound, initramfsHere, initramfsFound⟩
    obtain ⟨kernelAt, dtbAt, initramfsAt⟩ := located
    obtain rfl := provided.locate_kernel_iff.mp kernelHere
    obtain rfl := provided.locate_dtb_iff.mp dtbHere
    obtain rfl := provided.locate_initramfs_iff.mp initramfsHere
    exact ⟨rfl, kernel.mp kernelFound, dtb.mp dtbFound, initramfs.mp initramfsFound⟩
  · rintro ⟨rfl, complete⟩
    exact ⟨provided.locate_kernel_iff.mpr rfl, kernel.mpr complete.kernel,
      provided.locate_dtb_iff.mpr rfl, dtb.mpr complete.dtb,
      provided.locate_initramfs_iff.mpr rfl, initramfs.mpr complete.initramfs⟩

end Provided

end Finding

section Staging

/-! ## What is staged -/

variable {xlen : Xlen} {mem_block_end : Nat} {numbers : Numbers} {located : Located}

/-- The loop ends unless no multiple of 2 MiB lies behind the heap. -/
theorem exists_load_point_iff (text_offset : Nat) :
    (∃ result, Returns (load_point_turn xlen mem_block_end)
        (load_point_start xlen text_offset) result) ↔
      mem_block_end ≤ load_point_start xlen text_offset ∨
        roundUp mem_block_end < xlen.size := by
  have inside : load_point_start xlen text_offset < xlen.size := by
    rw [load_point_start_eq]
    exact xlen.wrap_lt _
  have aligned : 0x200000 ∣ load_point_start xlen text_offset := by
    rw [load_point_start_eq]
    exact aligned_wrap (Nat.dvd_mul_left ..)
  constructor
  · rintro ⟨result, left⟩
    have small := @kernelBase_lt xlen mem_block_end ⟨text_offset, 0⟩ result left
    have equal := load_point_eq inside aligned left
    by_cases behind : mem_block_end ≤ load_point_start xlen text_offset
    · exact .inl behind
    · rw [if_neg behind] at equal
      exact .inr (equal ▸ small)
  · rintro (behind | room)
    · exact ⟨_, .of_leave (if_neg (by omega))⟩
    · generalize load_point_start xlen text_offset = start at inside aligned
      -- the distance to the first multiple of 2 MiB behind the heap
      induction distance : roundUp mem_block_end - start using Nat.strongRecOn
        generalizing start with
      | ind distance inductionHypothesis =>
          by_cases behind : mem_block_end ≤ start
          · exact ⟨_, .of_leave (if_neg (by omega))⟩
          · have next : start + 0x200000 ≤ roundUp mem_block_end := by
              unfold roundUp at *
              omega
            obtain ⟨result, later⟩ := inductionHypothesis _ (by omega) (start + 0x200000)
              (by omega) (Nat.dvd_add aligned (Nat.dvd_refl _)) rfl
            refine ⟨result, .of_again ?_ later⟩
            rw [load_point_turn, if_pos (by omega), Xlen.wrap_of_lt (by omega)]

/-- With an address for the kernel staging goes to its end. -/
theorem exists_stage
    (bounded : Bounded xlen numbers located)
    (memory : Memory)
    {kernel_load_to_point : Nat}
    (left : Returns (load_point_turn xlen mem_block_end)
      (load_point_start xlen numbers.text_offset) kernel_load_to_point) :
    ∃ started, stage xlen mem_block_end numbers located memory started := by
  have entry (found : Found) (dest : Nat) (before : Memory) (destInside : dest < xlen.size)
      (foundInside : found.1 < xlen.size) :
      ∃ after, stage_entry xlen found dest before after := by
    unfold stage_entry
    split
    · exact ⟨_, memcpy_returns before destInside foundInside (filesize_lt xlen found)⟩
    · exact ⟨before, rfl⟩
  have kernelCopied := memcpy_returns memory (kernelBase_lt left) bounded.kernel
    bounded.size
  obtain ⟨withDtb, dtbStaged⟩ := entry located.dtb
    (dtb_point xlen numbers located.dtb kernel_load_to_point) _
    (dtb_point_lt bounded.dtb _) bounded.dtb
  obtain ⟨final, initramfsStaged⟩ := entry located.initramfs
    (initramfs_point located.initramfs) withDtb
    (initramfs_point_lt bounded.initramfs) bounded.initramfs
  let copies := (kernel_load_to_point, kernel_size numbers located.kernel) ::
    (entry_copies located.dtb (dtb_point xlen numbers located.dtb kernel_load_to_point) ++
      entry_copies located.initramfs (initramfs_point located.initramfs))
  exact ⟨⟨final, kernel_load_to_point, _, _, copies⟩, _, withDtb, left, kernelCopied, rfl,
    dtbStaged, rfl, initramfsStaged, rfl⟩

end Staging

section Delivery

/-! ## What arrives -/

variable {xlen : Xlen} {machine : Machine xlen} {media : Media} {started : Started}

/-- A device tree that is copied whole is a device tree. -/
theorem placed_moved
    {tree : DeviceTree}
    {before after : Memory}
    {source target : Nat}
    (placed : tree.Placed xlen before source)
    (fits : target + tree.totalsize.toNat ≤ xlen.size)
    (same : ∀ i < tree.totalsize.toNat, after (target + i) = before (source + i)) :
    tree.Placed xlen after target := by
  have block {offset : Nat} {bytes : List Byte}
      (holds : before.Holds (source + offset) bytes)
      (inside : offset + bytes.length ≤ tree.totalsize.toNat) :
      after.Holds (target + offset) bytes := by
    intro i within
    rw [Nat.add_assoc, same _ (by omega), ← Nat.add_assoc]
    exact holds i within
  have ordered : _ + tree.structBlock.length ≤ _ := tree.ordered
  have inside := tree.inside
  refine ⟨?_, block placed.structs (by omega), block placed.strings inside, fits⟩
  have header := placed.header
  rw [← Nat.add_zero source] at header
  rw [← Nat.add_zero target]
  exact block header tree.headerInside

theorem kernel_size_eq (numbers : Numbers) (kernel : Found) :
    kernel_size numbers kernel = Found.length kernel numbers.image_size := by
  simp [kernel_size, Found.length, Found.archived]

/-- A payload that is kept is delivered. -/
theorem Provided.delivered
    (provided : Provided machine media)
    {named address length : Nat}
    {name : List Byte}
    {after : Memory}
    (sought : named = 0 → Sought machine media)
    (has : media.Has named name)
    (kept : Holds xlen machine.memory after address (media.payload named name).1
      (Found.length (media.payload named name) length)) :
    media.Delivered xlen machine.memory after named name address length := by
  rw [Media.payload] at kept
  rw [Media.Delivered]
  split at kept
  next none_ =>
    rw [if_pos none_]
    cases here : media.file name with
    | none =>
        rcases has with nonzero | ⟨entry, listed, same⟩
        · exact absurd none_ nonzero
        · exact absurd same (fileFrom_eq_none_iff.mp here entry listed)
    | some file =>
        obtain ⟨data, entry⟩ := file
        obtain ⟨body, -, fits⟩ := provided.file_held (sought none_) here
        have dataLength : Found.length (data, entry.header) length = entry.data.length := by
          have archived : Found.archived (data, entry.header) = true := rfl
          rw [Found.length, if_pos archived, Found.filesize, entry.header_filesize,
            BitVec.toNat_ofNat, Nat.mod_eq_of_lt entry.dataFits]
        rw [here] at kept
        simp only [lookupResult] at kept
        rw [dataLength] at kept
        refine ⟨data, entry, rfl, fun i inside => ?_⟩
        rw [kept i inside, Xlen.wrap_of_lt (by omega)]
        exact body i inside
  next nonzero =>
    rw [if_neg nonzero]
    exact kept

/-- A clear plan delivers every payload. -/
theorem Provided.arrived
    (provided : Provided machine media)
    (shifted : BitVec 32 → BitVec 32)
    (complete : Complete machine media)
    (stages : stage xlen machine.mem_block_end.toNat
      (numbers_at shifted machine (payloads machine media).kernel) (payloads machine media)
      machine.memory started)
    (clear : Clear xlen.size (payloadPlan machine media shifted)) :
    Arrived machine media shifted started := by
  have locates := (provided.locates_iff _).mpr ⟨rfl, complete⟩
  have bounded := locates.bounded shifted
  have short : media.tree.totalsize.toNat ≤ xlen.size := by
    have small := media.tree.totalsize.isLt
    have wide : 2 ^ 32 ≤ xlen.size := by
      cases xlen <;> decide
    omega
  obtain ⟨kernelPoint, dtbPoint, initramfsPoint, after⟩ := stage_eq bounded _
    (media.tree.joined xlen.bits INITRD_END - named_initramfs machine media).toNat stages
  have kept := clear.kept machine.memory
    (plan_fits bounded _ short (Nat.le_of_lt (BitVec.isLt _)))
  rw [payloadPlan, ← after, plan, kernel_size_eq, List.forall_mem_cons,
    List.forall_mem_cons, List.forall_mem_singleton] at kept
  obtain ⟨kernel, dtb, initramfs⟩ := kept
  refine ⟨?_, ?_, fun named => ?_, ?_⟩
  · rw [kernelPoint]
    exact provided.delivered .inl complete.kernel kernel
  · rw [dtbPoint]
    exact provided.delivered .of_dtb complete.dtb dtb
  · have placed := provided.tree named
    have fits := placed.fits
    have here : (payloads machine media).dtb = (machine.init_reg_a1.toNat, zero_header) :=
      if_neg (mt toNat_eq_zero_iff.mp named)
    have below : dtb_point xlen (numbers_at shifted machine (payloads machine media).kernel)
        (machine.init_reg_a1.toNat, zero_header)
          (kernelBase xlen machine.mem_block_end.toNat
            (numbers_at shifted machine (payloads machine media).kernel)) ≤
        machine.init_reg_a1.toNat := Nat.sub_le ..
    rw [here] at dtb dtbPoint
    rw [dtbPoint]
    refine placed_moved placed (by omega) fun i inside => ?_
    have same := dtb i inside
    simp only [Payload.targetCell, Payload.sourceCell] at same
    rwa [Nat.mod_eq_of_lt (by omega), Nat.mod_eq_of_lt (by omega)] at same
  · rw [initramfsPoint]
    exact provided.delivered .of_initramfs complete.initramfs initramfs

end Delivery

section Boot

variable {xlen : Xlen} {machine : Machine xlen} {media : Media}

/-- `kmain` reaches the start command if and only if every payload is named or in the
archive and there is an address for the kernel.  It found the payloads then, and where
the plan is clear each of them lies where the kernel is started with it. -/
theorem kmain_boots
    (provided : Provided machine media)
    (shifted : BitVec 32 → BitVec 32) :
    let numbers := numbers_at shifted machine (payloads machine media).kernel
    let mem_block_end := machine.mem_block_end.toNat
    ((∃ located started, kmain shifted machine located started) ↔
      Complete machine media ∧
        (mem_block_end ≤ load_point_start xlen numbers.text_offset ∨
          roundUp mem_block_end < xlen.size)) ∧
    ∀ located started, kmain shifted machine located started →
      located = payloads machine media ∧
      started.kernel_load_to_point = kernelBase xlen mem_block_end numbers ∧
      started.dtb_load_to_point = dtb_point xlen numbers (payloads machine media).dtb
        started.kernel_load_to_point ∧
      started.initramfs_load_to_point =
        initramfs_point (payloads machine media).initramfs ∧
      (Clear xlen.size (payloadPlan machine media shifted) →
        Arrived machine media shifted started) := by
  intro numbers mem_block_end
  refine ⟨⟨?_, ?_⟩, ?_⟩
  · rintro ⟨located, started, locates, stages⟩
    obtain ⟨rfl, complete⟩ := (provided.locates_iff located).mp locates
    obtain ⟨_, _, left, -⟩ := stages
    exact ⟨complete, (exists_load_point_iff _).mp ⟨_, left⟩⟩
  · rintro ⟨complete, room⟩
    have locates := (provided.locates_iff _).mpr ⟨rfl, complete⟩
    obtain ⟨kernel_load_to_point, left⟩ := (exists_load_point_iff _).mpr room
    obtain ⟨started, stages⟩ :=
      exists_stage (locates.bounded shifted) machine.memory left
    exact ⟨_, started, locates, stages⟩
  · rintro located started ⟨locates, stages⟩
    obtain ⟨rfl, complete⟩ := (provided.locates_iff located).mp locates
    obtain ⟨kernelPoint, dtbPoint, initramfsPoint, -⟩ :=
      stage_eq (locates.bounded shifted) 0 0 stages
    refine ⟨rfl, kernelPoint, ?_, initramfsPoint, provided.arrived shifted complete stages⟩
    rw [kernelPoint]
    exact dtbPoint

end Boot

section Example

/-! ## A boot from the archive -/

theorem emptyTrailer_name : emptyTrailer.name = TRAILER :=
  rfl

/-- A kernel with nothing but the numbers of its header, a device tree with nothing but
its magic number, and an initramfs. -/
def bootArchive : Archive where
  entries :=
    [.plain KERNEL_BIN [0, 0, 0, 0, 0, 0, 0, 0, 0, 0, 0x20, 0, 0, 0, 0, 0, 0, 0x10, 0, 0, 0,
        0, 0, 0] (by decide) (by decide) (by decide),
      .plain DTB_NAME [0xD0, 0x0D, 0xFE, 0xED] (by decide) (by decide) (by decide),
      .plain INITRAMFS_NAME [0x1F, 0x8B] (by decide) (by decide) (by decide)]
  trailer := emptyTrailer
  ordinary := by decide
  ended := emptyTrailer_name

/-- The archive as a big-endian machine wrote it, and no device tree in `a1`. -/
def bootMedia : Media where
  archive := bootArchive
  order := .big
  tree := startTree

/-- The literals of the firmware. -/
def bootLiterals : List Byte :=
  KERNEL_BIN ++ [0] ++ (DTB_NAME ++ [0] ++ (INITRAMFS_NAME ++ [0]))

theorem bootLiterals_held :
    let memory := Memory.stored CPIO_ARCHIVE (bootArchive.encode .big ++ bootLiterals)
    memory.Holds CPIO_ARCHIVE (bootArchive.encode .big) ∧
      memory.Holds 0x200000C8 (KERNEL_BIN ++ [0]) ∧
        memory.Holds 0x200000D3 (DTB_NAME ++ [0]) ∧
          memory.Holds 0x200000EA (INITRAMFS_NAME ++ [0]) := by
  obtain ⟨archive, literals⟩ := Memory.Holds.append_iff.mp
    (Memory.stored_holds CPIO_ARCHIVE (bootArchive.encode .big ++ bootLiterals))
  have size : (bootArchive.encode .big).length = 0xC8 := by
    decide +kernel
  rw [size] at literals
  obtain ⟨kernel, names⟩ := Memory.Holds.append_iff.mp literals
  obtain ⟨dtb, initramfs⟩ := Memory.Holds.append_iff.mp names
  exact ⟨archive, kernel, dtb, initramfs⟩

def archiveMachine : Machine .rv64 where
  memory := .stored CPIO_ARCHIVE (bootArchive.encode .big ++ bootLiterals)
  init_reg_a1 := 0
  init_reg_a2 := 0
  mem_block_end := 0x800A0000
  kernel_bin := 0x200000C8
  dtb_name := 0x200000D3
  initramfs_name := 0x200000EA
  kernel_bin_held := bootLiterals_held.2.1
  dtb_name_held := bootLiterals_held.2.2.1
  initramfs_name_held := bootLiterals_held.2.2.2

theorem archiveMachine_provided : Provided archiveMachine bootMedia where
  tree named := absurd rfl named
  archive _ := bootLiterals_held.1
  archiveFits := by decide +kernel
  small := by decide
  kernel_bin := by decide
  dtb_name := by decide
  initramfs_name := by decide

/-- The kernel goes to its text offset, the device tree behind it. -/
theorem archiveMachine_plan :
    payloadPlan archiveMachine bootMedia id =
      [⟨0x20000026, 0x80200000, 24, true⟩, ⟨0x20000070, 0x80201010, 4, true⟩,
        ⟨0x200000A0, 0x86000000, 2, true⟩] := by
  decide +kernel

theorem kmain_boots_archive :
    ∃ started, kmain id archiveMachine (payloads archiveMachine bootMedia) started ∧
      started.kernel_load_to_point = 0x80200000 ∧
      Arrived archiveMachine bootMedia id started := by
  obtain ⟨starts, boots⟩ := kmain_boots archiveMachine_provided id
  have complete : Complete archiveMachine bootMedia :=
    ⟨.inr (by decide), .inr (by decide), .inr (by decide)⟩
  obtain ⟨located, started, run⟩ := starts.mpr ⟨complete, .inr (by decide)⟩
  obtain ⟨rfl, kernelPoint, -, -, arrives⟩ := boots located started run
  refine ⟨started, run, kernelPoint.trans (by decide +kernel), arrives ?_⟩
  rw [archiveMachine_plan]
  exact clear_of_stretches (by decide) (by decide) (by decide) (by decide)

end Example

end Boot
end EchelonSbi
