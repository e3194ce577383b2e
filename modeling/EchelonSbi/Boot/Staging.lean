import EchelonSbi.Boot.Kmain
import EchelonSbi.DataParse.DeviceTreeSearch

/-!
# What boot staging keeps

The copies of `kmain` as a plan for three payloads, in terms of the kernel header
and of where the payloads were found.  The payloads arrive whole and the firmware
is left alone when the plan is clear.
-/

namespace EchelonSbi
namespace Boot

open Foundation DataParse

section Plan

/-! ## The plan -/

/-- The next multiple of 2 MiB. -/
def roundUp (address : Nat) : Nat :=
  (address + 0x1FFFFF) / 0x200000 * 0x200000

variable (xlen : Xlen) (mem_block_end : Nat) (numbers : Numbers) (located : Located)

/-- Where the kernel goes: the text offset from the start of the firmware, rounded
up, or the first address after the firmware's heap that is so aligned. -/
def kernelBase : Nat :=
  let aligned := xlen.wrap (roundUp (xlen.wrap (PROGAMIMAGE_START + numbers.text_offset)))
  if mem_block_end ≤ aligned then aligned else roundUp mem_block_end

/-- The payload is a file of the archive. -/
def Found.archived (found : Found) : Bool :=
  decide (found.2.h_magic ≠ 0)

/-- The length of a payload: that of its file, or `inPlace` where the payload is
not from the archive and the code knows no length. -/
def Found.length (found : Found) (inPlace : Nat) : Nat :=
  if found.archived then Found.filesize found else inPlace

/-- The kernel, the device tree and the initramfs. -/
def plan (dtbLength initramfsLength : Nat) : List Payload :=
  [{ source := located.kernel.1
     target := kernelBase xlen mem_block_end numbers
     length := kernel_size numbers located.kernel
     moved := true },
    { source := located.dtb.1
      target := dtb_point xlen numbers located.dtb (kernelBase xlen mem_block_end numbers)
      length := Found.length located.dtb dtbLength
      moved := Found.archived located.dtb },
    { source := located.initramfs.1
      target := initramfs_point located.initramfs
      length := Found.length located.initramfs initramfsLength
      moved := Found.archived located.initramfs }]

/-- No copy of a plan writes into the firmware. -/
def SparesFirmware (plan : List Payload) : Prop :=
  ∀ payload ∈ plan, payload.moved = true → ∀ i < payload.length,
    ¬(PROGAMIMAGE_START ≤ payload.targetCell xlen.size i ∧
      payload.targetCell xlen.size i < mem_block_end)

end Plan

/-- The bytes that lie at `address` are the ones that lay at `source` before. -/
def Holds (xlen : Xlen) (before after : Memory) (address source length : Nat) : Prop :=
  ∀ i < length, after (xlen.wrap (address + i)) = before (xlen.wrap (source + i))

/-- What staging is for. -/
structure Staged (xlen : Xlen) (mem_block_end : Nat) (numbers : Numbers)
    (located : Located) (dtbLength initramfsLength : Nat) (before : Memory)
    (started : Started) : Prop where
  kernel : Holds xlen before started.memory started.kernel_load_to_point
    located.kernel.1 (kernel_size numbers located.kernel)
  dtb : Holds xlen before started.memory started.dtb_load_to_point
    located.dtb.1 (Found.length located.dtb dtbLength)
  initramfs : Holds xlen before started.memory started.initramfs_load_to_point
    located.initramfs.1 (Found.length located.initramfs initramfsLength)
  firmware : ∀ copy ∈ started.copies, ∀ i < copy.2,
    ¬(PROGAMIMAGE_START ≤ xlen.wrap (copy.1 + i) ∧
      xlen.wrap (copy.1 + i) < mem_block_end)

section LoadPoint

/-! ## The kernel's address -/

variable {xlen : Xlen}

theorem roundUp_of_aligned
    {address : Nat}
    (aligned : 0x200000 ∣ address) :
    roundUp address = address := by
  unfold roundUp
  omega

theorem aligned_size : 0x200000 ∣ xlen.size := by
  cases xlen <;> decide

theorem aligned_wrap
    {address : Nat}
    (aligned : 0x200000 ∣ address) :
    0x200000 ∣ xlen.wrap address :=
  (Nat.dvd_mod_iff aligned_size).mpr aligned

theorem load_point_start_eq (text_offset : Nat) :
    load_point_start xlen text_offset =
      xlen.wrap (roundUp (xlen.wrap (PROGAMIMAGE_START + text_offset))) := by
  have below := xlen.wrap_lt (PROGAMIMAGE_START + text_offset)
  simp only [load_point_start]
  split
  · congr 1
    unfold roundUp
    omega
  · rw [roundUp_of_aligned (by omega), Xlen.wrap_of_lt below]

/-- The loop leaves at the first multiple of 2 MiB behind the heap. -/
theorem load_point_eq
    {mem_block_end start result : Nat}
    (inside : start < xlen.size)
    (aligned : 0x200000 ∣ start)
    (left : Returns (load_point_turn xlen mem_block_end) start result) :
    result = if mem_block_end ≤ start then start else roundUp mem_block_end := by
  obtain ⟨fuel, left⟩ := left
  induction fuel generalizing start with
  | zero => simp [iterate] at left
  | succ fuel inductionHypothesis =>
      by_cases before : start < mem_block_end
      · rw [iterate, load_point_turn, if_pos before] at left
        have next := inductionHypothesis (xlen.wrap_lt _)
          (aligned_wrap (Nat.dvd_add aligned (Nat.dvd_refl _))) left
        have whole : 0x200000 ∣ xlen.size := aligned_size
        have cases : xlen.wrap (start + 0x200000) = start + 0x200000 ∨
            xlen.wrap (start + 0x200000) = 0 := by
          by_cases fits : start + 0x200000 < xlen.size
          · exact .inl (Xlen.wrap_of_lt fits)
          · right
            have full : start + 0x200000 = xlen.size := by omega
            rw [full]
            exact Nat.mod_self _
        rw [if_neg (by omega), next]
        rcases cases with grown | wrapped
        · rw [grown]
          split
          · unfold roundUp
            omega
          · rfl
        · rw [wrapped, if_neg (by omega)]
      · rw [iterate, load_point_turn, if_neg before] at left
        rw [if_pos (by omega)]
        exact (Option.some.inj left).symm

theorem kernel_load_to_point_eq
    {mem_block_end kernel_load_to_point : Nat}
    {numbers : Numbers}
    (left : Returns (load_point_turn xlen mem_block_end)
      (load_point_start xlen numbers.text_offset) kernel_load_to_point) :
    kernel_load_to_point = kernelBase xlen mem_block_end numbers := by
  rw [load_point_start_eq] at left
  have aligned : 0x200000 ∣ roundUp (xlen.wrap (PROGAMIMAGE_START + numbers.text_offset)) :=
    Nat.dvd_mul_left ..
  exact load_point_eq (xlen.wrap_lt _) (aligned_wrap aligned) left

end LoadPoint

section Copy

/-! ## The copies -/

variable {xlen : Xlen} {memory result : Memory} {dest src n : Nat}

/-- The loop of `memcpy` copies cell by cell. -/
theorem memcpy_turns
    (fits : n < xlen.size)
    (done : Nat)
    (within : done ≤ n) :
    Returns (memcpy_turn xlen (xlen.wrap (dest + n)))
      ⟨copied xlen.size memory dest src done, xlen.wrap (dest + done),
        xlen.wrap (src + done)⟩ (copied xlen.size memory dest src n) := by
  induction left : n - done generalizing done with
  | zero =>
      obtain rfl : done = n := by omega
      refine Returns.of_leave ?_
      simp only [memcpy_turn]
      rw [if_neg (fun differ => differ rfl)]
  | succ left inductionHypothesis =>
      have more : xlen.wrap (dest + done) ≠ xlen.wrap (dest + n) := by
        intro same
        have equal := cell_inj (show n + 1 ≤ xlen.size by omega) (by omega) (by omega) same
        omega
      refine Returns.of_again ?_ (inductionHypothesis (done + 1) (by omega) (by omega))
      simp only [memcpy_turn]
      rw [if_pos more]
      simp only [Xlen.wrap, Nat.mod_add_mod, Nat.add_assoc, copied]

theorem memcpy_returns
    (memory : Memory)
    (destInside : dest < xlen.size)
    (srcInside : src < xlen.size)
    (fits : n < xlen.size) :
    memcpy xlen memory dest src n (copied xlen.size memory dest src n) := by
  have turns : Returns (memcpy_turn xlen _) ⟨copied xlen.size memory dest src 0, _, _⟩ _ :=
    memcpy_turns fits 0 (Nat.zero_le _)
  rwa [Nat.add_zero, Nat.add_zero, Xlen.wrap_of_lt destInside, Xlen.wrap_of_lt srcInside]
    at turns

theorem memcpy_eq
    (destInside : dest < xlen.size)
    (srcInside : src < xlen.size)
    (fits : n < xlen.size)
    (copies : memcpy xlen memory dest src n result) :
    result = copied xlen.size memory dest src n :=
  copies.unique (memcpy_returns memory destInside srcInside fits)

/-- The size of an archive file is a number of 32 bits. -/
theorem filesize_lt (xlen : Xlen) (found : Found) : Found.filesize found < xlen.size := by
  have small : Found.filesize found < 2 ^ 32 := BitVec.isLt _
  have wide : 2 ^ 32 ≤ xlen.size := by cases xlen <;> decide
  omega

/-- An archive file is copied and anything else stays. -/
theorem stage_entry_eq
    {found : Found}
    {before after : Memory}
    (destInside : dest < xlen.size)
    (foundInside : found.1 < xlen.size)
    (inPlace : Nat)
    (staged : stage_entry xlen found dest before after) :
    after = Payload.move xlen.size
      ⟨found.1, dest, Found.length found inPlace, Found.archived found⟩ before := by
  have fits := filesize_lt xlen found
  by_cases archived : found.2.h_magic ≠ 0
  · rw [stage_entry, if_pos archived] at staged
    have isArchived : found.archived = true := decide_eq_true archived
    rw [Payload.move, if_pos isArchived, Found.length, if_pos isArchived]
    exact memcpy_eq destInside foundInside fits staged
  · rw [stage_entry, if_neg archived] at staged
    have notArchived : ¬found.archived = true := fun yes => archived (of_decide_eq_true yes)
    rw [Payload.move, if_neg notArchived]
    exact staged

end Copy

section Stage

/-! ## Staging -/

/-- The pointers and sizes are numbers of a register. -/
structure Bounded (xlen : Xlen) (numbers : Numbers) (located : Located) : Prop where
  kernel : located.kernel.1 < xlen.size
  dtb : located.dtb.1 < xlen.size
  initramfs : located.initramfs.1 < xlen.size
  size : kernel_size numbers located.kernel < xlen.size

variable {xlen : Xlen} {mem_block_end : Nat} {numbers : Numbers} {located : Located}
  {memory : Memory} {started : Started}

theorem kernelBase_lt
    {kernel_load_to_point : Nat}
    (left : Returns (load_point_turn xlen mem_block_end)
      (load_point_start xlen numbers.text_offset) kernel_load_to_point) :
    kernel_load_to_point < xlen.size := by
  obtain ⟨fuel, left⟩ := left
  have inside : load_point_start xlen numbers.text_offset < xlen.size := by
    rw [load_point_start_eq]
    exact xlen.wrap_lt _
  generalize load_point_start xlen numbers.text_offset = start at inside left
  induction fuel generalizing start with
  | zero => simp [iterate] at left
  | succ fuel inductionHypothesis =>
      by_cases before : start < mem_block_end
      · rw [iterate, load_point_turn, if_pos before] at left
        exact inductionHypothesis _ (xlen.wrap_lt _) left
      · rw [iterate, load_point_turn, if_neg before] at left
        obtain rfl := Option.some.inj left
        exact inside

theorem dtb_point_lt
    {dtb : Found}
    (inside : dtb.1 < xlen.size)
    (kernel_load_to_point : Nat) :
    dtb_point xlen numbers dtb kernel_load_to_point < xlen.size := by
  simp only [dtb_point]
  split
  · have := xlen.wrap_lt (kernel_load_to_point + numbers.image_size + 0x10)
    omega
  · omega

theorem initramfs_point_lt
    {initramfs : Found}
    (inside : initramfs.1 < xlen.size) :
    initramfs_point initramfs < xlen.size := by
  rw [initramfs_point]
  split
  · cases xlen <;> decide
  · exact inside

/-- Staging carries the plan out. -/
theorem stage_eq
    (bounded : Bounded xlen numbers located)
    (dtbLength initramfsLength : Nat)
    (staged : stage xlen mem_block_end numbers located memory started) :
    started.kernel_load_to_point = kernelBase xlen mem_block_end numbers ∧
      started.dtb_load_to_point = dtb_point xlen numbers located.dtb
        (kernelBase xlen mem_block_end numbers) ∧
      started.initramfs_load_to_point = initramfs_point located.initramfs ∧
      started.memory = moveAll xlen.size
        (plan xlen mem_block_end numbers located dtbLength initramfsLength) memory := by
  obtain ⟨withKernel, withDtb, left, kernelCopied, dtbPoint, dtbStaged, initramfsPoint,
    initramfsStaged, -⟩ := staged
  have base := kernel_load_to_point_eq left
  rw [base] at dtbPoint kernelCopied
  refine ⟨base, dtbPoint, initramfsPoint, ?_⟩
  rw [stage_entry_eq (initramfsPoint ▸ initramfs_point_lt bounded.initramfs)
      bounded.initramfs initramfsLength initramfsStaged,
    stage_entry_eq (dtbPoint ▸ dtb_point_lt bounded.dtb _) bounded.dtb dtbLength dtbStaged,
    memcpy_eq (base ▸ kernelBase_lt left) bounded.kernel bounded.size kernelCopied,
    dtbPoint, initramfsPoint]
  rfl

/-- What holds of the copy of an entry, if it is made. -/
theorem forall_entry_copies
    (found : Found)
    (dest inPlace : Nat)
    (holds : Nat → Nat → Prop) :
    (∀ copy ∈ entry_copies found dest, holds copy.1 copy.2) ↔
      (found.archived = true → holds dest (found.length inPlace)) := by
  by_cases archived : found.2.h_magic ≠ 0
  · have isArchived : found.archived = true := decide_eq_true archived
    rw [entry_copies, if_pos archived, List.forall_mem_singleton, Found.length,
      if_pos isArchived]
    exact ⟨fun here _ => here, fun here => here isArchived⟩
  · rw [entry_copies, if_neg archived]
    refine ⟨fun _ yes => absurd (of_decide_eq_true yes) archived, fun _ copy member => ?_⟩
    exact absurd member List.not_mem_nil

/-- The copies that are made are those of the plan. -/
theorem stage_copies
    (dtbLength initramfsLength : Nat)
    (staged : stage xlen mem_block_end numbers located memory started) :
    (∀ copy ∈ started.copies, ∀ i < copy.2,
      ¬(PROGAMIMAGE_START ≤ xlen.wrap (copy.1 + i) ∧
        xlen.wrap (copy.1 + i) < mem_block_end)) ↔
      SparesFirmware xlen mem_block_end
        (plan xlen mem_block_end numbers located dtbLength initramfsLength) := by
  obtain ⟨_, _, left, -, dtbPoint, -, initramfsPoint, -, copies⟩ := staged
  have base := kernel_load_to_point_eq left
  have entries (found : Found) (dest inPlace : Nat) := forall_entry_copies
    found dest inPlace fun dest length => ∀ i < length,
      ¬(PROGAMIMAGE_START ≤ xlen.wrap (dest + i) ∧ xlen.wrap (dest + i) < mem_block_end)
  rw [copies, List.forall_mem_cons, List.forall_mem_append,
    entries located.dtb _ dtbLength, entries located.initramfs _ initramfsLength,
    dtbPoint, initramfsPoint, base, SparesFirmware, plan, List.forall_mem_cons,
    List.forall_mem_cons, List.forall_mem_singleton]
  exact and_congr_left' ⟨fun here _ => here, fun here => here rfl⟩

/-- Staging other contents takes the same way. -/
theorem stage_exists
    (bounded : Bounded xlen numbers located)
    (staged : stage xlen mem_block_end numbers located memory started)
    (contents : Memory) :
    ∃ result, stage xlen mem_block_end numbers located contents result := by
  have entry (found : Found) (dest : Nat) (before : Memory) (destInside : dest < xlen.size)
      (foundInside : found.1 < xlen.size) :
      ∃ after, stage_entry xlen found dest before after := by
    by_cases archived : found.2.h_magic ≠ 0
    · exact ⟨_, (if_pos archived).mpr
        (memcpy_returns before destInside foundInside (filesize_lt xlen found))⟩
    · exact ⟨before, (if_neg archived).mpr rfl⟩
  obtain ⟨_, _, left, -⟩ := staged
  have kernelCopied := memcpy_returns contents (kernelBase_lt left) bounded.kernel
    bounded.size
  obtain ⟨withDtb, dtbStaged⟩ := entry located.dtb
    (dtb_point xlen numbers located.dtb started.kernel_load_to_point) _
    (dtb_point_lt bounded.dtb _) bounded.dtb
  obtain ⟨final, initramfsStaged⟩ := entry located.initramfs
    (initramfs_point located.initramfs) withDtb
    (initramfs_point_lt bounded.initramfs) bounded.initramfs
  exact ⟨{
    memory := final
    kernel_load_to_point := started.kernel_load_to_point
    dtb_load_to_point :=
      dtb_point xlen numbers located.dtb started.kernel_load_to_point
    initramfs_load_to_point := initramfs_point located.initramfs
    copies := (started.kernel_load_to_point, kernel_size numbers located.kernel) ::
      (entry_copies located.dtb
        (dtb_point xlen numbers located.dtb started.kernel_load_to_point) ++
          entry_copies located.initramfs (initramfs_point located.initramfs)) },
    _, withDtb, left, kernelCopied, rfl, dtbStaged, rfl, initramfsStaged, rfl⟩

end Stage

section Bounds

/-! ## Pointers that were found -/

variable {xlen : Xlen} {machine : Machine xlen}

theorem registerAt_lt (memory : Memory) (pointer offset : Nat) :
    registerAt xlen memory pointer offset < xlen.size := by
  cases xlen with
  | rv32 => exact BitVec.isLt _
  | rv64 =>
      have upper := (wordAt .rv64 memory pointer (offset + 4)).isLt
      have lower := (wordAt .rv64 memory pointer offset).isLt
      have size : Xlen.rv64.size = 2 ^ 64 := rfl
      rw [registerAt, size]
      omega

/-- The archive lookup returns a pointer. -/
theorem in_archive_lt
    {name : Nat}
    {found : Found}
    (inArchive : in_archive machine name found) :
    found.1 < xlen.size := by
  obtain ⟨fuel, left⟩ := inArchive
  generalize (⟨CPIO_ARCHIVE, 0⟩ : Scan) = scan at left
  induction fuel generalizing scan with
  | zero => simp [iterate] at left
  | succ fuel inductionHypothesis =>
      cases turn : get_cpio_entry_header_turn xlen machine.memory name zero_header scan with
      | again next =>
          rw [iterate, turn] at left
          exact inductionHypothesis _ left
      | leave result =>
          rw [iterate, turn] at left
          obtain rfl := Option.some.inj left
          revert turn
          simp only [get_cpio_entry_header_turn]
          split
          · rintro ⟨⟩
            exact xlen.size_pos
          · split
            · intro turn
              cases turn
            · rintro ⟨⟩
              exact xlen.wrap_lt _
            · split
              · intro turn
                cases turn
              · rintro ⟨⟩
                exact xlen.size_pos
              · intro turn
                cases turn

theorem Locates.bounded
    {located : Located}
    (locates : Locates machine located)
    (shifted : BitVec 32 → BitVec 32) :
    Bounded xlen (numbers_at shifted machine located.kernel) located := by
  refine ⟨?_, ?_, ?_, ?_⟩
  · have kernel := locates.kernel
    rw [locate_kernel] at kernel
    split at kernel
    · exact in_archive_lt kernel
    · rw [kernel, named_kernel]
      dsimp only
      split
      · exact registerAt_lt _ _ _
      · exact xlen.size_pos
  · have dtb := locates.dtb
    rw [locate_dtb] at dtb
    split at dtb
    · exact in_archive_lt dtb
    · rw [dtb]
      exact BitVec.isLt _
  · obtain ⟨start, -, initramfs⟩ := locates.initramfs
    split at initramfs
    · exact in_archive_lt initramfs
    · rw [initramfs]
      exact BitVec.isLt _
  · rw [kernel_size]
    split
    · exact filesize_lt xlen located.kernel
    · simp only [numbers_at]
      cases xlen <;> exact BitVec.isLt _

end Bounds

section Contract

/-! ## The contract -/

variable {xlen : Xlen} {shifted : BitVec 32 → BitVec 32} {machine : Machine xlen}
  {located : Located} {started : Started} {dtbLength initramfsLength : Nat}

theorem plan_fits
    {numbers : Numbers}
    (bounded : Bounded xlen numbers located)
    (mem_block_end : Nat)
    (dtbFits : dtbLength ≤ xlen.size)
    (initramfsFits : initramfsLength ≤ xlen.size) :
    ∀ payload ∈ plan xlen mem_block_end numbers located dtbLength initramfsLength,
      payload.length ≤ xlen.size := by
  have entry (found : Found) (inPlace : Nat) (fits : inPlace ≤ xlen.size) :
      Found.length found inPlace ≤ xlen.size := by
    rw [Found.length]
    split
    · exact Nat.le_of_lt (filesize_lt xlen found)
    · exact fits
  rw [plan, List.forall_mem_cons, List.forall_mem_cons, List.forall_mem_singleton]
  exact ⟨Nat.le_of_lt bounded.size, entry _ _ dtbFits, entry _ _ initramfsFits⟩

/-- The three payloads of the plan are kept when staging is what it is for. -/
theorem staged_iff
    {mem_block_end : Nat}
    {numbers : Numbers}
    {memory : Memory}
    (bounded : Bounded xlen numbers located)
    (dtbLength initramfsLength : Nat)
    (staged : stage xlen mem_block_end numbers located memory started) :
    Staged xlen mem_block_end numbers located dtbLength initramfsLength memory started ↔
      (∀ payload ∈ plan xlen mem_block_end numbers located dtbLength initramfsLength,
        payload.Kept xlen.size memory (moveAll xlen.size
          (plan xlen mem_block_end numbers located dtbLength initramfsLength) memory)) ∧
      SparesFirmware xlen mem_block_end
        (plan xlen mem_block_end numbers located dtbLength initramfsLength) := by
  obtain ⟨kernelPoint, dtbPoint, initramfsPoint, after⟩ :=
    stage_eq bounded dtbLength initramfsLength staged
  rw [← stage_copies dtbLength initramfsLength staged, ← after]
  constructor
  · rintro ⟨kernel, dtb, initramfs, firmware⟩
    rw [kernelPoint] at kernel
    rw [dtbPoint] at dtb
    rw [initramfsPoint] at initramfs
    refine ⟨?_, firmware⟩
    rw [plan, List.forall_mem_cons, List.forall_mem_cons, List.forall_mem_singleton]
    exact ⟨kernel, dtb, initramfs⟩
  · rintro ⟨kept, firmware⟩
    rw [plan, List.forall_mem_cons, List.forall_mem_cons, List.forall_mem_singleton]
      at kept
    obtain ⟨kernel, dtb, initramfs⟩ := kept
    refine ⟨?_, ?_, ?_, firmware⟩
    · rw [kernelPoint]
      exact kernel
    · rw [dtbPoint]
      exact dtb
    · rw [initramfsPoint]
      exact initramfs

/-- Staging keeps the payloads when the plan is clear.  Payloads from different
cells it keeps, whatever they hold, only then. -/
theorem kmain_keeps_payloads
    (reaches : kmain shifted machine located started)
    (dtbLength initramfsLength : Nat)
    (dtbFits : dtbLength ≤ xlen.size)
    (initramfsFits : initramfsLength ≤ xlen.size) :
    let numbers := numbers_at shifted machine located.kernel
    let mem_block_end := machine.mem_block_end.toNat
    let payloads := plan xlen mem_block_end numbers located dtbLength initramfsLength
    (Clear xlen.size payloads ∧ SparesFirmware xlen mem_block_end payloads →
      Staged xlen mem_block_end numbers located dtbLength initramfsLength
        machine.memory started) ∧
    (payloads.Pairwise (Payload.SourcesApart xlen.size) →
      (∀ contents result, stage xlen mem_block_end numbers located contents result →
        Staged xlen mem_block_end numbers located dtbLength initramfsLength
          contents result) →
      Clear xlen.size payloads ∧ SparesFirmware xlen mem_block_end payloads) := by
  intro numbers mem_block_end payloads
  obtain ⟨locates, stages⟩ := reaches
  have bounded := locates.bounded shifted
  have fits := plan_fits bounded mem_block_end dtbFits initramfsFits
  refine ⟨fun ⟨clear, spares⟩ => ?_, fun distinct always => ?_⟩
  · exact (staged_iff bounded _ _ stages).mpr ⟨clear.kept _ fits, spares⟩
  · have each (contents : Memory) :
        (∀ payload ∈ payloads,
          payload.Kept xlen.size contents (moveAll xlen.size payloads contents)) ∧
        SparesFirmware xlen mem_block_end payloads := by
      obtain ⟨result, staged⟩ := stage_exists bounded stages contents
      exact (staged_iff bounded dtbLength initramfsLength staged).mp
        (always contents result staged)
    have : Nontrivial Byte := ⟨0, 1, by decide⟩
    exact ⟨clear_of_kept fits distinct fun contents => (each contents).1,
      (each machine.memory).2⟩

end Contract

section Example

/-! ## Two machines

A kernel that the firmware info names, an initramfs that the device tree names,
and the device tree at a multiple of 16 or 8 bytes behind one. -/

/-- Where the device tree is. -/
def treeAddress (aligned : Bool) : Nat :=
  if aligned then 0x87000000 else 0x87000008

/-- The literals of the firmware, the kernel header, the tree and the firmware
info, and nothing else. -/
def bootMemory (aligned : Bool) : Memory := fun address =>
  if 0x87F00000 ≤ address then
    [0x4F, 0x53, 0x42, 0x49, 2, 0, 0, 0, 0, 0, 0x40, 0x80].getD (address - 0x87F00000) 0
  else if treeAddress aligned ≤ address then
    (startTree.headerWords.flatMap bigEndian32 ++ (List.replicate 16 0 ++
      (startTree.structBlock ++ startTree.strings))).getD (address - treeAddress aligned) 0
  else if 0x80400000 ≤ address then
    [0, 0, 0, 0, 0, 0, 0, 0, 0, 0, 0x40, 0, 0, 0, 0, 0, 0, 0x10].getD
      (address - 0x80400000) 0
  else if 0x80050000 ≤ address then
    (KERNEL_BIN ++ [0] ++ (DTB_NAME ++ [0] ++ (INITRAMFS_NAME ++ [0]))).getD
      (address - 0x80050000) 0
  else 0

def bootMachine (aligned : Bool) : Machine .rv32 where
  memory := bootMemory aligned
  init_reg_a1 := BitVec.ofNat 32 (treeAddress aligned)
  init_reg_a2 := 0x87F00000#32
  mem_block_end := 0x80060000#32
  kernel_bin := 0x80050000
  dtb_name := 0x8005000B
  initramfs_name := 0x80050022
  kernel_bin_held := by cases aligned <;> decide
  dtb_name_held := by cases aligned <;> decide
  initramfs_name_held := by cases aligned <;> decide

/-- What `kmain` finds on these machines. -/
def bootLocated (aligned : Bool) : Located where
  kernel := (0x80400000, zero_header)
  dtb := (treeAddress aligned, zero_header)
  initramfs := (0x86000000, zero_header)

theorem bootMachine_locates (aligned : Bool) :
    Locates (bootMachine aligned) (bootLocated aligned) := by
  have named : ∀ aligned, named_kernel (bootMachine aligned) = 0x80400000 := by decide
  have placed : startTree.Placed .rv32 (bootMachine aligned).memory
      (bootLocated aligned).dtb.1 := by
    cases aligned <;> exact ⟨by decide, by decide, by decide, by decide⟩
  refine ⟨?_, by cases aligned <;> decide, ?_, by cases aligned <;> decide, ?_,
    by cases aligned <;> decide⟩
  · rw [locate_kernel, named, if_neg (by decide)]
    rfl
  · rw [locate_dtb, if_neg (by cases aligned <;> decide)]
    cases aligned <;> rfl
  · refine ⟨0x86000000#32, ?_, ?_⟩
    · rw [if_neg (by cases aligned <;> decide)]
      exact placed.parses (some 0) none
    · exact (if_neg (show ¬(0x86000000#32 = 0#32) by decide)).mpr rfl

/-- What `kmain` starts. -/
def bootStarted (aligned : Bool) : Started where
  memory := copied Xlen.rv32.size (bootMemory aligned) 0x80400000 0x80400000 0x1000
  kernel_load_to_point := 0x80400000
  dtb_load_to_point := 0x87000000
  initramfs_load_to_point := 0x86000000
  copies := [(0x80400000, 0x1000)]

theorem bootMachine_numbers : ∀ aligned,
    numbers_at id (bootMachine aligned) (bootLocated aligned).kernel =
      ⟨0x400000, 0x1000⟩ := by
  decide

theorem bootMachine_kmain (aligned : Bool) :
    kmain id (bootMachine aligned) (bootLocated aligned) (bootStarted aligned) := by
  refine ⟨bootMachine_locates aligned, ?_⟩
  rw [bootMachine_numbers]
  have behind : ¬load_point_start .rv32 0x400000 < 0x80060000 := by decide
  have size : kernel_size ⟨0x400000, 0x1000⟩ (bootLocated aligned).kernel = 0x1000 := by
    cases aligned <;> decide
  have moved : memcpy .rv32 (bootMemory aligned) 0x80400000 0x80400000 0x1000
      (bootStarted aligned).memory :=
    memcpy_returns (bootMemory aligned) (by decide) (by decide) (by decide)
  refine ⟨_, _, .of_leave (if_neg behind), ?_, ?_, rfl, rfl, rfl, ?_⟩
  · rw [size]
    exact moved
  · cases aligned <;> decide
  · rw [size]
    rfl

end Example

section Contract
/-- With the tree at a multiple of 16 the plan is clear. -/
theorem bootPlan_clear :
    Clear Xlen.rv32.size (plan .rv32 0x80060000 ⟨0x400000, 0x1000⟩ (bootLocated true)
      107 0x100000) ∧
    SparesFirmware .rv32 0x80060000 (plan .rv32 0x80060000 ⟨0x400000, 0x1000⟩
      (bootLocated true) 107 0x100000) := by
  have payloads : plan .rv32 0x80060000 ⟨0x400000, 0x1000⟩ (bootLocated true) 107
      0x100000 =
      [⟨0x80400000, 0x80400000, 0x1000, true⟩, ⟨0x87000000, 0x87000000, 107, false⟩,
        ⟨0x86000000, 0x86000000, 0x100000, false⟩] := by decide
  have size : Xlen.rv32.size = 2 ^ 32 := rfl
  rw [payloads, size]
  refine ⟨⟨?_, ?_, ?_, ?_⟩, ?_⟩
  · simp only [List.pairwise_cons, List.forall_mem_cons, List.not_mem_nil, false_imp_iff,
      implies_true, List.Pairwise.nil, and_true]
    exact ⟨⟨cells_apart (by decide) (by decide) (by decide),
      cells_apart (by decide) (by decide) (by decide)⟩,
        cells_apart (by decide) (by decide) (by decide)⟩
  · simp only [List.pairwise_cons, List.forall_mem_cons, List.not_mem_nil, false_imp_iff,
      implies_true, List.Pairwise.nil, and_true]
    exact ⟨⟨fun _ => cells_apart (by decide) (by decide) (by decide),
      fun _ => cells_apart (by decide) (by decide) (by decide)⟩, fun moved => absurd moved (by decide)⟩
  · simp only [List.forall_mem_cons, List.not_mem_nil, false_imp_iff, implies_true,
      and_true]
    refine ⟨fun _ i j before inside same => ?_, fun moved => absurd moved (by decide),
      fun moved => absurd moved (by decide)⟩
    have equal := cell_inj (show 0x1000 ≤ 2 ^ 32 by decide) (before.trans inside) inside same
    omega
  · simp only [List.forall_mem_cons, List.not_mem_nil, false_imp_iff, implies_true,
      and_true]
    exact ⟨fun still => absurd still (by decide), fun _ _ _ => rfl, fun _ _ _ => rfl⟩
  · simp only [SparesFirmware, List.forall_mem_cons, List.not_mem_nil, false_imp_iff,
      implies_true, and_true]
    refine ⟨fun _ i inside => ?_, by decide, by decide⟩
    rw [Payload.targetCell, size, Nat.mod_eq_of_lt (by simp only at inside ⊢; omega)]
    simp only
    omega

theorem kmain_keeps_payloads_aligned :
    Staged .rv32 0x80060000 ⟨0x400000, 0x1000⟩ (bootLocated true) 107 0x100000
      (bootMemory true) (bootStarted true) := by
  have kept := (kmain_keeps_payloads (bootMachine_kmain true) 107 0x100000
    (by decide) (by decide)).1
  rw [bootMachine_numbers] at kept
  exact kept bootPlan_clear

/-- A device tree that is not at a multiple of 16 is left in place, and the kernel
is given another address. -/
theorem not_kmain_keeps_payloads :
    ¬∀ (machine : Machine .rv32) (located : Located) (started : Started)
      (dtbLength initramfsLength : Nat),
      kmain id machine located started → dtbLength ≤ Xlen.rv32.size →
      initramfsLength ≤ Xlen.rv32.size →
      Staged .rv32 machine.mem_block_end.toNat (numbers_at id machine located.kernel)
        located dtbLength initramfsLength machine.memory started := by
  intro claim
  have staged := claim _ _ _ 107 0x100000 (bootMachine_kmain false) (by decide) (by decide)
  have first := staged.dtb 0 (by decide)
  have size : Xlen.rv32.size = 2 ^ 32 := rfl
  have outside : ∀ i < 0x1000, (0x80400000 + i) % Xlen.rv32.size ≠ 0x87000000 := by
    rw [size]
    omega
  have left : copied _ (bootMemory false) _ 0x80400000 _ _ = _ := copied_outside outside
  have zero : bootMemory false 0x87000000 = 0 := by decide
  have magic : bootMemory false 0x87000008 = 0xD0 := by decide
  have address : Xlen.rv32.wrap ((bootStarted false).dtb_load_to_point + 0) =
      0x87000000 := by decide
  have source : Xlen.rv32.wrap ((bootLocated false).dtb.1 + 0) = 0x87000008 := by decide
  have arrived : (bootStarted false).memory =
      copied Xlen.rv32.size (bootMemory false) 0x80400000 0x80400000 0x1000 := rfl
  have given : (bootMachine false).memory = bootMemory false := rfl
  rw [address, source, arrived, given, left, zero, magic] at first
  exact absurd first (by decide)

end Contract

end Boot
end EchelonSbi
