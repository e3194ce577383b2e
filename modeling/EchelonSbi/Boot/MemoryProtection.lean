import EchelonSbi.Boot.Staging
import EchelonSbi.Harts.CallResults
import EchelonSbi.Harts.Protection
import EchelonSbi.Riscv.Pmp

/-!
# The firmware's memory and the kernel

The start branch closes the addresses from `PROGAMIMAGE_START` up to
`kernel_load_to_point` to the kernel.  An address register of the protection
holds fewer bits than a register of 64 bits, so a kernel header can name an
address that is cut off there.
-/

namespace EchelonSbi
namespace Boot

open Foundation
open Harts
open Riscv
open Sbi

/-- The bits of a physical address that an address register can hold. -/
def physicalBits : Xlen → Nat
  | .rv32 => 34
  | .rv64 => 56

/-- The highest address that the start branch opens, and one more. -/
def openEnd : Xlen → Nat
  | .rv32 => 0xFFFFFFFC
  | .rv64 => 0xFFFFFFFFFFFFFC

/-- The entries that the start branch configures; the others are off. -/
def pmpEntries (csrs : Harts.Csr → Word xlen) : List PmpEntry :=
  let config := (csrs .pmpcfg0).toNat
  [.ofConfig (config % 0x100) (csrs .pmpaddr0).toNat,
    .ofConfig (config / 0x100 % 0x100) (csrs .pmpaddr1).toNat,
    .ofConfig (config / 0x10000 % 0x100) (csrs .pmpaddr2).toNat]

/-- No access from below M-mode touches the firmware's memory. -/
def FirmwareClosed (mem_block_end : Nat) (entries : List PmpEntry) : Prop :=
  ∀ (access : PhysicalAccess) (address : Nat),
    PROGAMIMAGE_START ≤ address → address < mem_block_end →
    access.address ≤ address → address < access.address + access.length →
    ¬PmpPermits 0 entries access

/-- An instruction can be fetched from the address in S-mode. -/
def FetchPermitted (entries : List PmpEntry) (address : Nat) : Prop :=
  ∀ length, 0 < length → length ≤ 4 →
    PmpPermits 0 entries ⟨address, length, .fetch⟩

/-- The address that the kernel header names fits into an address register, or
what fits of it lies behind the firmware's heap. -/
def HeaderAddressable
    (xlen : Xlen) (mem_block_end text_offset : Nat) : Prop :=
  let address := xlen.wrap (roundUp (xlen.wrap (PROGAMIMAGE_START + text_offset)))
  address < 2 ^ physicalBits xlen ∨
    mem_block_end ≤ address % 2 ^ physicalBits xlen

section Entries

/-- What an address register holds of a register. -/
theorem pmpaddr_toNat (value : Word xlen) :
    (value >>> 2 &&& pmpMask xlen).toNat =
      value.toNat / 4 % 2 ^ (physicalBits xlen - 2) := by
  cases xlen with
  | rv32 =>
      have below : value.toNat < 2 ^ 32 := value.isLt
      have mask : (pmpMask .rv32).toNat = 2 ^ 32 - 1 := rfl
      rw [BitVec.toNat_and, mask, Nat.and_two_pow_sub_one_eq_mod,
        BitVec.toNat_ushiftRight, Nat.shiftRight_eq_div_pow]
      rfl
  | rv64 =>
      have mask : (pmpMask .rv64).toNat = 2 ^ 54 - 1 := rfl
      rw [BitVec.toNat_and, mask, Nat.and_two_pow_sub_one_eq_mod,
        BitVec.toNat_ushiftRight, Nat.shiftRight_eq_div_pow]
      rfl

variable {config : Config} {csrs : Harts.Csr → Word config.xlen}

/-- The entries in closed form. -/
theorem pmpEntries_of_installed
    (installed : PmpInstalled config csrs)
    (aligned : 4 ∣ config.kernel_load_to_point.toNat) :
    ∃ pmpaddr, 4 * pmpaddr = config.kernel_load_to_point.toNat %
        2 ^ physicalBits config.xlen ∧
      pmpEntries csrs =
        [⟨true, true, false, .TOR, 0x20000000⟩,
          ⟨false, false, false, .TOR, pmpaddr⟩,
          ⟨true, true, true, .TOR, openEnd config.xlen / 4⟩] := by
  have first : (csrs .pmpaddr0).toNat = 0x20000000 := by
    rw [installed .pmpaddr0 _ rfl, pmpaddr_toNat]
    cases config.xlen <;> rfl
  have third : (csrs .pmpaddr2).toNat = openEnd config.xlen / 4 := by
    rw [installed .pmpaddr2 _ rfl, pmpaddr_toNat]
    cases config.xlen <;> rfl
  have modes : (csrs .pmpcfg0).toNat = 0x0F080B := by
    rw [installed .pmpcfg0 _ rfl]
    cases config.xlen <;> rfl
  refine ⟨(csrs .pmpaddr1).toNat, ?_, ?_⟩
  · rw [installed .pmpaddr1 _ rfl, pmpaddr_toNat]
    obtain ⟨quarter, same⟩ := aligned
    have bits : 2 ^ physicalBits config.xlen =
        4 * 2 ^ (physicalBits config.xlen - 2) := by
      cases config.xlen <;> rfl
    rw [same, bits, Nat.mul_mod_mul_left, Nat.mul_div_cancel_left _ (by decide)]
  · rw [pmpEntries, first, third, modes]
    rfl

/-- What the start branch permits. -/
theorem pmpPermits_installed_iff
    (installed : PmpInstalled config csrs)
    (aligned : 4 ∣ config.kernel_load_to_point.toNat)
    {access : PhysicalAccess}
    (nonempty : 0 < access.length) :
    PmpPermits 0 (pmpEntries csrs) access ↔
      (access.address + access.length ≤ PROGAMIMAGE_START ∧
          access.kind ≠ .fetch) ∨
        (PROGAMIMAGE_START ≤ access.address ∧
          config.kernel_load_to_point.toNat % 2 ^ physicalBits config.xlen ≤
            access.address ∧
          access.address + access.length ≤ openEnd config.xlen) := by
  obtain ⟨pmpaddr, cut, entries⟩ := pmpEntries_of_installed installed aligned
  have whole : 4 * (openEnd config.xlen / 4) = openEnd config.xlen := by
    cases config.xlen <;> rfl
  have large : PROGAMIMAGE_START < openEnd config.xlen := by
    cases config.xlen <;> decide
  have start : 4 * 0x20000000 = PROGAMIMAGE_START := rfl
  rw [entries, ← cut]
  simp only [PmpPermits, PmpEntry.meets_iff_of_TOR, PmpEntry.covers_iff_of_TOR,
    PmpEntry.permits, whole, start, Nat.mul_zero, Nat.zero_le, true_and,
    Nat.zero_max]
  by_cases low : access.address < PROGAMIMAGE_START
  · -- the first entry decides
    rw [if_pos (by omega)]
    cases kind : access.kind <;> simp <;> omega
  rw [if_neg (by omega)]
  by_cases closed : access.address < 4 * pmpaddr
  · -- the second entry decides
    rw [if_pos (by omega)]
    cases kind : access.kind <;> simp <;> omega
  rw [if_neg (by omega)]
  by_cases inside : access.address < openEnd config.xlen
  · rw [if_pos (by omega)]
    cases kind : access.kind <;> simp <;> omega
  · rw [if_neg (by omega)]
    simp only [false_iff]
    omega

/-- The firmware is closed if what the address register holds of the load
point lies behind the heap. -/
theorem firmwareClosed_iff
    (installed : PmpInstalled config csrs)
    (aligned : 4 ∣ config.kernel_load_to_point.toNat)
    {mem_block_end : Nat}
    (heap : PROGAMIMAGE_START < mem_block_end)
    (inMemory : mem_block_end ≤ MEMORY_BASE + MEMORY_AVAILABLE) :
    FirmwareClosed mem_block_end (pmpEntries csrs) ↔
      mem_block_end ≤
        config.kernel_load_to_point.toNat % 2 ^ physicalBits config.xlen := by
  constructor
  · intro closed
    by_contra short
    have memoryOpens : MEMORY_BASE + MEMORY_AVAILABLE ≤ openEnd config.xlen := by
      cases config.xlen <;> decide
    generalize bound : config.kernel_load_to_point.toNat %
      2 ^ physicalBits config.xlen = top at short
    -- the first address that the second entry leaves to the third one
    have permitted : PmpPermits 0 (pmpEntries csrs)
        ⟨max PROGAMIMAGE_START top, 1, .load⟩ := by
      rw [pmpPermits_installed_iff installed aligned Nat.one_pos, bound]
      exact .inr ⟨le_max_left _ _, le_max_right _ _, by dsimp only; omega⟩
    exact closed _ (max PROGAMIMAGE_START top) (le_max_left _ _) (by omega)
      le_rfl (Nat.lt_succ_self _) permitted
  · intro behind access address low high from_ below permitted
    rw [pmpPermits_installed_iff installed aligned (by omega)] at permitted
    omega

/-- An accepted start address lies in the memory of the board. -/
theorem inMemory_of_is_valid_phys_mem_addr
    {address : Word xlen}
    {required_alignment : Nat}
    (accepted : is_valid_phys_mem_addr address required_alignment = true) :
    MEMORY_BASE ≤ address.toNat ∧
      address.toNat < MEMORY_BASE + MEMORY_AVAILABLE := by
  unfold is_valid_phys_mem_addr at accepted
  split_ifs at accepted with misaligned outside
  omega

/-- An instruction can be fetched from an accepted address if the address lies
behind what the address register holds of the load point. -/
theorem fetchPermitted_iff
    (installed : PmpInstalled config csrs)
    (aligned : 4 ∣ config.kernel_load_to_point.toNat)
    {start_addr : Word config.xlen}
    (accepted : is_valid_phys_mem_addr start_addr 2 = true) :
    FetchPermitted (pmpEntries csrs) start_addr.toNat ↔
      config.kernel_load_to_point.toNat % 2 ^ physicalBits config.xlen ≤
        start_addr.toNat := by
  obtain ⟨low, high⟩ := inMemory_of_is_valid_phys_mem_addr accepted
  have memoryOpens : MEMORY_BASE + MEMORY_AVAILABLE + 4 ≤
      openEnd config.xlen := by
    cases config.xlen <;> decide
  have base : MEMORY_BASE = PROGAMIMAGE_START := rfl
  constructor
  · intro permitted
    have first := permitted 1 (by decide) (by decide)
    rw [pmpPermits_installed_iff installed aligned Nat.one_pos] at first
    rcases first with ⟨-, notFetch⟩ | ⟨-, behind, -⟩
    · exact absurd rfl notFetch
    · exact behind
  · intro behind length positive short
    rw [pmpPermits_installed_iff installed aligned positive]
    refine .inr ⟨?_, behind, ?_⟩
    · dsimp only
      omega
    · dsimp only
      omega

end Entries

/-- `sbi_hart_start` with a valid hart id refuses the address exactly if the
check of addresses does. -/
theorem hart_start_refuses_iff
    {platform : Platform}
    (mhartid : Nat)
    (stack : Hart_Command platform.xlen)
    {hartid : Word platform.xlen}
    (valid : is_valid_hartid platform hartid = true)
    (start_addr opaque_ : Word platform.xlen) :
    callEnd (sbi_hart_start platform mhartid stack hartid start_addr opaque_) =
        .returns ⟨SBI_ERR_INVALID_ADDRESS, 0⟩ ↔
      is_valid_phys_mem_addr start_addr 2 = false := by
  unfold sbi_hart_start
  rw [if_neg (by simp [valid])]
  split_ifs with refused own
  · exact iff_of_true (callEnd_locals (printm_local _)) refused
  · refine iff_of_false (fun same => ?_) refused
    rw [callEnd_locals (printm_local _)] at same
    cases same
  · exact iff_of_false nofun refused

section LoadPoint

variable {xlen : Xlen} {mem_block_end text_offset kernel_load_to_point : Nat}

/-- The load point is a multiple of 2 MiB. -/
theorem load_point_aligned
    (computed : Returns (load_point_turn xlen mem_block_end)
      (load_point_start xlen text_offset) kernel_load_to_point) :
    0x200000 ∣ kernel_load_to_point := by
  have aligned : 0x200000 ∣
      xlen.wrap (roundUp (xlen.wrap (PROGAMIMAGE_START + text_offset))) :=
    aligned_wrap (Nat.dvd_mul_left ..)
  rw [load_point_start_eq] at computed
  rw [load_point_eq (xlen.wrap_lt _) aligned computed]
  split_ifs
  · exact aligned
  · exact Nat.dvd_mul_left ..

/-- The load point lies behind the heap. -/
theorem load_point_spec
    (inMemory : mem_block_end ≤ MEMORY_BASE + MEMORY_AVAILABLE)
    (computed : Returns (load_point_turn xlen mem_block_end)
      (load_point_start xlen text_offset) kernel_load_to_point) :
    mem_block_end ≤ kernel_load_to_point ∧
      (mem_block_end ≤ kernel_load_to_point % 2 ^ physicalBits xlen ↔
        HeaderAddressable xlen mem_block_end text_offset) := by
  have aligned : 0x200000 ∣
      xlen.wrap (roundUp (xlen.wrap (PROGAMIMAGE_START + text_offset))) :=
    aligned_wrap (Nat.dvd_mul_left ..)
  have inside := xlen.wrap_lt
    (roundUp (xlen.wrap (PROGAMIMAGE_START + text_offset)))
  have memoryFits : MEMORY_BASE + MEMORY_AVAILABLE + 0x200000 <
      2 ^ physicalBits xlen := by
    cases xlen <;> decide
  rw [load_point_start_eq] at computed
  have result := load_point_eq inside aligned computed
  unfold HeaderAddressable
  generalize xlen.wrap (roundUp (xlen.wrap (PROGAMIMAGE_START + text_offset))) =
    address at aligned inside result
  dsimp only
  by_cases behind : mem_block_end ≤ address
  · rw [if_pos behind] at result
    rw [result]
    refine ⟨behind, fun fits => .inr fits, ?_⟩
    rintro (fits | fits)
    · rwa [Nat.mod_eq_of_lt fits]
    · exact fits
  · rw [if_neg behind] at result
    have up : mem_block_end ≤ roundUp mem_block_end ∧
        roundUp mem_block_end < mem_block_end + 0x200000 := by
      unfold roundUp
      omega
    rw [result, Nat.mod_eq_of_lt (by omega)]
    refine ⟨up.1, iff_of_true up.1 (.inl ?_)⟩
    omega

end LoadPoint

section Runs

/-! ## Whole runs -/

variable {config : Config} {first last : System config.xlen}
  {labels : List (Label config.xlen)} {h : Nat}
  {mem_block_end text_offset : Nat}

/-- The board of QEMU with one load point. -/
def qemuBoard (kernel_load_to_point : Word .rv64) : Config :=
  { twoHartBoard with
    MM_QEMU_VIRT := true
    kernel_load_to_point := kernel_load_to_point }

/-- A test of the history of a run. -/
def enteredOn (labels : List (Label xlen)) (h : Nat) : Bool :=
  labels.any fun label =>
    match label.event with
    | .entered _ _ => label.hart = h
    | _ => false

theorem entered_of_enteredOn
    {labels : List (Label xlen)}
    (found : enteredOn labels h = true) :
    Entered labels h := by
  obtain ⟨⟨hart, level, event⟩, member, here⟩ := List.any_eq_true.mp found
  cases event with
  | entered context csrs =>
      obtain rfl : hart = h := by simpa using here
      exact ⟨level, context, csrs, member⟩
  | _ => cases here

/-- Hart 0 starts itself and enters the kernel. -/
def qemuSchedule (kernel_load_to_point : Word .rv64) :
    List (Move (qemuBoard kernel_load_to_point).xlen) :=
  List.replicate 18 (.advance 0) ++ .interrupt 0 ::
    List.replicate 70 (.advance 0)

theorem exists_entered
    {kernel_load_to_point : Word .rv64}
    (played : (play (qemuBoard kernel_load_to_point)
      (qemuSchedule kernel_load_to_point)
      (bootSystem (qemuBoard kernel_load_to_point))).any
        (fun result => enteredOn result.1 0) = true) :
    ∃ labels last,
      Run (ProtectedStep (qemuBoard kernel_load_to_point))
        (bootSystem (qemuBoard kernel_load_to_point)) labels last ∧
      Entered labels 0 := by
  obtain ⟨⟨labels, last⟩, result, found⟩ := Option.any_eq_true _ _ |>.mp played
  exact ⟨labels, last, play_run_of Move.take_protected result,
    entered_of_enteredOn found⟩

set_option maxRecDepth 4000 in
/-- A header with a small text offset. -/
theorem lowBoard_entered :
    ∃ labels last,
      Run (ProtectedStep (qemuBoard 0x80200000#_))
        (bootSystem (qemuBoard 0x80200000#_)) labels last ∧
      Entered labels 0 :=
  exists_entered (by decide)

set_option maxRecDepth 4000 in
/-- A header that names the first address beyond the address registers. -/
theorem highBoard_entered :
    ∃ labels last,
      Run (ProtectedStep (qemuBoard 0x100000000000000#_))
        (bootSystem (qemuBoard 0x100000000000000#_)) labels last ∧
      Entered labels 0 :=
  exists_entered (by decide)

theorem lowBoard_computed :
    Returns (load_point_turn (qemuBoard 0x80200000#_).xlen 0x80060000)
      (load_point_start (qemuBoard 0x80200000#_).xlen 0x200000)
      (qemuBoard 0x80200000#_).kernel_load_to_point.toNat :=
  .of_leave (if_neg (by decide))

theorem highBoard_computed :
    Returns (load_point_turn (qemuBoard 0x100000000000000#_).xlen 0x80060000)
      (load_point_start (qemuBoard 0x100000000000000#_).xlen 0xFFFFFF80000000)
      (qemuBoard 0x100000000000000#_).kernel_load_to_point.toNat :=
  .of_leave (if_neg (by decide))

/-- The firmware's memory over whole runs.  For every kernel header, the load
point is a multiple of 2 MiB behind the heap; and on every hart that has
processed a start command the firmware's memory is closed to the kernel exactly
if the address that the header names fits into an address register, or what
fits of it lies behind the heap. -/
theorem firmware_closed_iff
    (qemu : config.MM_QEMU_VIRT = true)
    (heap : PROGAMIMAGE_START < mem_block_end)
    (inMemory : mem_block_end ≤ MEMORY_BASE + MEMORY_AVAILABLE)
    (computed : Returns (load_point_turn config.xlen mem_block_end)
      (load_point_start config.xlen text_offset)
      config.kernel_load_to_point.toNat)
    (booted : Booted config first)
    (run : Run (ProtectedStep config) first labels last)
    (entered : Entered labels h) :
    0x200000 ∣ config.kernel_load_to_point.toNat ∧
      mem_block_end ≤ config.kernel_load_to_point.toNat ∧
      (FirmwareClosed mem_block_end (pmpEntries (last.harts h).csrs) ↔
        HeaderAddressable config.xlen mem_block_end text_offset) := by
  have aligned := load_point_aligned computed
  obtain ⟨behind, cut⟩ := load_point_spec inMemory computed
  have installed := pmp_installed qemu booted run entered
  refine ⟨aligned, behind, ?_⟩
  rw [← cut]
  exact firmwareClosed_iff installed (Nat.dvd_trans (by decide) aligned) heap
    inMemory

/-- With a small text offset the firmware's memory is closed. -/
theorem firmware_closed_iff_lowBoard :
    ∃ last : System (qemuBoard 0x80200000#_).xlen,
      0x200000 ∣ (qemuBoard 0x80200000#_).kernel_load_to_point.toNat ∧
      0x80060000 ≤ (qemuBoard 0x80200000#_).kernel_load_to_point.toNat ∧
      (FirmwareClosed 0x80060000 (pmpEntries (last.harts 0).csrs) ↔
        HeaderAddressable (qemuBoard 0x80200000#_).xlen 0x80060000 0x200000) := by
  obtain ⟨labels, last, run, entered⟩ := lowBoard_entered
  exact ⟨last, firmware_closed_iff rfl (by decide) (by decide)
    lowBoard_computed (bootSystem_booted _) run entered⟩

/-- The firmware's memory is open if the header names the first address beyond
the address registers. -/
theorem not_firmware_closed :
    ¬∀ (config : Config) (first last : System config.xlen)
        (labels : List (Label config.xlen)) (h mem_block_end text_offset : Nat),
      config.MM_QEMU_VIRT = true →
      PROGAMIMAGE_START < mem_block_end →
      mem_block_end ≤ MEMORY_BASE + MEMORY_AVAILABLE →
      Returns (load_point_turn config.xlen mem_block_end)
        (load_point_start config.xlen text_offset)
        config.kernel_load_to_point.toNat →
      Booted config first →
      Run (ProtectedStep config) first labels last →
      Entered labels h →
      FirmwareClosed mem_block_end (pmpEntries (last.harts h).csrs) := by
  intro claimed
  obtain ⟨labels, last, run, entered⟩ := highBoard_entered
  have installed := pmp_installed rfl (bootSystem_booted _) run entered
  have closed := claimed (qemuBoard 0x100000000000000#_) _ last labels 0
    0x80060000 0xFFFFFF80000000 rfl (by decide) (by decide) highBoard_computed
    (bootSystem_booted _) run entered
  have short := (firmwareClosed_iff installed (by decide) (by decide)
    (by decide)).mp closed
  exact absurd short (by decide)

/-- Start addresses and the protection.  For every load point that `kmain` can
compute and every start address, the promise that `sbi_hart_start` makes by not
refusing the address is kept on every hart that has processed a start command
exactly if the address is refused or lies behind what the address register holds
of the load point. -/
theorem start_address_permitted_iff
    (qemu : config.MM_QEMU_VIRT = true)
    (computed : Returns (load_point_turn config.xlen mem_block_end)
      (load_point_start config.xlen text_offset)
      config.kernel_load_to_point.toNat)
    (booted : Booted config first)
    (run : Run (ProtectedStep config) first labels last)
    (entered : Entered labels h)
    (mhartid : Nat)
    (stack : Hart_Command config.xlen)
    {hartid : Word config.xlen}
    (valid : is_valid_hartid config.toPlatform hartid = true)
    (start_addr opaque_ : Word config.xlen) :
    (callEnd (sbi_hart_start config.toPlatform mhartid stack hartid start_addr
          opaque_) ≠ .returns ⟨SBI_ERR_INVALID_ADDRESS, 0⟩ →
        FetchPermitted (pmpEntries (last.harts h).csrs) start_addr.toNat) ↔
      (is_valid_phys_mem_addr start_addr 2 = false ∨
        config.kernel_load_to_point.toNat % 2 ^ physicalBits config.xlen ≤
          start_addr.toNat) := by
  have installed := pmp_installed qemu booted run entered
  have aligned := load_point_aligned computed
  rw [Ne, hart_start_refuses_iff mhartid stack valid]
  cases accepted : is_valid_phys_mem_addr start_addr 2 with
  | false => simp
  | true =>
      simp only [Bool.true_eq_false, not_false_eq_true, true_implies, false_or]
      exact fetchPermitted_iff installed (Nat.dvd_trans (by decide) aligned)
        accepted

/-- The start of the kernel can be fetched on the board whose header has a small
text offset. -/
theorem start_address_permitted_iff_lowBoard :
    ∃ last : System (qemuBoard 0x80200000#_).xlen,
      (callEnd (sbi_hart_start (qemuBoard 0x80200000#_).toPlatform 0 .cleared
            1#_ 0x80200000#_ 0#_) ≠ .returns ⟨SBI_ERR_INVALID_ADDRESS, 0⟩ →
          FetchPermitted (pmpEntries (last.harts 0).csrs)
            (0x80200000#(qemuBoard 0x80200000#_).xlen.bits).toNat) ↔
        (is_valid_phys_mem_addr
            (0x80200000#(qemuBoard 0x80200000#_).xlen.bits) 2 = false ∨
          (qemuBoard 0x80200000#_).kernel_load_to_point.toNat %
              2 ^ physicalBits (qemuBoard 0x80200000#_).xlen ≤
            (0x80200000#(qemuBoard 0x80200000#_).xlen.bits).toNat) := by
  obtain ⟨labels, last, run, entered⟩ := lowBoard_entered
  exact ⟨last, start_address_permitted_iff rfl lowBoard_computed
    (bootSystem_booted _) run entered 0 .cleared (by decide) 0x80200000#_ 0#_⟩

/-- A start in the firmware's own memory is not refused, and nothing can be
fetched there. -/
theorem not_start_address_permitted :
    ¬∀ (config : Config) (first last : System config.xlen)
        (labels : List (Label config.xlen)) (h mem_block_end text_offset : Nat)
        (mhartid : Nat) (stack : Hart_Command config.xlen)
        (hartid start_addr opaque_ : Word config.xlen),
      config.MM_QEMU_VIRT = true →
      Returns (load_point_turn config.xlen mem_block_end)
        (load_point_start config.xlen text_offset)
        config.kernel_load_to_point.toNat →
      Booted config first →
      Run (ProtectedStep config) first labels last →
      Entered labels h →
      is_valid_hartid config.toPlatform hartid = true →
      callEnd (sbi_hart_start config.toPlatform mhartid stack hartid start_addr
        opaque_) ≠ .returns ⟨SBI_ERR_INVALID_ADDRESS, 0⟩ →
      FetchPermitted (pmpEntries (last.harts h).csrs) start_addr.toNat := by
  intro claimed
  obtain ⟨labels, last, run, entered⟩ := lowBoard_entered
  have installed := pmp_installed rfl (bootSystem_booted _) run entered
  have accepted : is_valid_phys_mem_addr
      (0x80000000#(qemuBoard 0x80200000#_).xlen.bits) 2 = true := by
    decide
  have valid : is_valid_hartid (qemuBoard 0x80200000#_).toPlatform 1#_ =
      true := by
    decide
  have notRefused := (hart_start_refuses_iff 0 .cleared valid 0x80000000#_
    0#_).not.mpr (by rw [accepted]; nofun)
  have permitted := claimed (qemuBoard 0x80200000#_) _ last labels 0 0x80060000
    0x200000 0 .cleared 1#_ 0x80000000#_ 0#_ rfl lowBoard_computed
    (bootSystem_booted _) run entered valid notRefused
  exact absurd ((fetchPermitted_iff installed (by decide) accepted).mp permitted)
    (by decide)

end Runs

end Boot
end EchelonSbi
