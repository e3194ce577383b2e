import EchelonSbi.Riscv.Translation
import EchelonSbi.Word
import Mathlib.Data.BitVec

/-!
# The page-table walk of the firmware

`walk_pts` finds the physical address of an instruction of the kernel.  It keeps
`satp`, the entries and the address it builds in one signed register, and cuts
them to size with pairs of shifts.  It makes no checks, so it is compared with
the translation of the architecture where that gives an address.
-/

namespace EchelonSbi
namespace Traps

open Riscv

/-- The numbers in which the bodies of `walk_pts` differ. -/
structure WalkNumbers where
  /-- `satp` shifted by this is `mode` when translation is on. -/
  modeShift : Nat
  mode : Nat
  /-- The shifts that make an entry the address of a table. -/
  tableLeft : Nat
  tableRight : Nat
  /-- The mask of an index into a table, an `int`. -/
  mask : BitVec 32
  entryBytes : Nat
  /-- The shifts that make an entry a page number. -/
  pageLeft : Nat
  pageRight : Nat
  first : Nat
  step : Nat
  step_pos : 0 < step

/-- The numbers of the two builds.  The one for 32 bits does not shift to the
left before it takes the page number. -/
def walkNumbers : Xlen → WalkNumbers
  | .rv64 =>
      { modeShift := 60
        mode := 8
        tableLeft := 10
        tableRight := 8
        mask := 0x1FF
        entryBytes := 8
        pageLeft := 10
        pageRight := 20
        first := 9 + 9 + 12
        step := 9
        step_pos := by decide }
  | .rv32 =>
      { modeShift := 31
        mode := 1
        tableLeft := 2
        tableRight := 0
        mask := 0x3FF
        entryBytes := 4
        pageLeft := 0
        pageRight := 10
        first := 10 + 12
        step := 10
        step_pos := by decide }

namespace WalkNumbers

variable (numbers : WalkNumbers)

/-- The table that an entry names (`page_ptr`). -/
def page_ptr (page_walk : BitVec w) : BitVec w :=
  (page_walk <<< numbers.tableLeft).sshiftRight numbers.tableRight &&&
    ~~~BitVec.ofNat w 0xFFF

/-- The address of `page_ptr[(location >> shift_ammount) & mask]`. -/
def entry_ptr (location page_walk : BitVec w) (shift_ammount : Nat) : BitVec w :=
  numbers.page_ptr page_walk +
    BitVec.ofNat w numbers.entryBytes *
      (location >>> shift_ammount &&& numbers.mask.signExtend w)

/-- The loop over the tables, from the value it starts with. -/
def walk_tables
    (memory : Nat → BitVec w)
    (location page_walk : BitVec w)
    (shift_ammount : Nat) :
    BitVec w × Nat :=
  let entry := memory (numbers.entry_ptr location page_walk shift_ammount).toNat
  if entry &&& 0xF = 1 ∧ 12 ≤ shift_ammount - numbers.step then
    walk_tables memory location entry (shift_ammount - numbers.step)
  else (entry, shift_ammount - numbers.step)
termination_by shift_ammount
decreasing_by
  have := numbers.step_pos
  omega

/-- The loop that gives a superpage the lower page numbers of the address. -/
def append_offsets
    (location page_walk : BitVec w)
    (shift_ammount : Nat) :
    BitVec w :=
  if 12 ≤ shift_ammount then
    append_offsets location
      (page_walk ||| location &&& (numbers.mask <<< shift_ammount).signExtend w)
      (shift_ammount - numbers.step)
  else page_walk
termination_by shift_ammount
decreasing_by
  have := numbers.step_pos
  omega

/-- The page that a leaf names, with its lower 12 bits clear. -/
def page_of (page_walk : BitVec w) : BitVec w :=
  (page_walk <<< numbers.pageLeft).sshiftRight numbers.pageRight <<< 12

/-- The code behind the loop over the tables. -/
def page_address (location : BitVec w) (walked : BitVec w × Nat) : BitVec w :=
  numbers.append_offsets location (numbers.page_of walked.1) walked.2 |||
    location &&& 0xFFF

end WalkNumbers

/-- The physical address of `location`; `memory` gives the word at an address. -/
def walk_pts
    (xlen : Xlen)
    (memory : Nat → Word xlen)
    (location csr_satp : Word xlen) :
    Word xlen :=
  let numbers := walkNumbers xlen
  if (csr_satp >>> numbers.modeShift).toNat = numbers.mode then
    numbers.page_address location
      (numbers.walk_tables memory location (csr_satp <<< 10) numbers.first)
  else location

/-! ## Against the architecture -/

/-- The scheme that each build supports. -/
def scheme : Xlen → PagedScheme
  | .rv32 => .Sv32
  | .rv64 => .Sv39

/-- Physical memory ends at `2^32` for 32 bits and at `2^55` for 64. -/
def physicalMemory (xlen : Xlen) (memory : Nat → Word xlen) : PhysicalMemory where
  size :=
    match xlen with
    | .rv32 => 2 ^ 32
    | .rv64 => 2 ^ 55
  entryAt address := (memory address).toNat

section Words

variable (word : BitVec w)

/-- Clearing the lower 12 bits. -/
theorem toNat_and_not_mask :
    (word &&& ~~~BitVec.ofNat w 0xFFF).toNat = word.toNat / 2 ^ 12 * 2 ^ 12 := by
  have cleared : word &&& ~~~BitVec.ofNat w 0xFFF = word >>> 12 <<< 12 := by
    ext bit inside
    have ones : (BitVec.ofNat w 0xFFF)[bit] = decide (bit < 12) := by
      rw [BitVec.getElem_eq_testBit_toNat, BitVec.toNat_ofNat, Nat.testBit_mod_two_pow,
        decide_eq_true inside, Bool.true_and]
      exact Nat.testBit_two_pow_sub_one 12 bit
    have below : word.getLsbD (12 + (bit - 12)) = word[bit] ∨ bit < 12 := by
      by_cases low : bit < 12
      · exact .inr low
      · left
        rw [Nat.add_sub_cancel' (by omega), BitVec.getLsbD_eq_getElem inside]
    by_cases low : bit < 12
    · simp [ones, low]
    · simp [ones, low, below.resolve_right low]
  have fits : word.toNat / 2 ^ 12 * 2 ^ 12 ≤ word.toNat := Nat.div_mul_le_self ..
  rw [cleared, BitVec.toNat_shiftLeft, BitVec.toNat_ushiftRight,
    Nat.shiftRight_eq_div_pow, Nat.shiftLeft_eq,
    Nat.mod_eq_of_lt (lt_of_le_of_lt fits word.isLt)]

end Words

section Fits

/-- A shift to the left and one back, where they leave a sign bit of 0. -/
theorem toNat_shift_pair
    (word : BitVec w)
    (left right : Nat)
    (positive : 2 * (word.toNat * 2 ^ left % 2 ^ w) < 2 ^ w) :
    ((word <<< left).sshiftRight right).toNat =
      word.toNat * 2 ^ left % 2 ^ w / 2 ^ right := by
  have shifted : (word <<< left).toNat = word.toNat * 2 ^ left % 2 ^ w := by
    rw [BitVec.toNat_shiftLeft, Nat.shiftLeft_eq]
  have sign : (word <<< left).msb = false := by
    rw [BitVec.msb_eq_false_iff_two_mul_lt, shifted]
    exact positive
  rw [BitVec.sshiftRight_eq_of_msb_false sign, BitVec.toNat_ushiftRight, shifted,
    Nat.shiftRight_eq_div_pow]

theorem toNat_page_ptr_rv32
    (word : BitVec 32)
    (fits : PagedScheme.Sv32.ppn word.toNat * 2 ^ 12 < 2 ^ 32) :
    ((walkNumbers .rv32).page_ptr word).toNat =
      PagedScheme.Sv32.ppn word.toNat * 2 ^ 12 := by
  simp only [PagedScheme.ppn, PagedScheme.Sv32] at fits ⊢
  rw [WalkNumbers.page_ptr, toNat_and_not_mask]
  simp only [walkNumbers, BitVec.sshiftRight_zero, BitVec.toNat_shiftLeft,
    Nat.shiftLeft_eq]
  omega

theorem toNat_page_ptr_rv64
    (word : BitVec 64)
    (fits : PagedScheme.Sv39.ppn word.toNat * 2 ^ 12 < 2 ^ 55) :
    ((walkNumbers .rv64).page_ptr word).toNat =
      PagedScheme.Sv39.ppn word.toNat * 2 ^ 12 := by
  simp only [PagedScheme.ppn, PagedScheme.Sv39] at fits ⊢
  rw [WalkNumbers.page_ptr, toNat_and_not_mask]
  simp only [walkNumbers]
  rw [toNat_shift_pair word 10 8 (by omega)]
  omega

theorem toNat_page_of_rv32
    (word : BitVec 32)
    (fits : PagedScheme.Sv32.ppn word.toNat * 2 ^ 12 < 2 ^ 32) :
    ((walkNumbers .rv32).page_of word).toNat =
      PagedScheme.Sv32.ppn word.toNat * 2 ^ 12 := by
  simp only [PagedScheme.ppn, PagedScheme.Sv32] at fits ⊢
  simp only [WalkNumbers.page_of, walkNumbers, BitVec.toNat_shiftLeft,
    Nat.shiftLeft_eq]
  rw [toNat_shift_pair word 0 10 (by omega)]
  omega

theorem toNat_page_of_rv64
    (word : BitVec 64)
    (fits : PagedScheme.Sv39.ppn word.toNat * 2 ^ 12 < 2 ^ 55) :
    ((walkNumbers .rv64).page_of word).toNat =
      PagedScheme.Sv39.ppn word.toNat * 2 ^ 12 := by
  simp only [PagedScheme.ppn, PagedScheme.Sv39] at fits ⊢
  simp only [WalkNumbers.page_of, walkNumbers, BitVec.toNat_shiftLeft,
    Nat.shiftLeft_eq]
  rw [toNat_shift_pair word 10 20 (by omega)]
  omega

variable {xlen : Xlen}

/-- The table and the page that an entry names, for a page that memory has. -/
theorem toNat_page
    (memory : Nat → Word xlen)
    (word : Word xlen)
    (fits :
      (scheme xlen).ppn word.toNat * 2 ^ 12 < (physicalMemory xlen memory).size) :
    ((walkNumbers xlen).page_ptr word).toNat =
        (scheme xlen).ppn word.toNat * 2 ^ 12 ∧
      ((walkNumbers xlen).page_of word).toNat =
        (scheme xlen).ppn word.toNat * 2 ^ 12 := by
  cases xlen with
  | rv32 => exact ⟨toNat_page_ptr_rv32 word fits, toNat_page_of_rv32 word fits⟩
  | rv64 => exact ⟨toNat_page_ptr_rv64 word fits, toNat_page_of_rv64 word fits⟩

end Fits

section Steps

variable {xlen : Xlen}

/-- One level is one step of the shift. -/
theorem step_eq_vpnBits (xlen : Xlen) :
    (walkNumbers xlen).step = (scheme xlen).vpnBits := by
  cases xlen <;> rfl

/-- The mask of an index is an `int` with the bits of one page number. -/
theorem toNat_mask (xlen : Xlen) :
    (walkNumbers xlen).mask.toNat = 2 ^ (scheme xlen).vpnBits - 1 := by
  cases xlen <;> rfl

/-- The shifted mask stays an `int` that is not negative. -/
theorem getLsbD_shifted_mask
    (shift bit : Nat)
    (small : shift + (scheme xlen).vpnBits < 32) :
    (((walkNumbers xlen).mask <<< shift).signExtend xlen.bits).getLsbD bit =
      decide
        (bit < xlen.bits ∧ shift ≤ bit ∧ bit < shift + (scheme xlen).vpnBits) := by
  have shifted (place : Nat) :
      ((walkNumbers xlen).mask <<< shift).getLsbD place =
        decide (shift ≤ place ∧ place < shift + (scheme xlen).vpnBits) := by
    rw [BitVec.getLsbD_shiftLeft, BitVec.getLsbD, toNat_mask,
      Nat.testBit_two_pow_sub_one, Bool.eq_iff_iff]
    simp only [Bool.and_eq_true, Bool.not_eq_true', decide_eq_true_eq,
      decide_eq_false_iff_not]
    omega
  have sign : ((walkNumbers xlen).mask <<< shift).msb = false := by
    rw [BitVec.msb_eq_getLsbD_last, shifted, decide_eq_false_iff_not]
    omega
  rw [BitVec.getLsbD_signExtend, sign, shifted, Bool.eq_iff_iff]
  split_ifs
  · simp
  · simp
    omega

/-- The index of an entry is the page number of its level. -/
theorem toNat_index
    (location : Word xlen)
    (level : Nat) :
    (location >>> (scheme xlen).offsetBits level &&&
        (walkNumbers xlen).mask.signExtend xlen.bits).toNat =
      (scheme xlen).vpn location.toNat level := by
  have mask :
      ((walkNumbers xlen).mask.signExtend xlen.bits).toNat =
        2 ^ (scheme xlen).vpnBits - 1 := by
    cases xlen <;> rfl
  rw [BitVec.toNat_and, BitVec.toNat_ushiftRight, mask,
    Nat.and_two_pow_sub_one_eq_mod, Nat.shiftRight_eq_div_pow, PagedScheme.vpn]

/-- The address of an entry in memory. -/
theorem toNat_entry_ptr
    (memory : Nat → Word xlen)
    (location word : Word xlen)
    (level : Nat)
    (inside :
      (scheme xlen).entryAddress location.toNat level
          ((scheme xlen).ppn word.toNat * 2 ^ 12) <
        (physicalMemory xlen memory).size) :
    ((walkNumbers xlen).entry_ptr location word
        ((scheme xlen).offsetBits level)).toNat =
      (scheme xlen).entryAddress location.toNat level
        ((scheme xlen).ppn word.toNat * 2 ^ 12) := by
  have fits : (physicalMemory xlen memory).size ≤ 2 ^ xlen.bits := by
    cases xlen <;> simp [physicalMemory, Xlen.bits, Xlen.bytes]
  have entryBytes :
      (BitVec.ofNat xlen.bits (walkNumbers xlen).entryBytes).toNat =
        (scheme xlen).entryBytes := by
    cases xlen <;> rfl
  have table :=
    (toNat_page memory word
      (lt_of_le_of_lt (Nat.le_add_right _ _) inside)).1
  rw [WalkNumbers.entry_ptr, BitVec.toNat_add, BitVec.toNat_mul, entryBytes,
    toNat_index, table, Nat.add_mod_mod, Nat.mul_comm (scheme xlen).entryBytes]
  exact Nat.mod_eq_of_lt (lt_of_lt_of_le inside fits)

/-- The loop behind a leaf gives the page the page numbers below its level. -/
theorem getLsbD_append_offsets
    (location page : Word xlen)
    (level bit : Nat)
    (small : (scheme xlen).offsetBits level < 32) :
    ((walkNumbers xlen).append_offsets location page
        ((scheme xlen).offsetBits level - (scheme xlen).vpnBits)).getLsbD bit =
      (page.getLsbD bit ||
        location.getLsbD bit &&
          decide (12 ≤ bit ∧ bit < (scheme xlen).offsetBits level)) := by
  induction level generalizing page with
  | zero =>
      have done :
          ¬12 ≤ (scheme xlen).offsetBits 0 - (scheme xlen).vpnBits := by
        cases xlen <;> decide
      rw [WalkNumbers.append_offsets, if_neg done]
      simp [PagedScheme.offsetBits]
  | succ level inductionHypothesis =>
      have lower :
          (scheme xlen).offsetBits (level + 1) - (scheme xlen).vpnBits =
            (scheme xlen).offsetBits level := by
        simp only [PagedScheme.offsetBits, Nat.mul_succ]
        omega
      have above : 12 ≤ (scheme xlen).offsetBits level := Nat.le_add_right _ _
      have width :
          (scheme xlen).offsetBits level + (scheme xlen).vpnBits =
            (scheme xlen).offsetBits (level + 1) := by
        simp only [PagedScheme.offsetBits, Nat.mul_succ]
        omega
      rw [lower, WalkNumbers.append_offsets, if_pos above, step_eq_vpnBits,
        inductionHypothesis _ (by omega), BitVec.getLsbD_or, BitVec.getLsbD_and,
        getLsbD_shifted_mask _ _ (by omega), width, Bool.or_assoc,
        ← Bool.and_or_distrib_left]
      by_cases present : bit < xlen.bits
      · congr 2
        rw [Bool.eq_iff_iff]
        simp only [Bool.or_eq_true, decide_eq_true_eq]
        omega
      · rw [BitVec.getLsbD_of_ge location bit (by omega)]
        simp

/-- The code behind the loop adds the page that a leaf names and the offset of
the address. -/
theorem toNat_page_address
    (location entry : Word xlen)
    (level : Nat)
    (small : (scheme xlen).offsetBits level < 32)
    (aligned :
      2 ^ (scheme xlen).offsetBits level ∣
        ((walkNumbers xlen).page_of entry).toNat) :
    ((walkNumbers xlen).page_address location
        (entry, (scheme xlen).offsetBits level - (scheme xlen).vpnBits)).toNat =
      ((walkNumbers xlen).page_of entry).toNat +
        location.toNat % 2 ^ (scheme xlen).offsetBits level := by
  obtain ⟨page, whole⟩ := aligned
  have above : 12 ≤ (scheme xlen).offsetBits level := Nat.le_add_right _ _
  have offset :
      location.toNat % 2 ^ (scheme xlen).offsetBits level <
        2 ^ (scheme xlen).offsetBits level :=
    Nat.mod_lt _ (Nat.two_pow_pos _)
  have ones (bit : Nat) :
      (0xFFF : Word xlen).toNat.testBit bit = decide (bit < 12) := by
    cases xlen <;> exact Nat.testBit_two_pow_sub_one 12 bit
  rw [whole, Nat.two_pow_add_eq_or_of_lt offset, ← whole]
  apply Nat.eq_of_testBit_eq
  intro bit
  rw [WalkNumbers.page_address, BitVec.toNat_or, Nat.testBit_or,
    BitVec.testBit_toNat, getLsbD_append_offsets location _ level bit small,
    BitVec.toNat_and, Nat.testBit_and, ones, Nat.testBit_or,
    Nat.testBit_mod_two_pow, BitVec.testBit_toNat, BitVec.testBit_toNat,
    Bool.or_assoc, ← Bool.and_or_distrib_left, Bool.and_comm (decide _)]
  congr 2
  rw [Bool.eq_iff_iff]
  simp only [Bool.or_eq_true, decide_eq_true_eq]
  omega

end Steps

/-! ## The walk -/

section Walk

variable {xlen : Xlen} {refuses : Nat → Nat → Bool} {memory : Nat → Word xlen}
variable {location : Word xlen} {physical : Nat}

/-- The test of the loop is the one for a pointer. -/
theorem and_eq_one_iff
    (entry : Word xlen) :
    entry &&& 0xF = 1 ↔ entry.toNat % 16 = 1 := by
  have mask : (0xF : Word xlen).toNat = 2 ^ 4 - 1 := by
    cases xlen <;> rfl
  have one : (1 : Word xlen).toNat = 1 := by
    cases xlen <;> rfl
  rw [← BitVec.toNat_inj, BitVec.toNat_and, mask, one,
    Nat.and_two_pow_sub_one_eq_mod]

/-- The loop reads the entry that the architecture reads. -/
theorem memory_entry_ptr
    {word : Word xlen}
    {level : Nat}
    (inside :
      (scheme xlen).entryAddress location.toNat level
          ((scheme xlen).ppn word.toNat * 2 ^ 12) <
        (physicalMemory xlen memory).size) :
    (memory ((walkNumbers xlen).entry_ptr location word
        ((scheme xlen).offsetBits level)).toNat).toNat =
      (physicalMemory xlen memory).entryAt
        ((scheme xlen).entryAddress location.toNat level
          ((scheme xlen).ppn word.toNat * 2 ^ 12)) := by
  rw [toNat_entry_ptr memory location word level inside]
  rfl

/-- The code makes the address of a leaf from its entry. -/
theorem page_address_of_leaf
    {level : Nat}
    (upper : level ≤ (scheme xlen).top)
    {entry : Word xlen}
    (visited :
      (scheme xlen).visit refuses location.toNat level entry.toNat =
        .leaf physical)
    (within : physical < (physicalMemory xlen memory).size) :
    ((walkNumbers xlen).page_address location
        (entry, (scheme xlen).offsetBits level - (scheme xlen).vpnBits)).toNat =
      physical := by
  obtain ⟨-, aligned, rfl⟩ := PagedScheme.visit_eq_leaf visited
  have page :=
    (toNat_page memory entry (lt_of_le_of_lt (Nat.le_add_right _ _) within)).2
  have small : (scheme xlen).offsetBits level < 32 := by
    cases xlen <;>
      simp only [scheme, PagedScheme.offsetBits, PagedScheme.Sv32,
        PagedScheme.Sv39] at upper ⊢ <;>
      omega
  have multiple :
      2 ^ (scheme xlen).offsetBits level ∣
        ((walkNumbers xlen).page_of entry).toNat := by
    rw [page, PagedScheme.offsetBits, Nat.add_comm 12, Nat.pow_add]
    exact Nat.mul_dvd_mul_right (Nat.dvd_of_mod_eq_zero aligned) _
  rw [toNat_page_address location entry level small multiple, page]

/-- From the table of a level on, the code does what the architecture does. -/
theorem page_address_walk_tables
    {level : Nat}
    (upper : level ≤ (scheme xlen).top)
    {word : Word xlen}
    (walked :
      (scheme xlen).walk refuses (physicalMemory xlen memory) location.toNat level
          ((scheme xlen).ppn word.toNat * 2 ^ 12) = some physical) :
    ((walkNumbers xlen).page_address location
        ((walkNumbers xlen).walk_tables memory location word
          ((scheme xlen).offsetBits level))).toNat = physical := by
  induction level using Nat.strong_induction_on generalizing word with
  | _ level inductionHypothesis =>
      obtain ⟨inside, found⟩ := PagedScheme.walk_cases walked
      have read := memory_entry_ptr inside
      rw [← read] at found
      rw [WalkNumbers.walk_tables, step_eq_vpnBits]
      rcases found with ⟨leaf, within⟩ | ⟨lower, next, rfl, pointer, rest⟩
      · have last := (PagedScheme.visit_eq_leaf leaf).1
        rw [if_neg fun more => last ((and_eq_one_iff _).mp more.1)]
        exact page_address_of_leaf upper leaf within
      · obtain ⟨more, rfl⟩ := PagedScheme.visit_eq_table pointer
        have below :
            (scheme xlen).offsetBits (lower + 1) - (scheme xlen).vpnBits =
              (scheme xlen).offsetBits lower := by
          simp only [PagedScheme.offsetBits, Nat.mul_succ]
          omega
        have above : 12 ≤ (scheme xlen).offsetBits lower := Nat.le_add_right _ _
        rw [below, if_pos ⟨(and_eq_one_iff _).mpr more, above⟩]
        exact inductionHypothesis lower (Nat.lt_succ_self lower) (by omega) rest

/-- `satp` shifted to the place of an entry names the root table. -/
theorem ppn_satp
    (csr_satp : Word xlen) :
    (scheme xlen).ppn (csr_satp <<< 10).toNat =
      csr_satp.toNat % 2 ^ (scheme xlen).ppnBits := by
  cases xlen <;>
    rw [PagedScheme.ppn, BitVec.toNat_shiftLeft, Nat.shiftLeft_eq] <;>
    simp only [scheme, PagedScheme.Sv32, PagedScheme.Sv39, Xlen.bits, Xlen.bytes] <;>
    omega

/-- Whenever the architecture translates the address of an instruction, whatever
else may raise a fault, `walk_pts` gives the same physical address; without
translation it gives the address itself. -/
theorem walk_pts_eq_translate
    (xlen : Xlen)
    (refuses : Nat → Nat → Bool)
    (memory : Nat → Word xlen)
    (location csr_satp : Word xlen)
    (physical : Nat)
    (translated :
      (scheme xlen).translate refuses (physicalMemory xlen memory) csr_satp.toNat
        location.toNat = some physical) :
    (walk_pts xlen memory location csr_satp).toNat = physical := by
  have active :
      (csr_satp >>> (walkNumbers xlen).modeShift).toNat = (walkNumbers xlen).mode ↔
        csr_satp.toNat / 2 ^ (scheme xlen).modeShift = (scheme xlen).mode := by
    rw [BitVec.toNat_ushiftRight, Nat.shiftRight_eq_div_pow]
    cases xlen <;> rfl
  have modes : (scheme xlen).mode ≠ 0 := by
    cases xlen <;> decide
  have first :
      (walkNumbers xlen).first = (scheme xlen).offsetBits (scheme xlen).top := by
    cases xlen <;> rfl
  unfold walk_pts
  rcases PagedScheme.translate_cases translated with ⟨bare, rfl⟩ | ⟨on, walked⟩
  · rw [if_neg fun mode => modes (active.mp mode ▸ bare)]
  · rw [if_pos (active.mpr on), first]
    rw [← ppn_satp csr_satp] at walked
    exact page_address_walk_tables (Nat.le_refl _) walked

end Walk

/-- A large page behind one pointer, at an address in the upper half. -/
theorem walk_pts_eq_translate_large_page :
    (walk_pts .rv64
      (fun address =>
        if address = 0x80001800 then 0x20000801
        else if address = 0x80002008 then 0x200800CF
        else 0)
      0xFFFFFFC000201234 0x8000500000080001).toNat = 0x80201234 :=
  walk_pts_eq_translate .rv64 (fun _ _ => false) _ _ _ _ (by decide)

end Traps
end EchelonSbi
