import EchelonSbi.DataParse.CpioLookup
import EchelonSbi.DataParse.DeviceTreeProgress

/-!
# The scan of an archive goes on

Whatever memory holds, a turn of the lookup that goes on moves to the header
behind the sizes that it read, as far as these sizes fit in 32 bits and the
address in a register.
-/

namespace EchelonSbi
namespace DataParse

open Foundation

section Turns

/-! ## Turns at any header -/

variable (xlen : Xlen) (memory : Memory) (filename : Nat)

/-- The address of the header that a turn reads. -/
def Scan.header (scan : Scan) : Nat :=
  xlen.wrap (scan.ptr + scan.entry_datasize.toNat)

/-- The size of the name of the entry at an address. -/
def namesizeAt (address : Nat) : Nat :=
  (read_entry (.copied xlen memory address)).h_namesize.toNat

/-- The size of the file of the entry at an address. -/
def filesizeAt (address : Nat) : Nat :=
  (read_entry (.copied xlen memory address)).h_filesize.vl32.toNat

/-- What a turn skips behind the header at an address, as an integer. -/
def skippedAt (address : Nat) : Nat :=
  evenSize (namesizeAt xlen memory address) + evenSize (filesizeAt xlen memory address)

/-- The sizes at an address fit in 32 bits, and the next header has an address. -/
def SizesFit (address : Nat) : Prop :=
  skippedAt xlen memory address < 2 ^ 32 ∧
    address + header_size + skippedAt xlen memory address < xlen.size

/-- The comparison with the name that is looked for comes to an end. -/
def Compares (address : Nat) : Prop :=
  strcmp (fromPointer xlen memory (xlen.wrap (address + header_size)))
    (fromPointer xlen memory filename) ≠ none

/-- A turn goes on to another header. -/
def Continues (buffer : header_pwb_cpio) (scan next : Scan) : Prop :=
  Compares xlen memory filename (scan.header xlen) ∧
    get_cpio_entry_header_turn xlen memory filename buffer scan = .again next

variable {xlen memory filename} {buffer : header_pwb_cpio} {scan next : Scan}

/-- A size is rounded in 32 bits. -/
theorem toNat_rounded_wrap
    (size : BitVec 32) :
    (size + (size &&& 1)).toNat = evenSize size.toNat % 2 ^ 32 := by
  have odd : (size &&& 1).toNat = size.toNat % 2 := by
    rw [BitVec.toNat_and]
    exact Nat.and_one_is_mod _
  rw [BitVec.toNat_add, odd, evenSize]

/-- A turn that goes on moves to the header behind what it skips, with the sizes
added up in 32 bits. -/
theorem Continues.header
    (continues : Continues xlen memory filename buffer scan next) :
    next.header xlen =
      xlen.wrap (scan.header xlen + header_size +
        skippedAt xlen memory (scan.header xlen) % 2 ^ 32) := by
  obtain ⟨compares, turn⟩ := continues
  obtain ⟨other, differs⟩ := Option.ne_none_iff_exists'.mp compares
  obtain ⟨last, ends⟩ := strcmp_literal
    (fromPointer xlen memory (xlen.wrap (scan.header xlen + header_size)))
    (show 0 ∉ TRAILER by decide) (by decide)
  have address : xlen.wrap (scan.ptr + scan.entry_datasize.toNat) = scan.header xlen :=
    rfl
  unfold get_cpio_entry_header_turn at turn
  simp only [address, differs, ends] at turn
  have state : next =
      ⟨xlen.wrap (scan.header xlen + header_size),
        ((read_entry (.copied xlen memory (scan.header xlen))).h_namesize.setWidth 32 +
          ((read_entry (.copied xlen memory (scan.header xlen))).h_namesize.setWidth 32 &&&
            1)) +
        ((read_entry (.copied xlen memory (scan.header xlen))).h_filesize.vl32 +
          ((read_entry (.copied xlen memory (scan.header xlen))).h_filesize.vl32 &&&
            1))⟩ := by
    split at turn
    · cases turn
    · split at turn
      · rename_i never
        cases never
      · cases turn
      · split at turn
        · rename_i never
          cases never
        · cases turn
        · exact (Turn.again.inj turn).symm
  have namesize :
      ((read_entry (.copied xlen memory (scan.header xlen))).h_namesize.setWidth 32).toNat =
        namesizeAt xlen memory (scan.header xlen) := by
    rw [BitVec.toNat_setWidth, namesizeAt]
    exact Nat.mod_eq_of_lt (by omega)
  rw [state]
  change xlen.wrap (xlen.wrap (scan.header xlen + header_size) + BitVec.toNat (_ + _)) = _
  rw [wrap_add_wrap, BitVec.toNat_add, toNat_rounded_wrap, toNat_rounded_wrap, namesize,
    ← Nat.add_mod]
  rfl

/-- A turn that goes on moves to the header behind its entry if and only if the
sizes fit. -/
theorem Continues.header_iff
    (continues : Continues xlen memory filename buffer scan next) :
    next.header xlen =
        scan.header xlen + header_size + skippedAt xlen memory (scan.header xlen) ↔
      SizesFit xlen memory (scan.header xlen) := by
  have reached := continues.header
  constructor
  · intro exact_
    have inside : next.header xlen < xlen.size := xlen.wrap_lt _
    have low : skippedAt xlen memory (scan.header xlen) % 2 ^ 32 ≤
        skippedAt xlen memory (scan.header xlen) := Nat.mod_le _ _
    rw [Xlen.wrap_of_lt (by omega)] at reached
    exact ⟨by omega, by omega⟩
  · rintro ⟨small, inside⟩
    rw [reached, Nat.mod_eq_of_lt small, Xlen.wrap_of_lt inside]

end Turns

section Progress

/-! ## Progress and the end -/

variable (xlen : Xlen) (memory : Memory) (filename : Nat) (buffer : header_pwb_cpio)

/-- A number of turns that go on lead from the start of an archive to a state. -/
inductive Comes (cpio_archive : Word xlen) : Nat → Scan → Prop
  | start : Comes cpio_archive 0 ⟨cpio_archive.toNat, 0⟩
  | turn {count : Nat} {scan next : Scan} :
      Comes cpio_archive count scan →
      Continues xlen memory filename buffer scan next →
      Comes cpio_archive (count + 1) next

/-- The lookup goes forward from header to header. -/
structure GoesForward (cpio_archive : Word xlen) : Prop where
  forward :
    ∀ count scan next, Comes xlen memory filename buffer cpio_archive count scan →
      Continues xlen memory filename buffer scan next →
      scan.header xlen < next.header xlen ∧
        next.header xlen =
          scan.header xlen + header_size + skippedAt xlen memory (scan.header xlen)
  /-- Turn `count + 1` reads a header in an archive of `size` bytes. -/
  bounded :
    ∀ count scan size, Comes xlen memory filename buffer cpio_archive count scan →
      scan.header xlen + header_size ≤ cpio_archive.toNat + size →
      count + 1 ≤ size / header_size
  ends :
    (∀ count scan, Comes xlen memory filename buffer cpio_archive count scan →
      Compares xlen memory filename (scan.header xlen)) →
    ∃ result,
      get_cpio_entry_header xlen memory filename cpio_archive.toNat buffer result

variable {xlen memory filename buffer} {cpio_archive : Word xlen}

/-- Every turn goes past a header. -/
theorem Comes.header_ge
    (forward :
      ∀ count scan next, Comes xlen memory filename buffer cpio_archive count scan →
        Continues xlen memory filename buffer scan next →
        next.header xlen =
          scan.header xlen + header_size + skippedAt xlen memory (scan.header xlen))
    {count : Nat}
    {scan : Scan}
    (comes : Comes xlen memory filename buffer cpio_archive count scan) :
    cpio_archive.toNat + header_size * count ≤ scan.header xlen := by
  induction comes with
  | start =>
      have inside : cpio_archive.toNat < xlen.size := cpio_archive.isLt
      show cpio_archive.toNat + header_size * 0 ≤ xlen.wrap (cpio_archive.toNat + 0)
      rw [Nat.mul_zero, Nat.add_zero, Xlen.wrap_of_lt inside]
  | turn comes continues inductionHypothesis =>
      rw [forward _ _ _ comes continues, Nat.mul_succ]
      omega

/-- The lookup goes forward if and only if the sizes of the headers that it goes on
from fit. -/
theorem get_cpio_entry_header_goes_forward_iff
    (xlen : Xlen)
    (memory : Memory)
    (filename : Nat)
    (buffer : header_pwb_cpio)
    (cpio_archive : Word xlen) :
    GoesForward xlen memory filename buffer cpio_archive ↔
      ∀ count scan next, Comes xlen memory filename buffer cpio_archive count scan →
        Continues xlen memory filename buffer scan next →
        SizesFit xlen memory (scan.header xlen) := by
  constructor
  · intro goes count scan next comes continues
    exact continues.header_iff.mp (goes.forward count scan next comes continues).2
  · intro fits
    have moves (count : Nat) (scan next : Scan)
        (comes : Comes xlen memory filename buffer cpio_archive count scan)
        (continues : Continues xlen memory filename buffer scan next) :
        next.header xlen =
          scan.header xlen + header_size + skippedAt xlen memory (scan.header xlen) :=
      continues.header_iff.mpr (fits count scan next comes continues)
    have some : 0 < header_size := by
      decide
    constructor
    · intro count scan next comes continues
      have reached := moves count scan next comes continues
      exact ⟨by omega, reached⟩
    · intro count scan size comes inside
      have passed := comes.header_ge moves
      rw [Nat.le_div_iff_mul_le some, Nat.mul_comm, Nat.mul_succ]
      omega
    · intro compares
      have counted (scan : Scan)
          (reached : Reaches (get_cpio_entry_header_turn xlen memory filename buffer)
            ⟨cpio_archive.toNat, 0⟩ scan) :
          ∃ count, Comes xlen memory filename buffer cpio_archive count scan := by
        apply reached.keeps
          (fun scan => ∃ count, Comes xlen memory filename buffer cpio_archive count scan)
        · rintro scan next ⟨count, comes⟩ turn
          exact ⟨count + 1, .turn comes ⟨compares count scan comes, turn⟩⟩
        · exact ⟨0, .start⟩
      refine Returns.of_decreasing (fun scan => xlen.size - scan.header xlen) _ ?_
      intro scan next reached turn
      obtain ⟨count, comes⟩ := counted scan reached
      have ahead := moves count scan next comes ⟨compares count scan comes, turn⟩
      have inside : next.header xlen < xlen.size := xlen.wrap_lt _
      omega

/-- An entry with the name `a` and a file of 2^32 - 28 bytes. -/
def wrappingEntry : List Byte :=
  [0xC7, 0x71] ++ List.replicate 18 0 ++ [0x02, 0x00, 0xFF, 0xFF, 0xE4, 0xFF, 0x61, 0x00]

/-- The entry in memory. -/
def wrappingMemory : Memory :=
  .stored 0x80000000 wrappingEntry

/-- The lookup of the empty name behind the entry comes back to the entry. -/
theorem get_cpio_entry_header_stays :
    Spells (fromPointer .rv32 wrappingMemory 0x1000) [] ∧
      ∀ buffer, ¬∃ result,
        get_cpio_entry_header .rv32 wrappingMemory 0x1000 0x80000000 buffer result := by
  have empty : Spells (fromPointer .rv32 wrappingMemory 0x1000) [] :=
    Spells.nil_iff.mpr (by decide)
  have name : Spells (fromPointer .rv32 wrappingMemory 0x8000001A) [0x61] := by
    refine fromPointer_spells ?_ (by decide) (by decide)
    decide
  have trailer : Spells (literal TRAILER) TRAILER := literal_spells (by decide)
  have turn (buffer : header_pwb_cpio) (scan : Scan)
      (here : scan.header .rv32 = 0x80000000) :
      get_cpio_entry_header_turn .rv32 wrappingMemory 0x1000 buffer scan =
        .again ⟨0x8000001A, 0xFFFFFFE6⟩ := by
    have address : Xlen.rv32.wrap (scan.ptr + scan.entry_datasize.toNat) = 0x80000000 :=
      here
    have next : Xlen.rv32.wrap (0x80000000 + header_size) = 0x8000001A := by
      decide
    have magic : (header_pwb_cpio.copied .rv32 wrappingMemory 0x80000000).h_magic =
        0x71C7 := by
      decide
    have namesize :
        (read_entry (.copied .rv32 wrappingMemory 0x80000000)).h_namesize = 2 := by
      decide
    have filesize :
        (read_entry (.copied .rv32 wrappingMemory 0x80000000)).h_filesize.vl32 =
          0xFFFFFFE4 := by
      decide
    unfold get_cpio_entry_header_turn
    simp only [address, magic, next, namesize, filesize,
      strcmp_eq name empty (by decide), strcmp_eq name trailer (by decide)]
    rfl
  refine ⟨empty, ?_⟩
  rintro buffer ⟨result, returns⟩
  obtain ⟨last, reached, leaves⟩ := returns.exists_reaches
  have here : last.header .rv32 = 0x80000000 := by
    apply reached.keeps (fun scan => scan.header .rv32 = 0x80000000)
    · intro scan next here turns
      rw [turn buffer scan here] at turns
      cases turns
      decide
    · decide
  rw [turn buffer last here] at leaves
  cases leaves

end Progress

end DataParse
end EchelonSbi
