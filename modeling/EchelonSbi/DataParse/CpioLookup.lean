import EchelonSbi.DataParse.Cpio
import Mathlib.Algebra.Order.BigOperators.Group.List
import Mathlib.Data.List.TakeWhile
import Mathlib.Tactic.IntervalCases

/-!
# The lookup finds the first file with the name

The scan stays on the entries of the archive as long as the size of what it
skips is a 32-bit number.
-/

namespace EchelonSbi
namespace DataParse

open Foundation

section Header

/-! ## Headers in host order -/

/-- A number of the archive as a little-endian host reads it. -/
def ByteOrder.read (order : ByteOrder) (value : BitVec 16) : BitVec 16 :=
  match order with
  | .little => value
  | .big => cpio_parse_swap_endianess_16 value

theorem cpio_parse_swap_endianess_16_twice
    (val : BitVec 16) :
    cpio_parse_swap_endianess_16 (cpio_parse_swap_endianess_16 val) = val := by
  apply BitVec.eq_of_getElem_eq
  intro i inside
  unfold cpio_parse_swap_endianess_16
  interval_cases i <;> simp

/-- The two bytes of a number, read as a little-endian host does. -/
theorem bytes_whole
    (value : BitVec 16) :
    ((value >>> 8).setWidth 8).setWidth 16 <<< 8 |||
      (value.setWidth 8).setWidth 16 = value := by
  apply BitVec.eq_of_getElem_eq
  intro i inside
  interval_cases i <;> simp

theorem bytes_swapped
    (value : BitVec 16) :
    (value.setWidth 8).setWidth 16 <<< 8 |||
        ((value >>> 8).setWidth 8).setWidth 16 =
      cpio_parse_swap_endianess_16 value := by
  apply BitVec.eq_of_getElem_eq
  intro i inside
  unfold cpio_parse_swap_endianess_16
  interval_cases i <;> simp

theorem halves_whole
    (value : BitVec 32) :
    ((value >>> 16).setWidth 16).setWidth 32 <<< 16 |||
      (value.setWidth 16).setWidth 32 = value := by
  apply BitVec.eq_of_getElem_eq
  intro i inside
  interval_cases i <;> simp

theorem halfWordAt_eq
    {xlen : Xlen}
    {memory : Memory}
    {order : ByteOrder}
    {value : BitVec 16}
    {pointer offset : Nat}
    (holds : memory.Holds (pointer + offset) (order.halfWord value))
    (fits : pointer + offset + 1 < xlen.size) :
    halfWordAt xlen memory pointer offset = order.read value := by
  unfold halfWordAt fromPointer
  rw [Xlen.wrap_of_lt (by omega), Xlen.wrap_of_lt (by omega)]
  cases order with
  | little =>
      simp only [ByteOrder.halfWord, Memory.Holds.cons_iff] at holds
      rw [← Nat.add_assoc, holds.1, holds.2.1]
      exact bytes_whole value
  | big =>
      simp only [ByteOrder.halfWord, Memory.Holds.cons_iff] at holds
      rw [← Nat.add_assoc, holds.1, holds.2.1]
      exact bytes_swapped value

theorem halfWord_length
    (order : ByteOrder)
    (value : BitVec 16) :
    (order.halfWord value).length = 2 := by
  cases order <;> rfl

theorem halfWords_length
    (order : ByteOrder)
    (words : List (BitVec 16)) :
    (words.flatMap order.halfWord).length = 2 * words.length := by
  induction words with
  | nil => rfl
  | cons word words inductionHypothesis =>
      rw [List.flatMap_cons, List.length_append, halfWord_length,
        inductionHypothesis, List.length_cons]
      omega

/-- The header of an entry in host order. -/
def Entry.header (entry : Entry) : header_pwb_cpio where
  h_magic := 0x71C7
  h_dev := entry.dev
  h_ino := entry.ino
  h_mode := entry.mode
  h_uid := entry.uid
  h_gid := entry.gid
  h_nlink := entry.nlink
  h_majmin := entry.majmin
  h_mtime := ⟨⟨entry.mtime.setWidth 16, (entry.mtime >>> 16).setWidth 16⟩⟩
  h_namesize := BitVec.ofNat 16 (entry.name.length + 1)
  h_filesize := ⟨⟨(BitVec.ofNat 32 entry.data.length).setWidth 16,
    (BitVec.ofNat 32 entry.data.length >>> 16).setWidth 16⟩⟩

theorem Entry.header_mtime (entry : Entry) :
    entry.header.h_mtime.vl32 = entry.mtime :=
  halves_whole entry.mtime

/-- The file size in the header is the size of the file. -/
theorem Entry.header_filesize (entry : Entry) :
    entry.header.h_filesize.vl32 = BitVec.ofNat 32 entry.data.length :=
  halves_whole _

/-- `read_entry` makes the header in host order of what is in the archive. -/
theorem read_entry_copied
    {xlen : Xlen}
    {memory : Memory}
    {order : ByteOrder}
    {entry : Entry}
    {pointer : Nat}
    (holds : memory.Holds pointer (entry.headerWords.flatMap order.halfWord))
    (fits : pointer + header_size ≤ xlen.size) :
    let cpio_head := header_pwb_cpio.copied xlen memory pointer
    cpio_head.h_magic = order.read 0x71C7 ∧
      read_entry cpio_head = entry.header := by
  have words (k : Nat) (inside : k < 13) :
      halfWordAt xlen memory pointer (2 * k) =
        order.read (entry.headerWords.get ⟨k, inside⟩) := by
    refine halfWordAt_eq (holds.item (halfWord_length order) k inside) ?_
    rw [header_size] at fits
    omega
  have copied : header_pwb_cpio.copied xlen memory pointer =
      { h_magic := order.read 0x71C7
        h_dev := order.read entry.dev
        h_ino := order.read entry.ino
        h_mode := order.read entry.mode
        h_uid := order.read entry.uid
        h_gid := order.read entry.gid
        h_nlink := order.read entry.nlink
        h_majmin := order.read entry.majmin
        h_mtime := ⟨⟨order.read ((entry.mtime >>> 16).setWidth 16),
          order.read (entry.mtime.setWidth 16)⟩⟩
        h_namesize := order.read (BitVec.ofNat 16 (entry.name.length + 1))
        h_filesize := ⟨⟨
          order.read ((BitVec.ofNat 32 entry.data.length >>> 16).setWidth 16),
          order.read ((BitVec.ofNat 32 entry.data.length).setWidth 16)⟩⟩ } := by
    simp only [header_pwb_cpio.copied]
    rw [words 0 (by decide), words 1 (by decide), words 2 (by decide),
      words 3 (by decide), words 4 (by decide), words 5 (by decide),
      words 6 (by decide), words 7 (by decide), words 8 (by decide),
      words 9 (by decide), words 10 (by decide), words 11 (by decide),
      words 12 (by decide)]
    rfl
  simp only [copied]
  refine ⟨trivial, ?_⟩
  cases order with
  | little => rfl
  | big =>
      have little : firstByte 0x0123 = 0x23 := by decide
      simp only [read_entry, swap_entry, if_pos little,
        ByteOrder.read, cpio_parse_swap_endianess_16_twice]
      rfl

end Header

section Sizes

/-! ## Padded sizes -/

/-- Round up to an even number. -/
def evenSize (size : Nat) : Nat :=
  size + size % 2

theorem padded_length
    (bytes : List Byte) :
    (padded bytes).length = evenSize bytes.length := by
  rw [padded, List.length_append, List.length_replicate, evenSize]

/-- The code rounds up in 32 bits. -/
theorem toNat_rounded
    {size : BitVec 32}
    (fits : evenSize size.toNat < 2 ^ 32) :
    (size + (size &&& 1)).toNat = evenSize size.toNat := by
  have odd : (size &&& 1).toNat = size.toNat % 2 := by
    rw [BitVec.toNat_and]
    exact Nat.and_one_is_mod _
  rw [BitVec.toNat_add, odd]
  exact Nat.mod_eq_of_lt fits

namespace Entry

variable (entry : Entry)

/-- What the scan skips after the header of an entry. -/
def skipped : Nat :=
  evenSize (entry.name.length + 1) + evenSize entry.data.length

theorem contents_length : entry.contents.length = entry.skipped := by
  rw [contents, List.length_append, padded_length, padded_length, skipped,
    List.length_append]
  rfl

/-- The bytes of an entry in an archive. -/
def size : Nat :=
  header_size + entry.skipped

theorem encode_length (order : ByteOrder) :
    (entry.encode order).length = entry.size := by
  rw [encode, List.length_append, halfWords_length, contents_length]
  rfl

theorem flatMap_encode_length
    (entries : List Entry)
    (order : ByteOrder) :
    (entries.flatMap (·.encode order)).length = (entries.map size).sum := by
  induction entries with
  | nil => rfl
  | cons entry entries inductionHypothesis =>
      rw [List.flatMap_cons, List.length_append, encode_length,
        inductionHypothesis, List.map_cons, List.sum_cons]

end Entry

end Sizes

section Scan

/-! ## The scan -/

variable {xlen : Xlen} {memory : Memory} {order : ByteOrder} {filename : Nat}
  {buffer : header_pwb_cpio} {text : List Byte} {entry : Entry} {scan : Scan}
  {address : Nat}

/-- One turn at an entry of the archive. -/
theorem turn_at_entry
    (spells : Spells (fromPointer xlen memory filename) text)
    (holds : memory.Holds address (entry.encode order))
    (fits : address + (entry.encode order).length ≤ xlen.size)
    (here : xlen.wrap (scan.ptr + scan.entry_datasize.toNat) = address) :
    get_cpio_entry_header_turn xlen memory filename buffer scan =
      if entry.name = text then
        .leave (xlen.wrap (address + header_size +
          evenSize (entry.name.length + 1)), entry.header)
      else if entry.name = TRAILER then .leave (0, buffer)
      else .again ⟨address + header_size,
        BitVec.ofNat 32 (evenSize (entry.name.length + 1)) +
          (BitVec.ofNat 32 entry.data.length +
            (BitVec.ofNat 32 entry.data.length &&& 1))⟩ := by
  rw [Entry.encode_length, Entry.size] at fits
  obtain ⟨headerHolds, contentsHold⟩ := Memory.Holds.append_iff.mp holds
  rw [halfWords_length] at contentsHold
  change memory.Holds (address + header_size) _ at contentsHold
  have some : 0 < entry.skipped := by
    rw [Entry.skipped, evenSize]
    omega
  have headerFits : address + header_size ≤ xlen.size := by omega
  obtain ⟨magic, header⟩ := read_entry_copied headerHolds headerFits
  have recognised : ¬((header_pwb_cpio.copied xlen memory address).h_magic ≠ 0x71C7 ∧
      (header_pwb_cpio.copied xlen memory address).h_magic ≠ 0xC771) := by
    rw [magic]
    cases order <;> decide
  have next : xlen.wrap (address + header_size) = address + header_size :=
    Xlen.wrap_of_lt (by omega)
  have name : Spells (fromPointer xlen memory (address + header_size))
      entry.name := by
    obtain ⟨nameHolds, -⟩ := Memory.Holds.append_iff.mp contentsHold
    obtain ⟨nameHolds, -⟩ := Memory.Holds.append_iff.mp nameHolds
    refine fromPointer_spells nameHolds ?_ entry.proper
    rw [Entry.skipped, evenSize] at fits
    omega
  have nameFits := entry.nameFits
  have rounded : evenSize (entry.name.length + 1) < 2 ^ 32 := by
    rw [evenSize]
    omega
  have namesizeNat : (BitVec.ofNat 32 (evenSize (entry.name.length + 1))).toNat =
      evenSize (entry.name.length + 1) := by
    rw [BitVec.toNat_ofNat, Nat.mod_eq_of_lt rounded]
  have namesize : entry.header.h_namesize.setWidth 32 +
      (entry.header.h_namesize.setWidth 32 &&& 1) =
        BitVec.ofNat 32 (evenSize (entry.name.length + 1)) := by
    have size : (entry.header.h_namesize.setWidth 32).toNat =
        entry.name.length + 1 := by
      show ((BitVec.ofNat 16 (entry.name.length + 1)).setWidth 32).toNat = _
      rw [BitVec.toNat_setWidth, BitVec.toNat_ofNat]
      omega
    apply BitVec.eq_of_toNat_eq
    rw [toNat_rounded (size.symm ▸ rounded), size, namesizeNat]
  have trailer : Spells (literal TRAILER) TRAILER := literal_spells (by decide)
  unfold get_cpio_entry_header_turn
  simp only [here, if_neg recognised, next, header,
    strcmp_eq name spells (by omega), strcmp_eq name trailer (by omega),
    namesize, namesizeNat, entry.header_filesize]
  by_cases found : entry.name = text
  · simp only [if_pos found]
  · by_cases last : entry.name = TRAILER
    · simp only [if_neg found, if_pos last]
    · simp only [if_neg found, if_neg last]

/-- The code adds up what it skips in 32 bits. -/
theorem toNat_skipped
    (small : entry.skipped < 2 ^ 32) :
    (BitVec.ofNat 32 (evenSize (entry.name.length + 1)) +
      (BitVec.ofNat 32 entry.data.length +
        (BitVec.ofNat 32 entry.data.length &&& 1))).toNat = entry.skipped := by
  rw [Entry.skipped] at small
  have size : (BitVec.ofNat 32 entry.data.length).toNat = entry.data.length := by
    rw [BitVec.toNat_ofNat, Nat.mod_eq_of_lt entry.dataFits]
  have rounded : evenSize (BitVec.ofNat 32 entry.data.length).toNat < 2 ^ 32 := by
    rw [size]
    omega
  rw [BitVec.toNat_add, toNat_rounded rounded, size, BitVec.toNat_ofNat,
    Nat.mod_eq_of_lt (show evenSize (entry.name.length + 1) < 2 ^ 32 by omega),
    Nat.mod_eq_of_lt small, Entry.skipped]

/-- What the lookup should do on one archive in memory: return where the data of
the first file with the name is, and its header, or 0 where there is none. -/
structure Looked
    (xlen : Xlen) (memory : Memory) (filename cpio_archive : Nat)
    (buffer : header_pwb_cpio) (archive : Archive) (text : List Byte) :
    Prop where
  found : ∀ before entry after, archive.entries = before ++ entry :: after →
    (∀ other ∈ before, other.name ≠ text) → entry.name = text →
      ∃ data,
        data = cpio_archive + (before.map Entry.size).sum + header_size +
          evenSize (entry.name.length + 1) ∧
        get_cpio_entry_header xlen memory filename cpio_archive buffer
          (data, entry.header) ∧
        memory.Holds data entry.data ∧
        entry.header.h_filesize.vl32.toNat = entry.data.length
  absent : (∀ entry ∈ archive.entries, entry.name ≠ text) →
    get_cpio_entry_header xlen memory filename cpio_archive buffer (0, buffer)

/-- The scan goes past entries with other names. -/
theorem scan_past
    (before : List Entry)
    (rest : List Byte)
    {result : Nat × header_pwb_cpio}
    (spells : Spells (fromPointer xlen memory filename) text)
    (holds : memory.Holds address (before.flatMap (·.encode order) ++ rest))
    (fits : address + (before.flatMap (·.encode order)).length + rest.length ≤
      xlen.size)
    (more : 0 < rest.length)
    (others : ∀ entry ∈ before, entry.name ≠ text ∧ entry.name ≠ TRAILER)
    (small : ∀ entry ∈ before, entry.skipped < 2 ^ 32)
    (here : xlen.wrap (scan.ptr + scan.entry_datasize.toNat) = address)
    (returns : ∀ scan : Scan,
      xlen.wrap (scan.ptr + scan.entry_datasize.toNat) =
        address + (before.flatMap (·.encode order)).length →
      Returns (get_cpio_entry_header_turn xlen memory filename buffer) scan
        result) :
    Returns (get_cpio_entry_header_turn xlen memory filename buffer) scan
      result := by
  induction before generalizing address scan with
  | nil => exact returns scan here
  | cons entry before inductionHypothesis =>
      simp only [List.flatMap_cons, List.append_assoc, List.length_append] at *
      obtain ⟨entryHolds, later⟩ := Memory.Holds.append_iff.mp holds
      obtain ⟨otherName, ordinary⟩ := others entry (by simp)
      have skips := toNat_skipped (small entry (by simp))
      have turn : get_cpio_entry_header_turn xlen memory filename buffer scan =
          _ := turn_at_entry spells entryHolds (by omega) here
      rw [if_neg otherName, if_neg ordinary] at turn
      refine .of_again turn (inductionHypothesis later (by omega)
        (fun other listed => others other (by simp [listed]))
        (fun other listed => small other (by simp [listed])) ?_ ?_)
      · simp only [skips]
        rw [Entry.encode_length, Entry.size] at fits ⊢
        rw [← Nat.add_assoc, Xlen.wrap_of_lt (by omega)]
      · intro scan there
        exact returns scan (by omega)

/-- The lookup is right where it skips less than 2^32 bytes at a time. -/
theorem cpio_lookup
    {archive : Archive}
    {cpio_archive : Nat}
    (holds : memory.Holds cpio_archive (archive.encode order))
    (fits : cpio_archive + (archive.encode order).length ≤ xlen.size)
    (name : memory.Holds filename (text ++ [0]))
    (nameFits : filename + text.length < xlen.size)
    (proper : 0 ∉ text)
    (file : text ≠ TRAILER)
    (small : ∀ entry ∈ archive.entries.takeWhile (·.name ≠ text),
      entry.skipped < 2 ^ 32) :
    Looked xlen memory filename cpio_archive buffer archive text := by
  have spells := fromPointer_spells name nameFits proper
  have trailerSize := archive.trailer.encode_length order
  have some : 0 < header_size := by decide
  have trailerSome : header_size ≤ archive.trailer.size := Nat.le_add_right _ _
  have start (inside : cpio_archive < xlen.size) :
      xlen.wrap (cpio_archive + (0 : BitVec 32).toNat) = cpio_archive :=
    Xlen.wrap_of_lt inside
  constructor
  · intro before entry after entries others here
    have scanned : archive.entries.takeWhile (·.name ≠ text) = before := by
      rw [entries, List.takeWhile_append_of_pos (by simpa using others),
        List.takeWhile_cons_of_neg (by simpa using here), List.append_nil]
    rw [scanned] at small
    simp only [Archive.encode, entries, List.flatMap_append, List.flatMap_cons,
      List.append_assoc, List.length_append] at holds fits
    have size := entry.encode_length order
    have entryHolds := (Memory.Holds.append_iff.mp
      (Memory.Holds.append_iff.mp holds).2).1
    have entrySome : header_size ≤ entry.size := Nat.le_add_right _ _
    have offset := Entry.flatMap_encode_length before order
    refine ⟨_, rfl, ?_, ?_, ?_⟩
    rotate_left
    · have contents := (Memory.Holds.append_iff.mp entryHolds).2
      have data := (Memory.Holds.append_iff.mp
        (Memory.Holds.append_iff.mp contents).2).1
      rw [offset, halfWords_length, padded_length, List.length_append] at data
      exact data
    · rw [entry.header_filesize, BitVec.toNat_ofNat,
        Nat.mod_eq_of_lt entry.dataFits]
    rw [← offset]
    refine scan_past before _ spells holds ?_ ?_ ?_ small (start (by omega)) ?_
    · simp only [List.length_append]
      omega
    · simp only [List.length_append, size]
      omega
    · exact fun other listed => ⟨others other listed,
        archive.ordinary other (by simp [entries, listed])⟩
    · intro scan there
      have turn : get_cpio_entry_header_turn xlen memory filename buffer scan =
          _ := turn_at_entry spells entryHolds (by omega) there
      rw [size, Entry.size, Entry.skipped] at fits
      rw [if_pos here, Xlen.wrap_of_lt (by omega)] at turn
      exact .of_leave turn
  · intro others
    have scanned : archive.entries.takeWhile (·.name ≠ text) =
        archive.entries :=
      List.takeWhile_eq_self_iff.mpr (by simpa using others)
    rw [scanned] at small
    rw [Archive.encode, List.length_append] at fits
    have trailerHolds := (Memory.Holds.append_iff.mp holds).2
    refine scan_past archive.entries _ spells holds (by omega) (by omega) ?_ small
      (start (by omega)) ?_
    · exact fun other listed =>
        ⟨others other listed, archive.ordinary other listed⟩
    · intro scan there
      have turn : get_cpio_entry_header_turn xlen memory filename buffer scan =
          _ := turn_at_entry spells trailerHolds (by omega) there
      rw [if_neg (archive.ended.trans_ne file.symm), if_pos archive.ended] at turn
      exact .of_leave turn

/-- In 32-bit memory no archive has more to skip. -/
theorem small_of_rv32
    {archive : Archive}
    {cpio_archive : Nat}
    (fits : cpio_archive + (archive.encode order).length ≤ Xlen.rv32.size)
    (listed : entry ∈ archive.entries) :
    entry.skipped < 2 ^ 32 := by
  have whole : entry.size ≤ (archive.entries.map Entry.size).sum :=
    List.le_sum_of_mem (List.mem_map_of_mem listed)
  have some : 0 < header_size := by decide
  have size : Xlen.rv32.size = 2 ^ 32 := rfl
  rw [Archive.encode, List.length_append, Entry.flatMap_encode_length] at fits
  rw [Entry.size] at whole
  omega

end Scan

section Archives

/-! ## Two archives -/

/-- A file whose header says nothing but the sizes. -/
def Entry.plain
    (name data : List Byte)
    (proper : 0 ∉ name)
    (nameFits : name.length + 1 < 2 ^ 16)
    (dataFits : data.length < 2 ^ 32) : Entry :=
  { dev := 0, ino := 0, mode := 0, uid := 0, gid := 0, nlink := 0, majmin := 0,
    mtime := 0, name, data, proper, nameFits, dataFits }

def emptyTrailer : Entry :=
  .plain TRAILER [] (by decide) (by decide) (by decide)

/-- One file `b` with one byte. -/
def smallFile : Entry :=
  .plain [0x62] [1] (by decide) (by decide) (by decide)

/-- A file `a` with three bytes. -/
def otherFile : Entry :=
  .plain [0x61] [1, 2, 3] (by decide) (by decide) (by decide)

/-- A file `a` with all but two of 2^32 bytes. -/
def largeFile : Entry :=
  .plain [0x61] (List.replicate (2 ^ 32 - 2) 0) (by decide) (by decide)
    (by rw [List.length_replicate]; decide)

def smallArchive : Archive where
  entries := [otherFile, smallFile]
  trailer := emptyTrailer
  ordinary := by decide
  ended := rfl

def largeArchive : Archive where
  entries := [largeFile, smallFile]
  trailer := emptyTrailer
  ordinary := by
    intro entry listed
    simp only [List.mem_cons, List.not_mem_nil, or_false] at listed
    rcases listed with rfl | rfl <;> exact nofun
  ended := rfl

/-- The archive at `0x20000000`, with the name `b` after it. -/
def archiveMemory (archive : Archive) : Memory :=
  .stored 0x20000000 (archive.encode .little ++ ([0x62] ++ [0]))

theorem archiveMemory_holds
    (archive : Archive) :
    (archiveMemory archive).Holds 0x20000000 (archive.encode .little) ∧
      (archiveMemory archive).Holds
        (0x20000000 + (archive.encode .little).length) ([0x62] ++ [0]) :=
  Memory.Holds.append_iff.mp (Memory.stored_holds _ _)

/-- The lookup of `b` passes the file `a`. -/
theorem cpio_lookup_smallArchive :
    Looked .rv64 (archiveMemory smallArchive) 0x20000064 0x20000000
      smallFile.header smallArchive [0x62] := by
  obtain ⟨holds, name⟩ := archiveMemory_holds smallArchive
  exact cpio_lookup holds (by decide) name (by decide) (by decide) (by decide)
    (by decide)

theorem largeFile_data_length : largeFile.data.length = 2 ^ 32 - 2 :=
  List.length_replicate

theorem largeFile_skipped : largeFile.skipped = 2 ^ 32 := by
  have name : largeFile.name.length = 1 := rfl
  rw [Entry.skipped, name, largeFile_data_length]
  decide

theorem largeArchive_encode :
    largeArchive.encode .little =
      largeFile.encode .little ++
        (smallFile.encode .little ++ emptyTrailer.encode .little) := by
  have entries : largeArchive.entries = [largeFile, smallFile] := rfl
  rw [Archive.encode, entries, List.flatMap_cons, List.flatMap_cons,
    List.flatMap_nil, List.append_nil, List.append_assoc]
  rfl

theorem largeArchive_length :
    (largeArchive.encode .little).length = 2 ^ 32 + 94 := by
  rw [largeArchive_encode, List.length_append, Entry.encode_length, Entry.size,
    largeFile_skipped]
  decide

/-- After the large file the scan reads its name for a header. -/
theorem not_cpio_lookup :
    ¬∀ (xlen : Xlen) (memory : Memory) (order : ByteOrder)
      (filename cpio_archive : Nat) (buffer : header_pwb_cpio)
      (archive : Archive) (text : List Byte),
      memory.Holds cpio_archive (archive.encode order) →
      cpio_archive + (archive.encode order).length ≤ xlen.size →
      memory.Holds filename (text ++ [0]) →
      filename + text.length < xlen.size → 0 ∉ text → text ≠ TRAILER →
      Looked xlen memory filename cpio_archive buffer archive text := by
  intro claim
  obtain ⟨holds, name⟩ := archiveMemory_holds largeArchive
  have looked := claim .rv64 (archiveMemory largeArchive) .little
    (0x20000000 + (largeArchive.encode .little).length) 0x20000000
    smallFile.header largeArchive [0x62] holds
    (by rw [largeArchive_length]; decide) name
    (by rw [largeArchive_length]; decide) (by decide) (by decide)
  have spells : Spells (fromPointer .rv64 (archiveMemory largeArchive)
      (0x20000000 + (largeArchive.encode .little).length)) [0x62] :=
    fromPointer_spells name (by rw [largeArchive_length]; decide) (by decide)
  rw [largeArchive_encode] at holds
  have entryHolds := (Memory.Holds.append_iff.mp holds).1
  have skips : (BitVec.ofNat 32 (evenSize (largeFile.name.length + 1)) +
      (BitVec.ofNat 32 largeFile.data.length +
        (BitVec.ofNat 32 largeFile.data.length &&& 1))) = 0 := by
    rw [largeFile_data_length]
    decide
  have first : get_cpio_entry_header_turn .rv64 (archiveMemory largeArchive)
      (0x20000000 + (largeArchive.encode .little).length) smallFile.header
      ⟨0x20000000, 0⟩ = .again ⟨0x2000001A, 0⟩ := by
    rw [turn_at_entry spells entryHolds
      (by rw [Entry.encode_length, Entry.size, largeFile_skipped]; decide)
      (by decide), if_neg nofun, if_neg nofun, skips]
    rfl
  -- the bytes of the name are no magic number
  have nameHolds := (Memory.Holds.append_iff.mp
    (Memory.Holds.append_iff.mp (Memory.Holds.append_iff.mp entryHolds).2).1).1
  rw [halfWords_length] at nameHolds
  have lower : archiveMemory largeArchive 0x2000001A = 0x61 :=
    nameHolds 0 (by decide)
  have upper : archiveMemory largeArchive 0x2000001B = 0 :=
    nameHolds 1 (by decide)
  have magic : (header_pwb_cpio.copied .rv64 (archiveMemory largeArchive)
      (Xlen.rv64.wrap (0x2000001A + (0 : BitVec 32).toNat))).h_magic = 0x61 := by
    have lower' : fromPointer .rv64 (archiveMemory largeArchive) 0x2000001A 0 =
        0x61 := lower
    have upper' : fromPointer .rv64 (archiveMemory largeArchive) 0x2000001A 1 =
        0 := upper
    show halfWordAt .rv64 (archiveMemory largeArchive) 0x2000001A 0 = 0x61
    rw [halfWordAt, lower', upper']
    decide
  have second : get_cpio_entry_header_turn .rv64 (archiveMemory largeArchive)
      (0x20000000 + (largeArchive.encode .little).length) smallFile.header
      ⟨0x2000001A, 0⟩ = .leave (0, smallFile.header) := by
    unfold get_cpio_entry_header_turn
    exact if_pos (by rw [magic]; decide)
  have missed : get_cpio_entry_header .rv64 (archiveMemory largeArchive)
      (0x20000000 + (largeArchive.encode .little).length) 0x20000000
      smallFile.header (0, smallFile.header) :=
    .of_again first (.of_leave second)
  obtain ⟨data, here, returned, -⟩ :=
    looked.found [largeFile] smallFile [] rfl (by simp; exact nofun) rfl
  have zero : data = 0 := congrArg Prod.fst (returned.unique missed)
  rw [zero] at here
  omega

end Archives

end DataParse
end EchelonSbi
