import EchelonSbi.DataParse.CpioLookup

/-!
# The files of an archive by name

The first file with a name, and where its data are, as a function of the entries.
The lookup computes it on every archive whose files are not too large, and the data
that it returns lie in memory behind the pointer.
-/

namespace EchelonSbi
namespace DataParse

open Foundation

/-- The data of the first file with a name, of entries that lie at `address`. -/
def fileFrom (text : List Byte) (address : Nat) : List Entry → Option (Nat × Entry)
  | [] => none
  | entry :: rest =>
      if entry.name = text then
        some (address + header_size + evenSize (entry.name.length + 1), entry)
      else fileFrom text (address + entry.size) rest

/-- What the lookup returns for a file, or for none. -/
def lookupResult (buffer : header_pwb_cpio) :
    Option (Nat × Entry) → Nat × header_pwb_cpio
  | none => (0, buffer)
  | some (data, entry) => (data, entry.header)

section Files

variable {xlen : Xlen} {memory : Memory} {order : ByteOrder} {filename address : Nat}
  {buffer : header_pwb_cpio} {text : List Byte} {entries : List Entry}
  {trailer entry : Entry} {scan : Scan} {data : Nat}

theorem fileFrom_eq_none_iff :
    fileFrom text address entries = none ↔ ∀ entry ∈ entries, entry.name ≠ text := by
  induction entries generalizing address with
  | nil => simp [fileFrom]
  | cons entry rest inductionHypothesis =>
      rw [fileFrom, List.forall_mem_cons]
      by_cases named : entry.name = text
      · simp [named]
      · rw [if_neg named, inductionHypothesis]
        exact ⟨fun others => ⟨named, others⟩, And.right⟩

/-- A file that is found has the name and lies in memory. -/
theorem fileFrom_some
    (holds : memory.Holds address
      (entries.flatMap (·.encode order) ++ trailer.encode order))
    (found : fileFrom text address entries = some (data, entry)) :
    entry ∈ entries ∧ entry.name = text ∧ memory.Holds data entry.data ∧
      address + header_size ≤ data ∧
        data + entry.data.length + trailer.size ≤ address +
          (entries.flatMap (·.encode order) ++ trailer.encode order).length := by
  induction entries generalizing address with
  | nil => cases found
  | cons head rest inductionHypothesis =>
      rw [List.flatMap_cons, List.append_assoc] at holds ⊢
      obtain ⟨here, later⟩ := Memory.Holds.append_iff.mp holds
      rw [List.length_append, head.encode_length]
      rw [head.encode_length] at later
      rw [fileFrom] at found
      split at found
      next named =>
        cases found
        obtain ⟨header, contents⟩ := Memory.Holds.append_iff.mp here
        obtain ⟨-, body⟩ := Memory.Holds.append_iff.mp contents
        obtain ⟨body, -⟩ := Memory.Holds.append_iff.mp body
        rw [halfWords_length, padded_length, List.length_append] at body
        refine ⟨List.mem_cons_self, named, body, Nat.le_add_right _ _, ?_⟩
        rw [List.length_append, trailer.encode_length]
        simp only [Entry.size, Entry.skipped, evenSize]
        omega
      next other =>
        obtain ⟨listed, named, body, above, below⟩ := inductionHypothesis later found
        exact ⟨List.mem_cons_of_mem _ listed, named, body, by omega, by omega⟩

/-- The scan from an entry on finds the first file behind it. -/
theorem scan_finds
    (spells : Spells (fromPointer xlen memory filename) text)
    (file : text ≠ TRAILER)
    (ended : trailer.name = TRAILER)
    (ordinary : ∀ entry ∈ entries, entry.name ≠ TRAILER)
    (small : ∀ entry ∈ entries, entry.skipped < 2 ^ 32)
    (holds : memory.Holds address
      (entries.flatMap (·.encode order) ++ trailer.encode order))
    (fits : address + (entries.flatMap (·.encode order) ++
      trailer.encode order).length ≤ xlen.size)
    (here : xlen.wrap (scan.ptr + scan.entry_datasize.toNat) = address) :
    Returns (get_cpio_entry_header_turn xlen memory filename buffer) scan
      (lookupResult buffer (fileFrom text address entries)) := by
  induction entries generalizing address scan with
  | nil =>
      rw [List.flatMap_nil, List.nil_append] at holds fits
      apply Returns.of_leave
      rw [turn_at_entry spells holds fits here,
        if_neg (fun same => file (same.symm.trans ended)), if_pos ended]
      rfl
  | cons head rest inductionHypothesis =>
      rw [List.flatMap_cons, List.append_assoc] at holds fits
      obtain ⟨first, later⟩ := Memory.Holds.append_iff.mp holds
      rw [List.forall_mem_cons] at ordinary small
      have more : header_size ≤ trailer.size := Nat.le_add_right _ _
      have some : 0 < header_size := by decide
      have length := head.encode_length order
      have rear := trailer.encode_length order
      rw [List.length_append] at fits
      have behind := fits
      rw [List.length_append] at fits
      have turn : get_cpio_entry_header_turn xlen memory filename buffer scan = _ :=
        turn_at_entry spells first (by omega) here
      rw [if_neg ordinary.1] at turn
      rw [fileFrom]
      by_cases named : head.name = text
      · rw [if_pos named] at turn ⊢
        rw [length, Entry.size, Entry.skipped] at fits
        rw [Xlen.wrap_of_lt (by omega)] at turn
        exact .of_leave turn
      · rw [if_neg named] at turn ⊢
        rw [length] at later
        refine .of_again turn (inductionHypothesis ordinary.2 small.2 later (by omega) ?_)
        simp only [toNat_skipped small.1]
        rw [Entry.size, ← Nat.add_assoc] at *
        exact Xlen.wrap_of_lt (by omega)

end Files

/-- The lookup returns the first file with the name, and nothing else. -/
theorem get_cpio_entry_header_iff
    {xlen : Xlen}
    {memory : Memory}
    {order : ByteOrder}
    {filename cpio_archive : Nat}
    {buffer : header_pwb_cpio}
    {archive : Archive}
    {text : List Byte}
    {result : Nat × header_pwb_cpio}
    (holds : memory.Holds cpio_archive (archive.encode order))
    (fits : cpio_archive + (archive.encode order).length ≤ xlen.size)
    (small : ∀ entry ∈ archive.entries, entry.skipped < 2 ^ 32)
    (spells : Spells (fromPointer xlen memory filename) text)
    (file : text ≠ TRAILER) :
    get_cpio_entry_header xlen memory filename cpio_archive buffer result ↔
      result = lookupResult buffer (fileFrom text cpio_archive archive.entries) := by
  have inside : cpio_archive < xlen.size := by
    have trailer := archive.trailer.encode_length order
    have some : header_size ≤ archive.trailer.size := Nat.le_add_right _ _
    rw [Archive.encode, List.length_append] at fits
    unfold header_size at some
    omega
  have finds : get_cpio_entry_header xlen memory filename cpio_archive buffer
      (lookupResult buffer (fileFrom text cpio_archive archive.entries)) :=
    scan_finds spells file archive.ended archive.ordinary small holds fits
      (Xlen.wrap_of_lt inside)
  constructor
  · exact fun returns => returns.unique finds
  · rintro rfl
    exact finds

end DataParse
end EchelonSbi
