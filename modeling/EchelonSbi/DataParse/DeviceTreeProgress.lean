import EchelonSbi.DataParse.DeviceTreeSearch

/-!
# The scan of the device tree goes on

Whatever memory holds, a turn of the scan moves the cursor to the end of the
token that it is at, in the arithmetic of registers.  So the scan moves forward,
and comes to an end, as long as the tokens that it meets end before the end of
the address space.
-/

namespace EchelonSbi
namespace DataParse

open Foundation

section Strings

/-! ## Comparisons end -/

theorem strcmp_turns_end
    (s1 : Nat → Byte)
    {s2 : Nat → Byte}
    {text : List Byte}
    {i : Nat}
    (second : Spells (fun j => s2 (i + j)) text)
    (fits : i + text.length < 2 ^ 32) :
    ∃ fuel ≤ text.length + 1, ∃ result,
      iterate (strcmp_turn s1 s2) fuel i = some result := by
  induction text generalizing i with
  | nil =>
      have ended : s2 i = 0 := Spells.nil_iff.mp second
      refine ⟨1, by simp, ?_⟩
      by_cases same : s1 i = s2 i
      · exact ⟨0, strcmp_ends same (same.trans ended)⟩
      · exact ⟨1, strcmp_differs same⟩
  | cons byte rest inductionHypothesis =>
      obtain ⟨there, nonzero, later⟩ := Spells.cons_iff.mp second
      rw [List.length_cons] at fits
      by_cases same : s1 i = s2 i
      · have goesOn : s1 i ≠ 0 := fun zero =>
          nonzero (there.symm.trans (same.symm.trans zero))
        have index : (i + 1) % 2 ^ 32 = i + 1 := Nat.mod_eq_of_lt (by omega)
        have behind : Spells (fun j => s2 (i + 1 + j)) rest := by
          simpa only [Nat.add_assoc, Nat.add_comm 1] using later
        obtain ⟨fuel, few, result, left⟩ := inductionHypothesis behind (by omega)
        refine ⟨fuel + 1, by simpa using few, result, ?_⟩
        rw [iterate, strcmp_turn, if_pos same, if_neg goesOn, index]
        exact left
      · exact ⟨1, by simp, 1, strcmp_differs same⟩

/-- A comparison with a string of less than 2^32 bytes ends. -/
theorem strcmp_isSome
    (s1 : Nat → Byte)
    {s2 : Nat → Byte}
    {text : List Byte}
    (second : Spells s2 text)
    (fits : text.length < 2 ^ 32) :
    ∃ result, strcmp s1 s2 = some result := by
  have start : Spells (fun j => s2 (0 + j)) text := by simpa using second
  obtain ⟨fuel, few, result, left⟩ :=
    strcmp_turns_end s1 start (by omega)
  have enough : fuel + (2 ^ 32 - fuel) = 2 ^ 32 := by omega
  refine ⟨result, ?_⟩
  rw [strcmp, ← enough]
  exact iterate_mono left _

/-- The comparison with a literal ends. -/
theorem strcmp_literal
    (s1 : Nat → Byte)
    {text : List Byte}
    (proper : 0 ∉ text)
    (fits : text.length < 2 ^ 32) :
    ∃ result, strcmp s1 (literal text) = some result :=
  strcmp_isSome s1 (literal_spells proper) fits

end Strings

section Tokens

/-! ## Tokens of any memory -/

variable (xlen : Xlen) (memory : Memory) (convert : BitVec 32 → BitVec 32)

/-- An address rounded up to a multiple of 4 from `dt_struct`. -/
def paddedEnd (dt_struct address : Nat) : Nat :=
  address + (4 - (address - dt_struct) % 4) % 4

/-- The number of the token at an address. -/
def tokenAt (i : Nat) : BitVec 32 :=
  convert (wordAt xlen memory i 0)

/-- The length of the property at an address. -/
def lengthAt (i : Nat) : BitVec 32 :=
  convert (wordAt xlen memory (xlen.wrap (i + 4)) 0)

/-- The name of the node at an address is terminated. -/
def NameEnds (i : Nat) : Prop :=
  tokenAt xlen memory convert i = FDT_BEGIN_NODE →
    ∃ name, Spells (fromPointer xlen memory (xlen.wrap (i + 4))) name

/-- Where the token at an address ends, with its padding, as an integer. -/
def tokenEnd (dt_struct i : Nat) : Nat :=
  if tokenAt xlen memory convert i = FDT_BEGIN_NODE then
    paddedEnd dt_struct
      (i + 4 + ((strlen xlen (fromPointer xlen memory (xlen.wrap (i + 4)))).getD 0 + 1))
  else if tokenAt xlen memory convert i = FDT_PROP then
    paddedEnd dt_struct (i + 12 + (lengthAt xlen memory convert i).toNat)
  else i + 4

variable {xlen memory convert} {dt_struct dt_strings size_dt_struct : Nat}
  {scan next : TreeScan xlen}

theorem wrap_add_wrap
    (xlen : Xlen)
    (left right : Nat) :
    xlen.wrap (xlen.wrap left + right) = xlen.wrap (left + right) :=
  Nat.mod_add_mod ..

/-- Rounding in a register is rounding, up to the size of the register. -/
theorem align_to_struct_wrap
    (xlen : Xlen)
    {address : Nat}
    (inside : dt_struct < xlen.size)
    (behind : dt_struct ≤ address) :
    align_to_struct xlen dt_struct (xlen.wrap address) =
      xlen.wrap (paddedEnd dt_struct address) := by
  obtain ⟨offset, rfl⟩ := Nat.exists_eq_add_of_le behind
  have base : xlen.wrap (xlen.wrap (dt_struct + offset) + (xlen.size - dt_struct)) =
      xlen.wrap offset := by
    rw [wrap_add_wrap, show dt_struct + offset + (xlen.size - dt_struct) =
      offset + xlen.size by omega]
    exact Nat.add_mod_right ..
  have low : xlen.wrap offset % 4 = offset % 4 := by
    apply Nat.mod_mod_of_dvd
    cases xlen <;> decide
  have multiple : 4 ∣ xlen.size := by
    cases xlen <;> decide
  simp only [align_to_struct, base, low]
  rw [paddedEnd, Nat.add_sub_cancel_left]
  split_ifs with odd
  · have lowLe : offset % 4 ≤ xlen.wrap offset := low ▸ Nat.mod_le _ _
    have divided := Nat.mod_add_div offset xlen.size
    have rounded :
        xlen.wrap (xlen.wrap offset - offset % 4 + 4) =
          xlen.wrap (offset - offset % 4 + 4) := by
      have whole : offset - offset % 4 + 4 =
          xlen.wrap offset - offset % 4 + 4 + xlen.size * (offset / xlen.size) := by
        have parts : xlen.wrap offset + xlen.size * (offset / xlen.size) = offset :=
          divided
        omega
      rw [whole]
      exact (Nat.add_mul_mod_self_left ..).symm
    rw [rounded, wrap_add_wrap]
    congr 1
    omega
  · rw [wrap_add_wrap]
    congr 1
    omega

/-- Past a property, whatever its name. -/
theorem property_turn_next
    (turn : property_turn xlen memory convert dt_struct dt_strings scan =
      .again next) :
    next.i = align_to_struct xlen dt_struct
      (xlen.wrap (scan.i + 12 + (lengthAt xlen memory convert scan.i).toNat)) := by
  have past :
      xlen.wrap (xlen.wrap (xlen.wrap (scan.i + 4) + 8) +
          (lengthAt xlen memory convert scan.i).toNat) =
        xlen.wrap (scan.i + 12 + (lengthAt xlen memory convert scan.i).toNat) := by
    rw [wrap_add_wrap, Nat.add_assoc, wrap_add_wrap]
    congr 1
    omega
  obtain ⟨start, startEnds⟩ := strcmp_literal
    (fromPointer xlen memory (xlen.wrap (dt_strings +
      (convert (wordAt xlen memory (xlen.wrap (scan.i + 4)) 4)).toNat)))
    (show 0 ∉ INITRD_START by decide) (by decide)
  obtain ⟨finish, finishEnds⟩ := strcmp_literal
    (fromPointer xlen memory (xlen.wrap (dt_strings +
      (convert (wordAt xlen memory (xlen.wrap (scan.i + 4)) 4)).toNat)))
    (show 0 ∉ INITRD_END by decide) (by decide)
  unfold property_turn at turn
  simp only [startEnds, finishEnds] at turn
  rw [← past]
  split at turn
  · rename_i never
    cases never
  · cases turn
    rfl
  · split at turn
    · rename_i never
      cases never
    · cases turn
      rfl
    · cases turn
      rfl

/-- A turn of the scan that goes on moves the cursor to the end of the token, in
the arithmetic of registers. -/
theorem scan_turn_next
    (inside : dt_struct < xlen.size)
    (behind : dt_struct ≤ scan.i)
    (names : NameEnds xlen memory convert scan.i)
    (turn : scan_turn xlen memory convert dt_struct dt_strings size_dt_struct scan =
      .again next) :
    next.i = xlen.wrap (tokenEnd xlen memory convert dt_struct scan.i) := by
  unfold scan_turn at turn
  by_cases inBlocks :
      scan.i < dt_strings ∧ scan.i < xlen.wrap (dt_struct + size_dt_struct)
  swap
  · rw [if_neg inBlocks] at turn
    cases turn
  rw [if_pos inBlocks] at turn
  have token :
      convert (wordAt xlen memory scan.i 0) = tokenAt xlen memory convert scan.i :=
    rfl
  simp only [token] at turn
  by_cases ends : tokenAt xlen memory convert scan.i = FDT_END
  · rw [if_pos ends] at turn
    cases turn
  rw [if_neg ends] at turn
  by_cases endNode : tokenAt xlen memory convert scan.i = FDT_END_NODE
  · rw [if_pos endNode] at turn
    cases turn
    show xlen.wrap (scan.i + 4) = _
    rw [tokenEnd, if_neg (by rw [endNode]; decide), if_neg (by rw [endNode]; decide)]
  rw [if_neg endNode] at turn
  by_cases beginNode : tokenAt xlen memory convert scan.i = FDT_BEGIN_NODE
  · obtain ⟨name, spells⟩ := names beginNode
    have length := strlen_eq spells (fromPointer_length_lt spells)
    rw [if_pos beginNode] at turn
    simp only [length] at turn
    cases turn
    rw [tokenEnd, if_pos beginNode, length, Option.getD_some,
      ← align_to_struct_wrap xlen inside (by omega), Nat.add_assoc, wrap_add_wrap,
      Nat.add_assoc]
  rw [if_neg beginNode] at turn
  by_cases nop : tokenAt xlen memory convert scan.i = FDT_NOP
  · rw [if_pos nop] at turn
    cases turn
    rw [tokenEnd, if_neg (by rw [nop]; decide), if_neg (by rw [nop]; decide)]
  rw [if_neg nop] at turn
  by_cases property : tokenAt xlen memory convert scan.i = FDT_PROP
  · rw [if_pos property] at turn
    rw [property_turn_next turn, tokenEnd, if_neg beginNode, if_pos property,
      ← align_to_struct_wrap xlen inside (by omega)]
  · rw [if_neg property] at turn
    cases turn
    rw [tokenEnd, if_neg beginNode, if_neg property]

theorem le_paddedEnd (dt_struct address : Nat) : address ≤ paddedEnd dt_struct address :=
  Nat.le_add_right ..

/-- A token has some bytes. -/
theorem lt_tokenEnd (dt_struct i : Nat) :
    i < tokenEnd xlen memory convert dt_struct i := by
  unfold tokenEnd
  split_ifs
  · have := le_paddedEnd dt_struct (i + 4 +
      ((strlen xlen (fromPointer xlen memory (xlen.wrap (i + 4)))).getD 0 + 1))
    omega
  · have := le_paddedEnd dt_struct (i + 12 + (lengthAt xlen memory convert i).toNat)
    omega
  · omega

/-- The scan goes on from the tokens in the block, but for the last one. -/
theorem scan_turn_again_iff :
    (∃ next, scan_turn xlen memory convert dt_struct dt_strings size_dt_struct scan =
      .again next) ↔
      (scan.i < dt_strings ∧ scan.i < xlen.wrap (dt_struct + size_dt_struct)) ∧
        tokenAt xlen memory convert scan.i ≠ FDT_END := by
  have goesOn (scan : TreeScan xlen) :
      ∃ next, property_turn xlen memory convert dt_struct dt_strings scan =
        .again next := by
    unfold property_turn
    simp only
    split
    · exact ⟨_, rfl⟩
    · exact ⟨_, rfl⟩
    · split <;> exact ⟨_, rfl⟩
  constructor
  · rintro ⟨next, turn⟩
    unfold scan_turn at turn
    by_cases inBlocks :
        scan.i < dt_strings ∧ scan.i < xlen.wrap (dt_struct + size_dt_struct)
    · refine ⟨inBlocks, fun ends => ?_⟩
      have last : convert (wordAt xlen memory scan.i 0) = FDT_END := ends
      rw [if_pos inBlocks] at turn
      simp only at turn
      rw [if_pos last] at turn
      cases turn
    · rw [if_neg inBlocks] at turn
      cases turn
  · rintro ⟨inBlocks, ends⟩
    have more : convert (wordAt xlen memory scan.i 0) ≠ FDT_END := ends
    unfold scan_turn
    rw [if_pos inBlocks]
    simp only
    rw [if_neg more]
    split
    · exact ⟨_, rfl⟩
    · split
      · split <;> exact ⟨_, rfl⟩
      · split
        · exact ⟨_, rfl⟩
        · split
          · exact goesOn scan
          · exact ⟨_, rfl⟩

end Tokens

section Reservations

/-! ## The memory reservations -/

variable (xlen : Xlen) (memory : Memory) (swap64 : BitVec 64 → BitVec 64)

/-- A number of the reservation at an address. -/
def reservationAt (i offset : Nat) : BitVec 64 :=
  swap64 ((wordAt xlen memory i (offset + 4)).setWidth 64 <<< 32 |||
    (wordAt xlen memory i offset).setWidth 64)

/-- The reservations end at an address. -/
def ReservationsEndAt (dt_struct i : Nat) : Prop :=
  dt_struct ≤ i ∨
    reservationAt xlen memory swap64 i 0 = 0 ∧ reservationAt xlen memory swap64 i 8 = 0

variable {xlen memory swap64} {dt_struct i : Nat}

theorem rsvmap_turn_eq_leave
    (ends : ReservationsEndAt xlen memory swap64 dt_struct i) :
    rsvmap_turn xlen memory swap64 dt_struct i = .leave () := by
  unfold rsvmap_turn
  simp only
  rcases ends with behind | zero
  · rw [if_neg (by omega)]
  · split_ifs with before zeros
    · rfl
    · exact absurd zero zeros
    · rfl

theorem rsvmap_turn_eq_again
    (more : ¬ReservationsEndAt xlen memory swap64 dt_struct i) :
    rsvmap_turn xlen memory swap64 dt_struct i = .again (xlen.wrap (i + 16)) := by
  obtain ⟨before, some⟩ := not_or.mp more
  unfold rsvmap_turn
  simp only
  rw [if_pos (by omega), if_neg (by exact some)]

/-- The loop over the reservations ends where one of the addresses in steps of 16,
up to the size of a register, ends them. -/
theorem rsvmap_returns_iff
    (inside : i < xlen.size) :
    Returns (rsvmap_turn xlen memory swap64 dt_struct) i () ↔
      ∃ count,
        ReservationsEndAt xlen memory swap64 dt_struct (xlen.wrap (i + 16 * count)) := by
  constructor
  · rintro ⟨fuel, left⟩
    induction fuel generalizing i with
    | zero => cases left
    | succ fuel inductionHypothesis =>
        by_cases ends : ReservationsEndAt xlen memory swap64 dt_struct i
        · exact ⟨0, by rwa [Nat.mul_zero, Nat.add_zero, Xlen.wrap_of_lt inside]⟩
        · rw [iterate, rsvmap_turn_eq_again ends] at left
          obtain ⟨count, found⟩ := inductionHypothesis (xlen.wrap_lt _) left
          refine ⟨count + 1, ?_⟩
          rwa [wrap_add_wrap, Nat.add_assoc,
            show 16 + 16 * count = 16 * (count + 1) by omega] at found
  · rintro ⟨count, found⟩
    induction count generalizing i with
    | zero =>
        rw [Nat.mul_zero, Nat.add_zero, Xlen.wrap_of_lt inside] at found
        exact .of_leave (rsvmap_turn_eq_leave found)
    | succ count inductionHypothesis =>
        by_cases ends : ReservationsEndAt xlen memory swap64 dt_struct i
        · exact .of_leave (rsvmap_turn_eq_leave ends)
        · apply Returns.of_again (rsvmap_turn_eq_again ends)
          apply inductionHypothesis (xlen.wrap_lt _)
          rwa [wrap_add_wrap, Nat.add_assoc,
            show 16 + 16 * count = 16 * (count + 1) by omega]

end Reservations

section Progress

/-! ## Progress and the end -/

/-- What the loops of `dtb_parse` take from the header. -/
structure TreeLoops where
  convert : BitVec 32 → BitVec 32
  swap64 : BitVec 64 → BitVec 64
  dtb_header : fdt_header

/-- `dtb_parse` up to its loops; none without a magic number. -/
def tree_loops (xlen : Xlen) (memory : Memory) (dtb_location : Nat) :
    Option TreeLoops :=
  let magic := wordAt xlen memory dtb_location 0
  if magic = 0xD00DFEED then some ⟨id, id, .copied id xlen memory dtb_location⟩
  else if magic = 0xEDFE0DD0 then
    some ⟨dtb_parse_swap_endianess xlen, dtb_parse_swap_endianess xlen,
      .copied (dtb_parse_swap_endianess xlen) xlen memory dtb_location⟩
  else none

namespace TreeLoops

variable (loops : TreeLoops) (xlen : Xlen) (memory : Memory) (dtb_location : Nat)

def rsvmap : Nat :=
  xlen.wrap (dtb_location + loops.dtb_header.off_mem_rsvmap.toNat)

def dt_struct : Nat :=
  xlen.wrap (dtb_location + loops.dtb_header.off_dt_struct.toNat)

def dt_strings : Nat :=
  xlen.wrap (dtb_location + loops.dtb_header.off_dt_strings.toNat)

/-- A turn of the loop over the structure block. -/
def turn : TreeScan xlen → Turn (TreeScan xlen) (TreeScan xlen) :=
  scan_turn xlen memory loops.convert (loops.dt_struct xlen dtb_location)
    (loops.dt_strings xlen dtb_location) loops.dtb_header.size_dt_struct.toNat

/-- The loop over the structure block comes to a state. -/
def Comes (scan : TreeScan xlen) : Prop :=
  Reaches (loops.turn xlen memory dtb_location)
    ⟨loops.dt_struct xlen dtb_location, 0, 0, 0⟩ scan

/-- The loop reads on at an address. -/
def InBlock (i : Nat) : Prop :=
  i < loops.dt_strings xlen dtb_location ∧
    i < xlen.wrap (loops.dt_struct xlen dtb_location +
      loops.dtb_header.size_dt_struct.toNat)

/-- The names that the loop reads are terminated. -/
def NamesEnd : Prop :=
  ∀ scan, loops.Comes xlen memory dtb_location scan →
    loops.InBlock xlen dtb_location scan.i →
    NameEnds xlen memory loops.convert scan.i

/-- The tokens that the loop comes to, but for the last one, end before the end of
the address space. -/
def TokensFit : Prop :=
  ∀ scan, loops.Comes xlen memory dtb_location scan →
    loops.InBlock xlen dtb_location scan.i →
    tokenAt xlen memory loops.convert scan.i ≠ FDT_END →
    tokenEnd xlen memory loops.convert (loops.dt_struct xlen dtb_location) scan.i <
      xlen.size

/-- One of the addresses that the loop over the reservations can come to ends
them. -/
def ReservationsEnd : Prop :=
  ∃ count,
    ReservationsEndAt xlen memory loops.swap64 (loops.dt_struct xlen dtb_location)
      (xlen.wrap (loops.rsvmap xlen dtb_location + 16 * count))

/-- A turn of the loop moves the cursor forward, to the end of the token. -/
def Forward : Prop :=
  ∀ scan next, loops.Comes xlen memory dtb_location scan →
    loops.turn xlen memory dtb_location scan = .again next →
    scan.i < next.i ∧
      next.i =
        tokenEnd xlen memory loops.convert (loops.dt_struct xlen dtb_location) scan.i

variable {loops xlen memory dtb_location}

theorem dt_struct_lt : loops.dt_struct xlen dtb_location < xlen.size :=
  xlen.wrap_lt _

/-- As long as every turn goes forward, the cursor is in the structure block or
behind it. -/
theorem Forward.behind
    (forward : loops.Forward xlen memory dtb_location)
    {scan : TreeScan xlen}
    (comes : loops.Comes xlen memory dtb_location scan) :
    loops.dt_struct xlen dtb_location ≤ scan.i := by
  have kept (middle next : TreeScan xlen)
      (both : loops.Comes xlen memory dtb_location middle ∧
        loops.dt_struct xlen dtb_location ≤ middle.i)
      (turn : loops.turn xlen memory dtb_location middle = .again next) :
      loops.Comes xlen memory dtb_location next ∧
        loops.dt_struct xlen dtb_location ≤ next.i := by
    have ahead := (forward middle next both.1 turn).1
    exact ⟨both.1.tail turn, by omega⟩
  exact (comes.keeps (fun middle => loops.Comes xlen memory dtb_location middle ∧
    loops.dt_struct xlen dtb_location ≤ middle.i) kept ⟨.refl _, Nat.le_refl _⟩).2

theorem TokensFit.forward
    (names : loops.NamesEnd xlen memory dtb_location)
    (fits : loops.TokensFit xlen memory dtb_location) :
    loops.Forward xlen memory dtb_location := by
  have step (scan next : TreeScan xlen)
      (comes : loops.Comes xlen memory dtb_location scan)
      (behind : loops.dt_struct xlen dtb_location ≤ scan.i)
      (turn : loops.turn xlen memory dtb_location scan = .again next) :
      scan.i < next.i ∧
        next.i =
          tokenEnd xlen memory loops.convert (loops.dt_struct xlen dtb_location)
            scan.i := by
    obtain ⟨inBlock, more⟩ := scan_turn_again_iff.mp ⟨next, turn⟩
    have cursor := scan_turn_next dt_struct_lt behind (names scan comes inBlock) turn
    rw [Xlen.wrap_of_lt (fits scan comes inBlock more)] at cursor
    exact ⟨cursor ▸ lt_tokenEnd _ _, cursor⟩
  have kept (middle next : TreeScan xlen)
      (both : loops.Comes xlen memory dtb_location middle ∧
        loops.dt_struct xlen dtb_location ≤ middle.i)
      (turn : loops.turn xlen memory dtb_location middle = .again next) :
      loops.Comes xlen memory dtb_location next ∧
        loops.dt_struct xlen dtb_location ≤ next.i := by
    have ahead := (step middle next both.1 both.2 turn).1
    exact ⟨both.1.tail turn, by omega⟩
  intro scan next comes turn
  have both := comes.keeps (fun middle => loops.Comes xlen memory dtb_location middle ∧
    loops.dt_struct xlen dtb_location ≤ middle.i) kept ⟨.refl _, Nat.le_refl _⟩
  exact step scan next comes both.2 turn

theorem Forward.tokensFit
    (names : loops.NamesEnd xlen memory dtb_location)
    (forward : loops.Forward xlen memory dtb_location) :
    loops.TokensFit xlen memory dtb_location := by
  intro scan comes inBlock more
  obtain ⟨next, turn⟩ := scan_turn_again_iff.mpr ⟨inBlock, more⟩
  have cursor := scan_turn_next dt_struct_lt (forward.behind comes)
    (names scan comes inBlock) turn
  rw [← (forward scan next comes turn).2, cursor]
  exact xlen.wrap_lt _

/-- A loop that goes forward comes to an end. -/
theorem Forward.returns
    (forward : loops.Forward xlen memory dtb_location) :
    ∃ final, Returns (loops.turn xlen memory dtb_location)
      ⟨loops.dt_struct xlen dtb_location, 0, 0, 0⟩ final := by
  refine Returns.of_decreasing (fun scan => xlen.size - scan.i) _ ?_
  intro scan next comes turn
  have ahead := (forward scan next comes turn).1
  obtain ⟨inBlock, -⟩ := scan_turn_again_iff.mp ⟨next, turn⟩
  have inside : scan.i < xlen.size := inBlock.2.trans (xlen.wrap_lt _)
  omega

end TreeLoops

theorem dtb_parse_iff
    {xlen : Xlen}
    {memory : Memory}
    {dtb_location : Nat}
    {initrd_start initrd_end : Option (Word xlen)}
    {result : Option (Word xlen) × Option (Word xlen)} :
    dtb_parse xlen memory dtb_location initrd_start initrd_end result ↔
      match tree_loops xlen memory dtb_location with
      | none => result = (initrd_start, initrd_end)
      | some loops =>
          ∃ final,
            parse_blocks xlen memory loops.convert loops.swap64 dtb_location
              loops.dtb_header final ∧
            result = (initrd_start.map fun _ => final.linux_initrd_start,
              initrd_end.map fun _ => final.linux_initrd_end) := by
  unfold dtb_parse tree_loops
  simp only
  split_ifs
  · rfl
  · rfl
  · rfl

/-- `dtb_parse` comes to an end, and each turn over the structure block moves
forward. -/
structure Progresses
    (xlen : Xlen) (memory : Memory) (dtb_location : Nat)
    (initrd_start initrd_end : Option (Word xlen)) : Prop where
  ends : ∃ result, dtb_parse xlen memory dtb_location initrd_start initrd_end result
  forward :
    ∀ loops, tree_loops xlen memory dtb_location = some loops →
      loops.Forward xlen memory dtb_location

/-- The scan goes on to its end if and only if each token that it comes to ends
before the end of the address space, and the reservations end. -/
theorem dtb_parse_progresses_iff
    {xlen : Xlen}
    {memory : Memory}
    {dtb_location : Nat}
    (initrd_start initrd_end : Option (Word xlen))
    (names :
      ∀ loops, tree_loops xlen memory dtb_location = some loops →
        loops.NamesEnd xlen memory dtb_location) :
    Progresses xlen memory dtb_location initrd_start initrd_end ↔
      ∀ loops, tree_loops xlen memory dtb_location = some loops →
        loops.TokensFit xlen memory dtb_location ∧
          loops.ReservationsEnd xlen memory dtb_location := by
  constructor
  · rintro ⟨⟨result, parses⟩, forward⟩ loops found
    refine ⟨(forward loops found).tokensFit (names loops found), ?_⟩
    rw [dtb_parse_iff, found] at parses
    obtain ⟨final, ⟨reservations, -⟩, -⟩ := parses
    exact (rsvmap_returns_iff (xlen.wrap_lt _)).mp reservations
  · intro fits
    have forward (loops : TreeLoops)
        (found : tree_loops xlen memory dtb_location = some loops) :
        loops.Forward xlen memory dtb_location :=
      (fits loops found).1.forward (names loops found)
    refine ⟨?_, forward⟩
    cases found : tree_loops xlen memory dtb_location with
    | none => exact ⟨_, dtb_parse_iff.mpr (by rw [found])⟩
    | some loops =>
        obtain ⟨final, returns⟩ := (forward loops found).returns
        have reservations := (rsvmap_returns_iff (xlen.wrap_lt _)).mpr (fits loops found).2
        refine ⟨(initrd_start.map fun _ => final.linux_initrd_start,
          initrd_end.map fun _ => final.linux_initrd_end), ?_⟩
        rw [dtb_parse_iff, found]
        exact ⟨final, ⟨reservations, returns⟩, rfl⟩

/-- A tree of a header, a free reservation and the words of a structure block. -/
def wordTree (structs : List (BitVec 32)) : List Byte :=
  [0xD00DFEED, 0x100, 56, 0xC0, 40, 17, 16, 0, 4,
    BitVec.ofNat 32 (4 * structs.length)].flatMap bigEndian32 ++
      (List.replicate 16 0 ++ structs.flatMap bigEndian32)

section WordTree

variable {structs : List (BitVec 32)}

/-- The tree in memory. -/
def wordTreeMemory (structs : List (BitVec 32)) : Memory :=
  .stored 0x80000000 (wordTree structs)

theorem wordTree_header
    (structs : List (BitVec 32))
    (k : Nat)
    (inside : k < 10) :
    dtb_parse_swap_endianess .rv32
        (wordAt .rv32 (wordTreeMemory structs) 0x80000000 (4 * k)) =
      [0xD00DFEED, 0x100, 56, 0xC0, 40, 17, 16, 0, 4,
        BitVec.ofNat 32 (4 * structs.length)].get ⟨k, inside⟩ := by
  have holds := (Memory.Holds.append_iff.mp
    (Memory.stored_holds 0x80000000 (wordTree structs))).1
  refine wordAt_eq (holds.item bigEndian32_length k inside) ?_
  show 0x80000000 + 4 * k + 3 < 2 ^ 32
  omega

theorem wordTree_struct
    (k : Nat)
    (inside : k < structs.length)
    (few : structs.length < 2 ^ 16) :
    dtb_parse_swap_endianess .rv32
        (wordAt .rv32 (wordTreeMemory structs) (0x80000038 + 4 * k) 0) =
      structs[k] := by
  obtain ⟨-, rest⟩ := Memory.Holds.append_iff.mp
    (Memory.stored_holds 0x80000000 (wordTree structs))
  obtain ⟨-, blocks⟩ := Memory.Holds.append_iff.mp rest
  refine wordAt_eq (blocks.item bigEndian32_length k inside) ?_
  show 0x80000038 + 4 * k + 3 < 2 ^ 32
  omega

/-- What `dtb_parse` makes of the header. -/
theorem wordTree_loops
    (structs : List (BitVec 32)) :
    ∃ loops, tree_loops .rv32 (wordTreeMemory structs) 0x80000000 = some loops ∧
      loops.convert = dtb_parse_swap_endianess .rv32 ∧
      loops.rsvmap .rv32 0x80000000 = 0x80000028 ∧
      loops.dt_struct .rv32 0x80000000 = 0x80000038 ∧
      loops.dt_strings .rv32 0x80000000 = 0x800000C0 ∧
      loops.dtb_header.size_dt_struct = BitVec.ofNat 32 (4 * structs.length) := by
  have magic : wordAt .rv32 (wordTreeMemory structs) 0x80000000 0 = 0xEDFE0DD0 := by
    rw [← dtb_parse_swap_endianess_twice .rv32 (wordAt _ _ _ _),
      wordTree_header structs 0 (by decide)]
    show dtb_parse_swap_endianess .rv32 (0xD00DFEED : BitVec 32) = 0xEDFE0DD0
    rw [dtb_parse_swap_endianess_32]
    decide
  have words := wordTree_header structs
  have structOffset := words 2 (by decide)
  have stringsOffset := words 3 (by decide)
  have rsvmapOffset := words 4 (by decide)
  have size := words 9 (by decide)
  have found : tree_loops .rv32 (wordTreeMemory structs) 0x80000000 =
      some ⟨dtb_parse_swap_endianess .rv32, dtb_parse_swap_endianess .rv32,
        .copied (dtb_parse_swap_endianess .rv32) .rv32 (wordTreeMemory structs)
          0x80000000⟩ := by
    unfold tree_loops
    rw [magic, if_neg (by decide), if_pos rfl]
  refine ⟨_, found, rfl, ?_, ?_, ?_, size⟩
  · show Xlen.rv32.wrap (0x80000000 + (dtb_parse_swap_endianess .rv32
      (wordAt .rv32 (wordTreeMemory structs) 0x80000000 (4 * 4))).toNat) = _
    rw [rsvmapOffset]
    rfl
  · show Xlen.rv32.wrap (0x80000000 + (dtb_parse_swap_endianess .rv32
      (wordAt .rv32 (wordTreeMemory structs) 0x80000000 (4 * 2))).toNat) = _
    rw [structOffset]
    rfl
  · show Xlen.rv32.wrap (0x80000000 + (dtb_parse_swap_endianess .rv32
      (wordAt .rv32 (wordTreeMemory structs) 0x80000000 (4 * 3))).toNat) = _
    rw [stringsOffset]
    rfl

end WordTree

/-- A node without a name, and the end of the block. -/
def nodeStructs : List (BitVec 32) :=
  [1, 0, 9]

/-- The scan of the tree with the node comes to its end. -/
theorem dtb_parse_progresses_node :
    Progresses .rv32 (wordTreeMemory nodeStructs) 0x80000000 none none := by
  obtain ⟨loops, found, convert, rsvmap, structs, strings, size⟩ :=
    wordTree_loops nodeStructs
  have only (other : TreeLoops)
      (otherFound :
        tree_loops .rv32 (wordTreeMemory nodeStructs) 0x80000000 = some other) :
      other = loops :=
    Option.some.inj (otherFound.symm.trans found)
  have node : tokenAt .rv32 (wordTreeMemory nodeStructs) loops.convert 0x80000038 =
      FDT_BEGIN_NODE := by
    rw [tokenAt, convert]
    exact wordTree_struct 0 (by decide) (by decide)
  have last : tokenAt .rv32 (wordTreeMemory nodeStructs) loops.convert 0x80000040 =
      FDT_END := by
    rw [tokenAt, convert]
    exact wordTree_struct 2 (by decide) (by decide)
  have unnamed :
      Spells (fromPointer .rv32 (wordTreeMemory nodeStructs)
        (Xlen.rv32.wrap (0x80000038 + 4))) [] :=
    Spells.nil_iff.mpr (by decide)
  have nodeEnd :
      tokenEnd .rv32 (wordTreeMemory nodeStructs) loops.convert 0x80000038 0x80000038 =
        0x80000040 := by
    rw [tokenEnd, if_pos node, strlen_eq unnamed (by decide)]
    rfl
  have step (scan next : TreeScan .rv32)
      (places : scan.i = 0x80000038 ∨ scan.i = 0x80000040)
      (turn : loops.turn .rv32 (wordTreeMemory nodeStructs) 0x80000000 scan =
        .again next) :
      next.i = 0x80000038 ∨ next.i = 0x80000040 := by
    rcases places with here | here
    · have cursor := scan_turn_next TreeLoops.dt_struct_lt
        (by rw [structs, here]) (fun _ => ⟨[], by rw [here]; exact unnamed⟩) turn
      rw [structs, here, nodeEnd] at cursor
      exact .inr cursor
    · have more := (scan_turn_again_iff.mp ⟨next, turn⟩).2
      rw [here, last] at more
      exact absurd rfl more
  have places (scan : TreeScan .rv32)
      (comes : loops.Comes .rv32 (wordTreeMemory nodeStructs) 0x80000000 scan) :
      scan.i = 0x80000038 ∨ scan.i = 0x80000040 :=
    comes.keeps (fun scan => scan.i = 0x80000038 ∨ scan.i = 0x80000040) step
      (.inl structs)
  refine (dtb_parse_progresses_iff none none ?_).mpr ?_
  · intro other otherFound scan comes _ begins
    rw [only other otherFound] at comes begins
    rcases places scan comes with here | here
    · exact ⟨[], by rw [here]; exact unnamed⟩
    · rw [here, last] at begins
      cases begins
  · intro other otherFound
    rw [only other otherFound]
    refine ⟨fun scan comes _ more => ?_, 1, .inl ?_⟩
    · rcases places scan comes with here | here
      · rw [structs, here, nodeEnd]
        decide
      · rw [here, last] at more
        exact absurd rfl more
    · rw [structs, rsvmap]
      decide

/-- A property of 2^32 - 12 bytes ends where it begins. -/
def wrappingStructs : List (BitVec 32) :=
  [3, 0xFFFFFFF4, 0, 9]

/-- The scan of the tree with the property never moves on, although every string
in memory is terminated. -/
theorem dtb_parse_stays :
    (∀ pointer, ∃ text,
      Spells (fromPointer .rv32 (wordTreeMemory wrappingStructs) pointer) text) ∧
      ¬∃ result, dtb_parse .rv32 (wordTreeMemory wrappingStructs) 0x80000000 none none
        result := by
  refine ⟨fun pointer => ?_, ?_⟩
  · have zero : wordTreeMemory wrappingStructs 0 = 0 := by
      decide
    apply Spells.exists_of_zero
      (show fromPointer .rv32 (wordTreeMemory wrappingStructs) pointer
        (2 ^ 32 - pointer % 2 ^ 32) = 0 from ?_)
    have start : Xlen.rv32.wrap (pointer + (2 ^ 32 - pointer % 2 ^ 32)) = 0 := by
      show (pointer + (2 ^ 32 - pointer % 2 ^ 32)) % 2 ^ 32 = 0
      omega
    rw [fromPointer, start, zero]
  obtain ⟨loops, found, convert, -, structs, strings, size⟩ :=
    wordTree_loops wrappingStructs
  rintro ⟨result, parses⟩
  rw [dtb_parse_iff, found] at parses
  obtain ⟨final, ⟨-, returns⟩, -⟩ := parses
  have token : tokenAt .rv32 (wordTreeMemory wrappingStructs) loops.convert 0x80000038 =
      FDT_PROP := by
    rw [tokenAt, convert]
    exact wordTree_struct 0 (by decide) (by decide)
  have length : lengthAt .rv32 (wordTreeMemory wrappingStructs) loops.convert 0x80000038 =
      0xFFFFFFF4 := by
    rw [lengthAt, convert]
    exact wordTree_struct 1 (by decide) (by decide)
  have stays (scan next : TreeScan .rv32)
      (here : scan.i = 0x80000038)
      (turn : loops.turn .rv32 (wordTreeMemory wrappingStructs) 0x80000000 scan =
        .again next) :
      next.i = 0x80000038 := by
    have cursor := scan_turn_next TreeLoops.dt_struct_lt
      (by rw [structs, here]) (fun node => by
        rw [here, token] at node
        cases node) turn
    rw [structs, here, tokenEnd, if_neg (by rw [token]; decide), if_pos token, length]
      at cursor
    rw [cursor]
    decide
  obtain ⟨last, reached, leaves⟩ := returns.exists_reaches
  have here : last.i = 0x80000038 :=
    reached.keeps (fun scan => scan.i = 0x80000038) stays structs
  have goesOn := scan_turn_again_iff.mpr
    (show (last.i < loops.dt_strings .rv32 0x80000000 ∧
      last.i < Xlen.rv32.wrap (loops.dt_struct .rv32 0x80000000 +
        loops.dtb_header.size_dt_struct.toNat)) ∧
      tokenAt .rv32 (wordTreeMemory wrappingStructs) loops.convert last.i ≠ FDT_END by
        rw [here, token, structs, strings, size]
        decide)
  obtain ⟨next, turn⟩ := goesOn
  have both : Turn.again next = Turn.leave final := turn.symm.trans leaves
  cases both

end Progress

end DataParse
end EchelonSbi
