import EchelonSbi.Memalloc.Chain

/-!
# Allocation on a chain

`firstFit` states on the list of sections what the loop of `kmalloc` does in
memory: it takes the lowest gap that is large enough.  `kmallocTurn_returns`
connects the two; the two overflow tests of the loop refuse only requests for
which there is no gap, and on a guarded chain every sum that overflows.
-/

namespace EchelonSbi
namespace Memalloc

open Foundation

/-- Put a section of `size` bytes directly behind `sect`.  A first section of
size 0 is only a header, which the new section then overwrites. -/
def occupy
    (sect : AllocSection) (size : Nat) (rest : List AllocSection) :
    List AllocSection :=
  if sect.size = 0 then ⟨sect.address, size⟩ :: rest
  else sect :: ⟨sect.address + sect.size, size⟩ :: rest

/-- The address of the lowest gap of at least `size` bytes and the chain after
it is taken. -/
def firstFit (high size : Nat) :
    List AllocSection → Option (Nat × List AllocSection)
  | [] => none
  | [sect] =>
      if sect.address + sect.size + size ≤ high then
        some (sect.address + sect.size, occupy sect size [])
      else none
  | sect :: next :: rest =>
      if sect.address + sect.size + size ≤ next.address then
        some (sect.address + sect.size, occupy sect size (next :: rest))
      else
        (firstFit high size (next :: rest)).map fun found =>
          (found.1, sect :: found.2)

/-- At every section the search reaches, one of the two overflow tests of the
loop refuses a sum that overflows. -/
def Guarded (xlen : Xlen) (size : Nat) : List AllocSection → Prop
  | [] => True
  | [sect] =>
      xlen.size ≤ sect.address + size ∨ sect.size + size < xlen.size
  | sect :: next :: rest =>
      (xlen.size ≤ sect.address + size ∨ sect.size + size < xlen.size) ∧
        (next.address < sect.address + sect.size + size →
          Guarded xlen size (next :: rest))

theorem Guarded.head
    {xlen : Xlen}
    {size : Nat}
    {sect : AllocSection}
    {rest : List AllocSection}
    (guarded : Guarded xlen size (sect :: rest)) :
    xlen.size ≤ sect.address + size ∨ sect.size + size < xlen.size := by
  cases rest with
  | nil => exact guarded
  | cons next rest => exact guarded.1

/-- No overflow gets past the tests where no section is larger than its
address. -/
theorem Ordered.guarded
    {xlen : Xlen}
    {low high : Nat}
    {chain : List AllocSection}
    (ordered : Ordered xlen high low chain)
    (short : high ≤ 2 * low)
    (size : Nat) :
    Guarded xlen size chain := by
  induction chain generalizing low with
  | nil => trivial
  | cons sect rest inductionHypothesis =>
      obtain ⟨lowBound, restOrdered⟩ := ordered
      have above := sect.address_add_size_le_stop xlen
      have stopHigh := restOrdered.low_le_high
      cases rest with
      | nil => exact show _ ∨ _ by omega
      | cons next rest =>
          exact ⟨by omega, fun _ => inductionHypothesis restOrdered (by omega)⟩

/-- A request larger than the whole range has no gap. -/
theorem firstFit_eq_none
    {xlen : Xlen}
    {low high size : Nat}
    {chain : List AllocSection}
    (ordered : Ordered xlen high low chain)
    (large : high < low + size) :
    firstFit high size chain = none := by
  induction chain generalizing low with
  | nil => rfl
  | cons sect rest inductionHypothesis =>
      obtain ⟨lowBound, restOrdered⟩ := ordered
      have above := sect.address_add_size_le_stop xlen
      cases rest with
      | nil =>
          simp only [firstFit]
          rw [if_neg (by omega)]
      | cons next rest =>
          have nextHigh := (restOrdered.bounds List.mem_cons_self).2
          have := next.address_add_size_le_stop xlen
          simp only [firstFit]
          rw [if_neg (by omega), inductionHypothesis restOrdered (by omega)]
          rfl

/-- The gap found starts inside the range. -/
theorem le_of_firstFit
    {xlen : Xlen}
    {low high size found : Nat}
    {chain after : List AllocSection}
    (ordered : Ordered xlen high low chain)
    (fit : firstFit high size chain = some (found, after)) :
    low ≤ found ∧ found + size ≤ high := by
  induction chain generalizing low after with
  | nil => simp [firstFit] at fit
  | cons sect rest inductionHypothesis =>
      obtain ⟨lowBound, restOrdered⟩ := ordered
      have above := sect.address_add_size_le_stop xlen
      cases rest with
      | nil =>
          simp only [firstFit, Option.ite_none_right_eq_some,
            Option.some.injEq, Prod.mk.injEq] at fit
          omega
      | cons next rest =>
          have nextHigh := (restOrdered.bounds List.mem_cons_self).2
          have := next.address_add_size_le_stop xlen
          simp only [firstFit] at fit
          split at fit
          · simp only [Option.some.injEq, Prod.mk.injEq] at fit
            omega
          · obtain ⟨⟨address, tail⟩, tailFit, equal⟩ :=
              Option.map_eq_some_iff.mp fit
            simp only [Prod.mk.injEq] at equal
            obtain ⟨rfl, _⟩ := equal
            have := inductionHypothesis restOrdered tailFit
            omega

/-- Reading `section->size`, `section->next` and any other word after the three
stores of `placeAfter`. -/
theorem placeAfter_mem
    {xlen : Xlen}
    {heap : Heap}
    {section_ : Nat}
    (size next : Nat)
    (fits : section_ + heap.sizeAt section_ + headerSize xlen < xlen.size)
    (apart : heap.sizeAt section_ = 0 ∨
      headerSize xlen ≤ heap.sizeAt section_) :
    let new := section_ + heap.sizeAt section_
    let after := (placeAfter xlen heap section_ size next).2
    (placeAfter xlen heap section_ size next).1 = new + headerSize xlen ∧
      after.sizeAt new = size ∧ after.nextAt xlen new = next ∧
      (heap.sizeAt section_ ≠ 0 →
        after.sizeAt section_ = heap.sizeAt section_ ∧
          after.nextAt xlen section_ = new) ∧
      ∀ cell, cell ≠ section_ + xlen.bytes → cell ≠ new →
        cell ≠ new + xlen.bytes → after.mem cell = heap.mem cell := by
  have bytesPos := xlen.bytes_pos
  have header : headerSize xlen = 2 * xlen.bytes := rfl
  have wrapNew : xlen.wrap (section_ + heap.sizeAt section_) =
      section_ + heap.sizeAt section_ := Xlen.wrap_of_lt (by omega)
  have wrapPayload : xlen.wrap
      (section_ + heap.sizeAt section_ + headerSize xlen) =
      section_ + heap.sizeAt section_ + headerSize xlen :=
    Xlen.wrap_of_lt fits
  have wrapSectionNext : xlen.wrap (section_ + xlen.bytes) =
      section_ + xlen.bytes := Xlen.wrap_of_lt (by omega)
  have wrapNewNext : xlen.wrap
      (section_ + heap.sizeAt section_ + xlen.bytes) =
      section_ + heap.sizeAt section_ + xlen.bytes :=
    Xlen.wrap_of_lt (by omega)
  simp only [placeAfter, Heap.setNext, Heap.setSize, Heap.store, wrapNew,
    wrapPayload, wrapSectionNext, wrapNewNext]
  simp only [Heap.sizeAt, Heap.nextAt] at wrapNewNext wrapSectionNext apart ⊢
  refine ⟨trivial, ?_, ?_, ?_, ?_⟩
  · rw [Function.update_of_ne (by omega), Function.update_self]
  · rw [wrapNewNext, Function.update_self]
  · intro occupied
    refine ⟨?_, ?_⟩
    · rw [Function.update_of_ne (by omega), Function.update_of_ne (by omega),
        Function.update_of_ne (by omega)]
    · rw [wrapSectionNext, Function.update_of_ne (by omega),
        Function.update_of_ne (by omega), Function.update_self]
  · intro cell notSectionNext notNew notNewNext
    rw [Function.update_of_ne notNewNext, Function.update_of_ne notNew,
      Function.update_of_ne notSectionNext]

/-- Storing the new header turns a linked chain into the occupied one; it
writes the header and the link in front of it. -/
theorem placeAfter_linked
    {xlen : Xlen}
    {heap : Heap}
    (size : Nat)
    {sect : AllocSection}
    {rest : List AllocSection}
    (sizeRead : heap.sizeAt sect.address = sect.size)
    (restLinked : Linked xlen heap (heap.nextAt xlen sect.address) rest)
    (restOrdered : Ordered xlen heap.mem_block_end
      (sect.address + sect.size + size) rest)
    (shaped : sect.size = 0 ∨ sect.InUse xlen)
    (large : headerSize xlen ≤ size)
    (fits : heap.mem_block_end < xlen.size) :
    let placed := placeAfter xlen heap sect.address size
      (heap.nextAt xlen sect.address)
    placed.1 = sect.address + sect.size + headerSize xlen ∧
      Linked xlen placed.2 sect.address (occupy sect size rest) ∧
      ∀ cell, cell ≠ sect.address + xlen.bytes →
        cell ≠ sect.address + sect.size →
        cell ≠ sect.address + sect.size + xlen.bytes →
        placed.2.mem cell = heap.mem cell := by
  have bytesPos := xlen.bytes_pos
  have header : headerSize xlen = 2 * xlen.bytes := rfl
  have highBound := restOrdered.low_le_high
  have apart : heap.sizeAt sect.address = 0 ∨
      headerSize xlen ≤ heap.sizeAt sect.address := by
    rw [sizeRead]
    exact shaped.imp_right fun inUse => by
      have := inUse.1
      omega
  obtain ⟨payloadRead, newSize, newNext, sectKept, othersKept⟩ :=
    placeAfter_mem size (heap.nextAt xlen sect.address) (by omega) apart
  rw [sizeRead] at payloadRead newSize newNext sectKept othersKept
  have restKept : Linked xlen
      (placeAfter xlen heap sect.address size
        (heap.nextAt xlen sect.address)).2
      (heap.nextAt xlen sect.address) rest := by
    apply restLinked.frame_above restOrdered fits
    intro cell above
    exact othersKept cell (by omega) (by omega) (by omega)
  refine ⟨payloadRead, ?_, othersKept⟩
  unfold occupy
  split
  next empty =>
    rw [empty, Nat.add_zero] at newSize newNext
    exact ⟨rfl, newSize, by rw [newNext]; exact restKept⟩
  next occupied =>
    obtain ⟨sizeKept, nextRead⟩ := sectKept occupied
    refine ⟨rfl, sizeKept, ?_⟩
    rw [nextRead]
    exact ⟨rfl, newSize, by rw [newNext]; exact restKept⟩

/-- Without overflow the loop of `kmalloc` compares exact sums. -/
theorem kmallocTurn_of_fits
    (xlen : Xlen)
    {heap : Heap}
    (size : Nat)
    {section_ : Nat}
    (inside : section_ < heap.mem_block_end)
    (exact_ : section_ + heap.sizeAt section_ + size < xlen.size) :
    kmallocTurn xlen heap size section_ =
      if heap.nextAt xlen section_ = 0 then
        if section_ + heap.sizeAt section_ + size ≤ heap.mem_block_end then
          .leave (placeAfter xlen heap section_ size 0)
        else .leave (0, heap)
      else if section_ + heap.sizeAt section_ + size ≤
          heap.nextAt xlen section_ then
        .leave (placeAfter xlen heap section_ size
          (heap.nextAt xlen section_))
      else .again (heap.nextAt xlen section_) := by
  have first : xlen.wrap (section_ + size) = section_ + size :=
    Xlen.wrap_of_lt (by omega)
  have second : xlen.wrap (section_ + heap.sizeAt section_) =
      section_ + heap.sizeAt section_ := Xlen.wrap_of_lt (by omega)
  have third : xlen.wrap (section_ + heap.sizeAt section_ + size) =
      section_ + heap.sizeAt section_ + size := Xlen.wrap_of_lt exact_
  simp only [kmallocTurn, first, second, third]
  rw [if_pos inside, if_neg (by omega), if_neg (by omega)]

/-- A sum that overflows is refused where one of the two tests catches it. -/
theorem kmallocTurn_of_overflow
    {xlen : Xlen}
    {heap : Heap}
    {size section_ : Nat}
    (inside : section_ < heap.mem_block_end)
    (guarded : xlen.size ≤ section_ + size ∨
      heap.sizeAt section_ + size < xlen.size)
    (ends : section_ + heap.sizeAt section_ < xlen.size)
    (sizeFits : size < xlen.size)
    (overflow : xlen.size ≤ section_ + heap.sizeAt section_ + size) :
    kmallocTurn xlen heap size section_ = .leave (0, heap) := by
  have second : xlen.wrap (section_ + heap.sizeAt section_) =
      section_ + heap.sizeAt section_ := Xlen.wrap_of_lt ends
  simp only [kmallocTurn, second]
  rw [if_pos inside]
  by_cases first : xlen.wrap (section_ + size) < section_
  · rw [if_pos first]
  · have small : section_ + size < xlen.size := by
      have := (Xlen.wrap_add_lt_left_iff (by omega) sizeFits).not.mp first
      omega
    rw [if_neg first, Xlen.wrap_of_le overflow (by omega),
      if_pos (by omega)]

/-- The loop of `kmalloc` on a chain stops; it returns 0 and writes nothing
when there is no gap, and takes the lowest gap when there is one. -/
theorem kmallocTurn_returns
    {xlen : Xlen}
    {heap : Heap}
    {size address low : Nat}
    {chain : List AllocSection}
    (linked : Linked xlen heap address chain)
    (ordered : Ordered xlen heap.mem_block_end low chain)
    (nonempty : chain ≠ [])
    (shaped : ∀ sect ∈ chain, sect.size = 0 ∨ sect.InUse xlen)
    (guarded : Guarded xlen size chain)
    (fits : heap.mem_block_end < xlen.size)
    (large : headerSize xlen ≤ size)
    (sizeFits : size < xlen.size) :
    match firstFit heap.mem_block_end size chain with
    | none => Returns (kmallocTurn xlen heap size) address (0, heap)
    | some (found, taken) => ∃ after,
        Returns (kmallocTurn xlen heap size) address
          (found + headerSize xlen, after) ∧
        after.mem_block_start = heap.mem_block_start ∧
        after.mem_block_end = heap.mem_block_end ∧
        Linked xlen after address taken ∧
        ∃ prev ∈ chain, prev.address + prev.size = found ∧
          ∀ cell, cell ≠ prev.address + xlen.bytes → cell ≠ found →
            cell ≠ found + xlen.bytes → after.mem cell = heap.mem cell := by
  induction chain generalizing address low with
  | nil => exact absurd rfl nonempty
  | cons sect rest inductionHypothesis =>
      obtain ⟨rfl, sizeRead, restLinked⟩ := linked
      obtain ⟨lowBound, restOrdered⟩ := ordered
      have bytesPos := xlen.bytes_pos
      have header : headerSize xlen = 2 * xlen.bytes := rfl
      have stopHigh := restOrdered.low_le_high
      have stopDef : sect.stop xlen =
        sect.address + max sect.size (headerSize xlen) := rfl
      have inside : sect.address < heap.mem_block_end := by omega
      by_cases overflow : xlen.size ≤ sect.address + sect.size + size
      · have none_ : firstFit heap.mem_block_end size (sect :: rest) = none := by
          cases rest with
          | nil =>
              simp only [firstFit]
              rw [if_neg (by omega)]
          | cons next rest =>
              have nextBounds := restOrdered.bounds List.mem_cons_self
              have := next.address_add_size_le_stop xlen
              simp only [firstFit]
              rw [if_neg (by omega),
                firstFit_eq_none restOrdered (by omega)]
              rfl
        rw [none_]
        apply Returns.of_leave
        apply kmallocTurn_of_overflow inside
        · rw [sizeRead]
          exact guarded.head
        · omega
        · exact sizeFits
        · rw [sizeRead]
          exact overflow
      · have turn := kmallocTurn_of_fits xlen size inside (by omega)
        rw [sizeRead] at turn
        have place := fun restOrdered => placeAfter_linked size
          sizeRead restLinked restOrdered
          (shaped sect List.mem_cons_self) large fits
        cases rest with
        | nil =>
            have ended : heap.nextAt xlen sect.address = 0 := restLinked
            rw [if_pos ended] at turn
            simp only [firstFit]
            by_cases gap : sect.address + sect.size + size ≤ heap.mem_block_end
            · rw [if_pos gap] at turn
              obtain ⟨payloadRead, placedLinked, kept⟩ := place gap
              rw [ended] at payloadRead placedLinked kept
              rw [if_pos gap]
              exact ⟨_, .of_leave (turn.trans
                (congrArg Turn.leave (Prod.ext payloadRead rfl))), rfl, rfl,
                placedLinked, sect, List.mem_cons_self, rfl, kept⟩
            · rw [if_neg gap] at turn ⊢
              exact .of_leave turn
        | cons next rest =>
            have nextRead : heap.nextAt xlen sect.address = next.address :=
              restLinked.1
            have nextBounds := restOrdered.bounds List.mem_cons_self
            rw [if_neg (by omega)] at turn
            simp only [firstFit]
            by_cases gap : sect.address + sect.size + size ≤ next.address
            · rw [if_pos (by omega)] at turn
              obtain ⟨payloadRead, placedLinked, kept⟩ :=
                place ⟨gap, restOrdered.2⟩
              rw [if_pos gap]
              exact ⟨_, .of_leave (turn.trans
                (congrArg Turn.leave (Prod.ext payloadRead rfl))), rfl, rfl,
                placedLinked, sect, List.mem_cons_self, rfl, kept⟩
            · rw [if_neg (by omega)] at turn
              rw [if_neg gap]
              have recurse := inductionHypothesis restLinked restOrdered
                (by simp)
                (fun other present =>
                  shaped other (List.mem_cons_of_mem _ present))
                (guarded.2 (by omega))
              cases tailFit :
                  firstFit heap.mem_block_end size (next :: rest) with
              | none =>
                  rw [tailFit] at recurse
                  exact .of_again turn recurse
              | some found =>
                  obtain ⟨address, taken⟩ := found
                  rw [tailFit] at recurse
                  obtain ⟨after, returned, startKept, endKept, takenLinked,
                    prev, inRest, ends, kept⟩ := recurse
                  have prevAbove := (restOrdered.bounds inRest).1
                  refine ⟨after, .of_again turn returned, startKept, endKept,
                    ⟨rfl, ?_, ?_⟩, prev, List.mem_cons_of_mem _ inRest, ends,
                    kept⟩
                  · exact (kept _ (by omega) (by omega) (by omega)).trans
                      sizeRead
                  · have nextKept : after.nextAt xlen sect.address =
                        heap.nextAt xlen sect.address := by
                      unfold Heap.nextAt
                      rw [Xlen.wrap_of_lt (by omega)]
                      exact kept _ (by omega) (by omega) (by omega)
                    rw [nextKept]
                    exact takenLinked

/-- What taking the lowest gap does to a chain: it stays ordered, and its
sections in use are the old ones and the new one. -/
structure FillsGap
    (xlen : Xlen) (high low size found : Nat)
    (chain taken : List AllocSection) : Prop where
  ordered : Ordered xlen high low taken
  nonempty : taken ≠ []
  shaped : ∀ sect ∈ taken, sect.size = 0 ∨ sect.InUse xlen
  mem_iff : ∀ sect, (sect ∈ taken ∧ sect.size ≠ 0) ↔
    (sect ∈ chain ∧ sect.size ≠ 0) ∨ sect = ⟨found, size⟩
  fresh : ∀ sect ∈ chain, sect.size ≠ 0 → sect.address ≠ found
  behind : ∃ prev ∈ chain, prev.address + prev.size = found
  vacant : ∀ sect ∈ taken, sect.size = 0 → sect ∈ chain
  tailVacant : ∀ sect ∈ taken.tail, sect.size = 0 → sect ∈ chain.tail

/-- Taking the gap directly behind the first section. -/
theorem occupy_fillsGap
    {xlen : Xlen}
    {low high size : Nat}
    {sect : AllocSection}
    {rest : List AllocSection}
    (ordered : Ordered xlen high low (sect :: rest))
    (gap : Ordered xlen high (sect.address + sect.size + size) rest)
    (shaped : ∀ other ∈ sect :: rest, other.size = 0 ∨ other.InUse xlen)
    (new : AllocSection.InUse xlen ⟨sect.address + sect.size, size⟩) :
    FillsGap xlen high low size (sect.address + sect.size)
      (sect :: rest) (occupy sect size rest) := by
  have bytesPos := xlen.bytes_pos
  have newSize := new.size_ne_zero
  have large := new.1
  simp only at newSize large
  have stopDef : AllocSection.stop xlen ⟨sect.address + sect.size, size⟩ =
      sect.address + sect.size + size := by
    simp only [AllocSection.stop]
    omega
  have restAbove : ∀ other ∈ rest,
      sect.address + sect.size + size ≤ other.address :=
    fun other present => (gap.bounds present).1
  have restShaped : ∀ other ∈ rest, other.size = 0 ∨ other.InUse xlen :=
    fun other present => shaped other (List.mem_cons_of_mem _ present)
  have lowBound := ordered.1
  have behind : ∃ prev ∈ sect :: rest,
      prev.address + prev.size = sect.address + sect.size :=
    ⟨sect, List.mem_cons_self, rfl⟩
  unfold occupy
  by_cases empty : sect.size = 0
  · rw [if_pos empty]
    rw [empty, Nat.add_zero] at new stopDef restAbove gap behind ⊢
    refine ⟨⟨lowBound, by rw [stopDef]; exact gap⟩, by simp, ?_, ?_, ?_,
      behind, ?_, fun other present _ => present⟩
    · intro other present
      rcases List.mem_cons.mp present with rfl | inRest
      · exact .inr new
      · exact restShaped other inRest
    · intro other
      simp only [List.mem_cons]
      constructor
      · rintro ⟨rfl | inRest, occupied⟩
        · exact .inr rfl
        · exact .inl ⟨.inr inRest, occupied⟩
      · rintro (⟨rfl | inRest, occupied⟩ | rfl)
        · exact absurd empty occupied
        · exact ⟨.inr inRest, occupied⟩
        · exact ⟨.inl rfl, newSize⟩
    · intro other present occupied
      rcases List.mem_cons.mp present with rfl | inRest
      · exact absurd empty occupied
      · have := restAbove other inRest
        omega
    · intro other present vacant
      rcases List.mem_cons.mp present with rfl | inRest
      · exact absurd vacant newSize
      · exact List.mem_cons_of_mem _ inRest
  · rw [if_neg empty]
    have inUse : sect.InUse xlen :=
      (shaped sect List.mem_cons_self).resolve_left empty
    have sectStop : sect.stop xlen = sect.address + sect.size := by
      have := inUse.1
      simp only [AllocSection.stop]
      omega
    have shapedAfter : ∀ other ∈
        sect :: ⟨sect.address + sect.size, size⟩ :: rest,
        other.size = 0 ∨ other.InUse xlen := by
      intro other present
      simp only [List.mem_cons] at present
      rcases present with rfl | rfl | inRest
      · exact .inr inUse
      · exact .inr new
      · exact restShaped other inRest
    refine ⟨⟨lowBound, by rw [sectStop], by rw [stopDef]; exact gap⟩, by simp,
      shapedAfter, ?_, ?_, behind, ?_, ?_⟩
    · intro other
      simp only [List.mem_cons]
      constructor
      · rintro ⟨rfl | rfl | inRest, occupied⟩
        · exact .inl ⟨.inl rfl, occupied⟩
        · exact .inr rfl
        · exact .inl ⟨.inr inRest, occupied⟩
      · rintro (⟨rfl | inRest, occupied⟩ | rfl)
        · exact ⟨.inl rfl, occupied⟩
        · exact ⟨.inr (.inr inRest), occupied⟩
        · exact ⟨.inr (.inl rfl), newSize⟩
    · intro other present occupied
      rcases List.mem_cons.mp present with rfl | inRest
      · omega
      · have := restAbove other inRest
        omega
    · intro other present vacant
      simp only [List.mem_cons] at present
      rcases present with rfl | rfl | inRest
      · exact absurd vacant empty
      · exact absurd vacant newSize
      · exact List.mem_cons_of_mem _ inRest
    · intro other present vacant
      rcases List.mem_cons.mp present with rfl | inRest
      · exact absurd vacant newSize
      · exact inRest

/-- The gap `firstFit` finds is free and stays apart from every section. -/
theorem firstFit_fillsGap
    {xlen : Xlen}
    {low high size found : Nat}
    {chain taken : List AllocSection}
    (ordered : Ordered xlen high low chain)
    (shaped : ∀ sect ∈ chain, sect.size = 0 ∨ sect.InUse xlen)
    (large : headerSize xlen + xlen.bytes ≤ size)
    (sizeAligned : xlen.bytes ∣ size)
    (fit : firstFit high size chain = some (found, taken)) :
    FillsGap xlen high low size found chain taken := by
  induction chain generalizing low taken with
  | nil => simp [firstFit] at fit
  | cons sect rest inductionHypothesis =>
      have new : AllocSection.InUse xlen
          ⟨sect.address + sect.size, size⟩ := ⟨large, sizeAligned⟩
      cases rest with
      | nil =>
          simp only [firstFit, Option.ite_none_right_eq_some,
            Option.some.injEq, Prod.mk.injEq] at fit
          obtain ⟨gap, rfl, rfl⟩ := fit
          exact occupy_fillsGap ordered gap shaped new
      | cons next rest =>
          simp only [firstFit] at fit
          split at fit
          next gap =>
            simp only [Option.some.injEq, Prod.mk.injEq] at fit
            obtain ⟨rfl, rfl⟩ := fit
            exact occupy_fillsGap ordered ⟨gap, ordered.2.2⟩ shaped new
          next noGap =>
            obtain ⟨⟨address, tail⟩, tailFit, equal⟩ :=
              Option.map_eq_some_iff.mp fit
            simp only [Prod.mk.injEq] at equal
            obtain ⟨rfl, rfl⟩ := equal
            obtain ⟨lowBound, restOrdered⟩ := ordered
            have recurse := inductionHypothesis restOrdered
              (fun other present =>
                shaped other (List.mem_cons_of_mem _ present)) tailFit
            have above := (le_of_firstFit restOrdered tailFit).1
            have header : 0 < headerSize xlen := by
              have := xlen.bytes_pos
              unfold headerSize
              omega
            obtain ⟨prev, inRest, ends⟩ := recurse.behind
            refine ⟨⟨lowBound, recurse.ordered⟩, by simp, ?_, ?_, ?_,
              ⟨prev, List.mem_cons_of_mem _ inRest, ends⟩, ?_,
              recurse.vacant⟩
            · intro other present
              rcases List.mem_cons.mp present with rfl | inTail
              · exact shaped other List.mem_cons_self
              · exact recurse.shaped other inTail
            · intro other
              rw [List.mem_cons, List.mem_cons, or_and_right, or_and_right,
                recurse.mem_iff other, or_assoc]
            · intro other present occupied
              rcases List.mem_cons.mp present with rfl | inRest
              · unfold AllocSection.stop at above
                omega
              · exact recurse.fresh other inRest occupied
            · intro other present vacant
              rcases List.mem_cons.mp present with rfl | inTail
              · exact List.mem_cons_self
              · exact List.mem_cons_of_mem _
                  (recurse.vacant other inTail vacant)

/-- What taking the lowest gap does to a chain of aligned sections of which
only the first can be empty. -/
structure TakesGap
    (xlen : Xlen) (high low size found : Nat)
    (chain taken : List AllocSection) : Prop where
  packed : Packed xlen high low taken
  nonempty : taken ≠ []
  shaped : ∀ sect ∈ taken, sect.size = 0 ∨ sect.InUse xlen
  tailInUse : ∀ sect ∈ taken.tail, sect.InUse xlen
  allInUse : (∀ sect ∈ chain, sect.InUse xlen) →
    ∀ sect ∈ taken, sect.InUse xlen
  mem_iff : ∀ sect, (sect ∈ taken ∧ sect.size ≠ 0) ↔
    (sect ∈ chain ∧ sect.size ≠ 0) ∨ sect = ⟨found, size⟩
  fresh : ∀ sect ∈ chain, sect.size ≠ 0 → sect.address ≠ found

theorem FillsGap.takesGap
    {xlen : Xlen}
    {low high size found : Nat}
    {chain taken : List AllocSection}
    (fills : FillsGap xlen high low size found chain taken)
    (packed : Packed xlen high low chain)
    (shaped : ∀ sect ∈ chain, sect.size = 0 ∨ sect.InUse xlen)
    (tailInUse : ∀ sect ∈ chain.tail, sect.InUse xlen) :
    TakesGap xlen high low size found chain taken := by
  refine ⟨.of_ordered fills.ordered ?_, fills.nonempty, fills.shaped, ?_, ?_,
    fills.mem_iff, fills.fresh⟩
  · intro sect present
    by_cases vacant : sect.size = 0
    · exact packed.aligned (fills.vacant sect present vacant)
    rcases (fills.mem_iff sect).mp ⟨present, vacant⟩ with old | rfl
    · exact packed.aligned old.1
    · obtain ⟨prev, inChain, ends⟩ := fills.behind
      rw [← ends]
      apply Nat.dvd_add (packed.aligned inChain)
      rcases shaped prev inChain with empty | inUse
      · rw [empty]
        exact Nat.dvd_zero _
      · exact inUse.2
  · intro sect present
    apply (fills.shaped sect (List.mem_of_mem_tail present)).resolve_left
    intro vacant
    exact (tailInUse sect
      (fills.tailVacant sect present vacant)).size_ne_zero vacant
  · intro allInUse sect present
    apply (fills.shaped sect present).resolve_left
    intro vacant
    exact (allInUse sect (fills.vacant sect present vacant)).size_ne_zero
      vacant

end Memalloc
end EchelonSbi
