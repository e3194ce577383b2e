import EchelonSbi.Memalloc.Chain

/-!
# Freeing on a chain

`releaseBehind` states on the list of sections what the loop of `kfree` does in
memory: a section with a predecessor is unlinked, one without keeps its header
with size 0.  An address that starts no section is searched for and left alone.
The code takes the address 0 for "no predecessor".  `release` is what this
comes to when no section is at address 0.
-/

namespace EchelonSbi
namespace Memalloc

open Foundation

/-- Remove the section at `target` from a chain that follows the section at
`prev`. -/
def releaseBehind (prev target : Nat) : List AllocSection → List AllocSection
  | [] => []
  | sect :: rest =>
      if sect.address = target then
        if sect.size = 0 then sect :: rest
        else if prev = 0 then ⟨sect.address, 0⟩ :: rest
        else rest
      else sect :: releaseBehind sect.address target rest

/-- Remove the section at `target` from a chain. -/
def release (target : Nat) : List AllocSection → List AllocSection
  | [] => []
  | first :: rest =>
      if first.address = target then ⟨first.address, 0⟩ :: rest
      else first :: rest.filter fun sect => sect.address ≠ target

/-- The loop of `kfree`, at `address` behind a section `prev` or at the start of the
chain, removes the section at `target` and leaves `after`. -/
structure Releases
    (xlen : Xlen) (heap : Heap) (target prev address : Nat)
    (chain : List AllocSection) (after : Heap) : Prop where
  returns : Returns (kfreeTurn xlen heap target) (address, prev) after
  start_eq : after.mem_block_start = heap.mem_block_start
  end_eq : after.mem_block_end = heap.mem_block_end
  linked : Linked xlen after (if prev = 0 then address else after.nextAt xlen prev)
    (releaseBehind prev target chain)
  untouched : (∀ sect ∈ chain, sect.size ≠ 0 → sect.address ≠ target) → after = heap
  kept : ∀ cell, (prev ≠ 0 → cell ≠ prev + xlen.bytes) →
    (∀ sect ∈ chain, cell ≠ sect.address ∧ cell ≠ sect.address + xlen.bytes) →
    after.mem cell = heap.mem cell

/-- The loop of `kfree` is at the section `sect`. -/
structure AtSection
    (xlen : Xlen) (heap : Heap) (prev low : Nat)
    (sect : AllocSection) (rest : List AllocSection) : Prop where
  linked : Linked xlen heap sect.address (sect :: rest)
  ordered : Ordered xlen heap.mem_block_end low (sect :: rest)
  link : prev ≠ 0 → heap.nextAt xlen prev = sect.address ∧ prev + headerSize xlen ≤ low
  fits : heap.mem_block_end < xlen.size

namespace AtSection

variable {xlen : Xlen} {heap after : Heap} {prev low target : Nat}
  {sect : AllocSection} {rest : List AllocSection}

theorem inside
    (current : AtSection xlen heap prev low sect rest) :
    sect.address + headerSize xlen ≤ heap.mem_block_end := by
  have stopHigh := current.ordered.2.low_le_high
  have stopDef : sect.stop xlen =
    sect.address + max sect.size (headerSize xlen) := rfl
  omega

theorem wrap_next
    (current : AtSection xlen heap prev low sect rest) :
    xlen.wrap (sect.address + xlen.bytes) = sect.address + xlen.bytes := by
  have header : headerSize xlen = 2 * xlen.bytes := rfl
  have inside := current.inside
  have fits := current.fits
  exact Xlen.wrap_of_lt (by omega)

theorem wrap_prev
    (current : AtSection xlen heap prev low sect rest)
    (positive : prev ≠ 0) :
    xlen.wrap (prev + xlen.bytes) = prev + xlen.bytes := by
  have header : headerSize xlen = 2 * xlen.bytes := rfl
  have inside := current.inside
  have fits := current.fits
  have low := current.ordered.1
  have below := (current.link positive).2
  exact Xlen.wrap_of_lt (by omega)

theorem rest_above
    (current : AtSection xlen heap prev low sect rest) :
    ∀ other ∈ rest, sect.stop xlen ≤ other.address :=
  fun _ present => (current.ordered.2.bounds present).1

/-- The loop came to the section by the link in front of it. -/
theorem entered
    (current : AtSection xlen heap prev low sect rest) :
    (if prev = 0 then sect.address else heap.nextAt xlen prev) = sect.address := by
  split
  · rfl
  · next positive => exact (current.link positive).1

/-- A section that is not in use stays. -/
theorem releases_empty
    (current : AtSection xlen heap prev low sect rest)
    (found : sect.address = target)
    (empty : sect.size = 0) :
    Releases xlen heap target prev sect.address (sect :: rest) heap := by
  have bytesPos := xlen.bytes_pos
  have header : headerSize xlen = 2 * xlen.bytes := rfl
  have inside := current.inside
  have turn : kfreeTurn xlen heap target (sect.address, prev) = .leave heap := by
    have sizeRead := current.linked.2.1
    simp only [kfreeTurn]
    rw [if_pos (by omega), if_pos found, if_pos (by omega)]
  refine ⟨.of_leave turn, rfl, rfl, ?_, fun _ => rfl, fun _ _ _ => rfl⟩
  rw [releaseBehind, if_pos found, if_pos empty, current.entered]
  exact current.linked

/-- Of the first section the header stays, with size 0. -/
theorem releases_first
    (current : AtSection xlen heap prev low sect rest)
    (found : sect.address = target)
    (empty : sect.size ≠ 0)
    (first : prev = 0) :
    Releases xlen heap target prev sect.address (sect :: rest)
      (heap.setSize sect.address 0) := by
  have bytesPos := xlen.bytes_pos
  have header : headerSize xlen = 2 * xlen.bytes := rfl
  have inside := current.inside
  obtain ⟨-, sizeRead, restLinked⟩ := current.linked
  have turn : kfreeTurn xlen heap target (sect.address, prev) =
      .leave (heap.setSize sect.address 0) := by
    simp only [kfreeTurn]
    rw [if_pos (by omega), if_pos found, if_neg (by omega),
      if_neg (by simpa using first)]
  have memRead : ∀ cell, cell ≠ sect.address →
      (heap.setSize sect.address 0).mem cell = heap.mem cell :=
    fun cell elsewhere => Function.update_of_ne elsewhere ..
  have nextKept : (heap.setSize sect.address 0).nextAt xlen
      sect.address = heap.nextAt xlen sect.address := by
    apply memRead
    rw [current.wrap_next]
    omega
  refine ⟨.of_leave turn, rfl, rfl, ?_, ?_, ?_⟩
  · rw [releaseBehind, if_pos found, if_neg empty, if_pos first, if_pos first]
    refine ⟨rfl, Function.update_self .., ?_⟩
    rw [nextKept]
    apply restLinked.frame_above current.ordered.2 current.fits
    intro cell above
    have stopDef : sect.stop xlen =
      sect.address + max sect.size (headerSize xlen) := rfl
    exact memRead cell (by omega)
  · intro absent
    exact absurd found (absent sect List.mem_cons_self empty)
  · intro cell _ outside
    exact memRead cell (outside sect List.mem_cons_self).1

/-- A later section is unlinked from its predecessor. -/
theorem releases_unlinked
    (current : AtSection xlen heap prev low sect rest)
    (found : sect.address = target)
    (empty : sect.size ≠ 0)
    (first : prev ≠ 0) :
    Releases xlen heap target prev sect.address (sect :: rest)
      ((heap.setSize sect.address 0).setNext xlen prev
        (heap.nextAt xlen sect.address)) := by
  have bytesPos := xlen.bytes_pos
  have header : headerSize xlen = 2 * xlen.bytes := rfl
  have inside := current.inside
  have stopDef : sect.stop xlen =
    sect.address + max sect.size (headerSize xlen) := rfl
  obtain ⟨-, sizeRead, restLinked⟩ := current.linked
  obtain ⟨-, prevBelow⟩ := current.link first
  have lowBound := current.ordered.1
  have wrapped := current.wrap_prev first
  have turn : kfreeTurn xlen heap target (sect.address, prev) =
      .leave ((heap.setSize sect.address 0).setNext xlen prev
        (heap.nextAt xlen sect.address)) := by
    have nextKept :
        (heap.setSize sect.address 0).nextAt xlen sect.address =
          heap.nextAt xlen sect.address := by
      simp only [Heap.nextAt, Heap.setSize, Heap.store, current.wrap_next]
      rw [Function.update_of_ne (by omega)]
    simp only [kfreeTurn]
    rw [if_pos (by omega), if_pos found, if_neg (by omega), if_pos first, nextKept]
  have memRead : ∀ cell, cell ≠ sect.address → cell ≠ prev + xlen.bytes →
      ((heap.setSize sect.address 0).setNext xlen prev
        (heap.nextAt xlen sect.address)).mem cell = heap.mem cell := by
    intro cell notSect notPrev
    simp only [Heap.setNext, Heap.setSize, Heap.store, wrapped]
    rw [Function.update_of_ne notPrev, Function.update_of_ne notSect]
  have nextRead : ((heap.setSize sect.address 0).setNext xlen prev
      (heap.nextAt xlen sect.address)).nextAt xlen prev =
        heap.nextAt xlen sect.address :=
    Function.update_self ..
  refine ⟨.of_leave turn, rfl, rfl, ?_, ?_, ?_⟩
  · rw [releaseBehind, if_pos found, if_neg empty, if_neg first, if_neg first, nextRead]
    apply restLinked.frame_above current.ordered.2 current.fits
    intro cell above
    exact memRead cell (by omega) (by omega)
  · intro absent
    exact absurd found (absent sect List.mem_cons_self empty)
  · intro cell notPrev outside
    exact memRead cell (outside sect List.mem_cons_self).1 (notPrev first)

/-- The end of the chain is reached without finding the section. -/
theorem releases_nothing
    (current : AtSection xlen heap prev low sect rest)
    (found : sect.address ≠ target)
    (ended : heap.nextAt xlen sect.address = 0) :
    Releases xlen heap target prev sect.address (sect :: rest) heap := by
  have bytesPos := xlen.bytes_pos
  have header : headerSize xlen = 2 * xlen.bytes := rfl
  have inside := current.inside
  have stopDef : sect.stop xlen =
    sect.address + max sect.size (headerSize xlen) := rfl
  obtain ⟨-, sizeRead, restLinked⟩ := current.linked
  have turn : kfreeTurn xlen heap target (sect.address, prev) = .leave heap := by
    simp only [kfreeTurn]
    rw [if_pos (by omega), if_neg found, if_pos ended]
  have restNil : rest = [] := by
    cases rest with
    | nil => rfl
    | cons next rest =>
        have := restLinked.1
        have := current.rest_above next List.mem_cons_self
        omega
  subst restNil
  refine ⟨.of_leave turn, rfl, rfl, ?_, fun _ => rfl, fun _ _ _ => rfl⟩
  rw [releaseBehind, if_neg found, current.entered]
  exact ⟨rfl, sizeRead, ended⟩

/-- Another section stays as it is, and the loop goes on behind it. -/
theorem releases_behind
    (current : AtSection xlen heap prev low sect rest)
    (found : sect.address ≠ target)
    (ended : heap.nextAt xlen sect.address ≠ 0)
    (later : Releases xlen heap target sect.address (heap.nextAt xlen sect.address) rest
      after) :
    Releases xlen heap target prev sect.address (sect :: rest) after := by
  have bytesPos := xlen.bytes_pos
  have header : headerSize xlen = 2 * xlen.bytes := rfl
  have inside := current.inside
  have stopDef : sect.stop xlen =
    sect.address + max sect.size (headerSize xlen) := rfl
  have lowBound := current.ordered.1
  have sizeRead := current.linked.2.1
  have turn : kfreeTurn xlen heap target (sect.address, prev) =
      .again (heap.nextAt xlen sect.address, sect.address) := by
    simp only [kfreeTurn]
    rw [if_pos (by omega), if_neg found, if_neg ended]
  have keptBelow : ∀ cell, cell < sect.stop xlen →
      cell ≠ sect.address + xlen.bytes → after.mem cell = heap.mem cell := by
    intro cell below notNext
    apply later.kept cell fun _ => notNext
    intro other present
    have := current.rest_above other present
    omega
  refine ⟨.of_again turn later.returns, later.start_eq, later.end_eq, ?_, ?_, ?_⟩
  · have enteredAfter : (if prev = 0 then sect.address
          else after.nextAt xlen prev) = sect.address := by
      rw [← current.entered]
      split
      · rfl
      · next positive =>
          have := (current.link positive).2
          unfold Heap.nextAt
          rw [current.wrap_prev positive]
          exact keptBelow _ (by omega) (by omega)
    have nextRead : after.nextAt xlen sect.address =
        if sect.address = 0 then heap.nextAt xlen sect.address
        else after.nextAt xlen sect.address := by
      split
      · next zero =>
          unfold Heap.nextAt
          rw [current.wrap_next]
          apply later.kept _ fun positive => absurd zero positive
          intro other present
          have := current.rest_above other present
          omega
      · rfl
    rw [releaseBehind, if_neg found, enteredAfter]
    refine ⟨rfl, (keptBelow _ (by omega) (by omega)).trans sizeRead, ?_⟩
    rw [nextRead]
    exact later.linked
  · intro absent
    exact later.untouched fun other present =>
      absent other (List.mem_cons_of_mem _ present)
  · intro cell _ outside
    exact later.kept cell (fun _ => (outside sect List.mem_cons_self).2)
      fun other present => outside other (List.mem_cons_of_mem _ present)

end AtSection

/-- The loop of `kfree` stops. -/
theorem kfreeTurn_returns
    {xlen : Xlen}
    {heap : Heap}
    (target : Nat)
    {prev address low : Nat}
    {chain : List AllocSection}
    (linked : Linked xlen heap address chain)
    (ordered : Ordered xlen heap.mem_block_end low chain)
    (nonempty : chain ≠ [])
    (link : prev ≠ 0 → heap.nextAt xlen prev = address ∧
      prev + headerSize xlen ≤ low)
    (fits : heap.mem_block_end < xlen.size) :
    ∃ after, Releases xlen heap target prev address chain after := by
  induction chain generalizing prev address low with
  | nil => exact absurd rfl nonempty
  | cons sect rest inductionHypothesis =>
      obtain rfl : address = sect.address := linked.1
      have current : AtSection xlen heap prev low sect rest :=
        ⟨linked, ordered, link, fits⟩
      by_cases found : sect.address = target
      · by_cases empty : sect.size = 0
        · exact ⟨heap, current.releases_empty found empty⟩
        by_cases first : prev = 0
        · exact ⟨_, current.releases_first found empty first⟩
        · exact ⟨_, current.releases_unlinked found empty first⟩
      · by_cases ended : heap.nextAt xlen sect.address = 0
        · exact ⟨heap, current.releases_nothing found ended⟩
        · have restNonempty : rest ≠ [] := by
            rintro rfl
            exact ended linked.2.2
          have above : sect.address + headerSize xlen ≤ sect.stop xlen :=
            sect.payload_le_stop xlen
          obtain ⟨after, later⟩ := inductionHypothesis linked.2.2 ordered.2 restNonempty
            fun _ => ⟨rfl, above⟩
          exact ⟨after, current.releases_behind found ended later⟩

/-- The header address that `kfree` computes belongs to exactly the payload
behind that header. -/
theorem headerOf_eq_iff
    {xlen : Xlen}
    {ptr address : Nat}
    (ptrFits : ptr < xlen.size)
    (fits : address + headerSize xlen < xlen.size) :
    headerOf xlen ptr = address ↔ ptr = address + headerSize xlen := by
  have header : headerSize xlen = 2 * xlen.bytes := rfl
  have := xlen.bytes_pos
  have := xlen.bytes_lt_size
  unfold headerOf
  by_cases above : headerSize xlen ≤ ptr
  · rw [Xlen.wrap_of_le (by omega) (by omega)]
    omega
  · rw [Xlen.wrap_of_lt (by omega)]
    omega

/-! ## What removing a section does to a chain -/

section ReleaseBehind

variable {xlen : Xlen} {low high prev target : Nat}
  {chain : List AllocSection}

theorem releaseBehind_absent
    (absent : ∀ sect ∈ chain, sect.address ≠ target) :
    releaseBehind prev target chain = chain := by
  induction chain generalizing prev with
  | nil => rfl
  | cons sect rest inductionHypothesis =>
      rw [releaseBehind, if_neg (absent sect List.mem_cons_self),
        inductionHypothesis fun other present =>
          absent other (List.mem_cons_of_mem _ present)]

theorem releaseBehind_ordered
    (ordered : Ordered xlen high low chain) :
    Ordered xlen high low (releaseBehind prev target chain) := by
  induction chain generalizing low prev with
  | nil => exact ordered
  | cons sect rest inductionHypothesis =>
      obtain ⟨lowBound, restOrdered⟩ := ordered
      have above := sect.address_add_size_le_stop xlen
      rw [releaseBehind]
      split_ifs
      · exact ⟨lowBound, restOrdered⟩
      · refine ⟨lowBound, restOrdered.of_le ?_⟩
        simp only [AllocSection.stop]
        omega
      · exact restOrdered.of_le (by omega)
      · exact ⟨lowBound, inductionHypothesis restOrdered⟩

/-- Removing a section creates no section but an empty one. -/
theorem mem_of_mem_releaseBehind
    {sect : AllocSection}
    (present : sect ∈ releaseBehind prev target chain) :
    sect ∈ chain ∨ sect.size = 0 := by
  induction chain generalizing prev with
  | nil => exact .inl present
  | cons first rest inductionHypothesis =>
      rw [releaseBehind] at present
      split_ifs at present
      · exact .inl present
      · rcases List.mem_cons.mp present with rfl | inRest
        · exact .inr rfl
        · exact .inl (List.mem_cons_of_mem _ inRest)
      · exact .inl (List.mem_cons_of_mem _ present)
      · rcases List.mem_cons.mp present with rfl | inRest
        · exact .inl List.mem_cons_self
        · exact (inductionHypothesis inRest).imp_left
            (List.mem_cons_of_mem _)

/-- The sections in use afterwards. -/
theorem mem_releaseBehind_iff
    (prev target : Nat)
    (ordered : Ordered xlen high low chain)
    (sect : AllocSection) :
    (sect ∈ releaseBehind prev target chain ∧ sect.size ≠ 0) ↔
      sect ∈ chain ∧ sect.size ≠ 0 ∧ sect.address ≠ target := by
  induction chain generalizing low prev with
  | nil => simp [releaseBehind]
  | cons first rest inductionHypothesis =>
      obtain ⟨-, restOrdered⟩ := ordered
      have restAbove : ∀ other ∈ rest, first.address < other.address := by
        intro other present
        have := (restOrdered.bounds present).1
        have := xlen.bytes_pos
        unfold AllocSection.stop headerSize at *
        omega
      by_cases found : first.address = target
      · have kept : (sect ∈ first :: rest ∧ sect.size ≠ 0 ∧
            sect.address ≠ target) ↔ sect ∈ rest ∧ sect.size ≠ 0 := by
          rw [List.mem_cons]
          constructor
          · rintro ⟨rfl | inRest, occupied, elsewhere⟩
            · exact absurd found elsewhere
            · exact ⟨inRest, occupied⟩
          · rintro ⟨inRest, occupied⟩
            have := restAbove sect inRest
            exact ⟨.inr inRest, occupied, by omega⟩
        rw [kept, releaseBehind, if_pos found]
        split_ifs with empty
        · rw [List.mem_cons]
          constructor
          · rintro ⟨rfl | inRest, occupied⟩
            · exact absurd empty occupied
            · exact ⟨inRest, occupied⟩
          · exact fun ⟨inRest, occupied⟩ => ⟨.inr inRest, occupied⟩
        · rw [List.mem_cons]
          constructor
          · rintro ⟨rfl | inRest, occupied⟩
            · exact absurd rfl occupied
            · exact ⟨inRest, occupied⟩
          · exact fun ⟨inRest, occupied⟩ => ⟨.inr inRest, occupied⟩
        · rfl
      · rw [releaseBehind, if_neg found, List.mem_cons, List.mem_cons,
          or_and_right, inductionHypothesis _ restOrdered, or_and_right]
        apply or_congr_left
        constructor
        · rintro ⟨rfl, occupied⟩
          exact ⟨rfl, occupied, found⟩
        · exact fun ⟨here, occupied, _⟩ => ⟨here, occupied⟩

/-- Removing a section never removes the header at the start. -/
theorem releaseBehind_ne_nil
    (nonempty : chain ≠ []) :
    releaseBehind 0 target chain ≠ [] := by
  cases chain with
  | nil => exact absurd rfl nonempty
  | cons first rest =>
      rw [releaseBehind]
      split_ifs with found empty impossible
      · exact nonempty
      · simp
      · exact absurd rfl impossible
      · simp

/-- Behind a predecessor, used sections are removed from the list. -/
theorem releaseBehind_eq_filter
    (ordered : Ordered xlen high low chain)
    (positive : prev ≠ 0)
    (lowPositive : 0 < low)
    (inUse : ∀ sect ∈ chain, sect.InUse xlen) :
    releaseBehind prev target chain =
      chain.filter fun sect => sect.address ≠ target := by
  induction chain generalizing low prev with
  | nil => rfl
  | cons sect rest inductionHypothesis =>
      obtain ⟨lowBound, restOrdered⟩ := ordered
      have occupied := (inUse sect List.mem_cons_self).size_ne_zero
      have above := sect.address_add_size_le_stop xlen
      rw [releaseBehind]
      by_cases found : sect.address = target
      · rw [if_pos found, if_neg occupied, if_neg positive,
          List.filter_cons_of_neg (by simpa using found), eq_comm]
        apply List.filter_eq_self.mpr
        intro other present
        have := (restOrdered.bounds present).1
        have : other.address ≠ target := by omega
        simpa using this
      · rw [if_neg found, List.filter_cons_of_pos (by simpa using found),
          inductionHypothesis restOrdered (by omega) (by omega)
            fun other present => inUse other (List.mem_cons_of_mem _ present)]

/-- Where no section is at address 0, only the first one can be left empty. -/
theorem release_eq
    (ordered : Ordered xlen high low chain)
    (lowPositive : 0 < low)
    (tailInUse : ∀ sect ∈ chain.tail, sect.InUse xlen) :
    release target chain = releaseBehind 0 target chain := by
  cases chain with
  | nil => rfl
  | cons first rest =>
      obtain ⟨lowBound, restOrdered⟩ := ordered
      have above := first.address_add_size_le_stop xlen
      rw [release, releaseBehind]
      by_cases found : first.address = target
      · rw [if_pos found, if_pos found, if_pos rfl]
        split
        · next empty => rw [← empty]
        · rfl
      · rw [if_neg found, if_neg found, releaseBehind_eq_filter restOrdered
          (by omega) (by omega) tailInUse]

end ReleaseBehind

/-- What `kfree` does to the chain. -/
theorem kfree_returns
    {xlen : Xlen}
    {heap : Heap}
    (ptr : Nat)
    {chain : List AllocSection}
    (linked : Linked xlen heap heap.mem_block_start chain)
    (ordered : Ordered xlen heap.mem_block_end heap.mem_block_start chain)
    (nonempty : chain ≠ [])
    (fits : heap.mem_block_end < xlen.size) :
    ∃ after, Kfree xlen heap ptr after ∧
      after.mem_block_start = heap.mem_block_start ∧
      after.mem_block_end = heap.mem_block_end ∧
      Linked xlen after heap.mem_block_start
        (releaseBehind 0 (headerOf xlen ptr) chain) ∧
      ((∀ sect ∈ chain, sect.size ≠ 0 →
          sect.address ≠ headerOf xlen ptr) → after = heap) ∧
      ∀ cell, (∀ sect ∈ chain,
          cell ≠ sect.address ∧ cell ≠ sect.address + xlen.bytes) →
        after.mem cell = heap.mem cell := by
  generalize target_eq : headerOf xlen ptr = target
  by_cases outside : target < heap.mem_block_start ∨
      target ≥ heap.mem_block_end
  · -- the range test of `kfree` refuses the pointer
    have absent : ∀ sect ∈ chain, sect.address ≠ target := by
      intro sect present
      have bounds := ordered.bounds present
      have := xlen.bytes_pos
      unfold AllocSection.stop headerSize at bounds
      omega
    refine ⟨heap, ⟨0, ?_⟩, rfl, rfl, ?_, fun _ => rfl, fun _ _ => rfl⟩
    · simp only [kfree, target_eq]
      rw [if_pos outside]
    · rw [releaseBehind_absent absent]
      exact linked
  · obtain ⟨after, ⟨fuel, returned⟩, startKept, endKept, afterLinked,
      untouched, kept⟩ := kfreeTurn_returns target linked ordered nonempty
        (fun positive => absurd rfl positive) fits
    refine ⟨after, ⟨fuel, ?_⟩, startKept, endKept, afterLinked, untouched,
      fun cell => kept cell fun positive => absurd rfl positive⟩
    simp only [kfree, target_eq]
    rw [if_neg outside]
    exact returned

/-- Removing a section keeps a chain packed. -/
theorem release_packed
    {xlen : Xlen}
    {low high target : Nat}
    {chain : List AllocSection}
    (packed : Packed xlen high low chain)
    (lowPositive : 0 < low)
    (tailInUse : ∀ sect ∈ chain.tail, sect.InUse xlen) :
    Packed xlen high low (release target chain) := by
  apply Packed.of_ordered
  · rw [release_eq packed.ordered lowPositive tailInUse]
    exact releaseBehind_ordered packed.ordered
  · intro sect present
    cases chain with
    | nil => simp [release] at present
    | cons first rest =>
        rw [release] at present
        split at present
        · rcases List.mem_cons.mp present with rfl | inRest
          · exact packed.2.1
          · exact packed.aligned (List.mem_cons_of_mem _ inRest)
        · rcases List.mem_cons.mp present with rfl | inRest
          · exact packed.2.1
          · exact packed.aligned
              (List.mem_cons_of_mem _ (List.mem_filter.mp inRest).1)

/-- Behind the first header only old sections remain. -/
theorem mem_tail_of_mem_release_tail
    {target : Nat}
    {chain : List AllocSection}
    {sect : AllocSection}
    (present : sect ∈ (release target chain).tail) :
    sect ∈ chain.tail := by
  cases chain with
  | nil => exact present
  | cons first rest =>
      simp only [release] at present
      split at present
      · exact present
      · exact (List.mem_filter.mp present).1

end Memalloc
end EchelonSbi
