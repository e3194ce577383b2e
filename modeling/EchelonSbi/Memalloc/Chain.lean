import EchelonSbi.Memalloc.Sections
import Mathlib.Data.List.Pairwise
import Mathlib.Order.Basic

/-!
# The section chain

The shape that every heap of a run has: the headers reachable from
`mem_block_start` form a finite chain, in which each section ends before the
next one starts.  Only the first section can have size 0; it is then the
sentinel that `kallocinit` writes, or a freed first section.
-/

namespace EchelonSbi
namespace Memalloc

/-- A section header as it is read from memory. -/
structure AllocSection where
  address : Nat
  size : Nat
  deriving DecidableEq, Repr

namespace AllocSection

/-- First address behind the section and its header. -/
def stop (xlen : Xlen) (sect : AllocSection) : Nat :=
  sect.address + max sect.size (headerSize xlen)

/-- Address of the payload, the value `kmalloc` returned. -/
def payload (xlen : Xlen) (sect : AllocSection) : Nat :=
  sect.address + headerSize xlen

/-- A section that holds an allocation: a header and at least one word. -/
def InUse (xlen : Xlen) (sect : AllocSection) : Prop :=
  headerSize xlen + xlen.bytes ≤ sect.size ∧ xlen.bytes ∣ sect.size

theorem InUse.size_ne_zero
    {xlen : Xlen}
    {sect : AllocSection}
    (inUse : sect.InUse xlen) :
    sect.size ≠ 0 := by
  have := inUse.1
  have := xlen.bytes_pos
  omega

theorem address_add_size_le_stop (xlen : Xlen) (sect : AllocSection) :
    sect.address + sect.size ≤ sect.stop xlen := by
  unfold stop
  omega

theorem payload_le_stop (xlen : Xlen) (sect : AllocSection) :
    sect.payload xlen ≤ sect.stop xlen := by
  unfold stop payload
  omega

end AllocSection

/-- Reading headers from `address` on gives exactly the listed sections. -/
def Linked (xlen : Xlen) (heap : Heap) : Nat → List AllocSection → Prop
  | address, [] => address = 0
  | address, sect :: rest =>
      address = sect.address ∧ heap.sizeAt address = sect.size ∧
        Linked xlen heap (heap.nextAt xlen address) rest

/-- The listed sections lie aligned, in order and apart between two
addresses. -/
def Packed (xlen : Xlen) (high : Nat) : Nat → List AllocSection → Prop
  | low, [] => low ≤ high
  | low, sect :: rest =>
      low ≤ sect.address ∧ xlen.bytes ∣ sect.address ∧
        Packed xlen high (sect.stop xlen) rest

/-- The listed sections lie in order and apart between two addresses. -/
def Ordered (xlen : Xlen) (high : Nat) : Nat → List AllocSection → Prop
  | low, [] => low ≤ high
  | low, sect :: rest =>
      low ≤ sect.address ∧ Ordered xlen high (sect.stop xlen) rest

@[simp] theorem linked_nil (xlen : Xlen) (heap : Heap) (address : Nat) :
    Linked xlen heap address [] ↔ address = 0 := Iff.rfl

@[simp] theorem linked_cons
    (xlen : Xlen) (heap : Heap) (address : Nat)
    (sect : AllocSection) (rest : List AllocSection) :
    Linked xlen heap address (sect :: rest) ↔
      address = sect.address ∧ heap.sizeAt address = sect.size ∧
        Linked xlen heap (heap.nextAt xlen address) rest := Iff.rfl

@[simp] theorem packed_nil (xlen : Xlen) (low high : Nat) :
    Packed xlen high low [] ↔ low ≤ high := Iff.rfl

@[simp] theorem packed_cons
    (xlen : Xlen) (low high : Nat)
    (sect : AllocSection) (rest : List AllocSection) :
    Packed xlen high low (sect :: rest) ↔
      low ≤ sect.address ∧ xlen.bytes ∣ sect.address ∧
        Packed xlen high (sect.stop xlen) rest := Iff.rfl

@[simp] theorem ordered_nil (xlen : Xlen) (low high : Nat) :
    Ordered xlen high low [] ↔ low ≤ high := Iff.rfl

@[simp] theorem ordered_cons
    (xlen : Xlen) (low high : Nat)
    (sect : AllocSection) (rest : List AllocSection) :
    Ordered xlen high low (sect :: rest) ↔
      low ≤ sect.address ∧ Ordered xlen high (sect.stop xlen) rest := Iff.rfl

namespace Ordered

variable {xlen : Xlen} {low high : Nat} {chain : List AllocSection}

/-- The sections fit between the two addresses. -/
theorem low_le_high (ordered : Ordered xlen high low chain) : low ≤ high := by
  induction chain generalizing low with
  | nil => exact ordered
  | cons sect rest inductionHypothesis =>
      obtain ⟨lowBound, restOrdered⟩ := ordered
      have := inductionHypothesis restOrdered
      have := sect.address_add_size_le_stop xlen
      omega

/-- An ordered list stays ordered above any lower address. -/
theorem of_le
    {lower : Nat}
    (ordered : Ordered xlen high low chain)
    (le : lower ≤ low) :
    Ordered xlen high lower chain := by
  cases chain with
  | nil => exact le.trans ordered
  | cons sect rest => exact ⟨le.trans ordered.1, ordered.2⟩

/-- Every section lies between the two addresses. -/
theorem bounds
    (ordered : Ordered xlen high low chain)
    {sect : AllocSection}
    (present : sect ∈ chain) :
    low ≤ sect.address ∧ sect.stop xlen ≤ high := by
  induction chain generalizing low with
  | nil => simp at present
  | cons first rest inductionHypothesis =>
      obtain ⟨lowBound, restOrdered⟩ := ordered
      rcases List.mem_cons.mp present with rfl | inRest
      · exact ⟨lowBound, restOrdered.low_le_high⟩
      · obtain ⟨restLow, restHigh⟩ := inductionHypothesis restOrdered inRest
        have := first.address_add_size_le_stop xlen
        exact ⟨by omega, restHigh⟩

/-- Sections of the list are pairwise apart, earlier ones below. -/
theorem pairwise (ordered : Ordered xlen high low chain) :
    chain.Pairwise fun left right => left.stop xlen ≤ right.address := by
  induction chain generalizing low with
  | nil => exact .nil
  | cons first rest inductionHypothesis =>
      obtain ⟨_, restOrdered⟩ := ordered
      refine List.pairwise_cons.mpr ⟨?_, inductionHypothesis restOrdered⟩
      intro other present
      exact (restOrdered.bounds present).1

/-- Two different sections of the list are apart. -/
theorem apart
    (ordered : Ordered xlen high low chain)
    {left right : AllocSection}
    (leftPresent : left ∈ chain)
    (rightPresent : right ∈ chain)
    (different : left ≠ right) :
    left.stop xlen ≤ right.address ∨ right.stop xlen ≤ left.address := by
  have symmetric : Std.Symm fun left right : AllocSection =>
      left.stop xlen ≤ right.address ∨ right.stop xlen ≤ left.address :=
    ⟨fun _ _ => Or.symm⟩
  have either : chain.Pairwise fun left right =>
      left.stop xlen ≤ right.address ∨ right.stop xlen ≤ left.address :=
    ordered.pairwise.imp Or.inl
  exact either.forall leftPresent rightPresent different

/-- Sections at one address are the same section. -/
theorem eq_of_address_eq
    (ordered : Ordered xlen high low chain)
    {left right : AllocSection}
    (leftPresent : left ∈ chain)
    (rightPresent : right ∈ chain)
    (sameAddress : left.address = right.address) :
    left = right := by
  by_contra different
  have := ordered.apart leftPresent rightPresent different
  have := xlen.bytes_pos
  unfold AllocSection.stop headerSize at *
  omega

end Ordered

namespace Packed

variable {xlen : Xlen} {low high : Nat} {chain : List AllocSection}

theorem ordered (packed : Packed xlen high low chain) :
    Ordered xlen high low chain := by
  induction chain generalizing low with
  | nil => exact packed
  | cons sect rest inductionHypothesis =>
      exact ⟨packed.1, inductionHypothesis packed.2.2⟩

theorem aligned
    (packed : Packed xlen high low chain)
    {sect : AllocSection}
    (present : sect ∈ chain) :
    xlen.bytes ∣ sect.address := by
  induction chain generalizing low with
  | nil => simp at present
  | cons first rest inductionHypothesis =>
      rcases List.mem_cons.mp present with rfl | inRest
      · exact packed.2.1
      · exact inductionHypothesis packed.2.2 inRest

/-- Packed lists are the ordered ones whose sections are aligned. -/
theorem of_ordered
    (ordered : Ordered xlen high low chain)
    (aligned : ∀ sect ∈ chain, xlen.bytes ∣ sect.address) :
    Packed xlen high low chain := by
  induction chain generalizing low with
  | nil => exact ordered
  | cons sect rest inductionHypothesis =>
      refine ⟨ordered.1, aligned sect List.mem_cons_self, ?_⟩
      exact inductionHypothesis ordered.2 fun other present =>
        aligned other (List.mem_cons_of_mem _ present)

/-- Every section lies between the two addresses. -/
theorem bounds
    (packed : Packed xlen high low chain)
    {sect : AllocSection}
    (present : sect ∈ chain) :
    low ≤ sect.address ∧ xlen.bytes ∣ sect.address ∧
      sect.stop xlen ≤ high :=
  ⟨(packed.ordered.bounds present).1, packed.aligned present,
    (packed.ordered.bounds present).2⟩

end Packed

namespace Linked

variable {xlen : Xlen} {heap : Heap} {address : Nat}
  {chain : List AllocSection}

/-- A chain is read the same way from memory that agrees on its headers. -/
theorem frame
    {other : Heap}
    (linked : Linked xlen heap address chain)
    (agree : ∀ sect ∈ chain,
      other.sizeAt sect.address = heap.sizeAt sect.address ∧
        other.nextAt xlen sect.address = heap.nextAt xlen sect.address) :
    Linked xlen other address chain := by
  induction chain generalizing address with
  | nil => exact linked
  | cons sect rest inductionHypothesis =>
      obtain ⟨rfl, sizeRead, restLinked⟩ := linked
      obtain ⟨sizeAgrees, nextAgrees⟩ := agree sect List.mem_cons_self
      refine ⟨rfl, sizeAgrees.trans sizeRead, ?_⟩
      rw [nextAgrees]
      exact inductionHypothesis restLinked fun other present =>
        agree other (List.mem_cons_of_mem _ present)

/-- An ordered chain depends only on memory above its lower bound. -/
theorem frame_above
    {other : Heap}
    {low high : Nat}
    (linked : Linked xlen heap address chain)
    (ordered : Ordered xlen high low chain)
    (fits : high < xlen.size)
    (agree : ∀ cell, low ≤ cell → other.mem cell = heap.mem cell) :
    Linked xlen other address chain := by
  apply linked.frame
  intro sect present
  obtain ⟨lowBound, highBound⟩ := ordered.bounds present
  have bytesPos := xlen.bytes_pos
  have unwrapped : xlen.wrap (sect.address + xlen.bytes) =
      sect.address + xlen.bytes := by
    apply Xlen.wrap_of_lt
    unfold AllocSection.stop headerSize at highBound
    omega
  refine ⟨agree _ lowBound, ?_⟩
  rw [Heap.nextAt, Heap.nextAt, unwrapped]
  exact agree _ (by omega)

end Linked

end Memalloc
end EchelonSbi
