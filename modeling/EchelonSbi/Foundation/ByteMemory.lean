import Mathlib.Data.BitVec
import Mathlib.Tactic.Abel
import Mathlib.Data.Set.Lattice
import Mathlib.Order.CompletePartialOrder

/-!
# Memory of bytes

Bytes at addresses of `w` bits, with little-endian loads and stores of any
size.  An access covers a span of addresses, which may wrap around; a store
leaves the bytes outside its span as they were.
-/

namespace EchelonSbi
namespace Foundation

/-- The bytes at all addresses. -/
abbrev ByteMemory (w : Nat) := BitVec w → BitVec 8

namespace ByteMemory

/-- The addresses of `size` bytes. -/
def span (address : BitVec w) (size : Nat) : Set (BitVec w) :=
  {other | (other - address).toNat < size}

/-- The number in `size` bytes. -/
def bytes (memory : ByteMemory w) (address : BitVec w) :
    (size : Nat) → BitVec (8 * size)
  | 0 => 0
  | size + 1 =>
      (memory (address + BitVec.ofNat w size) ++ bytes memory address size).cast
        (by omega)

/-- A load with sign extension. -/
def load (memory : ByteMemory w) (address : BitVec w) (size : Nat) : BitVec v :=
  (memory.bytes address size).signExtend v

/-- A store of the lower bytes of a value. -/
def store
    (memory : ByteMemory w) (address : BitVec w) (size : Nat) (value : BitVec v) :
    ByteMemory w :=
  fun other =>
    if (other - address).toNat < size then
      value.extractLsb' (8 * (other - address).toNat) 8
    else memory other

section Spans

variable {address base : BitVec w} {offset size : Nat}

/-- The distance of two offsets. -/
theorem toNat_offset_sub
    {place : Nat}
    (offsetFits : offset < 2 ^ w)
    (inside : place < 2 ^ w) :
    (base + BitVec.ofNat w place - (base + BitVec.ofNat w offset)).toNat =
      if offset ≤ place then place - offset else 2 ^ w + place - offset := by
  rw [add_sub_add_left_eq_sub, BitVec.toNat_sub, BitVec.toNat_ofNat,
    BitVec.toNat_ofNat, Nat.mod_eq_of_lt offsetFits, Nat.mod_eq_of_lt inside]
  split_ifs with above
  · rw [show 2 ^ w - offset + place = place - offset + 2 ^ w by omega,
      Nat.add_mod_right, Nat.mod_eq_of_lt (by omega)]
  · rw [Nat.mod_eq_of_lt (by omega)]
    omega

theorem mem_span_offset
    (fits : offset + size ≤ 2 ^ w)
    {place : Nat}
    (inside : place < 2 ^ w) :
    base + BitVec.ofNat w place ∈ span (base + BitVec.ofNat w offset) size ↔
      offset ≤ place ∧ place < offset + size := by
  rw [span, Set.mem_ofPred_eq]
  by_cases offsetFits : offset < 2 ^ w
  · rw [toNat_offset_sub offsetFits inside]
    split_ifs <;> omega
  · have none : size = 0 := by omega
    rw [none]
    omega

/-- Every address is at some offset. -/
theorem exists_offset
    (base address : BitVec w) :
    ∃ place < 2 ^ w, address = base + BitVec.ofNat w place := by
  refine ⟨(address - base).toNat, (address - base).isLt, ?_⟩
  rw [BitVec.ofNat_toNat, BitVec.setWidth_eq, BitVec.add_comm, BitVec.sub_add_cancel]

/-- A part of a span. -/
theorem span_offset_subset
    {total : Nat}
    (part : offset + size ≤ total)
    (room : total ≤ 2 ^ w) :
    span (base + BitVec.ofNat w offset) size ⊆ span base total := by
  intro address inside
  obtain ⟨place, fits, rfl⟩ := exists_offset base address
  rw [mem_span_offset (by omega) fits] at inside
  have whole := (@mem_span_offset w base 0 total (by omega) place fits).mpr (by omega)
  rwa [BitVec.add_zero] at whole

/-- A span that does not wrap around. -/
theorem mem_span_toNat
    {place : BitVec w}
    (fits : address.toNat + size ≤ 2 ^ w) :
    place ∈ span address size ↔
      address.toNat ≤ place.toNat ∧ place.toNat < address.toNat + size := by
  have small := place.isLt
  rw [span, Set.mem_ofPred_eq, BitVec.toNat_sub]
  rcases Nat.lt_or_ge place.toNat address.toNat with below | above
  · rw [Nat.mod_eq_of_lt (by omega)]
    omega
  · rw [show 2 ^ w - address.toNat + place.toNat = place.toNat - address.toNat + 2 ^ w by
      omega, Nat.add_mod_right, Nat.mod_eq_of_lt (by omega)]
    omega

/-- Spans that do not begin in each other are apart. -/
theorem span_disjoint
    {other : BitVec w}
    {count : Nat}
    (behind : size ≤ (other - address).toNat)
    (before : count ≤ (address - other).toNat) :
    Disjoint (span address size) (span other count) := by
  apply Set.disjoint_left.mpr
  intro place first second
  rw [span, Set.mem_ofPred_eq] at first second
  rcases Nat.le_total (place - other).toNat (place - address).toNat with below | above
  · have distance : other - address = (place - address) - (place - other) := by abel
    rw [distance, BitVec.toNat_sub_of_le below] at behind
    omega
  · have distance : address - other = (place - other) - (place - address) := by abel
    rw [distance, BitVec.toNat_sub_of_le above] at before
    omega

end Spans

section Loads

variable {memory other : ByteMemory w} {address : BitVec w} {size : Nat}

theorem getLsbD_bytes
    (memory : ByteMemory w)
    (address : BitVec w)
    {bit : Nat}
    (inside : bit < 8 * size) :
    (memory.bytes address size).getLsbD bit =
      (memory (address + BitVec.ofNat w (bit / 8))).getLsbD (bit % 8) := by
  induction size with
  | zero => omega
  | succ size inductionHypothesis =>
      rw [bytes, BitVec.getLsbD_cast, BitVec.getLsbD_append]
      split_ifs with lower
      · exact inductionHypothesis lower
      · have place : bit / 8 = size := by omega
        have within : bit - 8 * size = bit % 8 := by omega
        rw [place, within]

/-- A load reads its span only. -/
theorem bytes_congr
    (same : ∀ place < size,
      memory (address + BitVec.ofNat w place) =
        other (address + BitVec.ofNat w place)) :
    memory.bytes address size = other.bytes address size := by
  apply BitVec.eq_of_getLsbD_eq
  intro bit inside
  rw [getLsbD_bytes memory address inside, getLsbD_bytes other address inside,
    same _ (by omega)]

/-- Memory that is the same on a span loads the same. -/
theorem load_congr
    (fits : size ≤ 2 ^ w)
    (same : ∀ place ∈ span address size, memory place = other place) :
    (memory.load address size : BitVec v) = other.load address size := by
  rw [load, load, bytes_congr fun place inside => same _ ?_]
  have within := (@mem_span_offset w address 0 size (by omega) place (by omega)).mpr
    (by omega)
  rwa [BitVec.add_zero] at within

/-- The bytes of a number that was loaded. -/
theorem extract_load
    {place : Nat}
    (inside : place < size)
    (fits : 8 * size ≤ v) :
    (memory.load address size : BitVec v).extractLsb' (8 * place) 8 =
      memory (address + BitVec.ofNat w place) := by
  apply BitVec.eq_of_getLsbD_eq
  intro bit within
  have whole : 8 * place + bit < 8 * size := by omega
  have quotient : (8 * place + bit) / 8 = place := by omega
  have remainder : (8 * place + bit) % 8 = bit := by omega
  rw [BitVec.getLsbD_extractLsb', load, BitVec.getLsbD_signExtend, if_pos whole,
    getLsbD_bytes memory address whole, quotient, remainder]
  simp only [within, decide_true, Bool.true_and, Bool.and_eq_right_iff_imp,
    decide_eq_true_eq]
  omega

end Loads

section Stores

variable {memory : ByteMemory w} {address base : BitVec w} {size offset : Nat}
  {value : BitVec v}

theorem store_outside
    {other : BitVec w}
    (outside : other ∉ span address size) :
    memory.store address size value other = memory other :=
  if_neg outside

/-- What a store leaves at an offset. -/
theorem store_offset
    (fits : offset + size ≤ 2 ^ w)
    {place : Nat}
    (inside : place < 2 ^ w) :
    memory.store (base + BitVec.ofNat w offset) size value
        (base + BitVec.ofNat w place) =
      if offset ≤ place ∧ place < offset + size then
        value.extractLsb' (8 * (place - offset)) 8
      else memory (base + BitVec.ofNat w place) := by
  have covered := @mem_span_offset w base offset size fits place inside
  split_ifs with within
  · have distance := @toNat_offset_sub w base offset place (by omega) inside
    rw [if_pos within.1] at distance
    exact (if_pos (covered.mpr within)).trans (by rw [distance])
  · exact store_outside fun reached => within (covered.mp reached)

/-- What was stored is loaded. -/
theorem load_store
    (fits : size ≤ 2 ^ w)
    (whole : 8 * size = v) :
    (memory.store address size value).load address size = value := by
  apply BitVec.eq_of_getLsbD_eq
  intro bit inside
  have within : bit < 8 * size := by omega
  have stored := @store_offset w v memory address size 0 value (by omega) (bit / 8)
    (by omega)
  rw [BitVec.add_zero, if_pos (by omega), Nat.sub_zero] at stored
  rw [load, BitVec.getLsbD_signExtend, if_pos within, getLsbD_bytes _ _ within, stored,
    BitVec.getLsbD_extractLsb', Nat.div_add_mod, decide_eq_true (Nat.mod_lt _ (by decide)),
    decide_eq_true inside]
  rfl

end Stores

end ByteMemory

end Foundation
end EchelonSbi
