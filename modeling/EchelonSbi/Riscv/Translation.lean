import Mathlib.Data.Nat.Bitwise

/-!
# Page-based address translation

The translation of virtual addresses in the privileged architecture, for any
scheme of the kind of Sv32 and Sv39.  A scheme says how a virtual address is cut
into page numbers and where an entry keeps the number of the page it names.
Accesses to physical memory fail behind its end.  Checks that only raise further
faults (reserved bits, permissions, the accessed and dirty bits) are a parameter.
-/

namespace EchelonSbi
namespace Riscv

/-- The numbers of a translation scheme.  Its levels go from `top` down to 0. -/
structure PagedScheme where
  registerBits : Nat
  modeShift : Nat
  mode : Nat
  top : Nat
  vpnBits : Nat
  entryBytes : Nat
  ppnBits : Nat
  deriving DecidableEq, Repr

/-- Physical memory: the entry at an address, for the addresses below `size`. -/
structure PhysicalMemory where
  size : Nat
  entryAt : Nat → Nat

/-- What an entry says about an address. -/
inductive Visit where
  | fault
  | table (address : Nat)
  | leaf (address : Nat)
  deriving DecidableEq, Repr

namespace PagedScheme

/-- Two levels with four-byte entries. -/
def Sv32 : PagedScheme where
  registerBits := 32
  modeShift := 31
  mode := 1
  top := 1
  vpnBits := 10
  entryBytes := 4
  ppnBits := 22

/-- Three levels with eight-byte entries. -/
def Sv39 : PagedScheme where
  registerBits := 64
  modeShift := 60
  mode := 8
  top := 2
  vpnBits := 9
  entryBytes := 8
  ppnBits := 44

variable (scheme : PagedScheme)

/-- Width of the offset into what an entry of a level covers. -/
def offsetBits (level : Nat) : Nat :=
  12 + scheme.vpnBits * level

/-- The page number of a virtual address on a level. -/
def vpn (address level : Nat) : Nat :=
  address / 2 ^ scheme.offsetBits level % 2 ^ scheme.vpnBits

/-- The physical page number of an entry. -/
def ppn (entry : Nat) : Nat :=
  entry / 2 ^ 10 % 2 ^ scheme.ppnBits

/-- The bits above the highest page number repeat its highest bit. -/
def Canonical (address : Nat) : Prop :=
  address < 2 ^ (scheme.offsetBits (scheme.top + 1) - 1) ∨
    2 ^ scheme.registerBits - 2 ^ (scheme.offsetBits (scheme.top + 1) - 1) ≤
      address

instance (address : Nat) : Decidable (scheme.Canonical address) :=
  inferInstanceAs (Decidable (_ ∨ _))

variable (refuses : Nat → Nat → Bool)

/-- The entry of `address` on a level.  Bit 0 is V, bit 1 R, bit 2 W, bit 3 X. -/
def visit (address level entry : Nat) : Visit :=
  if entry.testBit 0 = false ∨
      (entry.testBit 1 = false ∧ entry.testBit 2 = true) ∨
      refuses level entry = true then
    .fault
  else if entry.testBit 1 = true ∨ entry.testBit 3 = true then
    -- a superpage has to be aligned
    if scheme.ppn entry % 2 ^ (scheme.vpnBits * level) = 0 then
      .leaf (scheme.ppn entry / 2 ^ (scheme.vpnBits * level) *
        2 ^ scheme.offsetBits level + address % 2 ^ scheme.offsetBits level)
    else .fault
  else .table (scheme.ppn entry * 2 ^ 12)

variable (memory : PhysicalMemory)

/-- The address of the entry that the table at `table` has for `address`. -/
def entryAddress (address level table : Nat) : Nat :=
  table + scheme.vpn address level * scheme.entryBytes

/-- Look at the table at `table`. -/
def visitTable (address level table : Nat) : Visit :=
  if scheme.entryAddress address level table < memory.size then
    scheme.visit refuses address level
      (memory.entryAt (scheme.entryAddress address level table))
  else .fault

/-- An address that may be accessed. -/
def access (address : Nat) : Option Nat :=
  if address < memory.size then some address else none

/-- The physical address of `address`, by the table at `table` of a level. -/
def walk (address : Nat) : Nat → Nat → Option Nat
  | 0, table =>
      match scheme.visitTable refuses memory address 0 table with
      | .leaf physical => access memory physical
      | _ => none
  | level + 1, table =>
      match scheme.visitTable refuses memory address (level + 1) table with
      | .leaf physical => access memory physical
      | .table next => walk address level next
      | .fault => none

/-- The physical address of a virtual one under `satp`: in mode 0 it is the same,
in the mode of the scheme the root table gives it. -/
def translate (satp address : Nat) : Option Nat :=
  if satp / 2 ^ scheme.modeShift = 0 then some address
  else if satp / 2 ^ scheme.modeShift = scheme.mode then
    if scheme.Canonical address then
      scheme.walk refuses memory address scheme.top
        (satp % 2 ^ scheme.ppnBits * 2 ^ 12)
    else none
  else none

section

variable {scheme refuses memory}
variable {address level entry table physical : Nat}

/-- An entry is a pointer to the next table if its lowest four bits are 0001. -/
theorem visit_eq_table
    (visited : scheme.visit refuses address level entry = .table table) :
    entry % 16 = 1 ∧ table = scheme.ppn entry * 2 ^ 12 := by
  unfold visit at visited
  split_ifs at visited with fault leaf
  simp only [Nat.testBit_eq_decide_div_mod_eq, decide_eq_false_iff_not,
    decide_eq_true_eq, not_or] at fault leaf
  cases visited
  refine ⟨?_, rfl⟩
  omega

/-- A leaf is not a pointer, and its page is aligned. -/
theorem visit_eq_leaf
    (visited : scheme.visit refuses address level entry = .leaf physical) :
    entry % 16 ≠ 1 ∧
      scheme.ppn entry % 2 ^ (scheme.vpnBits * level) = 0 ∧
      physical =
        scheme.ppn entry * 2 ^ 12 + address % 2 ^ scheme.offsetBits level := by
  unfold visit at visited
  split_ifs at visited with fault leaf aligned
  simp only [Nat.testBit_eq_decide_div_mod_eq, decide_eq_true_eq] at leaf
  cases visited
  refine ⟨by omega, aligned, ?_⟩
  have whole :
      scheme.ppn entry / 2 ^ (scheme.vpnBits * level) *
        2 ^ (scheme.vpnBits * level) = scheme.ppn entry :=
    Nat.div_mul_cancel (Nat.dvd_of_mod_eq_zero aligned)
  rw [offsetBits, Nat.add_comm 12, Nat.pow_add, ← Nat.mul_assoc, whole]

/-- A table that is looked at without a fault has its entry in memory. -/
theorem visitTable_eq_visit
    (visited : scheme.visitTable refuses memory address level table ≠ .fault) :
    scheme.entryAddress address level table < memory.size ∧
      scheme.visitTable refuses memory address level table =
        scheme.visit refuses address level
          (memory.entryAt (scheme.entryAddress address level table)) := by
  unfold visitTable at visited ⊢
  split_ifs at visited ⊢ with inside
  · exact ⟨inside, rfl⟩
  · exact absurd rfl visited

/-- What a walk with a result does on its first level: the table is in memory,
and its entry is a leaf or points to the table of the level below. -/
theorem walk_cases
    (walked : scheme.walk refuses memory address level table = some physical) :
    scheme.entryAddress address level table < memory.size ∧
      (scheme.visit refuses address level
            (memory.entryAt (scheme.entryAddress address level table)) =
          .leaf physical ∧ physical < memory.size ∨
        ∃ lower next,
          level = lower + 1 ∧
          scheme.visit refuses address level
              (memory.entryAt (scheme.entryAddress address level table)) =
            .table next ∧
          scheme.walk refuses memory address lower next = some physical) := by
  have accessed {found : Nat} (allowed : access memory found = some physical) :
      found = physical ∧ physical < memory.size := by
    unfold access at allowed
    split_ifs at allowed with inside
    cases allowed
    exact ⟨rfl, inside⟩
  cases visited : scheme.visitTable refuses memory address level table with
  | fault => cases level <;> simp [walk, visited] at walked
  | leaf found =>
      obtain ⟨inside, same⟩ := visitTable_eq_visit (by rw [visited]; nofun)
      have allowed : access memory found = some physical := by
        cases level <;> simpa [walk, visited] using walked
      obtain ⟨rfl, within⟩ := accessed allowed
      exact ⟨inside, .inl ⟨same ▸ visited, within⟩⟩
  | table next =>
      obtain ⟨inside, same⟩ := visitTable_eq_visit (by rw [visited]; nofun)
      cases level with
      | zero => simp [walk, visited] at walked
      | succ lower =>
          refine ⟨inside, .inr ⟨lower, next, rfl, same ▸ visited, ?_⟩⟩
          simpa [walk, visited] using walked

/-- What a translation with a result says about `satp`. -/
theorem translate_cases
    {satp : Nat}
    (translated :
      scheme.translate refuses memory satp address = some physical) :
    satp / 2 ^ scheme.modeShift = 0 ∧ physical = address ∨
      satp / 2 ^ scheme.modeShift = scheme.mode ∧
        scheme.walk refuses memory address scheme.top
          (satp % 2 ^ scheme.ppnBits * 2 ^ 12) = some physical := by
  unfold translate at translated
  split_ifs at translated with bare active canonical
  · cases translated
    exact .inl ⟨bare, rfl⟩
  · exact .inr ⟨active, translated⟩

end

end PagedScheme

end Riscv
end EchelonSbi
