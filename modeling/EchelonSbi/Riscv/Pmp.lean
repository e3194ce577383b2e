import Mathlib.Data.Nat.Bitwise
import Mathlib.Order.Basic

/-!
# Physical memory protection

The check of the privileged architecture for accesses below M-mode.  Of the
entries that match a byte of an access, the one with the lowest number decides:
the access is permitted if that entry matches all of its bytes and gives the
permission.  An access that no entry matches is denied.
-/

namespace EchelonSbi
namespace Riscv

/-- What an access does. -/
inductive AccessKind where
  | load
  | store
  | fetch
  deriving DecidableEq, Repr

/-- An access to the bytes from `address` up to, not including,
`address + length`. -/
structure PhysicalAccess where
  address : Nat
  length : Nat
  kind : AccessKind

/-- The address-matching modes. -/
inductive AddressMatching where
  | OFF
  | TOR
  | NA4
  | NAPOT
  deriving DecidableEq, Repr

/-- One entry: its configuration and its address register, which holds an
address without its lowest two bits. -/
structure PmpEntry where
  R : Bool
  W : Bool
  X : Bool
  A : AddressMatching
  pmpaddr : Nat
  deriving DecidableEq, Repr

namespace PmpEntry

/-- The fields of a configuration byte. -/
def ofConfig (config pmpaddr : Nat) : PmpEntry where
  R := config.testBit 0
  W := config.testBit 1
  X := config.testBit 2
  A :=
    match config / 8 % 4 with
    | 0 => .OFF
    | 1 => .TOR
    | 2 => .NA4
    | _ => .NAPOT
  pmpaddr := pmpaddr

/-- The first address of the entry and the one behind its last; `below` is the
address register of the entry before. -/
def bounds (entry : PmpEntry) (below : Nat) : Nat × Nat :=
  match entry.A with
  | .OFF => (0, 0)
  | .TOR => (4 * below, 4 * entry.pmpaddr)
  | .NA4 => (4 * entry.pmpaddr, 4 * entry.pmpaddr + 4)
  | .NAPOT =>
      -- the lowest clear bit and the set bits below it give the size
      let words := (entry.pmpaddr ^^^ (entry.pmpaddr + 1)) + 1
      let start := entry.pmpaddr - entry.pmpaddr % words
      (4 * start, 4 * (start + words))

/-- The permission for a kind of access. -/
def permits (entry : PmpEntry) : AccessKind → Bool
  | .load => entry.R
  | .store => entry.W
  | .fetch => entry.X

/-- The entry matches a byte of the access. -/
def Meets (entry : PmpEntry) (below : Nat) (access : PhysicalAccess) : Prop :=
  max (entry.bounds below).1 access.address <
    min (entry.bounds below).2 (access.address + access.length)

/-- The entry matches all bytes of the access. -/
def Covers (entry : PmpEntry) (below : Nat) (access : PhysicalAccess) : Prop :=
  (entry.bounds below).1 ≤ access.address ∧
    access.address + access.length ≤ (entry.bounds below).2

instance (entry : PmpEntry) (below : Nat) (access : PhysicalAccess) :
    Decidable (entry.Meets below access) :=
  inferInstanceAs (Decidable (_ < _))

instance (entry : PmpEntry) (below : Nat) (access : PhysicalAccess) :
    Decidable (entry.Covers below access) :=
  inferInstanceAs (Decidable (_ ∧ _))

end PmpEntry

/-- The entries behind the one with the address register `below` permit an
access from below M-mode. -/
def PmpPermits : Nat → List PmpEntry → PhysicalAccess → Prop
  | _, [], _ => False
  | below, entry :: rest, access =>
      if entry.Meets below access then
        entry.Covers below access ∧ entry.permits access.kind = true
      else PmpPermits entry.pmpaddr rest access

instance PmpPermits.decidable :
    (below : Nat) → (entries : List PmpEntry) → (access : PhysicalAccess) →
      Decidable (PmpPermits below entries access)
  | _, [], _ => .isFalse id
  | below, entry :: rest, access =>
      have := PmpPermits.decidable entry.pmpaddr rest access
      inferInstanceAs (Decidable (if entry.Meets below access then
        entry.Covers below access ∧ entry.permits access.kind = true
      else PmpPermits entry.pmpaddr rest access))

section

variable {entry : PmpEntry} {below : Nat} {rest : List PmpEntry}
  {access : PhysicalAccess}

/-- A top-of-range entry matches what lies between the two addresses. -/
theorem PmpEntry.meets_iff_of_TOR
    (range : entry.A = .TOR) :
    entry.Meets below access ↔
      max (4 * below) access.address <
        min (4 * entry.pmpaddr) (access.address + access.length) := by
  rw [Meets, bounds, range]

theorem PmpEntry.covers_iff_of_TOR
    (range : entry.A = .TOR) :
    entry.Covers below access ↔
      4 * below ≤ access.address ∧
        access.address + access.length ≤ 4 * entry.pmpaddr := by
  rw [Covers, bounds, range]

end

end Riscv
end EchelonSbi
