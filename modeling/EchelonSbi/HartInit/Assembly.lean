import EchelonSbi.HartInit.Probe
import Mathlib.Tactic.IntervalCases

/-!
# The assembled instructions

The bytes below the stack pointer after the stores of the probe, and what the
hart makes of them.
-/

namespace EchelonSbi
namespace HartInit

open Foundation
open Riscv
open ByteProgram

section Bytes

/-! ## The bytes of the instructions -/

variable {memory : ByteMemory w} {base : BitVec w}

theorem csrrc_bytes
    {argument : BitVec v}
    (wide : 12 ≤ v)
    (first : memory base = 0x73)
    (second : memory (base + 1#w) = 0x30)
    (third : memory (base + 2#w) = (argument <<< 4).extractLsb' 0 8)
    (fourth : memory (base + 3#w) = (argument >>> 4).extractLsb' 0 8) :
    memory.bytes base 4 = (Fetched.csrrc (argument.setWidth 12)).encode := by
  apply BitVec.eq_of_getLsbD_eq
  intro bit inside
  have whole : bit < 32 := inside
  rw [ByteMemory.getLsbD_bytes memory base inside, Fetched.encode,
    BitVec.getLsbD_append]
  rcases Nat.lt_or_ge bit 20 with fields | number
  · rw [if_pos fields]
    rcases Nat.lt_or_ge bit 16 with lower | upper
    · interval_cases bit <;> simp [first, second] <;> decide
    · rw [show bit / 8 = 2 by omega, third]
      interval_cases bit <;> simp <;> first | omega | decide
  · rw [if_neg (by omega), BitVec.getLsbD_setWidth,
      decide_eq_true (show bit - 20 < 12 by omega)]
    rcases Nat.lt_or_ge bit 24 with lower | upper
    · rw [show bit / 8 = 2 by omega, third, BitVec.getLsbD_extractLsb',
        BitVec.getLsbD_shiftLeft, Nat.zero_add, show bit % 8 - 4 = bit - 20 by omega,
        decide_eq_true (show bit % 8 < 8 by omega),
        decide_eq_true (show bit % 8 < v by omega),
        decide_eq_false (show ¬bit % 8 < 4 by omega)]
      rfl
    · rw [show bit / 8 = 3 by omega, fourth, BitVec.getLsbD_extractLsb',
        BitVec.getLsbD_ushiftRight, Nat.zero_add, show 4 + bit % 8 = bit - 20 by omega,
        decide_eq_true (show bit % 8 < 8 by omega)]

theorem jalr_bytes
    (first : memory base = 0x67)
    (second : memory (base + 1#w) = 0x00)
    (third : memory (base + 2#w) = 0x07)
    (fourth : memory (base + 3#w) = 0x00) :
    memory.bytes base 4 = (Fetched.jalr 0 14).encode := by
  simp only [ByteMemory.bytes, BitVec.add_zero, first, second, third, fourth]
  decide

end Bytes

section Memory

/-! ## The memory after the stores -/

variable {w : Nat} (memory : ByteMemory w) (source base argument : BitVec w)

/-- The memory after the two stores of the constant parts. -/
def copied : ByteMemory w :=
  (memory.store base 2 (memory.load (source + 0#w) 2 : BitVec w)).store
    (base + 4#w) 4 (memory.load (source + 4#w) 4 : BitVec w)

/-- The memory after all stores. -/
def patched : ByteMemory w :=
  ((copied memory source base).store (base + 3#w) 1 (argument >>> 4)).store
    (base + 2#w) 1
      (((copied memory source base).load (source + 2#w) 1 &&&
        BitVec.ofInt w 0x0F) ||| argument <<< 4)

/-- The template is in memory. -/
def HoldsTemplate (memory : ByteMemory w) (source : BitVec w) : Prop :=
  ∀ index (inside : index < template.length),
    memory (source + BitVec.ofNat w index) = template[index]

variable {memory source base argument}

theorem span_part
    {offset size : Nat}
    (wide : 32 ≤ w)
    (inside : offset + size ≤ 8) :
    ByteMemory.span (base + BitVec.ofNat w offset) size ⊆ ByteMemory.span base 8 := by
  have room : 2 ^ 32 ≤ 2 ^ w := Nat.pow_le_pow_right (by decide) wide
  exact ByteMemory.span_offset_subset inside (by omega)

theorem copied_outside
    {other : BitVec w}
    (wide : 32 ≤ w)
    (outside : other ∉ ByteMemory.span base 8) :
    copied memory source base other = memory other := by
  have first : other ∉ ByteMemory.span base 2 := by
    have part := @span_part w base 0 2 wide (by decide)
    rw [BitVec.add_zero] at part
    exact fun inside => outside (part inside)
  have second : other ∉ ByteMemory.span (base + 4#w) 4 :=
    fun inside => outside (span_part wide (by decide) inside)
  rw [copied, ByteMemory.store_outside second, ByteMemory.store_outside first]

/-- The constant bytes. -/
theorem copied_byte
    (wide : 32 ≤ w)
    (holds : HoldsTemplate memory source)
    {index : Nat}
    (inside : index < template.length)
    (constant : index < 2 ∨ 4 ≤ index) :
    copied memory source base (base + BitVec.ofNat w index) = template[index] := by
  have room : 2 ^ 32 ≤ 2 ^ w := Nat.pow_le_pow_right (by decide) wide
  have eight : index < 8 := inside
  rw [copied, ByteMemory.store_offset (by omega) (by omega)]
  split_ifs with second
  · rw [ByteMemory.extract_load (by omega) (by omega), BitVec.add_assoc,
      ← holds index inside, ← BitVec.ofNat_add, Nat.add_sub_cancel' second.1]
  · have lower : index < 2 := by omega
    have stored := @ByteMemory.store_offset w w memory base 2 0
      (memory.load (source + 0#w) 2) (by omega) index (by omega)
    rw [BitVec.add_zero] at stored
    rw [stored, if_pos (by omega), ByteMemory.extract_load (by omega) (by omega),
      BitVec.add_zero, ← holds index inside, Nat.sub_zero]

theorem patched_byte
    (wide : 32 ≤ w)
    (holds : HoldsTemplate memory source)
    {index : Nat}
    (inside : index < template.length)
    (constant : index < 2 ∨ 4 ≤ index) :
    patched memory source base argument (base + BitVec.ofNat w index) =
      template[index] := by
  have room : 2 ^ 32 ≤ 2 ^ w := Nat.pow_le_pow_right (by decide) wide
  have eight : index < 8 := inside
  rw [patched, ByteMemory.store_offset (by omega) (by omega), if_neg (by omega),
    ByteMemory.store_offset (by omega) (by omega), if_neg (by omega)]
  exact copied_byte wide holds inside constant

theorem patched_third
    (wide : 32 ≤ w)
    (holds : HoldsTemplate memory source)
    (apart : Disjoint (ByteMemory.span source 8) (ByteMemory.span base 8)) :
    patched memory source base argument (base + 2#w) =
      (argument <<< 4).extractLsb' 0 8 := by
  have room : 2 ^ 32 ≤ 2 ^ w := Nat.pow_le_pow_right (by decide) wide
  have byte : copied memory source base (source + 2#w) = 0 := by
    have within := (@ByteMemory.mem_span_offset w source 0 8 (by omega) 2
      (by omega)).mpr (by decide)
    rw [BitVec.add_zero] at within
    rw [copied_outside wide (Set.disjoint_left.mp apart within)]
    exact holds 2 (by decide)
  have loaded : (copied memory source base).load (source + 2#w) 1 = 0#w := by
    rw [ByteMemory.load]
    apply BitVec.eq_of_getLsbD_eq
    simp [ByteMemory.bytes, byte, BitVec.getLsbD_signExtend]
  rw [patched, ByteMemory.store_offset (by omega) (by omega), if_pos (by decide), loaded,
    BitVec.zero_and, BitVec.zero_or]

theorem patched_fourth
    (wide : 32 ≤ w) :
    patched memory source base argument (base + 3#w) =
      (argument >>> 4).extractLsb' 0 8 := by
  have room : 2 ^ 32 ≤ 2 ^ w := Nat.pow_le_pow_right (by decide) wide
  rw [patched, ByteMemory.store_offset (by omega) (by omega), if_neg (by decide),
    ByteMemory.store_offset (by omega) (by omega), if_pos (by decide)]

/-- The first instruction reads the register of the argument. -/
theorem patched_csrrc
    (wide : 32 ≤ w)
    (holds : HoldsTemplate memory source)
    (apart : Disjoint (ByteMemory.span source 8) (ByteMemory.span base 8)) :
    (patched memory source base argument).bytes base 4 =
      (Fetched.csrrc (argument.setWidth 12)).encode := by
  have first := @patched_byte w memory source base argument wide holds 0 (by decide)
    (by decide)
  rw [BitVec.add_zero] at first
  exact csrrc_bytes (by omega) first
    (patched_byte wide holds (show 1 < template.length by decide) (by decide))
    (patched_third wide holds apart) (patched_fourth wide)

/-- The second instruction jumps to the return pathway. -/
theorem patched_jalr
    (wide : 32 ≤ w)
    (holds : HoldsTemplate memory source) :
    (patched memory source base argument).bytes (base + 4#w) 4 =
      (Fetched.jalr 0 14).encode := by
  have byte (index : Nat) (inside : 4 + index < template.length) :
      patched memory source base argument (base + 4#w + BitVec.ofNat w index) =
        template[4 + index] := by
    rw [BitVec.add_assoc, ← BitVec.ofNat_add]
    exact patched_byte wide holds inside (.inr (by omega))
  have first := byte 0 (by decide)
  rw [BitVec.add_zero] at first
  exact jalr_bytes first (byte 1 (by decide)) (byte 2 (by decide)) (byte 3 (by decide))

end Memory

section Run

/-! ## The run of the probe -/

/-- The stores of the probe, by their offsets from the stack pointer. -/
def probeStores : List (Int × Nat) :=
  [(-0x8, 2), (-0x4, 4), (-0x5, 1), (-0x6, 1)]

/-- Where the instructions are assembled. -/
def below (sp : BitVec w) : BitVec w :=
  sp + BitVec.ofInt w (-0x8)

theorem below_add
    (sp : BitVec w)
    (offset : Nat) :
    sp + BitVec.ofInt w (offset - 0x8) = below sp + BitVec.ofNat w offset := by
  have same : (offset - 0x8 : Int) = -0x8 + offset := by omega
  rw [below, BitVec.add_assoc, ← BitVec.ofInt_natCast, ← BitVec.ofInt_add, same]

/-- The template can be read. -/
def ReadsTemplate (platform : Platform w) (source : BitVec w) : Prop :=
  ∀ access ∈ [(0, 2), (4, 4), (2, 1)],
    platform.loads (source + BitVec.ofNat w access.1) access.2 = true

variable {xlen : Xlen} {firmware : Firmware xlen} {platform : Platform xlen.bits}
  {call machine : ByteMachine xlen.bits} {writable : Set (Word xlen)}

theorem wide (xlen : Xlen) : 32 ≤ xlen.bits := by
  cases xlen <;> decide

/-- The probe is about to make a store. -/
def StoreReached
    (firmware : Firmware xlen) (platform : Platform xlen.bits)
    (writable : Set (Word xlen)) (call : ByteMachine xlen.bits) (store : Int × Nat) :
    Prop :=
  ∃ line machine rs rest,
    firmware.Reaches platform {firmware.place 76} writable ⟨firmware.place 115, call⟩
      ⟨firmware.place line, machine⟩ ∧
    Prepared firmware call machine ∧
    firmware.HoldsAt line (plain (.storeBytes store.2 rs store.1 .sp) :: rest) ∧
    115 ≤ line ∧ line < 146

/-- If every store that is reached is taken, the probe assembles the instructions. -/
theorem assemble_path
    (reads : ReadsTemplate platform (firmware.names.address .template))
    (takes : ∀ store ∈ probeStores, StoreReached firmware platform writable call store →
      platform.stores (call.get .sp + BitVec.ofInt xlen.bits store.1) store.2 = true ∧
        ByteMemory.span (call.get .sp + BitVec.ofInt xlen.bits store.1) store.2 ⊆
          writable) :
    (∃ machine,
      firmware.Reaches platform {firmware.place 76} writable ⟨firmware.place 115, call⟩
        ⟨firmware.place 138, machine⟩ ∧
      Prepared firmware call machine ∧ machine.get .a0 = 1 ∧
      machine.memory = patched call.memory (firmware.names.address .template)
        (below (call.get .sp)) (call.get .a0)) ∧
    ∀ store ∈ probeStores, StoreReached firmware platform writable call store := by
  obtain ⟨-, copies, patches, attempts, -⟩ := holds_probe_blocks firmware
  -- one store, at a line of the probe
  have stored {line size : Nat} {rs : Reg} {offset : Int}
      {rest : List (ByteLine InitName)} {machine : ByteMachine xlen.bits}
      (path : firmware.Reaches platform {firmware.place 76} writable
        ⟨firmware.place 115, call⟩ ⟨firmware.place line, machine⟩)
      (prepared : Prepared firmware call machine)
      (holds : firmware.HoldsAt line (plain (.storeBytes size rs offset .sp) :: rest))
      (probe : 115 ≤ line) (inside : line < 146)
      (member : (offset, size) ∈ probeStores) :
      StoreReached firmware platform writable call (offset, size) ∧
        firmware.Reaches platform {firmware.place 76} writable
          ⟨firmware.place 115, call⟩ ⟨firmware.place (line + 1),
            machine.store (call.get .sp + BitVec.ofInt xlen.bits offset) size
              (machine.get rs)⟩ ∧
        Prepared firmware call (machine.store
          (call.get .sp + BitVec.ofInt xlen.bits offset) size (machine.get rs)) := by
    have reached : StoreReached firmware platform writable call (offset, size) :=
      ⟨line, machine, rs, rest, path, prepared, holds, probe, inside⟩
    obtain ⟨permitted, within⟩ := takes _ member reached
    have sp : machine.get .sp = call.get .sp := prepared.kept .sp (by decide)
    rw [← sp] at permitted within ⊢
    exact ⟨reached, path.tail (stack_step holds probe inside permitted within),
      prepared.store _ _ _⟩
  obtain ⟨first, firstPath, firstPrepared, a0, a2, a3, memory⟩ :=
    @save_path _ firmware platform call writable
      (reads (0, 2) (by decide)) (reads (4, 4) (by decide))
  obtain ⟨halfReached, halfPath, halfPrepared⟩ :=
    stored firstPath firstPrepared copies.tail.tail (by decide) (by decide) (by decide)
  obtain ⟨wordReached, wordPath, wordPrepared⟩ :=
    stored halfPath halfPrepared copies.tail.tail.tail (by decide) (by decide) (by decide)
  -- the registers of the stores, and the memory in between
  have offset (index : Nat) := below_add (call.get .sp) index
  have constant :
      ((first.store (call.get .sp + BitVec.ofInt xlen.bits (-0x8)) 2
        (first.get .a2)).store (call.get .sp + BitVec.ofInt xlen.bits (-0x4)) 4
          (first.get .a3)).memory =
        copied call.memory (firmware.names.address .template) (below (call.get .sp)) := by
    have word : call.get .sp + BitVec.ofInt xlen.bits (-0x4) =
        below (call.get .sp) + BitVec.ofNat xlen.bits 4 := offset 4
    rw [ByteMachine.memory_store, ByteMachine.memory_store, memory, a2, a3, word]
    rfl
  obtain ⟨shifted, shiftedPath, shiftedPrepared, upper, lower, kept⟩ :=
    @patch_path _ firmware platform call _ writable wordPrepared
      (reads (2, 1) (by decide))
  simp only [ByteMachine.get_store] at upper lower kept
  rw [constant] at lower kept
  obtain ⟨upperReached, upperPath, upperPrepared⟩ :=
    stored (wordPath.trans shiftedPath) shiftedPrepared patches.tail.tail.tail.tail.tail
      (by decide) (by decide) (by decide)
  obtain ⟨lowerReached, lowerPath, lowerPrepared⟩ :=
    stored upperPath upperPrepared patches.tail.tail.tail.tail.tail.tail
      (by decide) (by decide) (by decide)
  have answers (machine : ByteMachine xlen.bits) :
      firmware.Step platform {firmware.place 76} writable ⟨firmware.place 137, machine⟩
        ⟨firmware.place 138, machine.setReg .a0 (BitVec.ofInt xlen.bits 1)⟩ :=
    Step.of_line attempts.getElem? (place_ne_return _ (by decide) (by decide)) rfl
      (Set.empty_subset _) rfl
  refine ⟨⟨_, lowerPath.tail (answers _), lowerPrepared.setReg (by decide) _, ?_, ?_⟩,
    ?_⟩
  · exact BitVec.ofInt_ofNat _ 1
  · have third : call.get .sp + BitVec.ofInt xlen.bits (-0x6) =
        below (call.get .sp) + BitVec.ofNat xlen.bits 2 := offset 2
    have fourth : call.get .sp + BitVec.ofInt xlen.bits (-0x5) =
        below (call.get .sp) + BitVec.ofNat xlen.bits 3 := offset 3
    rw [ByteMachine.memory_setReg, ByteMachine.memory_store, ByteMachine.memory_store,
      ByteMachine.get_store, kept, upper, lower, third, fourth, a0]
    rfl
  · intro store member
    simp only [probeStores, List.mem_cons, List.not_mem_nil, or_false] at member
    rcases member with rfl | rfl | rfl | rfl
    · exact halfReached
    · exact wordReached
    · exact upperReached
    · exact lowerReached

end Run

end HartInit
end EchelonSbi
