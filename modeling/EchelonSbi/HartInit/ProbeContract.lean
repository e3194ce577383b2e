import EchelonSbi.HartInit.Assembly

/-!
# What a call of the probe does

The probe keeps its contract where the eight bytes below the stack pointer belong
to the stack of the hart, can be written and can be executed; for a register that
the hart has, nowhere else.
-/

namespace EchelonSbi
namespace HartInit

open Foundation
open Riscv
open ByteProgram

/-- The memory reserved as a stack is apart from the code, and begins at an even
address. -/
structure StackLayout (firmware : Firmware xlen) (stack : Set (Word xlen)) : Prop where
  code : ∀ address ∈ stack, firmware.lineAt address = none
  template : Disjoint (ByteMemory.span (firmware.names.address .template) 8) stack
  even : ∀ address ∈ stack, address &&& ~~~1 ∈ stack

/-- Below the stack pointer instructions can be assembled and executed. -/
structure StackReady
    (platform : Platform w) (stack : Set (BitVec w)) (sp : BitVec w) : Prop where
  inside : ByteMemory.span (below sp) 8 ⊆ stack
  even : below sp &&& ~~~1 = below sp
  stores : ∀ store ∈ probeStores,
    platform.stores (sp + BitVec.ofInt w store.1) store.2 = true
  executes : platform.executes (below sp) = true
  executesNext : platform.executes (below sp + 4) = true

/-- A call of the probe. -/
structure ProbeCall (firmware : Firmware xlen) (call : ByteMachine xlen.bits) : Prop where
  back : call.get .ra = firmware.place 76
  template : HoldsTemplate call.memory (firmware.names.address .template)

/-- The probe writes only on the stack, assembles an access to the register and a
jump to `a4`, which is `x14`, and returns whether the access traps, with all
control and status registers as they were. -/
structure Probes
    (platform : Platform xlen.bits) (firmware : Firmware xlen) (stack : Set (Word xlen))
    (call : ByteMachine xlen.bits) : Prop where
  inside : ∀ config,
    firmware.Reaches platform {firmware.place 76} Set.univ ⟨firmware.place 115, call⟩
      config →
    config.pc ≠ firmware.place 76 → firmware.writes platform config ⊆ stack
  assembles : ∃ machine,
    firmware.Reaches platform {firmware.place 76} Set.univ ⟨firmware.place 115, call⟩
      ⟨firmware.place 138, machine⟩ ∧
    machine.memory.bytes (below (call.get .sp)) 4 =
      (Fetched.csrrc ((call.get .a0).setWidth 12)).encode ∧
    machine.memory.bytes (below (call.get .sp) + 4) 4 = (Fetched.jalr 0 14).encode
  returns : ∃ results,
    firmware.Reaches platform {firmware.place 76} Set.univ ⟨firmware.place 115, call⟩
      ⟨firmware.place 76, results⟩ ∧
    Returned call results
      (if platform.implements ((call.get .a0).setWidth 12) then 1 else 0)

section Attempt

variable {xlen : Xlen} {firmware : Firmware xlen} {platform : Platform xlen.bits}
  {stack writable : Set (Word xlen)} {call machine : ByteMachine xlen.bits}

/-- The return is not on the stack. -/
theorem StackLayout.not_return
    (layout : StackLayout firmware stack)
    {address : Word xlen}
    (inside : address ∈ stack) :
    address ∉ ({firmware.place 76} : Set (Word xlen)) := by
  intro same
  have outside := layout.code address inside
  have lines := firmware.length_lines
  rw [Set.mem_singleton_iff.mp same, firmware.lineAt_place (by omega)] at outside
  cases outside

/-- A place below the stack pointer. -/
theorem mem_below
    {sp : Word xlen}
    (inside : ByteMemory.span (below sp) 8 ⊆ stack)
    {index : Nat}
    (small : index < 8) :
    below sp + BitVec.ofNat xlen.bits index ∈ stack := by
  have room : 2 ^ 32 ≤ 2 ^ xlen.bits := Nat.pow_le_pow_right (by decide) (wide xlen)
  have within := (@ByteMemory.mem_span_offset _ (below sp) 0 8 (by omega) index
    (by omega)).mpr (by omega)
  rw [BitVec.add_zero] at within
  exact inside within

/-- The jump to the assembled instructions. -/
theorem jump_step
    (prepared : Prepared firmware call machine) :
    firmware.Step platform {firmware.place 76} writable ⟨firmware.place 138, machine⟩
      ⟨below (call.get .sp) &&& ~~~1, machine⟩ := by
  obtain ⟨-, -, -, attempts, -⟩ := holds_probe_blocks firmware
  have target : firmware.follow 138 machine (.jalr (-0x8) .sp) =
      some (below (call.get .sp) &&& ~~~1) := by
    have sp : machine.get .sp = call.get .sp := prepared.kept .sp (by decide)
    rw [follow, sp]
    rfl
  exact Step.of_line attempts.tail.getElem? (place_ne_return _ (by decide) (by decide)) rfl
    (Set.empty_subset _) target

/-- The assembled instructions return whether the access traps. -/
theorem attempt_path
    (coherent : platform.Coherent)
    (layout : StackLayout firmware stack)
    (ready : StackReady platform stack (call.get .sp))
    (back : call.get .ra = firmware.place 76)
    (prepared : Prepared firmware call machine)
    (success : machine.get .a0 = 1)
    {csr : BitVec 12}
    (access : machine.memory.bytes (below (call.get .sp)) 4 = (Fetched.csrrc csr).encode)
    (jump : machine.memory.bytes (below (call.get .sp) + 4) 4 =
      (Fetched.jalr 0 14).encode) :
    ∃ results,
      firmware.Reaches platform {firmware.place 76} writable
        ⟨firmware.place 138, machine⟩ ⟨firmware.place 76, results⟩ ∧
      Returned call results (if platform.implements csr then 1 else 0) := by
  have first : below (call.get .sp) ∈ stack := by
    have within := @mem_below _ stack _ ready.inside 0 (by decide)
    rwa [BitVec.add_zero] at within
  have second : below (call.get .sp) + 4 ∈ stack :=
    @mem_below _ stack _ ready.inside 4 (by decide)
  have jumps := @jump_step _ _ platform writable _ _ prepared
  rw [ready.even] at jumps
  have step :
      firmware.Step platform {firmware.place 76} writable
        ⟨below (call.get .sp), machine⟩ _ :=
    Step.of_memory (layout.code _ first) (layout.not_return first) coherent
      ready.executes access
  cases implemented : platform.implements csr with
  | false =>
      simp only [executeFetched, implemented, Bool.false_eq_true, if_false] at step ⊢
      obtain ⟨results, path, returned⟩ := trapped_path prepared back step
      exact ⟨results, path.head jumps, returned⟩
  | true =>
      simp only [executeFetched, implemented, if_true] at step ⊢
      have leaves :
          firmware.Step platform {firmware.place 76} writable
            ⟨below (call.get .sp) + 4, machine⟩ ⟨firmware.place 140, machine⟩ := by
        have lines := firmware.length_lines
        have target : (machine.get (Reg.ofNumber 14) +
            (0 : BitVec 12).signExtend xlen.bits) &&& ~~~1 = firmware.place 140 := by
          have register : Reg.ofNumber 14 = .a4 := by decide
          have none : (0 : BitVec 12).signExtend xlen.bits = BitVec.ofNat xlen.bits 0 := by
            apply BitVec.eq_of_getLsbD_eq
            simp [BitVec.getLsbD_signExtend]
          rw [register, none, BitVec.add_zero, prepared.a4,
            firmware.place_even (by omega)]
        have jumped :
            firmware.Step platform {firmware.place 76} writable
              ⟨below (call.get .sp) + 4, machine⟩ _ :=
          Step.of_memory (layout.code _ second) (layout.not_return second) coherent
            ready.executesNext jump
        rwa [executeFetched, target] at jumped
      obtain ⟨results, path, returned, -⟩ :=
        @restore_path _ _ platform _ _ writable prepared back
      exact ⟨results, ((path.head leaves).head step).head jumps, success ▸ returned⟩

end Attempt

section Contract

variable {xlen : Xlen} {firmware : Firmware xlen} {platform : Platform xlen.bits}
  {stack writable : Set (Word xlen)} {call machine : ByteMachine xlen.bits}

/-- The stores are within the eight bytes below the stack pointer. -/
theorem stores_within
    (sp : Word xlen)
    {store : Int × Nat}
    (member : store ∈ probeStores) :
    ∃ offset, sp + BitVec.ofInt xlen.bits store.1 =
      below sp + BitVec.ofNat xlen.bits offset ∧ offset + store.2 ≤ 8 := by
  simp only [probeStores, List.mem_cons, List.not_mem_nil, or_false] at member
  rcases member with rfl | rfl | rfl | rfl
  · exact ⟨0, below_add sp 0, by decide⟩
  · exact ⟨4, below_add sp 4, by decide⟩
  · exact ⟨3, below_add sp 3, by decide⟩
  · exact ⟨2, below_add sp 2, by decide⟩

/-- A stack that is ready takes the probe. -/
theorem probes_of_ready
    (coherent : platform.Coherent)
    (layout : StackLayout firmware stack)
    (reads : ReadsTemplate platform (firmware.names.address .template))
    (start : ProbeCall firmware call)
    (ready : StackReady platform stack (call.get .sp)) :
    Probes platform firmware stack call := by
  have apart := layout.template.mono_right ready.inside
  obtain ⟨⟨machine, assembled, prepared, success, memory⟩, -⟩ :=
    @assemble_path _ firmware platform call stack reads fun store member _ => by
      obtain ⟨offset, same, fits⟩ := stores_within (call.get .sp) member
      refine ⟨ready.stores store member, ?_⟩
      rw [same]
      exact (span_part (wide xlen) fits).trans ready.inside
  have access : machine.memory.bytes (below (call.get .sp)) 4 =
      (Fetched.csrrc ((call.get .a0).setWidth 12)).encode := by
    rw [memory, patched_csrrc (wide xlen) start.template apart]
  have jump : machine.memory.bytes (below (call.get .sp) + 4) 4 =
      (Fetched.jalr 0 14).encode :=
    memory ▸ patched_jalr (wide xlen) start.template
  obtain ⟨results, attempted, returned⟩ :=
    @attempt_path _ _ platform stack stack _ _ coherent layout ready start.back prepared
      success _ access jump
  have whole := assembled.trans attempted
  refine ⟨fun config reached outside => ?_, ⟨machine, ?_, access, jump⟩, results, ?_,
    returned⟩
  · exact (Reaches.whole whole rfl reached).2 outside
  · exact Reaches.mono (Set.Subset.refl _) (Set.subset_univ _) assembled
  · exact Reaches.mono (Set.Subset.refl _) (Set.subset_univ _) whole

/-- For a register that the hart has, the probe does not return 0. -/
theorem Probes.not_zero
    (probes : Probes platform firmware stack call)
    (implemented : platform.implements ((call.get .a0).setWidth 12) = true)
    {results : ByteMachine xlen.bits}
    (path : firmware.Reaches platform {firmware.place 76} Set.univ
      ⟨firmware.place 115, call⟩ ⟨firmware.place 76, results⟩) :
    ¬Returned call results 0 := by
  intro zero
  obtain ⟨other, otherPath, one⟩ := probes.returns
  have same := otherPath.same_end rfl path rfl
  rw [implemented, if_pos rfl] at one
  have answer := zero.answer.symm.trans
    ((congrArg (ByteMachine.get ·.machine .a0) same).trans one.answer)
  revert answer
  cases xlen <;> decide

/-- For a register that the hart has, every store is taken. -/
theorem Probes.takes
    (probes : Probes platform firmware stack call)
    (implemented : platform.implements ((call.get .a0).setWidth 12) = true)
    (back : call.get .ra = firmware.place 76)
    {store : Int × Nat}
    (reached : StoreReached firmware platform Set.univ call store) :
    platform.stores (call.get .sp + BitVec.ofInt xlen.bits store.1) store.2 = true ∧
      ByteMemory.span (call.get .sp + BitVec.ofInt xlen.bits store.1) store.2 ⊆ stack := by
  obtain ⟨line, machine, rs, rest, path, prepared, holds, probe, inside⟩ := reached
  have sp : machine.get .sp = call.get .sp := prepared.kept .sp (by decide)
  have permitted : platform.stores
      (call.get .sp + BitVec.ofInt xlen.bits store.1) store.2 = true := by
    by_contra refused
    rw [Bool.not_eq_true, ← sp] at refused
    obtain ⟨results, ended, zero⟩ :=
      @refused_path _ _ _ _ _ Set.univ _ _ _ _ _ prepared back holds probe inside refused
    exact probes.not_zero implemented (path.trans ended) zero
  refine ⟨permitted, ?_⟩
  have written := probes.inside _ path (place_ne_return firmware probe inside)
  rw [writes_of_getElem? holds.getElem?] at written
  rw [← sp] at permitted ⊢
  exact subset_of_eq_of_subset (if_pos permitted).symm written

/-- The stores cover the eight bytes. -/
theorem inside_of_stores
    {sp : Word xlen}
    (within : ∀ store ∈ probeStores,
      ByteMemory.span (sp + BitVec.ofInt xlen.bits store.1) store.2 ⊆ stack) :
    ByteMemory.span (below sp) 8 ⊆ stack := by
  have room : 2 ^ 32 ≤ 2 ^ xlen.bits := Nat.pow_le_pow_right (by decide) (wide xlen)
  -- the store at an offset that holds an address
  have covered (offset size : Nat) (small : offset + size ≤ 8)
      (member : ((offset - 8 : Int), size) ∈ probeStores) {index : Nat}
      (above : offset ≤ index) (under : index < offset + size) :
      below sp + BitVec.ofNat xlen.bits index ∈ stack := by
    have inside := within _ member
    rw [below_add] at inside
    exact inside ((ByteMemory.mem_span_offset (by omega) (by omega)).mpr ⟨above, under⟩)
  intro address reached
  obtain ⟨index, fits, rfl⟩ := ByteMemory.exists_offset (below sp) address
  have small : index < 8 := by
    have bounds := (@ByteMemory.mem_span_offset _ (below sp) 0 8 (by omega) index
      fits).mp (by rwa [BitVec.add_zero])
    omega
  rcases Nat.lt_or_ge index 2 with first | above
  · exact covered 0 2 (by decide) (by decide) (Nat.zero_le _) (by omega)
  rcases Nat.lt_or_ge index 3 with third | above
  · exact covered 2 1 (by decide) (by decide) (by omega) (by omega)
  rcases Nat.lt_or_ge index 4 with fourth | above
  · exact covered 3 1 (by decide) (by decide) (by omega) (by omega)
  · exact covered 4 4 (by decide) (by decide) above (by omega)

/-- An odd address is behind the even one. -/
theorem clear_add_one
    {address : BitVec w}
    (odd : address &&& ~~~1 ≠ address) :
    (address &&& ~~~1) + 1 = address := by
  have parts : (address &&& ~~~1) + (address &&& 1) = address := by
    rw [BitVec.add_eq_or_of_and_eq_zero]
    · ext bit inside
      simp only [BitVec.getElem_or, BitVec.getElem_and, BitVec.getElem_not]
      cases address[bit] <;> cases (1 : BitVec w)[bit] <;> rfl
    · ext bit inside
      simp only [BitVec.getElem_and, BitVec.getElem_not, BitVec.ofNat_eq_ofNat,
        BitVec.getElem_zero]
      cases address[bit] <;> cases (1 : BitVec w)[bit] <;> rfl
  have lowest : address &&& 1 = (BitVec.ofBool (address.getLsbD 0)).setWidth w :=
    BitVec.and_one_eq_setWidth_ofBool_getLsbD
  cases bit : address.getLsbD 0 with
  | false =>
      have none : address &&& 1 = 0#w := by
        rw [lowest, bit]
        exact BitVec.setWidth_zero ..
      rw [none, BitVec.add_zero] at parts
      exact absurd parts odd
  | true =>
      have one : address &&& 1 = 1 := by
        rw [lowest, bit]
        apply BitVec.eq_of_toNat_eq
        exact BitVec.toNat_setWidth ..
      rwa [one] at parts

/-- Behind a byte that belongs to neither instruction nothing is decoded. -/
theorem decode_odd
    {memory : ByteMemory w}
    {address : BitVec w}
    (byte : memory (address + 1#w) = 0x73) :
    Fetched.decode (memory.bytes address 4) = none := by
  have bit : (memory.bytes address 4).getLsbD 8 = true := by
    rw [ByteMemory.getLsbD_bytes memory address (by decide), byte]
    rfl
  have first : (memory.bytes address 4).extractLsb' 0 20 ≠ Fetched.csrrcFields := by
    intro same
    have clear := congrArg (BitVec.getLsbD · 8) same
    simp only [BitVec.getLsbD_extractLsb', Nat.zero_add, bit] at clear
    revert clear
    decide
  have second : (memory.bytes address 4).extractLsb' 0 15 ≠ Fetched.jalrFields := by
    intro same
    have clear := congrArg (BitVec.getLsbD · 8) same
    simp only [BitVec.getLsbD_extractLsb', Nat.zero_add, bit] at clear
    revert clear
    decide
  exact (if_neg first).trans (if_neg second)

/-- The probe keeps its contract only on a stack that is ready. -/
theorem ready_of_probes
    (coherent : platform.Coherent)
    (layout : StackLayout firmware stack)
    (reads : ReadsTemplate platform (firmware.names.address .template))
    (start : ProbeCall firmware call)
    (implemented : platform.implements ((call.get .a0).setWidth 12) = true)
    (probes : Probes platform firmware stack call) :
    StackReady platform stack (call.get .sp) := by
  obtain ⟨⟨machine, assembled, prepared, -, memory⟩, reached⟩ :=
    @assemble_path _ firmware platform call Set.univ reads fun store _ reached =>
      ⟨(probes.takes implemented start.back reached).1, Set.subset_univ _⟩
  have taken (store) (member : store ∈ probeStores) :=
    probes.takes implemented start.back (reached store member)
  have inside : ByteMemory.span (below (call.get .sp)) 8 ⊆ stack :=
    inside_of_stores fun store member => (taken store member).2
  have apart := layout.template.mono_right inside
  have first : below (call.get .sp) ∈ stack := by
    have within := @mem_below _ stack _ inside 0 (by decide)
    rwa [BitVec.add_zero] at within
  have second : below (call.get .sp) + 4 ∈ stack :=
    @mem_below _ stack _ inside 4 (by decide)
  have jumped :
      firmware.Reaches platform {firmware.place 76} Set.univ ⟨firmware.place 115, call⟩
        ⟨below (call.get .sp) &&& ~~~1, machine⟩ :=
    assembled.tail (jump_step prepared)
  -- a trap behind the stores returns 0
  have not_trapped {pc : Word xlen}
      (path : firmware.Reaches platform {firmware.place 76} Set.univ
        ⟨firmware.place 115, call⟩ ⟨pc, machine⟩)
      (step : firmware.Step platform {firmware.place 76} Set.univ ⟨pc, machine⟩
        (trap platform ⟨pc, machine⟩)) : False := by
    obtain ⟨results, ended, zero⟩ := trapped_path prepared start.back step
    exact probes.not_zero implemented (path.trans ended) zero
  have target := layout.even _ first
  have executes : platform.executes (below (call.get .sp) &&& ~~~1) = true := by
    by_contra refused
    rw [Bool.not_eq_true] at refused
    exact not_trapped jumped
      (Step.of_refused (layout.code _ target) (layout.not_return target) refused)
  have even : below (call.get .sp) &&& ~~~1 = below (call.get .sp) := by
    by_contra odd
    have byte : machine.memory ((below (call.get .sp) &&& ~~~1) + 1) = 0x73 := by
      have stored := @patched_byte _ call.memory _ (below (call.get .sp)) (call.get .a0)
        (wide xlen) start.template 0 (by decide) (by decide)
      rw [BitVec.add_zero] at stored
      rw [clear_add_one odd, memory, stored]
      rfl
    have stuck : firmware.next platform
        ⟨below (call.get .sp) &&& ~~~1, machine⟩ = none := by
      simp only [next, layout.code _ target, executes, if_true,
        coherent machine.memory _, decode_odd byte, Option.map_none]
    obtain ⟨results, path, -⟩ := probes.returns
    obtain ⟨rest, -⟩ := path.whole rfl jumped
    rcases rest.cases_head with same | ⟨_, step, -⟩
    · exact layout.not_return target (congrArg ByteConfig.pc same)
    · have steps := step.steps
      rw [stuck] at steps
      cases steps
  rw [even] at executes jumped
  refine ⟨inside, even, fun store member => (taken store member).1, executes, ?_⟩
  have access : machine.memory.bytes (below (call.get .sp)) 4 =
      (Fetched.csrrc ((call.get .a0).setWidth 12)).encode := by
    rw [memory, patched_csrrc (wide xlen) start.template apart]
  have step :
      firmware.Step platform {firmware.place 76} Set.univ
        ⟨below (call.get .sp), machine⟩ _ :=
    Step.of_memory (layout.code _ first) (layout.not_return first) coherent executes
      access
  rw [executeFetched, if_pos implemented] at step
  by_contra refused
  rw [Bool.not_eq_true] at refused
  exact not_trapped (jumped.tail step)
    (Step.of_refused (layout.code _ second) (layout.not_return second) refused)

end Contract

end HartInit
end EchelonSbi
