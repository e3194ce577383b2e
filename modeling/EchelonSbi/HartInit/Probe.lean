import EchelonSbi.HartInit.Code

/-!
# A call of the probe

Whatever traps between the first store and the return goes to the temporary
handler, which returns 0.
-/

namespace EchelonSbi
namespace HartInit

open Foundation
open Riscv
open ByteProgram

/-- The control and status registers that the probe uses itself. -/
def probeCsrs : List Csr :=
  [.mstatus, .mtvec, .mtval, .mepc, .mcause]

/-- The registers that the probe changes. -/
def probeRegs : List Reg :=
  [.t0, .t1, .t2, .t3, .t4, .a0, .a1, .a2, .a3, .a4]

section Blocks

variable {xlen : Xlen} (firmware : Firmware xlen)

theorem length_hart_init_handler : (hart_init_handler xlen).length = 115 := by
  cases xlen <;> rfl

theorem Firmware.length_lines : firmware.lines.length = 146 := by
  rw [firmware.lines_eq, List.length_append, length_hart_init_handler]
  rfl

/-- Where the blocks of the probe are. -/
theorem holds_probe_blocks :
    firmware.HoldsAt 115 saveCsrs ∧
      firmware.HoldsAt 126 copyTemplate ∧
      firmware.HoldsAt 130 patchNumber ∧
      firmware.HoldsAt 137 attempt ∧
      firmware.HoldsAt 139 restoreCsrs := by
  have whole : firmware.HoldsAt 0 (hart_init_handler xlen ++ probe_csr) :=
    ⟨[], by rw [firmware.lines_eq, List.append_nil, List.drop_zero]⟩
  have probe := whole.right
  rw [length_hart_init_handler] at probe
  simp only [probe_csr, List.append_assoc] at probe
  have copied := probe.right
  have patched := copied.right
  have attempted := patched.right
  exact ⟨probe.left, copied.left, patched.left, attempted.left, attempted.right⟩

/-- Lines are at different places. -/
theorem place_not_mem
    {line other : Nat}
    (inside : line < 146)
    (otherInside : other < 146)
    (apart : line ≠ other) :
    firmware.place line ∉ ({firmware.place other} : Set (Word xlen)) := by
  intro same
  have lines := firmware.length_lines
  have first := firmware.lineAt_place (show line < firmware.lines.length by omega)
  have second := firmware.lineAt_place (show other < firmware.lines.length by omega)
  rw [Set.mem_singleton_iff.mp same, second] at first
  exact apart (Option.some.inj first).symm

/-- The return is outside the probe. -/
theorem place_ne_return
    {line : Nat}
    (probe : 115 ≤ line)
    (inside : line < 146) :
    firmware.place line ∉ ({firmware.place 76} : Set (Word xlen)) :=
  place_not_mem firmware inside (by decide) (by omega)

end Blocks

/-- The probe has saved what it changes. -/
structure Prepared (firmware : Firmware xlen) (call machine : ByteMachine xlen.bits) :
    Prop where
  t0 : machine.get .t0 = call.csrs .mstatus
  t1 : machine.get .t1 = call.csrs .mtvec
  t2 : machine.get .t2 = call.csrs .mtval
  t3 : machine.get .t3 = call.csrs .mepc
  t4 : machine.get .t4 = call.csrs .mcause
  a1 : machine.get .a1 = firmware.names.address .template
  a4 : machine.get .a4 = firmware.place 140
  mtvec : machine.csrs .mtvec = firmware.place 139
  csrs : ∀ csr ∉ probeCsrs, machine.csrs csr = call.csrs csr
  kept : ∀ reg ∉ probeRegs, machine.get reg = call.get reg

/-- The probe has returned an answer. -/
structure Returned
    (call results : ByteMachine w) (answer : BitVec w) : Prop where
  answer : results.get .a0 = answer
  csrs : results.csrs = call.csrs
  kept : ∀ reg ∉ probeRegs, results.get reg = call.get reg

section Run

variable {xlen : Xlen} {firmware : Firmware xlen} {platform : Platform xlen.bits}
  {call machine after : ByteMachine xlen.bits} {writable : Set (Word xlen)}

namespace Prepared

theorem of_agree
    (prepared : Prepared firmware call machine)
    (registers : ∀ reg ∉ [Reg.a0, .a2, .a3], after.get reg = machine.get reg)
    (csrs : after.csrs = machine.csrs) :
    Prepared firmware call after where
  t0 := (registers .t0 (by decide)).trans prepared.t0
  t1 := (registers .t1 (by decide)).trans prepared.t1
  t2 := (registers .t2 (by decide)).trans prepared.t2
  t3 := (registers .t3 (by decide)).trans prepared.t3
  t4 := (registers .t4 (by decide)).trans prepared.t4
  a1 := (registers .a1 (by decide)).trans prepared.a1
  a4 := (registers .a4 (by decide)).trans prepared.a4
  mtvec := csrs ▸ prepared.mtvec
  csrs csr other := csrs ▸ prepared.csrs csr other
  kept reg other := by
    refine (registers reg fun inside => other ?_).trans (prepared.kept reg other)
    revert inside
    cases reg <;> decide

theorem setReg
    (prepared : Prepared firmware call machine)
    {reg : Reg}
    (free : reg ∈ [Reg.a0, .a2, .a3])
    (value : Word xlen) :
    Prepared firmware call (machine.setReg reg value) := by
  refine prepared.of_agree (fun other apart => ?_) rfl
  rw [ByteMachine.get_setReg, if_neg]
  rintro ⟨rfl, -⟩
  exact apart free

theorem store
    (prepared : Prepared firmware call machine)
    (address : Word xlen)
    (size : Nat)
    (value : Word xlen) :
    Prepared firmware call (machine.store address size value) :=
  prepared.of_agree (fun _ _ => rfl) rfl

/-- A trap leads to the temporary handler. -/
theorem trap
    (prepared : Prepared firmware call machine)
    (pc : Word xlen) :
    ∃ trapped, ByteProgram.trap platform ⟨pc, machine⟩ = ⟨firmware.place 139, trapped⟩ ∧
      Prepared firmware call trapped := by
  refine ⟨_, congrArg (ByteConfig.mk · _) prepared.mtvec, ?_⟩
  refine ⟨prepared.t0, prepared.t1, prepared.t2, prepared.t3, prepared.t4,
    prepared.a1, prepared.a4, ?_, ?_, prepared.kept⟩
  · exact prepared.mtvec
  · intro csr other
    refine Eq.trans ?_ (prepared.csrs csr other)
    cases csr <;> first | rfl | exact absurd (by decide) other

end Prepared

/-- The registers are written back. -/
def restored (machine : ByteMachine w) : ByteMachine w :=
  ((((machine.setCsr .mcause (machine.get .t4)).setCsr .mepc (machine.get .t3)).setCsr
    .mtval (machine.get .t2)).setCsr .mtvec (machine.get .t1)).setCsr .mstatus
      (machine.get .t0)

theorem restored_csrs
    (prepared : Prepared firmware call machine) :
    (restored machine).csrs = call.csrs := by
  funext csr
  cases csr with
  | mstatus => exact prepared.t0
  | mtvec => exact prepared.t1
  | mtval => exact prepared.t2
  | mepc => exact prepared.t3
  | mcause => exact prepared.t4
  | _ => exact prepared.csrs _ (by decide)

/-- The return pathway. -/
theorem restore_path
    (prepared : Prepared firmware call machine)
    (back : call.get .ra = firmware.place 76) :
    ∃ results,
      firmware.Reaches platform {firmware.place 76} writable
        ⟨firmware.place 140, machine⟩ ⟨firmware.place 76, results⟩ ∧
      Returned call results (machine.get .a0) ∧ results.memory = machine.memory := by
  have holds : firmware.HoldsAt 140
      ((restoreCsrs.drop 1).take 5 ++ [plain (.priv (.int .ret))]) :=
    (holds_probe_blocks firmware).2.2.2.2.tail
  have ra : (restored machine).get .ra = firmware.place 76 :=
    (prepared.kept .ra (by decide)).trans back
  have written :
      firmware.Reaches platform {firmware.place 76} writable
        ⟨firmware.place 140, machine⟩ ⟨firmware.place 145, restored machine⟩ := by
    refine Reaches.lines _ holds.left rfl (fun index inside => ?_) ?_
    · have : index < 5 := inside
      exact place_ne_return _ (by omega) (by omega)
    · simp [restoreCsrs, Allowed, plain, ByteInstr.access, ByteInstr.writes,
        Platform.permits]
  have returned :
      firmware.Step platform {firmware.place 76} writable
        ⟨firmware.place 145, restored machine⟩
        ⟨firmware.place 76, restored machine⟩ :=
    Step.of_line holds.right.getElem? (place_ne_return _ (by decide) (by decide)) rfl
      (Set.empty_subset _) (congrArg some ra)
  exact ⟨restored machine, written.tail returned,
    ⟨rfl, restored_csrs prepared, prepared.kept⟩, rfl⟩

/-- The temporary trap handler returns 0. -/
theorem handler_path
    (prepared : Prepared firmware call machine)
    (back : call.get .ra = firmware.place 76) :
    ∃ results,
      firmware.Reaches platform {firmware.place 76} writable
        ⟨firmware.place 139, machine⟩ ⟨firmware.place 76, results⟩ ∧
      Returned call results 0 ∧ results.memory = machine.memory := by
  have first :
      firmware.Step platform {firmware.place 76} writable
        ⟨firmware.place 139, machine⟩
        ⟨firmware.place 140, machine.setReg .a0 (BitVec.ofInt xlen.bits 0)⟩ :=
    Step.of_line (holds_probe_blocks firmware).2.2.2.2.getElem?
      (place_ne_return _ (by decide) (by decide)) rfl (Set.empty_subset _) rfl
  have zeroed :
      Prepared firmware call (machine.setReg .a0 (BitVec.ofInt xlen.bits 0)) :=
    prepared.setReg (by decide) _
  obtain ⟨results, path, returned, memory⟩ :=
    @restore_path _ _ platform _ _ writable zeroed back
  have answer : (machine.setReg .a0 (BitVec.ofInt xlen.bits 0)).get .a0 = 0 :=
    BitVec.ofInt_ofNat _ 0
  exact ⟨results, path.head first, answer ▸ returned, memory⟩

/-- A load of the template. -/
theorem template_step
    {line size offset : Nat}
    {rd : Reg}
    {rest : List (ByteLine InitName)}
    (prepared : Prepared firmware call machine)
    (holds : firmware.HoldsAt line (plain (.loadBytes size rd offset .a1) :: rest))
    (probe : 115 ≤ line)
    (inside : line < 146)
    (loads : platform.loads
      (firmware.names.address .template + BitVec.ofNat xlen.bits offset) size = true) :
    firmware.Step platform {firmware.place 76} writable ⟨firmware.place line, machine⟩
      ⟨firmware.place (line + 1), machine.setReg rd (machine.memory.load
        (firmware.names.address .template + BitVec.ofNat xlen.bits offset) size)⟩ := by
  have address : machine.get .a1 + BitVec.ofInt xlen.bits offset =
      firmware.names.address .template + BitVec.ofNat xlen.bits offset := by
    rw [prepared.a1, BitVec.ofInt_natCast]
  rw [← address] at loads ⊢
  exact Step.of_line holds.getElem? (place_ne_return _ probe inside) loads
    (Set.empty_subset _) rfl

theorem prepared_saveCsrs :
    Prepared firmware call (firmware.effects saveCsrs call) where
  t0 := by simp [saveCsrs, plain]
  t1 := by simp [saveCsrs, plain]
  t2 := by simp [saveCsrs, plain]
  t3 := by simp [saveCsrs, plain]
  t4 := by simp [saveCsrs, plain]
  a1 := by simp [saveCsrs, plain]
  a4 := by simp [saveCsrs, plain, firmware.address_return_pathway]
  mtvec := by simp [saveCsrs, plain, firmware.address_trap_handler]
  csrs csr other := by
    simp only [probeCsrs, List.mem_cons, List.not_mem_nil, or_false, not_or] at other
    simp [saveCsrs, plain, other]
  kept reg other := by
    simp only [probeRegs, List.mem_cons, List.not_mem_nil, or_false, not_or] at other
    simp [saveCsrs, plain, other]

/-- The probe up to its first store. -/
theorem save_path
    (loads : platform.loads
      (firmware.names.address .template + BitVec.ofNat xlen.bits 0) 2 = true)
    (loadsNext : platform.loads
      (firmware.names.address .template + BitVec.ofNat xlen.bits 4) 4 = true) :
    ∃ machine,
      firmware.Reaches platform {firmware.place 76} writable ⟨firmware.place 115, call⟩
        ⟨firmware.place 128, machine⟩ ∧
      Prepared firmware call machine ∧ machine.get .a0 = call.get .a0 ∧
      machine.get .a2 =
        call.memory.load
          (firmware.names.address .template + BitVec.ofNat xlen.bits 0) 2 ∧
      machine.get .a3 =
        call.memory.load
          (firmware.names.address .template + BitVec.ofNat xlen.bits 4) 4 ∧
      machine.memory = call.memory := by
  obtain ⟨saves, copies, -⟩ := holds_probe_blocks firmware
  have path :
      firmware.Reaches platform {firmware.place 76} writable ⟨firmware.place 115, call⟩
        ⟨firmware.place 126, firmware.effects saveCsrs call⟩ := by
    refine Reaches.lines _ saves rfl (fun index inside => ?_) ?_
    · have : index < 11 := inside
      exact place_ne_return _ (by omega) (by omega)
    · simp [saveCsrs, Allowed, plain, ByteInstr.access, ByteInstr.writes,
        Platform.permits]
  have prepared : Prepared firmware call (firmware.effects saveCsrs call) :=
    prepared_saveCsrs
  have argument : (firmware.effects saveCsrs call).get .a0 = call.get .a0 := by
    simp [saveCsrs, plain]
  have memory : (firmware.effects saveCsrs call).memory = call.memory := rfl
  generalize firmware.effects saveCsrs call = saved at path prepared argument memory
  have first :
      firmware.Step platform {firmware.place 76} writable ⟨firmware.place 126, saved⟩ _ :=
    template_step prepared copies (by decide) (by decide) loads
  have firstPrepared := prepared.setReg (show Reg.a2 ∈ [Reg.a0, .a2, .a3] by decide)
    (saved.memory.load
      (firmware.names.address .template + BitVec.ofNat xlen.bits 0) 2)
  have second :
      firmware.Step platform {firmware.place 76} writable ⟨firmware.place 127, _⟩ _ :=
    template_step firstPrepared copies.tail (by decide) (by decide) loadsNext
  refine ⟨_, (path.tail first).tail second, firstPrepared.setReg (by decide) _, ?_⟩
  rw [← memory]
  exact ⟨argument, rfl, rfl, rfl⟩

/-- A store below the stack pointer. -/
theorem stack_step
    {line size : Nat}
    {rs : Reg}
    {offset : Int}
    {rest : List (ByteLine InitName)}
    (holds : firmware.HoldsAt line (plain (.storeBytes size rs offset .sp) :: rest))
    (probe : 115 ≤ line)
    (inside : line < 146)
    (stores : platform.stores (machine.get .sp + BitVec.ofInt xlen.bits offset) size = true)
    (within :
      ByteMemory.span (machine.get .sp + BitVec.ofInt xlen.bits offset) size ⊆ writable) :
    firmware.Step platform {firmware.place 76} writable ⟨firmware.place line, machine⟩
      ⟨firmware.place (line + 1),
        machine.store (machine.get .sp + BitVec.ofInt xlen.bits offset) size
          (machine.get rs)⟩ := by
  refine Step.of_line holds.getElem? (place_ne_return _ probe inside) stores ?_ rfl
  refine subset_of_eq_of_subset ?_ within
  exact if_pos stores

/-- A trap behind the first lines returns 0. -/
theorem trapped_path
    (prepared : Prepared firmware call machine)
    (back : call.get .ra = firmware.place 76)
    {pc : Word xlen}
    (step : firmware.Step platform {firmware.place 76} writable ⟨pc, machine⟩
      (ByteProgram.trap platform ⟨pc, machine⟩)) :
    ∃ results,
      firmware.Reaches platform {firmware.place 76} writable ⟨pc, machine⟩
        ⟨firmware.place 76, results⟩ ∧
      Returned call results 0 := by
  obtain ⟨trapped, same, kept⟩ := @Prepared.trap _ _ platform _ _ prepared pc
  rw [same] at step
  obtain ⟨results, path, returned, -⟩ :=
    @handler_path _ _ platform _ _ writable kept back
  exact ⟨results, path.head step, returned⟩

/-- A store that traps returns 0. -/
theorem refused_path
    {line size : Nat}
    {rs : Reg}
    {offset : Int}
    {rest : List (ByteLine InitName)}
    (prepared : Prepared firmware call machine)
    (back : call.get .ra = firmware.place 76)
    (holds : firmware.HoldsAt line (plain (.storeBytes size rs offset .sp) :: rest))
    (probe : 115 ≤ line)
    (inside : line < 146)
    (refused :
      platform.stores (machine.get .sp + BitVec.ofInt xlen.bits offset) size = false) :
    ∃ results,
      firmware.Reaches platform {firmware.place 76} writable ⟨firmware.place line, machine⟩
        ⟨firmware.place 76, results⟩ ∧
      Returned call results 0 := by
  exact trapped_path prepared back
    (Step.of_trap holds.getElem? (place_ne_return _ probe inside) refused)

/-- The registers between the stores. -/
theorem patch_path
    (prepared : Prepared firmware call machine)
    (loads : platform.loads
      (firmware.names.address .template + BitVec.ofNat xlen.bits 2) 1 = true) :
    ∃ after,
      firmware.Reaches platform {firmware.place 76} writable
        ⟨firmware.place 130, machine⟩ ⟨firmware.place 135, after⟩ ∧
      Prepared firmware call after ∧ after.get .a0 = machine.get .a0 >>> 4 ∧
      after.get .a2 =
        (machine.memory.load
            (firmware.names.address .template + BitVec.ofNat xlen.bits 2) 1 &&&
          BitVec.ofInt xlen.bits 0x0F) ||| machine.get .a0 <<< 4 ∧
      after.memory = machine.memory := by
  obtain ⟨-, -, patches, -⟩ := holds_probe_blocks firmware
  have first :
      firmware.Step platform {firmware.place 76} writable ⟨firmware.place 130, machine⟩ _ :=
    template_step prepared patches (by decide) (by decide) loads
  have shifts : firmware.HoldsAt 131
      ((patchNumber.drop 1).take 4 ++ patchNumber.drop 5) := patches.tail
  generalize loaded : machine.setReg .a2 (machine.memory.load
    (firmware.names.address .template + BitVec.ofNat xlen.bits 2) 1) = byte at first
  have path :
      firmware.Reaches platform {firmware.place 76} writable ⟨firmware.place 131, byte⟩
        ⟨firmware.place 135, firmware.effects ((patchNumber.drop 1).take 4) byte⟩ := by
    refine Reaches.lines _ shifts.left rfl (fun index inside => ?_) ?_
    · have : index < 4 := inside
      exact place_ne_return _ (by omega) (by omega)
    · simp [patchNumber, Allowed, plain, ByteInstr.access, ByteInstr.writes,
        Platform.permits]
  subst loaded
  refine ⟨_, path.head first, prepared.of_agree (fun reg apart => ?_) rfl, ?_, ?_, rfl⟩
  · simp only [List.mem_cons, List.not_mem_nil, or_false, not_or] at apart
    simp [patchNumber, plain, apart]
  · simp [patchNumber, plain]
  · simp [patchNumber, plain]

end Run

end HartInit
end EchelonSbi
