import EchelonSbi.HartInit.ProbeContract

/-!
# The run of the handler

`hart_init_handler` finds the context of its hart whatever the registers held
before, and calls the probe with the stack pointer that the hart came with.
-/

namespace EchelonSbi
namespace HartInit

open Foundation
open Riscv
open ByteProgram
open Traps (CT_SIZE regOffset lowerRegs upperRegs storeRegs loadRegs SAVE_REGS LOAD_REGS)

/-- The contexts of all harts, and where that of this hart is among them. -/
structure Contexts (xlen : Xlen) where
  base : Word xlen
  /-- The contexts of the kernels. -/
  user : Word xlen
  count : Nat
  count_lt : count < 2 ^ xlen.bits
  own : Nat
  own_lt : own < count
  /-- The thread pointer of the hart. -/
  thread : Word xlen

/-- The address of a context. -/
def Contexts.context (contexts : Contexts xlen) (index : Nat) : Word xlen :=
  contexts.base + BitVec.ofNat xlen.bits (CT_SIZE xlen * index)

section Memory

variable {xlen : Xlen} (firmware : Firmware xlen) (contexts : Contexts xlen)
  (machine : ByteMachine xlen.bits)

/-- The variables that the handler reads. -/
def globals : List InitName :=
  [.hart_contexts, .hart_context_count, .hart_contexts_user]

/-- The bytes that the handler and the probe read. -/
def inputs : Set (Word xlen) :=
  {address |
    (∃ name ∈ globals,
      address ∈ ByteMemory.span (firmware.names.address name) xlen.bytes) ∨
    (∃ index ≤ contexts.own,
      address ∈ ByteMemory.span (contexts.context index) (CT_SIZE xlen)) ∨
    address ∈ ByteMemory.span (firmware.names.address .template) 8}

/-- The register of the hart in the CLINT. -/
def clintWord : Word xlen :=
  BitVec.ofNat xlen.bits CLINT_BASE +
    BitVec.ofNat xlen.bits (4 * (machine.csrs .mhartid).toNat)

/-- The address of a thread-local variable of the hart. -/
def threadLocal (name : InitName) : Word xlen :=
  contexts.thread + firmware.tprel name

/-- The bytes that the handler writes before the probe. -/
def outputs : Set (Word xlen) :=
  {address |
    (machine.csrs .mscratch ≠ 0 ∧
      address ∈ ByteMemory.span (machine.csrs .mscratch) (CT_SIZE xlen)) ∨
    address ∈ ByteMemory.span (clintWord machine) 4 ∨
    address ∈ ByteMemory.span (threadLocal firmware contexts .mhartid) xlen.bytes}

end Memory

/-- A hart that has a context takes its first interrupt.  Only the variables, the
contexts, the template and the permissions matter, no register. -/
structure Arranged
    (platform : Platform xlen.bits) (firmware : Firmware xlen)
    (contexts : Contexts xlen) (machine : ByteMachine xlen.bits) : Prop where
  hart_contexts :
    machine.memory.load (firmware.names.address .hart_contexts) xlen.bytes =
      contexts.base
  hart_context_count :
    machine.memory.load (firmware.names.address .hart_context_count) xlen.bytes =
      BitVec.ofNat xlen.bits contexts.count
  hart_contexts_user :
    machine.memory.load (firmware.names.address .hart_contexts_user) xlen.bytes =
      contexts.user
  own : machine.memory.load (contexts.context contexts.own) xlen.bytes =
    machine.csrs .mhartid
  earlier : ∀ index < contexts.own,
    machine.memory.load (contexts.context index) xlen.bytes ≠ machine.csrs .mhartid
  thread : machine.memory.load
    (contexts.context contexts.own + BitVec.ofNat xlen.bits (regOffset xlen .tp))
      xlen.bytes = contexts.thread
  template : HoldsTemplate machine.memory (firmware.names.address .template)
  /-- What the handler writes is apart from what it reads. -/
  apart : Disjoint (outputs firmware contexts machine) (inputs firmware contexts)
  readsVariables : ∀ name ∈ globals,
    platform.loads (firmware.names.address name) xlen.bytes = true
  readsNumbers : ∀ index ≤ contexts.own,
    platform.loads (contexts.context index) xlen.bytes = true
  readsThread : platform.loads
    (contexts.context contexts.own + BitVec.ofNat xlen.bits (regOffset xlen .tp))
      xlen.bytes = true
  readsTemplate : ReadsTemplate platform (firmware.names.address .template)
  /-- `mscratch` is 0, or the address of a context. -/
  record : machine.csrs .mscratch ≠ 0 → ∀ reg,
    platform.stores
        (machine.csrs .mscratch + BitVec.ofNat xlen.bits (regOffset xlen reg))
        xlen.bytes = true ∧
      platform.loads
        (machine.csrs .mscratch + BitVec.ofNat xlen.bits (regOffset xlen reg))
        xlen.bytes = true
  clint : platform.stores (clintWord machine) 4 = true
  locals : ∀ name ∈ [InitName.mhartid, .hart_has_menvcfg],
    platform.stores (threadLocal firmware contexts name) xlen.bytes = true

/-- What the handler keeps on its way to the probe. -/
structure Handling
    (firmware : Firmware xlen) (contexts : Contexts xlen)
    (machine now : ByteMachine xlen.bits) : Prop where
  s0 : now.get .s0 = machine.csrs .mscratch
  sp : now.get .sp = machine.get .sp
  mhartid : now.csrs .mhartid = machine.csrs .mhartid
  memory : ∀ address ∈ inputs firmware contexts,
    now.memory address = machine.memory address

section Keep

variable {xlen : Xlen} {firmware : Firmware xlen} {contexts : Contexts xlen}
  {platform : Platform xlen.bits} {machine now after : ByteMachine xlen.bits}

theorem bits_div (xlen : Xlen) : xlen.bits / 8 = xlen.bytes := by
  cases xlen <;> rfl

theorem bytes_le (xlen : Xlen) : xlen.bytes ≤ 2 ^ xlen.bits := by
  cases xlen <;> decide

theorem CT_SIZE_le (xlen : Xlen) : CT_SIZE xlen ≤ 2 ^ xlen.bits := by
  cases xlen <;> decide

theorem regOffset_le (xlen : Xlen) (reg : Reg) :
    regOffset xlen reg + xlen.bytes ≤ CT_SIZE xlen := by
  cases xlen <;> cases reg <;> decide

/-- A register of a context is a part of it. -/
theorem span_register
    (record : Word xlen)
    (reg : Reg) :
    ByteMemory.span (record + BitVec.ofNat xlen.bits (regOffset xlen reg)) xlen.bytes ⊆
      ByteMemory.span record (CT_SIZE xlen) :=
  ByteMemory.span_offset_subset (regOffset_le xlen reg) (CT_SIZE_le xlen)

namespace Handling

theorem of_agree
    (handling : Handling firmware contexts machine now)
    (s0 : after.get .s0 = now.get .s0)
    (sp : after.get .sp = now.get .sp)
    (mhartid : after.csrs .mhartid = now.csrs .mhartid)
    (memory : ∀ address ∈ inputs firmware contexts,
      after.memory address = now.memory address) :
    Handling firmware contexts machine after where
  s0 := s0.trans handling.s0
  sp := sp.trans handling.sp
  mhartid := mhartid.trans handling.mhartid
  memory address inside := (memory address inside).trans (handling.memory address inside)

/-- A store apart from the inputs. -/
theorem store
    (handling : Handling firmware contexts machine now)
    {address : Word xlen}
    {size : Nat}
    (apart : Disjoint (ByteMemory.span address size) (inputs firmware contexts))
    (value : Word xlen) :
    Handling firmware contexts machine (now.store address size value) := by
  refine handling.of_agree rfl rfl rfl fun other inside => ?_
  exact ByteMemory.store_outside fun written => Set.disjoint_left.mp apart written inside

variable (handling : Handling firmware contexts machine now)
include handling

theorem load
    {address : Word xlen}
    (inside : ByteMemory.span address xlen.bytes ⊆ inputs firmware contexts) :
    (now.memory.load address xlen.bytes : Word xlen) =
      machine.memory.load address xlen.bytes :=
  ByteMemory.load_congr (bytes_le xlen) fun place reached =>
    handling.memory place (inside reached)

theorem load_variable
    {name : InitName}
    (member : name ∈ globals) :
    (now.memory.load (firmware.names.address name) xlen.bytes : Word xlen) =
      machine.memory.load (firmware.names.address name) xlen.bytes :=
  handling.load fun _ inside => .inl ⟨name, member, inside⟩

theorem load_context
    {index : Nat}
    (before : index ≤ contexts.own) :
    (now.memory.load (contexts.context index) xlen.bytes : Word xlen) =
      machine.memory.load (contexts.context index) xlen.bytes := by
  apply handling.load
  have part : ByteMemory.span
      (contexts.context index + BitVec.ofNat xlen.bits 0) xlen.bytes ⊆
        ByteMemory.span (contexts.context index) (CT_SIZE xlen) :=
    ByteMemory.span_offset_subset (by cases xlen <;> decide) (CT_SIZE_le xlen)
  rw [BitVec.add_zero] at part
  exact fun _ inside => .inr (.inl ⟨index, before, part inside⟩)

theorem load_thread :
    (now.memory.load
      (contexts.context contexts.own + BitVec.ofNat xlen.bits (regOffset xlen .tp))
        xlen.bytes : Word xlen) =
      machine.memory.load
        (contexts.context contexts.own + BitVec.ofNat xlen.bits (regOffset xlen .tp))
          xlen.bytes :=
  handling.load fun _ inside =>
    .inr (.inl ⟨contexts.own, Nat.le_refl _, span_register _ _ inside⟩)

theorem template
    (holds : HoldsTemplate machine.memory (firmware.names.address .template)) :
    HoldsTemplate now.memory (firmware.names.address .template) := by
  intro index inside
  rw [← holds index inside]
  apply handling.memory
  refine .inr (.inr ?_)
  have room : 2 ^ 32 ≤ 2 ^ xlen.bits := Nat.pow_le_pow_right (by decide) (wide xlen)
  have eight : index < 8 := inside
  have within := (@ByteMemory.mem_span_offset _ (firmware.names.address .template) 0 8
    (by omega) index (by omega)).mpr (by omega)
  rwa [BitVec.add_zero] at within

end Handling

end Keep

section Blocks

variable {xlen : Xlen} (firmware : Firmware xlen)

/-- Where the branches of the handler go. -/
theorem resolve_handler :
    resolve firmware.lines 3 (.f 2) = some 36 ∧
      resolve firmware.lines 47 (.f 2) = some 52 ∧
      resolve firmware.lines 51 (.b 2) = some 45 ∧
      resolve firmware.lines 54 (.f 2) = some 58 ∧
      resolve firmware.lines 57 (.b 2) = some 54 ∧
      resolve firmware.lines 66 (.f 2) = some 68 ∧
      resolve firmware.lines 79 (.f 2) = some 111 := by
  rw [firmware.lines_eq]
  cases xlen <;> decide +kernel

/-- Where the blocks of the handler are. -/
theorem holds_handler_blocks :
    firmware.HoldsAt 0 (swapScratch.map Line.toBytes) ∧
      firmware.HoldsAt 3 [plain (.priv (.int (.beqz .s0 (.f 2))))] ∧
      firmware.HoldsAt 4 ((SAVE_REGS xlen .s0).map Line.toBytes) ∧
      firmware.HoldsAt 36 (startSearch.map Line.toBytes) ∧
      firmware.HoldsAt 45 ((searchContext xlen).map Line.toBytes) ∧
      firmware.HoldsAt 52 (findRegister.map Line.toBytes) ∧
      firmware.HoldsAt 58 acknowledge ∧
      firmware.HoldsAt 61 ((loadContext xlen).map Line.toBytes) ∧
      firmware.HoldsAt 66 ((saveThread xlen).map Line.toBytes) ∧
      firmware.HoldsAt 68 setHart ∧
      firmware.HoldsAt 75 [plain (.priv (.call .probe_csr))] ∧
      firmware.HoldsAt 76 storeAnswer ∧
      firmware.HoldsAt 79 [plain (.priv (.int (.beqz .s0 (.f 2))))] ∧
      firmware.HoldsAt 80 ((LOAD_REGS xlen .s0).map Line.toBytes) ∧
      firmware.HoldsAt 111 [⟨[2], .priv .sfence_vma⟩, plain (.priv .fence_i),
        plain (.priv .mret), ⟨[3], .priv (.jump .idle_loop)⟩] := by
  have whole : firmware.HoldsAt 0 (hart_init_handler xlen ++ probe_csr) :=
    ⟨[], by rw [firmware.lines_eq, List.append_nil, List.drop_zero]⟩
  have handler := whole.left
  simp only [hart_init_handler, List.append_assoc] at handler
  have branch := handler.right
  have saves := branch.right
  have start := saves.right
  have search := start.right
  have register := search.right
  have acknowledges := register.right
  have context := acknowledges.right
  have thread := context.right
  have hart := thread.right
  have calls := hart.right
  have answers := calls.right
  have again := answers.right
  have loads := again.right
  exact ⟨handler.left, branch.left, saves.left, start.left, search.left, register.left,
    acknowledges.left, context.left, thread.left, hart.left, calls.left, answers.left,
    again.left, loads.left, loads.right⟩

end Blocks

section Way

/-! ## The way to the probe -/

variable {xlen : Xlen} {firmware : Firmware xlen} {contexts : Contexts xlen}
  {platform : Platform xlen.bits} {machine now : ByteMachine xlen.bits}

/-- A block of the handler. -/
theorem handler_lines
    {line : Nat}
    (block : List (ByteLine InitName))
    (holds : firmware.HoldsAt line block)
    (before : line + block.length ≤ 115)
    (falls : block.all (·.instr.falls) = true)
    (allowed : firmware.Allowed platform Set.univ block now) :
    firmware.Reaches platform {firmware.place 115} Set.univ ⟨firmware.place line, now⟩
      ⟨firmware.place (line + block.length), firmware.effects block now⟩ :=
  Reaches.lines _ holds falls
    (fun _ inside => place_not_mem firmware (by omega) (by decide) (by omega)) allowed

/-- A branch of the handler. -/
theorem handler_branch
    {line dest : Nat}
    {labels : List Nat}
    {instr : Instr}
    (fetched : firmware.lines[line]? = some ⟨labels, .priv (.int instr)⟩)
    (before : line < 115)
    (same : instr.effect now.registers = now.registers)
    (follows : firmware.follow line now (.priv (.int instr)) =
      some (firmware.place dest)) :
    firmware.Step platform {firmware.place 115} Set.univ ⟨firmware.place line, now⟩
      ⟨firmware.place dest, now⟩ := by
  have step := @Step.of_line _ _ platform _ _ now _ _ {firmware.place 115} Set.univ fetched
    _ (place_not_mem firmware (by omega) (by decide) (by omega)) rfl
    (Set.subset_univ _) follows
  have unchanged : (ByteInstr.priv (.int instr)).effect firmware.toByteProgram now line =
      now := by
    show now.lift { now.view with registers := instr.effect now.registers } = now
    rw [same]
    rfl
  rwa [unchanged] at step

/-- Stores of registers at places of registers. -/
def storeAt (xlen : Xlen) (regs : List (Reg × Reg)) : List (Line InitName) :=
  regs.map fun entry => .plain (.store entry.1 (regOffset xlen entry.2) .s0)

/-- The registers that are stored before `mscratch` is read. -/
def stored : List (Reg × Reg) :=
  ((lowerRegs ++ upperRegs).filter (· ≠ .s0)).map fun reg => (reg, reg)

theorem SAVE_REGS_eq (xlen : Xlen) :
    (SAVE_REGS xlen .s0 : List (Line InitName)) =
      storeAt xlen stored ++ [.plain (.csrrw .ra .mscratch .s0)] ++
        storeAt xlen [(.ra, .s0)] :=
  rfl

/-- The stores of registers in the context of `mscratch`. -/
theorem stores_path
    (arranged : Arranged platform firmware contexts machine)
    (record : machine.csrs .mscratch ≠ 0)
    {line : Nat}
    (regs : List (Reg × Reg))
    (holds : firmware.HoldsAt line ((storeAt xlen regs).map Line.toBytes))
    (before : line + regs.length ≤ 115)
    (handling : Handling firmware contexts machine now) :
    ∃ after,
      firmware.Reaches platform {firmware.place 115} Set.univ ⟨firmware.place line, now⟩
        ⟨firmware.place (line + regs.length), after⟩ ∧
      Handling firmware contexts machine after ∧
      ∀ reg, after.get reg = now.get reg := by
  induction regs generalizing line now with
  | nil => exact ⟨now, .refl, handling, fun _ => rfl⟩
  | cons entry regs inductionHypothesis =>
      obtain ⟨rs, reg⟩ := entry
      rw [List.length_cons] at before ⊢
      have permitted := (arranged.record record reg).1
      rw [← handling.s0, ← bits_div] at permitted
      have step := @Step.of_line _ _ platform _ _ now _ _ {firmware.place 115} Set.univ
        holds.getElem? _ (place_not_mem firmware (by omega) (by decide) (by omega))
        permitted (Set.subset_univ _) rfl
      have apart : Disjoint (ByteMemory.span
          (now.get .s0 + BitVec.ofNat xlen.bits (regOffset xlen reg)) (xlen.bits / 8))
          (inputs firmware contexts) := by
        refine arranged.apart.mono_left fun address inside => .inl ⟨record, ?_⟩
        rw [bits_div, handling.s0] at inside
        exact span_register _ _ inside
      obtain ⟨after, path, afterHandling, kept⟩ :=
        inductionHypothesis holds.tail (by omega) (handling.store apart (now.get rs))
      rw [show line + (regs.length + 1) = line + 1 + regs.length by omega]
      exact ⟨after, path.head step, afterHandling, kept⟩

/-- The handler up to its own work. -/
theorem enter_path
    (arranged : Arranged platform firmware contexts machine) :
    ∃ now,
      firmware.Reaches platform {firmware.place 115} Set.univ ⟨firmware.place 0, machine⟩
        ⟨firmware.place 36, now⟩ ∧
      Handling firmware contexts machine now := by
  obtain ⟨swaps, branch, saves, -⟩ := holds_handler_blocks firmware
  obtain ⟨skips, -⟩ := resolve_handler firmware
  have swapped :
      firmware.Reaches platform {firmware.place 115} Set.univ ⟨firmware.place 0, machine⟩
        ⟨firmware.place 3, _⟩ :=
    handler_lines _ swaps (by decide) rfl (by
      simp [swapScratch, Allowed, Line.toBytes, Line.plain, ByteInstr.access,
        Platform.permits])
  have handling : Handling firmware contexts machine
      (firmware.effects (swapScratch.map Line.toBytes) machine) := by
    refine ⟨?_, ?_, ?_, fun _ _ => rfl⟩
    · simp [swapScratch, Line.toBytes, Line.plain]
    · simp [swapScratch, Line.toBytes, Line.plain]
    · simp [swapScratch, Line.toBytes, Line.plain]
  generalize firmware.effects (swapScratch.map Line.toBytes) machine = first
    at swapped handling
  by_cases record : machine.csrs .mscratch = 0
  · have jumps : (Instr.beqz .s0 (.f 2)).jumps first.registers = some (.f 2) :=
      if_pos (handling.s0.trans record)
    exact ⟨first, swapped.tail (handler_branch branch.getElem? (by decide) rfl
      (follow_of_jump jumps skips)), handling⟩
  · have stays : (Instr.beqz .s0 (.f 2)).jumps first.registers = none :=
      if_neg fun zero => record (handling.s0.symm.trans zero)
    have fell :
        firmware.Step platform {firmware.place 115} Set.univ ⟨firmware.place 3, first⟩
          ⟨firmware.place 4, first⟩ :=
      handler_branch branch.getElem? (by decide) rfl (follow_of_stay stays (by decide))
    rw [SAVE_REGS_eq, List.map_append, List.map_append] at saves
    have exchanges : firmware.HoldsAt 34
        ([.plain (.csrrw .ra .mscratch .s0)].map Line.toBytes) :=
      saves.left.right
    have ends : firmware.HoldsAt 35 ((storeAt xlen [(.ra, .s0)]).map Line.toBytes) :=
      saves.right
    obtain ⟨saved, savedPath, savedHandling, -⟩ :=
      stores_path arranged record stored saves.left.left (by decide) handling
    have exchanged :
        firmware.Reaches platform {firmware.place 115} Set.univ
          ⟨firmware.place 34, saved⟩ ⟨firmware.place 35, _⟩ :=
      handler_lines _ exchanges (by decide) rfl (by
        simp [Allowed, Line.toBytes, Line.plain, ByteInstr.access, Platform.permits])
    have exchangedHandling : Handling firmware contexts machine
        (firmware.effects
          ([.plain (.csrrw .ra .mscratch .s0)].map Line.toBytes) saved) := by
      refine savedHandling.of_agree ?_ ?_ ?_ fun _ _ => rfl
      · simp [Line.toBytes, Line.plain]
      · simp [Line.toBytes, Line.plain]
      · simp [Line.toBytes, Line.plain]
    obtain ⟨last, lastPath, lastHandling, -⟩ :=
      stores_path arranged record [(.ra, .s0)] ends (by decide) exchangedHandling
    exact ⟨last, ((((swapped.tail fell).trans savedPath).trans exchanged).trans lastPath),
      lastHandling⟩

/-- The registers of the search. -/
structure Searching
    (contexts : Contexts xlen) (machine : ByteMachine xlen.bits) (index : Nat)
    (now : ByteMachine xlen.bits) : Prop where
  a0 : now.get .a0 = machine.csrs .mhartid
  a1 : now.get .a1 = contexts.context index
  a2 : now.get .a2 = BitVec.ofNat xlen.bits contexts.count
  a3 : now.get .a3 = BitVec.ofNat xlen.bits index
  a5 : now.get .a5 = BitVec.ofNat xlen.bits (CT_SIZE xlen * index)

/-- The search begins. -/
theorem start_path
    (arranged : Arranged platform firmware contexts machine)
    (handling : Handling firmware contexts machine now) :
    ∃ after,
      firmware.Reaches platform {firmware.place 115} Set.univ ⟨firmware.place 36, now⟩
        ⟨firmware.place 45, after⟩ ∧
      Handling firmware contexts machine after ∧ Searching contexts machine 0 after := by
  obtain ⟨-, -, -, holds, -⟩ := holds_handler_blocks firmware
  have base := arranged.readsVariables .hart_contexts (by decide)
  have count := arranged.readsVariables .hart_context_count (by decide)
  have path :
      firmware.Reaches platform {firmware.place 115} Set.univ ⟨firmware.place 36, now⟩
        ⟨firmware.place 45, _⟩ :=
    handler_lines _ holds (by decide) rfl (by
      simp [startSearch, Allowed, Line.toBytes, Line.plain, Line.labelled,
        ByteInstr.access, Platform.permits, bits_div, base, count])
  have baseLoaded := (handling.load_variable
    (show .hart_contexts ∈ globals by decide)).trans arranged.hart_contexts
  have countLoaded := (handling.load_variable
    (show .hart_context_count ∈ globals by decide)).trans arranged.hart_context_count
  refine ⟨_, path, handling.of_agree ?_ ?_ ?_ fun _ _ => rfl, ?_, ?_, ?_, ?_, ?_⟩
  · simp [startSearch, Line.toBytes, Line.plain, Line.labelled]
  · simp [startSearch, Line.toBytes, Line.plain, Line.labelled]
  · simp [startSearch, Line.toBytes, Line.plain, Line.labelled]
  · simp [startSearch, Line.toBytes, Line.plain, Line.labelled, handling.mhartid]
  · simp [startSearch, Line.toBytes, Line.plain, Line.labelled, bits_div, baseLoaded,
      Contexts.context]
  · simp [startSearch, Line.toBytes, Line.plain, Line.labelled, bits_div, countLoaded]
  · simp [startSearch, Line.toBytes, Line.plain, Line.labelled]
  · simp [startSearch, Line.toBytes, Line.plain, Line.labelled]

/-- A turn of the search reads the number of a context. -/
theorem search_read
    (arranged : Arranged platform firmware contexts machine)
    (handling : Handling firmware contexts machine now)
    {index : Nat}
    (before : index ≤ contexts.own)
    (searching : Searching contexts machine index now) :
    ∃ read,
      firmware.Reaches platform {firmware.place 115} Set.univ ⟨firmware.place 45, now⟩
        ⟨firmware.place 47, read⟩ ∧
      Handling firmware contexts machine read ∧ Searching contexts machine index read ∧
      read.get .a4 = machine.memory.load (contexts.context index) xlen.bytes := by
  obtain ⟨-, -, -, -, holds, -⟩ := holds_handler_blocks firmware
  have inside := contexts.own_lt
  have small := contexts.count_lt
  have stays :
      (Instr.bgeu .a3 .a2 (.f 3)).jumps now.registers = none := by
    refine if_neg fun above => ?_
    have numbers : (now.get .a2).toNat ≤ (now.get .a3).toNat := above
    rw [searching.a2, searching.a3, BitVec.toNat_ofNat, BitVec.toNat_ofNat,
      Nat.mod_eq_of_lt small, Nat.mod_eq_of_lt (by omega)] at numbers
    omega
  have first :
      firmware.Step platform {firmware.place 115} Set.univ ⟨firmware.place 45, now⟩
        ⟨firmware.place 46, now⟩ :=
    handler_branch holds.getElem? (by decide) rfl (follow_of_stay stays (by decide))
  have address : now.get .a1 + BitVec.ofNat xlen.bits 0 = contexts.context index := by
    rw [searching.a1, BitVec.add_zero]
  have permitted := arranged.readsNumbers index before
  rw [← address, ← bits_div] at permitted
  have second := @Step.of_line _ _ platform _ _ now _ _ {firmware.place 115} Set.univ
    holds.tail.getElem? _ (place_not_mem firmware (by decide) (by decide) (by decide))
    permitted (Set.subset_univ _) rfl
  rw [Line.instr_plain, ByteInstr.effect_load, address, bits_div,
    handling.load_context before] at second
  refine ⟨_, (Relation.ReflTransGen.single second).head first,
    handling.of_agree ?_ ?_ rfl fun _ _ => rfl, ⟨?_, ?_, ?_, ?_, ?_⟩, ?_⟩
  · simp
  · simp
  · simp [searching.a0]
  · simp [searching.a1]
  · simp [searching.a2]
  · simp [searching.a3]
  · simp [searching.a5]
  · simp

/-- A turn of the search at the context of another hart goes on to the next. -/
theorem search_again
    (arranged : Arranged platform firmware contexts machine)
    (handling : Handling firmware contexts machine now)
    {index : Nat}
    (before : index < contexts.own)
    (searching : Searching contexts machine index now) :
    ∃ after,
      firmware.Reaches platform {firmware.place 115} Set.univ ⟨firmware.place 45, now⟩
        ⟨firmware.place 45, after⟩ ∧
      Handling firmware contexts machine after ∧
      Searching contexts machine (index + 1) after := by
  obtain ⟨-, -, -, -, holds, -⟩ := holds_handler_blocks firmware
  obtain ⟨-, -, back, -⟩ := resolve_handler firmware
  obtain ⟨read, path, readHandling, readSearching, number⟩ :=
    search_read arranged handling before.le searching
  have stays : (Instr.beq .a0 .a4 (.f 2)).jumps read.registers = none := by
    refine if_neg fun same => arranged.earlier index before ?_
    exact (number.symm.trans same.symm).trans readSearching.a0
  have fell :
      firmware.Step platform {firmware.place 115} Set.univ ⟨firmware.place 47, read⟩
        ⟨firmware.place 48, read⟩ :=
    handler_branch holds.tail.tail.getElem? (by decide) rfl (follow_of_stay stays (by decide))
  have counts : firmware.HoldsAt 48
      ((((searchContext xlen).drop 3).take 3).map Line.toBytes ++
        [plain (.priv (.int (.j (.b 2))))]) :=
    holds.tail.tail.tail
  have counted :
      firmware.Reaches platform {firmware.place 115} Set.univ ⟨firmware.place 48, read⟩
        ⟨firmware.place 51, _⟩ :=
    handler_lines _ counts.left (show 48 + 3 ≤ 115 by decide) rfl (by
      simp [searchContext, Allowed, Line.toBytes, Line.plain, ByteInstr.access,
        Platform.permits])
  have turned (last : ByteMachine xlen.bits) :
      firmware.Step platform {firmware.place 115} Set.univ ⟨firmware.place 51, last⟩
        ⟨firmware.place 45, last⟩ :=
    handler_branch counts.right.getElem? (by decide) rfl (follow_of_jump rfl back)
  refine ⟨_, ((path.tail fell).trans counted).tail (turned _),
    readHandling.of_agree ?_ ?_ rfl fun _ _ => rfl, ?_, ?_, ?_, ?_, ?_⟩
  · simp [searchContext, Line.toBytes, Line.plain]
  · simp [searchContext, Line.toBytes, Line.plain]
  · simp [searchContext, Line.toBytes, Line.plain, readSearching.a0]
  · simp [searchContext, Line.toBytes, Line.plain, readSearching.a1, Contexts.context,
      Nat.mul_succ, BitVec.ofNat_add, BitVec.add_assoc]
  · simp [searchContext, Line.toBytes, Line.plain, readSearching.a2]
  · simp [searchContext, Line.toBytes, Line.plain, readSearching.a3, BitVec.ofNat_add]
  · simp [searchContext, Line.toBytes, Line.plain, readSearching.a5, Nat.mul_succ,
      BitVec.ofNat_add]

/-- The search leaves at the context of the hart. -/
theorem search_path
    (arranged : Arranged platform firmware contexts machine)
    (handling : Handling firmware contexts machine now)
    {index : Nat}
    (before : index ≤ contexts.own)
    (searching : Searching contexts machine index now) :
    ∃ after,
      firmware.Reaches platform {firmware.place 115} Set.univ ⟨firmware.place 45, now⟩
        ⟨firmware.place 52, after⟩ ∧
      Handling firmware contexts machine after ∧
      Searching contexts machine contexts.own after := by
  obtain ⟨distance, reached⟩ := Nat.exists_eq_add_of_le before
  induction distance generalizing index now with
  | zero =>
      rw [Nat.add_zero] at reached
      rw [← reached] at searching
      obtain ⟨-, -, -, -, holds, -⟩ := holds_handler_blocks firmware
      obtain ⟨-, found, -⟩ := resolve_handler firmware
      obtain ⟨read, path, readHandling, readSearching, number⟩ :=
        search_read arranged handling (Nat.le_refl _) searching
      rw [arranged.own] at number
      have jumps : (Instr.beq .a0 .a4 (.f 2)).jumps read.registers = some (.f 2) :=
        if_pos (readSearching.a0.trans number.symm)
      exact ⟨read, path.tail (handler_branch holds.tail.tail.getElem? (by decide) rfl
        (follow_of_jump jumps found)), readHandling, readSearching⟩
  | succ distance inductionHypothesis =>
      obtain ⟨middle, turn, middleHandling, middleSearching⟩ :=
        search_again arranged handling (by omega) searching
      obtain ⟨after, rest, afterHandling, afterSearching⟩ :=
        inductionHypothesis middleHandling (by omega) middleSearching (by omega)
      exact ⟨after, turn.trans rest, afterHandling, afterSearching⟩

/-- The registers while the register of the hart is found. -/
structure Counting
    (contexts : Contexts xlen) (machine : ByteMachine xlen.bits) (turns : Nat)
    (now : ByteMachine xlen.bits) : Prop where
  a0 : now.get .a0 = machine.csrs .mhartid
  a1 : now.get .a1 = contexts.context contexts.own
  a3 : now.get .a3 = BitVec.ofNat xlen.bits turns
  a4 : now.get .a4 = BitVec.ofNat xlen.bits (4 * turns)
  a5 : now.get .a5 = BitVec.ofNat xlen.bits (CT_SIZE xlen * contexts.own)

/-- A turn at the register of another hart. -/
theorem register_again
    (handling : Handling firmware contexts machine now)
    {turns : Nat}
    (before : turns < (machine.csrs .mhartid).toNat)
    (counting : Counting contexts machine turns now) :
    ∃ after,
      firmware.Reaches platform {firmware.place 115} Set.univ ⟨firmware.place 54, now⟩
        ⟨firmware.place 54, after⟩ ∧
      Handling firmware contexts machine after ∧
      Counting contexts machine (turns + 1) after := by
  obtain ⟨-, -, -, -, -, holds, -⟩ := holds_handler_blocks firmware
  obtain ⟨-, -, -, -, back, -⟩ := resolve_handler firmware
  have stays : (Instr.beq .a0 .a3 (.f 2)).jumps now.registers = none := by
    refine if_neg fun same => ?_
    have numbers : (now.get .a0).toNat = (now.get .a3).toNat := congrArg _ same
    have small := (machine.csrs .mhartid).isLt
    rw [counting.a0, counting.a3, BitVec.toNat_ofNat, Nat.mod_eq_of_lt (by omega)]
      at numbers
    omega
  have fell :
      firmware.Step platform {firmware.place 115} Set.univ ⟨firmware.place 54, now⟩
        ⟨firmware.place 55, now⟩ :=
    handler_branch holds.tail.tail.getElem? (by decide) rfl (follow_of_stay stays (by decide))
  have counts : firmware.HoldsAt 55
      (((findRegister.drop 3).take 2).map Line.toBytes ++
        [plain (.priv (.int (.j (.b 2))))]) :=
    holds.tail.tail.tail
  have counted :
      firmware.Reaches platform {firmware.place 115} Set.univ ⟨firmware.place 55, now⟩
        ⟨firmware.place 57, _⟩ :=
    handler_lines _ counts.left (by decide) rfl (by
      simp [findRegister, Allowed, Line.toBytes, Line.plain, ByteInstr.access,
        Platform.permits])
  have turned (last : ByteMachine xlen.bits) :
      firmware.Step platform {firmware.place 115} Set.univ ⟨firmware.place 57, last⟩
        ⟨firmware.place 54, last⟩ :=
    handler_branch counts.right.getElem? (by decide) rfl (follow_of_jump rfl back)
  refine ⟨_, (counted.head fell).tail (turned _),
    handling.of_agree ?_ ?_ rfl fun _ _ => rfl, ?_, ?_, ?_, ?_, ?_⟩
  · simp [findRegister, Line.toBytes, Line.plain]
  · simp [findRegister, Line.toBytes, Line.plain]
  · simp [findRegister, Line.toBytes, Line.plain, counting.a0]
  · simp [findRegister, Line.toBytes, Line.plain, counting.a1]
  · simp [findRegister, Line.toBytes, Line.plain, counting.a3, BitVec.ofNat_add]
  · simp [findRegister, Line.toBytes, Line.plain, counting.a4, Nat.mul_succ,
      BitVec.ofNat_add]
  · simp [findRegister, Line.toBytes, Line.plain, counting.a5]

/-- The turns end at the register of the hart. -/
theorem register_turns
    (handling : Handling firmware contexts machine now)
    {turns : Nat}
    (before : turns ≤ (machine.csrs .mhartid).toNat)
    (counting : Counting contexts machine turns now) :
    ∃ after,
      firmware.Reaches platform {firmware.place 115} Set.univ ⟨firmware.place 54, now⟩
        ⟨firmware.place 58, after⟩ ∧
      Handling firmware contexts machine after ∧
      Counting contexts machine (machine.csrs .mhartid).toNat after := by
  obtain ⟨distance, reached⟩ := Nat.exists_eq_add_of_le before
  induction distance generalizing turns now with
  | zero =>
      rw [Nat.add_zero] at reached
      rw [← reached] at counting
      obtain ⟨-, -, -, -, -, holds, -⟩ := holds_handler_blocks firmware
      obtain ⟨-, -, -, found, -⟩ := resolve_handler firmware
      have jumps : (Instr.beq .a0 .a3 (.f 2)).jumps now.registers = some (.f 2) := by
        refine if_pos ?_
        have same := counting.a0.trans
          ((BitVec.ofNat_toNat _ _).trans (BitVec.setWidth_eq _)).symm
        exact same.trans counting.a3.symm
      exact ⟨now, .single (handler_branch holds.tail.tail.getElem? (by decide) rfl
        (follow_of_jump jumps found)), handling, counting⟩
  | succ distance inductionHypothesis =>
      obtain ⟨middle, turn, middleHandling, middleCounting⟩ :=
        @register_again _ _ _ platform _ _ handling _ (by omega) counting
      obtain ⟨after, rest, afterHandling, afterCounting⟩ :=
        inductionHypothesis middleHandling (by omega) middleCounting (by omega)
      exact ⟨after, turn.trans rest, afterHandling, afterCounting⟩

/-- The register of the hart is found. -/
theorem register_path
    (handling : Handling firmware contexts machine now)
    (searching : Searching contexts machine contexts.own now) :
    ∃ after,
      firmware.Reaches platform {firmware.place 115} Set.univ ⟨firmware.place 52, now⟩
        ⟨firmware.place 58, after⟩ ∧
      Handling firmware contexts machine after ∧
      Counting contexts machine (machine.csrs .mhartid).toNat after := by
  obtain ⟨-, -, -, -, -, holds, -⟩ := holds_handler_blocks firmware
  have begins : firmware.HoldsAt 52
      ((findRegister.take 2).map Line.toBytes ++
        (findRegister.drop 2).map Line.toBytes) := holds
  have path :
      firmware.Reaches platform {firmware.place 115} Set.univ ⟨firmware.place 52, now⟩
        ⟨firmware.place 54, _⟩ :=
    handler_lines _ begins.left (by decide) rfl (by
      simp [findRegister, Allowed, Line.toBytes, Line.plain, Line.labelled,
        ByteInstr.access, Platform.permits])
  have begun : Counting contexts machine 0
      (firmware.effects ((findRegister.take 2).map Line.toBytes) now) := by
    refine ⟨?_, ?_, ?_, ?_, ?_⟩
    · simp [findRegister, Line.toBytes, Line.plain, Line.labelled, searching.a0]
    · simp [findRegister, Line.toBytes, Line.plain, Line.labelled, searching.a1]
    · simp [findRegister, Line.toBytes, Line.plain, Line.labelled]
    · simp [findRegister, Line.toBytes, Line.plain, Line.labelled]
    · simp [findRegister, Line.toBytes, Line.plain, Line.labelled, searching.a5]
  have begunHandling : Handling firmware contexts machine
      (firmware.effects ((findRegister.take 2).map Line.toBytes) now) := by
    refine handling.of_agree ?_ ?_ rfl fun _ _ => rfl
    · simp [findRegister, Line.toBytes, Line.plain, Line.labelled]
    · simp [findRegister, Line.toBytes, Line.plain, Line.labelled]
  obtain ⟨after, rest, kept⟩ :=
    @register_turns _ _ _ platform _ _ begunHandling 0 (Nat.zero_le _) begun
  exact ⟨after, path.trans rest, kept⟩

/-- The hart has its number, its context and its thread pointer. -/
structure Loaded
    (contexts : Contexts xlen) (machine now : ByteMachine xlen.bits) : Prop where
  a0 : now.get .a0 = machine.csrs .mhartid
  tp : now.get .tp = contexts.thread

/-- The interrupt is acknowledged, and the context loaded. -/
theorem context_path
    (arranged : Arranged platform firmware contexts machine)
    (handling : Handling firmware contexts machine now)
    (counting : Counting contexts machine (machine.csrs .mhartid).toNat now) :
    ∃ after,
      firmware.Reaches platform {firmware.place 115} Set.univ ⟨firmware.place 58, now⟩
        ⟨firmware.place 66, after⟩ ∧
      Handling firmware contexts machine after ∧ Loaded contexts machine after := by
  obtain ⟨-, -, -, -, -, -, acknowledges, loads, -⟩ := holds_handler_blocks firmware
  have word :
      BitVec.ofNat xlen.bits CLINT_BASE + now.get .a4 = clintWord machine := by
    rw [counting.a4, clintWord]
  have permitted := arranged.clint
  have acknowledged :
      firmware.Reaches platform {firmware.place 115} Set.univ ⟨firmware.place 58, now⟩
        ⟨firmware.place 61, _⟩ :=
    handler_lines _ acknowledges (by decide) rfl (by
      simp [acknowledge, Allowed, plain, ByteInstr.access, Platform.permits, word,
        permitted])
  have clintApart : Disjoint (ByteMemory.span (clintWord machine) 4)
      (inputs firmware contexts) :=
    arranged.apart.mono_left fun _ inside => .inr (.inl inside)
  have acknowledgedHandling : Handling firmware contexts machine
      (firmware.effects acknowledge now) := by
    refine handling.of_agree ?_ ?_ ?_ fun address inside => ?_
    · simp [acknowledge, plain]
    · simp [acknowledge, plain]
    · simp [acknowledge, plain]
    · have outside : address ∉ ByteMemory.span (clintWord machine) 4 :=
        fun written => Set.disjoint_left.mp clintApart written inside
      simp [acknowledge, plain, word, ByteMemory.store_outside outside]
  have a0 : (firmware.effects acknowledge now).get .a0 = machine.csrs .mhartid := by
    simp [acknowledge, plain, counting.a0]
  have a1 : (firmware.effects acknowledge now).get .a1 =
      contexts.context contexts.own := by
    simp [acknowledge, plain, counting.a1]
  generalize firmware.effects acknowledge now = middle
    at acknowledged acknowledgedHandling a0 a1
  have user := arranged.readsVariables .hart_contexts_user (by decide)
  have thread := arranged.readsThread
  have loaded :
      firmware.Reaches platform {firmware.place 115} Set.univ
        ⟨firmware.place 61, middle⟩ ⟨firmware.place 66, _⟩ :=
    handler_lines _ loads (show 61 + 5 ≤ 115 by decide) rfl (by
      simp [loadContext, Allowed, Line.toBytes, Line.plain, Line.labelled,
        ByteInstr.access, Platform.permits, bits_div, user, thread, a1])
  refine ⟨_, acknowledged.trans loaded,
    acknowledgedHandling.of_agree ?_ ?_ ?_ fun _ _ => rfl, ?_, ?_⟩
  · simp [loadContext, Line.toBytes, Line.plain, Line.labelled]
  · simp [loadContext, Line.toBytes, Line.plain, Line.labelled]
  · simp [loadContext, Line.toBytes, Line.plain, Line.labelled]
  · simp [loadContext, Line.toBytes, Line.plain, Line.labelled, a0]
  · simp [loadContext, Line.toBytes, Line.plain, Line.labelled, a1, bits_div,
      acknowledgedHandling.load_thread, arranged.thread]

/-- A context that was saved gets the thread pointer. -/
theorem thread_path
    (arranged : Arranged platform firmware contexts machine)
    (handling : Handling firmware contexts machine now)
    (loaded : Loaded contexts machine now) :
    ∃ after,
      firmware.Reaches platform {firmware.place 115} Set.univ ⟨firmware.place 66, now⟩
        ⟨firmware.place 68, after⟩ ∧
      Handling firmware contexts machine after ∧ Loaded contexts machine after := by
  obtain ⟨-, -, -, -, -, -, -, -, holds, -⟩ := holds_handler_blocks firmware
  obtain ⟨-, -, -, -, -, skips, -⟩ := resolve_handler firmware
  by_cases record : machine.csrs .mscratch = 0
  · have jumps : (Instr.beqz .s0 (.f 2)).jumps now.registers = some (.f 2) :=
      if_pos (handling.s0.trans record)
    exact ⟨now, .single (handler_branch holds.getElem? (by decide) rfl
      (follow_of_jump jumps skips)), handling, loaded⟩
  · have stays : (Instr.beqz .s0 (.f 2)).jumps now.registers = none :=
      if_neg fun zero => record (handling.s0.symm.trans zero)
    have fell :
        firmware.Step platform {firmware.place 115} Set.univ ⟨firmware.place 66, now⟩
          ⟨firmware.place 67, now⟩ :=
      handler_branch holds.getElem? (by decide) rfl (follow_of_stay stays (by decide))
    obtain ⟨after, path, afterHandling, kept⟩ :=
      stores_path arranged record [(.tp, .tp)] holds.tail (by decide) handling
    exact ⟨after, path.head fell, afterHandling, (kept .a0).trans loaded.a0,
      (kept .tp).trans loaded.tp⟩

/-- The hart is about to execute the probe for the first time. -/
structure Called
    (firmware : Firmware xlen) (contexts : Contexts xlen)
    (machine call : ByteMachine xlen.bits) : Prop where
  handling : Handling firmware contexts machine call
  ra : call.get .ra = firmware.place 76
  tp : call.get .tp = contexts.thread
  a0 : call.get .a0 = BitVec.ofNat xlen.bits CSR_MENVCFG.toNat

/-- The address of a thread-local variable from its parts. -/
theorem threadLocal_eq
    (name : InitName) :
    firmware.tprel name - firmware.tprel_lo name + contexts.thread +
        firmware.tprel_lo name = threadLocal firmware contexts name := by
  rw [threadLocal, BitVec.add_comm _ contexts.thread, BitVec.add_assoc,
    BitVec.sub_add_cancel]

/-- The number of the hart is stored, and the probe called. -/
theorem hart_path
    (arranged : Arranged platform firmware contexts machine)
    (handling : Handling firmware contexts machine now)
    (loaded : Loaded contexts machine now) :
    ∃ call,
      firmware.Reaches platform {firmware.place 115} Set.univ ⟨firmware.place 68, now⟩
        ⟨firmware.place 115, call⟩ ∧
      Called firmware contexts machine call := by
  obtain ⟨-, -, -, -, -, -, -, -, -, holds, calls, -⟩ := holds_handler_blocks firmware
  have permitted := arranged.locals .mhartid (by decide)
  have apart : Disjoint
      (ByteMemory.span (threadLocal firmware contexts .mhartid) xlen.bytes)
      (inputs firmware contexts) :=
    arranged.apart.mono_left fun _ inside => .inr (.inr inside)
  have path :
      firmware.Reaches platform {firmware.place 115} Set.univ ⟨firmware.place 68, now⟩
        ⟨firmware.place 75, _⟩ :=
    handler_lines _ holds (by decide) rfl (by
      simp [setHart, Allowed, plain, ByteInstr.access, Platform.permits, loaded.tp,
        threadLocal_eq, bits_div, permitted])
  have called (last : ByteMachine xlen.bits) :
      firmware.Step platform {firmware.place 115} Set.univ ⟨firmware.place 75, last⟩
        ⟨firmware.place 115, last.setReg .ra (firmware.place 76)⟩ :=
    Step.of_line calls.getElem? (place_not_mem firmware (by decide) (by decide) (by decide))
      rfl (Set.subset_univ _) (congrArg some firmware.address_probe_csr)
  refine ⟨_, path.tail (called _), handling.of_agree ?_ ?_ ?_ fun address inside => ?_,
    ?_, ?_, ?_⟩
  · simp [setHart, plain]
  · simp [setHart, plain]
  · simp [setHart, plain]
  · have outside :=
      fun written => Set.disjoint_left.mp apart written inside
    simp [setHart, plain, loaded.tp, threadLocal_eq, bits_div,
      ByteMemory.store_outside outside]
  · simp
  · simp [setHart, plain, loaded.tp]
  · simp [setHart, plain]

/-- The handler calls the probe with the stack pointer that the hart came with. -/
theorem call_path
    (arranged : Arranged platform firmware contexts machine) :
    ∃ call,
      firmware.Reaches platform {firmware.place 115} Set.univ ⟨firmware.place 0, machine⟩
        ⟨firmware.place 115, call⟩ ∧
      Called firmware contexts machine call := by
  obtain ⟨entered, enters, enteredHandling⟩ := enter_path arranged
  obtain ⟨started, starts, startedHandling, searching⟩ :=
    start_path arranged enteredHandling
  obtain ⟨found, searches, foundHandling, foundSearching⟩ :=
    search_path arranged startedHandling (Nat.zero_le _) searching
  obtain ⟨counted, counts, countedHandling, counting⟩ :=
    @register_path _ _ _ platform _ _ foundHandling foundSearching
  obtain ⟨loaded, loads, loadedHandling, holds⟩ :=
    context_path arranged countedHandling counting
  obtain ⟨threaded, threads, threadedHandling, threadedHolds⟩ :=
    thread_path arranged loadedHandling holds
  obtain ⟨call, calls, called⟩ := hart_path arranged threadedHandling threadedHolds
  exact ⟨call, enters.trans (starts.trans (searches.trans (counts.trans
    (loads.trans (threads.trans calls))))), called⟩

end Way

end HartInit
end EchelonSbi
