import EchelonSbi.Traps.Arrays

/-!
# The way into a trap handler

What `interrupt_entry_handler` does up to its calls: the trapped registers, the
program counter and the mode are in the context that `mscratch` named, and the C
code gets that context, the cause and the stack of the hart.
-/

namespace EchelonSbi
namespace Traps

open Riscv

/-- Two machines agree but for some registers. -/
structure AgreeBut
    {w : Nat} (registers : List Reg) (machine after : Machine w) : Prop where
  mode : after.mode = machine.mode
  csrs : after.csrs = machine.csrs
  memory : after.memory = machine.memory
  others : ∀ reg ∉ registers, after.get reg = machine.get reg

theorem AgreeBut.trans
    {w : Nat}
    {registers : List Reg}
    {machine middle after : Machine w}
    (first : AgreeBut registers machine middle)
    (second : AgreeBut registers middle after) :
    AgreeBut registers machine after where
  mode := second.mode.trans first.mode
  csrs := second.csrs.trans first.csrs
  memory := second.memory.trans first.memory
  others reg apart := (second.others reg apart).trans (first.others reg apart)

section Blocks

variable {xlen : Xlen} (firmware : Firmware xlen)

/-- Where the branches of the entry go. -/
theorem resolve_entry :
    Program.resolve firmware.lines 59 (.f 2) = some 64 ∧
      Program.resolve firmware.lines 63 (.b 2) = some 57 ∧
      Program.resolve firmware.lines 67 (.f 2) = some 79 ∧
      Program.resolve firmware.lines 75 (.f 4) = some 77 ∧
      Program.resolve firmware.lines 78 (.f 3) = some 80 := by
  rw [firmware.lines_eq]
  cases xlen <;> decide +kernel

/-- Where the blocks of the entry are. -/
theorem holds_entry_blocks :
    firmware.HoldsAt 1 (saveContext TrapName xlen) ∧
      firmware.HoldsAt 36 (saveState xlen) ∧
      firmware.HoldsAt 43 loadCause ∧
      firmware.HoldsAt 50 startSearch ∧
      firmware.HoldsAt 57 (searchContext xlen) ∧
      firmware.HoldsAt 64 (loadStack xlen) ∧
      firmware.HoldsAt 67 [.plain (.int (.bne .ra .zero (.f 2)))] ∧
      firmware.HoldsAt 68 exceptionContext ∧
      firmware.HoldsAt 75 callHandlers := by
  have saved := firmware.holds_entry.left.left
  simp only [interrupt_entry_handler, List.append_assoc] at saved
  have state := saved.right
  have cause := state.right
  have start := cause.right
  have search := start.right
  have stack := search.right
  have branch := stack.right
  have exception := branch.right
  exact ⟨saved.left, state.left, cause.left, start.left, search.left, stack.left, branch.left,
    exception.left, exception.right⟩

end Blocks

section Search

variable {xlen : Xlen} {served : Served xlen} {machine : Machine xlen.bits}

/-- The registers of the search. -/
structure Searching (served : Served xlen) (index : Nat) (machine : Machine xlen.bits) :
    Prop where
  t0 : machine.get .t0 = BitVec.ofNat xlen.bits served.hart
  t1 : machine.get .t1 = served.arrays.context index
  t2 : machine.get .t2 = BitVec.ofNat xlen.bits (3 * served.arrays.total)
  a3 : machine.get .a3 = BitVec.ofNat xlen.bits index
  a5 : machine.get .a5 = BitVec.ofNat xlen.bits (CT_SIZE xlen * index)

/-- The contexts can be counted in a register. -/
theorem three_total_lt (arrays : HartArrays xlen) : 3 * arrays.total < 2 ^ xlen.bits := by
  have fits := arrays.fits
  have size : 2 ≤ CT_SIZE xlen := by
    cases xlen <;> decide
  rcases Nat.eq_zero_or_pos (3 * arrays.total) with empty | some
  · rw [empty]
    exact Nat.two_pow_pos _
  · have twice := Nat.mul_le_mul_right (3 * arrays.total) size
    omega

/-- Small numbers are apart in a register. -/
theorem ofNat_inj_of_lt
    {w number other : Nat}
    (small : number < 2 ^ w)
    (otherSmall : other < 2 ^ w) :
    BitVec.ofNat w number = BitVec.ofNat w other ↔ number = other := by
  rw [← BitVec.toNat_inj, BitVec.toNat_ofNat, BitVec.toNat_ofNat,
    Nat.mod_eq_of_lt small, Nat.mod_eq_of_lt otherSmall]

/-- A turn of the search reads the number of a context. -/
theorem searchContext_read
    (quiet : machine.Quiet)
    (arranged : served.Arranged machine.memory)
    {index : Nat}
    (before : index ≤ served.hart)
    (searching : Searching served index machine) :
    served.firmware.QuietPath ⟨served.firmware.place 57, machine⟩
      ⟨served.firmware.place 59,
        machine.setReg .a4 (BitVec.ofNat xlen.bits index)⟩ := by
  obtain ⟨-, -, -, -, holds, -⟩ := holds_entry_blocks served.firmware
  have inside := lt_of_le_of_lt before served.hart_lt
  have small := three_total_lt served.arrays
  have more : machine.get .t2 ≠ machine.get .a3 := by
    rw [searching.t2, searching.a3, Ne, ofNat_inj_of_lt small (by omega)]
    omega
  have first : served.firmware.QuietPath ⟨served.firmware.place 57, machine⟩
      ⟨served.firmware.place 58, machine⟩ :=
    .fall quiet holds.getElem? rfl (if_neg more)
  have second : served.firmware.HoldsAt 58 [.plain (.load .a4 0 .t1)] :=
    (holds.drop (show 1 ≤ 7 by decide)).take 1
  have load := Program.QuietPath.straight _ quiet second rfl
  have number :
      machine.memory (machine.get .t1 + BitVec.ofNat xlen.bits 0) =
        BitVec.ofNat xlen.bits index := by
    rw [searching.t1]
    exact arranged.context_id index inside
  rw [effects_cons, effects_nil, Line.instr_plain, PrivInstr.effect_load, number]
    at load
  exact first.trans load

/-- A turn of the search at the context of the hart leaves. -/
theorem searchContext_leave
    (quiet : machine.Quiet)
    (arranged : served.Arranged machine.memory)
    (searching : Searching served served.hart machine) :
    ∃ after,
      served.firmware.QuietPath ⟨served.firmware.place 57, machine⟩
        ⟨served.firmware.place 64, after⟩ ∧
      AgreeBut [.t1, .a3, .a4, .a5] machine after ∧
      Searching served served.hart after := by
  obtain ⟨-, -, -, -, holds, -⟩ := holds_entry_blocks served.firmware
  obtain ⟨found, -⟩ := resolve_entry served.firmware
  have read := searchContext_read quiet arranged (Nat.le_refl _) searching
  have third :
      served.firmware.lines[59]? = some ⟨[], .int (.beq .t0 .a4 (.f 2))⟩ :=
    (holds.drop (show 2 ≤ 7 by decide)).getElem?
  have same :
      (machine.setReg .a4 (BitVec.ofNat xlen.bits served.hart)).get .t0 =
        (machine.setReg .a4 (BitVec.ofNat xlen.bits served.hart)).get .a4 := by
    simp [searching.t0]
  have leave := Program.QuietPath.branch
    (quiet.setReg .a4 (BitVec.ofNat xlen.bits served.hart)) third rfl (if_pos same)
    found
  refine ⟨_, read.trans leave, ⟨rfl, rfl, rfl, ?_⟩, ⟨?_, ?_, ?_, ?_, ?_⟩⟩
  · intro reg apart
    refine (Machine.get_setReg ..).trans (if_neg fun both => ?_)
    exact apart (by simp [both.1])
  · exact searching.t0
  · exact searching.t1
  · exact searching.t2
  · exact searching.a3
  · exact searching.a5

/-- A turn of the search at the context of another hart goes on to the next. -/
theorem searchContext_again
    (quiet : machine.Quiet)
    (arranged : served.Arranged machine.memory)
    {index : Nat}
    (before : index < served.hart)
    (searching : Searching served index machine) :
    ∃ after,
      served.firmware.QuietPath ⟨served.firmware.place 57, machine⟩
        ⟨served.firmware.place 57, after⟩ ∧
      AgreeBut [.t1, .a3, .a4, .a5] machine after ∧
      Searching served (index + 1) after := by
  obtain ⟨-, -, -, -, holds, -⟩ := holds_entry_blocks served.firmware
  obtain ⟨-, back, -⟩ := resolve_entry served.firmware
  have small := three_total_lt served.arrays
  have inside := served.hart_lt
  have read := searchContext_read quiet arranged before.le searching
  have third :
      served.firmware.lines[59]? = some ⟨[], .int (.beq .t0 .a4 (.f 2))⟩ :=
    (holds.drop (show 2 ≤ 7 by decide)).getElem?
  have last : served.firmware.lines[63]? = some ⟨[], .int (.j (.b 2))⟩ :=
    (holds.drop (show 6 ≤ 7 by decide)).getElem?
  have count :
      served.firmware.HoldsAt 60
        [.plain (.int (.addi .t1 .t1 (CT_SIZE xlen))),
          .plain (.int (.addi .a5 .a5 (CT_SIZE xlen))),
          .plain (.int (.addi .a3 .a3 1))] :=
    (holds.drop (show 3 ≤ 7 by decide)).take 3
  have apart :
      (machine.setReg .a4 (BitVec.ofNat xlen.bits index)).get .t0 ≠
        (machine.setReg .a4 (BitVec.ofNat xlen.bits index)).get .a4 := by
    simp only [Machine.get_setReg, searching.t0]
    simp only [reduceCtorEq, false_and, if_false, ne_eq, true_and, not_false_eq_true,
      if_true]
    rw [ofNat_inj_of_lt (by omega) (by omega)]
    omega
  have readQuiet := quiet.setReg .a4 (BitVec.ofNat xlen.bits index)
  have stay := Program.QuietPath.fall readQuiet third rfl (if_neg apart)
  have counted := Program.QuietPath.straight _ readQuiet count rfl
  have countedQuiet := readQuiet.effects served.firmware.names
    (show straightBlock
      [.plain (.int (.addi .t1 .t1 (CT_SIZE xlen))),
        .plain (.int (.addi .a5 .a5 (CT_SIZE xlen))),
        .plain (.int (.addi .a3 .a3 1))] = true from rfl)
  have turn := Program.QuietPath.branch countedQuiet last rfl rfl back
  refine ⟨_, ((read.trans stay).trans counted).trans turn, ⟨rfl, rfl, rfl, ?_⟩,
    ⟨?_, ?_, ?_, ?_, ?_⟩⟩
  · intro reg apart
    simp only [List.mem_cons, List.not_mem_nil, or_false, not_or] at apart
    simp [apart]
  · simp [searching.t0]
  · simp [searching.t1, HartArrays.context, Nat.mul_succ,
      BitVec.ofNat_add, BitVec.add_assoc]
  · simp [searching.t2]
  · simp [searching.a3, BitVec.ofNat_add]
  · simp [searching.a5, Nat.mul_succ, BitVec.ofNat_add]

/-- The search leaves at the context of the hart. -/
theorem searchContext_path
    (quiet : machine.Quiet)
    (arranged : served.Arranged machine.memory)
    {index : Nat}
    (before : index ≤ served.hart)
    (searching : Searching served index machine) :
    ∃ after,
      served.firmware.QuietPath ⟨served.firmware.place 57, machine⟩
        ⟨served.firmware.place 64, after⟩ ∧
      AgreeBut [.t1, .a3, .a4, .a5] machine after ∧
      Searching served served.hart after := by
  obtain ⟨distance, reached⟩ := Nat.exists_eq_add_of_le before
  induction distance generalizing index machine with
  | zero =>
      rw [Nat.add_zero] at reached
      rw [← reached] at searching
      exact searchContext_leave quiet arranged searching
  | succ distance inductionHypothesis =>
      obtain ⟨middle, turn, agree, searchingNext⟩ :=
        searchContext_again quiet arranged (by omega) searching
      have quietMiddle : middle.Quiet :=
        ⟨agree.mode.trans quiet.mode, by rw [Machine.MIE, agree.csrs]; exact quiet.mie⟩
      obtain ⟨after, rest, agreeRest, found⟩ :=
        inductionHypothesis quietMiddle (agree.memory ▸ arranged) (by omega)
          searchingNext (by omega)
      exact ⟨after, turn.trans rest, agree.trans agreeRest, found⟩

end Search

section Saved

variable {xlen : Xlen} {names : Names TrapName xlen.bits} {machine : Machine xlen.bits}

/-- Behind the registers, the program counter and the mode are in the context. -/
structure StateSaved (machine after : Machine xlen.bits) : Prop where
  mode : after.mode = machine.mode
  csrs : after.csrs = machine.csrs
  memory :
    after.memory =
      Function.update
        (Function.update machine.memory (regField (machine.get .s0) .zero)
          (machine.csrs .mepc))
        (field (machine.get .s0) 1) (machine.csrs .mstatus >>> 11 &&& 3)
  s0 : after.get .s0 = machine.get .s0
  a0 : after.get .a0 = machine.get .s0

theorem effects_saveState
    (names : Names TrapName xlen.bits)
    (machine : Machine xlen.bits) :
    StateSaved machine (effects names (saveState xlen) machine) := by
  constructor
  · rfl
  · rfl
  · simp [saveState, regField, field]
  · simp [saveState]
  · simp [saveState]

/-- The arguments of the C code that come from `mcause`. -/
structure CauseLoaded (machine after : Machine xlen.bits) : Prop where
  agree : AgreeBut [.gp, .a1, .ra, .sp] machine after
  a1 : after.get .a1 = machine.csrs .mcause &&& (~~~0 : Word xlen) >>> 1
  ra : after.get .ra = if (machine.csrs .mcause).toInt < 0 then 1 else 0

theorem effects_loadCause
    (names : Names TrapName xlen.bits)
    (machine : Machine xlen.bits) :
    CauseLoaded machine (effects names loadCause machine) := by
  refine ⟨⟨rfl, rfl, rfl, ?_⟩, ?_, ?_⟩
  · intro reg apart
    simp only [List.mem_cons, List.not_mem_nil, or_false, not_or] at apart
    simp [loadCause, apart]
  · simp [loadCause]
  · simp [loadCause]

/-- The search begins. -/
structure SearchStarted
    (names : Names TrapName xlen.bits) (machine after : Machine xlen.bits) : Prop where
  agree : AgreeBut [.t0, .t1, .t2, .a3, .a5] machine after
  t0 : after.get .t0 = machine.csrs .mhartid
  t1 : after.get .t1 = machine.memory (names.address .hart_contexts)
  t2 : after.get .t2 = machine.memory (names.address .hart_context_count)
  a3 : after.get .a3 = 0
  a5 : after.get .a5 = 0

theorem effects_startSearch
    (names : Names TrapName xlen.bits)
    (machine : Machine xlen.bits) :
    SearchStarted names machine (effects names startSearch machine) := by
  refine ⟨⟨rfl, rfl, rfl, ?_⟩, ?_, ?_, ?_, ?_, ?_⟩
  · intro reg apart
    simp only [List.mem_cons, List.not_mem_nil, or_false, not_or] at apart
    simp [startSearch, apart]
  · simp [startSearch]
  · simp [startSearch]
  · simp [startSearch]
  · simp [startSearch]
  · simp [startSearch]

end Saved

/-! ## The whole way -/

/-- The context of a trap is saved: registers, program counter and mode. -/
structure SavedAt
    {xlen : Xlen}
    (record : Word xlen) (machine : Machine xlen.bits)
    (memory : Word xlen → Word xlen) : Prop where
  regs : ∀ reg, reg ≠ .zero → memory (regField record reg) = machine.get reg
  pc : memory (regField record .zero) = machine.csrs .mepc
  execution_mode : memory (field record 1) = machine.csrs .mstatus >>> 11 &&& 3
  other :
    ∀ address : Word xlen,
      (∀ word < 35, word ≠ 0 → word ≠ 2 → address ≠ field record word) →
      memory address = machine.memory address

/-- In front of the branch between interrupts and exceptions. -/
structure Entered
    {xlen : Xlen}
    (served : Served xlen) (machine after : Machine xlen.bits) : Prop where
  mode : after.mode = machine.mode
  csrs : after.csrs = machine.csrs
  saved : SavedAt (machine.csrs .mscratch) machine after.memory
  s0 : after.get .s0 = machine.csrs .mscratch
  a0 : after.get .a0 = machine.csrs .mscratch
  a1 : after.get .a1 = machine.csrs .mcause &&& (~~~0 : Word xlen) >>> 1
  a2 : after.get .a2 = machine.csrs .mtval
  a5 : after.get .a5 = BitVec.ofNat xlen.bits (CT_SIZE xlen * served.hart)
  ra : after.get .ra = if (machine.csrs .mcause).toInt < 0 then 1 else 0
  sp : after.get .sp = after.memory (regField (served.arrays.own served.hart) .sp)
  tp : after.get .tp = after.memory (regField (served.arrays.own served.hart) .tp)

section Path

variable {xlen : Xlen} {served : Served xlen} {machine after : Machine xlen.bits}

/-- The registers and the rest of the context together. -/
theorem SavedAt.of_blocks
    {middle : Machine xlen.bits}
    (saved : ContextSaved machine middle)
    (state : StateSaved middle after) :
    SavedAt (machine.csrs .mscratch) machine after.memory := by
  have regs (reg : Reg) : ∃ word, 3 ≤ word ∧ word < 35 ∧
      regField (machine.csrs .mscratch) reg =
        field (machine.csrs .mscratch) word :=
    have small := regNumber_lt reg
    ⟨3 + regNumber reg, by omega, by omega, regField_eq_field _ _⟩
  constructor
  · intro reg wired
    obtain ⟨word, low, high, same⟩ := regs reg
    rw [state.memory, saved.pointer, Function.update_of_ne, Function.update_of_ne,
      saved.saved reg wired]
    · exact fun equal => wired (regField_inj.mp equal)
    · rw [same, Ne, field_inj high (by decide)]
      omega
  · rw [state.memory, saved.pointer, Function.update_of_ne, Function.update_self,
      saved.csrs]
    rw [regField_eq_field, Ne, field_inj (by decide) (by decide)]
    decide
  · rw [state.memory, saved.pointer, Function.update_self, saved.csrs]
  · intro address apart
    rw [state.memory, saved.pointer, Function.update_of_ne, Function.update_of_ne,
      saved.other]
    · intro reg _
      obtain ⟨word, low, high, same⟩ := regs reg
      rw [same]
      exact apart word high (by omega) (by omega)
    · rw [regField_eq_field]
      exact apart 3 (by decide) (by decide) (by decide)
    · exact apart 1 (by decide) (by decide) (by decide)

/-- What the trap code needs of memory is not in what it saves. -/
theorem Served.Arranged.of_saved
    {memory : Word xlen → Word xlen}
    {index : Nat}
    (arranged : served.Arranged machine.memory)
    (inside : index < 3 * served.arrays.total)
    (saved : SavedAt (served.arrays.context index) machine memory) :
    served.Arranged memory := by
  have globals (name : TrapName) :
      memory (served.firmware.names.address name) =
        machine.memory (served.firmware.names.address name) :=
    saved.other _ fun word high _ _ => served.outside name index inside word high
  constructor
  · rw [globals, arranged.hart_contexts]
  · rw [globals, arranged.hart_context_count]
  · rw [globals, arranged.hart_contexts_exception]
  · intro hart hartInside
    rw [saved.other, arranged.context_id hart hartInside]
    intro word high first _
    rw [HartArrays.own, Ne,
      HartArrays.field_context_inj (by omega) inside (by decide) high]
    omega

/-- `interrupt_entry_handler` saves the context that `mscratch` names. -/
theorem entry_path
    (quiet : machine.Quiet)
    (arranged : served.Arranged machine.memory)
    {index : Nat}
    (record : machine.csrs .mscratch = served.arrays.context index)
    (inside : index < 3 * served.arrays.total)
    (hartid : machine.csrs .mhartid = BitVec.ofNat xlen.bits served.hart) :
    ∃ after,
      served.firmware.QuietPath ⟨served.firmware.place 1, machine⟩
        ⟨served.firmware.place 67, after⟩ ∧
      Entered served machine after := by
  obtain ⟨context, state, cause, start, -, stack, -⟩ :=
    holds_entry_blocks served.firmware
  have first := Program.QuietPath.straight _ quiet context rfl
  have saved := effects_saveContext served.firmware.names machine
  have quietSaved := quiet.effects served.firmware.names
    (show straightBlock (saveContext TrapName xlen) = true from rfl)
  generalize effects served.firmware.names (saveContext TrapName xlen) machine =
    machineSaved at first saved quietSaved
  have second := Program.QuietPath.straight _ quietSaved state rfl
  have stated := effects_saveState served.firmware.names machineSaved
  have quietState := quietSaved.effects served.firmware.names
    (show straightBlock (saveState xlen) = true from rfl)
  generalize effects served.firmware.names (saveState xlen) machineSaved =
    machineState at second stated quietState
  have third := Program.QuietPath.straight _ quietState cause rfl
  have caused := effects_loadCause served.firmware.names machineState
  have quietCause := quietState.effects served.firmware.names
    (show straightBlock loadCause = true from rfl)
  generalize effects served.firmware.names loadCause machineState =
    machineCause at third caused quietCause
  have fourth := Program.QuietPath.straight _ quietCause start rfl
  have started := effects_startSearch served.firmware.names machineCause
  have quietStart := quietCause.effects served.firmware.names
    (show straightBlock startSearch = true from rfl)
  generalize effects served.firmware.names startSearch machineCause =
    machineStart at fourth started quietStart
  -- the context is complete: the rest only reads memory
  have savedAt := SavedAt.of_blocks saved stated
  have arrangedState := arranged.of_saved inside (record ▸ savedAt)
  have startMemory : machineStart.memory = machineState.memory :=
    started.agree.memory.trans caused.agree.memory
  have startCsrs : machineStart.csrs = machine.csrs :=
    ((started.agree.csrs.trans caused.agree.csrs).trans stated.csrs).trans saved.csrs
  have causeMemory : machineCause.memory = machineState.memory := caused.agree.memory
  have searching : Searching served 0 machineStart := by
    refine ⟨?_, ?_, ?_, started.a3, started.a5⟩
    · rw [started.t0, caused.agree.csrs, stated.csrs, saved.csrs, hartid]
    · rw [started.t1, causeMemory, arrangedState.hart_contexts]
      simp [HartArrays.context]
    · rw [started.t2, causeMemory, arrangedState.hart_context_count]
  obtain ⟨machineFound, fifth, agree, found⟩ :=
    searchContext_path quietStart (startMemory ▸ arrangedState) (Nat.zero_le _)
      searching
  have foundCsrs : machineFound.csrs = machine.csrs := agree.csrs.trans startCsrs
  have foundMemory : machineFound.memory = machineState.memory :=
    agree.memory.trans startMemory
  have foundMode : machineFound.mode = machine.mode :=
    (((agree.mode.trans started.agree.mode).trans caused.agree.mode).trans
      stated.mode).trans saved.mode
  have quietFound : machineFound.Quiet :=
    ⟨foundMode.trans quiet.mode, by
      rw [Machine.MIE, foundCsrs]
      exact quiet.mie⟩
  have sixth := Program.QuietPath.straight _ quietFound stack rfl
  refine ⟨_, ((((first.trans second).trans third).trans fourth).trans fifth).trans sixth,
    ?_⟩
  have kept (reg : Reg)
      (apartSearch : reg ∉ [.t1, .a3, .a4, .a5])
      (apartStart : reg ∉ [.t0, .t1, .t2, .a3, .a5]) :
      machineFound.get reg = machineCause.get reg :=
    (agree.others reg apartSearch).trans (started.agree.others reg apartStart)
  have stateCsrs : machineState.csrs = machine.csrs := stated.csrs.trans saved.csrs
  have s0 : machineFound.get .s0 = machine.csrs .mscratch := by
    rw [kept .s0 (by decide) (by decide), caused.agree.others .s0 (by decide),
      stated.s0, saved.pointer]
  have a0 : machineFound.get .a0 = machine.csrs .mscratch := by
    rw [kept .a0 (by decide) (by decide), caused.agree.others .a0 (by decide),
      stated.a0, saved.pointer]
  constructor
  · exact foundMode
  · exact foundCsrs
  · have memory :
        (effects served.firmware.names (loadStack xlen) machineFound).memory =
          machineState.memory :=
      foundMemory
    rw [memory]
    exact savedAt
  · simpa [loadStack] using s0
  · simpa [loadStack] using a0
  · have a1 := caused.a1
    rw [stateCsrs] at a1
    simpa [loadStack] using (kept .a1 (by decide) (by decide)).trans a1
  · simp [loadStack, foundCsrs]
  · simpa [loadStack] using found.a5
  · have ra := caused.ra
    rw [stateCsrs] at ra
    simpa [loadStack] using (kept .ra (by decide) (by decide)).trans ra
  · simp [loadStack, found.t1, regField, HartArrays.own]
  · simp [loadStack, found.t1, regField, HartArrays.own]

/-- The word that the trap code takes for the mode, at offset 8 of the context. -/
def modeWord : Xlen → Nat
  | .rv32 => 2
  | .rv64 => 1

/-- In front of the branch around the instruction that enables interrupts. -/
structure ExceptionReady
    (served : Served xlen) (machine after : Machine xlen.bits) : Prop where
  mode : after.mode = machine.mode
  csrs : after.csrs = Function.update machine.csrs .mscratch served.exception
  saved : SavedAt (machine.csrs .mscratch) machine after.memory
  s0 : after.get .s0 = machine.csrs .mscratch
  a0 : after.get .a0 = machine.csrs .mscratch
  a1 : after.get .a1 = machine.csrs .mcause
  a2 : after.get .a2 = machine.csrs .mtval
  a3 : after.get .a3 = after.memory (field (machine.csrs .mscratch) (modeWord xlen))
  a4 : after.get .a4 = 3
  sp :
    after.get .sp =
      after.memory (regField (served.arrays.own served.hart) .sp) +
        BitVec.ofInt xlen.bits (-0x800)
  tp : after.get .tp = after.memory (regField (served.arrays.own served.hart) .tp)

/-- The number of an exception has no interrupt bit to lose. -/
theorem and_half_of_nonneg
    (cause : Word xlen)
    (exception : 0 ≤ cause.toInt) :
    cause &&& (~~~0 : Word xlen) >>> 1 = cause := by
  have mask : ((~~~0 : Word xlen) >>> 1).toNat = 2 ^ (xlen.bits - 1) - 1 := by
    cases xlen <;> rfl
  have small : 2 * cause.toNat < 2 ^ xlen.bits := by
    rw [BitVec.toInt_eq_toNat_cond] at exception
    split_ifs at exception with low
    · exact low
    · have := cause.isLt
      omega
  have half : 2 ^ xlen.bits = 2 * 2 ^ (xlen.bits - 1) := by
    cases xlen <;> rfl
  apply BitVec.eq_of_toNat_eq
  rw [BitVec.toNat_and, mask, Nat.and_two_pow_sub_one_eq_mod,
    Nat.mod_eq_of_lt (by omega)]

/-- An exception goes on with the context of the hart for interrupts in
`mscratch`. -/
theorem exception_path
    (quiet : machine.Quiet)
    (arranged : served.Arranged machine.memory)
    {index : Nat}
    (record : machine.csrs .mscratch = served.arrays.context index)
    (inside : index < 3 * served.arrays.total)
    (hartid : machine.csrs .mhartid = BitVec.ofNat xlen.bits served.hart)
    (exception : 0 ≤ (machine.csrs .mcause).toInt) :
    ∃ after,
      served.firmware.QuietPath ⟨served.firmware.place 1, machine⟩
        ⟨served.firmware.place 75, after⟩ ∧
      ExceptionReady served machine after := by
  obtain ⟨middle, path, entered⟩ := entry_path quiet arranged record inside hartid
  obtain ⟨-, -, -, -, -, -, branch, context, -⟩ := holds_entry_blocks served.firmware
  have quietMiddle : middle.Quiet :=
    ⟨entered.mode.trans quiet.mode, by
      rw [Machine.MIE, entered.csrs]
      exact quiet.mie⟩
  have ra : middle.get .ra = middle.get .zero := by
    rw [entered.ra, if_neg (by omega), Machine.get_zero]
  have fall := Program.QuietPath.fall quietMiddle branch.getElem? rfl
    (if_neg (not_not.mpr ra))
  have block := Program.QuietPath.straight _ quietMiddle context rfl
  have arrangedMiddle := arranged.of_saved inside (record ▸ entered.saved)
  refine ⟨_, (path.trans fall).trans block, ?_⟩
  have exceptions := arrangedMiddle.hart_contexts_exception
  constructor
  · exact entered.mode
  · have scratch :
        served.arrays.context served.arrays.total +
            BitVec.ofNat xlen.bits (CT_SIZE xlen * served.hart) =
          served.exception := by
      simp [Served.exception, HartArrays.exception, HartArrays.context, Nat.mul_add,
        BitVec.ofNat_add, BitVec.add_assoc]
    simp [exceptionContext, entered.csrs, entered.a5, exceptions, scratch]
  · exact entered.saved
  · simpa [exceptionContext] using entered.s0
  · simpa [exceptionContext] using entered.a0
  · have a1 := entered.a1
    rw [and_half_of_nonneg _ exception] at a1
    simpa [exceptionContext] using a1
  · simpa [exceptionContext] using entered.a2
  · have word : BitVec.ofNat xlen.bits 8 =
        BitVec.ofNat xlen.bits (xlen.bytes * modeWord xlen) := by
      cases xlen <;> rfl
    simp [exceptionContext, entered.a0, field, word]
  · simp [exceptionContext]
  · simp [exceptionContext, entered.sp]
  · simpa [exceptionContext] using entered.tp

end Path

end Traps
end EchelonSbi
