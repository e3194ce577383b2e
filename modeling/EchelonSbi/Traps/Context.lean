import EchelonSbi.Riscv.Privileged
import EchelonSbi.Word

/-!
# Saved contexts

A `CPU_Context` keeps the registers of a trapped hart.  The C code reads it as a
structure, the trap code as words behind a pointer.  `SAVE_REGS` and `LOAD_REGS`
move all registers but the one that holds the pointer, and then that one.
-/

namespace EchelonSbi
namespace Traps

open Riscv

def EM_M : Nat := 3
def EM_S : Nat := 1
def EM_U : Nat := 0

/-- The saved state of a hart.  `regs[REG_PC]` with `REG_PC` 0 is the program
counter, in the place of the register that is always 0. -/
structure CPU_Context (xlen : Xlen) where
  context_id : Word xlen
  execution_mode : Word xlen
  reserved_0 : Word xlen
  regs : Reg → Word xlen

/-- The number of a register. -/
def regNumber (reg : Reg) : Nat :=
  reg.ctorIdx

theorem regNumber_lt (reg : Reg) : regNumber reg < 32 := by
  cases reg <;> decide

theorem regNumber_injective : Function.Injective regNumber := by
  intro reg other same
  cases reg <;> cases other <;> first | rfl | cases same

/-- Offset of the registers of a context. -/
def CT_R_ST (xlen : Xlen) : Nat :=
  xlen.bytes * 3

/-- Size of a context. -/
def CT_SIZE (xlen : Xlen) : Nat :=
  CT_R_ST xlen + xlen.bytes * 32

/-- Offset of a register in a context. -/
def regOffset (xlen : Xlen) (reg : Reg) : Nat :=
  CT_R_ST xlen + xlen.bytes * regNumber reg

/-- The address of a word of a context. -/
def field (record : Word xlen) (index : Nat) : Word xlen :=
  record + BitVec.ofNat xlen.bits (xlen.bytes * index)

/-- The address of a register in a context. -/
def regField (record : Word xlen) (reg : Reg) : Word xlen :=
  record + BitVec.ofNat xlen.bits (regOffset xlen reg)

/-- The context at an address. -/
def contextAt (memory : Word xlen → Word xlen) (record : Word xlen) :
    CPU_Context xlen where
  context_id := memory (field record 0)
  execution_mode := memory (field record 1)
  reserved_0 := memory (field record 2)
  regs reg := memory (regField record reg)

section Fields

variable {record : Word xlen}

theorem regField_eq_field (record : Word xlen) (reg : Reg) :
    regField record reg = field record (3 + regNumber reg) := by
  rw [regField, field, regOffset, CT_R_ST, ← Nat.mul_add]

/-- The words of a context are apart. -/
theorem field_inj
    {index other : Nat}
    (inside : index < 35)
    (otherInside : other < 35) :
    field record index = field record other ↔ index = other := by
  constructor
  · intro same
    have offsets := congrArg BitVec.toNat (BitVec.add_right_inj record |>.mp same)
    cases xlen <;>
      simp only [BitVec.toNat_ofNat, Xlen.bits, Xlen.bytes] at offsets <;>
      omega
  · rintro rfl
    rfl

theorem regField_inj
    {reg other : Reg} :
    regField record reg = regField record other ↔ reg = other := by
  have inside := regNumber_lt reg
  have otherInside := regNumber_lt other
  rw [regField_eq_field, regField_eq_field,
    field_inj (by omega) (by omega), Nat.add_right_inj]
  exact regNumber_injective.eq_iff

end Fields

/-! ## The macros -/

/-- The registers x1 to x15, and x16 to x31. -/
def lowerRegs : List Reg :=
  [.ra, .sp, .gp, .tp, .t0, .t1, .t2, .s0, .s1, .a0, .a1, .a2, .a3, .a4, .a5]

def upperRegs : List Reg :=
  [.a6, .a7, .s2, .s3, .s4, .s5, .s6, .s7, .s8, .s9, .s10, .s11, .t3, .t4, .t5, .t6]

/-- `M_LS_REGS_LIST` with stores. -/
def storeRegs
    {Name : Type} (xlen : Xlen) (ptr_reg : Reg) (regs : List Reg) : List (Line Name) :=
  (regs.filter (· ≠ ptr_reg)).map fun reg =>
    .plain (.store reg (regOffset xlen reg) ptr_reg)

/-- `M_LS_REGS_LIST` with loads. -/
def loadRegs
    {Name : Type} (xlen : Xlen) (ptr_reg : Reg) (regs : List Reg) : List (Line Name) :=
  (regs.filter (· ≠ ptr_reg)).map fun reg =>
    .plain (.load reg (regOffset xlen reg) ptr_reg)

/-- Save the registers; the one that holds the pointer is taken from `mscratch`,
through `x1` or, if that holds the pointer, through `x2`. -/
def SAVE_REGS {Name : Type} (xlen : Xlen) (ptr_reg : Reg) : List (Line Name) :=
  let through : Reg := if ptr_reg = .ra then .sp else .ra
  storeRegs xlen ptr_reg lowerRegs ++ storeRegs xlen ptr_reg upperRegs ++
    [.plain (.csrrw through .mscratch ptr_reg),
      .plain (.store through (regOffset xlen ptr_reg) ptr_reg)]

/-- Load the registers, the one that holds the pointer at last. -/
def LOAD_REGS {Name : Type} (xlen : Xlen) (ptr_reg : Reg) : List (Line Name) :=
  loadRegs xlen ptr_reg lowerRegs ++ loadRegs xlen ptr_reg upperRegs ++
    [.plain (.load ptr_reg (regOffset xlen ptr_reg) ptr_reg)]

section Blocks

variable {Name : Type} {xlen : Xlen} {names : Names Name xlen.bits}
  {machine : Machine xlen.bits} {ptr_reg : Reg}

/-- What the stores of a list of registers do. -/
structure Stored
    (machine after : Machine xlen.bits) (ptr_reg : Reg) (regs : List Reg) : Prop where
  mode : after.mode = machine.mode
  registers : after.registers = machine.registers
  csrs : after.csrs = machine.csrs
  stored :
    ∀ reg ∈ regs, reg ≠ ptr_reg →
      after.memory (regField (machine.get ptr_reg) reg) = machine.get reg
  other :
    ∀ address : Word xlen,
      (∀ reg ∈ regs, reg ≠ ptr_reg →
        address ≠ regField (machine.get ptr_reg) reg) →
      after.memory address = machine.memory address

theorem effects_storeRegs
    (regs : List Reg) :
    Stored machine (effects names (storeRegs xlen ptr_reg regs) machine) ptr_reg
      regs := by
  induction regs generalizing machine with
  | nil => exact ⟨rfl, rfl, rfl, nofun, fun _ _ => rfl⟩
  | cons reg regs inductionHypothesis =>
      by_cases pointer : reg = ptr_reg
      · subst pointer
        have block :
            (storeRegs xlen reg (reg :: regs) : List (Line Name)) =
              storeRegs xlen reg regs := by
          simp [storeRegs]
        obtain ⟨mode, registers, csrs, stored, other⟩ := @inductionHypothesis machine
        rw [block]
        refine ⟨mode, registers, csrs, ?_, ?_⟩
        · intro found inside apart
          cases inside with
          | head => exact absurd rfl apart
          | tail _ inside => exact stored found inside apart
        · intro address apart
          exact other address fun found inside =>
            apart found (List.mem_cons_of_mem _ inside)
      · have block :
            (storeRegs xlen ptr_reg (reg :: regs) : List (Line Name)) =
              .plain (.store reg (regOffset xlen reg) ptr_reg) ::
                storeRegs xlen ptr_reg regs := by
          simp [storeRegs, pointer]
        obtain ⟨mode, registers, csrs, stored, other⟩ :=
          @inductionHypothesis
            (machine.store (regField (machine.get ptr_reg) reg) (machine.get reg))
        rw [block, effects_cons]
        refine ⟨mode, registers, csrs, ?_, ?_⟩
        · intro found inside apart
          by_cases again : found ∈ regs
          · exact stored found again apart
          · obtain rfl : found = reg := by
              cases inside with
              | head => rfl
              | tail _ inside => exact absurd inside again
            refine (other _ fun later inside _ => ?_).trans (Function.update_self ..)
            exact fun same => again (regField_inj.mp same ▸ inside)
        · intro address apart
          refine (other address fun found inside =>
            apart found (List.mem_cons_of_mem _ inside)).trans ?_
          exact Function.update_of_ne (apart reg List.mem_cons_self pointer) _ _

/-- What the loads of a list of registers do. -/
structure Loaded
    (machine after : Machine xlen.bits) (ptr_reg : Reg) (regs : List Reg) : Prop where
  mode : after.mode = machine.mode
  csrs : after.csrs = machine.csrs
  memory : after.memory = machine.memory
  loaded :
    ∀ reg ∈ regs, reg ≠ ptr_reg → reg ≠ .zero →
      after.get reg = machine.memory (regField (machine.get ptr_reg) reg)
  other : ∀ reg, reg ∉ regs ∨ reg = ptr_reg → after.get reg = machine.get reg

theorem effects_loadRegs
    (regs : List Reg) :
    Loaded machine (effects names (loadRegs xlen ptr_reg regs) machine) ptr_reg
      regs := by
  induction regs generalizing machine with
  | nil => exact ⟨rfl, rfl, rfl, nofun, fun _ _ => rfl⟩
  | cons reg regs inductionHypothesis =>
      by_cases pointer : reg = ptr_reg
      · subst pointer
        have block :
            (loadRegs xlen reg (reg :: regs) : List (Line Name)) =
              loadRegs xlen reg regs := by
          simp [loadRegs]
        obtain ⟨mode, csrs, memory, loaded, other⟩ := @inductionHypothesis machine
        rw [block]
        refine ⟨mode, csrs, memory, ?_, ?_⟩
        · intro found inside apart
          cases inside with
          | head => exact absurd rfl apart
          | tail _ inside => exact loaded found inside apart
        · rintro found (outside | same)
          · exact other found (.inl fun inside =>
              outside (List.mem_cons_of_mem _ inside))
          · exact other found (.inr same)
      · have block :
            (loadRegs xlen ptr_reg (reg :: regs) : List (Line Name)) =
              .plain (.load reg (regOffset xlen reg) ptr_reg) ::
                loadRegs xlen ptr_reg regs := by
          simp [loadRegs, pointer]
        obtain ⟨mode, csrs, memory, loaded, other⟩ :=
          @inductionHypothesis
            (machine.setReg reg
              (machine.memory (regField (machine.get ptr_reg) reg)))
        have kept :
            (machine.setReg reg
              (machine.memory (regField (machine.get ptr_reg) reg))).get ptr_reg =
                machine.get ptr_reg := by
          rw [Machine.get_setReg, if_neg fun both => pointer both.1.symm]
        rw [kept] at loaded
        rw [block, effects_cons]
        refine ⟨mode, csrs, memory, ?_, ?_⟩
        · intro found inside apart wired
          by_cases again : found ∈ regs
          · exact loaded found again apart wired
          · obtain rfl : found = reg := by
              cases inside with
              | head => rfl
              | tail _ inside => exact absurd inside again
            refine (other _ (.inl again)).trans ?_
            rw [Machine.get_setReg, if_pos ⟨rfl, wired⟩]
        · intro found outside
          refine (other found ?_).trans ?_
          · exact outside.imp_left fun absent inside =>
              absent (List.mem_cons_of_mem _ inside)
          · rw [Machine.get_setReg, if_neg]
            rintro ⟨rfl, -⟩
            rcases outside with absent | same
            · exact absent List.mem_cons_self
            · exact pointer same

theorem mem_lowerRegs_or_upperRegs
    {reg : Reg}
    (wired : reg ≠ .zero) :
    reg ∈ lowerRegs ∨ reg ∈ upperRegs := by
  cases reg <;> first | exact absurd rfl wired | decide

theorem zero_not_mem : (.zero : Reg) ∉ lowerRegs ∧ (.zero : Reg) ∉ upperRegs := by
  decide

/-- The entry of the trap handler: the registers of the trapped hart go to the
context in `mscratch`, and `s0` holds its address. -/
def saveContext (Name : Type) (xlen : Xlen) : List (Line Name) :=
  [.plain .sfence_vma,
    .plain .fence_i,
    .plain (.csrrw .s0 .mscratch .s0)] ++
  SAVE_REGS xlen .s0

/-- What the entry of the trap handler does. -/
structure ContextSaved (machine after : Machine xlen.bits) : Prop where
  mode : after.mode = machine.mode
  csrs : after.csrs = machine.csrs
  pointer : after.get .s0 = machine.csrs .mscratch
  saved :
    ∀ reg, reg ≠ .zero →
      after.memory (regField (machine.csrs .mscratch) reg) = machine.get reg
  other :
    ∀ address : Word xlen,
      (∀ reg, reg ≠ .zero → address ≠ regField (machine.csrs .mscratch) reg) →
      after.memory address = machine.memory address

theorem effects_saveContext
    (names : Names Name xlen.bits)
    (machine : Machine xlen.bits) :
    ContextSaved machine (effects names (saveContext Name xlen) machine) := by
  -- `csrrw s0, mscratch, s0`
  have swap :
      effects names
          [.plain .sfence_vma, .plain .fence_i, .plain (.csrrw .s0 .mscratch .s0)]
          machine =
        (machine.setCsr .mscratch (machine.get .s0)).setReg .s0
          (machine.csrs .mscratch) :=
    rfl
  rw [saveContext, SAVE_REGS, effects_append, effects_append, effects_append, swap]
  have pointer :
      ((machine.setCsr .mscratch (machine.get .s0)).setReg .s0
        (machine.csrs .mscratch)).get .s0 = machine.csrs .mscratch := by
    rw [Machine.get_setReg, if_pos (by decide)]
  have others (reg : Reg) (apart : reg ≠ .s0) :
      ((machine.setCsr .mscratch (machine.get .s0)).setReg .s0
        (machine.csrs .mscratch)).get reg = machine.get reg := by
    rw [Machine.get_setReg, if_neg fun both => apart both.1, Machine.get_setCsr]
  have csrs :
      ((machine.setCsr .mscratch (machine.get .s0)).setReg .s0
        (machine.csrs .mscratch)).csrs =
          Function.update machine.csrs .mscratch (machine.get .s0) :=
    rfl
  have memory :
      ((machine.setCsr .mscratch (machine.get .s0)).setReg .s0
        (machine.csrs .mscratch)).memory = machine.memory :=
    rfl
  have mode :
      ((machine.setCsr .mscratch (machine.get .s0)).setReg .s0
        (machine.csrs .mscratch)).mode = machine.mode :=
    rfl
  generalize (machine.setCsr .mscratch (machine.get .s0)).setReg .s0
    (machine.csrs .mscratch) = swapped at *
  have first :
      Stored swapped (effects names (storeRegs xlen .s0 lowerRegs) swapped) .s0
        lowerRegs :=
    effects_storeRegs lowerRegs
  generalize effects names (storeRegs xlen .s0 lowerRegs) swapped = lower at first ⊢
  have second :
      Stored lower (effects names (storeRegs xlen .s0 upperRegs) lower) .s0
        upperRegs :=
    effects_storeRegs upperRegs
  generalize effects names (storeRegs xlen .s0 upperRegs) lower = upper at second ⊢
  have lowerGet (reg : Reg) : lower.get reg = swapped.get reg :=
    congrArg (Registers.get · reg) first.registers
  have upperGet (reg : Reg) : upper.get reg = swapped.get reg :=
    (congrArg (Registers.get · reg) second.registers).trans (lowerGet reg)
  have upperCsrs :
      upper.csrs = Function.update machine.csrs .mscratch (machine.get .s0) :=
    (second.csrs.trans first.csrs).trans csrs
  -- `csrrw x1, mscratch, s0` and the store of `x1`
  have last :
      effects names
          [.plain (.csrrw .ra .mscratch .s0),
            .plain (.store .ra (regOffset xlen .s0) .s0)] upper =
        ((upper.setCsr .mscratch (machine.csrs .mscratch)).setReg .ra
          (machine.get .s0)).store
            (regField (machine.csrs .mscratch) .s0) (machine.get .s0) := by
    have base : upper.get .s0 = machine.csrs .mscratch :=
      (upperGet .s0).trans pointer
    have scratch : upper.csrs .mscratch = machine.get .s0 := by
      rw [upperCsrs, Function.update_self]
    simp only [effects_cons, effects_nil, Line.plain, PrivInstr.effect, base, scratch,
      Machine.get_setReg, Machine.get_setCsr]
    rfl
  simp only [reduceCtorEq, if_false]
  rw [last]
  refine ⟨(second.mode.trans first.mode).trans mode, ?_, ?_, ?_, ?_⟩
  · simp only [Machine.csrs_store, Machine.csrs_setReg, Machine.csrs_setCsr,
      upperCsrs, Function.update_idem, Function.update_eq_self]
  · rw [Machine.get_store, Machine.get_setReg, if_neg (by decide), Machine.get_setCsr,
      upperGet, pointer]
  · intro reg wired
    simp only [Machine.memory_store, Machine.memory_setReg, Machine.memory_setCsr]
    by_cases own : reg = .s0
    · subst own
      exact Function.update_self ..
    · rw [Function.update_of_ne fun same => own (regField_inj.mp same)]
      rw [← pointer]
      by_cases inside : reg ∈ upperRegs
      · have stored := second.stored reg inside own
        rw [lowerGet, lowerGet] at stored
        rw [stored, others reg own]
      · have inLower := (mem_lowerRegs_or_upperRegs wired).resolve_right inside
        have stored := first.stored reg inLower own
        rw [second.other, stored, others reg own]
        intro later laterInside _ same
        rw [lowerGet] at same
        exact inside (regField_inj.mp same ▸ laterInside)
  · intro address apart
    simp only [Machine.memory_store, Machine.memory_setReg, Machine.memory_setCsr]
    have wired {reg : Reg} (inside : reg ∈ lowerRegs ∨ reg ∈ upperRegs) :
        reg ≠ .zero := by
      rintro rfl
      exact inside.elim zero_not_mem.1 zero_not_mem.2
    rw [Function.update_of_ne (apart .s0 (by decide)), second.other, first.other, memory]
    · intro reg inside _
      rw [pointer]
      exact apart reg (wired (.inl inside))
    · intro reg inside _
      rw [lowerGet, pointer]
      exact apart reg (wired (.inr inside))

/-- What the end of a trap does: all registers are taken from the context in
`a0`. -/
structure ContextLoaded (machine after : Machine xlen.bits) : Prop where
  mode : after.mode = machine.mode
  csrs : after.csrs = machine.csrs
  memory : after.memory = machine.memory
  loaded :
    ∀ reg, reg ≠ .zero →
      after.get reg = machine.memory (regField (machine.get .a0) reg)

theorem effects_LOAD_REGS
    (machine : Machine xlen.bits) :
    ContextLoaded machine (effects names (LOAD_REGS xlen .a0) machine) := by
  rw [LOAD_REGS, effects_append, effects_append]
  have first :
      Loaded machine (effects names (loadRegs xlen .a0 lowerRegs) machine) .a0
        lowerRegs :=
    effects_loadRegs lowerRegs
  generalize effects names (loadRegs xlen .a0 lowerRegs) machine = lower at first ⊢
  have second :
      Loaded lower (effects names (loadRegs xlen .a0 upperRegs) lower) .a0
        upperRegs :=
    effects_loadRegs upperRegs
  generalize effects names (loadRegs xlen .a0 upperRegs) lower = upper at second ⊢
  have lowerBase : lower.get .a0 = machine.get .a0 := first.other .a0 (.inr rfl)
  have upperBase : upper.get .a0 = machine.get .a0 :=
    (second.other .a0 (.inr rfl)).trans lowerBase
  have upperMemory : upper.memory = machine.memory :=
    second.memory.trans first.memory
  refine ⟨second.mode.trans first.mode, second.csrs.trans first.csrs, upperMemory,
    fun reg wired => ?_⟩
  refine (Machine.get_setReg ..).trans ?_
  split_ifs with pointer
  · rw [pointer.1, upperMemory, upperBase]
    rfl
  · have apart : reg ≠ .a0 := fun same => pointer ⟨same, nofun⟩
    by_cases inside : reg ∈ upperRegs
    · rw [second.loaded reg inside apart wired, lowerBase, first.memory]
    · have inLower := (mem_lowerRegs_or_upperRegs wired).resolve_right inside
      rw [second.other reg (.inl inside), first.loaded reg inLower apart wired]

end Blocks

end Traps
end EchelonSbi
