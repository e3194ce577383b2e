import EchelonSbi.Foundation.ByteMemory
import EchelonSbi.Riscv.Privileged

/-!
# Code that may trap, and may write code

A hart in M-mode with a memory of bytes.  Every access is allowed or traps, and
so does every instruction outside the listing, which is fetched from memory.  A
fetch need not see what the hart stored before, unless the platform is coherent.
The instructions of privileged code act on the words in memory.
-/

namespace EchelonSbi
namespace Riscv

open Foundation

/-- A hart in M-mode, and memory. -/
structure ByteMachine (w : Nat) where
  registers : Registers w
  csrs : Csr → BitVec w
  memory : ByteMemory w

/-- A hart about to execute the instruction at `pc`. -/
structure ByteConfig (w : Nat) where
  pc : BitVec w
  machine : ByteMachine w

namespace ByteMachine

variable (machine : ByteMachine w)

def get (reg : Reg) : BitVec w :=
  machine.registers.get reg

def setReg (reg : Reg) (value : BitVec w) : ByteMachine w :=
  { machine with registers := machine.registers.set reg value }

def setCsr (csr : Csr) (value : BitVec w) : ByteMachine w :=
  { machine with csrs := Function.update machine.csrs csr value }

def store (address : BitVec w) (size : Nat) (value : BitVec w) : ByteMachine w :=
  { machine with memory := machine.memory.store address size value }

/-- The hart with its memory as words. -/
def view : Machine w where
  mode := .M
  registers := machine.registers
  csrs := machine.csrs
  memory address := machine.memory.load address (w / 8)

/-- Take the registers of a machine of words. -/
def lift (words : Machine w) : ByteMachine w where
  registers := words.registers
  csrs := words.csrs
  memory := machine.memory

section Simp

variable (reg other : Reg) (csr : Csr) (address value : BitVec w) (size : Nat)
  (words : Machine w)

@[simp] theorem get_view : machine.view.get reg = machine.get reg := rfl

@[simp] theorem csrs_view : machine.view.csrs = machine.csrs := rfl

@[simp] theorem get_lift : (machine.lift words).get reg = words.get reg := rfl

@[simp] theorem csrs_lift : (machine.lift words).csrs = words.csrs := rfl

@[simp] theorem memory_lift : (machine.lift words).memory = machine.memory := rfl

@[simp] theorem get_setReg :
    (machine.setReg reg value).get other =
      if other = reg ∧ reg ≠ .zero then value else machine.get other :=
  Registers.get_set ..

@[simp] theorem csrs_setReg : (machine.setReg reg value).csrs = machine.csrs := rfl

@[simp] theorem memory_setReg :
    (machine.setReg reg value).memory = machine.memory := rfl

@[simp] theorem get_setCsr : (machine.setCsr csr value).get other = machine.get other :=
  rfl

@[simp] theorem csrs_setCsr :
    (machine.setCsr csr value).csrs = Function.update machine.csrs csr value := rfl

@[simp] theorem memory_setCsr : (machine.setCsr csr value).memory = machine.memory :=
  rfl

@[simp] theorem get_store :
    (machine.store address size value).get other = machine.get other := rfl

@[simp] theorem csrs_store :
    (machine.store address size value).csrs = machine.csrs := rfl

@[simp] theorem memory_store :
    (machine.store address size value).memory =
      machine.memory.store address size value := rfl

end Simp

end ByteMachine

/-- An instruction of code with a memory of bytes. -/
inductive ByteInstr (Name : Type) where
  /-- An instruction of privileged code, with loads and stores of words. -/
  | priv (instr : PrivInstr Name)
  | loadBytes (size : Nat) (rd : Reg) (offset : Int) (base : Reg)
  | storeBytes (size : Nat) (rs : Reg) (offset : Int) (base : Reg)
  | csrrci (rd : Reg) (csr : Csr) (imm : Nat)
  /-- `lui rd, %tprel_hi(name)`. -/
  | lui_tprel (rd : Reg) (name : Name)
  /-- A store at `%tprel_lo(name)`. -/
  | store_tprel (rs : Reg) (name : Name) (base : Reg)
  /-- `jalr zero, offset(base)`. -/
  | jalr (offset : Int) (base : Reg)

/-- An instruction that was fetched from memory. -/
inductive Fetched where
  /-- `csrrc zero, csr, zero`. -/
  | csrrc (csr : BitVec 12)
  /-- `jalr zero, offset(base)`. -/
  | jalr (offset : BitVec 12) (base : BitVec 5)
  deriving DecidableEq, Repr

namespace Fetched

/-- The fields of `csrrc zero, csr, zero` below the number of the register. -/
def csrrcFields : BitVec 20 :=
  0#5 ++ 3#3 ++ 0#5 ++ 0x73#7

/-- The fields of `jalr zero, offset(base)` below the base. -/
def jalrFields : BitVec 15 :=
  0#3 ++ 0#5 ++ 0x67#7

/-- The encoding of an instruction. -/
def encode : Fetched → BitVec 32
  | .csrrc csr => csr ++ csrrcFields
  | .jalr offset base => offset ++ (base ++ jalrFields)

/-- The instruction with an encoding, if it is one of these. -/
def decode (word : BitVec 32) : Option Fetched :=
  if word.extractLsb' 0 20 = csrrcFields then
    some (.csrrc (word.extractLsb' 20 12))
  else if word.extractLsb' 0 15 = jalrFields then
    some (.jalr (word.extractLsb' 20 12) (word.extractLsb' 15 5))
  else none

theorem jalrFields_differ : ∀ base : BitVec 5, base ++ jalrFields ≠ csrrcFields := by
  decide

theorem decode_encode (fetched : Fetched) : decode fetched.encode = some fetched := by
  cases fetched with
  | csrrc csr =>
      have fields : (csr ++ csrrcFields).extractLsb' 0 20 = csrrcFields :=
        BitVec.extractLsb'_append_eq_right
      have number : (csr ++ csrrcFields).extractLsb' 20 12 = csr :=
        BitVec.extractLsb'_append_eq_left
      rw [decode, encode, if_pos fields, number]
  | jalr offset base =>
      have lower : (offset ++ (base ++ jalrFields)).extractLsb' 0 20 =
          base ++ jalrFields :=
        BitVec.extractLsb'_append_eq_right
      have fields : (offset ++ (base ++ jalrFields)).extractLsb' 0 15 =
          jalrFields := by
        rw [BitVec.extractLsb'_append_eq_of_add_le (by decide)]
        exact BitVec.extractLsb'_append_eq_right
      have register : (offset ++ (base ++ jalrFields)).extractLsb' 15 5 = base := by
        rw [BitVec.extractLsb'_append_eq_of_add_le (by decide)]
        exact BitVec.extractLsb'_append_eq_left
      have number : (offset ++ (base ++ jalrFields)).extractLsb' 20 12 = offset :=
        BitVec.extractLsb'_append_eq_left
      rw [decode, encode, lower, if_neg (jalrFields_differ base), if_pos fields, number,
        register]

end Fetched

/-- The register with a number. -/
def Reg.ofNumber (number : BitVec 5) : Reg :=
  Reg.ofNat number.toNat

/-- What a hart and the memory around it allow. -/
structure Platform (w : Nat) where
  loads : BitVec w → Nat → Bool
  stores : BitVec w → Nat → Bool
  /-- The four bytes at an address can be executed. -/
  executes : BitVec w → Bool
  /-- The instruction that a fetch at an address gets, when the hart has stored the
  memory. -/
  fetches : ByteMemory w → BitVec w → BitVec 32
  /-- Reading a control and status register does not trap. -/
  implements : BitVec 12 → Bool
  /-- `mcause` and `mtval` of a trap. -/
  cause : ByteConfig w → BitVec w
  tval : ByteConfig w → BitVec w

/-- A fetch sees what the hart stored before, without a `fence.i`. -/
def Platform.Coherent (platform : Platform w) : Prop :=
  ∀ memory address, platform.fetches memory address = memory.bytes address 4

/-- An access of an instruction. -/
inductive Access (w : Nat) where
  | load (address : BitVec w) (size : Nat)
  | store (address : BitVec w) (size : Nat)

/-- The access does not trap. -/
def Platform.permits (platform : Platform w) : Option (Access w) → Bool
  | none => true
  | some (.load address size) => platform.loads address size
  | some (.store address size) => platform.stores address size

/-- A line with the labels in front of it. -/
structure ByteLine (Name : Type) where
  labels : List Nat
  instr : ByteInstr Name

/-- A line of privileged code. -/
def Line.toBytes (line : Line Name) : ByteLine Name :=
  ⟨line.labels, .priv line.instr⟩

/-- A listing with the address of each of its lines, and of what it names. -/
structure ByteProgram (Name : Type) (w : Nat) where
  lines : List (ByteLine Name)
  names : Names Name w
  /-- The offsets of thread-local names, and their lower parts. -/
  tprel : Name → BitVec w
  tprel_lo : Name → BitVec w
  place : Nat → BitVec w
  lineAt : BitVec w → Option Nat
  lineAt_place : ∀ {line}, line < lines.length → lineAt (place line) = some line

namespace ByteInstr

variable (program : ByteProgram Name w) (machine : ByteMachine w)

/-- The access of an instruction. -/
def access : ByteInstr Name → Option (Access w)
  | .priv (.load _ offset base) =>
      some (.load (machine.get base + BitVec.ofNat w offset) (w / 8))
  | .priv (.store _ offset base) =>
      some (.store (machine.get base + BitVec.ofNat w offset) (w / 8))
  | .priv (.load_lo _ name base) =>
      some (.load (machine.get base + program.names.pcrel_lo name) (w / 8))
  | .loadBytes size _ offset base =>
      some (.load (machine.get base + BitVec.ofInt w offset) size)
  | .storeBytes size _ offset base =>
      some (.store (machine.get base + BitVec.ofInt w offset) size)
  | .store_tprel _ name base =>
      some (.store (machine.get base + program.tprel_lo name) (w / 8))
  | _ => none

/-- What an instruction on a line does, apart from a jump. -/
def effect (line : Nat) : ByteInstr Name → ByteMachine w
  | .priv (.call _) => machine.setReg .ra (program.place (line + 1))
  | .priv (.store rs offset base) =>
      machine.store (machine.get base + BitVec.ofNat w offset) (w / 8) (machine.get rs)
  | .priv instr => machine.lift (instr.effect program.names machine.view)
  | .loadBytes size rd offset base =>
      machine.setReg rd
        (machine.memory.load (machine.get base + BitVec.ofInt w offset) size)
  | .storeBytes size rs offset base =>
      machine.store (machine.get base + BitVec.ofInt w offset) size (machine.get rs)
  | .csrrci rd csr imm =>
      (machine.setCsr csr (machine.csrs csr &&& ~~~BitVec.ofNat w imm)).setReg rd
        (machine.csrs csr)
  | .lui_tprel rd name =>
      machine.setReg rd (program.tprel name - program.tprel_lo name)
  | .store_tprel rs name base =>
      machine.store (machine.get base + program.tprel_lo name) (w / 8) (machine.get rs)
  | .jalr _ _ => machine

section Simp

variable (line : Nat) (rd rs base other : Reg) (imm : Int) (shamt offset size : Nat)
  (csr : Csr) (name : Name)

@[simp] theorem effect_li :
    (priv (.int (.li rd imm))).effect program machine line =
      machine.setReg rd (BitVec.ofInt w imm) := rfl

@[simp] theorem effect_add :
    (priv (.int (.add rd rs other))).effect program machine line =
      machine.setReg rd (machine.get rs + machine.get other) := rfl

@[simp] theorem effect_or :
    (priv (.int (.or rd rs other))).effect program machine line =
      machine.setReg rd (machine.get rs ||| machine.get other) := rfl

@[simp] theorem effect_addi :
    (priv (.int (.addi rd rs imm))).effect program machine line =
      machine.setReg rd (machine.get rs + BitVec.ofInt w imm) := rfl

@[simp] theorem effect_andi :
    (priv (.int (.andi rd rs imm))).effect program machine line =
      machine.setReg rd (machine.get rs &&& BitVec.ofInt w imm) := rfl

@[simp] theorem effect_slli :
    (priv (.int (.slli rd rs shamt))).effect program machine line =
      machine.setReg rd (machine.get rs <<< shamt) := rfl

@[simp] theorem effect_srli :
    (priv (.int (.srli rd rs shamt))).effect program machine line =
      machine.setReg rd (machine.get rs >>> shamt) := rfl

@[simp] theorem effect_load :
    (priv (.load rd offset base)).effect program machine line =
      machine.setReg rd
        (machine.memory.load (machine.get base + BitVec.ofNat w offset) (w / 8)) := rfl

@[simp] theorem effect_store :
    (priv (.store rs offset base)).effect program machine line =
      machine.store (machine.get base + BitVec.ofNat w offset) (w / 8)
        (machine.get rs) := rfl

@[simp] theorem effect_auipc :
    (priv (.auipc rd name)).effect program machine line =
      machine.setReg rd
        (program.names.address name - program.names.pcrel_lo name) := rfl

@[simp] theorem effect_addi_lo :
    (priv (.addi_lo rd rs name)).effect program machine line =
      machine.setReg rd (machine.get rs + program.names.pcrel_lo name) := rfl

@[simp] theorem effect_load_lo :
    (priv (.load_lo rd name base)).effect program machine line =
      machine.setReg rd (machine.memory.load
        (machine.get base + program.names.pcrel_lo name) (w / 8)) := rfl

@[simp] theorem effect_csrr :
    (priv (.csrr rd csr)).effect program machine line =
      machine.setReg rd (machine.csrs csr) := rfl

@[simp] theorem effect_csrw :
    (priv (.csrw csr rs)).effect program machine line =
      machine.setCsr csr (machine.get rs) := rfl

@[simp] theorem effect_csrrw :
    (priv (.csrrw rd csr rs)).effect program machine line =
      (machine.setCsr csr (machine.get rs)).setReg rd (machine.csrs csr) := rfl

@[simp] theorem effect_sfence_vma :
    (priv .sfence_vma).effect program machine line = machine := rfl

@[simp] theorem effect_fence_i :
    (priv .fence_i).effect program machine line = machine := rfl

@[simp] theorem effect_call :
    (priv (.call name)).effect program machine line =
      machine.setReg .ra (program.place (line + 1)) := rfl

@[simp] theorem effect_loadBytes :
    (loadBytes size rd imm base).effect program machine line =
      machine.setReg rd
        (machine.memory.load (machine.get base + BitVec.ofInt w imm) size) := rfl

@[simp] theorem effect_storeBytes :
    (storeBytes size rs imm base).effect program machine line =
      machine.store (machine.get base + BitVec.ofInt w imm) size (machine.get rs) := rfl

@[simp] theorem effect_csrrci :
    (csrrci rd csr size).effect program machine line =
      (machine.setCsr csr (machine.csrs csr &&& ~~~BitVec.ofNat w size)).setReg rd
        (machine.csrs csr) := rfl

@[simp] theorem effect_lui_tprel :
    (lui_tprel rd name).effect program machine line =
      machine.setReg rd (program.tprel name - program.tprel_lo name) := rfl

@[simp] theorem effect_store_tprel :
    (store_tprel rs name base).effect program machine line =
      machine.store (machine.get base + program.tprel_lo name) (w / 8)
        (machine.get rs) := rfl

end Simp

end ByteInstr

namespace ByteProgram

/-- The line that a reference on line `line` stands for. -/
def resolve (lines : List (ByteLine Name)) (line : Nat) : Target → Option Nat
  | .f label =>
      ((lines.drop (line + 1)).findIdx? (label ∈ ·.labels)).map (line + 1 + ·)
  | .b label =>
      ((lines.take (line + 1)).reverse.findIdx? (label ∈ ·.labels)).map (line - ·)

variable (platform : Platform w) (program : ByteProgram Name w)

/-- Where the hart goes from a line; nowhere in the code at `mret`. -/
def follow (line : Nat) (machine : ByteMachine w) : ByteInstr Name → Option (BitVec w)
  | .priv (.call name) => some (program.names.address name)
  | .priv (.jump name) => some (program.names.address name)
  | .priv .mret => none
  | .priv (.int .ret) => some (machine.get .ra)
  | .priv instr =>
      match instr.jumps machine.view with
      | none => some (program.place (line + 1))
      | some target => (resolve program.lines line target).map program.place
  -- the lowest bit of the target is cleared
  | .jalr offset base => some ((machine.get base + BitVec.ofInt w offset) &&& ~~~1)
  | _ => some (program.place (line + 1))

/-- A trap into M-mode from M-mode. -/
def trap (config : ByteConfig w) : ByteConfig w :=
  let trapped := config.machine.view.trap config.pc (platform.cause config)
    (platform.tval config)
  ⟨trapped.pc, config.machine.lift trapped.machine⟩

/-- Execute a line. -/
def execute
    (line : Nat) (instr : ByteInstr Name) (config : ByteConfig w) :
    Option (ByteConfig w) :=
  if platform.permits (instr.access program config.machine) then
    (program.follow line config.machine instr).map
      (⟨·, instr.effect program config.machine line⟩)
  else some (trap platform config)

/-- Execute an instruction that was fetched from memory. -/
def executeFetched (config : ByteConfig w) : Fetched → ByteConfig w
  | .csrrc csr =>
      if platform.implements csr then ⟨config.pc + 4, config.machine⟩
      else trap platform config
  | .jalr offset base =>
      ⟨(config.machine.get (.ofNumber base) + offset.signExtend w) &&& ~~~1,
        config.machine⟩

/-- Execute what is at the program counter. -/
def next (config : ByteConfig w) : Option (ByteConfig w) :=
  match program.lineAt config.pc with
  | some line =>
      match program.lines[line]? with
      | none => none
      | some { instr, .. } => program.execute platform line instr config
  | none =>
      if platform.executes config.pc then
        (Fetched.decode (platform.fetches config.machine.memory config.pc)).map
          (executeFetched platform config)
      else some (trap platform config)

end ByteProgram

/-- The instruction goes on with the next line. -/
def ByteInstr.falls : ByteInstr Name → Bool
  | .priv (.int instr) =>
      match instr with
      | .label _ | .beqz _ _ | .bnez _ _ | .bgez _ _ | .beq _ _ _ | .bne _ _ _
      | .bltu _ _ _ | .bgeu _ _ _ | .j _ | .ret => false
      | _ => true
  | .priv (.bge _ _ _) | .priv (.call _) | .priv (.jump _) | .priv .mret => false
  | .jalr _ _ => false
  | _ => true

/-- The bytes that an instruction writes. -/
def ByteInstr.writes
    (platform : Platform w) (program : ByteProgram Name w) (machine : ByteMachine w)
    (instr : ByteInstr Name) : Set (BitVec w) :=
  match instr.access program machine with
  | some (.store address size) =>
      if platform.stores address size then ByteMemory.span address size else ∅
  | _ => ∅

namespace ByteProgram

variable (platform : Platform w) (program : ByteProgram Name w)

/-- The bytes that the next instruction writes. -/
def writes (config : ByteConfig w) : Set (BitVec w) :=
  match program.lineAt config.pc with
  | none => ∅
  | some line =>
      match program.lines[line]? with
      | none => ∅
      | some { instr, .. } => instr.writes platform program config.machine

/-- A step that is not taken at `stop` and writes only in `writable`. -/
structure Step
    (stop writable : Set (BitVec w)) (config after : ByteConfig w) : Prop where
  running : config.pc ∉ stop
  within : program.writes platform config ⊆ writable
  steps : program.next platform config = some after

/-- Steps up to `stop` that write only in `writable`. -/
abbrev Reaches (stop writable : Set (BitVec w)) :
    ByteConfig w → ByteConfig w → Prop :=
  Relation.ReflTransGen (program.Step platform stop writable)

/-- The lines from `line` on begin with `block`. -/
def HoldsAt (line : Nat) (block : List (ByteLine Name)) : Prop :=
  ∃ rest, program.lines.drop line = block ++ rest

/-- What a block of lines does that fall through. -/
def effects (block : List (ByteLine Name)) (machine : ByteMachine w) : ByteMachine w :=
  block.foldl (fun machine line => line.instr.effect program machine 0) machine

@[simp] theorem effects_nil (machine : ByteMachine w) :
    program.effects [] machine = machine := rfl

@[simp] theorem effects_cons
    (line : ByteLine Name)
    (block : List (ByteLine Name))
    (machine : ByteMachine w) :
    program.effects (line :: block) machine =
      program.effects block (line.instr.effect program machine 0) := rfl

/-- No line of a block traps, and all writes are in `writable`. -/
def Allowed (writable : Set (BitVec w)) :
    List (ByteLine Name) → ByteMachine w → Prop
  | [], _ => True
  | line :: block, machine =>
      platform.permits (line.instr.access program machine) = true ∧
        line.instr.writes platform program machine ⊆ writable ∧
          Allowed writable block (line.instr.effect program machine 0)

section Paths

variable {platform program} {line : Nat} {block rest : List (ByteLine Name)}
  {machine : ByteMachine w} {labels : List Nat} {instr : ByteInstr Name}
  {stop writable : Set (BitVec w)} {config after last : ByteConfig w}

theorem HoldsAt.left
    (holds : program.HoldsAt line (block ++ rest)) :
    program.HoldsAt line block := by
  obtain ⟨behind, found⟩ := holds
  exact ⟨rest ++ behind, by rw [found, List.append_assoc]⟩

theorem HoldsAt.right
    (holds : program.HoldsAt line (block ++ rest)) :
    program.HoldsAt (line + block.length) rest := by
  obtain ⟨behind, found⟩ := holds
  refine ⟨behind, ?_⟩
  rw [← List.drop_drop, found, List.append_assoc, List.drop_left]

theorem HoldsAt.getElem?
    (holds : program.HoldsAt line (⟨labels, instr⟩ :: rest)) :
    program.lines[line]? = some ⟨labels, instr⟩ := by
  obtain ⟨behind, found⟩ := holds
  have first := congrArg (·[0]?) found
  simpa using first

theorem HoldsAt.tail
    {first : ByteLine Name}
    (holds : program.HoldsAt line (first :: rest)) :
    program.HoldsAt (line + 1) rest :=
  HoldsAt.right (show program.HoldsAt line ([first] ++ rest) from holds)

section Fetched

variable (fetched : program.lines[line]? = some ⟨labels, instr⟩)
include fetched

theorem lineAt_of_getElem? : program.lineAt (program.place line) = some line := by
  obtain ⟨inside, -⟩ := List.getElem?_eq_some_iff.mp fetched
  exact program.lineAt_place inside

theorem next_of_getElem? :
    program.next platform ⟨program.place line, machine⟩ =
      program.execute platform line instr ⟨program.place line, machine⟩ := by
  simp only [next, lineAt_of_getElem? fetched, fetched]

theorem writes_of_getElem? :
    program.writes platform ⟨program.place line, machine⟩ =
      instr.writes platform program machine := by
  simp only [writes, lineAt_of_getElem? fetched, fetched]

/-- A line that does not trap. -/
theorem Step.of_line
    {dest : BitVec w}
    (running : program.place line ∉ stop)
    (permitted : platform.permits (instr.access program machine) = true)
    (within : instr.writes platform program machine ⊆ writable)
    (follows : program.follow line machine instr = some dest) :
    program.Step platform stop writable ⟨program.place line, machine⟩
      ⟨dest, instr.effect program machine line⟩ := by
  refine ⟨running, ?_, ?_⟩
  · rwa [writes_of_getElem? fetched]
  · rw [next_of_getElem? fetched, execute, if_pos permitted, follows, Option.map_some]

/-- A line that traps. -/
theorem Step.of_trap
    (running : program.place line ∉ stop)
    (refused : platform.permits (instr.access program machine) = false) :
    program.Step platform stop writable ⟨program.place line, machine⟩
      (trap platform ⟨program.place line, machine⟩) := by
  refine ⟨running, ?_, ?_⟩
  · rw [writes_of_getElem? fetched, ByteInstr.writes]
    split
    · next address size stores =>
        rw [stores, Platform.permits] at refused
        rw [if_neg (by rw [refused]; decide)]
        exact Set.empty_subset _
    · exact Set.empty_subset _
  · rw [next_of_getElem? fetched, execute, if_neg (by rw [refused]; decide)]

end Fetched

section Memory

variable {pc : BitVec w} (outside : program.lineAt pc = none) (running : pc ∉ stop)
include outside running

/-- An instruction that is fetched from memory. -/
theorem Step.of_memory
    {instr : Fetched}
    (coherent : platform.Coherent)
    (executes : platform.executes pc = true)
    (holds : machine.memory.bytes pc 4 = instr.encode) :
    program.Step platform stop writable ⟨pc, machine⟩
      (executeFetched platform ⟨pc, machine⟩ instr) := by
  refine ⟨running, ?_, ?_⟩
  · simp [writes, outside]
  · simp only [next, outside, executes, if_true, coherent machine.memory pc, holds,
      Fetched.decode_encode, Option.map_some]

/-- A fetch that traps. -/
theorem Step.of_refused
    (refused : platform.executes pc = false) :
    program.Step platform stop writable ⟨pc, machine⟩ (trap platform ⟨pc, machine⟩) := by
  refine ⟨running, ?_, ?_⟩
  · simp [writes, outside]
  · simp [next, outside, refused]

end Memory

theorem follow_of_falls
    (falls : instr.falls = true) :
    program.follow line machine instr = some (program.place (line + 1)) := by
  cases instr with
  | priv instr =>
      cases instr with
      | int instr => cases instr <;> first | rfl | cases falls
      | bge rs1 rs2 target => cases falls
      | call name => cases falls
      | jump name => cases falls
      | mret => cases falls
      | _ => rfl
  | jalr offset base => cases falls
  | _ => rfl

/-- A branch that is taken. -/
theorem follow_of_jump
    {instr : PrivInstr Name}
    {target : Target}
    {dest : Nat}
    (jumps : instr.jumps machine.view = some target)
    (resolves : resolve program.lines line target = some dest) :
    program.follow line machine (.priv instr) = some (program.place dest) := by
  have goes : (resolve program.lines line target).map program.place =
      some (program.place dest) := by
    rw [resolves, Option.map_some]
  cases instr with
  | int instr =>
      cases instr with
      | ret => cases jumps
      | _ => simpa only [follow, jumps] using goes
  | call name => cases jumps
  | jump name => cases jumps
  | mret => cases jumps
  | _ => simpa only [follow, jumps] using goes

/-- A branch that is not taken. -/
theorem follow_of_stay
    {instr : Instr}
    (stays : instr.jumps machine.registers = none)
    (inside : instr ≠ .ret) :
    program.follow line machine (.priv (.int instr)) =
      some (program.place (line + 1)) := by
  have jumps : (PrivInstr.int instr : PrivInstr Name).jumps machine.view = none := stays
  cases instr with
  | ret => exact absurd rfl inside
  | _ => simp only [follow, jumps]

/-- Only a call depends on its line. -/
theorem effect_of_falls
    (falls : instr.falls = true) :
    instr.effect program machine line = instr.effect program machine 0 := by
  cases instr with
  | priv instr =>
      cases instr with
      | call name => cases falls
      | _ => rfl
  | _ => rfl

/-- The lines of a block are executed one after the other. -/
theorem Reaches.lines
    (block : List (ByteLine Name))
    (holds : program.HoldsAt line block)
    (falls : block.all (·.instr.falls) = true)
    (running : ∀ index < block.length, program.place (line + index) ∉ stop)
    (allowed : program.Allowed platform writable block machine) :
    program.Reaches platform stop writable ⟨program.place line, machine⟩
      ⟨program.place (line + block.length), program.effects block machine⟩ := by
  induction block generalizing line machine with
  | nil => exact .refl
  | cons first block inductionHypothesis =>
      obtain ⟨labels, instr⟩ := first
      rw [List.all_cons, Bool.and_eq_true] at falls
      obtain ⟨permitted, within, later⟩ := allowed
      have here := running 0 (by simp)
      have step := Step.of_line holds.getElem? here permitted within
        (follow_of_falls falls.1)
      rw [effect_of_falls falls.1] at step
      have behind := inductionHypothesis holds.tail falls.2
        (fun index inside => by
          rw [Nat.add_assoc, Nat.add_comm 1]
          exact running (index + 1) (by simpa using inside)) later
      rw [List.length_cons, Nat.add_comm block.length, ← Nat.add_assoc]
      exact .head step behind

/-- The run is the only one. -/
theorem Step.unique
    {other : ByteConfig w}
    (first : program.Step platform stop writable config after)
    (second : program.next platform config = some other) :
    after = other :=
  Option.some.inj (first.steps.symm.trans second)

/-- A run that ends at `stop` is the whole run: what comes before the end writes
only in `writable`, and no run ends elsewhere. -/
theorem Reaches.whole
    {anywhere : Set (BitVec w)}
    (path : program.Reaches platform stop writable config last)
    (ended : last.pc ∈ stop)
    (other : program.Reaches platform stop anywhere config after) :
    program.Reaches platform stop writable after last ∧
      (after.pc ∉ stop → program.writes platform after ⊆ writable) := by
  induction other with
  | refl =>
      refine ⟨path, fun running => ?_⟩
      rcases path.cases_head with rfl | ⟨next, step, -⟩
      · exact absurd ended running
      · exact step.within
  | tail _ step inductionHypothesis =>
      obtain ⟨behind, -⟩ := inductionHypothesis
      rcases behind.cases_head with rfl | ⟨next, first, rest⟩
      · exact absurd ended step.running
      · obtain rfl := first.unique step.steps
        refine ⟨rest, fun running => ?_⟩
        rcases rest.cases_head with rfl | ⟨_, later, -⟩
        · exact absurd ended running
        · exact later.within

/-- Two runs that end at `stop` end in the same way. -/
theorem Reaches.same_end
    {anywhere : Set (BitVec w)}
    (path : program.Reaches platform stop writable config last)
    (ended : last.pc ∈ stop)
    (other : program.Reaches platform stop anywhere config after)
    (endedToo : after.pc ∈ stop) :
    after = last := by
  obtain ⟨behind, -⟩ := path.whole ended other
  rcases behind.cases_head with same | ⟨_, step, -⟩
  · exact same
  · exact absurd endedToo step.running

/-- Less to stop at, and more to write. -/
theorem Reaches.mono
    {fewer more : Set (BitVec w)}
    (stops : fewer ⊆ stop)
    (writes : writable ⊆ more)
    (path : program.Reaches platform stop writable config after) :
    program.Reaches platform fewer more config after := by
  refine Relation.ReflTransGen.mono (fun first second step => ?_) _ _ path
  exact ⟨fun ended => step.running (stops ended), step.within.trans writes, step.steps⟩

end Paths

end ByteProgram

end Riscv
end EchelonSbi
