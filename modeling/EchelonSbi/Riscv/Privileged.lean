import EchelonSbi.Riscv.Base

/-!
# Privileged code

Straight code, branches and traps of a hart with its control and status
registers and a memory of register-sized words.  A program is a list of lines
with numeric local labels and an address for each line.  The lines of a block
that neither jumps nor writes `mstatus` are executed one after the other; in
M-mode with interrupts off nothing else can happen in between.
-/

namespace EchelonSbi
namespace Riscv

/-- The privilege modes. -/
inductive Mode where
  | U
  | S
  | M
  deriving DecidableEq, Repr

namespace Mode

/-- The encoding of a mode in a field. -/
def bits : Mode → Nat
  | .U => 0
  | .S => 1
  | .M => 3

/-- The upper bit of the encoding. -/
def high : Mode → Bool
  | .M => true
  | _ => false

/-- The lower bit of the encoding. -/
def low : Mode → Bool
  | .U => false
  | _ => true

/-- The mode with an encoding. -/
def ofBits : Bool → Bool → Mode
  | false, false => .U
  | false, true => .S
  | true, _ => .M

@[simp] theorem ofBits_high_low (mode : Mode) :
    ofBits mode.high mode.low = mode := by
  cases mode <;> rfl

end Mode

/-- Write a bit of a register. -/
def setBit (word : BitVec w) (bit : Nat) (value : Bool) : BitVec w :=
  if value then word ||| BitVec.twoPow w bit
  else word &&& ~~~BitVec.twoPow w bit

@[simp] theorem getLsbD_setBit
    (word : BitVec w)
    (bit other : Nat)
    (value : Bool) :
    (setBit word bit value).getLsbD other =
      if other = bit then decide (other < w) && value else word.getLsbD other := by
  unfold setBit
  by_cases inside : other < w
  · cases value
    · by_cases same : other = bit
      · simp [same, same ▸ inside]
      · simp [same, inside]
    · by_cases same : other = bit
      · simp [same, same ▸ inside]
      · simp [same, Ne.symm same]
  · have outside := BitVec.getLsbD_of_ge word other (Nat.le_of_not_lt inside)
    cases value <;> simp [inside, outside]
    omega

/-- The control and status registers of traps. -/
inductive Csr where
  | mstatus | mtvec | mscratch | mepc | mcause | mtval | mhartid
  | stvec | sepc | scause | stval
  deriving DecidableEq, Repr

/-- A hart without its program counter, and memory. -/
structure Machine (w : Nat) where
  mode : Mode
  registers : Registers w
  csrs : Csr → BitVec w
  memory : BitVec w → BitVec w

/-- A hart about to execute the instruction at `pc`. -/
structure Config (w : Nat) where
  pc : BitVec w
  machine : Machine w

namespace Machine

variable (machine : Machine w)

def get (reg : Reg) : BitVec w :=
  machine.registers.get reg

def setReg (reg : Reg) (value : BitVec w) : Machine w :=
  { machine with registers := machine.registers.set reg value }

def setCsr (csr : Csr) (value : BitVec w) : Machine w :=
  { machine with csrs := Function.update machine.csrs csr value }

def store (address value : BitVec w) : Machine w :=
  { machine with memory := Function.update machine.memory address value }

/-- M-mode interrupts are enabled in `mstatus`. -/
def MIE : Bool :=
  (machine.csrs .mstatus).getLsbD 3

/-- The hart takes an interrupt that is pending and enabled in `mie`. -/
def Interruptible : Prop :=
  machine.mode ≠ .M ∨ machine.MIE = true

/-- In M-mode with interrupts off. -/
structure Quiet : Prop where
  mode : machine.mode = .M
  mie : machine.MIE = false

/-- No interrupt is taken in M-mode with interrupts off. -/
theorem Quiet.not_interruptible
    {machine : Machine w}
    (quiet : machine.Quiet) :
    ¬machine.Interruptible := by
  rintro (below | enabled)
  · exact below quiet.mode
  · rw [quiet.mie] at enabled
    cases enabled

theorem Quiet.setReg
    {machine : Machine w}
    (quiet : machine.Quiet)
    (reg : Reg)
    (value : BitVec w) :
    (machine.setReg reg value).Quiet :=
  ⟨quiet.mode, quiet.mie⟩

section Simp

variable (reg other : Reg) (csr : Csr) (address value : BitVec w)

@[simp] theorem get_zero : machine.get .zero = 0 := rfl

@[simp] theorem mode_setReg : (machine.setReg reg value).mode = machine.mode := rfl

@[simp] theorem mode_setCsr : (machine.setCsr csr value).mode = machine.mode := rfl

@[simp] theorem mode_store :
    (machine.store address value).mode = machine.mode := rfl

@[simp] theorem csrs_setReg : (machine.setReg reg value).csrs = machine.csrs := rfl

@[simp] theorem csrs_setCsr :
    (machine.setCsr csr value).csrs = Function.update machine.csrs csr value := rfl

@[simp] theorem csrs_store :
    (machine.store address value).csrs = machine.csrs := rfl

@[simp] theorem memory_setReg :
    (machine.setReg reg value).memory = machine.memory := rfl

@[simp] theorem memory_setCsr :
    (machine.setCsr csr value).memory = machine.memory := rfl

@[simp] theorem memory_store :
    (machine.store address value).memory =
      Function.update machine.memory address value := rfl

@[simp] theorem get_setReg :
    (machine.setReg reg value).get other =
      if other = reg ∧ reg ≠ .zero then value else machine.get other :=
  Registers.get_set ..

@[simp] theorem get_setCsr :
    (machine.setCsr csr value).get other = machine.get other := rfl

@[simp] theorem get_store :
    (machine.store address value).get other = machine.get other := rfl

end Simp

end Machine

/-- An instruction of privileged code. -/
inductive PrivInstr (Name : Type) where
  /-- An integer instruction that does not leave the code. -/
  | int (instr : Instr)
  | ori (rd rs : Reg) (imm : Int)
  | slti (rd rs : Reg) (imm : Int)
  | bge (rs1 rs2 : Reg) (target : Target)
  | load (rd : Reg) (offset : Nat) (base : Reg)
  | store (rs : Reg) (offset : Nat) (base : Reg)
  /-- `auipc rd, %pcrel_hi(name)`. -/
  | auipc (rd : Reg) (name : Name)
  /-- `addi rd, rs, %pcrel_lo` of the `auipc` for `name`. -/
  | addi_lo (rd rs : Reg) (name : Name)
  /-- A load at `%pcrel_lo` of the `auipc` for `name`. -/
  | load_lo (rd : Reg) (name : Name) (base : Reg)
  | csrr (rd : Reg) (csr : Csr)
  | csrw (csr : Csr) (rs : Reg)
  | csrrw (rd : Reg) (csr : Csr) (rs : Reg)
  | csrs (csr : Csr) (rs : Reg)
  | csrc (csr : Csr) (rs : Reg)
  | csrsi (csr : Csr) (imm : Nat)
  | csrci (csr : Csr) (imm : Nat)
  | sfence_vma
  | fence_i
  | call (name : Name)
  | jump (name : Name)
  | mret

/-- The addresses of names, and their lower parts relative to the code. -/
structure Names (Name : Type) (w : Nat) where
  address : Name → BitVec w
  pcrel_lo : Name → BitVec w

namespace PrivInstr

variable (names : Names Name w) (machine : Machine w)

/-- What an instruction does, apart from a jump. -/
def effect : PrivInstr Name → Machine w
  | .int instr => { machine with registers := instr.effect machine.registers }
  | .ori rd rs imm => machine.setReg rd (machine.get rs ||| BitVec.ofInt w imm)
  | .slti rd rs imm =>
      machine.setReg rd
        (if (machine.get rs).toInt < (BitVec.ofInt w imm).toInt then 1 else 0)
  | .load rd offset base =>
      machine.setReg rd (machine.memory (machine.get base + BitVec.ofNat w offset))
  | .store rs offset base =>
      machine.store (machine.get base + BitVec.ofNat w offset) (machine.get rs)
  | .auipc rd name =>
      machine.setReg rd (names.address name - names.pcrel_lo name)
  | .addi_lo rd rs name => machine.setReg rd (machine.get rs + names.pcrel_lo name)
  | .load_lo rd name base =>
      machine.setReg rd (machine.memory (machine.get base + names.pcrel_lo name))
  | .csrr rd csr => machine.setReg rd (machine.csrs csr)
  | .csrw csr rs => machine.setCsr csr (machine.get rs)
  | .csrrw rd csr rs =>
      (machine.setCsr csr (machine.get rs)).setReg rd (machine.csrs csr)
  | .csrs csr rs => machine.setCsr csr (machine.csrs csr ||| machine.get rs)
  | .csrc csr rs => machine.setCsr csr (machine.csrs csr &&& ~~~machine.get rs)
  | .csrsi csr imm => machine.setCsr csr (machine.csrs csr ||| BitVec.ofNat w imm)
  | .csrci csr imm =>
      machine.setCsr csr (machine.csrs csr &&& ~~~BitVec.ofNat w imm)
  | _ => machine

section Int

variable (rd rs other : Reg) (imm : Int) (shamt : Nat)

@[simp] theorem effect_li :
    (int (.li rd imm)).effect names machine =
      machine.setReg rd (BitVec.ofInt w imm) := rfl

@[simp] theorem effect_mv :
    (int (.mv rd rs)).effect names machine = machine.setReg rd (machine.get rs) := rfl

@[simp] theorem effect_not :
    (int (.not rd rs)).effect names machine =
      machine.setReg rd (~~~machine.get rs) := rfl

@[simp] theorem effect_add :
    (int (.add rd rs other)).effect names machine =
      machine.setReg rd (machine.get rs + machine.get other) := rfl

@[simp] theorem effect_and :
    (int (.and rd rs other)).effect names machine =
      machine.setReg rd (machine.get rs &&& machine.get other) := rfl

@[simp] theorem effect_or :
    (int (.or rd rs other)).effect names machine =
      machine.setReg rd (machine.get rs ||| machine.get other) := rfl

@[simp] theorem effect_addi :
    (int (.addi rd rs imm)).effect names machine =
      machine.setReg rd (machine.get rs + BitVec.ofInt w imm) := rfl

@[simp] theorem effect_andi :
    (int (.andi rd rs imm)).effect names machine =
      machine.setReg rd (machine.get rs &&& BitVec.ofInt w imm) := rfl

@[simp] theorem effect_slli :
    (int (.slli rd rs shamt)).effect names machine =
      machine.setReg rd (machine.get rs <<< shamt) := rfl

@[simp] theorem effect_srli :
    (int (.srli rd rs shamt)).effect names machine =
      machine.setReg rd (machine.get rs >>> shamt) := rfl

end Int

section Csr

variable (rd rs base : Reg) (imm : Int) (offset bits : Nat) (csr : Csr) (name : Name)

@[simp] theorem effect_ori :
    (ori rd rs imm).effect names machine =
      machine.setReg rd (machine.get rs ||| BitVec.ofInt w imm) := rfl

@[simp] theorem effect_slti :
    (slti rd rs imm).effect names machine =
      machine.setReg rd
        (if (machine.get rs).toInt < (BitVec.ofInt w imm).toInt then 1 else 0) := rfl

@[simp] theorem effect_load :
    (load rd offset base).effect names machine =
      machine.setReg rd
        (machine.memory (machine.get base + BitVec.ofNat w offset)) := rfl

@[simp] theorem effect_store :
    (store rs offset base).effect names machine =
      machine.store (machine.get base + BitVec.ofNat w offset) (machine.get rs) := rfl

@[simp] theorem effect_auipc :
    (auipc rd name).effect names machine =
      machine.setReg rd (names.address name - names.pcrel_lo name) := rfl

@[simp] theorem effect_addi_lo :
    (addi_lo rd rs name).effect names machine =
      machine.setReg rd (machine.get rs + names.pcrel_lo name) := rfl

@[simp] theorem effect_load_lo :
    (load_lo rd name base).effect names machine =
      machine.setReg rd (machine.memory (machine.get base + names.pcrel_lo name)) := rfl

@[simp] theorem effect_csrr :
    (csrr rd csr).effect names machine = machine.setReg rd (machine.csrs csr) := rfl

@[simp] theorem effect_csrw :
    (csrw csr rs).effect names machine = machine.setCsr csr (machine.get rs) := rfl

@[simp] theorem effect_csrs :
    (csrs csr rs).effect names machine =
      machine.setCsr csr (machine.csrs csr ||| machine.get rs) := rfl

@[simp] theorem effect_csrc :
    (csrc csr rs).effect names machine =
      machine.setCsr csr (machine.csrs csr &&& ~~~machine.get rs) := rfl

@[simp] theorem effect_csrsi :
    (csrsi csr bits).effect names machine =
      machine.setCsr csr (machine.csrs csr ||| BitVec.ofNat w bits) := rfl

@[simp] theorem effect_csrci :
    (csrci csr bits).effect names machine =
      machine.setCsr csr (machine.csrs csr &&& ~~~BitVec.ofNat w bits) := rfl

@[simp] theorem effect_sfence_vma :
    (sfence_vma : PrivInstr Name).effect names machine = machine := rfl

@[simp] theorem effect_fence_i :
    (fence_i : PrivInstr Name).effect names machine = machine := rfl

end Csr

/-- The local label that an instruction jumps to, unless it falls through. -/
def jumps : PrivInstr Name → Option Target
  | .int instr => instr.jumps machine.registers
  | .bge rs1 rs2 target =>
      if (machine.get rs2).toInt ≤ (machine.get rs1).toInt then some target
      else none
  | _ => none

/-- The instruction does not jump and does not write `mstatus`. -/
def straight : PrivInstr Name → Bool
  | .int instr =>
      match instr with
      | .label _ | .beqz _ _ | .bnez _ _ | .bgez _ _ | .beq _ _ _ | .bne _ _ _
      | .bltu _ _ _ | .bgeu _ _ _ | .j _ | .ret => false
      | _ => true
  | .bge _ _ _ | .call _ | .jump _ | .mret => false
  | .csrw csr _ | .csrrw _ csr _ | .csrs csr _ | .csrc csr _ | .csrsi csr _
  | .csrci csr _ => csr ≠ .mstatus
  | _ => true

end PrivInstr

/-- A line of code with the labels in front of it. -/
structure Line (Name : Type) where
  labels : List Nat
  instr : PrivInstr Name

namespace Line

/-- A line without a label. -/
def plain (instr : PrivInstr Name) : Line Name :=
  ⟨[], instr⟩

/-- A line with one label. -/
def labelled (label : Nat) (instr : PrivInstr Name) : Line Name :=
  ⟨[label], instr⟩

@[simp] theorem instr_plain (instr : PrivInstr Name) : (plain instr).instr = instr :=
  rfl

@[simp] theorem instr_labelled (label : Nat) (instr : PrivInstr Name) :
    (labelled label instr).instr = instr :=
  rfl

end Line

/-- The lines of a block are straight. -/
def straightBlock (block : List (Line Name)) : Bool :=
  block.all (·.instr.straight)

/-- What a block of lines does, apart from jumps. -/
def effects
    (names : Names Name w) (block : List (Line Name)) (machine : Machine w) :
    Machine w :=
  block.foldl (fun machine line => line.instr.effect names machine) machine

section Effects

variable {names : Names Name w} {machine : Machine w}

@[simp] theorem effects_nil : effects names [] machine = machine := rfl

@[simp] theorem effects_cons (line : Line Name) (block : List (Line Name)) :
    effects names (line :: block) machine =
      effects names block (line.instr.effect names machine) := rfl

theorem effects_append (block rest : List (Line Name)) :
    effects names (block ++ rest) machine =
      effects names rest (effects names block machine) :=
  List.foldl_append ..

/-- A straight instruction stays in M-mode with interrupts off. -/
theorem Machine.Quiet.effect
    {instr : PrivInstr Name}
    (quiet : machine.Quiet)
    (straight : instr.straight = true) :
    (instr.effect names machine).Quiet := by
  obtain ⟨mode, mie⟩ := quiet
  cases instr with
  | csrw csr rs =>
      have other : Csr.mstatus ≠ csr := Ne.symm (of_decide_eq_true straight)
      exact ⟨mode, by simpa [PrivInstr.effect, Machine.MIE, other] using mie⟩
  | csrrw rd csr rs =>
      have other : Csr.mstatus ≠ csr := Ne.symm (of_decide_eq_true straight)
      exact ⟨mode, by simpa [PrivInstr.effect, Machine.MIE, other] using mie⟩
  | csrs csr rs =>
      have other : Csr.mstatus ≠ csr := Ne.symm (of_decide_eq_true straight)
      exact ⟨mode, by simpa [PrivInstr.effect, Machine.MIE, other] using mie⟩
  | csrc csr rs =>
      have other : Csr.mstatus ≠ csr := Ne.symm (of_decide_eq_true straight)
      exact ⟨mode, by simpa [PrivInstr.effect, Machine.MIE, other] using mie⟩
  | csrsi csr imm =>
      have other : Csr.mstatus ≠ csr := Ne.symm (of_decide_eq_true straight)
      exact ⟨mode, by simpa [PrivInstr.effect, Machine.MIE, other] using mie⟩
  | csrci csr imm =>
      have other : Csr.mstatus ≠ csr := Ne.symm (of_decide_eq_true straight)
      exact ⟨mode, by simpa [PrivInstr.effect, Machine.MIE, other] using mie⟩
  | _ => exact ⟨mode, mie⟩

/-- A straight block stays in M-mode with interrupts off. -/
theorem Machine.Quiet.effects
    {block : List (Line Name)}
    (quiet : machine.Quiet)
    (names : Names Name w)
    (straight : straightBlock block = true) :
    (EchelonSbi.Riscv.effects names block machine).Quiet := by
  induction block generalizing machine with
  | nil => exact quiet
  | cons line block inductionHypothesis =>
      rw [straightBlock, List.all_cons, Bool.and_eq_true] at straight
      exact inductionHypothesis (quiet.effect straight.1) straight.2

end Effects

/-- Code with the address of each of its lines, and of what it names. -/
structure Program (Name : Type) (w : Nat) where
  lines : List (Line Name)
  names : Names Name w
  place : Nat → BitVec w
  lineAt : BitVec w → Option Nat
  lineAt_place : ∀ {line}, line < lines.length → lineAt (place line) = some line

namespace Program

/-- The line that a reference on line `line` stands for. -/
def resolve (lines : List (Line Name)) (line : Nat) : Target → Option Nat
  | .f label =>
      ((lines.drop (line + 1)).findIdx? (label ∈ ·.labels)).map (line + 1 + ·)
  | .b label =>
      ((lines.take (line + 1)).reverse.findIdx? (label ∈ ·.labels)).map (line - ·)

variable (program : Program Name w)

/-- `mret`: to the mode in MPP (bits 12 and 11), with the interrupt enable that is
in MPIE (bit 7). -/
def mret (machine : Machine w) : Config w :=
  let mstatus := machine.csrs .mstatus
  { pc := machine.csrs .mepc
    machine :=
      { machine with
        mode := .ofBits (mstatus.getLsbD 12) (mstatus.getLsbD 11)
        csrs := Function.update machine.csrs .mstatus
          (setBit
            (setBit (setBit (setBit mstatus 3 (mstatus.getLsbD 7)) 7 true) 11 false)
            12 false) } }

/-- Execute a line. -/
def execute
    (line : Nat) (instr : PrivInstr Name) (machine : Machine w) :
    Option (Config w) :=
  match instr with
  | .call name =>
      some ⟨program.names.address name, machine.setReg .ra (program.place (line + 1))⟩
  | .jump name => some ⟨program.names.address name, machine⟩
  | .mret => some (mret machine)
  | _ =>
      match instr.jumps machine with
      | none => some ⟨program.place (line + 1), instr.effect program.names machine⟩
      | some target =>
          (resolve program.lines line target).map
            (⟨program.place ·, instr.effect program.names machine⟩)

/-- Execute the line at the program counter; none outside the code. -/
def next (config : Config w) : Option (Config w) :=
  match program.lineAt config.pc with
  | none => none
  | some line =>
      match program.lines[line]? with
      | none => none
      | some { instr, .. } => program.execute line instr config.machine

/-- The hart is about to return from a trap. -/
def Returning (pc : BitVec w) : Prop :=
  ∃ line labels,
    program.lineAt pc = some line ∧ program.lines[line]? = some ⟨labels, .mret⟩

/-- A line that is executed in M-mode with interrupts off, and does not return from
a trap. -/
structure QuietStep (config after : Config w) : Prop where
  quiet : config.machine.Quiet
  inside : ¬program.Returning config.pc
  executes : program.next config = some after

/-- Lines that are executed in M-mode with interrupts off. -/
abbrev QuietPath : Config w → Config w → Prop :=
  Relation.ReflTransGen program.QuietStep

/-- The lines from `line` on begin with `block`. -/
def HoldsAt (line : Nat) (block : List (Line Name)) : Prop :=
  ∃ rest, program.lines.drop line = block ++ rest

section Paths

variable {program} {line : Nat} {block rest : List (Line Name)}
  {machine : Machine w} {labels : List Nat} {instr : PrivInstr Name}

theorem HoldsAt.left
    (holds : program.HoldsAt line (block ++ rest)) :
    program.HoldsAt line block := by
  obtain ⟨behind, found⟩ := holds
  exact ⟨rest ++ behind, by rw [found, List.append_assoc]⟩

theorem HoldsAt.right
    (holds : program.HoldsAt line (block ++ rest)) :
    program.HoldsAt (line + block.length) rest := by
  obtain ⟨behind, found⟩ := holds
  refine ⟨behind, ?_⟩
  rw [← List.drop_drop, found, List.append_assoc, List.drop_left]

theorem HoldsAt.getElem?
    (holds : program.HoldsAt line (⟨labels, instr⟩ :: rest)) :
    program.lines[line]? = some ⟨labels, instr⟩ := by
  obtain ⟨behind, found⟩ := holds
  have first := congrArg (·[0]?) found
  simpa using first

theorem HoldsAt.drop
    (holds : program.HoldsAt line block)
    {count : Nat}
    (inside : count ≤ block.length) :
    program.HoldsAt (line + count) (block.drop count) := by
  rw [← List.take_append_drop count block] at holds
  have behind := holds.right
  rwa [List.length_take, Nat.min_eq_left inside] at behind

theorem HoldsAt.take
    (holds : program.HoldsAt line block)
    (count : Nat) :
    program.HoldsAt line (block.take count) := by
  rw [← List.take_append_drop count block] at holds
  exact holds.left

/-- The line at an address of the code is executed. -/
theorem next_of_getElem?
    (fetched : program.lines[line]? = some ⟨labels, instr⟩) :
    program.next ⟨program.place line, machine⟩ =
      program.execute line instr machine := by
  obtain ⟨inside, -⟩ := List.getElem?_eq_some_iff.mp fetched
  simp only [next, program.lineAt_place inside, fetched]

/-- A line that is not `mret` does not return from a trap. -/
theorem not_returning_of_getElem?
    (fetched : program.lines[line]? = some ⟨labels, instr⟩)
    (other : instr ≠ .mret) :
    ¬program.Returning (program.place line) := by
  rintro ⟨found, foundLabels, located, same⟩
  obtain ⟨inside, -⟩ := List.getElem?_eq_some_iff.mp fetched
  obtain rfl : line = found :=
    Option.some.inj ((program.lineAt_place inside).symm.trans located)
  exact other (congrArg Line.instr (Option.some.inj (fetched.symm.trans same)))

/-- A straight line is followed by the next one. -/
theorem execute_of_straight
    (straight : instr.straight = true) :
    program.execute line instr machine =
      some ⟨program.place (line + 1), instr.effect program.names machine⟩ := by
  cases instr with
  | int instr => cases instr <;> first | rfl | cases straight
  | bge rs1 rs2 target => cases straight
  | call name => cases straight
  | jump name => cases straight
  | mret => cases straight
  | _ => rfl

/-- The lines of a straight block are executed one after the other. -/
theorem QuietPath.straight
    (block : List (Line Name))
    (quiet : machine.Quiet)
    (holds : program.HoldsAt line block)
    (straight : straightBlock block = true) :
    program.QuietPath ⟨program.place line, machine⟩
      ⟨program.place (line + block.length), effects program.names block machine⟩ := by
  induction block generalizing line machine with
  | nil => exact .refl
  | cons first block inductionHypothesis =>
      obtain ⟨labels, instr⟩ := first
      rw [straightBlock, List.all_cons, Bool.and_eq_true] at straight
      have plain := straight.1
      have step :
          program.QuietStep ⟨program.place line, machine⟩
            ⟨program.place (line + 1), instr.effect program.names machine⟩ :=
        ⟨quiet, not_returning_of_getElem? holds.getElem? (by rintro rfl; cases plain),
          by rw [next_of_getElem? holds.getElem?, execute_of_straight plain]⟩
      have later : (instr.effect program.names machine).Quiet := quiet.effect plain
      have tail : program.HoldsAt (line + 1) block :=
        HoldsAt.right (show program.HoldsAt line ([⟨labels, instr⟩] ++ block) from holds)
      have behind := inductionHypothesis later tail straight.2
      rw [List.length_cons, Nat.add_comm block.length, ← Nat.add_assoc]
      exact .head step behind

/-- A branch that is taken. -/
theorem execute_branch
    {target : Target}
    {dest : Nat}
    {instr : Instr}
    (pure : instr.effect machine.registers = machine.registers)
    (jumps : instr.jumps machine.registers = some target)
    (resolves : resolve program.lines line target = some dest) :
    program.execute line (.int instr) machine = some ⟨program.place dest, machine⟩ := by
  simp only [execute, PrivInstr.jumps, jumps, resolves, Option.map_some,
    PrivInstr.effect, pure]

/-- A branch that is not taken. -/
theorem execute_fall
    {instr : Instr}
    (pure : instr.effect machine.registers = machine.registers)
    (falls : instr.jumps machine.registers = none) :
    program.execute line (.int instr) machine =
      some ⟨program.place (line + 1), machine⟩ := by
  simp only [execute, PrivInstr.jumps, falls, PrivInstr.effect, pure]

theorem QuietPath.branch
    {target : Target}
    {dest : Nat}
    {instr : Instr}
    (quiet : machine.Quiet)
    (fetched : program.lines[line]? = some ⟨labels, .int instr⟩)
    (pure : instr.effect machine.registers = machine.registers)
    (jumps : instr.jumps machine.registers = some target)
    (resolves : resolve program.lines line target = some dest) :
    program.QuietPath ⟨program.place line, machine⟩ ⟨program.place dest, machine⟩ := by
  refine .single ⟨quiet, not_returning_of_getElem? fetched (by rintro ⟨⟩), ?_⟩
  rw [next_of_getElem? fetched]
  exact execute_branch pure jumps resolves

theorem QuietPath.fall
    {instr : Instr}
    (quiet : machine.Quiet)
    (fetched : program.lines[line]? = some ⟨labels, .int instr⟩)
    (pure : instr.effect machine.registers = machine.registers)
    (falls : instr.jumps machine.registers = none) :
    program.QuietPath ⟨program.place line, machine⟩
      ⟨program.place (line + 1), machine⟩ := by
  refine .single ⟨quiet, not_returning_of_getElem? fetched (by rintro ⟨⟩), ?_⟩
  rw [next_of_getElem? fetched]
  exact execute_fall pure falls

/-- A call of a name, with interrupts off. -/
theorem QuietPath.call
    {name : Name}
    (quiet : machine.Quiet)
    (fetched : program.lines[line]? = some ⟨labels, .call name⟩) :
    program.QuietPath ⟨program.place line, machine⟩
      ⟨program.names.address name,
        machine.setReg .ra (program.place (line + 1))⟩ := by
  refine .single ⟨quiet, not_returning_of_getElem? fetched (by rintro ⟨⟩), ?_⟩
  rw [next_of_getElem? fetched, execute]

theorem returning_of_getElem?
    (fetched : program.lines[line]? = some ⟨labels, .mret⟩) :
    program.Returning (program.place line) := by
  obtain ⟨inside, -⟩ := List.getElem?_eq_some_iff.mp fetched
  exact ⟨line, labels, program.lineAt_place inside, fetched⟩

section Only

variable {config after last : Config w}

/-- Only one line is executed at a time. -/
theorem quietStep_rightUnique : Relator.RightUnique program.QuietStep := by
  intro config first second one other
  exact Option.some.inj (one.executes.symm.trans other.executes)

/-- All of a quiet path is in M-mode with interrupts off. -/
theorem QuietPath.quiet
    (path : program.QuietPath config last)
    (quiet : last.machine.Quiet) :
    config.machine.Quiet := by
  rcases path.cases_head with same | ⟨middle, first, -⟩
  · rw [same]
    exact quiet
  · exact first.quiet

/-- Two quiet paths that cannot go on end in the same way. -/
theorem QuietPath.same_end
    (path : program.QuietPath config last)
    (other : program.QuietPath config after)
    (stuck : ∀ next, ¬program.QuietStep last next)
    (stuckToo : ∀ next, ¬program.QuietStep after next) :
    after = last := by
  rcases Relation.ReflTransGen.total_of_right_unique quietStep_rightUnique path other with
    forward | backward
  · rcases forward.cases_head with same | ⟨next, step, -⟩
    · exact same.symm
    · exact absurd step (stuck next)
  · rcases backward.cases_head with same | ⟨next, step, -⟩
    · exact same
    · exact absurd step (stuckToo next)

/-- In front of the return no quiet step is left. -/
theorem not_quietStep_of_returning
    (returning : program.Returning config.pc) :
    ∀ next, ¬program.QuietStep config next :=
  fun _ step => step.inside returning

/-- Outside the code no line is executed. -/
theorem not_quietStep_of_outside
    (outside : program.lineAt config.pc = none) :
    ∀ next, ¬program.QuietStep config next := by
  intro next step
  have executed := step.executes
  rw [Program.next, outside] at executed
  cases executed

end Only

end Paths

end Program

/-! ## Traps -/

namespace Machine

variable (machine : Machine w) (pc cause tval : BitVec w)

/-- A trap into M-mode, with `mtvec` in direct mode.  The mode goes to MPP and
the interrupt enable (bit 3) to MPIE. -/
def trap : Config w where
  pc := machine.csrs .mtvec
  machine :=
    (((({ machine with mode := .M }.setCsr .mepc pc).setCsr .mcause cause).setCsr
      .mtval tval).setCsr .mstatus
        (setBit
          (setBit
            (setBit (setBit (machine.csrs .mstatus) 7 machine.MIE) 3 false) 11
            machine.mode.low) 12 machine.mode.high))

/-- An exception that `medeleg` delegates to S-mode: the mode goes to SPP (bit 8)
and the interrupt enable of S-mode (bit 1) to SPIE (bit 5). -/
def delegatedTrap : Config w where
  pc := machine.csrs .stvec &&& ~~~3
  machine :=
    (((({ machine with mode := .S }.setCsr .sepc pc).setCsr .scause cause).setCsr
      .stval tval).setCsr .mstatus
        (setBit
          (setBit
            (setBit (machine.csrs .mstatus) 5
              ((machine.csrs .mstatus).getLsbD 1)) 1 false) 8
          machine.mode.low))

theorem quiet_trap : (machine.trap pc cause tval).machine.Quiet := by
  constructor
  · rfl
  · simp [trap, MIE]

end Machine

end Riscv
end EchelonSbi
