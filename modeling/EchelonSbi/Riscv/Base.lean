import Mathlib.Data.BitVec
import Mathlib.Logic.Function.Basic
import Mathlib.Logic.Relation

/-!
# Integer instructions of RISC-V

A listing is a list of instructions and numeric local labels, as the assembler
reads it; `1f` is the next line with label 1 and `1b` the last one.  Registers
are `w` bits wide.  A listing is run by a step function on the line number and
the registers, up to its `ret`.
-/

namespace EchelonSbi
namespace Riscv

/-- An integer register. -/
inductive Reg where
  | zero | ra | sp | gp | tp | t0 | t1 | t2
  | s0 | s1 | a0 | a1 | a2 | a3 | a4 | a5
  | a6 | a7 | s2 | s3 | s4 | s5 | s6 | s7
  | s8 | s9 | s10 | s11 | t3 | t4 | t5 | t6
  deriving DecidableEq, Repr

/-- The contents of the registers. -/
abbrev Registers (w : Nat) := Reg → BitVec w

namespace Registers

variable (registers : Registers w)

/-- Read a register; `zero` is 0. -/
def get (reg : Reg) : BitVec w :=
  if reg = .zero then 0 else registers reg

/-- Write a register; `zero` stays as it is. -/
def set (reg : Reg) (value : BitVec w) : Registers w :=
  if reg = .zero then registers else Function.update registers reg value

/-- The double word in two registers. -/
abbrev pair (upper lower : Reg) : BitVec (w + w) :=
  registers.get upper ++ registers.get lower

theorem get_set
    (reg other : Reg)
    (value : BitVec w) :
    (registers.set reg value).get other =
      if other = reg ∧ reg ≠ .zero then value else registers.get other := by
  unfold get set
  by_cases zero : reg = .zero
  · simp [zero]
  · by_cases same : other = reg <;> simp [zero, same, Function.update_of_ne]

theorem set_set
    (reg : Reg)
    (first second : BitVec w) :
    (registers.set reg first).set reg second = registers.set reg second := by
  unfold set
  by_cases zero : reg = .zero
  · simp [zero]
  · simp [zero, Function.update_idem]

theorem set_get
    (reg : Reg) :
    registers.set reg (registers.get reg) = registers := by
  unfold set get
  split_ifs
  · rfl
  · exact Function.update_eq_self reg registers

end Registers

/-- A reference to a numeric local label. -/
inductive Target where
  | f (n : Nat)
  | b (n : Nat)
  deriving DecidableEq, Repr

/-- A line of a listing. -/
inductive Instr where
  | label (n : Nat)
  | li (rd : Reg) (imm : Int)
  | mv (rd rs : Reg)
  | not (rd rs : Reg)
  | add (rd rs1 rs2 : Reg)
  | sub (rd rs1 rs2 : Reg)
  | and (rd rs1 rs2 : Reg)
  | or (rd rs1 rs2 : Reg)
  | xor (rd rs1 rs2 : Reg)
  | sll (rd rs1 rs2 : Reg)
  | sltu (rd rs1 rs2 : Reg)
  | addi (rd rs : Reg) (imm : Int)
  | andi (rd rs : Reg) (imm : Int)
  | slli (rd rs : Reg) (shamt : Nat)
  | srli (rd rs : Reg) (shamt : Nat)
  | beqz (rs : Reg) (target : Target)
  | bnez (rs : Reg) (target : Target)
  | bgez (rs : Reg) (target : Target)
  | beq (rs1 rs2 : Reg) (target : Target)
  | bne (rs1 rs2 : Reg) (target : Target)
  | bltu (rs1 rs2 : Reg) (target : Target)
  | bgeu (rs1 rs2 : Reg) (target : Target)
  | j (target : Target)
  | ret
  deriving DecidableEq, Repr

/-- A listing. -/
abbrev Listing := List Instr

namespace Instr

variable (registers : Registers w)

/-- What an instruction makes of the registers. -/
def effect : Instr → Registers w
  | .li rd imm => registers.set rd (BitVec.ofInt w imm)
  | .mv rd rs => registers.set rd (registers.get rs)
  | .not rd rs => registers.set rd (~~~registers.get rs)
  | .add rd rs1 rs2 =>
      registers.set rd (registers.get rs1 + registers.get rs2)
  | .sub rd rs1 rs2 =>
      registers.set rd (registers.get rs1 - registers.get rs2)
  | .and rd rs1 rs2 =>
      registers.set rd (registers.get rs1 &&& registers.get rs2)
  | .or rd rs1 rs2 =>
      registers.set rd (registers.get rs1 ||| registers.get rs2)
  | .xor rd rs1 rs2 =>
      registers.set rd (registers.get rs1 ^^^ registers.get rs2)
  -- the shift amount is the low bits of the register
  | .sll rd rs1 rs2 =>
      registers.set rd
        (registers.get rs1 <<< ((registers.get rs2).toNat % w))
  | .sltu rd rs1 rs2 =>
      registers.set rd
        (if registers.get rs1 < registers.get rs2 then 1 else 0)
  | .addi rd rs imm =>
      registers.set rd (registers.get rs + BitVec.ofInt w imm)
  | .andi rd rs imm =>
      registers.set rd (registers.get rs &&& BitVec.ofInt w imm)
  | .slli rd rs shamt => registers.set rd (registers.get rs <<< shamt)
  | .srli rd rs shamt => registers.set rd (registers.get rs >>> shamt)
  | _ => registers

/-- Where an instruction jumps to, unless it falls through. -/
def jumps : Instr → Option Target
  | .beqz rs target => if registers.get rs = 0 then some target else none
  | .bnez rs target => if registers.get rs ≠ 0 then some target else none
  | .bgez rs target => if 0 ≤ (registers.get rs).toInt then some target else none
  | .beq rs1 rs2 target =>
      if registers.get rs1 = registers.get rs2 then some target else none
  | .bne rs1 rs2 target =>
      if registers.get rs1 ≠ registers.get rs2 then some target else none
  | .bltu rs1 rs2 target =>
      if registers.get rs1 < registers.get rs2 then some target else none
  | .bgeu rs1 rs2 target =>
      if registers.get rs2 ≤ registers.get rs1 then some target else none
  | .j target => some target
  | _ => none

end Instr

namespace Listing

/-- The line that a reference on line `pc` stands for. -/
def resolve (listing : Listing) (pc : Nat) : Target → Option Nat
  | .f n =>
      ((listing.drop (pc + 1)).findIdx? (· = .label n)).map (pc + 1 + ·)
  | .b n =>
      ((listing.take pc).reverse.findIdx? (· = .label n)).map (pc - 1 - ·)

end Listing

/-- A place in a listing and the contents of the registers. -/
structure State (w : Nat) where
  pc : Nat
  registers : Registers w

namespace State

/-- The line after the one at `pc`; none at `ret` and outside the listing. -/
def follow
    (listing : Listing) (pc : Nat) (registers : Registers w) :
    Instr → Option Nat
  | .ret => none
  | instr =>
      match instr.jumps registers with
      | none => some (pc + 1)
      | some target => listing.resolve pc target

/-- The state after the line at `pc`. -/
def next (listing : Listing) (state : State w) : Option (State w) :=
  match listing[state.pc]? with
  | none => none
  | some instr =>
      (follow listing state.pc state.registers instr).map
        (⟨·, instr.effect state.registers⟩)

/-- The state after `n` lines. -/
def walk (listing : Listing) : Nat → State w → Option (State w)
  | 0, state => some state
  | n + 1, state =>
      match next listing state with
      | none => none
      | some after => walk listing n after

end State

/-- One step of a listing. -/
def Step (listing : Listing) (state after : State w) : Prop :=
  state.next listing = some after

/-- A listing reaches one state from another. -/
abbrev Reaches (listing : Listing) : State w → State w → Prop :=
  Relation.ReflTransGen (Step listing)

/-- A call of a listing returns, with `registers` before and `results` after
it. -/
def Returns (listing : Listing) (registers results : Registers w) : Prop :=
  ∃ pc, Reaches listing ⟨0, registers⟩ ⟨pc, results⟩ ∧
    listing[pc]? = some .ret

/-- A block of a listing runs from its first line past its last one. -/
def Runs (block : Listing) (registers results : Registers w) : Prop :=
  Reaches block ⟨0, registers⟩ ⟨block.length, results⟩

theorem Listing.resolve_within
    {before block after : Listing}
    {target : Target}
    {pc dest : Nat}
    (inside : pc < block.length)
    (resolves : block.resolve pc target = some dest) :
    (before ++ block ++ after).resolve (before.length + pc) target =
      some (before.length + dest) := by
  cases target with
  | f n =>
      obtain ⟨distance, found, rfl⟩ := Option.map_eq_some_iff.mp resolves
      have rest : (before ++ block ++ after).drop (before.length + pc + 1) =
          block.drop (pc + 1) ++ after := by
        rw [List.append_assoc, Nat.add_assoc, List.drop_length_add_append,
          List.drop_append_of_le_length inside]
      simp only [resolve, rest, List.findIdx?_append, found, Option.some_or,
        Option.map_some]
      rw [Nat.add_assoc, Nat.add_assoc, Nat.add_assoc]
  | b n =>
      obtain ⟨distance, found, rfl⟩ := Option.map_eq_some_iff.mp resolves
      have near : distance < (block.take pc).reverse.length :=
        (List.findIdx?_eq_some_iff_getElem.mp found).1
      simp only [List.length_reverse, List.length_take] at near
      have rest : ((before ++ block ++ after).take (before.length + pc)).reverse =
          (block.take pc).reverse ++ before.reverse := by
        rw [List.append_assoc, List.take_length_add_append,
          List.take_append_of_le_length (by omega), List.reverse_append]
      simp only [resolve, rest, List.findIdx?_append, found, Option.some_or,
        Option.map_some]
      congr 1
      omega

namespace Step

variable {listing : Listing} {state after : State w} {pc dest : Nat}
  {registers : Registers w} {instr : Instr}

theorem of_follow
    (fetched : listing[pc]? = some instr)
    (follows : State.follow listing pc registers instr = some dest) :
    Step listing ⟨pc, registers⟩ ⟨dest, instr.effect registers⟩ := by
  rw [Step, State.next]
  simp only [fetched, follows, Option.map_some]

/-- What a step does. -/
theorem follows
    (step : Step listing state after) :
    ∃ instr, listing[state.pc]? = some instr ∧
      State.follow listing state.pc state.registers instr = some after.pc ∧
        after.registers = instr.effect state.registers := by
  rw [Step, State.next] at step
  split at step
  · cases step
  · next instr fetched =>
      obtain ⟨dest, follows, rfl⟩ := Option.map_eq_some_iff.mp step
      exact ⟨instr, fetched, follows, rfl⟩

/-- A block does the same wherever it is placed. -/
theorem within
    (before after : Listing)
    {block : Listing}
    {state next : State w}
    (step : Step block state next) :
    Step (before ++ block ++ after)
      ⟨before.length + state.pc, state.registers⟩
      ⟨before.length + next.pc, next.registers⟩ := by
  obtain ⟨instr, fetched, follows, effect⟩ := step.follows
  obtain ⟨inside, -⟩ := List.getElem?_eq_some_iff.mp fetched
  have fetchedWithin :
      (before ++ block ++ after)[before.length + state.pc]? = some instr := by
    rw [List.append_assoc, List.getElem?_append_right (by omega),
      Nat.add_sub_cancel_left, List.getElem?_append_left inside, fetched]
  rw [effect]
  refine of_follow fetchedWithin ?_
  unfold State.follow at follows ⊢
  split at follows
  · cases follows
  · split at follows
    · next =>
        rw [← Option.some.inj follows, Nat.add_assoc]
    · next target _ =>
        exact Listing.resolve_within inside follows

end Step

namespace Reaches

variable {listing : Listing} {state last : State w} {pc dest : Nat}
  {registers results : Registers w} {instr : Instr}

/-- Lines that are executed one after the other. -/
theorem straight
    (n : Nat)
    (walks : state.walk listing n = some ⟨dest, results⟩)
    (rest : Reaches listing ⟨dest, results⟩ last) :
    Reaches listing state last := by
  induction n generalizing state with
  | zero =>
      cases walks
      exact rest
  | succ n inductionHypothesis =>
      rw [State.walk] at walks
      split at walks
      · cases walks
      · next middle step => exact .head step (inductionHypothesis walks)

/-- A branch that is taken. -/
theorem jump
    {target : Target}
    (fetched : listing[pc]? = some instr)
    (jumps : instr.jumps registers = some target)
    (resolves : listing.resolve pc target = some dest)
    (rest : Reaches listing ⟨dest, instr.effect registers⟩ last) :
    Reaches listing ⟨pc, registers⟩ last := by
  refine .head (Step.of_follow fetched ?_) rest
  cases instr with
  | ret => cases jumps
  | _ => simp only [State.follow, jumps, resolves]

/-- A branch that is not taken. -/
theorem fall
    (fetched : listing[pc]? = some instr)
    (branch : instr ≠ .ret)
    (falls : instr.jumps registers = none)
    (rest : Reaches listing ⟨pc + 1, instr.effect registers⟩ last) :
    Reaches listing ⟨pc, registers⟩ last := by
  refine .head (Step.of_follow fetched ?_) rest
  cases instr with
  | ret => exact absurd rfl branch
  | _ => simp only [State.follow, falls]

theorem within
    (before after : Listing)
    {block : Listing}
    {state next : State w}
    (path : Reaches block state next) :
    Reaches (before ++ block ++ after)
      ⟨before.length + state.pc, state.registers⟩
      ⟨before.length + next.pc, next.registers⟩ := by
  induction path with
  | refl => exact .refl
  | tail _ step inductionHypothesis =>
      exact inductionHypothesis.tail (step.within before after)

end Reaches

section Blocks

/-! ## Blocks one after the other -/

variable {block rest : Listing} {registers middle results : Registers w}

theorem Runs.append
    (first : Runs block registers middle)
    (second : Runs rest middle results) :
    Runs (block ++ rest) registers results := by
  have firstPath := Reaches.within [] rest first
  have secondPath := Reaches.within block [] second
  simp only [List.nil_append, List.append_nil, List.length_nil, Nat.zero_add,
    Nat.add_zero] at firstPath secondPath
  rw [Runs, List.length_append]
  exact firstPath.trans secondPath

/-- A block is followed by the rest of its routine. -/
theorem Runs.returns
    (first : Runs block registers middle)
    (second : Returns rest middle results) :
    Returns (block ++ rest) registers results := by
  obtain ⟨pc, path, ret⟩ := second
  have firstPath := Reaches.within [] rest first
  have secondPath := Reaches.within block [] path
  simp only [List.nil_append, List.append_nil, List.length_nil, Nat.zero_add,
    Nat.add_zero] at firstPath secondPath
  refine ⟨block.length + pc, firstPath.trans secondPath, ?_⟩
  rw [List.getElem?_append_right (by omega), Nat.add_sub_cancel_left, ret]

/-- A block returns before the rest of its routine. -/
theorem Returns.early
    (rest : Listing)
    (first : Returns block registers results) :
    Returns (block ++ rest) registers results := by
  obtain ⟨pc, path, ret⟩ := first
  obtain ⟨inside, -⟩ := List.getElem?_eq_some_iff.mp ret
  have pathWithin := Reaches.within [] rest path
  simp only [List.nil_append, List.length_nil, Nat.zero_add] at pathWithin
  exact ⟨pc, pathWithin, by rw [List.getElem?_append_left inside, ret]⟩

theorem Returns.ret : Returns [.ret] registers registers :=
  ⟨0, .refl, rfl⟩

end Blocks

/-- A listing does the same whenever it is called with the same registers. -/
theorem Returns.unique
    {listing : Listing}
    {registers left right : Registers w}
    (first : Returns listing registers left)
    (second : Returns listing registers right) :
    left = right := by
  obtain ⟨leftPc, leftPath, leftRet⟩ := first
  obtain ⟨rightPc, rightPath, rightRet⟩ := second
  have stops {pc : Nat} {results : Registers w} {after : State w}
      (ret : listing[pc]? = some .ret) :
      ¬Step listing ⟨pc, results⟩ after := by
    simp [Step, State.next, State.follow, ret]
  have determined (state next other : State w)
      (one : Step listing state next) (two : Step listing state other) :
      next = other :=
    Option.some.inj (one.symm.trans two)
  rcases Relation.ReflTransGen.total_of_right_unique
      (fun state next other => determined state next other)
      leftPath rightPath with path | path
  · rcases path.cases_head with same | ⟨_, step, -⟩
    · exact congrArg State.registers same
    · exact absurd step (stops leftRet)
  · rcases path.cases_head with same | ⟨_, step, -⟩
    · exact (congrArg State.registers same).symm
    · exact absurd step (stops rightRet)

/-- A listing returns when it is called with `registers`, and what it returns
satisfies `post`. -/
structure Computes
    (listing : Listing) (registers : Registers w)
    (post : Registers w → Prop) : Prop where
  terminates : ∃ results, Returns listing registers results
  correct : ∀ results, Returns listing registers results → post results

theorem Computes.of_returns
    {listing : Listing}
    {registers : Registers w}
    {post : Registers w → Prop}
    (call : ∃ results, Returns listing registers results ∧ post results) :
    Computes listing registers post := by
  obtain ⟨results, returns, holds⟩ := call
  refine ⟨⟨results, returns⟩, fun other otherReturns => ?_⟩
  rwa [otherReturns.unique returns]

section Immediates

/-! ## Steps of a counter -/

variable {value : BitVec n}

theorem toNat_add_one
    (fits : value.toNat + 1 < 2 ^ n) :
    (value + BitVec.ofInt n 1).toNat = value.toNat + 1 := by
  have one : (BitVec.ofInt n 1).toNat = 1 := by
    rw [BitVec.ofInt_ofNat, BitVec.toNat_ofNat, Nat.mod_eq_of_lt (by omega)]
  rw [BitVec.toNat_add, one, Nat.mod_eq_of_lt fits]

theorem add_neg_eq_sub
    (amount : Nat) :
    value + BitVec.ofInt n (-amount) = value - BitVec.ofNat n amount := by
  rw [BitVec.ofInt_neg, BitVec.ofInt_natCast, BitVec.sub_eq_add_neg]

theorem toNat_add_neg
    {amount : Nat}
    (within : amount ≤ value.toNat) :
    (value + BitVec.ofInt n (-amount)).toNat = value.toNat - amount := by
  have same : (BitVec.ofNat n amount).toNat = amount := by
    rw [BitVec.toNat_ofNat, Nat.mod_eq_of_lt
      (Nat.lt_of_le_of_lt within value.isLt)]
  rw [add_neg_eq_sub, BitVec.toNat_sub_of_le (by rwa [BitVec.le_def, same]),
    same]

end Immediates

/-! ## What the division instructions of the M extension compute -/

section Division

variable (dividend divisor : BitVec n)

/-- `divu`. -/
def divu : BitVec n :=
  if divisor = 0 then .allOnes n
  else .ofNat n (dividend.toNat / divisor.toNat)

/-- `div`. -/
def div : BitVec n :=
  if divisor = 0 then .allOnes n
  else .ofInt n (dividend.toInt.tdiv divisor.toInt)

/-- `remu`. -/
def remu : BitVec n :=
  if divisor = 0 then dividend
  else .ofNat n (dividend.toNat % divisor.toNat)

/-- `rem`. -/
def rem : BitVec n :=
  if divisor = 0 then dividend
  else .ofInt n (dividend.toInt.tmod divisor.toInt)

variable {dividend divisor}

theorem divu_eq
    (nonzero : divisor ≠ 0) :
    divu dividend divisor = dividend / divisor := by
  rw [divu, if_neg nonzero]
  apply BitVec.eq_of_toNat_eq
  rw [BitVec.toNat_udiv, BitVec.toNat_ofNat, Nat.mod_eq_of_lt]
  exact Nat.lt_of_le_of_lt (Nat.div_le_self _ _) dividend.isLt

theorem remu_eq
    (nonzero : divisor ≠ 0) :
    remu dividend divisor = dividend % divisor := by
  rw [remu, if_neg nonzero]
  apply BitVec.eq_of_toNat_eq
  rw [BitVec.toNat_umod, BitVec.toNat_ofNat, Nat.mod_eq_of_lt]
  exact Nat.lt_of_le_of_lt (Nat.mod_le _ _) dividend.isLt

/-- The quotient of the magnitudes, negative where the signs differ. -/
theorem div_eq
    (nonzero : divisor ≠ 0) :
    div dividend divisor =
      if (dividend ^^^ divisor).msb then -(dividend.abs / divisor.abs)
      else dividend.abs / divisor.abs := by
  have signed : div dividend divisor = dividend.sdiv divisor := by
    rw [div, if_neg nonzero]
    apply BitVec.eq_of_toInt_eq
    rw [BitVec.toInt_sdiv, BitVec.toInt_ofInt]
  rw [signed, BitVec.sdiv_eq, BitVec.msb_xor, BitVec.abs, BitVec.abs]
  cases dividend.msb <;> cases divisor.msb <;> simp

/-- The remainder of the magnitudes, with the sign of the dividend. -/
theorem rem_eq
    (nonzero : divisor ≠ 0) :
    rem dividend divisor =
      if dividend.msb then -(dividend.abs % divisor.abs)
      else dividend.abs % divisor.abs := by
  have signed : rem dividend divisor = dividend.srem divisor := by
    rw [rem, if_neg nonzero]
    apply BitVec.eq_of_toInt_eq
    rw [BitVec.toInt_ofInt, ← BitVec.toInt_srem, BitVec.toInt_bmod_cancel]
  rw [signed, BitVec.srem_eq, BitVec.abs, BitVec.abs]
  cases dividend.msb <;> cases divisor.msb <;> simp

theorem abs_eq_zero :
    dividend.abs = 0 ↔ dividend = 0 := by
  rw [BitVec.abs]
  split_ifs <;> simp

/-- The quotient and the remainder of the signed division make up the
dividend. -/
theorem rem_eq_sub
    (nonzero : divisor ≠ 0) :
    rem dividend divisor = dividend - divisor * div dividend divisor := by
  have whole := congrArg (BitVec.ofInt n)
    (Int.mul_tdiv_add_tmod dividend.toInt divisor.toInt)
  rw [BitVec.ofInt_add, BitVec.ofInt_mul, BitVec.ofInt_toInt,
    BitVec.ofInt_toInt] at whole
  rw [rem, div, if_neg nonzero, if_neg nonzero, BitVec.eq_sub_iff_add_eq,
    BitVec.add_comm, whole]

end Division

end Riscv
end EchelonSbi
