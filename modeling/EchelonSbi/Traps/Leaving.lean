import EchelonSbi.Traps.Entry
import Mathlib.Tactic.IntervalCases

/-!
# The ways out of a trap handler

`switch_context` returns to the program counter, the mode and the registers of a
context.  `s_delegation_trampoline` goes to the trap handler of S-mode instead, as
if the trap had been delegated.
-/

namespace EchelonSbi
namespace Traps

open Riscv

/-! ## Bits of `mstatus` -/

/-- The bits of `mstatus` that traps to M-mode change: MIE, MPIE and MPP. -/
def trapBits : List Nat :=
  [3, 7, 11, 12]

/-- Two values of `mstatus` agree but for the bits of traps to M-mode. -/
def SameStatus (status other : BitVec w) : Prop :=
  ∀ bit ∉ trapBits, status.getLsbD bit = other.getLsbD bit

section Bits

variable {xlen : Xlen}

theorem SameStatus.trans
    {first second third : Word xlen}
    (one : SameStatus first second)
    (other : SameStatus second third) :
    SameStatus first third :=
  fun bit outside => (one bit outside).trans (other bit outside)

theorem getLsbD_three (bit : Nat) :
    (3 : Word xlen).getLsbD bit = decide (bit < 2) := by
  have value : Nat.testBit 3 bit = decide (bit < 2) := Nat.testBit_two_pow_sub_one 2 bit
  have wide : 32 ≤ xlen.bits := by
    cases xlen <;> decide
  rw [BitVec.ofNat_eq_ofNat, BitVec.getLsbD_ofNat, value, ← Bool.decide_and,
    decide_eq_decide]
  omega

theorem getLsbD_pow
    {power : Nat}
    (inside : power < 32)
    (bit : Nat) :
    (BitVec.ofNat xlen.bits (2 ^ power)).getLsbD bit = decide (bit = power) := by
  have wide : 32 ≤ xlen.bits := by
    cases xlen <;> decide
  rw [BitVec.getLsbD_ofNat, Nat.testBit_two_pow, ← Bool.decide_and, decide_eq_decide]
  omega

/-- MIE is cleared by `csrci mstatus, 0x8`. -/
theorem getLsbD_clear_MIE
    (status : Word xlen)
    (bit : Nat) :
    (status &&& ~~~BitVec.ofNat xlen.bits 0x8).getLsbD bit =
      (status.getLsbD bit && decide (bit ≠ 3)) := by
  have mask := @getLsbD_pow xlen 3 (by decide) bit
  rw [BitVec.getLsbD_and, BitVec.getLsbD_not,
    show BitVec.ofNat xlen.bits 0x8 = BitVec.ofNat xlen.bits (2 ^ 3) from rfl, mask]
  by_cases inside : bit < xlen.bits
  · simp [inside]
  · simp [BitVec.getLsbD_of_ge status bit (Nat.le_of_not_lt inside)]

/-- The `mstatus` with which `switch_context` leaves. -/
theorem getLsbD_resume_status
    (status mode : Word xlen)
    (bit : Nat) :
    ((status &&& ~~~((3 : Word xlen) <<< 11) ||| BitVec.ofNat xlen.bits 0x80) |||
        (mode &&& 3) <<< 11).getLsbD bit =
      if bit = 7 then true
      else if bit = 11 then mode.getLsbD 0
      else if bit = 12 then mode.getLsbD 1
      else status.getLsbD bit := by
  have wide : 32 ≤ xlen.bits := by
    cases xlen <;> decide
  have mpie := @getLsbD_pow xlen 7 (by decide) bit
  rw [show (2 : Nat) ^ 7 = 0x80 from rfl] at mpie
  simp only [BitVec.getLsbD_or, BitVec.getLsbD_and, BitVec.getLsbD_not,
    BitVec.getLsbD_shiftLeft, getLsbD_three, mpie]
  by_cases seven : bit = 7
  · simp [seven]
  by_cases eleven : bit = 11
  · simp [eleven, show 11 < xlen.bits by omega]
  by_cases twelve : bit = 12
  · simp [twelve, show 12 < xlen.bits by omega]
  have apart : ¬(11 ≤ bit ∧ bit - 11 < 2) := by omega
  by_cases inside : bit < xlen.bits
  · by_cases low : bit < 11
    · simp [seven, eleven, twelve, inside, low]
    · have far : ¬bit - 11 < 2 := by omega
      simp [seven, eleven, twelve, inside, far]
  · have none := BitVec.getLsbD_of_ge status bit (Nat.le_of_not_lt inside)
    simp [seven, eleven, twelve, inside, none]

/-- A mode that was saved. -/
theorem getLsbD_mode
    (mode : Mode) :
    (BitVec.ofNat xlen.bits mode.bits).getLsbD 0 = mode.low ∧
      (BitVec.ofNat xlen.bits mode.bits).getLsbD 1 = mode.high := by
  cases xlen <;> cases mode <;> decide

/-- The mode of a trap is saved. -/
theorem saved_mode
    {status : Word xlen}
    {mode : Mode}
    (low : status.getLsbD 11 = mode.low)
    (high : status.getLsbD 12 = mode.high) :
    status >>> 11 &&& 3 = BitVec.ofNat xlen.bits mode.bits := by
  apply BitVec.eq_of_getLsbD_eq
  intro bit inside
  have parts := @getLsbD_mode xlen mode
  rw [BitVec.getLsbD_and, BitVec.getLsbD_ushiftRight, getLsbD_three]
  rcases Nat.lt_or_ge bit 2 with small | large
  · rw [decide_eq_true small, Bool.and_true]
    rcases Nat.lt_or_ge bit 1 with zero | one
    · obtain rfl : bit = 0 := by omega
      exact low.trans parts.1.symm
    · obtain rfl : bit = 1 := by omega
      exact high.trans parts.2.symm
  · rw [decide_eq_false (Nat.not_lt.mpr large), Bool.and_false, BitVec.getLsbD_ofNat]
    have bound : mode.bits < 2 ^ bit := by
      have four : 2 ^ 2 ≤ 2 ^ bit := Nat.pow_le_pow_right (by decide) large
      cases mode <;> simp only [Mode.bits] <;> omega
    rw [Nat.testBit_lt_two_pow bound, Bool.and_false]

end Bits

/-! ## The end of a trap -/

section Leave

variable {xlen : Xlen} {firmware : Firmware xlen} {machine : Machine xlen.bits}

/-- Where the blocks of `switch_context` are. -/
theorem holds_switch_blocks (firmware : Firmware xlen) :
    firmware.HoldsAt 81 [.plain (.csrci .mstatus 0x8)] ∧
      firmware.HoldsAt 82 (resumeTrap xlen) ∧
      firmware.HoldsAt 95 [.plain (.csrw .mstatus .a2)] ∧
      firmware.HoldsAt 96 (leaveTrap xlen ++ [.plain .mret, .plain (.jump .idle_loop)]) := by
  have clears := firmware.holds_switch.left
  simp only [switch_context, List.append_assoc] at clears
  have resumes := clears.right
  have writes := resumes.right
  exact ⟨clears.left, resumes.left, writes.left, writes.right⟩

/-- The registers of the context in `a0` are loaded in front of the return. -/
theorem leave_path
    {line : Nat}
    (quiet : machine.Quiet)
    (holds : firmware.HoldsAt line
      (leaveTrap xlen ++ [.plain .mret, .plain (.jump .idle_loop)])) :
    ∃ pc loaded,
      firmware.QuietPath ⟨firmware.place line, machine⟩ ⟨pc, loaded⟩ ∧
      firmware.Returning pc ∧ loaded.Quiet ∧ ContextLoaded machine loaded := by
  have path := Program.QuietPath.straight _ quiet holds.left rfl
  have quietLoaded := quiet.effects firmware.names
    (show straightBlock (leaveTrap xlen) = true from rfl)
  have same : effects firmware.names (leaveTrap xlen) machine =
      effects firmware.names (LOAD_REGS xlen .a0) machine := by
    simp only [leaveTrap, effects_append, effects_cons, effects_nil, Line.instr_plain,
      PrivInstr.effect_sfence_vma, PrivInstr.effect_fence_i]
  rw [same] at path quietLoaded
  exact ⟨_, _, path, Program.returning_of_getElem? holds.right.getElem?, quietLoaded,
    effects_LOAD_REGS machine⟩

/-- What `mret` does to `mstatus`. -/
theorem getLsbD_mret_status
    (machine : Machine xlen.bits)
    (bit : Nat) :
    ((Program.mret machine).machine.csrs .mstatus).getLsbD bit =
      if bit = 12 ∨ bit = 11 then false
      else if bit = 7 then true
      else if bit = 3 then (machine.csrs .mstatus).getLsbD 7
      else (machine.csrs .mstatus).getLsbD bit := by
  have wide : 32 ≤ xlen.bits := by
    cases xlen <;> decide
  have seven : 7 < xlen.bits := by omega
  have three : 3 < xlen.bits := by omega
  simp only [Program.mret, Function.update_self, getLsbD_setBit]
  by_cases twelve : bit = 12
  · simp [twelve]
  by_cases eleven : bit = 11
  · simp [eleven]
  by_cases same : bit = 7
  · simp [same, seven]
  by_cases own : bit = 3
  · simp [own, three]
  · simp [twelve, eleven, same, own]

/-- A hart has returned to a context. -/
structure Resumed
    (record : Word xlen) (mode : Mode) (machine : Machine xlen.bits)
    (after : Config xlen.bits) : Prop where
  pc : after.pc = machine.memory (regField record .zero)
  mode : after.machine.mode = mode
  regs : ∀ reg, reg ≠ .zero →
    after.machine.get reg = machine.memory (regField record reg)
  mscratch : after.machine.csrs .mscratch = record
  mie : after.machine.MIE = true
  status : SameStatus (after.machine.csrs .mstatus) (machine.csrs .mstatus)
  csrs : ∀ csr, csr ∉ [Csr.mstatus, .mscratch, .mepc] →
    after.machine.csrs csr = machine.csrs csr
  memory : after.machine.memory = machine.memory

/-- `switch_context`, with interrupts off, returns to the context in `a0`. -/
theorem resume_path
    (firmware : Firmware xlen)
    (quiet : machine.Quiet)
    {mode : Mode}
    (saved : machine.memory (field (machine.get .a0) 1) =
      BitVec.ofNat xlen.bits mode.bits) :
    ∃ pc last,
      firmware.QuietPath ⟨firmware.place 82, machine⟩ ⟨pc, last⟩ ∧
      firmware.Returning pc ∧ last.Quiet ∧
      Resumed (machine.get .a0) mode machine (Program.mret last) := by
  obtain ⟨-, resumes, writes, leaves⟩ := holds_switch_blocks firmware
  have path :
      firmware.QuietPath ⟨firmware.place 82, machine⟩
        ⟨firmware.place 95, effects firmware.names (resumeTrap xlen) machine⟩ :=
    Program.QuietPath.straight _ quiet resumes rfl
  have quietResume := quiet.effects firmware.names
    (show straightBlock (resumeTrap xlen) = true from rfl)
  have status : (effects firmware.names (resumeTrap xlen) machine).get .a2 =
      (machine.csrs .mstatus &&& ~~~((3 : Word xlen) <<< 11) |||
        BitVec.ofNat xlen.bits 0x80) |||
          (BitVec.ofNat xlen.bits mode.bits &&& 3) <<< 11 := by
    have word : machine.memory (machine.get .a0 + BitVec.ofNat xlen.bits xlen.bytes) =
        BitVec.ofNat xlen.bits mode.bits := by
      rwa [field, Nat.mul_one] at saved
    simp [resumeTrap, word]
  have a0 : (effects firmware.names (resumeTrap xlen) machine).get .a0 =
      machine.get .a0 := by
    simp [resumeTrap]
  have csrs : (effects firmware.names (resumeTrap xlen) machine).csrs =
      Function.update (Function.update machine.csrs .mscratch (machine.get .a0)) .mepc
        (machine.memory (regField (machine.get .a0) .zero)) := by
    simp [resumeTrap, regField]
  have memory : (effects firmware.names (resumeTrap xlen) machine).memory =
      machine.memory := by
    simp [resumeTrap]
  generalize effects firmware.names (resumeTrap xlen) machine = resumed
    at path quietResume status a0 csrs memory
  have bits (bit : Nat) : (resumed.get .a2).getLsbD bit =
      if bit = 7 then true
      else if bit = 11 then mode.low
      else if bit = 12 then mode.high
      else (machine.csrs .mstatus).getLsbD bit := by
    obtain ⟨low, high⟩ := @getLsbD_mode xlen mode
    rw [status, getLsbD_resume_status, low, high]
  have written :
      firmware.QuietStep ⟨firmware.place 95, resumed⟩
        ⟨firmware.place 96, resumed.setCsr .mstatus (resumed.get .a2)⟩ := by
    refine ⟨quietResume,
      Program.not_returning_of_getElem? writes.getElem? (by rintro ⟨⟩), ?_⟩
    rw [Program.next_of_getElem? writes.getElem?]
    rfl
  have quietWritten : (resumed.setCsr .mstatus (resumed.get .a2)).Quiet := by
    refine ⟨quietResume.mode, ?_⟩
    have mie := quiet.mie
    rw [Machine.MIE, Machine.csrs_setCsr, Function.update_self, bits]
    exact mie
  obtain ⟨pc, loaded, left, returning, quietLoaded, context⟩ :=
    leave_path quietWritten leaves
  refine ⟨pc, loaded, (path.tail written).trans left, returning, quietLoaded, ?_⟩
  have loadedStatus : loaded.csrs .mstatus = resumed.get .a2 := by
    rw [context.csrs, Machine.csrs_setCsr, Function.update_self]
  have others (csr : Csr) (apart : csr ≠ .mstatus) :
      (Program.mret loaded).machine.csrs csr = resumed.csrs csr := by
    have kept : (Program.mret loaded).machine.csrs csr = loaded.csrs csr :=
      Function.update_of_ne apart _ _
    rw [kept, context.csrs, Machine.csrs_setCsr, Function.update_of_ne apart]
  constructor
  · have pc := others .mepc (by decide)
    rw [csrs, Function.update_self] at pc
    exact pc
  · have fields : Mode.ofBits ((loaded.csrs .mstatus).getLsbD 12)
        ((loaded.csrs .mstatus).getLsbD 11) = mode := by
      rw [loadedStatus, bits, bits]
      exact Mode.ofBits_high_low mode
    exact fields
  · intro reg wired
    have value := context.loaded reg wired
    rw [Machine.memory_setCsr, Machine.get_setCsr, memory, a0] at value
    exact value
  · rw [others .mscratch (by decide), csrs, Function.update_of_ne (by decide),
      Function.update_self]
  · rw [Machine.MIE, getLsbD_mret_status, loadedStatus, bits]
    rfl
  · intro bit outside
    simp only [trapBits, List.mem_cons, List.not_mem_nil, or_false, not_or] at outside
    simp only [getLsbD_mret_status, loadedStatus, bits]
    simp [outside]
  · intro csr outside
    simp only [List.mem_cons, List.not_mem_nil, or_false, not_or] at outside
    rw [others csr outside.1, csrs, Function.update_of_ne outside.2.2,
      Function.update_of_ne outside.2.1]
  · exact context.memory.trans memory

end Leave

/-! ## The delegation to S-mode -/

section Delegate

variable {xlen : Xlen} {firmware : Firmware xlen} {machine : Machine xlen.bits}

/-- Where the blocks of `s_delegation_trampoline` are. -/
theorem holds_trampoline_blocks (firmware : Firmware xlen) :
    firmware.HoldsAt 131 [.plain (.csrci .mstatus 0x8)] ∧
      firmware.HoldsAt 132 (delegateCause xlen) ∧
      firmware.HoldsAt 140 [.plain (.int (.bne .ra .sp (.f 1))),
        .plain (.bge .a1 .zero (.f 1)), .plain (.int (.slli .t1 .a1 2)),
        .plain (.int (.add .t0 .t0 .t1))] ∧
      firmware.HoldsAt 144 (delegateStatus xlen) ∧
      firmware.HoldsAt 157 [.plain (.csrc .mstatus .t1), .plain (.csrs .mstatus .t0)] ∧
      firmware.HoldsAt 159
        (leaveTrap xlen ++ [.plain .mret, .plain (.jump .idle_loop)]) := by
  have clears := firmware.holds_trampoline
  simp only [s_delegation_trampoline, List.append_assoc] at clears
  have causes := clears.right
  have branches := causes.right
  have states := branches.right
  have writes := states.right
  exact ⟨clears.left, causes.left, branches.left, states.left, writes.left, writes.right⟩

/-- Where the branches of `s_delegation_trampoline` go. -/
theorem resolve_trampoline (firmware : Firmware xlen) :
    Program.resolve firmware.lines 140 (.f 1) = some 144 ∧
      Program.resolve firmware.lines 141 (.f 1) = some 144 := by
  rw [firmware.lines_eq]
  cases xlen <;> decide +kernel

/-- The `mstatus` with which the trampoline leaves. -/
theorem getLsbD_delegate_status
    (status mode : Word xlen)
    (bit : Nat) :
    (status &&& ~~~(BitVec.ofNat xlen.bits 0x19 <<< 8 ||| BitVec.ofNat xlen.bits 0x22) |||
        ((status &&& BitVec.ofNat xlen.bits 0x2 ||| BitVec.ofNat xlen.bits 0x80) <<< 4 |||
          (mode &&& BitVec.ofNat xlen.bits 1) <<< 8)).getLsbD bit =
      if bit = 12 ∨ bit = 1 then false
      else if bit = 11 then true
      else if bit = 5 then status.getLsbD 1
      else if bit = 8 then mode.getLsbD 0
      else status.getLsbD bit := by
  have wide : 32 ≤ xlen.bits := by
    cases xlen <;> decide
  have mask : (BitVec.ofNat xlen.bits 0x19 <<< 8 ||| BitVec.ofNat xlen.bits 0x22) =
      BitVec.ofNat xlen.bits 0x1922 := by
    cases xlen <;> decide
  have cleared : (BitVec.ofNat xlen.bits 0x1922).getLsbD bit =
      decide (bit ∈ [1, 5, 8, 11, 12]) := by
    rw [BitVec.getLsbD_ofNat]
    rcases Nat.lt_or_ge bit 13 with low | high
    · rw [decide_eq_true (show bit < xlen.bits by omega)]
      interval_cases bit <;> decide
    · have bound : 0x1922 < 2 ^ bit :=
        Nat.lt_of_lt_of_le (show 0x1922 < 2 ^ 13 by decide)
          (Nat.pow_le_pow_right (by decide) high)
      rw [Nat.testBit_lt_two_pow bound, Bool.and_false, eq_comm, decide_eq_false_iff_not]
      simp only [List.mem_cons, List.not_mem_nil, or_false]
      omega
  have sie (bit : Nat) := @getLsbD_pow xlen 1 (by decide) bit
  have mpie (bit : Nat) := @getLsbD_pow xlen 7 (by decide) bit
  have user (bit : Nat) := @getLsbD_pow xlen 0 (by decide) bit
  simp only [show (2 : Nat) ^ 1 = 0x2 from rfl, show (2 : Nat) ^ 7 = 0x80 from rfl,
    show (2 : Nat) ^ 0 = 1 from rfl] at sie mpie user
  rw [mask]
  simp only [BitVec.getLsbD_or, BitVec.getLsbD_and, BitVec.getLsbD_not,
    BitVec.getLsbD_shiftLeft, cleared, sie, mpie, user]
  by_cases moved : bit ∈ [1, 5, 8, 11, 12]
  · simp only [List.mem_cons, List.not_mem_nil, or_false] at moved
    rcases moved with rfl | rfl | rfl | rfl | rfl
    · simp
    · simp [show 5 < xlen.bits by omega]
    · simp [show 8 < xlen.bits by omega]
    · simp [show 11 < xlen.bits by omega]
    · simp
  · have places := moved
    simp only [List.mem_cons, List.not_mem_nil, or_false, not_or] at places
    have five : bit - 4 ≠ 1 := by omega
    have eleven : bit - 4 ≠ 7 := by omega
    have eight : bit - 8 = 0 → bit < 8 := by omega
    by_cases inside : bit < xlen.bits
    · simpa [moved, places, five, eleven, inside] using fun large _ small =>
        absurd (eight small) (Nat.not_lt.mpr large)
    · simp [inside, places, BitVec.getLsbD_of_ge status bit (Nat.le_of_not_lt inside)]

/-- A trap was delegated to S-mode. -/
structure Delegated
    (record cause tval : Word xlen) (trapped : Mode) (machine : Machine xlen.bits)
    (after : Config xlen.bits) : Prop where
  pc : after.pc = machine.csrs .stvec &&& ~~~3
  mode : after.machine.mode = .S
  regs : ∀ reg, reg ≠ .zero →
    after.machine.get reg = machine.memory (regField record reg)
  mscratch : after.machine.csrs .mscratch = record
  sepc : after.machine.csrs .sepc = machine.memory (regField record .zero)
  scause : after.machine.csrs .scause = cause
  stval : after.machine.csrs .stval = tval
  status : ∀ bit ∉ trapBits, (after.machine.csrs .mstatus).getLsbD bit =
    if bit = 1 then false
    else if bit = 5 then (machine.csrs .mstatus).getLsbD 1
    else if bit = 8 then trapped.low
    else (machine.csrs .mstatus).getLsbD bit
  csrs : ∀ csr, csr ∉ [Csr.mstatus, .mscratch, .mepc, .sepc, .scause, .stval] →
    after.machine.csrs csr = machine.csrs csr
  memory : after.machine.memory = machine.memory

/-- The registers behind the block that writes the cause. -/
def causedCsrs (machine : Machine xlen.bits) : Csr → Word xlen :=
  Function.update (Function.update (Function.update (Function.update machine.csrs
    .mscratch (machine.get .a0)) .scause (machine.get .a1)) .stval
      (machine.get .a2)) .sepc (machine.memory (regField (machine.get .a0) .zero))

/-- The hart behind the block that writes the cause. -/
structure Caused (machine caused : Machine xlen.bits) : Prop where
  quiet : caused.Quiet
  csrs : caused.csrs = causedCsrs machine
  memory : caused.memory = machine.memory
  a0 : caused.get .a0 = machine.get .a0
  a1 : caused.get .a1 = machine.get .a1
  t0 : caused.get .t0 = machine.csrs .stvec

/-- The trampoline writes the cause. -/
theorem caused_path
    (firmware : Firmware xlen)
    (quiet : machine.Quiet) :
    ∃ caused,
      firmware.QuietPath ⟨firmware.place 132, machine⟩ ⟨firmware.place 140, caused⟩ ∧
      Caused machine caused := by
  obtain ⟨-, causes, -⟩ := holds_trampoline_blocks firmware
  have path :
      firmware.QuietPath ⟨firmware.place 132, machine⟩
        ⟨firmware.place 140, effects firmware.names (delegateCause xlen) machine⟩ :=
    Program.QuietPath.straight _ quiet causes rfl
  refine ⟨_, path, ?_⟩
  constructor
  · exact quiet.effects firmware.names
      (show straightBlock (delegateCause xlen) = true from rfl)
  · simp [delegateCause, causedCsrs, regField]
  · simp [delegateCause]
  · simp [delegateCause]
  · simp [delegateCause]
  · simp [delegateCause]

/-- Both branches on an exception lead to the base address of the vector. -/
theorem based_path
    (firmware : Firmware xlen)
    {caused : Machine xlen.bits}
    (quiet : caused.Quiet)
    (exception : 0 ≤ (caused.get .a1).toInt) :
    firmware.QuietPath ⟨firmware.place 140, caused⟩ ⟨firmware.place 144, caused⟩ := by
  obtain ⟨-, -, branches, -⟩ := holds_trampoline_blocks firmware
  obtain ⟨vectored, direct⟩ := resolve_trampoline firmware
  by_cases apart : caused.get .ra = caused.get .sp
  · have fell := Program.QuietPath.fall quiet branches.getElem? rfl
      (if_neg (not_not.mpr apart))
    have second : firmware.lines[141]? = some ⟨[], .bge .a1 .zero (.f 1)⟩ :=
      (branches.drop (show 1 ≤ 4 by decide)).getElem?
    refine fell.tail ⟨quiet,
      Program.not_returning_of_getElem? second (by rintro ⟨⟩), ?_⟩
    have jumps : (PrivInstr.bge .a1 .zero (.f 1) : PrivInstr TrapName).jumps caused =
        some (.f 1) := by
      refine if_pos ?_
      rw [Machine.get_zero]
      simpa using exception
    rw [Program.next_of_getElem? second]
    simp only [Program.execute, jumps, direct, Option.map_some]
    rfl
  · exact .branch quiet branches.getElem? rfl (if_pos apart) vectored

/-- The hart behind the block that writes where to go on and computes the status: `t1`
holds what is cleared, `t0` what is set. -/
structure Stated
    (trapped : Mode) (machine stated : Machine xlen.bits) : Prop where
  quiet : stated.Quiet
  csrs : stated.csrs =
    Function.update (causedCsrs machine) .mepc (machine.csrs .stvec &&& ~~~3)
  memory : stated.memory = machine.memory
  a0 : stated.get .a0 = machine.get .a0
  t1 : stated.get .t1 = BitVec.ofNat xlen.bits 0x19 <<< 8 ||| BitVec.ofNat xlen.bits 0x22
  t0 : stated.get .t0 =
    (machine.csrs .mstatus &&& BitVec.ofNat xlen.bits 0x2 |||
      BitVec.ofNat xlen.bits 0x80) <<< 4 |||
        (BitVec.ofNat xlen.bits trapped.bits &&& BitVec.ofNat xlen.bits 1) <<< 8

theorem causedCsrs_mstatus (machine : Machine xlen.bits) :
    causedCsrs machine .mstatus = machine.csrs .mstatus := by
  rw [causedCsrs, Function.update_of_ne (by decide), Function.update_of_ne (by decide),
    Function.update_of_ne (by decide), Function.update_of_ne (by decide)]

/-- The trampoline computes the status. -/
theorem stated_path
    (firmware : Firmware xlen)
    {trapped : Mode}
    {caused : Machine xlen.bits}
    (after : Caused machine caused)
    (saved : machine.memory (field (machine.get .a0) 1) =
      BitVec.ofNat xlen.bits trapped.bits) :
    ∃ stated,
      firmware.QuietPath ⟨firmware.place 144, caused⟩ ⟨firmware.place 157, stated⟩ ∧
      Stated trapped machine stated := by
  obtain ⟨-, -, -, states, -⟩ := holds_trampoline_blocks firmware
  obtain ⟨quiet, csrs, memory, a0, -, t0⟩ := after
  have path :
      firmware.QuietPath ⟨firmware.place 144, caused⟩
        ⟨firmware.place 157, effects firmware.names (delegateStatus xlen) caused⟩ :=
    Program.QuietPath.straight _ quiet states rfl
  have oldStatus : caused.csrs .mstatus = machine.csrs .mstatus := by
    rw [csrs, causedCsrs_mstatus]
  refine ⟨_, path, ?_⟩
  constructor
  · exact quiet.effects firmware.names
      (show straightBlock (delegateStatus xlen) = true from rfl)
  · have mask : BitVec.ofInt xlen.bits (-4) = ~~~(3 : Word xlen) := by
      cases xlen <;> decide
    simp [delegateStatus, t0, mask, csrs]
  · simp [delegateStatus, memory]
  · simp [delegateStatus, a0]
  · simp [delegateStatus]
  · have word : caused.memory (caused.get .a0 + BitVec.ofNat xlen.bits xlen.bytes) =
        BitVec.ofNat xlen.bits trapped.bits := by
      rw [memory, a0]
      rwa [field, Nat.mul_one] at saved
    simp [delegateStatus, oldStatus, word]

/-- The hart before it leaves the trampoline. -/
structure Written
    (trapped : Mode) (machine written : Machine xlen.bits) : Prop where
  quiet : written.Quiet
  status : ∀ bit, (written.csrs .mstatus).getLsbD bit =
    if bit = 12 ∨ bit = 1 then false
    else if bit = 11 then true
    else if bit = 5 then (machine.csrs .mstatus).getLsbD 1
    else if bit = 8 then trapped.low
    else (machine.csrs .mstatus).getLsbD bit
  csrs : ∀ csr ≠ .mstatus, written.csrs csr =
    Function.update (causedCsrs machine) .mepc (machine.csrs .stvec &&& ~~~3) csr
  memory : written.memory = machine.memory
  a0 : written.get .a0 = machine.get .a0

/-- The trampoline writes the status, with interrupts off all the time. -/
theorem written_path
    (firmware : Firmware xlen)
    (quiet : machine.Quiet)
    {trapped : Mode}
    {stated : Machine xlen.bits}
    (after : Stated trapped machine stated) :
    ∃ written,
      firmware.QuietPath ⟨firmware.place 157, stated⟩ ⟨firmware.place 159, written⟩ ∧
      Written trapped machine written := by
  obtain ⟨-, -, -, -, writes, -⟩ := holds_trampoline_blocks firmware
  have second : firmware.lines[158]? = some ⟨[], .csrs .mstatus .t0⟩ :=
    (writes.drop (show 1 ≤ 2 by decide)).getElem?
  have clearing :
      firmware.QuietStep ⟨firmware.place 157, stated⟩ ⟨firmware.place 158,
        stated.setCsr .mstatus (stated.csrs .mstatus &&& ~~~stated.get .t1)⟩ := by
    refine ⟨after.quiet,
      Program.not_returning_of_getElem? writes.getElem? (by rintro ⟨⟩), ?_⟩
    rw [Program.next_of_getElem? writes.getElem?]
    rfl
  have quietCleared :
      (stated.setCsr .mstatus (stated.csrs .mstatus &&& ~~~stated.get .t1)).Quiet := by
    refine ⟨after.quiet.mode, ?_⟩
    have mie := after.quiet.mie
    rw [Machine.MIE] at mie
    rw [Machine.MIE, Machine.csrs_setCsr, Function.update_self, BitVec.getLsbD_and, mie,
      Bool.false_and]
  have stageStatus : stated.csrs .mstatus = machine.csrs .mstatus := by
    rw [after.csrs, Function.update_of_ne (by decide), causedCsrs_mstatus]
  generalize clearedMachine :
    stated.setCsr .mstatus (stated.csrs .mstatus &&& ~~~stated.get .t1) = cleared
      at clearing quietCleared
  have setting :
      firmware.QuietStep ⟨firmware.place 158, cleared⟩ ⟨firmware.place 159,
        cleared.setCsr .mstatus (cleared.csrs .mstatus ||| cleared.get .t0)⟩ := by
    refine ⟨quietCleared,
      Program.not_returning_of_getElem? second (by rintro ⟨⟩), ?_⟩
    rw [Program.next_of_getElem? second]
    rfl
  generalize writtenMachine :
    cleared.setCsr .mstatus (cleared.csrs .mstatus ||| cleared.get .t0) = written
      at setting
  have bits (bit : Nat) : (written.csrs .mstatus).getLsbD bit =
      if bit = 12 ∨ bit = 1 then false
      else if bit = 11 then true
      else if bit = 5 then (machine.csrs .mstatus).getLsbD 1
      else if bit = 8 then trapped.low
      else (machine.csrs .mstatus).getLsbD bit := by
    have value : written.csrs .mstatus =
        machine.csrs .mstatus &&&
            ~~~(BitVec.ofNat xlen.bits 0x19 <<< 8 ||| BitVec.ofNat xlen.bits 0x22) |||
          ((machine.csrs .mstatus &&& BitVec.ofNat xlen.bits 0x2 |||
              BitVec.ofNat xlen.bits 0x80) <<< 4 |||
            (BitVec.ofNat xlen.bits trapped.bits &&& BitVec.ofNat xlen.bits 1) <<< 8) := by
      rw [← writtenMachine, Machine.csrs_setCsr, Function.update_self, ← clearedMachine,
        Machine.csrs_setCsr, Function.update_self, Machine.get_setCsr, stageStatus,
        after.t1, after.t0]
    rw [value, getLsbD_delegate_status, (@getLsbD_mode xlen trapped).1]
  refine ⟨written, (Relation.ReflTransGen.single clearing).tail setting, ?_⟩
  constructor
  · refine ⟨by rw [← writtenMachine]; exact quietCleared.mode, ?_⟩
    rw [Machine.MIE, bits]
    exact quiet.mie
  · exact bits
  · intro csr apart
    rw [← writtenMachine, Machine.csrs_setCsr, Function.update_of_ne apart,
      ← clearedMachine, Machine.csrs_setCsr, Function.update_of_ne apart, after.csrs]
  · rw [← writtenMachine, ← clearedMachine]
    exact after.memory
  · rw [← writtenMachine, ← clearedMachine]
    exact after.a0

/-- The hart that leaves the trampoline is in S-mode with the trap. -/
theorem Written.delegated
    {trapped : Mode}
    {written loaded : Machine xlen.bits}
    (after : Written trapped machine written)
    (context : ContextLoaded written loaded) :
    Delegated (machine.get .a0) (machine.get .a1) (machine.get .a2) trapped machine
      (Program.mret loaded) := by
  have others (csr : Csr) (apart : csr ≠ .mstatus) :
      (Program.mret loaded).machine.csrs csr =
        Function.update (causedCsrs machine) .mepc (machine.csrs .stvec &&& ~~~3) csr := by
    have kept : (Program.mret loaded).machine.csrs csr = loaded.csrs csr :=
      Function.update_of_ne apart _ _
    rw [kept, context.csrs, after.csrs csr apart]
  constructor
  · have pc := others .mepc (by decide)
    rw [Function.update_self] at pc
    exact pc
  · have fields : Mode.ofBits ((loaded.csrs .mstatus).getLsbD 12)
        ((loaded.csrs .mstatus).getLsbD 11) = .S := by
      rw [context.csrs, after.status, after.status]
      rfl
    exact fields
  · intro reg wired
    have value := context.loaded reg wired
    rw [after.memory, after.a0] at value
    exact value
  · rw [others .mscratch (by decide), Function.update_of_ne (by decide), causedCsrs,
      Function.update_of_ne (by decide), Function.update_of_ne (by decide),
      Function.update_of_ne (by decide), Function.update_self]
  · rw [others .sepc (by decide), Function.update_of_ne (by decide), causedCsrs,
      Function.update_self]
  · rw [others .scause (by decide), Function.update_of_ne (by decide), causedCsrs,
      Function.update_of_ne (by decide), Function.update_of_ne (by decide),
      Function.update_self]
  · rw [others .stval (by decide), Function.update_of_ne (by decide), causedCsrs,
      Function.update_of_ne (by decide), Function.update_self]
  · intro bit outside
    simp only [trapBits, List.mem_cons, List.not_mem_nil, or_false, not_or] at outside
    simp only [getLsbD_mret_status, context.csrs, after.status]
    simp [outside]
  · intro csr outside
    simp only [List.mem_cons, List.not_mem_nil, or_false, not_or] at outside
    obtain ⟨status, scratch, mepc, sepc, scause, stval⟩ := outside
    rw [others csr status, Function.update_of_ne mepc, causedCsrs,
      Function.update_of_ne sepc, Function.update_of_ne stval,
      Function.update_of_ne scause, Function.update_of_ne scratch]
  · exact context.memory.trans after.memory

/-- `s_delegation_trampoline`, with interrupts off, delegates the trap of the
context in `a0`. -/
theorem delegate_path
    (firmware : Firmware xlen)
    (quiet : machine.Quiet)
    {trapped : Mode}
    (saved : machine.memory (field (machine.get .a0) 1) =
      BitVec.ofNat xlen.bits trapped.bits)
    (exception : 0 ≤ (machine.get .a1).toInt) :
    ∃ pc last,
      firmware.QuietPath ⟨firmware.place 132, machine⟩ ⟨pc, last⟩ ∧
      firmware.Returning pc ∧ last.Quiet ∧
      Delegated (machine.get .a0) (machine.get .a1) (machine.get .a2) trapped machine
        (Program.mret last) := by
  obtain ⟨-, -, -, -, -, leaves⟩ := holds_trampoline_blocks firmware
  obtain ⟨caused, causing, atCause⟩ := caused_path firmware quiet
  have based := based_path firmware atCause.quiet (by rwa [atCause.a1])
  obtain ⟨stated, stating, atStatus⟩ := stated_path firmware atCause saved
  obtain ⟨written, writing, atEnd⟩ := written_path firmware quiet atStatus
  obtain ⟨pc, loaded, left, returning, quietLoaded, context⟩ :=
    leave_path atEnd.quiet leaves
  exact ⟨pc, loaded, (((causing.trans based).trans stating).trans writing).trans left,
    returning, quietLoaded, atEnd.delegated context⟩

end Delegate

end Traps
end EchelonSbi
