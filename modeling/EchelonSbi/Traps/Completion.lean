import EchelonSbi.Traps.Underway

/-!
# Handlers come to an end

From wherever the hart is in a handler that neither halts nor switches to another
context, it can go on to the return from the trap.
-/

namespace EchelonSbi
namespace Traps

open Riscv
open HandlerCode (exception_c_handler SbiCalls HandlerEnd Ends)

variable {xlen : Xlen} {served : Served xlen} {sbi : SbiCalls xlen} {index : Nat}
  {before : Config xlen.bits} {cause tval : Word xlen}
  {post : HandlerEnd xlen → CPU_Context xlen → Prop}

/-- The hart can return from the trap. -/
def Finishes (served : Served xlen) (sbi : SbiCalls xlen) (level : Level xlen) : Prop :=
  ∃ last, LevelReaches served sbi level last ∧ last.stage = .left

section Steps

variable {level next : Level xlen} {config after : Config xlen.bits} {stage : Stage xlen}
  {context : CPU_Context xlen} {machine : Machine xlen.bits}

theorem Finishes.of_step
    (step : LevelStep served sbi level next)
    (finishes : Finishes served sbi next) :
    Finishes served sbi level := by
  obtain ⟨last, run, done⟩ := finishes
  exact ⟨last, .head step run, done⟩

/-- A line of the trap code. -/
theorem LevelStep.of_execute
    {line : Nat}
    {labels : List Nat}
    {instr : PrivInstr TrapName}
    (text : stage.Text)
    (fetched : served.firmware.lines[line]? = some ⟨labels, instr⟩)
    (other : instr ≠ .mret)
    (executes : served.firmware.execute line instr machine = some after) :
    LevelStep served sbi ⟨⟨served.firmware.place line, machine⟩, stage, context⟩
      ⟨after, stage, context⟩ := by
  apply LevelStep.line text
  · exact Program.not_returning_of_getElem? fetched other
  · rw [Program.next_of_getElem? fetched]
    exact executes

theorem LevelReaches.line
    {line : Nat}
    {labels : List Nat}
    {instr : PrivInstr TrapName}
    (run : LevelReaches served sbi level
      ⟨⟨served.firmware.place line, machine⟩, stage, context⟩)
    (text : stage.Text)
    (fetched : served.firmware.lines[line]? = some ⟨labels, instr⟩)
    (other : instr ≠ .mret)
    (executes : served.firmware.execute line instr machine = some after) :
    LevelReaches served sbi level ⟨after, stage, context⟩ :=
  run.tail (.of_execute text fetched other executes)

/-- Lines that are executed with interrupts off. -/
theorem levelReaches_of_path
    (text : stage.Text)
    (path : served.firmware.QuietPath config after) :
    LevelReaches served sbi ⟨config, stage, context⟩ ⟨after, stage, context⟩ := by
  induction path with
  | refl => exact .refl
  | tail _ step inductionHypothesis =>
      exact inductionHypothesis.tail (.line text step.inside step.executes)

theorem Finishes.of_line
    {line : Nat}
    {labels : List Nat}
    {instr : PrivInstr TrapName}
    (text : stage.Text)
    (fetched : served.firmware.lines[line]? = some ⟨labels, instr⟩)
    (other : instr ≠ .mret)
    (executes : served.firmware.execute line instr machine = some after)
    (finishes : Finishes served sbi ⟨after, stage, context⟩) :
    Finishes served sbi
      ⟨⟨served.firmware.place line, machine⟩, stage, context⟩ :=
  .of_step (.of_execute text fetched other executes) finishes

theorem Finishes.of_path
    (text : stage.Text)
    (path : served.firmware.QuietPath config after)
    (finishes : Finishes served sbi ⟨after, stage, context⟩) :
    Finishes served sbi ⟨config, stage, context⟩ := by
  obtain ⟨last, run, done⟩ := finishes
  exact ⟨last, (levelReaches_of_path text path).trans run, done⟩

/-- The rest of `switch_context` and `s_delegation_trampoline`. -/
theorem Leaving.finishes
    (leaving : Leaving served index before post config stage context) :
    Finishes served sbi ⟨config, stage, context⟩ := by
  obtain ⟨pc, last, machine, path, returning, quiet, serving, way⟩ := leaving.leaves
  have text : stage.Text := by
    cases way with
    | resumes => exact .inl rfl
    | delegates => exact .inr rfl
  apply Finishes.of_path text path
  exact .of_step (.leave text returning) ⟨_, .refl, rfl⟩

/-- From where the C code returns. -/
theorem Serving.finishes_returned
    (serving : Serving served index before machine context)
    (s0 : machine.get .s0 = served.arrays.context index)
    (done : post .returns context) :
    Finishes served sbi ⟨⟨served.firmware.place 78, machine⟩, .text, context⟩ ∧
      Finishes served sbi ⟨⟨served.firmware.place 80, machine⟩, .text, context⟩ := by
  obtain ⟨-, -, -, jumps, moves, switches, -⟩ := fetched_handlers served.firmware
  obtain ⟨-, -, -, -, joins⟩ := resolve_entry served.firmware
  have moved : Finishes served sbi
      ⟨⟨served.firmware.place 80, machine⟩, .text, context⟩ := by
    apply Finishes.of_line (.inl rfl) moves (by rintro ⟨⟩) rfl
    apply Finishes.of_line (.inl rfl) switches (by rintro ⟨⟩) rfl
    apply Leaving.finishes
    apply Leaving.of_clearing (serving.setReg .a0 (machine.get .s0)) _ done
    simpa using s0
  refine ⟨?_, moved⟩
  exact .of_line (.inl rfl) jumps (by rintro ⟨⟩)
    (Program.execute_branch rfl rfl joins) moved

theorem Serving.finishes_clearing
    (serving : Serving served index before machine context)
    (a0 : machine.get .a0 = served.arrays.context index)
    (done : post .returns context) :
    Finishes served sbi
      ⟨⟨served.firmware.place Firmware.switch, machine⟩, .text, context⟩ := by
  obtain ⟨-, -, -, -, -, switches, -⟩ := fetched_handlers served.firmware
  apply Finishes.of_line (.inl rfl) switches (by rintro ⟨⟩) rfl
  exact (Leaving.of_clearing serving a0 done).finishes

end Steps

/-! ## The call of the C code -/

/-- The hart comes to the call of the C code, with interrupts enabled if the word at
offset 8 of the context is not the one of M-mode. -/
theorem exists_calling
    (sbi : SbiCalls xlen)
    (armed : Armed served index before.machine)
    (exception : 0 ≤ cause.toInt)
    (tval : Word xlen) :
    ∃ machine,
      LevelReaches served sbi (Level.start served index before cause tval)
        ⟨⟨served.firmware.place 77, machine⟩, .text, trapContext served index before⟩ ∧
      Serving served index before machine (trapContext served index before) ∧
      Arguments (served.arrays.context index) cause tval machine.get ∧
      ((trapContext served index before).offset_8 ≠ 3 → machine.MIE = true) := by
  obtain ⟨machine, path, quiet, serving, arguments, a3, a4⟩ :=
    exists_ready armed exception tval
  obtain ⟨branches, enables, -⟩ := fetched_handlers served.firmware
  obtain ⟨-, -, -, skips, -⟩ := resolve_entry served.firmware
  have reached : LevelReaches served sbi (Level.start served index before cause tval)
      ⟨⟨served.firmware.place 75, machine⟩, .text, trapContext served index before⟩ :=
    levelReaches_of_path (.inl rfl) path
  by_cases machineMode : machine.get .a3 = machine.get .a4
  · have jumps : (Instr.beq .a3 .a4 (.f 4)).jumps machine.registers = some (.f 4) :=
      if_pos machineMode
    have skipped := reached.line (.inl rfl) branches (by rintro ⟨⟩)
      (Program.execute_branch rfl jumps skips)
    refine ⟨machine, skipped, serving, arguments, fun apart => ?_⟩
    exact absurd (a3.symm.trans (machineMode.trans a4)) apart
  · have falls : (Instr.beq .a3 .a4 (.f 4)).jumps machine.registers = none :=
      if_neg machineMode
    have fallen := reached.line (.inl rfl) branches (by rintro ⟨⟩)
      (Program.execute_fall rfl falls)
    have enabled := fallen.line (.inl rfl) enables (by rintro ⟨⟩) rfl
    rw [a3, a4] at machineMode
    refine ⟨_, enabled, serving.enabled machineMode, arguments,
      fun _ => ?_⟩
    have mask := @getLsbD_pow xlen 3 (by decide) 3
    rw [show (2 : Nat) ^ 3 = 0x8 from rfl] at mask
    simp [Machine.MIE, PrivInstr.effect, mask]

/-- The C code is called. -/
theorem LevelReaches.enter
    {level : Level xlen}
    {machine : Machine xlen.bits}
    {context : CPU_Context xlen}
    (run : LevelReaches served sbi level
      ⟨⟨served.firmware.place 77, machine⟩, .text, context⟩) :
    LevelReaches served sbi level
      ⟨⟨served.firmware.names.address .exception_c_handler,
          machine.setReg .ra (served.firmware.place 78)⟩,
        .code (exception_c_handler (machine.get .a1) (machine.get .a2))
          (machine.setReg .ra (served.firmware.place 78)), context⟩ := by
  obtain ⟨-, -, calls, -⟩ := fetched_handlers served.firmware
  have called := run.line (.inl rfl) calls (by rintro ⟨⟩) rfl
  have enter := @LevelStep.enter _ served sbi
    ⟨served.firmware.names.address .exception_c_handler,
      machine.setReg .ra (served.firmware.place 78)⟩ context rfl
  simp only [Machine.get_setReg, reduceCtorEq, false_and, if_false] at enter
  exact called.tail enter

section Handled

variable (handled : Handled served sbi index before cause tval post)
include handled

theorem Serving.finishes_delegating
    {machine : Machine xlen.bits}
    {context : CPU_Context xlen}
    (serving : Serving served index before machine context)
    (a0 : machine.get .a0 = served.arrays.context index)
    (done : post (.delegates (machine.get .a1) (machine.get .a2)) context) :
    Finishes served sbi
      ⟨⟨served.firmware.place Firmware.trampoline, machine⟩, .trampoline, context⟩ := by
  obtain ⟨-, -, -, -, -, -, trampolines⟩ := fetched_handlers served.firmware
  apply Finishes.of_line (.inr rfl) trampolines (by rintro ⟨⟩) rfl
  exact (Leaving.of_delegating handled serving a0 done).finishes

variable (goesOn : ∀ context, ¬post .halts context ∧ ¬post .switches context)
include goesOn

/-- From wherever the C code is. -/
theorem Serving.finishes_handling
    {config : Config xlen.bits}
    {code : HandlerCode xlen}
    {call : Machine xlen.bits}
    {context : CPU_Context xlen}
    (serving : Serving served index before config.machine context)
    (arguments : Arguments (served.arrays.context index) cause tval call.get)
    (ra : call.get .ra = served.firmware.place 78)
    (ends : Ends sbi (Separate served index before) post context code) :
    Finishes served sbi ⟨config, .code code call, context⟩ := by
  have inside := handled.armed.inside
  induction code generalizing config context with
  | ask question rest inductionHypothesis =>
      exact .of_step (.ask 0) (inductionHypothesis 0 serving (ends 0))
  | printm format values rest inductionHypothesis =>
      exact .of_step .printm (inductionHypothesis serving ends)
  | print_reg_state rest inductionHypothesis =>
      exact .of_step .print_reg_state (inductionHypothesis serving ends)
  | execution_mode rest inductionHypothesis =>
      rw [Ends, ← serving.execution_mode, ← arguments.a0] at ends
      exact .of_step .execution_mode (inductionHypothesis _ serving ends)
  | get reg rest inductionHypothesis =>
      refine .of_step .get (inductionHypothesis _ serving (ends _ fun separate => ?_))
      rw [arguments.a0, ← serving.saved separate]
      rfl
  | set reg value rest inductionHypothesis =>
      apply Finishes.of_step .set
      rw [arguments.a0]
      exact inductionHypothesis (serving.store inside _ _) ends
  | disable rest inductionHypothesis =>
      exact .of_step .disable (inductionHypothesis serving.disabled ends)
  | call_to_sbi EID FID params rest inductionHypothesis =>
      by_cases returns : ∃ result, sbi EID FID params result
      · obtain ⟨result, returned⟩ := returns
        exact .of_step (.call_to_sbi returned)
          (inductionHypothesis result serving (ends.1 result returned))
      · exact absurd (ends.2 (not_exists.mp returns)) (goesOn context).2
  | s_delegation_trampoline cause_value mtval =>
      have delegates := @LevelStep.delegate _ served sbi config
        ⟨served.firmware.place Firmware.trampoline,
          ((config.machine.setReg .a0 (call.get .a0)).setReg .a1 cause_value).setReg .a2
            mtval⟩ cause_value mtval call context
        ⟨rfl, rfl, fun _ _ _ _ => rfl, fun _ => rfl⟩ rfl (by simp) (by simp) (by simp)
      apply Finishes.of_step delegates
      apply Serving.finishes_delegating handled
      · exact ((serving.setReg _ _).setReg _ _).setReg _ _
      · simpa using arguments.a0
      · simpa [Ends] using ends
  | idle_loop => exact absurd ends (goesOn context).1
  | «return» =>
      have returns := @LevelStep.return _ served sbi config
        ⟨call.get .ra, config.machine.setReg .s0 (call.get .s0)⟩ call context
        ⟨rfl, rfl, fun _ _ _ _ => rfl, fun _ => rfl⟩ rfl (by simp)
      apply Finishes.of_step returns
      rw [ra]
      refine ((serving.setReg .s0 (call.get .s0)).finishes_returned ?_ ends).1
      simpa using arguments.s0

/-- From where the C code is called. -/
theorem Serving.finishes_called
    {machine : Machine xlen.bits}
    (serving : Serving served index before machine (trapContext served index before))
    (arguments : Arguments (served.arrays.context index) cause tval machine.get)
    (ra : machine.get .ra = served.firmware.place 78) :
    Finishes served sbi
      ⟨⟨served.firmware.names.address .exception_c_handler, machine⟩, .text,
        trapContext served index before⟩ := by
  have ends := handled.ends
  rw [← arguments.a1, ← arguments.a2] at ends
  apply Finishes.of_step (.enter rfl)
  exact serving.finishes_handling handled goesOn arguments ra ends

theorem Serving.finishes_calling
    {machine : Machine xlen.bits}
    (serving : Serving served index before machine (trapContext served index before))
    (arguments : Arguments (served.arrays.context index) cause tval machine.get) :
    Finishes served sbi
      ⟨⟨served.firmware.place 77, machine⟩, .text, trapContext served index before⟩ := by
  obtain ⟨-, -, calls, -⟩ := fetched_handlers served.firmware
  apply Finishes.of_line (.inl rfl) calls (by rintro ⟨⟩) rfl
  apply (serving.setReg .ra _).finishes_called handled goesOn
  · refine ⟨?_, ?_, ?_, ?_⟩
    · simpa using arguments.s0
    · simpa using arguments.a0
    · simpa using arguments.a1
    · simpa using arguments.a2
  · simp

/-- From where interrupts are enabled. -/
theorem Serving.finishes_enabling
    {machine : Machine xlen.bits}
    (serving : Serving served index before machine (trapContext served index before))
    (arguments : Arguments (served.arrays.context index) cause tval machine.get)
    (apart : (trapContext served index before).offset_8 ≠ 3) :
    Finishes served sbi
      ⟨⟨served.firmware.place 76, machine⟩, .text, trapContext served index before⟩ := by
  obtain ⟨-, enables, -⟩ := fetched_handlers served.firmware
  apply Finishes.of_line (.inl rfl) enables (by rintro ⟨⟩) rfl
  exact (serving.enabled apart).finishes_calling handled goesOn arguments

/-- A handler that goes on returns from the trap. -/
theorem Underway.finishes
    {level : Level xlen}
    (underway : Underway served sbi index before cause tval post level) :
    Finishes served sbi level := by
  cases underway with
  | @entering config machine path ready =>
      obtain ⟨quiet, serving, arguments, a3, a4⟩ := ready
      obtain ⟨branches, -⟩ := fetched_handlers served.firmware
      obtain ⟨-, -, -, skips, -⟩ := resolve_entry served.firmware
      apply Finishes.of_path (.inl rfl) path
      by_cases machineMode : machine.get .a3 = machine.get .a4
      · have jumps : (Instr.beq .a3 .a4 (.f 4)).jumps machine.registers = some (.f 4) :=
          if_pos machineMode
        apply Finishes.of_line (.inl rfl) branches (by rintro ⟨⟩)
          (Program.execute_branch rfl jumps skips)
        exact serving.finishes_calling handled goesOn arguments
      · have falls : (Instr.beq .a3 .a4 (.f 4)).jumps machine.registers = none :=
          if_neg machineMode
        apply Finishes.of_line (.inl rfl) branches (by rintro ⟨⟩)
          (Program.execute_fall rfl falls)
        rw [a3, a4] at machineMode
        exact serving.finishes_enabling handled goesOn arguments machineMode
  | @spot config stage context serving spot =>
      obtain ⟨pc, machine⟩ := config
      cases spot with
      | enabling arguments apart =>
          exact serving.finishes_enabling handled goesOn arguments apart
      | calling arguments => exact serving.finishes_calling handled goesOn arguments
      | called arguments ra => exact serving.finishes_called handled goesOn arguments ra
      | handling arguments ra ends =>
          exact serving.finishes_handling handled goesOn arguments ra ends
      | returned s0 done => exact (serving.finishes_returned s0 done).1
      | joining s0 done => exact (serving.finishes_returned s0 done).2
      | clearing a0 done => exact serving.finishes_clearing a0 done
      | delegating a0 done => exact serving.finishes_delegating handled a0 done
  | leaving leaving => exact leaving.finishes
  | left => exact ⟨_, .refl, rfl⟩
  | gone _ done => exact absurd done (not_or.mpr (goesOn _))

end Handled

end Traps
end EchelonSbi
