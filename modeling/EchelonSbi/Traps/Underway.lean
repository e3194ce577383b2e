import EchelonSbi.Traps.Serving

/-!
# The way through the handler of an exception

From the trap the hart goes to `exception_c_handler`, through the nodes of its code,
and out of `switch_context` or `s_delegation_trampoline`, with interrupts wherever
they are enabled.
-/

namespace EchelonSbi
namespace Traps

open Riscv
open HandlerCode (exception_c_handler SbiCalls HandlerEnd Ends)

variable {xlen : Xlen}

/-- The registers of the call of `exception_c_handler`. -/
structure Arguments
    (record cause tval : Word xlen) (registers : Reg → Word xlen) : Prop where
  s0 : registers .s0 = record
  a0 : registers .a0 = record
  a1 : registers .a1 = cause
  a2 : registers .a2 = tval

section Underway

variable (served : Served xlen) (sbi : SbiCalls xlen) (index : Nat)
  (before : Config xlen.bits) (cause tval : Word xlen)
  (post : HandlerEnd xlen → CPU_Context xlen → Prop)

/-- Where the hart is while interrupts may be enabled, with the registers that it
needs there. -/
inductive Spot :
    Stage xlen → CPU_Context xlen → Word xlen → (Reg → Word xlen) → Prop where
  | enabling
      {registers : Reg → Word xlen}
      (arguments : Arguments (served.arrays.context index) cause tval registers)
      (apart : (trapContext served index before).offset_8 ≠ 3) :
      Spot .text (trapContext served index before) (served.firmware.place 76) registers
  | calling
      {registers : Reg → Word xlen}
      (arguments : Arguments (served.arrays.context index) cause tval registers) :
      Spot .text (trapContext served index before) (served.firmware.place 77) registers
  | called
      {registers : Reg → Word xlen}
      (arguments : Arguments (served.arrays.context index) cause tval registers)
      (ra : registers .ra = served.firmware.place 78) :
      Spot .text (trapContext served index before)
        (served.firmware.names.address .exception_c_handler) registers
  | handling
      {code : HandlerCode xlen} {call : Machine xlen.bits} {context : CPU_Context xlen}
      {pc : Word xlen} {registers : Reg → Word xlen}
      (arguments : Arguments (served.arrays.context index) cause tval call.get)
      (ra : call.get .ra = served.firmware.place 78)
      (ends : Ends sbi (Separate served index before) post context code) :
      Spot (.code code call) context pc registers
  | returned
      {context : CPU_Context xlen} {registers : Reg → Word xlen}
      (s0 : registers .s0 = served.arrays.context index)
      (done : post .returns context) :
      Spot .text context (served.firmware.place 78) registers
  | joining
      {context : CPU_Context xlen} {registers : Reg → Word xlen}
      (s0 : registers .s0 = served.arrays.context index)
      (done : post .returns context) :
      Spot .text context (served.firmware.place 80) registers
  | clearing
      {context : CPU_Context xlen} {registers : Reg → Word xlen}
      (a0 : registers .a0 = served.arrays.context index)
      (done : post .returns context) :
      Spot .text context (served.firmware.place Firmware.switch) registers
  | delegating
      {context : CPU_Context xlen} {registers : Reg → Word xlen}
      (a0 : registers .a0 = served.arrays.context index)
      (done : post (.delegates (registers .a1) (registers .a2)) context) :
      Spot .trampoline context (served.firmware.place Firmware.trampoline) registers

/-- How the hart returns from the trap: to the context, or to the kernel of the hart,
with the machine that the trap code found. -/
inductive Way :
    Stage xlen → CPU_Context xlen → Machine xlen.bits → Config xlen.bits → Prop where
  | resumes
      {context : CPU_Context xlen} {machine : Machine xlen.bits} {after : Config xlen.bits}
      (done : post .returns context)
      (resumed : Resumed (served.arrays.context index) before.machine.mode machine after) :
      Way .text context machine after
  | delegates
      {context : CPU_Context xlen} {machine : Machine xlen.bits} {after : Config xlen.bits}
      {cause_value mtval : Word xlen}
      (done : post (.delegates cause_value mtval) context)
      (delegated : Delegated (served.arrays.context index) cause_value mtval
        before.machine.mode machine after) :
      Way .trampoline context machine after

/-- In front of the branch around `csrsi mstatus, 0x8`. -/
structure Ready (machine : Machine xlen.bits) : Prop where
  quiet : machine.Quiet
  serving : Serving served index before machine (trapContext served index before)
  arguments : Arguments (served.arrays.context index) cause tval machine.get
  a3 : machine.get .a3 = (trapContext served index before).offset_8
  a4 : machine.get .a4 = 3

/-- The hart is in the rest of `switch_context` or `s_delegation_trampoline`. -/
structure Leaving
    (config : Config xlen.bits) (stage : Stage xlen) (context : CPU_Context xlen) :
    Prop where
  leaves : ∃ pc last machine,
    served.firmware.QuietPath config ⟨pc, last⟩ ∧
    served.firmware.Returning pc ∧
    last.Quiet ∧
    Serving served index before machine context ∧
    Way served index before post stage context machine (Program.mret last)

/-- The hart is on its way through the handler, which ends as `post` says. -/
inductive Underway : Level xlen → Prop where
  | entering
      {config : Config xlen.bits} {machine : Machine xlen.bits}
      (path : served.firmware.QuietPath config ⟨served.firmware.place 75, machine⟩)
      (ready : Ready served index before cause tval machine) :
      Underway ⟨config, .text, trapContext served index before⟩
  | spot
      {config : Config xlen.bits} {stage : Stage xlen} {context : CPU_Context xlen}
      (serving : Serving served index before config.machine context)
      (spot : Spot served sbi index before cause tval post stage context config.pc
        config.machine.get) :
      Underway ⟨config, stage, context⟩
  | leaving
      {config : Config xlen.bits} {stage : Stage xlen} {context : CPU_Context xlen}
      (leaving : Leaving served index before post config stage context) :
      Underway ⟨config, stage, context⟩
  | left
      {config : Config xlen.bits} {stage : Stage xlen} {context : CPU_Context xlen}
      {machine : Machine xlen.bits}
      (serving : Serving served index before machine context)
      (way : Way served index before post stage context machine config) :
      Underway ⟨config, .left, context⟩
  | gone
      {config : Config xlen.bits} {context : CPU_Context xlen}
      (serving : Serving served index before config.machine context)
      (done : post .halts context ∨ post .switches context) :
      Underway ⟨config, .gone, context⟩

end Underway

/-! ## Steps of the trap code -/

section Text

variable {served : Served xlen} {sbi : SbiCalls xlen} {config : Config xlen.bits}
  {machine : Machine xlen.bits} {stage : Stage xlen} {context : CPU_Context xlen}
  {next : Level xlen}

theorem Stage.Text.not_code
    {code : HandlerCode xlen}
    {call : Machine xlen.bits} :
    ¬(Stage.code code call).Text := by
  rintro (same | same) <;> cases same

/-- The lines of the trap code are not where a name is. -/
theorem Firmware.place_ne_address
    (firmware : Firmware xlen)
    {line : Nat}
    (inside : line < firmware.lines.length)
    (name : TrapName) :
    firmware.place line ≠ firmware.names.address name := by
  intro same
  have located := firmware.lineAt_place inside
  rw [same, firmware.outside] at located
  cases located

/-- The hart executes trap code or C code, or is done. -/
theorem Stage.text_or_code (stage : Stage xlen) :
    stage.Text ∨ (∃ code call, stage = .code code call) ∨ ¬stage.Open := by
  cases stage with
  | text => exact .inl (.inl rfl)
  | code code call => exact .inr (.inl ⟨code, call, rfl⟩)
  | trampoline => exact .inl (.inr rfl)
  | left => exact .inr (.inr not_false)
  | gone => exact .inr (.inr not_false)

/-- The handler goes on only while it is not done. -/
theorem LevelStep.open
    {level : Level xlen}
    (step : LevelStep served sbi level next) :
    level.stage.Open := by
  cases step with
  | line text => rcases text with rfl | rfl <;> trivial
  | leave text => rcases text with rfl | rfl <;> trivial
  | interrupt running => exact running
  | _ => trivial

/-- On a quiet path the hart goes on to its end. -/
theorem LevelStep.of_path
    {last : Config xlen.bits}
    (step : LevelStep served sbi ⟨config, stage, context⟩ next)
    (text : stage.Text)
    (path : served.firmware.QuietPath config last)
    (apart : config ≠ last) :
    ∃ after, served.firmware.QuietPath after last ∧ next = ⟨after, stage, context⟩ := by
  obtain ⟨middle, first, rest⟩ := path.cases_head.resolve_left apart
  cases step with
  | line _ _ executes =>
      obtain rfl := Option.some.inj (first.executes.symm.trans executes)
      exact ⟨_, rest, rfl⟩
  | leave _ returning => exact absurd returning first.inside
  | enter called =>
      have executes := first.executes
      rw [Program.next, called, served.firmware.outside] at executes
      cases executes
  | interrupt _ taken _ => exact absurd taken first.quiet.not_interruptible
  | _ => exact absurd text Stage.Text.not_code

/-- In front of `mret`, with interrupts off, the hart returns from the trap. -/
theorem LevelStep.of_returning
    (step : LevelStep served sbi ⟨config, stage, context⟩ next)
    (text : stage.Text)
    (returning : served.firmware.Returning config.pc)
    (quiet : config.machine.Quiet) :
    next = ⟨Program.mret config.machine, .left, context⟩ := by
  cases step with
  | line _ inside _ => exact absurd returning inside
  | leave _ _ => rfl
  | enter called =>
      obtain ⟨line, labels, located, -⟩ := returning
      rw [called, served.firmware.outside] at located
      cases located
  | interrupt _ taken _ => exact absurd taken quiet.not_interruptible
  | _ => exact absurd text Stage.Text.not_code

/-- At a line of the trap code that does not return it is executed, or an interrupt
is taken. -/
theorem LevelStep.of_line
    {line : Nat}
    {labels : List Nat}
    {instr : PrivInstr TrapName}
    (step : LevelStep served sbi ⟨config, stage, context⟩ next)
    (text : stage.Text)
    (pc : config.pc = served.firmware.place line)
    (fetched : served.firmware.lines[line]? = some ⟨labels, instr⟩)
    (other : instr ≠ .mret) :
    (∃ after, served.firmware.execute line instr config.machine = some after ∧
        next = ⟨after, stage, context⟩) ∨
      config.machine.Interruptible ∧
        ∃ cause tval after, Episode served cause tval config after ∧
          next = ⟨after, stage, context⟩ := by
  obtain ⟨place, machine⟩ := config
  obtain rfl : place = served.firmware.place line := pc
  have inside := Program.not_returning_of_getElem? fetched other
  obtain ⟨within, -⟩ := List.getElem?_eq_some_iff.mp fetched
  cases step with
  | line _ _ executes =>
      rw [Program.next_of_getElem? fetched] at executes
      exact .inl ⟨_, executes, rfl⟩
  | leave _ returning => exact absurd returning inside
  | enter called => exact absurd called (served.firmware.place_ne_address within _)
  | interrupt _ taken episode => exact .inr ⟨taken, _, _, _, episode, rfl⟩
  | _ => exact absurd text Stage.Text.not_code

/-- The lines around the calls of the C code. -/
theorem fetched_handlers (firmware : Firmware xlen) :
    firmware.lines[75]? = some ⟨[], .int (.beq .a3 .a4 (.f 4))⟩ ∧
      firmware.lines[76]? = some ⟨[], .csrsi .mstatus 0x8⟩ ∧
      firmware.lines[77]? = some ⟨[4], .call .exception_c_handler⟩ ∧
      firmware.lines[78]? = some ⟨[], .int (.j (.f 3))⟩ ∧
      firmware.lines[80]? = some ⟨[3], .int (.mv .a0 .s0)⟩ ∧
      firmware.lines[81]? = some ⟨[], .csrci .mstatus 0x8⟩ ∧
      firmware.lines[131]? = some ⟨[], .csrci .mstatus 0x8⟩ := by
  obtain ⟨-, -, -, -, -, -, -, -, calls⟩ := holds_entry_blocks firmware
  exact ⟨calls.getElem?, (calls.drop (show 1 ≤ 6 by decide)).getElem?,
    (calls.drop (show 2 ≤ 6 by decide)).getElem?,
    (calls.drop (show 3 ≤ 6 by decide)).getElem?,
    (calls.drop (show 5 ≤ 6 by decide)).getElem?,
    (holds_switch_blocks firmware).1.getElem?, (holds_trampoline_blocks firmware).1.getElem?⟩

/-- The word that decides whether interrupts are enabled. -/
theorem offset_8_contextAt
    (memory : Word xlen → Word xlen)
    (record : Word xlen) :
    (contextAt memory record).offset_8 = memory (field record (modeWord xlen)) := by
  cases xlen <;> rfl

/-- What is known of a hart that has returned from the trap. -/
theorem Underway.of_left
    {index : Nat}
    {before : Config xlen.bits}
    {cause tval : Word xlen}
    {post : HandlerEnd xlen → CPU_Context xlen → Prop}
    {level : Level xlen}
    (underway : Underway served sbi index before cause tval post level)
    (left : level.stage = .left) :
    ∃ stage machine,
      Serving served index before machine level.context ∧
      Way served index before post stage level.context machine level.config := by
  cases underway with
  | entering => cases left
  | spot _ spot =>
      generalize Config.pc _ = pc at spot
      generalize Machine.get _ = registers at spot
      cases spot <;> cases left
  | leaving leaving =>
      obtain ⟨_, _, _, _, _, _, _, way⟩ := leaving.leaves
      cases way <;> cases left
  | left serving way => exact ⟨_, _, serving, way⟩
  | gone => cases left

/-- Where interrupts are enabled the hart has all that the handler needs. -/
theorem Underway.serving
    {index : Nat}
    {before : Config xlen.bits}
    {cause tval : Word xlen}
    {post : HandlerEnd xlen → CPU_Context xlen → Prop}
    {level : Level xlen}
    (underway : Underway served sbi index before cause tval post level)
    (isOpen : level.stage.Open)
    (taken : level.config.machine.Interruptible) :
    Serving served index before level.config.machine level.context := by
  cases underway with
  | entering path ready => exact absurd taken (path.quiet ready.quiet).not_interruptible
  | spot serving => exact serving
  | leaving leaving =>
      obtain ⟨_, _, _, path, _, quiet, _⟩ := leaving.leaves
      exact absurd taken (path.quiet quiet).not_interruptible
  | left => exact absurd isOpen not_false
  | gone => exact absurd isOpen not_false

/-- The hart is in M-mode until it returns from the trap. -/
theorem Underway.mode
    {index : Nat}
    {before : Config xlen.bits}
    {cause tval : Word xlen}
    {post : HandlerEnd xlen → CPU_Context xlen → Prop}
    {level : Level xlen}
    (underway : Underway served sbi index before cause tval post level)
    (inside : level.stage ≠ .left) :
    level.config.machine.mode = .M := by
  cases underway with
  | entering path ready => exact (path.quiet ready.quiet).mode
  | spot serving => exact serving.mode
  | leaving leaving =>
      obtain ⟨_, _, _, path, _, quiet, _⟩ := leaving.leaves
      exact (path.quiet quiet).mode
  | left => exact absurd rfl inside
  | gone serving => exact serving.mode

end Text

/-! ## The way of every run -/

section Run

variable {served : Served xlen} {sbi : SbiCalls xlen} {index : Nat}
  {before : Config xlen.bits} {cause tval : Word xlen}
  {post : HandlerEnd xlen → CPU_Context xlen → Prop}

/-- The firmware can serve this exception, and its handler ends as `post` says. -/
structure Handled
    (served : Served xlen) (sbi : SbiCalls xlen) (index : Nat) (before : Config xlen.bits)
    (cause tval : Word xlen) (post : HandlerEnd xlen → CPU_Context xlen → Prop) :
    Prop where
  armed : Armed served index before.machine
  sound : Separate served index before ∨ before.machine.mode = .M
  exception : 0 ≤ cause.toInt
  ends : Ends sbi (Separate served index before) post (trapContext served index before)
    (exception_c_handler cause tval)
  delegates : ∀ cause_value mtval context,
    post (.delegates cause_value mtval) context → 0 ≤ cause_value.toInt

/-- `interrupt_entry_handler` makes the hart ready for the C code. -/
theorem exists_ready
    (armed : Armed served index before.machine)
    (exception : 0 ≤ cause.toInt)
    (tval : Word xlen) :
    ∃ machine,
      served.firmware.QuietPath (before.machine.trap before.pc cause tval)
        ⟨served.firmware.place 75, machine⟩ ∧
      Ready served index before cause tval machine := by
  have quiet := before.machine.quiet_trap before.pc cause tval
  have trapArmed := armed.trap before.pc cause tval
  have status := status_trap before.machine before.pc cause tval
  have others (csr : Csr) (outside : csr ∉ trapCsrs) :=
    csrs_trap before.machine before.pc cause tval outside
  have causeSaved : (before.machine.trap before.pc cause tval).machine.csrs .mcause =
      cause := by
    simp [Machine.trap]
  have valueSaved : (before.machine.trap before.pc cause tval).machine.csrs .mtval =
      tval := by
    simp [Machine.trap]
  have start : before.machine.trap before.pc cause tval =
      ⟨served.firmware.place 1, (before.machine.trap before.pc cause tval).machine⟩ :=
    congrArg (Config.mk · _) armed.mtvec
  have context {memory : Word xlen → Word xlen}
      (saved : SavedAt (served.arrays.context index)
        (before.machine.trap before.pc cause tval).machine memory) :=
    saved.contextAt armed.inside rfl
  rw [start]
  generalize (before.machine.trap before.pc cause tval).machine = trapped
    at quiet trapArmed status others causeSaved valueSaved context
  obtain ⟨ready, path, facts⟩ :=
    exception_path quiet trapArmed.arranged trapArmed.mscratch trapArmed.inside
      trapArmed.mhartid (causeSaved ▸ exception)
  have record := trapArmed.mscratch
  have saved := context (record ▸ facts.saved)
  have readyQuiet : ready.Quiet := by
    refine ⟨facts.mode.trans quiet.mode, ?_⟩
    rw [Machine.MIE, facts.csrs, Function.update_of_ne (by decide)]
    exact quiet.mie
  refine ⟨ready, path, readyQuiet, ?_, ?_, ?_, facts.a4⟩
  · constructor
    · exact readyQuiet.mode
    · rw [facts.csrs, Function.update_of_ne (by decide)]
      exact status
    · rw [facts.csrs, Function.update_self]
    · intro csr outside
      rw [List.mem_cons, not_or] at outside
      rw [facts.csrs, Function.update_of_ne outside.1]
      exact others csr outside.2
    · exact trapArmed.arranged.of_saved armed.inside (record ▸ facts.saved)
    · exact congrArg CPU_Context.execution_mode saved
    · rfl
    · intro enabled
      rw [readyQuiet.mie] at enabled
      cases enabled
    · exact fun _ => saved
  · exact ⟨facts.s0.trans record, facts.a0.trans record, facts.a1.trans causeSaved,
      facts.a2.trans valueSaved⟩
  · rw [facts.a3, record, ← saved]
    exact (offset_8_contextAt _ _).symm

variable (handled : Handled served sbi index before cause tval post)
include handled

/-- Interrupts leave the hart where it is. -/
theorem Underway.interrupted
    {config after : Config xlen.bits}
    {stage : Stage xlen}
    {context : CPU_Context xlen}
    (serving : Serving served index before config.machine context)
    (spot : Spot served sbi index before cause tval post stage context config.pc
      config.machine.get)
    (taken : config.machine.Interruptible)
    {number value : Word xlen}
    (episode : Episode served number value config after) :
    Underway served sbi index before cause tval post ⟨after, stage, context⟩ := by
  have armed := serving.armed handled.armed.mhartid handled.armed.mtvec
  have interrupted := episode.interrupted armed
  have registers : after.machine.get = config.machine.get := funext interrupted.regs
  apply Underway.spot
  · exact serving.interrupted handled.armed.inside handled.sound taken interrupted
  · rw [interrupted.pc, registers]
    exact spot

/-- A line of the trap code that leaves the hart at a spot. -/
theorem Underway.line
    {config : Config xlen.bits}
    {stage : Stage xlen}
    {context : CPU_Context xlen}
    {next : Level xlen}
    {line : Nat}
    {labels : List Nat}
    {instr : PrivInstr TrapName}
    (serving : Serving served index before config.machine context)
    (spot : Spot served sbi index before cause tval post stage context config.pc
      config.machine.get)
    (text : stage.Text)
    (step : LevelStep served sbi ⟨config, stage, context⟩ next)
    (pc : config.pc = served.firmware.place line)
    (fetched : served.firmware.lines[line]? = some ⟨labels, instr⟩)
    (other : instr ≠ .mret)
    (goes : ∀ after, served.firmware.execute line instr config.machine = some after →
      Underway served sbi index before cause tval post ⟨after, stage, context⟩) :
    Underway served sbi index before cause tval post next := by
  rcases step.of_line text pc fetched other with
    ⟨after, executes, rfl⟩ | ⟨taken, _, _, after, episode, rfl⟩
  · exact goes after executes
  · exact Underway.interrupted handled serving spot taken episode

/-- A step of the C code. -/
theorem Underway.handling
    {config : Config xlen.bits}
    {code : HandlerCode xlen}
    {call : Machine xlen.bits}
    {context : CPU_Context xlen}
    {next : Level xlen}
    (serving : Serving served index before config.machine context)
    (arguments : Arguments (served.arrays.context index) cause tval call.get)
    (ra : call.get .ra = served.firmware.place 78)
    (ends : Ends sbi (Separate served index before) post context code)
    (step : LevelStep served sbi ⟨config, .code code call, context⟩ next) :
    Underway served sbi index before cause tval post next := by
  have inside := handled.armed.inside
  cases step with
  | line text => exact absurd text Stage.Text.not_code
  | leave text => exact absurd text Stage.Text.not_code
  | work frame => exact .spot (serving.frame inside frame) (.handling arguments ra ends)
  | ask answer => exact .spot serving (.handling arguments ra (ends answer))
  | printm => exact .spot serving (.handling arguments ra ends)
  | print_reg_state => exact .spot serving (.handling arguments ra ends)
  | execution_mode =>
      rw [Ends, ← serving.execution_mode, ← arguments.a0] at ends
      exact .spot serving (.handling arguments ra ends)
  | get =>
      refine .spot serving (.handling arguments ra (ends _ fun separate => ?_))
      rw [arguments.a0, ← serving.saved separate]
      rfl
  | set =>
      rw [arguments.a0]
      exact .spot (serving.store inside _ _) (.handling arguments ra ends)
  | disable => exact .spot serving.disabled (.handling arguments ra ends)
  | call_to_sbi returns =>
      exact .spot serving (.handling arguments ra (ends.1 _ returns))
  | switch stays => exact .gone serving (.inr (ends.2 stays))
  | delegate frame pc a0 a1 a2 =>
      apply Underway.spot (serving.frame inside frame)
      rw [pc]
      apply Spot.delegating (a0.trans arguments.a0)
      rw [a1, a2]
      exact ends
  | halt => exact .gone serving (.inl ends)
  | «return» frame pc s0 =>
      apply Underway.spot (serving.frame inside frame)
      rw [pc, ra]
      exact .returned (s0.trans arguments.s0) ends
  | interrupt _ taken episode =>
      exact Underway.interrupted handled serving (.handling arguments ra ends) taken episode

omit handled in
/-- Behind `csrci mstatus, 0x8` in `switch_context`. -/
theorem Leaving.of_clearing
    {machine : Machine xlen.bits}
    {context : CPU_Context xlen}
    (serving : Serving served index before machine context)
    (a0 : machine.get .a0 = served.arrays.context index)
    (done : post .returns context) :
    Leaving served index before post ⟨served.firmware.place 82, disabled machine⟩ .text
      context := by
  have base : (disabled machine).get .a0 = served.arrays.context index := a0
  have saved := serving.disabled.execution_mode.trans serving.trapped
  rw [← base] at saved
  obtain ⟨pc, last, path, returning, quiet, resumed⟩ :=
    resume_path served.firmware (quiet_disabled serving.mode) saved
  rw [base] at resumed
  exact ⟨pc, last, _, path, returning, quiet, serving.disabled, .resumes done resumed⟩

/-- Behind `csrci mstatus, 0x8` in `s_delegation_trampoline`. -/
theorem Leaving.of_delegating
    {machine : Machine xlen.bits}
    {context : CPU_Context xlen}
    (serving : Serving served index before machine context)
    (a0 : machine.get .a0 = served.arrays.context index)
    (done : post (.delegates (machine.get .a1) (machine.get .a2)) context) :
    Leaving served index before post ⟨served.firmware.place 132, disabled machine⟩
      .trampoline context := by
  have base : (disabled machine).get .a0 = served.arrays.context index := a0
  have saved := serving.disabled.execution_mode.trans serving.trapped
  rw [← base] at saved
  obtain ⟨pc, last, path, returning, quiet, delegated⟩ :=
    delegate_path served.firmware (quiet_disabled serving.mode) saved
      (handled.delegates _ _ _ done)
  rw [base] at delegated
  exact ⟨pc, last, _, path, returning, quiet, serving.disabled, .delegates done delegated⟩

/-- A step of the trap code around the C code. -/
theorem Underway.text
    {config : Config xlen.bits}
    {stage : Stage xlen}
    {context : CPU_Context xlen}
    {next : Level xlen}
    (serving : Serving served index before config.machine context)
    (spot : Spot served sbi index before cause tval post stage context config.pc
      config.machine.get)
    (text : stage.Text)
    (step : LevelStep served sbi ⟨config, stage, context⟩ next) :
    Underway served sbi index before cause tval post next := by
  obtain ⟨-, enables, calls, jumps, moves, switches, trampolines⟩ :=
    fetched_handlers served.firmware
  obtain ⟨-, -, -, -, joins⟩ := resolve_entry served.firmware
  have start := spot
  generalize place : config.pc = pc at spot
  generalize held : config.machine.get = registers at spot
  cases spot with
  | enabling arguments apart =>
      apply Underway.line handled serving start text step place enables (by rintro ⟨⟩)
      rintro after ⟨⟩
      exact .spot (serving.enabled apart) (.calling (held ▸ arguments))
  | calling arguments =>
      apply Underway.line handled serving start text step place calls (by rintro ⟨⟩)
      rintro after ⟨⟩
      apply Underway.spot (serving.setReg _ _)
      rw [← held] at arguments
      refine .called ⟨?_, ?_, ?_, ?_⟩ (by simp)
      · simpa using arguments.s0
      · simpa using arguments.a0
      · simpa using arguments.a1
      · simpa using arguments.a2
  | called arguments ra =>
      cases step with
      | line _ _ executes =>
          rw [Program.next, place, served.firmware.outside] at executes
          cases executes
      | leave _ returning =>
          obtain ⟨line, labels, located, -⟩ := returning
          rw [place, served.firmware.outside] at located
          cases located
      | enter =>
          have ends := handled.ends
          rw [← arguments.a1, ← arguments.a2, ← held] at ends
          exact .spot serving (.handling (held ▸ arguments) (held ▸ ra) ends)
      | interrupt _ taken episode =>
          exact Underway.interrupted handled serving start taken episode
  | handling => exact absurd text Stage.Text.not_code
  | returned s0 done =>
      apply Underway.line handled serving start text step place jumps (by rintro ⟨⟩)
      intro after executes
      rw [Program.execute_branch rfl rfl joins] at executes
      cases executes
      exact .spot serving (.joining (held ▸ s0) done)
  | joining s0 done =>
      apply Underway.line handled serving start text step place moves (by rintro ⟨⟩)
      rintro after ⟨⟩
      apply Underway.spot (serving.setReg _ _)
      refine .clearing ?_ done
      rw [← held] at s0
      simpa using s0
  | clearing a0 done =>
      apply Underway.line handled serving start text step place switches (by rintro ⟨⟩)
      rintro after ⟨⟩
      rw [← held] at a0
      exact .leaving (.of_clearing serving a0 done)
  | delegating a0 done =>
      apply Underway.line handled serving start text step place trampolines (by rintro ⟨⟩)
      rintro after ⟨⟩
      rw [← held] at a0 done
      exact .leaving (.of_delegating handled serving a0 done)

/-- One step of the handler of an exception. -/
theorem Underway.step
    {level next : Level xlen}
    (underway : Underway served sbi index before cause tval post level)
    (step : LevelStep served sbi level next) :
    Underway served sbi index before cause tval post next := by
  cases underway with
  | @entering config machine path ready =>
      obtain ⟨quiet, serving, arguments, a3, a4⟩ := ready
      by_cases reached : config = ⟨served.firmware.place 75, machine⟩
      · subst reached
        obtain ⟨branches, -⟩ := fetched_handlers served.firmware
        obtain ⟨-, -, -, skips, -⟩ := resolve_entry served.firmware
        rcases step.of_line (.inl rfl) rfl branches (by rintro ⟨⟩) with
          ⟨after, executes, rfl⟩ | ⟨taken, -⟩
        · by_cases machineMode : machine.get .a3 = machine.get .a4
          · have jumps : (Instr.beq .a3 .a4 (.f 4)).jumps machine.registers = some (.f 4) :=
              if_pos machineMode
            rw [Program.execute_branch rfl jumps skips] at executes
            cases executes
            exact .spot serving (.calling arguments)
          · have falls : (Instr.beq .a3 .a4 (.f 4)).jumps machine.registers = none :=
              if_neg machineMode
            rw [Program.execute_fall rfl falls] at executes
            cases executes
            rw [a3, a4] at machineMode
            exact .spot serving (.enabling arguments machineMode)
        · exact absurd taken quiet.not_interruptible
      · obtain ⟨after, rest, rfl⟩ := step.of_path (.inl rfl) path reached
        exact .entering rest ⟨quiet, serving, arguments, a3, a4⟩
  | @spot config stage context serving spot =>
      rcases stage.text_or_code with text | ⟨code, call, rfl⟩ | closed
      · exact Underway.text handled serving spot text step
      · generalize config.pc = pc at spot
        generalize config.machine.get = registers at spot
        cases spot with
        | handling arguments ra ends =>
            exact Underway.handling handled serving arguments ra ends step
      · exact absurd step.open closed
  | @leaving config stage context leaving =>
      obtain ⟨pc, last, machine, path, returning, quiet, serving, way⟩ := leaving.leaves
      have text : stage.Text := by
        cases way with
        | resumes => exact .inl rfl
        | delegates => exact .inr rfl
      by_cases reached : config = ⟨pc, last⟩
      · subst reached
        obtain rfl := step.of_returning text returning quiet
        exact .left serving way
      · obtain ⟨after, rest, rfl⟩ := step.of_path text path reached
        exact .leaving ⟨pc, last, machine, rest, returning, quiet, serving, way⟩
  | left => exact absurd step.open not_false
  | gone => exact absurd step.open not_false

/-- Every run of the handler of an exception. -/
theorem Handled.underway
    {level : Level xlen}
    (run : LevelReaches served sbi (Level.start served index before cause tval) level) :
    Underway served sbi index before cause tval post level := by
  induction run with
  | refl =>
      obtain ⟨machine, path, ready⟩ := exists_ready handled.armed handled.exception tval
      exact .entering path ready
  | tail _ step inductionHypothesis => exact inductionHypothesis.step handled step

end Run

end Traps
end EchelonSbi
