import EchelonSbi.Foundation.EverySuffix
import EchelonSbi.Harts.Schedule
import Mathlib.Algebra.Order.BigOperators.Group.Finset

/-!
# The end of `kinit`

`kinit` sets up the records of all harts, interrupts every hart, and waits until
each has acknowledged its interrupt in `hart_init_handler`.  Its own hart is
interrupted in between.  When it returns, every hart has found its own context, and
the memory is as the results about running harts assume.
-/

namespace EchelonSbi
namespace Harts

open Foundation
open Sbi

variable {xlen : Xlen}

/-- One access of `kinit` to what harts share. -/
inductive KinitOp (xlen : Xlen) where
  /-- One field of `hart_commands[i]` is set to 0. -/
  | clear_command (i : Nat) (field : CommandField)
  /-- `ksem_init`. -/
  | ksem_init (lock : Lock)
  /-- `sbi_hsm_states[i] = SBI_HSM_STOPPED`. -/
  | stop (i : Nat)
  /-- Assign one field of `hart_contexts[i]`. -/
  | write_context (i : Nat) (field : ContextField) (value : Word xlen)
  /-- `clint_hart_msip_ctls[i] = 0x1`. -/
  | raise (i : Nat)
  /-- `while (clint_hart_msip_ctls[i]) {}`. -/
  | poll (i : Nat)

/-- The records that `kinit` sets up. -/
structure KinitData (xlen : Xlen) where
  hart_commands : Nat → Hart_Command xlen
  locks : Lock → Nat
  sbi_hsm_states : Nat → SBI_HSM
  hart_contexts : Nat → CPU_Context xlen

/-- What an access makes of the records. -/
@[simp]
def KinitOp.store (data : KinitData xlen) : KinitOp xlen → KinitData xlen
  | .clear_command i field =>
      { data with
        hart_commands := Function.update data.hart_commands i
          (field.set (data.hart_commands i) 0#_) }
  | .ksem_init lock => { data with locks := Function.update data.locks lock 0 }
  | .stop i =>
      { data with sbi_hsm_states := Function.update data.sbi_hsm_states i .STOPPED }
  | .write_context i field value =>
      { data with
        hart_contexts := Function.update data.hart_contexts i
          ((data.hart_contexts i).set value field) }
  | .raise _ => data
  | .poll _ => data

/-- The first loop of `kinit`. -/
def kinitRecords (i : Nat) : List (KinitOp xlen) :=
  CommandField.all.map (.clear_command i) ++
    [.ksem_init (.hart_command_que_locks i), .ksem_init (.sbi_hsm_locks i), .stop i]

/-- The assignments of `clear_hart_context`. -/
def clearWrites : List (ContextField × Word xlen) :=
  [(.context_id, 0#_), (.execution_mode, 0#_), (.reserved_0, 0#_)] ++
    (List.finRange 32).map fun j => (.regs j, 0#_)

/-- What the context of a hart has of its own. -/
def ownWrites (config : Config) (i : Nat) : List (ContextField × Word config.xlen) :=
  [(.context_id, BitVec.ofNat _ i), (.execution_mode, EM_M),
    (.regs REG_TP, config.hart_tp i), (.regs REG_SP, config.hart_sp i)]

/-- Assign fields of `hart_contexts[i]`. -/
def writeContext (i : Nat) (writes : List (ContextField × Word xlen)) : List (KinitOp xlen) :=
  writes.map fun write => .write_context i write.1 write.2

/-- The accesses of `kinit` to what harts share. -/
def kinit (config : Config) : List (KinitOp config.xlen) :=
  (List.range config.TOTAL_HART_COUNT).flatMap kinitRecords ++
    (List.range config.TOTAL_HART_COUNT).flatMap
      (fun i => writeContext i (clearWrites ++ ownWrites config i)) ++
    (List.range' config.TOTAL_HART_COUNT (2 * config.TOTAL_HART_COUNT)).flatMap
      (fun i => writeContext i clearWrites) ++
    (List.range config.TOTAL_HART_COUNT).map .raise ++
    (List.range config.TOTAL_HART_COUNT).map .poll

/-- How far a hart is with its first interrupt. -/
inductive InitPhase where
  /-- In `idle_loop`, or in `kinit`, with `mtvec` at `hart_init_handler`. -/
  | waiting
  | entered
  /-- The handler has taken the context with this index as that of its hart, and
  cleared the software interrupt. -/
  | acknowledged (index : Nat)
  | returned (index : Nat)
  /-- No context has the id of the hart, or another interrupt came. -/
  | lost
  deriving DecidableEq

/-- A hart that executes `hart_init_handler`. -/
def InitPhase.handles : InitPhase → Bool
  | .entered => true
  | .acknowledged _ => true
  | .lost => true
  | _ => false

/-- The state of the harts while the boot hart executes `kinit`. -/
structure KinitState (xlen : Xlen) where
  code : List (KinitOp xlen)
  data : KinitData xlen
  clint_msip : Nat → Nat
  phase : Nat → InitPhase

/-- The context that `hart_init_handler` of hart `h` finds. -/
def findContext (config : Config) (data : KinitData config.xlen) (h : Nat) : Option Nat :=
  (List.range (3 * config.TOTAL_HART_COUNT)).find? fun i =>
    (data.hart_contexts i).context_id = BitVec.ofNat _ h

/-- What an access makes of the software interrupts. -/
@[simp]
def KinitOp.interrupt (clint_msip : Nat → Nat) : KinitOp xlen → Nat → Nat
  | .raise i => Function.update clint_msip i 1
  | _ => clint_msip

/-- The access is carried out; otherwise it is repeated. -/
@[simp]
def KinitOp.Passes (clint_msip : Nat → Nat) : KinitOp xlen → Prop
  | .poll i => clint_msip i = 0
  | _ => True

/-- The hart goes on to another phase. -/
def KinitState.setPhase (state : KinitState xlen) (h : Nat) (phase : InitPhase) :
    KinitState xlen :=
  { state with phase := Function.update state.phase h phase }

/-- One step of one hart, other than another turn of a waiting loop. -/
inductive KinitStep (config : Config) :
    KinitState config.xlen → Nat → KinitState config.xlen → Prop
  /-- `kinit` goes on, while its hart handles no interrupt. -/
  | access {state : KinitState config.xlen} {op : KinitOp config.xlen}
      {rest : List (KinitOp config.xlen)} :
      state.code = op :: rest →
      (state.phase 0).handles = false →
      op.Passes state.clint_msip →
      KinitStep config state 0
        { state with
          code := rest
          data := op.store state.data
          clint_msip := op.interrupt state.clint_msip }
  /-- A hart takes its first software interrupt. -/
  | take {state : KinitState config.xlen} {h : Nat} :
      state.phase h = .waiting →
      state.clint_msip h ≠ 0 →
      KinitStep config state h (state.setPhase h .entered)
  /-- The handler has found a context and acknowledges the interrupt. -/
  | acknowledge {state : KinitState config.xlen} {h index : Nat} :
      state.phase h = .entered →
      findContext config state.data h = some index →
      KinitStep config state h
        { state.setPhase h (.acknowledged index) with
          clint_msip := Function.update state.clint_msip h 0 }
  /-- The handler has found no context and spins. -/
  | lose {state : KinitState config.xlen} {h : Nat} :
      state.phase h = .entered →
      findContext config state.data h = none →
      KinitStep config state h (state.setPhase h .lost)
  /-- The handler returns. -/
  | mret {state : KinitState config.xlen} {h index : Nat} :
      state.phase h = .acknowledged index →
      KinitStep config state h (state.setPhase h (.returned index))
  /-- Another software interrupt finds no command. -/
  | again {state : KinitState config.xlen} {h index : Nat} :
      state.phase h = .returned index →
      state.clint_msip h ≠ 0 →
      KinitStep config state h (state.setPhase h .lost)

/-- The harts after reset, when the boot hart calls `kinit`.  The records can hold
anything. -/
structure Reset (config : Config) (state : KinitState config.xlen) : Prop where
  code : state.code = kinit config
  msip : ∀ h, state.clint_msip h = 0
  phase : ∀ h, state.phase h = .waiting
  printm : state.data.locks .printm_lock = 0

/-! ## What the loops leave -/

/-- The records after some accesses. -/
def KinitData.after (data : KinitData xlen) (ops : List (KinitOp xlen)) : KinitData xlen :=
  ops.foldl (fun data op => op.store data) data

/-- A context after some assignments. -/
def CPU_Context.assign
    (context : CPU_Context xlen) (writes : List (ContextField × Word xlen)) :
    CPU_Context xlen :=
  writes.foldl (fun context write => context.set write.2 write.1) context

section Stores

variable {ops : List (KinitOp xlen)} {data : KinitData xlen}

theorem after_append
    (data : KinitData xlen)
    (before after : List (KinitOp xlen)) :
    data.after (before ++ after) = (data.after before).after after :=
  List.foldl_append

/-- What each access keeps, all of them keep. -/
theorem after_keeps
    (holds : KinitData xlen → Prop)
    (keeps : ∀ op ∈ ops, ∀ data, holds data → holds (op.store data))
    (before : holds data) :
    holds (data.after ops) := by
  induction ops generalizing data with
  | nil => exact before
  | cons op ops inductionHypothesis =>
      apply inductionHypothesis fun other member => keeps other (by simp [member])
      exact keeps op (by simp) data before

/-- What the block of an index establishes and the later ones keep. -/
theorem after_range
    (holds : KinitData xlen → Prop)
    {block : Nat → List (KinitOp xlen)}
    {n i : Nat}
    (inside : i < n)
    (sets : ∀ data : KinitData xlen, holds (data.after (block i)))
    (keeps : ∀ j, j ≠ i → ∀ data, holds data → holds (data.after (block j))) :
    holds (data.after ((List.range n).flatMap block)) := by
  induction n with
  | zero => omega
  | succ n inductionHypothesis =>
      rw [List.range_succ, List.flatMap_append, after_append, List.flatMap_singleton]
      by_cases last : n = i
      · subst last
        exact sets _
      · exact keeps n last _ (inductionHypothesis (by omega))

/-- The records of a hart are ready. -/
structure Ready (h : Nat) (data : KinitData xlen) : Prop where
  command : data.hart_commands h = .cleared
  command_lock : data.locks (.hart_command_que_locks h) = 0
  state_lock : data.locks (.sbi_hsm_locks h) = 0
  state : data.sbi_hsm_states h = .STOPPED

/-- No access spoils what is ready. -/
theorem Ready.store
    {h : Nat}
    (ready : Ready h data)
    (op : KinitOp xlen) :
    Ready h (op.store data) := by
  obtain ⟨command, command_lock, state_lock, state⟩ := ready
  cases op with
  | clear_command i field =>
      refine ⟨?_, command_lock, state_lock, state⟩
      by_cases own : h = i
      · subst own
        simp only [KinitOp.store, Function.update_self, command]
        cases field <;> rfl
      · simp only [KinitOp.store, Function.update_of_ne own, command]
  | ksem_init lock =>
      refine ⟨command, ?_, ?_, state⟩
      · simp [Function.update_apply, command_lock]
      · simp [Function.update_apply, state_lock]
  | stop i =>
      refine ⟨command, command_lock, state_lock, ?_⟩
      simp [Function.update_apply, state]
  | _ => exact ⟨command, command_lock, state_lock, state⟩

theorem Ready.after
    {h : Nat}
    (ready : Ready h data)
    (ops : List (KinitOp xlen)) :
    Ready h (data.after ops) :=
  after_keeps (Ready h) (fun op _ _ ready => ready.store op) ready

/-- The first loop gets the records of its hart ready. -/
theorem kinitRecords_ready (h : Nat) (data : KinitData xlen) :
    Ready h (data.after (kinitRecords h)) := by
  constructor <;>
    simp [KinitData.after, kinitRecords, CommandField.all, CommandField.set,
      Hart_Command.cleared]

/-- Assignments to one context. -/
theorem after_writeContext
    (i : Nat)
    (writes : List (ContextField × Word xlen))
    (data : KinitData xlen) :
    data.after (writeContext i writes) =
      { data with
        hart_contexts := Function.update data.hart_contexts i
          ((data.hart_contexts i).assign writes) } := by
  induction writes generalizing data with
  | nil => simp [writeContext, KinitData.after, CPU_Context.assign]
  | cons write writes inductionHypothesis =>
      have rest := inductionHypothesis (KinitOp.store data (.write_context i write.1 write.2))
      simp only [KinitOp.store, Function.update_self, Function.update_idem] at rest
      exact rest

theorem assign_regs
    (registers : List (Fin 32))
    (context : CPU_Context xlen) :
    context.assign (registers.map fun j => (.regs j, 0#_)) =
      { context with regs := fun j => if j ∈ registers then 0#_ else context.regs j } := by
  induction registers generalizing context with
  | nil => simp [CPU_Context.assign]
  | cons register registers inductionHypothesis =>
      have rest := inductionHypothesis (context.set 0#_ (.regs register))
      rw [List.map_cons]
      apply rest.trans
      simp only [CPU_Context.set, List.mem_cons, CPU_Context.mk.injEq, true_and]
      funext j
      by_cases later : j ∈ registers
      · simp [later]
      · simp [later]

theorem assign_append
    (context : CPU_Context xlen)
    (before after : List (ContextField × Word xlen)) :
    context.assign (before ++ after) = (context.assign before).assign after :=
  List.foldl_append

/-- The assignments of the second loop make up the context of the hart. -/
theorem assign_context
    (config : Config)
    (i : Nat)
    (context : CPU_Context config.xlen) :
    context.assign (clearWrites ++ ownWrites config i) = kinitContext config i := by
  rw [assign_append, clearWrites, assign_append, assign_regs]
  simp only [CPU_Context.assign, ownWrites, List.foldl_cons, List.foldl_nil, CPU_Context.set,
    kinitContext, List.mem_finRange, if_true, CPU_Context.mk.injEq, true_and]
  funext j
  by_cases stack : j = REG_SP
  · subst stack
    simp [REG_SP, REG_TP]
  · simp [stack]

end Stores

section Leaves

variable {config : Config} {data : KinitData config.xlen} {h : Nat}

/-- The records that `kinit` leaves. -/
theorem kinit_ready
    (inside : h < config.TOTAL_HART_COUNT) :
    Ready h (data.after (kinit config)) := by
  simp only [kinit, after_append]
  have records := @after_range _ data (Ready h) kinitRecords _ _ inside
    (kinitRecords_ready h) fun j _ data ready => ready.after _
  exact (((records.after _).after _).after _).after _

/-- The contexts that `kinit` leaves. -/
theorem kinit_contexts
    (inside : h < config.TOTAL_HART_COUNT) :
    (data.after (kinit config)).hart_contexts h = kinitContext config h := by
  have other {j : Nat} (differ : h ≠ j) (writes : List (ContextField × Word config.xlen))
      (data : KinitData config.xlen)
      (before : data.hart_contexts h = kinitContext config h) :
      (data.after (writeContext j writes)).hart_contexts h = kinitContext config h := by
    rw [after_writeContext]
    simpa only [Function.update_of_ne differ] using before
  let holds (data : KinitData config.xlen) : Prop :=
    data.hart_contexts h = kinitContext config h
  simp only [kinit, after_append]
  apply after_keeps holds
  · intro op member data before
    obtain ⟨i, -, rfl⟩ := List.mem_map.mp member
    exact before
  apply after_keeps holds
  · intro op member data before
    obtain ⟨i, -, rfl⟩ := List.mem_map.mp member
    exact before
  apply after_keeps holds
  · intro op member data before
    obtain ⟨i, later, writes⟩ := List.mem_flatMap.mp member
    obtain ⟨write, -, rfl⟩ := List.mem_map.mp writes
    have differ : h ≠ i := by
      have := (List.mem_range'_1.mp later).1
      omega
    exact (Function.update_of_ne differ ..).trans before
  apply after_range holds inside
  · intro data
    show (data.after _).hart_contexts h = _
    rw [after_writeContext]
    simp only [Function.update_self, assign_context]
  · exact fun j differ data before => other (Ne.symm differ) _ data before

/-- No access touches the lock of `printm`. -/
theorem kinit_printm
    (free : data.locks .printm_lock = 0) :
    (data.after (kinit config)).locks .printm_lock = 0 := by
  apply after_keeps (fun data => data.locks .printm_lock = 0) _ free
  intro op _ data free
  cases op with
  | ksem_init lock => simp [Function.update_apply, free]
  | _ => exact free

end Leaves

/-! ## The barrier -/

/-- An assignment to a context. -/
@[simp]
def KinitOp.writes : KinitOp xlen → Bool
  | .write_context _ _ _ => true
  | _ => false

/-- What `kinit` keeps to: the contexts are complete before the first hart is
interrupted, each is interrupted once, and all before it waits for the first. -/
def KinitOrder : KinitOp xlen → List (KinitOp xlen) → Prop
  | .raise i, rest => .raise i ∉ rest ∧ ∀ op ∈ rest, op.writes = false
  | .poll _, rest => ∀ i, .raise i ∉ rest
  | _, _ => True

/-- `kinit` has interrupted the hart. -/
def Raised (config : Config) (code : List (KinitOp config.xlen)) (h : Nat) : Prop :=
  h < config.TOTAL_HART_COUNT ∧ .raise h ∉ code

/-- How a hart stands while `kinit` has yet to execute `code`. -/
def Attends (config : Config) (code : List (KinitOp config.xlen)) (h msip : Nat) :
    InitPhase → Prop
  | .waiting => (Raised config code h → msip = 1) ∧ (¬Raised config code h → msip = 0)
  | .entered => Raised config code h ∧ msip = 1
  | .acknowledged index => Raised config code h ∧ msip = 0 ∧ index = h
  | .returned index => Raised config code h ∧ msip = 0 ∧ index = h
  | .lost => False

/-- A hart that has found its own context. -/
def Initialised (h : Nat) (phase : InitPhase) : Prop :=
  phase = .acknowledged h ∨ phase = .returned h

/-- The invariant of the barrier; `left` is what `kinit` leaves. -/
structure Barrier
    (config : Config) (left : KinitData config.xlen) (state : KinitState config.xlen) :
    Prop where
  order : EverySuffix KinitOrder state.code
  data : state.data.after state.code = left
  complete : ∀ h, Raised config state.code h → ∀ op ∈ state.code, op.writes = false
  bound : ∀ h, .raise h ∈ state.code ∨ .poll h ∈ state.code → h < config.TOTAL_HART_COUNT
  attends : ∀ h, Attends config state.code h (state.clint_msip h) (state.phase h)
  polled : ∀ h, h < config.TOTAL_HART_COUNT → .poll h ∉ state.code →
    Initialised h (state.phase h)
  resumed : 0 < config.TOTAL_HART_COUNT → .poll 0 ∉ state.code →
    state.phase 0 = .returned 0

section Barrier

variable {config : Config} {left : KinitData config.xlen}
  {state next : KinitState config.xlen} {h : Nat}

/-- Once a hart can be interrupted, all contexts are complete. -/
theorem Barrier.contexts
    {i : Nat}
    (barrier : Barrier config left state)
    (leaves : ∀ i, i < config.TOTAL_HART_COUNT →
      left.hart_contexts i = kinitContext config i)
    (raised : Raised config state.code h)
    (here : i < config.TOTAL_HART_COUNT) :
    state.data.hart_contexts i = kinitContext config i := by
  have still : (state.data.after state.code).hart_contexts = state.data.hart_contexts := by
    apply after_keeps (fun data => data.hart_contexts = state.data.hart_contexts) _ rfl
    intro op member data same
    have quiet := barrier.complete h raised op member
    cases op with
    | write_context j field value => cases quiet
    | _ => exact same
  rw [← still, barrier.data, leaves i here]

/-- A hart that can be interrupted finds its own context. -/
theorem Barrier.finds
    (barrier : Barrier config left state)
    (leaves : ∀ i, i < config.TOTAL_HART_COUNT →
      left.hart_contexts i = kinitContext config i)
    (raised : Raised config state.code h) :
    findContext config state.data h = some h := by
  have contexts {i : Nat} (here : i < config.TOTAL_HART_COUNT) :=
    barrier.contexts leaves raised here
  have inside := raised.1
  have size : config.TOTAL_HART_COUNT ≤ 2 ^ config.xlen.bits := config.total_le_size
  rw [findContext, List.find?_range_eq_some]
  refine ⟨?_, by simp; omega, ?_⟩
  · simp [contexts inside, kinitContext]
  · intro i before
    rw [contexts (by omega)]
    have numbers : BitVec.ofNat config.xlen.bits i ≠ BitVec.ofNat config.xlen.bits h := by
      intro same
      have equal := congrArg BitVec.toNat same
      rw [BitVec.toNat_ofNat, BitVec.toNat_ofNat,
        Nat.mod_eq_of_lt (lt_of_lt_of_le (by omega) size),
        Nat.mod_eq_of_lt (lt_of_lt_of_le inside size)] at equal
      omega
    simp [kinitContext, numbers]

theorem raised_cons
    {op : KinitOp config.xlen}
    {rest : List (KinitOp config.xlen)}
    (other : op ≠ .raise h) :
    Raised config (op :: rest) h ↔ Raised config rest h := by
  rw [Raised, Raised, List.mem_cons, not_or]
  exact and_congr_right fun _ => and_iff_right (Ne.symm other)

/-- An interrupted hart whose interrupt is low has found its context. -/
theorem Attends.initialised
    {code : List (KinitOp config.xlen)}
    {phase : InitPhase}
    (attends : Attends config code h 0 phase)
    (raised : Raised config code h) :
    Initialised h phase := by
  cases phase with
  | waiting => exact absurd (attends.1 raised) (by simp)
  | entered => exact absurd attends.2 (by simp)
  | acknowledged index => exact .inl (by rw [attends.2.2])
  | returned index => exact .inr (by rw [attends.2.2])
  | lost => exact attends.elim

/-- One access of `kinit` keeps the barrier. -/
theorem Barrier.access
    {op : KinitOp config.xlen}
    {rest : List (KinitOp config.xlen)}
    (barrier : Barrier config left state)
    (code : state.code = op :: rest)
    (free : (state.phase 0).handles = false)
    (passes : op.Passes state.clint_msip) :
    Barrier config left
      { state with
        code := rest
        data := op.store state.data
        clint_msip := op.interrupt state.clint_msip } := by
  obtain ⟨order, data, complete, bound, attends, polled, resumed⟩ := barrier
  rw [code] at order data complete bound attends polled resumed
  obtain ⟨now, later⟩ := order
  have reached {j : Nat} (inside : j < config.TOTAL_HART_COUNT) (gone : .poll j ∉ rest) :
      Initialised j (state.phase j) := by
    by_cases here : op = .poll j
    · subst here
      have raised : Raised config (.poll j :: rest) j := ⟨inside, by simpa using now j⟩
      have low : state.clint_msip j = 0 := passes
      have stands := attends j
      rw [low] at stands
      exact stands.initialised raised
    · exact polled j inside (by simpa [Ne.symm here] using gone)
  refine ⟨later, data, fun j raised => ?_, fun j member => ?_, fun j => ?_,
    fun j => reached, fun inside gone => ?_⟩
  · by_cases here : op = .raise j
    · subst here
      exact now.2
    · exact fun other member =>
        complete j ((raised_cons here).mpr raised) other (by simp [member])
  · exact bound j (member.imp (List.mem_cons_of_mem _) (List.mem_cons_of_mem _))
  · by_cases here : op = .raise j
    · subst here
      have inside := bound j (.inl (by simp))
      have unraised : ¬Raised config (.raise j :: rest) j := fun raised => raised.2 (by simp)
      have stands := attends j
      simp only [KinitOp.interrupt, Function.update_self]
      cases phase : state.phase j with
      | waiting => exact ⟨fun _ => rfl, fun out => absurd ⟨inside, now.1⟩ out⟩
      | entered => rw [phase] at stands; exact absurd stands.1 unraised
      | acknowledged index => rw [phase] at stands; exact absurd stands.1 unraised
      | returned index => rw [phase] at stands; exact absurd stands.1 unraised
      | lost => rw [phase] at stands; exact stands.elim
    · have same : op.interrupt state.clint_msip j = state.clint_msip j := by
        cases op with
        | raise i =>
            exact Function.update_of_ne (fun equal => here (by rw [equal])) ..
        | _ => rfl
      have stands := attends j
      show Attends config rest j (op.interrupt state.clint_msip j) (state.phase j)
      rw [same]
      cases phase : state.phase j with
      | lost => rw [phase] at stands; exact stands.elim
      | _ => rw [phase] at stands; simpa only [Attends, raised_cons here] using stands
  · rcases reached inside gone with still | back
    · rw [still] at free
      cases free
    · exact back

/-- A hart changes its phase, and its interrupt with it. -/
theorem Barrier.setPhase
    {phase : InitPhase}
    {msip : Nat}
    (barrier : Barrier config left state)
    (attends : Attends config state.code h msip phase)
    (polled : Initialised h (state.phase h) → phase = .returned h) :
    Barrier config left
      { state.setPhase h phase with
        clint_msip := Function.update state.clint_msip h msip } := by
  refine ⟨barrier.order, barrier.data, barrier.complete, barrier.bound, fun j => ?_,
    fun j inside gone => ?_, fun inside gone => ?_⟩
  · by_cases own : j = h
    · subst own
      simpa [KinitState.setPhase] using attends
    · simpa [KinitState.setPhase, Function.update_of_ne own] using barrier.attends j
  · have before := barrier.polled j inside gone
    by_cases own : j = h
    · subst own
      exact .inr (by simpa [KinitState.setPhase] using polled before)
    · simpa [KinitState.setPhase, Function.update_of_ne own] using before
  · have before := barrier.resumed inside gone
    by_cases own : 0 = h
    · subst own
      simpa [KinitState.setPhase] using polled (.inr before)
    · simpa [KinitState.setPhase, Function.update_of_ne own] using before

/-- The step lemma of the barrier. -/
theorem Barrier.step
    (barrier : Barrier config left state)
    (leaves : ∀ i, i < config.TOTAL_HART_COUNT →
      left.hart_contexts i = kinitContext config i)
    (step : KinitStep config state h next) :
    Barrier config left next := by
  have attends := barrier.attends h
  cases step with
  | access code free passes => exact barrier.access code free passes
  | take waiting up =>
      rw [waiting] at attends
      have raised : Raised config state.code h := by
        by_contra out
        exact up (attends.2 out)
      have moved := @barrier.setPhase _ _ _ h .entered _ ⟨raised, attends.1 raised⟩ (by
        rw [waiting]
        rintro (before | before) <;> cases before)
      rwa [Function.update_eq_self] at moved
  | @acknowledge _ index entered finds =>
      rw [entered] at attends
      obtain rfl : h = index := by
        simpa using (barrier.finds leaves attends.1).symm.trans finds
      refine barrier.setPhase ⟨attends.1, rfl, rfl⟩ ?_
      rw [entered]
      rintro (before | before) <;> cases before
  | lose entered finds =>
      rw [entered] at attends
      cases (barrier.finds leaves attends.1).symm.trans finds
  | @mret _ index acknowledged =>
      rw [acknowledged] at attends
      obtain ⟨raised, low, rfl⟩ := attends
      have moved := @barrier.setPhase _ _ _ index (.returned index) _ ⟨raised, low, rfl⟩
        fun _ => rfl
      rwa [Function.update_eq_self] at moved
  | @again _ index returned up =>
      rw [returned] at attends
      exact absurd attends.2.1 up

theorem raise_mem_kinit : .raise h ∈ kinit config ↔ h < config.TOTAL_HART_COUNT := by
  simp [kinit, kinitRecords, writeContext]

theorem poll_mem_kinit : .poll h ∈ kinit config ↔ h < config.TOTAL_HART_COUNT := by
  simp [kinit, kinitRecords, writeContext]

/-- `kinit` keeps to its order. -/
theorem kinit_order : EverySuffix KinitOrder (kinit config) := by
  have polls (harts : List Nat) :
      EverySuffix KinitOrder (harts.map (.poll : Nat → KinitOp config.xlen)) := by
    induction harts with
    | nil => trivial
    | cons i harts inductionHypothesis => exact ⟨by simp [KinitOrder], inductionHypothesis⟩
  have raises (harts : List Nat) (once : harts.Nodup) :
      EverySuffix KinitOrder (harts.map (.raise : Nat → KinitOp config.xlen) ++
        (List.range config.TOTAL_HART_COUNT).map .poll) := by
    induction harts with
    | nil => exact polls _
    | cons i harts inductionHypothesis =>
        obtain ⟨fresh, once⟩ := List.nodup_cons.mp once
        refine ⟨⟨by simpa using fresh, ?_⟩, inductionHypothesis once⟩
        intro op member
        rcases List.mem_append.mp member with raised | polled
        · obtain ⟨j, -, rfl⟩ := List.mem_map.mp raised
          rfl
        · obtain ⟨j, -, rfl⟩ := List.mem_map.mp polled
          rfl
  have free (ops : List (KinitOp config.xlen))
      (plain : ∀ op ∈ ops, (∀ i, op ≠ .raise i) ∧ ∀ i, op ≠ .poll i) :
      ∀ op ∈ ops, ∀ after, KinitOrder op after := by
    intro op member after
    obtain ⟨raise, poll⟩ := plain op member
    cases op with
    | raise i => exact absurd rfl (raise i)
    | poll i => exact absurd rfl (poll i)
    | _ => trivial
  rw [kinit, List.append_assoc]
  apply (raises _ List.nodup_range).append
  apply free
  intro op member
  simp only [List.mem_append, List.mem_flatMap, kinitRecords, writeContext, List.mem_map,
    List.mem_cons, List.not_mem_nil, or_false] at member
  rcases member with (⟨i, -, ⟨field, -, rfl⟩ | rfl | rfl | rfl⟩ | ⟨i, -, write, -, rfl⟩) |
    ⟨i, -, write, -, rfl⟩ <;> simp

/-- The barrier stands when `kinit` is called. -/
theorem Reset.barrier
    (reset : Reset config state) :
    Barrier config (state.data.after (kinit config)) state := by
  obtain ⟨code, msip, phase, -⟩ := reset
  have unraised (h : Nat) : ¬Raised config state.code h := by
    rintro ⟨inside, gone⟩
    rw [code] at gone
    exact gone (raise_mem_kinit.mpr inside)
  refine ⟨code ▸ kinit_order, by rw [code], fun h raised => absurd raised (unraised h),
    fun h member => ?_, fun h => ?_, fun h inside gone => ?_, fun inside gone => ?_⟩
  · rw [code] at member
    exact member.elim raise_mem_kinit.mp poll_mem_kinit.mp
  · rw [phase h, msip h]
    exact ⟨fun raised => absurd raised (unraised h), fun _ => rfl⟩
  · rw [code] at gone
    exact absurd (poll_mem_kinit.mpr inside) gone
  · rw [code] at gone
    exact absurd (poll_mem_kinit.mpr inside) gone

/-! ## `kinit` returns -/

/-- The steps that a hart can still take. -/
def InitPhase.steps : InitPhase → Nat
  | .waiting => 3
  | .entered => 2
  | .acknowledged _ => 1
  | _ => 0

/-- The steps that all harts can still take. -/
def KinitState.steps (config : Config) (state : KinitState config.xlen) : Nat :=
  state.code.length +
    ∑ h ∈ Finset.range config.TOTAL_HART_COUNT, (state.phase h).steps

theorem steps_setPhase
    {phase : InitPhase}
    {phases : Nat → InitPhase}
    (inside : h < config.TOTAL_HART_COUNT)
    (less : phase.steps < (phases h).steps) :
    ∑ j ∈ Finset.range config.TOTAL_HART_COUNT, (Function.update phases h phase j).steps <
      ∑ j ∈ Finset.range config.TOTAL_HART_COUNT, (phases j).steps := by
  apply Finset.sum_lt_sum
  · intro j _
    by_cases own : j = h
    · subst own
      rw [Function.update_self]
      omega
    · rw [Function.update_of_ne own]
  · exact ⟨h, Finset.mem_range.mpr inside, by rwa [Function.update_self]⟩

/-- While `kinit` has something left to do, some hart can go on. -/
theorem Barrier.exists_step
    (barrier : Barrier config left state)
    (leaves : ∀ i, i < config.TOTAL_HART_COUNT →
      left.hart_contexts i = kinitContext config i)
    (busy : state.code ≠ []) :
    ∃ h next, KinitStep config state h next ∧ next.steps config < state.steps config := by
  have acts (j : Nat) (active : state.phase j = .entered ∨
      (∃ index, state.phase j = .acknowledged index) ∨
        state.phase j = .waiting ∧ state.clint_msip j ≠ 0) :
      ∃ h next, KinitStep config state h next ∧ next.steps config < state.steps config := by
    have attends := barrier.attends j
    rcases active with entered | ⟨index, acknowledged⟩ | ⟨waiting, up⟩
    · rw [entered] at attends
      refine ⟨j, _, .acknowledge entered (barrier.finds leaves attends.1), ?_⟩
      apply Nat.add_lt_add_left
      apply steps_setPhase attends.1.1
      rw [entered]
      exact Nat.lt_succ_self 1
    · rw [acknowledged] at attends
      refine ⟨j, _, .mret acknowledged, ?_⟩
      apply Nat.add_lt_add_left
      apply steps_setPhase attends.1.1
      rw [acknowledged]
      exact Nat.one_pos
    · rw [waiting] at attends
      have raised : Raised config state.code j := by
        by_contra out
        exact up (attends.2 out)
      refine ⟨j, _, .take waiting up, ?_⟩
      apply Nat.add_lt_add_left
      apply steps_setPhase raised.1
      rw [waiting]
      decide
  cases code : state.code with
  | nil => exact absurd code busy
  | cons op rest =>
      cases free : (state.phase 0).handles with
      | true =>
          cases phase : state.phase 0 with
          | entered => exact acts 0 (.inl phase)
          | acknowledged index => exact acts 0 (.inr (.inl ⟨index, phase⟩))
          | lost =>
              have attends := barrier.attends 0
              rw [phase] at attends
              exact attends.elim
          | waiting => rw [phase] at free; cases free
          | returned index => rw [phase] at free; cases free
      | false =>
          have passes (allowed : op.Passes state.clint_msip) :
              ∃ h next, KinitStep config state h next ∧
                next.steps config < state.steps config := by
            refine ⟨0, _, .access code free allowed, ?_⟩
            rw [KinitState.steps, KinitState.steps, code]
            exact Nat.add_lt_add_right (Nat.lt_succ_self _) _
          cases op with
          | poll i =>
              by_cases low : state.clint_msip i = 0
              · exact passes low
              · have attends := barrier.attends i
                cases phase : state.phase i with
                | waiting => exact acts i (.inr (.inr ⟨phase, low⟩))
                | entered => exact acts i (.inl phase)
                | acknowledged index => exact acts i (.inr (.inl ⟨index, phase⟩))
                | returned index =>
                    rw [phase] at attends
                    exact absurd attends.2.1 low
                | lost =>
                    rw [phase] at attends
                    exact attends.elim
          | _ => exact passes trivial

end Barrier

/-! ## The system after `kinit` -/

/-- The locks of a board with `n` harts. -/
def KinitData.boardLocks (data : KinitData xlen) (n : Nat) : Lock → Nat
  | .printm_lock => data.locks .printm_lock
  | .hart_command_que_locks i => if i < n then data.locks (.hart_command_que_locks i) else 0
  | .sbi_hsm_locks i => if i < n then data.locks (.sbi_hsm_locks i) else 0

/-- The rest of `hart_init_handler` that shares nothing. -/
def InitPhase.handler : InitPhase → Option (List (Op xlen))
  | .returned _ => none
  | _ => some [.resume]

/-- The harts when `kinit` has returned and `kmain` begins its end.  Harts that the
board does not have stand as `kinit` would leave them; what else a hart has is as in
`harts`. -/
def KinitState.system
    (config : Config)
    (state : KinitState config.xlen)
    (stack : Hart_Command config.xlen)
    (harts : Nat → HartState config.xlen) : System config.xlen where
  harts h :=
    { harts h with
      base := .idle
      main := if h = 0 then kmain config stack else []
      handler := (state.phase h).handler
      hart_context :=
        if h < config.TOTAL_HART_COUNT then state.data.hart_contexts h
        else kinitContext config h }
  memory :=
    { locks := state.data.boardLocks config.TOTAL_HART_COUNT
      sbi_hsm_states := fun h =>
        if h < config.TOTAL_HART_COUNT then state.data.sbi_hsm_states h else .STOPPED
      hart_commands := fun h =>
        if h < config.TOTAL_HART_COUNT then state.data.hart_commands h else .cleared
      clint_msip := state.clint_msip }

section System

variable {config : Config} {first last : KinitState config.xlen} {labels : List Nat}

/-- Other handlers for all harts. -/
def System.withHandlers
    (system : System xlen) (handler : Nat → Option (List (Op xlen))) : System xlen :=
  { system with harts := fun h => { system.harts h with handler := handler h } }

/-- Harts return from `hart_init_handler` one after the other. -/
theorem resume_run
    (system : System config.xlen)
    (before : Nat → Option (List (Op config.xlen)))
    (harts : List Nat)
    (ready : ∀ h ∈ harts, before h = some [.resume])
    (once : harts.Nodup) :
    ∃ labels, Run (Step config (sbiCalls config)) (system.withHandlers before) labels
        (system.withHandlers fun h => if h ∈ harts then none else before h) ∧
      ∀ label ∈ labels, ∃ h ∈ harts, label = ⟨h, .handler, .silent⟩ := by
  induction harts generalizing before with
  | nil => exact ⟨[], by simpa using .refl _, by simp⟩
  | cons h harts inductionHypothesis =>
      obtain ⟨fresh, once⟩ := List.nodup_cons.mp once
      obtain ⟨labels, rest, silent⟩ := inductionHypothesis (Function.update before h none)
        (fun j member => by
          have other : j ≠ h := by
            rintro rfl
            exact fresh member
          rw [Function.update_of_ne other]
          exact ready j (by simp [member])) once
      have code : ((system.withHandlers before).harts h).handler = some [.resume] :=
        ready h (by simp)
      have step := @Step.handler config (sbiCalls config) _ h _ _ code
      have same : (system.withHandlers before).set h
            (exec config h .handler [] ((system.withHandlers before).harts h)
              (system.withHandlers before).memory .resume) =
          system.withHandlers (Function.update before h none) := by
        simp only [System.set, System.withHandlers, exec, System.mk.injEq, and_true]
        funext j
        by_cases own : j = h
        · subst own
          simp
        · simp [own]
      rw [same] at step
      have after : (fun j => if j ∈ h :: harts then none else before j) =
          fun j => if j ∈ harts then none else Function.update before h none j := by
        funext j
        by_cases own : j = h
        · subst own
          simp
        · simp [own]
      rw [after]
      refine ⟨_, rest.cons step, ?_⟩
      rintro label (_ | ⟨_, member⟩)
      · exact ⟨h, by simp, rfl⟩
      · obtain ⟨j, later, same⟩ := silent label member
        exact ⟨j, by simp [later], same⟩

/-- The handlers of the harts that have yet to return from `hart_init_handler`. -/
def unreturned (h : Nat) : Option (List (Op xlen)) :=
  if h = 0 then none else some [.resume]

/-- A hart that the board does not have takes no part. -/
theorem Barrier.absent
    {left : KinitData config.xlen}
    {h : Nat}
    (barrier : Barrier config left last)
    (outside : ¬h < config.TOTAL_HART_COUNT) :
    last.phase h = .waiting ∧ last.clint_msip h = 0 := by
  have attends := barrier.attends h
  have unraised : ¬Raised config last.code h := fun raised => outside raised.1
  cases phase : last.phase h with
  | waiting => rw [phase] at attends; exact ⟨rfl, attends.2 unraised⟩
  | entered => rw [phase] at attends; exact absurd attends.1 unraised
  | acknowledged index => rw [phase] at attends; exact absurd attends.1 unraised
  | returned index => rw [phase] at attends; exact absurd attends.1 unraised
  | lost => rw [phase] at attends; exact attends.elim

/-- When `kinit` has returned, every interrupt is low. -/
theorem Barrier.low
    {left : KinitData config.xlen}
    (barrier : Barrier config left last)
    (ended : last.code = [])
    (h : Nat) :
    last.clint_msip h = 0 := by
  by_cases inside : h < config.TOTAL_HART_COUNT
  · have attends := barrier.attends h
    rcases barrier.polled h inside (by rw [ended]; simp) with still | back
    · rw [still] at attends
      exact attends.2.1
    · rw [back] at attends
      exact attends.2.1
  · exact (barrier.absent inside).2

/-- But for the harts that have returned from the handler, the end of `kinit` is a
booted system. -/
theorem Barrier.booted
    {data : KinitData config.xlen}
    (barrier : Barrier config (data.after (kinit config)) last)
    (printm : data.locks .printm_lock = 0)
    (ended : last.code = [])
    (stack : Hart_Command config.xlen)
    (harts : Nat → HartState config.xlen) :
    Booted config ((last.system config stack harts).withHandlers unreturned) := by
  have left : last.data = data.after (kinit config) := by
    rw [← barrier.data, ended]
    rfl
  have ready {h : Nat} (inside : h < config.TOTAL_HART_COUNT) : Ready h last.data :=
    left ▸ kinit_ready inside
  constructor
  case boot_main => exact ⟨stack, by simp [System.withHandlers, KinitState.system]⟩
  case boot_handler => rfl
  case other_main =>
    intro h other
    exact if_neg other
  case other_handler =>
    intro h other
    exact if_neg other
  case base =>
    intro h
    rfl
  case hart_context =>
    intro h
    by_cases inside : h < config.TOTAL_HART_COUNT
    · exact (if_pos inside).trans (by rw [left, kinit_contexts inside])
    · exact if_neg inside
  case locks =>
    intro lock
    cases lock with
    | printm_lock =>
        show last.data.locks .printm_lock = 0
        rw [left]
        exact kinit_printm printm
    | hart_command_que_locks h =>
        by_cases inside : h < config.TOTAL_HART_COUNT
        · exact (if_pos inside).trans (ready inside).command_lock
        · exact if_neg inside
    | sbi_hsm_locks h =>
        by_cases inside : h < config.TOTAL_HART_COUNT
        · exact (if_pos inside).trans (ready inside).state_lock
        · exact if_neg inside
  case states =>
    intro h
    by_cases inside : h < config.TOTAL_HART_COUNT
    · exact (if_pos inside).trans (ready inside).state
    · exact if_neg inside
  case commands =>
    intro h
    by_cases inside : h < config.TOTAL_HART_COUNT
    · exact (if_pos inside).trans (ready inside).command
    · exact if_neg inside
  case msip => exact barrier.low ended

/-- Those that have returned did so in steps of the booted system. -/
theorem Barrier.comes
    {left : KinitData config.xlen}
    (barrier : Barrier config left last)
    (board : 0 < config.TOTAL_HART_COUNT)
    (ended : last.code = [])
    (stack : Hart_Command config.xlen)
    (harts : Nat → HartState config.xlen) :
    ∃ labels, Run (Step config (sbiCalls config))
        ((last.system config stack harts).withHandlers unreturned) labels
        (last.system config stack harts) ∧
      ∀ label ∈ labels, ∃ h, last.phase h = .returned h ∧ label = ⟨h, .handler, .silent⟩ := by
  let gone := (List.range config.TOTAL_HART_COUNT).filter fun h =>
    h ≠ 0 ∧ last.phase h = .returned h
  have mem_gone (h : Nat) : h ∈ gone ↔
      h < config.TOTAL_HART_COUNT ∧ h ≠ 0 ∧ last.phase h = .returned h := by
    simp [gone]
  obtain ⟨labels, path, silent⟩ := resume_run (last.system config stack harts) unreturned gone
    (fun h member => if_neg ((mem_gone h).mp member).2.1) (List.nodup_range.filter _)
  have handlers : (fun h => if h ∈ gone then none else unreturned h) =
      fun h => ((last.system config stack harts).harts h).handler := by
    funext h
    show _ = (last.phase h).handler
    by_cases inside : h < config.TOTAL_HART_COUNT
    · by_cases boot : h = 0
      · rw [if_neg fun member => ((mem_gone h).mp member).2.1 boot, boot,
          barrier.resumed board (by rw [ended]; simp)]
        rfl
      · rcases barrier.polled h inside (by rw [ended]; simp) with still | back
        · have here : h ∉ gone := fun member => by
            rw [(mem_gone h).mp member |>.2.2] at still
            cases still
          rw [if_neg here, still]
          exact if_neg boot
        · rw [if_pos ((mem_gone h).mpr ⟨inside, boot, back⟩), back]
          rfl
    · rw [if_neg fun member => inside ((mem_gone h).mp member).1, (barrier.absent inside).1]
      exact if_neg (by omega)
  rw [handlers] at path
  refine ⟨labels, path, fun label member => ?_⟩
  obtain ⟨h, back, same⟩ := silent label member
  exact ⟨h, ((mem_gone h).mp back).2.2, same⟩

/-- The invariant holds along every run from reset. -/
theorem Reset.run
    (reset : Reset config first)
    (run : Run (KinitStep config) first labels last) :
    Barrier config (first.data.after (kinit config)) last :=
  run.invariant (fun taken before => before.step (fun _ inside => kinit_contexts inside) taken)
    reset.barrier

/-- `kinit` can go on until it returns. -/
theorem Barrier.returns
    {left : KinitData config.xlen}
    (barrier : Barrier config left last)
    (leaves : ∀ i, i < config.TOTAL_HART_COUNT →
      left.hart_contexts i = kinitContext config i) :
    ∃ ended, Relation.ReflTransGen (fun state next => ∃ h, KinitStep config state h next)
      last ended ∧ ended.code = [] := by
  apply leads_to_end (KinitState.steps config) _ barrier
  intro state barrier busy
  obtain ⟨h, next, step, less⟩ := barrier.exists_step leaves busy
  exact ⟨next, ⟨h, step⟩, .inr ⟨barrier.step leaves step, less⟩⟩

/-- From reset, whatever the records hold and however the harts take turns, `kinit` can
go on until it returns.  When it has returned, every hart has found its own context and
has acknowledged its interrupt, the boot hart has returned from the handler, and the
system is one that a booted system comes to by harts that return from the handler. -/
theorem kinit_boots
    (board : 0 < config.TOTAL_HART_COUNT)
    (reset : Reset config first)
    (run : Run (KinitStep config) first labels last) :
    (∃ ended, Relation.ReflTransGen (fun state next => ∃ h, KinitStep config state h next)
        last ended ∧ ended.code = []) ∧
      (last.code = [] →
        (∀ h, h < config.TOTAL_HART_COUNT → Initialised h (last.phase h)) ∧
          last.phase 0 = .returned 0 ∧
          ∀ stack harts, ∃ booted labels, Booted config booted ∧
            Run (Step config (sbiCalls config)) booted labels
              (last.system config stack harts) ∧
            ∀ label ∈ labels, ∃ h, last.phase h = .returned h ∧
              label = ⟨h, .handler, .silent⟩) := by
  have barrier := reset.run run
  refine ⟨barrier.returns fun _ inside => kinit_contexts inside, fun ended => ?_⟩
  refine ⟨fun h inside => barrier.polled h inside (by rw [ended]; simp),
    barrier.resumed board (by rw [ended]; simp), fun stack harts => ?_⟩
  obtain ⟨labels, path, returns⟩ := barrier.comes board ended stack harts
  exact ⟨_, labels, barrier.booted reset.printm ended stack harts, path, returns⟩

/-- The state of a board at reset. -/
def resetState (config : Config) : KinitState config.xlen where
  code := kinit config
  data :=
    { hart_commands := fun h => ⟨1, BitVec.ofNat _ h, 2#_, 3#_, 4#_, 5#_, 6#_⟩
      locks := fun lock => if lock = .printm_lock then 0 else 1
      sbi_hsm_states := fun _ => .STARTED
      hart_contexts := fun h => ⟨BitVec.ofNat _ (h + 1), 7#_, 8#_, fun _ => 9#_⟩ }
  clint_msip := fun _ => 0
  phase := fun _ => .waiting

/-- The board comes from reset to the end of `kinit`. -/
theorem kinit_boots_board :
    ∃ ended turns, Run (KinitStep twoHartBoard) (resetState twoHartBoard) turns ended ∧
      ended.code = [] ∧ Initialised 1 (ended.phase 1) ∧ ended.phase 0 = .returned 0 ∧
      ∃ booted labels, Booted twoHartBoard booted ∧
        Run (Step twoHartBoard (sbiCalls twoHartBoard)) booted labels
          (ended.system twoHartBoard .cleared (bootSystem twoHartBoard).harts) ∧
        ∀ label ∈ labels, ∃ h, ended.phase h = .returned h ∧
          label = ⟨h, .handler, .silent⟩ := by
  have board : 0 < twoHartBoard.TOTAL_HART_COUNT := by decide
  have reset : Reset twoHartBoard (resetState twoHartBoard) :=
    ⟨rfl, fun _ => rfl, fun _ => rfl, rfl⟩
  obtain ⟨ended, path, returned⟩ := (kinit_boots board reset (.refl _)).1
  obtain ⟨turns, run⟩ := Run.of_reflTransGen path
  obtain ⟨initialised, boot, comes⟩ := (kinit_boots board reset run).2 returned
  exact ⟨ended, turns, run, returned, initialised 1 (by decide), boot, comes _ _⟩

end System

end Harts
end EchelonSbi
