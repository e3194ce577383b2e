import EchelonSbi.Harts.LockDiscipline
import EchelonSbi.Harts.ServedCommands

/-!
# Who waits for whom

A hart waits for the holder of a lock, or for another hart to take the interrupt
that it was sent.  Locks are taken in one order, nobody polls a mailbox with another
lock than that of the mailbox, and a handler waits only where the code below it holds
no lock that anybody else could have.  So every chain of waiting harts ends.
-/

namespace EchelonSbi
namespace Harts

open Foundation
open Sbi

variable {xlen : Xlen}

/-! ## Locks are released -/

/-- Code of hart `k` that neither holds nor takes the command lock of `k`. -/
structure Apart (k : Nat) (ops : List (Op xlen)) : Prop where
  spares : ∀ op ∈ ops, op.Spares k
  out : ¬Holds (.hart_command_que_locks k) ops

/-- What holds of all code besides the discipline: handlers are served, no hart but
the boot hart sends to itself, and a lock that is taken has a holder unless the boot
hart has lost its own. -/
structure Supplied (system : System xlen) : Prop where
  disciplined : Disciplined system
  sending : Sending system
  serving : ∀ k ops, (system.harts k).handler = some ops →
    Serving k ops (system.harts k).main
  apart : ∀ k, k ≠ 0 → Apart k (system.harts k).main
  owned : ∀ lock, lock ≠ .hart_command_que_locks 0 →
    SpinLock.Owned (system.memory.locks lock) (Holder lock system)

section Supply

variable {config : Config} {system next : System config.xlen}
  {label : Label config.xlen} {started : Bool} {k : Nat}
  {op : Op config.xlen} {rest : List (Op config.xlen)}

theorem Apart.continues
    {ops : List (Op config.xlen)}
    {command : Hart_Command config.xlen}
    (apart : Apart k (op :: rest))
    (contract : LockContract op rest)
    (served : op.SendsServed)
    (continues : Continues config k command op rest ops) :
    Apart k ops := by
  obtain ⟨spares, out⟩ := apart
  constructor
  · rw [← everySuffix_iff_forall] at spares ⊢
    refine continues.keeps spares id ?_ ?_
    · rintro t start rfl
      obtain rfl : rest = [] := contract
      rw [List.append_nil, List.append_nil]
      exact ⟨everySuffix_iff_forall.mpr startRefused_spares,
        everySuffix_iff_forall.mpr (startAccepted_spares spares.1)⟩
    · rintro rfl
      exact served.elim
  · have here := spares op (by simp)
    cases continues with
    | next =>
        intro holds
        apply out
        cases op with
        | wait_load lock => exact ⟨here, holds⟩
        | wait_swap lock => exact ⟨here, holds⟩
        | post lock => exact .inr holds
        | check_hart_state t start => exact .inr holds
        | _ => exact holds
    | again => exact out
    | spin => exact fun holds => out holds.2
    | refused =>
        obtain rfl : rest = [] := contract
        rw [List.append_nil, startRefused_locks.holds]
        simp
    | accepted =>
        obtain rfl : rest = [] := contract
        rw [List.append_nil, (startAccepted_locks _).holds]
        simp
    | dispatched => exact served.elim
    | ended => exact id

/-- One operation of a level keeps the holders of the other level. -/
theorem owned_exec
    {level : Level}
    {lock : Lock}
    (disciplined : Disciplined system)
    (owned : SpinLock.Owned (system.memory.locks lock) (Holder lock system))
    (code : (system.harts k).code level = op :: rest)
    (kept : ∀ other, other ≠ level → Holds lock ((system.harts k).code other) →
      Holds lock
        ((exec config k level rest (system.harts k) system.memory op).2.1.code other)) :
    SpinLock.Owned
      ((exec config k level rest (system.harts k) system.memory op).2.2.locks lock)
      (Holder lock (system.set k
        (exec config k level rest (system.harts k) system.memory op))) := by
  have contract := disciplined.contract k level
  rw [code] at contract
  have move := @exec_lock config k level (system.harts k) system.memory op rest lock code
    contract.1 fun holds =>
      (disciplined.exclusive lock).taken (k, level) (by rwa [Holder, code])
  rw [← code] at move
  intro taken
  obtain ⟨⟨j, other⟩, holds⟩ := owned.move (i := (k, level)) move taken
  refine ⟨(j, other), ?_⟩
  by_cases own : j = k
  · subst own
    rw [Holder, set_self]
    by_cases same : other = level
    · subst same
      rwa [Function.update_self] at holds
    · rw [Function.update_of_ne (by simpa using same)] at holds
      exact kept other same holds
  · rw [Function.update_of_ne (by simp [own])] at holds
    rw [Holder, set_of_ne own]
    exact holds

/-- A hart changes its code to some that holds as much. -/
theorem owned_setHart
    {lock : Lock}
    {hart : HartState config.xlen}
    (owned : SpinLock.Owned (system.memory.locks lock) (Holder lock system))
    (kept : ∀ level, Holds lock ((system.harts k).code level) →
      Holds lock (hart.code level)) :
    SpinLock.Owned (system.memory.locks lock) (Holder lock (system.setHart k hart)) := by
  intro taken
  obtain ⟨⟨j, level⟩, holds⟩ := owned taken
  refine ⟨(j, level), ?_⟩
  rw [setHart_eq_set]
  by_cases own : j = k
  · subst own
    rw [Holder, set_self]
    exact kept level holds
  · rw [Holder, set_of_ne own]
    exact holds

/-- Code that is never resumed holds nothing but the own lock of the boot hart. -/
theorem Left.free_but_own
    {lock : Lock}
    {code : List (Op xlen)}
    (left : Left k code)
    (other : lock ≠ .hart_command_que_locks 0)
    (apart : k ≠ 0 → ¬Holds (.hart_command_que_locks k) code) :
    ¬Holds lock code := by
  by_cases own : lock = .hart_command_que_locks k
  · subst own
    apply apart
    rintro rfl
    exact other rfl
  · exact left.not_holds own

/-- Where a start is dispatched, the code below is never resumed. -/
theorem Managed.asleep_of_start
    (managed : Managed started system)
    (code : (system.harts k).handler = some (op :: rest))
    (dispatches : op = .dispatch)
    (start : (system.harts k).command.command = HARTCMD_STARTHART) :
    Left k (system.harts k).main := by
  apply managed.asleep_of_pending
  · exact List.ne_nil_of_mem (List.mem_filter.mpr
      ⟨managed.dispatched code dispatches, by simpa using start⟩)
  · subst dispatches
    have rule : rest = [] := (managed.handler k _ code).1
    rw [code]
    simp [handlerWake, rule]

/-- A trap starts a handler on top of code that stays. -/
theorem Supplied.trap
    {ops : List (Op config.xlen)}
    (supplied : Supplied system)
    (disciplined : Disciplined next)
    (sending : Sending next)
    (idle : (system.harts k).handler = none)
    (traps : next = system.setHart k { (system.harts k).save with handler := some ops })
    (serving : Serving k ops (system.harts k).main) :
    Supplied next := by
  have main (j : Nat) : (next.harts j).main = (system.harts j).main := by
    rw [traps, setHart_eq_set]
    by_cases own : j = k
    · rw [own, set_self]
      exact save_main _
    · rw [set_of_ne own]
  refine ⟨disciplined, sending, fun j running code => ?_, fun j other => ?_,
    fun lock other => ?_⟩
  · rw [main j]
    rw [traps, setHart_eq_set] at code
    by_cases own : j = k
    · subst own
      rw [set_self] at code
      cases code
      exact serving
    · rw [set_of_ne own] at code
      exact supplied.serving j running code
  · rw [main j]
    exact supplied.apart j other
  · rw [traps]
    apply owned_setHart (supplied.owned lock other)
    intro level holds
    cases level with
    | main => rwa [HartState.code, save_main]
    | handler =>
        rw [HartState.code, idle] at holds
        exact holds.elim

/-- A hart that runs no handler changes its code to some that holds as much. -/
theorem Supplied.setMain
    {hart : HartState config.xlen}
    (supplied : Supplied system)
    (disciplined : Disciplined next)
    (sending : Sending next)
    (moves : next = system.setHart k hart)
    (idle : hart.handler = none)
    (apart : k ≠ 0 → Apart k hart.main)
    (kept : ∀ level lock, Holds lock ((system.harts k).code level) →
      Holds lock (hart.code level)) :
    Supplied next := by
  subst moves
  refine ⟨disciplined, sending, fun j running code => ?_, fun j other => ?_,
    fun lock other => owned_setHart (supplied.owned lock other) fun level => kept level lock⟩
  · rw [setHart_eq_set] at code ⊢
    by_cases own : j = k
    · subst own
      rw [set_self] at code
      cases idle.symm.trans code
    · rw [set_of_ne own] at code ⊢
      exact supplied.serving j running code
  · rw [setHart_eq_set]
    by_cases own : j = k
    · subst own
      rw [set_self]
      exact apart other
    · rw [set_of_ne own]
      exact supplied.apart j other

/-- The step lemma. -/
theorem Supplied.step
    (supplied : Supplied system)
    (managed : Managed started system)
    (step : Step config (sbiCalls config) system label next) :
    Supplied next := by
  have disciplined := supplied.disciplined.step step
  have sending := supplied.sending.step managed step
  cases step with
  | @main k op rest idle code =>
      have still : (exec config k .main rest (system.harts k) system.memory
          op).2.1.handler = none := exec_main_handler idle
      have contract := supplied.disciplined.contract k .main
      rw [HartState.code, code] at contract
      refine ⟨disciplined, sending, fun j running handler => ?_, fun j other => ?_,
        fun lock other => ?_⟩
      · by_cases own : j = k
        · subst own
          rw [set_self] at handler
          cases still.symm.trans handler
        · rw [set_of_ne own] at handler ⊢
          exact supplied.serving j running handler
      · by_cases own : j = k
        · subst own
          have before := supplied.apart j other
          have served := supplied.sending.main j
          rw [code] at before served
          rw [set_self]
          exact before.continues contract.1 (served op (by simp)) (exec_main_continues code)
        · rw [set_of_ne own]
          exact supplied.apart j other
      · apply owned_exec supplied.disciplined (supplied.owned lock other)
          (show (system.harts k).code .main = op :: rest from code)
        intro level differs holds
        cases level with
        | main => exact absurd rfl differs
        | handler =>
            rw [HartState.code, idle] at holds
            exact holds.elim
  | @handler k op rest code =>
      have running : (system.harts k).code .handler = op :: rest := by
        rw [HartState.code, code]
        rfl
      have contract := (managed.handler k _ code).1
      obtain ⟨main, -⟩ | rfl := @exec_handler_frame k config (system.harts k)
        system.memory op rest contract
      · refine ⟨disciplined, sending, fun j ops after => ?_, fun j other => ?_,
          fun lock other => ?_⟩
        · by_cases own : j = k
          · subst own
            rw [set_self] at after ⊢
            rw [main]
            apply (supplied.serving j _ code).exec contract _ after
            intro dispatches
            exact ⟨supplied.sending.unread j _ (managed.dispatched code dispatches),
              managed.asleep_of_start code dispatches⟩
          · rw [set_of_ne own] at after ⊢
            exact supplied.serving j ops after
        · by_cases own : j = k
          · subst own
            rw [set_self, main]
            exact supplied.apart j other
          · rw [set_of_ne own]
            exact supplied.apart j other
        · apply owned_exec supplied.disciplined (supplied.owned lock other) running
          intro level differs holds
          cases level with
          | main => rwa [HartState.code, main]
          | handler => exact absurd rfl differs
      · have awake : handlerWake k (system.harts k).handler ≠ none := by
          rw [code]
          simp [handlerWake]
        refine ⟨disciplined, sending, fun j ops after => ?_, fun j other => ?_,
          fun lock other => ?_⟩
        · by_cases own : j = k
          · subst own
            rw [set_self] at after
            cases after
          · rw [set_of_ne own] at after ⊢
            exact supplied.serving j ops after
        · by_cases own : j = k
          · subst own
            rw [set_self]
            exact ⟨by simp [exec], id⟩
          · rw [set_of_ne own]
            exact supplied.apart j other
        · apply owned_exec supplied.disciplined (supplied.owned lock other) running
          intro level differs holds
          cases level with
          | main =>
              exact absurd holds (Left.free_but_own (managed.asleep k awake) other
                fun first => (supplied.apart k first).out)
          | handler => exact absurd rfl differs
  | @software_interrupt k idle up =>
      exact supplied.trap disciplined sending idle rfl .software
  | @timer_interrupt k idle low =>
      exact supplied.trap disciplined sending idle rfl .timer
  | @call k ops kernel empty idle allowed =>
      obtain ⟨request, rfl⟩ := allowed
      apply supplied.setMain disciplined sending rfl idle
      · intro other
        exact ⟨call_spares config.toPlatform request,
          (call_locks config.toPlatform k request).free _⟩
      · intro level lock holds
        cases level with
        | main =>
            rw [HartState.code, empty] at holds
            exact holds.elim
        | handler => exact holds
  | @run k user_context csrs outside idle =>
      apply supplied.setMain disciplined sending rfl idle (supplied.apart k)
      intro level lock holds
      cases level with
      | main => exact holds
      | handler => exact holds
  | @exception k cause_value lines raises empty idle =>
      apply supplied.trap disciplined sending idle rfl
      rw [empty]
      exact .exception cause_value lines

theorem Booted.supplied
    (booted : Booted config system) :
    Supplied system := by
  refine ⟨booted.disciplined, booted.sending, fun k ops code => ?_, fun k other => ?_,
    fun lock _ taken => absurd (booted.locks lock) taken⟩
  · by_cases first : k = 0
    · rw [first, booted.boot_handler] at code
      cases code
    · rw [booted.other_handler k first] at code
      cases code
      exact .of_not_waits ⟨.resume, by simp⟩ (by simp) (by simp)
  · rw [booted.other_main k other]
    exact ⟨by simp, id⟩

end Supply

/-! ## Chains of waiting harts -/

/-- Hart `h` waits for a lock that code of hart `k` holds, or for hart `k` to take its
interrupt. -/
def Awaits (system : System xlen) (h k : Nat) : Prop :=
  ∃ op rest, (system.harts h).running = op :: rest ∧
    ((∃ lock level, op.WaitsFor lock ∧ Holder lock system (k, level)) ∨ op = .poll k)

/-- The operation is neither repeated nor the end. -/
@[simp]
def Op.Proceeds (memory : Memory xlen) : Op xlen → Prop
  | .wait_load lock => memory.locks lock = 0
  | .wait_swap lock => memory.locks lock = 0
  | .poll t => memory.clint_msip t = 0
  | .halt_not_handled => False
  | .halt_exception => False
  | _ => True

/-- The hart has an interrupt to take, or its code goes on. -/
def Moves (system : System xlen) (k : Nat) : Prop :=
  (system.harts k).handler = none ∧ system.memory.clint_msip k ≠ 0 ∨
    ∃ op rest, (system.harts k).running = op :: rest ∧ op.Proceeds system.memory

/-- The hart waits for a lock that is taken and that no code will release. -/
def WaitsForLost (system : System xlen) (lock : Lock) (k : Nat) : Prop :=
  (∃ op rest, (system.harts k).running = op :: rest ∧ op.WaitsFor lock) ∧
    system.memory.locks lock ≠ 0 ∧ ∀ agent, ¬Holder lock system agent

/-- `exception_c_handler` has given up on the hart. -/
def GivenUp (system : System xlen) (k : Nat) : Prop :=
  ∃ rest, (system.harts k).running = .halt_exception :: rest

/-- Where a chain of waiting harts can end. -/
def ChainEnds (system : System xlen) (k : Nat) : Prop :=
  Moves system k ∨ GivenUp system k ∨ WaitsForLost system (.hart_command_que_locks 0) k

/-- How many harts can still follow in a chain. -/
def Op.patience : Op xlen → Nat
  | .wait_load lock => if lock.rank = 0 then 4 else 3 - lock.rank
  | .wait_swap lock => if lock.rank = 0 then 4 else 3 - lock.rank
  | .poll _ => 3
  | _ => 0

def patience (system : System xlen) (k : Nat) : Nat :=
  ((system.harts k).running.head?.map Op.patience).getD 0

section Chains

variable {config : Config} {system : System config.xlen} {started : Bool}
  {h k : Nat} {op : Op config.xlen} {rest : List (Op config.xlen)} {lock other : Lock}

theorem running_of_handler
    {hart : HartState xlen}
    {ops : List (Op xlen)}
    (code : hart.handler = some ops) :
    hart.running = ops := by
  rw [HartState.running, code, Option.getD_some]

theorem running_of_idle
    {hart : HartState xlen}
    (idle : hart.handler = none) :
    hart.running = hart.main := by
  rw [HartState.running, idle, Option.getD_none]

/-- The holder of a lock runs code. -/
theorem Supplied.running_ne_nil
    {level : Level}
    (supplied : Supplied system)
    (holder : Holder lock system (k, level)) :
    (system.harts k).running ≠ [] := by
  cases handler : (system.harts k).handler with
  | some ops =>
      obtain ⟨last, member, -⟩ := (supplied.serving k ops handler).ends
      rw [running_of_handler handler]
      exact List.ne_nil_of_mem member
  | none =>
      rw [running_of_idle handler]
      intro empty
      cases level with
      | main =>
          rw [Holder, HartState.code, empty] at holder
          exact holder
      | handler =>
          rw [Holder, HartState.code, handler] at holder
          exact holder

/-- A waiting operation is behind all locks that its code holds. -/
theorem LockContract.order
    (contract : LockContract op rest)
    (waits : op.WaitsFor other)
    (holds : Holds lock (op :: rest)) :
    lock.rank < other.rank := by
  cases op with
  | wait_load waited =>
      obtain rfl := waits
      exact contract.2 lock holds.2
  | wait_swap waited =>
      obtain rfl := waits
      exact contract.2 lock (Ne.symm holds.1) holds.2
  | _ => exact waits.elim

/-- No handler waits for a command lock. -/
theorem Managed.handler_rank
    (managed : Managed started system)
    (handler : (system.harts k).handler = some (op :: rest))
    (waits : op.WaitsFor other) :
    0 < other.rank := by
  have contract := ((managed.delivery k).handler k _ handler).1
  cases other with
  | hart_command_que_locks t =>
      cases op with
      | wait_load waited => exact absurd waits (contract t)
      | wait_swap waited => exact absurd waits (contract t)
      | _ => exact waits.elim
  | sbi_hsm_locks t => simp
  | printm_lock => simp

/-- A hart that waits for a lock holds only locks that are taken before it. -/
theorem Supplied.order
    {level : Level}
    (supplied : Supplied system)
    (managed : Managed started system)
    (holder : Holder lock system (k, level))
    (code : (system.harts k).running = op :: rest)
    (waits : op.WaitsFor other) :
    lock.rank < other.rank := by
  have contract := supplied.disciplined.contract k
  cases handler : (system.harts k).handler with
  | none =>
      rw [running_of_idle handler] at code
      cases level with
      | main =>
          have here := contract .main
          rw [HartState.code, code] at here
          rw [Holder, HartState.code, code] at holder
          exact LockContract.order here.1 waits holder
      | handler =>
          rw [Holder, HartState.code, handler] at holder
          exact holder.elim
  | some ops =>
      rw [running_of_handler handler] at code
      subst code
      cases level with
      | main =>
          have left := (supplied.serving k _ handler).below ⟨op, by simp, other, waits⟩
          have own : lock = .hart_command_que_locks k := by
            by_contra differs
            exact left.not_holds differs holder
          subst own
          exact managed.handler_rank handler waits
      | handler =>
          have here := contract .handler
          rw [HartState.code, handler] at here
          rw [Holder, HartState.code, handler] at holder
          exact LockContract.order here.1 waits holder

/-- Handlers do not poll. -/
theorem Managed.idle_of_polls
    {t : Nat}
    (managed : Managed started system)
    (code : (system.harts k).running = .poll t :: rest) :
    (system.harts k).handler = none := by
  cases handler : (system.harts k).handler with
  | none => rfl
  | some ops =>
      rw [running_of_handler handler] at code
      subst code
      exact (managed.handler k _ handler).1.elim

/-- A hart that polls holds no lock but that of the mailbox. -/
theorem Supplied.polls
    {t : Nat}
    {level : Level}
    (supplied : Supplied system)
    (managed : Managed started system)
    (code : (system.harts k).running = .poll t :: rest)
    (holder : Holder lock system (k, level)) :
    lock.rank = 0 := by
  have idle := managed.idle_of_polls code
  rw [running_of_idle idle] at code
  cases level with
  | main =>
      have contract := supplied.disciplined.contract k .main
      rw [HartState.code, code] at contract
      rw [Holder, HartState.code, code] at holder
      exact contract.1.2 lock holder
  | handler =>
      rw [Holder, HartState.code, idle] at holder
      exact holder.elim

/-- No hart gives up on an interrupt. -/
theorem Supplied.known
    (supplied : Supplied system)
    (managed : Managed started system)
    (code : (system.harts k).running = op :: rest) :
    op ≠ .halt_not_handled := by
  rintro rfl
  cases handler : (system.harts k).handler with
  | some ops =>
      rw [running_of_handler handler] at code
      subst code
      exact (supplied.serving k _ handler).known _ (by simp) rfl
  | none =>
      rw [running_of_idle handler] at code
      have contract := managed.main k k
      rw [code] at contract
      exact contract.1.2.elim

theorem Lock.rank_le (lock : Lock) : lock.rank ≤ 2 := by
  cases lock <;> simp

theorem patience_of_waits
    (code : (system.harts k).running = op :: rest)
    (waits : op.WaitsFor lock) :
    patience system k = if lock.rank = 0 then 4 else 3 - lock.rank := by
  rw [patience, code]
  cases op with
  | wait_load waited =>
      obtain rfl := waits
      rfl
  | wait_swap waited =>
      obtain rfl := waits
      rfl
  | _ => exact waits.elim

theorem patience_of_polls
    {t : Nat}
    (code : (system.harts k).running = .poll t :: rest) :
    patience system k = 3 := by
  rw [patience, code]
  rfl

/-- A hart whose chain does not end with it waits for a lock that is held, or polls. -/
theorem Supplied.blocked
    (supplied : Supplied system)
    (managed : Managed started system)
    (code : (system.harts k).running = op :: rest)
    (stuck : ¬ChainEnds system k) :
    (∃ lock agent, op.WaitsFor lock ∧ Holder lock system agent) ∨
      ∃ t, op = .poll t ∧ system.memory.clint_msip t ≠ 0 := by
  have still : ¬op.Proceeds system.memory := fun proceeds =>
    stuck (.inl (.inr ⟨op, rest, code, proceeds⟩))
  have held {lock : Lock} (waits : op.WaitsFor lock) (taken : system.memory.locks lock ≠ 0) :
      ∃ lock agent, op.WaitsFor lock ∧ Holder lock system agent := by
    by_contra none_
    have lost (agent : Nat × Level) : ¬Holder lock system agent := fun holder =>
      none_ ⟨lock, agent, waits, holder⟩
    by_cases first : lock = .hart_command_que_locks 0
    · subst first
      exact stuck (.inr (.inr ⟨⟨op, rest, code, waits⟩, taken, lost⟩))
    · obtain ⟨agent, holder⟩ := supplied.owned lock first taken
      exact lost agent holder
  cases op with
  | wait_load lock => exact .inl (held rfl still)
  | wait_swap lock => exact .inl (held rfl still)
  | poll t => exact .inr ⟨t, rfl, still⟩
  | halt_not_handled => exact absurd rfl (supplied.known managed code)
  | halt_exception => exact absurd (.inr (.inl ⟨rest, code⟩)) stuck
  | _ => exact absurd trivial still

/-- Along every run from boot, from every hart that executes firmware code, the chain of
the harts that wait for each other, for locks or for interrupts to be taken, ends: at a
hart that has an interrupt to take or goes on, at one that `exception_c_handler` has given
up on, or at a wait for the command lock of the boot hart, which the start of the boot
hart has lost. -/
theorem waiting_ends
    {first last : System config.xlen}
    {labels : List (Label config.xlen)}
    (booted : Booted config first)
    (run : Run (Step config (sbiCalls config)) first labels last)
    (busy : (last.harts h).running ≠ []) :
    ∃ k, Relation.ReflTransGen (Awaits last) h k ∧ ChainEnds last k := by
  obtain ⟨managed, supplied⟩ := run.invariant_history
    (fun history current => Managed (history.any Label.boots) current ∧ Supplied current)
    (fun {history _ label _} taken ⟨managed, supplied⟩ => by
      refine ⟨?_, supplied.step managed taken⟩
      rw [List.any_append]
      simpa using (managed.step taken).2)
    ⟨by simpa using booted.managed, booted.supplied⟩
  refine @leads_to_end _ (Awaits last) (fun k => (last.harts k).running ≠ [])
    (ChainEnds last) (patience last) ?_ h busy
  intro a alive stuck
  cases code : (last.harts a).running with
  | nil => exact absurd code alive
  | cons op rest =>
      rcases supplied.blocked managed code stuck with
        ⟨lock, ⟨k, level⟩, waits, holder⟩ | ⟨t, rfl, up⟩
      · refine ⟨k, ⟨op, rest, code, .inl ⟨lock, level, waits, holder⟩⟩, ?_⟩
        by_cases done : ChainEnds last k
        · exact .inl done
        · have busy := supplied.running_ne_nil holder
          refine .inr ⟨busy, ?_⟩
          rw [patience_of_waits code waits]
          cases running : (last.harts k).running with
          | nil => exact absurd running busy
          | cons next after =>
              rcases supplied.blocked managed running done with
                ⟨other, -, awaits, -⟩ | ⟨t, rfl, -⟩
              · have order := supplied.order managed holder running awaits
                have bound := other.rank_le
                rw [patience_of_waits running awaits]
                split_ifs <;> omega
              · have lowest := supplied.polls managed running holder
                rw [patience_of_polls running, if_pos lowest]
                omega
      · refine ⟨t, ⟨_, rest, code, .inr rfl⟩, ?_⟩
        by_cases done : ChainEnds last t
        · exact .inl done
        · rw [patience_of_polls code]
          cases handler : (last.harts t).handler with
          | none => exact absurd (.inl (.inl ⟨handler, up⟩)) done
          | some ops =>
              obtain ⟨ending, member, -⟩ := (supplied.serving t ops handler).ends
              cases ops with
              | nil => cases member
              | cons next after =>
                  have running := running_of_handler handler
                  refine .inr ⟨by rw [running]; simp, ?_⟩
                  rcases supplied.blocked managed running done with
                    ⟨other, -, awaits, -⟩ | ⟨u, rfl, -⟩
                  · have positive := managed.handler_rank handler awaits
                    rw [patience_of_waits running awaits, if_neg (by omega)]
                    omega
                  · cases (managed.idle_of_polls running).symm.trans handler

end Chains

/-- Hart 1 is about to print in its start branch, and hart 0 in a call. -/
def printingSchedule : List (Move twoHartBoard.xlen) :=
  bootSchedule ++
    .advance 1 :: .call 0 (.hart_start 1#_ 0x80200000#_ 0#_ .cleared) ::
      List.replicate 20 (.advance 0) ++
        .interrupt 1 :: List.replicate 10 (.advance 1) ++ [.call 0 .hart_stop]

/-- The next operation waits for the lock of `printm`. -/
def awaitsPrintm : List (Op xlen) → Bool
  | .wait_load .printm_lock :: _ => true
  | _ => false

set_option maxRecDepth 4000 in
/-- Hart 0 waits for the lock of `printm`, which hart 1 has taken. -/
theorem waiting_ends_board :
    ∃ (last : System twoHartBoard.xlen) (rest : List (Op twoHartBoard.xlen)),
      (last.harts 0).running = .wait_load .printm_lock :: rest ∧
        last.memory.locks .printm_lock = 1 ∧
          ∃ k, Relation.ReflTransGen (Awaits last) 0 k ∧ ChainEnds last k := by
  have played : (play twoHartBoard printingSchedule (bootSystem twoHartBoard)).any
      (fun result => awaitsPrintm (result.2.harts 0).running &&
        (result.2.memory.locks .printm_lock = 1)) = true := by
    decide
  obtain ⟨labels, last, run, -, reached⟩ := play_reaches
    (fun _ last => awaitsPrintm (last.harts 0).running &&
      (last.memory.locks .printm_lock = 1)) played
  obtain ⟨waits, taken⟩ := Bool.and_eq_true_iff.mp reached
  unfold awaitsPrintm at waits
  split at waits
  · next rest code =>
      exact ⟨last, rest, code, of_decide_eq_true taken,
        waiting_ends (bootSystem_booted twoHartBoard) run (by rw [code]; simp)⟩
  · cases waits

end Harts
end EchelonSbi
