import EchelonSbi.Harts.Program
import Mathlib.Logic.Function.Basic

/-!
# Starting and stopping one hart

The purpose of the hart state management, apart from how the firmware does it.
One target is up or down.  Callers that find it down claim it under a lock,
send it one start message and leave; the target receives the message, says so
under the same lock, and is up.  It goes down by itself, under the lock.

A claim never meets another one: between going down and coming up there is
exactly one start on its way.
-/

namespace EchelonSbi
namespace Harts
namespace Lifecycle

/-- Where a caller stands. -/
inductive Caller (μ : Type u) where
  | out
  /-- It holds the lock and has not looked at the status. -/
  | checking
  /-- It holds the lock and gave up. -/
  | refused
  /-- It holds the lock, found the target down and will send `message`. -/
  | storing (message : μ)
  /-- It holds the lock and wrote the status. -/
  | stored (message : μ)
  /-- It released the lock and has not sent. -/
  | sending (message : μ)

/-- Where the target stands. -/
inductive Stage where
  | up
  /-- It holds the lock and will say that it is down. -/
  | leaving
  /-- It holds the lock and said so. -/
  | left
  | down
  /-- It received a start. -/
  | waking
  /-- It holds the lock and will say that it is up. -/
  | wakingLocked
  /-- It holds the lock and said so. -/
  | wokenLocked
  | woken
  deriving DecidableEq, Repr

/-- The caller holds the lock. -/
@[simp]
def Caller.locked : Caller μ → Bool
  | .checking | .refused | .storing _ | .stored _ => true
  | _ => false

/-- The caller claimed the target and has not sent. -/
@[simp]
def Caller.starting : Caller μ → Bool
  | .storing _ | .stored _ | .sending _ => true
  | _ => false

/-- The message of a caller that claimed the target. -/
def Caller.message : Caller μ → Option μ
  | .storing message | .stored message | .sending message => some message
  | _ => none

/-- The target holds the lock. -/
@[simp]
def Stage.locked : Stage → Bool
  | .leaving | .left | .wakingLocked | .wokenLocked => true
  | _ => false

/-- A hart that said it is down. -/
@[simp]
def Stopped (status : SBI_HSM) : Prop :=
  status = .STOPPED ∨ status = .SUSPENDED

/-- The state of one target. -/
structure State (ι : Type u) (μ : Type v) where
  status : SBI_HSM
  lock : Bool
  caller : ι → Caller μ
  stage : Stage
  /-- The start messages that were sent and not received. -/
  unread : List μ

variable {ι : Type u} {μ : Type v}

/-- Replace the phase of one caller. -/
@[simp]
def State.setCaller [DecidableEq ι]
    (state : State ι μ) (i : ι) (phase : Caller μ) : State ι μ :=
  { state with caller := Function.update state.caller i phase }

/-- The observable steps. -/
inductive Event (ι : Type u) (μ : Type v) where
  | internal
  | accepted (caller : ι) (message : μ)
  | refused (caller : ι)
  /-- The status was written. -/
  | said (status : SBI_HSM)
  | received (message : μ)
  | came_up

/-- The steps of the protocol. -/
inductive Step [DecidableEq ι] :
    State ι μ → Event ι μ → State ι μ → Prop
  | stutter {state : State ι μ} : Step state .internal state
  | lock {state : State ι μ} {i : ι} :
      state.lock = false → state.caller i = .out →
      Step state .internal { state.setCaller i .checking with lock := true }
  | refuse {state : State ι μ} {i : ι} :
      state.caller i = .checking → refusesStart state.status = true →
      Step state (.refused i) (state.setCaller i .refused)
  | accept {state : State ι μ} {i : ι} (message : μ) :
      state.caller i = .checking → refusesStart state.status = false →
      Step state (.accepted i message) (state.setCaller i (.storing message))
  | store {state : State ι μ} {i : ι} {message : μ} :
      state.caller i = .storing message →
      Step state (.said .START_PENDING)
        { state.setCaller i (.stored message) with status := .START_PENDING }
  | unlock_refused {state : State ι μ} {i : ι} :
      state.caller i = .refused →
      Step state .internal { state.setCaller i .out with lock := false }
  | unlock_stored {state : State ι μ} {i : ι} {message : μ} :
      state.caller i = .stored message →
      Step state .internal { state.setCaller i (.sending message) with lock := false }
  | send {state : State ι μ} {i : ι} {message : μ} :
      state.caller i = .sending message →
      Step state .internal { state.setCaller i .out with unread := [message] }
  | leave {state : State ι μ} :
      state.stage = .up → state.lock = false →
      Step state .internal { state with stage := .leaving, lock := true }
  | say_down {state : State ι μ} {status : SBI_HSM} :
      state.stage = .leaving → Stopped status →
      Step state (.said status) { state with stage := .left, status := status }
  | unlock_left {state : State ι μ} :
      state.stage = .left →
      Step state .internal { state with stage := .down, lock := false }
  | receive {state : State ι μ} {message : μ} :
      state.unread = [message] →
      Step state (.received message) { state with stage := .waking, unread := [] }
  | lock_waking {state : State ι μ} :
      state.stage = .waking → state.lock = false →
      Step state .internal { state with stage := .wakingLocked, lock := true }
  | say_up {state : State ι μ} :
      state.stage = .wakingLocked →
      Step state (.said .STARTED) { state with stage := .wokenLocked, status := .STARTED }
  | unlock_woken {state : State ι μ} :
      state.stage = .wokenLocked →
      Step state .internal { state with stage := .woken, lock := false }
  | come_up {state : State ι μ} :
      state.stage = .woken →
      Step state .came_up { state with stage := .up }

/-- What holds while a caller stands at a given place. -/
@[simp]
def State.Admits (state : State ι μ) : Caller μ → Prop
  | .out => True
  | .checking => state.lock = true ∧ state.stage.locked = false
  | .refused => state.lock = true ∧ state.stage.locked = false
  | .storing _ =>
      state.lock = true ∧ state.stage = .down ∧ state.unread = [] ∧
        Stopped state.status
  | .stored _ =>
      state.lock = true ∧ state.stage = .down ∧ state.unread = [] ∧
        state.status = .START_PENDING
  | .sending _ =>
      state.stage = .down ∧ state.unread = [] ∧ state.status = .START_PENDING

/-- Where two callers can stand at a time. -/
@[simp]
def Caller.Apart (left right : Caller μ) : Prop :=
  ¬(left.locked ∧ right.locked) ∧ ¬(left.starting ∧ right.starting)

/-- The caller wrote the status and has not sent. -/
@[simp]
def Caller.Pending (phase : Caller μ) : Prop :=
  ∃ message, phase = .stored message ∨ phase = .sending message

/-- The status that the target has at a given place. -/
@[simp]
def Stage.Shows (status : SBI_HSM) : Stage → Prop
  | .up | .leaving | .wokenLocked | .woken => status = .STARTED
  | .left => Stopped status
  | .waking | .wakingLocked => status = .START_PENDING
  | .down => Stopped status ∨ status = .START_PENDING

/-- The invariant of the target, apart from its callers. -/
structure Target (state : State ι μ) : Prop where
  locked : state.stage.locked → state.lock = true
  shows_ : state.stage.Shows state.status
  short : state.unread.length ≤ 1
  unread : state.unread ≠ [] →
    state.stage = .down ∧ state.status = .START_PENDING

/-- The invariant of the protocol. -/
structure Invariant (state : State ι μ) : Prop where
  target : Target state
  callers : ∀ i, state.Admits (state.caller i)
  apart : ∀ i j, i ≠ j → (state.caller i).Apart (state.caller j)
  kept : state.status = .START_PENDING → state.stage = .down →
    state.unread ≠ [] ∨ ∃ i, (state.caller i).Pending

section

variable [DecidableEq ι] {state next : State ι μ}

theorem Caller.Apart.symm {left right : Caller μ} (apart : left.Apart right) :
    right.Apart left :=
  ⟨fun both => apart.1 both.symm, fun both => apart.2 both.symm⟩

/-- A step, with its outcome written in another way. -/
theorem Step.congr
    {event event' : Event ι μ}
    {next' : State ι μ}
    (step : Step state event next)
    (shown : event' = event)
    (same : next' = next) :
    Step state event' next' := by
  rw [shown, same]
  exact step

/-- One caller moves. -/
theorem Invariant.move
    {i : ι}
    {phase : Caller μ}
    (invariant : Invariant state)
    (caller : next.caller = Function.update state.caller i phase)
    (target : Target next)
    (own : next.Admits phase)
    (others : ∀ other, state.Admits other → (state.caller i).Apart other →
      next.Admits other ∧ phase.Apart other)
    (kept : next.status = .START_PENDING → next.stage = .down →
      next.unread ≠ [] ∨ phase.Pending ∨
        state.status = .START_PENDING ∧ state.stage = .down ∧
          (state.unread ≠ [] → next.unread ≠ []) ∧
            ¬(state.caller i).Pending) :
    Invariant next := by
  have self : next.caller i = phase := by
    rw [caller, Function.update_self]
  have same {j : ι} (other : j ≠ i) : next.caller j = state.caller j := by
    rw [caller, Function.update_of_ne other]
  have moved {j : ι} (other : j ≠ i) :=
    others (state.caller j) (invariant.callers j)
      (invariant.apart i j other.symm)
  refine ⟨target, fun j => ?_, fun j k different => ?_, fun starts asleep => ?_⟩
  · by_cases here : j = i
    · rw [here, self]
      exact own
    · rw [same here]
      exact (moved here).1
  · by_cases jHere : j = i
    · subst jHere
      rw [self, same different.symm]
      exact (moved different.symm).2
    · by_cases kHere : k = i
      · subst kHere
        rw [self, same jHere]
        exact (moved jHere).2.symm
      · rw [same jHere, same kHere]
        exact invariant.apart j k different
  · rcases kept starts asleep with unread | pending | ⟨before, stage, kept, not_⟩
    · exact .inl unread
    · exact .inr ⟨i, by rwa [self]⟩
    · rcases invariant.kept before stage with unread | ⟨j, pending⟩
      · exact .inl (kept unread)
      · have other : j ≠ i := by
          rintro rfl
          exact not_ pending
        exact .inr ⟨j, by rwa [same other]⟩

omit [DecidableEq ι] in
/-- The target moves. -/
theorem Invariant.moveTarget
    (invariant : Invariant state)
    (caller : next.caller = state.caller)
    (target : Target next)
    (others : ∀ other, state.Admits other → next.Admits other)
    (kept : next.status = .START_PENDING → next.stage = .down →
      next.unread ≠ []) :
    Invariant next := by
  refine ⟨target, fun j => ?_, fun j k different => ?_, fun starts asleep => ?_⟩
  · rw [caller]
    exact others _ (invariant.callers j)
  · rw [caller]
    exact invariant.apart j k different
  · exact .inl (kept starts asleep)

omit [DecidableEq ι] in
/-- Where the lock is free, no place that holds it is taken. -/
theorem Invariant.unlocked
    (invariant : Invariant state)
    (free : state.lock = false) :
    state.stage.locked = false ∧ ∀ i, (state.caller i).locked = false := by
  refine ⟨?_, fun i => ?_⟩
  · cases locked : state.stage.locked with
    | false => rfl
    | true => cases free.symm.trans (invariant.target.locked locked)
  · have admits := invariant.callers i
    cases phase : state.caller i <;> simp_all

omit [DecidableEq ι] in
/-- A hart that does not refuse a start said that it is down. -/
theorem Invariant.stopped_of_checking
    (invariant : Invariant state)
    {i : ι}
    (checks : state.caller i = .checking)
    (accepts : refusesStart state.status = false) :
    state.stage = .down ∧ Stopped state.status := by
  have shows_ := invariant.target.shows_
  have admits := invariant.callers i
  rw [checks] at admits
  cases stage : state.stage <;> cases status : state.status <;>
    simp_all [refusesStart]

/-- Only a target that is down is claimed. -/
theorem Invariant.stopped_of_accepted
    {i : ι}
    {message : μ}
    (invariant : Invariant state)
    (step : Step state (.accepted i message) next) :
    Stopped state.status := by
  cases step with
  | accept _ checks accepts =>
      exact (invariant.stopped_of_checking checks accepts).2

/-- The step lemma of the invariant. -/
theorem Invariant.step
    {event : Event ι μ}
    (invariant : Invariant state)
    (step : Step state event next) :
    Invariant next := by
  have target := invariant.target
  cases step with
  | stutter => exact invariant
  | @lock i free outside =>
      obtain ⟨quiet, unlocked⟩ := invariant.unlocked free
      refine invariant.move rfl
        ⟨fun _ => rfl, target.shows_, target.short, target.unread⟩ ⟨rfl, quiet⟩
        (fun other admits apart => ?_)
        fun starts asleep => .inr (.inr ⟨starts, asleep, id, by simp [outside]⟩)
      cases other <;> simp_all
  | @refuse i checks refuses =>
      have own := invariant.callers i
      rw [checks] at own
      refine invariant.move rfl
        ⟨target.locked, target.shows_, target.short, target.unread⟩ own
        (fun other admits apart => ?_)
        fun starts asleep => .inr (.inr ⟨starts, asleep, id, by simp [checks]⟩)
      cases other <;> simp_all
  | @accept i message checks accepts =>
      obtain ⟨asleep, stopped⟩ := invariant.stopped_of_checking checks accepts
      have own := invariant.callers i
      rw [checks] at own
      have notPending : state.status ≠ .START_PENDING := by
        rcases stopped with same | same <;> simp [same]
      have empty : state.unread = [] := by
        by_contra unread
        exact notPending (target.unread unread).2
      refine invariant.move rfl
        ⟨target.locked, target.shows_, target.short, target.unread⟩
        ⟨own.1, asleep, empty, stopped⟩
        (fun other admits apart => ?_)
        fun starts asleep => absurd starts notPending
      cases other <;> simp_all
  | @store i message phase =>
      have own := invariant.callers i
      rw [phase] at own
      obtain ⟨locked, asleep, empty, stopped⟩ := own
      refine invariant.move rfl ⟨target.locked, ?_, target.short, ?_⟩
        ⟨locked, asleep, empty, rfl⟩ (fun other admits apart => ?_)
        fun _ _ => .inr (.inl ⟨message, .inl rfl⟩)
      · simp [asleep]
      · simp [empty]
      · cases other <;> simp_all
  | @unlock_refused i phase =>
      have own := invariant.callers i
      rw [phase] at own
      refine invariant.move rfl ⟨?_, target.shows_, target.short, target.unread⟩
        trivial (fun other admits apart => ?_)
        fun starts asleep => .inr (.inr ⟨starts, asleep, id, by simp [phase]⟩)
      · intro locked
        cases own.2.symm.trans locked
      · cases other <;> simp_all
  | @unlock_stored i message phase =>
      have own := invariant.callers i
      rw [phase] at own
      obtain ⟨locked, asleep, empty, pending⟩ := own
      refine invariant.move rfl ⟨?_, target.shows_, target.short, target.unread⟩
        ⟨asleep, empty, pending⟩ (fun other admits apart => ?_)
        fun _ _ => .inr (.inl ⟨message, .inr rfl⟩)
      · simp [asleep]
      · cases other <;> simp_all
  | @send i message phase =>
      have own := invariant.callers i
      rw [phase] at own
      obtain ⟨asleep, empty, pending⟩ := own
      refine invariant.move rfl
        ⟨target.locked, target.shows_, by simp, fun _ => ⟨asleep, pending⟩⟩
        trivial (fun other admits apart => ?_) fun _ _ => .inl (by simp)
      cases other <;> simp_all
  | leave phase free =>
      have up := target.shows_
      rw [phase] at up
      refine invariant.moveTarget rfl ⟨fun _ => rfl, up, target.short, ?_⟩
        (fun other admits => ?_) (by simp)
      · intro unread
        cases phase.symm.trans (target.unread unread).1
      · cases other <;> simp_all
  | say_down phase stopped =>
      refine invariant.moveTarget rfl
        ⟨fun _ => target.locked (by simp [phase]), stopped, target.short, ?_⟩
        (fun other admits => ?_) (by simp)
      · intro unread
        cases phase.symm.trans (target.unread unread).1
      · cases other <;> simp_all
  | unlock_left phase =>
      have stopped := target.shows_
      rw [phase] at stopped
      have notPending : state.status ≠ .START_PENDING := by
        rcases stopped with same | same <;> simp [same]
      refine invariant.moveTarget rfl
        ⟨by simp, .inl stopped, target.short, ?_⟩
        (fun other admits => ?_) fun starts => absurd starts notPending
      · intro unread
        cases phase.symm.trans (target.unread unread).1
      · cases other <;> simp_all
  | receive only =>
      obtain ⟨asleep, pending⟩ := target.unread (by simp [only])
      refine invariant.moveTarget rfl ⟨by simp, pending, by simp, by simp⟩
        (fun other admits => ?_) (by simp)
      cases other <;> simp_all
  | lock_waking phase free =>
      have pending := target.shows_
      rw [phase] at pending
      refine invariant.moveTarget rfl ⟨fun _ => rfl, pending, target.short, ?_⟩
        (fun other admits => ?_) (by simp)
      · intro unread
        cases phase.symm.trans (target.unread unread).1
      · cases other <;> simp_all
  | say_up phase =>
      refine invariant.moveTarget rfl
        ⟨fun _ => target.locked (by simp [phase]), rfl, target.short, ?_⟩
        (fun other admits => ?_) (by simp)
      · intro unread
        cases phase.symm.trans (target.unread unread).1
      · cases other <;> simp_all
  | unlock_woken phase =>
      have up := target.shows_
      rw [phase] at up
      refine invariant.moveTarget rfl ⟨by simp, up, target.short, ?_⟩
        (fun other admits => ?_) (by simp)
      · intro unread
        cases phase.symm.trans (target.unread unread).1
      · cases other <;> simp_all
  | come_up phase =>
      have up := target.shows_
      rw [phase] at up
      refine invariant.moveTarget rfl ⟨by simp, up, target.short, ?_⟩
        (fun other admits => ?_) (by simp)
      · intro unread
        cases phase.symm.trans (target.unread unread).1
      · cases other <;> simp_all

end

end Lifecycle
end Harts
end EchelonSbi
