import EchelonSbi.Foundation.Transition
import Mathlib.Logic.Function.Basic

/-!
# A one-slot mailbox behind a lock and a flag

Senders share a lock.  The one that holds it waits until a flag is down, writes
a message into the only slot, raises the flag and releases the lock.  The
receiver starts reading when the flag is up, reads the slot, may overwrite it,
and then lowers the flag.  A sender may also be abandoned at any point, and then
the lock stays taken for ever.

Whatever the interleaving, messages are received in the order in which their
senders took the lock, each at most once and as written.
-/

namespace EchelonSbi
namespace Foundation
namespace Mailbox

/-- Where a sender stands. -/
inductive Sender (μ : Type u) where
  | out
  /-- It holds the lock and waits for the flag to be down. -/
  | locked
  /-- It writes `message` into the slot. -/
  | writing (message : μ)
  /-- It raised the flag and still holds the lock. -/
  | raised

/-- Where the receiver stands. -/
inductive Receiver where
  | idle
  | reading
  /-- It read the slot and has not lowered the flag. -/
  | busy
  deriving DecidableEq, Repr

/-- The state of a mailbox with senders named by `ι`. -/
structure State (ι : Type u) (μ : Type v) where
  lock : Bool
  flag : Bool
  slot : μ
  sender : ι → Sender μ
  receiver : Receiver

/-- The observable steps. -/
inductive Event (ι : Type u) (μ : Type v) where
  | internal
  | acquired (sender : ι)
  | raised (sender : ι) (message : μ)
  | received (message : μ)
  /-- The sender is gone, wherever it stood. -/
  | abandoned (sender : ι)

variable {ι : Type u} {μ : Type v}

/-- Replace the phase of one sender. -/
def State.setSender [DecidableEq ι]
    (state : State ι μ) (i : ι) (phase : Sender μ) : State ι μ :=
  { state with sender := Function.update state.sender i phase }

/-- The steps of the protocol. -/
inductive Step [DecidableEq ι] :
    State ι μ → Event ι μ → State ι μ → Prop
  | stutter {state : State ι μ} : Step state .internal state
  | acquire {state : State ι μ} {i : ι} :
      state.lock = false → state.sender i = .out →
      Step state (.acquired i)
        { state.setSender i .locked with lock := true }
  | poll {state : State ι μ} {i : ι} {message : μ} :
      state.sender i = .locked → state.flag = false →
      Step state .internal (state.setSender i (.writing message))
  | write {state : State ι μ} {i : ι} {message value : μ} :
      state.sender i = .writing message →
      Step state .internal { state with slot := value }
  | raise {state : State ι μ} {i : ι} {message : μ} :
      state.sender i = .writing message → state.slot = message →
      Step state (.raised i message)
        { state.setSender i .raised with flag := true }
  | release {state : State ι μ} {i : ι} :
      state.sender i = .raised →
      Step state .internal { state.setSender i .out with lock := false }
  | abandon {state : State ι μ} (i : ι) :
      Step state (.abandoned i) (state.setSender i .out)
  | begin_reading {state : State ι μ} :
      state.receiver = .idle → state.flag = true →
      Step state .internal { state with receiver := .reading }
  | receive {state : State ι μ} :
      state.receiver = .reading →
      Step state (.received state.slot) { state with receiver := .busy }
  | overwrite {state : State ι μ} (value : μ) :
      state.receiver = .busy →
      Step state .internal { state with slot := value }
  | acknowledge {state : State ι μ} :
      state.receiver = .busy →
      Step state .internal { state with receiver := .idle, flag := false }

/-- The invariant of the protocol. -/
structure Invariant (state : State ι μ) : Prop where
  locked : ∀ i, state.sender i ≠ .out → state.lock = true
  exclusive : ∀ i j, state.sender i ≠ .out → state.sender j ≠ .out → i = j
  lowered : ∀ i message, state.sender i = .writing message →
    state.flag = false
  raised : state.receiver ≠ .idle → state.flag = true

/-- The message that was sent and not read. -/
def State.unread (state : State ι μ) : List μ :=
  if state.flag = true ∧ state.receiver ≠ .busy then [state.slot] else []

/-- The senders in the order in which they took the lock. -/
def acquisitions (history : List (Event ι μ)) : List ι :=
  history.filterMap fun
    | .acquired i => some i
    | _ => none

/-- The messages in the order in which they were sent. -/
def sent (history : List (Event ι μ)) : List (ι × μ) :=
  history.filterMap fun
    | .raised i message => some (i, message)
    | _ => none

/-- The messages in the order in which they were received. -/
def receipts (history : List (Event ι μ)) : List μ :=
  history.filterMap fun
    | .received message => some message
    | _ => none

/-- The sender holds the lock and has not sent its message. -/
def Sender.Unsent (phase : Sender μ) : Prop :=
  phase = .locked ∨ ∃ message, phase = .writing message

/-- The senders that took the lock and have not sent: at most one. -/
structure Holds (state : State ι μ) (holder : List ι) : Prop where
  short : holder.length ≤ 1
  free : state.lock = false → holder = []
  unsent : ∀ i, (state.sender i).Unsent → holder = [i]
  raised : ∀ i, state.sender i = .raised → holder = []

/-- Nothing is lost, duplicated or reordered: the messages sent are those
received and the unread one, and their senders are those that took the lock, in
that order, but for at most one that has not sent. -/
structure Ordered (history : List (Event ι μ)) (state : State ι μ) : Prop where
  received : (sent history).map Prod.snd = receipts history ++ state.unread
  acquired : ∃ holder,
    acquisitions history = (sent history).map Prod.fst ++ holder ∧
      Holds state holder

theorem State.unread_length (state : State ι μ) : state.unread.length ≤ 1 := by
  unfold unread
  split <;> simp

@[simp]
theorem acquisitions_append (left right : List (Event ι μ)) :
    acquisitions (left ++ right) = acquisitions left ++ acquisitions right :=
  List.filterMap_append

@[simp]
theorem sent_append (left right : List (Event ι μ)) :
    sent (left ++ right) = sent left ++ sent right :=
  List.filterMap_append

@[simp]
theorem receipts_append (left right : List (Event ι μ)) :
    receipts (left ++ right) = receipts left ++ receipts right :=
  List.filterMap_append

/-- The sender that an event lets take the lock. -/
@[simp]
theorem acquisitions_singleton (event : Event ι μ) :
    acquisitions [event] =
      match event with
      | .acquired i => [i]
      | _ => [] := by
  cases event <;> rfl

/-- The message that an event sends. -/
@[simp]
theorem sent_singleton (event : Event ι μ) :
    sent [event] =
      match event with
      | .raised i message => [(i, message)]
      | _ => [] := by
  cases event <;> rfl

/-- The message that an event receives. -/
@[simp]
theorem receipts_singleton (event : Event ι μ) :
    receipts [event] =
      match event with
      | .received message => [message]
      | _ => [] := by
  cases event <;> rfl

/-- Inside the lock there is one sender. -/
theorem Invariant.alone
    {state : State ι μ}
    (invariant : Invariant state)
    {i j : ι}
    (inside : state.sender i ≠ .out)
    (other : j ≠ i) :
    state.sender j = .out := by
  by_contra otherInside
  exact other (invariant.exclusive j i otherInside inside)

section

variable [DecidableEq ι] {state next : State ι μ} {event : Event ι μ}

@[simp]
theorem setSender_self (state : State ι μ) (i : ι) (phase : Sender μ) :
    (state.setSender i phase).sender i = phase :=
  Function.update_self ..

theorem setSender_eq_self
    {i : ι}
    {phase : Sender μ}
    (same : state.sender i = phase) :
    state.setSender i phase = state := by
  subst same
  simp [State.setSender]

@[simp]
theorem unread_setSender (state : State ι μ) (i : ι) (phase : Sender μ) :
    (state.setSender i phase).unread = state.unread :=
  rfl

theorem setSender_of_ne
    (state : State ι μ)
    {i j : ι}
    (other : j ≠ i)
    (phase : Sender μ) :
    (state.setSender i phase).sender j = state.sender j :=
  Function.update_of_ne other ..

/-- A step of a sender that keeps the lock: the others stay as they were. -/
theorem Invariant.setSender
    (invariant : Invariant state)
    {i : ι}
    {phase : Sender μ}
    (inside : state.sender i ≠ .out)
    (lowered : ∀ message, phase = .writing message → state.flag = false) :
    Invariant (state.setSender i phase) := by
  have own (j : ι) (outside : (state.setSender i phase).sender j ≠ .out) :
      state.sender j ≠ .out := by
    by_cases same : j = i
    · exact same ▸ inside
    · simpa [State.setSender, same] using outside
  refine ⟨fun j outside => invariant.locked j (own j outside),
    fun j k jOut kOut => invariant.exclusive j k (own j jOut) (own k kOut),
    fun j message writes => ?_, invariant.raised⟩
  by_cases same : j = i
  · subst same
    exact lowered message (by simpa [State.setSender] using writes)
  · exact invariant.lowered j message
      (by simpa [State.setSender, same] using writes)

/-- A step, with its event and its outcome written in another way. -/
theorem Step.congr
    {event' : Event ι μ}
    {next' : State ι μ}
    (step : Step state event next)
    (sameEvent : event' = event)
    (sameState : next' = next) :
    Step state event' next' := by
  rw [sameEvent, sameState]
  exact step

/-- The step lemma of the invariant. -/
theorem Invariant.step
    (invariant : Invariant state)
    (step : Step state event next) :
    Invariant next := by
  cases step with
  | stutter => exact invariant
  | @acquire i free outside =>
      have none_inside (j : ι) : state.sender j = .out := by
        by_contra inside
        simp [invariant.locked j inside] at free
      have only (j : ι)
          (inside : (state.setSender i .locked).sender j ≠ .out) : j = i := by
        by_contra other
        exact inside (by simp [State.setSender, other, none_inside j])
      refine ⟨fun _ _ => rfl, fun j k jIn kIn => ?_, fun j message writes => ?_,
        invariant.raised⟩
      · rw [only j jIn, only k kIn]
      · have here : j = i := only j (by rw [writes]; simp)
        simp [State.setSender, here] at writes
  | poll waits low =>
      exact invariant.setSender (by rw [waits]; simp) fun _ _ => low
  | write writes =>
      exact ⟨invariant.locked, invariant.exclusive, invariant.lowered,
        invariant.raised⟩
  | @raise i message writes _ =>
      have kept : Invariant (state.setSender i .raised) :=
        invariant.setSender (by rw [writes]; simp) (by simp)
      refine ⟨kept.locked, kept.exclusive, fun j other otherWrites => ?_,
        fun _ => rfl⟩
      have here : j = i := kept.exclusive j i
        (fun outside => by cases outside.symm.trans otherWrites)
        (by simp [State.setSender])
      simp [State.setSender, here] at otherWrites
  | @release i holds =>
      have outside (j : ι) : (state.setSender i .out).sender j = .out := by
        by_cases same : j = i
        · simp [State.setSender, same]
        · by_contra inside
          have jIn : state.sender j ≠ .out := by
            simpa [State.setSender, same] using inside
          exact same (invariant.exclusive j i jIn (by rw [holds]; simp))
      exact ⟨fun j inside => absurd (outside j) inside,
        fun j _ inside _ => absurd (outside j) inside,
        fun j _ writes => by simp [outside j] at writes, invariant.raised⟩
  | @abandon i =>
      have kept (j : ι) (inside : (state.setSender i .out).sender j ≠ .out) :
          j ≠ i ∧ state.sender j ≠ .out := by
        by_cases same : j = i
        · simp [State.setSender, same] at inside
        · exact ⟨same, by simpa [State.setSender, same] using inside⟩
      refine ⟨fun j inside => invariant.locked j (kept j inside).2,
        fun j k jIn kIn => invariant.exclusive j k (kept j jIn).2 (kept k kIn).2,
        fun j message writes => ?_, invariant.raised⟩
      have other := (kept j (by rw [writes]; simp)).1
      exact invariant.lowered j message
        (by simpa [State.setSender, other] using writes)
  | begin_reading _ up =>
      exact ⟨invariant.locked, invariant.exclusive, invariant.lowered,
        fun _ => up⟩
  | receive reads =>
      exact ⟨invariant.locked, invariant.exclusive, invariant.lowered,
        fun _ => invariant.raised (by rw [reads]; simp)⟩
  | overwrite _ =>
      exact ⟨invariant.locked, invariant.exclusive, invariant.lowered,
        invariant.raised⟩
  | acknowledge _ =>
      exact ⟨invariant.locked, invariant.exclusive, fun _ _ _ => rfl,
        fun busy => absurd rfl busy⟩

/-- The sender `i`, which holds the lock, moves on: the holder follows it. -/
theorem Holds.setSender
    (invariant : Invariant state)
    {i : ι}
    (inside : state.sender i ≠ .out)
    {phase : Sender μ}
    {holder : List ι}
    (short : holder.length ≤ 1)
    (unsent : phase.Unsent → holder = [i])
    (raised : phase = .raised → holder = []) :
    Holds (state.setSender i phase) holder := by
  have outside {j : ι} (other : j ≠ i) :
      (state.setSender i phase).sender j = .out := by
    rw [setSender_of_ne state other]
    exact invariant.alone inside other
  refine ⟨short, fun unlocked => ?_, fun j jUnsent => ?_, fun j jRaised => ?_⟩
  · have : state.lock = true := invariant.locked i inside
    exact absurd (this.symm.trans unlocked) (by simp)
  · by_cases same : j = i
    · subst same
      exact unsent (by simpa using jUnsent)
    · rw [outside same] at jUnsent
      simp [Sender.Unsent] at jUnsent
  · by_cases same : j = i
    · subst same
      exact raised (by simpa using jRaised)
    · rw [outside same] at jRaised
      simp at jRaised

/-- The step lemma of the messages: what was unread and what is sent is what is
received and what stays unread. -/
theorem Step.unread_balance
    (invariant : Invariant state)
    (step : Step state event next) :
    state.unread ++ (sent [event]).map Prod.snd =
      receipts [event] ++ next.unread := by
  cases step with
  | stutter => simp
  | @acquire i unlocked outside =>
      have same : ({ state.setSender i .locked with lock := true }).unread =
          state.unread := rfl
      simp [same]
  | poll waits low => simp
  | @write i message value writes =>
      have low := invariant.lowered i message writes
      simp [State.unread, low]
  | @raise i message writes same =>
      have low := invariant.lowered i message writes
      have quiet : state.receiver = .idle := by
        by_contra active
        simp [invariant.raised active] at low
      simp [State.unread, State.setSender, low, quiet, same]
  | @release i raised =>
      have same : ({ state.setSender i .out with lock := false }).unread =
          state.unread := rfl
      simp [same]
  | abandon i => simp
  | begin_reading quiet up => simp [State.unread, quiet, up]
  | receive reads =>
      have up := invariant.raised (by simp [reads])
      simp [State.unread, reads, up]
  | overwrite value busy => simp [State.unread, busy]
  | acknowledge busy => simp [State.unread, busy]

/-- An unread message stays the unread message until it is received. -/
theorem Step.keeps_unread
    {message : μ}
    (invariant : Invariant state)
    (unread : state.unread = [message])
    (step : Step state event next) :
    event = .received message ∨
      next.unread = [message] ∧ ∀ other, event ≠ .received other := by
  have balance := step.unread_balance invariant
  rw [unread] at balance
  cases event with
  | internal => exact .inr ⟨by simpa using balance.symm, by simp⟩
  | abandoned i => exact .inr ⟨by simpa using balance.symm, by simp⟩
  | acquired i => exact .inr ⟨by simpa using balance.symm, by simp⟩
  | raised i other =>
      have short := next.unread_length
      rw [show next.unread = [message, other] by simpa using balance.symm]
        at short
      simp at short
  | received other =>
      left
      have same : message = other := by
        simpa using congrArg List.head? balance
      rw [same]

/-- The step lemma of the lock: the holder is the last that took it, until it
sends. -/
theorem Holds.step
    {holder : List ι}
    (invariant : Invariant state)
    (holds : Holds state holder)
    (step : Step state event next) :
    ∃ after, holder ++ acquisitions [event] =
        (sent [event]).map Prod.fst ++ after ∧
      Holds next after := by
  cases step with
  | stutter => exact ⟨holder, by simp, holds⟩
  | @acquire i unlocked outside =>
      have noHolder := holds.free unlocked
      have allOut (j : ι) : state.sender j = .out := by
        by_contra inside
        simp [invariant.locked j inside] at unlocked
      have onlyOwn {j : ι} {phase : Sender μ} (inside : phase ≠ .out)
          (here : (state.setSender i .locked).sender j = phase) : j = i := by
        by_contra other
        rw [setSender_of_ne state other, allOut j] at here
        exact inside here.symm
      refine ⟨[i], by simp [noHolder], Nat.le_refl _, by simp,
        fun j unsent => ?_, fun j raised => ?_⟩
      · rcases unsent with waits | ⟨message, writes⟩
        · rw [onlyOwn (by simp) waits]
        · rw [onlyOwn (by simp) writes]
      · have same : j = i := onlyOwn (by simp) raised
        rw [same] at raised
        simp at raised
  | @poll i message waits low =>
      have inside : state.sender i ≠ .out := by simp [waits]
      exact ⟨holder, by simp, .setSender invariant inside holds.short
        (fun _ => holds.unsent i (.inl waits)) (by simp)⟩
  | write writes =>
      exact ⟨holder, by simp, holds.short, holds.free, holds.unsent,
        holds.raised⟩
  | @raise i message writes same =>
      have held := holds.unsent i (.inr ⟨message, writes⟩)
      have inside : state.sender i ≠ .out := by simp [writes]
      have moved : Holds (state.setSender i .raised) ([] : List ι) :=
        .setSender invariant inside (by simp) (by simp [Sender.Unsent])
          fun _ => rfl
      exact ⟨[], by simp [held], moved.short, moved.free, moved.unsent,
        moved.raised⟩
  | @release i raised =>
      have empty := holds.raised i raised
      have inside : state.sender i ≠ .out := by simp [raised]
      have moved : Holds (state.setSender i .out) ([] : List ι) :=
        .setSender invariant inside (by simp) (by simp [Sender.Unsent])
          (by simp)
      exact ⟨[], by simp [empty], moved.short, fun _ => rfl, moved.unsent,
        moved.raised⟩
  | abandon i =>
      refine ⟨holder, by simp, holds.short, holds.free, fun j unsent => ?_,
        fun j raised => ?_⟩
      · by_cases same : j = i
        · simp [same, Sender.Unsent] at unsent
        · rw [setSender_of_ne state same] at unsent
          exact holds.unsent j unsent
      · by_cases same : j = i
        · simp [same] at raised
        · rw [setSender_of_ne state same] at raised
          exact holds.raised j raised
  | begin_reading quiet up =>
      exact ⟨holder, by simp, holds.short, holds.free, holds.unsent,
        holds.raised⟩
  | receive reads =>
      exact ⟨holder, by simp, holds.short, holds.free, holds.unsent,
        holds.raised⟩
  | overwrite value busy =>
      exact ⟨holder, by simp, holds.short, holds.free, holds.unsent,
        holds.raised⟩
  | acknowledge busy =>
      exact ⟨holder, by simp, holds.short, holds.free, holds.unsent,
        holds.raised⟩

/-- A sender that holds the lock is there to release it. -/
def Held (state : State ι μ) : Prop :=
  state.lock = true → ∃ i, state.sender i ≠ .out

/-- The step lemma of the lock's release: the lock is held as long as no sender
that holds it is abandoned. -/
theorem Held.step
    (held : Held state)
    (kept : ∀ i, event = .abandoned i → state.sender i = .out)
    (step : Step state event next) :
    Held next := by
  have moves {i : ι} {phase : Sender μ} (inside : phase ≠ .out) :
      ∃ j, (state.setSender i phase).sender j ≠ .out :=
    ⟨i, by rwa [setSender_self]⟩
  cases step with
  | stutter => exact held
  | acquire _ _ => exact fun _ => moves (by simp)
  | poll _ _ => exact fun _ => moves (by simp)
  | write _ => exact held
  | raise _ _ => exact fun _ => moves (by simp)
  | release _ =>
      intro locked
      cases locked
  | abandon i =>
      rwa [setSender_eq_self (kept i rfl)]
  | begin_reading _ _ => exact held
  | receive _ => exact held
  | overwrite _ _ => exact held
  | acknowledge _ => exact held

/-- The step lemma of the history. -/
theorem Ordered.step
    {history : List (Event ι μ)}
    (invariant : Invariant state)
    (ordered : Ordered history state)
    (step : Step state event next) :
    Ordered (history ++ [event]) next := by
  obtain ⟨received, holder, order, holds⟩ := ordered
  obtain ⟨after, moved, holdsAfter⟩ := holds.step invariant step
  refine ⟨?_, after, ?_, holdsAfter⟩
  · calc (sent (history ++ [event])).map Prod.snd
        = (sent history).map Prod.snd ++ (sent [event]).map Prod.snd := by
          rw [sent_append, List.map_append]
      _ = receipts history ++
          (state.unread ++ (sent [event]).map Prod.snd) := by
          rw [received, List.append_assoc]
      _ = receipts (history ++ [event]) ++ next.unread := by
          rw [step.unread_balance invariant, receipts_append, List.append_assoc]
  · calc acquisitions (history ++ [event])
        = (sent history).map Prod.fst ++
          (holder ++ acquisitions [event]) := by
          rw [acquisitions_append, order, List.append_assoc]
      _ = (sent (history ++ [event])).map Prod.fst ++ after := by
          rw [moved, sent_append, List.map_append, List.append_assoc]

/-- A mailbox that nobody uses. -/
structure Quiet (state : State ι μ) : Prop where
  lock : state.lock = false
  flag : state.flag = false
  sender : ∀ i, state.sender i = .out
  receiver : state.receiver = .idle

omit [DecidableEq ι] in
theorem Quiet.invariant (quiet : Quiet state) : Invariant state :=
  ⟨fun i inside => absurd (quiet.sender i) inside,
    fun i _ inside _ => absurd (quiet.sender i) inside,
    fun i _ writes => by simp [quiet.sender i] at writes,
    fun active => absurd quiet.receiver active⟩

omit [DecidableEq ι] in
theorem Quiet.ordered (quiet : Quiet state) : Ordered [] state := by
  refine ⟨by simp [sent, receipts, State.unread, quiet.flag], [], rfl,
    by simp, fun _ => rfl, fun i unsent => ?_, fun _ _ => rfl⟩
  simp [quiet.sender i, Sender.Unsent] at unsent

/-- The run lemma: from a quiet mailbox, every history is in order. -/
theorem ordered_of_run
    {events : List (Event ι μ)}
    (run : Run Step state events next)
    (quiet : Quiet state) :
    Ordered events next ∧ Invariant next := by
  refine run.invariant_history
    (fun history current => Ordered history current ∧ Invariant current) ?_ ?_
  · rintro history before event after step ⟨ordered, invariant⟩
    exact ⟨ordered.step invariant step, invariant.step step⟩
  · exact ⟨quiet.ordered, quiet.invariant⟩

end

end Mailbox
end Foundation
end EchelonSbi
