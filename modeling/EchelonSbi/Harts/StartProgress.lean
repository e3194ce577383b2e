import EchelonSbi.Foundation.Transition
import EchelonSbi.Harts.Lifecycle

/-!
# The order of starts

What is observed of one target is what a single caller would do that starts it: it
goes down, one claim is accepted, the message of this claim is received, the target
comes up.  All other claims are refused.
-/

namespace EchelonSbi
namespace Harts
namespace Lifecycle

open Foundation (Run)

variable {ι : Type u} {μ : Type v}

/-- How far the target has come since it went down. -/
inductive Progress (μ : Type v) where
  | down
  /-- A claim was accepted. -/
  | claimed (message : μ)
  | received (message : μ)
  | up

/-- The order of the observable steps. -/
inductive Turn : Progress μ → Event ι μ → Progress μ → Prop where
  | internal {progress : Progress μ} : Turn progress .internal progress
  | accepted {i : ι} {message : μ} : Turn .down (.accepted i message) (.claimed message)
  | refused {i : ι} {progress : Progress μ} :
      progress ≠ .down → Turn progress (.refused i) progress
  | said_pending {message : μ} :
      Turn (.claimed message) (.said .START_PENDING) (.claimed message)
  | received {message : μ} :
      Turn (.claimed message) (.received message) (.received message)
  | said_started {message : μ} :
      Turn (.received message) (.said .STARTED) (.received message)
  | came_up {message : μ} : Turn (.received message) .came_up .up
  | said_down {status : SBI_HSM} : Stopped status → Turn .up (.said status) .down

/-! ## The protocol keeps the order -/

/-- The stages of a target that received a message. -/
def wakingStages : List Stage :=
  [.waking, .wakingLocked, .wokenLocked, .woken]

/-- The stages of the target when the start has come so far. -/
def Progress.stages : Progress μ → List Stage
  | .down => [.left, .down]
  | .claimed _ => [.down]
  | .received _ => wakingStages
  | .up => [.up, .leaving]

/-- Where the target and its callers stand when the start has come so far. -/
structure State.At (state : State ι μ) (progress : Progress μ) : Prop where
  stage : state.stage ∈ progress.stages
  down : progress = .down →
    Stopped state.status ∧ ∀ i, (state.caller i).message = none
  claimed : ∀ message, progress = .claimed message →
    state.unread = [message] ∨ ∃ i, (state.caller i).message = some message

/-- A caller with a message claimed the target. -/
theorem Caller.starting_of_message
    {phase : Caller μ}
    {message : μ}
    (has : phase.message = some message) :
    phase.starting = true := by
  cases phase <;> first | rfl | cases has

section

variable {state next : State ι μ} {progress : Progress μ} {i : ι} {message : μ}

/-- What holds while a caller has a message. -/
theorem Invariant.of_message
    (invariant : Invariant state)
    (has : (state.caller i).message = some message) :
    state.stage = .down ∧ state.unread = [] := by
  have admits := invariant.callers i
  cases phase : state.caller i with
  | storing => rw [phase] at admits; exact ⟨admits.2.1, admits.2.2.1⟩
  | stored => rw [phase] at admits; exact ⟨admits.2.1, admits.2.2.1⟩
  | sending => rw [phase] at admits; exact ⟨admits.1, admits.2.1⟩
  | _ => rw [phase] at has; cases has

/-- A target that is down in front of a start is not claimed, or claimed with this
message. -/
theorem State.At.of_asleep
    (at_ : state.At progress)
    (asleep : state.stage = .down)
    (claimed : Stopped state.status → ∃ i message, (state.caller i).message = some message)
    (unique : ∀ other, state.unread = [other] ∨
      (∃ i, (state.caller i).message = some other) → other = message) :
    progress = .claimed message := by
  have stage := at_.stage
  rw [asleep] at stage
  cases progress with
  | down =>
      obtain ⟨stopped, idle⟩ := at_.down rfl
      obtain ⟨i, other, has⟩ := claimed stopped
      cases (idle i).symm.trans has
  | claimed other => rw [unique other (at_.claimed other rfl)]
  | _ => exact absurd stage (by simp [Progress.stages, wakingStages])

/-- The message of a caller is the one that was claimed. -/
theorem State.At.of_message
    (at_ : state.At progress)
    (invariant : Invariant state)
    (has : (state.caller i).message = some message) :
    progress = .claimed message := by
  obtain ⟨asleep, unread⟩ := invariant.of_message has
  apply at_.of_asleep asleep (fun _ => ⟨i, message, has⟩)
  rintro other (sent | ⟨j, held⟩)
  · cases unread.symm.trans sent
  · by_cases same : j = i
    · subst same
      exact Option.some.inj (held.symm.trans has)
    · have apart := (invariant.apart j i same).2
      exact absurd ⟨Caller.starting_of_message held, Caller.starting_of_message has⟩ apart

/-- The message that is to be read is the one that was claimed. -/
theorem State.At.of_unread
    (at_ : state.At progress)
    (invariant : Invariant state)
    (only : state.unread = [message]) :
    progress = .claimed message := by
  obtain ⟨asleep, pending⟩ := invariant.target.unread (by simp [only])
  apply at_.of_asleep asleep
  · rintro (stopped | stopped)
    all_goals cases pending.symm.trans stopped
  · rintro other (sent | ⟨j, held⟩)
    · exact (List.singleton_inj.mp (only.symm.trans sent)).symm
    · cases only.symm.trans (invariant.of_message held).2

/-- A caller that may claim the target is the first one. -/
theorem State.At.of_checking
    (at_ : state.At progress)
    (invariant : Invariant state)
    (checks : state.caller i = .checking)
    (asleep : state.stage = .down)
    (stopped : Stopped state.status) :
    progress = .down := by
  have notPending : state.status ≠ .START_PENDING := by
    rcases stopped with same | same <;> simp [same]
  have stage := at_.stage
  rw [asleep] at stage
  cases progress with
  | down => rfl
  | claimed message =>
      rcases at_.claimed message rfl with sent | ⟨j, held⟩
      · exact absurd (invariant.target.unread (by simp [sent])).2 notPending
      · have admits := invariant.callers j
        have apart : j ≠ i → ¬((state.caller j).locked ∧ (state.caller i).locked) :=
          fun other => (invariant.apart j i other).1
        cases phase : state.caller j <;> simp_all [Caller.message]
  | received message => exact absurd stage (by simp [Progress.stages, wakingStages])
  | up => exact absurd stage (by simp [Progress.stages])

/-- The target that is up, or about to go down, has come up. -/
theorem State.At.of_up
    (at_ : state.At progress)
    (awake : state.stage = .up ∨ state.stage = .leaving) :
    progress = .up := by
  have stage := at_.stage
  cases progress with
  | up => rfl
  | _ => rcases awake with here | here <;> simp [here, Progress.stages, wakingStages] at stage

/-- The target that is waking has received a message. -/
theorem State.At.of_waking
    (at_ : state.At progress)
    (waking : state.stage ∈ wakingStages) :
    ∃ message, progress = .received message := by
  have stage := at_.stage
  have apart : state.stage ∉ [Stage.left, .down, .up, .leaving] := by
    revert waking
    cases state.stage <;> decide
  cases progress with
  | received message => exact ⟨message, rfl⟩
  | _ => simp_all [Progress.stages]

/-- A target that is not down has no claim on its way. -/
theorem Invariant.none_of_stage
    (invariant : Invariant state)
    (elsewhere : state.stage ≠ .down)
    (i : ι) :
    (state.caller i).message = none := by
  by_contra claimed
  obtain ⟨message, has⟩ := Option.ne_none_iff_exists'.mp claimed
  exact elsewhere (invariant.of_message has).1

/-- The target moves on in the same part of the start. -/
theorem State.At.moved
    (at_ : state.At progress)
    (stage : next.stage ∈ progress.stages)
    (down : progress = .down → Stopped state.status → Stopped next.status)
    (unread : ∀ message, progress = .claimed message →
      state.unread = [message] → next.unread = [message])
    (messages : ∀ i, (next.caller i).message = (state.caller i).message) :
    next.At progress where
  stage := stage
  down low := by
    obtain ⟨stopped, idle⟩ := at_.down low
    exact ⟨down low stopped, fun i => (messages i).trans (idle i)⟩
  claimed message claims := by
    refine (at_.claimed message claims).imp (unread message claims) ?_
    rintro ⟨i, held⟩
    exact ⟨i, (messages i).trans held⟩

/-- The message that was claimed is on its way exactly once. -/
theorem State.At.once
    (at_ : state.At (.claimed message))
    (invariant : Invariant state) :
    state.unread = [message] ∧ (∀ i, (state.caller i).message = none) ∨
      state.unread = [] ∧ ∃ i, (state.caller i).message = some message ∧
        ∀ j, j ≠ i → (state.caller j).message = none := by
  rcases at_.claimed message rfl with sent | ⟨i, held⟩
  · refine .inl ⟨sent, fun i => ?_⟩
    by_contra claimed
    obtain ⟨other, has⟩ := Option.ne_none_iff_exists'.mp claimed
    cases sent.symm.trans (invariant.of_message has).2
  · refine .inr ⟨(invariant.of_message held).2, i, held, fun j different => ?_⟩
    by_contra claimed
    obtain ⟨other, has⟩ := Option.ne_none_iff_exists'.mp claimed
    exact (invariant.apart j i different).2
      ⟨Caller.starting_of_message has, Caller.starting_of_message held⟩

variable [DecidableEq ι]

/-- One caller moves, without a claim. -/
theorem State.At.caller
    {phase : Caller μ}
    (at_ : state.At progress)
    (caller : next.caller = Function.update state.caller i phase)
    (same : phase.message = (state.caller i).message)
    (stage : next.stage = state.stage)
    (status : progress = .down → next.status = state.status)
    (unread : next.unread = state.unread) :
    next.At progress := by
  apply at_.moved
  · rw [stage]
    exact at_.stage
  · intro low stopped
    rwa [status low]
  · exact fun message _ sent => unread.trans sent
  · intro j
    rw [caller]
    by_cases own : j = i
    · rw [own, Function.update_self, same]
    · rw [Function.update_of_ne own]

/-- The step lemma. -/
theorem Invariant.turn
    {event : Event ι μ}
    (invariant : Invariant state)
    (at_ : state.At progress)
    (step : Step state event next) :
    ∃ after, Turn progress event after ∧ next.At after := by
  cases step with
  | stutter => exact ⟨progress, .internal, at_⟩
  | @lock i free outside =>
      exact ⟨progress, .internal, at_.caller rfl (by rw [outside]; rfl) rfl (fun _ => rfl) rfl⟩
  | @refuse i checks refuses =>
      refine ⟨progress, .refused ?_,
        at_.caller rfl (by rw [checks]; rfl) rfl (fun _ => rfl) rfl⟩
      intro low
      rcases (at_.down low).1 with stopped | stopped
      all_goals
        rw [stopped] at refuses
        cases refuses
  | @accept i message checks accepts =>
      obtain ⟨asleep, stopped⟩ := invariant.stopped_of_checking checks accepts
      obtain rfl := at_.of_checking invariant checks asleep stopped
      refine ⟨.claimed message, .accepted, ?_, by rintro ⟨⟩, ?_⟩
      · exact List.mem_singleton.mpr asleep
      · rintro other ⟨⟩
        have claims : (state.setCaller i (.storing message)).caller i = .storing message :=
          Function.update_self ..
        exact .inr ⟨i, congrArg Caller.message claims⟩
  | @store i message phase =>
      obtain rfl := at_.of_message invariant (show (state.caller i).message = some message by
        rw [phase]; rfl)
      exact ⟨_, .said_pending,
        at_.caller rfl (by rw [phase]; rfl) rfl (by rintro ⟨⟩) rfl⟩
  | @unlock_refused i phase =>
      exact ⟨progress, .internal, at_.caller rfl (by rw [phase]; rfl) rfl (fun _ => rfl) rfl⟩
  | @unlock_stored i message phase =>
      exact ⟨progress, .internal, at_.caller rfl (by rw [phase]; rfl) rfl (fun _ => rfl) rfl⟩
  | @send i message phase =>
      obtain rfl := at_.of_message invariant (show (state.caller i).message = some message by
        rw [phase]; rfl)
      refine ⟨_, .internal, at_.stage, by rintro ⟨⟩, ?_⟩
      rintro other ⟨⟩
      exact .inl rfl
  | leave phase free =>
      obtain rfl := at_.of_up (.inl phase)
      exact ⟨_, .internal, at_.moved (by simp [Progress.stages]) (by rintro ⟨⟩)
        (by rintro _ ⟨⟩) fun _ => rfl⟩
  | say_down phase stopped =>
      obtain rfl := at_.of_up (.inr phase)
      refine ⟨.down, .said_down stopped, by simp [Progress.stages], fun _ => ⟨stopped, ?_⟩,
        by rintro _ ⟨⟩⟩
      exact invariant.none_of_stage (by rw [phase]; decide)
  | unlock_left phase =>
      refine ⟨progress, .internal,
        at_.moved ?_ (fun _ => id) (fun _ _ => id) fun _ => rfl⟩
      have stage := at_.stage
      rw [phase] at stage
      cases progress with
      | down => simp [Progress.stages]
      | _ => exact absurd stage (by simp [Progress.stages, wakingStages])
  | receive only =>
      obtain rfl := at_.of_unread invariant only
      exact ⟨_, .received, by simp [Progress.stages, wakingStages], by rintro ⟨⟩,
        by rintro _ ⟨⟩⟩
  | lock_waking phase free =>
      obtain ⟨message, rfl⟩ := at_.of_waking (by simp [phase, wakingStages])
      exact ⟨_, .internal, at_.moved (by simp [Progress.stages, wakingStages])
        (by rintro ⟨⟩) (by rintro _ ⟨⟩) fun _ => rfl⟩
  | say_up phase =>
      obtain ⟨message, rfl⟩ := at_.of_waking (by simp [phase, wakingStages])
      exact ⟨_, .said_started, at_.moved (by simp [Progress.stages, wakingStages])
        (by rintro ⟨⟩) (by rintro _ ⟨⟩) fun _ => rfl⟩
  | unlock_woken phase =>
      obtain ⟨message, rfl⟩ := at_.of_waking (by simp [phase, wakingStages])
      exact ⟨_, .internal, at_.moved (by simp [Progress.stages, wakingStages])
        (by rintro ⟨⟩) (by rintro _ ⟨⟩) fun _ => rfl⟩
  | come_up phase =>
      obtain ⟨message, rfl⟩ := at_.of_waking (by simp [phase, wakingStages])
      exact ⟨.up, .came_up, by simp [Progress.stages], by rintro ⟨⟩, by rintro _ ⟨⟩⟩

end

/-! ## From going down to going down again -/

/-- The decisions about claims, each with the message if it was accepted. -/
def decisions (events : List (Event ι μ)) : List (ι × Option μ) :=
  events.filterMap fun event =>
    match event with
    | .accepted i message => some (i, some message)
    | .refused i => some (i, none)
    | _ => none

/-- The messages that the target received. -/
def receipts (events : List (Event ι μ)) : List μ :=
  events.filterMap fun event =>
    match event with
    | .received message => some message
    | _ => none

/-- How often the target came up. -/
def arrivals (events : List (Event ι μ)) : Nat :=
  events.countP fun event =>
    match event with
    | .came_up => true
    | _ => false

/-- The first claim was accepted, and all others refused. -/
def Won (message : μ) (events : List (Event ι μ)) : Prop :=
  ∃ (winner : ι) (losers : List ι),
    decisions events = (winner, some message) :: losers.map fun i => (i, none)

/-- What was observed of a target that was down. -/
def Session (events : List (Event ι μ)) : Progress μ → Prop
  | .down => decisions events = [] ∧ receipts events = [] ∧ arrivals events = 0
  | .claimed message => Won message events ∧ receipts events = [] ∧ arrivals events = 0
  | .received message =>
      Won message events ∧ receipts events = [message] ∧ arrivals events = 0
  | .up => ∃ message, Won message events ∧ receipts events = [message] ∧ arrivals events = 1

section Session

variable {events : List (Event ι μ)} {event : Event ι μ} {progress after : Progress μ}
  {message : μ}

theorem decisions_append (other : List (Event ι μ)) :
    decisions (events ++ other) = decisions events ++ decisions other :=
  List.filterMap_append

theorem receipts_append (other : List (Event ι μ)) :
    receipts (events ++ other) = receipts events ++ receipts other :=
  List.filterMap_append

theorem arrivals_append (other : List (Event ι μ)) :
    arrivals (events ++ other) = arrivals events + arrivals other :=
  List.countP_append

/-- An event that decides nothing. -/
theorem Won.undecided
    (won : Won message events)
    (none_ : decisions [event] = []) :
    Won message (events ++ [event]) := by
  obtain ⟨winner, losers, same⟩ := won
  exact ⟨winner, losers, by rw [decisions_append, none_, List.append_nil, same]⟩

/-- One claim more is refused. -/
theorem Won.refused
    (won : Won message events)
    (i : ι) :
    Won message (events ++ [.refused i]) := by
  obtain ⟨winner, losers, same⟩ := won
  refine ⟨winner, losers ++ [i], ?_⟩
  rw [decisions_append, same, List.map_append, List.cons_append]
  rfl

/-- Events that are not counted. -/
theorem Session.quiet
    (session : Session events progress)
    (undecided : decisions [event] = [])
    (unread : receipts [event] = [])
    (still : arrivals [event] = 0) :
    Session (events ++ [event]) progress := by
  have received : receipts (events ++ [event]) = receipts events := by
    rw [receipts_append, unread, List.append_nil]
  have arrived : arrivals (events ++ [event]) = arrivals events := by
    rw [arrivals_append, still, Nat.add_zero]
  cases progress with
  | down =>
      obtain ⟨none_, rest⟩ := session
      rw [Session, received, arrived, decisions_append, undecided, none_]
      exact ⟨rfl, rest⟩
  | claimed message =>
      rw [Session, received, arrived]
      exact ⟨session.1.undecided undecided, session.2⟩
  | received message =>
      rw [Session, received, arrived]
      exact ⟨session.1.undecided undecided, session.2⟩
  | up =>
      obtain ⟨message, won, rest⟩ := session
      rw [Session, received, arrived]
      exact ⟨message, won.undecided undecided, rest⟩

theorem Session.turn
    (session : Session events progress)
    (turn : Turn progress event after)
    (stays : ∀ status, Stopped status → event ≠ .said status) :
    Session (events ++ [event]) after := by
  cases turn with
  | internal => exact session.quiet rfl rfl rfl
  | @accepted i message =>
      obtain ⟨none_, unread, still⟩ := session
      refine ⟨⟨i, [], ?_⟩, ?_, ?_⟩
      · rw [decisions_append, none_]
        rfl
      · rw [receipts_append, unread]
        rfl
      · rw [arrivals_append, still]
        rfl
  | @refused i _ claimed =>
      have received : receipts (events ++ [.refused i]) = receipts events :=
        (receipts_append _).trans (List.append_nil _)
      have arrived : arrivals (events ++ [.refused i]) = arrivals events :=
        arrivals_append _
      cases progress with
      | down => exact absurd rfl claimed
      | claimed message =>
          rw [Session, received, arrived]
          exact ⟨session.1.refused i, session.2⟩
      | received message =>
          rw [Session, received, arrived]
          exact ⟨session.1.refused i, session.2⟩
      | up =>
          obtain ⟨message, won, rest⟩ := session
          rw [Session, received, arrived]
          exact ⟨message, won.refused i, rest⟩
  | said_pending => exact session.quiet rfl rfl rfl
  | @received message =>
      obtain ⟨won, unread, still⟩ := session
      refine ⟨won.undecided rfl, ?_, ?_⟩
      · rw [receipts_append, unread]
        rfl
      · rw [arrivals_append, still]
        rfl
  | said_started => exact session.quiet rfl rfl rfl
  | @came_up message =>
      obtain ⟨won, unread, still⟩ := session
      refine ⟨message, won.undecided rfl, ?_, ?_⟩
      · rw [receipts_append, unread]
        rfl
      · rw [arrivals_append, still]
        rfl
  | said_down stopped => exact absurd rfl (stays _ stopped)

/-- Until the target goes down again, one claim is accepted, its message is received,
and the target comes up once. -/
theorem session_of_run
    (run : Run Turn .down events progress)
    (stays : ∀ status, Stopped status → .said status ∉ events) :
    Session events progress := by
  have kept := run.invariant_history
    (fun history progress =>
      (∀ status, Stopped status → .said status ∉ history) → Session history progress)
    (fun {history _ event _} turn before stays => by
      apply (before fun status stopped inside => stays status stopped ?_).turn turn
      · rintro status stopped rfl
        exact stays status stopped (by simp)
      · exact List.mem_append_left _ inside)
    fun _ => ⟨rfl, rfl, rfl⟩
  exact kept stays

/-- Later claims do not change who won. -/
theorem Won.of_session
    {other : List (Event ι μ)}
    (won : Won message events)
    (session : Session (events ++ other) progress) :
    Won message (events ++ other) := by
  obtain ⟨winner, losers, same⟩ := won
  have later := @decisions_append _ _ events other
  rw [same] at later
  have agree {final : μ} (final_ : Won final (events ++ other)) :
      Won message (events ++ other) := by
    obtain ⟨first, rest, whole⟩ := final_
    have heads := (List.cons.inj (whole.symm.trans later)).1
    cases heads
    exact ⟨winner, rest, whole⟩
  cases progress with
  | down => cases later.symm.trans session.1
  | claimed final => exact agree session.1
  | received final => exact agree session.1
  | up =>
      obtain ⟨final, won, -⟩ := session
      exact agree won

/-- A target that said that it is down is down. -/
theorem down_of_run
    {origin : Progress μ}
    {status : SBI_HSM}
    (run : Run Turn origin (events ++ [.said status]) progress)
    (stopped : Stopped status) :
    progress = .down := by
  obtain ⟨middle, -, last⟩ := run.of_append
  obtain ⟨after, turn, rest⟩ := last.of_cons
  obtain rfl := rest.of_nil
  cases turn with
  | said_down => rfl
  | said_pending => rcases stopped with same | same <;> cases same
  | said_started => rcases stopped with same | same <;> cases same

end Session

end Lifecycle
end Harts
end EchelonSbi
