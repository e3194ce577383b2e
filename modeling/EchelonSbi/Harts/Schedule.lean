import EchelonSbi.Harts.System

/-!
# Runs by a schedule

An interpreter of the step relation.  A schedule says which hart moves next,
and whether it goes on with its code, takes a software interrupt or makes a
call; what the interpreter reaches, a run reaches.
-/

namespace EchelonSbi
namespace Harts

open Foundation
open Sbi

/-- One entry of a schedule. -/
inductive Move (xlen : Xlen) where
  /-- Hart `h` executes its next operation. -/
  | advance (h : Nat)
  /-- Hart `h` takes its machine software interrupt. -/
  | interrupt (h : Nat)
  /-- The kernel on hart `h` makes a call. -/
  | call (h : Nat) (request : Request xlen)
  /-- Hart `h` has an exception that `exception_c_handler` gives up on. -/
  | fault (h cause_value : Nat)

namespace Move

/-- The hart that moves. -/
def hart : Move xlen → Nat
  | .advance h => h
  | .interrupt h => h
  | .call h _ => h
  | .fault h _ => h

/-- Execute one entry, where the system allows it. -/
def take
    (config : Config) (system : System config.xlen) :
    Move config.xlen → Option (Label config.xlen × System config.xlen)
  | .advance h =>
      match (system.harts h).handler, (system.harts h).main with
      | some (op :: rest), _ =>
          let outcome :=
            exec config h .handler rest (system.harts h) system.memory op
          some (⟨h, .handler, outcome.1⟩, system.set h outcome)
      | none, op :: rest =>
          let outcome :=
            exec config h .main rest (system.harts h) system.memory op
          some (⟨h, .main, outcome.1⟩, system.set h outcome)
      | _, _ => none
  | .interrupt h =>
      match (system.harts h).handler with
      | none =>
          if system.memory.clint_msip h = 0 then none
          else
            some (⟨h, .handler, .interrupted⟩,
              system.setHart h
                { (system.harts h).save with
                  handler := some machineSoftwareInterrupt })
      | some _ => none
  | .call h request =>
      match (system.harts h).base, (system.harts h).main,
          (system.harts h).handler with
      | .kernel, [], none =>
          let ops := call_to_sbi config.toPlatform h request
          some (⟨h, .main, .called ops⟩,
            system.setHart h { system.harts h with main := ops })
      | _, _, _ => none
  | .fault h cause_value =>
      match (system.harts h).main, (system.harts h).handler with
      | [], none =>
          if (system.harts h).Raises cause_value then
            some (⟨h, .handler, .interrupted⟩,
              system.setHart h
                { (system.harts h).save with
                  handler := some (exceptionHalt h cause_value []) })
          else none
      | _, _ => none

end Move

/-- Execute a schedule. -/
def play
    (config : Config) :
    List (Move config.xlen) → System config.xlen →
      Option (List (Label config.xlen) × System config.xlen)
  | [], system => some ([], system)
  | move :: moves, system =>
      match move.take config system with
      | none => none
      | some (label, next) =>
          match play config moves next with
          | none => none
          | some (labels, last) => some (label :: labels, last)

section

variable {config : Config} {system next : System config.xlen}
  {label : Label config.xlen}

/-- The interpreter makes steps of the system. -/
theorem Move.take_step
    {move : Move config.xlen}
    (taken : move.take config system = some (label, next)) :
    Step config (sbiCalls config) system label next ∧
      label.hart = move.hart := by
  cases move with
  | advance h =>
      simp only [Move.take] at taken
      split at taken
      · next op rest _ code =>
          cases taken
          exact ⟨.handler code, rfl⟩
      · next op rest idle code =>
          cases taken
          exact ⟨.main idle code, rfl⟩
      · cases taken
  | interrupt h =>
      simp only [Move.take] at taken
      split at taken
      · next idle =>
          split_ifs at taken with low
          cases taken
          exact ⟨.software_interrupt idle low, rfl⟩
      · cases taken
  | call h request =>
      simp only [Move.take] at taken
      split at taken
      · next kernel empty idle =>
          cases taken
          exact ⟨.call kernel empty idle ⟨request, rfl⟩, rfl⟩
      · cases taken
  | fault h cause_value =>
      simp only [Move.take] at taken
      split at taken
      · next empty idle =>
          split_ifs at taken with raises
          cases taken
          exact ⟨.exception raises empty idle, rfl⟩
      · cases taken

/-- The interpreter makes runs of any system that allows its steps. -/
theorem play_run_of
    {step : System config.xlen → Label config.xlen → System config.xlen → Prop}
    (allowed : ∀ {move : Move config.xlen} {before label after},
      move.take config before = some (label, after) → step before label after)
    {moves : List (Move config.xlen)}
    {labels : List (Label config.xlen)}
    (played : play config moves system = some (labels, next)) :
    Run step system labels next := by
  induction moves generalizing system labels with
  | nil =>
      cases played
      exact .refl _
  | cons move moves inductionHypothesis =>
      simp only [play] at played
      split at played
      · cases played
      · next label middle taken =>
          split at played
          · cases played
          · next later last rest =>
              cases played
              exact (inductionHypothesis rest).cons (allowed taken)

/-- Every step of a schedule passes a test. -/
def passes
    (config : Config) (test : System config.xlen → Label config.xlen → Bool) :
    List (Move config.xlen) → System config.xlen → Bool
  | [], _ => true
  | move :: moves, system =>
      match move.take config system with
      | none => true
      | some (label, next) => test system label && passes config test moves next

/-- The interpreter makes runs whose steps pass the test of the schedule. -/
theorem play_run_passes
    {test : System config.xlen → Label config.xlen → Bool}
    {moves : List (Move config.xlen)}
    {labels : List (Label config.xlen)}
    (played : play config moves system = some (labels, next))
    (passed : passes config test moves system = true) :
    Run (fun before label after =>
      Step config (sbiCalls config) before label after ∧ test before label = true)
      system labels next := by
  induction moves generalizing system labels with
  | nil =>
      cases played
      exact .refl _
  | cons move moves inductionHypothesis =>
      simp only [play] at played
      split at played
      · cases played
      · next label middle taken =>
          rw [passes, taken] at passed
          obtain ⟨here, later⟩ := Bool.and_eq_true_iff.mp passed
          split at played
          · cases played
          · next after last rest =>
              cases played
              exact (inductionHypothesis rest later).cons ⟨(Move.take_step taken).1, here⟩

/-- The interpreter makes runs, and leaves alone the harts that the schedule
does not name. -/
theorem play_run
    {moves : List (Move config.xlen)}
    {labels : List (Label config.xlen)}
    (played : play config moves system = some (labels, next)) :
    Run (Step config (sbiCalls config)) system labels next ∧
      ∀ k, (∀ move ∈ moves, move.hart ≠ k) → next.harts k = system.harts k := by
  refine ⟨play_run_of (fun taken => (Move.take_step taken).1) played,
    fun k others => ?_⟩
  induction moves generalizing system labels with
  | nil =>
      cases played
      rfl
  | cons move moves inductionHypothesis =>
      simp only [play] at played
      split at played
      · cases played
      · next label middle taken =>
          obtain ⟨step, hart⟩ := Move.take_step taken
          split at played
          · cases played
          · next later last rest =>
              cases played
              rw [inductionHypothesis rest fun other member =>
                others other (List.mem_cons_of_mem _ member)]
              apply step.frame
              rw [hart]
              exact (others move List.mem_cons_self).symm

/-- What the interpreter computes of its last state holds after a run. -/
theorem play_reaches
    {moves : List (Move config.xlen)}
    (holds : List (Label config.xlen) → System config.xlen → Bool)
    (played : (play config moves system).any
      (fun result => holds result.1 result.2) = true) :
    ∃ labels last, Run (Step config (sbiCalls config)) system labels last ∧
      (∀ k, (∀ move ∈ moves, move.hart ≠ k) → last.harts k = system.harts k) ∧
        holds labels last = true := by
  cases result : play config moves system with
  | none =>
      rw [result] at played
      cases played
  | some reached =>
      obtain ⟨run, frame⟩ := play_run result
      rw [result] at played
      exact ⟨reached.1, reached.2, run, frame, played⟩

/-- What the interpreter computes of one more step holds after a run. -/
theorem play_steps
    {moves : List (Move config.xlen)}
    {move : Move config.xlen}
    (holds : System config.xlen → System config.xlen → Bool)
    (played : (play config moves system).any (fun result =>
      (move.take config result.2).any fun taken => holds result.2 taken.2) =
        true) :
    ∃ labels last label next,
      Run (Step config (sbiCalls config)) system labels last ∧
        Step config (sbiCalls config) last label next ∧
          holds last next = true := by
  obtain ⟨labels, last, run, -, reached⟩ := play_reaches
    (fun _ last => (move.take config last).any fun taken => holds last taken.2)
    played
  cases result : move.take config last with
  | none =>
      rw [result] at reached
      cases reached
  | some taken =>
      rw [result] at reached
      exact ⟨labels, last, taken.1, taken.2, run, (Move.take_step result).1,
        reached⟩

/-- The kernel on a hart makes a call. -/
def Label.calls (label : Label xlen) : Bool :=
  match label.event with
  | .called _ => true
  | _ => false

/-- The steps since a call end with its successful return on hart `h`, and no
call is made meanwhile. -/
def succeeds (h : Nat) (labels : List (Label xlen)) : Bool :=
  match labels.getLast? with
  | some ⟨k, .main, .returned retval⟩ =>
      k = h ∧ retval.error = SBI_SUCCESS ∧ labels.all fun label => !label.calls
  | _ => false

theorem succeeds_iff
    {h : Nat}
    {labels : List (Label xlen)}
    (success : succeeds h labels = true) :
    ∃ window retval, labels = window ++ [⟨h, .main, .returned retval⟩] ∧
      retval.error = SBI_SUCCESS ∧
      ∀ other, ⟨h, .main, .called other⟩ ∉ window := by
  unfold succeeds at success
  split at success
  · next k retval final =>
      obtain ⟨rfl, error, quiet⟩ := of_decide_eq_true success
      obtain ⟨window, rfl⟩ := List.getLast?_eq_some_iff.mp final
      refine ⟨window, retval, rfl, error, fun other member => ?_⟩
      have := List.all_eq_true.mp quiet _ (List.mem_append_left _ member)
      cases this
  · cases success

/-- A schedule that reaches a state, makes a call there and goes on to its
successful return makes a run. -/
theorem play_succeeds
    {before moves : List (Move config.xlen)}
    {h : Nat}
    {request : Request config.xlen}
    (holds : List (Label config.xlen) → Bool)
    (played : (play config before system).any (fun reached =>
      (play config (.call h request :: moves) reached.2).any fun result =>
        succeeds h result.1.tail && holds result.1.tail) = true) :
    ∃ earlier window retval last,
      Run (Step config (sbiCalls config)) system
          (earlier ++ ⟨h, .main, .called (call_to_sbi config.toPlatform h
              request)⟩ :: window ++ [⟨h, .main, .returned retval⟩]) last ∧
        (∀ other, ⟨h, .main, .called other⟩ ∉ window) ∧
        retval.error = SBI_SUCCESS ∧
        holds (window ++ [⟨h, .main, .returned retval⟩]) = true := by
  obtain ⟨earlier, middle, run, -, reached⟩ := play_reaches
    (fun _ middle => (play config (.call h request :: moves) middle).any
      fun result => succeeds h result.1.tail && holds result.1.tail) played
  cases result : play config (.call h request :: moves) middle with
  | none =>
      rw [result] at reached
      cases reached
  | some done =>
      obtain ⟨later, -⟩ := play_run result
      rw [result] at reached
      obtain ⟨success, good⟩ := Bool.and_eq_true_iff.mp reached
      obtain ⟨window, retval, shape, error, quiet⟩ := succeeds_iff success
      have called : done.1 = ⟨h, .main, .called (call_to_sbi config.toPlatform h
          request)⟩ :: done.1.tail := by
        simp only [play] at result
        split at result
        · cases result
        · next label next taken =>
            simp only [Move.take] at taken
            split at taken
            · cases taken
              split at result
              · cases result
              · cases result
                rfl
            · cases taken
      refine ⟨earlier, window, retval, done.2, ?_, quiet, error, by rwa [← shape]⟩
      have whole := run.append later
      rw [called, shape] at whole
      simpa using whole

end

/-- On `twoHartBoard`, the boot hart runs the end of `kmain`, starts itself and
enters the kernel. -/
def bootSchedule : List (Move twoHartBoard.xlen) :=
  List.replicate 18 (.advance 0) ++ .interrupt 0 :: List.replicate 66 (.advance 0)

/-- After `bootSchedule`, the kernel on hart 0 starts hart 1, which enters the
kernel. -/
def startSchedule : List (Move twoHartBoard.xlen) :=
  .advance 1 :: .call 0 (.hart_start 1#_ 0x80200000#_ 0#_ .cleared) ::
    List.replicate 20 (.advance 0) ++
      .interrupt 1 :: List.replicate 66 (.advance 1)

end Harts
end EchelonSbi
