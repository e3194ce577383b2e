import Mathlib.Data.List.Induction
import Mathlib.Logic.Relation

/-!
# Labelled transition systems and their runs

A system is a relation `step : σ → λ → σ → Prop`.  A run carries the list of
the labels it took, oldest first, so that a property of a whole history is a
property of a list.  The rules below are the only inductions over runs that
the rest of the development makes.
-/

namespace EchelonSbi
namespace Foundation

/-- A finite run and the labels it took, oldest first. -/
inductive Run (step : σ → ℓ → σ → Prop) : σ → List ℓ → σ → Prop
  | refl (state : σ) : Run step state [] state
  | snoc {first last next : σ} {labels : List ℓ} {label : ℓ} :
      Run step first labels last →
      step last label next →
      Run step first (labels ++ [label]) next

namespace Run

variable {step : σ → ℓ → σ → Prop}

/-- A single step is a run. -/
theorem single
    {first next : σ}
    {label : ℓ}
    (taken : step first label next) :
    Run step first [label] next :=
  snoc (refl first) taken

/-- Runs compose, and so do their histories. -/
theorem append
    {first middle last : σ}
    {before after : List ℓ}
    (left : Run step first before middle)
    (right : Run step middle after last) :
    Run step first (before ++ after) last := by
  induction right with
  | refl => simpa using left
  | snoc _ taken inductionHypothesis =>
      rw [← List.append_assoc]
      exact snoc inductionHypothesis taken

/-- A step followed by a run is a run. -/
theorem cons
    {first middle last : σ}
    {label : ℓ}
    {labels : List ℓ}
    (taken : step first label middle)
    (rest : Run step middle labels last) :
    Run step first (label :: labels) last := by
  simpa using (single taken).append rest

/-- The invariant rule: what one step preserves, a run preserves. -/
theorem invariant
    {first last : σ}
    {labels : List ℓ}
    {holds : σ → Prop}
    (run : Run step first labels last)
    (preserved : ∀ {before label after},
      step before label after → holds before → holds after)
    (initially : holds first) :
    holds last := by
  induction run with
  | refl => exact initially
  | snoc _ taken inductionHypothesis =>
      exact preserved taken inductionHypothesis

/-- The invariant rule for a property of the state and its history. -/
theorem invariant_history
    {first last : σ}
    {labels : List ℓ}
    (run : Run step first labels last)
    (holds : List ℓ → σ → Prop)
    (preserved : ∀ {history before label after},
      step before label after → holds history before →
        holds (history ++ [label]) after)
    (initially : holds [] first) :
    holds labels last := by
  induction run with
  | refl => exact initially
  | snoc _ taken inductionHypothesis =>
      exact preserved taken inductionHypothesis

/-- A run of a system is a run of every system that allows its steps. -/
theorem mono
    {other : σ → ℓ → σ → Prop}
    {first last : σ}
    {labels : List ℓ}
    (run : Run step first labels last)
    (allowed : ∀ {before label after},
      step before label after → other before label after) :
    Run other first labels last := by
  induction run with
  | refl => exact refl _
  | snoc _ taken inductionHypothesis =>
      exact snoc inductionHypothesis (allowed taken)

/-- The simulation rule: where each step is answered by a step of the abstract
system, each run is answered by a run of it. -/
theorem simulates
    {abstractStep : τ → ε → τ → Prop}
    {observe : ℓ → ε}
    {first last : σ}
    {labels : List ℓ}
    {abstractFirst : τ}
    (run : Run step first labels last)
    (related : σ → τ → Prop)
    (answered : ∀ {before label after abstract},
      step before label after → related before abstract →
        ∃ next, abstractStep abstract (observe label) next ∧ related after next)
    (initially : related first abstractFirst) :
    ∃ abstractLast, Run abstractStep abstractFirst (labels.map observe)
        abstractLast ∧ related last abstractLast := by
  induction run with
  | refl => exact ⟨_, refl _, initially⟩
  | snoc _ taken inductionHypothesis =>
      obtain ⟨middle, abstractRun, before⟩ := inductionHypothesis
      obtain ⟨next, abstractTaken, after⟩ := answered taken before
      exact ⟨next, by simpa using abstractRun.snoc abstractTaken, after⟩

/-- The refinement rule: where an invariant holds, each step is a step of the
abstract system, so each run is a run of it. -/
theorem refines
    {abstractStep : τ → ε → τ → Prop}
    {project : σ → τ}
    {observe : ℓ → ε}
    {holds : σ → Prop}
    {first last : σ}
    {labels : List ℓ}
    (run : Run step first labels last)
    (allowed : ∀ {before label after},
      step before label after → holds before →
        abstractStep (project before) (observe label) (project after) ∧
          holds after)
    (initially : holds first) :
    Run abstractStep (project first) (labels.map observe) (project last) ∧
      holds last := by
  obtain ⟨abstractLast, abstractRun, rfl, kept⟩ := run.simulates
    (fun state abstract => abstract = project state ∧ holds state)
    (fun taken ⟨same, before⟩ => by
      subst same
      obtain ⟨moves, after⟩ := allowed taken before
      exact ⟨_, moves, rfl, after⟩)
    ⟨rfl, initially⟩
  exact ⟨abstractRun, kept⟩

/-- A run in two parts. -/
theorem of_append
    {first last : σ}
    {before after : List ℓ}
    (run : Run step first (before ++ after) last) :
    ∃ middle, Run step first before middle ∧ Run step middle after last := by
  induction after using List.reverseRecOn generalizing last with
  | nil => exact ⟨last, by simpa using run, refl last⟩
  | append_singleton after label inductionHypothesis =>
      rw [← List.append_assoc] at run
      generalize whole : before ++ after ++ [label] = labels at run
      cases run with
      | refl => simp at whole
      | snoc path taken =>
          obtain ⟨rfl, same⟩ := List.append_inj' whole rfl
          cases same
          obtain ⟨left, start, rest⟩ := inductionHypothesis path
          exact ⟨left, start, rest.snoc taken⟩

theorem of_nil
    {first last : σ}
    (run : Run step first [] last) :
    first = last := by
  generalize none_ : [] = labels at run
  cases run with
  | refl => rfl
  | snoc _ _ => simp at none_

/-- A run whose first step is given. -/
theorem of_cons
    {first last : σ}
    {label : ℓ}
    {after : List ℓ}
    (run : Run step first (label :: after) last) :
    ∃ middle, step first label middle ∧ Run step middle after last := by
  have parts : Run step first ([label] ++ after) last := run
  obtain ⟨middle, one, rest⟩ := parts.of_append
  refine ⟨middle, ?_, rest⟩
  generalize whole : [label] = labels at one
  cases one with
  | refl => cases whole
  | snoc path taken =>
      rw [← List.nil_append [label]] at whole
      obtain ⟨rfl, same⟩ := List.append_inj' whole rfl
      cases same
      rw [path.of_nil]
      exact taken

/-- Steps without their labels make a run. -/
theorem of_reflTransGen
    {first last : σ}
    (path : Relation.ReflTransGen (fun before after => ∃ label, step before label after)
      first last) :
    ∃ labels, Run step first labels last := by
  induction path with
  | refl => exact ⟨[], refl first⟩
  | tail _ taken inductionHypothesis =>
      obtain ⟨labels, run⟩ := inductionHypothesis
      obtain ⟨label, step⟩ := taken
      exact ⟨_, run.snoc step⟩

/-- A run is a run of the steps whose labels it has. -/
theorem labelled
    {first last : σ}
    {labels : List ℓ}
    {allowed : ℓ → Prop}
    (run : Run step first labels last)
    (all : ∀ label ∈ labels, allowed label) :
    Run (fun before label after => step before label after ∧ allowed label)
      first labels last := by
  induction run with
  | refl => exact refl _
  | snoc _ taken inductionHypothesis =>
      refine snoc (inductionHypothesis fun label member => ?_) ⟨taken, all _ (by simp)⟩
      exact all label (List.mem_append_left _ member)

end Run

/-- A run with a step that has a property of its states and its label. -/
inductive Occurs (step takes : σ → ℓ → σ → Prop) : σ → List ℓ → σ → Prop
  | now {first last next : σ} {labels : List ℓ} {label : ℓ} :
      Run step first labels last →
      step last label next →
      takes last label next →
      Occurs step takes first (labels ++ [label]) next
  | later {first last next : σ} {labels : List ℓ} {label : ℓ} :
      Occurs step takes first labels last →
      step last label next →
      Occurs step takes first (labels ++ [label]) next

namespace Occurs

variable {step takes : σ → ℓ → σ → Prop}

theorem mono
    {other : σ → ℓ → σ → Prop}
    {first last : σ}
    {labels : List ℓ}
    (occurs : Occurs step takes first labels last)
    (allowed : ∀ {before label after},
      step before label after → other before label after) :
    Occurs other takes first labels last := by
  induction occurs with
  | now path taken here => exact now (path.mono allowed) (allowed taken) here
  | later _ taken inductionHypothesis => exact later inductionHypothesis (allowed taken)

theorem run
    {first last : σ}
    {labels : List ℓ}
    (occurs : Occurs step takes first labels last) :
    Run step first labels last := by
  induction occurs with
  | now path taken _ => exact path.snoc taken
  | later _ taken inductionHypothesis => exact inductionHypothesis.snoc taken

/-- What occurs in the first part of a run occurs in the run. -/
theorem append
    {first middle last : σ}
    {before after : List ℓ}
    (occurs : Occurs step takes first before middle)
    (rest : Run step middle after last) :
    Occurs step takes first (before ++ after) last := by
  induction rest with
  | refl => simpa using occurs
  | snoc _ taken inductionHypothesis =>
      rw [← List.append_assoc]
      exact later inductionHypothesis taken

/-- What occurs in the second part of a run occurs in the run. -/
theorem prepend
    {first middle last : σ}
    {before after : List ℓ}
    (path : Run step first before middle)
    (occurs : Occurs step takes middle after last) :
    Occurs step takes first (before ++ after) last := by
  induction occurs with
  | now rest taken here =>
      rw [← List.append_assoc]
      exact now (path.append rest) taken here
  | later _ taken inductionHypothesis =>
      rw [← List.append_assoc]
      exact later inductionHypothesis taken

end Occurs

/-- The rule of waiting: what waits for a step waits until it occurs. -/
theorem Run.occurs_or_waits
    {step takes : σ → ℓ → σ → Prop}
    {first last : σ}
    {labels : List ℓ}
    (run : Run step first labels last)
    (holds waits : σ → Prop)
    (preserved : ∀ {before label after},
      step before label after → holds before → holds after)
    (waiting : ∀ {before label after},
      step before label after → holds before → waits before →
        takes before label after ∨ waits after)
    (initially : holds first)
    (waitsFirst : waits first) :
    Occurs step takes first labels last ∨ waits last := by
  induction run with
  | refl => exact .inr waitsFirst
  | snoc path taken inductionHypothesis =>
      rcases inductionHypothesis with before | waits
      · exact .inl (before.later taken)
      · rcases waiting taken (path.invariant preserved initially) waits with here | waits
        · exact .inl (.now path taken here)
        · exact .inr waits

/-- Where everything live that does not end leads to an end, or to something live
that is nearer to one, everything live leads to an end. -/
theorem leads_to_end
    {next : α → α → Prop}
    {live ends : α → Prop}
    (measure : α → Nat)
    (onward : ∀ a, live a → ¬ends a →
      ∃ b, next a b ∧ (ends b ∨ live b ∧ measure b < measure a))
    {a : α}
    (alive : live a) :
    ∃ b, Relation.ReflTransGen next a b ∧ ends b := by
  induction bound : measure a using Nat.strongRecOn generalizing a with
  | _ n inductionHypothesis =>
      subst bound
      by_cases done : ends a
      · exact ⟨a, .refl, done⟩
      · obtain ⟨b, moves, reached | ⟨lives, less⟩⟩ := onward a alive done
        · exact ⟨b, .single moves, reached⟩
        · obtain ⟨last, path, reached⟩ := inductionHypothesis _ less lives rfl
          exact ⟨last, .head moves path, reached⟩

end Foundation
end EchelonSbi
