import Mathlib.Tactic.Ring

namespace Rk8s.Transition

universe u v

/-!
# Runs of a partial step function

A system is a function `step` from a state and an action to the next state,
undefined where the action is not enabled.  `Run` records the actions of a
finite run in the order they were taken, together with a side condition that
each of them met in the state it was taken from.  With the condition that is
always true these are all runs of the system.

The two rules at the end are the only inductions over runs that the
developments below use: one for invariants of states, one for statements that
relate a state to the actions that led to it.
-/

variable {State : Type u} {Action : Type v}
variable {step : State -> Action -> Option State} {meets : State -> Action -> Prop}

/-- Runs from `start` all of whose steps meet the condition `meets`. -/
inductive Run (step : State -> Action -> Option State) (meets : State -> Action -> Prop)
    (start : State) : List Action -> State -> Prop
  | nil : Run step meets start [] start
  | snoc {actions : List Action} {state next : State} {action : Action} :
      Run step meets start actions state -> meets state action ->
      step state action = some next -> Run step meets start (actions ++ [action]) next

/-- The condition that every step meets. -/
def anyStep : State -> Action -> Prop := fun _ _ => True
deriving Decidable

/-- The state after a list of actions, when each of them is enabled in turn and
meets the condition. -/
def execute (step : State -> Action -> Option State) (meets : State -> Action -> Prop)
    [forall state action, Decidable (meets state action)] : State -> List Action -> Option State
  | state, [] => some state
  | state, action :: actions =>
    if meets state action then
      (step state action).bind fun next => execute step meets next actions
    else
      none

variable {start : State} {actions : List Action} {final : State}

namespace Run

theorem append {middle : State} {first second : List Action}
    (before : Run step meets start first middle) (after : Run step meets middle second final) :
    Run step meets start (first ++ second) final := by
  induction after with
  | nil => simpa only [List.append_nil] using before
  | snoc _ met taken ih =>
    rw [← List.append_assoc]
    exact Run.snoc ih met taken

/-- Invariants of states: what holds at the start and is kept by every step
that meets the condition holds wherever such a run leads. -/
theorem invariant (Inv : State -> Prop) (initial : Inv start)
    (kept : ∀ state action next, Inv state -> meets state action ->
      step state action = some next -> Inv next)
    (run : Run step meets start actions final) : Inv final := by
  induction run with
  | nil => exact initial
  | snoc _ met taken ih => exact kept _ _ _ ih met taken

/-- The same rule for a statement about the actions taken so far. -/
theorem history (Inv : List Action -> State -> Prop) (initial : Inv [] start)
    (kept : ∀ taken state action next, Inv taken state -> meets state action ->
      step state action = some next -> Inv (taken ++ [action]) next)
    (run : Run step meets start actions final) : Inv actions final := by
  induction run with
  | nil => exact initial
  | snoc _ met taken ih => exact kept _ _ _ _ ih met taken

end Run

/-- Executing a list of actions is a run. -/
theorem run_of_execute [∀ state action, Decidable (meets state action)]
    (executed : execute step meets start actions = some final) :
    Run step meets start actions final := by
  induction actions generalizing start with
  | nil =>
    cases executed
    exact Run.nil
  | cons action actions ih =>
    rw [execute] at executed
    split_ifs at executed with met
    rcases Option.bind_eq_some_iff.mp executed with ⟨next, taken, rest⟩
    have first : Run step meets start ([] ++ [action]) next := Run.snoc Run.nil met taken
    exact first.append (ih rest)

/-- A closed run that is found by executing it, with what is observed at its end. -/
theorem exists_run [∀ state action, Decidable (meets state action)] {observed : State -> Prop}
    [DecidablePred observed]
    (executed : (execute step meets start actions).any (fun final => decide (observed final)) =
      true) :
    ∃ final, Run step meets start actions final ∧ observed final := by
  obtain ⟨final, reached, isObserved⟩ := (Option.any_eq_true _ _).mp executed
  exact ⟨final, run_of_execute reached, of_decide_eq_true isObserved⟩

/-- The same, with what follows from the run and from what is observed. -/
theorem exists_run_of [∀ state action, Decidable (meets state action)] {goal : State -> Prop}
    (observed : State -> Prop) [DecidablePred observed]
    (executed : (execute step meets start actions).any (fun final => decide (observed final)) =
      true)
    (follows : ∀ final, Run step meets start actions final -> observed final -> goal final) :
    ∃ final, Run step meets start actions final ∧ goal final := by
  obtain ⟨final, run, isObserved⟩ := exists_run executed
  exact ⟨final, run, follows final run isObserved⟩

end Rk8s.Transition
