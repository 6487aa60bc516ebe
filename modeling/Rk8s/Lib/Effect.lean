import Mathlib.Tactic.Ring

namespace Rk8s

universe u v w

/-!
# Computations with a state that may fail

A method that changes shared state and returns a `Result` keeps the changes that
it made before an error.  `Effect` is the type of such methods.

A triple says what holds when the method succeeds.
-/

/-- A computation on a state.  It returns a value or an error, and the state in
either case. -/
def Effect (State : Type u) (Error : Type v) (α : Type w) : Type (max u v w) :=
  State -> Except Error α × State

namespace Effect

variable {State : Type u} {Error : Type v} {α β : Type w}

protected def pure (value : α) : Effect State Error α :=
  fun state => (.ok value, state)

protected def bind (first : Effect State Error α) (rest : α -> Effect State Error β) :
    Effect State Error β :=
  fun state =>
    match first state with
    | (.error error, state) => (.error error, state)
    | (.ok value, state) => rest value state

instance : Monad (Effect State Error) where
  pure := Effect.pure
  bind := Effect.bind

/-- Look at the state. -/
def read (look : State -> α) : Effect State Error α :=
  fun state => (.ok (look state), state)

/-- Look at the state, which may fail. -/
def check (look : State -> Except Error α) : Effect State Error α :=
  fun state => (look state, state)

/-- Change the state and return a value. -/
def update (change : State -> State × α) : Effect State Error α :=
  fun state => (.ok (change state).2, (change state).1)

@[simp] theorem pure_apply (value : α) (state : State) :
    (pure value : Effect State Error α) state = (.ok value, state) :=
  rfl

variable {state final : State} {rest : α -> Effect State Error β} {first : Effect State Error α}
  {change : State -> State × α} {result value : α}

/-- A sequence succeeds exactly when both computations do. -/
theorem bind_eq_ok {result : β} :
    (first >>= rest) state = (.ok result, final) ↔
      ∃ value between,
        first state = (.ok value, between) ∧ rest value between = (.ok result, final) := by
  simp only [Bind.bind, Effect.bind]
  match run : first state with
  | (.error _, _) => simp
  | (.ok value, between) =>
    constructor
    · exact fun rest_run => ⟨value, between, rfl, rest_run⟩
    · rintro ⟨_, _, same, rest_run⟩
      cases same
      exact rest_run

theorem of_update_bind
    {outcome : Except Error β × State} (ran : (update change >>= rest) state = outcome) :
    rest (change state).2 (change state).1 = outcome :=
  ran

theorem pure_eq_ok :
    (pure value : Effect State Error α) state = (.ok result, final) ↔
      result = value ∧ state = final := by
  rw [pure_apply, Prod.mk.injEq, Except.ok.injEq, eq_comm]

theorem check_eq_ok {look : State -> Except Error α} :
    check look state = (.ok result, final) ↔ look state = .ok result ∧ state = final := by
  rw [check, Prod.mk.injEq]

theorem update_eq_ok :
    (update change : Effect State Error α) state = (.ok result, final) ↔
      result = (change state).2 ∧ final = (change state).1 := by
  rw [update, Prod.mk.injEq, Except.ok.injEq, eq_comm, @eq_comm State]

/-- From a state that satisfies `before`, the computation can only succeed with
a value and a state that satisfy `after`. -/
def Ensures (before : State -> Prop) (effect : Effect State Error α)
    (after : α -> State -> Prop) : Prop :=
  forall state value final, before state -> effect state = (.ok value, final) -> after value final

namespace Ensures

variable {before : State -> Prop} {middle : α -> State -> Prop} {after : β -> State -> Prop}

theorem bind (first_ensures : Ensures before first middle)
    (rest_ensures : ∀ value, Ensures (middle value) (rest value) after) :
    Ensures before (first >>= rest) after := by
  intro state result final holds equation
  obtain ⟨value, between, first_run, rest_run⟩ := bind_eq_ok.mp equation
  exact rest_ensures value between result final
    (first_ensures state value between holds first_run) rest_run

theorem pure (holds : ∀ state, before state -> middle value state) :
    Ensures before (Pure.pure value : Effect State Error α) middle := by
  intro state result final start equation
  obtain ⟨rfl, rfl⟩ := by simpa using equation
  exact holds state start

end Ensures

end Effect
end Rk8s
