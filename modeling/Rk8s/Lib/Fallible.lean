import Mathlib.Tactic.Ring

namespace Rk8s.Fallible

universe u v

/-!
# Computations that may fail

How a sequence of fallible steps is taken apart.
-/

variable {Error : Type u} {First Second : Type v} {rest : First -> Except Error Second}
  {result : Second}

/-- A sequence succeeds exactly when both steps do. -/
theorem bind_eq_ok {first : Except Error First} :
    first.bind rest = .ok result ↔ ∃ value, first = .ok value ∧ rest value = .ok result := by
  cases first with
  | error error => simp [Except.bind]
  | ok value => simp [Except.bind]

theorem map_eq_ok {look : Except Error First} {change : First -> Second} :
    look.map change = .ok result ↔ ∃ value, look = .ok value ∧ change value = result := by
  cases look <;> simp [Except.map]

/-- What a loop collects comes from its steps, one value from each. -/
theorem of_mapM_eq_ok {step : First -> Except Error Second} {given : List First}
    {results : List Second} (mapped : given.mapM step = .ok results) :
    results.length = given.length ∧ ∀ result ∈ results, ∃ value, step value = .ok result := by
  induction given generalizing results with
  | nil =>
    cases mapped
    simp
  | cons first given ih =>
    rw [List.mapM_cons] at mapped
    obtain ⟨result, isResult, mapped⟩ := bind_eq_ok.mp mapped
    obtain ⟨rest, isRest, mapped⟩ := bind_eq_ok.mp mapped
    cases mapped
    obtain ⟨sameLength, each⟩ := ih isRest
    exact ⟨by simp [sameLength], List.forall_mem_cons.mpr ⟨⟨first, isResult⟩, each⟩⟩

/-- The computation has a result if `fits` holds, and any result satisfies `after`. -/
def Outcome (fits : Prop) (after : First -> Prop) : Except Error First -> Prop
  | .ok value => after value
  | .error _ => ¬ fits

namespace Outcome

variable {fits : Prop} {after : First -> Prop} {first : Except Error First}

variable (outcome : Outcome fits after first)
include outcome

theorem of_ok {value : First} (ok : first = .ok value) :
    after value := by
  rwa [ok] at outcome

theorem exists_ok (fit : fits) :
    ∃ value, first = .ok value := by
  cases first with
  | error error => exact absurd fit outcome
  | ok value => exact ⟨value, rfl⟩

theorem imp {weaker : Prop} {result : First -> Prop}
    (fit : weaker -> fits) (implies : ∀ value, after value -> result value) :
    Outcome weaker result first := by
  cases first with
  | error error => exact fun given => outcome (fit given)
  | ok value => exact implies value outcome

theorem bind {result : Second -> Prop}
    (later : ∀ value, after value -> Outcome fits result (rest value)) :
    Outcome fits result (first.bind rest) := by
  cases first with
  | error error => exact outcome
  | ok value => exact later value outcome

end Outcome

end Rk8s.Fallible
