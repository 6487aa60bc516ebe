import Mathlib.Tactic.Ring

namespace Rk8s.Slots

open List

universe u

/-!
# Processes in numbered slots

Several models keep the processes that are under way in a list.  A process is
addressed by its position, a new one is appended, and a finished one keeps its
slot.  These are the facts about positions that proofs about such a list need.
-/

variable {Process : Type u} {slots : List Process} {index other : Nat} {found new : Process}

/-- After a process has moved, its slot has the new state and the others are as before. -/
theorem getElem?_set_eq_some_iff :
    (slots.set index new)[other]? = some found ↔
      other = index ∧ index < slots.length ∧ found = new ∨
        other ≠ index ∧ slots[other]? = some found := by
  by_cases here : index = other
  · subst here
    by_cases inside : index < slots.length <;> simp [inside, eq_comm]
  · simp [here, Ne.symm here]

/-- A new process gets the next slot. -/
theorem getElem?_append_eq_some_iff :
    (slots ++ [new])[other]? = some found ↔
      slots[other]? = some found ∨ other = slots.length ∧ found = new := by
  by_cases inside : other < slots.length
  · rw [getElem?_append_left inside]
    simp [inside.ne]
  rw [getElem?_append_right (Nat.le_of_not_lt inside), getElem?_eq_none (Nat.le_of_not_lt inside)]
  by_cases next : other = slots.length
  · simp [next, eq_comm]
  · have beyond : 1 ≤ other - slots.length := by omega
    rw [getElem?_eq_none (by simpa using beyond)]
    simp [next]

/-- A sum over all processes after one of them has moved. -/
theorem sum_map_set {weight : Process -> Nat} (there : slots[index]? = some found) :
    ((slots.set index new).map weight).sum + weight found = (slots.map weight).sum + weight new := by
  induction slots generalizing index with
  | nil => cases there
  | cons first rest ih =>
    cases index with
    | zero =>
      cases there
      simp only [set_cons_zero, map_cons, sum_cons]
      omega
    | succ index =>
      have tail := ih there
      simp only [set_cons_succ, map_cons, sum_cons]
      omega

end Rk8s.Slots
