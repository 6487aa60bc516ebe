import Mathlib.Data.List.Induction
import Mathlib.Tactic.Ring

namespace Rk8s.Sessions

open List

universe u v

/-!
# Logs in which keys are opened and closed

An event may open a key or close it.  A key is open if it was opened and not
closed since.  If only keys that are not open are opened, then between two
events that open a key there is one that closes it.
-/

variable {Event : Type u} {Key : Type v} (opens closes : Event -> Key -> Bool)

def isOpen (log : List Event) (key : Key) : Bool :=
  log.foldl
    (fun state event => if opens event key then true else if closes event key then false else state)
    false

/-- Between two events that open a key there is one that closes it. -/
def Alternates (log : List Event) : Prop :=
  forall (key : Key) (front : List Event) (first : Event) (middle : List Event) (second : Event)
    (back : List Event),
    log = front ++ first :: (middle ++ second :: back) -> opens first key = true ->
    opens second key = true -> Exists fun event => event ∈ middle ∧ closes event key = true

variable {opens closes} {log : List Event} {key : Key}

theorem isOpen_snoc (event : Event) :
    isOpen opens closes (log ++ [event]) key =
      if opens event key then true
      else if closes event key then false
      else isOpen opens closes log key := by
  simp [isOpen]

/-- A key that was opened and not closed since is open. -/
theorem isOpen_of_opens {front middle : List Event} {first : Event}
    (opened : opens first key = true)
    (kept : ∀ event ∈ middle, closes event key = false) :
    isOpen opens closes (front ++ first :: middle) key = true := by
  induction middle using List.reverseRecOn with
  | nil => rw [isOpen_snoc, if_pos opened]
  | append_singleton middle event ih =>
    have before := ih fun other member => kept other (by simp [member])
    rw [← cons_append, ← append_assoc, isOpen_snoc, kept event (by simp), before]
    simp

theorem alternates_nil : Alternates opens closes ([] : List Event) := by
  intro key front first middle second back split
  simp at split

theorem Alternates.snoc (alternates : Alternates opens closes log) {event : Event}
    (closed : ∀ key, opens event key = true -> isOpen opens closes log key = false) :
    Alternates opens closes (log ++ [event]) := by
  intro key front first middle second back split opened again
  rcases eq_nil_or_concat back with rfl | ⟨back, last, rfl⟩
  · -- The second event is the last one.
    have regrouped : log ++ [event] = (front ++ first :: middle) ++ [second] := by simp [split]
    obtain ⟨isLog, isEvent⟩ := append_inj' regrouped rfl
    obtain rfl : event = second := by simpa using isEvent
    by_contra none
    have stillOpen : isOpen opens closes log key = true := by
      rw [isLog]
      refine isOpen_of_opens opened fun other member => ?_
      by_contra closes
      exact none ⟨other, member, by simpa using closes⟩
    rw [closed key again] at stillOpen
    cases stillOpen
  · have regrouped : log ++ [event] = (front ++ first :: (middle ++ second :: back)) ++ [last] := by
      simp [split]
    obtain ⟨isLog, _⟩ := append_inj' regrouped rfl
    exact alternates key front first middle second back isLog opened again

end Rk8s.Sessions
