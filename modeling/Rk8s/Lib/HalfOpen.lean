import Mathlib.Tactic.Ring

namespace Rk8s

open List Std.OrientedCmp

universe u

/-!
# Covering an interval by a union of intervals

Half-open intervals over an ordered type, with or without an upper end.  Whether
a finite union of them covers another one is decided by looking at finitely many
points: the lower end of the interval, and the upper ends of the parts.
-/

variable {α : Type u}

/-- The elements from `low` on and below `high`, if there is one. -/
structure HalfOpen (α : Type u) where
  low : α
  high : Option α

namespace HalfOpen

/-- The points at which a gap in a union of intervals can begin. -/
def gapStarts (interval : HalfOpen α) (parts : List (HalfOpen α)) : List α :=
  interval.low :: parts.filterMap HalfOpen.high

variable [Ord α] {interval : HalfOpen α} {element : α}

def contains (interval : HalfOpen α) (element : α) : Bool :=
  (compare interval.low element).isLE &&
    match interval.high with
    | none => true
    | some high => (compare element high).isLT

/-- Whether the union of the parts covers the interval. -/
def coveredBy (interval : HalfOpen α) (parts : List (HalfOpen α)) : Bool :=
  (interval.gapStarts parts).all fun point =>
    !interval.contains point || parts.any fun part => part.contains point

theorem contains_iff :
    interval.contains element = true ↔
      (compare interval.low element).isLE = true ∧
        ∀ high, interval.high = some high -> compare element high = .lt := by
  simp only [contains]
  cases interval.high with
  | none => simp
  | some high => simp [Ordering.isLT_iff_eq_lt]

variable [Std.TransOrd α]

theorem exists_greatest (list : List α) (nonempty : list ≠ []) :
    ∃ greatest, greatest ∈ list ∧ ∀ element ∈ list, (compare element greatest).isLE = true := by
  induction list with
  | nil => exact absurd rfl nonempty
  | cons first rest ih =>
    by_cases single : rest = []
    · subst single
      exact ⟨first, by simp, forall_mem_singleton.mpr (by simp)⟩
    obtain ⟨greatest, member, above⟩ := ih single
    by_cases higher : (compare first greatest).isLE = true
    · refine ⟨greatest, mem_cons_of_mem _ member, ?_⟩
      exact forall_mem_cons.mpr ⟨higher, above⟩
    have lower : (compare greatest first).isLE = true := by
      have lower : compare greatest first = .lt :=
        lt_of_not_isLE (by simpa using higher)
      simp [lower]
    refine ⟨first, by simp, ?_⟩
    exact forall_mem_cons.mpr ⟨by simp, fun element isElement =>
      Std.TransCmp.isLE_trans (above element isElement) lower⟩

/-- Between the lower end of an interval and one of its elements there are only
elements of the interval. -/
theorem contains_between {point : α}
    (inside : interval.contains element = true) (above : (compare interval.low point).isLE = true)
    (below : (compare point element).isLE = true) : interval.contains point = true := by
  obtain ⟨_, ends⟩ := contains_iff.mp inside
  refine contains_iff.mpr ⟨above, ?_⟩
  intro high isHigh
  exact Std.TransCmp.lt_of_isLE_of_lt below (ends high isHigh)

theorem coveredBy_iff (interval : HalfOpen α) (parts : List (HalfOpen α)) :
    interval.coveredBy parts = true ↔
      ∀ element, interval.contains element = true ->
        ∃ part ∈ parts, part.contains element = true := by
  simp only [coveredBy, all_eq_true, Bool.or_eq_true, any_eq_true]
  constructor
  · intro points element inside
    have lowBelow := (contains_iff.mp inside).1
    -- The last point at or below the element is covered by a part that does not end before it.
    obtain ⟨point, isPoint, greatest⟩ := exists_greatest
      ((interval.gapStarts parts).filter fun point =>
        (compare interval.low point).isLE && (compare point element).isLE)
      (ne_nil_of_mem (mem_filter.mpr
        ⟨mem_cons_self .., by simp [lowBelow]⟩))
    simp only [mem_filter, Bool.and_eq_true] at isPoint greatest
    obtain ⟨isStart, above, below⟩ := isPoint
    have pointInside := contains_between inside above below
    rcases points point isStart with outside | ⟨part, member, covers⟩
    · simp [pointInside] at outside
    obtain ⟨partLow, partHigh⟩ := contains_iff.mp covers
    refine ⟨part, member, contains_iff.mpr ⟨Std.TransCmp.isLE_trans partLow below, ?_⟩⟩
    intro high isHigh
    by_contra notLower
    have reached : (compare high element).isLE = true := by
      cases order : compare element high with
      | lt => exact absurd order notLower
      | eq => simp [eq_symm order]
      | gt => simp [lt_of_gt order]
    have pointLower := partHigh high isHigh
    have aboveHigh : (compare interval.low high).isLE = true :=
      Std.TransCmp.isLE_trans above (by simp [pointLower])
    have back := greatest high
      ⟨mem_cons_of_mem _ (mem_filterMap.mpr ⟨part, member, isHigh⟩), aboveHigh, reached⟩
    exact not_lt_of_isLE back pointLower
  · intro covered point _
    by_cases inside : interval.contains point = true
    · exact .inr (covered point inside)
    · exact .inl (by simpa using inside)

end HalfOpen
end Rk8s
