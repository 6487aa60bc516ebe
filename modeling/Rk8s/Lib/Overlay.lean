import Mathlib.Tactic.Ring

namespace Rk8s

open List

universe u

/-!
# Overlays of patches

A content is a total function from positions to values.  A patch replaces it
on one half-open range.  `overlay` applies a list of patches from the oldest to
the newest, so the newest patch that covers a position decides its value.

The laws say when two patch lists describe the same content: at a position only
the patches that cover it matter, and of those only the last one.
-/

/-- A replacement of the content on `[start, start + size)`. -/
structure Patch (α : Type u) where
  start : Nat
  size : Nat
  value : Nat -> α

variable {position : Nat} {α : Type u}

namespace Patch

/-- The position lies in the range the patch replaces. -/
def Covers (patch : Patch α) (position : Nat) : Prop :=
  patch.start ≤ position ∧ position < patch.start + patch.size
deriving Decidable

/-- The content after the patch. -/
def apply (patch : Patch α) (base : Nat -> α) : Nat -> α :=
  fun position => if patch.Covers position then patch.value position else base position

variable {patch first second : Patch α} {base : Nat -> α}

theorem apply_of_covers (covered : patch.Covers position) :
    patch.apply base position = patch.value position :=
  if_pos covered

theorem apply_of_not_covers (uncovered : ¬ patch.Covers position) :
    patch.apply base position = base position :=
  if_neg uncovered

/-- The patches replace the same range with the same values. -/
structure Agrees (first second : Patch α) : Prop where
  start_eq : first.start = second.start
  size_eq : first.size = second.size
  value_eq : forall position, first.Covers position -> first.value position = second.value position

theorem Agrees.refl (patch : Patch α) : patch.Agrees patch := ⟨rfl, rfl, fun _ _ => rfl⟩

theorem Agrees.covers_iff (agrees : first.Agrees second)
    (position : Nat) : first.Covers position ↔ second.Covers position := by
  rw [Covers, Covers, agrees.start_eq, agrees.size_eq]

theorem Agrees.apply_eq (agrees : first.Agrees second)
    (base : Nat -> α) : first.apply base = second.apply base := by
  funext position
  by_cases covered : first.Covers position
  · rw [apply_of_covers covered, apply_of_covers ((agrees.covers_iff position).mp covered),
      agrees.value_eq position covered]
  · rw [apply_of_not_covers covered,
      apply_of_not_covers fun other => covered ((agrees.covers_iff position).mpr other)]

/-- Applying a patch a second time changes nothing. -/
theorem apply_apply (patch : Patch α) (base : Nat -> α) :
    patch.apply (patch.apply base) = patch.apply base := by
  funext position
  by_cases covered : patch.Covers position
  · rw [apply_of_covers covered, apply_of_covers covered]
  · rw [apply_of_not_covers covered]

theorem apply_of_size_eq_zero (empty : patch.size = 0) (base : Nat -> α) :
    patch.apply base = base := by
  funext position
  apply apply_of_not_covers
  rintro ⟨_, below⟩
  omega

end Patch

open Patch

variable {older newer patches : List (Patch α)} {base other : Nat -> α}

/-- Apply the patches one after another; later patches win. -/
def overlay (base : Nat -> α) : List (Patch α) -> Nat -> α
  | [] => base
  | patch :: patches => overlay (patch.apply base) patches

theorem overlay_append (base : Nat -> α) (older newer : List (Patch α)) :
    overlay base (older ++ newer) = overlay (overlay base older) newer := by
  induction older generalizing base with
  | nil => rfl
  | cons patch older ih => exact ih (patch.apply base)

theorem overlay_concat (base : Nat -> α) (patches : List (Patch α)) (patch : Patch α) :
    overlay base (patches ++ [patch]) = patch.apply (overlay base patches) := by
  rw [overlay_append]
  rfl

/-- An overlay at a position reads its base at that position only. -/
theorem overlay_congr (patches : List (Patch α)) (same : base position = other position) :
    overlay base patches position = overlay other patches position := by
  induction patches generalizing base other with
  | nil => exact same
  | cons patch patches ih =>
    apply ih
    by_cases covered : patch.Covers position
    · rw [apply_of_covers covered, apply_of_covers covered]
    · rw [apply_of_not_covers covered, apply_of_not_covers covered, same]

/-- Patches that agree one by one have the same overlay. -/
theorem overlay_map_congr {ι : Type} {first second : ι -> Patch α} {keys : List ι}
    (agrees : ∀ key ∈ keys, (first key).Agrees (second key)) (base : Nat -> α) :
    overlay base (keys.map first) = overlay base (keys.map second) := by
  induction keys generalizing base with
  | nil => rfl
  | cons key keys ih =>
    rw [map_cons, map_cons, overlay, overlay, (agrees key mem_cons_self).apply_eq,
      ih fun other member => agrees other (mem_cons_of_mem _ member)]

theorem overlay_of_uncovered (uncovered : ∀ patch ∈ patches, ¬ patch.Covers position) :
    overlay base patches position = base position := by
  induction patches generalizing base with
  | nil => rfl
  | cons patch patches ih =>
    have skipped := uncovered patch mem_cons_self
    calc overlay base (patch :: patches) position
        = patch.apply base position :=
          ih fun later member => uncovered later (mem_cons_of_mem _ member)
      _ = base position := apply_of_not_covers skipped

/-- The newest patch that covers the position decides the value there. -/
theorem overlay_of_last {patch : Patch α} (covered : patch.Covers position)
    (uncovered : ∀ later ∈ newer, ¬ later.Covers position) :
    overlay base (older ++ patch :: newer) position = patch.value position := by
  rw [overlay_append]
  calc overlay (overlay base older) (patch :: newer) position
      = patch.apply (overlay base older) position := overlay_of_uncovered uncovered
    _ = patch.value position := apply_of_covers covered

/-- A patch in the middle of the list takes over a later write.  The overlay is
the old one with the write on top, provided no newer patch reaches into the
range of the write. -/
theorem overlay_extend {patch extended write : Patch α}
    (takesOver : ∀ position, write.Covers position ->
      extended.Covers position ∧ extended.value position = write.value position)
    (unseen : ∀ position later, write.Covers position -> later ∈ newer -> ¬ later.Covers position)
    (keeps : ∀ position, ¬ write.Covers position ->
      (extended.Covers position ↔ patch.Covers position) ∧
      (patch.Covers position -> extended.value position = patch.value position)) :
    overlay base (older ++ extended :: newer) =
      write.apply (overlay base (older ++ patch :: newer)) := by
  funext position
  by_cases written : write.Covers position
  · rw [apply_of_covers written,
      overlay_of_last (takesOver position written).1 (unseen position · written),
      (takesOver position written).2]
  rw [apply_of_not_covers written, overlay_append, overlay_append]
  apply overlay_congr newer
  rcases keeps position written with ⟨same, value⟩
  by_cases covered : patch.Covers position
  · rw [apply_of_covers covered, apply_of_covers (same.mpr covered), value covered]
  · rw [apply_of_not_covers covered,
      apply_of_not_covers fun other => covered (same.mp other)]

variable {ι : Type} {patch : ι -> Patch α}

/-- Where a patch of the list covers the position, the base does not matter. -/
theorem overlay_of_covered {keys : List ι} (covered : ∃ key ∈ keys, (patch key).Covers position) :
    overlay base (keys.map patch) position = overlay other (keys.map patch) position := by
  induction keys generalizing base other with
  | nil => simp at covered
  | cons key keys ih =>
    by_cases own : (patch key).Covers position
    · rw [map_cons, overlay]
      apply overlay_congr
      rw [apply_of_covers own, apply_of_covers own]
    rcases covered with ⟨later, member, covers⟩
    apply ih
    refine ⟨later, (mem_cons.mp member).resolve_left ?_, covers⟩
    rintro rfl
    exact own covers

/-- Patches that a later one hides at the position may be left out. -/
theorem overlay_filter_of_hidden {keys : List ι} {keep : ι -> Bool}
    (hidden : ∀ older key newer, keys = older ++ key :: newer -> keep key = false ->
      (patch key).Covers position ->
      ∃ later ∈ newer, (patch later).Covers position) :
    overlay base ((keys.filter keep).map patch) position =
      overlay base (keys.map patch) position := by
  induction keys generalizing base with
  | nil => rfl
  | cons key keys ih =>
    have rest : ∀ base, overlay base ((keys.filter keep).map patch) position =
        overlay base (keys.map patch) position := by
      intro base
      apply ih
      intro older other newer split
      exact hidden (key :: older) other newer (by rw [split, cons_append])
    cases kept : keep key with
    | true =>
      rw [filter_cons_of_pos kept]
      exact rest _
    | false =>
      rw [filter_cons_of_neg (by simp [kept]), rest]
      by_cases own : (patch key).Covers position
      · rcases hidden [] key keys rfl kept own with ⟨later, member, covers⟩
        exact overlay_of_covered ⟨later, member, covers⟩
      · exact overlay_congr _ (apply_of_not_covers own).symm

/-- Only the patches that cover the position, in their order, matter there. -/
theorem overlay_eq_of_covering {first second : List ι}
    (same : first.filter (fun key => (patch key).Covers position) =
      second.filter fun key => (patch key).Covers position) :
    overlay base (first.map patch) position = overlay base (second.map patch) position := by
  have covering : ∀ keys : List ι,
      overlay base ((keys.filter fun key => (patch key).Covers position).map patch) position =
        overlay base (keys.map patch) position := by
    intro keys
    apply overlay_filter_of_hidden
    intro older key newer _ dropped covers
    simp [covers] at dropped
  rw [← covering first, ← covering second, same]

end Rk8s
