import Mathlib.Data.Finset.Basic

namespace Rk8s.Xline.Wal

/-!
# Removing segments of the log

`SegmentRemover` first writes the segments to remove to a log of their own, the RWAL, and
removes that when they are gone.  After a crash between two of these steps `recover` begins
again, but asks for every file that the RWAL lists, also for those that are gone.
-/

/-- A segment file, which has both numbers in its name. -/
structure Segment where
  baseIndex : Nat
  id : Nat
  deriving DecidableEq

inductive IoError
  | notFound
  | unexpectedEof
  | other

/-- The segment files of a directory and the records of its RWAL. -/
structure WalDir where
  segments : Finset Segment
  rwal : Option (List Segment)
  deriving DecidableEq

namespace SegmentRemover

/-- Remove the segments that are left of those listed.  The directories that this passes
through come with the outcome. -/
def startRemove (listed : List Segment) :
    List Segment -> WalDir -> List WalDir × Except IoError WalDir
  | [], dir =>
    if listed.any (fun segment => segment ∈ dir.segments) then ([], .error .other)
    else ([{ dir with rwal := none }], .ok { dir with rwal := none })
  | segment :: rest, dir =>
    if segment ∈ dir.segments then
      let dir := { dir with segments := dir.segments.erase segment }
      let (states, outcome) := startRemove listed rest dir
      (dir :: states, outcome)
    else ([], .error .notFound)

/-- A record takes 16 bytes and the checksum 32. -/
def recover (dir : WalDir) : Except IoError WalDir :=
  match dir.rwal with
  | none => .ok dir
  | some records =>
    if 16 * records.length + 32 < 32 + 16 then .error .unexpectedEof
    else (startRemove records records dir).2

def newRemoval (listed : List Segment) (dir : WalDir) : List WalDir × Except IoError WalDir :=
  let written := { dir with rwal := some listed }
  let (states, outcome) := startRemove listed listed written
  -- An RWAL that is there already is removed first.
  ({ dir with rwal := none } :: written :: states, outcome)

/-- All or none of the segments are there. -/
def AllOrNone (listed : List Segment) (dir : WalDir) : Prop :=
  (forall segment, segment ∈ listed -> segment ∈ dir.segments) ∨
    forall segment, segment ∈ listed -> segment ∉ dir.segments

def Recovers (segments : Finset Segment) (listed : List Segment) (crashed : WalDir) : Prop :=
  Exists fun after => recover crashed = .ok after ∧ AllOrNone listed after ∧ after.rwal = none ∧
    forall segment, segment ∈ segments -> segment ∉ listed -> segment ∈ after.segments

variable {listed rest : List Segment} {dir start state after : WalDir}

theorem startRemove_ok (left : ∀ segment ∈ listed, segment ∈ dir.segments -> segment ∈ rest) :
    (startRemove listed rest dir).2 = .ok after ↔ (rest.Nodup ∧ ∀ segment ∈ rest,
      segment ∈ dir.segments) ∧ after = ⟨dir.segments \ rest.toFinset, none⟩ := by
  induction rest generalizing dir with
  | nil =>
    unfold startRemove
    rw [if_neg (by simpa using left)]
    simp [eq_comm]
  | cons segment rest ih =>
    unfold startRemove
    split_ifs with there
    · have same : dir.segments.erase segment \ rest.toFinset =
          dir.segments \ (segment :: rest).toFinset := by
        ext
        simp
        tauto
      rw [ih (by grind), same]
      grind
    · simp [there]

/-- A removal takes nothing away but what it has to remove. -/
theorem startRemove_state (member : state ∈ (startRemove listed rest dir).1) :
    (state.rwal = dir.rwal ∨ state.rwal = none) ∧
      ∀ segment ∈ dir.segments, segment ∉ rest -> segment ∈ state.segments := by
  induction rest generalizing dir with
  | nil =>
    unfold startRemove at member
    split_ifs at member
    · cases member
    · grind
  | cons segment rest ih =>
    unfold startRemove at member
    split_ifs at member
    · rcases List.mem_cons.mp member with rfl | later
      · grind
      · grind [ih later]
    · cases member

/-- After a crash, the removal is as if it had not begun or is over exactly if the RWAL is
not there, and all or none of the segments are, or if it lists segments, each of them once,
that are all there still. -/
theorem recovers_iff (crash : dir ∈ (newRemoval listed start).1) :
    Recovers start.segments listed dir ↔ dir.rwal = none ∧ AllOrNone listed dir ∨
      dir.rwal = some listed ∧ listed ≠ [] ∧ listed.Nodup ∧
        forall segment, segment ∈ listed -> segment ∈ dir.segments := by
  have known : (dir.rwal = none ∨ dir.rwal = some listed) ∧
      ∀ segment ∈ start.segments, segment ∉ listed -> segment ∈ dir.segments := by
    rcases List.mem_cons.mp crash with rfl | later
    · exact ⟨.inl rfl, fun _ there _ => there⟩
    rcases List.mem_cons.mp later with rfl | later
    · exact ⟨.inr rfl, fun _ there _ => there⟩
    · exact (startRemove_state later).imp_left Or.symm
  obtain ⟨gone | written, others⟩ := known
  · simpa [Recovers, recover, gone] using fun _ => others
  unfold Recovers recover
  rw [written]
  dsimp only
  constructor
  · rintro ⟨after, recovered, _⟩
    split_ifs at recovered with short
    have safe := ((startRemove_ok fun _ member _ => member).mp recovered).1
    refine .inr ⟨rfl, ?_, safe⟩
    rintro rfl
    exact short (by decide)
  rintro (⟨impossible, _⟩ | ⟨_, nonempty, safe⟩)
  · cases impossible
  have long := List.length_pos_of_ne_nil nonempty
  rw [if_neg (by omega)]
  refine ⟨_, (startRemove_ok fun _ member _ => member).mpr ⟨safe, rfl⟩, .inr ?_, rfl, ?_⟩
  · simp +contextual
  · intro segment there unlisted
    simp [others segment there unlisted, unlisted]

theorem recovers_iff_before_removal :
    Exists fun dir => dir ∈ (newRemoval [⟨1, 0⟩] ⟨{⟨1, 0⟩, ⟨5, 1⟩}, none⟩).1 ∧
      dir.rwal = some [⟨1, 0⟩] ∧ Recovers {⟨1, 0⟩, ⟨5, 1⟩} [⟨1, 0⟩] dir := by
  have crash : ⟨{⟨1, 0⟩, ⟨5, 1⟩}, some [⟨1, 0⟩]⟩ ∈
      (newRemoval [⟨1, 0⟩] ⟨{⟨1, 0⟩, ⟨5, 1⟩}, none⟩).1 := by decide
  exact ⟨_, crash, rfl, (recovers_iff crash).mpr (.inr ⟨rfl, by decide, by decide, by decide⟩)⟩

/-- A crash after the first of two removals, and one of a removal of no segments. -/
theorem recover_fails_after_removal :
    (Exists fun dir => dir ∈ (newRemoval [⟨1, 0⟩, ⟨5, 1⟩] ⟨{⟨1, 0⟩, ⟨5, 1⟩}, none⟩).1 ∧
      dir.segments = {⟨5, 1⟩} ∧ recover dir = .error .notFound) ∧
    Exists fun dir => dir ∈ (newRemoval [] ⟨{⟨1, 0⟩}, none⟩).1 ∧
      recover dir = .error .unexpectedEof :=
  ⟨⟨⟨{⟨5, 1⟩}, some [⟨1, 0⟩, ⟨5, 1⟩]⟩, by decide, rfl, rfl⟩,
    ⟨⟨{⟨1, 0⟩}, some []⟩, by decide, rfl⟩⟩

end SegmentRemover
end Rk8s.Xline.Wal
