import Rk8s.Lib.Fallible
import Rk8s.Slayerfs.Meta.SliceCache

namespace Rk8s.Slayerfs

open List Fallible

/-!
# Chunk ids and truncation

The slices of a file are found under the ids of its chunks.  An id is the inode times
`CHUNK_ID_BASE` plus the index of the chunk, and nothing keeps the index below the base,
so a chunk far out in one file has the id of a chunk of the next.

Truncation trims the slices of the chunk that the new end is in and drops the chunks
behind it.
-/

section ChunkIds

variable {ino : Int} {index chunkId : Nat}

theorem chunkIdFor_eq_ok :
    chunkIdFor ino index = .ok chunkId ↔
      0 ≤ ino ∧ chunkId < 2 ^ 64 ∧ chunkId = ino.toNat * chunkIdBase + index := by
  unfold chunkIdFor
  split_ifs with negative small
  · simp only [false_iff]
    omega
  · simp only [Except.ok.injEq]
    omega
  · simp only [false_iff]
    omega

/-- The id of a chunk names no other chunk and can be decoded exactly if the indices are
below the base. -/
theorem chunkIdFor_injective_iff (first second : Int) (firstIndex secondIndex : Nat) :
    (forall chunkId, chunkIdFor first firstIndex = .ok chunkId ->
      (chunkIdFor second secondIndex = .ok chunkId -> first = second ∧ firstIndex = secondIndex) ∧
      ((SliceClient.extractInoAndChunkIndex chunkId).1 : Int) = first ∧
        (SliceClient.extractInoAndChunkIndex chunkId).2 = firstIndex) ↔
    (0 ≤ first -> first.toNat * chunkIdBase + firstIndex < 2 ^ 64 ->
      firstIndex < chunkIdBase ∧
        (0 ≤ second -> second.toNat * chunkIdBase + secondIndex =
          first.toNat * chunkIdBase + firstIndex -> secondIndex < chunkIdBase)) := by
  simp only [chunkIdFor_eq_ok, SliceClient.extractInoAndChunkIndex, chunkIdBase]
  constructor
  · intro injective nonneg small
    have named := injective _ ⟨nonneg, small, rfl⟩
    omega
  · rintro below chunkId ⟨nonneg, small, rfl⟩
    have guard := below nonneg small
    omega

/-- Writing at an offset in the chunk with the index `CHUNK_ID_BASE` of a file goes to the
first chunk of the next file. -/
theorem chunkIdFor_not_injective :
    (splitChunkSpans (ChunkLayout.ofBlocks 15 4194303) (67108864 * 1000000000) 1).map Span.index =
        [1000000000] ∧
      chunkIdFor 1 1000000000 = .ok 2000000000 ∧ chunkIdFor 2 0 = .ok 2000000000 ∧
      SliceClient.extractInoAndChunkIndex 2000000000 = (2, 0) := by
  decide +kernel

end ChunkIds

/-- `trim_slices_in_place` -/
def trimSlicesInPlace (slices : List SliceDesc) (cutoffOffset : Nat) : List SliceDesc :=
  (slices.filter fun slice => slice.offset < cutoffOffset).map fun slice =>
    if (slice.offset + slice.length) % 2 ^ 64 > cutoffOffset then
      { slice with length := cutoffOffset - slice.offset }
    else
      slice

/-- The newest slice that covers a position of the file, and the offset in the slice. -/
def SliceTables.newestAt (tables : SliceTables) (ino : Int) (chunkSize position : Nat) :
    Option (Nat × Nat) :=
  (chunkIdFor ino (position / chunkSize)).toOption.bind fun chunkId =>
    (tables.sliceMeta.reverse.find? fun row => row.chunkId = chunkId ∧
      row.offset ≤ position % chunkSize ∧ position % chunkSize < row.offset + row.length).map
        fun row => (row.sliceId, position % chunkSize - row.offset)

variable {slice trimmed : SliceDesc} {cutoff : Nat}

/-- A slice is dropped or cut off. -/
theorem trim_eq (word : cutoff + 1 < 2 ^ 64) : slice.trim cutoff =
    if slice.offset < cutoff then some { slice with
      length := min (slice.offset + slice.length) cutoff - slice.offset } else none := by
  unfold SliceDesc.trim trimAction
  by_cases before : slice.offset < cutoff
  · rw [if_pos before, if_neg (by omega)]
    by_cases beyond : slice.offset + slice.length > cutoff
    · rw [if_pos (by omega), min_eq_right (by omega)]
    · rw [if_neg (by omega), min_eq_left (by omega), Nat.add_sub_cancel_left]
  · rw [if_neg before, if_pos (by omega)]

/-- The two ways to trim the slices of a chunk agree. -/
theorem trimSlicesInPlace_eq {slices : List SliceDesc}
    (small : ∀ slice ∈ slices, slice.offset + slice.length < 2 ^ 64) :
    trimSlicesInPlace slices cutoff = slices.filterMap (SliceDesc.trim cutoff) := by
  unfold trimSlicesInPlace
  rw [← filterMap_eq_map, filterMap_filter]
  refine filterMap_congr fun slice member => ?_
  have fits := Nat.mod_eq_of_lt (small slice member)
  simp only [Function.comp_apply, fits, decide_eq_true_eq, SliceDesc.trim, trimAction]
  by_cases before : slice.offset < cutoff
  · rw [if_pos before, if_neg (not_le.mpr before)]
    by_cases beyond : slice.offset + slice.length > cutoff
    · rw [if_pos beyond, if_pos (by have := small slice member; omega)]
    · rw [if_neg beyond, if_neg (by omega)]
  · rw [if_neg before, if_pos (not_lt.mp before)]

/-- A change of the rows that leaves those that are seen, unless they are hidden. -/
theorem find?_filterMap {rows : List SliceDesc} {left : SliceDesc -> Option SliceDesc}
    {before after : SliceDesc -> Bool} {view : SliceDesc -> Nat × Nat} {hidden : Prop}
    [Decidable hidden]
    (seen : ∀ row, before row = true -> ¬ hidden ->
      ∃ other, left row = some other ∧ after other = true ∧ view other = view row)
    (unseen : ∀ row other, left row = some other -> after other = true ->
      before row = true ∧ ¬ hidden) :
    ((rows.filterMap left).find? after).map view =
      if hidden then none else (rows.find? before).map view := by
  induction rows with
  | nil => simp
  | cons row rows ih =>
    by_cases both : before row = true ∧ ¬ hidden
    · obtain ⟨other, changed, covered, same⟩ := seen row both.1 both.2
      rw [filterMap_cons_some changed, find?_cons_of_pos covered, find?_cons_of_pos both.1,
        if_neg both.2, Option.map_some, Option.map_some, same]
    have skips : ((row :: rows).filterMap left).find? after =
        (rows.filterMap left).find? after := by
      cases changed : left row with
      | none => rw [filterMap_cons_none changed]
      | some other =>
        rw [filterMap_cons_some changed,
          find?_cons_of_neg fun covered => both (unseen row other changed covered)]
    rw [skips, ih]
    split_ifs with isHidden
    · rfl
    · rw [find?_cons_of_neg fun covered => both ⟨covered, isHidden⟩]

namespace SliceTables

variable {tables after : SliceTables} {ino : Int} {index chunkId newSize oldSize chunkSize : Nat}

theorem chunkColumn_eq_ok (column : chunkColumn ino index = .ok chunkId) :
    chunkId = ino.toNat * chunkIdBase + index := by
  obtain ⟨found, named, small⟩ := bind_eq_ok.mp column
  split_ifs at small
  cases small
  exact (chunkIdFor_eq_ok.mp named).2.2

theorem truncatePlan_eq (positive : 0 < chunkSize) (shrinks : newSize < oldSize) :
    truncatePlan newSize oldSize chunkSize = some ⟨newSize / chunkSize, newSize % chunkSize,
      divCeil newSize chunkSize, divCeil oldSize chunkSize⟩ := by
  rw [truncatePlan, if_neg (by omega), divCeil, divCeil]
  by_cases whole : oldSize % chunkSize = 0
  · simp [whole]
  · simp [whole]

section Shrinking

variable (word : chunkSize < 2 ^ 64) (positive : 0 < chunkSize) (shrinks : newSize < oldSize)
  (prunes : tables.pruneSlicesForTruncate ino newSize oldSize chunkSize = .ok after)

include positive shrinks prunes

/-- The rows that truncation leaves: the chunk of the cutoff is trimmed, those after it dropped. -/
theorem sliceMeta_pruneSlicesForTruncate : after.sliceMeta =
    (tables.sliceMeta.filterMap fun row =>
      if row.chunkId = ino.toNat * chunkIdBase + newSize / chunkSize ∧ 0 < newSize % chunkSize then
        row.trim (newSize % chunkSize)
      else some row).filter fun row =>
        ¬ (ino.toNat * chunkIdBase + divCeil newSize chunkSize ≤ row.chunkId ∧
          row.chunkId < ino.toNat * chunkIdBase + divCeil oldSize chunkSize) := by
  rw [pruneSlicesForTruncate, truncatePlan_eq positive shrinks] at prunes
  obtain ⟨middle, trims, drops⟩ := bind_eq_ok.mp prunes
  have trimmed : middle.sliceMeta = tables.sliceMeta.filterMap fun row =>
      if row.chunkId = ino.toNat * chunkIdBase + newSize / chunkSize ∧ 0 < newSize % chunkSize then
        row.trim (newSize % chunkSize)
      else some row := by
    rw [trimCutoff] at trims
    split_ifs at trims with inside
    · obtain ⟨cutoffId, column, rewrites⟩ := bind_eq_ok.mp trims
      cases rewrites
      cases chunkColumn_eq_ok column
      have cuts : 0 < newSize % chunkSize := inside
      simp only [rewriteChunk, cuts, and_true]
    · cases trims
      have whole : ¬ 0 < newSize % chunkSize := inside
      simp [whole]
  rw [← trimmed]
  rw [dropTail] at drops
  split_ifs at drops with some
  · obtain ⟨startId, startColumn, rest⟩ := bind_eq_ok.mp drops
    obtain ⟨stopId, stopColumn, deletes⟩ := bind_eq_ok.mp rest
    cases deletes
    cases chunkColumn_eq_ok startColumn
    cases chunkColumn_eq_ok stopColumn
    rfl
  · cases drops
    refine (filter_eq_self.mpr fun row _ => decide_eq_true ?_).symm
    dsimp only at some
    omega

include word

/-- Truncation hides the positions from the new size on in the chunks of the old size. -/
theorem newestAt_pruneSlicesForTruncate (position : Nat) : after.newestAt ino chunkSize position =
      if newSize ≤ position ∧ position / chunkSize < divCeil oldSize chunkSize then none
      else tables.newestAt ino chunkSize position := by
  have small := Nat.mod_lt newSize positive
  have parts := Nat.div_add_mod' newSize chunkSize
  have places := Nat.div_add_mod' position chunkSize
  have newRounds := @divCeil_le_iff newSize chunkSize (position / chunkSize) positive
  have oldRounds := @divCeil_le_iff oldSize chunkSize (position / chunkSize) positive
  unfold newestAt
  cases named : chunkIdFor ino (position / chunkSize) with
  | error reason => simp [Except.toOption]
  | ok chunkId =>
    have place := (chunkIdFor_eq_ok.mp named).2.2
    dsimp only [Except.toOption, Option.bind_some]
    rw [sliceMeta_pruneSlicesForTruncate positive shrinks prunes, ← filter_reverse,
      ← filterMap_reverse, find?_filter]
    refine find?_filterMap (fun row sees shown => ?_) (fun row other left sees => ?_)
    · have covers := of_decide_eq_true sees
      split_ifs with cut
      · have same : position / chunkSize = newSize / chunkSize := by omega
        rw [same] at places oldRounds shown newRounds
        rw [trim_eq (by omega), if_pos (by omega)]
        refine ⟨_, rfl, ?_, rfl⟩
        simp only [decide_eq_true_eq]
        omega
      · refine ⟨row, rfl, ?_, rfl⟩
        simp only [decide_eq_true_eq]
        omega
    simp only [decide_eq_true_eq] at sees ⊢
    split_ifs at left with cut
    · rw [trim_eq (by omega)] at left
      split_ifs at left with before
      cases left
      dsimp only at sees
      have same : position / chunkSize = newSize / chunkSize := by omega
      rw [same] at places
      omega
    cases left
    refine ⟨sees.2, fun hidden => cut ?_⟩
    have same : newSize / chunkSize = position / chunkSize := by
      refine Nat.div_eq_of_lt_le (by omega) ?_
      have := Nat.mod_lt position positive
      rw [Nat.succ_mul]
      omega
    rw [same] at parts ⊢
    omega

/-- Truncation to a smaller size leaves what is before the size as it was and nothing at a position
from the size on, unless there was something at it beyond the chunks of the old size; both ways to
trim a chunk agree. -/
theorem truncate_discards_tail :
    (forall position, position < newSize ->
      after.newestAt ino chunkSize position = tables.newestAt ino chunkSize position) ∧
    (forall position, newSize ≤ position ->
      (divCeil oldSize chunkSize * chunkSize ≤ position ->
        tables.newestAt ino chunkSize position = none) ->
      after.newestAt ino chunkSize position = none) ∧
    forall (slices : List SliceDesc) (cutoff : Nat),
      (forall slice, slice ∈ slices -> slice.offset + slice.length < 2 ^ 64) ->
        trimSlicesInPlace slices cutoff = slices.filterMap (SliceDesc.trim cutoff) := by
  refine ⟨fun position kept => ?_, fun position cut beyond => ?_, fun _ _ => trimSlicesInPlace_eq⟩
  · rw [newestAt_pruneSlicesForTruncate word positive shrinks prunes, if_neg (by omega)]
  · rw [newestAt_pruneSlicesForTruncate word positive shrinks prunes]
    split_ifs with inside
    · rfl
    · exact beyond ((Nat.le_div_iff_mul_le positive).mp (by omega))

end Shrinking

/-- A file of six bytes in chunks of four, and a second file. -/
def sixBytes : SliceTables :=
  ⟨[⟨7, 1000000000, 0, 4⟩, ⟨8, 1000000001, 0, 2⟩, ⟨9, 2000000000, 0, 4⟩], [], 0, [], 0⟩

/-- The first file is cut after its second byte. -/
theorem truncate_six_to_two :
    let after : SliceTables := ⟨[⟨7, 1000000000, 0, 2⟩, ⟨9, 2000000000, 0, 4⟩], [], 0, [], 0⟩
    sixBytes.pruneSlicesForTruncate 1 2 6 4 = .ok after ∧
      after.newestAt 1 4 1 = sixBytes.newestAt 1 4 1 ∧ after.newestAt 1 4 3 = none ∧
      after.newestAt 1 4 5 = none ∧ after.newestAt 1 4 8 = none := by
  intro after
  have prunes : sixBytes.pruneSlicesForTruncate 1 2 6 4 = .ok after := by decide +kernel
  obtain ⟨kept, cut, _⟩ :=
    truncate_discards_tail (by decide) (by decide) (show 2 < 6 by decide) prunes
  exact ⟨prunes, kept 1 (by decide), cut 3 (by decide) (by decide +kernel),
    cut 5 (by decide) (by decide +kernel), cut 8 (by decide) (by decide +kernel)⟩

end SliceTables

end Rk8s.Slayerfs
