import Mathlib.Data.List.Sort
import Rk8s.Lib.LittleEndian
import Rk8s.Slayerfs.Chunk.Slice

namespace Rk8s.Slayerfs

open List

/-!
# Slices that compaction drops

`removeFullyCovered` keeps the slices that no single newer slice covers, where
newer means a higher slice id.  The reader goes by the order of the list, so the
two agree only where the ids grow along the list.

The dropped slices are handed to the metadata store as records of 20 bytes: id
and offset as 64-bit integers and the size, cut off at the largest 32-bit
integer.
-/

namespace SliceDesc

/-- The end of the range in the chunk. -/
def stop (slice : SliceDesc) : Nat := slice.offset + slice.length

/-- The whole range of `inner` lies in the range of `outer`. -/
def Encloses (outer inner : SliceDesc) : Prop :=
  outer.offset ≤ inner.offset ∧ inner.stop ≤ outer.stop
deriving Decidable

/-- The order of `sort_by_key(|s| Reverse(s.slice_id))`. -/
def NewerFirst (first second : SliceDesc) : Prop := second.sliceId ≤ first.sliceId

instance : DecidableRel NewerFirst := fun first second =>
  inferInstanceAs (Decidable (second.sliceId ≤ first.sliceId))

instance : Std.Total NewerFirst := ⟨fun first second => le_total second.sliceId first.sliceId⟩

instance : IsTrans SliceDesc NewerFirst := ⟨fun _ _ _ front back => le_trans back front⟩

/-- The order of `sort_by_key(|s| s.offset)`. -/
def StartsFirst (first second : SliceDesc) : Prop := first.offset ≤ second.offset

instance : DecidableRel StartsFirst := fun first second =>
  inferInstanceAs (Decidable (first.offset ≤ second.offset))

/-- The loop over the slices, newest first, with the ranges seen so far. -/
def keepUncovered : List SliceDesc -> List (Nat × Nat) -> List SliceDesc
  | [], _ => []
  | slice :: slices, coveredRanges =>
    let rest := keepUncovered slices (coveredRanges ++ [(slice.offset, slice.stop)])
    if coveredRanges.any (fun range => slice.offset ≥ range.1 ∧ slice.stop ≤ range.2) then
      rest
    else
      slice :: rest

def removeFullyCovered (slices : List SliceDesc) : List SliceDesc :=
  (keepUncovered (slices.insertionSort NewerFirst) []).insertionSort StartsFirst

/-- The ids of `original` that do not occur in `merged`. -/
def findReplacedIds (original merged : List SliceDesc) : List Nat :=
  (original.filter fun slice => slice.sliceId ∉ merged.map sliceId).map sliceId

/-! ## What is dropped -/

variable {slices : List SliceDesc} {slice : SliceDesc}

/-- A slice that the loop drops lies in a range seen before, or in that of a
slice in front of it. -/
theorem mem_keepUncovered {before : SliceDesc -> SliceDesc -> Prop} {ranges : List (Nat × Nat)}
    (ordered : slices.Pairwise before) (member : slice ∈ slices) :
    slice ∈ keepUncovered slices ranges ∨
      (∃ range ∈ ranges, range.1 ≤ slice.offset ∧ slice.stop ≤ range.2) ∨
      ∃ outer ∈ slices, before outer slice ∧ outer.Encloses slice := by
  induction slices generalizing ranges with
  | nil => cases member
  | cons head slices ih =>
    rcases pairwise_cons.mp ordered with ⟨front, rest⟩
    rw [keepUncovered]
    rcases mem_cons.mp member with rfl | later
    · split_ifs with covered
      · rcases any_eq_true.mp covered with ⟨range, listed, inside⟩
        exact .inr (.inl ⟨range, listed, of_decide_eq_true inside⟩)
      · exact .inl mem_cons_self
    rcases ih rest later with kept | ⟨range, listed, inside⟩ | ⟨outer, listed, newer, encloses⟩
    · left
      split_ifs
      · exact kept
      · exact mem_cons_of_mem _ kept
    · rcases mem_append.mp listed with old | own
      · exact .inr (.inl ⟨range, old, inside⟩)
      · rw [mem_singleton.mp own] at inside
        exact .inr (.inr ⟨head, mem_cons_self, front slice later, inside⟩)
    · exact .inr (.inr ⟨outer, mem_cons_of_mem _ listed, newer, encloses⟩)

/-- A list without repeated ids, sorted by id. -/
theorem pairwise_insertionSort_newerFirst (distinct : (slices.map sliceId).Nodup) :
    (slices.insertionSort NewerFirst).Pairwise fun outer inner => inner.sliceId < outer.sliceId := by
  have sorted := pairwise_insertionSort NewerFirst slices
  have nodup : ((slices.insertionSort NewerFirst).map sliceId).Nodup :=
    ((perm_insertionSort NewerFirst slices).map sliceId).nodup_iff.mpr distinct
  have different := pairwise_map.mp nodup
  exact (sorted.and different).imp fun both => lt_of_le_of_ne both.1 fun same => both.2 same.symm

/-- Compaction drops only slices that a slice with a higher id encloses. -/
theorem enclosed_of_replaced (distinct : (slices.map sliceId).Nodup) (member : slice ∈ slices)
    (replaced : slice.sliceId ∈ findReplacedIds slices (removeFullyCovered slices)) :
    ∃ outer ∈ slices, slice.sliceId < outer.sliceId ∧ outer.Encloses slice := by
  have dropped : slice ∉ removeFullyCovered slices := by
    intro kept
    rcases mem_map.mp replaced with ⟨other, listed, same⟩
    have missing := of_decide_eq_true (mem_filter.mp listed).2
    exact missing (same ▸ mem_map_of_mem kept)
  rw [removeFullyCovered, mem_insertionSort] at dropped
  rcases mem_keepUncovered (pairwise_insertionSort_newerFirst distinct)
    ((mem_insertionSort _).mpr member) with kept | ⟨_, none_, _⟩ | ⟨outer, listed, rest⟩
  · exact absurd kept dropped
  · cases none_
  · exact ⟨outer, (mem_insertionSort _).mp listed, rest⟩

/-! ## The records of dropped slices -/

def encodeRecord (slice : SliceDesc) : Bytes :=
  leBytes 8 slice.sliceId ++ leBytes 8 slice.offset ++ leBytes 4 (min slice.length (2 ^ 32 - 1))

def encodeDelayedData (slices : List SliceDesc) (replacedIds : List Nat) : Bytes :=
  (slices.filter fun slice => slice.sliceId ∈ replacedIds).flatMap encodeRecord

/-- The first `count` records: slice id, offset and size. -/
def decodeRecords : Nat -> Bytes -> List (Nat × Nat × Nat)
  | 0, _ => []
  | count + 1, data =>
    (ofLeBytes (data.take 8), ofLeBytes ((data.drop 8).take 8),
      ofLeBytes ((data.drop 16).take 4)) :: decodeRecords count (data.drop 20)

def decodeDelayedData (data : Bytes) : Option (List (Nat × Nat × Nat)) :=
  if data.length % 20 = 0 then some (decodeRecords (data.length / 20) data) else none

/-- The fields of a slice as far as the record keeps them. -/
def record (slice : SliceDesc) : Nat × Nat × Nat :=
  (slice.sliceId % 2 ^ 64, slice.offset % 2 ^ 64, min slice.length (2 ^ 32 - 1))

theorem length_encodeRecord (slice : SliceDesc) : slice.encodeRecord.length = 20 := by
  simp [encodeRecord]

/-- A field of known width in the middle of a record. -/
theorem field (start width : Nat) (before bytes after : Bytes)
    (left : before.length = start) (wide : bytes.length = width) :
    ((before ++ bytes ++ after).drop start).take width = bytes := by
  subst left wide
  rw [append_assoc, drop_left, take_left]

theorem decodeRecords_flatMap (slices : List SliceDesc) :
    decodeRecords slices.length (slices.flatMap encodeRecord) = slices.map record := by
  induction slices with
  | nil => rfl
  | cons slice slices ih =>
    have small : min slice.length (2 ^ 32 - 1) % 256 ^ 4 = min slice.length (2 ^ 32 - 1) :=
      Nat.mod_eq_of_lt (by omega)
    have rest : (slice.encodeRecord ++ slices.flatMap encodeRecord).drop 20 =
        slices.flatMap encodeRecord := by
      rw [← length_encodeRecord slice, drop_left]
    rw [flatMap_cons, length_cons, decodeRecords, rest, ih]
    have id := field 0 8 [] (leBytes 8 slice.sliceId)
      (leBytes 8 slice.offset ++ leBytes 4 (min slice.length (2 ^ 32 - 1)) ++
        slices.flatMap encodeRecord) rfl (length_leBytes ..)
    have offset := field 8 8 (leBytes 8 slice.sliceId) (leBytes 8 slice.offset)
      (leBytes 4 (min slice.length (2 ^ 32 - 1)) ++ slices.flatMap encodeRecord)
      (length_leBytes ..) (length_leBytes ..)
    have size := field 16 4 (leBytes 8 slice.sliceId ++ leBytes 8 slice.offset)
      (leBytes 4 (min slice.length (2 ^ 32 - 1))) (slices.flatMap encodeRecord)
      (by simp) (length_leBytes ..)
    simp only [encodeRecord, append_assoc, nil_append, drop_zero] at id offset size ⊢
    rw [id, offset, size, ofLeBytes_leBytes, ofLeBytes_leBytes, ofLeBytes_leBytes, small]
    rfl

/-- Every list of dropped slices survives the round trip. -/
theorem decodeDelayedData_encodeDelayedData (slices : List SliceDesc) (replacedIds : List Nat) :
    decodeDelayedData (encodeDelayedData slices replacedIds) =
      some ((slices.filter fun slice => slice.sliceId ∈ replacedIds).map record) := by
  unfold encodeDelayedData
  generalize (slices.filter fun slice => slice.sliceId ∈ replacedIds) = dropped
  have length : (dropped.flatMap encodeRecord).length = dropped.length * 20 := by
    simp [length_encodeRecord]
  rw [decodeDelayedData, if_pos (by omega), length, Nat.mul_div_cancel _ (by omega),
    decodeRecords_flatMap]

end SliceDesc

end Rk8s.Slayerfs
