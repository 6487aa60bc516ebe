import Mathlib.Data.List.Sort
import Rk8s.Slayerfs.Chunk.Slice
import Rk8s.Slayerfs.Utils.Intervals

namespace Rk8s.Slayerfs

open Intervals List

/-!
# Reading a chunk

`readAt` decides first which part of the range comes from which slice, by
letting the slices cut the range from the newest to the oldest.  It then walks
the parts from left to right, splitting the output buffer at each of them, and
fills every part from the blocks of its slice.  Gaps keep the zeros of the
buffer.

The main result of this module is `readAt_eq`: for every slice list and every
block store the splits stay in bounds and the buffer holds `chunkContent`.
-/

/-- A part `[l, r)` of the range that is read from a slice. -/
abbrev ReadPart := Nat × Nat × SliceDesc

/-- The parts that the slices, newest first, cut out of the intervals. -/
def needReadFrom : List SliceDesc -> Intervals Nat -> List ReadPart
  | [], _ => []
  | slice :: older, intervals =>
    let (parts, left) := intervals.cut slice.offset (slice.offset + slice.length)
    parts.map (fun part => (part.1, part.2, slice)) ++ needReadFrom older left

/-- The order of `sort_by_key(|(l, _, _)| *l)`. -/
def ReadPart.StartsBefore (first second : ReadPart) : Prop := first.1 ≤ second.1

instance : DecidableRel ReadPart.StartsBefore := fun first second =>
  inferInstanceAs (Decidable (first.1 ≤ second.1))

instance : Std.Total ReadPart.StartsBefore := ⟨fun first second => le_total first.1 second.1⟩

instance : IsTrans ReadPart ReadPart.StartsBefore := ⟨fun _ _ _ => le_trans⟩

/-- The parts of the range in the order in which the buffer is split. -/
def needRead (slices : List SliceDesc) (offset len : Nat) : List ReadPart :=
  (needReadFrom slices.reverse (Intervals.new offset (offset + len))).insertionSort
    ReadPart.StartsBefore

/-- Subtraction of unsigned integers; an underflow aborts. -/
def checkedSub (first second : Nat) : Option Nat :=
  if second ≤ first then some (first - second) else none

/-- The two halves of a buffer; a split past its end aborts. -/
def splitAtMut (buf : Bytes) (mid : Nat) : Option (Bytes × Bytes) :=
  if mid ≤ buf.length then some (buf.take mid, buf.drop mid) else none

/-- Fills the segment block by block from the front. -/
def readBlocks (store : BlockStore) (sliceId : Nat) : List (Span .block) -> Bytes -> Option Bytes
  | [], seg => some seg
  | block :: blocks, seg =>
    match splitAtMut seg block.len with
    | none => none
    | some (out, seg) =>
      (readBlocks store sliceId blocks seg).map fun filled =>
        store.readRange (sliceId, asU32 block.index) block.offset out ++ filled

/-- Splits the tail of the buffer at each part and fills the parts. -/
def readParts (layout : ChunkLayout) (store : BlockStore) (offset : Nat) :
    List ReadPart -> Nat -> Bytes -> Option Bytes
  | [], _, tail => some tail
  | (l, r, slice) :: parts, cursor, tail => do
      let start <- checkedSub l offset
      let len <- checkedSub r l
      let gap <- checkedSub start cursor
      let (skipped, rest) <- splitAtMut tail gap
      let (seg, rest) <- splitAtMut rest len
      let sliceOffset <- checkedSub l slice.offset
      let seg <- readBlocks store slice.sliceId (blockSpanIterSlice sliceOffset len layout) seg
      let rest <- readParts layout store offset parts (start + len) rest
      return skipped ++ seg ++ rest

/-- The failures of `read_at`: the guard of the source, and an abort. -/
inductive ReadError where
  | requiresPrepareSlices
  | outOfBounds
deriving DecidableEq

structure DataFetcher where
  layout : ChunkLayout
  id : Nat
  slices : List SliceDesc
  prepared : Bool

namespace DataFetcher

def new (layout : ChunkLayout) (id : Nat) : DataFetcher := ⟨layout, id, [], false⟩

/-- Takes over the slice list that the metadata store returned for the chunk. -/
def prepareSlices (fetcher : DataFetcher) (slices : List SliceDesc) : DataFetcher :=
  { fetcher with slices := slices, prepared := true }

def readAt (fetcher : DataFetcher) (store : BlockStore) (offset len : Nat) :
    Except ReadError Bytes :=
  if len = 0 then
    .ok []
  else if fetcher.prepared then
    match readParts fetcher.layout store offset (needRead fetcher.slices offset len) 0
        (List.replicate len 0) with
    | none => .error .outOfBounds
    | some buf => .ok buf
  else
    .error .requiresPrepareSlices

end DataFetcher

/-! ## Filling a segment -/

theorem checkedSub_add (first second : Nat) : checkedSub (first + second) first = some second := by
  rw [checkedSub, if_pos (Nat.le_add_right ..), Nat.add_sub_cancel_left]

theorem splitAtMut_zeros (mid rest : Nat) :
    splitAtMut (replicate (mid + rest) 0) mid =
      some (replicate mid 0, replicate rest 0) := by
  rw [splitAtMut, if_pos (by rw [length_replicate]; omega), take_replicate,
    drop_replicate, min_eq_left (Nat.le_add_right ..), Nat.add_sub_cancel_left]

theorem map_range_add (f : Nat -> UInt8) (first second : Nat) :
    (range (first + second)).map f =
      (range first).map f ++ (range second).map fun i => f (first + i) := by
  rw [range_add, map_append, map_map]
  rfl

/-- Every block of a tiling puts its bytes of the slice into the segment. -/
theorem readBlocks_zeros {layout : ChunkLayout} (store : BlockStore) (sliceId : Nat)
    {blocks : List (Span .block)} {position length : Nat}
    (tiles : Tiles layout.blockSize position blocks length) :
    readBlocks store sliceId blocks (replicate length 0) =
      some ((range length).map fun i => sliceByte layout store sliceId (position + i)) := by
  induction blocks generalizing position length with
  | nil =>
    cases (show length = 0 from tiles)
    rfl
  | cons block blocks ih =>
    rcases tiles with ⟨placed, nonempty, inside, rest, total, tail⟩
    subst total
    rw [readBlocks, splitAtMut_zeros]
    simp only [ih tail, Option.map_some]
    rw [map_range_add, readRange_zeros]
    congr 2
    · apply map_congr_left
      intro i listed
      rw [mem_range] at listed
      rcases Span.div_mod_of_mem (position + i) inside (by omega) (by omega) with
        ⟨unit, within⟩
      rw [sliceByte, ChunkLayout.address, unit]
      congr 1
      omega
    · apply map_congr_left
      intro i _
      rw [add_assoc]

/-! ## Walking the parts -/

/-- The part lies in the range from `first` to `stop` and in its slice. -/
structure ReadPart.Fits (first stop : Nat) (part : ReadPart) : Prop where
  above : first ≤ part.1
  proper : part.1 < part.2.1
  below : part.2.1 ≤ stop
  slice : part.2.2.offset ≤ part.1

/-- The first part ends before the second one begins. -/
def ReadPart.Before (first second : ReadPart) : Prop := first.2.1 ≤ second.1

/-- When the parts follow each other inside the buffer, every split succeeds
and the buffer gets the content that the parts prescribe, zero elsewhere. -/
theorem readParts_zeros (layout : ChunkLayout) (store : BlockStore) (offset cursor size : Nat)
    (parts : List ReadPart) (content : Nat -> UInt8)
    (fits : ∀ part ∈ parts, part.Fits (offset + cursor) (offset + cursor + size))
    (ordered : parts.Pairwise ReadPart.Before)
    (covered : ∀ part position, part ∈ parts -> part.1 ≤ position -> position < part.2.1 ->
      content position = sliceByte layout store part.2.2.sliceId (position - part.2.2.offset))
    (zero : ∀ position, offset + cursor ≤ position -> position < offset + cursor + size ->
      (∀ part ∈ parts, ¬ (part.1 ≤ position ∧ position < part.2.1)) ->
      content position = 0) :
    readParts layout store offset parts cursor (replicate size 0) =
      some ((range size).map fun i => content (offset + cursor + i)) := by
  induction parts generalizing cursor size with
  | nil =>
    rw [readParts, eq_comm, Option.some_inj, eq_replicate_iff]
    refine ⟨by rw [length_map, length_range], fun byte listed => ?_⟩
    rcases mem_map.mp listed with ⟨i, inside, rfl⟩
    rw [mem_range] at inside
    exact zero _ (by omega) (by omega) fun _ member => absurd member not_mem_nil
  | cons part parts ih =>
    rcases part with ⟨l, r, slice⟩
    rcases fits _ mem_cons_self with ⟨above, proper, below, placed⟩
    rcases pairwise_cons.mp ordered with ⟨follows, chained⟩
    dsimp only at above proper below placed
    obtain ⟨gap, rfl⟩ := Nat.exists_eq_add_of_le above
    obtain ⟨len, rfl⟩ := Nat.exists_eq_add_of_le proper.le
    obtain ⟨size, rfl⟩ : ∃ left, size = gap + (len + left) := ⟨size - gap - len, by omega⟩
    obtain ⟨sliceOffset, start⟩ := Nat.exists_eq_add_of_le placed
    have rest := ih (cursor + gap + len) size
      (fun later member => by
        rcases fits later (mem_cons_of_mem _ member) with ⟨_, proper', below', placed'⟩
        have after : offset + cursor + gap + len ≤ later.1 := follows later member
        exact ⟨by omega, proper', by omega, placed'⟩)
      chained
      (fun later position member => covered later position (mem_cons_of_mem _ member))
      (fun position after before uncovered => by
        apply zero position (by omega) (by omega)
        intro other member
        rcases mem_cons.mp member with rfl | later
        · dsimp only
          omega
        · exact uncovered other later)
    have skipped : replicate gap 0 =
        (range gap).map fun i => content (offset + cursor + i) := by
      rw [eq_comm, eq_replicate_iff]
      refine ⟨by rw [length_map, length_range], fun byte listed => ?_⟩
      rcases mem_map.mp listed with ⟨i, inside, rfl⟩
      rw [mem_range] at inside
      apply zero _ (by omega) (by omega)
      intro other member
      rcases mem_cons.mp member with rfl | later
      · dsimp only
        omega
      · have after : offset + cursor + gap + len ≤ other.1 := follows other later
        omega
    have filled := readBlocks_zeros store slice.sliceId
      (tiles_blockSpanIterSlice sliceOffset len layout)
    have segment : ((range len).map fun i =>
        sliceByte layout store slice.sliceId (sliceOffset + i)) =
        (range len).map fun i => content (offset + cursor + gap + i) := by
      apply map_congr_left
      intro i inside
      rw [mem_range] at inside
      rw [covered _ (offset + cursor + gap + i) mem_cons_self (by dsimp only; omega)
        (by dsimp only; omega)]
      congr 1
      dsimp only
      omega
    have startOf : checkedSub (offset + cursor + gap) offset = some (cursor + gap) := by
      rw [add_assoc, checkedSub_add]
    have sliceOffsetOf : checkedSub (offset + cursor + gap) slice.offset = some sliceOffset := by
      rw [start, checkedSub_add]
    simp only [readParts, startOf, sliceOffsetOf, checkedSub_add, splitAtMut_zeros, filled, rest,
      Option.bind_eq_bind, Option.bind_some, Option.pure_def, map_range_add]
    rw [← skipped, segment, append_assoc]
    simp only [add_assoc]

/-! ## The parts of a range -/

/-- The positions of a part. -/
def ReadPart.range (part : ReadPart) : Nat × Nat := (part.1, part.2.1)

/-- The facts about the parts that the slices cut out of a set of intervals. -/
structure CutsOut (newestFirst : List SliceDesc) (intervals : Intervals Nat)
    (parts : List ReadPart) : Prop where
  nonempty : forall part, part ∈ parts -> part.1 < part.2.1
  contained : forall part position, part ∈ parts -> Inside part.range position ->
    Contains intervals.ranges position ∧ part.2.2.offset ≤ position
  separate : parts.Pairwise fun first second => Separate first.range second.range
  covered : forall layout store part position, part ∈ parts ->
    Inside part.range position ->
    chunkContent layout store newestFirst.reverse position =
      sliceByte layout store part.2.2.sliceId (position - part.2.2.offset)
  zero : forall layout store position, Contains intervals.ranges position ->
    (forall part, part ∈ parts -> ¬ Inside part.range position) ->
    chunkContent layout store newestFirst.reverse position = 0

theorem needReadFrom_cutsOut (newestFirst : List SliceDesc) (intervals : Intervals Nat)
    (separate : intervals.ranges.Pairwise Separate) :
    CutsOut newestFirst intervals (needReadFrom newestFirst intervals) := by
  induction newestFirst generalizing intervals with
  | nil =>
    exact ⟨by simp [needReadFrom], by simp [needReadFrom], List.Pairwise.nil,
      by simp [needReadFrom], fun _ _ _ _ _ => rfl⟩
  | cons slice older ih =>
    have rest := ih (intervals.cut slice.offset (slice.offset + slice.length)).2
      (pairwise_cut_snd (Nat.le_add_right ..) separate)
    have newest : ∀ layout store, chunkContent layout store (slice :: older).reverse =
        (slice.patch layout store).apply (chunkContent layout store older.reverse) := by
      intro layout store
      rw [reverse_cons, chunkContent_concat]
    have fromSlice : ∀ part position,
        part ∈ (intervals.cut slice.offset (slice.offset + slice.length)).1 ->
        Inside part position ->
        Contains intervals.ranges position ∧
          Inside (slice.offset, slice.offset + slice.length) position := by
      intro part position member inside
      exact contains_cut_fst.mp ⟨part, member, inside⟩
    have fromOlder : ∀ part position,
        part ∈ needReadFrom older (intervals.cut slice.offset (slice.offset + slice.length)).2 ->
        Inside part.range position ->
        Contains intervals.ranges position ∧
          ¬ Inside (slice.offset, slice.offset + slice.length) position := by
      intro part position member inside
      exact contains_cut_snd.mp (rest.contained part position member inside).1
    constructor
    · exact forall_mem_append.mpr
        ⟨forall_mem_map.mpr fun piece listed => cut_fst_nonempty listed, rest.nonempty⟩
    · intro part position member inside
      rcases mem_append.mp member with cut | later
      · rcases mem_map.mp cut with ⟨piece, listed, rfl⟩
        have found := fromSlice piece position listed inside
        exact ⟨found.1, found.2.1⟩
      · exact ⟨(fromOlder part position later inside).1,
          (rest.contained part position later inside).2⟩
    · refine pairwise_append.mpr ⟨?_, rest.separate, ?_⟩
      · exact pairwise_map.mpr (pairwise_cut_fst separate)
      · intro first cut second later position inside meets
        rcases mem_map.mp cut with ⟨piece, listed, rfl⟩
        exact (fromOlder second position later meets).2 (fromSlice piece position listed inside).2
    · intro layout store part position member inside
      rw [newest]
      rcases mem_append.mp member with cut | later
      · rcases mem_map.mp cut with ⟨piece, listed, rfl⟩
        exact Patch.apply_of_covers (fromSlice piece position listed inside).2
      · have outside : ¬ (slice.patch layout store).Covers position :=
          (fromOlder part position later inside).2
        rw [Patch.apply_of_not_covers outside]
        exact rest.covered layout store part position later inside
    intro layout store position contained uncovered
    rw [newest]
    have outside : ¬ (slice.patch layout store).Covers position := by
      intro covers
      rcases contains_cut_fst.mpr ⟨contained, covers⟩ with ⟨piece, listed, inside⟩
      exact uncovered (piece.1, piece.2, slice)
        (mem_append_left _ (mem_map.mpr ⟨piece, listed, rfl⟩)) inside
    rw [Patch.apply_of_not_covers outside]
    exact rest.zero layout store position (contains_cut_snd.mpr ⟨contained, outside⟩)
      fun part later => uncovered part (mem_append_right _ later)

theorem contains_new {offset len position : Nat} :
    Contains (new offset (offset + len)).ranges position ↔
      offset ≤ position ∧ position < offset + len := by
  simp only [Contains, new, mem_singleton, exists_eq_left]
  rfl

/-- The facts about the parts that the slices cut out of a range. -/
theorem needReadFrom_new (slices : List SliceDesc) (offset len : Nat) :
    CutsOut slices.reverse (new offset (offset + len))
      (needReadFrom slices.reverse (new offset (offset + len))) :=
  needReadFrom_cutsOut slices.reverse _ (pairwise_singleton ..)

variable {slices : List SliceDesc} {part : ReadPart}

/-- Every part is a nonempty range inside the one asked for and does not start
before its slice. -/
theorem needRead_fits {offset len : Nat}
    (member : part ∈ needRead slices offset len) : part.Fits offset (offset + len) := by
  have cuts := needReadFrom_new slices offset len
  rw [needRead, mem_insertionSort] at member
  have proper := cuts.nonempty part member
  have first := cuts.contained part part.1 member ⟨le_rfl, proper⟩
  have last := cuts.contained part (part.2.1 - 1) member
    ⟨Nat.le_sub_one_of_lt proper, Nat.sub_one_lt_of_lt proper⟩
  rw [contains_new] at first last
  exact ⟨first.1.1, proper, by omega, first.2⟩

/-- The parts follow each other, so no byte of the buffer is filled twice. -/
theorem needRead_ordered (slices : List SliceDesc) (offset len : Nat) :
    (needRead slices offset len).Pairwise ReadPart.Before := by
  have cuts := needReadFrom_new slices offset len
  have sorted : (needRead slices offset len).Pairwise ReadPart.StartsBefore :=
    pairwise_insertionSort ..
  have separate : (needRead slices offset len).Pairwise
      fun first second => Separate first.range second.range := by
    apply ((perm_insertionSort _ _).pairwise_iff _).mpr cuts.separate
    intro first second apart position inside meets
    exact apart position meets inside
  refine (sorted.and separate).imp_of_mem ?_
  rintro first second _ member ⟨starts, apart⟩
  by_contra overlap
  have proper := (needRead_fits member).proper
  exact apart second.1 ⟨starts, Nat.lt_of_not_le overlap⟩ ⟨le_rfl, proper⟩

namespace DataFetcher

/-- A prepared fetcher returns the content of the chunk, for every slice list
and every block store. -/
theorem readAt_eq (fetcher : DataFetcher) (store : BlockStore) (prepared : fetcher.prepared = true)
    (offset len : Nat) :
    fetcher.readAt store offset len = .ok ((range len).map fun i =>
      chunkContent fetcher.layout store fetcher.slices (offset + i)) := by
  unfold readAt
  by_cases empty : len = 0
  · rw [empty]
    rfl
  have cuts := needReadFrom_new fetcher.slices offset len
  have filled := readParts_zeros fetcher.layout store offset 0 len
    (needRead fetcher.slices offset len) (chunkContent fetcher.layout store fetcher.slices)
    (fun part member => needRead_fits member) (needRead_ordered ..)
    (fun part position member above below => by
      have found := cuts.covered fetcher.layout store part position ((mem_insertionSort _).mp member)
        ⟨above, below⟩
      rwa [reverse_reverse] at found)
    (fun position above below uncovered => by
      have unset := cuts.zero fetcher.layout store position (contains_new.mpr ⟨above, below⟩)
        fun part member => uncovered part ((mem_insertionSort _).mpr member)
      rwa [reverse_reverse] at unset)
  rw [if_neg empty, if_pos prepared, filled]
  rfl

end DataFetcher

end Rk8s.Slayerfs
