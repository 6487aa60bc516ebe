import Rk8s.Slayerfs.Chunk.Reader
import Rk8s.Slayerfs.Chunk.Writer
import Rk8s.Slayerfs.Meta.SliceTables

namespace Rk8s.Slayerfs

open SliceTables List SliceDesc

/-!
# The compactor

Light compaction takes slices out of a chunk that a newer slice covers.  Heavy
compaction reads all slices into one buffer, stores the buffer as a new slice
and puts that slice in the place of the others.  Sequential compaction runs the
first, looks at what is left, and may run the second.

Both go by slice ids where a reader goes by the order of the list: the covering
slice must have a higher id, and the buffer is filled from the lowest id to the
highest.
-/

/-- The order of `sort_by_key(|s| s.slice_id)`. -/
def SliceDesc.OlderFirst (first second : SliceDesc) : Prop := first.sliceId ≤ second.sliceId

instance : DecidableRel SliceDesc.OlderFirst := fun first second =>
  inferInstanceAs (Decidable (first.sliceId ≤ second.sliceId))

instance : Std.Total SliceDesc.OlderFirst :=
  ⟨fun first second => le_total first.sliceId second.sliceId⟩

instance : IsTrans SliceDesc SliceDesc.OlderFirst := ⟨fun _ _ _ => le_trans⟩

/-- The errors of the compactor.  `aborted` stands for an index out of bounds,
which no run reaches. -/
inductive CompactorError where
  | metaError (error : MetaError)
  | invalidData (message : String)
  | aborted

inductive CompactResult where
  | skipped
  | light (removed : Nat)
  | heavy (newSliceId : Nat)

/-- The thresholds.  The two comparisons of the fragmentation ratio with a
threshold are functions of its numerator and denominator. -/
structure CompactConfig where
  lightEnabled : Bool
  lightThreshold : Nat
  heavyEnabled : Bool
  heavySliceThreshold : Nat
  heavyFragment : Nat × Nat -> Bool
  heavyForceFragment : Nat × Nat -> Bool

/-! ## Analysis -/

/-- The bytes that the intervals, sorted by start, cover together. -/
def mergedCoverage : List (Nat × Nat) -> Nat × Nat -> Nat
  | [], (start, stop) => stop - start
  | (s, e) :: intervals, (start, stop) =>
    if s ≤ stop then
      mergedCoverage intervals (start, max stop e)
    else
      (stop - start) + mergedCoverage intervals (s, e)

/-- The lexicographic order of `intervals.sort()`. -/
def intervalLe (first second : Nat × Nat) : Prop :=
  first.1 < second.1 ∨ first.1 = second.1 ∧ first.2 ≤ second.2

instance : DecidableRel intervalLe := fun _ _ => inferInstanceAs (Decidable (_ ∨ _))

/-- The fragmentation ratio as numerator and denominator. -/
def SliceDesc.calculateFragmentation (slices : List SliceDesc) : Nat × Nat :=
  let totalSize := (slices.map length).sum
  let intervals := ((slices.filter fun slice => slice.length > 0).map fun slice =>
    (slice.offset, slice.stop)).insertionSort intervalLe
  match intervals with
  | [] => (0, 1)
  | first :: rest => (totalSize - mergedCoverage rest first, totalSize)

namespace Compactor

variable (config : CompactConfig) (slices : List SliceDesc)

/-- The light stage runs. -/
def lightRuns : Bool :=
  config.lightEnabled && config.lightThreshold ≤ slices.length

def needsHeavy : Bool :=
  config.heavyEnabled && (config.heavyFragment (calculateFragmentation slices) ||
    config.heavySliceThreshold ≤ slices.length)

/-- The same decision on what light compaction left. -/
def needsHeavyAfterLight : Bool :=
  (needsHeavy config slices ||
    config.heavyForceFragment (calculateFragmentation slices)) && 1 < slices.length

/-! ## Light compaction -/

def replacedIds : List Nat :=
  findReplacedIds slices (removeFullyCovered slices)

def compactLight (tables : SliceTables) (chunkId : Nat) :
    Except CompactorError (Option Nat × SliceTables) :=
  let slices := tables.getSlices chunkId
  if slices.length ≤ 1 then
    .ok (none, tables)
  else if (replacedIds slices).isEmpty then
    .ok (none, tables)
  else
    match tables.replaceSlicesForCompact chunkId []
        (encodeDelayedData slices (replacedIds slices)) with
    | .error error => .error (.metaError error)
    | .ok tables => .ok (some (replacedIds slices).length, tables)

/-- What a light compaction leaves. -/
def remaining : List SliceDesc :=
  slices.filter fun slice => slice.sliceId ∉ replacedIds slices

/-! ## Heavy compaction -/

variable (layout : ChunkLayout) (store : BlockStore)

/-- Reads the blocks of a slice one after another into the destination. -/
def readSliceDataInto (slice : SliceDesc) (dest : Bytes) : Option Bytes :=
  readBlocks store slice.sliceId (blockSpanIterSlice 0 slice.length layout) dest

def exceedsChunk (slice : SliceDesc) (chunkSize : Nat) : CompactorError :=
  .invalidData ("Slice " ++ toString slice.sliceId ++ " exceeds chunk bounds: offset=" ++
    toString slice.offset ++ ", length=" ++ toString slice.length ++ ", chunk_size=" ++
    toString chunkSize)

/-- The loop over the sorted slices. -/
def mergeSlices (store : BlockStore) : List SliceDesc -> Bytes -> Except CompactorError Bytes
  | [], mergedData => .ok mergedData
  | slice :: slices, mergedData =>
    let start := slice.offset
    let stop := start + slice.length
    if stop > mergedData.length then
      .error (exceedsChunk slice mergedData.length)
    else
      match readSliceDataInto layout store slice ((mergedData.take stop).drop start) with
      | none => .error .aborted
      | some segment =>
        mergeSlices store slices (mergedData.take start ++ segment ++ mergedData.drop stop)

def readAndMergeSlices (slices : List SliceDesc) (mergedData : Bytes) :
    Except CompactorError Bytes :=
  mergeSlices layout store (slices.insertionSort SliceDesc.OlderFirst) mergedData

/-- The loop of `write_merged_data`. -/
def writeMergedSpans (sliceId : Nat) : List (Span .block) -> Bytes -> BlockStore -> BlockStore
  | [], _, store => store
  | span :: spans, data, store =>
    let take := min span.len data.length
    writeMergedSpans sliceId spans (data.drop take)
      (store.writeRange (sliceId, asU32 span.index) span.offset (data.take take))

def writeMergedData (sliceId : Nat) (data : Bytes) : BlockStore :=
  writeMergedSpans sliceId (blockSpanIterRange 0 data.length layout) data store

/-- The slice that replaces the others. -/
def mergedSlice (chunkId newSliceId : Nat) : SliceDesc := ⟨newSliceId, chunkId, 0, layout.chunkSize⟩

/-- A heavy compaction that nothing interferes with; `newSliceId` is what
`next_id` returns. -/
def compactHeavy (tables : SliceTables) (store : BlockStore) (chunkId newSliceId : Nat) :
    Except CompactorError (SliceTables × BlockStore) :=
  let slices := tables.getSlices chunkId
  match readAndMergeSlices layout store slices (List.replicate layout.chunkSize 0) with
  | .error error => .error error
  | .ok mergedData =>
    let recorded := tables.recordUncommittedSlice newSliceId chunkId layout.chunkSize
    let stored := writeMergedData layout store newSliceId mergedData
    match recorded.replaceSlicesForCompactWithVersion chunkId
        [mergedSlice layout chunkId newSliceId]
        (encodeDelayedData slices (slices.map sliceId)) slices with
    | .error error => .error (.metaError error)
    | .ok replaced => .ok (replaced.confirmSliceCommitted newSliceId, stored)

/-! ## Sequential compaction -/

/-- The light stage: what was removed, and whether the heavy stage follows. -/
def lightStage (tables : SliceTables) (chunkId : Nat) :
    Except CompactorError (Nat × Bool × SliceTables) :=
  let slices := tables.getSlices chunkId
  if lightRuns config slices then
    match compactLight tables chunkId with
    | .error error => .error error
    | .ok (none, tables) => .ok (0, needsHeavy config slices, tables)
    | .ok (some removed, tables) =>
      if removed > 0 then
        .ok (removed, needsHeavyAfterLight config (tables.getSlices chunkId), tables)
      else
        .ok (removed, needsHeavy config slices, tables)
  else
    .ok (0, needsHeavy config slices, tables)

def compactSequential (config : CompactConfig) (tables : SliceTables) (store : BlockStore)
    (chunkId newSliceId : Nat) :
    Except CompactorError (CompactResult × SliceTables × BlockStore) :=
  if (tables.getSlices chunkId).length ≤ 1 then
    .ok (.skipped, tables, store)
  else
    match lightStage config tables chunkId with
    | .error error => .error error
    | .ok (_, true, tables) =>
      match compactHeavy layout tables store chunkId newSliceId with
      | .error error => .error error
      | .ok (tables, store) => .ok (.heavy newSliceId, tables, store)
    | .ok (lightRemoved, false, tables) =>
      .ok (if lightRemoved > 0 then .light lightRemoved else .skipped, tables, store)

/-! ## What the two kinds of compaction do -/

/-- Reading a slice whose blocks are complete replaces the whole destination. -/
theorem readBlocks_of_held {layout : ChunkLayout} (store : BlockStore) (sliceId : Nat)
    {blocks : List (Span .block)} {position length : Nat} {dest : Bytes}
    (tiles : Tiles layout.blockSize position blocks length) (room : dest.length = length)
    (held : ∀ other, position ≤ other -> other < position + length ->
      Held layout store sliceId other) :
    readBlocks store sliceId blocks dest =
      some ((List.range length).map fun i => sliceByte layout store sliceId (position + i)) := by
  induction blocks generalizing position length dest with
  | nil =>
    cases (show length = 0 from tiles)
    cases length_eq_zero_iff.mp room
    rfl
  | cons block blocks ih =>
    rcases tiles with ⟨rfl, nonempty, inside, rest, rfl, tail⟩
    have split : splitAtMut dest block.len = some (dest.take block.len, dest.drop block.len) :=
      if_pos (by omega)
    have taken : (dest.take block.len).length = block.len := by
      rw [length_take]
      omega
    have last := held (block.index * layout.blockSize + block.offset + block.len - 1)
      (by omega) (by omega)
    rw [Held, address_of_mem inside (by omega) (by omega)] at last
    have filled := @ih _ rest (dest.drop block.len) tail (by rw [length_drop]; omega)
      fun other above below => held other (by omega) (by omega)
    rw [readBlocks, split]
    simp only [filled, Option.map_some]
    rw [readRange_of_le_blockLength store _ (by rw [taken]; dsimp only at last; omega),
      map_range_add, taken]
    congr 2
    · apply map_congr_left
      intro i listed
      rw [mem_range] at listed
      rw [sliceByte, address_of_mem inside (by omega) (by omega)]
      congr 1
      omega
    · apply map_congr_left
      intro i _
      rw [add_assoc]

variable {layout : ChunkLayout} {store : BlockStore}

/-- All bytes of the slice are in its blocks. -/
def IsHeld (layout : ChunkLayout) (store : BlockStore) (slice : SliceDesc) : Prop :=
  forall position, position < slice.length -> Held layout store slice.sliceId position

/-- The merged buffer is the overlay of the slices in the order they are read. -/
theorem mergeSlices_spec {slices : List SliceDesc} {data merged : Bytes}
    (held : ∀ slice ∈ slices, IsHeld layout store slice)
    (ran : mergeSlices layout store slices data = .ok merged) :
    merged.length = data.length ∧ ∀ position < data.length,
      merged.getD position 0 =
        overlay (fun other => data.getD other 0) (slices.map (patch layout store))
          position := by
  induction slices generalizing data with
  | nil =>
    cases ran
    exact ⟨rfl, fun _ _ => rfl⟩
  | cons slice slices ih =>
    rw [mergeSlices] at ran
    split_ifs at ran with exceeds
    have room : ((data.take (slice.offset + slice.length)).drop slice.offset).length =
        slice.length := by
      rw [length_drop, length_take]
      omega
    have read := readBlocks_of_held store slice.sliceId
      (tiles_blockSpanIterSlice 0 slice.length layout) room fun other _ below =>
        held slice mem_cons_self other (by omega)
    rw [readSliceDataInto, read] at ran
    generalize segment : (List.range slice.length).map
      (fun i => sliceByte layout store slice.sliceId (0 + i)) = bytes at ran
    have long : bytes.length = slice.length := by
      rw [← segment, length_map, length_range]
    have before : (data.take slice.offset).length = slice.offset := by
      rw [length_take]
      omega
    rcases ih (fun other listed => held other (mem_cons_of_mem _ listed)) ran with
      ⟨same, content⟩
    have total : (data.take slice.offset ++ bytes ++
        data.drop (slice.offset + slice.length)).length = data.length := by
      simp only [length_append, length_drop]
      omega
    refine ⟨same.trans total, fun position inside => ?_⟩
    rw [content position (by omega), map_cons, overlay]
    apply overlay_congr
    by_cases left : position < slice.offset
    · have uncovered : ¬ (slice.patch layout store).Covers position :=
        fun covers => lt_irrefl _ (left.trans_le covers.1)
      rw [Patch.apply_of_not_covers uncovered, append_assoc, getD_append _ _ _ _ (by omega)]
      simp only [getD_eq_getElem?_getD, getElem?_take, if_pos left]
    by_cases right : position < slice.offset + slice.length
    · have covered : (slice.patch layout store).Covers position := ⟨by
        exact not_lt.mp left, right⟩
      rw [Patch.apply_of_covers covered, getD_append _ _ _ _
        (by rw [length_append]; omega), getD_append_right _ _ _ _ (by omega), before,
        ← segment]
      simp only [getD_eq_getElem?_getD, getElem?_map]
      rw [getElem?_range (by omega), Option.map_some, Option.getD_some, zero_add]
      rfl
    have uncovered : ¬ (slice.patch layout store).Covers position :=
      fun covers => right covers.2
    rw [Patch.apply_of_not_covers uncovered, getD_append_right _ _ _ _
      (by rw [length_append]; omega)]
    simp only [getD_eq_getElem?_getD, getElem?_drop, length_append]
    congr 2
    omega

/-- Storing the merged buffer is an upload of it. -/
theorem writeMergedSpans_spec {sliceId offset length : Nat} {spans : List (Span .block)}
    {data : Bytes} (store : BlockStore) (tiles : Tiles layout.blockSize offset spans length)
    (available : data.length = length) :
    Uploads layout sliceId offset data store (writeMergedSpans sliceId spans data store) := by
  induction spans generalizing offset length data store with
  | nil => exact Uploads.nil (length_eq_zero_iff.mp (available.trans tiles))
  | cons span spans ih =>
    rcases tiles with ⟨rfl, nonempty, inside, rest, total, tail⟩
    have take : min span.len data.length = span.len := by omega
    rw [writeMergedSpans, take]
    exact (ih _ tail (by rw [length_drop]; omega)).cons inside (by omega)

/-- The ids that the encoded records carry. -/
theorem mem_delayedIds {slices : List SliceDesc} {ids : List Nat}
    (small : ∀ slice ∈ slices, slice.sliceId < 2 ^ 64) (id : Nat) :
    id ∈ (((slices.filter fun slice => slice.sliceId ∈ ids).map record).map Prod.fst) ↔
      ∃ slice ∈ slices, slice.sliceId ∈ ids ∧ slice.sliceId = id := by
  have same : ∀ slice ∈ slices, slice.record.1 = slice.sliceId :=
    fun slice listed => Nat.mod_eq_of_lt (small slice listed)
  constructor
  · intro member
    simp only [map_map, mem_map, mem_filter, decide_eq_true_eq] at member
    rcases member with ⟨slice, ⟨listed, chosen⟩, value⟩
    exact ⟨slice, listed, chosen, (same slice listed).symm.trans value⟩
  · rintro ⟨slice, listed, chosen, value⟩
    simp only [map_map, mem_map, mem_filter, decide_eq_true_eq]
    exact ⟨slice, ⟨listed, chosen⟩, (same slice listed).trans value⟩

variable {tables after : SliceTables} {chunkId : Nat}

/-- A light compaction takes the covered slices of the chunk out of the table. -/
theorem compactLight_spec {removed : Option Nat}
    (small : ∀ row ∈ tables.sliceMeta, row.sliceId < 2 ^ 64)
    (ran : compactLight tables chunkId = .ok (removed, after)) :
    (removed = none ∧ after = tables ∧ ((tables.getSlices chunkId).length ≤ 1 ∨
      replacedIds (tables.getSlices chunkId) = [])) ∨
    (removed = some (replacedIds (tables.getSlices chunkId)).length ∧
      replacedIds (tables.getSlices chunkId) ≠ [] ∧
      after.sliceMeta = tables.sliceMeta.filter fun row =>
        ¬ (row.chunkId = chunkId ∧ row.sliceId ∈ replacedIds (tables.getSlices chunkId))) := by
  unfold compactLight at ran
  dsimp only at ran
  split_ifs at ran with single none_
  · cases ran
    exact .inl ⟨rfl, rfl, .inl single⟩
  · cases ran
    exact .inl ⟨rfl, rfl, .inr (List.isEmpty_iff.mp none_)⟩
  rw [SliceTables.replaceSlicesForCompact, decodeDelayedData_encodeDelayedData] at ran
  cases ran
  refine .inr ⟨rfl, fun empty => none_ (List.isEmpty_iff.mpr empty), ?_⟩
  rw [SliceTables.replaceSlices, map_nil, append_nil]
  apply filter_congr
  intro row listed
  rw [decide_eq_decide, not_iff_not]
  refine and_congr_right fun here => ?_
  rw [mem_delayedIds fun slice inside => small slice (mem_getSlices.mp inside).1]
  constructor
  · rintro ⟨slice, _, chosen, same⟩
    exact same ▸ chosen
  · intro chosen
    exact ⟨row, mem_getSlices.mpr ⟨listed, here⟩, chosen, rfl⟩

/-- A heavy compaction puts the slice with the merged bytes in the place of all
slices of the chunk. -/
theorem compactHeavy_spec {layout : ChunkLayout} {store stored : BlockStore} {newSliceId : Nat}
    (small : ∀ row ∈ tables.sliceMeta, row.sliceId < 2 ^ 64)
    (ran : compactHeavy layout tables store chunkId newSliceId = .ok (after, stored)) :
    (∃ merged,
      readAndMergeSlices layout store (tables.getSlices chunkId)
        (List.replicate layout.chunkSize 0) = .ok merged ∧
      stored = writeMergedData layout store newSliceId merged) ∧
    after.sliceMeta = (tables.sliceMeta.filter fun row => row.chunkId ≠ chunkId) ++
      [mergedSlice layout chunkId newSliceId] := by
  unfold compactHeavy at ran
  dsimp only at ran
  split at ran
  case h_1 => cases ran
  case h_2 merged read =>
    rw [SliceTables.replaceSlicesForCompactWithVersion,
      decodeDelayedData_encodeDelayedData] at ran
    split_ifs at ran with expected
    cases ran
    refine ⟨⟨merged, read, rfl⟩, ?_⟩
    change (tables.sliceMeta.filter _) ++ [mergedSlice layout chunkId newSliceId] = _
    congr 1
    apply filter_congr
    intro row listed
    rw [decide_eq_decide, ne_eq, not_iff_not]
    refine ⟨And.left, fun here => ⟨here, ?_⟩⟩
    rw [mem_delayedIds fun slice inside => small slice (mem_getSlices.mp inside).1]
    have inChunk := mem_getSlices.mpr ⟨listed, here⟩
    exact ⟨row, inChunk, mem_map_of_mem inChunk, rfl⟩

end Compactor

end Rk8s.Slayerfs
