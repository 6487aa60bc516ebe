import Rk8s.Slayerfs.Chunk.Covered

namespace Rk8s.Slayerfs

/-!
# The slice tables of the database

Three tables keep track of slices.  `slice_meta` has the slices of every chunk,
in insertion order.  `delayed_slice` has the slices that compaction replaced and
whose blocks are still to be deleted.  `uncommitted_slice` has the slices that a
heavy compaction writes blocks for before they are in `slice_meta`.

Each operation of `DatabaseMetaStore` is a function on the tables.  The garbage
collector selects rows first and works on that selection in a transaction later,
so its operations come in two parts: the rows as they were read, and what the
transaction does with them.  Which rows are old enough is a matter of clocks and
is left to the caller.
-/

/-- The status column of `delayed_slice`. -/
inductive DelayedStatus where
  | pending
  | metaDeleted
deriving DecidableEq

structure DelayedSlice where
  id : Nat
  sliceId : Nat
  chunkId : Nat
  offset : Nat
  size : Nat
  status : DelayedStatus
deriving DecidableEq

/-- The status column of `uncommitted_slice`. -/
inductive UncommittedStatus where
  | pending
  | orphan
deriving DecidableEq

structure UncommittedSlice where
  id : Nat
  sliceId : Nat
  chunkId : Nat
  size : Nat
  status : UncommittedStatus
deriving DecidableEq

structure SliceTables where
  sliceMeta : List SliceDesc
  delayedSlice : List DelayedSlice
  nextDelayedId : Nat
  uncommittedSlice : List UncommittedSlice
  nextUncommittedId : Nat
deriving DecidableEq

/-- The errors of the operations below.  `recordNotUpdated` is the database's
answer to an update of a row that is gone. -/
inductive MetaError where
  | internal (message : String)
  | io (message : String)
  | recordNotUpdated
  | continueRetry
deriving DecidableEq

namespace SliceTables

variable (tables : SliceTables) (chunkId : Nat)

/-- The slices of a chunk in commit order. -/
def getSlices : List SliceDesc :=
  tables.sliceMeta.filter fun row => row.chunkId = chunkId

@[simp] theorem mem_getSlices {tables : SliceTables} {chunkId : Nat} {row : SliceDesc} :
    row ∈ tables.getSlices chunkId ↔ row ∈ tables.sliceMeta ∧ row.chunkId = chunkId := by
  simp [getSlices]

/-- A change of the table that keeps the rows of a chunk and adds none to it. -/
theorem getSlices_of_kept {tables after : SliceTables} {keep : SliceDesc -> Bool}
    {new : List SliceDesc} {chunkId : Nat}
    (changed : after.sliceMeta = tables.sliceMeta.filter keep ++ new)
    (kept : ∀ row, row.chunkId = chunkId -> keep row = true)
    (elsewhere : ∀ row ∈ new, row.chunkId ≠ chunkId) :
    after.getSlices chunkId = tables.getSlices chunkId := by
  have none_ : new.filter (fun row => row.chunkId = chunkId) = [] := by
    simpa [List.filter_eq_nil_iff] using elsewhere
  rw [getSlices, changed, List.filter_append, List.filter_filter, none_, List.append_nil]
  apply List.filter_congr
  intro row _
  by_cases here : row.chunkId = chunkId
  · simp [kept row here]
  · simp [here]

/-- The insertion that `append_slice` and `write` make. -/
def appendSlice (slice : SliceDesc) : SliceTables :=
  { tables with sliceMeta := tables.sliceMeta ++ [{ slice with chunkId := chunkId }] }

/-! ## Compaction -/

/-- The rows of `delayed_slice` for a list of decoded records. -/
def delayedRows (chunkId : Nat) : Nat -> List (Nat × Nat × Nat) -> List DelayedSlice
  | _, [] => []
  | id, (sliceId, offset, size) :: records =>
    ⟨id, sliceId, chunkId, offset, size, .pending⟩ :: delayedRows chunkId (id + 1) records

/-- Takes the listed slices out of the chunk, inserts the new ones and keeps
records of what was taken out. -/
def replaceSlices (newSlices : List SliceDesc) (delayed : List (Nat × Nat × Nat)) : SliceTables :=
  { tables with
    sliceMeta :=
      (tables.sliceMeta.filter fun row =>
        ¬ (row.chunkId = chunkId ∧ row.sliceId ∈ delayed.map Prod.fst)) ++
        newSlices.map fun slice => { slice with chunkId := chunkId }
    delayedSlice := tables.delayedSlice ++ delayedRows chunkId tables.nextDelayedId delayed
    nextDelayedId := tables.nextDelayedId + delayed.length }

def invalidDelayedData : MetaError := .internal "Invalid delayed data length"

def replaceSlicesForCompact (newSlices : List SliceDesc)
    (oldSlicesToDelay : Bytes) : Except MetaError SliceTables :=
  match SliceDesc.decodeDelayedData oldSlicesToDelay with
  | none => .error invalidDelayedData
  | some delayed => .ok (tables.replaceSlices chunkId newSlices delayed)

/-- The place of a slice in the chunk; of several rows with one id the last counts. -/
def currentMap (current : List SliceDesc) (sliceId : Nat) : Option (Nat × Nat) :=
  (current.reverse.find? fun row => row.sliceId = sliceId).map fun row => (row.offset, row.length)

/-- The chunk still has as many slices as expected, and each of them in its place. -/
def isExpected (current expected : List SliceDesc) : Bool :=
  current.length = expected.length ∧
    forall slice, slice ∈ expected ->
      currentMap current slice.sliceId = some (slice.offset, slice.length)

def confirmSliceCommitted (sliceId : Nat) : SliceTables :=
  { tables with
    uncommittedSlice := tables.uncommittedSlice.filter fun row => row.sliceId ≠ sliceId }

def replaceSlicesForCompactWithVersion (newSlices : List SliceDesc) (oldSlicesToDelay : Bytes)
    (expectedSlices : List SliceDesc) : Except MetaError SliceTables :=
  match SliceDesc.decodeDelayedData oldSlicesToDelay with
  | none => .error invalidDelayedData
  | some delayed =>
    if isExpected (tables.getSlices chunkId) expectedSlices then
      .ok (newSlices.foldl (fun tables slice => tables.confirmSliceCommitted slice.sliceId)
        (tables.replaceSlices chunkId newSlices delayed))
    else
      .error .continueRetry

def recordUncommittedSlice (sliceId chunkId size : Nat) : SliceTables :=
  { tables with
    uncommittedSlice := tables.uncommittedSlice ++
      [⟨tables.nextUncommittedId, sliceId, chunkId, size, .pending⟩]
    nextUncommittedId := tables.nextUncommittedId + 1 }

/-! ## Garbage collection -/

/-- Sets the status of a delayed row that still exists. -/
def markMetaDeleted (id : Nat) : Option SliceTables :=
  if id ∈ tables.delayedSlice.map DelayedSlice.id then
    some { tables with
      delayedSlice := tables.delayedSlice.map fun row =>
        if row.id = id then { row with status := .metaDeleted } else row }
  else
    none

/-- One row of the loop in `process_delayed_slices`.  A row that has disappeared
since it was read is not passed on. -/
def processDelayedRow (progress : SliceTables × List (Nat × Nat × Nat × Nat))
    (delayed : DelayedSlice) : SliceTables × List (Nat × Nat × Nat × Nat) :=
  let entry := (delayed.sliceId, delayed.offset, delayed.size, delayed.id)
  match delayed.status with
  | .metaDeleted => (progress.1, progress.2 ++ [entry])
  | .pending =>
    let tables := { progress.1 with
      sliceMeta := progress.1.sliceMeta.filter fun row => row.sliceId ≠ delayed.sliceId }
    match tables.markMetaDeleted delayed.id with
    | some marked => (marked, progress.2 ++ [entry])
    | none => (tables, progress.2)

/-- The transaction of `process_delayed_slices` on the rows it has read, and what
is now ready for the deletion of its blocks. -/
def processDelayedSlices (delayedSlices : List DelayedSlice) :
    SliceTables × List (Nat × Nat × Nat × Nat) :=
  delayedSlices.foldl processDelayedRow (tables, [])

def confirmDelayedDeleted (delayedIds : List Nat) : SliceTables :=
  { tables with delayedSlice := tables.delayedSlice.filter fun row => row.id ∉ delayedIds }

/-- Sets the status of an uncommitted row that still exists. -/
def markOrphan (id : Nat) : Except MetaError SliceTables :=
  if id ∈ tables.uncommittedSlice.map UncommittedSlice.id then
    .ok { tables with
      uncommittedSlice := tables.uncommittedSlice.map fun row =>
        if row.id = id then { row with status := .orphan } else row }
  else
    .error .recordNotUpdated

/-- One row of the loop in `cleanup_orphan_uncommitted_slices`. -/
def cleanupPendingRow (progress : SliceTables × List (Nat × Nat)) (pending : UncommittedSlice) :
    Except MetaError (SliceTables × List (Nat × Nat)) :=
  if pending.sliceId ∈ progress.1.sliceMeta.map SliceDesc.sliceId then
    .ok ({ progress.1 with
      uncommittedSlice := progress.1.uncommittedSlice.filter fun row => row.id ≠ pending.id },
      progress.2)
  else do
    let tables <- progress.1.markOrphan pending.id
    .ok (tables, progress.2 ++ [(pending.sliceId, pending.size)])

/-- The transaction of `cleanup_orphan_uncommitted_slices` on the rows it has
read, and the slices whose blocks are to be deleted. -/
def cleanupOrphanUncommittedSlices (pendingSlices orphanRecords : List UncommittedSlice) :
    Except MetaError (SliceTables × List (Nat × Nat)) := do
  let progress <- pendingSlices.foldlM cleanupPendingRow (tables, [])
  .ok (progress.1, progress.2 ++ orphanRecords.map fun orphan => (orphan.sliceId, orphan.size))

def deleteUncommittedSlices (sliceIds : List Nat) : SliceTables :=
  { tables with
    uncommittedSlice := tables.uncommittedSlice.filter fun row => row.sliceId ∉ sliceIds }

end SliceTables

/-! ## Truncation -/

def chunkIdBase : Nat := 1000000000

/-- The chunk id under which the slices of a file's chunk are kept. -/
def chunkIdFor (ino : Int) (chunkIndex : Nat) : Except MetaError Nat :=
  if ino < 0 then
    .error (.io "inode must be non-negative")
  else if ino.toNat * chunkIdBase + chunkIndex < 2 ^ 64 then
    .ok (ino.toNat * chunkIdBase + chunkIndex)
  else
    .error (.io s!"chunk_id overflow for inode {ino} chunk_index {chunkIndex}")

structure TruncatePlan where
  cutoffChunk : Nat
  cutoffOffset : Nat
  dropStart : Nat
  oldChunkCount : Nat

inductive TrimAction where
  | keep
  | drop
  | truncate (newLength : Nat)

def truncatePlan (newSize oldSize chunkSize : Nat) : Option TruncatePlan :=
  if newSize ≥ oldSize ∨ chunkSize = 0 then
    none
  else
    let cutoffChunk := newSize / chunkSize
    let cutoffOffset := newSize % chunkSize
    some {
      cutoffChunk := cutoffChunk
      cutoffOffset := cutoffOffset
      dropStart := if cutoffOffset = 0 then cutoffChunk else cutoffChunk + 1
      oldChunkCount := oldSize / chunkSize + if oldSize % chunkSize = 0 then 0 else 1 }

def trimAction (offset length cutoffOffset : Nat) : TrimAction :=
  if offset ≥ cutoffOffset then
    .drop
  else if min (offset + length) (2 ^ 64 - 1) > cutoffOffset then
    .truncate (cutoffOffset - offset)
  else
    .keep

/-- What truncation leaves of a row in the chunk of the cutoff. -/
def SliceDesc.trim (cutoffOffset : Nat) (row : SliceDesc) : Option SliceDesc :=
  match trimAction row.offset row.length cutoffOffset with
  | .keep => some row
  | .drop => none
  | .truncate newLength => some { row with length := newLength }

namespace SliceTables

/-- A chunk id in a column of signed integers. -/
def chunkColumn (ino : Int) (chunkIndex : Nat) : Except MetaError Nat := do
  let chunkId <- chunkIdFor ino chunkIndex
  if chunkId < 2 ^ 63 then .ok chunkId else .error (.internal "chunk_id overflow")

variable (tables : SliceTables)

def rewriteChunk (chunkId cutoffOffset : Nat) : SliceTables :=
  { tables with
    sliceMeta := tables.sliceMeta.filterMap fun row =>
      if row.chunkId = chunkId then row.trim cutoffOffset else some row }

def deleteChunks (startChunkId endChunkId : Nat) : SliceTables :=
  { tables with
    sliceMeta := tables.sliceMeta.filter fun row =>
      ¬ (startChunkId ≤ row.chunkId ∧ row.chunkId < endChunkId) }

/-- The rewrite of the chunk that the new end of the file is in. -/
def trimCutoff (ino : Int) (plan : TruncatePlan) : Except MetaError SliceTables :=
  if plan.cutoffOffset > 0 then do
    let chunkId <- chunkColumn ino plan.cutoffChunk
    .ok (tables.rewriteChunk chunkId plan.cutoffOffset)
  else
    .ok tables

/-- The deletion of the chunks behind it. -/
def dropTail (ino : Int) (plan : TruncatePlan) : Except MetaError SliceTables :=
  if plan.dropStart < plan.oldChunkCount then do
    let startChunkId <- chunkColumn ino plan.dropStart
    let endChunkId <- chunkColumn ino plan.oldChunkCount
    .ok (tables.deleteChunks startChunkId endChunkId)
  else
    .ok tables

/-- What truncation of a file from one size to another does to its slices. -/
def pruneSlicesForTruncate (ino : Int) (newSize oldSize chunkSize : Nat) :
    Except MetaError SliceTables :=
  match truncatePlan newSize oldSize chunkSize with
  | none => .ok tables
  | some plan => do
      let tables <- tables.trimCutoff ino plan
      tables.dropTail ino plan

end SliceTables

end Rk8s.Slayerfs
