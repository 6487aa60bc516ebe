import Rk8s.Lib.Transition
import Rk8s.Slayerfs.Chunk.Compact.Compactor

namespace Rk8s.Slayerfs

open Function Compactor

/-!
# Garbage collection beside compaction

Blocks are deleted in three places.  The collector deletes the blocks of slices
that compaction took out of `slice_meta`, and the blocks of slices that a heavy
compaction recorded as uncommitted and apparently never committed.  A heavy
compaction that fails its version check deletes the blocks it has written.

Any number of heavy compactions, light compactions and collectors run side by
side with the clients.  Each access to the database and to the block store is a
step of its own.  How old a record is does not appear: a collector may select
any of the rows with the right status.  A worker may stop at any point, which
stands for a crash as well as for the errors of its calls.
-/

/-- What remains of a store when a deletion of blocks ends.  A deletion that fails
has removed the blocks `landed` and no others. -/
def BlockStore.deleteBlocks (store : BlockStore) (sliceId blockCount : Nat) :
    Option (List Nat) -> BlockStore
  | none => store.deleteRange (sliceId, 0) blockCount
  | some landed => fun key =>
    if key.1 = sliceId ∧ key.2 < asU32 blockCount ∧ key.2 ∈ landed then none else store key

/-- Only the block size of the collector's configuration matters here. -/
structure BlockGcConfig where
  blockSize : Nat
  blockSize_pos : 0 < blockSize

/-- Where a heavy compaction stands. -/
inductive HeavyPc where
  | idle
  | read (chunkId : Nat) (slices : List SliceDesc)
  | merged (chunkId : Nat) (slices : List SliceDesc) (data : Bytes)
  | named (chunkId : Nat) (slices : List SliceDesc) (data : Bytes) (newSliceId : Nat)
  | writing (chunkId : Nat) (slices : List SliceDesc) (newSliceId : Nat)
      (spans : List (Span .block)) (data : Bytes)
  | confirming (newSliceId : Nat)
  | cleaning (newSliceId : Nat)

/-- Where a collector stands in `run_gc_cycle`. -/
inductive GcPc where
  | idle
  | delayedRead (rows : List DelayedSlice)
  | deletingDelayed (pendingDeletions : List (Nat × Nat × Nat × Nat)) (confirmedIds : List Nat)
  | delayedDone
  | pendingRead (pendingSlices : List UncommittedSlice)
  | orphansRead (pendingSlices orphanRecords : List UncommittedSlice)
  | deletingOrphans (orphans : List (Nat × Nat)) (cleanedSliceIds : List Nat)

/-- The tables and the blocks, the ids that `next_id` has returned, those of them
that clients hold and have not committed, and the workers.  `written` lists every
block that was ever written. -/
structure GcSystem where
  tables : SliceTables
  store : BlockStore
  usedIds : List Nat
  openIds : List Nat
  written : List BlockKey
  heavy : Nat -> HeavyPc
  light : Nat -> Option (Nat × List SliceDesc)
  gc : Nat -> GcPc

namespace GcSystem

inductive ClientAction where
  | allocate (id : Nat)
  | upload (sliceId index offset : Nat) (data : Bytes)
  | commit (chunkId : Nat) (slice : SliceDesc)
  | truncate (ino : Int) (newSize oldSize : Nat)

inductive LightAction where
  | read (chunkId : Nat)
  | replace
  | stop

inductive HeavyAction where
  | read (chunkId : Nat)
  | merge
  | nextId (newSliceId : Nat)
  | recordUncommitted
  | writeBlock
  | replace
  | confirmCommitted
  | cleanupUncommitted (failed : Option (List Nat))
  | stop

inductive GcAction where
  | readDelayed (rows : List DelayedSlice)
  | processDelayed
  | deleteDelayedBlocks (failed : Option (List Nat))
  | confirmDelayed
  | readPending (rows : List UncommittedSlice)
  | readOrphans (rows : List UncommittedSlice)
  | cleanupOrphans
  | deleteOrphanBlocks (failed : Option (List Nat))
  | deleteUncommitted
  | stop

inductive Action where
  | client (action : ClientAction)
  | light (worker : Nat) (action : LightAction)
  | heavy (worker : Nat) (action : HeavyAction)
  | gc (worker : Nat) (action : GcAction)

variable (state : GcSystem)

/-- An id that `next_id` may return. -/
def Fresh (id : Nat) : Prop := id ∉ state.usedIds ∧ id < 2 ^ 63
deriving Decidable

def writeRange (state : GcSystem) (key : BlockKey) (offset : Nat) (data : Bytes) : GcSystem :=
  { state with
    store := state.store.writeRange key offset data
    written := key :: state.written }

variable (worker : Nat)

def setHeavy (pc : HeavyPc) : GcSystem :=
  { state with heavy := update state.heavy worker pc }

def setLight (pc : Option (Nat × List SliceDesc)) : GcSystem :=
  { state with light := update state.light worker pc }

def setGc (pc : GcPc) : GcSystem :=
  { state with gc := update state.gc worker pc }

variable (layout : ChunkLayout) (config : BlockGcConfig)

/-- A client commits a slice whose id it holds, once. -/
def clientStep (state : GcSystem) : ClientAction -> Option GcSystem
  | .allocate id =>
    if state.Fresh id then
      some { state with usedIds := id :: state.usedIds, openIds := id :: state.openIds }
    else
      none
  | .upload sliceId index offset data =>
    if sliceId ∈ state.openIds then
      some (state.writeRange (sliceId, asU32 index) offset data)
    else
      none
  | .commit chunkId slice =>
    if slice.sliceId ∈ state.openIds then
      some { state with
        tables := state.tables.appendSlice chunkId slice
        openIds := state.openIds.filter fun id => id ≠ slice.sliceId }
    else
      none
  | .truncate ino newSize oldSize =>
    match state.tables.pruneSlicesForTruncate ino newSize oldSize layout.chunkSize with
    | .ok tables => some { state with tables := tables }
    | .error _ => none

/-- The replacement that ends a light compaction.  What it takes out is worked out
from the slices as they were read. -/
def replaceCovered (tables : SliceTables) (chunkId : Nat) (slices : List SliceDesc) :
    Except MetaError SliceTables :=
  let replaced := replacedIds slices
  if replaced.isEmpty then
    .ok tables
  else
    tables.replaceSlicesForCompact chunkId [] (SliceDesc.encodeDelayedData slices replaced)

def lightStep (action : LightAction) : Option GcSystem :=
  match action, state.light worker with
  | .read chunkId, none =>
    some (state.setLight worker (some (chunkId, state.tables.getSlices chunkId)))
  | .replace, some (chunkId, slices) =>
    match replaceCovered state.tables chunkId slices with
    | .ok tables => some ({ state with tables := tables }.setLight worker none)
    | .error _ => some (state.setLight worker none)
  | .stop, _ => some (state.setLight worker none)
  | _, _ => none

/-- The versioned replacement that ends a heavy compaction. -/
def replaceMerged (tables : SliceTables) (chunkId : Nat) (slices : List SliceDesc)
    (newSliceId : Nat) : Except MetaError SliceTables :=
  tables.replaceSlicesForCompactWithVersion chunkId
    [mergedSlice layout chunkId newSliceId]
    (SliceDesc.encodeDelayedData slices (slices.map SliceDesc.sliceId)) slices

/-- A step of `compact_heavy_inner`.  After a failed replacement the blocks are
deleted, but the uncommitted record stays. -/
def heavyStep (state : GcSystem) (worker : Nat) (action : HeavyAction) : Option GcSystem :=
  match action, state.heavy worker with
  | .read chunkId, .idle =>
    some (state.setHeavy worker (.read chunkId (state.tables.getSlices chunkId)))
  | .merge, .read chunkId slices =>
    match readAndMergeSlices layout state.store slices
        (List.replicate layout.chunkSize 0) with
    | .ok data => some (state.setHeavy worker (.merged chunkId slices data))
    | .error _ => some (state.setHeavy worker .idle)
  | .nextId newSliceId, .merged chunkId slices data =>
    if state.Fresh newSliceId then
      some ({ state with usedIds := newSliceId :: state.usedIds }.setHeavy worker
        (.named chunkId slices data newSliceId))
    else
      none
  | .recordUncommitted, .named chunkId slices data newSliceId =>
    some ({ state with
      tables := state.tables.recordUncommittedSlice newSliceId chunkId layout.chunkSize
      }.setHeavy worker (.writing chunkId slices newSliceId
        (blockSpanIterRange 0 data.length layout) data))
  | .writeBlock, .writing chunkId slices newSliceId (span :: spans) data =>
    let take := min span.len data.length
    some ((state.writeRange (newSliceId, asU32 span.index) span.offset
      (data.take take)).setHeavy worker
        (.writing chunkId slices newSliceId spans (data.drop take)))
  | .replace, .writing chunkId slices newSliceId [] _ =>
    match replaceMerged layout state.tables chunkId slices newSliceId with
    | .ok tables =>
      some ({ state with tables := tables }.setHeavy worker (.confirming newSliceId))
    | .error _ => some (state.setHeavy worker (.cleaning newSliceId))
  | .confirmCommitted, .confirming newSliceId =>
    some ({ state with tables := state.tables.confirmSliceCommitted newSliceId }.setHeavy
      worker .idle)
  | .cleanupUncommitted failed, .cleaning newSliceId =>
    some ({ state with
      store := state.store.deleteBlocks newSliceId
        (divCeil layout.chunkSize layout.blockSize) failed }.setHeavy worker .idle)
  | .stop, _ => some (state.setHeavy worker .idle)
  | _, _ => none

/-- A step of `run_gc_cycle`.  Slices whose blocks could not be deleted are not
confirmed and keep their records. -/
def gcStep (state : GcSystem) (worker : Nat) (action : GcAction) : Option GcSystem :=
  match action, state.gc worker with
  | .readDelayed rows, .idle =>
    if rows ⊆ state.tables.delayedSlice then
      some (state.setGc worker (.delayedRead rows))
    else
      none
  | .processDelayed, .delayedRead rows =>
    let processed := state.tables.processDelayedSlices rows
    some ({ state with tables := processed.1 }.setGc worker (.deletingDelayed processed.2 []))
  | .deleteDelayedBlocks failed,
    .deletingDelayed ((sliceId, _, size, delayedId) :: pendingDeletions) confirmedIds =>
      if size = 0 then
        some (state.setGc worker
          (.deletingDelayed pendingDeletions (confirmedIds ++ [delayedId])))
      else
        some ({ state with
          store := state.store.deleteBlocks sliceId (divCeil size config.blockSize) failed
          }.setGc worker (.deletingDelayed pendingDeletions
            (if failed.isNone then confirmedIds ++ [delayedId] else confirmedIds)))
  | .confirmDelayed, .deletingDelayed [] confirmedIds =>
    some ({ state with
      tables := state.tables.confirmDelayedDeleted confirmedIds }.setGc worker .delayedDone)
  | .readPending rows, .delayedDone =>
    if forall row, row ∈ rows -> row ∈ state.tables.uncommittedSlice ∧ row.status = .pending then
      some (state.setGc worker (.pendingRead rows))
    else
      none
  | .readOrphans rows, .pendingRead pendingSlices =>
    if forall row, row ∈ rows -> row ∈ state.tables.uncommittedSlice ∧ row.status = .orphan then
      some (state.setGc worker (.orphansRead pendingSlices rows))
    else
      none
  | .cleanupOrphans, .orphansRead pendingSlices orphanRecords =>
    match state.tables.cleanupOrphanUncommittedSlices pendingSlices orphanRecords with
    | .ok (tables, orphans) =>
      some ({ state with tables := tables }.setGc worker (.deletingOrphans orphans []))
    | .error _ => some (state.setGc worker .idle)
  | .deleteOrphanBlocks failed, .deletingOrphans ((sliceId, size) :: orphans) cleanedSliceIds =>
    some ({ state with
      store := state.store.deleteBlocks sliceId (divCeil size config.blockSize) failed
      }.setGc worker (.deletingOrphans orphans
        (if failed.isNone then cleanedSliceIds ++ [sliceId] else cleanedSliceIds)))
  | .deleteUncommitted, .deletingOrphans [] cleanedSliceIds =>
    some ({ state with
      tables := state.tables.deleteUncommittedSlices cleanedSliceIds }.setGc worker .idle)
  | .stop, _ => some (state.setGc worker .idle)
  | _, _ => none

def step (state : GcSystem) : Action -> Option GcSystem
  | .client action => clientStep layout state action
  | .light worker action => lightStep state worker action
  | .heavy worker action => heavyStep layout state worker action
  | .gc worker action => gcStep config state worker action

def initial : GcSystem :=
  ⟨⟨[], [], 0, [], 0⟩, fun _ => none, [], [], [], fun _ => .idle, fun _ => none, fun _ => .idle⟩

/-- Every block written for a slice of `slice_meta` is in the store. -/
def KeepsLiveBlocks : Prop :=
  forall row, row ∈ state.tables.sliceMeta ->
    forall key, key ∈ state.written -> key.1 = row.sliceId -> (state.store key).isSome

end GcSystem

end Rk8s.Slayerfs
