import Rk8s.Lib.Transition
import Rk8s.Slayerfs.Chunk.Reader
import Rk8s.Slayerfs.Vfs.SliceCell

namespace Rk8s.Slayerfs

open Function

/-!
# The write path of one chunk

`ChunkHandle::write_at` puts a buffer into a slice of the chunk: the newest one
that can take it, or a new one at the back of the queue.  Slices are uploaded in
the background, and the commit task appends the front slice to the metadata once
it is uploaded.  A reader sees the committed slices in commit order.

The state machine interleaves one caller of `write_at`, the steps of every slice
and the commit task.  The caller holds the lock of the writer from the start of
the scan to the end of the write, so the commit task cannot look at or pop the
front in between; freezing and uploading need no such lock.

A buffered slice may take a write although a newer slice has bytes in the same
place.  The newer slice is committed later and wins, so the last write can be
lost.
-/

/-- Slices further from the back than this are frozen by a scan. -/
def maxUnflushedSlices : Nat := 3

/-- Where the caller of `write_at` is. -/
inductive WriterPc where
  | idle
  | scanning (offset : Nat) (buf : Bytes) (remaining : List Nat) (idx : Nat)
  | trying (offset : Nat) (buf : Bytes) (key : Nat)
  | wrote (key : Nat)
deriving DecidableEq

/-- Where the commit task is. -/
inductive CommitPc where
  | stopped
  | front
  | removing
  | checking (key : Nat)
  | describing (key : Nat)
  | writing (key : Nat) (desc : SliceDesc)
  | marking (key : Nat)
  | popping (key : Nat)
deriving DecidableEq

/-- One chunk of a writer, the block store and the metadata of the chunk.  The
keys of the queue stand for the shared pointers to the slices. -/
structure ChunkWriter where
  cells : Nat -> SliceCell
  nextKey : Nat
  queue : List Nat
  commitStarted : Bool
  backend : SliceCell.Backend
  committed : List SliceDesc
  writer : WriterPc
  committer : CommitPc

namespace ChunkWriter

inductive Action where
  | beginWrite (offset : Nat) (buf : Bytes)
  | scan
  | tryWrite
  | finishWrite
  | cell (key : Nat) (action : SliceCell.Action)
  | commitFront
  | commitRemove
  | commitSnapshot
  | commitDescribe
  | commitWrite (ok : Bool)
  | commitMark
  | commitPop

variable (state : ChunkWriter)

def setSlice (key : Nat) (slice : SliceState) : ChunkWriter :=
  { state with cells := update state.cells key { state.cells key with slice := slice } }

@[simp] theorem setSlice_cells_self (key : Nat) (slice : SliceState) :
    (state.setSlice key slice).cells key = { state.cells key with slice := slice } :=
  update_self ..

theorem setSlice_cells_of_ne {state : ChunkWriter} {key other : Nat} {slice : SliceState}
    (different : other ≠ key) : (state.setSlice key slice).cells other = state.cells other :=
  update_of_ne different ..

/-- The end of `find_slice_or_create`: the commit task starts with the first slice. -/
def found (offset : Nat) (buf : Bytes) (key : Nat) : ChunkWriter :=
  let state := { state with writer := .trying offset buf key }
  if state.commitStarted = false ∧ state.queue ≠ [] then
    { state with commitStarted := true, committer := .front }
  else
    state

variable (config : WriteConfig) (chunkId : Nat)

/-- A new slice at the back of the queue. -/
def create (state : ChunkWriter) (offset : Nat) : ChunkWriter :=
  { state with
    cells := update state.cells state.nextKey ⟨SliceState.new config chunkId offset, none⟩
    nextKey := state.nextKey + 1
    queue := state.queue ++ [state.nextKey] }

@[simp] theorem create_cells_nextKey (state : ChunkWriter) (offset : Nat) :
    (state.create config chunkId offset).cells state.nextKey =
      ⟨SliceState.new config chunkId offset, none⟩ :=
  update_self ..

variable {config chunkId} in
theorem create_cells_of_ne {state : ChunkWriter} {offset key : Nat} (old : key ≠ state.nextKey) :
    (state.create config chunkId offset).cells key = state.cells key :=
  update_of_ne old ..

/-- One round of the loop in `find_slice_or_create`. -/
def scan (state : ChunkWriter) (offset : Nat) (buf : Bytes) :
    List Nat -> Nat -> ChunkWriter
  | [], _ => (state.create config chunkId offset).found offset buf state.nextKey
  | key :: remaining, idx =>
    if ((state.cells key).slice.canWrite config offset buf.length).isSome then
      state.found offset buf key
    else
      let state :=
        if idx > maxUnflushedSlices then
          state.setSlice key ((state.cells key).slice.freeze config).1
        else
          state
      { state with writer := .scanning offset buf remaining (idx + 1) }

/-- `try_write` on the slice that was found; a refused write starts over. -/
def tryWrite (state : ChunkWriter) (offset : Nat) (buf : Bytes) (key : Nat) : ChunkWriter :=
  match (state.cells key).slice.tryWrite config offset buf with
  | (slice, .wrote) => { state.setSlice key slice with writer := .wrote key }
  | (slice, .refused) =>
    { state.setSlice key slice with writer := .scanning offset buf state.queue.reverse 0 }
  | (slice, .error) => { state.setSlice key slice with writer := .idle }

/-- The slice is frozen when it has reached the end of the chunk, unless it has
full blocks to upload. -/
def finishWrite (state : ChunkWriter) (key : Nat) : ChunkWriter :=
  let slice := (state.cells key).slice
  let state := { state with writer := .idle }
  if slice.canContinueUpload config then state
  else if slice.shouldFreeze config then state.setSlice key (slice.freeze config).1
  else state

/-- What the commit task does with a snapshot of the front slice. -/
def snapshot (slice : SliceState) (key : Nat) : CommitPc :=
  if slice.state = .failed then .front
  else if slice.state = .writable ∨ slice.state = .readonly then .front
  else if slice.state = .uploaded ∧ slice.err = none then .describing key
  else if slice.state = .committed then .popping key
  else .front

def step (state : ChunkWriter) : Action -> Option ChunkWriter
  | .beginWrite offset buf =>
    if state.writer = .idle then
      if offset + buf.length ≤ config.layout.chunkSize then
        some { state with writer := .scanning offset buf state.queue.reverse 0 }
      else
        -- the queue was taken out of the chunk before the length was checked
        some { state with queue := [] }
    else
      none
  | .scan =>
    match state.writer with
    | .scanning offset buf remaining idx =>
      some (state.scan config chunkId offset buf remaining idx)
    | _ => none
  | .tryWrite =>
    match state.writer with
    | .trying offset buf key => some (state.tryWrite config offset buf key)
    | _ => none
  | .finishWrite =>
    match state.writer with
    | .wrote key => some (state.finishWrite config key)
    | _ => none
  | .cell key action =>
    if key < state.nextKey then
      ((state.cells key).step config state.backend action).map fun (cell, backend) =>
        { state with cells := update state.cells key cell, backend := backend }
    else
      none
  | .commitFront =>
    if state.committer = .front ∧ state.writer = .idle then
      some { state with committer := state.queue.head?.elim .removing .checking }
    else
      none
  | .commitRemove =>
    if state.committer = .removing ∧ state.writer = .idle then
      some { state with queue := [], commitStarted := false, committer := .stopped }
    else
      none
  | .commitSnapshot =>
    match state.committer with
    | .checking key => some { state with committer := snapshot (state.cells key).slice key }
    | _ => none
  | .commitDescribe =>
    match state.committer with
    | .describing key =>
      match (state.cells key).slice.descForCommit with
      | some desc => some { state with committer := .writing key desc }
      | none => some { state with committer := .popping key }
    | _ => none
  | .commitWrite ok =>
    match state.committer with
    | .writing key desc =>
      if ok then
        some { state with committed := state.committed ++ [desc], committer := .marking key }
      else
        some { state with committer := .front }
    | _ => none
  | .commitMark =>
    match state.committer with
    | .marking key =>
      some { state.setSlice key (state.cells key).slice.markCommitted with
        committer := .popping key }
    | _ => none
  | .commitPop =>
    match state.committer with
    | .popping _ =>
      if state.writer = .idle then
        if state.queue.tail = [] then
          some { state with queue := [], commitStarted := false, committer := .stopped }
        else
          some { state with queue := state.queue.tail, committer := .front }
      else
        none
    | _ => none

/-- A chunk with the given metadata and nothing buffered. -/
def initial (store : BlockStore) (usedIds : List Nat) (committed : List SliceDesc) :
    ChunkWriter where
  cells _ := ⟨SliceState.new config chunkId 0, none⟩
  nextKey := 0
  queue := []
  commitStarted := false
  backend := ⟨store, usedIds⟩
  committed := committed
  writer := .idle
  committer := .stopped

end ChunkWriter

end Rk8s.Slayerfs
