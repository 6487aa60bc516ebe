import Rk8s.Lib.Collections
import Rk8s.Lib.Slots
import Rk8s.Slayerfs.Meta.SliceTables
import Rk8s.Slayerfs.Vfs.ChunkWriter

namespace Rk8s.Slayerfs

open Function

/-!
# The writer of a file

A `FileWriter` keeps one entry for every chunk with buffered slices.  `write_at`
creates the entry of a chunk when it writes to it, and starts a commit task with
the first slice.  The task removes the entry when it has committed the last
slice, and `clear` removes all entries at once.

Any number of calls and tasks run at the same time.  They take turns at the lock
of the writer; `locked` is the span write that holds it, and all other holders
release it in the step that takes it.  Slices have their own locks, so freezing,
uploading and releasing a slice also happen while a span is being written.
-/

/-- The entry of a chunk.  Slices are named by keys, which stand for the shared
pointers to them. -/
structure ChunkState where
  slices : List Nat
  commitStarted : Bool
deriving DecidableEq

namespace ChunkState

def new : ChunkState := ⟨[], false⟩

end ChunkState

/-- A call of `write_at`: the spans it has not written yet and the rest of its buffer. -/
structure WriteCall where
  spans : List (Span .chunk)
  buf : Bytes

/-- The span write that holds the lock of the writer. -/
structure SpanWrite where
  call : Nat
  chunkId : Nat
  startCommit : Bool
  pc : WriterPc

/-- Where a call of `flush` is.  The slices it freezes are frozen by steps of theirs. -/
inductive FlushPc where
  | waiting
  | leaving
  | finished
deriving DecidableEq

/-- Where a call of `clear` is; `releasing` has the slices that are still to be released. -/
inductive ClearPc where
  | releasing (keys : List Nat)
  | finished
deriving DecidableEq

/-- A spawned `commit_chunk`. -/
structure CommitTask where
  chunkId : Nat
  pc : CommitPc
deriving DecidableEq

namespace CommitTask

/-- The task has not returned. -/
def Live (task : CommitTask) : Prop := task.pc ≠ .stopped
deriving Decidable

end CommitTask

/-- The last three fields are not part of the program: the slices whose metadata
was written, those that commit tasks took off a queue with the length they had,
and those that were dropped by `clear`. -/
structure FileWriter where
  cells : Nat -> SliceCell
  nextKey : Nat
  chunks : AList fun _ : Nat => ChunkState
  flushWaiting : Nat
  backend : SliceCell.Backend
  locked : Option SpanWrite
  writes : List WriteCall
  flushes : List FlushPc
  clears : List ClearPc
  tasks : List CommitTask
  committed : List Nat
  popped : List (Nat × Nat)
  cleared : List Nat

namespace FileWriter

/-- `scan`, `tryWrite` and `finishWrite` are steps of the span write that holds
the lock; the others name the call, the slice or the task that takes the step. -/
inductive Action where
  | beginWrite (offset : Nat) (buf : Bytes)
  | nextSpan (call : Nat)
  | scan
  | tryWrite
  | finishWrite
  | cell (key : Nat) (action : SliceCell.Action)
  | beginFlush
  | leaveFlush (call : Nat) (timeout : Bool)
  | endFlush (call : Nat)
  | beginClear
  | releaseSlice (call : Nat)
  | endClear (call : Nat)
  | commit (task : Nat)
  | failCommit (task : Nat)

variable (state : FileWriter)

def setSlice (key : Nat) (slice : SliceState) : FileWriter :=
  { state with cells := update state.cells key { state.cells key with slice := slice } }

def getOrCreateChunk (chunkId : Nat) : FileWriter :=
  match state.chunks.lookup chunkId with
  | some _ => state
  | none => { state with chunks := state.chunks.insert chunkId ChunkState.new }

/-- The slices of an entry, oldest first. -/
def queue (chunkId : Nat) : List Nat :=
  (state.chunks.lookup chunkId).elim [] ChunkState.slices

def commitStarted (state : FileWriter) (chunkId : Nat) : Bool :=
  (state.chunks.lookup chunkId).elim false ChunkState.commitStarted

/-- All buffered slices. -/
def buffered : List Nat :=
  state.chunks.entries.flatMap fun entry => entry.2.slices

theorem mem_buffered_iff {state : FileWriter} {key : Nat} :
    key ∈ state.buffered ↔ ∃ chunkId chunk,
      state.chunks.lookup chunkId = some chunk ∧ key ∈ chunk.slices := by
  simp only [buffered, List.mem_flatMap, Sigma.exists, ← AList.mem_lookup_iff, Option.mem_def]

/-- A call of `write_at` returns with an error; the lock is released. -/
def endWrite (call : Nat) : FileWriter :=
  { state with writes := state.writes.set call ⟨[], []⟩, locked := none }

variable (config : WriteConfig) (ino : Int)

/-- The part of `write_at` from one acquisition of the lock to the first scan.
The queue was taken out of the entry when the length of the write is checked. -/
def lockSpan (state : FileWriter) (call : Nat) (span : Span .chunk) (rest : WriteCall) (buf : Bytes) :
    FileWriter :=
  match chunkIdFor ino span.index with
  | .error _ => state.endWrite call
  | .ok chunkId =>
    let state := state.getOrCreateChunk chunkId
    if span.offset + buf.length ≤ config.layout.chunkSize then
      { state with
        writes := state.writes.set call rest
        locked := some ⟨call, chunkId, false,
          .scanning span.offset buf (state.queue chunkId).reverse 0⟩ }
    else
      { state.endWrite call with
        chunks := state.chunks.insert chunkId ⟨[], state.commitStarted chunkId⟩ }

/-- The next span of a call. -/
def takeSpan (state : FileWriter) (call : Nat) : WriteCall -> FileWriter
  | ⟨[], _⟩ => state
  | ⟨span :: spans, buf⟩ =>
    state.lockSpan config ino call span ⟨spans, buf.drop span.len⟩ (buf.take span.len)

/-- The end of `find_slice_or_create`: the commit task starts with the first slice. -/
def found (hold : SpanWrite) (offset : Nat) (buf : Bytes) (key : Nat) : FileWriter :=
  match state.chunks.lookup hold.chunkId with
  | none => state.endWrite hold.call
  | some chunk =>
    if chunk.commitStarted = false ∧ chunk.slices ≠ [] then
      { state with
        chunks := state.chunks.insert hold.chunkId { chunk with commitStarted := true }
        locked := some { hold with startCommit := true, pc := .trying offset buf key } }
    else
      { state with locked := some { hold with pc := .trying offset buf key } }

/-- A new slice at the back of the queue. -/
def create (state : FileWriter) (chunkId offset : Nat) : FileWriter :=
  { state with
    cells := update state.cells state.nextKey ⟨SliceState.new config chunkId offset, none⟩
    nextKey := state.nextKey + 1
    chunks :=
      match state.chunks.lookup chunkId with
      | none => state.chunks
      | some chunk =>
        state.chunks.insert chunkId { chunk with slices := chunk.slices ++ [state.nextKey] } }

/-- One round of the loop in `find_slice_or_create`. -/
def scan (state : FileWriter) (hold : SpanWrite) (offset : Nat) (buf : Bytes) :
    List Nat -> Nat -> FileWriter
  | [], _ => (state.create config hold.chunkId offset).found hold offset buf state.nextKey
  | key :: remaining, idx =>
    if ((state.cells key).slice.canWrite config offset buf.length).isSome then
      state.found hold offset buf key
    else
      let state :=
        if idx > maxUnflushedSlices then
          state.setSlice key ((state.cells key).slice.freeze config).1
        else
          state
      { state with locked := some { hold with pc := .scanning offset buf remaining (idx + 1) } }

/-- `try_write` on the slice that was found; a refused write starts over. -/
def tryWrite (state : FileWriter) (hold : SpanWrite) (offset : Nat) (buf : Bytes) (key : Nat) :
    FileWriter :=
  match (state.cells key).slice.tryWrite config offset buf with
  | (slice, .wrote) =>
    { state.setSlice key slice with locked := some { hold with pc := .wrote key } }
  | (slice, .refused) =>
    { state.setSlice key slice with
      locked := some { hold with
        pc := .scanning offset buf (state.queue hold.chunkId).reverse 0 } }
  | (slice, .error) => (state.setSlice key slice).endWrite hold.call

/-- The slice is frozen when it has reached the end of the chunk, unless it has
full blocks to upload. -/
def freezeFull (state : FileWriter) (key : Nat) : FileWriter :=
  let slice := (state.cells key).slice
  if slice.canContinueUpload config then state
  else if slice.shouldFreeze config then state.setSlice key (slice.freeze config).1
  else state

/-- The end of a span write: the lock is released, and the commit task spawned. -/
def finishWrite (state : FileWriter) (hold : SpanWrite) (key : Nat) : FileWriter :=
  let state := state.freezeFull config key
  { state with
    locked := none
    tasks := state.tasks ++ if hold.startCommit then [⟨hold.chunkId, .front⟩] else [] }

def setPc (index : Nat) (task : CommitTask) (pc : CommitPc) : FileWriter :=
  { state with tasks := state.tasks.set index { task with pc := pc } }

/-- The end of a round of `commit_chunk`: whatever is at the front is taken off. -/
def popFront (index : Nat) (task : CommitTask) : FileWriter :=
  match state.chunks.lookup task.chunkId with
  | none => state.setPc index task .stopped
  | some chunk =>
    let state :=
      { state with
        popped := state.popped ++
          chunk.slices.head?.toList.map fun key => (key, (state.cells key).slice.data.len) }
    if chunk.slices.tail = [] then
      { state.setPc index task .stopped with chunks := state.chunks.erase task.chunkId }
    else
      { state.setPc index task .front with
        chunks := state.chunks.insert task.chunkId { chunk with slices := chunk.slices.tail } }

/-- The next step of a commit task, with a successful metadata write. -/
def commit (index : Nat) (task : CommitTask) : Option FileWriter :=
  match task.pc with
  | .stopped => none
  | .front =>
    if state.locked = none then
      match state.chunks.lookup task.chunkId with
      | none => some (state.setPc index task .stopped)
      | some chunk => some (state.setPc index task (chunk.slices.head?.elim .removing .checking))
    else
      none
  | .removing =>
    if state.locked = none then
      some { state.setPc index task .stopped with chunks := state.chunks.erase task.chunkId }
    else
      none
  | .checking key =>
    some (state.setPc index task (ChunkWriter.snapshot (state.cells key).slice key))
  | .describing key =>
    match (state.cells key).slice.descForCommit with
    | some desc => some (state.setPc index task (.writing key desc))
    | none => some (state.setPc index task (.popping key))
  | .writing key _ =>
    some { state.setPc index task (.marking key) with committed := key :: state.committed }
  | .marking key =>
    some ((state.setSlice key (state.cells key).slice.markCommitted).setPc index task
      (.popping key))
  | .popping _ => if state.locked = none then some (state.popFront index task) else none

/-- The slice loses its pages; its length stays. -/
def release (key : Nat) : FileWriter :=
  state.setSlice key { (state.cells key).slice with data := (state.cells key).slice.data.releaseAll }

def step (state : FileWriter) : Action -> Option FileWriter
  | .beginWrite offset buf =>
    if state.locked = none ∧ state.flushWaiting = 0 then
      let call : WriteCall := ⟨splitChunkSpans config.layout offset buf.length, buf⟩
      some ({ state with writes := state.writes ++ [call] }.takeSpan config ino
        state.writes.length call)
    else
      none
  | .nextSpan call =>
    if state.locked = none then
      state.writes[call]?.map (state.takeSpan config ino call)
    else
      none
  | .scan => do
      let hold <- state.locked
      match hold.pc with
      | .scanning offset buf remaining idx =>
        some (state.scan config hold offset buf remaining idx)
      | _ => none
  | .tryWrite => do
      let hold <- state.locked
      match hold.pc with
      | .trying offset buf key => some (state.tryWrite config hold offset buf key)
      | _ => none
  | .finishWrite => do
      let hold <- state.locked
      match hold.pc with
      | .wrote key => some (state.finishWrite config hold key)
      | _ => none
  | .cell key action =>
    if key < state.nextKey then
      ((state.cells key).step config state.backend action).map fun (cell, backend) =>
        { state with cells := update state.cells key cell, backend := backend }
    else
      none
  | .beginFlush =>
    if state.locked = none then
      some { state with
        flushWaiting := state.flushWaiting + 1, flushes := state.flushes ++ [.waiting] }
    else
      none
  | .leaveFlush call timeout =>
    if state.flushes[call]? = some .waiting ∧
        (timeout = true ∨ state.locked = none ∧ state.chunks.entries = []) then
      some { state with flushes := state.flushes.set call .leaving }
    else
      none
  | .endFlush call =>
    if state.flushes[call]? = some .leaving ∧ state.locked = none then
      some { state with
        flushWaiting := state.flushWaiting - 1, flushes := state.flushes.set call .finished }
    else
      none
  | .beginClear =>
    if state.locked = none then
      some { state with clears := state.clears ++ [.releasing state.buffered] }
    else
      none
  | .releaseSlice call =>
    match state.clears[call]? with
    | some (.releasing (key :: keys)) =>
      some { state.release key with clears := state.clears.set call (.releasing keys) }
    | _ => none
  | .endClear call =>
    if state.clears[call]? = some (.releasing []) ∧ state.locked = none then
      some { state with
        chunks := ∅
        cleared := state.cleared ++ state.buffered
        clears := state.clears.set call .finished }
    else
      none
  | .commit index => state.tasks[index]?.bind (state.commit index)
  | .failCommit index => do
      let task <- state.tasks[index]?
      match task.pc with
      | .writing _ _ => some (state.setPc index task .front)
      | _ => none

/-- A writer with nothing buffered. -/
def initial (store : BlockStore) (usedIds : List Nat) : FileWriter where
  cells _ := ⟨SliceState.new config 0 0, none⟩
  nextKey := 0
  chunks := ∅
  flushWaiting := 0
  backend := ⟨store, usedIds⟩
  locked := none
  writes := []
  flushes := []
  clears := []
  tasks := []
  committed := []
  popped := []
  cleared := []

end FileWriter

end Rk8s.Slayerfs
