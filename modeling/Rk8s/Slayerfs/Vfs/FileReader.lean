import Rk8s.Lib.Slots
import Rk8s.Lib.Transition
import Rk8s.Slayerfs.Chunk.Reader
import Rk8s.Slayerfs.Meta.SliceTables

namespace Rk8s.Slayerfs

/-!
# The read cache of a file

A `FileReader` keeps fetched ranges of the file in a queue of cached slices.
`read_at` pins the slices that overlap its range and creates slices for the
rest; a background task fetches each of them.  It then collects the slices of
every chunk, waits for each to be ready and copies its part into the buffer.
Writers call `invalidate` for the ranges they have committed: pinned slices are
fetched again, the others are dropped.

The steps below are the critical sections of these functions.  A pass over the
queue is one step, since it holds the lock of the queue and steps on single
slices commute with it.  Waiting for a slice and copying from it are two steps.
-/

/-- The `SliceStatus` of the read path. -/
inductive ReadStatus where
  | new
  | busy
  | ready
  | invalid
  | refresh
deriving DecidableEq

/-- The `SliceState` of the read path.  The last two fields are not part of the
program: the number of invalidations of the file when the last one overlapped
the slice, and when the metadata for the page was read. -/
structure ReadSlice where
  index : Nat
  range : Nat × Nat
  page : Bytes
  state : ReadStatus
  err : Option String
  generation : Nat
  refs : Nat
  lastAccess : Nat
  invalidatedAt : Nat
  readAt : Nat

/-- The reference count is a `u16`. -/
def maxRefs : Nat := 65535

namespace ReadSlice

def new (index : Nat) (range : Nat × Nat) (refs now : Nat) : ReadSlice where
  index := index
  range := range
  page := []
  state := .new
  err := none
  generation := 0
  refs := refs
  lastAccess := now
  invalidatedAt := 0
  readAt := 0

variable (slice : ReadSlice)

def inFlight : Bool :=
  slice.state == .refresh || slice.state == .new || slice.state == .busy

def rangeToFile (chunkSize : Nat) : Nat × Nat :=
  (slice.index * chunkSize + slice.range.1, slice.index * chunkSize + slice.range.2)

def overlaps (offset len : Nat) : Bool :=
  slice.range.1 < offset + len && offset < slice.range.2

/-- `refs.saturating_add(1)` by a reader that needs the slice. -/
def pin (now : Nat) : ReadSlice :=
  { slice with refs := min (slice.refs + 1) maxRefs, lastAccess := now }

/-- `refs.saturating_sub(1)` when a pin is dropped. -/
def unpin : ReadSlice := { slice with refs := slice.refs - 1 }

/-- The result of a fetch. -/
def install (readAt : Nat) : Except String Bytes -> ReadSlice
  | .ok out => { slice with state := .ready, page := out, err := none, readAt := readAt }
  | .error message => { slice with state := .invalid, page := [], err := some message }

end ReadSlice

/-! ## Sessions -/

structure ReadConfig where
  layout : ChunkLayout
  bufferSize : Nat
  maxAhead : Nat

namespace ReadConfig

variable (config : ReadConfig)

def totalAheadLimit : Nat :=
  if config.bufferSize > 0 then config.bufferSize * 8 / 10 else 256 * 1024 * 1024

def aheadLimit : Nat := min config.maxAhead config.totalAheadLimit

/-- `max_slice_amount` for the two sessions of a reader. -/
def maxSliceAmount : Nat :=
  config.aheadLimit / config.layout.blockSize * 2 + 1

end ReadConfig

/-- The read pattern that a reader has seen. -/
structure Session where
  ahead : Nat
  lastOff : Nat
  total : Nat
  atime : Nat

namespace Session

def reset (off now : Nat) : Session := ⟨0, off, 0, now⟩

variable (session : Session)

def update (off len now : Nat) : Session :=
  if off + len > session.lastOff then
    { session with
      total := session.total + (off + len - session.lastOff), lastOff := off + len, atime := now }
  else
    { session with atime := now }

def window (blockSize : Nat) : Nat × Nat :=
  (session.lastOff - max (session.ahead / 8) blockSize,
    session.lastOff + session.ahead * 2 + blockSize * 2)

def updateAhead (blockSize maxAhead totalAheadLimit usage offset len : Nat) : Session :=
  let ahead := session.ahead
  if ahead = 0 ∧ blockSize ≤ maxAhead ∧ (offset = 0 ∨ session.total > len) then
    { session with ahead := blockSize }
  else if ahead < maxAhead ∧ session.total ≥ ahead ∧ totalAheadLimit > usage + ahead * 4 then
    { session with ahead := ahead * 2 }
  else if ahead ≥ blockSize ∧ (totalAheadLimit < usage + ahead / 2 ∨ session.total < ahead / 4) then
    { session with ahead := ahead / 2 }
  else
    session

end Session

/-- The two sessions of a reader. -/
abbrev Sessions := Fin 2 -> Session

namespace Sessions

/-- The candidate that `pick` prefers, then the other one. -/
def firstMatch (sat : Session -> Bool) (sessions : Sessions) (pick : Fin 2) : Option (Fin 2) :=
  if sat (sessions pick) then some pick
  else if sat (sessions (1 - pick)) then some (1 - pick)
  else none

variable (sessions : Sessions)

def selectForwardSessionMatch (blockSize offset : Nat) : Option (Fin 2) :=
  firstMatch
    (fun session =>
      session.lastOff ≤ offset && offset ≤ session.lastOff + session.ahead + blockSize)
    sessions (if (sessions 0).lastOff > (sessions 1).lastOff then 0 else 1)

def selectBackSessionMatch (blockSize offset : Nat) : Option (Fin 2) :=
  firstMatch
    (fun session =>
      offset < session.lastOff &&
        offset ≥ session.lastOff - max (session.ahead / 8) blockSize)
    sessions (if (sessions 0).lastOff < (sessions 1).lastOff then 0 else 1)

/-- An unused session, or the older one, which is started anew. -/
def selectSessionFallback (offset now : Nat) : Sessions × Fin 2 :=
  if (sessions 0).total = 0 then (sessions, 0)
  else if (sessions 1).total = 0 then (sessions, 1)
  else
    let oldest := if (sessions 0).atime < (sessions 1).atime then 0 else 1
    (Function.update sessions oldest (Session.reset offset now), oldest)

/-- The fallback is evaluated, with its reset, also when a session matches. -/
def checkSession (config : ReadConfig) (usage offset len now : Nat) : Sessions × Nat :=
  let blockSize := config.layout.blockSize
  let matched := (selectForwardSessionMatch sessions blockSize offset).orElse fun _ =>
    selectBackSessionMatch sessions blockSize offset
  let (sessions, fallback) := selectSessionFallback sessions offset now
  let selected := matched.getD fallback
  let session := ((sessions selected).update offset len now).updateAhead blockSize
    config.aheadLimit config.totalAheadLimit usage offset len
  (Function.update sessions selected session, session.ahead)

end Sessions

/-! ## The state of a reader -/

/-- Where a fetch task is.  `started` has taken the generation of the slice,
`prepared` the slice list of the chunk, and `fetched` the bytes or an error. -/
inductive FetchPc where
  | queued
  | started (generation : Nat)
  | prepared (generation readAt : Nat) (slices : List SliceDesc)
  | fetched (generation readAt : Nat) (result : Except String Bytes)
  | finished

structure FetchTask where
  key : Nat
  pc : FetchPc

/-- A byte of the buffer.  `source` is the status of the slice at the moment the
byte was copied from it; a byte without source is still the caller's. -/
structure ReadByte where
  value : UInt8
  source : Option ReadStatus
deriving DecidableEq

inductive ReadResult where
  | ok (n : Nat)
  | error (message : String)
  | panicked
deriving DecidableEq

/-- Where a call of `read_at` is.  While a span is read, the position has the
segment of the buffer, the slices still to be visited and the spans after it. -/
inductive ReadPc where
  | cleaning
  | pressing
  | preparing (todo : List (Span .chunk))
  | ahead (todo : List (Span .chunk))
  | collecting (spans : List (Span .chunk))
  | visiting (span : Span .chunk) (seg : List ReadByte) (slices : List Nat)
      (spans : List (Span .chunk))
  | copying (span : Span .chunk) (seg : List ReadByte) (key : Nat) (slices : List Nat)
      (spans : List (Span .chunk))
  | unpinning (result : ReadResult)
  | cleanup (result : ReadResult)
  | returned (result : ReadResult)
deriving DecidableEq

/-- A call of `read_at`: the range it reads, the slices it has pinned and the
finished part of the buffer. -/
structure ReadCall where
  offset : Nat
  len : Nat
  pins : List Nat
  out : List ReadByte
  pc : ReadPc

/-- One open handle of a file.  `chunkSlices` and `store` are the metadata and the
blocks as the fetch tasks find them; `invalidations` counts the calls of
`invalidate` and is not part of the program. -/
structure FileReader where
  cells : Nat -> ReadSlice
  nextKey : Nat
  slices : List Nat
  sessions : Sessions
  tasks : List FetchTask
  reads : List ReadCall
  chunkSlices : Nat -> List SliceDesc
  store : BlockStore
  invalidations : Nat

namespace FileReader

/-- The steps of a call of `read_at`.  The clock, in milliseconds, and the memory
usage of the process are read from outside. -/
inductive ReadAction where
  | clean (now : Nat)
  | backPressure (ok : Bool)
  | prepare (now : Nat)
  | checkSession (usage now : Nat)
  | collect
  | visit
  | copy (now : Nat)
  | unpin
  | cleanup

/-- `publish` and `putBlock` are what writers do to the metadata and the blocks. -/
inductive Action where
  | publish (chunkId : Nat) (slices : List SliceDesc)
  | putBlock (key : BlockKey) (block : Option Bytes)
  | beginRead (offset len fileSize : Nat)
  | read (call : Nat) (action : ReadAction)
  | invalidate (offset len : Nat)
  | invalidateAll
  | fetch (task : Nat)
  | failFetch (task : Nat) (message : String)

variable (state : FileReader)

def setSlice (key : Nat) (slice : ReadSlice) : FileReader :=
  { state with cells := Function.update state.cells key slice }

variable (call : Nat)

def setRead (read : ReadCall) : FileReader :=
  { state with reads := state.reads.set call read }

def setFetch (index : Nat) (task : FetchTask) (pc : FetchPc) : FileReader :=
  { state with tasks := state.tasks.set index { task with pc := pc } }

/-! ### Passes over the queue -/

/-- The local variables of the loop in `prepare_slices`. -/
structure PrepareLoop where
  cells : Nat -> ReadSlice
  pinned : List Nat
  cutter : Intervals Nat

/-- The body of that loop for one slice of the queue. -/
def prepareSlice (index start stop now : Nat) (loop : PrepareLoop) (key : Nat) : PrepareLoop :=
  let slice := loop.cells key
  if slice.index ≠ index ∨ slice.state = .invalid then
    loop
  else
    { cells :=
        if slice.overlaps start (stop - start) then Function.update loop.cells key (slice.pin now)
        else loop.cells
      pinned := if slice.overlaps start (stop - start) then loop.pinned ++ [key] else loop.pinned
      cutter := (loop.cutter.cut slice.range.1 slice.range.2).2 }

/-- A new slice at the back of the queue, pinned once, and the task that fetches it. -/
def createSlice (index now : Nat) (state : FileReader) (range : Nat × Nat) : FileReader :=
  { state with
    cells := Function.update state.cells state.nextKey (ReadSlice.new index range 1 now)
    nextKey := state.nextKey + 1
    slices := state.slices ++ [state.nextKey]
    tasks := state.tasks ++ [⟨state.nextKey, .queued⟩] }

/-- The state after `prepare_slices` and the slices it has pinned. -/
def prepareSlices (index start stop now : Nat) : FileReader × List Nat :=
  let loop := state.slices.foldl (prepareSlice index start stop now)
    ⟨state.cells, [], Intervals.new start stop⟩
  (loop.cutter.ranges.foldl (createSlice index now) { state with cells := loop.cells },
    loop.pinned ++ List.range' state.nextKey loop.cutter.ranges.length)

variable (config : ReadConfig)

/-- The first pass of `clean_evictable_slices` drops invalid slices and those that
no session needs; slices that are pinned or, unless invalid, in flight stay. -/
def keepSlice (sessions : Sessions) (offset len now : Nat) (slice : ReadSlice) : Bool :=
  let (start, stop) := slice.rangeToFile config.layout.chunkSize
  let overlapsCurrent := start < offset + len && offset < stop
  let neededBySession := [sessions 0, sessions 1].any fun session =>
    session.total > 0 &&
      (start < (session.window config.layout.blockSize).2 &&
        (session.window config.layout.blockSize).1 < stop)
  let expired := now - slice.lastAccess > 30000
  !((slice.state == .invalid && slice.refs == 0) ||
    (!overlapsCurrent && (expired || !neededBySession) && slice.refs == 0 && !slice.inFlight))

/-- The second pass drops more of them while there are too many. -/
def retainLimited (overlapsCurrent removable : Nat -> Bool) (limit : Nat) :
    List Nat -> Nat -> List Nat
  | [], _ => []
  | key :: keys, cnt =>
    if !overlapsCurrent key && cnt > limit && removable key then
      retainLimited overlapsCurrent removable limit keys (cnt - 1)
    else
      key :: retainLimited overlapsCurrent removable limit keys cnt

def cleanEvictableSlices (state : FileReader) (offset len now : Nat) : FileReader :=
  let overlapsCurrent key :=
    let (start, stop) := (state.cells key).rangeToFile config.layout.chunkSize
    start < offset + len && offset < stop
  let kept := state.slices.filter fun key =>
    keepSlice config state.sessions offset len now (state.cells key)
  let cnt := (kept.filter fun key => !overlapsCurrent key).length
  let removable key := (state.cells key).refs == 0 && !(state.cells key).inFlight
  { state with
    slices :=
      if cnt > config.maxSliceAmount then
        retainLimited overlapsCurrent removable config.maxSliceAmount kept cnt
      else
        kept }

def cleanupInvalid : FileReader :=
  { state with
    slices := state.slices.filter fun key =>
      !((state.cells key).state == .invalid && (state.cells key).refs == 0) }

/-- The test of `invalidate`; the spans are looked up by chunk index in a map. -/
def hits (spans : List (Span .chunk)) (slice : ReadSlice) : Bool :=
  match spans.reverse.find? fun span => span.index == slice.index with
  | none => false
  | some span => slice.overlaps span.offset span.len

/-- A slice that was hit: pinned slices and those being fetched are fetched again. -/
def invalidateSlice (slice : ReadSlice) : ReadSlice :=
  { slice with
    generation := slice.generation + 1
    state :=
      match slice.state with
      | .ready => if slice.refs > 0 then .refresh else .invalid
      | .busy | .new | .refresh => .refresh
      | .invalid => .invalid }

/-- Every slice whose range is hit takes note of it; those in the queue are
invalidated, and dropped if nobody needs them any more. -/
def invalidate (state : FileReader) (offset len : Nat) : FileReader :=
  if len = 0 then state
  else
    let hit key := hits (splitChunkSpans config.layout offset len) (state.cells key)
    let cells key :=
      if hit key then
        { (if key ∈ state.slices then invalidateSlice (state.cells key) else state.cells key) with
          invalidatedAt := state.invalidations + 1 }
      else
        state.cells key
    { state with
      cells := cells
      slices := state.slices.filter fun key =>
        !hit key || (cells key).state != .invalid || (cells key).refs > 0
      tasks := state.tasks ++
        (state.slices.filter fun key => hit key && (cells key).state == .refresh).map fun key =>
          ⟨key, .queued⟩
      invalidations := state.invalidations + 1 }

def invalidateAll : FileReader :=
  { state with
    cells := fun key =>
      if key ∈ state.slices then
        { state.cells key with
          generation := (state.cells key).generation + 1, state := .invalid, page := [] }
      else
        state.cells key
    slices := [] }

/-! ### Fetch tasks -/

variable (config : ReadConfig) (ino : Int)

/-- The text of an `io::Error`, the only error of `chunk_id_for`. -/
def ioMessage : MetaError -> Option String
  | .io message => some message
  | _ => none

/-- The next step of a fetch task that meets no failure of the backend. -/
def fetch (state : FileReader) (index : Nat) (task : FetchTask) : Option FileReader :=
  let slice := state.cells task.key
  match task.pc with
  | .queued =>
    if slice.state = .busy ∨ slice.state = .invalid then
      some (state.setFetch index task .finished)
    else
      some ((state.setSlice task.key { slice with state := .busy }).setFetch index task
        (.started slice.generation))
  | .started generation =>
    match chunkIdFor ino slice.index with
    | .error error =>
      some ((state.setSlice task.key
        { slice with state := .invalid, err := ioMessage error }).setFetch index task .finished)
    | .ok chunkId =>
      some (state.setFetch index task
        (.prepared generation state.invalidations (state.chunkSlices chunkId)))
  | .prepared generation readAt slices =>
    let fetcher := (DataFetcher.new config.layout slice.index).prepareSlices slices
    let result := (fetcher.readAt state.store slice.range.1 (slice.range.2 - slice.range.1)).mapError
      fun _ => "read_at failed"
    some (state.setFetch index task (.fetched generation readAt result))
  | .fetched generation readAt result =>
    -- a stale fetch is dropped
    if slice.generation ≠ generation then
      some (state.setFetch index task .finished)
    else
      some ((state.setSlice task.key (slice.install readAt result)).setFetch index task .finished)
  | .finished => none

/-- The metadata or a block could not be read. -/
def failFetch (state : FileReader) (index : Nat) (task : FetchTask) (message : String) :
    Option FileReader :=
  match task.pc with
  | .started generation =>
    match chunkIdFor ino (state.cells task.key).index with
    | .error _ => none
    | .ok _ =>
      some (state.setFetch index task
        (.fetched generation state.invalidations (.error message)))
  | .prepared generation readAt _ =>
    some (state.setFetch index task (.fetched generation readAt (.error message)))
  | _ => none

/-! ### Calls of `read_at` -/

/-- The spans of a read, and those of the blocks that it reads ahead. -/
def spansOf (read : ReadCall) : List (Span .chunk) :=
  splitChunkSpans config.layout read.offset read.len

def aheadSpans (read : ReadCall) (ahead : Nat) : List (Span .chunk) :=
  let blockSize := config.layout.blockSize
  splitChunkSpans config.layout read.offset
    (divCeil (read.offset + ahead) blockSize * blockSize - read.offset)

/-- `prepare_slices` for the next span. -/
def prepareSpan (read : ReadCall) (span : Span .chunk) (now : Nat) (pc : ReadPc) : FileReader :=
  let (state, pinned) := state.prepareSlices span.index span.offset (span.offset + span.len) now
  state.setRead call { read with pins := read.pins ++ pinned, pc := pc }

/-- The part of the span that a slice has. -/
def copyRange (span : Span .chunk) (slice : ReadSlice) : Nat × Nat :=
  (max span.offset slice.range.1, min slice.range.2 (span.offset + span.len))

/-- `wait_ready` for the next slice that has a part of the span; a slice that is
being fetched blocks the call. -/
def visit (read : ReadCall) (span : Span .chunk) (seg : List ReadByte)
    (spans : List (Span .chunk)) : List Nat -> Option FileReader
  | [] =>
    some (state.setRead call { read with out := read.out ++ seg, pc := .collecting spans })
  | key :: slices =>
    let slice := state.cells key
    if (copyRange span slice).2 ≤ (copyRange span slice).1 then
      some (state.setRead call { read with pc := .visiting span seg slices spans })
    else
      match slice.state with
      | .ready => some (state.setRead call { read with pc := .copying span seg key slices spans })
      | .invalid =>
        some (state.setRead call { read with
          pc := .unpinning (.error ("Slice fetch failed: " ++ slice.err.getD "slice invalid")) })
      | .new | .busy | .refresh => none

/-- The segment after the copy; indexing past the end of the page aborts. -/
def copyOut (span : Span .chunk) (slice : ReadSlice) (seg : List ReadByte) :
    Option (List ReadByte) :=
  let (start, stop) := copyRange span slice
  if stop - slice.range.1 ≤ slice.page.length then
    some (seg.take (start - span.offset) ++
      (((slice.page.take (stop - slice.range.1)).drop (start - slice.range.1)).map
        fun value => ⟨value, some slice.state⟩) ++ seg.drop (stop - span.offset))
  else
    none

def copy (read : ReadCall) (span : Span .chunk) (seg : List ReadByte) (key : Nat)
    (slices : List Nat) (spans : List (Span .chunk)) (now : Nat) : FileReader :=
  let slice := { state.cells key with lastAccess := now }
  let state := state.setSlice key slice
  match copyOut span slice seg with
  | some seg => state.setRead call { read with pc := .visiting span seg slices spans }
  | none => state.setRead call { read with pc := .unpinning .panicked }

/-- One pin is dropped, or the call goes on when it has none. -/
def unpin (state : FileReader) (call : Nat) (read : ReadCall) (result : ReadResult) : FileReader :=
  match read.pins with
  | key :: pins =>
    (state.setSlice key (state.cells key).unpin).setRead call { read with pins := pins }
  | [] =>
    state.setRead call { read with
      pc := if result = .panicked then .returned .panicked else .cleanup result }

def readStep (state : FileReader) (call : Nat) (read : ReadCall) :
    ReadAction -> Option FileReader
  | .clean now =>
    match read.pc with
    | .cleaning =>
      some ((state.cleanEvictableSlices config read.offset read.len now).setRead call
        { read with pc := .pressing })
    | _ => none
  | .backPressure ok =>
    match read.pc with
    | .pressing =>
      some (state.setRead call { read with
        pc :=
          if ok then .preparing (spansOf config read)
          else .returned (.error "Timeout waiting for buffer space") })
    | _ => none
  | .prepare now =>
    match read.pc with
    | .preparing (span :: todo) =>
      some (state.prepareSpan call read span now (.preparing todo))
    | .ahead (span :: todo) => some (state.prepareSpan call read span now (.ahead todo))
    | .ahead [] => some (state.setRead call { read with pc := .collecting (spansOf config read) })
    | _ => none
  | .checkSession usage now =>
    match read.pc with
    | .preparing [] =>
      let (sessions, ahead) := state.sessions.checkSession config usage read.offset read.len now
      some ({ state with sessions := sessions }.setRead call
        { read with pc := .ahead (aheadSpans config read ahead) })
    | _ => none
  | .collect =>
    match read.pc with
    | .collecting (span :: spans) =>
      let slices := state.slices.filter fun key => (state.cells key).index == span.index
      some (state.setRead call { read with
        pc := .visiting span (List.replicate span.len ⟨0, none⟩) slices spans })
    | .collecting [] => some (state.setRead call { read with pc := .unpinning (.ok read.len) })
    | _ => none
  | .visit =>
    match read.pc with
    | .visiting span seg slices spans => state.visit call read span seg spans slices
    | _ => none
  | .copy now =>
    match read.pc with
    | .copying span seg key slices spans => some (state.copy call read span seg key slices spans now)
    | _ => none
  | .unpin =>
    match read.pc with
    | .unpinning result => some (state.unpin call read result)
    | _ => none
  | .cleanup =>
    match read.pc with
    | .cleanup result => some (state.cleanupInvalid.setRead call { read with pc := .returned result })
    | _ => none

/-- The checks at the start of `read_at`. -/
def beginRead (offset len fileSize : Nat) : FileReader :=
  let read : ReadCall :=
    if len = 0 ∨ fileSize ≤ offset then ⟨offset, 0, [], [], .returned (.ok 0)⟩
    else ⟨offset, min len (fileSize - offset), [], [], .cleaning⟩
  { state with reads := state.reads ++ [read] }

def step (state : FileReader) : Action -> Option FileReader
  | .publish chunkId slices =>
    some { state with chunkSlices := Function.update state.chunkSlices chunkId slices }
  | .putBlock key block => some { state with store := Function.update state.store key block }
  | .beginRead offset len fileSize => some (state.beginRead offset len fileSize)
  | .read call action => state.reads[call]?.bind fun read => state.readStep config call read action
  | .invalidate offset len => some (state.invalidate config offset len)
  | .invalidateAll => some state.invalidateAll
  | .fetch index => state.tasks[index]?.bind (state.fetch config ino index)
  | .failFetch index message =>
    state.tasks[index]?.bind fun task => state.failFetch ino index task message

/-- A reader that has not read anything. -/
def initial (chunkSlices : Nat -> List SliceDesc) (store : BlockStore) : FileReader where
  cells _ := ReadSlice.new 0 (0, 0) 0 0
  nextKey := 0
  slices := []
  sessions _ := ⟨0, 0, 0, 0⟩
  tasks := []
  reads := []
  chunkSlices := chunkSlices
  store := store
  invalidations := 0

end FileReader

end Rk8s.Slayerfs
