import Rk8s.Slayerfs.Vfs.FileWriter

namespace Rk8s.Slayerfs

open SliceCell SliceState Option Transition Slots Function List CommitPc

/-!
# Commit tasks and the slices they remove

A commit task copies the pointer to the front slice, lets go of the lock for the
metadata write, and then takes off whatever is at the front.  That is the slice
it committed as long as it is the only task of its chunk and nobody replaces the
entry in the meantime.  Nothing but `commit_started` provides for this, and that
flag lives in the entry: `clear` drops it together with the entry while the task
goes on, and the next write starts a second task.

In runs in which a write creates an entry only after the task of the previous
entry has returned, every slice leaves the writer committed, empty, or by
`clear`.
-/

variable {slice : SliceState}

namespace SliceCell

/-- The facts about a slice that survive the release of its pages. -/
structure Sound (cell : SliceCell) : Prop where
  flying : forall task, cell.task = some task -> cell.slice.uploading ≠ none
  known : forall task, cell.task = some task -> task.sliceId ≠ none -> cell.slice.sliceId ≠ none
  stored : forall task, cell.task = some task -> task.stored = true -> task.sliceId ≠ none
  identified : 0 < cell.slice.uploaded -> cell.slice.sliceId ≠ none
  finished : cell.Done -> cell.slice.data.len ≤ cell.slice.uploaded ∧ cell.slice.uploading = none

/-- A step on a slice leaves a finished slice finished, with its length, and
does not commit it. -/
structure Keeps (cell next : SliceCell) : Prop where
  sound : next.Sound
  done : cell.Done -> next.Done ∧ next.slice.data.len = cell.slice.data.len
  committed : next.slice.state = .committed -> cell.slice.state = .committed

variable {config : WriteConfig} {backend after : Backend} {cell next : SliceCell} {action : Action}

theorem Sound.keeps_refl (sound : cell.Sound) : Keeps cell cell :=
  ⟨sound, fun done => ⟨done, rfl⟩, id⟩

variable {task : UploadTask}

variable (sound : cell.Sound)
include sound

/-- A finished slice has no task. -/
theorem Sound.not_done (running : cell.task = some task) : ¬ cell.Done :=
  fun done => sound.flying task running (sound.finished done).2

/-- Of the finished slices only the empty ones have nothing to commit. -/
theorem Sound.len_eq_zero_of_descForCommit (done : cell.Done)
    (nothing : cell.slice.descForCommit = none) : cell.slice.data.len = 0 := by
  by_contra nonempty
  have stored := (sound.finished done).1
  cases known : cell.slice.sliceId with
  | none => exact sound.identified (by omega) known
  | some id =>
    rw [descForCommit, known] at nothing
    dsimp only at nothing
    rw [if_neg nonempty] at nothing
    cases nothing

/-- The length and the state of a slice may change as long as it is not finished early. -/
theorem Sound.setSlice (sliceId : slice.sliceId = cell.slice.sliceId)
    (uploaded : slice.uploaded = cell.slice.uploaded)
    (uploading : slice.uploading = cell.slice.uploading)
    (finished : slice.state = .uploaded ∨ slice.state = .committed ->
      slice.data.len ≤ slice.uploaded ∧ slice.uploading = none) :
    Sound { cell with slice := slice } where
  flying task running := by
    rw [uploading]
    exact sound.flying task running
  known task running given := by
    rw [sliceId]
    exact sound.known task running given
  stored := sound.stored
  identified positive := by
    rw [sliceId]
    exact sound.identified (uploaded ▸ positive)
  finished := finished

omit sound in
theorem sound_new (chunkId offset : Nat) : Sound ⟨new config chunkId offset, none⟩ where
  flying _ running := by cases running
  known _ running := by cases running
  stored _ running := by cases running
  identified positive := absurd positive (lt_irrefl 0)
  finished done := by cases done <;> contradiction

omit sound in
/-- A slice without an idle block is stored as far as it is not being uploaded. -/
theorem len_le_of_noIdleBlock (none_ : slice.hasIdleBlock config = false)
    (frozen : slice.uploadsPartialBlock = true)
    (idle : slice.uploading = none) : slice.data.len ≤ slice.uploaded := by
  rw [hasIdleBlock_of_closed frozen, pendingEnd_of_idle idle] at none_
  exact Nat.le_of_not_lt (of_decide_eq_false none_)

theorem keeps_freeze : Keeps cell { cell with slice := (cell.slice.freeze config).1 } := by
  by_cases writable : cell.slice.state = .writable
  case neg =>
    rw [freeze, if_neg writable]
    exact sound.keeps_refl
  refine ⟨?_, fun done => absurd writable done.not_writable, freeze_state_committed⟩
  rw [freeze, if_pos writable]
  dsimp only
  split_ifs with complete
  · have stored := len_le_of_noIdleBlock complete.2 rfl complete.1
    exact sound.setSlice rfl rfl rfl fun _ => ⟨stored, complete.1⟩
  · exact sound.setSlice rfl rfl rfl fun done => by cases done <;> contradiction

theorem keeps_prepareUpload
    (taken : cell.step config backend .prepareUpload = some (next, after)) : Keeps cell next := by
  rw [step, prepareUpload] at taken
  by_cases busy : (cell.slice.uploading.isSome || !cell.slice.hasIdleBlock config) = true
  · rw [if_pos busy] at taken
    cases taken
    exact sound.keeps_refl
  rw [if_neg busy] at taken
  simp only [Bool.or_eq_true, not_or, not_isSome_iff_eq_none, Bool.not_eq_true'] at busy
  -- a slice with an idle block is neither finished nor being uploaded
  have unfinished : ¬ cell.Done := by
    intro done
    have more := busy.2
    have stored := (sound.finished done).1
    have positive := config.layout.blockSize_pos
    rw [Bool.not_eq_false, hasIdleBlock, pendingEnd_of_idle busy.1] at more
    split_ifs at more <;> simp at more <;> omega
  dsimp only at taken
  generalize cell.slice.idxNeedUpload config = range at taken
  by_cases nothing : range.2 ≤ range.1
  · rw [if_pos nothing] at taken
    cases taken
    exact sound.keeps_refl
  rw [if_neg nothing] at taken
  cases collected :
      (cell.slice.data.freezeBlocks config range.1 range.2).collectPages config range.1 range.2 with
  | none =>
    rw [collected] at taken
    cases taken
    refine ⟨?_, fun done => absurd done unfinished, fun committed => by cases committed⟩
    refine sound.setSlice rfl rfl busy.1.symm fun done => ?_
    cases done <;> contradiction
  | some data =>
    rw [collected] at taken
    cases taken
    refine ⟨⟨?_, ?_, ?_, sound.identified, fun done => absurd done unfinished⟩,
      fun done => absurd done unfinished, id⟩
    · intro task running
      exact some_ne_none _
    · rintro task ⟨⟩ known
      exact known
    · rintro task ⟨⟩ stored
      cases stored

/-- The task reports back, and the slice may be finished with that. -/
theorem keeps_advanceUpload (running : cell.task = some task) (stored : task.stored = true) :
    Keeps cell ⟨cell.slice.advanceUpload config task.dataLen task.indices, none⟩ := by
  have unfinished := sound.not_done running
  have known := sound.known task running (sound.stored task running stored)
  rw [advanceUpload]
  split_ifs with complete
  · have all := len_le_of_noIdleBlock complete.2 complete.1 rfl
    exact ⟨⟨by simp, by simp, by simp, fun _ => known, fun _ => ⟨all, rfl⟩⟩,
      fun done => absurd done unfinished, fun committed => by cases committed⟩
  · exact ⟨⟨by simp, by simp, by simp, fun _ => known, fun done => absurd done unfinished⟩,
      fun done => absurd done unfinished, id⟩

theorem keeps_assignId {id : Nat} (running : cell.task = some task) :
    Keeps cell ⟨cell.slice.setSliceId id, some { task with sliceId := some id }⟩ := by
  have unfinished := sound.not_done running
  have flying := sound.flying task running
  rw [setSliceId]
  split_ifs with unknown
  · refine ⟨⟨fun _ _ => flying, ?_, ?_, ?_, fun done => absurd done unfinished⟩,
      fun done => absurd done unfinished, fun committed => committed⟩
    · intro other same _
      exact some_ne_none id
    · rintro other ⟨⟩ _
      exact some_ne_none id
    · intro positive
      exact some_ne_none id
  · refine ⟨⟨fun _ _ => flying, fun _ _ _ => unknown, ?_, fun _ => unknown,
      fun done => absurd done unfinished⟩, fun done => absurd done unfinished,
      fun committed => committed⟩
    rintro other ⟨⟩ _
    exact some_ne_none id

theorem keeps_step
    (taken : cell.step config backend action = some (next, after)) : Keeps cell next := by
  cases action with
  | freeze =>
    cases taken
    exact keeps_freeze sound
  | prepareUpload => exact keeps_prepareUpload sound taken
  | assignId id =>
    rcases bind_eq_some_iff.mp taken with ⟨task, running, rest⟩
    split_ifs at rest
    cases rest
    exact keeps_assignId sound running
  | attemptFails landed =>
    rcases bind_eq_some_iff.mp taken with ⟨task, running, rest⟩
    rcases bind_eq_some_iff.mp rest with ⟨id, known, rest⟩
    split_ifs at rest
    rcases bind_eq_some_iff.mp rest with ⟨store, written, rest⟩
    cases rest
    exact sound.keeps_refl
  | attemptSucceeds =>
    rcases bind_eq_some_iff.mp taken with ⟨task, running, rest⟩
    rcases bind_eq_some_iff.mp rest with ⟨id, known, rest⟩
    split_ifs at rest
    rcases bind_eq_some_iff.mp rest with ⟨store, written, rest⟩
    cases rest
    refine ⟨⟨?_, ?_, ?_, sound.identified, sound.finished⟩, fun done => ⟨done, rfl⟩,
      fun committed => committed⟩
    · rintro other ⟨⟩
      exact sound.flying task running
    · rintro other ⟨⟩
      exact sound.known task running
    · rintro other ⟨⟩ _
      exact known ▸ some_ne_none id
  | advanceUpload =>
    rcases bind_eq_some_iff.mp taken with ⟨task, running, rest⟩
    split_ifs at rest with stored
    cases rest
    exact keeps_advanceUpload sound running stored
  | failUpload err =>
    rcases bind_eq_some_iff.mp taken with ⟨task, running, rest⟩
    split_ifs at rest
    cases rest
    refine ⟨⟨nofun, nofun, nofun, sound.identified, ?_⟩,
      fun done => absurd done (sound.not_done running), nofun⟩
    intro done
    cases done <;> contradiction

theorem keeps_tryWrite {offset : Nat} {buf : Bytes} :
    Keeps cell { cell with slice := (cell.slice.tryWrite config offset buf).1 } := by
  unfold tryWrite
  cases allowed : cell.slice.canWrite config offset buf.length with
  | none => exact sound.keeps_refl
  | some action =>
    have writable := (canWrite_eq_some allowed).1
    have written : Keeps cell
        { cell with slice := (cell.slice.write config offset buf action).1 } := by
      refine ⟨sound.setSlice rfl rfl rfl ?_, fun done => absurd writable done.not_writable,
        id⟩
      intro done
      exact absurd writable (Done.not_writable done)
    dsimp only
    split
    all_goals
      rename_i slice ran
      rw [ran] at written
      exact written

theorem keeps_release :
    Keeps cell { cell with slice := { cell.slice with data := cell.slice.data.releaseAll } } :=
  ⟨sound.setSlice rfl rfl rfl sound.finished, fun done => ⟨done, rfl⟩, id⟩

end SliceCell

/-- The remaining spans of a call lie inside their chunks. -/
def WriteCall.Inside (config : WriteConfig) (write : WriteCall) : Prop :=
  forall span, span ∈ write.spans -> span.offset + span.len ≤ config.layout.chunkSize

/-- The slice that a commit task is working on. -/
def CommitPc.key? : CommitPc -> Option Nat
  | .checking key | .describing key | .writing key _ | .marking key | .popping key => some key
  | .stopped | .front | .removing => none

namespace FileWriter

variable (config : WriteConfig) (ino : Int) (state : FileWriter)

/-- No commit task of the chunk is under way. -/
def NoCommitter (chunkId : Nat) : Prop :=
  forall task, task ∈ state.tasks -> task.chunkId = chunkId -> ¬ task.Live
deriving Decidable

/-- The span that a step of `write_at` takes the lock for. -/
def spanOf : Action -> Option (Span .chunk)
  | .beginWrite offset buf => (splitChunkSpans config.layout offset buf.length).head?
  | .nextSpan call => state.writes[call]?.bind fun write => write.spans.head?
  | _ => none

/-- Whether the span needs a new entry. -/
def creates (action : Action) : Option Nat := do
  let span <- state.spanOf config action
  let chunkId <- (chunkIdFor ino span.index).toOption
  if state.chunks.lookup chunkId = none then some chunkId else none

/-- A span of `write_at` that creates the entry of a chunk finds no commit task
of that chunk under way. -/
def CreatesAlone (action : Action) : Prop :=
  forall chunkId, state.creates config ino action = some chunkId -> state.NoCommitter chunkId

instance (state : FileWriter) (action : Action) : Decidable (CreatesAlone config ino state action) :=
  inferInstanceAs (Decidable (forall chunkId, chunkId ∈ state.creates config ino action -> _))

/-- What the commit tasks and `clear` leave behind: a slice that a task took off
a queue was committed or empty, no chunk has two tasks under way, and every
slice ever made is still queued unless a task or `clear` took it. -/
structure DropsNothing (state : FileWriter) : Prop where
  popped : forall key len, (key, len) ∈ state.popped -> key ∈ state.committed ∨ len = 0
  unique : forall (first second : Nat) (task other : CommitTask),
    state.tasks[first]? = some task -> state.tasks[second]? = some other ->
    task.chunkId = other.chunkId -> task.Live -> other.Live -> first = second
  accounted : forall key, key < state.nextKey ->
    key ∈ state.buffered ∨ key ∈ state.popped.map Prod.fst ∨ key ∈ state.cleared

/-- What a commit task knows at each of its stages.  It never finds an empty queue. -/
def Stage : CommitPc -> Prop
  | .describing key | .writing key _ => (state.cells key).Done
  | .marking key => key ∈ state.committed ∧ (state.cells key).Done
  | .popping key =>
    key ∈ state.committed ∨ (state.cells key).slice.data.len = 0 ∧ (state.cells key).Done
  | .removing => False
  | .stopped | .front | .checking _ => True

/-- An entry between its creation and its first slice. -/
def Fresh (chunkId : Nat) (chunk : ChunkState) : Prop :=
  chunk = ChunkState.new ∧ state.NoCommitter chunkId ∧
    Exists fun hold => state.locked = some hold ∧ hold.chunkId = chunkId ∧
      Exists fun offset => Exists fun buf => Exists fun idx => hold.pc = .scanning offset buf [] idx

structure Inv (state : FileWriter) : Prop extends DropsNothing state where
  sound : forall key, (state.cells key).Sound
  below : forall chunkId chunk, state.chunks.lookup chunkId = some chunk ->
    forall key, key ∈ chunk.slices -> key < state.nextKey
  entry : forall chunkId chunk, state.chunks.lookup chunkId = some chunk ->
    chunk.commitStarted = true ∧ chunk.slices ≠ [] ∨ state.Fresh chunkId chunk
  held : forall hold, state.locked = some hold -> state.chunks.lookup hold.chunkId ≠ none
  starting : forall hold, state.locked = some hold -> hold.startCommit = true ->
    state.NoCommitter hold.chunkId
  front : forall (index : Nat) (task : CommitTask) (key : Nat), state.tasks[index]? = some task ->
    task.pc.key? = some key -> key < state.nextKey ∧
      forall chunk, state.chunks.lookup task.chunkId = some chunk -> chunk.slices.head? = some key
  stage : forall (index : Nat) (task : CommitTask), state.tasks[index]? = some task ->
    state.Stage task.pc
  logged : forall key, (state.cells key).slice.state = .committed -> key ∈ state.committed
  spans : forall write, write ∈ state.writes -> write.Inside config

variable {config ino} {state next : FileWriter} {task : CommitTask} {key : Nat} {action : Action}

theorem live_of_key? (working : task.pc.key? = some key) : task.Live := by
  intro stopped
  rw [stopped] at working
  cases working

variable {pc : CommitPc}

theorem Stage.mono (stage : state.Stage pc)
    (cells : ∀ key, pc.key? = some key -> (state.cells key).Done ->
      (next.cells key).Done ∧ (next.cells key).slice.data.len = (state.cells key).slice.data.len)
    (log : ∀ key ∈ state.committed, key ∈ next.committed) : next.Stage pc := by
  cases pc with
  | stopped | front | checking key | removing => exact stage
  | describing key => exact (cells key rfl stage).1
  | writing key desc => exact (cells key rfl stage).1
  | marking key => exact ⟨log key stage.1, (cells key rfl stage.2).1⟩
  | popping key =>
    rcases stage with committed | ⟨empty, done⟩
    · exact .inl (log key committed)
    · exact .inr ⟨(cells key rfl done).2.trans empty, (cells key rfl done).1⟩

/-- No entry is between its creation and its first slice. -/
def Settled (state : FileWriter) : Prop :=
  forall chunkId chunk, state.chunks.lookup chunkId = some chunk ->
    chunk.commitStarted = true ∧ chunk.slices ≠ []

section

variable (inv : Inv config state)
include inv

/-! ## Steps on one slice -/

/-- A slice changes; a finished one stays as it is, and none is marked committed
that is not. -/
theorem Inv.setCell {cell : SliceCell} (sound : cell.Sound)
    (done : (state.cells key).Done ->
      cell.Done ∧ cell.slice.data.len = (state.cells key).slice.data.len)
    (logged : cell.slice.state = .committed -> key ∈ state.committed)
    (backend : SliceCell.Backend) :
    Inv config { state with cells := update state.cells key cell, backend := backend } :=
  { inv with
    sound := (forall_update_iff _ fun _ => SliceCell.Sound).mpr
      ⟨sound, fun other _ => inv.sound other⟩
    stage := by
      have kept := (forall_update_iff state.cells fun other cell => (state.cells other).Done ->
        cell.Done ∧ cell.slice.data.len = (state.cells other).slice.data.len).mpr
        ⟨done, fun _ _ finished => ⟨finished, rfl⟩⟩
      exact fun index task there =>
        (inv.stage index task there).mono (fun other _ => kept other) fun _ => id
    logged := (forall_update_iff state.cells fun other cell =>
      cell.slice.state = .committed -> other ∈ state.committed).mpr
      ⟨logged, fun other _ => inv.logged other⟩ }

theorem Inv.setSlice
    (keeps : SliceCell.Keeps (state.cells key) { state.cells key with slice := slice }) :
    Inv config (state.setSlice key slice) :=
  inv.setCell keeps.sound keeps.done (fun committed => inv.logged key (keeps.committed committed))
    state.backend

/-! ## Span writes -/

theorem Inv.settled_of_unlocked (unlocked : state.locked = none) : state.Settled := by
  intro chunkId chunk there
  rcases inv.entry chunkId chunk there with settled | fresh
  · exact settled
  · rcases fresh with ⟨_, _, hold, locked, _⟩
    rw [unlocked] at locked
    cases locked

variable {hold : SpanWrite}

theorem Inv.settled_of_locked {pc : WriterPc} (locked : state.locked = some hold)
    (at_ : hold.pc = pc)
    (past : ∀ offset buf idx, pc ≠ .scanning offset buf [] idx) : state.Settled := by
  intro chunkId chunk there
  rcases inv.entry chunkId chunk there with settled | fresh
  · exact settled
  · rcases fresh with ⟨_, _, other, same, _, offset, buf, idx, scanning⟩
    rw [locked] at same
    cases same
    exact absurd (at_.symm.trans scanning) (past offset buf idx)

variable {writes : List WriteCall} {write : WriteCall}

/-- The lock may change hands when no entry depends on its holder. -/
theorem Inv.relock (settled : state.Settled) {locked : Option SpanWrite}
    (held : ∀ hold, locked = some hold -> state.chunks.lookup hold.chunkId ≠ none)
    (starting : ∀ hold, locked = some hold -> hold.startCommit = true ->
      state.NoCommitter hold.chunkId)
    (spans : ∀ write ∈ writes, write.Inside config) :
    Inv config { state with locked := locked, writes := writes } :=
  { inv with
    entry := fun chunkId chunk there => .inl (settled chunkId chunk there)
    held := held
    starting := starting
    spans := spans }

/-- The holder of the lock moves on. -/
theorem Inv.moveOn (locked : state.locked = some hold) (settled : state.Settled)
    (pc : WriterPc) :
    Inv config { state with locked := some { hold with pc := pc } } := by
  refine inv.relock settled ?_ ?_ inv.spans
  · rintro other ⟨⟩
    exact inv.held hold locked
  · rintro other ⟨⟩
    exact inv.starting hold locked

omit inv in
theorem inside_set (call : Nat)
    (spans : ∀ write ∈ writes, write.Inside config) (rest : write.Inside config) :
    ∀ other ∈ writes.set call write, other.Inside config := by
  intro other member
  rcases mem_or_eq_of_mem_set member with old | rfl
  · exact spans other old
  · exact rest

theorem Inv.endWrite (settled : state.Settled) (call : Nat) :
    Inv config (state.endWrite call) :=
  inv.relock settled nofun nofun (inside_set call inv.spans nofun)

variable {chunkId offset : Nat} {buf : Bytes} {idx call : Nat}

/-- A new entry is put in place by a span write that takes the lock. -/
theorem Inv.createChunk (unlocked : state.locked = none)
    (missing : state.chunks.lookup chunkId = none)
    (alone : state.NoCommitter chunkId)
    (spans : ∀ write ∈ writes, write.Inside config) :
    Inv config { state with
      chunks := state.chunks.insert chunkId ChunkState.new
      locked := some ⟨call, chunkId, false, .scanning offset buf [] idx⟩
      writes := writes } where
  popped := inv.popped
  unique := inv.unique
  accounted key old := by
    rcases inv.accounted key old with buffered | gone
    · rcases mem_buffered_iff.mp buffered with ⟨other, chunk, there, member⟩
      have different : other ≠ chunkId := by
        rintro rfl
        cases missing.symm.trans there
      refine .inl (mem_buffered_iff.mpr ⟨other, chunk, ?_, member⟩)
      rw [lookup_insert_eq_ite, if_neg different, there]
    · exact .inr gone
  sound := inv.sound
  below other chunk there := by
    rw [lookup_insert_eq_ite] at there
    split_ifs at there with here
    · cases there
      exact nofun
    · exact inv.below other chunk there
  entry other chunk there := by
    rw [lookup_insert_eq_ite] at there
    split_ifs at there with here
    · cases there
      exact .inr ⟨rfl, here ▸ alone, _, rfl, here.symm, offset, buf, idx, rfl⟩
    · exact .inl (inv.settled_of_unlocked unlocked other chunk there)
  held := by
    rintro other ⟨⟩
    rw [lookup_insert_eq_ite, if_pos rfl]
    exact some_ne_none _
  starting := by
    rintro other ⟨⟩ _
    exact alone
  front index task key there working := by
    refine ⟨(inv.front index task key there working).1, ?_⟩
    intro chunk found
    rw [lookup_insert_eq_ite] at found
    split_ifs at found with here
    · exact absurd (live_of_key? working) (alone task (mem_of_getElem? there) here)
    · exact (inv.front index task key there working).2 chunk found
  stage := inv.stage
  logged := inv.logged
  spans := spans

theorem takeSpan_inv (unlocked : state.locked = none) (inside : write.Inside config)
    (alone : ∀ span chunkId, write.spans.head? = some span ->
      chunkIdFor ino span.index = .ok chunkId -> state.chunks.lookup chunkId = none ->
      state.NoCommitter chunkId) :
    Inv config (state.takeSpan config ino call write) := by
  rcases write with ⟨_ | ⟨span, spans⟩, buf⟩
  · exact inv
  have settled := inv.settled_of_unlocked unlocked
  have rest : WriteCall.Inside config ⟨spans, buf.drop span.len⟩ :=
    fun other member => inside other (.tail _ member)
  rw [takeSpan, lockSpan]
  cases named : chunkIdFor ino span.index with
  | error _ => exact inv.endWrite settled call
  | ok chunkId =>
    have fits : span.offset + (buf.take span.len).length ≤ config.layout.chunkSize := by
      have whole := inside span (.head _)
      have taken := length_take_le span.len buf
      omega
    dsimp only
    rw [if_pos fits]
    cases there : state.chunks.lookup chunkId with
    | none =>
      have none_ := alone span chunkId rfl named there
      simp only [getOrCreateChunk, there, queue, lookup_insert_eq_ite]
      exact inv.createChunk unlocked there none_ (inside_set call inv.spans rest)
    | some chunk =>
      simp only [getOrCreateChunk, there]
      refine inv.relock settled ?_ ?_ (inside_set call inv.spans rest)
      · rintro hold ⟨⟩
        exact there ▸ some_ne_none chunk
      · rintro hold ⟨⟩ started
        cases started

variable {chunks : AList fun _ : Nat => ChunkState} {chunk : ChunkState}

section

variable (locked : state.locked = some hold)
include locked

/-- A new slice is queued in the entry of the span write, and the commit task is
as good as started. -/
theorem Inv.addSlice {moved : SpanWrite} (there : state.chunks.lookup hold.chunkId = some chunk)
    (look : ∀ other, chunks.lookup other =
      if other = hold.chunkId then some ⟨chunk.slices ++ [state.nextKey], true⟩
      else state.chunks.lookup other) (sameChunk : moved.chunkId = hold.chunkId)
    (starting : moved.startCommit = true -> state.NoCommitter hold.chunkId) :
    Inv config { state.create config hold.chunkId offset with
      chunks := chunks, locked := some moved } where
  popped := inv.popped
  unique := inv.unique
  accounted key old := by
    rcases Nat.lt_succ_iff_lt_or_eq.mp old with before | rfl
    · rcases inv.accounted key before with buffered | gone
      · rcases mem_buffered_iff.mp buffered with ⟨other, found, where_, member⟩
        refine .inl (mem_buffered_iff.mpr ?_)
        by_cases here : other = hold.chunkId
        · rw [here, there] at where_
          cases where_
          exact ⟨hold.chunkId, _, (look _).trans (if_pos rfl), mem_append_left _ member⟩
        · exact ⟨other, found, ((look _).trans (if_neg here)).trans where_, member⟩
      · exact .inr gone
    · refine .inl (mem_buffered_iff.mpr ⟨hold.chunkId, _, (look _).trans (if_pos rfl), ?_⟩)
      exact mem_append_right _ (.head _)
  sound := (forall_update_iff _ fun _ => SliceCell.Sound).mpr
    ⟨sound_new .., fun key _ => inv.sound key⟩
  below other found where_ key member := by
    rw [look] at where_
    refine Nat.lt_succ_iff_lt_or_eq.mpr ?_
    split_ifs at where_ with here
    · cases where_
      rcases mem_append.mp member with old | new
      · exact .inl (inv.below _ chunk there key old)
      · exact .inr (mem_singleton.mp new)
    · exact .inl (inv.below other found where_ key member)
  entry other found where_ := by
    rw [look] at where_
    split_ifs at where_ with here
    · cases where_
      exact .inl ⟨rfl, append_ne_nil_of_right_ne_nil _ (cons_ne_nil _ _)⟩
    rcases inv.entry other found where_ with settled | ⟨_, _, holder, same, elsewhere, _⟩
    · exact .inl settled
    · rw [locked] at same
      cases same
      exact absurd elsewhere.symm here
  held := by
    rintro other ⟨⟩
    rw [sameChunk, look, if_pos rfl]
    exact some_ne_none _
  starting := by
    rintro other ⟨⟩ started
    rw [sameChunk]
    exact starting started
  front index task key found working := by
    rcases inv.front index task key found working with ⟨before, first⟩
    refine ⟨Nat.lt_succ_of_lt before, ?_⟩
    intro other where_
    rw [look] at where_
    split_ifs at where_ with here
    · cases where_
      have front := first chunk (here ▸ there)
      rw [head?_append, front]
      rfl
    · exact first other where_
  stage index task found := by
    refine (inv.stage index task found).mono ?_ fun _ => id
    intro key working done
    have old := ne_of_lt (inv.front index task key found working).1
    dsimp only [create]
    rw [update_of_ne old]
    exact ⟨done, rfl⟩
  logged := (forall_update_iff state.cells fun key cell =>
    cell.slice.state = .committed -> key ∈ state.committed).mpr
    ⟨nofun, fun key _ => inv.logged key⟩
  spans := inv.spans

/-- `find_slice_or_create` starts no second task: the entry has a started one, or
is new. -/
theorem scan_nil_inv : Inv config (state.scan config hold offset buf [] idx) := by
  cases there : state.chunks.lookup hold.chunkId with
  | none => exact absurd there (inv.held hold locked)
  | some chunk =>
    have more : chunk.slices ++ [state.nextKey] ≠ [] :=
      append_ne_nil_of_right_ne_nil _ (cons_ne_nil _ _)
    rw [scan, found]
    simp only [create, there, lookup_insert_eq_ite, if_true]
    rcases inv.entry _ chunk there with ⟨started, _⟩ | ⟨rfl, alone, _⟩
    · rw [if_neg (fun both => by rw [started] at both; cases both.1)]
      refine inv.addSlice locked there ?_ rfl (inv.starting hold locked)
      intro other
      rw [lookup_insert_eq_ite, started]
    · rw [if_pos ⟨rfl, more⟩]
      refine inv.addSlice locked there ?_ rfl fun _ => alone
      intro other
      rw [lookup_insert_eq_ite, lookup_insert_eq_ite]
      split_ifs <;> rfl

theorem scan_cons_inv {remaining : List Nat} (settled : state.Settled) :
    Inv config (state.scan config hold offset buf (key :: remaining) idx) := by
  rw [scan]
  split_ifs with takes old
  · cases there : state.chunks.lookup hold.chunkId with
    | none => exact absurd there (inv.held hold locked)
    | some chunk =>
      have started := (settled _ chunk there).1
      rw [found, there]
      dsimp only
      rw [if_neg (fun both => by rw [started] at both; cases both.1)]
      exact inv.moveOn locked settled _
  · exact (inv.setSlice (keeps_freeze (inv.sound key))).moveOn locked settled _
  · exact inv.moveOn locked settled _

theorem tryWrite_inv (settled : state.Settled) :
    Inv config (state.tryWrite config hold offset buf key) := by
  have written : Inv config
      (state.setSlice key ((state.cells key).slice.tryWrite config offset buf).1) :=
    inv.setSlice (keeps_tryWrite (inv.sound key))
  rw [tryWrite]
  split
  all_goals
    rename_i slice ran
    rw [ran] at written
  · exact written.moveOn locked settled _
  · exact written.moveOn locked settled _
  · exact written.endWrite settled _

end

theorem freezeFull_inv (key : Nat) : Inv config (state.freezeFull config key) := by
  unfold freezeFull
  dsimp only
  split_ifs
  · exact inv
  · exact inv.setSlice (keeps_freeze (inv.sound key))
  · exact inv

/-- The lock is released and a commit task is spawned that has no other beside it. -/
theorem Inv.spawn (settled : state.Settled) (alone : state.NoCommitter chunkId) :
    Inv config { state with locked := none, tasks := state.tasks ++ [⟨chunkId, .front⟩] } :=
  { inv with
    unique := by
      intro first second task other here there same live otherLive
      rcases getElem?_append_eq_some_iff.mp here with old | ⟨rfl, rfl⟩ <;>
        rcases getElem?_append_eq_some_iff.mp there with otherOld | ⟨rfl, rfl⟩
      · exact inv.unique first second task other old otherOld same live otherLive
      · exact absurd live (alone task (mem_of_getElem? old) same)
      · exact absurd otherLive (alone other (mem_of_getElem? otherOld) same.symm)
      · rfl
    entry := fun chunkId chunk there => .inl (settled chunkId chunk there)
    held := nofun
    starting := nofun
    front := by
      intro index task key there working
      rcases getElem?_append_eq_some_iff.mp there with old | ⟨rfl, rfl⟩
      · exact inv.front index task key old working
      · cases working
    stage := by
      intro index task there
      rcases getElem?_append_eq_some_iff.mp there with old | ⟨rfl, rfl⟩
      · exact inv.stage index task old
      · trivial }

theorem finishWrite_inv (locked : state.locked = some hold) (settled : state.Settled) :
    Inv config (state.finishWrite config hold key) := by
  have frozen := freezeFull_inv inv key
  obtain ⟨sameChunks, sameLock⟩ : (state.freezeFull config key).chunks = state.chunks ∧
      (state.freezeFull config key).locked = state.locked := by
    unfold freezeFull
    dsimp only
    split_ifs <;> exact ⟨rfl, rfl⟩
  have still : (state.freezeFull config key).Settled := by
    rw [Settled, sameChunks]
    exact settled
  unfold finishWrite
  dsimp only
  split_ifs with start
  · exact frozen.spawn still (frozen.starting hold (sameLock.trans locked) start)
  · rw [append_nil]
    exact frozen.relock still nofun nofun frozen.spans

/-! ## Steps of a commit task -/

variable {index : Nat}

section

variable (there : state.tasks[index]? = some task) (live : task.Live)
include there live

omit inv in
theorem NoCommitter.setPc (none_ : state.NoCommitter chunkId) (pc : CommitPc) :
    (state.setPc index task pc).NoCommitter chunkId := by
  intro other member same
  rcases mem_or_eq_of_mem_set member with old | rfl
  · exact none_ other old same
  · exact absurd live (none_ task (mem_of_getElem? there) same)

omit inv in
theorem unique_setPc (drops : DropsNothing state) (pc : CommitPc) :
    ∀ (first second : Nat) (one other : CommitTask),
      (state.setPc index task pc).tasks[first]? = some one ->
      (state.setPc index task pc).tasks[second]? = some other ->
      one.chunkId = other.chunkId -> one.Live -> other.Live -> first = second := by
  intro first second one other here otherHere same oneLive otherLive
  rcases getElem?_set_eq_some_iff.mp here with ⟨rfl, _, rfl⟩ | ⟨_, old⟩ <;>
    rcases getElem?_set_eq_some_iff.mp otherHere with ⟨rfl, _, rfl⟩ | ⟨_, otherOld⟩
  · rfl
  · exact drops.unique first second task other there otherOld same live otherLive
  · exact drops.unique first second one task old there same oneLive live
  · exact drops.unique first second one other old otherOld same oneLive otherLive

/-- A task moves on; what it knows afterwards is to be shown. -/
theorem Inv.setPc (front : ∀ key, pc.key? = some key -> key < state.nextKey ∧
      ∀ chunk, state.chunks.lookup task.chunkId = some chunk -> chunk.slices.head? = some key)
    (stage : state.Stage pc) : Inv config (state.setPc index task pc) :=
  { inv with
    unique := unique_setPc there live inv.toDropsNothing pc
    entry := by
      intro chunkId chunk found
      rcases inv.entry chunkId chunk found with settled | ⟨empty, alone, scanning⟩
      · exact .inl settled
      · exact .inr ⟨empty, alone.setPc there live pc, scanning⟩
    starting := fun hold locked started =>
      (inv.starting hold locked started).setPc there live pc
    front := by
      intro other found key here working
      rcases getElem?_set_eq_some_iff.mp here with ⟨rfl, _, rfl⟩ | ⟨_, old⟩
      · exact front key working
      · exact inv.front other found key old working
    stage := by
      intro other found here
      rcases getElem?_set_eq_some_iff.mp here with ⟨rfl, _, rfl⟩ | ⟨_, old⟩
      · exact stage
      · exact inv.stage other found old }

end

theorem Inv.logCommit (key : Nat) : Inv config { state with committed := key :: state.committed } :=
  { inv with
    popped := by
      intro other len member
      rcases inv.popped other len member with committed | empty
      · exact .inl (.tail _ committed)
      · exact .inr empty
    stage := fun index task there =>
      (inv.stage index task there).mono (fun _ _ done => ⟨done, rfl⟩) fun _ => .tail _
    logged := fun other committed => .tail _ (inv.logged other committed) }

/-- A finished slice of which the metadata was written is marked. -/
theorem Inv.markCommitted (done : (state.cells key).Done) (written : key ∈ state.committed) :
    Inv config (state.setSlice key (state.cells key).slice.markCommitted) := by
  have marked : SliceCell.Sound
      { state.cells key with slice := (state.cells key).slice.markCommitted } :=
    (inv.sound key).setSlice rfl rfl rfl fun _ => (inv.sound key).finished done
  exact inv.setCell marked (fun _ => ⟨.inr rfl, rfl⟩) (fun _ => written) state.backend

section

variable (unlocked : state.locked = none) (there : state.tasks[index]? = some task)
  (popping : task.pc = .popping key)
include unlocked there popping

/-- The front slice leaves the queue, and the entry with the last one.  No other
task of the chunk is affected, since there is none. -/
theorem Inv.dropFront (found : state.chunks.lookup task.chunkId = some chunk)
    (look : ∀ other, chunks.lookup other =
      if other = task.chunkId then
        if chunk.slices.tail = [] then none else some { chunk with slices := chunk.slices.tail }
      else state.chunks.lookup other) (idle : pc.key? = none) (stage : state.Stage pc) :
    Inv config { state.setPc index task pc with
      chunks := chunks
      popped := state.popped ++ [(key, (state.cells key).slice.data.len)] } := by
  have working : task.pc.key? = some key := congrArg key? popping
  have live := live_of_key? working
  have settled := inv.settled_of_unlocked unlocked
  have moved := inv.setPc there live (fun key busy => by cases idle.symm.trans busy) stage
  have queued : chunk.slices = key :: chunk.slices.tail :=
    eq_cons_of_mem_head? ((inv.front index task key there working).2 chunk found)
  -- what is left of the entry
  have rest : ∀ other left, chunks.lookup other = some left ->
      other = task.chunkId ∧ left = { chunk with slices := chunk.slices.tail } ∧
          chunk.slices.tail ≠ [] ∨
        other ≠ task.chunkId ∧ state.chunks.lookup other = some left := by
    intro other left where_
    rw [look] at where_
    split_ifs at where_ with here last
    · cases where_
      exact .inl ⟨here, rfl, last⟩
    · exact .inr ⟨here, where_⟩
  refine
    { moved with
      popped := ?popped, accounted := ?accounted, below := ?below, entry := ?entry, held := ?held
      starting := ?starting, front := ?front }
  case popped =>
    intro other len member
    rcases mem_append.mp member with old | new
    · exact inv.popped other len old
    · cases mem_singleton.mp new
      have known := inv.stage index task there
      rw [popping] at known
      exact known.imp_right And.left
  case accounted =>
    intro other before
    have gone : ∀ entry ∈ state.popped.map Prod.fst, entry ∈
        (state.popped ++ [(key, (state.cells key).slice.data.len)]).map Prod.fst := by
      intro entry member
      rw [map_append]
      exact mem_append_left _ member
    rcases inv.accounted other before with buffered | old | cleared
    · rcases mem_buffered_iff.mp buffered with ⟨chunkId, held, where_, member⟩
      by_cases here : chunkId = task.chunkId
      · rw [here, found] at where_
        cases where_
        rw [queued] at member
        rcases mem_cons.mp member with rfl | later
        · refine .inr (.inl ?_)
          simp
        · refine .inl (mem_buffered_iff.mpr
            ⟨task.chunkId, { chunk with slices := chunk.slices.tail }, ?_, later⟩)
          rw [look, if_pos rfl, if_neg (ne_nil_of_mem later)]
      · refine .inl (mem_buffered_iff.mpr ⟨chunkId, held, ?_, member⟩)
        rw [look, if_neg here, where_]
    · exact .inr (.inl (gone other old))
    · exact .inr (.inr cleared)
  case below =>
    intro other left where_ member inside
    rcases rest other left where_ with ⟨rfl, rfl, _⟩ | ⟨_, old⟩
    · exact inv.below _ chunk found member (mem_of_mem_tail inside)
    · exact inv.below other left old member inside
  case entry =>
    intro other left where_
    rcases rest other left where_ with ⟨rfl, rfl, more⟩ | ⟨_, old⟩
    · exact .inl ⟨(settled _ chunk found).1, more⟩
    · exact .inl (settled other left old)
  case held =>
    intro hold locked
    cases unlocked.symm.trans locked
  case starting =>
    intro hold locked
    cases unlocked.symm.trans locked
  case front =>
    intro other one member here busy
    rcases getElem?_set_eq_some_iff.mp here with ⟨rfl, _, rfl⟩ | ⟨different, old⟩
    · rw [idle] at busy
      cases busy
    rcases inv.front other one member old busy with ⟨below, first⟩
    refine ⟨below, ?_⟩
    intro left where_
    rcases rest one.chunkId left where_ with ⟨same, _, _⟩ | ⟨_, stays⟩
    · exact absurd (inv.unique other index one task old there same (live_of_key? busy) live)
        different
    · exact first left stays

theorem popFront_inv :
    Inv config (state.popFront index task) := by
  have working : task.pc.key? = some key := congrArg key? popping
  rw [popFront]
  cases found : state.chunks.lookup task.chunkId with
  | none => exact inv.setPc there (live_of_key? working) nofun trivial
  | some chunk =>
    have first := (inv.front index task key there working).2 chunk found
    dsimp only
    rw [first]
    split_ifs with last
    · refine inv.dropFront unlocked there popping found ?_ rfl trivial
      intro other
      rw [lookup_erase_eq_ite, if_pos last]
    · refine inv.dropFront unlocked there popping found ?_ rfl trivial
      intro other
      rw [lookup_insert_eq_ite, if_neg last]

end

theorem snapshot_inv (there : state.tasks[index]? = some task)
    (checking : task.pc = .checking key) :
    Inv config (state.setPc index task (ChunkWriter.snapshot (state.cells key).slice key)) := by
  have working : task.pc.key? = some key := congrArg key? checking
  have live := live_of_key? working
  have known := inv.front index task key there working
  unfold ChunkWriter.snapshot
  split_ifs with failed open_ complete committed
  iterate 2 exact inv.setPc there live nofun trivial
  · exact inv.setPc there live (by rintro _ ⟨⟩; exact known) (.inl complete.1)
  · exact inv.setPc there live (by rintro _ ⟨⟩; exact known) (.inl (inv.logged key committed))
  · exact inv.setPc there live nofun trivial

theorem commit_inv (there : state.tasks[index]? = some task)
    (taken : state.commit index task = some next) : Inv config next := by
  have stage := inv.stage index task there
  have live : task.pc ≠ .stopped := by
    intro stopped
    rw [commit, stopped] at taken
    cases taken
  have known := fun key => inv.front index task key there
  rw [commit] at taken
  cases at_ : task.pc with
  | stopped => exact absurd at_ live
  | front =>
    rw [at_] at taken
    split_ifs at taken with unlocked
    cases found : state.chunks.lookup task.chunkId with
    | none =>
      rw [found] at taken
      cases taken
      exact inv.setPc there live nofun trivial
    | some chunk =>
      rw [found] at taken
      cases taken
      cases queued : chunk.slices with
      | nil => exact absurd queued (inv.settled_of_unlocked unlocked _ chunk found).2
      | cons key rest =>
        refine inv.setPc there live ?_ trivial
        rintro _ ⟨⟩
        have below := inv.below _ chunk found key (queued ▸ .head _)
        refine ⟨below, ?_⟩
        intro other same
        rw [found] at same
        cases same
        rw [queued]
        rfl
  | removing =>
    rw [at_] at stage
    cases stage
  | checking key =>
    rw [at_] at taken
    cases taken
    exact snapshot_inv inv there at_
  | describing key =>
    rw [at_] at taken stage
    dsimp only at taken
    have unchanged := known key (congrArg key? at_)
    cases described : (state.cells key).slice.descForCommit with
    | some desc =>
      rw [described] at taken
      cases taken
      exact inv.setPc there live (by rintro _ ⟨⟩; exact unchanged) stage
    | none =>
      rw [described] at taken
      cases taken
      have empty := (inv.sound key).len_eq_zero_of_descForCommit stage described
      exact inv.setPc there live (by rintro _ ⟨⟩; exact unchanged) (.inr ⟨empty, stage⟩)
  | writing key desc =>
    rw [at_] at taken stage
    cases taken
    have unchanged := known key (congrArg key? at_)
    exact (inv.logCommit key).setPc there live (by rintro _ ⟨⟩; exact unchanged)
      ⟨.head _, stage⟩
  | marking key =>
    rw [at_] at taken stage
    cases taken
    have unchanged := known key (congrArg key? at_)
    exact (inv.markCommitted stage.2 stage.1).setPc there live
      (by rintro _ ⟨⟩; exact unchanged) (.inl stage.1)
  | popping key =>
    rw [at_] at taken
    split_ifs at taken with unlocked
    cases taken
    exact popFront_inv inv unlocked there at_

/-! ## Whole runs -/

omit inv in
theorem CreatesAlone.noCommitter {span : Span .chunk}
    (met : CreatesAlone config ino state action) (writes : state.spanOf config action = some span)
    (named : chunkIdFor ino span.index = .ok chunkId)
    (missing : state.chunks.lookup chunkId = none) : state.NoCommitter chunkId := by
  refine met chunkId ?_
  simp [creates, writes, named, Except.toOption, missing]

theorem endClear_inv (unlocked : state.locked = none) (clears : List ClearPc) :
    Inv config { state with
      chunks := ∅, cleared := state.cleared ++ state.buffered, clears := clears } :=
  { inv with
    accounted := by
      intro key before
      rcases inv.accounted key before with buffered | popped | cleared
      · exact .inr (.inr (mem_append_right _ buffered))
      · exact .inr (.inl popped)
      · exact .inr (.inr (mem_append_left _ cleared))
    below := nofun
    entry := nofun
    held := by
      intro hold locked
      cases unlocked.symm.trans locked
    front := fun index task key there working =>
      ⟨(inv.front index task key there working).1, nofun⟩ }

theorem step_inv (met : CreatesAlone config ino state action)
    (taken : state.step config ino action = some next) : Inv config next := by
  cases action with
  | beginWrite offset buf =>
    rw [step] at taken
    split_ifs at taken with free
    cases taken
    have inside : WriteCall.Inside config
        ⟨splitChunkSpans config.layout offset buf.length, buf⟩ :=
      fun span member => ((tiles_splitChunkSpans ..).fits member).2
    have called : Inv config { state with
        writes := state.writes ++ [⟨splitChunkSpans config.layout offset buf.length, buf⟩] } :=
      { inv with
        spans := forall_mem_append.mpr ⟨inv.spans, forall_mem_singleton.mpr inside⟩ }
    exact takeSpan_inv called free.1 inside fun _ _ first => met.noCommitter first
  | nextSpan call =>
    rw [step] at taken
    split_ifs at taken with unlocked
    rcases map_eq_some_iff.mp taken with ⟨write, there, rfl⟩
    refine takeSpan_inv inv unlocked (inv.spans write (mem_of_getElem? there)) ?_
    intro span chunkId first
    refine met.noCommitter ?_
    rw [spanOf, there]
    exact first
  | scan =>
    rcases bind_eq_some_iff.mp taken with ⟨hold, locked, rest⟩
    split at rest
    · cases rest
      rename_i offset buf remaining idx at_
      cases remaining with
      | nil => exact scan_nil_inv inv locked
      | cons key remaining =>
        exact scan_cons_inv inv locked (inv.settled_of_locked locked at_ nofun)
    · cases rest
  | tryWrite =>
    rcases bind_eq_some_iff.mp taken with ⟨hold, locked, rest⟩
    split at rest
    · cases rest
      rename_i at_
      exact tryWrite_inv inv locked (inv.settled_of_locked locked at_ nofun)
    · cases rest
  | finishWrite =>
    rcases bind_eq_some_iff.mp taken with ⟨hold, locked, rest⟩
    split at rest
    · cases rest
      rename_i at_
      exact finishWrite_inv inv locked (inv.settled_of_locked locked at_ nofun)
    · cases rest
  | cell key action =>
    rw [step] at taken
    split_ifs at taken with old
    rcases map_eq_some_iff.mp taken with ⟨⟨cell, backend⟩, stepped, rfl⟩
    have keeps := keeps_step (inv.sound key) stepped
    exact inv.setCell keeps.sound keeps.done
      (fun committed => inv.logged key (keeps.committed committed)) backend
  | beginFlush | leaveFlush call timeout | endFlush call | beginClear =>
    rw [step] at taken
    split_ifs at taken
    cases taken
    exact { inv with }
  | releaseSlice call =>
    rw [step] at taken
    split at taken
    · cases taken
      rename_i key keys there
      exact { inv.setSlice (keeps_release (inv.sound key)) with }
    · cases taken
  | endClear call =>
    rw [step] at taken
    split_ifs at taken with last
    cases taken
    exact endClear_inv inv last.2 _
  | commit index =>
    rcases bind_eq_some_iff.mp taken with ⟨task, there, stepped⟩
    exact commit_inv inv there stepped
  | failCommit index =>
    rcases bind_eq_some_iff.mp taken with ⟨task, there, rest⟩
    split at rest
    · cases rest
      rename_i key desc at_
      exact inv.setPc there (live_of_key? (congrArg key? at_)) nofun trivial
    · cases rest

end

theorem initial_inv (store : BlockStore) (usedIds : List Nat) :
    Inv config (initial config store usedIds) where
  popped := nofun
  unique := nofun
  accounted := nofun
  sound _ := sound_new ..
  below := nofun
  entry := nofun
  held := nofun
  starting := nofun
  front := nofun
  stage := nofun
  logged := nofun
  spans := nofun

/-- In every run in which entries are created only when no commit task of the
chunk is under way, commit tasks remove committed and empty slices only, no two
of them share a chunk, and no slice disappears in another way than by `clear`. -/
theorem dropsNothing_of_createsAlone {store : BlockStore} {usedIds : List Nat}
    {actions : List Action} {final : FileWriter}
    (run : Run (step config ino) (CreatesAlone config ino)
      (initial config store usedIds) actions final) : final.DropsNothing := by
  have inv := run.invariant (Inv config) (initial_inv store usedIds)
    fun _ _ _ inv met taken => step_inv inv met taken
  exact inv.toDropsNothing

/-- Chunks of 8 bytes, blocks and pages of 4. -/
private def smallWriter : WriteConfig := ⟨.ofBlocks 1 3, 4, Nat.succ_pos 3, by decide⟩

private def emptyWriter : FileWriter := initial smallWriter (fun _ => none) []

private def writeByte (byte : UInt8) : List Action :=
  [.beginWrite 0 [byte], .scan, .tryWrite, .finishWrite]

private def uploadSlice (key id : Nat) : List Action :=
  [.cell key .freeze, .cell key .prepareUpload, .cell key (.assignId id),
    .cell key .attemptSucceeds, .cell key .advanceUpload]

/-- The first slice is committed, and a slice written later is cleared. -/
private def commitThenClear : List Action :=
  writeByte 1 ++ uploadSlice 0 7 ++ replicate 6 (Action.commit 0) ++ writeByte 2 ++
    [Action.beginClear, .releaseSlice 0, .endClear 0]

theorem dropsNothing_commitThenClear :
    Exists fun state =>
      Run (step smallWriter 1) (CreatesAlone smallWriter 1) emptyWriter commitThenClear
        state ∧
      state.popped = [(0, 1)] ∧ state.cleared = [1] ∧ state.DropsNothing := by
  refine exists_run_of (fun state => state.popped = [(0, 1)] ∧ state.cleared = [1])
    (by decide +kernel) fun state run ⟨popped, cleared⟩ => ?_
  exact ⟨popped, cleared, dropsNothing_of_createsAlone run⟩

/-- The writer is cleared during the metadata write for the first slice, and the
chunk is written again before the commit task looks at it. -/
private def clearUnderCommit : List Action :=
  writeByte 1 ++ uploadSlice 0 7 ++ replicate 3 (Action.commit 0) ++
    [Action.beginClear, .releaseSlice 0, .endClear 0] ++ writeByte 2 ++ [.commit 0, .commit 0]

/-- Two commit tasks share the new entry, and the old one takes off the slice
that was just written. -/
theorem commitChunk_pops_uncommitted_slice :
    Exists fun shared => Exists fun state =>
      Run (step smallWriter 1) anyStep emptyWriter clearUnderCommit shared ∧
      shared.tasks = [⟨1000000000, .popping 0⟩, ⟨1000000000, .front⟩] ∧
      shared.chunks.lookup 1000000000 = some ⟨[1], true⟩ ∧
      step smallWriter 1 shared (.commit 0) = some state ∧
      state.popped = [(1, 1)] ∧ state.committed = [0] ∧
      ¬ shared.DropsNothing ∧ ¬ state.DropsNothing := by
  have ran : (execute (step smallWriter 1) anyStep emptyWriter
      clearUnderCommit).bind (fun shared =>
        (step smallWriter 1 shared (.commit 0)).map fun state =>
          (shared.tasks, shared.chunks.lookup 1000000000, state.popped, state.committed)) =
        some ([⟨1000000000, .popping 0⟩, ⟨1000000000, .front⟩], some ⟨[1], true⟩, [(1, 1)], [0]) := by
    decide +kernel
  rcases bind_eq_some_iff.mp ran with ⟨shared, executed, rest⟩
  rcases map_eq_some_iff.mp rest with ⟨state, taken, facts⟩
  simp only [Prod.mk.injEq] at facts
  rcases facts with ⟨tasks, entry, popped, committed⟩
  refine ⟨shared, state, run_of_execute executed, tasks, entry, taken, popped, committed, ?_, ?_⟩
  · intro drops
    have same := drops.unique 0 1 ⟨1000000000, .popping 0⟩ ⟨1000000000, .front⟩
      (by rw [tasks]; rfl) (by rw [tasks]; rfl) rfl nofun nofun
    cases same
  · intro drops
    rcases drops.popped 1 1 (by rw [popped]; exact .head _) with written | empty
    · rw [committed] at written
      simp at written
    · cases empty

end FileWriter

end Rk8s.Slayerfs
