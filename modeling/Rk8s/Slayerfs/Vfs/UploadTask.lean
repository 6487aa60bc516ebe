import Rk8s.Slayerfs.Chunk.Writer
import Rk8s.Slayerfs.Vfs.SliceState

namespace Rk8s.Slayerfs

open CacheSlice SliceState List Nat

/-!
# The upload task of a slice

`spawn_upload_task` takes a plan from the slice, asks for a slice id if the
slice has none, stores the blocks and reports back with `advance_upload` or
`mark_failed`.  Between these steps the slice is not locked, so it can be
written to, frozen or failed in the meantime.

`Carries` relates the task to the slice during that time: the task holds the
bytes that the slice has in the blocks it marked as being uploaded, and nothing
the slice does while it waits changes them.
-/

/-- The local variables of an upload task after `prepare_upload`.  `stored` is
set once an attempt to write the blocks has succeeded. -/
structure UploadTask where
  plan : UploadPlan
  sliceId : Option Nat
  stored : Bool

namespace UploadTask

def ofPlan (plan : UploadPlan) : UploadTask := ⟨plan, plan.sliceId, false⟩

variable (task : UploadTask)

def allChunks : List Bytes := task.plan.data.flatMap Prod.snd

def dataLen : Nat := (task.allChunks.map List.length).sum

def indices : List Nat := task.plan.data.map Prod.fst

theorem flatten_allChunks :
    task.allChunks.flatten = (task.plan.data.map fun block => block.2.flatten).flatten := by
  rw [allChunks]
  induction task.plan.data with
  | nil => rfl
  | cons block blocks ih =>
    rw [flatMap_cons, flatten_append, ih, map_cons, flatten_cons]

/-- The task holds the bytes of the blocks `start` to `stop` of the slice. -/
structure Carries (config : WriteConfig) (slice : SliceState) (task : UploadTask)
    (start stop : Nat) : Prop where
  uploading : slice.uploading = some (start, stop)
  indices : task.indices = List.range' start (stop - start)
  offset : task.plan.uploaded = slice.uploaded
  sliceId : task.sliceId = slice.sliceId
  payload : task.allChunks.flatten = slice.data.segment config slice.uploaded
    (min (slice.data.len - slice.uploaded) ((stop - start) * config.layout.blockSize))

/-- The bytes of the task are in the block store. -/
def IsStored (config : WriteConfig) (store : BlockStore) (slice : SliceState) (task : UploadTask) :
    Prop :=
  Exists fun id => slice.sliceId = some id ∧
    forall position, slice.uploaded ≤ position -> position < slice.uploaded + task.dataLen ->
      sliceByte config.layout store id position = slice.data.byte config position

end UploadTask

variable {config : WriteConfig} {slice : SliceState}

namespace SliceState

variable (valid : slice.Valid config)
include valid

theorem idle_of_hasIdleBlock (idle : slice.hasIdleBlock config = true) :
    slice.state ≠ .uploaded ∧ slice.state ≠ .committed := by
  by_contra done
  have finished : slice.state = .uploaded ∨ slice.state = .committed := by
    by_contra neither
    exact done (not_or.mp neither)
  rcases valid.finished finished with ⟨stored, none_⟩
  have closed : slice.uploadsPartialBlock = false := by
    rcases finished with state | state <;> rw [uploadsPartialBlock, state] <;> rfl
  have positive := config.layout.blockSize_pos
  rw [hasIdleBlock, closed, pendingEnd_of_idle none_, stored, Nat.sub_self] at idle
  have full : config.layout.blockSize ≤ 0 := of_decide_eq_true idle
  omega

/-- The blocks that an idle slice uploads next. -/
theorem idxNeedUpload_spec (none_ : slice.uploading = none)
    (idle : slice.hasIdleBlock config = true) :
    (slice.idxNeedUpload config).1 * config.layout.blockSize = slice.uploaded ∧
      slice.uploaded < slice.data.len ∧
      (slice.idxNeedUpload config).2 * config.layout.blockSize ≤ config.layout.chunkSize ∧
      ((slice.idxNeedUpload config).2 * config.layout.blockSize ≤ slice.data.len ∨
        slice.state ≠ .writable ∧
          slice.data.len ≤ (slice.idxNeedUpload config).2 * config.layout.blockSize) := by
  have open_ := idle_of_hasIdleBlock valid idle
  have positive := config.layout.blockSize_pos
  have inside := valid.inside
  have start : slice.uploaded / config.layout.blockSize * config.layout.blockSize = slice.uploaded :=
    Nat.div_mul_cancel (valid.aligned open_.1 open_.2)
  cases closed : slice.uploadsPartialBlock with
  | false =>
    rw [hasIdleBlock, closed, pendingEnd_of_idle none_] at idle
    have full : config.layout.blockSize ≤ slice.data.len - slice.uploaded := of_decide_eq_true idle
    have ends := div_mul_le_self slice.data.len config.layout.blockSize
    simp only [idxNeedUpload, closed]
    exact ⟨start, by omega, by simp only [Bool.false_eq_true, if_false]; omega, .inl ends⟩
  | true =>
    rw [hasIdleBlock, closed, pendingEnd_of_idle none_] at idle
    have more : slice.data.len - slice.uploaded > 0 := of_decide_eq_true idle
    have whole := Nat.div_mul_cancel config.layout.blockSize_dvd
    have blocks : divCeil slice.data.len config.layout.blockSize ≤
        config.layout.chunkSize / config.layout.blockSize :=
      (divCeil_le_iff positive).mpr (by omega)
    have bound := mul_le_mul_right config.layout.blockSize blocks
    have notWritable : slice.state ≠ .writable := by
      intro writable
      rw [uploadsPartialBlock, writable] at closed
      cases closed
    simp only [idxNeedUpload, closed, if_true, if_neg (show ¬ slice.data.len = 0 by omega)]
    exact ⟨start, by omega, by omega, .inr ⟨notWritable, (divCeil_le_iff positive).mp le_rfl⟩⟩

/-- `prepare_upload` has nothing to do or hands out a plan with the bytes of its
blocks; collecting the pages never fails. -/
theorem prepareUpload_spec :
    slice.prepareUpload config = (slice, .nothing) ∨
      ∃ prepared plan, ∃ start stop,
        slice.prepareUpload config = (prepared, .plan plan) ∧ slice.uploading = none ∧
        prepared.state = slice.state ∧ prepared.Valid config ∧
        slice.SameBytes config prepared ∧
        UploadTask.Carries config prepared (UploadTask.ofPlan plan) start stop := by
  unfold prepareUpload
  split_ifs with busy
  · exact .inl rfl
  rw [Bool.not_eq_true, Bool.or_eq_false_iff, Option.isSome_eq_false_iff, Option.isNone_iff_eq_none,
    Bool.not_eq_false'] at busy
  rcases busy with ⟨none_, idle⟩
  rcases idxNeedUpload_spec valid none_ idle with ⟨first, more, room, reach⟩
  generalize slice.idxNeedUpload config = blocks at first room reach ⊢
  rcases blocks with ⟨start, stop⟩
  dsimp only at first room reach ⊢
  split_ifs with nothing
  · exact .inl rfl
  right
  have pages : stop * config.pagesPerBlock ≤ slice.data.pages.length := by
    have scaled : stop * config.pagesPerBlock * config.pageSize ≤
        slice.data.pages.length * config.pageSize := by
      rw [mul_assoc, config.pagesPerBlock_mul, valid.sized.room]
      exact room
    exact le_of_mul_le_mul_right scaled config.pageSize_pos
  have sized := sized_freezeBlocks start stop valid.sized
  have whole : start + (stop - start) = stop := by omega
  have remaining : (slice.data.freezeBlocks config start stop).len -
      start * config.layout.blockSize ≠ 0 := by
    rw [first, CacheSlice.freezeBlocks]
    dsimp only
    omega
  rcases collectBlocks_spec start (stop - start)
    ((slice.data.freezeBlocks config start stop).len - start * config.layout.blockSize) sized
    (by rw [whole]; exact frozenBlocks_freezeBlocks slice.data start stop)
    (by rw [whole, CacheSlice.freezeBlocks, length_mapIdx]; exact pages) with
    ⟨data, collected, indices, payload⟩
  rw [CacheSlice.collectPages, if_neg remaining, collected]
  have same : slice.SameBytes config
      { slice with
        data := slice.data.freezeBlocks config start stop
        uploading := some (start, stop) } :=
    ⟨rfl, rfl, rfl, rfl, byte_freezeBlocks slice.data start stop⟩
  have flight : InFlight config
      { slice with
        data := slice.data.freezeBlocks config start stop
        uploading := some (start, stop) } start stop :=
    ⟨first, Nat.lt_of_not_le nothing, more, reach⟩
  refine ⟨_, _, start, stop, rfl, none_, rfl, ?_, same, ⟨rfl, indices, rfl, rfl, ?_⟩⟩
  swap
  · rw [UploadTask.flatten_allChunks]
    change (data.map fun block => block.2.flatten).flatten = _
    rw [payload, first]
  refine ⟨valid.inside, sized, valid.uploaded_le, valid.aligned, ?_, valid.identified, ?_, ?_⟩
  · intro done
    have open_ := idle_of_hasIdleBlock valid idle
    exact absurd done (not_or.mpr open_)
  · intro start' stop' upload
    cases upload
    exact flight
  intro writable
  rw [pendingEnd_of_uploading rfl flight]
  have last : stop * config.layout.blockSize / config.pageSize =
      stop * config.pagesPerBlock := by
    rw [← config.pagesPerBlock_mul, ← mul_assoc,
      Nat.mul_div_cancel _ config.pageSize_pos]
  have old := valid.thawed writable
  rw [pendingEnd_of_idle none_] at old
  rw [last]
  refine mutableFrom_freezeBlocks le_rfl (old.mono ?_)
  rw [← last]
  apply Nat.div_le_div_right
  rw [← first]
  exact mul_le_mul_right _ (by omega)

end SliceState

/-! ## The task while it waits -/

namespace UploadTask

variable {task : UploadTask} {start stop : Nat} {other written : SliceState} {buf : Bytes}
  {offset : Nat}

section

variable (carries : Carries config slice task start stop)
include carries

theorem Carries.dataLen_eq :
    task.dataLen =
      min (slice.data.len - slice.uploaded) ((stop - start) * config.layout.blockSize) := by
  rw [dataLen, ← length_flatten, carries.payload, length_segment]

/-- The task ends where the pending blocks end, or with the slice. -/
theorem Carries.end_eq (valid : slice.Valid config) :
    slice.uploaded + task.dataLen = min slice.data.len (stop * config.layout.blockSize) := by
  have flight := valid.inFlight start stop carries.uploading
  have blocks : (stop - start) * config.layout.blockSize =
      stop * config.layout.blockSize - slice.uploaded := by
    rw [Nat.sub_mul, flight.start_eq]
  have grows : start * config.layout.blockSize ≤ stop * config.layout.blockSize :=
    mul_le_mul_right _ flight.proper.le
  have begins := flight.start_eq
  have more := flight.more
  rw [carries.dataLen_eq, blocks]
  omega

theorem Carries.sameBytes (same : slice.SameBytes config other)
    (uploading : other.uploading = slice.uploading) :
    Carries config other task start stop where
  uploading := uploading.trans carries.uploading
  indices := carries.indices
  offset := carries.offset.trans same.uploaded.symm
  sliceId := carries.sliceId.trans same.sliceId.symm
  payload := by
    rw [carries.payload, same.uploaded, same.len]
    exact (segment_congr fun i _ => same.byte _).symm

/-- A write the slice accepts lies past the blocks of the task. -/
theorem Carries.accepts (valid : slice.Valid config)
    (accepts : slice.Accepts config offset buf written) :
    Carries config written task start stop := by
  have flight := valid.inFlight start stop carries.uploading
  have ends := valid.pendingEnd_le accepts.writable
  rw [pendingEnd_of_uploading carries.uploading flight] at ends
  have above := accepts.above
  rw [pendingEnd_of_uploading carries.uploading flight] at above
  have blocks : (stop - start) * config.layout.blockSize =
      stop * config.layout.blockSize - slice.uploaded := by
    rw [Nat.sub_mul, flight.start_eq]
  have payload := carries.payload
  have frame := accepts.frame
  have grows := accepts.len
  have wrote := accepts.wrote
  generalize written.data = data at frame grows wrote
  subst frame
  refine { carries with payload := ?_ }
  rw [payload]
  dsimp only
  rw [min_eq_right (by omega), min_eq_right (by omega)]
  refine (segment_congr fun i inside => ?_).symm
  rw [wrote.byte, if_neg (by omega)]

theorem Carries.setSliceId (id : Nat) (missing : task.sliceId = none) :
    Carries config (slice.setSliceId id) { task with sliceId := some id } start stop := by
  have unset : slice.sliceId = none := carries.sliceId.symm.trans missing
  rw [SliceState.setSliceId, if_pos unset]
  exact { carries with sliceId := rfl }

end

variable {store : BlockStore}

section

variable (stored : IsStored config store slice task)
include stored

theorem IsStored.sameBytes (same : slice.SameBytes config other) :
    IsStored config store other task := by
  rcases stored with ⟨id, known, bytes⟩
  refine ⟨id, same.sliceId.trans known, ?_⟩
  intro position from_ below
  rw [same.uploaded] at from_ below
  rw [same.byte]
  exact bytes position from_ below

theorem IsStored.accepts
    (carries : Carries config slice task start stop) (valid : slice.Valid config)
    (accepts : slice.Accepts config offset buf written) :
    IsStored config store written task := by
  rcases stored with ⟨id, known, bytes⟩
  have flight := valid.inFlight start stop carries.uploading
  have above := accepts.above
  rw [pendingEnd_of_uploading carries.uploading flight] at above
  have ends := carries.end_eq valid
  have frame := accepts.frame
  have wrote := accepts.wrote
  generalize written.data = data at frame wrote
  subst frame
  refine ⟨id, known, fun position from_ below => ?_⟩
  have below : position < slice.uploaded + task.dataLen := below
  rw [wrote.byte, if_neg (by omega)]
  exact bytes position from_ below

/-- The store may change for other slices. -/
theorem IsStored.congr {other : BlockStore}
    (same : ∀ id index, slice.sliceId = some id -> other (id, index) = store (id, index)) :
    IsStored config other slice task := by
  rcases stored with ⟨id, known, bytes⟩
  refine ⟨id, known, fun position from_ below => ?_⟩
  rw [sliceByte_congr fun index => same id index known]
  exact bytes position from_ below

/-! ## The end of the task -/

end

/-- The slice after an upload, before its status is reconsidered. -/
private def advanced (config : WriteConfig) (slice : SliceState) (task : UploadTask) : SliceState :=
  { slice with
    uploading := none
    uploaded := slice.uploaded + task.dataLen
    data := slice.data.releaseBlock config task.indices }

theorem advanceUpload_eq (config : WriteConfig) (slice : SliceState) (task : UploadTask) :
    slice.advanceUpload config task.dataLen task.indices =
      if slice.uploadsPartialBlock = true ∧ slice.data.len ≤ slice.uploaded + task.dataLen then
        { advanced config slice task with state := .uploaded, err := none }
      else
        advanced config slice task := by
  have pending : (advanced config slice task).pendingEnd config = slice.uploaded + task.dataLen :=
    pendingEnd_of_idle rfl
  change (if slice.uploadsPartialBlock = true ∧
    (advanced config slice task).hasIdleBlock config = false then _ else _) = _
  cases closed : slice.uploadsPartialBlock with
  | false => rfl
  | true =>
    have idle : (advanced config slice task).hasIdleBlock config = false ↔
        slice.data.len ≤ slice.uploaded + task.dataLen := by
      rw [hasIdleBlock_of_closed
        (show (advanced config slice task).uploadsPartialBlock = true from closed), pending,
        decide_eq_false_iff_not, not_lt]
      rfl
    simp only [idle]
    rfl

variable (valid : slice.Valid config) (carries : Carries config slice task start stop)
  (stored : IsStored config store slice task)
include valid carries stored

/-- The stored blocks take the place of the released pages. -/
theorem advanced_patch_agrees :
    ((advanced config slice task).patch config store).Agrees (slice.patch config store) := by
  rcases stored with ⟨id, known, bytes⟩
  have ends := carries.end_eq valid
  refine ⟨rfl, rfl, ?_⟩
  rintro position ⟨above, below⟩
  have above : slice.offset ≤ position := above
  have below : position < slice.offset + slice.data.len := below
  change (if position - slice.offset < slice.uploaded + task.dataLen then
      slice.sliceId.elim 0 fun id => sliceByte config.layout store id (position - slice.offset)
    else (slice.data.releaseBlock config task.indices).byte config (position - slice.offset)) =
    if position - slice.offset < slice.uploaded then
      slice.sliceId.elim 0 fun id => sliceByte config.layout store id (position - slice.offset)
    else slice.data.byte config (position - slice.offset)
  by_cases old : position - slice.offset < slice.uploaded
  · rw [if_pos old, if_pos (by omega)]
  rw [if_neg old]
  split_ifs with sent
  · rw [known]
    exact bytes _ (by omega) sent
  apply byte_releaseBlock
  rw [carries.indices, mem_range'_1]
  rintro ⟨_, inside⟩
  have block : stop ≤ (position - slice.offset) / config.layout.blockSize := by
    rw [le_div_iff_mul_le config.layout.blockSize_pos]
    omega
  omega

theorem advanceUpload_spec :
    (slice.advanceUpload config task.dataLen task.indices).Valid config ∧
      ((slice.advanceUpload config task.dataLen task.indices).patch config store).Agrees
        (slice.patch config store) ∧
      (slice.advanceUpload config task.dataLen task.indices).uploading = none ∧
      (slice.advanceUpload config task.dataLen task.indices).sliceId = slice.sliceId := by
  have agrees := advanced_patch_agrees valid carries stored
  rcases stored with ⟨id, known, bytes⟩
  have ends := carries.end_eq valid
  have flight := valid.inFlight start stop carries.uploading
  have open_ : slice.state ≠ .uploaded ∧ slice.state ≠ .committed := by
    rw [← not_or]
    intro done
    have none_ := (valid.finished done).2
    rw [carries.uploading] at none_
    cases none_
  have sized := sized_releaseBlock task.indices valid.sized
  have inside := valid.inside
  rw [advanceUpload_eq]
  split_ifs with complete
  · refine ⟨?_, agrees, rfl, rfl⟩
    refine ⟨inside, sized, ?_, fun not_ => absurd rfl not_, fun _ => ⟨?_, rfl⟩, fun _ => ?_,
      nofun, nofun⟩
    · change slice.uploaded + task.dataLen ≤ slice.data.len
      omega
    · change slice.uploaded + task.dataLen = slice.data.len
      omega
    · change slice.sliceId ≠ none
      rw [known]
      exact Option.some_ne_none id
  have whole : slice.uploaded + task.dataLen = stop * config.layout.blockSize := by
    rcases flight.reach with short | ⟨closed, long⟩
    · omega
    exfalso
    apply complete
    constructor
    · cases state : slice.state with
      | writable => exact absurd state closed
      | uploaded => exact absurd state open_.1
      | committed => exact absurd state open_.2
      | readonly | failed => rw [SliceState.uploadsPartialBlock, state]; rfl
    · omega
  refine ⟨?_, agrees, rfl, rfl⟩
  refine ⟨inside, sized, ?_, fun _ _ => ?_, fun done => ?_, fun _ => ?_,
    nofun, fun writable => ?_⟩
  · change slice.uploaded + task.dataLen ≤ slice.data.len
    omega
  · change config.layout.blockSize ∣ slice.uploaded + task.dataLen
    rw [whole]
    exact dvd_mul_left ..
  · exact absurd done (not_or.mpr open_)
  · change slice.sliceId ≠ none
    rw [known]
    exact Option.some_ne_none id
  · have thawed := valid.thawed writable
    rw [pendingEnd_of_uploading carries.uploading flight, ← whole] at thawed
    rw [pendingEnd_of_idle (show (advanced config slice task).uploading = none from rfl)]
    exact mutableFrom_releaseBlock task.indices thawed

end UploadTask

end Rk8s.Slayerfs
