import Mathlib
import Rk8s.Slayerfs.Chunk.Slice
import Rk8s.Slayerfs.Vfs.Page

namespace Rk8s.Slayerfs

open CacheSlice

/-!
# A buffered slice and its life cycle

A slice of the write path starts writable.  Full blocks of a writable slice may
be uploaded while it grows; once it is frozen the rest follows, and when all of
it is stored the slice is uploaded and may be committed.  A failed upload marks
the slice failed, and the next attempt starts from the last stored block.

The operations below are the bodies of the `SliceHandle` methods, each of them
atomic under the lock of the slice.  `SliceState.Valid` is what they keep, and
`SliceState.patch` is what a slice stands for at every stage: its bytes, taken
from the block store as far as they are uploaded and from the pages after that.
-/

inductive SliceStatus where
  | writable
  | readonly
  | uploaded
  | failed
  | committed
deriving DecidableEq

structure SliceState where
  state : SliceStatus
  chunkId : Nat
  sliceId : Option Nat
  offset : Nat
  uploaded : Nat
  uploading : Option (Nat × Nat)
  data : CacheSlice
  err : Option String

/-- The blocks that an upload task sends, with the id and the offset it starts from. -/
structure UploadPlan where
  chunkId : Nat
  data : List (Nat × List Bytes)
  sliceId : Option Nat
  uploaded : Nat

/-- The three outcomes of `try_write`. -/
inductive TryWrite where
  | wrote
  | refused
  | error

/-- The three outcomes of `prepare_upload`. -/
inductive PrepareUpload where
  | plan (plan : UploadPlan)
  | nothing
  | error

namespace SliceState

variable (config : WriteConfig)

def new (chunkId offset : Nat) : SliceState where
  state := .writable
  chunkId := chunkId
  sliceId := none
  offset := offset
  uploaded := 0
  uploading := none
  data := CacheSlice.new config
  err := none

variable (slice : SliceState)

/-- The end of the blocks that are uploaded or being uploaded. -/
def pendingEnd : Nat :=
  max (match slice.uploading with
    | some (_, stop) => stop * config.layout.blockSize
    | none => slice.uploaded) slice.uploaded

def canWrite (slice : SliceState) (offset len : Nat) : Option PageWriteAction :=
  if slice.state ≠ .writable ∨ offset < slice.offset then
    none
  else
    let offToSlice := offset - slice.offset
    if offToSlice < slice.pendingEnd config then none else slice.data.canWrite offToSlice len

/-- The result of the pages' `write`, false standing for its error. -/
def write (slice : SliceState) (offset : Nat) (buf : Bytes) (action : PageWriteAction) :
    SliceState × Bool :=
  let (data, ok) := slice.data.write config (offset - slice.offset) buf action
  ({ slice with data := data }, ok)

/-- Only frozen and failed slices upload a last partial block. -/
def uploadsPartialBlock : Bool :=
  slice.state == .readonly || slice.state == .failed

def hasIdleBlock : Bool :=
  let remaining := slice.data.len - slice.pendingEnd config
  if slice.uploadsPartialBlock then remaining > 0 else remaining ≥ config.layout.blockSize

def idxNeedUpload : Nat × Nat :=
  let start := slice.uploaded / config.layout.blockSize
  let stop :=
    if slice.uploadsPartialBlock then
      if slice.data.len = 0 then 0 else divCeil slice.data.len config.layout.blockSize
    else
      slice.data.len / config.layout.blockSize
  (start, stop)

def tryWrite (offset : Nat) (buf : Bytes) : SliceState × TryWrite :=
  match slice.canWrite config offset buf.length with
  | some action =>
    match slice.write config offset buf action with
    | (written, true) => (written, .wrote)
    | (written, false) => (written, .error)
  | none => (slice, .refused)

/-- Freezes a writable slice; a slice with nothing left to upload is uploaded at once. -/
def freeze (slice : SliceState) : SliceState × Bool :=
  if slice.state = .writable then
    let frozen := { slice with state := .readonly, data := slice.data.freeze }
    if frozen.uploading = none ∧ frozen.hasIdleBlock config = false then
      ({ frozen with state := .uploaded, err := none }, true)
    else
      (frozen, true)
  else
    (slice, false)

def advanceUpload (len : Nat) (needRelease : List Nat) : SliceState :=
  let advanced :=
    { slice with
      uploading := none
      uploaded := slice.uploaded + len
      data := slice.data.releaseBlock config needRelease }
  if advanced.uploadsPartialBlock = true ∧ advanced.hasIdleBlock config = false then
    { advanced with state := .uploaded, err := none }
  else
    advanced

def shouldFreeze : Bool :=
  slice.offset + slice.data.len ≥ config.layout.chunkSize

def canContinueUpload : Bool :=
  slice.hasIdleBlock config && slice.uploading.isNone

def markFailed (err : String) : SliceState :=
  { slice with state := .failed, uploading := none, err := some (slice.err.getD err) }

def prepareUpload : SliceState × PrepareUpload :=
  if slice.uploading.isSome || !slice.hasIdleBlock config then
    (slice, .nothing)
  else
    let (start, stop) := slice.idxNeedUpload config
    if stop ≤ start then
      (slice, .nothing)
    else
      let frozen := { slice with data := slice.data.freezeBlocks config start stop }
      match frozen.data.collectPages config start stop with
      | none => (frozen, .error)
      | some data =>
        ({ frozen with uploading := some (start, stop) },
          .plan ⟨slice.chunkId, data, slice.sliceId, slice.uploaded⟩)

def setSliceId (id : Nat) : SliceState :=
  if slice.sliceId = none then { slice with sliceId := some id } else slice

def descForCommit : Option SliceDesc :=
  match slice.sliceId with
  | none => none
  | some id =>
    if slice.data.len = 0 then none
    else some ⟨id, slice.chunkId, slice.offset, slice.data.len⟩

def markCommitted : SliceState := { slice with state := .committed }

/-! ## The invariant -/

/-- The upload in flight covers the blocks from the last stored one on.  It ends
inside the buffer, or at its end when the buffer no longer grows. -/
structure InFlight (slice : SliceState) (start stop : Nat) : Prop where
  start_eq : start * config.layout.blockSize = slice.uploaded
  proper : start < stop
  more : slice.uploaded < slice.data.len
  reach : stop * config.layout.blockSize ≤ slice.data.len ∨
    slice.state ≠ .writable ∧ slice.data.len ≤ stop * config.layout.blockSize

structure Valid (slice : SliceState) : Prop where
  inside : slice.offset + slice.data.len ≤ config.layout.chunkSize
  sized : slice.data.Sized config
  uploaded_le : slice.uploaded ≤ slice.data.len
  aligned : slice.state ≠ .uploaded -> slice.state ≠ .committed ->
    config.layout.blockSize ∣ slice.uploaded
  finished : slice.state = .uploaded ∨ slice.state = .committed ->
    slice.uploaded = slice.data.len ∧ slice.uploading = none
  identified : 0 < slice.uploaded -> slice.sliceId ≠ none
  inFlight : forall start stop, slice.uploading = some (start, stop) ->
    slice.InFlight config start stop
  thawed : slice.state = .writable ->
    slice.data.MutableFrom (slice.pendingEnd config / config.pageSize)

/-- A byte of the slice: stored, or buffered. -/
def byte (store : BlockStore) (slice : SliceState) (position : Nat) : UInt8 :=
  if position < slice.uploaded then
    slice.sliceId.elim 0 fun id => sliceByte config.layout store id position
  else
    slice.data.byte config position

/-- What the slice will put over the chunk. -/
def patch (store : BlockStore) (slice : SliceState) : Patch UInt8 where
  start := slice.offset
  size := slice.data.len
  value position := slice.byte config store (position - slice.offset)

variable {config} {slice : SliceState} {offset start stop : Nat}

theorem valid_new {chunkId : Nat} (inside : offset ≤ config.layout.chunkSize) :
    (new config chunkId offset).Valid config where
  inside := inside
  sized := sized_new
  uploaded_le := le_refl 0
  aligned _ _ := Nat.dvd_zero _
  finished done := by cases done <;> contradiction
  identified positive := absurd positive (lt_irrefl 0)
  inFlight _ _ upload := by cases upload
  thawed _ flatIdx data _ found := by
    have member := List.mem_of_getElem? found
    cases List.eq_of_mem_replicate member

theorem pendingEnd_of_uploading (upload : slice.uploading = some (start, stop))
    (flight : slice.InFlight config start stop) :
    slice.pendingEnd config = stop * config.layout.blockSize := by
  have grows : start * config.layout.blockSize ≤ stop * config.layout.blockSize :=
    Nat.mul_le_mul_right _ flight.proper.le
  rw [pendingEnd, upload]
  exact max_eq_left (flight.start_eq ▸ grows)

theorem pendingEnd_of_idle (idle : slice.uploading = none) :
    slice.pendingEnd config = slice.uploaded := by
  rw [pendingEnd, idle]
  exact Nat.max_self _

theorem Valid.pendingEnd_le (valid : slice.Valid config) (writable : slice.state = .writable) :
    slice.pendingEnd config ≤ slice.data.len := by
  cases upload : slice.uploading with
  | none =>
    rw [pendingEnd_of_idle upload]
    exact valid.uploaded_le
  | some range =>
    have flight := valid.inFlight range.1 range.2 upload
    rw [pendingEnd_of_uploading upload flight]
    rcases flight.reach with ends | ⟨frozen, _⟩
    · exact ends
    · exact absurd writable frozen

/-! ## Writes -/

/-- The slice took over a write: its buffer changed in the range of the write,
past everything that is uploaded or being uploaded, and has no hole. -/
structure Accepts (config : WriteConfig) (slice : SliceState) (offset : Nat) (buf : Bytes)
    (written : SliceState) : Prop where
  writable : slice.state = .writable
  frame : written = { slice with data := written.data }
  above : slice.offset + slice.pendingEnd config ≤ offset
  contiguous : offset ≤ slice.offset + slice.data.len
  len : written.data.len = max slice.data.len (offset - slice.offset + buf.length)
  wrote : slice.data.Wrote config (offset - slice.offset) buf written.data

variable {action : PageWriteAction}

theorem canWrite_eq_some {len : Nat} (allowed : slice.canWrite config offset len = some action) :
    slice.state = .writable ∧ slice.offset + slice.pendingEnd config ≤ offset ∧
      slice.data.canWrite (offset - slice.offset) len = some action := by
  unfold canWrite at allowed
  split_ifs at allowed with refused
  dsimp only at allowed
  split_ifs at allowed with before
  rw [not_or, not_not] at refused
  exact ⟨refused.1, by omega, allowed⟩

variable {buf : Bytes}

section

variable (valid : slice.Valid config) (fits : offset + buf.length ≤ config.layout.chunkSize)
include valid fits

/-- The pages accept every write that `can_write` allows. -/
theorem write_spec (allowed : slice.canWrite config offset buf.length = some action) :
    ∃ written, slice.write config offset buf action = (written, true) ∧
      slice.Accepts config offset buf written := by
  rcases canWrite_eq_some allowed with ⟨writable, above, pages⟩
  have thawed := valid.thawed writable
  have reached : slice.pendingEnd config / config.pageSize * config.pageSize ≤
      offset - slice.offset := by
    have whole := Nat.div_mul_le_self (slice.pendingEnd config) config.pageSize
    omega
  unfold CacheSlice.canWrite at pages
  split_ifs at pages with appends overlaps
  · cases pages
    have atEnd : slice.data.len = offset - slice.offset := by
      simpa [CacheSlice.canAppend] using appends
    rcases append_spec valid.sized thawed buf (by omega) (by omega) with
      ⟨data, ran, wrote, grown⟩
    refine ⟨{ slice with data := data }, ?_, writable, rfl, above, by omega, ?_, ?_⟩
    · simp only [write, CacheSlice.write, ran]
    · dsimp only
      omega
    · rwa [← atEnd]
  cases pages
  have before : offset - slice.offset + buf.length ≤ slice.data.len := by
    simpa [CacheSlice.canWriteAt] using overlaps
  rcases writeAt_spec valid.sized thawed (offset - slice.offset) buf
    (by omega) reached with ⟨data, ran, wrote, kept⟩
  refine ⟨{ slice with data := data }, ?_, writable, rfl, above, by omega, ?_, wrote⟩
  · simp only [write, CacheSlice.write, ran]
  · dsimp only
    omega

/-- A write is accepted or refused; the pages never return an error. -/
theorem tryWrite_spec :
    slice.tryWrite config offset buf = (slice, .refused) ∨
      ∃ written, slice.tryWrite config offset buf = (written, .wrote) ∧
        slice.Accepts config offset buf written := by
  unfold tryWrite
  cases allowed : slice.canWrite config offset buf.length with
  | none => exact .inl rfl
  | some action =>
    rcases write_spec valid fits allowed with ⟨written, ran, accepts⟩
    refine .inr ⟨written, ?_, accepts⟩
    simp only [ran]

end

variable {written other : SliceState}

section

variable (accepts : slice.Accepts config offset buf written) {position : Nat}
include accepts

theorem Accepts.valid
    (fits : offset + buf.length ≤ config.layout.chunkSize) (valid : slice.Valid config) :
    written.Valid config := by
  have inside := valid.inside
  have uploaded := valid.uploaded_le
  obtain ⟨unfrozen, frame, above, _, grows, wrote⟩ := accepts
  generalize written.data = data at frame grows wrote
  subst frame
  refine ⟨?_, wrote.sized, ?_, valid.aligned, ?_, valid.identified, ?_, ?_⟩
  · dsimp only
    omega
  · dsimp only
    omega
  · intro done
    rw [unfrozen] at done
    cases done <;> contradiction
  · intro start stop upload
    have flight := valid.inFlight start stop upload
    refine ⟨flight.start_eq, flight.proper, ?_, ?_⟩
    · have := flight.more
      dsimp only
      omega
    rcases flight.reach with ends | ⟨frozen, _⟩
    · left
      dsimp only
      omega
    · exact absurd unfrozen frozen
  · intro writable
    exact wrote.mutableFrom _ (valid.thawed writable)

theorem Accepts.patch_of_covers
    (store : BlockStore) (covered : (bufPatch offset buf).Covers position) :
    (written.patch config store).Covers position ∧
      (written.patch config store).value position = (bufPatch offset buf).value position := by
  obtain ⟨_, frame, above, _, grows, wrote⟩ := accepts
  have pending : slice.uploaded ≤ slice.pendingEnd config := le_max_right ..
  generalize written.data = data at frame grows wrote
  subst frame
  have from_ : offset ≤ position := covered.1
  have below : position < offset + buf.length := covered.2
  refine ⟨⟨?_, ?_⟩, ?_⟩
  · change slice.offset ≤ position
    omega
  · change position < slice.offset + data.len
    omega
  change (if position - slice.offset < slice.uploaded then _
    else data.byte config (position - slice.offset)) = buf.getD (position - offset) 0
  rw [if_neg (by omega), wrote.byte, if_pos (by omega)]
  congr 1
  omega

theorem Accepts.patch_of_not_covers
    (store : BlockStore) (uncovered : ¬ (bufPatch offset buf).Covers position) :
    ((written.patch config store).Covers position ↔ (slice.patch config store).Covers position) ∧
      ((slice.patch config store).Covers position ->
        (written.patch config store).value position =
          (slice.patch config store).value position) := by
  obtain ⟨_, frame, above, contiguous, grows, wrote⟩ := accepts
  generalize written.data = data at frame grows wrote
  subst frame
  have outside : ¬ (offset ≤ position ∧ position < offset + buf.length) := uncovered
  constructor
  · change slice.offset ≤ position ∧ position < slice.offset + data.len ↔
      slice.offset ≤ position ∧ position < slice.offset + slice.data.len
    omega
  rintro ⟨start, _⟩
  have start : slice.offset ≤ position := start
  change (if position - slice.offset < slice.uploaded then _
    else data.byte config (position - slice.offset)) =
    if position - slice.offset < slice.uploaded then _
    else slice.data.byte config (position - slice.offset)
  rw [wrote.byte, if_neg (c := offset - slice.offset ≤ _ ∧ _) (by omega)]

end

/-! ## The other operations -/

/-- Two stages of a slice with the same bytes in the same places. -/
structure SameBytes (config : WriteConfig) (first second : SliceState) : Prop where
  offset : second.offset = first.offset
  sliceId : second.sliceId = first.sliceId
  uploaded : second.uploaded = first.uploaded
  len : second.data.len = first.data.len
  byte : forall position, second.data.byte config position = first.data.byte config position

theorem SameBytes.patch_eq (same : slice.SameBytes config other)
    (store : BlockStore) : other.patch config store = slice.patch config store := by
  simp only [patch, SliceState.byte, same.offset, same.len, same.uploaded, same.sliceId, same.byte]

/-- The patch depends on the stored part of the slice only. -/
theorem patch_agrees_of_store {store other : BlockStore}
    (same : ∀ id position, slice.sliceId = some id -> position < slice.uploaded ->
      sliceByte config.layout other id position = sliceByte config.layout store id position) :
    (slice.patch config other).Agrees (slice.patch config store) := by
  refine ⟨rfl, rfl, fun position _ => ?_⟩
  change slice.byte config other _ = slice.byte config store _
  unfold SliceState.byte
  split_ifs with stored
  · cases known : slice.sliceId with
    | none => rfl
    | some id => exact same id _ known stored
  · rfl

theorem hasIdleBlock_of_closed (frozen : slice.uploadsPartialBlock = true) :
    slice.hasIdleBlock config = decide (slice.pendingEnd config < slice.data.len) := by
  simp only [hasIdleBlock, frozen, if_true, Nat.sub_pos_iff_lt]

variable (valid : slice.Valid config)
include valid

/-- A slice that is not writable any more and has kept its bytes is valid, if
its new status is in order. -/
theorem Valid.restate (same : slice.SameBytes config other) (sized : other.data.Sized config)
    (closed : other.state ≠ .writable)
    (aligned : other.state ≠ .uploaded -> other.state ≠ .committed ->
      config.layout.blockSize ∣ slice.uploaded)
    (finished : other.state = .uploaded ∨ other.state = .committed ->
      slice.uploaded = slice.data.len ∧ other.uploading = none)
    (flights : ∀ start stop, other.uploading = some (start, stop) ->
      slice.uploading = some (start, stop)) : other.Valid config where
  inside := by
    rw [same.offset, same.len]
    exact valid.inside
  sized := sized
  uploaded_le := by
    rw [same.uploaded, same.len]
    exact valid.uploaded_le
  aligned := by
    rw [same.uploaded]
    exact aligned
  finished := by
    rw [same.uploaded, same.len]
    exact finished
  identified := by
    rw [same.uploaded, same.sliceId]
    exact valid.identified
  inFlight start stop upload := by
    have flight := valid.inFlight start stop (flights start stop upload)
    refine ⟨?_, flight.proper, ?_, ?_⟩
    · rw [same.uploaded]
      exact flight.start_eq
    · rw [same.uploaded, same.len]
      exact flight.more
    · rw [same.len]
      exact flight.reach.imp_right fun ends => ⟨closed, ends.2⟩
  thawed writable := absurd writable closed

omit valid in
theorem freeze_state_committed (committed : (slice.freeze config).1.state = .committed) :
    slice.state = .committed := by
  by_cases writable : slice.state = .writable
  · rw [freeze, if_pos writable] at committed
    dsimp only at committed
    split_ifs at committed
  · rwa [freeze, if_neg writable] at committed

theorem freeze_spec :
    (slice.freeze config).1.Valid config ∧ slice.SameBytes config (slice.freeze config).1 ∧
      (slice.freeze config).1.uploading = slice.uploading := by
  by_cases writable : slice.state = .writable
  swap
  · rw [freeze, if_neg writable]
    exact ⟨valid, ⟨rfl, rfl, rfl, rfl, fun _ => rfl⟩, rfl⟩
  have aligned := valid.aligned (by rw [writable]; decide) (by rw [writable]; decide)
  have same : ∀ state err, slice.SameBytes config
      { slice with state := state, data := slice.data.freeze, err := err } :=
    fun _ _ => ⟨rfl, rfl, rfl, rfl, byte_freeze slice.data⟩
  have sized := sized_freeze valid.sized
  rw [freeze, if_pos writable]
  dsimp only
  split_ifs with stored
  · refine ⟨valid.restate (same _ _) sized nofun (fun _ _ => aligned) (fun _ => ?_)
      (fun _ _ => id), same _ _, rfl⟩
    have remaining := stored.2
    rw [hasIdleBlock_of_closed rfl, decide_eq_false_iff_not, pendingEnd_of_idle
      (show ({ slice with state := .readonly, data := slice.data.freeze } : SliceState).uploading = none
        from stored.1)] at remaining
    have below := valid.uploaded_le
    have above : ¬ slice.uploaded < slice.data.len := remaining
    exact ⟨by omega, stored.1⟩
  · exact ⟨valid.restate (same _ _) sized nofun (fun _ _ => aligned)
      (fun done => by cases done <;> contradiction) (fun _ _ => id), same _ _, rfl⟩

theorem markFailed_spec (upload : slice.uploading = some (start, stop)) (err : String) :
    (slice.markFailed err).Valid config ∧ slice.SameBytes config (slice.markFailed err) := by
  have same : slice.SameBytes config (slice.markFailed err) :=
    ⟨rfl, rfl, rfl, rfl, fun _ => rfl⟩
  refine ⟨valid.restate same valid.sized nofun (fun _ _ => ?_)
    (fun done => by cases done <;> contradiction) nofun, same⟩
  exact (valid.inFlight start stop upload).start_eq ▸ Nat.dvd_mul_left ..

theorem markCommitted_spec (done : slice.state = .uploaded) :
    slice.markCommitted.Valid config ∧ slice.SameBytes config slice.markCommitted := by
  have same : slice.SameBytes config slice.markCommitted := ⟨rfl, rfl, rfl, rfl, fun _ => rfl⟩
  exact ⟨valid.restate same valid.sized nofun (fun _ other => absurd rfl other)
    (fun _ => valid.finished (.inl done)) (fun _ _ => id), same⟩

theorem setSliceId_spec (id : Nat) (store : BlockStore) :
    (slice.setSliceId id).Valid config ∧
      (slice.setSliceId id).patch config store = slice.patch config store := by
  rw [setSliceId]
  split_ifs with missing
  · have nothing : slice.uploaded = 0 := by
      by_contra positive
      exact valid.identified (pos_of_ne_zero positive) missing
    refine ⟨{ valid with identified := fun _ => by simp, inFlight := ?_ }, ?_⟩
    · exact fun start stop upload => { valid.inFlight start stop upload with }
    · simp only [patch, SliceState.byte, nothing, Nat.not_lt_zero, if_false]
  · exact ⟨valid, rfl⟩

end SliceState

end Rk8s.Slayerfs
