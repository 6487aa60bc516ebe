import Rk8s.Slayerfs.Vfs.UploadTask

namespace Rk8s.Slayerfs

open SliceState Option DataUploader

/-!
# A slice together with its upload task

The background work on a slice is a small state machine of its own.  Its steps
lock the slice, the block store or the id counter, one at a time, and do not
look at the rest of the writer.  `SliceCell.step` lists them; the writer models
interleave these steps freely with their own.

`SliceCell.step_spec` is all that they need to know: whatever step is taken, the
slice goes on standing for the same bytes, only blocks of that slice change, and
a slice whose upload is complete does not change at all.
-/

structure SliceCell where
  slice : SliceState
  task : Option UploadTask

namespace SliceCell

/-- The steps of freezing and uploading a slice.  `assignId` is a successful
`next_id`; the two attempts are runs of `write_at_vectored`, of which a failed
one stores the listed blocks only. -/
inductive Action where
  | freeze
  | prepareUpload
  | assignId (id : Nat)
  | attemptFails (landed : List Nat)
  | attemptSucceeds
  | advanceUpload
  | failUpload (err : String)

/-- What a step reads and writes outside the slice: the block store and the ids
that were handed out. -/
structure Backend where
  store : BlockStore
  usedIds : List Nat

def step (config : WriteConfig) (backend : Backend) (cell : SliceCell) :
    Action -> Option (SliceCell × Backend)
  | .freeze => some ({ cell with slice := (cell.slice.freeze config).1 }, backend)
  | .prepareUpload =>
    match cell.slice.prepareUpload config with
    | (slice, .plan plan) => some (⟨slice, some (UploadTask.ofPlan plan)⟩, backend)
    | (_, .nothing) => some (cell, backend)
    | (slice, .error) =>
      some ({ cell with slice := slice.markFailed "prepare_upload failed" }, backend)
  | .assignId id => do
      let task <- cell.task
      if task.sliceId = none ∧ id ∉ backend.usedIds then
        some (⟨cell.slice.setSliceId id, some { task with sliceId := some id }⟩,
          { backend with usedIds := id :: backend.usedIds })
      else
        none
  | .attemptFails landed => do
      let task <- cell.task
      let id <- task.sliceId
      if task.stored then
        none
      else
        let store <- failedWriteAtVectored config.layout backend.store id
          task.plan.uploaded task.allChunks landed
        some (cell, { backend with store := store })
  | .attemptSucceeds => do
      let task <- cell.task
      let id <- task.sliceId
      if task.stored then
        none
      else
        let store <- writeAtVectored config.layout backend.store id
          task.plan.uploaded task.allChunks
        some ({ cell with task := some { task with stored := true } },
          { backend with store := store })
  | .advanceUpload => do
      let task <- cell.task
      if task.stored then
        some (⟨cell.slice.advanceUpload config task.dataLen task.indices, none⟩, backend)
      else
        none
  | .failUpload err => do
      let task <- cell.task
      if task.stored then none else some (⟨cell.slice.markFailed err, none⟩, backend)

/-- The slice is valid, and the task carries its pending blocks if there is one. -/
structure Inv (config : WriteConfig) (store : BlockStore) (cell : SliceCell) : Prop where
  valid : cell.slice.Valid config
  idle : cell.task = none -> cell.slice.uploading = none
  carries : forall task, cell.task = some task -> Exists fun start => Exists fun stop =>
    UploadTask.Carries config cell.slice task start stop
  stored : forall task, cell.task = some task -> task.stored = true ->
    UploadTask.IsStored config store cell.slice task

/-- Nothing is left to do for the slice but to commit it. -/
def Done (cell : SliceCell) : Prop :=
  cell.slice.state = .uploaded ∨ cell.slice.state = .committed

/-- What a step changes, as far as the rest of the writer can see. -/
structure Effect (config : WriteConfig) (backend : Backend) (cell : SliceCell)
    (next : SliceCell) (after : Backend) : Prop where
  inv : next.Inv config after.store
  agrees : (next.slice.patch config after.store).Agrees (cell.slice.patch config backend.store)
  blocks : forall key : BlockKey, cell.slice.sliceId ≠ some key.1 ->
    after.store key = backend.store key
  ids : next.slice.sliceId = cell.slice.sliceId ∧ after.usedIds = backend.usedIds ∨
    cell.slice.sliceId = none ∧ Exists fun id => id ∉ backend.usedIds ∧
      next.slice.sliceId = some id ∧ after.usedIds = id :: backend.usedIds
  notCommitted : next.slice.state = .committed -> cell.slice.state = .committed
  done : cell.Done -> next = cell ∧ after = backend

variable {config : WriteConfig} {backend after : Backend} {cell next : SliceCell}
  {task : UploadTask} {store : BlockStore}

/-- A cell with a task is not done. -/
theorem Inv.not_done (inv : cell.Inv config store)
    (running : cell.task = some task) : ¬ cell.Done := by
  intro done
  rcases inv.carries task running with ⟨start, stop, carries⟩
  have none_ := (inv.valid.finished done).2
  rw [carries.uploading] at none_
  cases none_

theorem Inv.mk_idle {slice : SliceState} (valid : slice.Valid config)
    (idle : slice.uploading = none) : Inv config store ⟨slice, none⟩ where
  valid := valid
  idle _ := idle
  carries _ running := by cases running
  stored _ running := by cases running

/-- Steps that keep bytes, store and ids. -/
theorem effect_of_sameBytes (inv : next.Inv config backend.store)
    (same : cell.slice.SameBytes config next.slice)
    (state : next.slice.state = .committed -> cell.slice.state = .committed)
    (done : cell.Done -> next = cell) : Effect config backend cell next backend where
  inv := inv
  agrees := by
    rw [same.patch_eq]
    exact Patch.Agrees.refl _
  blocks _ _ := rfl
  ids := .inl ⟨same.sliceId, rfl⟩
  notCommitted := state
  done finished := ⟨done finished, rfl⟩

theorem Done.not_writable (done : cell.Done) : cell.slice.state ≠ .writable := by
  intro writable
  rw [Done, writable] at done
  cases done <;> contradiction

theorem freeze_effect (inv : cell.Inv config backend.store) :
    Effect config backend cell { cell with slice := (cell.slice.freeze config).1 } backend := by
  rcases freeze_spec inv.valid with ⟨valid, same, uploading⟩
  refine effect_of_sameBytes ⟨valid, ?_, ?_, ?_⟩ same freeze_state_committed ?_
  · intro none_
    exact uploading.trans (inv.idle none_)
  · intro task running
    rcases inv.carries task running with ⟨start, stop, carries⟩
    exact ⟨start, stop, carries.sameBytes same uploading⟩
  · intro task running stored
    exact (inv.stored task running stored).sameBytes same
  · intro done
    rw [freeze, if_neg done.not_writable]

theorem prepareUpload_effect (inv : cell.Inv config backend.store)
    (taken : cell.step config backend .prepareUpload = some (next, after)) :
    Effect config backend cell next after := by
  rw [step] at taken
  rcases prepareUpload_spec inv.valid with nothing |
    ⟨prepared, plan, start, stop, planned, idle, state, valid, same, carries⟩
  · rw [nothing] at taken
    cases taken
    exact effect_of_sameBytes inv ⟨rfl, rfl, rfl, rfl, fun _ => rfl⟩ id
      fun _ => rfl
  rw [planned] at taken
  cases taken
  refine effect_of_sameBytes ⟨valid, nofun, ?_, ?_⟩ same ?_ ?_
  · intro task running
    cases running
    exact ⟨start, stop, carries⟩
  · intro task running stored
    cases running
    cases stored
  · intro committed
    exact state.symm.trans committed
  · intro done
    have flying := (valid.finished (by rw [state]; exact done)).2
    rw [carries.uploading] at flying
    cases flying

variable {id : Nat}

/-- The blocks of a task lie past the stored part of the slice. -/
theorem patch_agrees_of_attempt {start stop : Nat} (valid : cell.slice.Valid config)
    (carries : UploadTask.Carries config cell.slice task start stop)
    (addressable : config.layout.chunkSize ≤ config.layout.addressable)
    (known : task.sliceId = some id)
    (within : WritesWithin config.layout id task.plan.uploaded task.allChunks.flatten.length
      backend.store store) :
    (cell.slice.patch config store).Agrees (cell.slice.patch config backend.store) := by
  have ends := carries.end_eq valid
  have inside := valid.inside
  rw [List.length_flatten, carries.offset] at within
  apply patch_agrees_of_store
  intro other position same stored
  rw [← carries.sliceId, known] at same
  cases same
  have length : (task.allChunks.map List.length).sum = task.dataLen := rfl
  exact within.sliceByte_eq (by omega) (by omega) (by omega)

section

variable (inv : cell.Inv config backend.store) (running : cell.task = some task)
include inv running

theorem assignId_effect (missing : task.sliceId = none) (fresh : id ∉ backend.usedIds) :
    Effect config backend cell ⟨cell.slice.setSliceId id, some { task with sliceId := some id }⟩
      { backend with usedIds := id :: backend.usedIds } := by
  rcases inv.carries task running with ⟨start, stop, carries⟩
  rcases setSliceId_spec inv.valid id backend.store with ⟨valid, samePatch⟩
  have unset : cell.slice.sliceId = none := carries.sliceId.symm.trans missing
  have carried := carries.setSliceId id missing
  refine ⟨⟨valid, nofun, ?_, ?_⟩, ?_, fun _ _ => rfl, ?_, ?_, ?_⟩
  · intro other same
    cases same
    exact ⟨start, stop, carried⟩
  · intro other same stored
    cases same
    rcases inv.stored task running stored with ⟨known, found, _⟩
    rw [unset] at found
    cases found
  · rw [samePatch]
    exact Patch.Agrees.refl _
  · exact .inr ⟨unset, id, fresh, carried.sliceId.symm, rfl⟩
  · rw [setSliceId, if_pos unset]
    exact fun committed => committed
  · exact fun done => absurd done (inv.not_done running)

theorem advanceUpload_effect (stored : task.stored = true) :
    Effect config backend cell
      ⟨cell.slice.advanceUpload config task.dataLen task.indices, none⟩ backend := by
  rcases inv.carries task running with ⟨start, stop, carries⟩
  rcases UploadTask.advanceUpload_spec inv.valid carries (inv.stored task running stored) with
    ⟨valid, agrees, idle, sameId⟩
  refine ⟨Inv.mk_idle valid idle, agrees, fun _ _ => rfl, .inl ⟨sameId, rfl⟩, ?_,
    fun done => absurd done (inv.not_done running)⟩
  rw [advanceUpload]
  split_ifs
  · exact nofun
  · exact id

theorem failUpload_effect (err : String) :
    Effect config backend cell ⟨cell.slice.markFailed err, none⟩ backend := by
  rcases inv.carries task running with ⟨start, stop, carries⟩
  rcases markFailed_spec inv.valid carries.uploading err with ⟨valid, same⟩
  exact effect_of_sameBytes (Inv.mk_idle valid rfl) same nofun
    fun done => absurd done (inv.not_done running)

variable (addressable : config.layout.chunkSize ≤ config.layout.addressable)
include addressable

theorem attemptFails_effect {landed : List Nat} (known : task.sliceId = some id)
    (pending : task.stored = false)
    (attempt : failedWriteAtVectored config.layout backend.store id
      task.plan.uploaded task.allChunks landed = some store) :
    Effect config backend cell cell { backend with store := store } := by
  rcases inv.carries task running with ⟨start, stop, carries⟩
  rcases failedWriteAtVectored_spec config.layout backend.store id task.plan.uploaded
    task.allChunks landed with ⟨reached, attempted, within⟩
  cases some_inj.mp (attempted.symm.trans attempt)
  refine ⟨⟨inv.valid, inv.idle, inv.carries, ?_⟩, ?_, ?_, .inl ⟨rfl, rfl⟩,
    fun committed => committed, fun done => absurd done (inv.not_done running)⟩
  · intro other same stored
    rw [running] at same
    cases same
    rw [pending] at stored
    cases stored
  · exact patch_agrees_of_attempt inv.valid carries addressable known within
  · intro key different
    apply within.others
    rintro rfl
    exact different (carries.sliceId.symm.trans known)

theorem attemptSucceeds_effect (known : task.sliceId = some id)
    (attempt : writeAtVectored config.layout backend.store id task.plan.uploaded
      task.allChunks = some store) :
    Effect config backend cell { cell with task := some { task with stored := true } }
      { backend with store := store } := by
  rcases inv.carries task running with ⟨start, stop, carries⟩
  rcases writeAtVectored_spec config.layout backend.store id task.plan.uploaded
    task.allChunks with ⟨reached, attempted, uploads⟩
  cases some_inj.mp (attempted.symm.trans attempt)
  refine ⟨⟨inv.valid, nofun, ?_, ?_⟩, ?_, ?_, .inl ⟨rfl, rfl⟩,
    fun committed => committed, fun done => absurd done (inv.not_done running)⟩
  · intro other same
    cases same
    exact ⟨start, stop, { carries with }⟩
  · intro other same _
    cases same
    refine ⟨id, carries.sliceId.symm.trans known, fun position from_ below => ?_⟩
    have ends := carries.end_eq inv.valid
    have inside := inv.valid.inside
    have length : task.allChunks.flatten.length = task.dataLen := List.length_flatten
    have from_ : cell.slice.uploaded ≤ position := from_
    have below : position < cell.slice.uploaded + task.dataLen := below
    rw [uploads.bytes (by rw [carries.offset]; omega) (by omega), carries.offset,
      if_pos (by omega), carries.payload,
      CacheSlice.getD_segment (by rw [← carries.dataLen_eq]; omega)]
    congr 1
    omega
  · exact patch_agrees_of_attempt inv.valid carries addressable known uploads.toWritesWithin
  · intro key different
    apply uploads.others
    rintro rfl
    exact different (carries.sliceId.symm.trans known)

omit running in
/-- Every step keeps the cell in order and the bytes of the slice in place. -/
theorem step_spec {action : Action} (taken : cell.step config backend action = some (next, after)) :
    Effect config backend cell next after := by
  cases action with
  | freeze =>
    cases taken
    exact freeze_effect inv
  | prepareUpload => exact prepareUpload_effect inv taken
  | assignId id =>
    rcases bind_eq_some_iff.mp taken with ⟨task, running, taken⟩
    split_ifs at taken with free
    cases taken
    exact assignId_effect inv running free.1 free.2
  | attemptFails landed =>
    rcases bind_eq_some_iff.mp taken with ⟨task, running, taken⟩
    rcases bind_eq_some_iff.mp taken with ⟨id, known, taken⟩
    split_ifs at taken with stored
    rcases bind_eq_some_iff.mp taken with ⟨store, attempt, taken⟩
    cases taken
    exact attemptFails_effect inv running addressable known (Bool.not_eq_true _ ▸ stored) attempt
  | attemptSucceeds =>
    rcases bind_eq_some_iff.mp taken with ⟨task, running, taken⟩
    rcases bind_eq_some_iff.mp taken with ⟨id, known, taken⟩
    split_ifs at taken with stored
    rcases bind_eq_some_iff.mp taken with ⟨store, attempt, taken⟩
    cases taken
    exact attemptSucceeds_effect inv running addressable known attempt
  | advanceUpload =>
    rcases bind_eq_some_iff.mp taken with ⟨task, running, taken⟩
    split_ifs at taken with stored
    cases taken
    exact advanceUpload_effect inv running stored
  | failUpload err =>
    rcases bind_eq_some_iff.mp taken with ⟨task, running, taken⟩
    split_ifs at taken with stored
    cases taken
    exact failUpload_effect inv running err

end

/-! ## Changes from outside -/

variable (inv : cell.Inv config store)
include inv

/-- Blocks of other slices may change. -/
theorem Inv.congr {other : BlockStore}
    (same : ∀ id index, cell.slice.sliceId = some id -> other (id, index) = store (id, index)) :
    cell.Inv config other ∧
      (cell.slice.patch config other).Agrees (cell.slice.patch config store) := by
  refine ⟨⟨inv.valid, inv.idle, inv.carries, fun task running stored => ?_⟩, ?_⟩
  · exact (inv.stored task running stored).congr same
  · apply patch_agrees_of_store
    intro id position known _
    exact sliceByte_congr (fun index => same id index known) position

/-- An accepted write leaves the blocks of the running task alone. -/
theorem Inv.accepts {offset : Nat} {buf : Bytes} {written : SliceState}
    (fits : offset + buf.length ≤ config.layout.chunkSize)
    (accepts : cell.slice.Accepts config offset buf written) :
    Inv config store { cell with slice := written } where
  valid := accepts.valid fits inv.valid
  idle none_ := by
    rw [accepts.frame]
    exact inv.idle none_
  carries task running := by
    rcases inv.carries task running with ⟨start, stop, carries⟩
    exact ⟨start, stop, carries.accepts inv.valid accepts⟩
  stored task running stored := by
    rcases inv.carries task running with ⟨start, stop, carries⟩
    exact (inv.stored task running stored).accepts carries inv.valid accepts

theorem Inv.markCommitted (done : cell.slice.state = .uploaded) :
    Inv config store { cell with slice := cell.slice.markCommitted } := by
  have idle : cell.task = none := by
    cases running : cell.task with
    | none => rfl
    | some task => exact absurd (.inl done) (inv.not_done running)
  rw [idle]
  exact Inv.mk_idle (markCommitted_spec inv.valid done).1 (inv.idle idle)

/-- The descriptor of a finished slice stands for the same bytes. -/
theorem Inv.patch_descForCommit {desc : SliceDesc} (done : cell.Done)
    (described : cell.slice.descForCommit = some desc) :
    cell.slice.sliceId = some desc.sliceId ∧
      (desc.patch config.layout store).Agrees (cell.slice.patch config store) := by
  unfold descForCommit at described
  cases known : cell.slice.sliceId with
  | none =>
    simp only [known] at described
    cases described
  | some id =>
    simp only [known] at described
    split_ifs at described
    cases described
    refine ⟨rfl, rfl, rfl, fun position covered => ?_⟩
    rcases covered with ⟨above, below⟩
    have below : position < cell.slice.offset + cell.slice.data.len := below
    have stored := (inv.valid.finished done).1
    simp only [patch, byte]
    rw [if_pos (by omega), known]
    rfl

/-- A finished slice without a descriptor has no bytes. -/
theorem Inv.len_of_descForCommit_none (done : cell.Done)
    (empty : cell.slice.descForCommit = none) : cell.slice.data.len = 0 := by
  unfold descForCommit at empty
  cases known : cell.slice.sliceId with
  | none =>
    have stored := (inv.valid.finished done).1
    by_contra positive
    exact inv.valid.identified (by omega) known
  | some id =>
    simp only [known] at empty
    split_ifs at empty with zero
    exact zero

end SliceCell

end Rk8s.Slayerfs
