import Rk8s.Slayerfs.Vfs.ChunkWriter

namespace Rk8s.Slayerfs.ChunkWriter

open Function List ChunkWriter

/-!
# The invariant of the write path

The committed slices with the buffered ones over them show the initial content
with the completed writes over it.  `view` is the left side of that equation; the
lemmas below say what each kind of step does to it.  Freezing, uploading and
committing leave it alone, and so does a new slice.  A write that a slice accepts
is seen where no newer slice has bytes.

The front slice is counted also while it is being committed.  From the metadata
write to the removal from the queue it is there twice, which does no harm, since
a patch over itself changes nothing.
-/

variable (config : WriteConfig) (state : ChunkWriter)

/-- What a reader of the committed slices sees. -/
def content : Nat -> UInt8 :=
  chunkContent config.layout state.backend.store state.committed

def patch (state : ChunkWriter) (key : Nat) : Patch UInt8 :=
  (state.cells key).slice.patch config state.backend.store

/-- The committed slices with the buffered ones over them. -/
def view : Nat -> UInt8 :=
  overlay (state.content config) (state.queue.map (state.patch config))

/-- The slices behind `key` in the queue. -/
def newerThan (queue : List Nat) (key : Nat) : List Nat := (queue.dropWhile (· ≠ key)).tail

/-- The slice has no byte in the range. -/
def Apart (slice : SliceState) (offset len : Nat) : Prop :=
  offset + len ≤ slice.offset ∨ slice.offset + slice.data.len ≤ offset
deriving Decidable

/-! ## The invariant -/

/-- The cells are in order, and every slice id belongs to one slice only. -/
structure Buffered (state : ChunkWriter) : Prop where
  keys : forall key, key ∈ state.queue -> key < state.nextKey
  nodup : state.queue.Nodup
  cells : forall key, (state.cells key).Inv config state.backend.store
  ids : forall key id, (state.cells key).slice.sliceId = some id -> id ∈ state.backend.usedIds
  distinct : forall first second id, (state.cells first).slice.sliceId = some id ->
    (state.cells second).slice.sliceId = some id -> first = second
  known : forall desc, desc ∈ state.committed -> desc.sliceId ∈ state.backend.usedIds
  stored : forall desc key, desc ∈ state.committed ->
    (state.cells key).slice.sliceId = some desc.sliceId -> (state.cells key).Done

/-- The committed slices show the slice already. -/
def Absorbed (key : Nat) : Prop :=
  (state.patch config key).apply (state.content config) = state.content config

def WriterOk : Prop :=
  match state.writer with
  | .scanning offset buf remaining _ =>
    offset + buf.length ≤ config.layout.chunkSize ∧ forall key, key ∈ remaining -> key ∈ state.queue
  | .trying offset buf key => offset + buf.length ≤ config.layout.chunkSize ∧ key ∈ state.queue
  | _ => True

/-- From its first look on, the commit task works on the front of the queue. -/
def CommitterOk : Prop :=
  match state.committer with
  | .stopped => state.queue = []
  | .front => Exists fun key => state.queue.head? = some key
  | .removing => False
  | .checking key => state.queue.head? = some key
  | .describing key => state.queue.head? = some key ∧ (state.cells key).slice.state = .uploaded
  | .writing key desc =>
    state.queue.head? = some key ∧ (state.cells key).slice.state = .uploaded ∧
      (state.cells key).slice.descForCommit = some desc
  | .marking key =>
    state.queue.head? = some key ∧ (state.cells key).slice.state = .uploaded ∧
      state.Absorbed config key
  | .popping key =>
    state.queue.head? = some key ∧ (state.cells key).Done ∧ state.Absorbed config key

structure Inv (base : Nat -> UInt8) (writes : List (Nat × Bytes)) (state : ChunkWriter) : Prop
    extends Buffered config state where
  view_eq : state.view config = overlay base (writes.map fun write => bufPatch write.1 write.2)
  writerOk : state.WriterOk config
  started : state.commitStarted = true ↔ state.committer ≠ .stopped
  committerOk : state.CommitterOk config
  unpopped : forall key, key ∈ state.queue -> (state.cells key).slice.state = .committed ->
    state.committer = .popping key

variable {config} {chunkId : Nat} {base : Nat -> UInt8} {writes : List (Nat × Bytes)}
variable {state next : ChunkWriter}

/-- The parts of the state that the commit task relies on have not changed. -/
structure Keeps (config : WriteConfig) (state next : ChunkWriter) : Prop where
  content : next.content config = state.content config
  done : forall key, key ∈ state.queue -> (state.cells key).Done ->
    next.cells key = state.cells key ∧ (next.patch config key).Agrees (state.patch config key)

variable {key offset : Nat} {buf : Bytes}

theorem Keeps.absorbed (keeps : Keeps config state next) (member : key ∈ state.queue)
    (done : (state.cells key).Done) (absorbed : state.Absorbed config key) :
    next.Absorbed config key := by
  unfold Absorbed
  rw [keeps.content, (keeps.done key member done).2.apply_eq]
  exact absorbed

theorem CommitterOk.keeps (ok : state.CommitterOk config) (same : next.committer = state.committer)
    (stopped : state.committer = .stopped -> next.queue = [])
    (front : ∀ key, state.queue.head? = some key -> next.queue.head? = some key)
    (keeps : Keeps config state next) : next.CommitterOk config := by
  unfold CommitterOk at ok ⊢
  rw [same]
  revert ok
  cases pc : state.committer with
  | stopped => exact fun _ => stopped pc
  | front => exact Exists.imp front
  | removing => exact id
  | checking key => exact front key
  | describing key =>
    rintro ⟨head, uploaded⟩
    have unchanged := (keeps.done key (mem_of_head? head) (.inl uploaded)).1
    exact ⟨front key head, by rwa [unchanged]⟩
  | writing key desc =>
    rintro ⟨head, uploaded, described⟩
    have unchanged := (keeps.done key (mem_of_head? head) (.inl uploaded)).1
    exact ⟨front key head, by rwa [unchanged], by rwa [unchanged]⟩
  | marking key =>
    rintro ⟨head, uploaded, absorbed⟩
    have member := mem_of_head? head
    have unchanged := (keeps.done key member (.inl uploaded)).1
    exact ⟨front key head, by rwa [unchanged], keeps.absorbed member (.inl uploaded) absorbed⟩
  | popping key =>
    rintro ⟨head, done, absorbed⟩
    have member := mem_of_head? head
    have unchanged := (keeps.done key member done).1
    exact ⟨front key head, by rwa [unchanged], keeps.absorbed member done absorbed⟩

theorem Buffered.setPcs (buffered : Buffered config state) (writer : WriterPc)
    (committer : CommitPc) (commitStarted : Bool) :
    Buffered config { state with
      writer := writer, committer := committer, commitStarted := commitStarted } :=
  { buffered with }

theorem Inv.setWriter (inv : Inv config base writes state) {pc : WriterPc}
    (ok : WriterOk config { state with writer := pc }) :
    Inv config base writes { state with writer := pc } where
  toBuffered := inv.toBuffered.setPcs ..
  view_eq := inv.view_eq
  writerOk := ok
  started := inv.started
  committerOk := inv.committerOk
  unpopped := inv.unpopped

/-! ## Background steps of a slice -/

section

variable {cell : SliceCell} {after : SliceCell.Backend}

section

variable (buffered : Buffered config state)
include buffered

variable (effect : SliceCell.Effect config state.backend (state.cells key) cell after)
include effect

theorem Buffered.cell_agrees (other : Nat) :
    (update state.cells key cell other).Inv config after.store ∧
      ((update state.cells key cell other).slice.patch config after.store).Agrees
        (state.patch config other) := by
  by_cases same : other = key
  · subst same
    rw [update_self]
    exact ⟨effect.inv, effect.agrees⟩
  · rw [update_of_ne same]
    -- Blocks of a slice change only through its own cell.
    exact (buffered.cells other).congr fun id index known =>
      effect.blocks (id, index) fun own => same (buffered.distinct _ _ id known own)

theorem Buffered.content_cell :
    chunkContent config.layout after.store state.committed = state.content config := by
  apply overlay_map_congr
  intro desc listed
  refine ⟨rfl, rfl, fun position _ => ?_⟩
  by_cases own : (state.cells key).slice.sliceId = some desc.sliceId
  · rw [(effect.done (buffered.stored desc key listed own)).2]
  · exact sliceByte_congr (fun index => effect.blocks (desc.sliceId, index) own) _

omit buffered in
/-- The ids in use only grow. -/
theorem usedIds_subset {id : Nat} (listed : id ∈ state.backend.usedIds) : id ∈ after.usedIds := by
  rcases effect.ids with ⟨_, used⟩ | ⟨_, fresh, _, _, used⟩
  · rwa [used]
  · rw [used]
    exact mem_cons_of_mem _ listed

/-- A slice keeps its id or gets one that nobody has. -/
theorem Buffered.ids_cell {other id : Nat}
    (known : (update state.cells key cell other).slice.sliceId = some id) :
    (state.cells other).slice.sliceId = some id ∧ id ∈ after.usedIds ∨
      other = key ∧ id ∉ state.backend.usedIds ∧ after.usedIds = id :: state.backend.usedIds := by
  by_cases same : other = key
  · subst same
    rw [update_self] at known
    rcases effect.ids with ⟨kept, used⟩ | ⟨missing, fresh, unused, assigned, used⟩
    · rw [kept] at known
      rw [used]
      exact .inl ⟨known, buffered.ids _ _ known⟩
    · cases known.symm.trans assigned
      exact .inr ⟨rfl, unused, used⟩
  · rw [update_of_ne same] at known
    exact .inl ⟨known, usedIds_subset effect (buffered.ids _ _ known)⟩

theorem Buffered.setCell :
    Buffered config
      { state with cells := update state.cells key cell, backend := after } where
  keys := buffered.keys
  nodup := buffered.nodup
  cells other := (buffered.cell_agrees effect other).1
  ids other id known := by
    rcases buffered.ids_cell effect known with ⟨_, listed⟩ | ⟨_, _, used⟩
    · exact listed
    · change id ∈ after.usedIds
      rw [used]
      exact mem_cons_self
  distinct first second id left right := by
    rcases buffered.ids_cell effect left with ⟨oldLeft, _⟩ | ⟨rfl, unused, _⟩
    · rcases buffered.ids_cell effect right with ⟨oldRight, _⟩ | ⟨_, unused, _⟩
      · exact buffered.distinct _ _ id oldLeft oldRight
      · exact absurd (buffered.ids _ _ oldLeft) unused
    · rcases buffered.ids_cell effect right with ⟨oldRight, _⟩ | ⟨same, _, _⟩
      · exact absurd (buffered.ids _ _ oldRight) unused
      · exact same.symm
  known desc listed := usedIds_subset effect (buffered.known desc listed)
  stored desc other listed known := by
    rcases buffered.ids_cell effect known with ⟨old, _⟩ | ⟨_, unused, _⟩
    · have done := buffered.stored desc other listed old
      change (update state.cells key cell other).Done
      by_cases same : other = key
      · subst same
        rw [update_self, (effect.done done).1]
        exact done
      · rwa [update_of_ne same]
    · exact absurd (buffered.known desc listed) unused

end

/-- Freezing and uploading are invisible. -/
theorem Inv.setCell (inv : Inv config base writes state)
    (effect : SliceCell.Effect config state.backend (state.cells key) cell after) :
    Inv config base writes
      { state with cells := update state.cells key cell, backend := after } where
  toBuffered := inv.toBuffered.setCell effect
  view_eq := by
    refine Eq.trans ?_ inv.view_eq
    change overlay (chunkContent config.layout after.store state.committed) (state.queue.map
      fun other => (update state.cells key cell other).slice.patch config after.store) = _
    rw [inv.content_cell effect]
    exact overlay_map_congr (fun other _ => (inv.cell_agrees effect other).2) _
  writerOk := inv.writerOk
  started := inv.started
  committerOk := by
    refine inv.committerOk.keeps rfl (fun stopped => ?_) (fun _ => id)
      ⟨inv.content_cell effect, fun other _ done => ⟨?_, (inv.cell_agrees effect other).2⟩⟩
    · have ok := inv.committerOk
      rw [CommitterOk, stopped] at ok
      exact ok
    change update state.cells key cell other = state.cells other
    by_cases same : other = key
    · subst same
      rw [update_self, (effect.done done).1]
    · rw [update_of_ne same]
  unpopped other member committed := by
    apply inv.unpopped other member
    change (update state.cells key cell other).slice.state = .committed at committed
    by_cases same : other = key
    · subst same
      rw [update_self] at committed
      exact effect.notCommitted committed
    · rwa [update_of_ne same] at committed

end

/-! ## The writer -/

section

variable (inv : Inv config base writes state)
include inv

theorem Inv.freeze (key : Nat) :
    Inv config base writes (state.setSlice key ((state.cells key).slice.freeze config).1) :=
  inv.setCell (SliceCell.freeze_effect (inv.cells key))

theorem Inv.of_not_started
    (unstarted : state.commitStarted = false) : state.committer = .stopped ∧ state.queue = [] := by
  have stopped : state.committer = .stopped := by
    by_contra running
    rw [inv.started.mpr running] at unstarted
    cases unstarted
  have empty := inv.committerOk
  rw [CommitterOk, stopped] at empty
  exact ⟨stopped, empty⟩

/-- A slice of the queue was found, so the commit task is running. -/
theorem Inv.found (fits : offset + buf.length ≤ config.layout.chunkSize)
    (member : key ∈ state.queue) :
    Inv config base writes (state.found offset buf key) := by
  have trying : Inv config base writes { state with writer := .trying offset buf key } :=
    inv.setWriter ⟨fits, member⟩
  unfold ChunkWriter.found
  dsimp only
  split_ifs with starts
  · exact absurd (inv.of_not_started starts.1).2 starts.2
  · exact trying

omit inv in
theorem Buffered.create (buffered : Buffered config state)
    (inside : offset ≤ config.layout.chunkSize) :
    Buffered config (state.create config chunkId offset) := by
  -- an id belongs to an old slice
  have old : ∀ {key id}, ((state.create config chunkId offset).cells key).slice.sliceId =
      some id -> key ≠ state.nextKey ∧ (state.cells key).slice.sliceId = some id := by
    intro key id known
    by_cases same : key = state.nextKey
    · rw [same, create_cells_nextKey] at known
      cases known
    · rw [create_cells_of_ne same] at known
      exact ⟨same, known⟩
  constructor
  · exact forall_mem_append.mpr
      ⟨fun key listed => Nat.lt_succ_of_lt (buffered.keys key listed),
        forall_mem_singleton.mpr (lt_add_one _)⟩
  · refine nodup_append.mpr ⟨buffered.nodup, nodup_singleton _, ?_⟩
    intro key member other created same
    rw [mem_singleton.mp created] at same
    exact lt_irrefl _ (same ▸ buffered.keys key member)
  · intro key
    by_cases same : key = state.nextKey
    · rw [same, create_cells_nextKey]
      exact SliceCell.Inv.mk_idle (SliceState.valid_new inside) rfl
    · rw [create_cells_of_ne same]
      exact buffered.cells key
  · intro key id known
    exact buffered.ids key id (old known).2
  · intro first second id left right
    exact buffered.distinct first second id (old left).2 (old right).2
  · exact buffered.known
  · intro desc key listed known
    rcases old known with ⟨same, known⟩
    rw [create_cells_of_ne same]
    exact buffered.stored desc key listed known

/-- A new slice covers nothing yet. -/
theorem Inv.create (fits : offset + buf.length ≤ config.layout.chunkSize) :
    Inv config base writes
      ((state.create config chunkId offset).found offset buf state.nextKey) := by
  set created := state.create config chunkId offset
  have buffered : Buffered config created := inv.toBuffered.create (by omega)
  have cells : ∀ key ∈ state.queue, created.cells key = state.cells key := fun key member =>
    create_cells_of_ne (ne_of_lt (inv.keys key member))
  have patches : ∀ key ∈ state.queue, created.patch config key = state.patch config key := by
    intro key member
    rw [ChunkWriter.patch, cells key member]
    rfl
  have view : created.view config =
      overlay base (writes.map fun write => bufPatch write.1 write.2) := by
    have empty : (created.patch config state.nextKey).size = 0 := by
      rw [ChunkWriter.patch, create_cells_nextKey]
      rfl
    refine Eq.trans ?_ inv.view_eq
    unfold ChunkWriter.view
    rw [show created.queue = state.queue ++ [state.nextKey] from rfl, map_append, map_singleton,
      overlay_concat, Patch.apply_of_size_eq_zero empty, map_congr_left patches]
    rfl
  have unpopped : ∀ key ∈ created.queue, (created.cells key).slice.state = .committed ->
      state.committer = .popping key := by
    intro key member committed
    rcases mem_append.mp member with listed | new
    · rw [cells key listed] at committed
      exact inv.unpopped key listed committed
    · rw [mem_singleton.mp new, create_cells_nextKey] at committed
      cases committed
  have back : state.nextKey ∈ created.queue := mem_append_right _ mem_cons_self
  unfold ChunkWriter.found
  dsimp only
  split_ifs with starts
  · have stopped := (inv.of_not_started starts.1).1
    refine ⟨buffered.setPcs .., view, ⟨fits, back⟩, ⟨fun _ => nofun, fun _ => rfl⟩, ?_, ?_⟩
    · exact ⟨_, head?_eq_some_head starts.2⟩
    · intro key member committed
      have popping := unpopped key member committed
      rw [stopped] at popping
      cases popping
  have running : state.committer ≠ .stopped := by
    apply inv.started.mp
    by_contra unstarted
    exact starts ⟨Bool.not_eq_true _ ▸ unstarted, ne_nil_of_mem back⟩
  refine ⟨buffered.setPcs .., view, ⟨fits, back⟩, inv.started, ?_, unpopped⟩
  refine inv.committerOk.keeps rfl (fun stopped => absurd stopped running) ?_ ⟨rfl, ?_⟩
  · intro key head
    change (state.queue ++ [state.nextKey]).head? = some key
    rw [head?_append, head]
    rfl
  · intro key member _
    refine ⟨cells key member, ?_⟩
    rw [← patches key member]
    exact Patch.Agrees.refl _

end

theorem queue_eq_newerThan {queue : List Nat} (member : key ∈ queue) :
    ∃ older, queue = older ++ key :: newerThan queue key := by
  induction queue with
  | nil => cases member
  | cons head queue ih =>
    by_cases same : head = key
    · subst same
      refine ⟨[], ?_⟩
      simp only [newerThan, dropWhile_cons, ne_eq, not_true_eq_false, decide_false,
        Bool.false_eq_true, if_false, tail_cons, nil_append]
    have later : key ∈ queue := (mem_cons.mp member).resolve_left fun eq => same eq.symm
    rcases ih later with ⟨older, split⟩
    refine ⟨head :: older, ?_⟩
    have skips : newerThan (head :: queue) key = newerThan queue key := by
      simp only [newerThan, dropWhile_cons, ne_eq, same, not_false_eq_true, decide_true, if_true]
    rw [skips, cons_append, ← split]

/-- A slice may change in place when it keeps its id and does not become unfinished. -/
theorem Buffered.setSlice (buffered : Buffered config state) {slice : SliceState}
    (cell : SliceCell.Inv config state.backend.store { state.cells key with slice := slice })
    (sliceId : slice.sliceId = (state.cells key).slice.sliceId)
    (done : (state.cells key).Done -> SliceCell.Done { state.cells key with slice := slice }) :
    Buffered config (state.setSlice key slice) := by
  have ids : ∀ other, ((state.setSlice key slice).cells other).slice.sliceId =
      (state.cells other).slice.sliceId :=
    (forall_update_iff state.cells fun other cell =>
      cell.slice.sliceId = (state.cells other).slice.sliceId).mpr ⟨sliceId, fun _ _ => rfl⟩
  refine { buffered with cells := ?_, ids := ?_, distinct := ?_, stored := ?_ }
  · exact (forall_update_iff _ fun _ => SliceCell.Inv config state.backend.store).mpr
      ⟨cell, fun other _ => buffered.cells other⟩
  · intro other id known
    exact buffered.ids other id ((ids other).symm.trans known)
  · intro first second id left right
    exact buffered.distinct first second id ((ids first).symm.trans left)
      ((ids second).symm.trans right)
  intro desc other listed known
  have finished := buffered.stored desc other listed ((ids other).symm.trans known)
  by_cases same : other = key
  · subst same
    rw [setSlice_cells_self]
    exact done finished
  · rwa [setSlice_cells_of_ne same]

section

variable {written : SliceState}

theorem Buffered.view_accepts (buffered : Buffered config state)
    (member : key ∈ state.queue) (accepts : (state.cells key).slice.Accepts config offset buf written)
    (apart : ∀ newer ∈ newerThan state.queue key,
      Apart (state.cells newer).slice offset buf.length) :
    (state.setSlice key written).view config = (bufPatch offset buf).apply (state.view config) := by
  rcases queue_eq_newerThan member with ⟨older, split⟩
  generalize newerThan state.queue key = newer at split apart
  have nodup := buffered.nodup
  rw [split] at nodup
  have inOlder := nodup_append.mp nodup
  have inNewer := nodup_cons.mp inOlder.2.1
  have others : ∀ other ≠ key,
      (state.setSlice key written).patch config other = state.patch config other := by
    intro other different
    rw [patch, setSlice_cells_of_ne different]
    rfl
  have own : (state.setSlice key written).patch config key =
      written.patch config state.backend.store := by
    rw [patch, setSlice_cells_self]
    rfl
  unfold view
  rw [show (state.setSlice key written).queue = state.queue from rfl, split, map_append,
    map_append, map_cons, map_cons, own,
    map_congr_left fun other listed => others other fun same =>
      inOlder.2.2 other listed key mem_cons_self same,
    map_congr_left fun other listed => others other fun same => inNewer.1 (same ▸ listed)]
  refine overlay_extend (fun position covered => accepts.patch_of_covers _ covered) ?_
    (fun position uncovered => accepts.patch_of_not_covers _ uncovered)
  intro position later covered listed
  rcases mem_map.mp listed with ⟨other, behind, rfl⟩
  have clear := apart other behind
  rintro ⟨above, below⟩
  have above : (state.cells other).slice.offset ≤ position := above
  have below : position < (state.cells other).slice.offset + (state.cells other).slice.data.len :=
    below
  have from_ : offset ≤ position := covered.1
  have until_ : position < offset + buf.length := covered.2
  unfold Apart at clear
  omega

/-- A write that no newer slice hides is visible at once. -/
theorem Inv.accepts (inv : Inv config base writes state) (member : key ∈ state.queue)
    (fits : offset + buf.length ≤ config.layout.chunkSize)
    (accepts : (state.cells key).slice.Accepts config offset buf written)
    (apart : ∀ newer ∈ newerThan state.queue key,
      Apart (state.cells newer).slice offset buf.length) :
    Inv config base (writes ++ [(offset, buf)])
      { state.setSlice key written with writer := .wrote key } where
  toBuffered := by
    refine (inv.toBuffered.setSlice ((inv.cells key).accepts fits accepts) ?_ ?_).setPcs ..
    · rw [accepts.frame]
    · intro done
      exact absurd accepts.writable done.not_writable
  view_eq := by
    rw [map_append, map_singleton, overlay_concat, ← inv.view_eq]
    exact inv.view_accepts member accepts apart
  writerOk := trivial
  started := inv.started
  committerOk := by
    refine inv.committerOk.keeps rfl (fun stopped => ?_) (fun _ => id) ⟨rfl, ?_⟩
    · have ok := inv.committerOk
      rw [CommitterOk, stopped] at ok
      exact ok
    intro other _ done
    have different : other ≠ key := by
      rintro rfl
      exact done.not_writable accepts.writable
    have unchanged : (state.setSlice key written).cells other = state.cells other :=
      setSlice_cells_of_ne different
    refine ⟨unchanged, ?_⟩
    change (((state.setSlice key written).cells other).slice.patch config _).Agrees _
    rw [unchanged]
    exact Patch.Agrees.refl _
  unpopped other listed committed := by
    apply inv.unpopped other listed
    by_cases same : other = key
    · subst same
      rw [setSlice_cells_self, accepts.frame] at committed
      exact committed
    · rwa [setSlice_cells_of_ne same] at committed

end

/-! ## The commit task -/

variable {pc : CommitPc} {desc : SliceDesc} (inv : Inv config base writes state)
include inv

/-- A move of the commit task from a place where it is not about to pop. -/
theorem Inv.setCommitter (running : state.committer ≠ .stopped) (stays : pc ≠ .stopped)
    (notPopping : ∀ key, state.committer ≠ .popping key)
    (ok : CommitterOk config { state with committer := pc }) :
    Inv config base writes { state with committer := pc } where
  toBuffered := inv.toBuffered.setPcs ..
  view_eq := inv.view_eq
  writerOk := inv.writerOk
  started := ⟨fun _ => stays, fun _ => inv.started.mpr running⟩
  committerOk := ok
  unpopped key member committed := absurd (inv.unpopped key member committed) (notPopping key)

theorem Inv.committer_eq (here : state.committer = pc) :
    CommitterOk config { state with committer := pc } := by
  rw [← here]
  exact inv.committerOk

theorem Inv.commitSnapshot (here : state.committer = .checking key) :
    Inv config base writes
      { state with committer := snapshot (state.cells key).slice key } := by
  have head : state.queue.head? = some key := inv.committer_eq here
  have uncommitted : (state.cells key).slice.state ≠ .committed := by
    intro committed
    cases here.symm.trans (inv.unpopped key (mem_of_head? head) committed)
  have waits : Inv config base writes { state with committer := .front } :=
    inv.setCommitter (by rw [here]; nofun) nofun (by rw [here]; nofun) ⟨key, head⟩
  unfold snapshot
  split_ifs with failed open_ uploaded
  · exact waits
  · exact waits
  · exact inv.setCommitter (by rw [here]; nofun) nofun (by rw [here]; nofun) ⟨head, uploaded.1⟩
  · exact waits

/-- The next step for an empty slice is its removal. -/
theorem Inv.commitDescribe_none (here : state.committer = .describing key)
    (empty : (state.cells key).slice.descForCommit = none) :
    Inv config base writes { state with committer := .popping key } := by
  rcases inv.committer_eq here with ⟨head, uploaded⟩
  refine inv.setCommitter (by rw [here]; nofun) nofun (by rw [here]; nofun)
    ⟨head, .inl uploaded, ?_⟩
  exact Patch.apply_of_size_eq_zero
    ((inv.cells key).len_of_descForCommit_none (.inl uploaded) empty) _

/-- The metadata write moves the bytes of the front slice into the committed content. -/
theorem Inv.commitWrite (here : state.committer = .writing key desc) :
    Inv config base writes
      { state with committed := state.committed ++ [desc], committer := .marking key } := by
  rcases inv.committer_eq here with ⟨head, uploaded, described⟩
  rcases (inv.cells key).patch_descForCommit (.inl uploaded) described with ⟨known, agrees⟩
  have content : chunkContent config.layout state.backend.store (state.committed ++ [desc]) =
      (state.patch config key).apply (state.content config) := by
    rw [chunkContent_concat]
    exact agrees.apply_eq _
  refine ⟨{ inv with known := ?_, stored := ?_ }, ?_, inv.writerOk,
    ⟨fun _ => nofun, fun _ => inv.started.mpr (by rw [here]; nofun)⟩, ⟨head, uploaded, ?_⟩, ?_⟩
  · exact forall_mem_append.mpr
      ⟨inv.known, forall_mem_singleton.mpr (inv.ids key desc.sliceId known)⟩
  · intro other owner listed same
    rcases mem_append.mp listed with old | new
    · exact inv.stored other owner old same
    · rw [mem_singleton.mp new] at same
      rw [inv.distinct owner key desc.sliceId same known]
      exact .inl uploaded
  · refine Eq.trans ?_ inv.view_eq
    unfold view
    rcases head?_eq_some_iff.mp head with ⟨rest, queue⟩
    change overlay (chunkContent config.layout state.backend.store (state.committed ++ [desc]))
      (state.queue.map (state.patch config)) = _
    rw [content, queue, map_cons, overlay, overlay, Patch.apply_apply]
  · change (state.patch config key).apply (chunkContent config.layout state.backend.store
      (state.committed ++ [desc])) = chunkContent config.layout state.backend.store _
    rw [content, Patch.apply_apply]
  · intro other member committed
    cases here.symm.trans (inv.unpopped other member committed)

theorem Inv.commitMark (here : state.committer = .marking key) :
    Inv config base writes
      { state.setSlice key (state.cells key).slice.markCommitted with
        committer := .popping key } := by
  rcases inv.committer_eq here with ⟨head, uploaded, absorbed⟩
  have same := (SliceState.markCommitted_spec (inv.cells key).valid uploaded).2
  have patches : ∀ other,
      (state.setSlice key (state.cells key).slice.markCommitted).patch config other =
        state.patch config other := by
    intro other
    unfold patch
    by_cases here : other = key
    · subst here
      rw [setSlice_cells_self]
      exact same.patch_eq _
    · rw [setSlice_cells_of_ne here]
      rfl
  refine ⟨(inv.toBuffered.setSlice ((inv.cells key).markCommitted uploaded) rfl
    fun _ => .inr rfl).setPcs .., ?_, inv.writerOk,
    ⟨fun _ => nofun, fun _ => inv.started.mpr (by rw [here]; nofun)⟩, ⟨head, .inr ?_, ?_⟩, ?_⟩
  · refine Eq.trans ?_ inv.view_eq
    exact congrArg (overlay (state.content config)) (map_congr_left fun other _ => patches other)
  · change ((state.setSlice key _).cells key).slice.state = .committed
    rw [setSlice_cells_self]
    rfl
  · change ((state.setSlice key _).patch config key).apply (state.content config) =
      state.content config
    rw [patches]
    exact absorbed
  · intro other member committed
    by_cases own : other = key
    · rw [own]
    · rw [setSlice_cells_of_ne own] at committed
      cases here.symm.trans (inv.unpopped other member committed)

/-- A popped slice is in the committed content, so the view does not change. -/
theorem Inv.commitPop {committer : CommitPc}
    {commitStarted : Bool} (here : state.committer = .popping key) (idle : state.writer = .idle)
    (started : commitStarted = true ↔ committer ≠ .stopped)
    (ok : CommitterOk config
      { state with
        queue := state.queue.tail, commitStarted := commitStarted, committer := committer }) :
    Inv config base writes
      { state with
        queue := state.queue.tail, commitStarted := commitStarted, committer := committer } := by
  rcases inv.committer_eq here with ⟨head, done, absorbed⟩
  have absorbed : (state.patch config key).apply (state.content config) = state.content config :=
    absorbed
  rcases head?_eq_some_iff.mp head with ⟨rest, queue⟩
  have nodup := inv.nodup
  have view := inv.view_eq
  rw [queue, nodup_cons] at nodup
  have tail : state.queue.tail = rest := by rw [queue, tail_cons]
  have older : ∀ other ∈ rest, other ∈ state.queue := by
    intro other listed
    rw [queue]
    exact mem_cons_of_mem _ listed
  rw [tail] at ok ⊢
  refine ⟨{ inv with
    keys := fun other listed => inv.keys other (older other listed), nodup := nodup.2 },
    ?_, ?_, started, ok, ?_⟩
  · rw [ChunkWriter.view, queue, map_cons, overlay, absorbed] at view
    exact view
  · unfold WriterOk
    rw [idle]
    trivial
  · intro other listed committed
    cases here.symm.trans (inv.unpopped other (older other listed) committed)
    exact absurd listed nodup.1

end Rk8s.Slayerfs.ChunkWriter
