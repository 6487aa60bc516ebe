import Rk8s.Slayerfs.Chunk.Compact.SliceLife

namespace Rk8s.Slayerfs

open Ledger SliceTables Transition Function Compactor List Life SliceDesc GcSystem

/-!
# When garbage collection keeps live data

The workers remember slices they have read and go on to delete or replace them
later.  `Inv` says in which phases the slices they remember can be.  Each step
moves at most a few ids to a later phase, so that whatever a worker remembers
stays true of it.

One step does not fit: `replace_slices_for_compact_with_version` commits the new
slice of a heavy compaction without looking at its uncommitted record.  If a
collector has taken the record for an orphan's, the blocks are gone or about to
go.  `RecordPending` is the missing check.
-/

variable {pc : HeavyPc} {id : Nat} {before after : Ledger}

namespace HeavyPc

/-- The id that the compaction may still commit. -/
def owns : HeavyPc -> Option Nat
  | .named _ _ _ newSliceId | .writing _ _ newSliceId _ _ => some newSliceId
  | _ => none

def Agrees (ledger : Ledger) : HeavyPc -> Prop
  | .idle => True
  | .read chunkId slices | .merged chunkId slices _ => ledger.Snapshot chunkId slices
  | .named chunkId slices _ newSliceId =>
    ledger.Snapshot chunkId slices ∧ ledger.life newSliceId = .named
  | .writing chunkId slices newSliceId _ _ =>
    ledger.Snapshot chunkId slices ∧
      (ledger.life newSliceId = .building ∨ ledger.life newSliceId = .orphaned)
  | .confirming _ => True
  | .cleaning newSliceId =>
    ledger.life newSliceId = .failed ∨ ledger.life newSliceId = .orphaned

/-- The phases of an id that a compaction owns. -/
theorem Agrees.owned {ledger : Ledger} (agrees : pc.Agrees ledger) (owns : pc.owns = some id) :
    ledger.life id = .named ∨ ledger.life id = .building ∨ ledger.life id = .orphaned := by
  cases pc with
  | named chunkId slices data newSliceId =>
    cases owns
    exact .inl agrees.2
  | writing chunkId slices newSliceId spans data =>
    cases owns
    exact .inr agrees.2
  | idle => cases owns
  | read chunkId slices => cases owns
  | merged chunkId slices data => cases owns
  | confirming newSliceId => cases owns
  | cleaning newSliceId => cases owns

theorem Agrees.evolve (agrees : pc.Agrees before)
    (evolves : before.Evolves after) (owned : ∀ id, pc.owns = some id ->
      after.life id = before.life id ∨ after.life id = .orphaned) : pc.Agrees after := by
  cases pc with
  | idle => trivial
  | read | merged => exact Ledger.Snapshot.evolve agrees evolves
  | named chunkId slices data newSliceId =>
    refine ⟨agrees.1.evolve evolves, ?_⟩
    rcases owned newSliceId rfl with same | orphaned
    · exact same.trans agrees.2
    · have forward := (evolves newSliceId).1
      rw [agrees.2, orphaned] at forward
      cases forward
  | writing chunkId slices newSliceId spans data =>
    refine ⟨agrees.1.evolve evolves, ?_⟩
    rcases owned newSliceId rfl with same | orphaned
    · exact same ▸ agrees.2
    · exact .inr orphaned
  | confirming newSliceId => trivial
  | cleaning newSliceId => exact failed_or_orphaned_of_leads (evolves newSliceId).1 agrees

end HeavyPc

namespace GcPc

def Agrees (ledger : Ledger) (tables : SliceTables) : GcPc -> Prop
  | .idle | .delayedDone => True
  | .delayedRead rows => forall row, row ∈ rows -> ledger.life row.sliceId = .retired
  | .deletingDelayed pendingDeletions _ =>
    forall entry, entry ∈ pendingDeletions -> ledger.life entry.1 = .retired
  | .pendingRead pendingSlices => forall row, row ∈ pendingSlices -> tables.Seen row
  | .orphansRead pendingSlices orphanRecords =>
    (forall row, row ∈ pendingSlices -> tables.Seen row) ∧
      forall row, row ∈ orphanRecords -> ledger.life row.sliceId = .orphaned
  | .deletingOrphans orphans _ =>
    forall entry, entry ∈ orphans -> ledger.life entry.1 = .orphaned

theorem Agrees.evolve {pc : GcPc} {tables later : SliceTables}
    (agrees : pc.Agrees before tables) (evolves : before.Evolves after)
    (rows : tables.RowsFrom later) : pc.Agrees after later := by
  have retired : ∀ id, before.life id = .retired -> after.life id = .retired :=
    fun id known => eq_retired_of_leads (known ▸ (evolves id).1)
  have orphaned : ∀ id, before.life id = .orphaned -> after.life id = .orphaned :=
    fun id known => eq_orphaned_of_leads (known ▸ (evolves id).1)
  cases pc with
  | idle => trivial
  | delayedDone => trivial
  | delayedRead read => exact fun row member => retired _ (agrees row member)
  | deletingDelayed todo confirmed => exact fun entry member => retired _ (agrees entry member)
  | pendingRead read => exact fun row member => (agrees row member).rowsFrom rows
  | orphansRead pending orphans =>
    exact ⟨fun row member => (agrees.1 row member).rowsFrom rows,
      fun row member => orphaned _ (agrees.2 row member)⟩
  | deletingOrphans todo cleaned => exact fun entry member => orphaned _ (agrees entry member)

end GcPc

namespace GcSystem

variable {layout : ChunkLayout} {config : BlockGcConfig} {state next : GcSystem}
  {ledger later : Ledger}

/-- A versioned replacement that would go through finds the uncommitted record of
its new slice still there and pending. -/
def RecordPending (state : GcSystem) : Action -> Prop
  | .heavy worker .replace =>
    match state.heavy worker with
    | .writing chunkId slices newSliceId [] _ =>
      SliceTables.isExpected (state.tables.getSlices chunkId) slices = true ->
        Exists fun record => record ∈ state.tables.uncommittedSlice ∧
          record.sliceId = newSliceId ∧ record.status = .pending
    | _ => True
  | _ => True

instance (state : GcSystem) (action : Action) : Decidable (state.RecordPending action) := by
  unfold RecordPending
  split
  · split <;> infer_instance
  · infer_instance

/-! ## The invariant -/

structure Inv (ledger : Ledger) (state : GcSystem) : Prop where
  unused : forall id, id ∉ state.usedIds -> ledger.life id = .unused
  small : forall id, id ∈ state.usedIds -> id < 2 ^ 63
  opened : forall id, id ∈ state.openIds -> ledger.life id = .opened
  tables : state.tables.Agrees ledger
  heavy : forall worker, (state.heavy worker).Agrees ledger
  owners : forall first second id, (state.heavy first).owns = some id ->
    (state.heavy second).owns = some id -> first = second
  light : forall worker chunkId slices, state.light worker = some (chunkId, slices) ->
    ledger.Snapshot chunkId slices
  gc : forall worker, (state.gc worker).Agrees ledger state.tables
  written : forall key, key ∈ state.written -> ledger.life key.1 ≠ .unused
  stored : forall key, key ∈ state.written -> (ledger.life key.1).keepsBlocks = true ->
    (state.store key).isSome

variable {tables : SliceTables} {usedIds openIds : List Nat}

section

variable (inv : Inv ledger state) (evolves : ledger.Evolves later) (agrees : tables.Agrees later)
  (rows : state.tables.RowsFrom tables)
include inv evolves agrees rows

/-- The ledger moves on while the workers stay where they are. -/
theorem Inv.evolve (unused : ∀ id, id ∉ usedIds -> later.life id = .unused)
    (small : ∀ id ∈ usedIds, id < 2 ^ 63)
    (opened : ∀ id ∈ openIds, later.life id = .opened)
    (owned : ∀ worker id, (state.heavy worker).owns = some id ->
      later.life id = ledger.life id ∨ later.life id = .orphaned) :
    Inv later { state with tables := tables, usedIds := usedIds, openIds := openIds } where
  unused := unused
  small := small
  opened := opened
  tables := agrees
  heavy worker := (inv.heavy worker).evolve evolves (owned worker)
  owners := inv.owners
  light worker chunkId slices read := (inv.light worker chunkId slices read).evolve evolves
  gc worker := (inv.gc worker).evolve evolves rows
  written key member before := by
    have forward := (evolves key.1).1
    have known := inv.written key member
    cases phase : ledger.life key.1 <;> simp_all [leads]
  stored key member needed := by
    rcases keepsBlocks_of_leads (evolves key.1).1 needed with before | unused
    · exact inv.stored key member before
    · exact absurd unused (inv.written key member)

/-- The same for a ledger that leaves the unused and the opened ids alone. -/
theorem Inv.advance
    (kept : ∀ id, ledger.life id = .unused ∨ ledger.life id = .opened ->
      later.life id = ledger.life id)
    (owned : ∀ worker id, (state.heavy worker).owns = some id ->
      later.life id = ledger.life id ∨ later.life id = .orphaned) :
    Inv later { state with tables := tables } := by
  refine inv.evolve evolves agrees rows (fun id absent => ?_) inv.small (fun id member => ?_) owned
  · have unused := inv.unused id absent
    exact (kept id (.inl unused)).trans unused
  · have opened := inv.opened id member
    exact (kept id (.inr opened)).trans opened

end

theorem Inv.shrink (inv : Inv ledger state) (shrinks : state.tables.Shrinks tables) :
    Inv ledger { state with tables := tables } :=
  inv.advance (fun _ => ⟨leads_self _, fun _ => rfl⟩) (shrinks.agrees ledger inv.tables)
    shrinks.rows (fun _ _ => rfl) fun _ _ _ => .inl rfl

variable {worker chunkId : Nat} {data : Bytes} {phase : Life} {slices : List SliceDesc}

section

variable (inv : Inv ledger state)
include inv

theorem Inv.setHeavy (agrees : pc.Agrees ledger)
    (sole : ∀ id, pc.owns = some id -> ∀ other ≠ worker,
      (state.heavy other).owns ≠ some id) : Inv ledger (state.setHeavy worker pc) := by
  refine { inv with heavy := ?_, owners := ?_ }
  · exact (forall_update_iff state.heavy fun _ pc => pc.Agrees ledger).mpr
      ⟨agrees, fun other _ => inv.heavy other⟩
  intro first second id firstOwns secondOwns
  by_cases firstHere : first = worker <;> by_cases secondHere : second = worker
  · rw [firstHere, secondHere]
  · subst firstHere
    simp only [setHeavy, update_self] at firstOwns
    simp only [setHeavy, update_of_ne secondHere] at secondOwns
    exact absurd secondOwns (sole id firstOwns second secondHere)
  · subst secondHere
    simp only [setHeavy, update_self] at secondOwns
    simp only [setHeavy, update_of_ne firstHere] at firstOwns
    exact absurd firstOwns (sole id secondOwns first firstHere)
  · simp only [GcSystem.setHeavy, update_of_ne firstHere] at firstOwns
    simp only [GcSystem.setHeavy, update_of_ne secondHere] at secondOwns
    exact inv.owners first second id firstOwns secondOwns

theorem Inv.setLight {pc : Option (Nat × List SliceDesc)}
    (agrees : ∀ chunkId slices, pc = some (chunkId, slices) ->
      ledger.Snapshot chunkId slices) : Inv ledger (state.setLight worker pc) := by
  refine { inv with light := ?_ }
  exact (forall_update_iff _ fun _ pc => ∀ chunkId slices, pc = some (chunkId, slices) ->
    ledger.Snapshot chunkId slices).mpr ⟨agrees, fun other _ => inv.light other⟩

theorem Inv.setGc {pc : GcPc} (agrees : pc.Agrees ledger state.tables) :
    Inv ledger (state.setGc worker pc) := by
  refine { inv with gc := ?_ }
  exact (forall_update_iff state.gc fun _ pc => pc.Agrees ledger state.tables).mpr
    ⟨agrees, fun other _ => inv.gc other⟩

/-- Blocks are deleted under ids that need them no more. -/
theorem Inv.deleteBlocks {sliceId blockCount : Nat}
    {failed : Option (List Nat)} (unneeded : (ledger.life sliceId).keepsBlocks = false) :
    Inv ledger { state with store := state.store.deleteBlocks sliceId blockCount failed } := by
  refine { inv with stored := ?_ }
  intro key member needed
  have elsewhere : key.1 ≠ sliceId := by
    rintro rfl
    simp [unneeded] at needed
  have kept := inv.stored key member needed
  cases failed <;> simpa [BlockStore.deleteBlocks, BlockStore.deleteRange, elsewhere] using kept

theorem Inv.writeRange {key : BlockKey} {offset : Nat}
    (used : ledger.life key.1 ≠ .unused) : Inv ledger (state.writeRange key offset data) := by
  refine { inv with written := ?_, stored := ?_ }
  · exact forall_mem_cons.mpr ⟨used, inv.written⟩
  intro other member needed
  by_cases here : other = key
  · simp [GcSystem.writeRange, BlockStore.writeRange, here]
  · have before : other ∈ state.written := (mem_cons.mp member).resolve_left here
    simpa [GcSystem.writeRange, BlockStore.writeRange, here] using
      inv.stored other before needed

/-! ## Moves of the ledger -/

/-- An owned id is not in the phases that committed or unused ids are in. -/
theorem Inv.owned (owns : (state.heavy worker).owns = some id) :
    ledger.life id = .named ∨ ledger.life id = .building ∨ ledger.life id = .orphaned :=
  (inv.heavy worker).owned owns

theorem Inv.used (known : ledger.life id ≠ .unused) : id ∈ state.usedIds := by
  by_contra absent
  exact known (inv.unused id absent)

/-- `next_id` hands out a new id. -/
theorem Inv.allocate (fresh : state.Fresh id) (first : phase = .opened ∨ phase = .named)
    (opened : ∀ other ∈ openIds, other ∈ state.openIds ∨ other = id ∧ phase = .opened) :
    Inv (ledger.move id phase)
      { state with usedIds := id :: state.usedIds, openIds := openIds } := by
  have before := inv.unused id fresh.1
  have elsewhere : ∀ other, ledger.life other ≠ .unused ->
      (ledger.move id phase).life other = ledger.life other :=
    fun other used => move_life_of_ne fun same => used (same ▸ before)
  have absent : ∀ row ∈ state.tables.uncommittedSlice, row.sliceId ≠ id := by
    intro row member
    refine inv.tables.not_recorded ?_ ?_ ?_ member <;> simp [before]
  have agrees : state.tables.Agrees (ledger.move id phase) :=
    inv.tables.move (by simp [before, isCommitted])
      fun row member same => absurd same (absent row member)
  refine inv.evolve (evolves_move ?_) agrees (.refl _) ?_ ?_ ?_ ?_
  · rcases first with rfl | rfl <;> simp [before, leads]
  · intro other absent
    rw [move_life_of_ne (fun same => absent (by simp [same]))]
    exact inv.unused other fun inside => absent (mem_cons_of_mem _ inside)
  · exact forall_mem_cons.mpr ⟨fresh.2, inv.small⟩
  · intro other member
    rcases opened other member with inside | ⟨rfl, rfl⟩
    · rw [elsewhere other (by simp [inv.opened other inside])]
      exact inv.opened other inside
    · simp
  · intro worker other owns
    refine .inl (elsewhere other ?_)
    rcases inv.owned owns with phase | phase | phase <;> simp [phase]

/-- A slice is committed under an id that no compaction owns. -/
theorem Inv.commit (row : SliceDesc) (openIds : List Nat)
    (ready : ledger.life row.sliceId = .opened ∨ ledger.life row.sliceId = .building)
    (unrecorded : ∀ record ∈ state.tables.uncommittedSlice, record.sliceId ≠ row.sliceId)
    (unowned : ∀ worker, (state.heavy worker).owns ≠ some row.sliceId)
    (opened : ∀ id ∈ openIds, id ∈ state.openIds ∧ id ≠ row.sliceId) :
    Inv (ledger.commit row.sliceId row.chunkId)
      { state with
        tables := { state.tables with sliceMeta := state.tables.sliceMeta ++ [row] }
        openIds := openIds } := by
  refine inv.evolve (evolves_commit _ ready) (inv.tables.insert ready unrecorded)
    (.of_sublist (Sublist.refl _) rfl) ?_ inv.small ?_ ?_
  · intro id absent
    have different : id ≠ row.sliceId := by
      rintro rfl
      rcases ready with phase | phase <;> simp [inv.unused _ absent] at phase
    rw [(commit_of_ne different).1]
    exact inv.unused id absent
  · intro id member
    rw [(commit_of_ne (opened id member).2).1]
    exact inv.opened id (opened id member).1
  · intro worker id owns
    refine .inl (commit_of_ne ?_).1
    rintro rfl
    exact unowned worker owns

/-- Slices that some worker has read are taken out of their chunk. -/
theorem Inv.retire {delayed : List (Nat × Nat × Nat)} (snapshot : ledger.Snapshot chunkId slices)
    (listed : ∀ id ∈ delayed.map Prod.fst, id ∈ slices.map sliceId) :
    Inv (ledger.retire (delayed.map Prod.fst))
      { state with tables := state.tables.replaceSlices chunkId [] delayed } := by
  have committed : ∀ id ∈ delayed.map Prod.fst, (ledger.life id).isCommitted = true := by
    intro id member
    rcases mem_map.mp (listed id member) with ⟨slice, inside, rfl⟩
    exact (snapshot slice inside).1
  have kept : ∀ id, (ledger.life id).isCommitted = false ->
      (ledger.retire (delayed.map Prod.fst)).life id = ledger.life id := by
    intro id other
    refine retire_life_of_not_mem fun inside => ?_
    simp [committed id inside] at other
  refine inv.advance (evolves_retire committed) (inv.tables.retire snapshot listed)
    (.of_sublist (Sublist.refl _) rfl) ?_ ?_
  · intro id early
    refine kept id ?_
    rcases early with phase | phase <;> simp [phase, isCommitted]
  · intro worker id owns
    refine .inl (kept id ?_)
    rcases inv.owned owns with phase | phase | phase <;> simp [phase, isCommitted]

/-- The records of a snapshot's slices decode to ids of these slices. -/
theorem Inv.delayed_listed (snapshot : ledger.Snapshot chunkId slices) (ids : List Nat) (id : Nat)
    (member : id ∈ ((slices.filter fun slice => slice.sliceId ∈ ids).map
      record).map Prod.fst) : id ∈ slices.map sliceId := by
  have small : ∀ slice ∈ slices, slice.sliceId < 2 ^ 64 := by
    intro slice inside
    have known := (snapshot slice inside).1
    have used : slice.sliceId ∈ state.usedIds := by
      refine inv.used fun unused => ?_
      simp [unused, isCommitted] at known
    have bound := inv.small _ used
    omega
  rcases (mem_delayedIds small id).mp member with ⟨slice, inside, _, same⟩
  exact mem_map.mpr ⟨slice, inside, same⟩

/-! ## Each step keeps the invariant -/

theorem clientStep_inv {action : ClientAction}
    (taken : clientStep layout state action = some next) : ∃ later, Inv later next := by
  cases action <;> simp only [clientStep] at taken
  case allocate id =>
    split_ifs at taken with fresh
    cases taken
    refine ⟨_, inv.allocate fresh (.inl rfl) ?_⟩
    exact forall_mem_cons.mpr ⟨.inr ⟨rfl, rfl⟩, fun _ => .inl⟩
  case upload sliceId index offset data =>
    split_ifs at taken with held
    cases taken
    exact ⟨ledger, inv.writeRange (by simp [inv.opened sliceId held])⟩
  case commit chunkId slice =>
    split_ifs at taken with held
    cases taken
    have opened := inv.opened slice.sliceId held
    refine ⟨_, inv.commit { slice with chunkId := chunkId } _ (.inl opened) ?_ ?_ ?_⟩
    · intro record member
      refine inv.tables.not_recorded ?_ ?_ ?_ member <;> simp [opened]
    · intro worker owns
      rcases inv.owned owns with phase | phase | phase <;> simp [opened] at phase
    · intro id member
      simpa using member
  case truncate ino newSize oldSize =>
    split at taken
    next tables pruned =>
      cases taken
      exact ⟨ledger, inv.shrink (shrinks_pruneSlicesForTruncate pruned)⟩
    next => cases taken

theorem snapshot_getSlices (chunkId : Nat) :
    ledger.Snapshot chunkId (state.tables.getSlices chunkId) := by
  intro slice member
  rw [mem_getSlices] at member
  have live := inv.tables.live slice member.1
  exact ⟨by simp [live, isCommitted], live.2.trans member.2⟩

theorem Inv.replaceCovered (snapshot : ledger.Snapshot chunkId slices)
    (replaced : replaceCovered state.tables chunkId slices = .ok tables) :
    ∃ later, Inv later { state with tables := tables } := by
  unfold GcSystem.replaceCovered at replaced
  simp only [replaceSlicesForCompact,
    decodeDelayedData_encodeDelayedData] at replaced
  split_ifs at replaced
  · cases replaced
    exact ⟨ledger, inv⟩
  · cases replaced
    exact ⟨_, inv.retire snapshot (inv.delayed_listed snapshot _)⟩

theorem lightStep_inv {action : LightAction}
    (taken : lightStep state worker action = some next) : ∃ later, Inv later next := by
  unfold lightStep at taken
  split at taken
  next chunkId _ =>
    cases taken
    refine ⟨ledger, inv.setLight ?_⟩
    rintro _ _ ⟨⟩
    exact snapshot_getSlices inv chunkId
  next chunkId slices read =>
    have snapshot := inv.light worker chunkId slices read
    split at taken
    next tables replaced =>
      cases taken
      rcases inv.replaceCovered snapshot replaced with ⟨later, kept⟩
      exact ⟨later, kept.setLight nofun⟩
    next =>
      cases taken
      exact ⟨ledger, inv.setLight nofun⟩
  next =>
    cases taken
    exact ⟨ledger, inv.setLight nofun⟩
  next => cases taken

/-! ### Heavy compactions -/

/-- The compaction leaves its place, and with it the id it owns. -/
theorem Inv.release (worker : Nat) : Inv ledger (state.setHeavy worker .idle) :=
  inv.setHeavy trivial nofun

theorem Inv.released (owns : (state.heavy worker).owns = some id) (other : Nat) :
    ((state.setHeavy worker .idle).heavy other).owns ≠ some id := by
  intro still
  by_cases here : other = worker
  · simp [here, GcSystem.setHeavy, HeavyPc.owns] at still
  · simp only [GcSystem.setHeavy, update_of_ne here] at still
    exact here (inv.owners other worker id still owns)

/-- The collector turns recorded ids into orphans. -/
theorem Inv.orphan (moved : SliceTables.Orphans ledger later)
    (agrees : tables.Agrees later) (rows : state.tables.RowsFrom tables) :
    Inv later { state with tables := tables } := by
  refine inv.advance moved.evolves agrees rows (fun id early => ?_)
    fun worker id _ => (moved.2 id).imp_right And.left
  rcases moved.2 id with same | ⟨_, phase | phase⟩
  · exact same
  · simp [phase] at early
  · simp [phase] at early

end

/-- Its own id moves on while a compaction takes a step. -/
theorem setHeavy_of_released
    (moved : Inv later { state.setHeavy worker .idle with tables := tables, usedIds := usedIds })
    (agrees : pc.Agrees later)
    (sole : ∀ id, pc.owns = some id -> ∀ other ≠ worker, (state.heavy other).owns ≠ some id) :
    Inv later ({ state with tables := tables, usedIds := usedIds }.setHeavy worker pc) := by
  have placed : Inv later ({ state.setHeavy worker .idle with
      tables := tables, usedIds := usedIds }.setHeavy worker pc) := by
    refine moved.setHeavy agrees ?_
    intro id owns other different
    simpa [setHeavy, different] using sole id owns other different
  simpa [setHeavy] using placed

variable {newSliceId : Nat}

/-- A compaction lets its id go, which moves on. -/
theorem Inv.moveOwned (inv : Inv ledger state) (owns : (state.heavy worker).owns = some newSliceId)
    (forward : (ledger.life newSliceId).leads phase = true)
    (agrees : tables.Agrees (ledger.move newSliceId phase)) (rows : state.tables.RowsFrom tables) :
    Inv (ledger.move newSliceId phase) { state.setHeavy worker .idle with tables := tables } := by
  refine (inv.release worker).advance (evolves_move forward) agrees rows
    (fun id early => move_life_of_ne ?_)
    fun other id still => .inl (move_life_of_ne ?_)
  · rintro rfl
    rcases inv.owned owns with phase | phase | phase <;> simp [phase] at early
  · rintro rfl
    exact inv.released owns other still

variable {spans : List (Span .block)}

section

variable (inv : Inv ledger state)
  (here : state.heavy worker = .writing chunkId slices newSliceId spans data)
include inv here

/-- The replacement committed the merged slice: its record was pending, so the
collector had not given up its blocks. -/
theorem Inv.replaceMerged (building : ledger.life newSliceId = .building)
    (replaced : replaceMerged layout state.tables chunkId slices newSliceId = .ok tables) :
    ∃ later, Inv later { state.setHeavy worker .idle with tables := tables } := by
  have agrees := inv.heavy worker
  have owns : (state.heavy worker).owns = some newSliceId := by rw [here]; rfl
  rw [here] at agrees
  have snapshot : ledger.Snapshot chunkId slices := agrees.1
  simp only [GcSystem.replaceMerged, replaceSlicesForCompactWithVersion,
    decodeDelayedData_encodeDelayedData, foldl_cons] at replaced
  split_ifs at replaced
  cases replaced
  have retired := (inv.release worker).retire snapshot
    (inv.delayed_listed snapshot (slices.map sliceId))
  have confirmed := retired.shrink (shrinks_confirmSliceCommitted _ newSliceId)
  rw [replaceSlices_singleton]
  refine ⟨_, confirmed.commit (mergedSlice layout chunkId newSliceId) state.openIds
    (.inr ?_) ?_ ?_ ?_⟩
  · refine (retire_life_of_not_mem fun inside => ?_).trans building
    rcases mem_map.mp (inv.delayed_listed snapshot _ _ inside) with ⟨slice, member, same⟩
    have known := (snapshot slice member).1
    rw [same, show ledger.life (mergedSlice layout chunkId newSliceId).sliceId =
      .building from building] at known
    cases known
  · intro record member
    simpa [mergedSlice] using (mem_filter.mp member).2
  · exact inv.released owns
  intro id member
  refine ⟨member, ?_⟩
  intro same
  change id = newSliceId at same
  have opened := inv.opened id member
  rw [same, building] at opened
  cases opened

/-- The replacement failed: unless the collector was there first, the id fails. -/
theorem Inv.replaceFailed :
    ∃ later, Inv later (state.setHeavy worker (.cleaning newSliceId)) := by
  have agrees := inv.heavy worker
  have owns : (state.heavy worker).owns = some newSliceId := by rw [here]; rfl
  rw [here] at agrees
  rcases agrees.2 with building | orphaned
  · refine ⟨ledger.move newSliceId .failed, ?_⟩
    have tables : state.tables.Agrees (ledger.move newSliceId .failed) := by
      refine inv.tables.move (by simp [building, isCommitted]) fun record member same =>
        ⟨fun _ => .inr rfl, fun status => ?_⟩
      have orphaned := inv.tables.orphaned record member status
      rw [same, building] at orphaned
      cases orphaned
    have moved := inv.moveOwned owns (by simp [building, leads]) tables (.refl _)
    exact setHeavy_of_released moved (.inl (by simp)) (by rintro _ ⟨⟩)
  · exact ⟨ledger, inv.setHeavy (.inr orphaned) (by rintro _ ⟨⟩)⟩

end

theorem isExpected_of_replaceMerged {after : SliceTables}
    (replaced : replaceMerged layout tables chunkId slices newSliceId = .ok after) :
    isExpected (tables.getSlices chunkId) slices = true := by
  simp only [replaceMerged, replaceSlicesForCompactWithVersion,
    decodeDelayedData_encodeDelayedData] at replaced
  split_ifs at replaced with expected
  exact expected

theorem heavyStep_inv {action : HeavyAction} (inv : Inv ledger state)
    (met : RecordPending state (.heavy worker action))
    (taken : heavyStep layout state worker action = some next) :
    ∃ later, Inv later next := by
  have agrees := inv.heavy worker
  unfold heavyStep at taken
  split at taken
  next chunkId idle =>
    cases taken
    exact ⟨ledger, inv.setHeavy (snapshot_getSlices inv chunkId) (by rintro _ ⟨⟩)⟩
  next chunkId slices here =>
    rw [here] at agrees
    split at taken <;> cases taken
    · exact ⟨ledger, inv.setHeavy agrees (by rintro _ ⟨⟩)⟩
    · exact ⟨ledger, inv.release worker⟩
  next newSliceId chunkId slices data here =>
    rw [here] at agrees
    split_ifs at taken with fresh
    cases taken
    have moved := (inv.release worker).allocate fresh (.inr rfl) (fun _ => .inl)
    refine ⟨_, setHeavy_of_released moved ⟨Ledger.Snapshot.evolve agrees ?_, by simp⟩ ?_⟩
    · exact evolves_move (by simp [inv.unused _ fresh.1, leads])
    · rintro id ⟨⟩ other _ owns
      rcases inv.owned owns with phase | phase | phase <;>
        simp [inv.unused _ fresh.1] at phase
  next chunkId slices data newSliceId here =>
    rw [here] at agrees
    cases taken
    have recorded := inv.tables.record chunkId layout.chunkSize agrees.2
    have moved := inv.moveOwned (by rw [here]; rfl) (by simp [agrees.2, leads]) recorded.1
      recorded.2
    refine ⟨_, setHeavy_of_released moved ⟨agrees.1.evolve ?_, .inl (by simp)⟩ ?_⟩
    · exact evolves_move (by simp [agrees.2, leads])
    · rintro id ⟨⟩ other different owns
      exact different (inv.owners other worker _ owns (by rw [here]; rfl))
  next chunkId slices newSliceId span spans data here =>
    rw [here] at agrees
    cases taken
    have known : ledger.life newSliceId ≠ .unused := by
      rcases agrees.2 with phase | phase <;> simp [phase]
    refine ⟨ledger, (inv.writeRange known).setHeavy agrees ?_⟩
    rintro id ⟨⟩ other different owns
    exact different (inv.owners other worker _ owns (by rw [here]; rfl))
  next chunkId slices newSliceId data here =>
    rw [here] at agrees
    split at taken
    next tables replaced =>
      cases taken
      have building : ledger.life newSliceId = .building := by
        have expected := isExpected_of_replaceMerged replaced
        simp only [RecordPending, here] at met
        rcases met expected with ⟨record, member, rfl, status⟩
        rcases inv.tables.pending record member status with phase | phase
        · exact phase
        · rcases agrees.2 with other | other
          · exact other
          · rw [phase] at other
            cases other
      rcases inv.replaceMerged here building replaced with ⟨later, moved⟩
      exact ⟨later, setHeavy_of_released moved trivial (by rintro _ ⟨⟩)⟩
    next =>
      cases taken
      exact inv.replaceFailed here
  next newSliceId here =>
    cases taken
    exact ⟨ledger, (inv.shrink (shrinks_confirmSliceCommitted ..)).release worker⟩
  next failed newSliceId here =>
    rw [here] at agrees
    cases taken
    refine ⟨ledger, (inv.deleteBlocks ?_).release worker⟩
    rcases agrees with phase | phase <;> simp [phase, keepsBlocks]
  next =>
    cases taken
    exact ⟨ledger, inv.release worker⟩
  next => cases taken

/-! ### Collectors -/

theorem gcStep_inv {action : GcAction} (inv : Inv ledger state)
    (taken : gcStep config state worker action = some next) :
    ∃ later, Inv later next := by
  have agrees := inv.gc worker
  unfold gcStep at taken
  split at taken
  next rows idle =>
    split_ifs at taken with listed
    cases taken
    exact ⟨ledger, inv.setGc fun row member => inv.tables.retired row (listed member)⟩
  next rows here =>
    rw [here] at agrees
    cases taken
    have processed := processDelayedSlices_spec state.tables rows
    refine ⟨ledger, (inv.shrink processed.1).setGc ?_⟩
    intro entry member
    rcases processed.2 entry member with ⟨row, inside, same⟩
    exact same ▸ agrees row inside
  next failed sliceId _ size delayedId pendingDeletions confirmedIds here =>
    rw [here] at agrees
    have retired : ledger.life sliceId = .retired := agrees _ mem_cons_self
    have rest := fun entry member => agrees entry (mem_cons_of_mem _ member)
    by_cases empty : size = 0
    · rw [if_pos empty] at taken
      cases taken
      exact ⟨ledger, inv.setGc rest⟩
    · rw [if_neg empty] at taken
      cases taken
      exact ⟨ledger, (inv.deleteBlocks (by simp [retired, keepsBlocks])).setGc rest⟩
  next confirmedIds here =>
    cases taken
    exact ⟨ledger, (inv.shrink (shrinks_confirmDelayedDeleted ..)).setGc trivial⟩
  next rows here =>
    split_ifs at taken with listed
    cases taken
    exact ⟨ledger, inv.setGc fun row member => inv.tables.seen (listed row member).1⟩
  next rows pendingSlices here =>
    rw [here] at agrees
    split_ifs at taken with listed
    cases taken
    exact ⟨ledger, inv.setGc ⟨agrees, fun row member =>
      inv.tables.orphaned row (listed row member).1 (listed row member).2⟩⟩
  next pendingSlices orphanRecords here =>
    rw [here] at agrees
    split at taken <;> cases taken
    next tables orphans cleaned =>
      rcases inv.tables.cleanupOrphanUncommittedSlices agrees.1 agrees.2 cleaned with
        ⟨later, moved, agreed, rows, orphaned⟩
      exact ⟨later, (inv.orphan moved agreed rows).setGc orphaned⟩
    next => exact ⟨ledger, inv.setGc trivial⟩
  next failed sliceId size orphans cleanedSliceIds here =>
    rw [here] at agrees
    cases taken
    have orphaned : ledger.life sliceId = .orphaned := agrees _ mem_cons_self
    exact ⟨ledger, (inv.deleteBlocks (by simp [orphaned, keepsBlocks])).setGc
      fun entry member => agrees entry (mem_cons_of_mem _ member)⟩
  next cleanedSliceIds here =>
    cases taken
    exact ⟨ledger, (inv.shrink (.of_uncommitted filter_sublist rfl)).setGc trivial⟩
  next =>
    cases taken
    exact ⟨ledger, inv.setGc trivial⟩
  next => cases taken

/-! ## Whole runs -/

theorem initial_inv : Inv ⟨fun _ => .unused, fun _ => 0⟩ initial where
  unused _ _ := rfl
  small := nofun
  opened := nofun
  tables := ⟨nofun, nofun, nofun, nofun, .nil, nofun⟩
  heavy _ := trivial
  owners := nofun
  light := nofun
  gc _ := trivial
  written := nofun
  stored := nofun

/-- In every run whose versioned replacements commit only slices with a pending
record, every slice of `slice_meta` has all its blocks in every state reached. -/
theorem keepsLiveBlocks_of_recordPending {actions : List Action} {final : GcSystem}
    (run : Run (step layout config) RecordPending initial actions final) :
    KeepsLiveBlocks final := by
  have known : ∃ ledger, Inv ledger final := by
    refine run.invariant (fun state => ∃ ledger, Inv ledger state)
      ⟨_, initial_inv⟩ ?_
    rintro state action next ⟨ledger, inv⟩ met taken
    cases action with
    | client action => exact clientStep_inv inv taken
    | light worker action => exact lightStep_inv inv taken
    | heavy worker action => exact heavyStep_inv inv met taken
    | gc worker action => exact gcStep_inv inv taken
  rcases known with ⟨ledger, inv⟩
  intro row member key written same
  refine inv.stored key written ?_
  rw [same, (inv.tables.live row member).1]
  rfl

/-! ## Two runs -/

/-- Chunks of 2 bytes in blocks of 1. -/
private def tinyLayout : ChunkLayout := .ofBlocks 1 0

private def tinyGcConfig : BlockGcConfig := ⟨1, by decide⟩

/-- A client commits slice 1 of chunk 5, and a heavy compaction of the chunk has
uploaded its slice 2. -/
private def uploadedMerge : List Action :=
  [.client (.allocate 1), .client (.upload 1 0 0 [7]), .client (.commit 5 ⟨1, 5, 0, 1⟩),
    .heavy 0 (.read 5), .heavy 0 .merge, .heavy 0 (.nextId 2), .heavy 0 .recordUncommitted,
    .heavy 0 .writeBlock, .heavy 0 .writeBlock]

/-- The compaction goes through and a collector deletes what it replaced. -/
private def mergeThenCollect : List Action :=
  uploadedMerge ++ [.heavy 0 .replace, .heavy 0 .confirmCommitted,
    .gc 0 (.readDelayed [⟨0, 1, 5, 0, 1, .pending⟩]), .gc 0 .processDelayed,
    .gc 0 (.deleteDelayedBlocks none), .gc 0 .confirmDelayed]

/-- A collector finds the uncommitted record old enough before the compaction
gets to its last step. -/
private def collectThenMerge : List Action :=
  uploadedMerge ++ [.gc 0 (.readDelayed []), .gc 0 .processDelayed, .gc 0 .confirmDelayed,
    .gc 0 (.readPending [⟨0, 2, 5, 2, .pending⟩]), .gc 0 (.readOrphans []), .gc 0 .cleanupOrphans,
    .gc 0 (.deleteOrphanBlocks none), .heavy 0 .replace]

theorem keepsLiveBlocks_mergeThenCollect :
    Exists fun state =>
      Run (step tinyLayout tinyGcConfig) RecordPending initial mergeThenCollect state ∧
      state.tables.sliceMeta = [⟨2, 5, 0, 2⟩] ∧ state.store (1, 0) = none ∧
      KeepsLiveBlocks state := by
  refine exists_run_of (fun state => state.tables.sliceMeta = [⟨2, 5, 0, 2⟩] ∧
    state.store (1, 0) = none) (by decide +kernel) fun state run ⟨rows, gone⟩ => ?_
  exact ⟨rows, gone, keepsLiveBlocks_of_recordPending run⟩

/-- The slice that the compaction commits has lost both of its blocks. -/
theorem cleanupOrphans_deletes_live_blocks :
    Exists fun state =>
      Run (step tinyLayout tinyGcConfig) anyStep initial collectThenMerge
        state ∧
      state.tables.sliceMeta = [⟨2, 5, 0, 2⟩] ∧ (2, 0) ∈ state.written ∧
      state.store (2, 0) = none ∧ ¬ KeepsLiveBlocks state := by
  refine exists_run_of (fun state => state.tables.sliceMeta = [⟨2, 5, 0, 2⟩] ∧
    (2, 0) ∈ state.written ∧ state.store (2, 0) = none) (by decide +kernel) ?_
  rintro state run ⟨rows, written, gone⟩
  refine ⟨rows, written, gone, fun keeps => ?_⟩
  have stored := keeps ⟨2, 5, 0, 2⟩ (by simp [rows]) (2, 0) written rfl
  simp [gone] at stored

end GcSystem

end Rk8s.Slayerfs
