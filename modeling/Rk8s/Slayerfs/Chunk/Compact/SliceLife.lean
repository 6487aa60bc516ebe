import Mathlib.Data.List.Induction
import Mathlib.Data.List.Pairwise
import Rk8s.Lib.Fallible
import Rk8s.Slayerfs.Chunk.Compact.Gc

namespace Rk8s.Slayerfs

open Fallible Function List Sublist

/-!
# The life of a slice id

Every id goes through a few phases, and only ever forward.  A client's id is
opened and then live.  The id of a heavy compaction is named, then recorded as
uncommitted while its blocks are written, and then live, or the compaction fails
or the collector orphans it.  A live id is retired by a compaction.

The tables never say which phase an id is in.  The proof assigns one to each id
and keeps the tables in agreement with it.  What matters in the end is that no
phase whose blocks may be deleted leads back to one whose blocks are needed.
-/

inductive Life where
  | unused
  | opened
  | named
  | building
  | failed
  | live
  | retired
  | orphaned
deriving DecidableEq

namespace Life

/-- The phases that an id may enter next. -/
def leads : Life -> Life -> Bool
  | .unused, .opened | .unused, .named => true
  | .opened, .live => true
  | .named, .building => true
  | .building, .live | .building, .failed | .building, .orphaned => true
  | .failed, .orphaned => true
  | .live, .retired => true
  | first, second => first = second

/-- The id has been in `slice_meta`. -/
def isCommitted : Life -> Bool
  | .live | .retired => true
  | _ => false

/-- The blocks of the id are or may still be needed. -/
def keepsBlocks : Life -> Bool
  | .opened | .named | .building | .live => true
  | _ => false

@[simp] theorem leads_self (life : Life) : life.leads life = true := by cases life <;> rfl

variable {after : Life}

theorem isCommitted_of_leads {before : Life} (forward : before.leads after = true)
    (committed : before.isCommitted = true) : after.isCommitted = true := by
  cases before <;> cases after <;> simp_all [leads, isCommitted]

theorem eq_retired_of_leads (forward : leads .retired after = true) :
    after = .retired := by
  cases after <;> simp_all [leads]

theorem eq_orphaned_of_leads (forward : leads .orphaned after = true) :
    after = .orphaned := by
  cases after <;> simp_all [leads]

theorem keepsBlocks_of_leads {before : Life} (forward : before.leads after = true)
    (needed : after.keepsBlocks = true) : before.keepsBlocks = true ∨ before = .unused := by
  cases before <;> cases after <;> simp_all [leads, keepsBlocks]

theorem failed_or_orphaned_of_leads {before : Life} (forward : before.leads after = true)
    (done : before = .failed ∨ before = .orphaned) : after = .failed ∨ after = .orphaned := by
  cases before <;> cases after <;> simp_all [leads]

end Life

/-- The phases of the ids together with the chunk that each committed id belongs to. -/
structure Ledger where
  life : Nat -> Life
  home : Nat -> Nat

variable {chunkId : Nat} {slices : List SliceDesc} {before : Ledger} {phase : Life}

namespace Ledger

/-- Every id stays or moves forward, and a committed id keeps its chunk. -/
def Evolves (before after : Ledger) : Prop :=
  forall id, (before.life id).leads (after.life id) = true ∧
    ((before.life id).isCommitted = true -> after.home id = before.home id)

variable (ledger : Ledger)

def move (id : Nat) (phase : Life) : Ledger :=
  { ledger with life := update ledger.life id phase }

def commit (id chunkId : Nat) : Ledger :=
  ⟨update ledger.life id .live, update ledger.home id chunkId⟩

def retire (ids : List Nat) : Ledger :=
  { ledger with life := fun id => if id ∈ ids then .retired else ledger.life id }

@[simp] theorem move_life_self (id : Nat) (phase : Life) :
    (ledger.move id phase).life id = phase := by simp [move]

variable {id : Nat} {ledger : Ledger} {other : Nat}

theorem move_life_of_ne (ne : other ≠ id) :
    (ledger.move id phase).life other = ledger.life other := by simp [move, ne]

@[simp] theorem commit_life_self (ledger : Ledger) (id chunkId : Nat) :
    (ledger.commit id chunkId).life id = .live := by simp [commit]

@[simp] theorem commit_home_self (ledger : Ledger) (id chunkId : Nat) :
    (ledger.commit id chunkId).home id = chunkId := by simp [commit]

theorem commit_of_ne (ne : other ≠ id) :
    (ledger.commit id chunkId).life other = ledger.life other ∧
      (ledger.commit id chunkId).home other = ledger.home other := by simp [commit, ne]

variable {ids : List Nat}

theorem retire_life_of_mem (listed : id ∈ ids) :
    (ledger.retire ids).life id = .retired := by simp [retire, listed]

theorem retire_life_of_not_mem (absent : id ∉ ids) :
    (ledger.retire ids).life id = ledger.life id := by simp [retire, absent]

theorem evolves_move
    (forward : (ledger.life id).leads phase = true) : ledger.Evolves (ledger.move id phase) := by
  intro other
  by_cases here : other = id
  · subst here
    exact ⟨by simpa using forward, fun _ => rfl⟩
  · exact ⟨by simp [move_life_of_ne here], fun _ => rfl⟩

theorem evolves_commit (chunkId : Nat)
    (ready : ledger.life id = .opened ∨ ledger.life id = .building) :
    ledger.Evolves (ledger.commit id chunkId) := by
  intro other
  by_cases here : other = id
  · subst here
    rcases ready with opened | building
    · simp [opened, Life.leads, Life.isCommitted]
    · simp [building, Life.leads, Life.isCommitted]
  · simp [commit_of_ne here]

theorem evolves_retire (committed : ∀ id ∈ ids, (ledger.life id).isCommitted = true) :
    ledger.Evolves (ledger.retire ids) := by
  intro id
  refine ⟨?_, fun _ => rfl⟩
  by_cases listed : id ∈ ids
  · have before := committed id listed
    rw [retire_life_of_mem listed]
    cases phase : ledger.life id <;> simp_all [Life.leads, Life.isCommitted]
  · simp [retire_life_of_not_mem listed]

/-- The slices of a chunk as some worker has read them: each of them was live then. -/
def Snapshot (ledger : Ledger) (chunkId : Nat) (slices : List SliceDesc) : Prop :=
  forall slice, slice ∈ slices ->
    (ledger.life slice.sliceId).isCommitted = true ∧ ledger.home slice.sliceId = chunkId

theorem Snapshot.evolve {after : Ledger} (snapshot : before.Snapshot chunkId slices)
    (evolves : before.Evolves after) :
    after.Snapshot chunkId slices := by
  intro slice member
  have known := snapshot slice member
  have moved := evolves slice.sliceId
  exact ⟨Life.isCommitted_of_leads moved.1 known.1, (moved.2 known.1).trans known.2⟩

end Ledger

/-! ## The tables -/

/-- Two rows of the uncommitted table share neither their ids nor their slices. -/
def UncommittedSlice.Apart (first second : UncommittedSlice) : Prop :=
  first.id ≠ second.id ∧ first.sliceId ≠ second.sliceId

instance : Std.Symm UncommittedSlice.Apart := ⟨fun _ _ apart => ⟨apart.1.symm, apart.2.symm⟩⟩

/-- The tables agree with the ledger. -/
structure SliceTables.Agrees (tables : SliceTables) (ledger : Ledger) : Prop where
  live : forall row, row ∈ tables.sliceMeta ->
    ledger.life row.sliceId = .live ∧ ledger.home row.sliceId = row.chunkId
  retired : forall row, row ∈ tables.delayedSlice -> ledger.life row.sliceId = .retired
  pending : forall row, row ∈ tables.uncommittedSlice -> row.status = .pending ->
    ledger.life row.sliceId = .building ∨ ledger.life row.sliceId = .failed
  orphaned : forall row, row ∈ tables.uncommittedSlice -> row.status = .orphan ->
    ledger.life row.sliceId = .orphaned
  distinct : tables.uncommittedSlice.Pairwise UncommittedSlice.Apart
  bounded : forall row, row ∈ tables.uncommittedSlice -> row.id < tables.nextUncommittedId

/-- Uncommitted rows keep their ids and slices, and new ones get new ids. -/
structure SliceTables.RowsFrom (before after : SliceTables) : Prop where
  older : forall row, row ∈ after.uncommittedSlice -> row.id < before.nextUncommittedId ->
    Exists fun old => old ∈ before.uncommittedSlice ∧ old.id = row.id ∧ old.sliceId = row.sliceId
  counter : before.nextUncommittedId ≤ after.nextUncommittedId

namespace SliceTables

variable {tables after : SliceTables} {ledger other : Ledger} {first second third : SliceTables}

theorem RowsFrom.refl (tables : SliceTables) : RowsFrom tables tables :=
  ⟨fun row member _ => ⟨row, member, rfl, rfl⟩, le_rfl⟩

theorem RowsFrom.trans (left : RowsFrom first second)
    (right : RowsFrom second third) : RowsFrom first third := by
  refine ⟨?_, le_trans left.counter right.counter⟩
  intro row member below
  rcases right.older row member (below.trans_le left.counter) with
    ⟨middle, listed, sameId, sameSlice⟩
  rcases left.older middle listed (by omega) with ⟨old, oldListed, oldId, oldSlice⟩
  exact ⟨old, oldListed, oldId.trans sameId, oldSlice.trans sameSlice⟩

variable {id : Nat} {row : UncommittedSlice}

section

variable (agrees : tables.Agrees ledger)
include agrees

/-- No row of the uncommitted table belongs to an id in another phase. -/
theorem Agrees.not_recorded
    (building : ledger.life id ≠ .building) (failed : ledger.life id ≠ .failed)
    (orphaned : ledger.life id ≠ .orphaned) (member : row ∈ tables.uncommittedSlice) :
    row.sliceId ≠ id := by
  rintro rfl
  cases status : row.status with
  | pending => exact (agrees.pending row member status).elim building failed
  | orphan => exact orphaned (agrees.orphaned row member status)

/-- An id that was never committed may move if its records allow it. -/
theorem Agrees.move (uncommitted : (ledger.life id).isCommitted = false)
    (recorded : ∀ row ∈ tables.uncommittedSlice, row.sliceId = id ->
      (row.status = .pending -> phase = .building ∨ phase = .failed) ∧
        (row.status = .orphan -> phase = .orphaned)) : tables.Agrees (ledger.move id phase) := by
  have elsewhere : ∀ other, (ledger.life other).isCommitted = true ->
      (ledger.move id phase).life other = ledger.life other := by
    intro other committed
    refine Ledger.move_life_of_ne ?_
    rintro rfl
    simp [uncommitted] at committed
  refine ⟨?_, ?_, ?_, ?_, agrees.distinct, agrees.bounded⟩
  · intro row member
    have live := agrees.live row member
    rw [elsewhere _ (by simp [live, Life.isCommitted])]
    exact live
  · intro row member
    have retired := agrees.retired row member
    rw [elsewhere _ (by simp [retired, Life.isCommitted])]
    exact retired
  · intro row member status
    by_cases here : row.sliceId = id
    · rw [here, Ledger.move_life_self]
      exact (recorded row member here).1 status
    · rw [Ledger.move_life_of_ne here]
      exact agrees.pending row member status
  intro row member status
  by_cases here : row.sliceId = id
  · rw [here, Ledger.move_life_self]
    exact (recorded row member here).2 status
  · rw [Ledger.move_life_of_ne here]
    exact agrees.orphaned row member status

/-! ## What each operation does to the agreement -/

/-- Rows may be taken away, and their other columns may change. -/
theorem Agrees.shrink
    (kept : ∀ row ∈ after.sliceMeta, ∃ old,
      old ∈ tables.sliceMeta ∧ old.sliceId = row.sliceId ∧ old.chunkId = row.chunkId)
    (delayed : ∀ row ∈ after.delayedSlice, ∃ old,
      old ∈ tables.delayedSlice ∧ old.sliceId = row.sliceId)
    (rows : after.uncommittedSlice.Sublist tables.uncommittedSlice)
    (counter : after.nextUncommittedId = tables.nextUncommittedId) : after.Agrees ledger := by
  refine ⟨?_, ?_, ?_, ?_, agrees.distinct.sublist rows, ?_⟩
  · intro row member
    rcases kept row member with ⟨old, listed, sameSlice, sameChunk⟩
    rw [← sameSlice, ← sameChunk]
    exact agrees.live old listed
  · intro row member
    rcases delayed row member with ⟨old, listed, sameSlice⟩
    rw [← sameSlice]
    exact agrees.retired old listed
  · intro row member
    exact agrees.pending row (rows.subset member)
  · intro row member
    exact agrees.orphaned row (rows.subset member)
  · intro row member
    rw [counter]
    exact agrees.bounded row (rows.subset member)

end

theorem RowsFrom.of_sublist (rows : after.uncommittedSlice.Sublist tables.uncommittedSlice)
    (counter : after.nextUncommittedId = tables.nextUncommittedId) : RowsFrom tables after :=
  ⟨fun row member _ => ⟨row, rows.subset member, rfl, rfl⟩, counter.ge⟩

/-- An operation that only takes rows away. -/
structure Shrinks (tables after : SliceTables) : Prop where
  agrees : forall ledger : Ledger, tables.Agrees ledger -> after.Agrees ledger
  rows : RowsFrom tables after

theorem Shrinks.of_uncommitted (rows : after.uncommittedSlice.Sublist tables.uncommittedSlice)
    (unchanged : after = { tables with uncommittedSlice := after.uncommittedSlice }) :
    Shrinks tables after := by
  have counter : after.nextUncommittedId = tables.nextUncommittedId := by rw [unchanged]
  have sliceMeta : after.sliceMeta = tables.sliceMeta := by rw [unchanged]
  have delayed : after.delayedSlice = tables.delayedSlice := by rw [unchanged]
  refine ⟨fun ledger agrees => agrees.shrink ?_ ?_ rows counter, .of_sublist rows counter⟩
  · intro row member
    exact ⟨row, sliceMeta ▸ member, rfl, rfl⟩
  · intro row member
    exact ⟨row, delayed ▸ member, rfl⟩

theorem shrinks_confirmSliceCommitted (tables : SliceTables) (sliceId : Nat) :
    Shrinks tables (tables.confirmSliceCommitted sliceId) :=
  .of_uncommitted filter_sublist rfl

theorem shrinks_confirmDelayedDeleted (tables : SliceTables) (delayedIds : List Nat) :
    Shrinks tables (tables.confirmDelayedDeleted delayedIds) := by
  refine ⟨fun ledger agrees => agrees.shrink (fun row member => ⟨row, member, rfl, rfl⟩) ?_
    (refl _) rfl, .of_sublist (refl _) rfl⟩
  intro row member
  exact ⟨row, mem_of_mem_filter member, rfl⟩

/-- Tables that differ in the slices only, each of which was there before. -/
theorem Shrinks.of_sliceMeta
    (kept : ∀ row ∈ after.sliceMeta, ∃ old,
      old ∈ tables.sliceMeta ∧ old.sliceId = row.sliceId ∧ old.chunkId = row.chunkId)
    (unchanged : after = { tables with sliceMeta := after.sliceMeta }) : Shrinks tables after := by
  have counter : after.nextUncommittedId = tables.nextUncommittedId := by rw [unchanged]
  have rows : after.uncommittedSlice = tables.uncommittedSlice := by rw [unchanged]
  have delayed : after.delayedSlice = tables.delayedSlice := by rw [unchanged]
  refine ⟨fun ledger agrees => agrees.shrink kept ?_ (rows ▸ refl _) counter,
    .of_sublist (rows ▸ refl _) counter⟩
  intro row member
  exact ⟨row, delayed ▸ member, rfl⟩

theorem Shrinks.refl (tables : SliceTables) : Shrinks tables tables :=
  ⟨fun _ => id, .refl tables⟩

theorem Shrinks.trans (left : Shrinks first second)
    (right : Shrinks second third) : Shrinks first third :=
  ⟨fun ledger agrees => right.agrees ledger (left.agrees ledger agrees), left.rows.trans right.rows⟩

theorem shrinks_rewriteChunk (tables : SliceTables) (chunkId cutoffOffset : Nat) :
    Shrinks tables (tables.rewriteChunk chunkId cutoffOffset) := by
  refine .of_sliceMeta ?_ rfl
  intro row member
  rcases mem_filterMap.mp member with ⟨old, listed, trimmed⟩
  split_ifs at trimmed with here
  · unfold SliceDesc.trim at trimmed
    split at trimmed <;> cases trimmed <;> exact ⟨_, listed, rfl, rfl⟩
  · cases trimmed
    exact ⟨_, listed, rfl, rfl⟩

variable {ino : Int} {plan : TruncatePlan}

theorem shrinks_trimCutoff
    (trimmed : tables.trimCutoff ino plan = .ok after) : Shrinks tables after := by
  unfold trimCutoff at trimmed
  split_ifs at trimmed
  · obtain ⟨chunkId, _, trimmed⟩ := bind_eq_ok.mp trimmed
    cases trimmed
    exact shrinks_rewriteChunk ..
  · cases trimmed
    exact .refl tables

theorem shrinks_dropTail
    (dropped : tables.dropTail ino plan = .ok after) : Shrinks tables after := by
  unfold dropTail at dropped
  split_ifs at dropped
  · obtain ⟨startChunkId, _, dropped⟩ := bind_eq_ok.mp dropped
    obtain ⟨endChunkId, _, dropped⟩ := bind_eq_ok.mp dropped
    cases dropped
    exact .of_sliceMeta (fun row member => ⟨row, mem_of_mem_filter member, rfl, rfl⟩) rfl
  · cases dropped
    exact .refl tables

theorem shrinks_pruneSlicesForTruncate {newSize oldSize chunkSize : Nat}
    (pruned : tables.pruneSlicesForTruncate ino newSize oldSize chunkSize = .ok after) :
    Shrinks tables after := by
  unfold pruneSlicesForTruncate at pruned
  split at pruned
  · cases pruned
    exact .refl tables
  · obtain ⟨middle, trimmed, dropped⟩ := bind_eq_ok.mp pruned
    exact (shrinks_trimCutoff trimmed).trans (shrinks_dropTail dropped)

theorem shrinks_markMetaDeleted (marked : tables.markMetaDeleted id = some after) :
    Shrinks tables after := by
  unfold markMetaDeleted at marked
  split_ifs at marked
  cases marked
  refine ⟨fun ledger agrees => agrees.shrink (fun row member => ⟨row, member, rfl, rfl⟩) ?_
    (refl _) rfl, .of_sublist (refl _) rfl⟩
  refine forall_mem_map.mpr fun old listed => ⟨old, listed, ?_⟩
  split_ifs <;> rfl

/-- What `process_delayed_slices` passes on are slices it has read. -/
theorem processDelayedSlices_spec (tables : SliceTables) (delayedSlices : List DelayedSlice) :
    Shrinks tables (tables.processDelayedSlices delayedSlices).1 ∧
      ∀ entry ∈ (tables.processDelayedSlices delayedSlices).2,
        ∃ delayed ∈ delayedSlices, delayed.sliceId = entry.1 := by
  unfold processDelayedSlices
  induction delayedSlices using List.reverseRecOn with
  | nil => exact ⟨.refl tables, by simp⟩
  | append_singleton rows delayed ih =>
    rw [foldl_append, foldl_cons, foldl_nil]
    generalize rows.foldl processDelayedRow (tables, []) = progress at ih ⊢
    have listed : ∀ entry ∈ progress.2 ++
        [(delayed.sliceId, delayed.offset, delayed.size, delayed.id)],
        ∃ row ∈ rows ++ [delayed], row.sliceId = entry.1 := by
      refine forall_mem_append.mpr ⟨fun entry before => ?_, by simp⟩
      rcases ih.2 entry before with ⟨row, inside, same⟩
      exact ⟨row, mem_append_left _ inside, same⟩
    unfold processDelayedRow
    cases status : delayed.status with
    | metaDeleted => exact ⟨ih.1, listed⟩
    | pending =>
      have removed : Shrinks progress.1 { progress.1 with
          sliceMeta := progress.1.sliceMeta.filter fun row =>
            row.sliceId ≠ delayed.sliceId } :=
        .of_sliceMeta (fun row member => ⟨row, mem_of_mem_filter member, rfl, rfl⟩) rfl
      dsimp only
      cases marked : markMetaDeleted _ delayed.id with
      | none =>
        exact ⟨ih.1.trans removed, fun entry member =>
          listed entry (mem_append_left _ member)⟩
      | some after => exact ⟨(ih.1.trans removed).trans (shrinks_markMetaDeleted marked), listed⟩

/-- A slice is inserted under an id that is not in any table. -/
theorem Agrees.insert (agrees : tables.Agrees ledger) {row : SliceDesc}
    (ready : ledger.life row.sliceId = .opened ∨ ledger.life row.sliceId = .building)
    (unrecorded : ∀ record ∈ tables.uncommittedSlice, record.sliceId ≠ row.sliceId) :
    { tables with sliceMeta := tables.sliceMeta ++ [row] }.Agrees
      (ledger.commit row.sliceId row.chunkId) := by
  have elsewhere : ∀ id, (ledger.life id).isCommitted = true -> id ≠ row.sliceId := by
    rintro id committed rfl
    rcases ready with opened | building <;> simp_all [Life.isCommitted]
  have kept : tables.Agrees (ledger.move row.sliceId .live) := by
    refine agrees.move ?_ fun record member same => absurd same (unrecorded record member)
    rcases ready with opened | building <;> simp_all [Life.isCommitted]
  refine { kept with live := forall_mem_append.mpr ⟨fun old before => ?_, by simp⟩ }
  have live := agrees.live old before
  obtain ⟨life, home⟩ := Ledger.commit_of_ne
    (elsewhere old.sliceId (by simp [live, Life.isCommitted]))
  rw [life, home]
  exact live

theorem mem_delayedRows {records : List (Nat × Nat × Nat)} {row : DelayedSlice}
    (member : row ∈ delayedRows chunkId id records) :
    row.sliceId ∈ records.map Prod.fst := by
  induction records generalizing id with
  | nil => cases member
  | cons record records ih =>
    rcases mem_cons.mp member with rfl | rest
    · simp
    · exact mem_cons_of_mem _ (ih rest)

/-- Taking slices of a snapshot out of a chunk retires them.  None of them is in
another chunk, because a committed id keeps its chunk. -/
theorem Agrees.retire (agrees : tables.Agrees ledger) {delayed : List (Nat × Nat × Nat)}
    (snapshot : ledger.Snapshot chunkId slices)
    (listed : ∀ id ∈ delayed.map Prod.fst, id ∈ slices.map SliceDesc.sliceId) :
    (tables.replaceSlices chunkId [] delayed).Agrees (ledger.retire (delayed.map Prod.fst)) := by
  have committed : ∀ id ∈ delayed.map Prod.fst,
      (ledger.life id).isCommitted = true ∧ ledger.home id = chunkId := by
    intro id member
    rcases mem_map.mp (listed id member) with ⟨slice, inside, rfl⟩
    exact snapshot slice inside
  have unlisted : ∀ record ∈ tables.uncommittedSlice, record.sliceId ∉ delayed.map Prod.fst := by
    intro record member inside
    have known := (committed _ inside).1
    refine agrees.not_recorded ?_ ?_ ?_ member rfl <;> intro phase <;>
      simp [phase, Life.isCommitted] at known
  refine ⟨?_, ?_, ?_, ?_, agrees.distinct, agrees.bounded⟩
  · intro row member
    have kept : row ∈ tables.sliceMeta ∧
        ¬ (row.chunkId = chunkId ∧ row.sliceId ∈ delayed.map Prod.fst) := by
      rcases mem_append.mp member with inside | new
      · exact ⟨(mem_filter.mp inside).1, of_decide_eq_true (mem_filter.mp inside).2⟩
      · cases new
    have absent : row.sliceId ∉ delayed.map Prod.fst := by
      intro inside
      have home := (committed _ inside).2
      rw [(agrees.live row kept.1).2] at home
      exact kept.2 ⟨home, inside⟩
    rw [Ledger.retire_life_of_not_mem absent]
    exact agrees.live row kept.1
  · intro row member
    by_cases inside : row.sliceId ∈ delayed.map Prod.fst
    · exact Ledger.retire_life_of_mem inside
    · rw [Ledger.retire_life_of_not_mem inside]
      rcases mem_append.mp member with before | new
      · exact agrees.retired row before
      · exact absurd (mem_delayedRows new) inside
  · intro record member status
    rw [Ledger.retire_life_of_not_mem (unlisted record member)]
    exact agrees.pending record member status
  · intro record member status
    rw [Ledger.retire_life_of_not_mem (unlisted record member)]
    exact agrees.orphaned record member status

/-- A versioned replacement is a removal, the end of the record and an insertion. -/
theorem replaceSlices_singleton (tables : SliceTables) (chunkId : Nat) (slice : SliceDesc)
    (delayed : List (Nat × Nat × Nat)) (sliceId : Nat) :
    (tables.replaceSlices chunkId [slice] delayed).confirmSliceCommitted sliceId =
      { (tables.replaceSlices chunkId [] delayed).confirmSliceCommitted sliceId with
        sliceMeta := ((tables.replaceSlices chunkId [] delayed).confirmSliceCommitted
          sliceId).sliceMeta ++ [{ slice with chunkId := chunkId }] } := by
  simp [replaceSlices, confirmSliceCommitted]

/-- Recording the slice of a heavy compaction. -/
theorem Agrees.record (agrees : tables.Agrees ledger) {sliceId : Nat} (chunkId size : Nat)
    (named : ledger.life sliceId = .named) :
    (tables.recordUncommittedSlice sliceId chunkId size).Agrees
        (ledger.move sliceId .building) ∧
      RowsFrom tables (tables.recordUncommittedSlice sliceId chunkId size) := by
  have absent : ∀ record ∈ tables.uncommittedSlice, record.sliceId ≠ sliceId := by
    intro record member
    refine agrees.not_recorded ?_ ?_ ?_ member <;> simp [named]
  have kept : tables.Agrees (ledger.move sliceId .building) :=
    agrees.move (by simp [named, Life.isCommitted])
      fun record member same => absurd same (absent record member)
  refine ⟨⟨kept.live, kept.retired, ?_, ?_, ?_, ?_⟩, ⟨?_, Nat.le_succ _⟩⟩
  · exact forall_mem_append.mpr ⟨kept.pending, by simp⟩
  · exact forall_mem_append.mpr ⟨kept.orphaned, by simp⟩
  · exact pairwise_append.mpr ⟨agrees.distinct, pairwise_singleton .., fun old member =>
      forall_mem_singleton.mpr ⟨ne_of_lt (agrees.bounded old member), absent old member⟩⟩
  · exact forall_mem_append.mpr
      ⟨fun record before => Nat.lt_succ_of_lt (agrees.bounded record before),
        forall_mem_singleton.mpr (lt_add_one _)⟩
  · exact forall_mem_append.mpr ⟨fun record before _ => ⟨record, before, rfl, rfl⟩,
      forall_mem_singleton.mpr fun below => absurd below (lt_irrefl _)⟩

/-! ## Orphans -/

/-- What the collector does to the ledger: some recorded ids become orphans. -/
def Orphans (before after : Ledger) : Prop :=
  after.home = before.home ∧ forall id, after.life id = before.life id ∨
    after.life id = .orphaned ∧ (before.life id = .building ∨ before.life id = .failed)

theorem Orphans.refl (ledger : Ledger) : Orphans ledger ledger := ⟨rfl, fun _ => .inl rfl⟩

theorem Orphans.trans {first second third : Ledger} (left : Orphans first second)
    (right : Orphans second third) : Orphans first third := by
  refine ⟨right.1.trans left.1, ?_⟩
  intro id
  rcases right.2 id with same | ⟨orphaned, recorded⟩
  · rw [same]
    exact left.2 id
  · rcases left.2 id with same | ⟨already, _⟩
    · exact .inr ⟨orphaned, same ▸ recorded⟩
    · rw [already] at recorded
      rcases recorded with impossible | impossible <;> cases impossible

theorem Orphans.evolves {after : Ledger} (orphans : Orphans before after) :
    before.Evolves after := by
  intro id
  refine ⟨?_, fun _ => congrFun orphans.1 id⟩
  rcases orphans.2 id with same | ⟨orphaned, building | failed⟩
  · simp [same]
  · simp [orphaned, building, Life.leads]
  · simp [orphaned, failed, Life.leads]

theorem Orphans.stays {after : Ledger} (orphans : Orphans before after)
    (orphaned : before.life id = .orphaned) : after.life id = .orphaned :=
  Life.eq_orphaned_of_leads (orphaned ▸ (orphans.evolves id).1)

/-- The row of an id that the collector has read still names the same slice. -/
def Seen (tables : SliceTables) (pending : UncommittedSlice) : Prop :=
  pending.id < tables.nextUncommittedId ∧ forall row, row ∈ tables.uncommittedSlice ->
    row.id = pending.id -> row.sliceId = pending.sliceId

variable {pending : UncommittedSlice} {progress result : SliceTables × List (Nat × Nat)}

theorem Seen.rowsFrom (seen : tables.Seen pending) (rows : RowsFrom tables after) :
    after.Seen pending := by
  refine ⟨seen.1.trans_le rows.counter, ?_⟩
  intro row member same
  rcases rows.older row member (same ▸ seen.1) with ⟨old, listed, sameId, sameSlice⟩
  exact sameSlice ▸ seen.2 old listed (sameId.trans same)

theorem Agrees.seen (agrees : tables.Agrees ledger) (member : row ∈ tables.uncommittedSlice) :
    tables.Seen row := by
  refine ⟨agrees.bounded row member, ?_⟩
  intro other listed same
  by_contra different
  have distinct : other ≠ row := fun equal => different (equal ▸ rfl)
  exact (agrees.distinct.forall listed member distinct).1 same

theorem mark_same (id : Nat) (row : UncommittedSlice) :
    (if row.id = id then { row with status := .orphan } else row).id = row.id ∧
      (if row.id = id then { row with status := .orphan } else row).sliceId = row.sliceId := by
  split_ifs <;> exact ⟨rfl, rfl⟩

/-- Marking the row of an id that the collector has read. -/
theorem Agrees.markOrphan (agrees : tables.Agrees ledger) (seen : tables.Seen pending)
    (marked : tables.markOrphan pending.id = .ok after) :
    Orphans ledger (ledger.move pending.sliceId .orphaned) ∧
      after.Agrees (ledger.move pending.sliceId .orphaned) ∧ RowsFrom tables after := by
  unfold SliceTables.markOrphan at marked
  split_ifs at marked with present
  cases marked
  rcases mem_map.mp present with ⟨record, listed, sameId⟩
  have sameSlice := seen.2 record listed sameId
  have recorded : ledger.life pending.sliceId = .building ∨
      ledger.life pending.sliceId = .failed ∨ ledger.life pending.sliceId = .orphaned := by
    rw [← sameSlice]
    cases status : record.status with
    | pending => exact (agrees.pending record listed status).imp_right .inl
    | orphan => exact .inr (.inr (agrees.orphaned record listed status))
  have elsewhere : ∀ id, (ledger.life id).isCommitted = true -> id ≠ pending.sliceId := by
    rintro id committed rfl
    rcases recorded with phase | phase | phase <;> simp [phase, Life.isCommitted] at committed
  have others : ∀ row ∈ tables.uncommittedSlice, row.id ≠ pending.id ->
      (ledger.move pending.sliceId .orphaned).life row.sliceId = ledger.life row.sliceId := by
    intro row member different
    have distinct : row ≠ record := fun equal => different (equal ▸ sameId)
    exact Ledger.move_life_of_ne (sameSlice ▸ (agrees.distinct.forall member listed distinct).2)
  refine ⟨⟨rfl, ?_⟩, ⟨?_, ?_, ?_, ?_, ?_, ?_⟩, fun row member _ => ?_, le_rfl⟩
  · intro id
    by_cases here : id = pending.sliceId
    · subst here
      rw [Ledger.move_life_self]
      rcases recorded with phase | phase | phase <;> simp [phase]
    · exact .inl (Ledger.move_life_of_ne here)
  · intro row member
    have live := agrees.live row member
    rw [Ledger.move_life_of_ne (elsewhere _ (by simp [live, Life.isCommitted]))]
    exact live
  · intro row member
    have retired := agrees.retired row member
    rw [Ledger.move_life_of_ne (elsewhere _ (by simp [retired, Life.isCommitted]))]
    exact retired
  · refine forall_mem_map.mpr fun old inside status => ?_
    split_ifs at status ⊢ with here
    rw [others old inside here]
    exact agrees.pending old inside status
  · refine forall_mem_map.mpr fun old inside status => ?_
    split_ifs at status ⊢ with here
    · simp [seen.2 old inside here]
    · rw [others old inside here]
      exact agrees.orphaned old inside status
  · refine pairwise_map.mpr (agrees.distinct.imp ?_)
    intro first second apart
    rw [UncommittedSlice.Apart, (mark_same pending.id first).1, (mark_same pending.id first).2,
      (mark_same pending.id second).1, (mark_same pending.id second).2]
    exact apart
  · refine forall_mem_map.mpr fun old inside => ?_
    rw [(mark_same pending.id old).1]
    exact agrees.bounded old inside
  · obtain ⟨old, inside, rfl⟩ := mem_map.mp member
    exact ⟨old, inside, (mark_same pending.id old).1.symm, (mark_same pending.id old).2.symm⟩

theorem Agrees.cleanupPendingRow
    (agrees : progress.1.Agrees ledger) (seen : progress.1.Seen pending)
    (cleaned : cleanupPendingRow progress pending = .ok result) :
    ∃ after : Ledger, Orphans ledger after ∧ result.1.Agrees after ∧
      RowsFrom progress.1 result.1 ∧
      ∀ entry ∈ result.2, entry ∈ progress.2 ∨ after.life entry.1 = .orphaned := by
  unfold SliceTables.cleanupPendingRow at cleaned
  split_ifs at cleaned with committed
  · cases cleaned
    have shrinks : Shrinks progress.1 { progress.1 with
        uncommittedSlice := progress.1.uncommittedSlice.filter fun row => row.id ≠ pending.id } :=
      .of_uncommitted filter_sublist rfl
    exact ⟨ledger, .refl ledger, shrinks.agrees ledger agrees, shrinks.rows,
      fun _ => .inl⟩
  · obtain ⟨tables, marked, cleaned⟩ := bind_eq_ok.mp cleaned
    cases cleaned
    rcases agrees.markOrphan seen marked with ⟨orphans, kept, rows⟩
    exact ⟨_, orphans, kept, rows, forall_mem_append.mpr ⟨fun entry before => .inl before, by simp⟩⟩

/-- The loop over the rows that the collector has read. -/
theorem Agrees.cleanupPendingRows {rows : List UncommittedSlice} (agrees : progress.1.Agrees ledger)
    (seen : ∀ pending ∈ rows, progress.1.Seen pending)
    (listed : ∀ entry ∈ progress.2, ledger.life entry.1 = .orphaned)
    (cleaned : rows.foldlM SliceTables.cleanupPendingRow progress = .ok result) :
    ∃ after : Ledger, Orphans ledger after ∧ result.1.Agrees after ∧
      RowsFrom progress.1 result.1 ∧
      ∀ entry ∈ result.2, after.life entry.1 = .orphaned := by
  induction rows generalizing progress ledger with
  | nil =>
    cases cleaned
    exact ⟨ledger, .refl ledger, agrees, .refl _, listed⟩
  | cons pending rows ih =>
    obtain ⟨middle, first, cleaned⟩ := bind_eq_ok.mp cleaned
    rcases agrees.cleanupPendingRow (seen pending mem_cons_self) first with
      ⟨between, orphans, kept, from_, entries⟩
    have listed : ∀ entry ∈ middle.2, between.life entry.1 = .orphaned := by
      intro entry member
      rcases entries entry member with before | new
      · exact orphans.stays (listed entry before)
      · exact new
    rcases ih kept (fun other member =>
        (seen other (mem_cons_of_mem _ member)).rowsFrom from_) listed cleaned with
      ⟨last, further, agreed, rest, orphaned⟩
    exact ⟨last, orphans.trans further, agreed, from_.trans rest, orphaned⟩

/-- Everything whose blocks `cleanup_orphan_uncommitted_slices` gives up is an orphan. -/
theorem Agrees.cleanupOrphanUncommittedSlices (agrees : tables.Agrees ledger)
    {pendingSlices orphanRecords : List UncommittedSlice} {orphans : List (Nat × Nat)}
    (seen : ∀ pending ∈ pendingSlices, tables.Seen pending)
    (orphaned : ∀ row ∈ orphanRecords, ledger.life row.sliceId = .orphaned)
    (cleaned : tables.cleanupOrphanUncommittedSlices pendingSlices orphanRecords =
      .ok (after, orphans)) :
    ∃ later : Ledger, Orphans ledger later ∧ after.Agrees later ∧
      RowsFrom tables after ∧ ∀ entry ∈ orphans, later.life entry.1 = .orphaned := by
  obtain ⟨result, looped, cleaned⟩ := bind_eq_ok.mp cleaned
  cases cleaned
  rcases agrees.cleanupPendingRows seen (by simp) looped with
    ⟨later, moved, agreed, rows, listed⟩
  exact ⟨later, moved, agreed, rows, forall_mem_append.mpr
    ⟨listed, forall_mem_map.mpr fun row inside => moved.stays (orphaned row inside)⟩⟩

end SliceTables

end Rk8s.Slayerfs
