import Rk8s.Slayerfs.Vfs.ChunkInvariant

namespace Rk8s.Slayerfs.ChunkWriter

open Transition List ChunkWriter DataFetcher

/-!
# When the last write wins

The slices of a chunk are committed in the order of the queue, and a later slice
hides an earlier one.  A write into a slice that is not the newest is therefore
visible only where no newer slice has bytes.  `WritesOnTop` states that for a
single step.  In the runs all of whose steps meet it nothing is lost; the last
theorem is a run in which one step does not meet it and a write disappears.
-/

variable (config : WriteConfig)

/-- Writes stay inside the chunk, and a slice that accepts a write has no newer
slice in the same place. -/
def WritesOnTop (state : ChunkWriter) : Action -> Prop
  | .beginWrite offset buf => offset + buf.length ≤ config.layout.chunkSize
  | .tryWrite =>
    match state.writer with
    | .trying offset buf key =>
      ((state.cells key).slice.canWrite config offset buf.length).isSome = true ->
        forall newer, newer ∈ newerThan state.queue key ->
          Apart (state.cells newer).slice offset buf.length
    | _ => True
  | _ => True

instance (state : ChunkWriter) (action : Action) : Decidable (WritesOnTop config state action) := by
  unfold WritesOnTop
  cases action <;> dsimp only <;> try infer_instance
  split <;> infer_instance

/-- The writes of a run, in call order. -/
def calls (actions : List Action) : List (Nat × Bytes) :=
  actions.filterMap fun action =>
    match action with
    | .beginWrite offset buf => some (offset, buf)
    | _ => none

/-- The write that has started and is not in a slice yet. -/
def pending : WriterPc -> List (Nat × Bytes)
  | .scanning offset buf _ _ => [(offset, buf)]
  | .trying offset buf _ => [(offset, buf)]
  | _ => []

variable {config} {chunkId : Nat} {base : Nat -> UInt8} {writes : List (Nat × Bytes)}
variable {state next : ChunkWriter}

/-- What a step adds to the completed writes, so that completed and pending
writes together are the calls so far. -/
def Advances (config : WriteConfig) (base : Nat -> UInt8) (writes : List (Nat × Bytes))
    (state : ChunkWriter) (action : Action) (next : ChunkWriter) : Prop :=
  Exists fun more => Inv config base (writes ++ more) next ∧
    more ++ pending next.writer = pending state.writer ++ calls [action]

variable {action : Action}

theorem advances_of_inv (inv : Inv config base writes next)
    (same : pending next.writer = pending state.writer ++ calls [action]) :
    Advances config base writes state action next :=
  ⟨[], by rwa [append_nil], same⟩

variable {offset : Nat} {buf : Bytes}

section

variable (inv : Inv config base writes state)
include inv

theorem advances_scan {remaining : List Nat} {idx : Nat}
    (here : state.writer = .scanning offset buf remaining idx) :
    Advances config base writes state .scan
      (state.scan config chunkId offset buf remaining idx) := by
  have ok := inv.writerOk
  rw [WriterOk, here] at ok
  rcases ok with ⟨fits, listed⟩
  have found : ∀ queued key, pending (found queued offset buf key).writer =
      [(offset, buf)] := by
    intro queued key
    unfold found
    dsimp only
    split_ifs <;> rfl
  cases remaining with
  | nil => exact advances_of_inv (inv.create fits) (by rw [here, scan, found]; rfl)
  | cons key remaining =>
    rw [scan]
    split_ifs with accepts old
    · exact advances_of_inv (inv.found fits (listed key mem_cons_self))
        (by rw [here, found]; rfl)
    · refine advances_of_inv ((inv.freeze key).setWriter ⟨fits, fun other later => ?_⟩)
        (by rw [here]; rfl)
      exact listed other (mem_cons_of_mem _ later)
    · refine advances_of_inv (inv.setWriter ⟨fits, fun other later => ?_⟩) (by rw [here]; rfl)
      exact listed other (mem_cons_of_mem _ later)

theorem advances_tryWrite {key : Nat} (here : state.writer = .trying offset buf key)
    (met : WritesOnTop config state .tryWrite) :
    Advances config base writes state .tryWrite (state.tryWrite config offset buf key) := by
  have ok := inv.writerOk
  rw [WriterOk, here] at ok
  rcases ok with ⟨fits, member⟩
  unfold tryWrite
  rcases SliceState.tryWrite_spec (inv.cells key).valid fits with refused | ⟨written, wrote, accepts⟩
  · rw [refused]
    have same : state.setSlice key (state.cells key).slice = state := by
      unfold setSlice
      rw [Function.update_eq_self]
    dsimp only
    rw [same]
    exact advances_of_inv (inv.setWriter ⟨fits, fun _ listed => mem_reverse.mp listed⟩)
      (by rw [here]; rfl)
  rw [wrote]
  have allowed : ((state.cells key).slice.canWrite config offset buf.length).isSome = true := by
    cases can : (state.cells key).slice.canWrite config offset buf.length with
    | some action => rfl
    | none =>
      rw [SliceState.tryWrite, can] at wrote
      cases wrote
  simp only [WritesOnTop, here] at met
  exact ⟨[(offset, buf)], inv.accepts member fits accepts (met allowed), by rw [here]; rfl⟩

/-- One step of a run whose writes are on top. -/
theorem step_advances (addressable : config.layout.chunkSize ≤ config.layout.addressable)
    (met : WritesOnTop config state action)
    (taken : state.step config chunkId action = some next) :
    Advances config base writes state action next := by
  cases action <;> simp only [step] at taken
  case beginWrite offset buf =>
    split_ifs at taken with idle fits
    · cases taken
      exact advances_of_inv (inv.setWriter ⟨met, fun _ listed => mem_reverse.mp listed⟩)
        (by rw [idle]; rfl)
    · exact absurd met fits
  case scan =>
    split at taken
    case h_1 offset buf remaining idx here =>
      cases taken
      exact advances_scan inv here
    case h_2 => cases taken
  case tryWrite =>
    split at taken
    case h_1 offset buf key here =>
      cases taken
      exact advances_tryWrite inv here met
    case h_2 => cases taken
  case finishWrite =>
    split at taken
    case h_1 key here =>
      cases taken
      have idle : Inv config base writes { state with writer := .idle } := inv.setWriter trivial
      unfold finishWrite
      dsimp only
      split_ifs
      · exact advances_of_inv idle (by rw [here]; rfl)
      · exact advances_of_inv (idle.freeze key) (by rw [here]; rfl)
      · exact advances_of_inv idle (by rw [here]; rfl)
    case h_2 => cases taken
  case cell key action =>
    split_ifs at taken
    rcases Option.map_eq_some_iff.mp taken with ⟨⟨cell, after⟩, ran, rfl⟩
    exact advances_of_inv (inv.setCell (SliceCell.step_spec (inv.cells key) addressable ran))
      (append_nil _).symm
  case commitFront =>
    split_ifs at taken with here
    cases taken
    rcases inv.committer_eq here.1 with ⟨key, head⟩
    refine advances_of_inv ?_ (append_nil _).symm
    rw [head]
    exact inv.setCommitter (by rw [here.1]; simp) (by simp) (by rw [here.1]; simp) head
  case commitRemove =>
    split_ifs at taken with here
    exact (inv.committer_eq here.1).elim
  case commitSnapshot =>
    split at taken
    case h_1 key here =>
      cases taken
      exact advances_of_inv (inv.commitSnapshot here) (append_nil _).symm
    case h_2 => cases taken
  case commitDescribe =>
    split at taken
    case h_1 key here =>
      rcases inv.committer_eq here with ⟨head, uploaded⟩
      split at taken
      case h_1 desc described =>
        cases taken
        exact advances_of_inv (inv.setCommitter (by rw [here]; simp) (by simp) (by rw [here]; simp)
          ⟨head, uploaded, described⟩) (append_nil _).symm
      case h_2 empty =>
        cases taken
        exact advances_of_inv (inv.commitDescribe_none here empty) (append_nil _).symm
    case h_2 => cases taken
  case commitWrite ok =>
    split at taken
    case h_1 key desc here =>
      split_ifs at taken
      · cases taken
        exact advances_of_inv (inv.commitWrite here) (append_nil _).symm
      · cases taken
        rcases inv.committer_eq here with ⟨head, _⟩
        exact advances_of_inv (inv.setCommitter (by rw [here]; simp) (by simp) (by rw [here]; simp)
          ⟨key, head⟩) (append_nil _).symm
    case h_2 => cases taken
  case commitMark =>
    split at taken
    case h_1 key here =>
      cases taken
      exact advances_of_inv (inv.commitMark here) (append_nil _).symm
    case h_2 => cases taken
  case commitPop =>
    split at taken
    case h_1 key here =>
      split_ifs at taken with idle last
      · cases taken
        refine advances_of_inv ?_ (append_nil _).symm
        rw [← last]
        exact inv.commitPop here idle (by decide) last
      · cases taken
        refine advances_of_inv (inv.commitPop here idle ?_ ?_) (append_nil _).symm
        · exact ⟨by simp, fun _ => inv.started.mpr (by rw [here]; simp)⟩
        · exact ⟨_, head?_eq_some_head last⟩
    case h_2 => cases taken

end

variable {usedIds : List Nat} {committed : List SliceDesc}

theorem inv_initial (store : BlockStore) (known : ∀ desc ∈ committed, desc.sliceId ∈ usedIds) :
    Inv config (chunkContent config.layout store committed) []
      (initial config chunkId store usedIds committed) where
  keys _ member := by cases member
  nodup := nodup_nil
  cells _ := SliceCell.Inv.mk_idle (SliceState.valid_new (Nat.zero_le _)) rfl
  ids _ _ none_ := by cases none_
  distinct _ _ _ none_ := by cases none_
  known := known
  stored _ _ _ none_ := by cases none_
  view_eq := rfl
  writerOk := trivial
  started := ⟨nofun, fun running => absurd rfl running⟩
  committerOk := rfl
  unpopped _ member := by cases member

/-- Completed and pending writes are the calls of the run. -/
theorem inv_of_run (addressable : config.layout.chunkSize ≤ config.layout.addressable)
    {store : BlockStore} (known : ∀ desc ∈ committed, desc.sliceId ∈ usedIds)
    {actions : List Action} (run : Run (step config chunkId) (WritesOnTop config)
      (initial config chunkId store usedIds committed) actions state) :
    ∃ writes, Inv config (chunkContent config.layout store committed) writes state ∧
      calls actions = writes ++ pending state.writer := by
  refine Run.history (fun actions state => ∃ writes,
    Inv config (chunkContent config.layout store committed) writes state ∧
      calls actions = writes ++ pending state.writer) ?_ ?_ run
  · exact ⟨[], inv_initial store known, rfl⟩
  rintro taken before action after ⟨writes, inv, called⟩ met stepped
  rcases step_advances inv addressable met stepped with ⟨more, kept, accounted⟩
  refine ⟨writes ++ more, kept, ?_⟩
  calc calls (taken ++ [action])
      = calls taken ++ calls [action] := filterMap_append ..
    _ = writes ++ (pending before.writer ++ calls [action]) := by rw [called, append_assoc]
    _ = writes ++ more ++ pending after.writer := by rw [← accounted, append_assoc]

/-- When every slice of the queue is committed, nothing is left to show but the
committed content. -/
theorem Inv.view_eq_content (inv : Inv config base writes state)
    (drained : ∀ key ∈ state.queue, (state.cells key).slice.state = .committed) :
    state.view config = state.content config := by
  unfold view
  cases queue : state.queue with
  | nil => rfl
  | cons key rest =>
    have popping : ∀ other ∈ key :: rest, state.committer = .popping other := by
      intro other member
      rw [← queue] at member
      exact inv.unpopped other member (drained other member)
    have last : rest = [] := by
      cases rest with
      | nil => rfl
      | cons other rest =>
        have first := popping key mem_cons_self
        cases first.symm.trans (popping other (by simp))
        have nodup := inv.nodup
        rw [queue] at nodup
        simp at nodup
    rcases inv.committer_eq (popping key mem_cons_self) with ⟨_, _, absorbed⟩
    rw [last]
    exact absorbed

/-- In every run whose writes go into slices that no newer slice hides there,
once the calls have returned and every buffered slice is committed, a reader gets
the initial content overwritten by the buffers in call order. -/
theorem readAt_of_writesOnTop (addressable : config.layout.chunkSize ≤ config.layout.addressable)
    {store : BlockStore} {usedIds : List Nat} {committed : List SliceDesc}
    (known : forall desc, desc ∈ committed -> desc.sliceId ∈ usedIds) {actions : List Action}
    {final : ChunkWriter}
    (run : Run (step config chunkId) (WritesOnTop config)
      (initial config chunkId store usedIds committed) actions final)
    (returned : final.writer = .idle)
    (drained : forall key, key ∈ final.queue -> (final.cells key).slice.state = .committed)
    (offset len : Nat) :
    ((DataFetcher.new config.layout chunkId).prepareSlices final.committed).readAt
        final.backend.store offset len =
      .ok ((List.range len).map fun i =>
        overlay (chunkContent config.layout store committed)
          ((calls actions).map fun write => bufPatch write.1 write.2) (offset + i)) := by
  rcases inv_of_run addressable known run with ⟨writes, inv, called⟩
  have none_ : pending final.writer = [] := by
    rw [returned]
    rfl
  rw [none_, append_nil] at called
  rw [readAt_eq _ _ rfl, called, ← inv.view_eq, inv.view_eq_content drained]
  rfl

/-- Chunks of 8 bytes, blocks of 4, pages of 2. -/
private def smallConfig : WriteConfig := ⟨.ofBlocks 1 3, 2, Nat.zero_lt_two, by decide⟩

/-- Two separate writes make two slices, and a third one is appended to the first
slice.  Then both slices are frozen, uploaded and committed. -/
private def appendBetween (buf : Bytes) : List Action :=
  [Action.beginWrite 0 [1, 1], .scan, .tryWrite, .finishWrite] ++
    [Action.beginWrite 4 [2, 2], .scan, .scan, .tryWrite, .finishWrite] ++
    [Action.beginWrite 2 buf, .scan, .scan, .tryWrite, .finishWrite] ++
    (upload 0 1 ++ upload 1 2 ++ commit ++ commit)
where
  upload (key id : Nat) : List Action :=
    [.cell key .freeze, .cell key .prepareUpload, .cell key (.assignId id),
      .cell key .attemptSucceeds, .cell key .advanceUpload]
  commit : List Action :=
    [.commitFront, .commitSnapshot, .commitDescribe, .commitWrite true, .commitMark, .commitPop]

private def emptyChunk : ChunkWriter := initial smallConfig 1 (fun _ => none) [] []

theorem readAt_of_writesOnTop_appendBetween :
    Exists fun final =>
      Run (step smallConfig 1) (WritesOnTop smallConfig) emptyChunk
        (appendBetween [3, 3]) final ∧
      ((DataFetcher.new smallConfig.layout 1).prepareSlices final.committed).readAt
        final.backend.store 0 8 = .ok [1, 1, 3, 3, 2, 2, 0, 0] := by
  refine exists_run_of (fun final => final.writer = .idle ∧ final.queue = [])
    (by decide +kernel) fun final run ⟨returned, queue⟩ => ?_
  have known : ∀ desc : SliceDesc, desc ∈ [] -> desc.sliceId ∈ [] := nofun
  rw [readAt_of_writesOnTop (by decide) known run returned (by rw [queue]; nofun) 0 8]
  decide +kernel

/-- A slice that is not the newest accepts a write that reaches into a newer
slice.  The newer slice is committed later, and the last byte of the write is
lost. -/
theorem readAt_loses_last_write :
    Exists fun actions => Exists fun final =>
      Run (step smallConfig 1) anyStep emptyChunk actions final ∧
      (forall write, write ∈ calls actions ->
        write.1 + write.2.length ≤ smallConfig.layout.chunkSize) ∧
      final.writer = .idle ∧ final.queue = [] ∧
      ((DataFetcher.new smallConfig.layout 1).prepareSlices final.committed).readAt
        final.backend.store 4 1 = .ok [2] ∧
      overlay (chunkContent smallConfig.layout (fun _ => none) [])
        ((calls actions).map fun write => bufPatch write.1 write.2) 4 = 3 := by
  refine ⟨appendBetween [3, 3, 3], exists_run_of (fun final => final.writer = .idle ∧
    final.queue = [] ∧ ((new smallConfig.layout 1).prepareSlices
      final.committed).readAt final.backend.store 4 1 = .ok [2]) (by decide +kernel) ?_⟩
  exact fun final run ⟨returned, queue, read⟩ => ⟨by decide, returned, queue, read, by decide⟩

end Rk8s.Slayerfs.ChunkWriter
