import Rk8s.Lib.Transition
import Rk8s.Slayerfs.Chunk.Compact.Compactor

namespace Rk8s.Slayerfs

open SliceTables Compactor Transition List SliceDesc

/-!
# When compaction keeps what readers see

Clients allocate slice ids, upload blocks and commit slices in any order, and
any chunk may be compacted at any time.  A reader resolves overlaps by the order
of the list, which is the order of the commits.  Compaction resolves them by
slice id.  The two differ when a slice commits after one with a higher id.

`LightOrdered` and `HeavyOrdered` say that the difference does not show: for
light compaction, no slice comes after one that encloses it and has a higher id;
for heavy compaction, overlapping slices stand in the order of their ids.  With
these conditions on the compactions of a run none of them changes a byte.
-/

/-- The two slices have a byte in common. -/
def SliceDesc.Overlaps (first second : SliceDesc) : Prop :=
  0 < first.length ∧ 0 < second.length ∧ first.offset < second.stop ∧ second.offset < first.stop
deriving Decidable

namespace Compactor

/-- No slice follows one with a higher id that encloses it. -/
def LightOrdered (slices : List SliceDesc) : Prop :=
  slices.Pairwise fun first second =>
    ¬ (second.sliceId < first.sliceId ∧ 0 < second.length ∧ first.Encloses second)
deriving Decidable

/-- Overlapping slices are in the order of their ids. -/
def HeavyOrdered (slices : List SliceDesc) : Prop :=
  slices.Pairwise fun first second => first.Overlaps second -> first.sliceId < second.sliceId
deriving Decidable

/-! ## Contents -/

variable {layout : ChunkLayout} {store : BlockStore} {slices : List SliceDesc}

/-- What light compaction leaves shows the same content. -/
theorem chunkContent_light (distinct : (slices.map sliceId).Nodup)
    (ordered : LightOrdered slices) :
    chunkContent layout store (remaining slices) = chunkContent layout store slices := by
  funext position
  apply overlay_filter_of_hidden
  intro older slice newer split dropped covers
  have replaced : slice.sliceId ∈ replacedIds slices := by simpa using dropped
  have member : slice ∈ slices := by simp [split]
  rcases enclosed_of_replaced distinct member replaced with
    ⟨outer, listed, higher, left, right⟩
  have covered : (outer.patch layout store).Covers position :=
    ⟨le_trans left covers.1, covers.2.trans_le right⟩
  have nonempty : 0 < slice.length := by
    have above : slice.offset ≤ position := covers.1
    have below : position < slice.offset + slice.length := covers.2
    omega
  rw [split] at listed ordered
  rcases mem_append.mp listed with before | here
  · have order := (pairwise_append.mp ordered).2.2 outer before slice mem_cons_self
    exact absurd ⟨higher, nonempty, left, right⟩ order
  · rcases mem_cons.mp here with rfl | behind
    · exact absurd higher (lt_irrefl _)
    · exact ⟨outer, behind, covered⟩

/-- Reading the slices in the order of their ids gives the same content. -/
theorem overlay_olderFirst (distinct : (slices.map sliceId).Nodup)
    (ordered : HeavyOrdered slices) (base : Nat -> UInt8) (position : Nat) :
    overlay base ((slices.insertionSort SliceDesc.OlderFirst).map (patch layout store))
        position =
      overlay base (slices.map (patch layout store)) position := by
  apply overlay_eq_of_covering
  have byId : (slices.insertionSort SliceDesc.OlderFirst).Pairwise
      fun first second => first.sliceId < second.sliceId := by
    have sorted := pairwise_insertionSort SliceDesc.OlderFirst slices
    have nodup : ((slices.insertionSort SliceDesc.OlderFirst).map sliceId).Nodup :=
      ((perm_insertionSort SliceDesc.OlderFirst slices).map sliceId).nodup_iff.mpr
        distinct
    exact (sorted.and (pairwise_map.mp nodup)).imp fun both =>
      lt_of_le_of_ne both.1 both.2
  have covering : (slices.filter fun slice =>
      (slice.patch layout store).Covers position).Pairwise
      fun first second => first.sliceId < second.sliceId := by
    refine (pairwise_filter.mpr ?_)
    refine ordered.imp ?_
    intro first second order left right
    have left : first.offset ≤ position ∧ position < first.offset + first.length :=
      of_decide_eq_true left
    have right : second.offset ≤ position ∧ position < second.offset + second.length :=
      of_decide_eq_true right
    apply order
    unfold SliceDesc.Overlaps stop
    omega
  refine Perm.eq_of_pairwise ?_ (byId.filter _) covering
    ((perm_insertionSort SliceDesc.OlderFirst slices).filter _)
  intro first second _ _ below above
  exact absurd below (lt_asymm above)

end Compactor

/-! ## The system -/

/-- The tables, the blocks and the ids that `next_id` has returned to anyone. -/
structure SliceSystem where
  tables : SliceTables
  store : BlockStore
  usedIds : List Nat

namespace SliceSystem

/-- A client asks for an id, uploads blocks under it, or commits a slice; a chunk
is compacted. -/
inductive Action where
  | allocate (id : Nat)
  | upload (sliceId offset : Nat) (parts : List Bytes)
  | commit (chunkId : Nat) (slice : SliceDesc)
  | compactLight (chunkId : Nat)
  | compactHeavy (chunkId newSliceId : Nat)
  | compactSequential (chunkId newSliceId : Nat)

/-- An id that `next_id` may return: a positive 64-bit integer no one has got
before.  Pools of the clients may hand them out in any order. -/
def Fresh (state : SliceSystem) (id : Nat) : Prop := id ∉ state.usedIds ∧ id < 2 ^ 63
deriving Decidable

/-- Some client has got the id and has not committed a slice with it. -/
def Uncommitted (state : SliceSystem) (id : Nat) : Prop :=
  id ∈ state.usedIds ∧ id ∉ state.tables.sliceMeta.map SliceDesc.sliceId
deriving Decidable

instance (layout : ChunkLayout) (store : BlockStore) (slice : SliceDesc) :
    Decidable (Compactor.IsHeld layout store slice) :=
  inferInstanceAs (Decidable (forall position, position < slice.length -> _))

variable (layout : ChunkLayout) (config : CompactConfig)

/-- A slice is committed when all its bytes are uploaded.  Compactions are taken
to run through without a commit to the same chunk in between. -/
def step (state : SliceSystem) : Action -> Option SliceSystem
  | .allocate id =>
    if state.Fresh id then some { state with usedIds := id :: state.usedIds } else none
  | .upload sliceId offset parts =>
    if state.Uncommitted sliceId then
      (DataUploader.writeAtVectored layout state.store sliceId offset parts).map fun store =>
        { state with store := store }
    else
      none
  | .commit chunkId slice =>
    if state.Uncommitted slice.sliceId ∧ Compactor.IsHeld layout state.store slice then
      some { state with tables := state.tables.appendSlice chunkId slice }
    else
      none
  | .compactLight chunkId =>
    match Compactor.compactLight state.tables chunkId with
    | .ok (_, tables) => some { state with tables := tables }
    | .error _ => none
  | .compactHeavy chunkId newSliceId =>
    if state.Fresh newSliceId then
      match Compactor.compactHeavy layout state.tables state.store chunkId newSliceId with
      | .ok (tables, store) => some ⟨tables, store, newSliceId :: state.usedIds⟩
      | .error _ => none
    else
      none
  | .compactSequential chunkId newSliceId =>
    if state.Fresh newSliceId then
      match Compactor.compactSequential layout config state.tables state.store chunkId
          newSliceId with
      | .ok (.heavy _, tables, store) => some ⟨tables, store, newSliceId :: state.usedIds⟩
      | .ok (_, tables, store) => some ⟨tables, store, state.usedIds⟩
      | .error _ => none
    else
      none

def initial : SliceSystem := ⟨⟨[], [], 0, [], 0⟩, fun _ => none, []⟩

/-- What a reader of a chunk sees. -/
def content (state : SliceSystem) (chunkId : Nat) : Nat -> UInt8 :=
  chunkContent layout state.store (state.tables.getSlices chunkId)

/-! ## The conditions -/

/-- What the heavy stage starts from. -/
def afterLight (slices : List SliceDesc) : List SliceDesc :=
  if Compactor.lightRuns config slices then Compactor.remaining slices else slices

/-- The heavy stage runs. -/
def heavyRuns (slices : List SliceDesc) : Bool :=
  if Compactor.lightRuns config slices && !(Compactor.replacedIds slices).isEmpty then
    Compactor.needsHeavyAfterLight config (Compactor.remaining slices)
  else
    Compactor.needsHeavy config slices

/-- The chunk that is compacted has its slices in the order of their ids, as far
as the compaction looks at them. -/
def InIdOrder (state : SliceSystem) : Action -> Prop
  | .compactLight chunkId => Compactor.LightOrdered (state.tables.getSlices chunkId)
  | .compactHeavy chunkId _ => Compactor.HeavyOrdered (state.tables.getSlices chunkId)
  | .compactSequential chunkId _ =>
    let slices := state.tables.getSlices chunkId
    (Compactor.lightRuns config slices = true -> Compactor.LightOrdered slices) ∧
      (heavyRuns config slices = true -> Compactor.HeavyOrdered (afterLight config slices))
  | _ => True

instance (state : SliceSystem) (action : Action) : Decidable (InIdOrder config state action) := by
  unfold InIdOrder
  cases action <;> dsimp only <;> infer_instance

end SliceSystem

/-! ## The invariant -/

variable {tables : SliceTables} {chunkId : Nat} {stored : BlockStore} {newSliceId : Nat}
  {layout : ChunkLayout} {config : CompactConfig} {state next : SliceSystem}

namespace SliceSystem

structure Inv (layout : ChunkLayout) (state : SliceSystem) : Prop where
  distinct : (state.tables.sliceMeta.map SliceDesc.sliceId).Nodup
  used : forall row, row ∈ state.tables.sliceMeta -> row.sliceId ∈ state.usedIds
  small : forall id, id ∈ state.usedIds -> id < 2 ^ 63
  held : forall row, row ∈ state.tables.sliceMeta -> Compactor.IsHeld layout state.store row

/-- No reader of any chunk sees a difference between the two states. -/
def SameContent (layout : ChunkLayout) (state next : SliceSystem) : Prop :=
  forall chunkId position, position < layout.chunkSize ->
    next.content layout chunkId position = state.content layout chunkId position

/-- A compaction of the run, of any kind. -/
def Action.IsCompaction : Action -> Prop
  | .compactLight _ => True
  | .compactHeavy _ _ => True
  | .compactSequential _ _ => True
  | _ => False

/-- Blocks of an id that no row has may change. -/
theorem isHeld_of_others {store : BlockStore} {row : SliceDesc}
    (same : ∀ index, stored (row.sliceId, index) = store (row.sliceId, index))
    (held : Compactor.IsHeld layout store row) : Compactor.IsHeld layout stored row := by
  intro position below
  unfold Held
  rw [same]
  exact held position below

theorem getSlices_light {after : SliceTables}
    (kept : after.sliceMeta = tables.sliceMeta.filter fun row =>
      ¬ (row.chunkId = chunkId ∧ row.sliceId ∈ replacedIds (tables.getSlices chunkId))) :
    after.getSlices chunkId = remaining (tables.getSlices chunkId) := by
  rw [getSlices, kept, filter_filter, remaining]
  conv => rhs; arg 2; rw [getSlices]
  rw [filter_filter]
  apply filter_congr
  intro row _
  by_cases here : row.chunkId = chunkId <;> simp [here]

section

variable (inv : Inv layout state)
include inv

theorem Inv.small_row (row : SliceDesc) (listed : row ∈ state.tables.sliceMeta) :
    row.sliceId < 2 ^ 64 := by
  have small := inv.small _ (inv.used row listed)
  omega

theorem Inv.distinct_getSlices (chunkId : Nat) :
    ((state.tables.getSlices chunkId).map sliceId).Nodup :=
  inv.distinct.sublist (filter_sublist.map _)

/-- Taking rows out of the table keeps the invariant. -/
theorem Inv.filter {keep : SliceDesc -> Bool}
    (kept : tables.sliceMeta = state.tables.sliceMeta.filter keep) :
    Inv layout { state with tables := tables } where
  distinct := by
    rw [kept]
    exact inv.distinct.sublist (filter_sublist.map _)
  used row listed := by
    rw [kept] at listed
    exact inv.used row (mem_filter.mp listed).1
  small := inv.small
  held row listed := by
    rw [kept] at listed
    exact inv.held row (mem_filter.mp listed).1

theorem light_spec {removed : Option Nat}
    (ordered : Compactor.LightOrdered (state.tables.getSlices chunkId))
    (ran : compactLight state.tables chunkId = .ok (removed, tables)) :
    Inv layout { state with tables := tables } ∧
      SameContent layout state { state with tables := tables } := by
  rcases compactLight_spec inv.small_row ran with
    ⟨_, rfl, _⟩ | ⟨_, _, kept⟩
  · exact ⟨inv, fun _ _ _ => rfl⟩
  refine ⟨inv.filter kept, fun other position _ => ?_⟩
  by_cases same : other = chunkId
  · subst same
    unfold SliceSystem.content
    rw [getSlices_light kept, chunkContent_light (inv.distinct_getSlices other) ordered]
  · unfold SliceSystem.content
    rw [getSlices_of_kept (kept.trans (append_nil _).symm) _ nofun]
    intro row here
    simp [here, same]

/-- The merged buffer has the content of the chunk. -/
theorem merge_content {merged : Bytes}
    (ordered : Compactor.HeavyOrdered (state.tables.getSlices chunkId))
    (read : readAndMergeSlices layout state.store (state.tables.getSlices chunkId)
      (List.replicate layout.chunkSize 0) = .ok merged) :
    merged.length = layout.chunkSize ∧ ∀ position < layout.chunkSize,
      merged.getD position 0 = state.content layout chunkId position := by
  have complete : ∀ slice ∈ (state.tables.getSlices chunkId).insertionSort SliceDesc.OlderFirst,
      Compactor.IsHeld layout state.store slice := by
    intro slice listed
    rw [mem_insertionSort, mem_getSlices] at listed
    exact inv.held slice listed.1
  rcases mergeSlices_spec complete read with ⟨length, bytes⟩
  rw [length_replicate] at length bytes
  refine ⟨length, fun position inside => ?_⟩
  rw [bytes position inside, overlay_olderFirst (inv.distinct_getSlices chunkId) ordered]
  apply overlay_congr
  rw [getD_replicate _ inside]

theorem heavy_spec (addressable : layout.chunkSize ≤ layout.addressable)
    (fresh : state.Fresh newSliceId)
    (ordered : Compactor.HeavyOrdered (state.tables.getSlices chunkId))
    (ran : compactHeavy layout state.tables state.store chunkId newSliceId =
      .ok (tables, stored)) :
    Inv layout ⟨tables, stored, newSliceId :: state.usedIds⟩ ∧
      SameContent layout state ⟨tables, stored, newSliceId :: state.usedIds⟩ := by
  rcases compactHeavy_spec inv.small_row ran with ⟨⟨merged, read, rfl⟩, replaced⟩
  rcases merge_content inv ordered read with ⟨length, bytes⟩
  have uploads : Uploads layout newSliceId 0 merged state.store
      (writeMergedData layout state.store newSliceId merged) :=
    writeMergedSpans_spec state.store (tiles_blockSpanIterSlice ..) rfl
  -- the blocks of all other slices stay as they are
  have others : ∀ row ∈ state.tables.sliceMeta, ∀ index,
      writeMergedData layout state.store newSliceId merged (row.sliceId, index) =
        state.store (row.sliceId, index) := by
    intro row listed index
    apply uploads.others
    intro same
    exact fresh.1 (same ▸ inv.used row listed)
  have rows : ∀ row ∈ tables.sliceMeta,
      row ∈ state.tables.sliceMeta ∨ row = mergedSlice layout chunkId newSliceId := by
    intro row listed
    rw [replaced] at listed
    rcases mem_append.mp listed with old | new
    · exact .inl (mem_filter.mp old).1
    · exact .inr (mem_singleton.mp new)
  refine ⟨⟨?_, ?_, ?_, ?_⟩, ?_⟩
  · change (tables.sliceMeta.map sliceId).Nodup
    rw [replaced, map_append, nodup_append]
    refine ⟨inv.distinct.sublist (filter_sublist.map _), nodup_singleton _, ?_⟩
    intro first listed second new same
    rcases mem_map.mp listed with ⟨row, kept, rfl⟩
    rw [map_singleton, mem_singleton] at new
    have known := inv.used row (mem_filter.mp kept).1
    rw [same, new] at known
    exact fresh.1 known
  · intro row listed
    rcases rows row listed with old | rfl
    · exact mem_cons_of_mem _ (inv.used row old)
    · exact mem_cons_self
  · exact forall_mem_cons.mpr ⟨fresh.2, inv.small⟩
  · intro row listed
    rcases rows row listed with old | rfl
    · exact isHeld_of_others (others row old) (inv.held row old)
    · intro position below
      have below : position < layout.chunkSize := below
      exact uploads.held position (Nat.zero_le _) (by omega)
  intro other position inside
  unfold SliceSystem.content
  by_cases same : other = chunkId
  · subst same
    have left : tables.getSlices other = [mergedSlice layout other newSliceId] := by
      rw [getSlices, replaced, filter_append, filter_filter]
      simp [mergedSlice]
    have covered : ((mergedSlice layout other newSliceId).patch layout
        (writeMergedData layout state.store newSliceId merged)).Covers position :=
      ⟨Nat.zero_le _, Nat.lt_of_lt_of_eq inside (zero_add _).symm⟩
    have byte := uploads.bytes (by omega) (inside.trans_le addressable)
    rw [if_pos (by omega), Nat.sub_zero, bytes position inside] at byte
    rw [left, chunkContent, map_singleton, overlay, overlay, Patch.apply_of_covers covered]
    exact byte
  · rw [getSlices_of_kept replaced]
    · refine congrFun (overlay_map_congr (fun row listed => ?_) _) position
      have same := others row (mem_getSlices.mp listed).1
      exact ⟨rfl, rfl, fun _ _ => sliceByte_congr same _⟩
    · intro row here
      simp [here, same]
    · exact forall_mem_singleton.mpr fun eq => same eq.symm

/-- The light stage of a sequential compaction is a light compaction or nothing. -/
theorem lightStage_spec {removed : Nat} {needs : Bool}
    (several : ¬ (state.tables.getSlices chunkId).length ≤ 1)
    (ordered : lightRuns config (state.tables.getSlices chunkId) = true ->
      Compactor.LightOrdered (state.tables.getSlices chunkId))
    (ran : lightStage config state.tables chunkId = .ok (removed, needs, tables)) :
    needs = heavyRuns config (state.tables.getSlices chunkId) ∧
      tables.getSlices chunkId = afterLight config (state.tables.getSlices chunkId) ∧
      Inv layout { state with tables := tables } ∧
      SameContent layout state { state with tables := tables } := by
  unfold lightStage at ran
  unfold heavyRuns afterLight
  cases runs : lightRuns config (state.tables.getSlices chunkId) with
  | false =>
    rw [if_neg (ne_true_of_eq_false runs)] at ran
    cases ran
    exact ⟨rfl, rfl, inv, fun _ _ _ => rfl⟩
  | true =>
    rw [if_pos runs] at ran
    split at ran
    case h_1 => cases ran
    case h_2 light =>
      cases ran
      have kept := light_spec inv (ordered runs) light
      rcases compactLight_spec inv.small_row light with
        ⟨_, rfl, single | empty⟩ | ⟨wrong, _⟩
      · exact absurd single several
      · exact ⟨by simp [empty], by simp [remaining, empty], kept⟩
      · cases wrong
    case h_3 count after light =>
      have kept := light_spec inv (ordered runs) light
      rcases compactLight_spec inv.small_row light with
        ⟨wrong, _⟩ | ⟨number, some_, rows⟩
      · cases wrong
      have positive : count > 0 := by
        cases number
        exact length_pos_iff.mpr some_
      rw [if_pos positive] at ran
      cases ran
      exact ⟨by simp [some_, getSlices_light rows], getSlices_light rows, kept⟩

variable (addressable : layout.chunkSize ≤ layout.addressable)
include addressable

theorem sequential_spec
    (met : InIdOrder config state (.compactSequential chunkId newSliceId))
    (taken : state.step layout config (.compactSequential chunkId newSliceId) = some next) :
    Inv layout next ∧ SameContent layout state next := by
  rcases met with ⟨lightOrdered, heavyOrdered⟩
  simp only [step] at taken
  split_ifs at taken with fresh
  unfold compactSequential at taken
  split_ifs at taken with single
  · cases taken
    exact ⟨inv, fun _ _ _ => rfl⟩
  cases stage : lightStage config state.tables chunkId with
  | error error =>
    rw [stage] at taken
    cases taken
  | ok result =>
    rcases result with ⟨removed, needs, tables⟩
    rcases lightStage_spec inv single lightOrdered stage with ⟨decision, left, middle, same⟩
    rw [stage] at taken
    cases needs with
    | false =>
      dsimp only at taken
      split_ifs at taken
      all_goals
        cases taken
        exact ⟨middle, same⟩
    | true =>
      dsimp only at taken
      cases heavy : compactHeavy layout tables state.store chunkId newSliceId with
      | error error =>
        rw [heavy] at taken
        cases taken
      | ok final =>
        rw [heavy] at taken
        cases taken
        have ordered := heavyOrdered decision.symm
        rw [← left] at ordered
        rcases heavy_spec middle addressable fresh ordered heavy with ⟨inv, after⟩
        refine ⟨inv, fun other position inside => ?_⟩
        exact (after other position inside).trans (same other position inside)

/-- One step of a run whose compactions are in order. -/
theorem step_spec {action : Action} (met : InIdOrder config state action)
    (taken : state.step layout config action = some next) :
    Inv layout next ∧ (action.IsCompaction -> SameContent layout state next) := by
  cases action <;> simp only [step] at taken
  case allocate id =>
    split_ifs at taken with fresh
    cases taken
    refine ⟨⟨inv.distinct, ?_, ?_, inv.held⟩, False.elim⟩
    · intro row listed
      exact mem_cons_of_mem _ (inv.used row listed)
    · exact forall_mem_cons.mpr ⟨fresh.2, inv.small⟩
  case upload sliceId offset parts =>
    split_ifs at taken with own
    rcases Option.map_eq_some_iff.mp taken with ⟨stored, wrote, rfl⟩
    rcases DataUploader.writeAtVectored_spec layout state.store sliceId offset parts with
      ⟨other, ran, uploads⟩
    cases wrote.symm.trans ran
    refine ⟨⟨inv.distinct, inv.used, inv.small, fun row listed => ?_⟩, False.elim⟩
    refine isHeld_of_others (fun index => uploads.others _ ?_) (inv.held row listed)
    rintro rfl
    exact own.2 (mem_map_of_mem listed)
  case commit chunkId slice =>
    split_ifs at taken with allowed
    cases taken
    have rows : ∀ row ∈ (state.tables.appendSlice chunkId slice).sliceMeta,
        row ∈ state.tables.sliceMeta ∨ row = { slice with chunkId := chunkId } := by
      intro row listed
      simpa [appendSlice] using listed
    refine ⟨⟨?_, ?_, inv.small, ?_⟩, False.elim⟩
    · change ((state.tables.sliceMeta ++ [_]).map sliceId).Nodup
      rw [map_append, nodup_append]
      refine ⟨inv.distinct, nodup_singleton _, ?_⟩
      intro first listed second new same
      rw [map_singleton, mem_singleton] at new
      rw [same, new] at listed
      exact allowed.1.2 listed
    · intro row listed
      rcases rows row listed with old | rfl
      · exact inv.used row old
      · exact allowed.1.1
    · intro row listed
      rcases rows row listed with old | rfl
      · exact inv.held row old
      · exact allowed.2
  case compactLight chunkId =>
    split at taken
    case h_1 removed tables ran =>
      cases taken
      rcases light_spec inv met ran with ⟨kept, same⟩
      exact ⟨kept, fun _ => same⟩
    case h_2 => cases taken
  case compactHeavy chunkId newSliceId =>
    split_ifs at taken with fresh
    split at taken
    case h_1 tables store ran =>
      cases taken
      rcases heavy_spec inv addressable fresh met ran with ⟨kept, same⟩
      exact ⟨kept, fun _ => same⟩
    case h_2 => cases taken
  case compactSequential chunkId newSliceId =>
    rcases sequential_spec inv addressable met taken with ⟨kept, same⟩
    exact ⟨kept, fun _ => same⟩

omit inv in
theorem inv_of_run {actions : List Action}
    (run : Run (step layout config) (InIdOrder config) initial actions state) :
    Inv layout state := by
  refine Run.invariant (Inv layout) ?_ ?_ run
  · exact ⟨nodup_nil, nofun, nofun, nofun⟩
  · intro before action after inv met taken
    exact (step_spec inv addressable met taken).1

end

/-- In every run whose compactions meet slices in the order of their ids, no
compaction changes what a read of any chunk returns. -/
theorem readAt_of_inIdOrder (addressable : layout.chunkSize ≤ layout.addressable)
    {actions : List Action} {action : Action}
    (run : Run (step layout config) (InIdOrder config) initial actions state)
    (met : InIdOrder config state action) (compaction : action.IsCompaction)
    (taken : state.step layout config action = some next) (chunkId : Nat) {offset len : Nat}
    (inside : offset + len ≤ layout.chunkSize) :
    ((DataFetcher.new layout chunkId).prepareSlices (next.tables.getSlices chunkId)).readAt
        next.store offset len =
      ((DataFetcher.new layout chunkId).prepareSlices (state.tables.getSlices chunkId)).readAt
        state.store offset len := by
  have same := (step_spec (inv_of_run addressable run) addressable met taken).2 compaction
  rw [DataFetcher.readAt_eq _ _ rfl, DataFetcher.readAt_eq _ _ rfl]
  congr 1
  apply map_congr_left
  intro i listed
  rw [mem_range] at listed
  exact same chunkId (offset + i) (by omega)

/-- Chunks of 4 bytes in blocks of 2. -/
private def smallLayout : ChunkLayout := .ofBlocks 1 1

private def smallCompactConfig : CompactConfig := ⟨true, 2, true, 8, fun _ => false, fun _ => false⟩

/-- Two clients get the ids 1 and 2.  The slice with the first given id fills the
whole chunk and is committed first; the other one covers its first half. -/
private def twoCommits (whole half : Nat) : List Action :=
  [.allocate 1, .allocate 2, .upload whole 0 [[7, 7], [7, 7]], .upload half 0 [[9, 9]],
    .commit 1 ⟨whole, 1, 0, 4⟩, .commit 1 ⟨half, 1, 0, 2⟩]

private def readChunk (state : SliceSystem) : Except ReadError Bytes :=
  ((DataFetcher.new smallLayout 1).prepareSlices (state.tables.getSlices 1)).readAt state.store 0 4

theorem readAt_of_inIdOrder_twoCommits :
    Exists fun state => Exists fun next =>
      Run (step smallLayout smallCompactConfig) (InIdOrder smallCompactConfig) initial
        (twoCommits 1 2) state ∧
      state.step smallLayout smallCompactConfig (.compactHeavy 1 3) = some next ∧
      (next.tables.getSlices 1).length = 1 ∧ readChunk next = readChunk state := by
  have ran : ((execute (step smallLayout smallCompactConfig)
      (InIdOrder smallCompactConfig) initial (twoCommits 1 2)).bind fun state =>
        (state.step smallLayout smallCompactConfig (.compactHeavy 1 3)).map fun next =>
          (decide (InIdOrder smallCompactConfig state (.compactHeavy 1 3)),
            (next.tables.getSlices 1).length)) = some (true, 1) := by
    decide +kernel
  rcases Option.bind_eq_some_iff.mp ran with ⟨state, executed, observed⟩
  rcases Option.map_eq_some_iff.mp observed with ⟨next, taken, facts⟩
  rcases Prod.mk.inj facts with ⟨ordered, single⟩
  have run := run_of_execute executed
  exact ⟨state, next, run, taken, single,
    readAt_of_inIdOrder (by decide) run (of_decide_eq_true ordered) trivial taken 1 (by decide)⟩

/-- The slice with the lower id is committed last.  A reader sees it over the
other one, and light compaction takes it out. -/
theorem compactLight_drops_last_commit :
    Exists fun state => Exists fun next =>
      Run (step smallLayout smallCompactConfig) anyStep initial
        (twoCommits 2 1) state ∧
      state.step smallLayout smallCompactConfig (.compactLight 1) = some next ∧
      readChunk state = .ok [9, 9, 7, 7] ∧ readChunk next = .ok [7, 7, 7, 7] := by
  have ran : ((execute (step smallLayout smallCompactConfig) anyStep initial
      (twoCommits 2 1)).bind fun state =>
        (state.step smallLayout smallCompactConfig (.compactLight 1)).map fun next =>
          (readChunk state, readChunk next)) = some (.ok [9, 9, 7, 7], .ok [7, 7, 7, 7]) := by
    decide +kernel
  rcases Option.bind_eq_some_iff.mp ran with ⟨state, executed, observed⟩
  rcases Option.map_eq_some_iff.mp observed with ⟨next, taken, facts⟩
  rcases Prod.mk.inj facts with ⟨before, after⟩
  exact ⟨state, next, run_of_execute executed, taken, before, after⟩

end SliceSystem

end Rk8s.Slayerfs
