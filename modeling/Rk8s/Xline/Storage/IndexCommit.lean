import Rk8s.Xline.Storage.Compaction

namespace Rk8s.Xline.Storage

open Std ExtTreeMap Multimap List Storage Index KeyRevision

/-!
# A batch works on the index that it will commit

The operations of an `IndexState` are those of the index that results from
committing it: they return the same, and committing afterwards gives the changed
index.  So what is known about the operations of the index holds for a batch,
as long as no compaction comes in between.
-/

namespace IndexState

variable {s : IndexState} {key rangeEnd : Key} {revs : List KeyRevision}

/-- A key of the batch has a new revision. -/
def WellFormed (s : IndexState) : Prop :=
  forall (key : Key) revs, s.state[key]? = some revs -> revs ≠ []

theorem wellFormed_new (index : Index) : (new index).WellFormed := by
  intro key revs there
  simp [new] at there

theorem oneKeyRevisions_eq (s : IndexState) (key : Key) :
    s.oneKeyRevisions key = valuesOf s.index key ++ valuesOf s.state key :=
  rfl

theorem valuesOf_commit (s : IndexState) (key : Key) :
    valuesOf s.commit key = s.oneKeyRevisions key := by
  rw [oneKeyRevisions_eq, ← flatMap_filter_toList s.state key]
  exact valuesOf_foldl_extend

theorem isSome_commit (s : IndexState) (key : Key) :
    s.commit[key]?.isSome = (s.index[key]?.isSome || s.state[key]?.isSome) := by
  rw [← any_toList s.state key]
  exact isSome_foldl_extend

theorem WellFormed.extend (wellFormed : s.WellFormed) (nonempty : revs ≠ []) :
    { s with state := Multimap.extend s.state key revs }.WellFormed := by
  intro other found there
  simp only [Multimap.extend, lookup_alter] at there
  split at there
  · cases there
    simp [nonempty]
  · exact wellFormed other found there

section Register

variable {revision subRevision : Int}

/-- The last revision of a key is that of the batch, if the batch has one. -/
theorem getLast?_oneKeyRevisions (wellFormed : s.WellFormed) (there : s.state[key]? = some revs) :
    (s.oneKeyRevisions key).getLast? = revs.getLast? := by
  have nonempty := wellFormed key revs there
  rw [oneKeyRevisions_eq]
  simp [valuesOf, there, getLast?_eq_some_getLast nonempty]

/-- Registering a revision appends it to those of the key. -/
theorem registerRevision_eq (wellFormed : s.WellFormed) :
    s.registerRevision key revision subRevision =
      ({ s with
          state := extend s.state key
            [nextRev (s.oneKeyRevisions key) revision subRevision] },
        nextRev (s.oneKeyRevisions key) revision subRevision,
        (s.oneKeyRevisions key).getLast?) := by
  unfold registerRevision
  cases there : s.state[key]? with
  | none =>
    have whole : s.oneKeyRevisions key = s.index[key]?.getD [] := by
      simp [oneKeyRevisions_eq, valuesOf, there]
    have state : s.state.insert key
          [nextRev (s.index[key]?.getD []) revision subRevision] =
        extend s.state key
          [nextRev (s.index[key]?.getD []) revision subRevision] := by
      refine ext_getElem? fun other => ?_
      simp only [extend, lookup_insert, lookup_alter, there]
      rfl
    rw [whole]
    simp only [state]
  | some revs =>
    have last := getLast?_oneKeyRevisions wellFormed there
    have next : nextRev (s.oneKeyRevisions key) revision subRevision =
        nextRev revs revision subRevision := by
      unfold nextRev
      rw [last]
    have state : s.state.insert key (revs ++ [nextRev revs revision subRevision]) =
        extend s.state key [nextRev revs revision subRevision] := by
      refine ext_getElem? fun other => ?_
      simp only [extend, lookup_insert, lookup_alter, there]
      rfl
    rw [next, last]
    simp only [state]

end Register

section Lookup

theorem keyRevisions_eq (s : IndexState) (within : Key -> Bool) :
    s.keyRevisions within = s.commit.filter fun key _ => within key := by
  have known (map : ExtTreeMap Key (List KeyRevision)) :
      (map.toList.filter fun entry => within entry.1) =
        (map.filter fun key _ => within key).toList := by
    rw [toList_filter]
  refine eq_of_valuesOf (fun key => ?_) fun key => ?_
  · have collected : valuesOf (s.keyRevisions within) key = _ := valuesOf_foldl_extend
    rw [collected, known, known, filter_append, flatMap_append, flatMap_filter_toList,
      flatMap_filter_toList, valuesOf_filter, valuesOf_filter, valuesOf_filter, valuesOf_commit,
      oneKeyRevisions_eq]
    split <;> simp [valuesOf]
  · have collected : (s.keyRevisions within)[key]?.isSome = _ := isSome_foldl_extend
    rw [collected, known, known, any_append, any_toList, any_toList, isSome_filter,
      isSome_filter, isSome_filter, isSome_commit, Bool.and_or_distrib_left]
    simp

theorem nodup_entries (s : IndexState) (key rangeEnd : Key) :
    ((s.entries key rangeEnd).map Prod.fst).Nodup := by
  have distinct (map : ExtTreeMap Key (List KeyRevision)) : (map.toList.map Prod.fst).Nodup := by
    refine pairwise_map.mpr (map.distinct_keys_toList.imp ?_)
    simp
  unfold entries
  cases RangeType.getRangeType key rangeEnd with
  | oneKey => simp
  | allKeys => exact distinct _
  | range => exact distinct _

/-- The keys of a range are those that it covers, among those that are known. -/
theorem mem_entries_keys {candidate : Key} (known : s.oneKeyRevisions candidate ≠ []) :
    candidate ∈ (s.entries key rangeEnd).map Prod.fst ↔ covers key rangeEnd candidate = true := by
  have present : s.commit[candidate]?.isSome = true := by
    rw [← valuesOf_commit] at known
    unfold valuesOf at known
    cases found : s.commit[candidate]? with
    | none => simp [found] at known
    | some revs => rfl
  have within (inside : Key -> Bool) :
      candidate ∈ (s.keyRevisions inside).toList.map Prod.fst ↔ inside candidate = true := by
    have filtered : inside candidate = true ↔
        (s.commit.filter fun key _ => inside key)[candidate]?.isSome = true := by
      rw [isSome_filter, present, Bool.and_true]
    rw [keyRevisions_eq, mem_map, filtered, Option.isSome_iff_exists]
    constructor
    · rintro ⟨entry, member, rfl⟩
      exact ⟨entry.2, mem_toList_iff_getElem?_eq_some.mp member⟩
    · rintro ⟨revs, found⟩
      exact ⟨(candidate, revs), mem_toList_iff_getElem?_eq_some.mpr found, rfl⟩
  unfold entries covers
  cases RangeType.getRangeType key rangeEnd with
  | oneKey =>
    simp only [map_cons, map_nil, mem_singleton, beq_iff_eq]
    exact eq_comm
  | allKeys => exact within _
  | range => exact within _

end Lookup

section Deletion

variable {revision subRevision : Int}

/-- The last version of the key is not a tombstone. -/
def live (s : IndexState) (key : Key) : Bool :=
  (Index.getRevision (s.oneKeyRevisions key) 0).isSome

theorem live_eq (s : IndexState) (key : Key) :
    s.live key = (s.oneKeyRevisions key).getLast?.any fun rev => !rev.isDeleted := by
  unfold live
  rw [getRevision_latest (Int.le_refl 0)]
  cases last : (s.oneKeyRevisions key).getLast? with
  | none => rfl
  | some rev => cases deleted : rev.isDeleted <;> simp [visible]

/-- The tombstone of a deletion. -/
def tombstone (deletion : Deletion) : KeyRevision :=
  KeyRevision.newDeletion deletion.1.2.revision deletion.1.2.subRevision

/-- Append the tombstones of deletions. -/
def bury (deletions : List Deletion) (s : IndexState) : IndexState :=
  { s with
    state := deletions.foldl (fun state deletion =>
      Multimap.extend state deletion.2 [tombstone deletion]) s.state }

theorem oneKeyRevisions_bury (deletions : List Deletion) (s : IndexState) (key : Key) :
    (bury deletions s).oneKeyRevisions key =
      s.oneKeyRevisions key ++
        (deletions.filter fun deletion => deletion.2 = key).map tombstone := by
  induction deletions generalizing s with
  | nil => simp [bury]
  | cons deletion deletions ih =>
    refine (ih { s with state := extend s.state _ [tombstone deletion] }).trans ?_
    rw [oneKeyRevisions_eq, oneKeyRevisions_eq]
    have extended : valuesOf (extend s.state deletion.2 [tombstone deletion]) key = _ :=
      valuesOf_extend
    rw [extended]
    by_cases same : deletion.2 = key <;> simp [same]

theorem WellFormed.bury (wellFormed : s.WellFormed) (deletions : List Deletion) :
    (bury deletions s).WellFormed := by
  induction deletions generalizing s with
  | nil => exact wellFormed
  | cons deletion deletions ih => exact ih (wellFormed.extend (by simp))

/-- What deleting keys one after the other does. -/
theorem deleteEach_eq (s : IndexState) (keys : List Key) (distinct : keys.Nodup)
    (revision subRevision : Int) :
    ∃ deletions : List Deletion,
      deleteEach (fun s key sub => deleteOne s revision key sub) s keys subRevision =
        (bury deletions s, deletions) ∧
      deletions.map Prod.snd = keys.filter s.live ∧
      ∀ deletion ∈ deletions,
        deletion.1.2.revision = revision ∧ subRevision ≤ deletion.1.2.subRevision := by
  induction keys generalizing s subRevision with
  | nil => exact ⟨[], rfl, rfl, by simp⟩
  | cons key keys ih =>
    obtain ⟨fresh, distinct⟩ := nodup_cons.mp distinct
    unfold deleteEach
    cases last : getRevision (s.oneKeyRevisions key) 0 with
    | none =>
      have dead : s.live key = false := by simp [live, last]
      obtain ⟨deletions, equal, isKeys, bounds⟩ := ih s distinct (subRevision + 1)
      have one : s.deleteOne revision key subRevision = (s, none) := by simp [deleteOne, last]
      refine ⟨deletions, ?_, ?_, fun deletion member => ?_⟩
      · simp only [one, equal]
        rfl
      · rw [isKeys, filter_cons_of_neg (by simp [dead])]
      · have bound := bounds deletion member
        exact ⟨bound.1, by omega⟩
    | some lastAvailable =>
      have isLive : s.live key = true := by simp [live, last]
      obtain ⟨deletions, equal, isKeys, bounds⟩ :=
        ih { s with
          state := extend s.state key
            [newDeletion revision subRevision] } distinct (subRevision + 1)
      have one : s.deleteOne revision key subRevision =
          ({ s with
              state := extend s.state key
                [newDeletion revision subRevision] },
            some ((lastAvailable, ⟨revision, subRevision⟩), key)) := by
        simp [deleteOne, last, newDeletion, asRevision]
      refine ⟨((lastAvailable, ⟨revision, subRevision⟩), key) :: deletions, ?_, ?_, ?_⟩
      · simp only [one, equal]
        rfl
      · have others : keys.filter
            (live { s with
              state := extend s.state key
                [newDeletion revision subRevision] }) = keys.filter s.live := by
          refine filter_congr fun other member => ?_
          have different : key ≠ other := fun same => fresh (same ▸ member)
          have extended : valuesOf (extend s.state key
              [newDeletion revision subRevision]) other = _ := valuesOf_extend
          rw [live, live, oneKeyRevisions_eq, oneKeyRevisions_eq, extended, if_neg different]
        rw [map_cons, isKeys, others, filter_cons_of_pos (by simp [isLive])]
      · intro deletion member
        rcases mem_cons.mp member with rfl | member
        · exact ⟨rfl, Int.le_refl _⟩
        · have bound := bounds deletion member
          exact ⟨bound.1, by omega⟩

theorem live_known (isLive : s.live key = true) : s.oneKeyRevisions key ≠ [] := by
  intro empty
  rw [live_eq, empty] at isLive
  cases isLive

/-- A deletion appends a tombstone to each live key of the range. -/
theorem delete_eq (s : IndexState) (key rangeEnd : Key) (revision subRevision : Int) :
    ∃ deletions : List Deletion,
      s.delete key rangeEnd revision subRevision = (bury deletions s, deletions) ∧
      (∀ candidate, candidate ∈ deletions.map Prod.snd ↔
        covers key rangeEnd candidate = true ∧ s.live candidate = true) ∧
      ∀ deletion ∈ deletions,
        deletion.1.2.revision = revision ∧ subRevision ≤ deletion.1.2.subRevision := by
  obtain ⟨deletions, equal, isKeys, bounds⟩ :=
    deleteEach_eq s _ (s.nodup_entries key rangeEnd) revision subRevision
  refine ⟨deletions, equal, fun candidate => ?_, bounds⟩
  rw [isKeys, mem_filter]
  constructor
  · rintro ⟨member, isLive⟩
    exact ⟨(mem_entries_keys (live_known isLive)).mp member, isLive⟩
  · rintro ⟨covered, isLive⟩
    exact ⟨(mem_entries_keys (live_known isLive)).mpr covered, isLive⟩

end Deletion

end IndexState

end Rk8s.Xline.Storage
