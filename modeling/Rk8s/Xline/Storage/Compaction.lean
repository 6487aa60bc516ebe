import Mathlib.Data.List.Perm.Basic
import Rk8s.Xline.Storage.Index

namespace Rk8s.Xline.Storage.Index

open Option Std ExtTreeMap BinarySearch List

/-!
# What a compaction leaves readable

A compaction at `atRev` removes, from every key first written before `atRev`,
the versions that are dead at `atRev`: those that a later version up to `atRev`
overwrites, and a tombstone that is the last version up to `atRev`.  Lookups at
`atRev` or later do not see the difference.

A watch is another matter.  It reads the versions from its start revision on,
and it is accepted from `atRev` on.  A version written at `atRev` itself that is
dead at `atRev` is removed although such a watch should deliver it.
-/

/-! ## The versions of one key -/

/-- The versions of a key are in the order of their revisions. -/
def Ordered (revs : List KeyRevision) : Prop :=
  revs.Pairwise fun earlier later => earlier.modRevision ≤ later.modRevision

/-- The last version up to a revision. -/
def newestAt (revs : List KeyRevision) (revision : Int) : Option KeyRevision :=
  (revs.takeWhile fun rev => decide (rev.modRevision ≤ revision)).getLast?

/-- A version as a reader sees it: tombstones are not there. -/
def visible (rev : Option KeyRevision) : Option Revision :=
  (rev.filter fun rev => !rev.isDeleted).map KeyRevision.asRevision

variable {revs : List KeyRevision} {atRev : Int}

theorem getRevision_latest {revision : Int} (latest : revision ≤ 0) :
    getRevision revs revision = visible revs.getLast? := by
  simp [getRevision, visible, latest]

theorem getRevision_at {revision : Int} (ordered : Ordered revs) (positive : 0 < revision) :
    getRevision revs revision = visible (newestAt revs revision) := by
  have above : ∀ rev : KeyRevision,
      compare rev.modRevision revision = .gt ↔ revision < rev.modRevision := by
    intro rev
    exact compare_gt_iff_gt
  have ascending : Ascending (fun rev : KeyRevision => compare rev.modRevision revision) revs := by
    refine ordered.imp ?_
    intro earlier later le gt
    exact (above later).mpr (Int.lt_of_lt_of_le ((above earlier).mp gt) le)
  have leading : upTo (fun rev : KeyRevision => compare rev.modRevision revision) revs =
      revs.takeWhile fun rev => decide (rev.modRevision ≤ revision) := by
    unfold upTo
    congr 1
    funext rev
    rw [decide_eq_decide, Ne, above rev, Int.not_lt]
  have split := takeWhile_append_dropWhile
    (p := fun rev : KeyRevision => decide (rev.modRevision ≤ revision)) (l := revs)
  unfold getRevision newestAt visible
  rw [if_neg (by omega), binarySearchBy_eq ascending, leading]
  generalize revs.takeWhile (fun rev => decide (rev.modRevision ≤ revision)) = front at *
  rcases eq_nil_or_concat front with rfl | ⟨older, newest, rfl⟩
  · simp
  · have here : revs[older.length]? = some newest := by
      rw [← split]
      simp
    by_cases same : compare newest.modRevision revision = .eq <;> simp [same, here]

/-- The versions of a key that has versions older than `atRev`, cut after the
last version up to `atRev`. -/
structure Cut (atRev : Int) (revs older : List KeyRevision) (newest : KeyRevision)
    (later : List KeyRevision) : Prop where
  parts : revs = older ++ newest :: later
  first : Exists fun first => revs.head? = some first ∧ first.modRevision < atRev
  upTo : newest.modRevision ≤ atRev
  beyond : forall rev, rev ∈ later -> atRev < rev.modRevision

/-- The dead versions of a cut: those overwritten, and a final tombstone. -/
def dead (older : List KeyRevision) (newest : KeyRevision) : List KeyRevision :=
  older ++ if newest.isDeleted then [newest] else []

/-- What stays: the versions after the cut, and a final version that is live. -/
def standing (newest : KeyRevision) (later : List KeyRevision) : List KeyRevision :=
  if newest.isDeleted then later else newest :: later

theorem dead_append_standing (older : List KeyRevision) (newest : KeyRevision)
    (later : List KeyRevision) :
    dead older newest ++ standing newest later = older ++ newest :: later := by
  unfold dead standing
  cases newest.isDeleted <;> simp

namespace Cut

variable {older later : List KeyRevision} {newest : KeyRevision} {revision : Int}

theorem exists_of_first {first : KeyRevision} (ordered : Ordered revs)
    (head : revs.head? = some first) (before : first.modRevision < atRev) :
    ∃ older newest later, Cut atRev revs older newest later := by
  have split := takeWhile_append_dropWhile
    (p := fun rev : KeyRevision => decide (rev.modRevision ≤ atRev)) (l := revs)
  rcases eq_nil_or_concat
      (revs.takeWhile fun rev => decide (rev.modRevision ≤ atRev)) with none | ⟨older, newest, front⟩
  · exfalso
    cases revs with
    | nil => cases head
    | cons rev rest =>
      cases head
      rw [takeWhile_cons_of_pos (by simpa using Int.le_of_lt before)] at none
      cases none
  refine ⟨older, newest, revs.dropWhile fun rev => decide (rev.modRevision ≤ atRev), ?_⟩
  have member : newest ∈ revs.takeWhile fun rev => decide (rev.modRevision ≤ atRev) := by
    rw [front]
    simp
  refine ⟨?_, ⟨first, head, before⟩, by simpa using mem_takeWhile_imp member, ?_⟩
  · rw [front, concat_append] at split
    exact split.symm
  intro rev there
  -- The first version after the cut is beyond `atRev`, and so are those after it.
  cases rest : revs.dropWhile (fun rev => decide (rev.modRevision ≤ atRev)) with
  | nil => rw [rest] at there; cases there
  | cons next others =>
    have beyond : atRev < next.modRevision := by
      have stops := head_dropWhile_not
        (fun rev : KeyRevision => decide (rev.modRevision ≤ atRev))
        (l := revs) (by rw [rest]; exact cons_ne_nil _ _)
      simp only [rest, decide_eq_false_iff_not, Int.not_le] at stops
      exact stops
    rw [rest] at there
    rcases mem_cons.mp there with rfl | there
    · exact beyond
    · have sublist : (next :: others).Sublist revs := rest ▸ dropWhile_sublist _
      have le := (pairwise_cons.mp (ordered.sublist sublist)).1 rev there
      omega

variable (cut : Cut atRev revs older newest later) (ordered : Ordered revs)
include cut ordered

theorem older_le : ∀ rev ∈ older, rev.modRevision ≤ atRev := by
  intro rev member
  rw [Ordered, cut.parts, pairwise_append] at ordered
  have le := ordered.2.2 rev member newest (by simp)
  have upTo := cut.upTo
  omega

theorem dead_le : ∀ rev ∈ dead older newest, rev.modRevision ≤ atRev := by
  intro rev member
  rcases mem_append.mp member with old | last
  · exact cut.older_le ordered rev old
  cases deleted : newest.isDeleted with
  | false => simp [deleted] at last
  | true =>
    simp only [deleted, ite_true, mem_singleton] at last
    exact last ▸ cut.upTo

omit cut ordered in
/-- Up to `atRev` or later, a reader finds the same with and without the dead
versions. -/
theorem visible_standing (older : List KeyRevision) (newest : KeyRevision)
    (tail : List KeyRevision) :
    visible (older ++ newest :: tail).getLast? = visible (standing newest tail).getLast? := by
  cases tail with
  | nil =>
    cases deleted : newest.isDeleted <;> simp [standing, visible, deleted]
  | cons next rest =>
    have last : (older ++ newest :: next :: rest).getLast? = (next :: rest).getLast? := by
      rw [append_cons, getLast?_append_of_ne_nil _ (cons_ne_nil _ _)]
    cases deleted : newest.isDeleted <;>
      simp [standing, deleted, last]

theorem takeWhile_eq (later_than : atRev ≤ revision) :
    (revs.takeWhile fun rev => decide (rev.modRevision ≤ revision)) =
      older ++ newest :: later.takeWhile fun rev => decide (rev.modRevision ≤ revision) := by
  have upTo := cut.upTo
  have reached : ∀ rev ∈ older, decide (rev.modRevision ≤ revision) = true := by
    intro rev member
    have le := cut.older_le ordered rev member
    exact decide_eq_true (by omega)
  have newest_reached : decide (newest.modRevision ≤ revision) = true := decide_eq_true (by omega)
  rw [cut.parts, takeWhile_append_of_pos reached]
  simp [newest_reached]

omit ordered in
theorem takeWhile_standing (later_than : atRev ≤ revision) :
    ((standing newest later).takeWhile fun rev => decide (rev.modRevision ≤ revision)) =
      standing newest (later.takeWhile fun rev => decide (rev.modRevision ≤ revision)) := by
  have upTo := cut.upTo
  have newest_reached : decide (newest.modRevision ≤ revision) = true := decide_eq_true (by omega)
  unfold standing
  cases newest.isDeleted with
  | true => rfl
  | false => exact takeWhile_cons_of_pos newest_reached

theorem ordered_standing : Ordered (standing newest later) := by
  rw [Ordered, cut.parts, pairwise_append] at ordered
  have tail := ordered.2.1
  unfold standing
  cases newest.isDeleted with
  | true => exact (pairwise_cons.mp tail).2
  | false => exact tail

theorem getRevision_standing (readable : atRev ≤ revision ∨ revision ≤ 0) :
    getRevision (standing newest later) revision = getRevision revs revision := by
  by_cases latest : revision ≤ 0
  · rw [getRevision_latest latest, getRevision_latest latest, cut.parts, visible_standing]
  · have reached : atRev ≤ revision := by omega
    rw [getRevision_at (cut.ordered_standing ordered) (by omega), getRevision_at ordered (by omega)]
    unfold newestAt
    rw [cut.takeWhile_standing reached, cut.takeWhile_eq ordered reached, visible_standing]

/-- The partition point is right after the cut. -/
theorem partitionPoint_eq :
    partitionPoint (fun rev => decide (rev.modRevision ≤ atRev)) revs = older.length + 1 := by
  have ascending : revs.Pairwise fun earlier later : KeyRevision =>
      decide (later.modRevision ≤ atRev) = true -> decide (earlier.modRevision ≤ atRev) = true := by
    refine ordered.imp ?_
    intro earlier later le reached
    simp only [decide_eq_true_eq] at reached ⊢
    omega
  have none_later : later.takeWhile (fun rev => decide (rev.modRevision ≤ atRev)) = [] := by
    rw [takeWhile_eq_nil_iff]
    intro inside
    have beyond := cut.beyond _ (getElem_mem inside)
    simpa using beyond
  rw [BinarySearch.partitionPoint_eq ascending, cut.takeWhile_eq ordered (Int.le_refl _),
    none_later]
  simp

omit ordered in
theorem getElem?_newest : revs[older.length]? = some newest := by
  rw [cut.parts]
  simp

/-- The code cuts where `Cut` says. -/
theorem compactRevs_eq :
    compactRevs atRev revs = (dead older newest, standing newest later) := by
  obtain ⟨first, head, before⟩ := cut.first
  have length : older.length + 1 = (older ++ [newest]).length := by simp
  unfold compactRevs
  simp only [head, before, ite_true, cut.partitionPoint_eq ordered, Nat.add_sub_cancel,
    cut.getElem?_newest, map_some, getD_some, splitAt_eq]
  cases deleted : newest.isDeleted with
  | true =>
    have parts : revs = (older ++ [newest]) ++ later := by
      rw [cut.parts]
      simp
    simp only [ite_true, dead, standing, deleted]
    rw [parts, length, take_left, drop_left]
  | false =>
    simp only [dead, standing, deleted, Bool.false_eq_true, ite_false, append_nil]
    rw [cut.parts, take_left, drop_left]

end Cut

/-- A key without versions older than `atRev` is not touched. -/
theorem compactRevs_of_no_cut (ordered : Ordered revs)
    (none : ∀ older newest later, ¬ Cut atRev revs older newest later) :
    compactRevs atRev revs = ([], revs) := by
  unfold compactRevs
  cases head : revs.head? with
  | none => rfl
  | some first =>
    by_cases before : first.modRevision < atRev
    · obtain ⟨older, newest, later, cut⟩ := Cut.exists_of_first ordered head before
      exact absurd cut (none older newest later)
    · simp [before]

/-- Either the versions of a key are cut, or the compaction leaves them as they are. -/
theorem cut_or_untouched (atRev : Int) (ordered : Ordered revs) :
    (∃ older newest later,
        Cut atRev revs older newest later ∧
          compactRevs atRev revs = (dead older newest, standing newest later)) ∨
      (∀ older newest later, ¬ Cut atRev revs older newest later) ∧
        compactRevs atRev revs = ([], revs) := by
  by_cases cuts : ∃ older newest later, Cut atRev revs older newest later
  · obtain ⟨older, newest, later, cut⟩ := cuts
    exact .inl ⟨older, newest, later, cut, cut.compactRevs_eq ordered⟩
  · have none : ∀ older newest later, ¬ Cut atRev revs older newest later :=
      fun older newest later cut => cuts ⟨older, newest, later, cut⟩
    exact .inr ⟨none, compactRevs_of_no_cut ordered none⟩

theorem filterRevision_append (front back : List KeyRevision) (revision : Int) :
    filterRevision (front ++ back) revision =
      filterRevision front revision ++ filterRevision back revision := by
  simp [filterRevision]

/-- A watch from `atRev` on sees the dead versions of a cut exactly when one of
them was written at `atRev`. -/
theorem Cut.filterRevision_dead_eq_nil_iff {older later : List KeyRevision}
    {newest : KeyRevision} (cut : Cut atRev revs older newest later) (ordered : Ordered revs) :
    filterRevision (dead older newest) atRev = [] ↔
      ∀ rev ∈ dead older newest, rev.modRevision ≠ atRev := by
  simp only [filterRevision, map_eq_nil_iff, filter_eq_nil_iff, decide_eq_true_eq]
  refine forall_congr' fun rev => forall_congr' fun member => ?_
  have le := cut.dead_le ordered rev member
  omega

theorem filterRevision_eq_nil_mono {earlier later : Int} (le : earlier ≤ later)
    (none : filterRevision revs earlier = []) :
    filterRevision revs later = [] := by
  simp only [filterRevision, map_eq_nil_iff, filter_eq_nil_iff, decide_eq_true_eq] at *
  intro rev member
  have before := none rev member
  omega

/-! ## The whole index -/

variable (index : Index)

/-- Every key of the index has versions, and they are in order. -/
def Sound : Prop :=
  forall (key : Key) (revs : List KeyRevision), index[key]? = some revs -> revs ≠ [] ∧ Ordered revs

/-- The version is dead at `atRev`: overwritten by then, or a tombstone that
still stands then.  Keys first written at `atRev` or later do not count. -/
def DeadAt (atRev : Int) (rev : KeyRevision) : Prop :=
  Exists fun key : Key => Exists fun revs : List KeyRevision =>
    Exists fun older => Exists fun newest => Exists fun later =>
    index[key]? = some revs ∧ Cut atRev revs older newest later ∧ rev ∈ dead older newest

/-- The revision is that of the version a key has at `atRev`, and the key is live.
Keys first written at `atRev` or later do not count. -/
def LiveAt (atRev : Int) (revision : Revision) : Prop :=
  Exists fun key : Key => Exists fun revs : List KeyRevision =>
    Exists fun older => Exists fun newest => Exists fun later =>
    index[key]? = some revs ∧ Cut atRev revs older newest later ∧
      newest.isDeleted = false ∧ newest.asRevision = revision

/-- What a compaction leaves of the versions of a key, if anything. -/
def leaves (atRev : Int) (revs : List KeyRevision) : Option (List KeyRevision) :=
  if (compactRevs atRev revs).2 = [] ∧ revs ≠ [] then none else some (compactRevs atRev revs).2

theorem getElem?_compact (atRev : Int) (key : Key) :
    (compact index atRev).1[key]? = index[key]?.bind (leaves atRev) := by
  unfold compact leaves
  simp only [getElem?_filterMap]
  cases index[key]? <;> simp

theorem toList_compact (atRev : Int) :
    (compact index atRev).1.toList =
      index.toList.filterMap fun entry => (leaves atRev entry.2).map fun revs => (entry.1, revs) := by
  unfold compact leaves
  simp only [toList_filterMap]

theorem entries_compact (atRev : Int) (key rangeEnd : Key) :
    entries (compact index atRev).1 key rangeEnd =
      (entries index key rangeEnd).filterMap fun entry =>
        (leaves atRev entry.2).map fun revs => (entry.1, revs) := by
  unfold entries
  cases RangeType.getRangeType key rangeEnd with
  | oneKey =>
    simp only [getElem?_compact]
    cases index[key]? with
    | none => rfl
    | some revs => cases found : leaves atRev revs <;> simp [found]
  | allKeys => exact toList_compact index atRev
  | range =>
    simp only [toList_compact, filter_filterMap, filterMap_filter]
    congr 1
    funext entry
    cases found : leaves atRev entry.2 <;>
      cases within : (KeyRange.new key rangeEnd).containsKey entry.1 <;> simp [within]

variable {index : Index}

theorem mem_entries {key rangeEnd : Key} {entry : Key × List KeyRevision}
    (member : entry ∈ entries index key rangeEnd) : index[entry.1]? = some entry.2 := by
  unfold entries at member
  cases type : RangeType.getRangeType key rangeEnd with
  | oneKey =>
    simp only [type, mem_toList, map_eq_some_iff] at member
    obtain ⟨revs, there, rfl⟩ := member
    exact there
  | allKeys =>
    rw [type] at member
    exact mem_toList_iff_getElem?_eq_some.mp member
  | range =>
    rw [type] at member
    exact mem_toList_iff_getElem?_eq_some.mp (mem_filter.mp member).1

/-- An empty list of versions answers no lookup, so it does not matter that keys
without versions are removed. -/
theorem leaves_getD (atRev : Int) (revs : List KeyRevision) :
    (leaves atRev revs).getD [] = (compactRevs atRev revs).2 := by
  unfold leaves
  by_cases gone : (compactRevs atRev revs).2 = [] ∧ revs ≠ []
  · simp [gone]
  · simp [gone]

section Compaction

theorem getRevision_compactRevs (ordered : Ordered revs) {revision : Int}
    (readable : atRev ≤ revision ∨ revision ≤ 0) :
    getRevision (compactRevs atRev revs).2 revision = getRevision revs revision := by
  rcases cut_or_untouched atRev ordered with ⟨older, newest, later, cut, equal⟩ | ⟨_, equal⟩
  · rw [equal]
    exact cut.getRevision_standing ordered readable
  · rw [equal]

variable (sound : Sound index)
include sound

/-- Point-in-time reads at the compacted revision or later, and reads of the
latest versions, are unchanged. -/
theorem get_compact (key rangeEnd : Key) {revision : Int}
    (readable : atRev ≤ revision ∨ revision ≤ 0) :
    get (compact index atRev).1 key rangeEnd revision = get index key rangeEnd revision := by
  unfold get
  rw [entries_compact, filterMap_filterMap]
  refine filterMap_congr fun entry member => ?_
  have ordered := (sound _ _ (mem_entries member)).2
  rw [← getRevision_compactRevs ordered readable, ← leaves_getD]
  cases leaves atRev entry.2 with
  | none => simp [getRevision, binarySearchBy]
  | some revs => rfl

omit sound in
theorem flatMap_filterRevision_compact (key rangeEnd : Key) (revision : Int) :
    (entries (compact index atRev).1 key rangeEnd).flatMap
        (fun entry => filterRevision entry.2 revision) =
      (entries index key rangeEnd).flatMap
        fun entry => filterRevision (compactRevs atRev entry.2).2 revision := by
  rw [entries_compact, filterMap_eq_flatMap_toList, flatMap_assoc]
  congr 1
  funext entry
  rw [← leaves_getD]
  cases leaves atRev entry.2 <;> simp [filterRevision]

theorem filterRevision_compactRevs {key : Key} {start : Int} (there : index[key]? = some revs)
    (accepted : atRev ≤ start)
    (quiet : ∀ rev, DeadAt index atRev rev -> rev.modRevision ≠ atRev) :
    filterRevision (compactRevs atRev revs).2 start = filterRevision revs start := by
  have ordered := (sound key revs there).2
  rcases cut_or_untouched atRev ordered with ⟨older, newest, later, cut, equal⟩ | ⟨_, equal⟩
  · have none : filterRevision (dead older newest) start = [] := by
      refine filterRevision_eq_nil_mono accepted ((cut.filterRevision_dead_eq_nil_iff ordered).mpr ?_)
      intro rev member
      exact quiet rev ⟨key, revs, older, newest, later, there, cut, member⟩
    rw [equal, cut.parts, ← dead_append_standing, filterRevision_append, none, nil_append]
  · rw [equal]

/-- Watches from the compacted revision on see no difference exactly when no
version written at the compacted revision is dead. -/
theorem getFromRev_compact_iff :
    (∀ key rangeEnd start, atRev ≤ start ->
        getFromRev (compact index atRev).1 key rangeEnd start =
          getFromRev index key rangeEnd start) ↔
      ∀ rev, DeadAt index atRev rev -> rev.modRevision ≠ atRev := by
  constructor
  · rintro unchanged rev ⟨key, revs, older, newest, later, there, cut, member⟩
    have ordered := (sound key revs there).2
    -- The watch of this one key, from the compacted revision on.
    have here := unchanged key oneKey atRev (Int.le_refl _)
    simp only [getFromRev, flatMap_filterRevision_compact] at here
    simp only [RangeType.getRangeType, entries, there, ite_true, map_some,
      toList_some, flatMap_cons, flatMap_nil, append_nil,
      cut.compactRevs_eq ordered] at here
    rw [cut.parts, ← dead_append_standing, filterRevision_append] at here
    have none : filterRevision (dead older newest) atRev = [] := self_eq_append_left.mp here
    exact (cut.filterRevision_dead_eq_nil_iff ordered).mp none rev member
  · intro quiet key rangeEnd start accepted
    have same : (entries (compact index atRev).1 key rangeEnd).flatMap
          (fun entry => filterRevision entry.2 start) =
        (entries index key rangeEnd).flatMap fun entry => filterRevision entry.2 start := by
      rw [flatMap_filterRevision_compact]
      refine flatMap_congr fun entry member => ?_
      exact filterRevision_compactRevs sound (mem_entries member) accepted quiet
    unfold getFromRev
    rw [same]

theorem mem_compact_removed (rev : KeyRevision) :
    rev ∈ (compact index atRev).2 ↔ DeadAt index atRev rev := by
  simp only [compact, mem_flatMap]
  constructor
  · rintro ⟨⟨key, revs⟩, there, member⟩
    have there := mem_toList_iff_getElem?_eq_some.mp there
    rcases cut_or_untouched atRev (sound key revs there).2 with
      ⟨older, newest, later, cut, equal⟩ | ⟨_, equal⟩
    · rw [equal] at member
      exact ⟨key, revs, older, newest, later, there, cut, member⟩
    · rw [equal] at member
      cases member
  · rintro ⟨key, revs, older, newest, later, there, cut, member⟩
    refine ⟨(key, revs), mem_toList_iff_getElem?_eq_some.mpr there, ?_⟩
    rw [cut.compactRevs_eq (sound key revs there).2]
    exact member

/-- The removed versions and those that are left make up the versions there were. -/
theorem removed_append_left_perm :
    ((compact index atRev).2 ++ (compact index atRev).1.toList.flatMap Prod.snd).Perm
      (index.toList.flatMap Prod.snd) := by
  have left : (compact index atRev).1.toList.flatMap Prod.snd =
      index.toList.flatMap fun entry => (compactRevs atRev entry.2).2 := by
    rw [toList_compact, filterMap_eq_flatMap_toList, flatMap_assoc]
    congr 1
    funext entry
    rw [← leaves_getD]
    cases leaves atRev entry.2 <;> simp
  have parts : (index.toList.flatMap fun entry =>
        (compactRevs atRev entry.2).1 ++ (compactRevs atRev entry.2).2) =
      index.toList.flatMap Prod.snd := by
    refine flatMap_congr fun entry member => ?_
    have there : index[entry.1]? = some entry.2 := mem_toList_iff_getElem?_eq_some.mp member
    rcases cut_or_untouched atRev (sound _ _ there).2 with
      ⟨older, newest, later, cut, equal⟩ | ⟨_, equal⟩
    · rw [equal, dead_append_standing, cut.parts]
    · rw [equal, nil_append]
  rw [left, ← parts]
  exact flatMap_append_perm _ _ _

theorem mem_keep (revision : Revision) :
    revision ∈ keep index atRev ↔ LiveAt index atRev revision := by
  simp only [keep, mem_filterMap]
  constructor
  · rintro ⟨⟨key, revs⟩, there, found⟩
    have there := mem_toList_iff_getElem?_eq_some.mp there
    have ordered := (sound key revs there).2
    cases head : revs.head? with
    | none => simp [head] at found
    | some first =>
      by_cases before : first.modRevision < atRev
      · obtain ⟨older, newest, later, cut⟩ := Cut.exists_of_first ordered head before
        simp only [head, before, cut.partitionPoint_eq ordered, Nat.add_sub_cancel,
          cut.getElem?_newest] at found
        cases deleted : newest.isDeleted with
        | true => simp [deleted] at found
        | false =>
          simp only [deleted, Bool.not_false, filter_some, ite_true, map_some, some.injEq] at found
          exact ⟨key, revs, older, newest, later, there, cut, deleted, found⟩
      · simp [head, before] at found
  · rintro ⟨key, revs, older, newest, later, there, cut, deleted, rfl⟩
    have ordered := (sound key revs there).2
    obtain ⟨first, head, before⟩ := cut.first
    refine ⟨(key, revs), mem_toList_iff_getElem?_eq_some.mpr there, ?_⟩
    simp [head, before, cut.partitionPoint_eq ordered, cut.getElem?_newest, deleted]

end Compaction

/-! ## Indexes built by commands -/

/-- A change to the index. -/
inductive Op
  | registerRevision (key : Key) (revision subRevision : Int)
  | delete (key rangeEnd : Key) (revision subRevision : Int)

/-- The revision of a change. -/
def Op.revision : Op -> Int
  | .registerRevision _ revision _ => revision
  | .delete _ _ revision _ => revision

def apply (index : Index) : Op -> Index
  | .registerRevision key revision subRevision =>
    (registerRevision index key revision subRevision).1
  | .delete key rangeEnd revision subRevision => (delete index key rangeEnd revision subRevision).1

/-- The index after a list of changes. -/
def build (ops : List Op) : Index := ops.foldl apply ∅

/-- The index is sound and none of its versions is newer than `last`. -/
def SoundUpTo (last : Int) (index : Index) : Prop :=
  Sound index ∧ forall (key : Key) (revs : List KeyRevision), index[key]? = some revs ->
    forall rev, rev ∈ revs -> rev.modRevision ≤ last

theorem soundUpTo_empty (last : Int) : SoundUpTo last (∅ : Index) :=
  ⟨fun key revs there => by simp at there, fun key revs there => by simp at there⟩

variable {last : Int}

/-- Appending a version of the current revision to a key keeps the index sound. -/
theorem SoundUpTo.append (sound : SoundUpTo last index) (key : Key)
    (versions : revs = index[key]?.getD []) {rev : KeyRevision} (newer : last ≤ rev.modRevision) :
    SoundUpTo rev.modRevision (index.insert key (revs ++ [rev])) := by
  have before : Ordered revs ∧ ∀ old ∈ revs, old.modRevision ≤ last := by
    subst versions
    cases there : index[key]? with
    | none => exact ⟨List.Pairwise.nil, nofun⟩
    | some found => exact ⟨(sound.1 key found there).2, sound.2 key found there⟩
  constructor
  · intro other found there
    rw [ExtTreeMap.getElem?_insert] at there
    split at there
    · cases there
      refine ⟨by simp, pairwise_append.mpr ⟨before.1, pairwise_singleton _ _,
        fun old member => forall_mem_singleton.mpr ?_⟩⟩
      have le := before.2 old member
      omega
    · exact sound.1 other found there
  intro other found there old member
  rw [ExtTreeMap.getElem?_insert] at there
  split at there
  · cases there
    rcases mem_append.mp member with member | member
    · have le := before.2 old member
      omega
    · rw [mem_singleton.mp member]
  · have le := sound.2 other found there old member
    omega

theorem SoundUpTo.later {next : Int} (sound : SoundUpTo last index)
    (le : last ≤ next) : SoundUpTo next index :=
  ⟨sound.1, fun key revs there rev member =>
    Int.le_trans (sound.2 key revs there rev member) le⟩

/-- What every single deletion keeps, the deletion of a list of keys keeps. -/
theorem deleteEach_keeps {σ : Type} {deleteOne : σ -> Key -> Int -> σ × Option Deletion}
    (Inv : σ -> Prop) (kept : ∀ state key sub, Inv state -> Inv (deleteOne state key sub).1)
    (keys : List Key) (state : σ) (sub : Int) (initial : Inv state) :
    Inv (deleteEach deleteOne state keys sub).1 := by
  induction keys generalizing state sub with
  | nil => exact initial
  | cons key keys ih => exact ih _ _ (kept state key sub initial)

theorem SoundUpTo.deleteOne {revision : Int} (sound : SoundUpTo last index)
    (newer : last ≤ revision) (key : Key) (sub : Int) :
    SoundUpTo revision (deleteOne index revision key sub).1 := by
  unfold Index.deleteOne
  cases there : index[key]? with
  | none => exact sound.later newer
  | some revs =>
    cases live : getRevision revs 0 with
    | none => simpa [genDelRevision, live] using sound.later newer
    | some lastAvailable =>
      have appended : SoundUpTo revision
          (index.insert key (revs ++ [KeyRevision.newDeletion revision sub])) :=
        sound.append key (by simp [there]) newer
      simpa [genDelRevision, live] using appended

theorem SoundUpTo.apply (sound : SoundUpTo last index) (op : Op)
    (newer : last ≤ op.revision) : SoundUpTo op.revision (apply index op) := by
  cases op with
  | registerRevision key revision sub =>
    have mod : (nextRev (index[key]?.getD []) revision sub).modRevision = revision := by
      unfold nextRev
      split
      · rfl
      · split <;> rfl
    have reached : last ≤ (nextRev (index[key]?.getD []) revision sub).modRevision := by
      rw [mod]
      exact newer
    have appended := sound.append key rfl reached
    rw [mod] at appended
    exact appended
  | delete key rangeEnd revision sub =>
    refine deleteEach_keeps (SoundUpTo revision) ?_ _ _ _ (sound.later newer)
    intro state key sub sound
    exact sound.deleteOne (Int.le_refl _) key sub

/-- Changes in the order of their revisions build a sound index. -/
theorem sound_build {ops : List Op}
    (inOrder : ops.Pairwise fun earlier later => earlier.revision ≤ later.revision) :
    Sound (build ops) := by
  suffices steps : ∀ (index : Index) (last : Int), SoundUpTo last index ->
      (∀ op ∈ ops, last ≤ op.revision) -> Sound (ops.foldl apply index) by
    cases ops with
    | nil => exact (soundUpTo_empty 0).1
    | cons first rest =>
      refine steps ∅ first.revision (soundUpTo_empty _) ?_
      exact forall_mem_cons.mpr ⟨Int.le_refl _, (pairwise_cons.mp inOrder).1⟩
  intro index last sound newer
  induction ops generalizing index last with
  | nil => exact sound.1
  | cons op rest ih =>
    obtain ⟨first, others⟩ := pairwise_cons.mp inOrder
    exact ih others _ op.revision (sound.apply op (newer op (by simp))) first

/-- What a compaction keeps readable.  Reads at the compacted revision or later
and the report of the removed versions are right for every index.  Watches that
are accepted see the same versions, and no removed version is one to be kept,
exactly when no version written at the compacted revision is dead at it, and no
dead version has the revision of a live one. -/
theorem compact_preserves_history_iff (ops : List Op)
    (inOrder : ops.Pairwise fun earlier later => earlier.revision ≤ later.revision) (atRev : Int) :
    ((forall key rangeEnd rev, atRev ≤ rev ∨ rev ≤ 0 ->
          get (compact (build ops) atRev).1 key rangeEnd rev = get (build ops) key rangeEnd rev) ∧
        (forall key rangeEnd startRev, atRev ≤ startRev ->
          getFromRev (compact (build ops) atRev).1 key rangeEnd startRev =
            getFromRev (build ops) key rangeEnd startRev) ∧
        ((compact (build ops) atRev).2 ++ (compact (build ops) atRev).1.toList.flatMap Prod.snd).Perm
          ((build ops).toList.flatMap Prod.snd) ∧
        (forall rev, rev ∈ (compact (build ops) atRev).2 ->
          rev.asRevision ∉ keep (build ops) atRev)) ↔
      forall rev, DeadAt (build ops) atRev rev ->
        rev.modRevision ≠ atRev ∧ ¬ LiveAt (build ops) atRev rev.asRevision := by
  have sound := sound_build inOrder
  constructor
  · rintro ⟨_, watches, _, disjoint⟩ rev isDead
    refine ⟨(getFromRev_compact_iff sound).mp watches rev isDead, ?_⟩
    rw [← mem_keep sound]
    exact disjoint rev ((mem_compact_removed sound rev).mpr isDead)
  intro quiet
  refine ⟨fun key rangeEnd rev readable => get_compact sound key rangeEnd readable,
    (getFromRev_compact_iff sound).mpr fun rev isDead => (quiet rev isDead).1,
    removed_append_left_perm sound, ?_⟩
  intro rev removed
  rw [mem_keep sound]
  exact (quiet rev ((mem_compact_removed sound rev).mp removed)).2

/-- Two writes of one key. -/
def twoWrites : List Op := [.registerRevision [1] 2 0, .registerRevision [1] 4 0]

theorem compact_preserves_history_iff_two_writes :
    (compact (build twoWrites) 5).2 = [⟨2, 1, 2, 0⟩] ∧
      forall key rangeEnd startRev, (5 : Int) ≤ startRev ->
        getFromRev (compact (build twoWrites) 5).1 key rangeEnd startRev =
          getFromRev (build twoWrites) key rangeEnd startRev := by
  have inOrder : twoWrites.Pairwise fun earlier later => earlier.revision ≤ later.revision := by
    unfold twoWrites
    decide
  have sound := sound_build inOrder
  have removed : (compact (build twoWrites) 5).2 = [⟨2, 1, 2, 0⟩] := by decide +kernel
  refine ⟨removed, ((compact_preserves_history_iff twoWrites inOrder 5).mpr ?_).2.1⟩
  intro rev isDead
  rw [← mem_compact_removed sound, removed, mem_singleton] at isDead
  rw [isDead, ← mem_keep sound]
  decide +kernel

/-- A key is written at revision 2 and deleted at revision 3, and the store is
compacted at 3.  A watch from revision 3 is accepted, and it no longer finds the
deletion. -/
theorem compact_hides_deletion :
    getFromRev (build [.registerRevision [1] 2 0, .delete [1] [] 3 0]) [1] [] 3 = [⟨3, 0⟩] ∧
      getFromRev (compact (build [.registerRevision [1] 2 0, .delete [1] [] 3 0]) 3).1 [1] [] 3 =
        [] := by
  decide +kernel

end Rk8s.Xline.Storage.Index
