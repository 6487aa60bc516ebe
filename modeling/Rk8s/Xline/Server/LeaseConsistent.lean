import Rk8s.Xline.Server.Runs
import Rk8s.Xline.Storage.LeaseLinks

namespace Rk8s.Xline

open Transition List Option
variable {id : Int}

namespace Storage

open Std Multimap

/-!
# Attachments agree with the stored records

Which lease a key is attached to is stored in the lease collection, and again in
the record of the latest version of the key.  A put takes the lease of the
record from the previous record if it is to ignore the lease of the request, but
attaches the key to the lease of the request all the same.  Apart from such
puts, and from puts that name a lease that does not exist, the two agree.
-/

variable {deletions : List Deletion} {after batch start : Batch} {key : Key}
  {revision : Int} {done : List Leaf}

section Versions

theorem Batch.modRevision_nextRev : (batch.nextRev key revision).modRevision = revision := by
  unfold Batch.nextRev Index.nextRev
  split
  · rfl
  · split <;> rfl

theorem Batch.subRevision_nextRev :
    (batch.nextRev key revision).subRevision = batch.subRevision := by
  unfold Batch.nextRev Index.nextRev
  split
  · rfl
  · split <;> rfl

/-- Versions are counted from one, so that a put is never taken for a tombstone. -/
def Batch.Counted (batch : Batch) : Prop :=
  forall key rev, rev ∈ batch.revs key -> rev.isDeleted = false -> 1 ≤ rev.version

/-- The versions of a key after a deletion are the old ones and tombstones. -/
theorem Batch.mem_revs_remove {rev : KeyRevision}
    (member : rev ∈ (batch.remove deletions).revs key) :
    rev ∈ batch.revs key ∨ ∃ deletion ∈ deletions, rev = IndexState.tombstone deletion := by
  rw [Batch.revs_remove, mem_append, mem_append] at member
  rcases member with old | new | new
  · exact .inl old
  all_goals
    obtain ⟨deletion, isDeletion, rfl⟩ := mem_map.mp new
    exact .inr ⟨deletion, (mem_filter.mp isDeletion).1, rfl⟩

variable (counted : batch.Counted)
include counted

theorem Batch.Counted.version_nextRev (key : Key) (revision : Int) :
    1 ≤ (batch.nextRev key revision).version := by
  unfold Batch.nextRev Index.nextRev
  split
  · exact Int.le_refl 1
  next last isLast =>
  split
  · exact Int.le_refl 1
  · next kept =>
    have before := counted key last (mem_of_getLast? isLast) (by simpa using kept)
    show 1 ≤ last.version + 1
    omega

theorem Batch.Counted.isDeleted_nextRev (key : Key) (revision : Int) :
    (batch.nextRev key revision).isDeleted = false := by
  have version := counted.version_nextRev key revision
  have nonzero : (batch.nextRev key revision).version ≠ 0 := by omega
  simp [KeyRevision.isDeleted, nonzero]

theorem Batch.Counted.put (req : PutRequest) (kv : KeyValue) :
    (batch.put req revision kv).Counted := by
  intro key rev member kept
  rw [Batch.revs_put] at member
  split at member
  · rcases mem_append.mp member with old | new
    · exact counted key rev old kept
    · rw [mem_singleton.mp new]
      exact counted.version_nextRev req.key revision
  · exact counted key rev member kept

theorem Batch.Counted.remove (deletions : List Deletion) :
    (batch.remove deletions).Counted := by
  intro key rev member kept
  rcases Batch.mem_revs_remove member with old | ⟨deletion, _, rfl⟩
  · exact counted key rev old kept
  · cases kept

end Versions

/-- The record of the latest version of a live key. -/
def KvStore.latest (store : KvStore) (key : Key) : Option KeyValue :=
  (Index.getRevision (store.index[key]?.getD []) 0).bind fun rev => store.kvTable[rev]?

/-- A key is attached to a lease exactly if it is in the key set of the lease,
and exactly if its stored record carries the lease. -/
def KvStore.LeasesConsistent (store : KvStore) : Prop :=
  forall (key : Key) (id : Int),
    (store.leases.itemMap[key]? = some id ↔ store.leases.Holds id key) ∧
      (store.leases.itemMap[key]? = some id ↔
        id ≠ 0 ∧ Exists fun kv => store.latest key = some kv ∧ kv.lease = id)

namespace Batch

variable {req : PutRequest} {kv : KeyValue}

def latest (batch : Batch) (key : Key) : Option KeyValue :=
  (Index.getRevision (batch.revs key) 0).bind batch.record

/-- The record of the latest version, a tombstone or not. -/
def prevRecord (batch : Batch) (key : Key) : Option KeyValue :=
  (batch.prevRev key).bind batch.record

theorem latest_eq (batch : Batch) (key : Key) :
    batch.latest key =
      (batch.revs key).getLast?.bind fun rev =>
        if rev.isDeleted then none else batch.record rev.asRevision := by
  unfold latest
  rw [Index.getRevision_latest (Int.le_refl 0)]
  cases (batch.revs key).getLast? with
  | none => rfl
  | some rev => cases deleted : rev.isDeleted <;> simp [Index.visible, Option.filter, deleted]

theorem latest_batch (store : KvStore) (key : Key) : store.batch.latest key = store.latest key := by
  have record : store.batch.record = fun rev => store.kvTable[rev]? := by
    funext rev
    simp [Batch.record, KvStore.batch]
  have revs : store.batch.revs key = store.index[key]?.getD [] := by
    simp [Batch.revs, IndexState.oneKeyRevisions_eq, indexState, KvStore.batch, valuesOf]
  unfold latest KvStore.latest
  rw [record, revs]

/-- What holds while the changes of a command are made. -/
structure LeaseInv (batch : Batch) : Prop where
  wellFormed : batch.indexState.WellFormed
  counted : batch.Counted
  -- Puts are numbered below the next change, so that no record of one is overwritten.
  below : forall key rev, rev ∈ batch.revs key -> rev.isDeleted = false ->
    rev.modRevision ≤ batch.nextRevision ∨
      rev.modRevision = batch.nextRevision + 1 ∧ rev.subRevision < batch.subRevision
  recent : forall key rev, rev ∈ batch.revs key -> rev.modRevision ≤ batch.nextRevision + 1
  linked : batch.store.leases.Linked
  carried : forall (key : Key) (id : Int), batch.store.leases.itemMap[key]? = some id ↔
    id ≠ 0 ∧ Exists fun kv => batch.latest key = some kv ∧ kv.lease = id

/-- Between commands no version is newer than the revision. -/
structure LeaseSettled (batch : Batch) : Prop extends LeaseInv batch where
  settled : forall key rev, rev ∈ batch.revs key -> rev.modRevision ≤ batch.nextRevision

/-- The latest record of a live key is not the one that a change overwrites. -/
theorem LeaseInv.latest_congr (inv : batch.LeaseInv) (sameRevs : after.revs key = batch.revs key)
    (sameRecord : ∀ rev : Revision,
      rev.revision ≤ batch.nextRevision ∨
        rev.revision = batch.nextRevision + 1 ∧ rev.subRevision < batch.subRevision ->
      after.record rev = batch.record rev) :
    after.latest key = batch.latest key := by
  rw [latest_eq, latest_eq, sameRevs]
  cases last : (batch.revs key).getLast? with
  | none => rfl
  | some rev =>
    cases deleted : rev.isDeleted with
    | true => simp [deleted]
    | false =>
      have below := inv.below key rev (mem_of_getLast? last) deleted
      simp [sameRecord rev.asRevision below]

theorem latest_put (counted : batch.Counted) (req : PutRequest) (kv : KeyValue) :
    (batch.put req revision kv).latest req.key = some kv := by
  rw [latest_eq, revs_put, if_pos rfl, getLast?_concat, bind_some,
    counted.isDeleted_nextRev, record_put, if_pos rfl]
  rfl

theorem LeaseInv.put (inv : batch.LeaseInv) (isNext : revision = batch.nextRevision + 1)
    (known : req.lease = 0 ∨ batch.store.leases.containsLease req.lease = true)
    (carries : kv.lease = req.lease) : (batch.put req revision kv).LeaseInv where
  wellFormed := inv.wellFormed.extend (by simp)
  counted := inv.counted.put req kv
  below := by
    intro key rev member kept
    show rev.modRevision ≤ batch.nextRevision ∨
      rev.modRevision = batch.nextRevision + 1 ∧ rev.subRevision < batch.subRevision + 1
    have old (member : rev ∈ batch.revs key) := inv.below key rev member kept
    rw [revs_put] at member
    split at member
    · rcases mem_append.mp member with member | new
      · have bound := old member
        omega
      · rw [mem_singleton.mp new, modRevision_nextRev, subRevision_nextRev]
        omega
    · have bound := old member
      omega
  recent := by
    intro key rev member
    show rev.modRevision ≤ batch.nextRevision + 1
    rw [revs_put] at member
    split at member
    · rcases mem_append.mp member with member | new
      · exact inv.recent key rev member
      · rw [mem_singleton.mp new, modRevision_nextRev]
        omega
    · exact inv.recent key rev member
  linked := (inv.linked.attachLease req.key known).linked
  carried := by
    intro key id
    have moved := inv.linked.attachLease req.key known
    rw [show (batch.put req revision kv).store.leases.itemMap[key]? = _ from moved.item_eq key]
    by_cases same : req.key = key
    · subst same
      rw [if_pos rfl, latest_put inv.counted]
      simp only [some.injEq, exists_eq_left', carries]
      by_cases zero : req.lease = 0
      · simp [zero, eq_comm]
      · simp only [if_neg zero, some.injEq]
        exact ⟨fun isLease => ⟨isLease ▸ zero, isLease⟩, fun isLease => isLease.2⟩
    have revs : (batch.put req revision kv).revs key = batch.revs key := by
      rw [revs_put, if_neg same]
    rw [if_neg same, inv.carried, inv.latest_congr revs]
    intro rev below
    rw [record_put, if_neg]
    rintro rfl
    simp only [KeyRevision.asRevision, modRevision_nextRev, subRevision_nextRev] at below
    omega

/-- A deleted key has no latest record. -/
theorem latest_remove_of_mem (member : key ∈ deletions.map Prod.snd) :
    (batch.remove deletions).latest key = none := by
  obtain ⟨deletion, isDeletion, isKey⟩ := mem_map.mp member
  have some : (deletions.filter fun deletion => deletion.2 = key).map IndexState.tombstone ≠ [] := by
    have there : deletion ∈ deletions.filter fun deletion => deletion.2 = key :=
      mem_filter.mpr ⟨isDeletion, by simpa using isKey⟩
    intro empty
    rw [map_eq_nil_iff.mp empty] at there
    cases there
  obtain ⟨front, last, isLast⟩ := (eq_nil_or_concat _).resolve_left some
  have dead : last.isDeleted = true := by
    have there : last ∈ (deletions.filter fun deletion => deletion.2 = key).map
        IndexState.tombstone := by simp [isLast]
    obtain ⟨other, _, rfl⟩ := mem_map.mp there
    rfl
  rw [latest_eq, revs_remove, isLast, concat_eq_append, ← append_assoc,
    ← append_assoc, getLast?_concat, bind_some, if_pos dead]

theorem LeaseInv.remove (inv : batch.LeaseInv) {rangeEnd : Key}
    (isNext : revision = batch.nextRevision + 1)
    (deletes : batch.Deletes key rangeEnd revision deletions) :
    (batch.remove deletions).LeaseInv where
  wellFormed := (inv.wellFormed.bury deletions).bury deletions
  counted := inv.counted.remove deletions
  below := by
    intro other rev member kept
    rcases mem_revs_remove member with old | ⟨_, _, rfl⟩
    · have bound := inv.below other rev old kept
      show rev.modRevision ≤ batch.nextRevision ∨
        rev.modRevision = batch.nextRevision + 1 ∧
          rev.subRevision < batch.subRevision + deletions.length
      omega
    · cases kept
  recent := by
    intro other rev member
    show rev.modRevision ≤ batch.nextRevision + 1
    rcases mem_revs_remove member with old | ⟨deletion, isDeletion, rfl⟩
    · exact inv.recent other rev old
    · have bound := (deletes.bounds deletion isDeletion).1
      show deletion.1.2.revision ≤ _
      omega
  linked := (inv.linked.detachLeases (deletions.map Prod.snd)).1
  carried := by
    intro other id
    have items := (inv.linked.detachLeases (deletions.map Prod.snd)).2.1 other
    rw [show (batch.remove deletions).store.leases.itemMap[other]? = _ from items]
    by_cases member : other ∈ deletions.map Prod.snd
    · simp [if_pos member, latest_remove_of_mem member]
    rw [if_neg member, inv.carried, inv.latest_congr (revs_remove_of_notMem member)]
    intro rev below
    refine record_remove_of_ne fun deletion isDeletion => ?_
    rintro rfl
    have bound := deletes.bounds deletion isDeletion
    omega

/-- The lease of the record that a put writes. -/
theorem inherit_lease {before : KeyValue}
    (inherited : batch.inherit req (batch.prevRev req.key) before = .ok kv) :
    (req.ignoreLease = true ∧ ∃ prev,
      batch.prevRecord req.key = some prev ∧ kv.lease = prev.lease) ∨
    req.ignoreLease = false ∧ kv.lease = before.lease := by
  unfold inherit at inherited
  split at inherited
  · cases known : batch.prevRev req.key with
    | none => simp [known] at inherited
    | some rev =>
      cases record : batch.record rev with
      | none => simp [known, getValues, record] at inherited
      | some prev =>
        simp only [known, getValues, filterMap_cons, record, filterMap_nil,
          getLast?_singleton, Except.ok.injEq] at inherited
        subst inherited
        cases ignores : req.ignoreLease with
        | true => exact .inl ⟨rfl, prev, by simp [prevRecord, known, record], by simp⟩
        | false => exact .inr ⟨rfl, by simp⟩
  · next keeps =>
    cases inherited
    refine .inr ⟨?_, rfl⟩
    cases ignores : req.ignoreLease with
    | true => exact absurd (.inl ignores) keeps
    | false => rfl

end Batch

/-- The change concerns the key. -/
def touches : Leaf -> Key -> Bool
  | .put first, key => first == key
  | .delete first rangeEnd, key => covers first rangeEnd key

/-- A put names no lease or one that exists.  If it is to ignore the lease, the
previous record of the key, which no earlier change of the command concerns,
carries the lease of the request. -/
def keepsLease (start : Batch) (done : List Leaf) (req : PutRequest) : Prop :=
  (req.lease = 0 ∨ start.store.leases.containsLease req.lease = true) ∧
    (req.ignoreLease = true ->
      (forall leaf, leaf ∈ done -> touches leaf req.key = false) ∧
        (start.prevRecord req.key).all (fun prev => prev.lease = req.lease) = true)
deriving Decidable

section Rules

/-- What holds while a command that began in `start` makes its changes. -/
structure Batch.LeaseInside (start : Batch) (done : List Leaf) (batch : Batch) : Prop
    extends batch.LeaseInv where
  next : batch.nextRevision = start.nextRevision
  contains : forall id, batch.store.leases.containsLease id = start.store.leases.containsLease id
  untouched : forall key, (forall leaf, leaf ∈ done -> touches leaf key = false) ->
    batch.revs key = start.revs key ∧ batch.prevRecord key = start.prevRecord key

/-- The previous record of a key is not overwritten by the command. -/
theorem Batch.LeaseSettled.prevRecord_congr (settled : start.LeaseSettled)
    (sameRevs : after.revs key = batch.revs key)
    (before : batch.revs key = start.revs key ∧ batch.prevRecord key = start.prevRecord key)
    (sameRecord : ∀ rev : Revision, rev.revision ≤ start.nextRevision ->
      after.record rev = batch.record rev) :
    after.revs key = start.revs key ∧ after.prevRecord key = start.prevRecord key := by
  refine ⟨sameRevs.trans before.1, Eq.trans ?_ before.2⟩
  simp only [Batch.prevRecord, Batch.prevRev, sameRevs]
  cases last : (batch.revs key).getLast? with
  | none => rfl
  | some rev =>
    have member : rev ∈ start.revs key := before.1 ▸ mem_of_getLast? last
    exact sameRecord rev.asRevision (settled.settled key rev member)

theorem Batch.LeaseSettled.rule (settled : start.LeaseSettled) :
    Rule (keepsLease start) (fun _ _ => True) (start.nextRevision + 1)
      (Batch.LeaseInside start) where
  wellFormed done batch inside := inside.wellFormed
  weaken done more batch within inside :=
    { inside with
      untouched := fun key free => inside.untouched key fun leaf member =>
        free leaf (within member) }
  put done batch req kv inside keeps inherited := by
    have carries : kv.lease = req.lease := by
      rcases Batch.inherit_lease inherited with ⟨ignores, prev, isPrev, equal⟩ | ⟨_, equal⟩
      · obtain ⟨free, same⟩ := keeps.2 ignores
        rw [← (inside.untouched req.key free).2, isPrev] at same
        rw [equal]
        simpa using same
      · exact equal
    have known : req.lease = 0 ∨ batch.store.leases.containsLease req.lease = true := by
      rw [inside.contains]
      exact keeps.1
    have isNext : start.nextRevision + 1 = batch.nextRevision + 1 := by rw [inside.next]
    refine { inside.toLeaseInv.put isNext known carries with
      next := inside.next, contains := fun id => ?_, untouched := fun key free => ?_ }
    · exact ((inside.linked.attachLease req.key known).contains_eq id).trans (inside.contains id)
    have different : req.key ≠ key := by
      simpa [touches] using free (.put req.key) (by simp)
    refine settled.prevRecord_congr (by rw [Batch.revs_put, if_neg different])
      (inside.untouched key fun leaf member => free leaf (by simp [member])) fun rev old => ?_
    rw [Batch.record_put, if_neg]
    rintro rfl
    simp only [KeyRevision.asRevision, Batch.modRevision_nextRev] at old
    omega
  delete done batch req deletions inside _ deletes := by
    have isNext : start.nextRevision + 1 = batch.nextRevision + 1 := by rw [inside.next]
    refine { inside.toLeaseInv.remove isNext deletes with
      next := inside.next, contains := fun id => ?_, untouched := fun key free => ?_ }
    · exact ((inside.linked.detachLeases _).2.2 id).trans (inside.contains id)
    have uncovered : covers req.key req.rangeEnd key = false :=
      free (.delete req.key req.rangeEnd) (by simp)
    have absent : key ∉ deletions.map Prod.snd := by
      rw [deletes.mem_iff, uncovered]
      simp
    refine settled.prevRecord_congr (Batch.revs_remove_of_notMem absent)
      (inside.untouched key fun leaf member => free leaf (by simp [member])) fun rev old => ?_
    refine Batch.record_remove_of_ne fun deletion isDeletion => ?_
    rintro rfl
    have bound := (deletes.bounds deletion isDeletion).1
    omega

end Rules

namespace Batch

theorem LeaseSettled.fresh (settled : start.LeaseSettled) : start.fresh.LeaseSettled :=
  { settled with
    below := fun key rev member _ => .inl (settled.settled key rev member) }

theorem LeaseSettled.enter (settled : start.LeaseSettled) : start.LeaseInside [] start.fresh :=
  { settled.fresh.toLeaseInv with
    next := rfl
    contains := fun _ => rfl
    untouched := fun _ _ => ⟨rfl, rfl⟩ }

theorem LeaseInv.advance (inv : batch.LeaseInv) (updates : List (Int × List Event)) :
    (batch.advance updates).LeaseSettled where
  wellFormed := inv.wellFormed
  counted := inv.counted
  below := fun key rev member _ => .inl (inv.recent key rev member)
  recent := by
    intro key rev member
    have bound := inv.recent key rev member
    show rev.modRevision ≤ batch.nextRevision + 1 + 1
    omega
  linked := inv.linked
  carried := inv.carried
  settled := inv.recent

theorem latest_commit (batch : Batch) (key : Key) :
    batch.commit.batch.latest key = batch.latest key := by
  have record : batch.commit.batch.record = batch.record := funext batch.record_commit
  unfold latest
  rw [revs_commit, record]

theorem LeaseSettled.commit (settled : batch.LeaseSettled) : batch.commit.batch.LeaseSettled where
  wellFormed := IndexState.wellFormed_new _
  counted := fun key rev member => settled.counted key rev (revs_commit ▸ member)
  below := fun key rev member _ => .inl (settled.settled key rev (revs_commit ▸ member))
  recent := fun key rev member => settled.recent key rev (revs_commit ▸ member)
  linked := settled.linked
  carried := by
    intro key id
    rw [latest_commit]
    exact settled.carried key id
  settled := fun key rev member => settled.settled key rev (revs_commit ▸ member)

theorem LeaseSettled.granted (settled : batch.LeaseSettled) (ttl : Int)
    (unused : batch.store.leases.containsLease id = false) :
    (batch.granted id ttl).LeaseSettled :=
  { settled with linked := settled.linked.grant unused ttl }

theorem LeaseInv.revoked (inv : batch.LeaseInv)
    (empty : ∀ key, ¬ batch.store.leases.Holds id key) : (batch.revoked id).LeaseInv :=
  { inv with linked := inv.linked.revoke empty }

/-- What holds while the keys of a lease are deleted; those that the lease still
holds are to come. -/
structure Revoking (id next : Int) (keys : List Key) (batch : Batch) : Prop
    extends batch.LeaseInv where
  isNext : batch.nextRevision = next
  old : forall key rev, rev ∈ batch.revs key -> rev.isDeleted = false ->
    rev.modRevision ≤ batch.nextRevision
  left : forall key, batch.store.leases.Holds id key -> key ∈ keys

theorem Revoking.remove {next : Int} {keys : List Key} {position : Int}
    (revoking : batch.Revoking id next (key :: keys))
    (deletes : (batch.atPosition position).Deletes key [] (next + 1) deletions) :
    ((batch.atPosition position).remove deletions).Revoking id next keys := by
  have inv : (batch.atPosition position).LeaseInv :=
    { revoking.toLeaseInv with
      below := fun key rev member kept => .inl (revoking.old key rev member kept) }
  have isNext : next + 1 = (batch.atPosition position).nextRevision + 1 := by
    rw [← revoking.isNext]
    rfl
  refine { inv.remove isNext deletes with
    isNext := revoking.isNext, old := fun other rev member kept => ?_, left := fun other held => ?_ }
  · rcases mem_revs_remove member with there | ⟨_, _, rfl⟩
    · exact revoking.old other rev there kept
    · cases kept
  have detached := inv.linked.detachLeases (deletions.map Prod.snd)
  have item := (detached.1.item_iff other id).mpr held
  rw [detached.2.1] at item
  split at item
  · cases item
  next kept =>
  have before := (inv.linked.item_iff other id).mp item
  rcases mem_cons.mp (revoking.left other before) with rfl | later
  swap
  · exact later
  -- A key of the lease is live, so it has been deleted.
  obtain ⟨_, kv, isLatest, _⟩ := (inv.carried other id).mp item
  refine absurd ((deletes.mem_iff other).mpr ⟨?_, ?_⟩) kept
  · simp [covers, RangeType.getRangeType, oneKey]
  show IndexState.live _ other = true
  unfold IndexState.live
  unfold latest at isLatest
  cases found : Index.getRevision
      ((batch.atPosition position).indexState.oneKeyRevisions other) 0 with
  | none =>
    rw [show Index.getRevision ((batch.atPosition position).revs other) 0 = none
      from found] at isLatest
    cases isLatest
  | some _ => rfl

end Batch

end Storage

namespace Server

open Storage

/-- The commands in question: no compactions, and leases are granted under ids
that are not in use. -/
def leaseCommand (batch : Batch) (c : AfterSyncCmd) : Prop :=
  match c.cmd.request with
  | .kv (.compaction _) => False
  | .lease (.grant id _) => batch.store.leases.containsLease id = false
  | _ => True

/-- The puts of the command keep the lease of the record. -/
def carriesLease (batch : Batch) (c : AfterSyncCmd) : Prop :=
  match c.cmd.request with
  | .kv req => KvRequest.Obeys (keepsLease batch) (fun _ _ => True) (fun _ => True) req
  | _ => True

instance (batch : Batch) (c : AfterSyncCmd) : Decidable (leaseCommand batch c) := by
  unfold leaseCommand
  split <;> infer_instance

instance (batch : Batch) (c : AfterSyncCmd) : Decidable (carriesLease batch c) := by
  unfold carriesLease
  split <;> infer_instance

variable {order : SetOrder} {c : AfterSyncCmd}

theorem leaseSettled_syncLease {req : LeaseRequest} {batch final : Batch} {revision : Int}
    (settled : batch.LeaseSettled)
    (unused : ∀ id ttl, req = .grant id ttl -> batch.store.leases.containsLease id = false)
    (ran : syncLeaseRequest order req batch = (.ok revision, final)) : final.LeaseSettled := by
  have fresh := settled.fresh
  rcases syncLeaseRequest_ok ran with ⟨id, ttl, rfl, rfl⟩ | ⟨id, lease, rfl, known, rest⟩
  · exact fresh.granted ttl (unused id ttl rfl)
  have held (key : Key) (holds : batch.store.leases.Holds id key) : key ∈ lease.keys order := by
    obtain ⟨other, isLease, member⟩ := holds
    obtain rfl : lease = other := some.inj (known.symm.trans isLease)
    exact (Lease.mem_keys order).mpr member
  rcases rest with ⟨empty, rfl⟩ | ⟨events, inner, updates, deleted, rfl⟩
  · refine { fresh.toLeaseInv.revoked fun key holds => ?_ with settled := fresh.settled }
    have member := held key holds
    rw [empty] at member
    cases member
  have revoking : (batch.fresh.withLeaseOp (.deleteLease id)).Revoking id batch.nextRevision
      (lease.keys order) :=
    { fresh.toLeaseInv with
      isNext := rfl
      old := fun key rev member _ => settled.settled key rev member
      left := held }
  have after := revokeKeys_keeps (fun _ _ _ _ _ before deletes => before.remove deletes)
    (lease.keys order) 0 _ _ _ revoking deleted
  exact (after.toLeaseInv.revoked fun key holds => by
    cases after.left key holds).advance updates

/-- A revoked lease is not in the collection. -/
theorem containsLease_revoked (revokes : c.cmd.request = .lease (.revoke id))
    (round : Round) (result : Int × Option CommandResponse) (next : Round)
    (ran : round.apply order c = (.ok result, next)) :
    next.kv.store.leases.containsLease id = false := by
  rcases apply_ok ran with ⟨req, isReq, _⟩ | ⟨req, isReq, _, revision, synced⟩ | ⟨other, _⟩
  · rw [revokes] at isReq
    cases isReq
  · rw [revokes] at isReq
    cases isReq
    have erased (leases : LeaseCollection) : (leases.revoke id).containsLease id = false := by
      rw [LeaseCollection.containsLease_eq]
      simp [LeaseCollection.revoke]
    rcases syncLeaseRequest_ok synced with ⟨_, _, isGrant, _⟩ | ⟨_, _, isRevoke, _, rest⟩
    · cases isGrant
    cases isRevoke
    rcases rest with ⟨_, final⟩ | ⟨_, _, _, _, final⟩
    · rw [final]
      exact erased _
    · rw [final]
      exact erased _
  · exact absurd revokes (other _)

theorem leaseSettled_initial (minTtl : Int) :
    ({ leases := { minTtl } } : KvStore).batch.LeaseSettled := by
  have noRevs (key : Key) : ({ leases := { minTtl } } : KvStore).batch.revs key = [] := by
    simp [Batch.revs, IndexState.oneKeyRevisions, Batch.indexState, KvStore.batch]
  have noLatest (key : Key) : ({ leases := { minTtl } } : KvStore).batch.latest key = none := by
    rfl
  have none {statement : Key -> KeyRevision -> Prop} (key : Key) (rev : KeyRevision)
      (member : rev ∈ ({ leases := { minTtl } } : KvStore).batch.revs key) :
      statement key rev := by
    cases member
  refine ⟨⟨IndexState.wellFormed_new _, none, none, none, ⟨fun key id => ?_, fun key id item => ?_⟩,
    fun key id => ?_⟩, none⟩
  · simp [LeaseCollection.Holds, KvStore.batch]
  · simp [KvStore.batch] at item
  · rw [noLatest]
    simp [KvStore.batch]

theorem containsLease_of_last {meets : CommandExecutor -> BatchCall -> Prop}
    {start final : CommandExecutor} {calls front : List BatchCall} {call : BatchCall}
    (run : Run (CommandExecutor.step order) meets start calls final)
    (isCalls : calls = front ++ [call]) (isLast : call.cmds.getLast? = some c)
    (gone : ∀ (round : Round) result (next : Round),
      round.apply order c = (.ok result, next) -> next.kv.store.leases.containsLease id = false) :
    final.kv.leases.containsLease id = false := by
  cases run with
  | nil => simp at isCalls
  | snoc before met taken =>
    obtain ⟨_, same⟩ := append_inj' isCalls rfl
    obtain rfl := (singleton_inj.mp same).symm
    have some : call.cmds ≠ [] := by
      intro empty
      simp [empty] at isLast
    simp only [CommandExecutor.step, CommandExecutor.afterSync, if_neg some] at taken
    split at taken
    · next allOk =>
      rw [← Option.some.inj taken]
      exact applyAll_last (fun batch => batch.store.leases.containsLease id = false) gone _
        call.cmds _ isLast allOk
    · cases taken

/-- In every run of batches of puts, deletions, transactions, lease grants of
unused ids and lease revocations that succeed, the attachments are consistent,
if the puts keep the lease of the record.  After a revocation no live key
carries the lease. -/
theorem leases_consistent (order : SetOrder) (minTtl : Int) (calls : List BatchCall)
    (final : CommandExecutor)
    (run : Run (CommandExecutor.step order)
      (CommandExecutor.meetsEach order fun batch c => leaseCommand batch c ∧ carriesLease batch c)
      { kv := { leases := { minTtl } } } calls final) :
    final.kv.LeasesConsistent ∧
      forall front call c id, calls = front ++ [call] -> call.cmds.getLast? = some c ->
        c.cmd.request = .lease (.revoke id) -> id ≠ 0 ->
        forall key kv, final.kv.latest key = some kv -> kv.lease ≠ id := by
  have settled : final.kv.batch.LeaseSettled := by
    refine run_keeps ?_ (fun _ => Batch.LeaseSettled.commit) (leaseSettled_initial minTtl) run
    intro round c result next settled met ran
    obtain ⟨allowed, carries⟩ := met
    rcases apply_ok ran with ⟨req, isReq, answer, synced⟩ | ⟨req, isReq, _, revision, synced⟩ |
      ⟨_, same⟩
    · have obeys : KvRequest.Obeys (keepsLease round.kv) (fun _ _ => True) (fun _ => False) req := by
        simp only [carriesLease, leaseCommand, isReq] at carries allowed
        cases req with
        | compaction revision => exact allowed
        | _ => exact carries
      exact syncRequest_keeps settled.rule obeys settled.enter settled.fresh
        (fun _ _ updates inside => inside.toLeaseInv.advance updates)
        (fun _ impossible => impossible.elim) synced
    · refine leaseSettled_syncLease settled (fun id ttl isGrant => ?_) synced
      simpa only [leaseCommand, isReq, isGrant] using allowed
    · rw [same]
      exact settled
  have consistent : final.kv.LeasesConsistent := by
    intro key id
    rw [← Batch.latest_batch]
    exact ⟨settled.linked.item_iff key id, settled.carried key id⟩
  refine ⟨consistent, fun front call c id isCalls isLast revokes nonzero key kv isLatest => ?_⟩
  rintro rfl
  have held := (consistent key kv.lease).1.mp
    ((consistent key kv.lease).2.mpr ⟨nonzero, kv, isLatest, rfl⟩)
  have gone := containsLease_of_last run isCalls isLast (containsLease_revoked revokes)
  obtain ⟨lease, there, _⟩ := held
  rw [LeaseCollection.containsLease_eq, there] at gone
  cases gone

/-- Two keys, one of them attached to a lease.  The other is put again with its
lease ignored, and the lease is revoked. -/
def revokedLease : List BatchCall :=
  [⟨[.ofRequest (.lease (.grant 5 60)), .ofRequest (.kv (.put { key := [1], lease := 5 })),
      .ofRequest (.kv (.put { key := [2] }))], some 1⟩,
    ⟨[.ofRequest (.kv (.put { key := [2], value := [7], ignoreLease := true })),
      .ofRequest (.lease (.revoke 5))], some 2⟩]

theorem leases_consistent_revoked_lease :
    Exists fun final : CommandExecutor =>
      final.kv.latest [1] = none ∧ (final.kv.latest [2]).map KeyValue.value = some [7] ∧
        final.kv.LeasesConsistent := by
  obtain ⟨final, run, gone, kept⟩ : ∃ final,
      Run (CommandExecutor.step keyOrder) (CommandExecutor.meetsEach keyOrder
        fun batch c => leaseCommand batch c ∧ carriesLease batch c)
        { kv := { leases := { minTtl := 1 } } } revokedLease final ∧
        final.kv.latest [1] = none ∧ (final.kv.latest [2]).map KeyValue.value = some [7] :=
    exists_run (by decide +kernel)
  exact ⟨final, gone, kept, (leases_consistent keyOrder 1 revokedLease final run).1⟩

/-- A key attached to a lease is put again with its lease ignored. -/
def ignoredLease : List BatchCall :=
  [⟨[.ofRequest (.lease (.grant 5 60)), .ofRequest (.kv (.put { key := [1], lease := 5 })),
      .ofRequest (.kv (.put { key := [1], value := [7], ignoreLease := true }))], some 1⟩]

/-- The record carries the lease, and the key is no longer attached to it. -/
theorem ignored_lease_detaches_key :
    Exists fun final : CommandExecutor =>
      Run (CommandExecutor.step keyOrder)
          (CommandExecutor.meetsEach keyOrder leaseCommand)
          { kv := { leases := { minTtl := 1 } } } ignoredLease final ∧
        ¬ final.kv.LeasesConsistent := by
  refine exists_run_of (fun final => final.kv.leases.itemMap[([1] : Key)]? = none ∧
    (final.kv.latest [1]).map KeyValue.lease = some 5) (by decide +kernel) ?_
  rintro final run ⟨detached, carried⟩ consistent
  obtain ⟨kv, isLatest, isLease⟩ := map_eq_some_iff.mp carried
  have attached := (consistent [1] 5).2.mpr ⟨by decide, kv, isLatest, isLease⟩
  rw [detached] at attached
  cases attached

end Server
end Rk8s.Xline
