import Rk8s.Lib.Fallible
import Rk8s.Xline.Api.Conflicts
import Rk8s.Xline.Storage.IndexCommit
import Rk8s.Xline.Storage.LeaseStore

namespace Rk8s.Xline.Storage

open IndexState Std Multimap Effect List Ensures Prod Storage

/-!
# What an applied request does to a batch

A request that succeeds has put keys and deleted ranges of keys, one after the
other.  The two changes are stated once, as functions on batches, together with
a rule: what both changes keep is kept by every request.
-/

namespace Batch

variable (batch : Batch)

/-- The revisions of a key, those of the index and those of the batch. -/
def revs (key : Key) : List KeyRevision := batch.indexState.oneKeyRevisions key

/-- The latest version of the key is not a tombstone. -/
def live (batch : Batch) (key : Key) : Bool := batch.indexState.live key

/-- The revision that the next put of the key gets. -/
def nextRev (batch : Batch) (key : Key) (revision : Int) : KeyRevision :=
  Index.nextRev (batch.revs key) revision batch.subRevision

/-- The latest revision of the key, a tombstone or not. -/
def prevRev (key : Key) : Option Revision :=
  (batch.revs key).getLast?.map KeyRevision.asRevision

/-- A put that wrote the record `kv`. -/
def put (req : PutRequest) (revision : Int) (kv : KeyValue) : Batch where
  store :=
    { batch.store with leases := attachLease batch.store.leases req.key req.lease }
  state := extend batch.state req.key [batch.nextRev req.key revision]
  puts := batch.puts.insert (batch.nextRev req.key revision).asRevision kv
  leaseOps := batch.leaseOps
  nextRevision := batch.nextRevision
  subRevision := batch.subRevision + 1

/-- A deletion that found the given keys. -/
def bury (batch : Batch) (deletions : List Deletion) : Batch where
  store := batch.store
  state := (IndexState.bury deletions (IndexState.bury deletions batch.indexState)).state
  puts := (markDeletions deletions).1.foldl (fun puts op => puts.insert op.1 op.2) batch.puts
  leaseOps := batch.leaseOps
  nextRevision := batch.nextRevision
  subRevision := batch.subRevision + deletions.length

def withLeases (leases : LeaseCollection) : Batch :=
  { batch with store := { batch.store with leases } }

/-- A deletion of the given keys, with their leases. -/
def remove (deletions : List Deletion) : Batch :=
  (batch.bury deletions).withLeases
    (batch.store.leases.detachLeases (deletions.map Prod.snd))

/-- The deletions of a range of keys under one revision. -/
structure Deletes (batch : Batch) (key rangeEnd : Key) (revision : Int)
    (deletions : List Deletion) : Prop where
  mem_iff : forall candidate, candidate ∈ deletions.map Prod.snd ↔
    covers key rangeEnd candidate = true ∧ batch.live candidate = true
  bounds : forall deletion, deletion ∈ deletions ->
    deletion.1.2.revision = revision ∧ batch.subRevision ≤ deletion.1.2.subRevision

end Batch

variable {req : PutRequest} {events : List Event} {compares : List Compare}
  {onSuccess onFailure : Exec (List (List Event × Option Response))}
  {success failure : List RequestOp} {final : Batch} {revision : Int} {toExecute : Bool}
  {Inside : List Leaf -> Batch -> Prop}

section Changes

variable {batch : Batch} {response : Option Response}

theorem executing_ok {answer : Batch -> Except ExecuteError Response}
    (ran : executing toExecute answer batch = (.ok response, final)) : batch = final := by
  simp only [executing, check, Prod.mk.injEq] at ran
  exact ran.2

theorem deleteKeys_apply (batch : Batch) (key rangeEnd : Key) (revision : Int) :
    ∃ deletions : List Deletion,
      deleteKeys key rangeEnd revision batch =
          (.ok (deletions.map snd), batch.bury deletions) ∧
        batch.Deletes key rangeEnd revision deletions := by
  obtain ⟨deletions, equal, mem_iff, bounds⟩ :=
    batch.indexState.delete_eq key rangeEnd revision batch.subRevision
  refine ⟨deletions, ?_, mem_iff, bounds⟩
  have inserted : ∀ s : IndexState,
      s.insert (markDeletions deletions).2 = IndexState.bury deletions s := by
    intro s
    simp only [IndexState.insert, markDeletions, foldl_map]
    rfl
  simp only [deleteKeys, update, equal, inserted]
  simp only [Batch.bury, markDeletions, length_map]

theorem syncPut_ok (wellFormed : batch.indexState.WellFormed)
    (ran : syncPut req revision toExecute batch = (.ok (events, response), final)) :
    ∃ kv,
      batch.inherit req (batch.prevRev req.key)
          (PutRequest.kv req (batch.nextRev req.key revision)) = .ok kv ∧
      final = batch.put req revision kv := by
  replace ran := of_update_bind ran
  simp only [registerRevision_eq wellFormed] at ran
  obtain ⟨answer, afterAnswer, answered, ran⟩ := bind_eq_ok.mp ran
  obtain rfl := executing_ok answered
  obtain ⟨kv, afterInherit, inherited, ran⟩ := bind_eq_ok.mp ran
  obtain ⟨isKv, rfl⟩ := check_eq_ok.mp inherited
  replace ran := of_update_bind ran
  replace ran := of_update_bind ran
  obtain ⟨_, rfl⟩ := pure_eq_ok.mp ran
  exact ⟨kv, isKv, rfl⟩

variable {result : List Event × Option Response}

theorem syncPut_events
    (ran : syncPut req revision toExecute batch = (.ok result, final)) : result.1 ≠ [] := by
  obtain ⟨_, _, _, ran⟩ := bind_eq_ok.mp ran
  obtain ⟨_, _, _, ran⟩ := bind_eq_ok.mp ran
  obtain ⟨_, _, _, ran⟩ := bind_eq_ok.mp ran
  obtain ⟨rfl, _⟩ := pure_eq_ok.mp ran
  simp

theorem syncDeleteRange_ok {req : DeleteRangeRequest}
    (ran : syncDeleteRange req revision toExecute batch = (.ok result, final)) :
    ∃ deletions,
      batch.Deletes req.key req.rangeEnd revision deletions ∧
      final = batch.remove deletions ∧
      result.1 = newDeletionEvents revision (deletions.map snd) := by
  obtain ⟨_, _, answered, ran⟩ := bind_eq_ok.mp ran
  obtain rfl := executing_ok answered
  obtain ⟨keys, afterDelete, deleted, ran⟩ := bind_eq_ok.mp ran
  obtain ⟨deletions, equal, deletes⟩ := deleteKeys_apply batch req.key req.rangeEnd revision
  rw [equal] at deleted
  obtain ⟨same, rfl⟩ := mk.inj deleted
  obtain rfl := Except.ok.inj same
  replace ran := of_update_bind ran
  obtain ⟨rfl, rfl⟩ := pure_eq_ok.mp ran
  exact ⟨deletions, deletes, rfl, rfl⟩

theorem syncRange_ok {req : RangeRequest}
    (ran : syncRange req toExecute batch = (.ok result, final)) : batch = final := by
  obtain ⟨_, _, answered, ran⟩ := bind_eq_ok.mp ran
  obtain rfl := executing_ok answered
  exact (pure_eq_ok.mp ran).2

theorem Batch.remove_nil (batch : Batch) : batch.remove [] = batch := by
  simp [Batch.remove, Batch.withLeases, Batch.bury, IndexState.bury, markDeletions,
    LeaseCollection.detachLeases, Batch.indexState]

theorem syncDeleteRange_quiet {req : DeleteRangeRequest}
    (ran : syncDeleteRange req revision toExecute batch = (.ok result, final))
    (quiet : result.1 = []) : batch = final := by
  obtain ⟨deletions, _, rfl, events⟩ := syncDeleteRange_ok ran
  rw [quiet] at events
  have none : deletions = [] := by simpa [newDeletionEvents] using events.symm
  rw [none, Batch.remove_nil]

/-- A transaction runs one of its branches. -/
theorem syncBranches_ok
    (ran : syncBranches compares success failure toExecute onSuccess onFailure batch =
      (.ok result, final)) :
    ∃ results, result.1 = results.flatMap fst ∧
      (onSuccess batch = (.ok results, final) ∨ onFailure batch = (.ok results, final)) := by
  obtain ⟨_, _, checked, ran⟩ := bind_eq_ok.mp ran
  obtain ⟨_, rfl⟩ := check_eq_ok.mp checked
  obtain ⟨succeeded, _, compared, ran⟩ := bind_eq_ok.mp ran
  cases compared
  obtain ⟨results, _, branch, ran⟩ := bind_eq_ok.mp ran
  obtain ⟨rfl, rfl⟩ := pure_eq_ok.mp ran
  refine ⟨results, rfl, ?_⟩
  split at branch
  · exact .inl branch
  · exact .inr branch

end Changes

namespace Batch

variable {batch : Batch} {key : Key}

theorem revs_put (req : PutRequest) (kv : KeyValue) :
    (batch.put req revision kv).revs key =
      if req.key = key then batch.revs key ++ [batch.nextRev req.key revision]
      else batch.revs key := by
  have extended : valuesOf
      (extend batch.state req.key [batch.nextRev req.key revision]) key = _ :=
    valuesOf_extend
  simp only [revs, oneKeyRevisions_eq, indexState, put, extended]
  split <;> simp

theorem record_put (req : PutRequest) (kv : KeyValue) (rev : Revision) :
    (batch.put req revision kv).record rev =
      if (batch.nextRev req.key revision).asRevision = rev then some kv else batch.record rev := by
  simp only [record, put, lookup_insert]
  by_cases same : (batch.nextRev req.key revision).asRevision = rev <;> simp [same]

/-- A deletion appends the tombstones of its keys twice. -/
theorem revs_remove (deletions : List Deletion) :
    (batch.remove deletions).revs key =
      batch.revs key ++
        ((deletions.filter fun deletion => deletion.2 = key).map IndexState.tombstone ++
          (deletions.filter fun deletion => deletion.2 = key).map IndexState.tombstone) := by
  calc (batch.remove deletions).revs key
    _ = (IndexState.bury deletions (IndexState.bury deletions batch.indexState)).oneKeyRevisions
          key := rfl
    _ = _ := by
      rw [oneKeyRevisions_bury, oneKeyRevisions_bury, append_assoc]
      rfl

variable {deletions : List Deletion}

theorem revs_remove_of_notMem (absent : key ∉ deletions.map snd) :
    (batch.remove deletions).revs key = batch.revs key := by
  have none : (deletions.filter fun deletion => deletion.2 = key) = [] := by
    refine filter_eq_nil_iff.mpr fun deletion member same => absent ?_
    exact mem_map.mpr ⟨deletion, member, by simpa using same⟩
  rw [revs_remove, none]
  simp

theorem record_remove_of_ne {rev : Revision}
    (different : ∀ deletion ∈ deletions, deletion.1.2 ≠ rev) :
    (batch.remove deletions).record rev = batch.record rev := by
  have written : ∀ (ops : List (Revision × KeyValue)) (puts : ExtTreeMap Revision KeyValue),
      (∀ op ∈ ops, op.1 ≠ rev) ->
      (ops.foldl (fun puts op => puts.insert op.1 op.2) puts)[rev]? = puts[rev]? := by
    intro ops
    induction ops with
    | nil => exact fun _ _ => rfl
    | cons op ops ih =>
      intro puts apart
      rw [foldl_cons, ih _ fun other member => apart other (mem_cons_of_mem _ member),
        lookup_insert, if_neg (apart op (by simp))]
  have same := written (markDeletions deletions).1 batch.puts (forall_mem_map.mpr different)
  simp only [record, remove, withLeases, bury, same]

theorem revs_commit : batch.commit.batch.revs key = batch.revs key := by
  have committed := batch.indexState.valuesOf_commit key
  simpa [revs, oneKeyRevisions_eq, indexState, KvStore.batch, commit, valuesOf]
    using committed

theorem record_commit (rev : Revision) : batch.commit.batch.record rev = batch.record rev := by
  simp only [record, KvStore.batch, commit, ExtTreeMap.getElem?_union]
  cases batch.puts[rev]? <;> simp

end Batch

section Quiet

variable {batch : Batch}

mutual

/-- An operation without events leaves the batch as it was. -/
theorem syncOp_quiet : (op : RequestOp) -> (batch final : Batch) ->
    (results : List (List Event × Option Response)) ->
    syncOp revision toExecute op batch = (.ok results, final) ->
    results.flatMap fst = [] -> batch = final
  | .missing, batch, final, results, ran, _ => (pure_eq_ok.mp ran).2
  | .requestRange _, batch, final, results, ran, _ => by
      obtain ⟨_, _, one, ran⟩ := bind_eq_ok.mp ran
      obtain ⟨_, rfl⟩ := pure_eq_ok.mp ran
      exact syncRange_ok one
  | .requestPut _, batch, final, results, ran, quiet => by
      obtain ⟨result, _, one, ran⟩ := bind_eq_ok.mp ran
      obtain ⟨rfl, rfl⟩ := pure_eq_ok.mp ran
      exact absurd (by simpa using quiet) (syncPut_events one)
  | .requestDeleteRange _, batch, final, results, ran, quiet => by
      obtain ⟨result, _, one, ran⟩ := bind_eq_ok.mp ran
      obtain ⟨rfl, rfl⟩ := pure_eq_ok.mp ran
      exact syncDeleteRange_quiet one (by simpa using quiet)
  | .requestTxn _ success failure, batch, final, results, ran, quiet => by
      obtain ⟨result, _, one, ran⟩ := bind_eq_ok.mp ran
      obtain ⟨rfl, rfl⟩ := pure_eq_ok.mp ran
      obtain ⟨inner, isInner, branch | branch⟩ := syncBranches_ok one
      · exact syncOps_quiet success batch _ inner branch (by simpa [isInner] using quiet)
      · exact syncOps_quiet failure batch _ inner branch (by simpa [isInner] using quiet)

theorem syncOps_quiet : (ops : List RequestOp) -> (batch final : Batch) ->
    (results : List (List Event × Option Response)) ->
    syncOps revision toExecute ops batch = (.ok results, final) ->
    results.flatMap fst = [] -> batch = final
  | [], batch, final, results, ran, _ => (pure_eq_ok.mp ran).2
  | op :: ops, batch, final, results, ran, quiet => by
      obtain ⟨first, between, one, ran⟩ := bind_eq_ok.mp ran
      obtain ⟨others, _, rest, ran⟩ := bind_eq_ok.mp ran
      obtain ⟨rfl, rfl⟩ := pure_eq_ok.mp ran
      rw [flatMap_append, append_eq_nil_iff] at quiet
      exact (syncOp_quiet op batch between first one quiet.1).trans
        (syncOps_quiet ops between _ others rest quiet.2)

end

end Quiet

section Obeys

variable (okPut : List Leaf -> PutRequest -> Prop)
  (okDelete : List Leaf -> DeleteRangeRequest -> Prop)

mutual

/-- The puts and deletions of an operation meet their conditions, which may speak
of the changes made before. -/
def RequestOp.Obeys (done : List Leaf) : RequestOp -> Prop
  | .requestPut req => okPut done req
  | .requestDeleteRange req => okDelete done req
  | .requestTxn _ success failure => ObeysAll done success ∧ ObeysAll done failure
  | .missing => True
  | .requestRange _ => True

def ObeysAll (done : List Leaf) : List RequestOp -> Prop
  | [] => True
  | op :: ops => RequestOp.Obeys done op ∧ ObeysAll (done ++ op.leaves) ops

end

mutual

instance decidableObeys [forall done req, Decidable (okPut done req)]
    [forall done req, Decidable (okDelete done req)] (done : List Leaf) :
    (op : RequestOp) -> Decidable (RequestOp.Obeys okPut okDelete done op)
  | .requestPut req => inferInstanceAs (Decidable (okPut done req))
  | .requestDeleteRange req => inferInstanceAs (Decidable (okDelete done req))
  | .requestTxn _ success failure =>
    have := decidableObeysAll done success
    have := decidableObeysAll done failure
    inferInstanceAs (Decidable (_ ∧ _))
  | .missing => inferInstanceAs (Decidable True)
  | .requestRange _ => inferInstanceAs (Decidable True)

instance decidableObeysAll [forall done req, Decidable (okPut done req)]
    [forall done req, Decidable (okDelete done req)] (done : List Leaf) :
    (ops : List RequestOp) -> Decidable (ObeysAll okPut okDelete done ops)
  | [] => inferInstanceAs (Decidable True)
  | op :: ops =>
    have := decidableObeys done op
    have := decidableObeysAll (done ++ op.leaves) ops
    inferInstanceAs (Decidable (_ ∧ _))

end

/-- An invariant of the changes that the operations of a command make. -/
structure Rule (revision : Int) (Inside : List Leaf -> Batch -> Prop) : Prop where
  wellFormed : forall done batch, Inside done batch -> batch.indexState.WellFormed
  weaken : forall done more batch, done ⊆ more -> Inside done batch -> Inside more batch
  put : forall done batch req kv, Inside done batch -> okPut done req ->
    batch.inherit req (batch.prevRev req.key)
      (PutRequest.kv req (batch.nextRev req.key revision)) = .ok kv ->
    Inside (done ++ [.put req.key]) (batch.put req revision kv)
  delete : forall done batch req deletions, Inside done batch -> okDelete done req ->
    batch.Deletes req.key req.rangeEnd revision deletions ->
    Inside (done ++ [.delete req.key req.rangeEnd]) (batch.remove deletions)

end Obeys

namespace Rule

variable {okPut : List Leaf -> PutRequest -> Prop}
  {okDelete : List Leaf -> DeleteRangeRequest -> Prop} {done : List Leaf}

section

variable (rule : Rule okPut okDelete revision Inside)
include rule

theorem syncPut (obeys : okPut done req) :
    Ensures (Inside done) (syncPut req revision toExecute)
      fun _ => Inside (done ++ [.put req.key]) := by
  intro batch result final inside ran
  obtain ⟨kv, inherited, rfl⟩ := syncPut_ok (rule.wellFormed done batch inside) ran
  exact rule.put done batch req kv inside obeys inherited

theorem syncDeleteRange {req : DeleteRangeRequest} (obeys : okDelete done req) :
    Ensures (Inside done) (syncDeleteRange req revision toExecute)
      fun _ => Inside (done ++ [.delete req.key req.rangeEnd]) := by
  intro batch result final inside ran
  obtain ⟨deletions, deletes, rfl, _⟩ := syncDeleteRange_ok ran
  exact rule.delete done batch req deletions inside obeys deletes

theorem syncRange {req : RangeRequest} :
    Ensures (Inside done) (syncRange req toExecute)
      fun _ => Inside (done ++ []) := by
  intro batch result final inside ran
  obtain rfl := syncRange_ok ran
  exact rule.weaken done _ batch (by simp) inside

theorem branches
    (succeeded : Ensures (Inside done) onSuccess
      fun _ => Inside (done ++ leavesOf success)) (failed : Ensures (Inside done) onFailure
      fun _ => Inside (done ++ leavesOf failure)) :
    Ensures (Inside done)
      (syncBranches compares success failure toExecute onSuccess onFailure)
      fun _ => Inside (done ++ (leavesOf success ++ leavesOf failure)) := by
  intro batch result final inside ran
  obtain ⟨results, _, branch | branch⟩ := syncBranches_ok ran
  · exact rule.weaken _ _ final (by simp) (succeeded batch results final inside branch)
  · exact rule.weaken _ _ final (by simp) (failed batch results final inside branch)

end

/-- The result of one operation, put into a list. -/
theorem single {effect : Exec (List Event × Option Response)} {before after : Batch -> Prop}
    (ensures : Ensures before effect fun _ => after) :
    Ensures before (do let result ← effect; pure [result]) fun _ => after :=
  bind ensures fun _ => pure fun _ => id

mutual

theorem syncOp (rule : Rule okPut okDelete revision Inside) :
    (op : RequestOp) -> (done : List Leaf) -> RequestOp.Obeys okPut okDelete done op ->
      Ensures (Inside done) (syncOp revision toExecute op)
        fun _ => Inside (done ++ op.leaves)
  | .missing, done, _ =>
    pure fun batch inside => rule.weaken done _ batch (by simp) inside
  | .requestRange _, _, _ => single rule.syncRange
  | .requestPut _, _, obeys => single (rule.syncPut obeys)
  | .requestDeleteRange _, _, obeys => single (rule.syncDeleteRange obeys)
  | .requestTxn _ success failure, done, obeys =>
    single (rule.branches (syncOps rule success done obeys.1) (syncOps rule failure done obeys.2))

theorem syncOps (rule : Rule okPut okDelete revision Inside) :
    (ops : List RequestOp) -> (done : List Leaf) -> ObeysAll okPut okDelete done ops ->
      Ensures (Inside done) (syncOps revision toExecute ops)
        fun _ => Inside (done ++ leavesOf ops)
  | [], done, _ =>
    pure fun batch inside => rule.weaken done _ batch (by simp) inside
  | op :: ops, done, obeys =>
    bind (syncOp rule op done obeys.1) fun _ =>
      bind (syncOps rule ops (done ++ op.leaves) obeys.2) fun _ =>
        pure fun batch inside =>
          rule.weaken _ _ batch (by simp [leavesOf]) inside

end

end Rule

section Requests

/-- The condition of a request: those of its puts and deletions, or that of a
compaction. -/
def KvRequest.Obeys (okPut : List Leaf -> PutRequest -> Prop)
    (okDelete : List Leaf -> DeleteRangeRequest -> Prop) (okCompaction : Int -> Prop) :
    KvRequest -> Prop
  | .range _ => True
  | .put req => okPut [] req
  | .deleteRange req => okDelete [] req
  | .txn req => ObeysAll okPut okDelete [] req.success ∧ ObeysAll okPut okDelete [] req.failure
  | .compaction revision => okCompaction revision

variable {okPut : List Leaf -> PutRequest -> Prop}
  {okDelete : List Leaf -> DeleteRangeRequest -> Prop} {okCompaction : Int -> Prop}
  {Between : Batch -> Prop}

instance [forall done req, Decidable (okPut done req)]
    [forall done req, Decidable (okDelete done req)]
    [forall revision, Decidable (okCompaction revision)] (req : KvRequest) :
    Decidable (KvRequest.Obeys okPut okDelete okCompaction req) := by
  cases req <;> unfold KvRequest.Obeys <;> infer_instance

namespace Batch

/-- The batch in which the changes of a command begin. -/
def fresh (batch : Batch) : Batch := { batch with subRevision := 0 }

/-- The batch after a command that has changed keys. -/
def advance (batch : Batch) (updates : List (Int × List Event)) : Batch :=
  { batch with
    store := { batch.store with updates }
    nextRevision := batch.nextRevision + 1 }

def compacted (batch : Batch) (revision : Int) : Batch :=
  { batch with store := batch.store.compact revision }

end Batch

theorem finish_ok {batch : Batch} (ran : finish events batch = (.ok revision, final)) :
    (events = [] ∧ batch = final) ∨ events ≠ [] ∧ ∃ updates, final = batch.advance updates := by
  obtain ⟨_, rfl⟩ := update_eq_ok.mp ran
  by_cases none : events = []
  · exact .inl ⟨none, by simp [none]⟩
  · exact .inr ⟨none, _, by simp only [if_neg none]; rfl⟩

/-- A request is a compaction, or makes changes that obey the rule, and leaves
the batch as it is if there are no events. -/
theorem syncBody_ok {req : KvRequest} {batch : Batch}
    {result : List Event × Option Response} (rule : Rule okPut okDelete revision Inside)
    (obeys : KvRequest.Obeys okPut okDelete okCompaction req) (enter : Inside [] batch)
    (ran : syncBody req revision toExecute batch = (.ok result, final)) :
    (result.1 = [] ∧ ∃ atRev, okCompaction atRev ∧ final = batch.compacted atRev) ∨
      (result.1 = [] -> batch = final) ∧ ∃ done, Inside done final := by
  cases req with
  | range req =>
    right
    refine ⟨fun _ => syncRange_ok ran, [], ?_⟩
    rwa [← syncRange_ok ran]
  | put req =>
    exact .inr ⟨fun none => absurd none (syncPut_events ran), _,
      rule.syncPut obeys batch result final enter ran⟩
  | deleteRange req =>
    exact .inr ⟨syncDeleteRange_quiet ran, _,
      rule.syncDeleteRange obeys batch result final enter ran⟩
  | txn req =>
    refine .inr ⟨fun none => ?_, _, rule.branches (rule.syncOps _ _ obeys.1)
      (rule.syncOps _ _ obeys.2) batch result final enter ran⟩
    obtain ⟨results, isResults, branch | branch⟩ := syncBranches_ok ran <;>
      exact syncOps_quiet _ batch final results branch (isResults ▸ none)
  | compaction atRev =>
    left
    replace ran := of_update_bind ran
    obtain ⟨rfl, rfl⟩ := pure_eq_ok.mp ran
    exact ⟨rfl, atRev, obeys, rfl⟩

/-- A request that succeeds keeps what its changes keep. -/
theorem syncRequest_keeps {req : KvRequest} {batch : Batch}
    {result : Int × Option Response} (rule : Rule okPut okDelete (batch.nextRevision + 1) Inside)
    (obeys : KvRequest.Obeys okPut okDelete okCompaction req) (enter : Inside [] batch.fresh)
    (quiet : Between batch.fresh)
    (leave : ∀ done inner updates, Inside done inner -> Between (inner.advance updates))
    (compact : ∀ atRev, okCompaction atRev -> Between (batch.fresh.compacted atRev))
    (ran : syncRequest req toExecute batch = (.ok result, final)) : Between final := by
  replace ran := of_update_bind ran
  obtain ⟨⟨events, response⟩, inner, body, ran⟩ := bind_eq_ok.mp ran
  obtain ⟨_, _, finished, ran⟩ := bind_eq_ok.mp ran
  obtain ⟨_, rfl⟩ := pure_eq_ok.mp ran
  rcases syncBody_ok rule obeys enter body with ⟨none, atRev, ok, rfl⟩ | ⟨isQuiet, done, inside⟩
  · rcases finish_ok finished with ⟨_, rfl⟩ | ⟨some, _⟩
    · exact compact atRev ok
    · exact absurd none some
  · rcases finish_ok finished with ⟨none, rfl⟩ | ⟨_, updates, rfl⟩
    · rw [← isQuiet none]
      exact quiet
    · exact leave done inner updates inside

end Requests

namespace Batch

variable (batch : Batch)

def withLeaseOp (op : LeaseOp) : Batch :=
  { batch with leaseOps := batch.leaseOps ++ [op] }

/-- The batch after a lease was granted. -/
def granted (id ttl : Int) : Batch :=
  (batch.withLeases (batch.store.leases.grant id ttl).1).withLeaseOp
    (.putLease (batch.store.leases.grant id ttl).2)

/-- The batch after a lease was removed from the collection. -/
def revoked (id : Int) : Batch :=
  batch.withLeases (batch.store.leases.revoke id)

/-- The batch in which the key at the given position of a lease is deleted. -/
def atPosition (position : Int) : Batch := { batch with subRevision := position }

end Batch

/-- What the deletion of each key of a lease keeps is kept by revoking it. -/
theorem revokeKeys_keeps {Left : List Key -> Batch -> Prop}
    (step : ∀ key keys position batch deletions, Left (key :: keys) batch ->
      (batch.atPosition position).Deletes key [] revision deletions ->
      Left keys ((batch.atPosition position).remove deletions)) (keys : List Key) (position : Int) :
    Ensures (Left keys) (revokeKeys revision keys position) fun _ => Left [] := by
  induction keys generalizing position with
  | nil => exact pure fun _ => id
  | cons key keys ih =>
    intro batch result final left ran
    replace ran := of_update_bind ran
    obtain ⟨_, _, deleted, ran⟩ := bind_eq_ok.mp ran
    obtain ⟨deletions, equal, deletes⟩ :=
      deleteKeys_apply (batch.atPosition position) key [] revision
    obtain ⟨same, rfl⟩ := mk.inj (equal.symm.trans deleted)
    obtain rfl := Except.ok.inj same
    replace ran := of_update_bind ran
    obtain ⟨_, _, rest, ran⟩ := bind_eq_ok.mp ran
    obtain ⟨_, rfl⟩ := pure_eq_ok.mp ran
    exact ih (position + 1) _ _ _ (step key keys position batch deletions left deletes) rest

/-- A lease request grants a lease, revokes one without keys, or deletes the keys
of a lease before it revokes it. -/
theorem syncLeaseRequest_ok {order : SetOrder} {req : LeaseRequest} {batch : Batch}
    (ran : syncLeaseRequest order req batch = (.ok revision, final)) :
    (∃ id ttl, req = .grant id ttl ∧ final = batch.fresh.granted id ttl) ∨
    ∃ id lease,
      req = .revoke id ∧ batch.store.leases.lookUp id = some lease ∧
        (lease.keys order = [] ∧ final = (batch.fresh.withLeaseOp (.deleteLease id)).revoked id ∨
          ∃ events inner updates,
            revokeKeys (batch.nextRevision + 1) (lease.keys order) 0
                (batch.fresh.withLeaseOp (.deleteLease id)) = (.ok events, inner) ∧
              final = (inner.revoked id).advance updates) := by
  replace ran := of_update_bind ran
  obtain ⟨updated, inner, body, ran⟩ := bind_eq_ok.mp ran
  obtain ⟨-, rfl⟩ := update_eq_ok.mp ran
  cases req with
  | grant id ttl =>
    left
    obtain ⟨_, _, granted, body⟩ := bind_eq_ok.mp body
    obtain ⟨rfl, rfl⟩ := pure_eq_ok.mp body
    obtain ⟨_, _, changed, wrote⟩ := bind_eq_ok.mp granted
    obtain ⟨rfl, rfl⟩ := update_eq_ok.mp changed
    obtain ⟨-, rfl⟩ := update_eq_ok.mp wrote
    exact ⟨id, ttl, rfl, rfl⟩
  | revoke id =>
    right
    replace body := of_update_bind body
    obtain ⟨keys, _, found, body⟩ := bind_eq_ok.mp body
    obtain ⟨isKeys, rfl⟩ := check_eq_ok.mp found
    cases known : batch.store.leases.lookUp id with
    | none => simp [known] at isKeys
    | some lease =>
      simp only [known, Except.ok.injEq] at isKeys
      subst isKeys
      refine ⟨id, lease, rfl, known, ?_⟩
      by_cases empty : lease.keys order = []
      · rw [if_pos empty] at body
        replace body := of_update_bind body
        obtain ⟨rfl, rfl⟩ := pure_eq_ok.mp body
        exact .inl ⟨empty, rfl⟩
      rw [if_neg empty] at body
      obtain ⟨_, _, revoked, body⟩ := bind_eq_ok.mp body
      obtain ⟨rfl, rfl⟩ := pure_eq_ok.mp body
      obtain ⟨events, inner, deleted, revoked⟩ := bind_eq_ok.mp revoked
      obtain ⟨-, rfl⟩ := update_eq_ok.mp revoked
      exact .inr ⟨events, inner, _, deleted, rfl⟩

end Rk8s.Xline.Storage
