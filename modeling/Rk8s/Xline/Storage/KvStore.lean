import Rk8s.Lib.Effect
import Rk8s.Xline.Storage.Index
import Rk8s.Xline.Storage.Lease

namespace Rk8s.Xline.Storage

open Std Effect

/-!
# The key-value store

The store keeps the versions of all keys in a table under their revisions and
finds them through the index.  Committed commands are applied in batches.  A
batch has a transaction on the database and an `IndexState`; both are committed
at its end.  What the program changes directly, and not through these two, is
the lease collection, the queue of updates for watchers and, in a compaction,
the index and the table.

Response headers are left out.
-/

inductive EventType
  | put
  | delete

/-- A change of a key, as it is sent to the watchers. -/
structure Event where
  type : EventType
  kv : KeyValue

structure RangeResponse where
  kvs : List KeyValue := []
  more : Bool := false
  count : Nat

structure PutResponse where
  prevKv : Option KeyValue := none

structure DeleteRangeResponse where
  deleted : Nat
  prevKvs : List KeyValue := []

inductive Response
  | range (response : RangeResponse)
  | put (response : PutResponse)
  | deleteRange (response : DeleteRangeResponse)
  | txn (succeeded : Bool) (responses : List Response)
  | compaction

/-- Requests that go to the key-value store. -/
inductive KvRequest
  | range (req : RangeRequest)
  | put (req : PutRequest)
  | deleteRange (req : DeleteRangeRequest)
  | txn (req : TxnRequest)
  | compaction (revision : Int)

/-- The key-value store with its tables of the database.  The lease collection
belongs to the lease store as well. -/
structure KvStore where
  index : Index := ∅
  kvTable : ExtTreeMap Revision KeyValue := ∅
  leaseTable : ExtTreeMap Int PbLease := ∅
  scheduledCompact : Option Int := none
  finishedCompact : Option Int := none
  compactedRev : Int := -1
  revision : Int := 1
  leases : LeaseCollection
  /-- What has been sent to the watchers. -/
  updates : List (Int × List Event) := []

inductive LeaseOp
  | putLease (lease : PbLease)
  | deleteLease (id : Int)

def LeaseOp.apply (table : ExtTreeMap Int PbLease) : LeaseOp -> ExtTreeMap Int PbLease
  | .putLease lease => table.insert lease.id lease
  | .deleteLease id => table.erase id

/-- A batch of commands that is being applied: the store, and the changes that
reach it when the batch commits. -/
structure Batch where
  store : KvStore
  /-- The new revisions of the `IndexState`. -/
  state : ExtTreeMap Key (List KeyRevision) := ∅
  /-- Records written by the transaction. -/
  puts : ExtTreeMap Revision KeyValue := ∅
  /-- Changes of the lease table made by the transaction. -/
  leaseOps : List LeaseOp := []
  /-- The revision counter of the batch. -/
  nextRevision : Int
  /-- The sub revision of the next change of the command. -/
  subRevision : Int := 0

/-- A new transaction and a new `IndexState`. -/
def KvStore.batch (store : KvStore) : Batch := { store, nextRevision := store.revision }

abbrev Exec := Effect Batch ExecuteError

section Requests

variable (req : RangeRequest)

/-- The range check of `check_revision`. -/
def RangeRequest.checkRevision (compacted current : Int) : Except ExecuteError Unit :=
  if current < req.revision then .error (.revisionTooLarge req.revision current)
  else if compacted ≤ req.revision ∨ req.revision ≤ 0 then .ok ()
  else .error (.revisionCompacted req.revision compacted)

mutual

/-- The ranges of both branches of a transaction are checked, whichever branch
is taken later. -/
def RequestOp.checkRevision (compacted current : Int) : RequestOp -> Except ExecuteError Unit
  | .requestRange req => RangeRequest.checkRevision req compacted current
  | .requestTxn _ success failure => do
      checkRevisions compacted current success
      checkRevisions compacted current failure
  | .missing | .requestPut _ | .requestDeleteRange _ => .ok ()

def checkRevisions (compacted current : Int) : List RequestOp -> Except ExecuteError Unit
  | [] => .ok ()
  | op :: ops => do
      RequestOp.checkRevision compacted current op
      checkRevisions compacted current ops

end

def compareOrdering : Ordering -> CompareResult
  | .gt => .greater
  | .lt => .less
  | .eq => .equal

/-- Check one record with a compare.  The lease target looks at the mod
revision. -/
def compareKv (cmp : Compare) (kv : KeyValue) : Bool :=
  let result :=
    match cmp.target with
    | .version =>
      compare kv.version (match cmp.targetUnion with | some (.version v) => v | _ => 0)
    | .create =>
      compare kv.createRevision
        (match cmp.targetUnion with | some (.createRevision v) => v | _ => 0)
    | .mod =>
      compare kv.modRevision
        (match cmp.targetUnion with | some (.modRevision v) => v | _ => 0)
    | .value =>
      compare kv.value (match cmp.targetUnion with | some (.value v) => v | _ => [])
    | .lease =>
      compare kv.modRevision (match cmp.targetUnion with | some (.lease v) => v | _ => 0)
  match cmp.result with
  | .equal => compareOrdering result == .equal
  | .greater => compareOrdering result == .greater
  | .less => compareOrdering result == .less
  | .notEqual => compareOrdering result != .equal

/-- Keep the records within the bounds on mod and create revision.  A bound that
is not positive does not count. -/
def filterKvs (kvs : List KeyValue) : List KeyValue :=
  kvs.filter fun kv =>
    (req.maxModRevision ≤ 0 || kv.modRevision ≤ req.maxModRevision) &&
    (req.minModRevision ≤ 0 || req.minModRevision ≤ kv.modRevision) &&
    (req.maxCreateRevision ≤ 0 || kv.createRevision ≤ req.maxCreateRevision) &&
    (req.minCreateRevision ≤ 0 || req.minCreateRevision ≤ kv.createRevision)

def compareBy : SortTarget -> KeyValue -> KeyValue -> Ordering
  | .key, first, second => compare first.key second.key
  | .version, first, second => compare first.version second.version
  | .create, first, second => compare first.createRevision second.createRevision
  | .mod, first, second => compare first.modRevision second.modRevision
  | .value, first, second => compare first.value second.value

/-- A stable sort. -/
def sortKvs (order : SortOrder) (target : SortTarget) (kvs : List KeyValue) : List KeyValue :=
  match target, order with
  | .key, .none => kvs
  | target, .ascend | target, .none =>
    kvs.insertionSort fun first second => (compareBy target first second).isLE = true
  | target, .descend =>
    kvs.insertionSort fun first second => (compareBy target second first).isLE = true

/-- How many revisions are fetched from the index, zero for all of them. -/
def storageFetchLimit (order : SortOrder) : Nat :=
  if order ≠ .none ∨ req.maxModRevision ≠ 0 ∨ req.minModRevision ≠ 0 ∨
      req.maxCreateRevision ≠ 0 ∨ req.minCreateRevision ≠ 0 ∨ req.limit = 0 then 0
  else (req.limit + 1).toNat

/-- The tombstones of deleted keys, for the table and for the index. -/
def markDeletions (deletions : List Deletion) :
    List (Revision × KeyValue) × List (Key × KeyRevision) :=
  (deletions.map fun deletion =>
      (deletion.1.2, { key := deletion.2, modRevision := deletion.1.2.revision }),
    deletions.map fun deletion =>
      (deletion.2, KeyRevision.newDeletion deletion.1.2.revision deletion.1.2.subRevision))

def newDeletionEvents (revision : Int) (keys : List Key) : List Event :=
  keys.map fun key => { type := .delete, kv := { key, modRevision := revision } }

end Requests

namespace Batch

variable (batch : Batch)

def indexState : IndexState := { index := batch.store.index, state := batch.state }

/-- A read through the transaction sees its own writes. -/
def record (revision : Revision) : Option KeyValue :=
  match batch.puts[revision]? with
  | some kv => some kv
  | none => batch.store.kvTable[revision]?

def getValues (revisions : List Revision) : List KeyValue :=
  revisions.filterMap batch.record

def getRange (key rangeEnd : Key) (revision : Int) : List KeyValue :=
  batch.getValues (batch.indexState.get key rangeEnd revision)

/-- The records of a range, at most `limit` unless it is zero, and their total
number. -/
def getRangeWithOpts (key rangeEnd : Key) (revision : Int) (limit : Nat)
    (countOnly : Bool) : List KeyValue × Nat :=
  let revisions := batch.indexState.get key rangeEnd revision
  if countOnly ∨ revisions.length = 0 then ([], revisions.length)
  else
    (batch.getValues (if limit = 0 then revisions else revisions.take limit), revisions.length)

def checkCompare (cmp : Compare) : Bool :=
  match batch.getRange cmp.key cmp.rangeEnd 0 with
  | [] =>
    match cmp.targetUnion with
    | some (.value _) => false
    | _ => compareKv cmp {}
  | kvs => kvs.all (compareKv cmp)

/-- Answer a range request.  The numbers for order and target have passed
validation. -/
def executeRange (req : RangeRequest) : Except ExecuteError RangeResponse := do
  RangeRequest.checkRevision req batch.store.compactedRev batch.store.revision
  let order := (SortOrder.ofI32 req.sortOrder).getD .none
  let (kvs, total) := batch.getRangeWithOpts req.key req.rangeEnd req.revision
    (storageFetchLimit req order) req.countOnly
  if kvs = [] then
    pure { count := total }
  else
    let kvs := sortKvs order ((SortTarget.ofI32 req.sortTarget).getD .key) (filterKvs req kvs)
    let more := decide (0 < req.limit ∧ req.limit.toNat < kvs.length)
    let kvs := if more then kvs.take req.limit.toNat else kvs
    let kvs := if req.keysOnly then kvs.map fun kv => { kv with value := [] } else kvs
    pure { kvs, more, count := total }

/-- The response to a put, and the previous record if the request needs it. -/
def generatePutResp (req : PutRequest) (prevRev : Option Revision) :
    Except ExecuteError (PutResponse × Option KeyValue) :=
  if req.lease ≠ 0 ∧ (batch.store.leases.lookUp req.lease).isNone then
    .error (.leaseNotFound req.lease)
  else if req.prevKv ∨ req.ignoreLease ∨ req.ignoreValue then
    let prevKv := (batch.getValues prevRev.toList).getLast?
    if prevKv.isNone ∧ (req.ignoreLease ∨ req.ignoreValue) then .error .keyNotFound
    else .ok ({ prevKv := if req.prevKv then prevKv else none }, prevKv)
  else .ok ({}, none)

def generateDeleteRangeResp (req : DeleteRangeRequest) : DeleteRangeResponse :=
  let prevKvs := batch.getRange req.key req.rangeEnd 0
  { deleted := prevKvs.length, prevKvs := if req.prevKv then prevKvs else [] }

/-- What a put takes over from the previous record of the key. -/
def inherit (req : PutRequest) (prevRev : Option Revision) (kv : KeyValue) :
    Except ExecuteError KeyValue :=
  if req.ignoreLease ∨ req.ignoreValue then
    match prevRev with
    | none => .error .keyNotFound
    | some prevRev =>
      match (batch.getValues [prevRev]).getLast? with
      | none => .error .keyNotFound
      | some prev =>
        .ok { kv with
          lease := if req.ignoreLease then prev.lease else kv.lease
          value := if req.ignoreValue then prev.value else kv.value }
  else .ok kv

/-- Move a key from its lease to that of the request.  Failures are only
logged. -/
def attachLease (leases : LeaseCollection) (key : Key) (lease : Int) : LeaseCollection :=
  let leases := if leases.getLease key ≠ 0 then leases.detachLease key else leases
  if lease ≠ 0 then (leases.attach lease key).toOption.getD leases else leases

end Batch

/-- The record that a put writes. -/
def PutRequest.kv (req : PutRequest) (newRev : KeyRevision) : KeyValue where
  key := req.key
  value := req.value
  createRevision := newRev.createRevision
  modRevision := newRev.modRevision
  version := newRev.version
  lease := req.lease

def registerRevision (key : Key) (revision : Int) : Exec (KeyRevision × Option KeyRevision) :=
  update fun batch =>
    let (s, registered) := batch.indexState.registerRevision key revision batch.subRevision
    ({ batch with state := s.state }, registered)

/-- Write the record of a put and count it. -/
def writeRecord (revision : Revision) (kv : KeyValue) : Exec Unit :=
  update fun batch =>
    ({ batch with
        puts := batch.puts.insert revision kv
        subRevision := batch.subRevision + 1 }, ())

/-- Delete the keys of a range.  The tombstones are appended to the batch by
`delete` and by `insert`. -/
def deleteKeys (key rangeEnd : Key) (revision : Int) : Exec (List Key) :=
  update fun batch =>
    let (s, deletions) := batch.indexState.delete key rangeEnd revision batch.subRevision
    let (delOps, keyRevisions) := markDeletions deletions
    ({ batch with
        state := (s.insert keyRevisions).state
        puts := delOps.foldl (fun puts op => puts.insert op.1 op.2) batch.puts
        subRevision := batch.subRevision + delOps.length },
      deletions.map Prod.snd)

def changeLeases (change : LeaseCollection -> LeaseCollection) : Exec Unit :=
  update fun batch =>
    ({ batch with store := { batch.store with leases := change batch.store.leases } }, ())

/-- Compute the response if the command is to be executed. -/
def executing (toExecute : Bool) (answer : Batch -> Except ExecuteError Response) :
    Exec (Option Response) :=
  check fun batch => if toExecute then (answer batch).map some else .ok none

section Sync

def syncRange (req : RangeRequest) (toExecute : Bool) : Exec (List Event × Option Response) := do
  let response ← executing toExecute fun batch => (batch.executeRange req).map .range
  pure ([], response)

def syncPut (req : PutRequest) (revision : Int) (toExecute : Bool) :
    Exec (List Event × Option Response) := do
  let (newRev, prevRev) ← registerRevision req.key revision
  let prevRev := prevRev.map KeyRevision.asRevision
  let response ← executing toExecute fun batch =>
    (batch.generatePutResp req prevRev).map fun answer => .put answer.1
  let kv ← check fun batch => batch.inherit req prevRev (PutRequest.kv req newRev)
  changeLeases fun leases => Batch.attachLease leases req.key req.lease
  writeRecord newRev.asRevision kv
  pure ([{ type := .put, kv }], response)

def syncDeleteRange (req : DeleteRangeRequest) (revision : Int) (toExecute : Bool) :
    Exec (List Event × Option Response) := do
  let response ← executing toExecute fun batch =>
    .ok (.deleteRange (batch.generateDeleteRangeResp req))
  let keys ← deleteKeys req.key req.rangeEnd revision
  changeLeases fun leases => leases.detachLeases keys
  pure (newDeletionEvents revision keys, response)

/-- A transaction, given what its branches do. -/
def syncBranches (compares : List Compare) (success failure : List RequestOp) (toExecute : Bool)
    (onSuccess onFailure : Exec (List (List Event × Option Response))) :
    Exec (List Event × Option Response) := do
  check fun batch =>
    checkRevisions batch.store.compactedRev batch.store.revision (success ++ failure)
  let succeeded ← read fun batch => compares.all batch.checkCompare
  let results ← (if succeeded then onSuccess else onFailure)
  pure (results.flatMap Prod.fst,
    if toExecute then some (.txn succeeded (results.filterMap Prod.snd)) else none)

mutual

/-- One operation of a transaction; an operation without a request has no
result. -/
def syncOp (revision : Int) (toExecute : Bool) :
    RequestOp -> Exec (List (List Event × Option Response))
  | .missing => pure []
  | .requestRange req => do
      let result ← syncRange req toExecute
      pure [result]
  | .requestPut req => do
      let result ← syncPut req revision toExecute
      pure [result]
  | .requestDeleteRange req => do
      let result ← syncDeleteRange req revision toExecute
      pure [result]
  | .requestTxn compares success failure => do
      let result ← syncBranches compares success failure toExecute
        (syncOps revision toExecute success) (syncOps revision toExecute failure)
      pure [result]

/-- The operations of a branch in turn, up to the first error. -/
def syncOps (revision : Int) (toExecute : Bool) :
    List RequestOp -> Exec (List (List Event × Option Response))
  | [] => pure []
  | op :: ops => do
      let result ← syncOp revision toExecute op
      let results ← syncOps revision toExecute ops
      pure (result ++ results)

end

def syncTxn (req : TxnRequest) (revision : Int) (toExecute : Bool) :
    Exec (List Event × Option Response) :=
  syncBranches req.compare req.success req.failure toExecute
    (syncOps revision toExecute req.success) (syncOps revision toExecute req.failure)

/-- Compact the committed index and remove the records of the removed versions,
without the transaction of the batch. -/
def KvStore.compact (store : KvStore) (revision : Int) : KvStore :=
  let (index, removed) := store.index.compact revision
  { store with
    index
    kvTable := (removed.map KeyRevision.asRevision).foldl ExtTreeMap.erase store.kvTable
    finishedCompact := some revision
    compactedRev := revision
    scheduledCompact := some revision }

def syncCompaction (revision : Int) (toExecute : Bool) : Exec (List Event × Option Response) := do
  update fun batch => ({ batch with store := batch.store.compact revision }, ())
  pure ([], if toExecute then some .compaction else none)

/-- Send the events of a command to the watchers. -/
def KvStore.notifyUpdates (store : KvStore) (revision : Int) (events : List Event) : KvStore :=
  { store with updates := store.updates ++ [(revision, events)] }

/-- The revision of the command; a command without events leaves the counter. -/
def finish (events : List Event) : Exec Int :=
  update fun batch =>
    if events = [] then (batch, batch.nextRevision)
    else
      ({ batch with
          store := batch.store.notifyUpdates (batch.nextRevision + 1) events
          nextRevision := batch.nextRevision + 1 },
        batch.nextRevision + 1)

/-- What a request does, under the revision that it gets if it changes keys. -/
def syncBody (req : KvRequest) (nextRevision : Int) (toExecute : Bool) :
    Exec (List Event × Option Response) :=
  match req with
  | .range req => syncRange req toExecute
  | .put req => syncPut req nextRevision toExecute
  | .deleteRange req => syncDeleteRange req nextRevision toExecute
  | .txn req => syncTxn req nextRevision toExecute
  | .compaction revision => syncCompaction revision toExecute

/-- The revision of a command that starts now, with a new sub revision. -/
def start : Exec Int :=
  update fun batch => ({ batch with subRevision := 0 }, batch.nextRevision + 1)

/-- `KvStore::after_sync`: the revision of the command and, if it was to be
executed, its response. -/
def syncRequest (req : KvRequest) (toExecute : Bool) : Exec (Int × Option Response) := do
  let nextRevision ← start
  let (events, response) ← syncBody req nextRevision toExecute
  let revision ← finish events
  pure (revision, response)

end Sync

namespace Batch

/-- The store after the index state, the transaction and the revision counter
have been committed. -/
def commit (batch : Batch) : KvStore :=
  { batch.store with
    index := batch.indexState.commit
    kvTable := batch.store.kvTable ∪ batch.puts
    leaseTable := batch.leaseOps.foldl LeaseOp.apply batch.store.leaseTable
    revision := batch.nextRevision }

end Batch

end Rk8s.Xline.Storage
