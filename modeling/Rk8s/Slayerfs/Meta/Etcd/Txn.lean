import Rk8s.Lib.Transition
import Rk8s.Slayerfs.Meta.Etcd.Store

namespace Rk8s.Slayerfs.Etcd

universe u

/-!
# Optimistic transactions

`EtcdTxn::run` executes a closure against a local context, and commits what the
closure has staged with one transaction that compares every key of the context
with what was read.  When the comparison fails the closure runs again.

A closure is a tree: it asks for a key and goes on with the answer, it stages an
operation, or it ends.  It can be run any number of times, which is what the
source asks of it.  A `get` that fails ends the closure with the error, as the
`?` behind every call of the metadata store does.
-/

/-- The errors of a transaction.  Those that closures choose themselves are
represented by `notFound`. -/
inductive MetaError where
  | notFound (ino : Int)
  | internal (message : String)
  | maxRetriesExceeded

/-- A transaction closure with results in `R`. -/
inductive Task (R : Type u) where
  | get (key : String) (rest : Option ByteArray -> Task R)
  | set (key : String) (value : ByteArray) (options : Option PutOptions) (rest : Task R)
  | delete (key : String) (rest : Task R)
  | done (result : Except MetaError R)

/-! ## The context of one attempt -/

/-- A key as it was when it was read.  Revision zero means that it did not exist. -/
structure ReadSlot where
  value : Option ByteArray
  modRevision : Nat

/-- What a closure did with its context. -/
inductive Event where
  | got (key : String) (value : Option ByteArray)
  | staged (key : String) (op : WriteOp)

/-- The context of one attempt.  `trace` is not in the source: it records the
calls of the closure, and nothing reads it. -/
structure EtcdTxnCtx where
  reads : AList fun _ : String => ReadSlot
  writes : Writes
  trace : List Event

namespace EtcdTxnCtx

def new : EtcdTxnCtx := ⟨∅, ∅, []⟩

variable (tx : EtcdTxnCtx) (key : String)

/-- The value a key has for the closure, without asking the store. -/
def get? : Option (Option ByteArray) :=
  match tx.writes.lookup key with
  | some op => some op.value?
  | none => (tx.reads.lookup key).map ReadSlot.value

def got (tx : EtcdTxnCtx) (key : String) (value : Option ByteArray) : EtcdTxnCtx :=
  { tx with trace := tx.trace ++ [.got key value] }

def insertRead (slot : ReadSlot) : EtcdTxnCtx :=
  { tx with reads := tx.reads.insert key slot }

def stage (op : WriteOp) : EtcdTxnCtx :=
  { tx with writes := tx.writes.insert key op, trace := tx.trace ++ [.staged key op] }

def setWithOptions (value : ByteArray) (options : Option PutOptions) : EtcdTxnCtx :=
  tx.stage key (.put value options)

def delete (tx : EtcdTxnCtx) (key : String) : EtcdTxnCtx :=
  tx.stage key .delete

/-- The keys that are written and have not been read. -/
def missingKeys : List String :=
  tx.writes.keys.filter fun key => (tx.reads.lookup key).isNone

/-- The guard of one key: its revision, or its absence. -/
def compare (slot : ReadSlot) : Compare :=
  if slot.modRevision = 0 then .version key 0 else .modRevision key slot.modRevision

def compares : List Compare :=
  tx.reads.entries.map fun read => compare read.1 read.2

end EtcdTxnCtx

/-- The slot of a key at this moment. -/
def Store.fetchSlot (store : Store) (key : String) : ReadSlot :=
  match store.kvs key with
  | some kv => ⟨some kv.entry.value, kv.modRevision⟩
  | none => ⟨none, 0⟩

/-! ## Runs -/

structure EtcdTxn (R : Type u) where
  task : Task R
  maxRetries : Nat

/-- Where a call of `run` stands.  `returned` and `failed` are its two results,
and the former keeps the context that was committed. -/
inductive Phase (R : Type u) where
  | attempt (number : Nat)
  | running (number : Nat) (tx : EtcdTxnCtx) (rest : Task R)
  | baselining (number : Nat) (tx : EtcdTxnCtx) (out : R) (missing : List String)
  | committing (number : Nat) (tx : EtcdTxnCtx) (out : R)
  | returned (tx : EtcdTxnCtx) (out : R)
  | failed (error : MetaError)

variable {R : Type u}

namespace EtcdTxn

/-- One step of the closure. -/
def runTask (store : Store) (number : Nat) (tx : EtcdTxnCtx) : Task R -> Phase R
  | .get key rest =>
    match tx.get? key with
    | some value => .running number (tx.got key value) (rest value)
    | none =>
      let slot := store.fetchSlot key
      .running number ((tx.insertRead key slot).got key slot.value) (rest slot.value)
  | .set key value options rest => .running number (tx.setWithOptions key value options) rest
  | .delete key rest => .running number (tx.delete key) rest
  | .done (.ok out) => .baselining number tx out tx.missingKeys
  | .done (.error error) => .failed error

/-- The next step of a call whose requests to the store are answered. -/
def advance (txn : EtcdTxn R) (store : Store) : Phase R -> Option (Store × Phase R)
  | .attempt number =>
    if number < txn.maxRetries then some (store, .running number .new txn.task)
    else some (store, .failed .maxRetriesExceeded)
  | .running number tx rest => some (store, runTask store number tx rest)
  | .baselining number tx out (key :: missing) =>
    some (store, .baselining number (tx.insertRead key (store.fetchSlot key)) out missing)
  | .baselining number tx out [] =>
    if tx.writes.entries.isEmpty then some (store, .returned tx out)
    else some (store, .committing number tx out)
  | .committing number tx out =>
    match store.txn tx.compares tx.writes with
    | (store, true) => some (store, .returned tx out)
    | (store, false) => some (store, .attempt (number + 1))
  | .returned _ _ => none
  | .failed _ => none

/-- A request to the store that is not carried out, and the error it gives. -/
def disconnect (cause : String) : Phase R -> Option (Phase R)
  | .running _ tx (.get key _) =>
    match tx.get? key with
    | some _ => none
    | none => some (.failed (.internal s!"Failed to get key {key}: {cause}"))
  | .baselining _ _ _ (key :: _) =>
    some (.failed (.internal s!"Failed to get key {key}: {cause}"))
  | .committing _ _ _ => some (.failed (.internal s!"Failed to execute transaction: {cause}"))
  | _ => none

/-- Whether a step was a transaction that the store carried out. -/
def commits : Phase R -> Phase R -> Bool
  | .committing _ _ _, .returned _ _ => true
  | _, _ => false

end EtcdTxn

/-! ## Concurrent runs -/

/-- A call of `run` and where it stands. -/
structure Call (R : Type u) where
  txn : EtcdTxn R
  phase : Phase R

/-- Any number of calls over one store.  `committed` lists the calls whose
transactions were carried out, in that order. -/
structure Calls (R : Type u) where
  store : Store
  calls : List (Call R)
  committed : List Nat

inductive Action where
  | advance (call : Nat)
  | disconnect (call : Nat) (cause : String)

def Action.call : Action -> Nat
  | advance call => call
  | disconnect call _ => call

namespace Calls

def initial (store : Store) (txns : List (EtcdTxn R)) : Calls R :=
  ⟨store, txns.map fun txn => ⟨txn, .attempt 0⟩, []⟩

def moveTo (state : Calls R) (index : Nat) (call : Call R) (store : Store) (phase : Phase R) :
    Calls R where
  store := store
  calls := state.calls.set index { call with phase := phase }
  committed :=
    if EtcdTxn.commits call.phase phase then state.committed ++ [index] else state.committed

def step (state : Calls R) (action : Action) : Option (Calls R) :=
  state.calls[action.call]?.bind fun call =>
    match action with
    | .advance index =>
      (call.txn.advance state.store call.phase).map fun next =>
        state.moveTo index call next.1 next.2
    | .disconnect index cause =>
      (EtcdTxn.disconnect cause call.phase).map fun phase =>
        state.moveTo index call state.store phase

end Calls

/-! ## Execution without interruption

The meaning of a closure on its own: it reads and writes the store directly, and
an error undoes what it wrote. -/

namespace Task

def exec : Task R -> View -> Except MetaError R × View
  | get key rest, view => (rest ((view key).map Entry.value)).exec view
  | set key value options rest, view =>
    rest.exec (Function.update view key (WriteOp.put value options).entry)
  | delete key rest, view => rest.exec (Function.update view key none)
  | done result, view => (result, view)

def atomically (task : Task R) (view : View) : Except MetaError R × View :=
  match task.exec view with
  | (.ok out, after) => (.ok out, after)
  | (.error error, _) => (.error error, view)

end Task

/-- The closures executed one at a time in the given order, with their results. -/
def serially {R : Type u} (txns : List (EtcdTxn R)) :
    List Nat -> View -> List (Nat × Except MetaError R) × View
  | [], view => ([], view)
  | index :: order, view =>
    match txns[index]? with
    | none => serially txns order view
    | some txn =>
      let (result, after) := txn.task.atomically view
      let (results, final) := serially txns order after
      ((index, result) :: results, final)

end Rk8s.Slayerfs.Etcd
