import Mathlib

namespace Rk8s.Slayerfs.Etcd

/-!
# The key-value store of the etcd backend

This is what the metadata store relies on, not code of the repository.  A key
that exists has a version of at least one and remembers the revision of its
last modification.  Revisions grow over the whole store, so a key that is
deleted and written again is told apart from the old one.  Every operation of
the client is one atomic action on the store.
-/

/-- The only option that the metadata store attaches to a put. -/
structure PutOptions where
  lease : Int

/-- What a client stores under a key. -/
structure Entry where
  value : ByteArray
  lease : Int

structure KeyValue where
  entry : Entry
  version : Nat
  modRevision : Nat

/-- The contents of a store as its clients know them. -/
abbrev View := String -> Option Entry

/-- A store.  Revisions start at one, and nothing has been modified later than
the current revision. -/
structure Store where
  revision : Nat
  kvs : String -> Option KeyValue
  bounded : forall key kv, kvs key = some kv ->
    0 < kv.version ∧ 0 < kv.modRevision ∧ kv.modRevision ≤ revision

inductive Compare where
  | version (key : String) (equal : Nat)
  | modRevision (key : String) (equal : Nat)

/-- One staged operation on a key. -/
inductive WriteOp where
  | put (value : ByteArray) (options : Option PutOptions)
  | delete

namespace WriteOp

/-- What the operation leaves under its key. -/
def entry : WriteOp -> Option Entry
  | put value options => some ⟨value, (options.map PutOptions.lease).getD 0⟩
  | delete => none

/-- What a read of the key after the operation returns. -/
def value? (op : WriteOp) : Option ByteArray :=
  op.entry.map Entry.value

end WriteOp

/-- The operations of a transaction, at most one for each key. -/
abbrev Writes := AList fun _ : String => WriteOp

/-- The contents after all the operations. -/
def Writes.overlay (writes : Writes) (view : View) : View := fun key =>
  match writes.lookup key with
  | some op => op.entry
  | none => view key

namespace Store

def empty : Store where
  revision := 1
  kvs := fun _ => none
  bounded := by simp

variable (store : Store)

def values : View := fun key => (store.kvs key).map KeyValue.entry

/-- Whether a comparison holds.  A missing key has version zero and modification
revision zero. -/
def holds : Compare -> Bool
  | .version key equal => ((store.kvs key).elim 0 KeyValue.version) == equal
  | .modRevision key equal => ((store.kvs key).elim 0 KeyValue.modRevision) == equal

/-- The key after one operation of a transaction at the given revision. -/
def write (revision : Nat) (old : Option KeyValue) (op : WriteOp) : Option KeyValue :=
  op.entry.map fun entry => ⟨entry, old.elim 0 KeyValue.version + 1, revision⟩

/-- Whether the operation makes a new revision: deleting a missing key does not. -/
def modifies (key : String) : WriteOp -> Bool
  | .put _ _ => true
  | .delete => (store.kvs key).isSome

/-- Carry out all the operations at one new revision. -/
def apply (writes : Writes) : Store where
  revision :=
    if writes.entries.any fun write => store.modifies write.1 write.2 then store.revision + 1
    else store.revision
  kvs := fun key =>
    match writes.lookup key with
    | some op => write (store.revision + 1) (store.kvs key) op
    | none => store.kvs key
  bounded := by
    intro key kv found
    split at found
    next op staged =>
      cases op with
      | delete => cases found
      | put value options =>
        cases found
        have member : ⟨key, .put value options⟩ ∈ writes.entries := AList.mem_lookup_iff.mp staged
        have modified : writes.entries.any (fun write => store.modifies write.1 write.2) = true :=
          List.any_eq_true.mpr ⟨_, member, rfl⟩
        simp [modified]
    next =>
      have old := store.bounded key kv found
      refine ⟨old.1, old.2.1, ?_⟩
      split <;> omega

/-- An atomic transaction: carried out when all comparisons hold. -/
def txn (compares : List Compare) (writes : Writes) : Store × Bool :=
  if compares.all store.holds then (store.apply writes, true) else (store, false)

theorem values_apply (writes : Writes) :
    (store.apply writes).values = writes.overlay store.values := by
  funext key
  cases staged : writes.lookup key with
  | none => simp only [values, apply, Writes.overlay, staged]
  | some op => cases op <;> simp [values, apply, Writes.overlay, staged, write, WriteOp.entry]

/-- What the passing of time may do to a store: a key is as it was, or it has been
modified at a later revision, or it is gone. -/
structure Later (old new : Store) : Prop where
  revision : old.revision ≤ new.revision
  kept : forall key kv, new.kvs key = some kv ->
    old.kvs key = some kv ∨ old.revision < kv.modRevision

namespace Later

theorem refl : Later store store where
  revision := le_rfl
  kept := fun _ _ => .inl

theorem apply (writes : Writes) : Later store (store.apply writes) where
  revision := by
    simp only [Store.apply]
    split <;> omega
  kept := by
    intro key kv found
    simp only [Store.apply] at found
    split at found
    next op _ =>
      obtain ⟨entry, _, rfl⟩ := Option.map_eq_some_iff.mp found
      exact .inr (lt_add_one _)
    next => exact .inl found

end Later
end Store
end Rk8s.Slayerfs.Etcd
