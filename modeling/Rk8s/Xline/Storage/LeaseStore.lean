import Rk8s.Xline.Storage.KvStore

namespace Rk8s.Xline.Storage

open Effect

/-!
# The lease store

Granting and revoking leases.  Revoking a lease deletes its keys, under one
revision; the sub revision of a key is its position in the set of keys.
-/

inductive LeaseRequest
  | grant (id ttl : Int)
  | revoke (id : Int)

inductive LeaseResponse
  | grant (id ttl : Int)
  | revoke

def maxLeaseTtl : Int := 9000000000

/-- `LeaseStore::execute`: the checks of a request. -/
def handleLeaseRequest (leases : LeaseCollection) :
    LeaseRequest -> Except ExecuteError LeaseResponse
  | .grant id ttl =>
    if id = 0 then .error (.leaseNotFound 0)
    else if maxLeaseTtl < ttl then .error (.leaseTtlTooLarge ttl)
    else if leases.containsLease id then .error (.leaseAlreadyExists id)
    else .ok (.grant id ttl)
  | .revoke id =>
    if leases.containsLease id then .ok .revoke else .error (.leaseNotFound id)

def writeLease (op : LeaseOp) : Exec Unit :=
  update fun batch => ({ batch with leaseOps := batch.leaseOps ++ [op] }, ())

def syncLeaseGrantRequest (id ttl : Int) : Exec Unit := do
  let lease ← update fun batch =>
    let (leases, lease) := batch.store.leases.grant id ttl
    ({ batch with store := { batch.store with leases } }, lease)
  writeLease (.putLease lease)

/-- Delete the keys of a lease, one after the other. -/
def revokeKeys (revision : Int) : List Key -> Int -> Exec (List Event)
  | [], _ => pure []
  | key :: keys, position => do
      update fun batch => ({ batch with subRevision := position }, ())
      let deleted ← deleteKeys key [] revision
      changeLeases fun leases => leases.detachLeases deleted
      let events ← revokeKeys revision keys (position + 1)
      pure (newDeletionEvents revision deleted ++ events)

/-- Revoke a lease that has keys, and tell the watchers. -/
def revokeAttached (id revision : Int) (keys : List Key) : Exec Unit := do
  let events ← revokeKeys revision keys 0
  update fun batch =>
    ({ batch with
        store :=
          { batch.store with leases := batch.store.leases.revoke id }.notifyUpdates
            revision events }, ())

variable (order : SetOrder)

/-- Revoke a lease.  Returns whether keys were deleted. -/
def syncLeaseRevokeRequest (id revision : Int) : Exec Bool := do
  writeLease (.deleteLease id)
  let keys ← check fun batch =>
    match batch.store.leases.lookUp id with
    | some lease => .ok (lease.keys order)
    | none => .error (.leaseNotFound id)
  if keys = [] then do
    changeLeases fun leases => leases.revoke id
    pure false
  else do
    revokeAttached id revision keys
    pure true

/-- The revision of a lease request, a new one if it deleted keys. -/
def finishLease (updated : Bool) : Exec Int :=
  update fun batch =>
    if updated then
      ({ batch with nextRevision := batch.nextRevision + 1 }, batch.nextRevision + 1)
    else (batch, batch.nextRevision)

/-- What a request does, and whether it deleted keys. -/
def syncLeaseBody (revision : Int) : LeaseRequest -> Exec Bool
  | .grant id ttl => do
      syncLeaseGrantRequest id ttl
      pure false
  | .revoke id => syncLeaseRevokeRequest order id revision

/-- `LeaseStore::after_sync`. -/
def syncLeaseRequest (req : LeaseRequest) : Exec Int := do
  let nextRevision ← start
  let updated ← syncLeaseBody order nextRevision req
  finishLease updated

end Rk8s.Xline.Storage
