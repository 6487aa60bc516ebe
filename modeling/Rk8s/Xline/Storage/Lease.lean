import Rk8s.Lib.Collections
import Rk8s.Xline.Api.Request

namespace Rk8s.Xline.Storage

open Std

/-!
# The lease collection

A lease has a set of keys; the keys go with the lease.  The collection keeps the
leases by their ids and, for each attached key, the id of its lease.  Expiry
times do not take part in the application of commands and are left out.
-/

/-- The order in which a hash set lists its elements: any order. -/
structure SetOrder where
  list : List Key -> List Key
  perm : forall keys, (list keys).Perm keys

structure Lease where
  id : Int
  ttl : Int
  keysSet : ExtTreeSet Key := ∅

namespace Lease

def keys (order : SetOrder) (lease : Lease) : List Key := order.list lease.keysSet.toList

def insertKey (lease : Lease) (key : Key) : Lease :=
  { lease with keysSet := lease.keysSet.insert key }

def removeKey (lease : Lease) (key : Key) : Lease :=
  { lease with keysSet := lease.keysSet.erase key }

end Lease

/-- The message in which a lease is stored. -/
structure PbLease where
  id : Int
  ttl : Int
  remainingTtl : Int

structure LeaseCollection where
  leaseMap : ExtTreeMap Int Lease := ∅
  itemMap : ExtTreeMap Key Int := ∅
  /-- Minimal time to live, in seconds. -/
  minTtl : Int

namespace LeaseCollection

variable (leases : LeaseCollection) (leaseId : Int)

/-- Attach a key to a lease. -/
def attach (key : Key) : Except ExecuteError LeaseCollection :=
  match leases.leaseMap[leaseId]? with
  | none => .error (.leaseNotFound leaseId)
  | some lease =>
    .ok { leases with
      leaseMap := leases.leaseMap.insert leaseId (lease.insertKey key)
      itemMap := leases.itemMap.insert key leaseId }

/-- Detach a key from a lease. -/
def detach (key : Key) : Except ExecuteError LeaseCollection :=
  match leases.leaseMap[leaseId]? with
  | none => .error (.leaseNotFound leaseId)
  | some lease =>
    .ok { leases with
      leaseMap := leases.leaseMap.insert leaseId (lease.removeKey key)
      itemMap := leases.itemMap.erase key }

/-- The lease of a key, zero if it has none. -/
def getLease (key : Key) : Int := leases.itemMap[key]?.getD 0

def lookUp : Option Lease := leases.leaseMap[leaseId]?

def containsLease : Bool :=
  leases.leaseMap.contains leaseId

/-- Grant a lease. -/
def grant (ttl : Int) : LeaseCollection × PbLease :=
  let lease : Lease := { id := leaseId, ttl := max ttl leases.minTtl }
  ({ leases with leaseMap := leases.leaseMap.insert leaseId lease },
    { id := lease.id, ttl := lease.ttl, remainingTtl := lease.ttl })

def revoke : LeaseCollection :=
  { leases with leaseMap := leases.leaseMap.erase leaseId }

/-- Detach a key from its lease; a failure is only logged. -/
def detachLease (key : Key) : LeaseCollection :=
  (leases.detach (leases.getLease key) key).toOption.getD leases

/-- Detach keys from their leases. -/
def detachLeases (keys : List Key) : LeaseCollection :=
  keys.foldl detachLease leases

end LeaseCollection

end Rk8s.Xline.Storage
