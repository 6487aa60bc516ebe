import Rk8s.Xline.Storage.KvStore

namespace Rk8s.Xline.Storage

open Option Std

/-!
# The two directions of an attachment

The collection stores twice that a key is attached to a lease: in the key set of
the lease, and in the item map.  The operations keep the two in step, provided
that a lease is granted under an id that is not in use and that a lease that is
revoked has no keys.
-/

namespace Lease

variable {lease : Lease} {key other : Key}

theorem mem_insertKey :
    other ∈ (lease.insertKey key).keysSet ↔ key = other ∨ other ∈ lease.keysSet := by
  simp [insertKey]

theorem mem_removeKey :
    other ∈ (lease.removeKey key).keysSet ↔ key ≠ other ∧ other ∈ lease.keysSet := by
  simp [removeKey]

theorem mem_keys (order : SetOrder) : key ∈ lease.keys order ↔ key ∈ lease.keysSet := by
  unfold keys
  rw [(order.perm _).mem_iff, ExtTreeSet.mem_toList]

end Lease

namespace LeaseCollection

variable {leases : LeaseCollection} {key : Key} {id : Int}

/-- The key is in the key set of the lease. -/
def Holds (leases : LeaseCollection) (id : Int) (key : Key) : Prop :=
  Exists fun lease => leases.leaseMap[id]? = some lease ∧ key ∈ lease.keysSet

/-- The item map says what the key sets say. -/
structure Linked (leases : LeaseCollection) : Prop where
  item_iff : forall key id, leases.itemMap[key]? = some id ↔ leases.Holds id key
  nonzero : forall (key : Key) id, leases.itemMap[key]? = some id -> id ≠ 0

/-- The change leaves the leases that there are, and the lease of each key but
one. -/
structure Moves (leases after : LeaseCollection) (key : Key) (item : Option Int) : Prop where
  linked : after.Linked
  item_eq : forall other : Key,
    after.itemMap[other]? = if key = other then item else leases.itemMap[other]?
  contains_eq : forall id, after.containsLease id = leases.containsLease id

theorem containsLease_eq (leases : LeaseCollection) (id : Int) :
    leases.containsLease id = leases.leaseMap[id]?.isSome :=
  ExtTreeMap.isSome_getElem?_eq_contains.symm

theorem isSome_insert_of_mem {lease changed : Lease} (there : leases.leaseMap[id]? = some lease)
    (other : Int) :
    (leases.leaseMap.insert id changed)[other]?.isSome = leases.leaseMap[other]?.isSome := by
  rw [lookup_insert]
  split
  · next same =>
    rw [← same, there]
    rfl
  · rfl

/-- Which keys a lease holds when one lease has been replaced. -/
theorem holds_insert {changed : Lease} {items : ExtTreeMap Key Int} (other : Int) (candidate : Key) :
    { leases with leaseMap := leases.leaseMap.insert id changed, itemMap := items }.Holds
        other candidate ↔
      if id = other then candidate ∈ changed.keysSet else leases.Holds other candidate := by
  unfold Holds
  simp only [lookup_insert]
  split
  · simp
  · rfl

variable (linked : leases.Linked)
include linked

/-- Detaching a key from its lease. -/
theorem Linked.detachLease (key : Key) : Moves leases (leases.detachLease key) key none := by
  have only (other : Int) (held : leases.Holds other key) : other = leases.getLease key := by
    unfold getLease
    rw [(linked.item_iff key other).mpr held]
    rfl
  unfold LeaseCollection.detachLease detach
  cases there : leases.leaseMap[leases.getLease key]? with
  | none =>
    have free : leases.itemMap[key]? = none := by
      cases item : leases.itemMap[key]? with
      | none => rfl
      | some id =>
        have held := (linked.item_iff key id).mp item
        have same := only id held
        obtain ⟨lease, isLease, _⟩ := held
        rw [same, there] at isLease
        cases isLease
    refine ⟨linked, fun other => ?_, fun _ => rfl⟩
    simp only [Except.toOption, getD_none]
    split
    · next same => rw [← same, free]
    · rfl
  | some lease =>
    simp only [Except.toOption, getD_some]
    have item_eq (other : Key) : (leases.itemMap.erase key)[other]? =
        if key = other then none else leases.itemMap[other]? := lookup_erase _ _ _
    refine ⟨⟨fun other id => ?_, fun other id item => ?_⟩, item_eq, fun id => ?_⟩
    · rw [holds_insert, item_eq]
      by_cases same : key = other
      · subst same
        simp only [ite_true, Lease.mem_removeKey, ne_eq, not_true_eq_false, false_and,
          reduceCtorEq, false_iff]
        split
        · exact not_false
        · next different => exact fun held => different (only id held).symm
      rw [if_neg same, linked.item_iff]
      split
      · next isLease =>
        subst isLease
        simp [Holds, there, Lease.mem_removeKey, same]
      · rfl
    · rw [item_eq] at item
      split at item
      · cases item
      · exact linked.nonzero other id item
    · rw [containsLease_eq, containsLease_eq]
      exact isSome_insert_of_mem there id

/-- Attaching a free key to a lease. -/
theorem Linked.attach (free : leases.itemMap[key]? = none)
    (nonzero : id ≠ 0) (known : leases.containsLease id = true) :
    Moves leases ((leases.attach id key).toOption.getD leases) key (some id) := by
  rw [containsLease_eq] at known
  obtain ⟨lease, there⟩ := isSome_iff_exists.mp known
  have item_eq (other : Key) : (leases.itemMap.insert key id)[other]? =
      if key = other then some id else leases.itemMap[other]? := lookup_insert _ _ _ _
  simp only [LeaseCollection.attach, there, Except.toOption, getD_some]
  refine ⟨⟨fun other lease' => ?_, fun other lease' item => ?_⟩, item_eq, fun other => ?_⟩
  · rw [holds_insert, item_eq]
    by_cases same : key = other
    · subst same
      simp only [ite_true, Lease.mem_insertKey, some.injEq]
      split
      · next isLease => simp [isLease]
      · next different =>
        refine ⟨fun equal => absurd equal different, fun held => ?_⟩
        rw [(linked.item_iff key lease').mpr held] at free
        cases free
    rw [if_neg same, linked.item_iff]
    split
    · next isLease =>
      subst isLease
      simp [Holds, there, Lease.mem_insertKey, same]
    · rfl
  · rw [item_eq] at item
    split at item
    · cases item
      exact nonzero
    · exact linked.nonzero other lease' item
  · rw [containsLease_eq, containsLease_eq]
    exact isSome_insert_of_mem there other

/-- A put moves its key to the lease of the request. -/
theorem Linked.attachLease (key : Key) {lease : Int}
    (known : lease = 0 ∨ leases.containsLease lease = true) :
    Moves leases (Batch.attachLease leases key lease) key
      (if lease = 0 then none else some lease) := by
  -- After the first half the key is free.
  have freed : Moves leases
      (if leases.getLease key ≠ 0 then leases.detachLease key else leases) key none := by
    split
    · exact linked.detachLease key
    next noLease =>
    refine ⟨linked, fun other => ?_, fun _ => rfl⟩
    split
    · next same =>
      subst same
      cases item : leases.itemMap[key]? with
      | none => rfl
      | some id =>
        have isLease : leases.getLease key = id := by simp [getLease, item]
        rw [isLease] at noLease
        exact absurd (linked.nonzero key id item) noLease
    · rfl
  unfold Batch.attachLease
  generalize (if leases.getLease key ≠ 0 then leases.detachLease key else leases) = between at freed
  by_cases zero : lease = 0
  · simpa [zero] using freed
  have free : between.itemMap[key]? = none := by rw [freed.item_eq, if_pos rfl]
  have knownBetween : between.containsLease lease = true := by
    rw [freed.contains_eq]
    exact known.resolve_left zero
  have moved := freed.linked.attach free zero knownBetween
  rw [if_pos zero]
  refine ⟨moved.linked, fun other => ?_, fun id => ?_⟩
  · rw [moved.item_eq, freed.item_eq]
    split <;> rfl
  · rw [moved.contains_eq, freed.contains_eq]

/-- Detaching several keys. -/
theorem Linked.detachLeases (keys : List Key) :
    (leases.detachLeases keys).Linked ∧
      (∀ key : Key, (leases.detachLeases keys).itemMap[key]? =
        if key ∈ keys then none else leases.itemMap[key]?) ∧
      ∀ id, (leases.detachLeases keys).containsLease id = leases.containsLease id := by
  induction keys generalizing leases with
  | nil => exact ⟨linked, fun _ => rfl, fun _ => rfl⟩
  | cons first keys ih =>
    have moved := linked.detachLease first
    obtain ⟨after, items, contains⟩ := ih moved.linked
    refine ⟨after, fun key => ?_, fun id => (contains id).trans (moved.contains_eq id)⟩
    have step := items key
    rw [moved.item_eq] at step
    rw [show (leases.detachLeases (first :: keys)).itemMap[key]? = _ from step]
    by_cases same : first = key
    · simp [same]
    · by_cases member : key ∈ keys <;> simp [same, Ne.symm same]

theorem Linked.grant (unused : leases.containsLease id = false)
    (ttl : Int) : (leases.grant id ttl).1.Linked := by
  have absent : leases.leaseMap[id]? = none := by
    rw [containsLease_eq] at unused
    exact not_isSome_iff_eq_none.mp (by simp [unused])
  refine ⟨fun key other => ?_, linked.nonzero⟩
  rw [show (leases.grant id ttl).1.itemMap = leases.itemMap from rfl, linked.item_iff]
  refine Iff.trans ?_ (holds_insert other key).symm
  split
  · next same =>
    subst same
    simp [Holds, absent]
  · rfl

theorem Linked.revoke (empty : ∀ key, ¬ leases.Holds id key) : (leases.revoke id).Linked := by
  refine ⟨fun key other => ?_, linked.nonzero⟩
  rw [show (leases.revoke id).itemMap = leases.itemMap from rfl, linked.item_iff]
  unfold Holds LeaseCollection.revoke
  simp only [lookup_erase]
  split
  · next same =>
    subst same
    simpa [Holds] using empty key
  · rfl

end LeaseCollection

end Rk8s.Xline.Storage
