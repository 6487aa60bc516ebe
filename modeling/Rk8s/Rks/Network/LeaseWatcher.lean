import Mathlib.Data.List.Nodup
import Rk8s.Lib.Transition

namespace Rk8s.Rks

open Transition List

/-!
# The stream of lease events

`LeaseWatcher` turns the watch results of the subnet registry, which are
snapshots or lists of events, into batches of events for the node.  Replaying
the batches gives the leases of the other nodes as long as no snapshot arrives
after the watcher has come to remember its own lease, which every snapshot makes
it do.
-/

/-- An address of a network and the length of the prefix. -/
structure IpNetwork (width : Nat) where
  ip : BitVec width
  prefixLen : Nat
deriving DecidableEq

/-- `attrs` stands for the attributes, the expiry and the revision. -/
structure Lease where
  enableIpv4 : Bool
  enableIpv6 : Bool
  subnet : IpNetwork 32
  ipv6Subnet : Option (IpNetwork 128)
  attrs : String
deriving DecidableEq

inductive EventType where
  | added
  | removed
deriving DecidableEq

structure Event where
  eventType : EventType
  lease : Option Lease
deriving DecidableEq

structure LeaseWatcher where
  ownLease : Lease
  leases : List Lease

/-- `events` unless they are empty, and else `snapshot`. -/
structure LeaseWatchResult where
  events : List Event
  snapshot : List Lease

def sameSubnet (ipv4Enabled ipv6Enabled : Bool) (a b : Lease) : Bool :=
  match ipv4Enabled, ipv6Enabled with
  | true, false => a.subnet == b.subnet
  | false, true => a.ipv6Subnet == b.ipv6Subnet
  | true, true => a.subnet == b.subnet && a.ipv6Subnet == b.ipv6Subnet
  | false, false => a.subnet == b.subnet

/-- How a remembered lease is compared with another. -/
def Lease.same (existing lease : Lease) : Bool :=
  sameSubnet existing.enableIpv4 existing.enableIpv6 existing lease

namespace LeaseWatcher

/-- How the own lease is compared with one of the registry. -/
def isOwn (own lease : Lease) : Bool :=
  sameSubnet lease.enableIpv4 lease.enableIpv6 own lease

/-- One round of the first loop of `reset`: the remembered leases that are left,
and the batch. -/
def resetRound (own : Lease) (state : List Lease × List Event) (newLease : Lease) :
    List Lease × List Event :=
  if isOwn own newLease then
    state
  else
    (state.1.filter fun old => !old.same newLease,
      if state.1.any fun old => old.same newLease then state.2
      else state.2 ++ [⟨.added, some newLease⟩])

variable (watcher : LeaseWatcher)

def reset (newLeases : List Lease) : List Event × LeaseWatcher :=
  let (left, batch) := newLeases.foldl (resetRound watcher.ownLease) (watcher.leases, [])
  (batch ++ left.map fun lease => ⟨.removed, some lease⟩, { watcher with leases := newLeases })

/-- `add` replaces the lease that is found or appends the new one, `remove` takes the
one that is found away. -/
def edit (kind : EventType) (lease : Lease) : List Lease -> Event × List Lease
  | [] => (⟨kind, some lease⟩, match kind with | .added => [lease] | .removed => [])
  | existing :: rest =>
    if existing.same lease then
      match kind with
      | .added => (⟨.added, some lease⟩, lease :: rest)
      | .removed => (⟨.removed, some existing⟩, rest)
    else
      ((edit kind lease rest).1, existing :: (edit kind lease rest).2)

def add (leases : List Lease) (lease : Lease) : Event × List Lease := edit .added lease leases

def remove (leases : List Lease) (lease : Lease) : Event × List Lease := edit .removed lease leases

/-- One round of the loop of `update`. -/
def updateRound (own : Lease) (state : List Lease × List Event) (event : Event) :
    List Lease × List Event :=
  match event.lease with
  | none => state
  | some lease =>
    if isOwn own lease then
      state
    else
      match event.eventType with
      | .added => ((add state.1 lease).2, state.2 ++ [(add state.1 lease).1])
      | .removed => ((remove state.1 lease).2, state.2 ++ [(remove state.1 lease).1])

def update (events : List Event) : List Event × LeaseWatcher :=
  let (leases, batch) := events.foldl (updateRound watcher.ownLease) (watcher.leases, [])
  (batch, { watcher with leases })

/-- What `watch_leases` does with a result. -/
def watch (result : LeaseWatchResult) : List Event × LeaseWatcher :=
  if result.events.isEmpty then watcher.reset result.snapshot else watcher.update result.events

end LeaseWatcher

/-! ## What the stream is for -/

abbrev SubnetKey := Option (IpNetwork 32) × Option (IpNetwork 128)

/-- The subnets that identify a lease among those with the same flags. -/
def Lease.key (lease : Lease) : SubnetKey :=
  match lease.enableIpv4, lease.enableIpv6 with
  | true, false | false, false => (some lease.subnet, none)
  | false, true => (none, lease.ipv6Subnet)
  | true, true => (some lease.subnet, lease.ipv6Subnet)

/-- Leases by subnet: the content of the registry, or of a replica of it. -/
abbrev Leases := SubnetKey -> Option Lease

def Event.apply (leases : Leases) (event : Event) : Leases :=
  match event.lease with
  | none => leases
  | some lease => fun key =>
    if key = lease.key then
      match event.eventType with
      | .added => some lease
      | .removed => none
    else leases key

def replay (events : List Event) (leases : Leases) : Leases :=
  events.foldl Event.apply leases

def lookup (leases : List Lease) : Leases :=
  fun key => leases.find? fun lease => lease.key = key

/-- The registry after the change that a watch result describes. -/
def LeaseWatchResult.content (result : LeaseWatchResult) (registry : Leases) : Leases :=
  if result.events.isEmpty then lookup result.snapshot else replay result.events registry

/-- The watcher, the registry and all events emitted so far. -/
structure LeaseStream where
  watcher : LeaseWatcher
  registry : Leases
  emitted : List Event

namespace LeaseStream

/-- At first the watcher knows nothing but its own lease. -/
def start (own : Lease) : LeaseStream := ⟨⟨own, []⟩, lookup [own], []⟩

variable (stream : LeaseStream)

/-- The next watch result.  The leases of a snapshot have different subnets, and
the own lease is always there. -/
def step (result : LeaseWatchResult) : Option LeaseStream :=
  if (result.events.isEmpty -> (result.snapshot.map Lease.key).Nodup) ∧
      (result.content stream.registry stream.watcher.ownLease.key).isSome then
    some ⟨(stream.watcher.watch result).2, result.content stream.registry,
      stream.emitted ++ (stream.watcher.watch result).1⟩
  else
    none

/-- Replaying the events gives the leases of the other nodes, and no event is
about the own lease. -/
def Tracks : Prop :=
  (forall key, replay stream.emitted (fun _ => none) key =
    if key = stream.watcher.ownLease.key then none else stream.registry key) ∧
    forall event lease, event ∈ stream.emitted -> event.lease = some lease ->
      lease.key ≠ stream.watcher.ownLease.key

def SameStack (own lease : Lease) : Prop :=
  lease.enableIpv4 = own.enableIpv4 ∧ lease.enableIpv6 = own.enableIpv6
deriving Decidable

/-- All leases have the flags of the own one, and a snapshot comes only while the
watcher does not remember its own lease and changes none that it remembers. -/
def Careful (result : LeaseWatchResult) : Prop :=
  if result.events.isEmpty then
    (forall lease, lease ∈ result.snapshot -> SameStack stream.watcher.ownLease lease) ∧
      forall old, old ∈ stream.watcher.leases -> old.key ≠ stream.watcher.ownLease.key ∧
        forall lease, lease ∈ result.snapshot -> lease.key = old.key -> lease = old
  else
    forall lease, lease ∈ result.events.filterMap Event.lease ->
      SameStack stream.watcher.ownLease lease

instance (stream : LeaseStream) (result : LeaseWatchResult) :
    Decidable (stream.Careful result) := by
  unfold Careful
  infer_instance

end LeaseStream

open LeaseStream LeaseWatcher

variable {own lease : Lease} {leases : List Lease} {registry : Leases} {emitted : List Event}

theorem same_iff {existing : Lease} (here : SameStack own existing) (there : SameStack own lease) :
    existing.same lease = true ↔ existing.key = lease.key := by
  obtain ⟨four, six⟩ := here
  obtain ⟨four', six'⟩ := there
  simp only [Lease.same, Lease.key, four, six, four', six', sameSubnet]
  cases own.enableIpv4 <;> cases own.enableIpv6 <;> simp

theorem isOwn_iff (stack : SameStack own lease) : isOwn own lease = true ↔ lease.key = own.key := by
  have itself : isOwn own lease = own.same lease := by
    rw [isOwn, Lease.same, stack.1, stack.2]
  rw [itself, same_iff ⟨rfl, rfl⟩ stack, eq_comm]

theorem lookup_cons (first : Lease) (leases : List Lease) (key : SubnetKey) :
    lookup (first :: leases) key = if first.key = key then some first else lookup leases key := by
  by_cases same : first.key = key <;> simp [same, lookup]

variable {key : SubnetKey}

theorem lookup_eq_none_iff : lookup leases key = none ↔ key ∉ leases.map Lease.key := by
  simp [lookup]

theorem lookup_eq_some (found : lookup leases key = some lease) :
    lease ∈ leases ∧ lease.key = key :=
  ⟨mem_of_find?_eq_some found, by simpa using find?_some found⟩

theorem lookup_of_mem (distinct : (leases.map Lease.key).Nodup) (member : lease ∈ leases) :
    lookup leases lease.key = some lease := by
  induction leases with
  | nil => cases member
  | cons first leases ih =>
    obtain ⟨fresh, distinct⟩ := nodup_cons.mp distinct
    rw [lookup_cons]
    rcases mem_cons.mp member with rfl | member
    · exact if_pos rfl
    have different : first.key ≠ lease.key := by
      intro same
      rw [same] at fresh
      exact fresh (mem_map_of_mem member)
    rw [if_neg different]
    exact ih distinct member

/-! ## Lists of events -/

/-- The list changes like the registry, and the event has the same effect as the given
one. -/
theorem edit_spec (kind : EventType) (stacked : ∀ old ∈ leases, SameStack own old)
    (stack : SameStack own lease) (distinct : (leases.map Lease.key).Nodup) :
    (∃ found, (edit kind lease leases).1 = ⟨kind, some found⟩ ∧
        found.key = lease.key ∧ (kind = .added -> found = lease)) ∧
      (∀ other ∈ (edit kind lease leases).2, other = lease ∨ other ∈ leases) ∧
      ((edit kind lease leases).2.map Lease.key).Nodup ∧
      ∀ key, lookup (edit kind lease leases).2 key =
        Event.apply (lookup leases) ⟨kind, some lease⟩ key := by
  induction leases with
  | nil =>
    refine ⟨⟨lease, rfl, rfl, fun _ => rfl⟩, ?_⟩
    cases kind <;> simp [edit, Event.apply, lookup, eq_comm]
  | cons existing rest ih =>
    obtain ⟨fresh, distinct⟩ := nodup_cons.mp distinct
    have same := same_iff (stacked existing (by simp)) stack
    rw [edit.eq_def]
    dsimp only
    split_ifs with found
    · rw [same] at found
      cases kind with
      | added =>
        refine ⟨⟨lease, rfl, rfl, fun _ => rfl⟩, by simp +contextual, ?_, fun key => ?_⟩
        · rw [map_cons, nodup_cons, ← found]
          exact ⟨fresh, distinct⟩
        · simp only [Event.apply, lookup_cons, found, eq_comm]
          split_ifs <;> rfl
      | removed =>
        refine ⟨⟨existing, rfl, found, nofun⟩, by simp +contextual, distinct, fun key => ?_⟩
        simp only [Event.apply, lookup_cons, found]
        split_ifs with here there
        · rw [here, ← found]
          exact lookup_eq_none_iff.mpr fresh
        · exact absurd there.symm here
        · rfl
    rw [same] at found
    obtain ⟨event, members, nodup, looked⟩ :=
      ih (fun old member => stacked old (mem_cons_of_mem _ member)) distinct
    refine ⟨event, ?_, nodup_cons.mpr ⟨?_, nodup⟩, fun key => ?_⟩
    · exact forall_mem_cons.mpr ⟨.inr (by simp), fun other member =>
        (members other member).imp_right (mem_cons_of_mem _)⟩
    · intro inside
      obtain ⟨other, member, isKey⟩ := mem_map.mp inside
      rcases members other member with rfl | member
      · exact found isKey.symm
      · exact fresh (isKey ▸ mem_map_of_mem member)
    · rw [lookup_cons, looked]
      simp only [Event.apply, lookup_cons]
      split_ifs with here there <;> first | rfl | exact absurd (here.trans there) found

/-- The remembered leases, the registry and the replayed events agree on every
lease but the own one. -/
structure Follows (own : Lease) (leases : List Lease) (registry : Leases) (emitted : List Event) :
    Prop where
  stacked : forall lease, lease ∈ leases -> SameStack own lease
  distinct : (leases.map Lease.key).Nodup
  known : forall key, key ≠ own.key -> lookup leases key = registry key
  replayed : forall key, replay emitted (fun _ => none) key =
    if key = own.key then none else registry key
  foreign : forall event lease, event ∈ emitted -> event.lease = some lease -> lease.key ≠ own.key

variable {state : List Lease × List Event}

theorem Follows.updateRound {event : Event}
    (follows : Follows own state.1 registry (emitted ++ state.2))
    (stack : ∀ lease, event.lease = some lease -> SameStack own lease) :
    Follows own (updateRound own state event).1 (event.apply registry)
      (emitted ++ (updateRound own state event).2) := by
  obtain ⟨kind, _ | lease⟩ := event
  · exact follows
  have stack := stack lease rfl
  -- Both sides of the replica change alike, except for the own lease.
  have agree : ∀ first second : Leases,
      (∀ key ≠ own.key, first key = second key) -> ∀ key ≠ own.key,
        Event.apply first ⟨kind, some lease⟩ key = Event.apply second ⟨kind, some lease⟩ key := by
    intro first second same key notOwn
    simp only [Event.apply, same key notOwn]
  by_cases isOwn : lease.key = own.key
  · have skipped : LeaseWatcher.updateRound own state ⟨kind, some lease⟩ = state :=
      if_pos ((isOwn_iff stack).mpr isOwn)
    rw [skipped]
    have others : ∀ key ≠ own.key, Event.apply registry ⟨kind, some lease⟩ key = registry key :=
      fun key notOwn => if_neg (isOwn ▸ notOwn)
    refine { follows with known := ?_, replayed := ?_ }
    · intro key notOwn
      rw [follows.known key notOwn, others key notOwn]
    intro key
    rw [follows.replayed]
    split_ifs with here
    · rfl
    · exact (others key here).symm
  have edited : LeaseWatcher.updateRound own state ⟨kind, some lease⟩ =
      ((edit kind lease state.1).2, state.2 ++ [(edit kind lease state.1).1]) := by
    refine (if_neg ((isOwn_iff stack).not.mpr isOwn)).trans ?_
    cases kind <;> rfl
  obtain ⟨⟨found, isEvent, sameKey, isLease⟩, members, nodup, looked⟩ :=
    edit_spec kind follows.stacked stack follows.distinct
  have effect : ∀ leases, Event.apply leases ⟨kind, some found⟩ =
      Event.apply leases ⟨kind, some lease⟩ := by
    intro leases
    cases kind with
    | added => rw [isLease rfl]
    | removed => simp only [Event.apply, sameKey]
  rw [edited, ← append_assoc, isEvent]
  refine ⟨?_, nodup, fun key notOwn => ?_, fun key => ?_, ?_⟩
  · intro other member
    rcases members other member with rfl | member
    · exact stack
    · exact follows.stacked other member
  · exact (looked key).trans (agree _ _ follows.known key notOwn)
  · rw [replay, foldl_concat, ← replay, effect]
    split_ifs with here
    · rw [Event.apply]
      dsimp only
      rw [if_neg (here ▸ Ne.symm isOwn), follows.replayed, if_pos here]
    · refine agree _ _ (fun key notOwn => ?_) key here
      rw [follows.replayed, if_neg notOwn]
  intro event other member found
  rcases mem_append.mp member with member | member
  · exact follows.foreign event other member found
  · cases mem_singleton.mp member
    cases found
    exact sameKey ▸ isOwn

theorem Follows.update {events : List Event}
    (follows : Follows own state.1 registry (emitted ++ state.2))
    (stacked : ∀ lease ∈ events.filterMap Event.lease, SameStack own lease) :
    Follows own (events.foldl (LeaseWatcher.updateRound own) state).1 (replay events registry)
      (emitted ++ (events.foldl (LeaseWatcher.updateRound own) state).2) := by
  induction events generalizing state registry with
  | nil => exact follows
  | cons event events ih =>
    refine ih (follows.updateRound fun lease isLease => stacked lease ?_) fun lease member =>
      stacked lease ?_
    · exact mem_filterMap.mpr ⟨event, by simp, isLease⟩
    · obtain ⟨other, member, isLease⟩ := mem_filterMap.mp member
      exact mem_filterMap.mpr ⟨other, mem_cons_of_mem _ member, isLease⟩

/-! ## Snapshots -/

/-- The leases of a snapshot that the watcher does not remember. -/
def news (own : Lease) (leases snapshot : List Lease) : List Lease :=
  snapshot.filter fun lease => lease.key ≠ own.key ∧ forall old, old ∈ leases -> old.key ≠ lease.key

/-- The remembered leases that no other lease of the snapshot replaces. -/
def gone (own : Lease) (leases snapshot : List Lease) : List Lease :=
  leases.filter fun old => forall lease, lease ∈ snapshot -> lease.key ≠ own.key ->
    lease.key ≠ old.key

variable {snapshot : List Lease}

theorem foldl_resetRound (batch : List Event) (known : ∀ old ∈ leases, SameStack own old)
    (stacked : ∀ lease ∈ snapshot, SameStack own lease)
    (distinct : (snapshot.map Lease.key).Nodup) :
    snapshot.foldl (resetRound own) (leases, batch) = (gone own leases snapshot,
      batch ++ (news own leases snapshot).map fun lease => ⟨.added, some lease⟩) := by
  induction snapshot generalizing leases batch with
  | nil => simp [gone, news]
  | cons lease rest ih =>
    obtain ⟨fresh, distinct⟩ := nodup_cons.mp distinct
    obtain ⟨stack, stacked⟩ := forall_mem_cons.mp stacked
    rw [foldl_cons, resetRound]
    by_cases isOwn : lease.key = own.key
    · rw [if_pos ((isOwn_iff stack).mpr isOwn), ih batch known stacked distinct]
      simp [isOwn, gone, news]
    have same : ∀ old ∈ leases, (old.same lease = true ↔ old.key = lease.key) :=
      fun old member => same_iff (known old member) stack
    -- The leases of the later rounds have other subnets than this one.
    have later : news own (leases.filter fun old => !old.same lease) rest =
        news own leases rest := by
      refine filter_congr fun other member => ?_
      grind
    rw [if_neg ((isOwn_iff stack).not.mpr isOwn),
      ih _ (fun old member => known old (mem_of_mem_filter member)) stacked distinct, later]
    refine Prod.ext ?_ ?_
    · rw [gone, filter_filter]
      refine filter_congr fun old member => ?_
      grind
    have any : (leases.any fun old => old.same lease) = true ↔
        ¬ ∀ old ∈ leases, old.key ≠ lease.key := by
      grind
    rw [news, news, filter_cons]
    by_cases found : ∀ old ∈ leases, old.key ≠ lease.key
    · rw [if_neg (any.not.mpr (not_not.mpr found)), if_pos (decide_eq_true ⟨isOwn, found⟩),
        map_cons]
      exact (append_cons ..).symm
    · rw [if_pos (any.mpr found), if_neg (by simp [found])]

theorem replay_added {news : List Lease} (events : List Event) (key : SubnetKey) (registry : Leases)
    (distinct : (news.map Lease.key).Nodup) :
    replay (events ++ news.map fun lease => ⟨.added, some lease⟩) registry key =
      (lookup news key).or (replay events registry key) := by
  induction news generalizing events with
  | nil => simp [lookup]
  | cons lease news ih =>
    obtain ⟨fresh, distinct⟩ := nodup_cons.mp distinct
    rw [map_cons, append_cons, ih _ distinct, replay, foldl_concat, ← replay, lookup_cons,
      Event.apply]
    by_cases here : key = lease.key
    · subst here
      simp [lookup_eq_none_iff.mpr fresh]
    · simp [here, Ne.symm here]

theorem replay_removed (events : List Event) (leases : List Lease) (key : SubnetKey)
    (registry : Leases) :
    replay (events ++ leases.map fun lease => ⟨.removed, some lease⟩) registry key =
      if key ∈ leases.map Lease.key then none else replay events registry key := by
  induction leases generalizing events with
  | nil => simp
  | cons lease leases ih =>
    rw [map_cons, append_cons, ih, replay, foldl_concat, ← replay, Event.apply]
    by_cases here : key = lease.key <;> simp [here]

theorem Follows.reset (follows : Follows own leases registry emitted)
    (stacked : ∀ lease ∈ snapshot, SameStack own lease)
    (distinct : (snapshot.map Lease.key).Nodup)
    (careful : ∀ old ∈ leases, old.key ≠ own.key ∧
      ∀ lease ∈ snapshot, lease.key = old.key -> lease = old) :
    Follows own snapshot (lookup snapshot)
      (emitted ++ (LeaseWatcher.reset ⟨own, leases⟩ snapshot).1) := by
  rw [LeaseWatcher.reset, foldl_resetRound [] follows.stacked stacked distinct, nil_append,
    ← append_assoc]
  refine ⟨stacked, distinct, fun _ _ => rfl, fun key => ?_, fun event lease member found => ?_⟩
  · have isNews : ∀ lease, lease ∈ news own leases snapshot ↔ lease ∈ snapshot ∧
        lease.key ≠ own.key ∧ ∀ old ∈ leases, old.key ≠ lease.key := by
      simp [news]
    have isGone : ∀ old, old ∈ gone own leases snapshot ↔ old ∈ leases ∧
        ∀ lease ∈ snapshot, lease.key ≠ own.key -> lease.key ≠ old.key := by
      simp [gone]
    have fresh : ((news own leases snapshot).map Lease.key).Nodup :=
      distinct.sublist (filter_sublist.map _)
    rw [replay_removed, replay_added _ _ _ fresh, follows.replayed]
    have noNews : (∀ lease ∈ snapshot, lease.key = key -> key ≠ own.key ->
        key ∈ leases.map Lease.key) -> lookup (news own leases snapshot) key = none := by
      refine fun old => lookup_eq_none_iff.mpr fun inside => ?_
      obtain ⟨lease, member, rfl⟩ := mem_map.mp inside
      obtain ⟨member, notOwn, new⟩ := (isNews lease).mp member
      obtain ⟨old, isOld, sameKey⟩ := mem_map.mp (old lease member rfl notOwn)
      exact new old isOld sameKey
    by_cases here : key = own.key
    · rw [if_pos here, if_pos here, noNews fun _ _ _ notOwn => absurd here notOwn]
      exact ite_self none
    rw [if_neg here, if_neg here, ← follows.known key here]
    cases isLease : lookup snapshot key with
    | none =>
      have absent := lookup_eq_none_iff.mp isLease
      rw [noNews fun lease member isKey => absurd (isKey ▸ mem_map_of_mem member) absent]
      split_ifs with inside
      · rfl
      · refine lookup_eq_none_iff.mpr fun known => inside ?_
        obtain ⟨old, member, rfl⟩ := mem_map.mp known
        refine mem_map_of_mem ((isGone old).mpr ⟨member, fun lease isNew _ isKey => ?_⟩)
        exact absent (isKey ▸ mem_map_of_mem isNew)
    | some lease =>
      obtain ⟨member, rfl⟩ := lookup_eq_some isLease
      rw [if_neg]
      · cases known : lookup leases lease.key with
        | none =>
          refine congrArg (Option.or · none) (lookup_of_mem fresh ((isNews lease).mpr ?_))
          refine ⟨member, here, fun old isOld sameKey => ?_⟩
          exact lookup_eq_none_iff.mp known (sameKey ▸ mem_map_of_mem isOld)
        | some old =>
          obtain ⟨isOld, sameKey⟩ := lookup_eq_some known
          rw [noNews fun _ _ _ _ => sameKey ▸ mem_map_of_mem isOld,
            (careful old isOld).2 lease member sameKey.symm]
          rfl
      · intro inside
        obtain ⟨old, isOld, sameKey⟩ := mem_map.mp inside
        exact ((isGone old).mp isOld).2 lease member here sameKey.symm
  · simp only [mem_append, mem_map, news, gone, mem_filter, decide_eq_true_eq] at member
    rcases member with (member | ⟨_, ⟨_, notOwn, _⟩, rfl⟩) | ⟨_, ⟨old, _⟩, rfl⟩
    · exact follows.foreign event lease member found
    · cases found
      exact notOwn
    · cases found
      exact (careful _ old).1

namespace LeaseStream

variable {stream next : LeaseStream} {result : LeaseWatchResult}

/-- The watcher follows the registry and keeps its own lease. -/
def Inv (own : Lease) (stream : LeaseStream) : Prop :=
  stream.watcher.ownLease = own ∧ Follows own stream.watcher.leases stream.registry stream.emitted

theorem inv_start (own : Lease) : Inv own (start own) := by
  have others : ∀ key ≠ own.key, lookup [own] key = none := by
    intro key notOwn
    rw [lookup_cons, if_neg notOwn.symm]
    rfl
  refine ⟨rfl, by simp [start], by simp [start], fun key notOwn => (others key notOwn).symm,
    fun key => ?_, by simp [start]⟩
  split_ifs with isOwn
  · rfl
  · exact (others key isOwn).symm

theorem Inv.step (inv : Inv own stream) (careful : stream.Careful result)
    (taken : stream.step result = some next) : Inv own next := by
  obtain ⟨⟨watcherOwn, leases⟩, registry, emitted⟩ := stream
  obtain ⟨rfl, follows⟩ := inv
  rw [step] at taken
  split_ifs at taken with proper
  cases taken
  rw [Careful] at careful
  rw [LeaseWatchResult.content, LeaseWatcher.watch]
  by_cases isSnapshot : result.events.isEmpty
  · rw [if_pos isSnapshot] at careful
    rw [if_pos isSnapshot, if_pos isSnapshot]
    exact ⟨rfl, follows.reset careful.1 (proper.1 isSnapshot) careful.2⟩
  rw [if_neg isSnapshot] at careful
  rw [if_neg isSnapshot, if_neg isSnapshot]
  refine ⟨rfl, @Follows.update _ _ _ (leases, []) _ ?_ careful⟩
  rw [append_nil]
  exact follows

/-- As long as snapshots come before the watcher remembers its own lease and
change nothing that it remembers, the events give the leases of the others. -/
theorem tracks_of_careful {own : Lease} {results : List LeaseWatchResult} {final : LeaseStream}
    (run : Run LeaseStream.step Careful (start own) results final) : final.Tracks := by
  obtain ⟨rfl, follows⟩ := run.invariant (Inv own) (inv_start own)
    fun _ _ _ inv careful taken => inv.step careful taken
  exact ⟨follows.replayed, follows.foreign⟩

def nodeLease (index : Nat) (attrs : String) : Lease :=
  ⟨true, false, ⟨BitVec.ofNat 32 (0x0a000000 + 256 * index), 24⟩, none, attrs⟩

/-- A snapshot with another node, which then changes its attributes and leaves,
while a third one comes. -/
theorem tracks_of_careful_two_nodes :
    Exists fun final : LeaseStream =>
      final.emitted.length = 4 ∧ (final.registry (nodeLease 3 "c").key).isSome ∧ final.Tracks := by
  obtain ⟨final, run, count, present⟩ : ∃ final,
      Run step Careful (start (nodeLease 1 "a"))
        [⟨[], [nodeLease 1 "a", nodeLease 2 "b"]⟩,
          ⟨[⟨.added, some (nodeLease 2 "b'")⟩, ⟨.added, some (nodeLease 3 "c")⟩], []⟩,
          ⟨[⟨.removed, some (nodeLease 2 "b'")⟩], []⟩] final ∧
        final.emitted.length = 4 ∧ (final.registry (nodeLease 3 "c").key).isSome :=
    exists_run (by decide +kernel)
  exact ⟨final, count, present, tracks_of_careful run⟩

/-- The second snapshot withdraws the node's own lease, and does not pass on the
new attributes of the other node. -/
theorem second_snapshot_removes_own_lease :
    Exists fun final : LeaseStream =>
      Run LeaseStream.step anyStep (start (nodeLease 1 "a"))
        [⟨[], [nodeLease 1 "a", nodeLease 2 "b"]⟩, ⟨[], [nodeLease 1 "a", nodeLease 2 "b'"]⟩]
        final ∧
        ¬ final.Tracks := by
  refine exists_run_of (fun final => final.watcher.ownLease = nodeLease 1 "a" ∧
    (⟨.removed, some (nodeLease 1 "a")⟩ : Event) ∈ final.emitted) (by decide +kernel) ?_
  rintro final run ⟨isOwn, removed⟩ tracks
  exact tracks.2 _ _ removed rfl (by rw [isOwn])

end LeaseStream
end Rk8s.Rks
