import Rk8s.Scheduler.Tokens

namespace Rk8s.Scheduler

open SchedulingQueue Cache Option Std Transition List Scheduler.System Worker

/-!
# Pods do not get lost

A pod that waits for a node has an entry in a queue, or a task has one in hand.
Entries are dropped by the flush of the unschedulable queue, by `schedule_one`
for a pod whose priority has changed, for a node that has gone, and by a panic.
Apart from that, every step that takes an entry puts it back or gives the pod a
node.
-/

/-- The pod that `schedule_one` has read, with the entry it popped. -/
def Worker.snapshot : Worker -> Option (PodNameWithPriority × PodInfo)
  | .looked entry pod _ => some (entry, pod)
  | .failed entry pod _ => some (entry, pod)
  | .chose entry pod _ => some (entry, pod)
  | _ => none

/-- Name and spec of a cached pod, which only calls of the user change. -/
def Cache.identity (cache : Cache) (name : Name) : Option (Name × PodSpec) :=
  cache.pods[name]?.map fun pod => (pod.name, pod.spec)

namespace System

variable {config : Config} {s next : System} {entry : PodNameWithPriority} {name : Name}

theorem mem_tokens :
    entry ∈ s.tokens ↔
      entry ∈ s.queue.entries ∨ entry ∈ s.worker.holds ∨ entry ∈ s.watchdog.holds ∨
        entry ∈ s.call.holds := by
  simp [tokens]

theorem token_queue (queued : entry ∈ s.queue.entries) : entry ∈ s.tokens :=
  mem_tokens.mpr (.inl queued)

theorem token_worker (held : entry ∈ s.worker.holds) : entry ∈ s.tokens :=
  mem_tokens.mpr (.inr (.inl held))

theorem token_watchdog (held : entry ∈ s.watchdog.holds) : entry ∈ s.tokens :=
  mem_tokens.mpr (.inr (.inr (.inl held)))

theorem token_call (held : entry ∈ s.call.holds) : entry ∈ s.tokens :=
  mem_tokens.mpr (.inr (.inr (.inr held)))

/-- An entry stays if whoever has it keeps it or passes it on. -/
theorem token_moves (token : entry ∈ s.tokens)
    (queue : next.queue = s.queue ∨ (entry ∈ s.queue.entries -> entry ∈ next.tokens))
    (worker : next.worker = s.worker ∨ (entry ∈ s.worker.holds -> entry ∈ next.tokens))
    (watchdog : next.watchdog = s.watchdog ∨ (entry ∈ s.watchdog.holds -> entry ∈ next.tokens))
    (call : next.call = s.call ∨ (entry ∈ s.call.holds -> entry ∈ next.tokens)) :
    entry ∈ next.tokens := by
  rcases mem_tokens.mp token with queued | held | later | last
  · exact queue.elim (fun same => token_queue (same ▸ queued)) fun passed => passed queued
  · exact worker.elim (fun same => token_worker (same ▸ held)) fun passed => passed held
  · exact watchdog.elim (fun same => token_watchdog (same ▸ later)) fun passed => passed later
  · exact call.elim (fun same => token_call (same ▸ last)) fun passed => passed last

/-- The pod has no node and has been let into the queue. -/
def Wants (s : System) (name : Name) (pod : PodInfo) : Prop :=
  s.cache.pods[name]? = some pod ∧ pod.scheduled = none ∧ name ∈ s.admitted

theorem exists_of_identity {cache after : Cache} {pod : PodInfo}
    (same : after.identity name = cache.identity name) (known : after.pods[name]? = some pod) :
    ∃ old, cache.pods[name]? = some old ∧ old.name = pod.name ∧ old.spec = pod.spec := by
  unfold identity at same
  rw [known] at same
  obtain ⟨old, isOld, equal⟩ := map_eq_some_iff.mp same.symm
  exact ⟨old, isOld, Prod.mk.inj equal⟩

structure Kept (s : System) : Prop where
  named : forall (name : Name) pod, s.cache.pods[name]? = some pod -> pod.name = name
  seen : forall entry pod, s.worker.snapshot = some (entry, pod) ->
    entry = (pod.spec.priority, pod.name)
  calling : forall original pod, s.call = .updatedPod original pod ->
    s.cache.identity pod.name = some (pod.name, pod.spec)
  waits : forall name pod, s.Wants name pod -> (pod.spec.priority, name) ∈ s.tokens

variable (kept : s.Kept)
include kept

/-- A step that changes no name and no spec. -/
theorem Kept.of_identity
    (same : ∀ name, next.cache.identity name = s.cache.identity name)
    (seen : ∀ entry pod, next.worker.snapshot = some (entry, pod) ->
      entry = (pod.spec.priority, pod.name))
    (calling : ∀ original pod, next.call = .updatedPod original pod -> next.call = s.call)
    (waits : ∀ name pod, next.Wants name pod -> (pod.spec.priority, name) ∈ next.tokens) :
    next.Kept where
  named := by
    intro name pod known
    obtain ⟨old, isOld, sameName, _⟩ := exists_of_identity (same name) known
    exact sameName ▸ kept.named name old isOld
  seen := seen
  calling := by
    intro original pod isCall
    rw [same]
    exact kept.calling original pod ((calling original pod isCall).symm.trans isCall)
  waits := waits

/-- A step that leaves the cache and what was let into the queue alone. -/
theorem Kept.of_cache (sameCache : next.cache = s.cache)
    (sameAdmitted : next.admitted = s.admitted)
    (seen : ∀ entry pod, next.worker.snapshot = some (entry, pod) ->
      entry = (pod.spec.priority, pod.name))
    (calling : ∀ original pod, next.call = .updatedPod original pod -> next.call = s.call)
    (keeps : ∀ name pod, s.Wants name pod -> (pod.spec.priority, name) ∈ s.tokens ->
      (pod.spec.priority, name) ∈ next.tokens) : next.Kept := by
  refine kept.of_identity (fun name => by rw [sameCache]) seen calling fun name pod wants => ?_
  have before : s.Wants name pod := by
    unfold Wants at wants ⊢
    rwa [sameCache, sameAdmitted] at wants
  exact keeps name pod before (kept.waits name pod before)

variable {queue : SchedulingQueue}

theorem Kept.nextPod (idle : s.worker = .idle)
    (popped : s.queue.nextPod = some (entry, queue)) :
    ({ s with queue, worker := .popped entry } : System).Kept := by
  have perm := entries_nextPod popped
  refine kept.of_cache rfl rfl (by simp [snapshot]) (fun _ _ _ => rfl) fun name pod _ token =>
    token_moves token (.inr fun queued => ?_) (.inr fun held => ?_) (.inl rfl) (.inl rfl)
  · rcases mem_cons.mp (perm.mem_iff.mp queued) with isEntry | rest
    · exact token_worker (by simp [holds, isEntry])
    · exact token_queue rest
  · rw [idle] at held
    cases held

theorem Kept.readCache (popped : s.worker = .popped entry) :
    (s.readCache entry).Kept := by
  have dropped (gone : ∀ pod, s.cache.pods[entry.2]? = some pod ->
      pod.spec.priority ≠ entry.1) : ({ s with worker := .idle } : System).Kept := by
    refine kept.of_cache rfl rfl (by simp [snapshot]) (fun _ _ _ => rfl)
      fun name pod wants token =>
        token_moves token (.inl rfl) (.inr fun held => ?_) (.inl rfl) (.inl rfl)
    rw [popped] at held
    obtain rfl := mem_singleton.mp held
    exact absurd rfl (gone pod wants.1)
  unfold System.readCache
  split
  · next absent => exact dropped fun pod known => by simp [absent] at known
  next pod known =>
  split
  · next changed =>
    refine dropped fun other isOther => ?_
    obtain rfl := Option.some.inj (known.symm.trans isOther)
    exact changed
  next same =>
  refine kept.of_cache rfl rfl ?_ (fun _ _ _ => rfl) fun name other _ token => ?_
  · intro other isPod isSnapshot
    obtain ⟨rfl, rfl⟩ := Prod.mk.inj (Option.some.inj isSnapshot)
    have equal : pod.spec.priority = entry.1 := by simpa using same
    exact Prod.ext equal.symm (kept.named _ _ known).symm
  · rw [mem_tokens] at token ⊢
    rwa [popped] at token

variable {pod : PodInfo}

theorem Kept.judge {others : OtherPlugins} {chosen : Name} {nodes : List NodeInfo}
    (looked : s.worker = .looked entry pod nodes)
    (judged : s.judge config others chosen entry pod nodes = some next) : next.Kept := by
  have isEntry := kept.seen entry pod (by rw [looked]; rfl)
  have holds {worker : Worker} (same : worker.holds = [entry])
      (snapshot : ∀ other isPod, worker.snapshot = some (other, isPod) ->
        other = entry ∧ isPod = pod) : ({ s with worker } : System).Kept := by
    refine kept.of_cache rfl rfl ?_ (fun _ _ _ => rfl) fun name other _ token => ?_
    · intro other isPod isSnapshot
      obtain ⟨rfl, rfl⟩ := snapshot other isPod isSnapshot
      exact isEntry
    · rw [mem_tokens] at token ⊢
      rw [looked] at token
      rw [same]
      exact token
  unfold System.judge at judged
  split at judged
  iterate 3
    · cases judged
      exact holds rfl (by simp [snapshot])
  · split at judged
    · cases judged
      exact holds rfl (by simp [snapshot])
    · cases judged

theorem Kept.pending (pending : s.worker = .pending entry) :
    ({ s with queue := s.queue.push entry.2 entry.1, worker := .idle } : System).Kept := by
  have perm := s.queue.entries_push entry.2 entry.1
  refine kept.of_cache rfl rfl (by simp [snapshot]) (fun _ _ _ => rfl) fun name pod _ token =>
    token_moves token (.inr fun queued => ?_) (.inr fun held => ?_) (.inl rfl) (.inl rfl)
  · exact token_queue (perm.mem_iff.mpr (mem_cons_of_mem _ queued))
  · rw [pending] at held
    rw [mem_singleton.mp held]
    exact token_queue (perm.mem_iff.mpr mem_cons_self)

omit kept in
theorem identity_addFail (cache : Cache) (podName name : Name) :
    (cache.addFail podName).1.identity name = cache.identity name := by
  unfold identity
  rw [lookup_addFail]
  split
  · cases cache.pods[name]? <;> rfl
  · rfl

variable {now : Nat}

theorem Kept.breakCycle {backoff : Bool}
    (failed : s.worker = .failed entry pod backoff)
    (inRange : (backOffPod pod now).isSome = true) :
    (s.breakCycle now entry pod backoff).Kept := by
  have isEntry := kept.seen entry pod (by rw [failed]; rfl)
  have before {name : Name} {isPod : PodInfo}
      (known : (s.cache.addFail entry.2).1.pods[name]? = some isPod)
      (free : isPod.scheduled = none) (member : name ∈ s.admitted) :
      s.cache.pods[name]? ≠ none ∧ (isPod.spec.priority, name) ∈ s.tokens := by
    rw [lookup_addFail] at known
    split at known
    · obtain ⟨old, isOld, rfl⟩ := map_eq_some_iff.mp known
      exact ⟨by simp [isOld], kept.waits name old ⟨isOld, free, member⟩⟩
    · exact ⟨by simp [known], kept.waits name isPod ⟨known, free, member⟩⟩
  have identity (name : Name) := identity_addFail s.cache entry.2 name
  unfold System.breakCycle
  split
  · next cache added =>
    -- The pod has left the cache.
    have gone : s.cache.pods[entry.2]? = none := by
      have absent := addFail_snd s.cache entry.2
      rw [added] at absent
      exact not_isSome_iff_eq_none.mp (by simp [← absent])
    have isCache : (s.cache.addFail entry.2).1 = cache := by rw [added]
    refine kept.of_identity (fun name => by rw [← identity name, isCache]; rfl)
      (by simp [snapshot]) (fun _ _ _ => rfl) fun name isPod wants => ?_
    obtain ⟨known, free, member⟩ := wants
    obtain ⟨there, token⟩ := before (isCache ▸ known) free member
    refine token_moves token (.inl rfl) (.inr fun held => ?_) (.inl rfl) (.inl rfl)
    rw [failed] at held
    rw [← mem_singleton.mp held] at gone
    exact absurd gone there
  next cache added =>
  have isCache : (s.cache.addFail entry.2).1 = cache := by rw [added]
  split
  · next panicked =>
    split at panicked
    · simp only [pushBackoff, map_eq_none_iff] at panicked
      simp [panicked] at inRange
    · simp only [pushUnschedulable, map_eq_none_iff] at panicked
      simp [panicked] at inRange
  next queue pushed =>
  have perm := entries_pushFailed pushed
  refine kept.of_identity (fun name => by rw [← identity name, isCache]; rfl)
    (by simp [snapshot]) (fun _ _ _ => rfl) fun name isPod wants => ?_
  obtain ⟨known, free, member⟩ := wants
  obtain ⟨_, token⟩ := before (isCache ▸ known) free member
  refine token_moves token (.inr fun queued => ?_) (.inr fun held => ?_) (.inl rfl) (.inl rfl)
  · exact token_queue (perm.mem_iff.mpr (mem_cons_of_mem _ queued))
  · rw [failed] at held
    rw [mem_singleton.mp held, isEntry]
    exact token_queue (perm.mem_iff.mpr mem_cons_self)

omit kept in
theorem identity_assume (cache : Cache) (podName nodeName name : Name) :
    (cache.assume podName nodeName).1.identity name = cache.identity name := by
  unfold identity
  match assumed : cache.assume podName nodeName with
  | (after, false) => rw [(assume_failed assumed).1]
  | (after, true) =>
    obtain ⟨pod, known, lookup⟩ := lookup_assume assumed
    rw [lookup]
    split
    · next same => rw [← same, known]; rfl
    · rfl

variable {cache : Cache} {podName nodeName : Name}

omit kept in
/-- A pod without a node after `assume` had none before. -/
theorem lookup_of_assume (known : (cache.assume podName nodeName).1.pods[name]? = some pod)
    (free : pod.scheduled = none) : cache.pods[name]? = some pod := by
  match assumed : cache.assume podName nodeName with
  | (after, false) =>
    rw [assumed, ← (assume_failed assumed).1] at known
    exact known
  | (after, true) =>
    obtain ⟨old, _, lookup⟩ := lookup_assume assumed
    rw [assumed, lookup] at known
    split at known
    · cases known
      cases free
    · exact known

theorem Kept.assumePod (chose : s.worker = .chose entry pod nodeName)
    (there : (s.cache.pods[entry.2]?.all fun pod => pod.scheduled = some nodeName) = true ∨
      s.cache.nodes.contains nodeName = true) : (s.assumePod entry pod nodeName).Kept := by
  have identity (name : Name) := identity_assume s.cache entry.2 nodeName name
  have settle {worker : Worker} (noSnapshot : worker.snapshot = none)
      (scheduled : ∀ pod, (s.cache.assume entry.2 nodeName).1.pods[entry.2]? = some pod ->
        pod.scheduled ≠ none) :
      ({ s.write (s.cache.assume entry.2 nodeName).1 with worker } : System).Kept := by
    refine kept.of_identity identity (by simp [noSnapshot]) (fun _ _ _ => rfl)
      fun name isPod wants => ?_
    obtain ⟨known, free, member⟩ := wants
    have token := kept.waits name isPod ⟨lookup_of_assume known free, free, member⟩
    refine token_moves token (.inl rfl) (.inr fun held => ?_) (.inl rfl) (.inl rfl)
    rw [chose] at held
    have isName : entry.2 = name := by rw [← mem_singleton.mp held]
    exact absurd free (scheduled isPod (isName ▸ known))
  unfold System.assumePod
  split
  · next cache assumed =>
    have isCache : cache = (s.cache.assume entry.2 nodeName).1 := by rw [assumed]
    rw [isCache]
    refine settle rfl fun isPod known => ?_
    obtain ⟨old, _, lookup⟩ := lookup_assume assumed
    rw [← isCache, lookup, if_pos rfl] at known
    cases known
    simp
  next cache assumed =>
  have isCache : cache = (s.cache.assume entry.2 nodeName).1 := by rw [assumed]
  obtain ⟨same, absent⟩ := assume_failed assumed
  rw [isCache]
  refine settle rfl fun isPod known => ?_
  rw [← isCache, ← same] at known
  rcases absent with absent | absent
  · simp [absent] at known
  rcases there with there | there
  · have isThere : isPod.scheduled = some nodeName := by simpa [known] using there
    simp [isThere]
  · rw [← ExtTreeMap.isSome_getElem?_eq_contains, absent] at there
    cases there

variable {gangs : GangStateStore}

/-- A worker that goes on without an entry, or changes nothing but its state. -/
theorem Kept.workerOnly {worker : Worker} {log : List Note}
    (empty : s.worker.holds = []) (noSnapshot : worker.snapshot = none) :
    ({ s with worker, gangs, log } : System).Kept := by
  refine kept.of_cache rfl rfl (by simp [noSnapshot]) (fun _ _ _ => rfl) fun name pod _ token =>
    token_moves token (.inl rfl) (.inr fun held => ?_) (.inl rfl) (.inl rfl)
  rw [empty] at held
  cases held

theorem Kept.report (assumed : s.worker = .assumed podName pod nodeName) :
    (s.report now podName pod nodeName).Kept := by
  have empty : s.worker.holds = [] := by rw [assumed]; rfl
  unfold System.report
  split
  · exact kept.workerOnly empty rfl
  split
  · exact kept.workerOnly empty rfl
  · split
    · exact kept.workerOnly empty rfl
    · exact kept.workerOnly empty rfl

variable {call : Call}

/-- A step that moves entries between the queues, at the end of a call or apart
from it. -/
theorem Kept.queueOnly (ended : call = s.call ∨ call = .idle ∧ s.call.holds = [])
    (perm : queue.entries.Perm s.queue.entries) : ({ s with queue, call } : System).Kept := by
  refine kept.of_cache rfl rfl kept.seen ?_ fun name pod _ token => ?_
  · intro original pod isCall
    rcases ended with same | ⟨rfl, _⟩
    · exact same
    · cases isCall
  refine token_moves token (.inr fun queued => token_queue (perm.mem_iff.mpr queued)) (.inl rfl)
    (.inl rfl) (.inr fun last => ?_)
  rcases ended with rfl | ⟨_, empty⟩
  · exact token_call last
  · rw [empty] at last
    cases last

theorem Kept.flushUnschedulableLeftOver (old : (s.queue.unschedulable.all fun entry =>
      leftOver < now - entry.2) = true) :
    ({ s with queue := s.queue.flushUnschedulableLeftOver now } : System).Kept := by
  refine kept.queueOnly (.inl rfl) ?_
  have perm := s.queue.entries_flushUnschedulableLeftOver now
  rwa [filter_eq_self.mpr fun entry member => all_eq_true.mp old entry member] at perm

omit kept in
/-- The members that are rolled back: names and specs stay, and a pod that has
lost its node is among those to be queued again. -/
theorem rollBack_spec (names : List Name) (cache : Cache) (toRequeue : List PodNameWithPriority) :
    (∀ name, (cache.rollBack names toRequeue).1.identity name = cache.identity name) ∧
      toRequeue ⊆ (cache.rollBack names toRequeue).2 ∧
      ∀ (name : Name) pod, (cache.rollBack names toRequeue).1.pods[name]? = some pod ->
        pod.scheduled = none ->
        cache.pods[name]? = some pod ∨
          (pod.spec.priority, pod.name) ∈ (cache.rollBack names toRequeue).2 := by
  induction names generalizing cache toRequeue with
  | nil => exact ⟨fun _ => rfl, fun _ => id, fun _ _ known _ => .inl known⟩
  | cons podName names ih =>
    unfold Cache.rollBack
    split
    · next after kept =>
      obtain rfl := unassume_none kept
      exact ih cache toRequeue
    next after pod freed =>
    obtain ⟨old, known, isPod, lookup⟩ := unassume_some freed
    obtain ⟨identity, collected, rest⟩ := ih after
      (toRequeue ++ [(pod.spec.priority, pod.name)])
    refine ⟨fun name => (identity name).trans ?_, fun entry member => ?_,
      fun name other isOther free => ?_⟩
    · unfold Cache.identity
      rw [lookup]
      split
      · next same =>
        rw [← same, known, isPod]
        rfl
      · rfl
    · exact collected (mem_append_left _ member)
    rcases rest name other isOther free with before | member
    · rw [lookup] at before
      split at before
      · cases before
        exact .inr (collected (by simp))
      · exact .inl before
    · exact .inr member

theorem Kept.rollBack {gangs : List (Name × ExtTreeMap Name Name)}
    {names : List Name} (rolling : s.watchdog = .rolling gangs) :
    ({ s.write (s.cache.rollBack names []).1 with
        watchdog := .requeueing (s.cache.rollBack names []).2 } : System).Kept := by
  obtain ⟨identity, _, rest⟩ := rollBack_spec names s.cache []
  refine kept.of_identity identity kept.seen (fun _ _ _ => rfl) fun name pod wants => ?_
  obtain ⟨known, free, member⟩ := wants
  rcases rest name pod known free with before | queued
  · have token := kept.waits name pod ⟨before, free, member⟩
    refine token_moves token (.inl rfl) (.inl rfl) (.inr fun later => ?_) (.inl rfl)
    rw [rolling] at later
    cases later
  · obtain ⟨old, isOld, sameName, _⟩ := exists_of_identity (identity name) known
    rw [← sameName, kept.named name old isOld] at queued
    exact token_watchdog queued

theorem Kept.requeue {entries : List PodNameWithPriority}
    (holds : s.watchdog = .requeueing (entry :: entries)) :
    ({ s with queue := s.queue.push entry.2 entry.1, watchdog := .requeueing entries } :
      System).Kept := by
  have perm := s.queue.entries_push entry.2 entry.1
  refine kept.of_cache rfl rfl kept.seen (fun _ _ _ => rfl) fun name pod _ token =>
    token_moves token (.inr fun queued => ?_) (.inl rfl) (.inr fun later => ?_) (.inl rfl)
  · exact token_queue (perm.mem_iff.mpr (mem_cons_of_mem _ queued))
  rw [holds] at later
  rcases mem_cons.mp later with isEntry | later
  · rw [isEntry]
    exact token_queue (perm.mem_iff.mpr mem_cons_self)
  · exact token_watchdog later

/-- A watchdog that has nothing in hand before and after. -/
theorem Kept.watchdogOnly {watchdog : Watchdog} (empty : s.watchdog.holds = []) :
    ({ s with watchdog, gangs } : System).Kept := by
  refine kept.of_cache rfl rfl kept.seen (fun _ _ _ => rfl) fun name pod _ token =>
    token_moves token (.inl rfl) (.inl rfl) (.inr fun later => ?_) (.inl rfl)
  rw [empty] at later
  cases later

omit kept in
/-- Entries before a call is begun are those in the queues and of the other
tasks. -/
theorem token_of_idle (idle : s.call = .idle) (token : entry ∈ s.tokens)
    (queue : next.queue = s.queue) (worker : next.worker = s.worker)
    (watchdog : next.watchdog = s.watchdog) : entry ∈ next.tokens := by
  refine token_moves token (.inl queue) (.inl worker) (.inl watchdog) (.inr fun last => ?_)
  rw [idle] at last
  cases last

theorem Kept.updateCachePod (idle : s.call = .idle)
    (samePriority : (s.cache.pods[pod.name]?.all fun original =>
      original.scheduled.isSome || pod.scheduled.isSome ||
        original.spec.priority = pod.spec.priority) = true) :
    ({ s.write (s.cache.updatePod pod).1 with
        call := .updatedPod (s.cache.updatePod pod).2 pod } : System).Kept := by
  have lookup (name : Name) : (s.cache.updatePod pod).1.pods[name]? =
      if pod.name = name then some pod else s.cache.pods[name]? := lookup_insert _ _ _ _
  refine ⟨fun name other known => ?_, kept.seen, fun original other isCall => ?_,
    fun name other wants => ?_⟩
  · have inserted := (lookup name).symm.trans known
    split at inserted
    · next same =>
      cases inserted
      exact same
    · exact kept.named name other inserted
  · obtain ⟨_, rfl⟩ := Call.updatedPod.inj isCall
    show (s.cache.updatePod pod).1.identity pod.name = _
    unfold identity
    rw [lookup, if_pos rfl]
    rfl
  obtain ⟨known, free, member⟩ := wants
  replace known := (lookup name).symm.trans known
  split at known
  swap
  · exact token_of_idle idle (kept.waits name other ⟨known, free, member⟩) rfl rfl rfl
  next same =>
  cases known
  subst same
  by_cases offered : (s.cache.pods[pod.name]?.all fun original =>
      original.scheduled.isSome) = true
  · refine token_call ?_
    show _ ∈ Call.holds (.updatedPod s.cache.pods[pod.name]? pod)
    simp [Call.holds, free, offered]
  cases isOld : s.cache.pods[pod.name]? with
  | none => simp [isOld] at offered
  | some old =>
    have oldFree : old.scheduled = none := by simpa [isOld] using offered
    have equal : old.spec.priority = pod.spec.priority := by
      simpa [isOld, oldFree, free] using samePriority
    have token := kept.waits pod.name old ⟨isOld, oldFree, member⟩
    rw [equal] at token
    exact token_of_idle idle token rfl rfl rfl

/-- A call that has written the cache such that no pod has lost its node. -/
theorem Kept.beginCall (idle : s.call = .idle)
    (begun : ∀ original pod, call ≠ .updatedPod original pod)
    (fewer : ∀ (name : Name) pod, cache.pods[name]? = some pod ->
      s.cache.pods[name]? = some pod) : ({ s.write cache with call } : System).Kept := by
  refine ⟨fun name pod known => kept.named name pod (fewer name pod known), kept.seen,
    fun original pod isCall => absurd isCall (begun original pod), fun name pod wants => ?_⟩
  obtain ⟨known, free, member⟩ := wants
  exact token_of_idle idle (kept.waits name pod ⟨fewer name pod known, free, member⟩) rfl rfl rfl

/-- A call that takes pods off their nodes and queues them. -/
theorem Kept.freePods (freed : List PodNameWithPriority)
    (identity : ∀ name, cache.identity name = s.cache.identity name)
    (perm : queue.entries.Perm (freed ++ s.queue.entries))
    (queued : ∀ (name : Name) pod, cache.pods[name]? = some pod -> pod.scheduled = none ->
      (∃ old, s.cache.pods[name]? = some old ∧ old.scheduled = none) ∨
        (pod.spec.priority, pod.name) ∈ freed) : ({ s.write cache with queue } : System).Kept := by
  refine kept.of_identity identity kept.seen (fun _ _ _ => rfl) fun name pod wants => ?_
  obtain ⟨known, free, member⟩ := wants
  obtain ⟨old, isOld, sameName, sameSpec⟩ := exists_of_identity (identity name) known
  rcases queued name pod known free with ⟨other, isOther, oldFree⟩ | pushed
  · obtain rfl := Option.some.inj (isOld.symm.trans isOther)
    have token := kept.waits name old ⟨isOld, oldFree, member⟩
    rw [sameSpec] at token
    exact token_moves token
      (.inr fun queued => token_queue (perm.mem_iff.mpr (mem_append_right _ queued))) (.inl rfl)
      (.inl rfl) (.inl rfl)
  · rw [← sameName, kept.named name old isOld] at pushed
    exact token_queue (perm.mem_iff.mpr (mem_append_left _ pushed))

theorem Kept.removeCacheNode (nodeName : Name) :
    ({ s.write ((s.cache.popPodOnNode nodeName).1.removeNode nodeName) with
        queue := pushAll s.queue (s.cache.popPodOnNode nodeName).2 } : System).Kept := by
  have lookup (name : Name) :
      ((s.cache.popPodOnNode nodeName).1.removeNode nodeName).pods[name]? = _ :=
    s.cache.lookup_popPodOnNode nodeName name
  refine kept.freePods _ (fun name => ?_) (entries_pushAll _ _) fun name pod known free => ?_
  · unfold identity
    rw [lookup name]
    cases s.cache.pods[name]? with
    | none => rfl
    | some pod =>
      simp only [map_some]
      split <;> rfl
  rw [lookup name] at known
  obtain ⟨old, isOld, changed⟩ := map_eq_some_iff.mp known
  split at changed
  · next there =>
    have pushed := mem_popPodOnNode isOld there
    right
    rw [← changed]
    exact pushed
  · rw [← changed] at free
    exact .inl ⟨old, isOld, free⟩

theorem Kept.unassume (freed : s.cache.unassume podName = (cache, some pod)) :
    ({ s.write cache with queue := s.queue.push pod.name pod.spec.priority } : System).Kept := by
  obtain ⟨old, known, isPod, lookup⟩ := unassume_some freed
  have perm := s.queue.entries_push pod.name pod.spec.priority
  refine kept.freePods [(pod.spec.priority, pod.name)] (fun name => ?_) perm
    fun name other isOther free => ?_
  · unfold identity
    rw [lookup]
    split
    · next same =>
      rw [← same, known, isPod]
      rfl
    · rfl
  · rw [lookup] at isOther
    split at isOther
    · cases isOther
      exact .inr (by simp)
    · exact .inl ⟨other, isOther, free⟩

/-- The pod of a call is offered to the queue. -/
theorem Kept.offer {original : Option PodInfo}
    (isCall : s.call = .updatedPod original pod) (perm : queue.entries.Perm s.queue.entries) :
    (({ s with queue, call := .idle } : System).enqueue config pod).Kept := by
  have others {name : Name} {isPod : PodInfo} (wants : s.Wants name isPod)
      (different : name ≠ pod.name) :
      (isPod.spec.priority, name) ∈ ({ s with queue, call := .idle } : System).tokens := by
    refine token_moves (kept.waits name isPod wants)
      (.inr fun queued => token_queue (perm.mem_iff.mpr queued)) (.inl rfl) (.inl rfl)
      (.inr fun last => ?_)
    rw [isCall, Call.holds] at last
    split at last
    · have equal := congrArg Prod.snd (mem_singleton.mp last)
      exact absurd equal different
    · cases last
  unfold enqueue
  split
  · have pushed := queue.entries_push pod.name pod.spec.priority
    refine ⟨kept.named, kept.seen, nofun, fun name isPod wants => ?_⟩
    obtain ⟨known, free, member⟩ := wants
    by_cases same : name = pod.name
    · have identity := kept.calling original pod isCall
      unfold Cache.identity at identity
      rw [← same, show s.cache.pods[name]? = some isPod from known] at identity
      have sameSpec : isPod.spec = pod.spec := (Prod.mk.inj (Option.some.inj identity)).2
      refine token_queue (pushed.mem_iff.mpr ?_)
      rw [sameSpec, same]
      exact mem_cons_self
    · have admitted : name ∈ s.admitted := (mem_cons.mp member).resolve_left same
      exact token_moves (others ⟨known, free, admitted⟩ same)
        (.inr fun queued => token_queue (pushed.mem_iff.mpr (mem_cons_of_mem _ queued)))
        (.inl rfl) (.inl rfl) (.inl rfl)
  · refine ⟨kept.named, kept.seen, nofun, fun name isPod wants => ?_⟩
    obtain ⟨known, free, member⟩ := wants
    obtain ⟨admitted, different⟩ := mem_filter.mp member
    exact others ⟨known, free, admitted⟩ (by simpa using different)

theorem Kept.finishCall (finished : s.finishCall config = some next) : next.Kept := by
  unfold System.finishCall at finished
  split at finished
  · cases finished
  · next original pod isCall =>
    have perm := s.queue.entries_hint config.others config.extensions
      (.pod original (some pod)) s.cache.pods
    split at finished
    · next free =>
      split at finished
      · next offered =>
        cases finished
        exact kept.offer isCall perm
      · next rejected =>
        cases finished
        exact kept.queueOnly (.inr ⟨rfl, by simp [isCall, Call.holds, rejected]⟩) perm
    next nodeName there =>
    cases finished
    refine kept.of_identity (fun name => identity_assume _ _ _ _) kept.seen
      nofun fun name isPod wants => ?_
    obtain ⟨known, free, member⟩ := wants
    have token := kept.waits name isPod ⟨lookup_of_assume known free, free, member⟩
    refine token_moves token (.inl rfl) (.inl rfl) (.inl rfl) (.inr fun last => ?_)
    simp [isCall, Call.holds, there] at last
  · next original isCall =>
    cases finished
    exact kept.queueOnly (.inr ⟨rfl, by simp [isCall, Call.holds]⟩)
      (entries_hint _ _ _ _)
  · next original node isCall =>
    cases finished
    exact kept.queueOnly (.inr ⟨rfl, by simp [isCall, Call.holds]⟩)
      (entries_hint _ _ _ _)

/-- The condition under which no entry is dropped: the flush of the unschedulable
queue finds only entries that have been there for more than five minutes, an
update keeps the priority of a pod that waits, the node that was chosen is still
there, and the next expiry time is in range. -/
def Retains (s : System) : Action -> Prop
  | .flushUnschedulableLeftOver now =>
    (s.queue.unschedulable.all fun entry =>
      SchedulingQueue.leftOver < now - entry.2) = true
  | .updateCachePod pod =>
    (s.cache.pods[pod.name]?.all fun original =>
      original.scheduled.isSome || pod.scheduled.isSome ||
        original.spec.priority = pod.spec.priority) = true
  | .writeCache now =>
    match s.worker with
    | .failed _ pod _ => (SchedulingQueue.backOffPod pod now).isSome = true
    | .chose entry _ nodeName =>
      (s.cache.pods[entry.2]?.all fun pod => pod.scheduled = some nodeName) = true ∨
        s.cache.nodes.contains nodeName = true
    | _ => True
  | _ => True

instance (s : System) (action : Action) : Decidable (s.Retains action) := by
  unfold Retains
  repeat' split
  all_goals infer_instance

variable {action : Action}

theorem Kept.workerStep (retains : s.Retains action)
    (taken : s.workerStep config action = some next) : next.Kept := by
  unfold System.workerStep at taken
  split at taken
  · split at taken
    · next entry queue idle popped =>
      cases taken
      exact kept.nextPod idle popped
    · cases taken
  · split at taken
    · next entry popped =>
      cases taken
      exact kept.readCache popped
    · cases taken
  · split at taken
    · next entry pod nodes looked => exact kept.judge looked taken
    · cases taken
  · unfold Retains at retains
    split at taken
    · next entry pending =>
      cases taken
      exact kept.pending pending
    · next entry pod backoff failed =>
      cases taken
      rw [failed] at retains
      exact kept.breakCycle failed retains
    · next entry pod nodeName chose =>
      cases taken
      rw [chose] at retains
      exact kept.assumePod chose retains
    · cases taken
  · split at taken
    · next podName pod nodeName assumed =>
      cases taken
      exact kept.report assumed
    · cases taken
  · split at taken
    · next gang group assignment rest sending =>
      cases taken
      refine kept.workerOnly (by rw [sending]; rfl) ?_
      split <;> rfl
    · cases taken
  · cases taken

theorem Kept.watchdogStep (taken : s.watchdogStep config action = some next) :
    next.Kept := by
  unfold System.watchdogStep at taken
  split at taken
  · split at taken
    · next idle =>
      cases taken
      exact kept.watchdogOnly (by rw [idle]; rfl)
    · cases taken
  · split at taken
    · next gangs rolling =>
      cases taken
      exact kept.rollBack rolling
    · cases taken
  · split at taken
    · next empty =>
      cases taken
      exact kept.watchdogOnly (by rw [empty]; rfl)
    · next entry entries holds =>
      cases taken
      exact kept.requeue holds
    · cases taken
  · cases taken

theorem Kept.callStep (retains : s.Retains action)
    (taken : s.callStep config action = some next) : next.Kept := by
  unfold System.callStep at taken
  split at taken
  · exact kept.finishCall taken
  split at taken
  swap
  · cases taken
  next idle =>
  cases action with
  | updateCachePod pod =>
    cases taken
    exact kept.updateCachePod idle retains
  | removeCachePod podName =>
    cases taken
    refine kept.beginCall idle (by simp) fun name pod known => ?_
    replace known := (s.cache.lookup_removePod podName name).symm.trans known
    split at known
    · cases known
    · exact known
  | updateCacheNode node =>
    cases taken
    refine kept.beginCall idle (by simp) fun name pod known => ?_
    split at known <;> exact known
  | removeCacheNode nodeName =>
    cases taken
    exact kept.removeCacheNode nodeName
  | unassume podName =>
    simp only [System.beginCall] at taken
    split at taken
    · cases taken
      exact kept
    · next cache pod freed =>
      cases taken
      exact kept.unassume freed
  | _ => cases taken

theorem Kept.step (retains : s.Retains action)
    (taken : s.step config action = some next) : next.Kept := by
  unfold System.step at taken
  split at taken
  · cases taken
    exact kept.queueOnly (.inl rfl) (entries_flushBackoffCompleted _)
  · cases taken
    exact kept.flushUnschedulableLeftOver retains
  all_goals first
    | exact kept.workerStep retains taken
    | exact kept.watchdogStep taken
    | exact kept.callStep retains taken

omit kept in
theorem kept_initial : ({} : System).Kept :=
  ⟨fun _ _ known => (by simp at known), nofun,
    nofun, fun _ _ wants => (by simp [Wants] at wants)⟩

end System

/-- In every run in which no step drops an entry, a pod that was let into the
queue and has no node is in one of the queues under its priority, or is the pod
that `schedule_one` has popped, whenever no call and no roll-back is under
way. -/
theorem no_pod_lost (config : Config) (actions : List Action) (final : System)
    (run : Run (System.step config) System.Retains {} actions final)
    (noCall : final.call = .idle) (noRollBack : final.watchdog = .idle) (name : Name)
    (pod : PodInfo) (cached : final.cache.pods[name]? = some pod) (free : pod.scheduled = none)
    (admitted : name ∈ final.admitted) :
    (pod.spec.priority, name) ∈ final.queue.entries ∨
      (pod.spec.priority, name) ∈ final.worker.holds := by
  have kept : final.Kept :=
    run.invariant System.Kept kept_initial fun _ _ _ kept retains taken =>
      kept.step retains taken
  have token := kept.waits name pod ⟨cached, free, admitted⟩
  rw [mem_tokens, noRollBack, noCall] at token
  rcases token with queued | held | later | last
  · exact .inl queued
  · exact .inr held
  · cases later
  · cases last

/-- A pod that does not fit is queued for backoff, and a node is added. -/
def backedOff : List Action :=
  [.updateCachePod { name := [1], spec := { resources := { cpu := 3 } } }, .finishCall, .nextPod,
    .readCache, .judge {} [], .writeCache 100, .updateCacheNode { name := [9] }, .finishCall]

private def quiet (state : System) : Bool :=
  match state.call, state.watchdog with
  | .idle, .idle => true
  | _, _ => false

theorem no_pod_lost_backed_off :
    Exists fun final : System =>
      final.queue.entries = [(0, [1])] ∧
        ((0, [1]) ∈ final.queue.entries ∨ (0, [1]) ∈ final.worker.holds) := by
  have executed : (execute (step { extensions := [.nodeResourcesFit] })
      System.Retains {} backedOff).map
        (fun final => (final.queue.entries, quiet final,
          final.cache.pods[([1] : Name)]?, final.admitted)) =
      some ([(0, [1])], true,
        some { name := [1], spec := { resources := { cpu := 3 } }, attempts := 1 }, [[1]]) := by
    decide +kernel
  obtain ⟨final, ran, observed⟩ := map_eq_some_iff.mp executed
  obtain ⟨queued, observed⟩ := Prod.mk.inj observed
  obtain ⟨idle, observed⟩ := Prod.mk.inj observed
  obtain ⟨cached, admitted⟩ := Prod.mk.inj observed
  refine ⟨final, queued, ?_⟩
  unfold quiet at idle
  split at idle
  · next noCall noRollBack =>
    exact no_pod_lost _ backedOff final (run_of_execute ran) noCall noRollBack [1] _
      cached rfl (by simp [admitted])
  · cases idle

/-- The priority of a pod in the active queue is raised. -/
def raisedPriority : List Action :=
  [.updateCachePod { name := [1], spec := { priority := 1 } }, .finishCall,
    .updateCachePod { name := [1], spec := { priority := 2 } }, .finishCall, .nextPod, .readCache]

/-- Its only entry is dropped, although it passed and has no node. -/
theorem raised_priority_drops_pod :
    Exists fun final : System =>
      Run (System.step {}) anyStep {} raisedPriority final ∧
        final.cache.pods[([1] : Name)]? = some { name := [1], spec := { priority := 2 } } ∧
        final.admitted = [[1]] ∧ final.tokens = [] := by
  exact exists_run (by decide +kernel)

end Rk8s.Scheduler
