import Rk8s.Lib.Transition
import Rk8s.Scheduler.Queue

namespace Rk8s.Scheduler

open Std

/-!
# The running scheduler

One task runs `schedule_one` in a loop, two flush the queues, one rolls back
gangs that were not completed in time, and the calls of the user come one after
the other.  Each acquisition of the cache lock is a step, with what is done to
the queues under that lock; what a task has in hand between two steps is its
state.
-/

structure GangEntry where
  size : Nat
  assumed : ExtTreeMap Name Name := ∅
  createdAt : Nat

/-- The members of a gang that have a node, as `u32`. -/
def GangEntry.count (entry : GangEntry) : Nat := entry.assumed.size % 2 ^ 32

abbrev GangStateStore := ExtTreeMap Name GangEntry

namespace GangStateStore

variable (gangs : GangStateStore)

def addMember (gang : GangSpec) (podName nodeName : Name) (now : Nat) : GangStateStore × Bool :=
  let entry := gangs[gang.id]?.getD { size := gang.size, createdAt := now }
  let entry := { entry with assumed := entry.assumed.insert podName nodeName }
  (gangs.insert gang.id entry, entry.size ≤ entry.count)

def takeAndClear (id : Name) : GangStateStore × Option (ExtTreeMap Name Name) :=
  (gangs.erase id, gangs[id]?.map GangEntry.assumed)

def timedOut (timeout now : Nat) (entry : GangEntry) : Bool :=
  entry.count < entry.size ∧ timeout < now - entry.createdAt

def takeTimedOut (timeout now : Nat) : GangStateStore × List (Name × ExtTreeMap Name Name) :=
  (gangs.filter fun _ entry => !timedOut timeout now entry,
    (gangs.toList.filter fun entry => timedOut timeout now entry.2).map fun entry =>
      (entry.1, entry.2.assumed))

end GangStateStore

/-- Unassume the members of the gangs that timed out, and collect those that are
to be queued again. -/
def Cache.rollBack (cache : Cache) : List Name -> List PodNameWithPriority ->
    Cache × List PodNameWithPriority
  | [], toRequeue => (cache, toRequeue)
  | podName :: names, toRequeue =>
    match cache.unassume podName with
    | (cache, none) => cache.rollBack names toRequeue
    | (cache, some pod) => cache.rollBack names (toRequeue ++ [(pod.spec.priority, pod.name)])

/-- Where `schedule_one` is. -/
inductive Worker
  | idle
  | popped (entry : PodNameWithPriority)
  | looked (entry : PodNameWithPriority) (pod : PodInfo) (nodes : List NodeInfo)
  /-- About to put the entry back into the active queue. -/
  | pending (entry : PodNameWithPriority)
  /-- About to count a failure and to queue the pod for backoff or as unschedulable. -/
  | failed (entry : PodNameWithPriority) (pod : PodInfo) (backoff : Bool)
  /-- About to assume the pod on the node. -/
  | chose (entry : PodNameWithPriority) (pod : PodInfo) (nodeName : Name)
  | assumed (podName : Name) (pod : PodInfo) (nodeName : Name)
  /-- About to send the rest of a group of assignments. -/
  | sending (gang : Option GangSpec) (group rest : List Assignment)
  /-- The task has panicked. -/
  | dead

inductive Watchdog
  | idle
  | rolling (gangs : List (Name × ExtTreeMap Name Name))
  | requeueing (entries : List PodNameWithPriority)

/-- A call of the user that has written the cache and is not finished. -/
inductive Call
  | idle
  | updatedPod (original : Option PodInfo) (pod : PodInfo)
  | removedPod (original : Option PodInfo)
  | updatedNode (original : Option NodeInfo) (node : NodeInfo)

/-- What is told about pods: the assignments that are sent, and that a pod was
taken off its node or removed from the cache. -/
inductive Note
  | assigned (podName nodeName : Name)
  | cleared (podName : Name)
  | removed (podName : Name)

/-- `admitted` and `log` are not in the program: the names that `enqueue` let
through when they were last offered, and what happened to the pods so far.  The
assignments in the log are the messages of the result channel. -/
structure System where
  cache : Cache := {}
  queue : SchedulingQueue := {}
  gangs : GangStateStore := ∅
  worker : Worker := .idle
  watchdog : Watchdog := .idle
  call : Call := .idle
  admitted : List Name := []
  log : List Note := []

inductive Action
  | nextPod
  | readCache
  | judge (others : OtherPlugins) (chosen : Name)
  | writeCache (now : Nat)
  | report (now : Nat)
  | send
  | flushBackoffCompleted (now : Nat)
  | flushUnschedulableLeftOver (now : Nat)
  | takeTimedOut (now : Nat)
  | rollBack
  | requeue
  | updateCachePod (pod : PodInfo)
  | removeCachePod (podName : Name)
  | updateCacheNode (node : NodeInfo)
  | removeCacheNode (nodeName : Name)
  | unassume (podName : Name)
  | finishCall

/-- How a scheduler was set up. -/
structure Config where
  plugins : EnabledPlugins := {}
  extensions : List EnqueueExtension := defaultExtensions
  others : OtherPlugins := {}
  gangTimeout : Nat := 60

/-- What a change of the cache means for the pods. -/
def notes (before after : Cache) : List Note :=
  before.pods.toList.filterMap fun entry =>
    match after.pods[entry.1]? with
    | none => some (.removed entry.1)
    | some pod =>
      if entry.2.scheduled.isSome ∧ pod.scheduled = none then some (.cleared entry.1) else none

namespace System

variable (config : Config) (s : System)

def write (cache : Cache) : System := { s with cache, log := s.log ++ notes s.cache cache }

def hint (event : EventInner) : System :=
  { s with queue := s.queue.hint config.others config.extensions event s.cache.pods }

def enqueue (pod : PodInfo) : System :=
  if config.plugins.preEnqueue pod then
    { s with
      queue := s.queue.push pod.name pod.spec.priority
      admitted := pod.name :: s.admitted }
  else
    { s with admitted := s.admitted.filter (· ≠ pod.name) }

/-- The pods that the affinity plugins see. -/
def scheduledPods : List PodInfo :=
  (s.cache.pods.toList.map Prod.snd).filter fun pod =>
    pod.scheduled.isSome ∨ pod.spec.nodeName.isSome

/-- Read the popped pod and the nodes. -/
def readCache (entry : PodNameWithPriority) : System :=
  match s.cache.pods[entry.2]? with
  | none => { s with worker := .idle }
  | some pod =>
    if pod.spec.priority ≠ entry.1 then
      { s with worker := .idle }
    else
      { s with worker := .looked entry pod s.cache.getNodes }

def judge (others : OtherPlugins) (chosen : Name) (entry : PodNameWithPriority) (pod : PodInfo)
    (nodes : List NodeInfo) : Option System :=
  match config.plugins.judge others s.scheduledPods pod nodes with
  | .pending => some { s with worker := .pending entry }
  | .backoff => some { s with worker := .failed entry pod true }
  | .unschedulable => some { s with worker := .failed entry pod false }
  | .best names =>
    if chosen ∈ names then some { s with worker := .chose entry pod chosen } else none

/-- `break_cycle`: the queues are written under the lock of the cache. -/
def breakCycle (now : Nat) (entry : PodNameWithPriority) (pod : PodInfo) (backoff : Bool) : System :=
  match s.cache.addFail entry.2 with
  | (cache, false) => { s.write cache with worker := .idle }
  | (cache, true) =>
    match if backoff then s.queue.pushBackoff pod now else s.queue.pushUnschedulable pod now with
    | none => { s.write cache with worker := .dead }
    | some queue => { s.write cache with queue, worker := .idle }

def assumePod (entry : PodNameWithPriority) (pod : PodInfo) (nodeName : Name) : System :=
  match s.cache.assume entry.2 nodeName with
  | (cache, true) => { s.write cache with worker := .assumed entry.2 pod nodeName }
  | (cache, false) => { s.write cache with worker := .idle }

/-- A pod of no gang is sent at once, those of a gang when it is complete. -/
def report (now : Nat) (podName : Name) (pod : PodInfo) (nodeName : Name) : System :=
  match pod.spec.gang with
  | none => { s with worker := .sending none [⟨podName, nodeName⟩] [⟨podName, nodeName⟩] }
  | some gang =>
    match s.gangs.addMember gang podName nodeName now with
    | (gangs, false) => { s with gangs, worker := .idle }
    | (gangs, true) =>
      match gangs.takeAndClear gang.id with
      | (gangs, none) => { s with gangs, worker := .idle }
      | (gangs, some members) =>
        let group := members.toList.map fun entry => ⟨entry.1, entry.2⟩
        { s with gangs, worker := .sending (some gang) group group }

def pushAll (queue : SchedulingQueue) (entries : List PodNameWithPriority) : SchedulingQueue :=
  entries.foldl (fun queue entry => queue.push entry.2 entry.1) queue

def finishCall : Option System :=
  match s.call with
  | .idle => none
  | .updatedPod original pod =>
    match pod.scheduled with
    | none =>
      let hinted := { s with call := .idle }.hint config (.pod original (some pod))
      if original.all fun original => original.scheduled.isSome then
        some (hinted.enqueue config pod)
      else
        some hinted
    | some nodeName =>
      some { s.write (s.cache.assume pod.name nodeName).1 with call := .idle }
  | .removedPod original => some ({ s with call := .idle }.hint config (.pod original none))
  | .updatedNode original node => some ({ s with call := .idle }.hint config (.node original node))

def workerStep : Action -> Option System
  | .nextPod =>
    match s.worker, s.queue.nextPod with
    | .idle, some (entry, queue) => some { s with queue, worker := .popped entry }
    | _, _ => none
  | .readCache =>
    match s.worker with
    | .popped entry => some (s.readCache entry)
    | _ => none
  | .judge others chosen =>
    match s.worker with
    | .looked entry pod nodes => s.judge config others chosen entry pod nodes
    | _ => none
  | .writeCache now =>
    match s.worker with
    | .pending entry =>
      some { s with queue := s.queue.push entry.2 entry.1, worker := .idle }
    | .failed entry pod backoff => some (s.breakCycle now entry pod backoff)
    | .chose entry pod nodeName => some (s.assumePod entry pod nodeName)
    | _ => none
  | .report now =>
    match s.worker with
    | .assumed podName pod nodeName => some (s.report now podName pod nodeName)
    | _ => none
  | .send =>
    match s.worker with
    | .sending gang group (assignment :: rest) =>
      some
        { s with
          worker := if rest = [] then .idle else .sending gang group rest
          log := s.log ++ [.assigned assignment.podName assignment.nodeName] }
    | _ => none
  | _ => none

def watchdogStep : Action -> Option System
  | .takeTimedOut now =>
    match s.watchdog with
    | .idle =>
      let (gangs, timedOut) := s.gangs.takeTimedOut config.gangTimeout now
      some { s with gangs, watchdog := if timedOut = [] then .idle else .rolling timedOut }
    | _ => none
  | .rollBack =>
    match s.watchdog with
    | .rolling gangs =>
      let (cache, entries) := s.cache.rollBack (gangs.flatMap fun gang => gang.2.keys) []
      some { s.write cache with watchdog := .requeueing entries }
    | _ => none
  | .requeue =>
    match s.watchdog with
    | .requeueing [] => some { s with watchdog := .idle }
    | .requeueing (entry :: entries) =>
      some { s with queue := s.queue.push entry.2 entry.1, watchdog := .requeueing entries }
    | _ => none
  | _ => none

/-- The first part of a call, under the lock for writing. -/
def beginCall : Action -> Option System
  | .updateCachePod pod =>
    let (cache, original) := s.cache.updatePod pod
    some { s.write cache with call := .updatedPod original pod }
  | .removeCachePod podName =>
    let (cache, original) := s.cache.removePod podName
    some { s.write cache with call := .removedPod original }
  | .updateCacheNode node =>
    let (cache, original) := s.cache.updateNode node
    some { s.write cache with call := .updatedNode original node }
  | .removeCacheNode nodeName =>
    let (cache, popped) := s.cache.popPodOnNode nodeName
    some { s.write (cache.removeNode nodeName) with queue := pushAll s.queue popped }
  | .unassume podName =>
    match s.cache.unassume podName with
    | (_, none) => some s
    | (cache, some pod) =>
      some { s.write cache with queue := s.queue.push pod.name pod.spec.priority }
  | _ => none

def callStep (action : Action) : Option System :=
  match action with
  | .finishCall => s.finishCall config
  | _ =>
    match s.call with
    | .idle => s.beginCall action
    | _ => none

def step (action : Action) : Option System :=
  match action with
  | .flushBackoffCompleted now => some { s with queue := s.queue.flushBackoffCompleted now }
  | .flushUnschedulableLeftOver now =>
    some { s with queue := s.queue.flushUnschedulableLeftOver now }
  | .nextPod | .readCache | .judge _ _ | .writeCache _ | .report _ | .send =>
    s.workerStep config action
  | .takeTimedOut _ | .rollBack | .requeue => s.watchdogStep config action
  | _ => s.callStep config action

end System

end Rk8s.Scheduler
