import Rk8s.Scheduler.Plugins

namespace Rk8s.Scheduler

open Std

/-!
# The scheduling queue

Pods wait in three queues.  The active and the backoff queue are heaps in the
program; here they are lists, and what a heap returns first is looked up.  Times
are seconds; an expiry time that does not fit into an `Instant` is a panic.
-/

structure SchedulingQueue where
  active : List PodNameWithPriority := []
  backoff : List BackOffPod := []
  unschedulable : List (BackOffPod × Nat) := []

/-- The order of the active queue: by priority, then by name. -/
def PodNameWithPriority.le (first second : PodNameWithPriority) : Bool :=
  first.1 < second.1 || first.1 = second.1 && (compare first.2 second.2).isLE

def greatest : List PodNameWithPriority -> Option PodNameWithPriority
  | [] => none
  | entry :: entries =>
    match greatest entries with
    | none => some entry
    | some best => if PodNameWithPriority.le best entry then some entry else some best

namespace SchedulingQueue

variable (queue : SchedulingQueue)

def nextPod : Option (PodNameWithPriority × SchedulingQueue) :=
  (greatest queue.active).map fun entry =>
    (entry, { queue with active := queue.active.erase entry })

/-- The loop takes the entries off the heap in the order of their expiry. -/
def flushBackoffCompleted (now : Nat) : SchedulingQueue :=
  { queue with
    active := queue.active ++
      (queue.backoff.filter fun entry => entry.expire ≤ now).map BackOffPod.pod
    backoff := queue.backoff.filter fun entry => now < entry.expire }

/-- Five minutes. -/
def leftOver : Nat := 5 * 60

/-- The queue is drained.  Entries that have not been there long are dropped. -/
def flushUnschedulableLeftOver (now : Nat) : SchedulingQueue :=
  let old := queue.unschedulable.filter fun entry => leftOver < now - entry.2
  { active := queue.active ++
      (old.filter fun entry => entry.1.expire ≤ now).map fun entry => entry.1.pod
    backoff := queue.backoff ++ (old.filter fun entry => now < entry.1.expire).map Prod.fst
    unschedulable := [] }

def push (podName : Name) (priority : Nat) : SchedulingQueue :=
  { queue with active := queue.active ++ [(priority, podName)] }

/-- The entry of a pod that has failed once more. -/
def backOffPod (pod : PodInfo) (now : Nat) : Option BackOffPod :=
  let expire := now + 2 ^ ((pod.attempts + 1) % 2 ^ 32) % 2 ^ 64
  if expire < 2 ^ 63 then some { pod := (pod.spec.priority, pod.name), expire } else none

def pushUnschedulable (pod : PodInfo) (now : Nat) : Option SchedulingQueue :=
  (backOffPod pod now).map fun entry =>
    { queue with unschedulable := queue.unschedulable ++ [(entry, now)] }

def pushBackoff (pod : PodInfo) (now : Nat) : Option SchedulingQueue :=
  (backOffPod pod now).map fun entry =>
    if 8 < pod.attempts + 1 then
      { queue with unschedulable := queue.unschedulable ++ [(entry, now)] }
    else
      { queue with backoff := queue.backoff ++ [entry] }

/-- A hint of an enabled extension asks to queue the pod of the name. -/
def woken (others : OtherPlugins) (extensions : List EnqueueExtension) (event : EventInner)
    (pods : ExtTreeMap Name PodInfo) (podName : Name) : Bool :=
  extensions.any fun extension =>
    match pods[podName]? with
    | some pod => extension.hint others event pod
    | none => false

def hint (others : OtherPlugins) (extensions : List EnqueueExtension) (event : EventInner)
    (pods : ExtTreeMap Name PodInfo) : SchedulingQueue :=
  let wakes (podName : Name) := woken others extensions event pods podName
  { active := queue.active ++
      (queue.backoff.filter fun entry => wakes entry.pod.2).map BackOffPod.pod ++
      (queue.unschedulable.filter fun entry => wakes entry.1.pod.2).map fun entry => entry.1.pod
    backoff := queue.backoff.filter fun entry => !wakes entry.pod.2
    unschedulable := queue.unschedulable.filter fun entry => !wakes entry.1.pod.2 }

/-- All entries, with the priority they are queued under. -/
def entries : List PodNameWithPriority :=
  queue.active ++ queue.backoff.map BackOffPod.pod ++
    queue.unschedulable.map fun entry => entry.1.pod

end SchedulingQueue

end Rk8s.Scheduler
