import Rk8s.Scheduler.System

namespace Rk8s.Scheduler

open Std List

/-!
# Entries in the queues and in hand

An entry of a queue is taken over by a task, moved to another queue or dropped.
The entries of the queues and those that a task has in hand are collected in one
list; each operation is described by what it does to this list, up to order.
-/

namespace SchedulingQueue

variable {queue after : SchedulingQueue} {entry : PodNameWithPriority}

theorem greatest_mem {entries : List PodNameWithPriority} (best : greatest entries = some entry) :
    entry ∈ entries := by
  induction entries generalizing entry with
  | nil => cases best
  | cons first entries ih =>
    unfold greatest at best
    split at best
    · cases best
      exact mem_cons_self
    next other isOther =>
    split at best
    · cases best
      exact mem_cons_self
    · cases best
      exact mem_cons_of_mem _ (ih isOther)

theorem entries_nextPod (popped : queue.nextPod = some (entry, after)) :
    queue.entries.Perm (entry :: after.entries) := by
  obtain ⟨best, isBest, same⟩ := Option.map_eq_some_iff.mp popped
  obtain ⟨rfl, rfl⟩ := Prod.mk.inj same
  have perm := perm_cons_erase (greatest_mem isBest)
  exact (perm.append_right _).append_right _

theorem entries_push (podName : Name) (priority : Nat) :
    (queue.push podName priority).entries.Perm ((priority, podName) :: queue.entries) := by
  unfold entries push
  rw [append_assoc, append_assoc, append_assoc]
  exact perm_middle

theorem entries_flushBackoffCompleted (now : Nat) :
    (queue.flushBackoffCompleted now).entries.Perm queue.entries := by
  have split := (filter_append_perm (fun entry : BackOffPod => decide (entry.expire ≤ now))
    queue.backoff).map BackOffPod.pod
  have rest : (fun entry : BackOffPod => decide (now < entry.expire)) =
      fun entry => !decide (entry.expire ≤ now) := by
    simp only [← decide_not, Nat.not_le]
  unfold entries flushBackoffCompleted
  simp only [rest]
  rw [map_append] at split
  rw [append_assoc queue.active]
  exact (split.append_left _).append_right _

/-- The entries that have been there long enough, and those of the other
queues. -/
theorem entries_flushUnschedulableLeftOver (now : Nat) :
    (queue.flushUnschedulableLeftOver now).entries.Perm
      (queue.active ++ queue.backoff.map BackOffPod.pod ++
        ((queue.unschedulable.filter fun entry => leftOver < now - entry.2).map
          fun entry => entry.1.pod)) := by
  generalize isOld : (queue.unschedulable.filter fun entry => leftOver < now - entry.2) = old
  have split := (filter_append_perm
    (fun entry : BackOffPod × Nat => decide (entry.1.expire ≤ now)) old).map
      fun entry => entry.1.pod
  have rest : (fun entry : BackOffPod × Nat => decide (now < entry.1.expire)) =
      fun entry => !decide (entry.1.expire ≤ now) := by
    simp only [← decide_not, Nat.not_le]
  unfold entries flushUnschedulableLeftOver
  simp only [isOld, rest, map_nil, append_nil, map_append, map_map]
  rw [map_append] at split
  refine Perm.trans ?_ (split.append_left _)
  simp only [append_assoc]
  refine Perm.append_left _ ?_
  refine Perm.trans perm_append_comm ?_
  rw [append_assoc]
  exact Perm.append_left _ perm_append_comm

theorem entries_hint (others : OtherPlugins) (extensions : List EnqueueExtension)
    (event : EventInner) (pods : ExtTreeMap Name PodInfo) :
    (queue.hint others extensions event pods).entries.Perm queue.entries := by
  have ofBackoff := (filter_append_perm
    (fun entry : BackOffPod => woken others extensions event pods entry.pod.2)
    queue.backoff).map BackOffPod.pod
  have ofUnschedulable := (filter_append_perm
    (fun entry : BackOffPod × Nat => woken others extensions event pods entry.1.pod.2)
    queue.unschedulable).map fun entry => entry.1.pod
  rw [map_append] at ofBackoff ofUnschedulable
  refine Perm.trans ?_ ((ofBackoff.append_left queue.active).append ofUnschedulable)
  unfold entries hint
  simp only [append_assoc]
  refine Perm.append_left _ (Perm.append_left _ ?_)
  rw [← append_assoc, ← append_assoc]
  exact perm_append_comm.append_right _

/-- A pod that has failed is queued again, unless its expiry time is out of
range. -/
theorem entries_pushFailed {pod : PodInfo} {now : Nat} {backoff : Bool}
    (pushed : (if backoff then queue.pushBackoff pod now else queue.pushUnschedulable pod now) =
      some after) :
    after.entries.Perm ((pod.spec.priority, pod.name) :: queue.entries) := by
  have isPod {entry : BackOffPod} (isEntry : backOffPod pod now = some entry) :
      entry.pod = (pod.spec.priority, pod.name) := by
    unfold backOffPod at isEntry
    dsimp only at isEntry
    split at isEntry
    · cases isEntry
      rfl
    · cases isEntry
  have ofUnschedulable {entry : BackOffPod} (isEntry : backOffPod pod now = some entry) :
      ({ queue with unschedulable := queue.unschedulable ++ [(entry, now)] } :
        SchedulingQueue).entries.Perm ((pod.spec.priority, pod.name) :: queue.entries) := by
    unfold entries
    rw [map_append, ← append_assoc, ← isPod isEntry]
    exact perm_append_singleton _ _
  split at pushed
  · obtain ⟨entry, isEntry, rfl⟩ := Option.map_eq_some_iff.mp pushed
    split
    · exact ofUnschedulable isEntry
    · unfold entries
      rw [map_append, ← isPod isEntry]
      simp only [append_assoc]
      exact Perm.trans (Perm.append_left _ perm_middle) perm_middle
  · obtain ⟨entry, isEntry, rfl⟩ := Option.map_eq_some_iff.mp pushed
    exact ofUnschedulable isEntry

theorem entries_pushAll (pushed : List PodNameWithPriority) (queue : SchedulingQueue) :
    (System.pushAll queue pushed).entries.Perm (pushed ++ queue.entries) := by
  induction pushed generalizing queue with
  | nil => exact Perm.refl _
  | cons entry pushed ih =>
    refine (ih _).trans ?_
    exact ((entries_push entry.2 entry.1).append_left pushed).trans perm_middle

end SchedulingQueue

/-- The entry that `schedule_one` works on. -/
def Worker.holds : Worker -> List PodNameWithPriority
  | .popped entry => [entry]
  | .looked entry _ _ => [entry]
  | .pending entry => [entry]
  | .failed entry _ _ => [entry]
  | .chose entry _ _ => [entry]
  | _ => []

def Watchdog.holds : Watchdog -> List PodNameWithPriority
  | .requeueing entries => entries
  | _ => []

/-- The pod of a call that is still to be offered to the queue. -/
def Call.holds : Call -> List PodNameWithPriority
  | .updatedPod original pod =>
    if pod.scheduled = none ∧ (original.all fun original => original.scheduled.isSome) = true then
      [(pod.spec.priority, pod.name)]
    else
      []
  | _ => []

/-- All entries, those in the queues and those in hand. -/
def System.tokens (s : System) : List PodNameWithPriority :=
  s.queue.entries ++ (s.worker.holds ++ (s.watchdog.holds ++ s.call.holds))

end Rk8s.Scheduler
