import Rk8s.Lib.Collections
import Rk8s.Scheduler.Models

namespace Rk8s.Scheduler

open Std

/-!
# The cache

What the scheduler knows of the cluster.  The resources that the pods of a node
request are kept with the node; each operation below adds or subtracts those of
one pod.  Maps are hash maps in the program and sorted here; nothing depends on
the order in which they are listed.
-/

/-- `a + b` of type `u64`. -/
def addU64 (a b : Nat) : Nat := (a + b) % 2 ^ 64

/-- `a - b` of type `u64`. -/
def subU64 (a b : Nat) : Nat := (a + 2 ^ 64 - b) % 2 ^ 64

/-- `u32::saturating_add`. -/
def saturatingAdd (a b : Nat) : Nat := min (a + b) (2 ^ 32 - 1)

structure Cache where
  pods : ExtTreeMap Name PodInfo := ∅
  nodes : ExtTreeMap Name NodeInfo := ∅

/-- Add the requests of a pod to those of a node. -/
def NodeInfo.charge (node : NodeInfo) (spec : PodSpec) : NodeInfo :=
  { node with
    requested :=
      { cpu := addU64 node.requested.cpu spec.resources.cpu
        memory := addU64 node.requested.memory spec.resources.memory }
    gpuResources := node.gpuResources.map fun gpu =>
      if 0 < spec.gpuRequest then
        { gpu with requested := saturatingAdd gpu.requested spec.gpuRequest }
      else
        gpu }

/-- Subtract the requests of a pod from those of a node. -/
def NodeInfo.refund (node : NodeInfo) (spec : PodSpec) : NodeInfo :=
  { node with
    requested :=
      { cpu := subU64 node.requested.cpu spec.resources.cpu
        memory := subU64 node.requested.memory spec.resources.memory }
    gpuResources := node.gpuResources.map fun gpu =>
      if 0 < spec.gpuRequest then
        { gpu with requested := gpu.requested - spec.gpuRequest }
      else
        gpu }

/-- The cached node with what an update brings.  Its requests are kept. -/
def NodeInfo.updated (oldNode newNode : NodeInfo) : NodeInfo :=
  { oldNode with
    labels := newNode.labels
    spec := newNode.spec
    allocatable := newNode.allocatable
    gpuResources := newNode.gpuResources.map fun gpu =>
      { gpu with requested := (oldNode.gpuResources.map GpuResources.requested).getD 0 } }

namespace Cache

variable (cache : Cache) (podName : Name)

def addFail : Cache × Bool :=
  if cache.pods.contains podName then
    ({ cache with
        pods := cache.pods.modify podName fun pod => { pod with attempts := pod.attempts + 1 } },
      true)
  else
    (cache, false)

def assume (nodeName : Name) : Cache × Bool :=
  match cache.pods[podName]? with
  | none => (cache, false)
  | some pod =>
    if pod.scheduled = some nodeName then
      (cache, true)
    else
      match cache.nodes[nodeName]? with
      | none => (cache, false)
      | some node =>
        ({ pods := cache.pods.insert podName { pod with scheduled := some nodeName }
           nodes := cache.nodes.insert nodeName (node.charge pod.spec) },
          true)

def unassume : Cache × Option PodInfo :=
  match cache.pods[podName]? with
  | none => (cache, none)
  | some pod =>
    match pod.scheduled with
    | none => (cache, none)
    | some nodeName =>
      match cache.nodes[nodeName]? with
      | none => (cache, none)
      | some node =>
        ({ pods := cache.pods.insert podName { pod with scheduled := none }
           nodes := cache.nodes.insert nodeName (node.refund pod.spec) },
          some { pod with scheduled := none })

def updatePod (pod : PodInfo) : Cache × Option PodInfo :=
  ({ cache with pods := cache.pods.insert pod.name pod }, cache.pods[pod.name]?)

/-- The nodes once a pod is gone. -/
def refundPod (pod : PodInfo) : ExtTreeMap Name NodeInfo :=
  match pod.scheduled with
  | none => cache.nodes
  | some nodeName =>
    match cache.nodes[nodeName]? with
    | none => cache.nodes
    | some node => cache.nodes.insert nodeName (node.refund pod.spec)

def removePod : Cache × Option PodInfo :=
  match cache.pods[podName]? with
  | none => (cache, none)
  | some pod =>
    ({ pods := cache.pods.erase podName, nodes := cache.refundPod pod }, some pod)

/-- The answer for a cached node is the node after the update. -/
def updateNode (newNode : NodeInfo) : Cache × Option NodeInfo :=
  match cache.nodes[newNode.name]? with
  | some oldNode =>
    ({ cache with nodes := cache.nodes.insert newNode.name (oldNode.updated newNode) },
      some (oldNode.updated newNode))
  | none => ({ cache with nodes := cache.nodes.insert newNode.name newNode }, none)

/-- The pods on a node are taken off it. -/
def popPodOnNode (nodeName : Name) : Cache × List PodNameWithPriority :=
  ({ cache with
      pods := cache.pods.map fun _ pod =>
        if pod.scheduled = some nodeName then { pod with scheduled := none, attempts := 0 }
        else pod },
    (cache.pods.toList.filter fun entry => entry.2.scheduled = some nodeName).map fun entry =>
      (entry.2.spec.priority, entry.2.name))

def removeNode (nodeName : Name) : Cache :=
  { cache with nodes := cache.nodes.erase nodeName }

def getNodes : List NodeInfo := cache.nodes.toList.map Prod.snd

end Cache

section Lookup

variable {cache after : Cache} {podName nodeName other : Name} {pod : PodInfo}

namespace Cache

theorem lookup_assume (assumed : cache.assume podName nodeName = (after, true)) :
    ∃ pod, cache.pods[podName]? = some pod ∧
      ∀ other : Name, after.pods[other]? =
        if podName = other then some { pod with scheduled := some nodeName }
        else cache.pods[other]? := by
  unfold assume at assumed
  split at assumed
  · cases assumed
  next pod known =>
  refine ⟨pod, known, fun other => ?_⟩
  split at assumed
  · next there =>
    cases assumed
    split
    · next same => rw [← same, known, ← there]
    · rfl
  · split at assumed
    · cases assumed
    · cases assumed
      exact lookup_insert _ _ _ _

theorem assume_failed (failed : cache.assume podName nodeName = (after, false)) :
    cache = after ∧ (cache.pods[podName]? = none ∨ cache.nodes[nodeName]? = none) := by
  unfold assume at failed
  split at failed
  · next absent =>
    cases failed
    exact ⟨rfl, .inl absent⟩
  split at failed
  · cases failed
  split at failed
  · next absent =>
    cases failed
    exact ⟨rfl, .inr absent⟩
  · cases failed

theorem unassume_some (freed : cache.unassume podName = (after, some pod)) :
    ∃ old, cache.pods[podName]? = some old ∧ pod = { old with scheduled := none } ∧
      ∀ other : Name, after.pods[other]? =
        if podName = other then some pod else cache.pods[other]? := by
  unfold unassume at freed
  split at freed
  · cases freed
  next old known =>
  split at freed
  · cases freed
  split at freed
  · cases freed
  · cases freed
    exact ⟨old, known, rfl, fun other => lookup_insert _ _ _ _⟩

theorem unassume_none (kept : cache.unassume podName = (after, none)) : cache = after := by
  unfold unassume at kept
  split at kept
  · exact congrArg Prod.fst kept
  split at kept
  · exact congrArg Prod.fst kept
  split at kept
  · exact congrArg Prod.fst kept
  · cases kept

theorem lookup_popPodOnNode (cache : Cache) (nodeName other : Name) :
    (cache.popPodOnNode nodeName).1.pods[other]? =
      cache.pods[other]?.map fun pod =>
        if pod.scheduled = some nodeName then { pod with scheduled := none, attempts := 0 }
        else pod := by
  simp [popPodOnNode]

theorem mem_popPodOnNode (known : cache.pods[podName]? = some pod)
    (there : pod.scheduled = some nodeName) :
    (pod.spec.priority, pod.name) ∈ (cache.popPodOnNode nodeName).2 := by
  refine List.mem_map.mpr ⟨(podName, pod), List.mem_filter.mpr ⟨?_, by simpa using there⟩, rfl⟩
  exact ExtTreeMap.mem_toList_iff_getElem?_eq_some.mpr known

theorem lookup_addFail (cache : Cache) (podName other : Name) :
    (cache.addFail podName).1.pods[other]? =
      if podName = other then
        cache.pods[other]?.map fun pod => { pod with attempts := pod.attempts + 1 }
      else
        cache.pods[other]? := by
  unfold addFail
  split
  · dsimp only
    rw [lookup_modify]
    split
    · next same => rw [same]
    · rfl
  next absent =>
  split
  · next same =>
    have none : cache.pods[other]? = none := by
      rw [← same, ← Option.isNone_iff_eq_none, ← Option.not_isSome,
        ExtTreeMap.isSome_getElem?_eq_contains, Bool.eq_false_iff.mpr absent]
      rfl
    simp [none]
  · rfl

theorem addFail_snd (cache : Cache) (podName : Name) :
    (cache.addFail podName).2 = cache.pods[podName]?.isSome := by
  unfold addFail
  rw [ExtTreeMap.isSome_getElem?_eq_contains]
  split
  · next there => exact there.symm
  · next absent => exact (Bool.eq_false_iff.mpr absent).symm

theorem lookup_removePod (cache : Cache) (podName other : Name) :
    (cache.removePod podName).1.pods[other]? =
      if podName = other then none else cache.pods[other]? := by
  unfold removePod
  split
  · next absent =>
    split
    · next same => rw [← same, absent]
    · rfl
  · exact lookup_erase _ _ _

end Cache

end Lookup

end Rk8s.Scheduler
