import Rk8s.Scheduler.System

namespace Rk8s.Scheduler

open Std List

/-!
# Queueing hints for nodes

When a node changes, the hints of the enabled extensions decide which waiting
pods are worth another attempt.  Some of them compare the node with what it was
before.  For a cached node `update_node` returns the node after the update, so
that these hints see no difference; what is left are the hints that only look at
the new node, with the requests that the caller has put into it.
-/

namespace SchedulingQueue

def waiting (queue : SchedulingQueue) : List Name :=
  (queue.backoff.map fun entry => entry.pod.2) ++ queue.unschedulable.map fun entry => entry.1.pod.2

def activeNames (queue : SchedulingQueue) : List Name := queue.active.map Prod.snd

/-- A hint moves the waiting pods that it wakes and leaves those that are active. -/
theorem mem_activeNames_hint {queue : SchedulingQueue} {others : OtherPlugins}
    {extensions : List EnqueueExtension} {event : EventInner} {pods : ExtTreeMap Name PodInfo}
    {podName : Name} :
    podName ∈ (queue.hint others extensions event pods).activeNames ↔
      podName ∈ queue.activeNames ∨
        podName ∈ queue.waiting ∧ woken others extensions event pods podName = true := by
  simp only [activeNames, waiting, hint, map_append, map_map, mem_append,
    mem_map, mem_filter, or_assoc]
  refine or_congr_right ?_
  constructor
  · rintro (⟨entry, ⟨member, wakes⟩, rfl⟩ | ⟨entry, ⟨member, wakes⟩, rfl⟩)
    · exact ⟨.inl ⟨entry, member, rfl⟩, wakes⟩
    · exact ⟨.inr ⟨entry, member, rfl⟩, wakes⟩
  · rintro ⟨⟨entry, member, rfl⟩ | ⟨entry, member, rfl⟩, wakes⟩
    · exact .inl ⟨entry, ⟨member, wakes⟩, rfl⟩
    · exact .inr ⟨entry, ⟨member, wakes⟩, rfl⟩

end SchedulingQueue

/-- What the filter answers in a cycle whose pre-filters have run. -/
def FilterPlugin.accepts (plugin : FilterPlugin) (pod : PodInfo) (node : NodeInfo) : Bool :=
  plugin.filter {} [] pod { podRequests := some pod.spec.resources } node = .success

/-- The hints that look at the new node only. -/
def EnqueueExtension.fits (extension : EnqueueExtension) (pod : PodInfo) (node : NodeInfo) : Bool :=
  match extension with
  | .balancedAllocation => isFit pod.spec.resources node
  | .nodeResourcesFit => isFit pod.spec.resources node
  | .nodeGpuResourcesFit => isGpuFit pod node
  | _ => false

/-- An update keeps nothing of the old node that the other hints compare. -/
theorem EnqueueExtension.hint_updated (others : OtherPlugins) (extension : EnqueueExtension)
    (old new : NodeInfo) (pod : PodInfo) :
    extension.hint others (.node (some (old.updated new)) new) pod = extension.fits pod new := by
  have sameMatches : requiredNodeAffinityMatches pod (old.updated new) =
      requiredNodeAffinityMatches pod new := rfl
  have sameTaints : isUntolerated pod (old.updated new) = isUntolerated pod new := rfl
  have sameLabels : (old.updated new).labels = new.labels := rfl
  cases extension with
  | balancedAllocation => rfl
  | nodeAffinity => simp [hint, fits, sameMatches]
  | nodeName => rfl
  | nodeResourcesFit => rfl
  | taintToleration => simp [hint, fits, sameTaints]
  | podAffinity => simp [hint, fits, sameLabels]
  | nodeGpuResourcesFit => rfl

namespace System

/-- The call of `update_cache_node`, from its first to its last step. -/
def updateCacheNode (config : Config) (s : System) (node : NodeInfo) : Option System :=
  (s.step config (.updateCacheNode node)).bind fun updated => updated.step config .finishCall

/-- A waiting pod is woken by the update of a cached node exactly if an enabled
hint finds room for it on the node as it was passed, whatever the filters said of
the node before. -/
theorem woken_by_node_iff (config : Config) (s : System) (idle : s.call = .idle)
    (old new : NodeInfo) (cached : s.cache.nodes[new.name]? = some old) (podName : Name)
    (pod : PodInfo) (isPod : s.cache.pods[podName]? = some pod)
    (isWaiting : podName ∈ s.queue.waiting) :
    (Exists fun final => s.updateCacheNode config new = some final ∧
        final.cache.nodes[new.name]? = some (old.updated new) ∧
        podName ∈ final.queue.activeNames) ↔
      podName ∈ s.queue.activeNames ∨
        Exists fun extension => extension ∈ config.extensions ∧ extension.fits pod new = true := by
  obtain ⟨final, called, queue, node⟩ : ∃ final,
      s.updateCacheNode config new = some final ∧
      final.queue = s.queue.hint config.others config.extensions
        (.node (some (old.updated new)) new) s.cache.pods ∧
      final.cache.nodes[new.name]? = some (old.updated new) := by
    refine ⟨_, by simp only [updateCacheNode, step, callStep, idle, beginCall, Cache.updateNode,
      cached, Option.bind_some]; rfl, rfl, ?_⟩
    exact (lookup_insert _ _ _ _).trans (if_pos rfl)
  have wakes : podName ∈ final.queue.activeNames ↔ podName ∈ s.queue.activeNames ∨
      ∃ extension ∈ config.extensions, extension.fits pod new = true := by
    rw [queue, SchedulingQueue.mem_activeNames_hint]
    simp only [SchedulingQueue.woken, isPod, EnqueueExtension.hint_updated, any_eq_true,
      isWaiting, true_and]
  rw [← wakes]
  constructor
  · rintro ⟨other, otherCalled, -, active⟩
    rw [called] at otherCalled
    cases otherCalled
    exact active
  · exact fun active => ⟨final, called, node, active⟩

/-- A pod that asks for a GPU. -/
def gpuPod : PodInfo where
  name := [1]
  spec := { resources := { cpu := 1 }, gpuRequest := 1 }

/-- A node, with what the caller believes to be requested on it. -/
def fourCores (requested : Nat) (taints : List Taint) : NodeInfo where
  name := [2]
  allocatable := { cpu := 4 }
  requested := { cpu := requested }
  spec := { taints }

/-- The pod waits, and the only node is empty and has a taint. -/
def taintedNode : System where
  cache :=
    { pods := ExtTreeMap.insert ∅ [1] gpuPod
      nodes := ExtTreeMap.insert ∅ [2]
        (fourCores 0 [{ key := .nodeNotReady, effect := .noSchedule }]) }
  queue := { unschedulable := [({ pod := (0, [1]), expire := 5 }, 1)] }

theorem woken_by_node_roomy :
    Exists fun final => taintedNode.updateCacheNode {} (fourCores 2 []) = some final ∧
      final.cache.nodes[([2] : Name)]? = some (fourCores 0 []) ∧
      [1] ∈ final.queue.activeNames := by
  refine (woken_by_node_iff {} taintedNode rfl
    (fourCores 0 [{ key := .nodeNotReady, effect := .noSchedule }]) (fourCores 2 [])
    (by decide +kernel) [1] gpuPod (by decide +kernel) (by decide)).mpr ?_
  exact .inr ⟨.nodeResourcesFit, by decide, by decide⟩

/-- The taint goes away and the node has room, but by the count of the caller it
is full: no hint wakes the pod. -/
theorem untainted_node_wakes_nobody :
    Exists fun final => taintedNode.updateCacheNode {} (fourCores 4 []) = some final ∧
      taintedNode.cache.pods[([1] : Name)]? = some gpuPod ∧ [1] ∈ taintedNode.queue.waiting ∧
      taintedNode.cache.nodes[([2] : Name)]? =
        some (fourCores 0 [{ key := .nodeNotReady, effect := .noSchedule }]) ∧
      FilterPlugin.accepts .taintToleration gpuPod
        (fourCores 0 [{ key := .nodeNotReady, effect := .noSchedule }]) = false ∧
      final.cache.nodes[([2] : Name)]? = some (fourCores 0 []) ∧
      FilterPlugin.accepts .taintToleration gpuPod (fourCores 0 []) = true ∧
      FilterPlugin.accepts .nodeResourcesFit gpuPod (fourCores 0 []) = true ∧
      [1] ∉ final.queue.activeNames :=
  ⟨_, rfl, by decide +kernel, by decide, by decide +kernel, by decide, by decide +kernel,
    by decide, by decide, by decide +kernel⟩

end System

end Rk8s.Scheduler
