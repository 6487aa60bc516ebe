import Rk8s.Lib.Totals
import Rk8s.Lib.Transition
import Rk8s.Scheduler.Cache

namespace Rk8s.Scheduler

open Option Std Totals Transition NodeInfo

/-!
# The counters of the nodes

The requested resources of a node are counters that every change of a pod keeps
up to date on its own.  They are compared here with the sums over the pods on
the node.  A pod that is overwritten in place, moved from one node to another or
entered as scheduled is not accounted for; apart from that the counters are
exact.
-/

/-- What pods request and nodes count. -/
inductive Resource
  | cpu
  | memory
  | gpu

def PodSpec.request (spec : PodSpec) : Resource -> Nat
  | .cpu => spec.resources.cpu
  | .memory => spec.resources.memory
  | .gpu => spec.gpuRequest

/-- The counter of a node; only a node with GPU resources counts GPUs. -/
def NodeInfo.counter (node : NodeInfo) : Resource -> Option Nat
  | .cpu => some node.requested.cpu
  | .memory => some node.requested.memory
  | .gpu => node.gpuResources.map GpuResources.requested

/-- The first number that the counter cannot hold. -/
def Resource.limit : Resource -> Nat
  | .cpu => 2 ^ 64
  | .memory => 2 ^ 64
  | .gpu => 2 ^ 32

/-- The request of a pod, if it is on the node. -/
def requestOn (resource : Resource) (nodeName : Name) (_ : Name) (pod : PodInfo) : Nat :=
  if pod.scheduled = some nodeName then pod.spec.request resource else 0

namespace Cache

/-- The sum of the requests over exactly the pods on a node. -/
def requestedOn (cache : Cache) (resource : Resource) (nodeName : Name) : Nat :=
  total (requestOn resource nodeName) cache.pods

/-- Every counter of every node is the sum over the pods on the node. -/
def Exact (cache : Cache) : Prop :=
  forall (nodeName : Name) node resource count, cache.nodes[nodeName]? = some node ->
    node.counter resource = some count -> count = cache.requestedOn resource nodeName

/-- The requests of the pods on a node can be subtracted from its counters. -/
def NoUnderflow (cache : Cache) : Prop :=
  forall (podName nodeName : Name) pod node resource count, cache.pods[podName]? = some pod ->
    pod.scheduled = some nodeName -> cache.nodes[nodeName]? = some node ->
    node.counter resource = some count -> pod.spec.request resource ≤ count

end Cache

section Counters

variable {node : NodeInfo} {spec : PodSpec} {resource : Resource} {nodeName podName : Name}
  {pod : PodInfo}

/-- The counters have room for the requests. -/
def NodeInfo.Holds (node : NodeInfo) (spec : PodSpec) : Prop :=
  node.requested.cpu + spec.resources.cpu < 2 ^ 64 ∧
    node.requested.memory + spec.resources.memory < 2 ^ 64 ∧
    (node.gpuResources.all fun gpu => gpu.requested + spec.gpuRequest < 2 ^ 32) = true
deriving Decidable

theorem NodeInfo.Holds.bound (holds : node.Holds spec) {count : Nat}
    (isCount : node.counter resource = some count) :
    count + spec.request resource < resource.limit := by
  obtain ⟨cpu, memory, gpu⟩ := holds
  cases resource with
  | cpu =>
    cases isCount
    exact cpu
  | memory =>
    cases isCount
    exact memory
  | gpu =>
    obtain ⟨resources, isGpu, rfl⟩ := map_eq_some_iff.mp isCount
    simpa [isGpu, PodSpec.request, Resource.limit] using gpu

theorem NodeInfo.counter_charge (holds : node.Holds spec) :
    (node.charge spec).counter resource =
      (node.counter resource).map fun count => count + spec.request resource := by
  have bound {count : Nat} (isCount : node.counter resource = some count) := holds.bound isCount
  cases resource with
  | cpu | memory => exact congrArg some (Nat.mod_eq_of_lt (bound rfl))
  | gpu =>
    cases isGpu : node.gpuResources with
    | none => simp [counter, charge, isGpu]
    | some gpu =>
      have small : gpu.requested + spec.gpuRequest < 2 ^ 32 :=
        bound (by simp [counter, isGpu])
      simp only [counter, charge, isGpu, map_some, some.injEq, PodSpec.request]
      split
      · exact min_eq_left (Nat.le_pred_of_lt small)
      · omega

theorem NodeInfo.counter_refund
    (small : ∀ count, node.counter resource = some count -> count < resource.limit)
    (enough : ∀ count, node.counter resource = some count -> spec.request resource ≤ count) :
    (node.refund spec).counter resource =
      (node.counter resource).map fun count => count - spec.request resource := by
  have wraps {a b : Nat} (below : a < 2 ^ 64) (le : b ≤ a) : subU64 a b = a - b := by
    unfold subU64
    omega
  cases resource with
  | cpu | memory => exact congrArg some (wraps (small _ rfl) (enough _ rfl))
  | gpu =>
    cases isGpu : node.gpuResources with
    | none => simp [counter, refund, isGpu]
    | some gpu =>
      simp only [counter, refund, isGpu, map_some, some.injEq, PodSpec.request]
      split
      · rfl
      · omega

section Sums

variable {cache : Cache}

namespace Cache

theorem requestedOn_insert (cache : Cache) (resource : Resource) (nodeName podName : Name)
    (pod : PodInfo) (nodes : ExtTreeMap Name NodeInfo) :
    ({ pods := cache.pods.insert podName pod, nodes } : Cache).requestedOn resource nodeName +
        part (requestOn resource nodeName) cache.pods podName =
      cache.requestedOn resource nodeName + requestOn resource nodeName podName pod := by
  unfold requestedOn
  rw [total_insert, total_eq_part_add cache.pods podName]
  omega

theorem requestedOn_erase (cache : Cache) (resource : Resource) (nodeName podName : Name)
    (nodes : ExtTreeMap Name NodeInfo) :
    ({ pods := cache.pods.erase podName, nodes } : Cache).requestedOn resource nodeName +
        part (requestOn resource nodeName) cache.pods podName =
      cache.requestedOn resource nodeName := by
  unfold requestedOn
  rw [total_eq_part_add cache.pods podName]
  exact add_comm _ _

theorem part_of_lookup (known : cache.pods[podName]? = some pod) :
    part (requestOn resource nodeName) cache.pods podName =
      requestOn resource nodeName podName pod := by
  simp [part, known]

theorem requestedOn_eq_zero
    (none : ∀ (podName : Name) pod, cache.pods[podName]? = some pod ->
      pod.scheduled = some nodeName -> pod.spec.request resource = 0) :
    cache.requestedOn resource nodeName = 0 := by
  unfold requestedOn
  rw [total_congr fun _ _ => 0]
  · simp [total]
  intro key value known
  unfold requestOn
  split
  · next there => exact none key value known there
  · rfl

theorem Exact.noUnderflow (exact : cache.Exact) : cache.NoUnderflow := by
  intro podName nodeName pod node resource count known there isNode isCount
  rw [exact nodeName node resource count isNode isCount]
  unfold requestedOn
  rw [total_eq_part_add cache.pods podName, part_of_lookup known, requestOn, if_pos there]
  exact Nat.le_add_right _ _

end Cache

end Sums

/-- The calls that change the cache. -/
inductive Op
  | updateCachePod (pod : PodInfo)
  | assume (podName nodeName : Name)
  | unassume (podName : Name)
  | removeCachePod (podName : Name)
  | updateCacheNode (node : NodeInfo)
  | removeCacheNode (nodeName : Name)

namespace Cache

variable (cache : Cache)

/-- A pod that arrives as scheduled is assumed on its node. -/
def updateCachePod (pod : PodInfo) : Cache :=
  match pod.scheduled with
  | none => (cache.updatePod pod).1
  | some nodeName => ((cache.updatePod pod).1.assume pod.name nodeName).1

def removeCacheNode (nodeName : Name) : Cache :=
  (cache.popPodOnNode nodeName).1.removeNode nodeName

def apply : Op -> Cache
  | .updateCachePod pod => cache.updateCachePod pod
  | .assume podName nodeName => (cache.assume podName nodeName).1
  | .unassume podName => (cache.unassume podName).1
  | .removeCachePod podName => (cache.removePod podName).1
  | .updateCacheNode node => (cache.updateNode node).1
  | .removeCacheNode nodeName => cache.removeCacheNode nodeName

/-- No call fails. -/
def step (op : Op) : Option Cache := some (cache.apply op)

/-- The cached node that a pod counts on, with the requests. -/
def charges (pod : PodInfo) : Option (Name × ResourcesRequirements × Nat) :=
  pod.scheduled.bind fun nodeName =>
    if cache.nodes.contains nodeName then
      some (nodeName, pod.spec.resources, pod.spec.gpuRequest)
    else
      none

def podsOn (nodeName : Name) : List PodInfo :=
  (cache.pods.toList.map Prod.snd).filter fun pod => pod.scheduled = some nodeName

/-- Nodes are added with no requested resources. -/
def AddsEmpty : Op -> Prop
  | .updateCacheNode node =>
    cache.nodes.contains node.name = false ->
      node.requested = {} ∧ (node.gpuResources.all fun gpu => gpu.requested = 0) = true
  | _ => True

/-- A pod is overwritten by one that counts the same, assumed only where it does
not count on another node and the counters have room for it.  No pod is on a node
that is added, and no pod on a node that gets GPU resources requests any. -/
def Accounted : Op -> Prop
  | .updateCachePod pod => cache.pods[pod.name]?.bind cache.charges = cache.charges pod
  | .assume podName nodeName =>
    match cache.pods[podName]?, cache.nodes[nodeName]? with
    | some pod, some node =>
      pod.scheduled = some nodeName ∨ cache.charges pod = none ∧ node.Holds pod.spec
    | _, _ => True
  | .updateCacheNode node =>
    match cache.nodes[node.name]? with
    | none => cache.podsOn node.name = []
    | some oldNode =>
      oldNode.gpuResources = none -> node.gpuResources ≠ none ->
        ((cache.podsOn node.name).all fun pod => pod.spec.gpuRequest = 0) = true
  | _ => True

instance (cache : Cache) (op : Op) : Decidable (cache.AddsEmpty op) := by
  unfold AddsEmpty
  split <;> infer_instance

instance (cache : Cache) (op : Op) : Decidable (cache.Accounted op) := by
  unfold Accounted
  repeat' split
  all_goals infer_instance

end Cache

section Steps

variable {cache : Cache}

namespace Cache

/-- The counters are exact and fit into their types. -/
structure Sound (cache : Cache) : Prop where
  exact : cache.Exact
  bounded : forall (nodeName : Name) node resource count, cache.nodes[nodeName]? = some node ->
    node.counter resource = some count -> count < resource.limit

variable {pods : ExtTreeMap Name PodInfo}

/-- What is left to show when the nodes stay as they are. -/
theorem Sound.of_same_nodes (sound : cache.Sound)
    (same : ∀ resource (nodeName : Name) node, cache.nodes[nodeName]? = some node ->
      ({ pods, nodes := cache.nodes } : Cache).requestedOn resource nodeName =
        cache.requestedOn resource nodeName) :
    ({ pods, nodes := cache.nodes } : Cache).Sound where
  exact := by
    intro nodeName node resource count isNode isCount
    rw [same resource nodeName node isNode]
    exact sound.exact nodeName node resource count isNode isCount
  bounded := sound.bounded

/-- One node is exchanged, and the sums of the others stay as they are. -/
theorem Sound.of_node (sound : cache.Sound)
    (others : ∀ resource (other : Name) old, cache.nodes[other]? = some old ->
      nodeName ≠ other ->
      ({ pods, nodes := cache.nodes.insert nodeName node } : Cache).requestedOn resource other =
        cache.requestedOn resource other)
    (this : ∀ resource count, node.counter resource = some count ->
      count = ({ pods, nodes := cache.nodes.insert nodeName node } : Cache).requestedOn resource
          nodeName ∧
        count < resource.limit) :
    ({ pods, nodes := cache.nodes.insert nodeName node } : Cache).Sound := by
  refine ⟨fun other old resource count isNode isCount => ?_,
    fun other old resource count isNode isCount => ?_⟩
  all_goals
    rw [lookup_insert] at isNode
    split at isNode
    · next same =>
      subst same
      cases isNode
      have facts := this resource count isCount
      first | exact facts.1 | exact facts.2
    · next different =>
      first
      | exact sound.bounded other old resource count isNode isCount
      | rw [others resource other old isNode different]
        exact sound.exact other old resource count isNode isCount

theorem contains_of_lookup (isNode : cache.nodes[nodeName]? = some node) :
    cache.nodes.contains nodeName = true := by
  rw [← ExtTreeMap.isSome_getElem?_eq_contains, isNode]
  rfl

/-- The request of a pod on a cached node, read off from what it counts. -/
def chargeOf (resource : Resource) (nodeName : Name) :
    Option (Name × ResourcesRequirements × Nat) -> Nat
  | some (other, requests, gpu) =>
    if other = nodeName then
      match resource with
      | .cpu => requests.cpu
      | .memory => requests.memory
      | .gpu => gpu
    else
      0
  | none => 0

theorem requestOn_eq (isNode : cache.nodes[nodeName]? = some node) :
    requestOn resource nodeName podName pod = chargeOf resource nodeName (cache.charges pod) := by
  unfold requestOn charges
  cases pod.scheduled with
  | none => rfl
  | some other =>
    by_cases same : other = nodeName
    · subst same
      simp only [contains_of_lookup isNode, if_true, bind_some, chargeOf]
      cases resource <;> rfl
    · simp only [some.injEq, same, if_false, bind_some]
      split
      · simp [chargeOf, same]
      · rfl

theorem updateCachePod_eq (cache : Cache) (pod : PodInfo) :
    cache.updateCachePod pod = { cache with pods := cache.pods.insert pod.name pod } := by
  unfold updateCachePod
  split
  · rfl
  · next nodeName there => simp [updatePod, assume, there]

section

variable (sound : cache.Sound)
include sound

theorem Sound.updateCachePod (same : cache.pods[pod.name]?.bind cache.charges = cache.charges pod) :
    (cache.updateCachePod pod).Sound := by
  rw [updateCachePod_eq]
  refine sound.of_same_nodes fun resource nodeName node isNode => ?_
  have sums := cache.requestedOn_insert resource nodeName pod.name pod cache.nodes
  have before : part (requestOn resource nodeName) cache.pods pod.name =
      requestOn resource nodeName pod.name pod := by
    rw [requestOn_eq isNode, ← same]
    unfold part
    cases known : cache.pods[pod.name]? with
    | none => rfl
    | some old =>
      show requestOn resource nodeName pod.name old = _
      rw [requestOn_eq isNode]
      rfl
  omega

theorem Sound.assume (accounted : cache.Accounted (.assume podName nodeName)) :
    (cache.assume podName nodeName).1.Sound := by
  simp only [Accounted] at accounted
  unfold Cache.assume
  cases known : cache.pods[podName]? with
  | none => exact sound
  | some pod =>
    dsimp only
    split
    · exact sound
    next elsewhere =>
    cases isNode : cache.nodes[nodeName]? with
    | none => exact sound
    | some node =>
      simp only [known, isNode, elsewhere, false_or] at accounted
      obtain ⟨free, holds⟩ := accounted
      have before (resource : Resource) (other : Name) (old : NodeInfo)
          (isOld : cache.nodes[other]? = some old) :
          part (requestOn resource other) cache.pods podName = 0 := by
        rw [part_of_lookup known, requestOn_eq isOld, free]
        rfl
      have sums (resource : Resource) (other : Name) :=
        cache.requestedOn_insert resource other podName
          { pod with scheduled := some nodeName }
          (cache.nodes.insert nodeName (node.charge pod.spec))
      refine sound.of_node (fun resource other old isOld different => ?_)
        fun resource count isCount => ?_
      · have sum := sums resource other
        rw [before resource other old isOld, requestOn, if_neg (by simpa using different)]
          at sum
        omega
      rw [counter_charge holds] at isCount
      obtain ⟨count, isBefore, rfl⟩ := map_eq_some_iff.mp isCount
      have sum := sums resource nodeName
      rw [before resource nodeName node isNode, requestOn, if_pos rfl,
        ← sound.exact nodeName node resource count isNode isBefore] at sum
      exact ⟨sum.symm, holds.bound isBefore⟩

/-- The counters of a node that a pod leaves. -/
theorem Sound.refund (known : cache.pods[podName]? = some pod)
    (there : pod.scheduled = some nodeName) (isNode : cache.nodes[nodeName]? = some node)
    (sums : ∀ resource other,
      ({ pods, nodes := cache.nodes.insert nodeName (node.refund pod.spec) } : Cache).requestedOn
          resource other +
        part (requestOn resource other) cache.pods podName = cache.requestedOn resource other) :
    ({ pods, nodes := cache.nodes.insert nodeName (node.refund pod.spec) } : Cache).Sound := by
  have parts (resource : Resource) (other : Name) :
      part (requestOn resource other) cache.pods podName =
        if nodeName = other then pod.spec.request resource else 0 := by
    rw [part_of_lookup known, requestOn, there]
    simp
  refine sound.of_node (fun resource other old isOld different => ?_)
    fun resource count isCount => ?_
  · have sum := sums resource other
    rw [parts, if_neg different] at sum
    omega
  have enough (count : Nat) (isBefore : node.counter resource = some count) :
      pod.spec.request resource ≤ count :=
    sound.exact.noUnderflow podName nodeName pod node resource count known there isNode isBefore
  rw [counter_refund
    (fun count => sound.bounded nodeName node resource count isNode) enough] at isCount
  obtain ⟨count, isBefore, rfl⟩ := map_eq_some_iff.mp isCount
  have sum := sums resource nodeName
  rw [parts, if_pos rfl, ← sound.exact nodeName node resource count isNode isBefore] at sum
  have bound := sound.bounded nodeName node resource count isNode isBefore
  omega

theorem Sound.unassume (podName : Name) : (cache.unassume podName).1.Sound := by
  unfold Cache.unassume
  cases known : cache.pods[podName]? with
  | none => exact sound
  | some pod =>
    cases there : pod.scheduled with
    | none => simpa [there] using sound
    | some nodeName =>
      cases isNode : cache.nodes[nodeName]? with
      | none => simpa [there, isNode] using sound
      | some node =>
        simp only [there, isNode]
        refine sound.refund known there isNode fun resource other => ?_
        rw [requestedOn_insert]
        rfl

theorem Sound.removePod (podName : Name) : (cache.removePod podName).1.Sound := by
  unfold Cache.removePod refundPod
  cases known : cache.pods[podName]? with
  | none => exact sound
  | some pod =>
    have gone (resource : Resource) (other : Name) (nodes : ExtTreeMap Name NodeInfo) :=
      cache.requestedOn_erase resource other podName nodes
    have apart (away : ∀ (other : Name) old, cache.nodes[other]? = some old ->
        pod.scheduled ≠ some other) :
        ({ pods := cache.pods.erase podName, nodes := cache.nodes } : Cache).Sound := by
      refine sound.of_same_nodes fun resource other old isOld => ?_
      have sum := gone resource other cache.nodes
      rw [part_of_lookup known, requestOn, if_neg (away other old isOld)] at sum
      exact sum
    cases there : pod.scheduled with
    | none =>
      simp only [there]
      exact apart fun other old _ same => by simp [there] at same
    | some nodeName =>
      cases isNode : cache.nodes[nodeName]? with
      | none =>
        simp only [there, isNode]
        refine apart fun other old isOld same => ?_
        obtain rfl : nodeName = other := Option.some.inj (there.symm.trans same)
        rw [isNode] at isOld
        cases isOld
      | some node =>
        simp only [there, isNode]
        exact sound.refund known there isNode fun resource other => gone resource other _

omit sound in
theorem mem_podsOn (known : cache.pods[podName]? = some pod)
    (there : pod.scheduled = some nodeName) : pod ∈ cache.podsOn nodeName := by
  refine List.mem_filter.mpr ⟨List.mem_map.mpr ⟨(podName, pod), ?_, rfl⟩, by simpa using there⟩
  exact ExtTreeMap.mem_toList_iff_getElem?_eq_some.mpr known

theorem Sound.updateNode (empty : cache.AddsEmpty (.updateCacheNode node))
    (accounted : cache.Accounted (.updateCacheNode node)) : (cache.updateNode node).1.Sound := by
  simp only [Accounted] at accounted empty
  unfold Cache.updateNode
  cases isNode : cache.nodes[node.name]? with
  | none =>
    simp only [isNode] at accounted
    have absent : cache.nodes.contains node.name = false := by
      rw [← ExtTreeMap.isSome_getElem?_eq_contains, isNode]
      rfl
    obtain ⟨noRequests, noGpu⟩ := empty absent
    have none (resource : Resource) : cache.requestedOn resource node.name = 0 := by
      refine requestedOn_eq_zero fun podName pod known there => ?_
      have member := mem_podsOn known there
      rw [accounted] at member
      cases member
    refine sound.of_node (fun _ _ _ _ _ => rfl) fun resource count isCount => ?_
    have zero : count = 0 := by
      cases resource with
      | cpu | memory => simpa [counter, noRequests, eq_comm] using isCount
      | gpu =>
        obtain ⟨gpu, isGpu, rfl⟩ := map_eq_some_iff.mp isCount
        simpa [isGpu] using noGpu
    rw [zero]
    exact ⟨(none resource).symm, by cases resource <;> decide⟩
  | some oldNode =>
    simp only [isNode] at accounted
    have kept (resource : Resource) (count : Nat)
        (isCount : oldNode.counter resource = some count) :
        count = cache.requestedOn resource node.name ∧ count < resource.limit :=
      ⟨sound.exact _ _ resource count isNode isCount,
        sound.bounded _ _ resource count isNode isCount⟩
    refine sound.of_node (fun _ _ _ _ _ => rfl) fun resource count isCount => ?_
    cases resource with
    | cpu => exact kept .cpu count isCount
    | memory => exact kept .memory count isCount
    | gpu =>
      obtain ⟨gpu, isGpu, rfl⟩ := map_eq_some_iff.mp isCount
      obtain ⟨new, isNew, rfl⟩ := map_eq_some_iff.mp isGpu
      cases isOld : oldNode.gpuResources with
      | some old =>
        exact kept .gpu old.requested (by simp [counter, isOld])
      | none =>
        -- The counter starts anew, so no pod on the node may request a GPU.
        have free := accounted isOld (by simp [isNew])
        have none : cache.requestedOn .gpu node.name = 0 := by
          refine requestedOn_eq_zero fun podName pod known there => ?_
          simpa [PodSpec.request] using
            List.all_eq_true.mp free pod (mem_podsOn known there)
        exact ⟨none.symm, Nat.two_pow_pos 32⟩

theorem Sound.removeCacheNode (nodeName : Name) : (cache.removeCacheNode nodeName).Sound := by
  have left {other : Name} {old : NodeInfo}
      (isOld : (cache.nodes.erase nodeName)[other]? = some old) :
      nodeName ≠ other ∧ cache.nodes[other]? = some old := by
    rw [lookup_erase] at isOld
    split at isOld
    · cases isOld
    · next different => exact ⟨different, isOld⟩
  refine ⟨fun other old resource count isOld isCount => ?_,
    fun other old resource count isOld isCount => ?_⟩
  · obtain ⟨different, isOld⟩ := left isOld
    rw [sound.exact other old resource count isOld isCount]
    unfold requestedOn Cache.removeCacheNode removeNode popPodOnNode
    rw [total_map]
    refine total_congr _ fun podName pod known => ?_
    unfold requestOn
    by_cases there : pod.scheduled = some nodeName
    · simp [there, different]
    · simp [there]
  · exact sound.bounded other old resource count (left isOld).2 isCount

theorem Sound.step {op : Op} {next : Cache} (empty : cache.AddsEmpty op)
    (accounted : cache.Accounted op) (taken : cache.step op = some next) : next.Sound := by
  obtain rfl := Option.some.inj taken
  cases op with
  | updateCachePod pod => exact sound.updateCachePod accounted
  | assume podName nodeName => exact sound.assume accounted
  | unassume podName => exact sound.unassume podName
  | removeCachePod podName => exact sound.removePod podName
  | updateCacheNode node => exact sound.updateNode empty accounted
  | removeCacheNode nodeName => exact sound.removeCacheNode nodeName

end

theorem sound_empty : ({} : Cache).Sound :=
  ⟨fun _ _ _ _ isNode => by simp at isNode, fun _ _ _ _ isNode => by simp at isNode⟩

end Cache

end Steps

/-- In every run from the empty cache in which nodes are added empty and every
call is accounted for, the counters are the sums over the pods, and no
subtraction underflows. -/
theorem requested_exact (ops : List Op) (final : Cache)
    (run : Run Cache.step (fun cache op => cache.AddsEmpty op ∧ cache.Accounted op)
      {} ops final) :
    final.Exact ∧ final.NoUnderflow := by
  have sound : final.Sound :=
    run.invariant Cache.Sound Cache.sound_empty fun _ _ _ sound met taken =>
      sound.step met.1 met.2 taken
  exact ⟨sound.exact, sound.exact.noUnderflow⟩

/-- Two pods on a node with GPUs.  One of them is taken off it again, the other
is overwritten by one that requests the same. -/
def twoPods : List Op :=
  [.updateCacheNode { name := [9], gpuResources := some { total := 4 } },
    .updateCachePod { name := [1], spec := { resources := { cpu := 3 }, gpuRequest := 1 } },
    .updateCachePod { name := [2], spec := { resources := { cpu := 5, memory := 7 } } },
    .assume [1] [9], .assume [2] [9], .unassume [2],
    .updateCachePod
      { name := [1], scheduled := some [9]
        spec := { resources := { cpu := 3 }, gpuRequest := 1, priority := 8 } }]

theorem requested_exact_two_pods :
    Exists fun final : Cache =>
      (final.nodes[([9] : Name)]?.map fun node => (node.requested.cpu, node.counter .gpu)) =
          some (3, some 1) ∧
        final.Exact ∧ final.NoUnderflow := by
  obtain ⟨final, run, observed⟩ : ∃ final, Run Cache.step
      (fun cache op => cache.AddsEmpty op ∧ cache.Accounted op) {} twoPods final ∧
        (final.nodes[([9] : Name)]?.map fun node => (node.requested.cpu, node.counter .gpu)) =
          some (3, some 1) := exists_run (by decide +kernel)
  exact ⟨final, observed, requested_exact twoPods final run⟩

/-- A pod arrives as scheduled. -/
def scheduledPod : List Op :=
  [.updateCacheNode { name := [9] },
    .updateCachePod { name := [1], spec := { resources := { cpu := 3 } }, scheduled := some [9] }]

/-- It is on the node and not counted, so that taking it off underflows. -/
theorem scheduled_pod_not_counted :
    Exists fun final : Cache =>
      Run Cache.step Cache.AddsEmpty {} scheduledPod final ∧
        ¬ final.Exact ∧ ¬ final.NoUnderflow := by
  refine exists_run_of (fun final =>
    (final.nodes[([9] : Name)]?.map fun node => node.counter .cpu) = some (some 0) ∧
      (final.pods[([1] : Name)]?.map fun pod => (pod.scheduled, pod.spec.request .cpu)) =
        some (some [9], 3)) (by decide +kernel) fun final run ⟨ofNode, ofPod⟩ => ?_
  obtain ⟨node, isNode, isCount⟩ := map_eq_some_iff.mp ofNode
  obtain ⟨pod, isPod, facts⟩ := map_eq_some_iff.mp ofPod
  obtain ⟨there, request⟩ := Prod.mk.inj facts
  have underflow : ¬ final.NoUnderflow := by
    intro none
    have le := none [1] [9] pod node .cpu 0 isPod there isNode isCount
    omega
  exact ⟨fun exact => underflow exact.noUnderflow, underflow⟩

end Counters
end Rk8s.Scheduler
