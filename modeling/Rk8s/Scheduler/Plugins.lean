import Rk8s.Scheduler.Cache

namespace Rk8s.Scheduler

/-!
# Plugins

A scheduling cycle asks its plugins which nodes may run a pod.  The filters for
resources, GPUs, taints, node names and unschedulable nodes are given in full.
Node affinity, pod affinity and topology co-affinity are arbitrary functions,
and so are the scores.
-/

inductive Code
  | success
  | error
  | unschedulable
  | unschedulableAndUnresolvable
  | wait
  | skip
  | pending
  deriving DecidableEq

section Tests

def isFit (podRequests : ResourcesRequirements) (node : NodeInfo) : Bool :=
  if 0 < podRequests.cpu ∧ subU64 node.allocatable.cpu node.requested.cpu < podRequests.cpu then
    false
  else if 0 < podRequests.memory ∧
      subU64 node.allocatable.memory node.requested.memory < podRequests.memory then
    false
  else
    true

/-- The tests of the GPU filter, for the state that its pre-filter has written. -/
def gpuFits (gpuRequest : Nat) (gpuMemoryRequest : Option Nat) (node : NodeInfo) : Bool :=
  match node.gpuResources with
  | none => false
  | some gpu =>
    if gpu.total - gpu.requested < gpuRequest then false
    else if gpuMemoryRequest.any (gpu.memoryPerGpu < ·) then false
    else true

def isGpuFit (pod : PodInfo) (node : NodeInfo) : Bool :=
  if pod.spec.gpuRequest = 0 then true
  else gpuFits pod.spec.gpuRequest pod.spec.gpuMemoryRequest node

def doNotScheduleTaintsFilter (taint : Taint) : Bool :=
  taint.effect = .noSchedule ∨ taint.effect = .noExecute

def findUntoleratedTaint (taints : List Taint) (tolerations : List Toleration)
    (filter : Taint -> Bool) : Option Taint :=
  (taints.filter filter).find? fun taint =>
    !(tolerations.any fun toleration => toleration.tolerate taint)

/-- The node has a taint that keeps the pod away. -/
def isUntolerated (pod : PodInfo) (node : NodeInfo) : Bool :=
  (findUntoleratedTaint node.spec.taints pod.spec.tolerations doNotScheduleTaintsFilter).isSome

/-- `str::parse::<i64>`. -/
def parseI64 (text : Name) : Option Int :=
  let digits (text : Name) : Option Int :=
    if text ≠ [] ∧ text.all (fun byte => 48 ≤ byte && byte ≤ 57) then
      some (text.foldl (fun number byte => 10 * number + (byte.toNat - 48 : Int)) 0)
    else
      none
  let number :=
    match text with
    | 43 :: rest => digits rest
    | 45 :: rest => (digits rest).map Neg.neg
    | _ => digits text
  number.filter fun value => -2 ^ 63 ≤ value ∧ value < 2 ^ 63

def NodeSelectorRequirement.matches (requirement : NodeSelectorRequirement) (node : NodeInfo) :
    Bool :=
  let label := node.labels.lookup requirement.key
  let compare (test : Int -> Int -> Bool) : Bool :=
    match label.bind parseI64, requirement.values with
    | some value, [limit] => (parseI64 limit).any (test value)
    | _, _ => false
  match requirement.operator with
  | .opDoesNotExist => label.isNone
  | .opExists => label.isSome
  | .opGt => compare fun value limit => limit < value
  | .opLt => compare fun value limit => value < limit
  | .opIn => label.any fun value => requirement.values.contains value
  | .opNotIn => label.any fun value => !requirement.values.contains value

/-- The node selector and the required node affinity of the pod. -/
def requiredNodeAffinityMatches (pod : PodInfo) (node : NodeInfo) : Bool :=
  (pod.spec.nodeSelector.all fun (key, value) => node.labels.lookup key = some value) &&
    (pod.spec.nodeSelectorTerms.isEmpty ||
      pod.spec.nodeSelectorTerms.any fun term => term.all fun requirement =>
        requirement.matches node)

end Tests

section Cycle

/-- The plugins that are not modelled further. -/
inductive OtherPlugin
  | nodeAffinity
  | podAffinity
  | topologyCoAffinityFilter
  deriving DecidableEq

inductive PreFilterPlugin
  | nodeResourcesFit
  | nodeGpuResourcesFit
  | other (plugin : OtherPlugin)

inductive FilterPlugin
  | nodeResourcesFit
  | nodeGpuResourcesFit
  | taintToleration
  | nodeName
  | nodeUnschedulable
  | other (plugin : OtherPlugin)
  deriving DecidableEq

/-- The filter of the same name. -/
def PreFilterPlugin.name : PreFilterPlugin -> FilterPlugin
  | .nodeResourcesFit => .nodeResourcesFit
  | .nodeGpuResourcesFit => .nodeGpuResourcesFit
  | .other plugin => .other plugin

structure ScorePlugin where
  score : PodInfo -> NodeInfo -> Int
  normalizeScore : List Int -> List Int
  weight : Int

/-- What the other plugins answer, given the pods that have a node. -/
structure OtherPlugins where
  preFilter : OtherPlugin -> PodInfo -> List PodInfo -> List NodeInfo -> List Name × Code :=
    fun _ _ _ _ => ([], .skip)
  filter : OtherPlugin -> PodInfo -> List PodInfo -> NodeInfo -> Code := fun _ _ _ _ => .success
  preScore : PodInfo -> List PodInfo -> List NodeInfo -> Code := fun _ _ _ => .success
  podHint : PodInfo -> Option PodInfo -> Option PodInfo -> Bool := fun _ _ _ => false

structure CycleState where
  skipFilterPlugins : List FilterPlugin := []
  podRequests : Option ResourcesRequirements := none
  gpuRequests : Option (Nat × Option Nat) := none

variable (others : OtherPlugins) (scheduledPods : List PodInfo) (pod : PodInfo)

def PreFilterPlugin.preFilter (plugin : PreFilterPlugin) (nodes : List NodeInfo)
    (state : CycleState) : CycleState × List Name × Code :=
  match plugin with
  | .nodeResourcesFit => ({ state with podRequests := some pod.spec.resources }, [], .success)
  | .nodeGpuResourcesFit =>
    if pod.spec.gpuRequest = 0 then
      (state, [], .skip)
    else
      ({ state with gpuRequests := some (pod.spec.gpuRequest, pod.spec.gpuMemoryRequest) }, [],
        .success)
  | .other plugin => (state, others.preFilter plugin pod scheduledPods nodes)

/-- The names that the plugins return are those of the nodes to leave out. -/
def runPrefilterPlugin (nodes : List NodeInfo) :
    List PreFilterPlugin -> CycleState -> List Name -> CycleState × List NodeInfo × Code
  | [], state, filteredSet =>
    (state, nodes.filter fun node => !filteredSet.contains node.name, .success)
  | plugin :: plugins, state, filteredSet =>
    match plugin.preFilter others scheduledPods pod nodes state with
    | (state, _, .error) => runPrefilterPlugin nodes plugins state filteredSet
    | (state, _, .skip) =>
      runPrefilterPlugin nodes plugins
        { state with skipFilterPlugins := plugin.name :: state.skipFilterPlugins } filteredSet
    | (state, names, code) =>
      if code = .unschedulable ∨ code = .unschedulableAndUnresolvable ∨ code = .pending then
        (state, [], code)
      else
        runPrefilterPlugin nodes plugins state (filteredSet ++ names)

def FilterPlugin.filter (plugin : FilterPlugin) (state : CycleState) (node : NodeInfo) : Code :=
  match plugin with
  | .nodeResourcesFit =>
    match state.podRequests with
    | none => .error
    | some requests => if isFit requests node then .success else .unschedulable
  | .nodeGpuResourcesFit =>
    match state.gpuRequests with
    | none => .success
    | some (gpuRequest, gpuMemoryRequest) =>
      if gpuFits gpuRequest gpuMemoryRequest node then .success else .unschedulable
  | .taintToleration =>
    if isUntolerated pod node then .unschedulableAndUnresolvable else .success
  | .nodeName =>
    if pod.spec.nodeName.all (· = node.name) then .success else .unschedulableAndUnresolvable
  | .nodeUnschedulable =>
    if !node.spec.unschedulable ||
        pod.spec.tolerations.any
          (·.tolerate { key := .nodeUnschedulable, effect := .noSchedule }) then
      .success
    else
      .unschedulableAndUnresolvable
  | .other plugin => others.filter plugin pod scheduledPods node

def runFilterPlugin (state : CycleState) (plugins : List FilterPlugin) (nodes : List NodeInfo) :
    List NodeInfo :=
  plugins.foldl
    (fun nodes plugin =>
      if state.skipFilterPlugins.contains plugin then nodes
      else
        nodes.filter fun node =>
          let code := plugin.filter others scheduledPods pod state node
          code = .success ∨ code = .skip)
    nodes

def runScorePlugin (plugins : List ScorePlugin) (nodes : List NodeInfo) : List (Int × NodeInfo) :=
  let scores := plugins.foldl
    (fun scores plugin =>
      List.zipWith (fun score current => score + current * plugin.weight) scores
        (plugin.normalizeScore (nodes.map (plugin.score pod))))
    (nodes.map fun _ => 0)
  scores.zip nodes

/-- How a cycle goes on: which queue a pod goes back to, or the nodes with the
highest score, the first of which is taken.  The order of nodes with equal
scores is that of a hash map, so that each of them may be the first. -/
inductive Verdict
  | pending
  | backoff
  | unschedulable
  | best (nodes : List Name)

structure EnabledPlugins where
  schedulingGates : Bool := true
  preFilter : List PreFilterPlugin :=
    [.other .nodeAffinity, .nodeResourcesFit, .other .podAffinity, .nodeGpuResourcesFit,
      .other .topologyCoAffinityFilter]
  filter : List FilterPlugin :=
    [.other .nodeAffinity, .nodeResourcesFit, .taintToleration, .nodeName, .nodeUnschedulable,
      .other .podAffinity, .nodeGpuResourcesFit, .other .topologyCoAffinityFilter]
  score : List ScorePlugin := []

def highest (scores : List (Int × NodeInfo)) : List Name :=
  (scores.filter fun entry => scores.all fun other => other.1 ≤ entry.1).map fun entry =>
    entry.2.name

/-- The part of `schedule_one` between reading the cache and writing it. -/
def EnabledPlugins.judge (plugins : EnabledPlugins) (others : OtherPlugins)
    (scheduledPods : List PodInfo) (pod : PodInfo) (nodes : List NodeInfo) : Verdict :=
  match runPrefilterPlugin others scheduledPods pod nodes plugins.preFilter {} [] with
  | (_, _, .pending) => .pending
  | (_, _, .unschedulable) => .backoff
  | (_, _, .unschedulableAndUnresolvable) => .unschedulable
  | (state, passed, _) =>
    let filtered := runFilterPlugin others scheduledPods pod state plugins.filter passed
    if filtered = [] ∨ others.preScore pod scheduledPods filtered ≠ .success then
      .backoff
    else
      .best (highest (runScorePlugin pod plugins.score filtered))

/-- `enqueue` lets the pod through. -/
def EnabledPlugins.preEnqueue (plugins : EnabledPlugins) (pod : PodInfo) : Bool :=
  !plugins.schedulingGates || pod.spec.schedulingGates.isEmpty

end Cycle

section Hints

/-- Updated info of a pod or a node, the old value first. -/
inductive EventInner
  | pod (old new : Option PodInfo)
  | node (old : Option NodeInfo) (new : NodeInfo)

inductive EnqueueExtension
  | balancedAllocation
  | nodeAffinity
  | nodeName
  | nodeResourcesFit
  | taintToleration
  | podAffinity
  | nodeGpuResourcesFit
  deriving DecidableEq

/-- The hint for an event answers `Queue`. -/
def EnqueueExtension.hint (others : OtherPlugins) (extension : EnqueueExtension)
    (event : EventInner) (pod : PodInfo) : Bool :=
  match extension, event with
  | .balancedAllocation, .node _ new => isFit pod.spec.resources new
  | .balancedAllocation, .pod _ new => new.isNone
  | .nodeAffinity, .node old new =>
    requiredNodeAffinityMatches pod new && !old.any (requiredNodeAffinityMatches pod)
  | .nodeAffinity, .pod _ _ => false
  | .nodeName, _ => false
  | .nodeResourcesFit, .node _ new => isFit pod.spec.resources new
  | .nodeResourcesFit, .pod _ new => new.isNone
  | .taintToleration, .node old new => old.all (isUntolerated pod) && !isUntolerated pod new
  | .taintToleration, .pod _ new => new.any fun new => new.name = pod.name
  | .podAffinity, .node old new =>
    pod.spec.topologyKeys.any fun key =>
      (old.bind fun node => node.labels.lookup key) ≠ new.labels.lookup key
  | .podAffinity, .pod old new => others.podHint pod old new
  | .nodeGpuResourcesFit, .node _ new => isGpuFit pod new
  | .nodeGpuResourcesFit, .pod _ new => new.isNone

/-- The extensions that are enabled by default. -/
def defaultExtensions : List EnqueueExtension :=
  [.balancedAllocation, .nodeAffinity, .nodeName, .nodeResourcesFit, .taintToleration,
    .podAffinity, .nodeGpuResourcesFit]

end Hints

end Rk8s.Scheduler
