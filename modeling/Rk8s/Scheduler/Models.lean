import Mathlib.Tactic.Ring

namespace Rk8s.Scheduler

/-!
# Pods and nodes of the scheduler

Names are the bytes of a string.  Amounts are `u64` or `u32` in the program and
natural numbers here; where the program adds or subtracts them, the model wraps
as a release build does.  A debug build panics in the same places.
-/

abbrev Name := List UInt8

structure ResourcesRequirements where
  cpu : Nat := 0
  memory : Nat := 0
  deriving DecidableEq

structure GpuResources where
  total : Nat := 0
  requested : Nat := 0
  memoryPerGpu : Nat := 0
  deriving DecidableEq

structure GangSpec where
  id : Name
  size : Nat
  deriving DecidableEq

inductive TaintEffect
  | noSchedule
  | preferNoSchedule
  | noExecute
  deriving DecidableEq

inductive TaintKey
  | nodeNotReady
  | nodeUnreachable
  | nodeUnschedulable
  | nodeMemoryPressure
  | nodeDiskPressure
  | nodeNetworkUnavailable
  | nodeOutOfService
  deriving DecidableEq

structure Taint where
  key : TaintKey
  value : Name := []
  effect : TaintEffect
  deriving DecidableEq

inductive TolerationOperator
  | exists
  | equal
  deriving DecidableEq

structure Toleration where
  key : Option TaintKey := none
  operator : TolerationOperator := .equal
  effect : Option TaintEffect := none
  value : Name := []
  deriving DecidableEq

def Toleration.tolerate (toleration : Toleration) (taint : Taint) : Bool :=
  if toleration.effect.any (· ≠ taint.effect) then false
  else if toleration.key.any (· ≠ taint.key) then false
  else
    match toleration.operator with
    | .equal => toleration.value = taint.value
    | .exists => true

inductive NodeSelectorOperator
  | opIn
  | opNotIn
  | opExists
  | opDoesNotExist
  | opGt
  | opLt
  deriving DecidableEq

structure NodeSelectorRequirement where
  key : Name
  operator : NodeSelectorOperator := .opExists
  values : List Name := []
  deriving DecidableEq

structure PodSpec where
  resources : ResourcesRequirements := {}
  priority : Nat := 0
  schedulingGates : List Name := []
  tolerations : List Toleration := []
  nodeName : Option Name := none
  /-- The labels that a node must have. -/
  nodeSelector : List (Name × Name) := []
  /-- The terms of the required node affinity, each a list of expressions. -/
  nodeSelectorTerms : List (List NodeSelectorRequirement) := []
  /-- The keys that the affinity and anti-affinity terms of the pod speak of. -/
  topologyKeys : List Name := []
  gpuRequest : Nat := 0
  gpuMemoryRequest : Option Nat := none
  gang : Option GangSpec := none
  deriving DecidableEq

structure PodInfo where
  name : Name
  spec : PodSpec := {}
  attempts : Nat := 0
  scheduled : Option Name := none
  deriving DecidableEq

structure NodeSpec where
  unschedulable : Bool := false
  taints : List Taint := []
  deriving DecidableEq

structure NodeInfo where
  name : Name
  labels : List (Name × Name) := []
  spec : NodeSpec := {}
  requested : ResourcesRequirements := {}
  allocatable : ResourcesRequirements := {}
  gpuResources : Option GpuResources := none
  deriving DecidableEq

/-- A pod in a queue, with the priority it was queued under. -/
abbrev PodNameWithPriority := Nat × Name

structure BackOffPod where
  pod : PodNameWithPriority
  expire : Nat

structure Assignment where
  podName : Name
  nodeName : Name

end Rk8s.Scheduler
