import Mathlib.Algebra.Order.BigOperators.Group.List
import Mathlib.Data.List.Sort
import Mathlib.Tactic.Ring

namespace Rk8s.Rks

/-!
# The deployment controller

What `reconcile_deployment` does to a deployment and the ReplicaSets that it
owns.  A reconcile is one step here, so a ReplicaSet that it has read is still
there when it writes it.  Counts are `i32` and wrap around when a sum or difference
is out of range, as they do in a release build.  Of a pod template only the `spec`
field is compared; it is a text here.
-/

abbrev Template := String

/-- `replicas` is the field of the specification, `available` that of the status,
and `revision` the annotation, zero if there is none. -/
structure ReplicaSet where
  name : String
  template : Template
  replicas : Int
  available : Int
  revision : Int
  created : Nat
deriving DecidableEq

/-- The two numbers of a rolling update are resolved against `replicas`. -/
inductive DeploymentStrategy where
  | recreate
  | rollingUpdate (maxSurge maxUnavailable : Int)

structure Deployment where
  template : Template
  replicas : Int
  strategy : DeploymentStrategy
  revision : Int
  collisionCount : Nat
  revisionHistoryLimit : Int

/-- The deployment, the ReplicaSets that it owns in the order in which the store
lists them, the names of the others, and the numbers of replicas that have been
written, with each ReplicaSet that has been created. -/
structure Store where
  deployment : Deployment
  replicaSets : List ReplicaSet
  otherNames : List String
  written : List (String × Int)

/-- The time of a reconcile, and the name of the ReplicaSet for a template after
a number of collisions. -/
structure Env where
  now : Nat
  rsName : Template -> Nat -> String

def replicasetMatchesDeployment (rs : ReplicaSet) (deployment : Deployment) : Bool :=
  rs.template = deployment.template

def getMaxRevision (rss : List ReplicaSet) : Int :=
  (rss.map ReplicaSet.revision).max?.getD 0

/-- The `i32` that is left of a sum or difference. -/
def i32 (n : Int) : Int := (n + 2 ^ 31) % 2 ^ 32 - 2 ^ 31

/-- The sums of `replicas` and of `available`. -/
def calculateReplica (rss : List ReplicaSet) : Int × Int :=
  (i32 (rss.map ReplicaSet.replicas).sum, i32 (rss.map ReplicaSet.available).sum)

namespace Store

variable (store : Store)

/-- Write a ReplicaSet back under its name. -/
def modify (name : String) (change : ReplicaSet -> ReplicaSet) : Store :=
  { store with
    replicaSets := store.replicaSets.map fun rs => if rs.name = name then change rs else rs }

def setDeploymentRevision (revision : Int) : Store :=
  { store with deployment := { store.deployment with revision } }

def scaleReplicaset (rs : ReplicaSet) (newReplicas : Int) : Store :=
  if rs.replicas = newReplicas then
    store
  else
    { store.modify rs.name fun rs => { rs with replicas := newReplicas } with
      written := store.written ++ [(rs.name, newReplicas)] }

/-- Only a ReplicaSet that is not the active one gets a new revision. -/
def syncRevisionForReusedRs (rs : ReplicaSet) : ReplicaSet × Store :=
  if rs.revision = store.deployment.revision ∧ 0 < store.deployment.revision then
    (rs, store)
  else
    let revision := getMaxRevision store.replicaSets + 1
    ({ rs with revision },
      (store.modify rs.name fun rs => { rs with revision }).setDeploymentRevision revision)

/-- What a failed reconcile leaves when the name of a new ReplicaSet is taken. -/
def incrementCollisionCount : Store :=
  { store with
    deployment := { store.deployment with collisionCount := store.deployment.collisionCount + 1 } }

variable (env : Env)

/-- The error is the store that the failed reconcile leaves. -/
def createReplicaset (store : Store) : Except Store (ReplicaSet × Store) :=
  let name := env.rsName store.deployment.template store.deployment.collisionCount
  match store.replicaSets.find? fun rs => rs.name = name with
  | some existing =>
    if replicasetMatchesDeployment existing store.deployment then .ok (existing, store)
    else .error store.incrementCollisionCount
  | none =>
    if name ∈ store.otherNames then
      .error store.incrementCollisionCount
    else
      let revision := getMaxRevision store.replicaSets + 1
      let rs := ⟨name, store.deployment.template, 0, 0, revision, env.now⟩
      let store := { store with
        replicaSets := store.replicaSets ++ [rs], written := store.written ++ [(name, 0)] }
      .ok (rs, store.setDeploymentRevision revision)

def getOrCreateReplicaset (store : Store) : Except Store (ReplicaSet × Store) :=
  match store.replicaSets.find? fun rs => replicasetMatchesDeployment rs store.deployment with
  | some rs => .ok (store.syncRevisionForReusedRs rs)
  | none => store.createReplicaset env

/-- The ReplicaSets that do not match the template. -/
def oldReplicasets : List ReplicaSet :=
  store.replicaSets.filter fun rs => !replicasetMatchesDeployment rs store.deployment

/-- The last one that does. -/
def newReplicaset : Option ReplicaSet :=
  (store.replicaSets.filter fun rs => replicasetMatchesDeployment rs store.deployment).getLast?

/-- The loop of `scale_down_old_replicasets`, over ReplicaSets with replicas: what is
left is never negative. -/
def scaleDown : Int -> List ReplicaSet -> Store -> Store
  | _, [], store => store
  | remaining, rs :: rest, store =>
    if remaining ≤ 0 then
      store
    else
      let canScaleDown := min rs.replicas remaining
      scaleDown (remaining - canScaleDown) rest
        (store.scaleReplicaset rs (rs.replicas - canScaleDown))

variable (oldRss : List ReplicaSet)

/-- The largest ones are scaled down first. -/
def scaleDownOldReplicasets (scaleDownCount : Int) : Store :=
  scaleDown scaleDownCount
    ((oldRss.filter fun rs => 0 < rs.replicas).mergeSort fun first second =>
      second.replicas ≤ first.replicas) store

/-- The first loop of `recreate_update`. -/
def emptyOld : Store :=
  oldRss.foldl (fun store old => if 0 < old.replicas then store.scaleReplicaset old 0 else store)
    store

def recreateUpdate (store : Store) (newRs : Option ReplicaSet)
    (oldRss : List ReplicaSet) : Except Store Store := do
  let desired := store.deployment.replicas
  let store := store.emptyOld oldRss
  let (newRs, store) ← match newRs with
    | some rs => .ok (rs, store)
    | none => store.getOrCreateReplicaset env
  return store.scaleReplicaset newRs desired

/-- How many new pods there is room for, given the sum of `replicas`. -/
def canScaleUp (desired maxSurge total : Int) : Int :=
  max (i32 (i32 (desired + maxSurge) - total)) 0

def scaledUp (desired maxSurge total : Int) (newRs : ReplicaSet) : Int :=
  min (i32 (newRs.replicas + canScaleUp desired maxSurge total)) desired

/-- How many old pods may go: those that are more than enough, by both counts. -/
def deleteNum (desired maxUnavailable total available : Int) : Int :=
  let minAvailable := max (i32 (desired - maxUnavailable)) 0
  min (if minAvailable < available then i32 (available - minAvailable) else 0)
    (if desired < total then i32 (total - desired) else 0)

/-- The rest of `rolling_update`, once the new ReplicaSet is there. -/
def rollOut (newRs : ReplicaSet) (oldRss : List ReplicaSet)
    (maxSurge maxUnavailable : Int) : Store :=
  let desired := store.deployment.replicas
  let total := (calculateReplica (newRs :: oldRss)).1
  let scaleUp : Bool := newRs.replicas < desired ∧ 0 < canScaleUp desired maxSurge total
  let store :=
    if scaleUp then store.scaleReplicaset newRs (scaledUp desired maxSurge total newRs) else store
  let (totalUpdated, availableUpdated) := calculateReplica store.replicaSets
  let count := deleteNum desired maxUnavailable totalUpdated availableUpdated
  if oldRss.isEmpty ∨ count ≤ 0 then
    store
  else
    let store := store.scaleDownOldReplicasets oldRss count
    let totalFinal := (calculateReplica store.replicaSets).1
    if !scaleUp ∧ maxSurge = 0 ∧ newRs.replicas < desired ∧
        0 < canScaleUp desired maxSurge totalFinal then
      store.scaleReplicaset newRs (scaledUp desired maxSurge totalFinal newRs)
    else
      store

def rollingUpdate (store : Store) (oldRss : List ReplicaSet)
    (maxSurge maxUnavailable : Int) : Except Store Store := do
  let (newRs, store) ← store.getOrCreateReplicaset env
  return store.rollOut newRs oldRss maxSurge maxUnavailable

/-- The oldest ones without replicas go, until `revisionHistoryLimit` are left. -/
def cleanOldReplicasets : Store :=
  let zeroReplicas := oldRss.filter fun rs => rs.replicas = 0
  let toDelete := ((zeroReplicas.mergeSort fun first second => first.created ≤ second.created).take
    (zeroReplicas.length - store.deployment.revisionHistoryLimit).toNat).map ReplicaSet.name
  { store with replicaSets := store.replicaSets.filter fun rs => rs.name ∉ toDelete }

def update (store : Store) : Except Store Store :=
  match store.deployment.strategy with
  | .recreate => store.recreateUpdate env store.newReplicaset store.oldReplicasets
  | .rollingUpdate maxSurge maxUnavailable =>
    store.rollingUpdate env store.oldReplicasets maxSurge maxUnavailable

/-- The update, and then the clean-up of what was old before it. -/
def reconcile (store : Store) : Except Store Store := do
  return (← store.update env).cleanOldReplicasets store.oldReplicasets

end Store

end Rk8s.Rks
