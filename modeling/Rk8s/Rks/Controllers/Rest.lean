import Rk8s.Lib.Fallible
import Rk8s.Rks.Controllers.Deployment

namespace Rk8s.Rks.Store

open Fallible List ReplicaSet

/-!
# Where a deployment comes to rest

A reconcile that leaves the ReplicaSets as they are should mean that the roll-out
is over.  There are two other states of rest: nothing scales the new ReplicaSet
down when it is too large and the others are gone, and with `maxSurge = 0` the old
pods are never taken away, because there are no more pods than desired.  There are
more if a count overflows: then there may seem to be no room for new pods.
-/

variable (store : Store)

/-- All pods of the ReplicaSets are there and ready. -/
def Settled : Prop :=
  forall rs, rs ∈ store.replicaSets -> rs.available = rs.replicas ∧ 0 ≤ rs.replicas

/-- A reconcile ends without error, changes no number of replicas and creates
nothing. -/
def Rests (env : Env) (store : Store) : Prop :=
  Exists fun after => store.reconcile env = .ok after ∧ after.written = store.written

/-- The ReplicaSet for the template has the desired number of replicas, and the
others have none. -/
def AtGoal : Prop :=
  Exists fun rs => rs ∈ store.replicaSets ∧ rs.template = store.deployment.template ∧
    rs.replicas = store.deployment.replicas ∧
    forall other, other ∈ store.replicaSets.erase rs -> other.replicas = 0

/-- The ReplicaSet that the strategy takes for the new one. -/
def current : Option ReplicaSet :=
  match store.deployment.strategy with
  | .recreate => store.newReplicaset
  | .rollingUpdate _ _ =>
    store.replicaSets.find? fun rs => replicasetMatchesDeployment rs store.deployment

abbrev replicasOf (rss : List ReplicaSet) : Int := (rss.map replicas).sum

/-- The states in which nothing changes although the goal is not reached, by the
numbers of replicas of the new ReplicaSet, of the old ones and of all. -/
def StuckAt (deployment : Deployment) (new old total : Int) : Prop :=
  match deployment.strategy with
  | .recreate => old = 0 ∧ new = deployment.replicas ∧ total ≠ deployment.replicas
  | .rollingUpdate maxSurge _ =>
    old = 0 ∧ deployment.replicas ≤ new ∧
        (new ≠ deployment.replicas ∨ total ≠ deployment.replicas) ∨
      maxSurge = 0 ∧ new < deployment.replicas ∧ new + old = deployment.replicas ∧
        total = deployment.replicas

def Stuck : Prop :=
  Exists fun rs => store.current = some rs ∧ StuckAt store.deployment rs.replicas
    (replicasOf store.oldReplicasets) (replicasOf store.replicaSets)

variable {store : Store} {env : Env} {rs : ReplicaSet} {oldRss rss : List ReplicaSet}
  {maxSurge maxUnavailable : Int}

theorem replicas_nonneg (nonneg : ∀ rs ∈ rss, 0 ≤ rs.replicas)
    (n : Int) (member : n ∈ rss.map replicas) : 0 ≤ n := by
  obtain ⟨rs, inside, rfl⟩ := mem_map.mp member
  exact nonneg rs inside

theorem replicasOf_eq_zero_iff (nonneg : ∀ rs ∈ rss, 0 ≤ rs.replicas) :
    replicasOf rss = 0 ↔ ∀ rs ∈ rss, rs.replicas = 0 := by
  constructor
  · intro zero rs member
    exact all_zero_of_le_zero_le_of_sum_eq_zero (replicas_nonneg nonneg) zero
      (mem_map_of_mem member)
  · intro zero
    refine sum_eq_zero fun n member => ?_
    obtain ⟨rs, inside, rfl⟩ := mem_map.mp member
    exact zero rs inside

/-! ## What is written -/

theorem length_written_scale (store : Store) (rs : ReplicaSet) (n : Int) :
    (store.scaleReplicaset rs n).written.length =
      store.written.length + if rs.replicas = n then 0 else 1 := by
  rw [scaleReplicaset]
  split_ifs <;> simp

theorem length_written_scaleDown (count : Int) (rss : List ReplicaSet) (store : Store) :
    store.written.length ≤ (scaleDown count rss store).written.length := by
  induction rss generalizing count store with
  | nil => exact le_rfl
  | cons first rest ih =>
    rw [scaleDown]
    split_ifs
    · exact le_rfl
    · refine le_trans ?_ (ih _ _)
      rw [length_written_scale]
      omega

theorem active_eq_nil_iff (ready : ∀ old ∈ oldRss, 0 ≤ old.replicas) :
    (oldRss.filter fun rs => 0 < rs.replicas) = [] ↔ replicasOf oldRss = 0 := by
  simp only [replicasOf_eq_zero_iff ready, filter_eq_nil_iff, decide_eq_true_eq, Int.not_lt]
  exact forall₂_congr fun old isOld =>
    ⟨fun few => Int.le_antisymm few (ready old isOld), Int.le_of_eq⟩

theorem scaleDownOld_writes (store : Store) {count : Int} (positive : 0 < count)
    (ready : ∀ old ∈ oldRss, 0 ≤ old.replicas) (active : replicasOf oldRss ≠ 0) :
    store.written.length < (store.scaleDownOldReplicasets oldRss count).written.length := by
  rw [scaleDownOldReplicasets]
  have sorted := mergeSort_perm (oldRss.filter fun rs => 0 < rs.replicas) fun first second =>
    second.replicas ≤ first.replicas
  generalize ((oldRss.filter fun rs => 0 < rs.replicas).mergeSort fun first second =>
    second.replicas ≤ first.replicas) = list at sorted
  cases list with
  | nil => exact absurd ((active_eq_nil_iff ready).mp sorted.nil_eq.symm) active
  | cons first rest =>
    have some := (mem_filter.mp (sorted.subset mem_cons_self)).2
    rw [decide_eq_true_iff] at some
    rw [scaleDown, if_neg (by omega)]
    refine lt_of_lt_of_le ?_ (length_written_scaleDown _ _ _)
    rw [length_written_scale, if_neg (by omega)]
    omega

theorem length_written_rollOut (store : Store) (rs : ReplicaSet) (oldRss : List ReplicaSet)
    (maxSurge maxUnavailable : Int) :
    store.written.length ≤ (store.rollOut rs oldRss maxSurge maxUnavailable).written.length := by
  simp only [rollOut, scaleDownOldReplicasets]
  split_ifs <;> grind [length_written_scale, length_written_scaleDown]

/-- There is no room for new pods, and no old pod is too many. -/
def Balanced (store : Store) (new old maxSurge maxUnavailable : Int) : Prop :=
  (store.deployment.replicas ≤ new ∨
      canScaleUp store.deployment.replicas maxSurge (i32 (new + old)) ≤ 0) ∧
    (old = 0 ∨ deleteNum store.deployment.replicas maxUnavailable
      (calculateReplica store.replicaSets).1 (calculateReplica store.replicaSets).2 ≤ 0)

theorem scaledUp_ne {desired total : Int} (fewer : rs.replicas < desired)
    (room : 0 < canScaleUp desired maxSurge total) :
    rs.replicas ≠ scaledUp desired maxSurge total rs := by
  have small : canScaleUp desired maxSurge total < 2 ^ 31 := by
    unfold canScaleUp i32
    omega
  unfold scaledUp
  generalize canScaleUp desired maxSurge total = room at *
  unfold i32
  omega

/-- Where there are more pods than desired, there is no room without surge. -/
theorem canScaleUp_le_zero {desired total available : Int}
    (more : 0 < deleteNum desired maxUnavailable total available) :
    canScaleUp desired 0 total ≤ 0 := by
  have beyond : desired < total ∧ 0 < i32 (total - desired) := by
    unfold deleteNum at more
    dsimp only at more
    split_ifs at more <;> omega
  unfold canScaleUp i32 at *
  omega

theorem rollOut_writes_iff (ready : ∀ old ∈ oldRss, 0 ≤ old.replicas) :
    (store.rollOut rs oldRss maxSurge maxUnavailable).written = store.written ↔
      store.Balanced rs.replicas (replicasOf oldRss) maxSurge maxUnavailable := by
  have total : (calculateReplica (rs :: oldRss)).1 = i32 (rs.replicas + replicasOf oldRss) := rfl
  rw [Balanced, ← total]
  by_cases up : rs.replicas < store.deployment.replicas ∧
      0 < canScaleUp store.deployment.replicas maxSurge (calculateReplica (rs :: oldRss)).1
  · refine iff_of_false (fun same => ?_) (by omega)
    have scaled := length_written_scale store rs
      (scaledUp store.deployment.replicas maxSurge (calculateReplica (rs :: oldRss)).1 rs)
    rw [if_neg (scaledUp_ne up.1 up.2)] at scaled
    have length := congrArg List.length same
    simp only [rollOut, up, and_self, decide_true, if_true, Bool.not_true, Bool.false_eq_true,
      false_and, if_false] at length
    split_ifs at length
    · omega
    · refine ne_of_gt (lt_of_lt_of_le ?_ (length_written_scaleDown _ _ _)) length
      omega
  simp only [rollOut, up, decide_false, Bool.false_eq_true, if_false]
  have full : store.deployment.replicas ≤ rs.replicas ∨
      canScaleUp store.deployment.replicas maxSurge (calculateReplica (rs :: oldRss)).1 ≤ 0 := by
    omega
  rw [and_iff_right full]
  by_cases few : deleteNum store.deployment.replicas maxUnavailable
      (calculateReplica store.replicaSets).1 (calculateReplica store.replicaSets).2 ≤ 0
  · simp only [few, or_true, if_true]
  by_cases active : replicasOf oldRss = 0
  · -- Nothing is scaled down, so there is no more room than before.
    rw [scaleDownOldReplicasets, (active_eq_nil_iff ready).mpr active, mergeSort_nil, scaleDown]
    split_ifs with _ later
    · simp [active]
    · obtain ⟨_, rfl, _, room⟩ := later
      exact absurd room (Int.not_lt.mpr (canScaleUp_le_zero (Int.not_le.mp few)))
    · simp [active]
  refine iff_of_false (fun same => ?_) (not_or_intro active few)
  have some : oldRss.isEmpty = false := by
    cases oldRss with
    | nil => exact absurd rfl active
    | cons _ _ => rfl
  have fewer := scaleDownOld_writes store (Int.not_le.mp few) ready active
  have length := congrArg List.length same
  simp only [some, few, Bool.false_eq_true, or_self, if_false] at length
  split_ifs at length
  · rw [length_written_scale] at length
    omega
  · omega

/-! ## States of rest -/

theorem rests_iff :
    store.Rests env ↔
      ∃ updated, store.update env = .ok updated ∧ updated.written = store.written := by
  constructor
  · rintro ⟨after, done, kept⟩
    obtain ⟨updated, isUpdated, done⟩ := bind_eq_ok.mp done
    cases done
    exact ⟨updated, isUpdated, kept⟩
  · rintro ⟨updated, isUpdated, kept⟩
    exact ⟨_, bind_eq_ok.mpr ⟨updated, isUpdated, rfl⟩, kept⟩

theorem rests_iff_of_update {updated : Store} (isUpdated : store.update env = .ok updated) :
    store.Rests env ↔ updated.written = store.written := by
  simp [rests_iff, isUpdated]

theorem old_ready (settled : store.Settled) (old : ReplicaSet) (isOld : old ∈ store.oldReplicasets) :
    0 ≤ old.replicas :=
  (settled old (mem_filter.mp isOld).1).2

/-- The revision of a ReplicaSet is no part of the counts. -/
theorem balanced_sync (store : Store) (rs : ReplicaSet) (old maxSurge maxUnavailable : Int) :
    (store.syncRevisionForReusedRs rs).2.Balanced (store.syncRevisionForReusedRs rs).1.replicas old
      maxSurge maxUnavailable ↔ store.Balanced rs.replicas old maxSurge maxUnavailable := by
  have counts : calculateReplica (store.syncRevisionForReusedRs rs).2.replicaSets =
      calculateReplica store.replicaSets := by
    rw [syncRevisionForReusedRs]
    split_ifs
    · rfl
    · simp only [calculateReplica, setDeploymentRevision, modify, map_map]
      congr 3 <;> refine map_congr_left fun other _ => ?_ <;>
        by_cases here : other.name = rs.name <;> simp [here]
  have same : (store.syncRevisionForReusedRs rs).2.deployment.replicas =
      store.deployment.replicas ∧ (store.syncRevisionForReusedRs rs).1.replicas = rs.replicas := by
    rw [syncRevisionForReusedRs]
    split_ifs <;> exact ⟨rfl, rfl⟩
  rw [Balanced, counts, same.1, same.2]
  rfl

theorem rests_rolling_iff (settled : store.Settled)
    (isRolling : store.deployment.strategy = .rollingUpdate maxSurge maxUnavailable)
    (isNew : store.current = some rs) :
    store.Rests env ↔ store.Balanced rs.replicas (replicasOf store.oldReplicasets) maxSurge
      maxUnavailable := by
  rw [current, isRolling] at isNew
  have result : store.update env = .ok ((store.syncRevisionForReusedRs rs).2.rollOut
      (store.syncRevisionForReusedRs rs).1 store.oldReplicasets maxSurge maxUnavailable) := by
    simp only [update, isRolling, rollingUpdate, getOrCreateReplicaset, isNew]
    rfl
  have same : (store.syncRevisionForReusedRs rs).2.written = store.written := by
    rw [syncRevisionForReusedRs]
    split_ifs <;> rfl
  rw [rests_iff_of_update result, ← balanced_sync, ← rollOut_writes_iff (old_ready settled), same]

/-- The first loop of `recreate_update` writes to every old ReplicaSet that is not
empty, and to nothing else. -/
theorem emptyOld_spec (oldRss : List ReplicaSet) (store : Store) :
    (store.emptyOld oldRss).written = store.written ++
        ((oldRss.filter fun old => 0 < old.replicas).map fun old => (old.name, 0)) ∧
      (store.emptyOld oldRss).deployment = store.deployment ∧
      (store.emptyOld oldRss).replicaSets.map template =
        store.replicaSets.map template := by
  induction oldRss generalizing store with
  | nil => exact ⟨(append_nil _).symm, rfl, rfl⟩
  | cons first rest ih =>
    rw [emptyOld, foldl_cons]
    split_ifs with some
    · obtain ⟨written, deployment, templates⟩ := ih (store.scaleReplicaset first 0)
      rw [scaleReplicaset, if_neg (by omega)] at *
      refine ⟨written.trans (by simp [some]), deployment, templates.trans ?_⟩
      simp only [modify, map_map]
      refine map_congr_left fun other _ => ?_
      by_cases here : other.name = first.name <;> simp [here]
    · rw [filter_cons_of_neg (by simpa using some)]
      exact ih store

theorem rests_recreate_iff (settled : store.Settled)
    (isRecreate : store.deployment.strategy = .recreate) (isNew : store.current = some rs) :
    store.Rests env ↔ replicasOf store.oldReplicasets = 0 ∧
      rs.replicas = store.deployment.replicas := by
  rw [current, isRecreate] at isNew
  have result : store.update env = .ok ((store.emptyOld store.oldReplicasets).scaleReplicaset rs
      store.deployment.replicas) := by
    simp only [update, isRecreate, isNew]
    rfl
  have emptied := (emptyOld_spec store.oldReplicasets store).1
  rw [rests_iff_of_update result, ← active_eq_nil_iff (old_ready settled)]
  constructor
  · intro kept
    have length := congrArg List.length kept
    rw [length_written_scale, emptied, length_append, length_map] at length
    split_ifs at length with desired
    · exact ⟨eq_nil_of_length_eq_zero (by omega), desired⟩
    · omega
  · rintro ⟨none, desired⟩
    rw [scaleReplicaset, if_pos desired, emptied, none]
    exact append_nil _

theorem getOrCreate_writes {created : ReplicaSet × Store}
    (unknown : store.deployment.template ∉ store.replicaSets.map template)
    (done : store.getOrCreateReplicaset env = .ok created) :
    created.2.written.length = store.written.length + 1 := by
  have none : ∀ other ∈ store.replicaSets,
      replicasetMatchesDeployment other store.deployment = false := by
    intro other member
    simpa [replicasetMatchesDeployment] using fun same =>
      unknown (mem_map.mpr ⟨other, member, same⟩)
  rw [getOrCreateReplicaset, find?_eq_none.mpr (by simpa using none)] at done
  simp only [createReplicaset] at done
  split at done
  · next existing found => simp [none existing (mem_of_find?_eq_some found)] at done
  · split_ifs at done
    cases done
    simp [setDeploymentRevision]

theorem current_eq_none_iff :
    store.current = none ↔
      store.deployment.template ∉ store.replicaSets.map template := by
  rw [current]
  cases store.deployment.strategy <;>
    simp [newReplicaset, replicasetMatchesDeployment]

/-- A ReplicaSet is created when none matches. -/
theorem current_of_rests (rests : store.Rests env) : ∃ rs, store.current = some rs := by
  obtain ⟨updated, done, kept⟩ := rests_iff.mp rests
  refine Option.ne_none_iff_exists'.mp fun missing => ?_
  have unknown := current_eq_none_iff.mp missing
  have length := congrArg List.length kept
  rw [current] at missing
  rw [update] at done
  split at missing
  · next isRecreate =>
    obtain ⟨emptied, deployment, templates⟩ := emptyOld_spec store.oldReplicasets store
    rw [← deployment, ← templates] at unknown
    simp only [isRecreate, missing] at done
    obtain ⟨found, isFound, done⟩ := bind_eq_ok.mp done
    have created := getOrCreate_writes unknown isFound
    cases done
    rw [length_written_scale, created, emptied, length_append] at length
    omega
  next maxSurge maxUnavailable isRolling =>
  rw [isRolling] at done
  obtain ⟨found, isFound, done⟩ := bind_eq_ok.mp done
  have created := getOrCreate_writes unknown isFound
  have rolled := length_written_rollOut found.2 found.1 store.oldReplicasets maxSurge maxUnavailable
  cases done
  omega

/-! ## Sums -/

theorem current_member (isNew : store.current = some rs) :
    rs ∈ store.replicaSets ∧ rs.template = store.deployment.template := by
  have inside : rs ∈ store.replicaSets ∧ replicasetMatchesDeployment rs store.deployment := by
    rw [current] at isNew
    split at isNew
    · exact mem_filter.mp (mem_of_getLast? isNew)
    · exact ⟨mem_of_find?_eq_some isNew,
        find?_some (p := fun rs => replicasetMatchesDeployment rs store.deployment) isNew⟩
  simpa [replicasetMatchesDeployment] using inside

theorem replicasOf_erase (member : rs ∈ store.replicaSets) :
    replicasOf store.replicaSets = rs.replicas + replicasOf (store.replicaSets.erase rs) :=
  ((perm_cons_erase member).map replicas).sum_eq

section Settled

variable (settled : store.Settled)
include settled

theorem calculateReplica_eq : calculateReplica store.replicaSets =
    (i32 (replicasOf store.replicaSets), i32 (replicasOf store.replicaSets)) := by
  have same : store.replicaSets.map available = store.replicaSets.map replicas :=
    map_congr_left fun rs member => (settled rs member).1
  rw [calculateReplica, same]

theorem others_eq_zero_iff :
    replicasOf (store.replicaSets.erase rs) = 0 ↔
      ∀ other ∈ store.replicaSets.erase rs, other.replicas = 0 :=
  replicasOf_eq_zero_iff fun other inside => (settled other (mem_of_mem_erase inside)).2

variable (member : rs ∈ store.replicaSets)
include member

theorem old_add_le (isNew : rs.template = store.deployment.template) :
    replicasOf store.oldReplicasets + rs.replicas ≤ replicasOf store.replicaSets := by
  have split := ((filter_append_perm (fun rs => replicasetMatchesDeployment rs store.deployment)
    store.replicaSets).map replicas).sum_eq
  rw [map_append, sum_append] at split
  have inside : rs ∈ store.replicaSets.filter fun rs =>
      replicasetMatchesDeployment rs store.deployment :=
    mem_filter.mpr ⟨member, decide_eq_true isNew⟩
  have part := single_le_sum
    (replicas_nonneg fun other inside => (settled other (mem_filter.mp inside).1).2) _
    (mem_map_of_mem inside)
  simp only [replicasOf, oldReplicasets]
  omega

theorem atGoal_of_total (isNew : rs.template = store.deployment.template)
    (desired : rs.replicas = store.deployment.replicas)
    (total : replicasOf store.replicaSets = store.deployment.replicas) : store.AtGoal := by
  rw [replicasOf_erase member] at total
  exact ⟨rs, member, isNew, desired, (others_eq_zero_iff settled).mp (by omega)⟩

theorem AtGoal.total (goal : store.AtGoal) :
    replicasOf store.replicaSets = store.deployment.replicas ∧
      0 ≤ store.deployment.replicas ∧ replicasOf store.oldReplicasets ≤ 0 ∧
      (rs.replicas = store.deployment.replicas ∨ rs.replicas = 0) := by
  obtain ⟨new, inside, isNew, desired, zero⟩ := goal
  have others := (others_eq_zero_iff settled).mpr zero
  have total := replicasOf_erase inside
  have old := old_add_le settled inside isNew
  refine ⟨by omega, desired ▸ (settled new inside).2, by omega, ?_⟩
  by_cases same : rs = new
  · exact .inl (same ▸ desired)
  · exact .inr (zero rs ((mem_erase_of_ne same).mpr member))

end Settled

/-- The numbers that a rolling update takes are not negative. -/
def Resolved (deployment : Deployment) : Prop :=
  match deployment.strategy with
  | .recreate => True
  | .rollingUpdate maxSurge maxUnavailable => 0 ≤ maxSurge ∧ 0 ≤ maxUnavailable

/-- No sum or difference of a rolling update overflows. -/
def Fits (store : Store) : Prop :=
  match store.deployment.strategy with
  | .recreate => True
  | .rollingUpdate maxSurge maxUnavailable =>
    store.deployment.replicas + maxSurge < 2 ^ 31 ∧
      -2 ^ 31 ≤ store.deployment.replicas - maxUnavailable ∧
      replicasOf store.replicaSets < 2 ^ 31 ∧
      replicasOf store.replicaSets - store.deployment.replicas < 2 ^ 31

theorem i32_eq {n : Int} (above : -2 ^ 31 ≤ n) (below : n < 2 ^ 31) : i32 n = n := by
  unfold i32
  omega

/-- In range, a balanced store has no room for new pods and no old pod too many. -/
theorem balanced_iff_of_fits {new old total : Int} (settled : store.Settled)
    (isTotal : replicasOf store.replicaSets = total) (parts : 0 ≤ new ∧ 0 ≤ old ∧ old + new ≤ total)
    (resolved : 0 ≤ maxSurge ∧ 0 ≤ maxUnavailable)
    (surge : store.deployment.replicas + maxSurge < 2 ^ 31)
    (least : -2 ^ 31 ≤ store.deployment.replicas - maxUnavailable) (few : total < 2 ^ 31)
    (near : total - store.deployment.replicas < 2 ^ 31) :
    store.Balanced new old maxSurge maxUnavailable ↔
      (store.deployment.replicas ≤ new ∨ store.deployment.replicas + maxSurge ≤ new + old) ∧
        (old = 0 ∨ total ≤ max (store.deployment.replicas - maxUnavailable) 0 ∨
          total ≤ store.deployment.replicas) := by
  rw [Balanced, calculateReplica_eq settled, isTotal, canScaleUp, deleteNum]
  generalize store.deployment.replicas = desired at *
  rw [i32_eq (n := total) (by omega) few, i32_eq (n := new + old) (by omega) (by omega),
    i32_eq (n := desired + maxSurge) (by omega) surge,
    i32_eq (n := desired + maxSurge - (new + old)) (by omega) (by omega),
    i32_eq (n := desired - maxUnavailable) least (by omega)]
  dsimp only
  rw [i32_eq (n := total - max (desired - maxUnavailable) 0) (by omega) (by omega),
    i32_eq (n := total - desired) (by omega) near]
  omega

/-- When all pods are ready and no count overflows, a reconcile that changes nothing means
that the goal is reached, except in the stuck states, in which it does not mean that. -/
theorem atGoal_of_rests_iff (env : Env) (settled : store.Settled)
    (resolved : Resolved store.deployment) (fits : store.Fits) :
    (store.Rests env -> store.AtGoal) ↔ ¬ store.Stuck := by
  cases isNew : store.current with
  | none =>
    refine iff_of_true (fun rests => ?_) fun ⟨rs, found, _⟩ => ?_
    · obtain ⟨rs, found⟩ := current_of_rests rests
      simp [isNew] at found
    · simp [isNew] at found
  | some rs =>
    obtain ⟨member, matching⟩ := current_member isNew
    have nonneg := (settled rs member).2
    have oldNonneg : 0 ≤ replicasOf store.oldReplicasets :=
      sum_nonneg (replicas_nonneg (old_ready settled))
    have atMost := old_add_le settled member matching
    have goal := atGoal_of_total settled member matching
    have total := AtGoal.total settled member
    simp only [Stuck, isNew, Option.some.injEq, exists_eq_left', StuckAt]
    rw [Resolved] at resolved
    split at resolved
    · next isRecreate =>
      rw [rests_recreate_iff settled isRecreate isNew]
      grind
    next maxSurge maxUnavailable isRolling =>
    rw [Fits, isRolling] at fits
    obtain ⟨surge, least, few, near⟩ := fits
    rw [rests_rolling_iff settled isRolling isNew, balanced_iff_of_fits settled rfl
      ⟨nonneg, oldNonneg, atMost⟩ resolved surge least few near]
    by_cases atGoal : store.AtGoal
    · have counts := total atGoal
      simp only [atGoal, implies_true, true_iff]
      omega
    have counts : ¬ (rs.replicas = store.deployment.replicas ∧
        replicasOf store.replicaSets = store.deployment.replicas) :=
      fun both => atGoal (goal both.1 both.2)
    simp only [atGoal, imp_false]
    omega

/-- A deployment with pods of an old template and of the new one. -/
def twoSets (desired maxSurge old new : Int) : Store where
  deployment := ⟨"new", desired, .rollingUpdate maxSurge 1, 2, 0, 10⟩
  replicaSets := [⟨"web-1", "old", old, old, 1, 0⟩, ⟨"web-2", "new", new, new, 2, 1⟩]
  otherNames := []
  written := []

theorem settled_twoSets (desired maxSurge : Int) {old new : Int} (nonneg : 0 ≤ old ∧ 0 ≤ new) :
    (twoSets desired maxSurge old new).Settled := by
  simpa [Settled, twoSets] using nonneg

theorem not_atGoal_twoSets {desired maxSurge old new : Int} (fewer : new ≠ desired) :
    ¬ (twoSets desired maxSurge old new).AtGoal := by
  rintro ⟨rs, member, matching, isDesired, _⟩
  simp only [twoSets, mem_cons, not_mem_nil, or_false] at member
  obtain rfl | rfl := member
  · simp [twoSets] at matching
  · exact fewer isDesired

/-- A roll-out that is over is at the goal. -/
theorem atGoal_of_rests_iff_one_surge :
    ¬ (twoSets 2 1 0 2).Stuck ∧ (twoSets 2 1 0 2).Rests ⟨5, fun _ _ => "web-3"⟩ ∧
      (twoSets 2 1 0 2).AtGoal := by
  have settled := @settled_twoSets 2 1 0 2 (by decide)
  have moving : ¬ (twoSets 2 1 0 2).Stuck := by
    rintro ⟨rs, ⟨⟩, stuck⟩
    dsimp only [StuckAt, twoSets] at stuck
    revert stuck
    decide
  have rests : (twoSets 2 1 0 2).Rests ⟨5, fun _ _ => "web-3"⟩ :=
    (rests_rolling_iff settled rfl rfl).mpr (by rw [Balanced]; decide)
  refine ⟨moving, rests, (atGoal_of_rests_iff _ settled ⟨by decide, by decide⟩ ?_).mpr moving rests⟩
  exact ⟨by decide, by decide, by decide, by decide⟩

/-- Without surge the roll-out never begins, too many new pods are kept, and when the
desired number and the surge overflow, the deployment stays empty. -/
theorem rests_before_the_goal :
    ((twoSets 2 0 2 0).Settled ∧ (twoSets 2 0 2 0).Rests ⟨5, fun _ _ => "web-3"⟩ ∧
      ¬ (twoSets 2 0 2 0).AtGoal) ∧
    ((twoSets 2 1 0 3).Settled ∧ (twoSets 2 1 0 3).Rests ⟨5, fun _ _ => "web-3"⟩ ∧
      ¬ (twoSets 2 1 0 3).AtGoal) ∧
    (twoSets 2147483647 2 0 0).Settled ∧
      (twoSets 2147483647 2 0 0).Rests ⟨5, fun _ _ => "web-3"⟩ ∧
      ¬ (twoSets 2147483647 2 0 0).AtGoal := by
  have rests : ∀ desired maxSurge old new : Int, 0 ≤ old ∧ 0 ≤ new ->
      (twoSets desired maxSurge old new).Balanced new
        (replicasOf (twoSets desired maxSurge old new).oldReplicasets) maxSurge 1 ->
      new ≠ desired -> (twoSets desired maxSurge old new).Settled ∧
        (twoSets desired maxSurge old new).Rests ⟨5, fun _ _ => "web-3"⟩ ∧
        ¬ (twoSets desired maxSurge old new).AtGoal := by
    intro desired maxSurge old new nonneg balanced fewer
    have settled := settled_twoSets desired maxSurge nonneg
    exact ⟨settled, (rests_rolling_iff settled rfl rfl).mpr balanced, not_atGoal_twoSets fewer⟩
  refine ⟨rests 2 0 2 0 (by decide) ?_ (by decide), rests 2 1 0 3 (by decide) ?_ (by decide),
    rests 2147483647 2 0 0 (by decide) ?_ (by decide)⟩ <;>
  · rw [Balanced]
    decide

end Rk8s.Rks.Store
