import Mathlib.Data.List.Basic
import Rk8s.Scheduler.Plugins

namespace Rk8s.Scheduler

open List

/-!
# Scores for soft taints

`TaintToleration` counts the soft taints of a node that the pod tolerates, and the
normalization scales the counts so that the greatest becomes 100.  It reverses them only if
they are all zero.  Scaling keeps the order of the counts, and if none is above 100 it keeps
different counts apart.
-/

/-- The first loop of `normalizeScore`. -/
def greatestScore (scores : List Int) : Int :=
  scores.foldl (fun max score => if max < score then score else max) 0

/-- Of `DefaultNormalizeScore`. -/
def normalizeScore (maxScore : Int) (reverse : Bool) (scores : List Int) : List Int :=
  if greatestScore scores = 0 then if reverse then scores.map fun _ => maxScore else scores
  else scores.map fun score => (maxScore * score).tdiv (greatestScore scores)

theorem greatestScore_le_iff {bound : Int} {scores : List Int} :
    greatestScore scores ≤ bound ↔ 0 ≤ bound ∧ ∀ score ∈ scores, score ≤ bound := by
  suffices loop : ∀ start : Int,
      scores.foldl (fun max score => if max < score then score else max) start ≤ bound ↔
        start ≤ bound ∧ ∀ score ∈ scores, score ≤ bound from loop 0
  induction scores with
  | nil => simp
  | cons first scores later =>
    intro start
    rw [foldl_cons, later, forall_mem_cons, ← and_assoc]
    refine and_congr_left fun _ => ?_
    split_ifs <;> omega

section Scaling

variable {greatest first second : Int} (positive : 0 < greatest) (fromZero : 0 ≤ first)
  (alsoFromZero : 0 ≤ second)
include positive fromZero alsoFromZero

theorem scale_mono (ordered : first ≤ second) :
    (100 * first).tdiv greatest ≤ (100 * second).tdiv greatest := by
  rw [Int.tdiv_eq_ediv_of_nonneg (by omega), Int.tdiv_eq_ediv_of_nonneg (by omega)]
  exact Int.ediv_le_ediv positive (by omega)

/-- Counts up to 100 differ by a percent at least. -/
theorem le_of_scale_le (few : greatest ≤ 100)
    (ordered : (100 * first).tdiv greatest ≤ (100 * second).tdiv greatest) : first ≤ second := by
  rw [Int.tdiv_eq_ediv_of_nonneg (by omega), Int.tdiv_eq_ediv_of_nonneg (by omega)] at ordered
  by_contra above
  have more : (100 * second + 1 * greatest) / greatest ≤ 100 * first / greatest :=
    Int.ediv_le_ediv positive (by omega)
  rw [Int.add_mul_ediv_right _ _ positive.ne'] at more
  omega

end Scaling

namespace TaintToleration

def tolerationsTolerateTaint (tolerations : List Toleration) (taint : Taint) : Bool :=
  tolerations.any fun toleration => toleration.tolerate taint

variable (pod : PodInfo) (nodes : List NodeInfo)

/-- The tolerations that are written to the cycle state. -/
def preScore : List Toleration :=
  pod.spec.tolerations.filter fun toleration =>
    toleration.effect = some .preferNoSchedule ∨ toleration.effect = none

def plugin (weight : Int) : ScorePlugin where
  score pod node := (node.spec.taints.filter fun taint =>
    taint.effect = .preferNoSchedule ∧ tolerationsTolerateTaint (preScore pod) taint).length
  normalizeScore := normalizeScore 100 true
  weight

/-- The nodes with their normalized scores. -/
def scored (weight : Int) : List (Int × NodeInfo) :=
  ((plugin weight).normalizeScore (nodes.map ((plugin weight).score pod))).zip nodes

/-- The number of soft taints that the pod tolerates, or of those that it does not. -/
def softTaints (tolerated : Bool) (node : NodeInfo) : Int :=
  (node.spec.taints.filter fun taint => taint.effect = .preferNoSchedule ∧
    tolerationsTolerateTaint pod.spec.tolerations taint = tolerated).length

/-- A node with fewer untolerated soft taints has no lower score, and nodes with equally
many have the same score. -/
def Repels (weight : Int) : Prop :=
  forall a b, a ∈ scored pod nodes weight -> b ∈ scored pod nodes weight ->
    (softTaints pod false a.2 < softTaints pod false b.2 -> b.1 ≤ a.1) ∧
      (softTaints pod false a.2 = softTaints pod false b.2 -> a.1 = b.1)

/-- A node with fewer untolerated soft taints has no fewer tolerated ones, and nodes with
equally many have equally many of both. -/
def Opposed : Prop :=
  forall a b, a ∈ nodes -> b ∈ nodes ->
    (softTaints pod false a < softTaints pod false b ->
        softTaints pod true b ≤ softTaints pod true a) ∧
      (softTaints pod false a = softTaints pod false b ->
        softTaints pod true a = softTaints pod true b)

/-- The tolerations that `preScore` drops are for other taints. -/
theorem tolerates_preScore {taint : Taint} (soft : taint.effect = .preferNoSchedule) :
    tolerationsTolerateTaint (preScore pod) taint =
      tolerationsTolerateTaint pod.spec.tolerations taint := by
  rw [tolerationsTolerateTaint, preScore, any_filter]
  refine congrArg pod.spec.tolerations.any (funext fun toleration => ?_)
  cases effect : toleration.effect <;> simp [Toleration.tolerate, effect, soft]

theorem score_eq (weight : Int) : (plugin weight).score pod = softTaints pod true := by
  funext node
  refine congrArg (fun taints : List Taint => (taints.length : Int)) (filter_congr ?_)
  intro taint _
  by_cases soft : taint.effect = .preferNoSchedule
  · simp [soft, tolerates_preScore pod soft]
  · simp [soft]

theorem scored_eq (weight : Int) : scored pod nodes weight = nodes.map fun node =>
    (if greatestScore (nodes.map (softTaints pod true)) = 0 then 100
      else (100 * softTaints pod true node).tdiv (greatestScore (nodes.map (softTaints pod true))),
      node) := by
  rw [map_prod_right_eq_zip, scored, score_eq]
  change (normalizeScore 100 true _).zip nodes = _
  simp only [normalizeScore, if_true, map_map]
  split_ifs <;> rfl

theorem softTaints_nonneg (tolerated : Bool) (node : NodeInfo) :
    0 ≤ softTaints pod tolerated node :=
  Int.natCast_nonneg _

variable {pod nodes}

theorem Opposed.repels (opposed : Opposed pod nodes) (weight : Int) : Repels pod nodes weight := by
  unfold Repels
  rw [scored_eq]
  intro first second isFirst isSecond
  obtain ⟨a, isA, rfl⟩ := mem_map.mp isFirst
  obtain ⟨b, isB, rfl⟩ := mem_map.mp isSecond
  obtain ⟨fewer, equal⟩ := opposed a b isA isB
  split_ifs with none
  · exact ⟨fun _ => le_rfl, fun _ => rfl⟩
  have positive : 0 < greatestScore (nodes.map (softTaints pod true)) :=
    lt_of_le_of_ne (greatestScore_le_iff.mp le_rfl).1 (Ne.symm none)
  refine ⟨fun repelled => ?_, fun same => ?_⟩
  · exact scale_mono positive (softTaints_nonneg pod true b) (softTaints_nonneg pod true a)
      (fewer repelled)
  · dsimp only
    rw [equal same]

theorem Repels.opposed {weight : Int} (few : ∀ node ∈ nodes, softTaints pod true node ≤ 100)
    (repels : Repels pod nodes weight) : Opposed pod nodes := by
  intro a b isA isB
  obtain ⟨least, bounds⟩ := greatestScore_le_iff.mp
    (le_refl (greatestScore (nodes.map (softTaints pod true))))
  have aNonneg := softTaints_nonneg pod true a
  have bNonneg := softTaints_nonneg pod true b
  unfold Repels at repels
  rw [scored_eq] at repels
  obtain ⟨fewer, equal⟩ := repels _ _ (mem_map_of_mem isA) (mem_map_of_mem isB)
  by_cases none : greatestScore (nodes.map (softTaints pod true)) = 0
  · have aBound := bounds _ (mem_map_of_mem isA)
    have bBound := bounds _ (mem_map_of_mem isB)
    omega
  rw [if_neg none, if_neg none] at fewer equal
  have positive : 0 < greatestScore (nodes.map (softTaints pod true)) :=
    lt_of_le_of_ne least (Ne.symm none)
  have small : greatestScore (nodes.map (softTaints pod true)) ≤ 100 :=
    greatestScore_le_iff.mpr ⟨by decide, forall_mem_map.mpr few⟩
  refine ⟨fun repelled => ?_, fun same => le_antisymm ?_ ?_⟩
  · exact le_of_scale_le positive bNonneg aNonneg small (fewer repelled)
  · exact le_of_scale_le positive aNonneg bNonneg small (equal same).le
  · exact le_of_scale_le positive bNonneg aNonneg small (equal same).ge

/-- The scores repel where the untolerated soft taints order the nodes against the tolerated
ones; if no node has more than 100 tolerated ones, only there. -/
theorem scored_repels_iff (pod : PodInfo) (nodes : List NodeInfo) (weight : Int) :
    (Opposed pod nodes -> Repels pod nodes weight) ∧
      ((forall node, node ∈ nodes -> softTaints pod true node ≤ 100) ->
        (Repels pod nodes weight ↔ Opposed pod nodes)) :=
  ⟨fun opposed => opposed.repels weight,
    fun few => ⟨Repels.opposed few, fun opposed => opposed.repels weight⟩⟩

/-- The first node has a taint that the pod tolerates, the second one that it does not. -/
theorem scored_repels_two :
    let pod : PodInfo :=
      { name := [1], spec := { tolerations := [{ operator := .exists, key := some .nodeNotReady }] } }
    let a : NodeInfo :=
      { name := [2], spec := { taints := [⟨.nodeNotReady, [], .preferNoSchedule⟩] } }
    let b : NodeInfo :=
      { name := [3], spec := { taints := [⟨.nodeDiskPressure, [], .preferNoSchedule⟩] } }
    softTaints pod false a < softTaints pod false b ∧ Opposed pod [a, b] ∧ Repels pod [a, b] 1 := by
  intro pod a b
  have opposed : Opposed pod [a, b] := by
    simp only [Opposed, mem_cons, not_mem_nil, or_false]
    rintro _ _ (rfl | rfl) (rfl | rfl) <;> decide
  exact ⟨by decide, opposed, (scored_repels_iff pod [a, b] 1).1 opposed⟩

/-- The pod tolerates one of the taints of the first node, and the second has none. -/
theorem scored_prefers_untolerated :
    Exists fun pod => Exists fun a => Exists fun b => scored pod [a, b] 1 = [(100, a), (0, b)] ∧
      softTaints pod false b < softTaints pod false a :=
  ⟨{ name := [1], spec := { tolerations := [{ operator := .exists, key := some .nodeNotReady }] } },
    { name := [2], spec := { taints := [⟨.nodeNotReady, [], .preferNoSchedule⟩,
      ⟨.nodeDiskPressure, [], .preferNoSchedule⟩] } }, { name := [3] }, rfl, by decide⟩

end TaintToleration
end Rk8s.Scheduler
