import Rk8s.Lib.Collections
import Rk8s.Lib.Fallible
import Rk8s.Xline.Api.Conflicts
import Rk8s.Xline.Api.Validation

namespace Rk8s.Xline

open Option Std ExtTreeMap Fallible List RequestOp

/-!
# What collecting the operations of a branch finds

`Steps` says what it means that a list of operations has been collected below a
node.  It is proved for each kind of operation and composed along the list, so
the order in which the two loops visit the operations does not matter.
-/

/-! ## Growing trees -/

variable {tree : LCATree} {node above : Nat}

namespace LCATree

/-- The second tree has the nodes of the first one, and possibly more. -/
def Grows (tree larger : LCATree) : Prop :=
  Exists fun added => larger.nodes = tree.nodes ++ added

theorem Grows.refl (tree : LCATree) : Grows tree tree := ⟨[], by simp⟩

theorem Grows.trans {first second third : LCATree} (lower : Grows first second)
    (upper : Grows second third) : Grows first third := by
  obtain ⟨added, nodes⟩ := lower
  obtain ⟨more, larger⟩ := upper
  exact ⟨added ++ more, by rw [larger, nodes, append_assoc]⟩

variable {larger : LCATree} (grows : Grows tree larger)
include grows

theorem Grows.length_le : tree.nodes.length ≤ larger.nodes.length := by
  obtain ⟨added, nodes⟩ := grows
  rw [nodes, length_append]
  omega

theorem Grows.getNode (inside : node < tree.nodes.length) :
    larger.getNode node = tree.getNode node := by
  obtain ⟨added, nodes⟩ := grows
  unfold LCATree.getNode
  rw [nodes, getElem?_append_left inside]

theorem Grows.up (inside : node < tree.nodes.length) : larger.up node = tree.up node := by
  unfold LCATree.up
  rw [grows.getNode inside]

theorem Grows.under (sound : Sound tree) (inside : node < tree.nodes.length)
    (under : Under tree node above) :
    Under larger node above := by
  obtain ⟨steps, rfl⟩ := under
  refine ⟨steps, ?_⟩
  induction steps generalizing node with
  | zero => rfl
  | succ steps ih =>
    rw [Function.iterate_succ_apply, Function.iterate_succ_apply, grows.up inside]
    exact ih (sound.inside node)

end LCATree

open LCATree

/-! ## Steps of the collection -/

/-- The operation puts the key in some branch. -/
def RequestOp.Puts (op : RequestOp) (key : Key) : Prop := Leaf.put key ∈ op.leaves

/-- The operation deletes the interval in some branch. -/
def RequestOp.Deletes (op : RequestOp) (interval : Interval) : Prop :=
  Exists fun key => Exists fun rangeEnd => Leaf.delete key rangeEnd ∈ op.leaves ∧
    interval = newBytesAffineInterval key rangeEnd

variable {parent : Nat} {op : RequestOp} {leaf : Leaf} {ops : List RequestOp} {final : Collected}

namespace Collected

variable (c : Collected)

/-- The change is recorded under the node. -/
def Records : Leaf -> Nat -> Prop
  | .put key, node => Exists fun nodes => c.puts[key]? = some nodes ∧ node ∈ nodes
  | .delete key rangeEnd, node => (newBytesAffineInterval key rangeEnd, node) ∈ c.dels

/-- The node is a child of the other one, and it is not the sentinel. -/
structure Child (c : Collected) (parent node : Nat) : Prop where
  inner : node ≠ 0
  inside : node < c.tree.nodes.length
  up : c.tree.up node = parent

/-- The change is recorded under a node below the given one. -/
def Placed (leaf : Leaf) (above : Nat) : Prop :=
  Exists fun node => c.Records leaf node ∧ node < c.tree.nodes.length ∧ Under c.tree node above

/-- The two changes are recorded below different children of a node. -/
def Apart (parent : Nat) (first second : Leaf) : Prop :=
  Exists fun left => Exists fun right => left ≠ right ∧ c.Child parent left ∧
    c.Child parent right ∧ c.Placed first left ∧ c.Placed second right

/-- The two branches of a nested transaction are below different children of a
child of `parent`. -/
def BranchesApart (parent : Nat) : RequestOp -> Prop
  | .requestTxn _ success failure =>
    forall first, first ∈ leavesOf success -> forall second, second ∈ leavesOf failure ->
      Exists fun node => c.Child parent node ∧ c.Apart node first second
  | _ => True

/-- What one collection has, the other has too. -/
structure Within (c larger : Collected) : Prop where
  sound : Sound c.tree
  grows : Grows c.tree larger.tree
  records : forall leaf node, c.Records leaf node -> larger.Records leaf node

section Within

variable {c larger : Collected} {first second : Leaf}

theorem Within.refl (sound : Sound c.tree) : Within c c :=
  ⟨sound, Grows.refl _, fun _ _ => id⟩

theorem Within.trans {largest : Collected} (lower : Within c larger)
    (upper : Within larger largest) : Within c largest :=
  ⟨lower.sound, lower.grows.trans upper.grows,
    fun leaf node recorded => upper.records leaf node (lower.records leaf node recorded)⟩

theorem Child.within (child : c.Child parent node) (within : Within c larger) :
    larger.Child parent node :=
  ⟨child.inner, child.inside.trans_le within.grows.length_le,
    (within.grows.up child.inside).trans child.up⟩

theorem Placed.within (placed : c.Placed leaf above)
    (within : Within c larger) : larger.Placed leaf above := by
  obtain ⟨node, recorded, inside, under⟩ := placed
  exact ⟨node, within.records leaf node recorded,
    inside.trans_le within.grows.length_le,
    within.grows.under within.sound inside under⟩

theorem Apart.within (apart : c.Apart parent first second)
    (within : Within c larger) : larger.Apart parent first second := by
  obtain ⟨left, right, different, leftChild, rightChild, firstPlaced, secondPlaced⟩ := apart
  exact ⟨left, right, different, leftChild.within within, rightChild.within within,
    firstPlaced.within within, secondPlaced.within within⟩

theorem Apart.symm (apart : c.Apart parent first second) :
    c.Apart parent second first := by
  obtain ⟨left, right, different, leftChild, rightChild, firstPlaced, secondPlaced⟩ := apart
  exact ⟨right, left, different.symm, rightChild, leftChild, secondPlaced, firstPlaced⟩

theorem BranchesApart.within (apart : c.BranchesApart parent op)
    (within : Within c larger) : larger.BranchesApart parent op := by
  cases op with
  | requestTxn compare success failure =>
    intro first isFirst second isSecond
    obtain ⟨node, child, branches⟩ := apart first isFirst second isSecond
    exact ⟨node, child.within within, branches.within within⟩
  | _ => trivial

end Within

end Collected

open Collected

/-- The operations have been collected below `parent`, starting from `c`. -/
structure Steps (ops : List RequestOp) (parent : Nat) (c final : Collected) : Prop where
  within : Within c final
  sound : Sound final.tree
  free : forall op, op ∈ ops -> op.Free Leaf.PutsDiffer
  fresh : forall op, op ∈ ops -> forall key, op.Puts key -> c.puts[key]? = none
  disjoint : ops.Pairwise fun earlier later => forall key, earlier.Puts key -> ¬ later.Puts key
  keys : forall key : Key, final.puts[key]? = none ↔
    c.puts[key]? = none ∧ forall op, op ∈ ops -> ¬ op.Puts key
  dels : forall del, del ∈ final.dels -> del ∈ c.dels ∨
    Exists fun op => op ∈ ops ∧ op.Deletes del.1
  placed : forall op, op ∈ ops -> forall leaf, leaf ∈ op.leaves ->
    Exists fun top => c.tree.nodes.length ≤ top ∧ final.Child parent top ∧ final.Placed leaf top
  apart : ops.Pairwise fun earlier later =>
    forall first, first ∈ earlier.leaves -> forall second, second ∈ later.leaves ->
      final.Apart parent first second
  branches : forall op, op ∈ ops -> final.BranchesApart parent op

namespace Steps

variable {c middle : Collected}

theorem nil (sound : Sound c.tree) : Steps [] parent c c where
  within := Within.refl sound
  sound := sound
  free := by simp
  fresh := by simp
  disjoint := List.Pairwise.nil
  keys := by simp
  dels := fun del member => .inl member
  placed := by simp
  apart := List.Pairwise.nil
  branches := by simp

/-- Operations collected one list after the other. -/
theorem append {first second : List RequestOp} (before : Steps first parent c middle)
    (after : Steps second parent middle final) : Steps (first ++ second) parent c final where
  within := before.within.trans after.within
  sound := after.sound
  free := forall_mem_append.mpr ⟨before.free, after.free⟩
  fresh := forall_mem_append.mpr ⟨before.fresh, fun op member key puts =>
    ((before.keys key).mp (after.fresh op member key puts)).1⟩
  disjoint := by
    refine pairwise_append.mpr ⟨before.disjoint, after.disjoint, ?_⟩
    intro earlier isFirst later isSecond key puts putsLater
    have absent := (before.keys key).mp (after.fresh later isSecond key putsLater)
    exact absent.2 earlier isFirst puts
  keys := by
    intro key
    rw [after.keys, before.keys]
    simp only [mem_append, or_imp, forall_and, and_assoc]
  dels := by
    intro del member
    rcases after.dels del member with old | ⟨op, isOp, deletes⟩
    · refine (before.dels del old).imp_right ?_
      rintro ⟨op, isOp, deletes⟩
      exact ⟨op, mem_append_left _ isOp, deletes⟩
    · exact .inr ⟨op, mem_append_right _ isOp, deletes⟩
  placed := by
    intro op member leaf isLeaf
    rcases mem_append.mp member with member | member
    · obtain ⟨top, new, child, placed⟩ := before.placed op member leaf isLeaf
      exact ⟨top, new, child.within after.within, placed.within after.within⟩
    · obtain ⟨top, new, child, placed⟩ := after.placed op member leaf isLeaf
      exact ⟨top, Nat.le_trans before.within.grows.length_le new, child, placed⟩
  apart := by
    refine pairwise_append.mpr ⟨?_, after.apart, ?_⟩
    · refine before.apart.imp ?_
      intro earlier later apart first isFirst second isSecond
      exact (apart first isFirst second isSecond).within after.within
    -- The node of a later operation is newer than all earlier ones.
    intro earlier isEarlier later isLater first isFirst second isSecond
    obtain ⟨left, _, leftChild, firstPlaced⟩ := before.placed earlier isEarlier first isFirst
    obtain ⟨right, new, rightChild, secondPlaced⟩ := after.placed later isLater second isSecond
    have old := leftChild.inside
    exact ⟨left, right, by omega, leftChild.within after.within, rightChild,
      firstPlaced.within after.within, secondPlaced⟩
  branches := forall_mem_append.mpr
    ⟨fun op member => (before.branches op member).within after.within, after.branches⟩

/-- The order in which operations are listed does not matter. -/
theorem perm {other : List RequestOp} (steps : Steps ops parent c final)
    (same : ops.Perm other) : Steps other parent c final where
  within := steps.within
  sound := steps.sound
  free := fun op member => steps.free op (same.mem_iff.mpr member)
  fresh := fun op member => steps.fresh op (same.mem_iff.mpr member)
  disjoint := steps.disjoint.perm same fun disjoint key puts others => disjoint key others puts
  keys := by
    intro key
    rw [steps.keys]
    simp only [same.mem_iff]
  dels := by
    intro del member
    refine (steps.dels del member).imp_right ?_
    rintro ⟨op, isOp, deletes⟩
    exact ⟨op, same.mem_iff.mp isOp, deletes⟩
  placed := fun op member => steps.placed op (same.mem_iff.mpr member)
  apart := steps.apart.perm same fun apart first isFirst second isSecond =>
    (apart second isSecond first isFirst).symm
  branches := fun op member => steps.branches op (same.mem_iff.mpr member)

/-- An operation that changes nothing needs no step. -/
theorem idle (sound : Sound c.tree) (none : op.leaves = [])
    (free : op.Free Leaf.PutsDiffer) (branches : c.BranchesApart parent op) :
    Steps [op] parent c c where
  within := Within.refl sound
  sound := sound
  free := by simpa using free
  fresh := by simp [RequestOp.Puts, none]
  disjoint := pairwise_singleton _ _
  keys := by simp [RequestOp.Puts, none]
  dels := fun del member => .inl member
  placed := by simp [none]
  apart := pairwise_singleton _ _
  branches := by simpa using branches

end Steps

/-! ## Merging the puts of two branches -/

section Merge

/-- A round of merging: `merge` joins the nodes of an entry with those that are there,
or fails. -/
def mergeRound (merge : Key × List Nat -> Option (List Nat) -> Option (List Nat)) (puts : PutsMap)
    (entry : Key × List Nat) : Except ValidationError PutsMap :=
  match merge entry puts[entry.1]? with
  | some nodes => .ok (puts.insert entry.1 nodes)
  | none => .error .duplicateKey

variable {merge : Key × List Nat -> Option (List Nat) -> Option (List Nat)}

theorem foldlM_mergeRound {entries : List (Key × List Nat)} {puts : PutsMap}
    (distinct : entries.Pairwise fun first second => first.1 ≠ second.1) :
    Outcome (∀ entry ∈ entries, (merge entry puts[entry.1]?).isSome)
      (fun merged =>
        (∀ entry ∈ entries, (merge entry puts[entry.1]?).isSome ∧
          merged[entry.1]? = merge entry puts[entry.1]?) ∧
        ∀ key, (∀ entry ∈ entries, entry.1 ≠ key) -> merged[key]? = puts[key]?)
      (entries.foldlM (mergeRound merge) puts) := by
  induction entries generalizing puts with
  | nil => exact ⟨nofun, fun _ _ => rfl⟩
  | cons entry rest ih =>
    obtain ⟨others, distinct⟩ := pairwise_cons.mp distinct
    rw [foldlM_cons, mergeRound]
    cases joined : merge entry puts[entry.1]? with
    | none =>
      intro allowed
      have allowed := allowed entry (.head _)
      rw [joined] at allowed
      cases allowed
    | some nodes =>
      have elsewhere : ∀ key, entry.1 ≠ key -> (puts.insert entry.1 nodes)[key]? = puts[key]? :=
        fun key different => (lookup_insert ..).trans (if_neg different)
      refine (ih distinct).imp ?_ ?_
      · intro allowed other member
        rw [elsewhere other.1 (others other member)]
        exact allowed other (.tail _ member)
      rintro merged ⟨there, kept⟩
      refine ⟨fun other member => ?_, fun key absent => ?_⟩
      · rcases mem_cons.mp member with rfl | member
        · rw [joined, kept other.1 fun later isLater => (others later isLater).symm,
            lookup_insert, if_pos rfl]
          exact ⟨rfl, rfl⟩
        · rw [← elsewhere other.1 (others other member)]
          exact there other member
      · rw [kept key fun other member => absent other (.tail _ member),
          elsewhere key (absent entry (.head _))]

theorem merge_outcome {puts more : PutsMap} :
    Outcome (∀ (key : Key) nodes, more[key]? = some nodes -> (merge (key, nodes) puts[key]?).isSome)
      (fun merged => ∀ key : Key,
        (∀ nodes, more[key]? = some nodes -> (merge (key, nodes) puts[key]?).isSome ∧
          merged[key]? = merge (key, nodes) puts[key]?) ∧
        (more[key]? = none -> merged[key]? = puts[key]?))
      (more.toList.foldlM (mergeRound merge) puts) := by
  have entry_iff : ∀ (key : Key) nodes, (key, nodes) ∈ more.toList ↔ more[key]? = some nodes :=
    fun _ _ => mem_toList_iff_getElem?_eq_some
  have distinct : more.toList.Pairwise fun first second => first.1 ≠ second.1 :=
    more.distinct_keys_toList.imp fun different => by simpa using different
  refine (foldlM_mergeRound distinct).imp ?_ ?_
  · rintro allowed ⟨key, nodes⟩ member
    exact allowed key nodes ((entry_iff key nodes).mp member)
  rintro merged ⟨there, kept⟩ key
  refine ⟨fun nodes found => there (key, nodes) ((entry_iff key nodes).mpr found),
    fun none => kept key ?_⟩
  rintro ⟨_, nodes⟩ member rfl
  rw [(entry_iff _ nodes).mp member] at none
  cases none

theorem mergeSuccess_outcome (puts successPuts : PutsMap) :
    Outcome (∀ (key : Key) nodes, successPuts[key]? = some nodes -> puts[key]? = none)
      (fun first => ∀ key : Key,
        (∀ nodes, successPuts[key]? = some nodes -> puts[key]? = none ∧ first[key]? = some nodes) ∧
        (successPuts[key]? = none -> first[key]? = puts[key]?))
      (mergeSuccess puts successPuts) := by
  have rounds : mergeSuccess puts successPuts = successPuts.toList.foldlM
      (mergeRound fun entry old => if old = none then some entry.2 else none) puts := by
    unfold mergeSuccess
    congr 1
    funext puts entry
    rw [mergeRound, contains_eq_isSome_getElem?]
    cases puts[entry.1]? <;> rfl
  rw [rounds]
  refine merge_outcome.imp (fun fresh key nodes found => ?_) fun first there key => ?_
  · rw [if_pos (fresh key nodes found)]
    rfl
  refine ⟨fun nodes found => ?_, (there key).2⟩
  have both := (there key).1 nodes found
  split_ifs at both with fresh
  · exact ⟨fresh, both.2⟩
  · cases both.1

/-- The puts of the two branches of a transaction have been merged. -/
structure Merged (puts successPuts failurePuts merged : PutsMap) : Prop where
  success : forall (key : Key) nodes, successPuts[key]? = some nodes ->
    puts[key]? = none ∧ Exists fun more => merged[key]? = some (nodes ++ more)
  failure : forall (key : Key) nodes, failurePuts[key]? = some nodes ->
    puts[key]? = none ∧ Exists fun others => merged[key]? = some (others ++ nodes)
  others : forall key : Key, successPuts[key]? = none -> failurePuts[key]? = none ->
    merged[key]? = puts[key]?

theorem mergeFailure_outcome {puts successPuts first : PutsMap} (failurePuts : PutsMap)
    (there : ∀ key : Key,
      (∀ nodes, successPuts[key]? = some nodes -> puts[key]? = none ∧ first[key]? = some nodes) ∧
      (successPuts[key]? = none -> first[key]? = puts[key]?)) :
    Outcome (∀ (key : Key) nodes, failurePuts[key]? = some nodes -> puts[key]? = none)
      (Merged puts successPuts failurePuts) (mergeFailure first successPuts failurePuts) := by
  have rounds : mergeFailure first successPuts failurePuts = failurePuts.toList.foldlM
      (mergeRound fun entry old =>
        if old = none ∨ successPuts.contains entry.1 then some (old.getD [] ++ entry.2)
        else none) first := by
    unfold mergeFailure
    congr 1
    funext puts entry
    rw [mergeRound]
    cases puts[entry.1]? with
    | none => rfl
    | some nodes => cases successPuts.contains entry.1 <;> simp
  rw [rounds]
  have shared_iff : ∀ key : Key, successPuts.contains key ↔ successPuts[key]? ≠ none := by
    intro key
    rw [contains_eq_isSome_getElem?, isSome_iff_ne_none]
  refine merge_outcome.imp (fun fresh key nodes found => ?_) fun merged added => ?_
  · dsimp only
    rw [if_pos]
    · rfl
    · by_cases shared : successPuts[key]? = none
      · exact .inl (((there key).2 shared).trans (fresh key nodes found))
      · exact .inr ((shared_iff key).mpr shared)
  refine ⟨fun key nodes found => ?_, fun key nodes found => ?_, fun key noSuccess noFailure => ?_⟩
  · obtain ⟨fresh, before⟩ := (there key).1 nodes found
    refine ⟨fresh, ?_⟩
    cases other : failurePuts[key]? with
    | none => exact ⟨[], by rw [(added key).2 other, before, append_nil]⟩
    | some more =>
      have shared := (shared_iff key).mpr (found ▸ some_ne_none nodes)
      have joined := ((added key).1 more other).2
      rw [if_pos (.inr shared), before] at joined
      exact ⟨more, joined⟩
  · have both := (added key).1 nodes found
    split_ifs at both with allowed
    · refine ⟨?_, _, both.2⟩
      cases other : successPuts[key]? with
      | some shared => exact ((there key).1 shared other).1
      | none =>
        rw [← (there key).2 other]
        exact allowed.resolve_right fun shared => (shared_iff key).mp shared other
    · cases both.1
  · rw [(added key).2 noFailure, (there key).2 noSuccess]

namespace Merged

variable {puts successPuts failurePuts merged : PutsMap}

theorem kept (all : Merged puts successPuts failurePuts merged) {key : Key} {nodes : List Nat}
    (there : puts[key]? = some nodes) : merged[key]? = some nodes := by
  rw [all.others key, there]
  · refine eq_none_iff_forall_ne_some.mpr fun nodes found => ?_
    cases (all.success key nodes found).1.symm.trans there
  · refine eq_none_iff_forall_ne_some.mpr fun nodes found => ?_
    cases (all.failure key nodes found).1.symm.trans there

theorem eq_none_iff (all : Merged puts successPuts failurePuts merged) (key : Key) :
    merged[key]? = none ↔
      puts[key]? = none ∧ successPuts[key]? = none ∧ failurePuts[key]? = none := by
  constructor
  swap
  · rintro ⟨absent, noSuccess, noFailure⟩
    rw [all.others key noSuccess noFailure]
    exact absent
  intro absent
  have noSuccess : successPuts[key]? = none := by
    refine eq_none_iff_forall_ne_some.mpr fun nodes found => ?_
    obtain ⟨_, more, there⟩ := all.success key nodes found
    cases absent.symm.trans there
  have noFailure : failurePuts[key]? = none := by
    refine eq_none_iff_forall_ne_some.mpr fun nodes found => ?_
    obtain ⟨_, others, there⟩ := all.failure key nodes found
    cases absent.symm.trans there
  exact ⟨(all.others key noSuccess noFailure).symm.trans absent, noSuccess, noFailure⟩

end Merged

end Merge

/-! ## One step for each kind of operation -/

theorem child_insertNode (sound : Sound tree) (parent : Nat) (puts : PutsMap)
    (dels : List (Interval × Nat)) :
    Child { puts, dels, tree := (tree.insertNode parent).1 } parent tree.nodes.length := by
  have nonempty := sound.nonempty
  refine ⟨by omega, ?_, ?_⟩
  · rw [length_insertNode]
    omega
  · rw [up_insertNode, if_pos rfl]

namespace Steps

variable {c : Collected}

theorem delete (sound : Sound c.tree) (inside : parent < c.tree.nodes.length)
    (req : DeleteRangeRequest) :
    Steps [.requestDeleteRange req] parent c
      { c with
        dels := c.dels ++ [(newBytesAffineInterval req.key req.rangeEnd, c.tree.nodes.length)]
        tree := (c.tree.insertNode parent).1 } where
  within := by
    refine ⟨sound, ⟨_, rfl⟩, ?_⟩
    intro leaf node recorded
    cases leaf with
    | put key => exact recorded
    | delete key rangeEnd => exact mem_append_left _ recorded
  sound := sound.insertNode inside
  free := by simp [RequestOp.Free]
  fresh := by simp [RequestOp.Puts, leaves]
  disjoint := pairwise_singleton _ _
  keys := by simp [RequestOp.Puts, leaves]
  dels := by
    intro del member
    rcases mem_append.mp member with old | new
    · exact .inl old
    · rw [mem_singleton.mp new]
      exact .inr ⟨_, .head _, req.key, req.rangeEnd, .head _, rfl⟩
  placed := by
    intro op member leaf isLeaf
    rw [mem_singleton.mp member, leaves, mem_singleton] at isLeaf
    subst isLeaf
    have child := child_insertNode sound parent c.puts
      (c.dels ++ [(newBytesAffineInterval req.key req.rangeEnd, c.tree.nodes.length)])
    refine ⟨c.tree.nodes.length, le_rfl, child, c.tree.nodes.length, ?_, child.inside,
      Under.refl _ _⟩
    exact mem_append_right _ (mem_singleton.mpr rfl)
  apart := pairwise_singleton _ _
  branches := by simp [BranchesApart]

theorem put (sound : Sound c.tree) (inside : parent < c.tree.nodes.length) (req : PutRequest)
    (fresh : c.puts[req.key]? = none) :
    Steps [.requestPut req] parent c
      { c with
        puts := c.puts.insert req.key [c.tree.nodes.length]
        tree := (c.tree.insertNode parent).1 } where
  within := by
    refine ⟨sound, ⟨_, rfl⟩, ?_⟩
    intro leaf node recorded
    cases leaf with
    | put key =>
      obtain ⟨nodes, there, member⟩ := recorded
      refine ⟨nodes, ?_, member⟩
      rw [ExtTreeMap.getElem?_insert, if_neg, there]
      intro same
      rw [← LawfulEqOrd.eq_of_compare same, fresh] at there
      cases there
    | delete key rangeEnd => exact recorded
  sound := sound.insertNode inside
  free := by simp [RequestOp.Free]
  fresh := by
    refine forall_mem_singleton.mpr fun key puts => ?_
    have same : key = req.key := by simpa [RequestOp.Puts, leaves] using puts
    rw [same]
    exact fresh
  disjoint := pairwise_singleton _ _
  keys := by
    intro key
    rw [ExtTreeMap.getElem?_insert]
    by_cases same : req.key = key
    · subst same
      simp [RequestOp.Puts, leaves]
    · rw [if_neg (by simpa using same)]
      simp [RequestOp.Puts, leaves, Ne.symm same]
  dels := fun del member => .inl member
  placed := by
    intro op member leaf isLeaf
    rw [mem_singleton.mp member, leaves, mem_singleton] at isLeaf
    subst isLeaf
    have child := child_insertNode sound parent
      (c.puts.insert req.key [c.tree.nodes.length]) c.dels
    refine ⟨c.tree.nodes.length, le_rfl, child, c.tree.nodes.length, ?_, child.inside,
      Under.refl _ _⟩
    exact ⟨[c.tree.nodes.length], by simp, mem_singleton.mpr rfl⟩
  apart := pairwise_singleton _ _
  branches := by simp [BranchesApart]

end Steps

/-- A branch of a nested transaction has been collected below the node of the
transaction. -/
structure Branch (ops : List RequestOp) (parent : Nat) (start final : Collected) : Prop where
  within : Within start final
  sound : Sound final.tree
  free : FreeOf Leaf.PutsDiffer ops
  keys : forall key : Key, final.puts[key]? = none ↔ Leaf.put key ∉ leavesOf ops
  dels : forall del, del ∈ final.dels -> del ∈ start.dels ∨
    Exists fun op => op ∈ ops ∧ op.Deletes del.1
  placed : forall leaf, leaf ∈ leavesOf ops ->
    Exists fun top => start.tree.nodes.length ≤ top ∧ final.Child parent top ∧ final.Placed leaf top

variable {c : Collected} {earlier later : RequestOp}

theorem Collected.Placed.up (placed : c.Placed leaf node)
    (child : c.Child parent node) : c.Placed leaf parent := by
  obtain ⟨lower, recorded, inside, under⟩ := placed
  refine ⟨lower, recorded, inside, under.trans ?_⟩
  exact ⟨1, child.up⟩

/-- Disjoint sets of keys, in terms of pairs of changes. -/
theorem putsDiffer_of_disjoint (disjoint : ∀ key, earlier.Puts key -> ¬ later.Puts key) :
    ∀ first ∈ earlier.leaves, ∀ second ∈ later.leaves, Leaf.PutsDiffer first second := by
  intro first isFirst second isSecond
  cases first with
  | delete key rangeEnd => trivial
  | put key =>
    cases second with
    | delete other rangeEnd => trivial
    | put other =>
      intro same
      exact disjoint key isFirst (same ▸ isSecond)

theorem Steps.freeOf
    (steps : Steps ops parent c final) : FreeOf Leaf.PutsDiffer ops :=
  freeOf_iff.mpr ⟨steps.free, steps.disjoint.imp putsDiffer_of_disjoint⟩

namespace Branch

variable {start : Collected}

theorem empty (sound : Sound start.tree) (noPuts : start.puts = ∅) :
    Branch [] parent start start where
  within := Within.refl sound
  sound := sound
  free := trivial
  keys := by simp [noPuts, leavesOf]
  dels := fun del member => .inl member
  placed := by simp [leavesOf]

theorem ofSteps (sound : Sound start.tree) (noPuts : start.puts = ∅)
    (steps : Steps ops start.tree.nodes.length
      { start with tree := (start.tree.insertNode parent).1 } final) :
    Branch ops parent start final where
  within := by
    have first : Within start { start with tree := (start.tree.insertNode parent).1 } :=
      ⟨sound, ⟨_, rfl⟩, fun leaf node recorded => by
        cases leaf <;> exact recorded⟩
    exact first.trans steps.within
  sound := steps.sound
  free := steps.freeOf
  keys := by
    intro key
    rw [steps.keys, mem_leavesOf]
    simp [noPuts, RequestOp.Puts]
  dels := steps.dels
  placed := by
    intro leaf isLeaf
    obtain ⟨op, member, isLeaf⟩ := mem_leavesOf.mp isLeaf
    obtain ⟨top, _, child, placed⟩ := steps.placed op member leaf isLeaf
    have node := (child_insertNode sound parent start.puts start.dels).within steps.within
    exact ⟨start.tree.nodes.length, le_rfl, node, placed.up child⟩

end Branch

/-- A nested transaction whose two branches have been collected. -/
theorem Steps.txn {succeeded failed : Collected} {merged : PutsMap} (sound : Sound c.tree)
    (compare : List Compare) (success failure : List RequestOp)
    (succeeds : Branch success c.tree.nodes.length
      { puts := ∅, dels := c.dels, tree := (c.tree.insertNode parent).1 } succeeded)
    (fails : Branch failure c.tree.nodes.length
      { puts := ∅, dels := succeeded.dels, tree := succeeded.tree } failed)
    (all : Merged c.puts succeeded.puts failed.puts merged) :
    Steps [.requestTxn compare success failure] parent c { failed with puts := merged } := by
  have puts_iff : ∀ key, (requestTxn compare success failure).Puts key ↔
      Leaf.put key ∈ leavesOf success ∨ Leaf.put key ∈ leavesOf failure := by
    intro key
    simp [RequestOp.Puts, leaves]
  -- What each branch has recorded is still recorded after the merge.
  have failedWithin : Within failed { failed with puts := merged } := by
    refine ⟨fails.sound, Grows.refl _, ?_⟩
    intro leaf node recorded
    cases leaf with
    | put key =>
      obtain ⟨nodes, there, member⟩ := recorded
      obtain ⟨_, others, there⟩ := all.failure key nodes there
      exact ⟨_, there, mem_append_right _ member⟩
    | delete key rangeEnd => exact recorded
  have succeededWithin : Within succeeded { failed with puts := merged } := by
    refine ⟨succeeds.sound, fails.within.grows, ?_⟩
    intro leaf node recorded
    cases leaf with
    | put key =>
      obtain ⟨nodes, there, member⟩ := recorded
      obtain ⟨_, more, there⟩ := all.success key nodes there
      exact ⟨_, there, mem_append_left _ member⟩
    | delete key rangeEnd => exact fails.within.records (.delete key rangeEnd) node recorded
  have grows : Grows c.tree failed.tree :=
    Grows.trans ⟨_, rfl⟩ (succeeds.within.grows.trans fails.within.grows)
  have node : Child { failed with puts := merged } parent c.tree.nodes.length := by
    have inserted := child_insertNode sound parent ∅ c.dels
    exact (inserted.within succeeds.within).within succeededWithin
  constructor
  · refine ⟨sound, grows, ?_⟩
    intro leaf node recorded
    cases leaf with
    | put key =>
      obtain ⟨nodes, there, member⟩ := recorded
      exact ⟨nodes, all.kept there, member⟩
    | delete key rangeEnd =>
      have kept := succeeds.within.records (.delete key rangeEnd) node recorded
      exact fails.within.records (.delete key rangeEnd) node kept
  · exact fails.sound
  · simpa [RequestOp.Free] using And.intro succeeds.free fails.free
  · refine forall_mem_singleton.mpr fun key puts => ?_
    rcases (puts_iff key).mp puts with isPut | isPut
    · obtain ⟨nodes, there⟩ :=
        ne_none_iff_exists'.mp fun none => (succeeds.keys key).mp none isPut
      exact (all.success key nodes there).1
    · obtain ⟨nodes, there⟩ :=
        ne_none_iff_exists'.mp fun none => (fails.keys key).mp none isPut
      exact (all.failure key nodes there).1
  · exact pairwise_singleton _ _
  · intro key
    simp only [mem_singleton, forall_eq, puts_iff, not_or]
    rw [← succeeds.keys, ← fails.keys]
    exact all.eq_none_iff key
  · intro del member
    rcases fails.dels del member with old | ⟨op, isOp, key, rangeEnd, leaf, interval⟩
    · refine (succeeds.dels del old).imp_right ?_
      rintro ⟨op, isOp, key, rangeEnd, leaf, interval⟩
      exact ⟨_, .head _, key, rangeEnd, mem_append_left _ (mem_leavesOf.mpr ⟨op, isOp, leaf⟩),
        interval⟩
    · exact .inr ⟨_, .head _, key, rangeEnd,
        mem_append_right _ (mem_leavesOf.mpr ⟨op, isOp, leaf⟩), interval⟩
  · refine forall_mem_singleton.mpr fun leaf isLeaf =>
      ⟨c.tree.nodes.length, le_rfl, node, ?_⟩
    rcases mem_append.mp isLeaf with isLeaf | isLeaf
    · obtain ⟨top, _, child, placed⟩ := succeeds.placed leaf isLeaf
      exact (placed.within succeededWithin).up (child.within succeededWithin)
    · obtain ⟨top, _, child, placed⟩ := fails.placed leaf isLeaf
      exact (placed.within failedWithin).up (child.within failedWithin)
  · exact pairwise_singleton _ _
  refine forall_mem_singleton.mpr fun first isFirst second isSecond => ?_
  obtain ⟨left, _, leftChild, firstPlaced⟩ := succeeds.placed first isFirst
  obtain ⟨right, new, rightChild, secondPlaced⟩ := fails.placed second isSecond
  have old := leftChild.inside
  have different : left ≠ right := by
    intro same
    subst same
    exact absurd old (Nat.not_lt.mpr new)
  exact ⟨c.tree.nodes.length, node, left, right, different, leftChild.within succeededWithin,
    rightChild.within failedWithin, firstPlaced.within succeededWithin,
    secondPlaced.within failedWithin⟩

/-! ## The two loops -/

def RequestOp.isPut : RequestOp -> Bool
  | .requestPut _ => true
  | _ => false

theorem disjoint_of_putsDiffer
    (differ : ∀ first ∈ earlier.leaves, ∀ second ∈ later.leaves,
      Leaf.PutsDiffer first second) (key : Key) (puts : earlier.Puts key) : ¬ later.Puts key :=
  fun puts_too => differ _ puts _ puts_too rfl

/-- Different operations of a free branch put different keys. -/
theorem FreeOf.disjoint (free : FreeOf Leaf.PutsDiffer ops) {first second : RequestOp}
    (isFirst : first ∈ ops) (isSecond : second ∈ ops) (different : first ≠ second) (key : Key)
    (puts : first.Puts key) : ¬ second.Puts key := by
  have pairs := (freeOf_iff.mp free).2
  have : Std.Symm fun earlier later : RequestOp =>
      ∀ first ∈ earlier.leaves, ∀ second ∈ later.leaves, Leaf.PutsDiffer first second :=
    ⟨fun earlier later differ x isX y isY => (differ y isY x isX).symm⟩
  exact disjoint_of_putsDiffer (pairs.forall isFirst isSecond different) key puts

/-- The second loop fails only if a key has been put before. -/
theorem collectPuts_outcome (sound : Sound c.tree) (inside : parent < c.tree.nodes.length) :
    Outcome
      ((∀ op ∈ ops.filter isPut, ∀ key, op.Puts key -> c.puts[key]? = none) ∧
      (ops.filter isPut).Pairwise fun earlier later =>
        ∀ key, earlier.Puts key -> ¬ later.Puts key)
      (Steps (ops.filter isPut) parent c) (collectPuts ops parent c) := by
  induction ops generalizing c with
  | nil => exact Steps.nil sound
  | cons op ops ih =>
    cases op with
    | requestPut req =>
      have own : (requestPut req).Puts req.key := by
        simp [RequestOp.Puts, leaves]
      rw [collectPuts, contains_eq_isSome_getElem?]
      cases taken : c.puts[req.key]? with
      | some nodes =>
        rintro ⟨fresh, _⟩
        cases taken.symm.trans (fresh _ (.head _) req.key own)
      | none =>
        have first := Steps.put sound inside req taken
        have rest := ih first.sound (inside.trans_le first.within.grows.length_le)
        refine rest.imp ?_ fun final steps => first.append steps
        rintro ⟨fresh, disjoint⟩
        obtain ⟨others, disjoint⟩ := pairwise_cons.mp disjoint
        refine ⟨fun op member key puts => ?_, disjoint⟩
        have different : req.key ≠ key := by
          rintro rfl
          exact others op member req.key own puts
        rw [lookup_insert, if_neg different]
        exact fresh op (.tail _ member) key puts
    | missing | requestRange | requestDeleteRange | requestTxn => exact ih sound inside

/-- The two loops together collect all operations. -/
theorem collect_outcome {first : Except ValidationError Collected}
    (inside : parent < c.tree.nodes.length) (noPuts : c.puts = ∅)
    (loop : Outcome (FreeOf Leaf.PutsDiffer ops) (Steps (ops.filter fun op => !op.isPut) parent c)
      first) :
    Outcome (FreeOf Leaf.PutsDiffer ops) (Steps ops parent c)
      (first.bind fun c => collectPuts ops parent c) := by
  refine loop.bind fun middle steps => ?_
  refine (collectPuts_outcome steps.sound
    (inside.trans_le steps.within.grows.length_le)).imp (fun free => ⟨?_, ?_⟩) ?_
  · intro op member key puts
    obtain ⟨member, isPut⟩ := mem_filter.mp member
    refine (steps.keys key).mpr ⟨by simp [noPuts], ?_⟩
    intro other isOther
    obtain ⟨isOther, noPut⟩ := mem_filter.mp isOther
    refine free.disjoint member isOther ?_ key puts
    rintro rfl
    simp [isPut] at noPut
  · exact ((freeOf_iff.mp free).2.sublist filter_sublist).imp disjoint_of_putsDiffer
  · intro final put
    refine (steps.append put).perm ?_
    exact perm_append_comm.trans (filter_append_perm isPut ops)

/-- Collecting a branch, given what the first loop does. -/
theorem collectBranch_outcome {txnNode : Nat} (dels : List (Interval × Nat))
    {collect : Nat -> Collected -> Except ValidationError Collected} (sound : Sound tree)
    (inside : txnNode < tree.nodes.length)
    (loop : ∀ node c, Sound c.tree -> node < c.tree.nodes.length -> c.puts = ∅ ->
      Outcome (FreeOf Leaf.PutsDiffer ops) (Steps (ops.filter fun op => !op.isPut) node c)
        (collect node c)) :
    Outcome (FreeOf Leaf.PutsDiffer ops) (Branch ops txnNode { puts := ∅, dels, tree })
      (collectBranch ops txnNode dels tree collect) := by
  cases ops with
  | nil => exact Branch.empty sound rfl
  | cons op ops =>
    have nodeInside : tree.nodes.length < (tree.insertNode txnNode).1.nodes.length := by
      rw [length_insertNode]
      omega
    exact (collect_outcome nodeInside rfl (loop _ _ (sound.insertNode inside) nodeInside rfl)).imp
      id fun final steps => Branch.ofSteps sound rfl steps

mutual

theorem collectOp_outcome : (op : RequestOp) -> (parent : Nat) -> (c : Collected) ->
    Sound c.tree -> parent < c.tree.nodes.length ->
      Outcome (op.Free Leaf.PutsDiffer ∧
          (op.isPut = false -> ∀ key, op.Puts key -> c.puts[key]? = none))
        (Steps ([op].filter fun op => !op.isPut) parent c) (collectOp op parent c)
  | .missing, parent, c, sound, _ | .requestRange _, parent, c, sound, _ =>
    Steps.idle sound rfl trivial trivial
  | .requestPut req, parent, c, sound, _ => Steps.nil sound
  | .requestDeleteRange req, parent, c, sound, inside => Steps.delete sound inside req
  | .requestTxn compare success failure, parent, c, sound, inside => by
      have nodeInside : c.tree.nodes.length < (c.tree.insertNode parent).1.nodes.length := by
        rw [length_insertNode]
        omega
      refine ((collectBranch_outcome c.dels (sound.insertNode inside) nodeInside
        fun node c sound inside noPuts => (collectOps_outcome success node c sound inside).imp
          (fun free => ⟨free, by simp [noPuts]⟩) fun _ => id).imp
        (fun fits => fits.1.1) fun _ => id).bind fun succeeded succeeds => ?_
      refine ((collectBranch_outcome succeeded.dels succeeds.sound
        (nodeInside.trans_le succeeds.within.grows.length_le)
        fun node c sound inside noPuts => (collectOps_outcome failure node c sound inside).imp
          (fun free => ⟨free, by simp [noPuts]⟩) fun _ => id).imp
        (fun fits => fits.1.2) fun _ => id).bind fun failed fails => ?_
      refine ((mergeSuccess_outcome ..).imp (fun fits key nodes found => ?_) fun _ => id).bind
        fun first there => ?_
      · refine fits.2 rfl key (mem_append_left _ ?_)
        by_contra absent
        cases found.symm.trans ((succeeds.keys key).mpr absent)
      refine ((mergeFailure_outcome _ there).imp (fun fits key nodes found => ?_) fun _ => id).bind
        fun merged all => Steps.txn sound compare success failure succeeds fails all
      refine fits.2 rfl key (mem_append_right _ ?_)
      by_contra absent
      cases found.symm.trans ((fails.keys key).mpr absent)

theorem collectOps_outcome : (ops : List RequestOp) -> (parent : Nat) -> (c : Collected) ->
    Sound c.tree -> parent < c.tree.nodes.length ->
      Outcome (FreeOf Leaf.PutsDiffer ops ∧ ∀ op ∈ ops, op.isPut = false ->
          ∀ key, op.Puts key -> c.puts[key]? = none)
        (Steps (ops.filter fun op => !op.isPut) parent c) (collectOps ops parent c)
  | [], parent, c, sound, _ => Steps.nil sound
  | op :: ops, parent, c, sound, inside => by
      refine ((collectOp_outcome op parent c sound inside).imp
        (fun fits => ⟨fits.1.1, fits.2 op (.head _)⟩) fun _ => id).bind fun middle steps => ?_
      refine (collectOps_outcome ops parent middle steps.sound
        (Nat.lt_of_lt_of_le inside steps.within.grows.length_le)).imp ?_ ?_
      · rintro ⟨⟨_, between, others⟩, fresh⟩
        refine ⟨others, fun other member noPut key puts => ?_⟩
        refine (steps.keys key).mpr ⟨fresh other (.tail _ member) noPut key puts, ?_⟩
        intro first isFirst
        rw [mem_singleton.mp (mem_filter.mp isFirst).1]
        intro firstPuts
        exact between _ firstPuts _ (mem_leavesOf.mpr ⟨other, member, puts⟩) rfl
      · intro final rest
        have joined := steps.append rest
        rw [← filter_append] at joined
        exact joined

end

/-! ## The whole branch -/

theorem buildIntervalTree_outcome (ops : List RequestOp) :
    Outcome (FreeOf Leaf.PutsDiffer ops)
      (Steps ops 0 { puts := ∅, dels := [], tree := new })
      (buildIntervalTree ops 0 [] new) := by
  have inside : 0 < new.nodes.length := by simp [new]
  refine collect_outcome inside rfl ?_
  exact (collectOps_outcome ops 0 _ Sound.new inside).imp (fun free => ⟨free, by simp⟩) fun _ => id

end Rk8s.Xline
