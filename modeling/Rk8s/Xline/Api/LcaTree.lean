import Mathlib.Data.Nat.Log
import Mathlib.Tactic.Ring

namespace Rk8s.Xline

open Function List

/-!
# The tree of transaction operations

Validation puts the operations of a transaction into a tree and asks for the
lowest common ancestor of two of them.  A node knows its ancestors at distance
one, two, four and so on.  Node 0 is a sentinel above all others.  It counts as
its own parent, and its children have depth 0 like the sentinel itself.

The facts used later are that the search for the common ancestor of two nodes
ends in an ancestor of both, and that such an ancestor has depth 0 if the nodes
are below different children of the sentinel or below different grandchildren.
-/

/-- A node: the ancestors at distance `2 ^ i` and the depth. -/
structure LCANode where
  parent : List Nat
  depth : Nat

structure LCATree where
  nodes : List LCANode

namespace LCATree

/-- A tree with the sentinel node. -/
def new : LCATree := { nodes := [{ parent := [0], depth := 0 }] }

variable (tree : LCATree) {node first second left right above : Nat}

/-- The node with an index.  The program asserts that it exists. -/
def getNode (index : Nat) : LCANode :=
  tree.nodes[index]?.getD { parent := [0], depth := 0 }

def depth (tree : LCATree) (index : Nat) : Nat := (tree.getNode index).depth

/-- The first parent. -/
def up (index : Nat) : Nat := (tree.getNode index).parent[0]?.getD 0

/-- The ancestors of a new node below `parent`: each is found from the one at
half its distance. -/
def ancestors (tree : LCATree) (parent : Nat) : Nat -> List Nat
  | 0 => [parent]
  | count + 1 =>
    let found := ancestors tree parent count
    found ++ [(tree.getNode (found[count]?.getD 0)).parent[count]?.getD 0]

/-- Insert a node and return its index. -/
def insertNode (parent : Nat) : LCATree × Nat :=
  let depth := if parent = 0 then 0 else tree.depth parent + 1
  let parentNum := if depth = 0 then 0 else Nat.log2 depth
  ({ nodes := tree.nodes ++ [{ parent := tree.ancestors parent parentNum, depth }] },
    tree.nodes.length)

/-- The first loop of the search: raise `y` until it is not deeper than `x`. -/
def raise (tree : LCATree) (x : Nat) : Nat -> Nat -> Nat
  | 0, y => y
  | fuel + 1, y =>
    if tree.depth x < tree.depth y then
      raise tree x fuel
        ((tree.getNode y).parent.reverse.foldl
          (fun y ancestor => if tree.depth x ≤ tree.depth ancestor then ancestor else y) y)
    else
      y

/-- The second loop: raise both nodes until they meet. -/
def meet (tree : LCATree) : Nat -> Nat -> Nat -> Nat
  | 0, x, _ => x
  | fuel + 1, x, y =>
    if x = y then x
    else if tree.up x = tree.up y then tree.up x
    else
      let nodeX := tree.getNode x
      let nodeY := tree.getNode y
      match (List.range nodeX.parent.length).reverse.find?
          (fun i => nodeX.parent[i]?.getD 0 ≠ nodeY.parent[i]?.getD 0) with
      | some i => meet tree fuel (nodeX.parent[i]?.getD 0) (nodeY.parent[i]?.getD 0)
      | none => x

/-- The lowest common ancestor of two nodes.  The loops run at most once for
each level of the tree. -/
def findLca (nodeA nodeB : Nat) : Nat :=
  let (x, y) :=
    if tree.depth nodeA < tree.depth nodeB then (nodeA, nodeB) else (nodeB, nodeA)
  let y := tree.raise x (tree.depth y) y
  tree.meet (tree.depth x + 1) x y

/-! ## Well-formed trees -/

/-- The depths count the parents up to a child of the sentinel, and the parent
lists hold the ancestors they should hold. -/
structure Sound (tree : LCATree) : Prop where
  nonempty : 0 < tree.nodes.length
  root : tree.up 0 = 0
  inside : forall index, tree.up index < tree.nodes.length
  depth_top : forall index, tree.up index = 0 -> tree.depth index = 0
  depth_up : forall index, tree.up index ≠ 0 -> tree.depth index = tree.depth (tree.up index) + 1
  length : forall index, (tree.getNode index).parent.length = Nat.log2 (tree.depth index) + 1
  jump : forall index i, i ≤ Nat.log2 (tree.depth index) ->
    (tree.getNode index).parent[i]? = some (tree.up^[2 ^ i] index)

/-- The node is the other one or below it. -/
def Under (node above : Nat) : Prop :=
  Exists fun steps => tree.up^[steps] node = above

namespace Sound

variable {tree : LCATree}

theorem new : Sound LCATree.new := by
  have node : ∀ index, LCATree.new.getNode index = { parent := [0], depth := 0 } := by
    intro index
    cases index <;> rfl
  have first : ∀ index, LCATree.new.up index = 0 := by
    intro index
    simp [up, node]
  constructor
  · simp [LCATree.new]
  · exact first 0
  · intro index
    rw [first]
    simp [LCATree.new]
  · intro index _
    simp [LCATree.depth, node]
  · intro index other
    exact absurd (first index) other
  · intro index
    simp [LCATree.depth, node]
  · intro index i le
    have zero : i = 0 := by simpa [LCATree.depth, node] using le
    simp [node, zero, first]

section

variable (sound : Sound tree) (steps : Nat)
include sound

theorem iterate_zero : tree.up^[steps] 0 = 0 := by
  induction steps with
  | zero => rfl
  | succ steps ih => rw [iterate_succ_apply, sound.root, ih]

/-- The depth counts the steps to an ancestor below the sentinel. -/
theorem depth_iterate (node : Nat) (above : tree.up^[steps] node ≠ 0) :
    tree.depth node = tree.depth (tree.up^[steps] node) + steps := by
  induction steps generalizing node with
  | zero => rfl
  | succ steps ih =>
    rw [iterate_succ_apply] at above ⊢
    have inner : tree.up node ≠ 0 := by
      intro zero
      rw [zero, sound.iterate_zero] at above
      exact above rfl
    rw [sound.depth_up node inner, ih (tree.up node) above]
    omega

/-- Up to its depth the ancestors of a node are below the sentinel. -/
theorem iterate_ne_zero (node : Nat) (other : node ≠ 0)
    (within : steps ≤ tree.depth node) : tree.up^[steps] node ≠ 0 := by
  induction steps generalizing node with
  | zero => exact other
  | succ steps ih =>
    have inner : tree.up node ≠ 0 := by
      intro zero
      have top := sound.depth_top node zero
      omega
    have deeper := sound.depth_up node inner
    exact ih (tree.up node) inner (by omega)

end

/-- Two nodes below different nodes of one level have no common ancestor on that
level or further down. -/
theorem depth_common_ancestor (sound : Sound tree) {common : Nat}
    (underLeft : Under tree first left) (underRight : Under tree second right)
    (leftInner : left ≠ 0) (rightInner : right ≠ 0) (different : left ≠ right)
    (level : tree.depth left = tree.depth right)
    (aboveFirst : Under tree first common) (aboveSecond : Under tree second common) :
    common = 0 ∨ tree.depth common < tree.depth left := by
  obtain ⟨toLeft, rfl⟩ := underLeft
  obtain ⟨toRight, rfl⟩ := underRight
  obtain ⟨fromFirst, rfl⟩ := aboveFirst
  obtain ⟨fromSecond, same⟩ := aboveSecond
  by_contra neither
  simp only [not_or] at neither
  obtain ⟨inner, deep⟩ := neither
  have firstDepth := sound.depth_iterate toLeft first leftInner
  have firstCommon := sound.depth_iterate fromFirst first inner
  have secondDepth := sound.depth_iterate toRight second rightInner
  have secondCommon := sound.depth_iterate fromSecond second (by rw [same]; exact inner)
  rw [same] at secondCommon
  -- Both nodes are the same number of steps above the common ancestor.
  apply different
  have leftSteps : toLeft = (toLeft - fromFirst) + fromFirst := by omega
  have rightSteps : toRight = (toLeft - fromFirst) + fromSecond := by omega
  rw [leftSteps, iterate_add_apply, rightSteps, iterate_add_apply, same]

end Sound

/-! ## Insertion -/

section Insert

variable {tree : LCATree} {parent : Nat}

theorem getNode_insertNode (tree : LCATree) (parent index : Nat) :
    (tree.insertNode parent).1.getNode index =
      if index = tree.nodes.length then
        { parent := tree.ancestors parent
            (if (if parent = 0 then 0 else tree.depth parent + 1) = 0 then 0
              else Nat.log2 (if parent = 0 then 0 else tree.depth parent + 1))
          depth := if parent = 0 then 0 else tree.depth parent + 1 }
      else tree.getNode index := by
  unfold insertNode getNode
  by_cases new : index = tree.nodes.length
  · subst new
    simp
  · rw [if_neg new]
    by_cases inside : index < tree.nodes.length
    · simp [getElem?_append_left inside]
    · rw [getElem?_eq_none (by simp; omega), getElem?_eq_none (by omega)]

theorem ancestors_head (tree : LCATree) (parent count : Nat) :
    (tree.ancestors parent count)[0]? = some parent := by
  induction count with
  | zero => rfl
  | succ count ih =>
    have nonempty : 0 < (tree.ancestors parent count).length := by
      by_contra empty
      rw [getElem?_eq_none (by omega)] at ih
      cases ih
    rw [ancestors, getElem?_append_left nonempty, ih]

theorem up_insertNode (tree : LCATree) (parent index : Nat) :
    (tree.insertNode parent).1.up index =
      if index = tree.nodes.length then parent else tree.up index := by
  unfold up
  rw [getNode_insertNode]
  split
  · simp [ancestors_head]
  · rfl

theorem depth_insertNode (tree : LCATree) (parent index : Nat) :
    (tree.insertNode parent).1.depth index =
      if index = tree.nodes.length then (if parent = 0 then 0 else tree.depth parent + 1)
      else tree.depth index := by
  unfold depth
  rw [getNode_insertNode]
  split <;> rfl

theorem length_insertNode (tree : LCATree) (parent : Nat) :
    (tree.insertNode parent).1.nodes.length = tree.nodes.length + 1 := by
  simp [insertNode]

/-- The old nodes keep their ancestors. -/
theorem Sound.iterate_insertNode (sound : Sound tree) (steps : Nat)
    (inside : node < tree.nodes.length) :
    (tree.insertNode parent).1.up^[steps] node = tree.up^[steps] node := by
  induction steps generalizing node with
  | zero => rfl
  | succ steps ih =>
    rw [iterate_succ_apply, iterate_succ_apply, up_insertNode,
      if_neg (by omega), ih (sound.inside node)]

/-- The ancestors of a new node are those at distances that are powers of two. -/
theorem Sound.ancestors_eq (sound : Sound tree) (inner : parent ≠ 0) (count : Nat)
    (small : 2 ^ count ≤ tree.depth parent + 1) :
    (tree.ancestors parent count).length = count + 1 ∧
      ∀ i ≤ count, (tree.ancestors parent count)[i]? = some (tree.up^[2 ^ i - 1] parent) := by
  induction count with
  | zero =>
    refine ⟨rfl, fun i le => ?_⟩
    rw [Nat.le_zero.mp le]
    rfl
  | succ count ih =>
    obtain ⟨length, found⟩ := ih (by omega)
    have last := found count le_rfl
    have positive : 0 < 2 ^ count := Nat.two_pow_pos count
    -- The node at half the distance is deep enough to know its own ancestor there.
    have halfway := sound.iterate_ne_zero (2 ^ count - 1) parent inner (by omega)
    have deep := sound.depth_iterate (2 ^ count - 1) parent halfway
    have reach : count ≤ Nat.log2 (tree.depth (tree.up^[2 ^ count - 1] parent)) := by
      rw [Nat.le_log2 (by omega)]
      omega
    have jumped := sound.jump (tree.up^[2 ^ count - 1] parent) count reach
    have sum : 2 ^ (count + 1) - 1 = 2 ^ count + (2 ^ count - 1) := by omega
    constructor
    · simp [ancestors, length]
    intro i le
    rw [ancestors]
    by_cases older : i ≤ count
    · rw [getElem?_append_left (by omega)]
      exact found i older
    have new : i = count + 1 := by omega
    subst new
    rw [getElem?_append_right (by omega), length, Nat.sub_self]
    simp only [getElem?_cons_zero, last, Option.getD_some, jumped]
    rw [sum, iterate_add_apply]

theorem Sound.insertNode (sound : Sound tree) (inside : parent < tree.nodes.length) :
    Sound (tree.insertNode parent).1 := by
  constructor
  · rw [length_insertNode]
    omega
  · rw [up_insertNode, if_neg (by omega)]
    exact sound.root
  · intro index
    rw [up_insertNode, length_insertNode]
    have before := sound.inside index
    split <;> omega
  · intro index top
    rw [up_insertNode] at top
    rw [depth_insertNode]
    by_cases new : index = tree.nodes.length
    · rw [if_pos new] at top ⊢
      rw [if_pos top]
    · rw [if_neg new] at top ⊢
      exact sound.depth_top index top
  · intro index inner
    rw [up_insertNode] at inner ⊢
    by_cases new : index = tree.nodes.length
    · rw [if_pos new] at inner ⊢
      rw [depth_insertNode, depth_insertNode, if_pos new, if_neg inner,
        if_neg (by omega : parent ≠ tree.nodes.length)]
    rw [if_neg new] at inner ⊢
    have before := sound.inside index
    rw [depth_insertNode, depth_insertNode, if_neg new,
      if_neg (by omega : tree.up index ≠ tree.nodes.length)]
    exact sound.depth_up index inner
  · intro index
    rw [getNode_insertNode, depth_insertNode]
    by_cases new : index = tree.nodes.length
    · simp only [if_pos new]
      by_cases top : parent = 0
      · simp [top, ancestors]
      · have small : 2 ^ Nat.log2 (tree.depth parent + 1) ≤ tree.depth parent + 1 :=
          Nat.log2_self_le (by omega)
        simp only [if_neg top]
        exact (sound.ancestors_eq top _ small).1
    · simp only [if_neg new]
      exact sound.length index
  intro index i le
  rw [depth_insertNode] at le
  rw [getNode_insertNode]
  by_cases new : index = tree.nodes.length
  · have first : (tree.insertNode parent).1.up index = parent := by
      rw [up_insertNode, if_pos new]
    have positive : 0 < 2 ^ i := Nat.two_pow_pos i
    have steps : 2 ^ i = (2 ^ i - 1) + 1 := by omega
    have climbed : (tree.insertNode parent).1.up^[2 ^ i] index = tree.up^[2 ^ i - 1] parent := by
      rw [steps, iterate_add_apply, iterate_one, first,
        sound.iterate_insertNode _ inside, Nat.add_sub_cancel]
    rw [if_pos new] at le ⊢
    rw [climbed]
    by_cases top : parent = 0
    · have zero : i = 0 := by simpa [top] using le
      simp [zero, top, ancestors]
    · have small : 2 ^ Nat.log2 (tree.depth parent + 1) ≤ tree.depth parent + 1 :=
        Nat.log2_self_le (by omega)
      simp only [if_neg top] at le ⊢
      exact (sound.ancestors_eq top _ small).2 i le
  rw [if_neg new] at le ⊢
  by_cases old : index < tree.nodes.length
  · rw [sound.iterate_insertNode _ old]
    exact sound.jump index i le
  -- An index that no node has yet behaves like the sentinel.
  have beyond : (tree.insertNode parent).1.up^[2 ^ i] index = tree.up^[2 ^ i] index := by
    have positive : 0 < 2 ^ i := Nat.two_pow_pos i
    have steps : 2 ^ i = (2 ^ i - 1) + 1 := by omega
    rw [steps, iterate_succ_apply, iterate_succ_apply, up_insertNode,
      if_neg new, sound.iterate_insertNode _ (sound.inside index)]
  rw [beyond]
  exact sound.jump index i le

end Insert

/-! ## The search -/

theorem Under.refl (node : Nat) : Under tree node node := ⟨0, rfl⟩

theorem Under.up {tree : LCATree} (under : Under tree (tree.up node) above) :
    Under tree node above := by
  obtain ⟨steps, rfl⟩ := under
  exact ⟨steps + 1, rfl⟩

theorem Under.trans {tree : LCATree} {middle : Nat} (lower : Under tree node middle)
    (upper : Under tree middle above) : Under tree node above := by
  obtain ⟨first, rfl⟩ := lower
  obtain ⟨second, rfl⟩ := upper
  exact ⟨second + first, iterate_add_apply _ _ _ _⟩

namespace Sound

variable {tree : LCATree}

variable (sound : Sound tree)
include sound

theorem parent_eq (node : Nat) : ∃ rest, (tree.getNode node).parent = tree.up node :: rest := by
  have length := sound.length node
  cases parents : (tree.getNode node).parent with
  | nil => simp [parents] at length
  | cons first rest =>
    refine ⟨rest, ?_⟩
    simp [LCATree.up, parents]

/-- One round of the first loop ends at the first parent: the ancestors are
tried from the farthest to the nearest, and the nearest is never too high. -/
theorem raise_round {x y : Nat} (deeper : tree.depth x < tree.depth y) :
    (tree.getNode y).parent.reverse.foldl
      (fun y ancestor => if tree.depth x ≤ tree.depth ancestor then ancestor else y) y =
        tree.up y := by
  have inner : tree.up y ≠ 0 := by
    intro zero
    have top := sound.depth_top y zero
    omega
  have depth := sound.depth_up y inner
  obtain ⟨rest, parents⟩ := sound.parent_eq y
  rw [parents, reverse_cons, foldl_append]
  simp only [foldl_cons, foldl_nil]
  rw [if_pos (by omega)]

theorem raise_spec (x : Nat) (fuel y : Nat) (notHigher : tree.depth x ≤ tree.depth y)
    (enough : tree.depth y ≤ tree.depth x + fuel) (inner : y ≠ 0) :
    Under tree y (tree.raise x fuel y) ∧ tree.depth (tree.raise x fuel y) = tree.depth x ∧
      tree.raise x fuel y ≠ 0 := by
  induction fuel generalizing y with
  | zero => exact ⟨Under.refl tree y, by simp only [raise]; omega, inner⟩
  | succ fuel ih =>
    rw [raise]
    by_cases deeper : tree.depth x < tree.depth y
    · have parentInner : tree.up y ≠ 0 := by
        intro zero
        have top := sound.depth_top y zero
        omega
      have depth := sound.depth_up y parentInner
      rw [if_pos deeper, sound.raise_round deeper]
      obtain ⟨under, level, other⟩ := ih (tree.up y) (by omega) (by omega) parentInner
      exact ⟨under.up, level, other⟩
    · rw [if_neg deeper]
      exact ⟨Under.refl tree y, by omega, inner⟩

theorem parent_getD {i : Nat} (inside : i < (tree.getNode node).parent.length) :
    (tree.getNode node).parent[i]?.getD 0 = tree.up^[2 ^ i] node := by
  rw [sound.length] at inside
  rw [sound.jump node i (by omega), Option.getD_some]

theorem meet_spec (fuel x y : Nat) (level : tree.depth x = tree.depth y)
    (xInner : x ≠ 0) (yInner : y ≠ 0) (enough : tree.depth x < fuel) :
    Under tree x (tree.meet fuel x y) ∧ Under tree y (tree.meet fuel x y) := by
  induction fuel generalizing x y with
  | zero => omega
  | succ fuel ih =>
    rw [meet]
    by_cases same : x = y
    · subst same
      rw [if_pos rfl]
      exact ⟨Under.refl tree x, Under.refl tree x⟩
    rw [if_neg same]
    split_ifs with siblings
    · exact ⟨(Under.refl tree _).up, siblings ▸ (Under.refl tree _).up⟩
    dsimp only
    have lengths : (tree.getNode x).parent.length = (tree.getNode y).parent.length := by
      rw [sound.length, sound.length, level]
    cases found : (List.range (tree.getNode x).parent.length).reverse.find? (fun i =>
        (tree.getNode x).parent[i]?.getD 0 ≠ (tree.getNode y).parent[i]?.getD 0) with
    | none =>
      -- The first parents differ, so the search finds a distance.
      exfalso
      have first := find?_eq_none.mp found 0 (by
        have length := sound.length x
        simp
        omega)
      simp only [decide_not, Bool.not_eq_true', decide_eq_false_iff_not,
        Decidable.not_not] at first
      exact siblings first
    | some i =>
      have differ := find?_some found
      have inside : i < (tree.getNode x).parent.length := by
        simpa using mem_of_find?_eq_some found
      simp only [decide_not, Bool.not_eq_eq_eq_not, Bool.not_true,
        decide_eq_false_iff_not] at differ
      dsimp only
      rw [sound.parent_getD inside, sound.parent_getD (lengths ▸ inside)] at differ ⊢
      -- Ancestors at one distance are both below the sentinel or both are it.
      have positive : 0 < 2 ^ i := Nat.two_pow_pos i
      have within : 2 ^ i ≤ tree.depth x := by
        by_contra beyond
        have zero : ∀ node ≠ 0, tree.depth node = tree.depth x -> tree.up^[2 ^ i] node = 0 := by
          intro node _ depth
          by_contra other
          have counted := sound.depth_iterate (2 ^ i) node other
          omega
        exact differ ((zero x xInner rfl).trans (zero y yInner level.symm).symm)
      have xUp := sound.iterate_ne_zero (2 ^ i) x xInner within
      have yUp := sound.iterate_ne_zero (2 ^ i) y yInner (level ▸ within)
      have xDepth := sound.depth_iterate (2 ^ i) x xUp
      have yDepth := sound.depth_iterate (2 ^ i) y yUp
      obtain ⟨underX, underY⟩ := ih _ _ (by omega) xUp yUp (by omega)
      exact ⟨Under.trans ⟨_, rfl⟩ underX, Under.trans ⟨_, rfl⟩ underY⟩

/-- The search ends in an ancestor of both nodes. -/
theorem findLca_above {nodeA nodeB : Nat} (innerA : nodeA ≠ 0) (innerB : nodeB ≠ 0) :
    Under tree nodeA (tree.findLca nodeA nodeB) ∧ Under tree nodeB (tree.findLca nodeA nodeB) := by
  have ordered : ∀ x y, x ≠ 0 -> y ≠ 0 -> tree.depth x ≤ tree.depth y ->
      Under tree x (tree.meet (tree.depth x + 1) x (tree.raise x (tree.depth y) y)) ∧
        Under tree y (tree.meet (tree.depth x + 1) x (tree.raise x (tree.depth y) y)) := by
    intro x y xInner yInner le
    obtain ⟨raised, level, inner⟩ := sound.raise_spec x (tree.depth y) y le (by omega) yInner
    obtain ⟨underX, underY⟩ :=
      sound.meet_spec (tree.depth x + 1) x _ level.symm xInner inner (by omega)
    exact ⟨underX, raised.trans underY⟩
  unfold findLca
  split_ifs with deeper
  · exact ordered nodeA nodeB innerA innerB (by omega)
  · obtain ⟨underB, underA⟩ := ordered nodeB nodeA innerB innerA (by omega)
    exact ⟨underA, underB⟩

/-- Nodes below different children or different grandchildren of the sentinel
have their lowest common ancestor at depth 0. -/
theorem depth_findLca (firstInner : first ≠ 0) (secondInner : second ≠ 0)
    (underLeft : Under tree first left) (underRight : Under tree second right)
    (leftInner : left ≠ 0) (rightInner : right ≠ 0) (different : left ≠ right)
    (level : tree.depth left = tree.depth right) (high : tree.depth left ≤ 1) :
    tree.depth (tree.findLca first second) = 0 := by
  obtain ⟨aboveFirst, aboveSecond⟩ := sound.findLca_above firstInner secondInner
  rcases sound.depth_common_ancestor underLeft underRight leftInner rightInner different level
      aboveFirst aboveSecond with zero | higher
  · rw [zero]
    exact sound.depth_top 0 sound.root
  · omega

end Sound

end LCATree

end Rk8s.Xline
