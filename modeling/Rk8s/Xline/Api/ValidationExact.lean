import Rk8s.Xline.Api.Collect

namespace Rk8s.Xline

open Std Fallible List RequestOp
open LCATree

/-!
# Which transactions validation accepts

The check of one branch is exact about the pairs of operations that it looks at:
those of two different operations of the branch, and those of the two branches
of a nested transaction.  The second kind is never executed together.  Pairs
inside one branch of a nested transaction are left to the validation of the
nested transaction.
-/

/-! ## The intervals of keys -/

/-- The interval of a key meets the interval of a delete exactly when the delete
covers the key. -/
theorem overlap_eq_covers {key start stop : Key} (nonempty : key ≠ []) :
    (newBytesAffineInterval key []).overlap (newBytesAffineInterval start stop) =
      covers start stop key := by
  by_cases one : stop = []
  · have same : ((compare key start).isLE && (compare start key).isLE) = (start == key) := by
      rw [Bool.eq_iff_iff]
      simp only [Bool.and_eq_true, beq_iff_eq]
      constructor
      · rintro ⟨lower, upper⟩
        exact LawfulEqOrd.eq_of_compare (OrientedCmp.isLE_antisymm upper lower)
      · rintro rfl
        simp
    simp only [newBytesAffineInterval, Interval.overlap, BytesAffine.isLT, covers,
      RangeType.getRangeType, oneKey, one, if_true, compare_snoc_zero, same]
  · have lowest := zero_isLE nonempty
    by_cases wide : stop = [0] <;> by_cases least : start = [0] <;>
      simp [newBytesAffineInterval, Interval.overlap, BytesAffine.isLT, covers,
        RangeType.getRangeType, KeyRange.new, KeyRange.containsKey, unbounded, oneKey,
        compare_snoc_zero, one, wide, least, lowest, Bool.and_comm]

/-! ## The check of one branch -/

section Quiet

variable {c : Collected} {node : Nat}

theorem clashes_eq_false_iff [IntervalMap] :
    clashes c = false ↔
      ∀ (key : Key) (nodes : List Nat), c.puts[key]? = some nodes ->
        ∀ put ∈ nodes, ∀ del ∈ c.dels,
          (newBytesAffineInterval key []).overlap del.1 = true ->
            c.tree.depth (c.tree.findLca put del.2) % 2 ≠ 0 := by
  simp only [clashes, any_eq_false, any_eq_true, IntervalMap.mem_findAllOverlap,
    Prod.forall, ExtTreeMap.mem_toList_iff_getElem?_eq_some, beq_iff_eq, not_exists, not_and]
  constructor
  · intro quiet key nodes found put isPut interval node isDel overlap
    exact quiet key nodes found put isPut interval node ⟨isDel, overlap⟩
  · intro quiet key nodes found put isPut interval node isDel
    exact quiet key nodes found put isPut interval node isDel.1 isDel.2

theorem LCATree.Under.ne_zero {tree : LCATree} (sound : Sound tree) {above : Nat}
    (under : Under tree node above) (inner : above ≠ 0) : node ≠ 0 := by
  obtain ⟨steps, reached⟩ := under
  rintro rfl
  exact inner (reached.symm.trans (sound.iterate_zero steps))

/-- The node is the sentinel or one of its children. -/
def Collected.High (c : Collected) (parent : Nat) : Prop := parent = 0 ∨ c.Child 0 parent

variable {parent : Nat} {first second : Leaf}

/-- The children of a high node have the same depth, at most one. -/
theorem Collected.High.depth_child (sound : Sound c.tree) (high : c.High parent)
    (child : c.Child parent node) :
    c.tree.depth node = if parent = 0 then 0 else 1 := by
  split_ifs with top
  · exact sound.depth_top node (child.up.trans top)
  · rw [sound.depth_up node (by rw [child.up]; exact top), child.up]
    rcases high with top' | high
    · exact absurd top' top
    · rw [sound.depth_top parent high.up]

/-- Changes below different children of a high node meet at depth zero. -/
theorem Collected.Apart.depth_findLca (sound : Sound c.tree)
    (apart : c.Apart parent first second) (high : c.High parent) :
    ∃ x y, c.Records first x ∧ c.Records second y ∧ c.tree.depth (c.tree.findLca x y) = 0 := by
  obtain ⟨left, right, different, leftChild, rightChild, firstPlaced, secondPlaced⟩ := apart
  obtain ⟨x, recordsX, _, underLeft⟩ := firstPlaced
  obtain ⟨y, recordsY, _, underRight⟩ := secondPlaced
  have leftDepth := high.depth_child sound leftChild
  have rightDepth := high.depth_child sound rightChild
  refine ⟨x, y, recordsX, recordsY, ?_⟩
  refine sound.depth_findLca (underLeft.ne_zero sound leftChild.inner)
    (underRight.ne_zero sound rightChild.inner) underLeft underRight leftChild.inner
    rightChild.inner different (leftDepth.trans rightDepth.symm) ?_
  rw [leftDepth]
  split <;> omega

/-- A quiet collection has no put and covering delete below different children
of a high node. -/
theorem Collected.Apart.separate [IntervalMap] (sound : Sound c.tree) (quiet : clashes c = false)
    (apart : c.Apart parent first second) (high : c.High parent)
    (nonemptyFirst : ∀ key, first = .put key -> key ≠ [])
    (nonemptySecond : ∀ key, second = .put key -> key ≠ []) :
    Leaf.Separate first second := by
  have sides : ∀ (key start stop : Key) , key ≠ [] ->
      c.Apart parent (.put key) (.delete start stop) -> covers start stop key = false := by
    intro key start stop nonempty apart
    obtain ⟨put, del, ⟨nodes, found, isPut⟩, isDel, meets⟩ := apart.depth_findLca sound high
    cases covered : covers start stop key with
    | false => rfl
    | true =>
      rw [← overlap_eq_covers nonempty] at covered
      have odd := clashes_eq_false_iff.mp quiet key nodes found put isPut _ isDel covered
      simp [meets] at odd
  cases first with
  | put key =>
    cases second with
    | put other => trivial
    | delete start stop => exact sides key start stop (nonemptyFirst key rfl) apart
  | delete start stop =>
    cases second with
    | put key => exact sides key start stop (nonemptySecond key rfl) apart.symm
    | delete _ _ => trivial

end Quiet

/-- No change puts the empty key. -/
def NonemptyPuts (leaves : List Leaf) : Prop := forall key, Leaf.put key ∈ leaves -> key ≠ []

/-- The branches of this nested transaction are separate. -/
def RequestOp.SidesSeparate : RequestOp -> Prop
  | .requestTxn _ success failure =>
    forall first, first ∈ leavesOf success -> forall second, second ∈ leavesOf failure ->
      Leaf.Separate first second
  | _ => True

variable {ops : List RequestOp}

theorem checkIntervals_sound [IntervalMap] (nonempty : NonemptyPuts (leavesOf ops))
    (ok : checkIntervals ops = .ok ()) :
    FreeOf Leaf.PutsDiffer ops ∧
      (ops.Pairwise fun earlier later => ∀ first ∈ earlier.leaves,
        ∀ second ∈ later.leaves, Leaf.Separate first second) ∧
      ∀ op ∈ ops, op.SidesSeparate := by
  obtain ⟨c, built, checked⟩ := bind_eq_ok.mp ok
  have quiet : clashes c = false := by
    cases clash : clashes c with
    | false => rfl
    | true => simp [clash] at checked
  have steps := (buildIntervalTree_outcome _).of_ok built
  have nonemptyIn : ∀ op ∈ ops, ∀ leaf ∈ op.leaves, ∀ key, leaf = .put key -> key ≠ [] := by
    rintro op member leaf isLeaf key rfl
    exact nonempty key (mem_leavesOf.mpr ⟨op, member, isLeaf⟩)
  refine ⟨steps.freeOf, ?_, ?_⟩
  · refine steps.apart.imp_of_mem ?_
    intro earlier later isEarlier isLater apart first isFirst second isSecond
    exact (apart first isFirst second isSecond).separate steps.sound quiet (.inl rfl)
      (nonemptyIn earlier isEarlier first isFirst) (nonemptyIn later isLater second isSecond)
  intro op member
  have apart := steps.branches op member
  cases op with
  | requestTxn compare success failure =>
    intro first isFirst second isSecond
    obtain ⟨node, child, apart⟩ := apart first isFirst second isSecond
    exact apart.separate steps.sound quiet (.inr child)
      (nonemptyIn _ member first (mem_append_left _ isFirst))
      (nonemptyIn _ member second (mem_append_right _ isSecond))
  | _ => trivial

theorem checkIntervals_complete [IntervalMap] (nonempty : NonemptyPuts (leavesOf ops))
    (free : FreeOf Leaf.PutsDiffer ops)
    (separate : ∀ first ∈ leavesOf ops, ∀ second ∈ leavesOf ops,
      Leaf.Separate first second) : checkIntervals ops = .ok () := by
  obtain ⟨c, built⟩ := (buildIntervalTree_outcome _).exists_ok free
  have steps := (buildIntervalTree_outcome _).of_ok built
  have quiet : clashes c = false := by
    refine clashes_eq_false_iff.mpr ?_
    intro key nodes found put isPut del isDel overlap
    have isKey : Leaf.put key ∈ leavesOf ops := by
      by_contra absent
      have none := (steps.keys key).mpr
        ⟨by simp, fun op member puts => absent (mem_leavesOf.mpr ⟨op, member, puts⟩)⟩
      simp [none] at found
    rcases steps.dels del isDel with old | ⟨op, isOp, start, stop, isDelete, interval⟩
    · simp at old
    · rw [interval, overlap_eq_covers (nonempty key isKey)] at overlap
      have apart := separate _ isKey _ (mem_leavesOf.mpr ⟨op, isOp, isDelete⟩)
      simp [Leaf.Separate, overlap] at apart
  refine bind_eq_ok.mpr ⟨c, built, ?_⟩
  simp [quiet]

/-! ## Transactions -/

/-- The range of the delete is one key, has no end, or ends after its start. -/
def DeleteRangeRequest.Ordered (req : DeleteRangeRequest) : Prop :=
  req.rangeEnd = oneKey ∨ req.rangeEnd = unbounded ∨ (compare req.key req.rangeEnd).isLT = true

mutual

/-- The operations are valid one by one, and no transaction is too large. -/
def RequestOp.Valid : RequestOp -> Prop
  | .missing => False
  | .requestRange req => req.validation = .ok ()
  | .requestPut req => req.validation = .ok ()
  | .requestDeleteRange req => req.validation = .ok () ∧ req.Ordered
  | .requestTxn compare success failure =>
    tooManyOps compare success failure = false ∧
      (forall cmp, cmp ∈ compare -> cmp.key ≠ []) ∧ ValidAll success ∧ ValidAll failure

def ValidAll : List RequestOp -> Prop
  | [] => True
  | op :: ops => op.Valid ∧ ValidAll ops

end

def TxnRequest.Valid (req : TxnRequest) : Prop :=
  (RequestOp.requestTxn req.compare req.success req.failure).Valid

mutual

theorem RequestOp.Valid.nonemptyPuts :
    (op : RequestOp) -> op.Valid -> NonemptyPuts op.leaves
  | .missing, _ | .requestRange _, _ | .requestDeleteRange _, _ => by
      simp [NonemptyPuts, leaves]
  | .requestPut req, valid => by
      intro key isPut
      simp only [leaves, mem_singleton, Leaf.put.injEq] at isPut
      intro empty
      simp [RequestOp.Valid, PutRequest.validation, ← isPut, empty] at valid
  | .requestTxn _ success failure, valid => by
      intro key isPut
      rcases mem_append.mp isPut with isPut | isPut
      · exact ValidAll.nonemptyPuts success valid.2.2.1 key isPut
      · exact ValidAll.nonemptyPuts failure valid.2.2.2 key isPut

theorem ValidAll.nonemptyPuts :
    (ops : List RequestOp) -> ValidAll ops -> NonemptyPuts (leavesOf ops)
  | [], _ => by simp [NonemptyPuts, leavesOf]
  | op :: ops, valid => by
      intro key isPut
      rcases mem_append.mp isPut with isPut | isPut
      · exact RequestOp.Valid.nonemptyPuts op valid.1 key isPut
      · exact ValidAll.nonemptyPuts ops valid.2 key isPut

end

/-- What validating the operation by itself ensures: it has no conflicts, and
the nested transactions strictly inside it have separate branches. -/
def RequestOp.Accepted : RequestOp -> Prop
  | .requestTxn _ success failure =>
    (FreeOf Leaf.Compatible success ∧ BranchesSeparateIn success) ∧
      FreeOf Leaf.Compatible failure ∧ BranchesSeparateIn failure
  | _ => True

variable {op : RequestOp}

theorem RequestOp.accepted_of_free (free : op.Free Leaf.Compatible)
    (apart : op.BranchesSeparate) : op.Accepted := by
  cases op with
  | requestTxn compare success failure => exact ⟨⟨free.1, apart.2.1⟩, free.2, apart.2.2⟩
  | _ => trivial

theorem RequestOp.Accepted.free (accepted : op.Accepted) : op.Free Leaf.Compatible := by
  cases op with
  | requestTxn compare success failure => exact ⟨accepted.1.1, accepted.2.1⟩
  | _ => trivial

theorem RequestOp.Accepted.branchesSeparate (accepted : op.Accepted)
    (sides : op.SidesSeparate) : op.BranchesSeparate := by
  cases op with
  | requestTxn compare success failure => exact ⟨sides, accepted.1.2, accepted.2.2⟩
  | _ => trivial

/-- One branch: its operations are accepted and the check succeeds. -/
theorem branch_accepted_iff [IntervalMap] (nonempty : NonemptyPuts (leavesOf ops)) :
    ((∀ op ∈ ops, op.Accepted) ∧ checkIntervals ops = .ok ()) ↔
      FreeOf Leaf.Compatible ops ∧ BranchesSeparateIn ops := by
  constructor
  · rintro ⟨accepted, ok⟩
    obtain ⟨differ, separate, sides⟩ := checkIntervals_sound nonempty ok
    refine ⟨freeOf_iff.mpr ⟨fun op member => (accepted op member).free, ?_⟩,
      branchesSeparateIn_iff.mpr fun op member =>
        (accepted op member).branchesSeparate (sides op member)⟩
    refine ((freeOf_iff.mp differ).2.and separate).imp ?_
    rintro earlier later ⟨differ, separate⟩ first isFirst second isSecond
    exact ⟨differ first isFirst second isSecond, separate first isFirst second isSecond⟩
  · rintro ⟨free, apart⟩
    refine ⟨fun op member => accepted_of_free ((freeOf_iff.mp free).1 op member)
      (branchesSeparateIn_iff.mp apart op member), ?_⟩
    exact checkIntervals_complete nonempty (FreeOf.mono (fun _ _ both => both.1) ops free)
      (separate_leavesOf ops free apart)

mutual

theorem RequestOp.validation_ok_iff [IntervalMap] :
    (op : RequestOp) -> op.Valid -> (op.validation = .ok () ↔ op.Accepted)
  | .missing, valid => valid.elim
  | .requestRange _, valid | .requestPut _, valid => ⟨fun _ => trivial, fun _ => valid⟩
  | .requestDeleteRange _, valid => ⟨fun _ => trivial, fun _ => valid.1⟩
  | .requestTxn compare success failure, valid => by
      obtain ⟨small, keys, inSuccess, inFailure⟩ := valid
      have named : (compare.any fun cmp => decide (cmp.key = [])) = false := by
        simpa using keys
      rw [validation, if_neg (by simp [small]), if_neg (by simp [named])]
      simp only [bind_eq_ok, validations_ok_iff success inSuccess,
        validations_ok_iff failure inFailure, RequestOp.Accepted,
        ← branch_accepted_iff (ValidAll.nonemptyPuts success inSuccess),
        ← branch_accepted_iff (ValidAll.nonemptyPuts failure inFailure)]
      tauto

theorem validations_ok_iff [IntervalMap] :
    (ops : List RequestOp) -> ValidAll ops -> (validations ops = .ok () ↔ ∀ op ∈ ops, op.Accepted)
  | [], _ => by simp [validations]
  | op :: ops, valid => by
      simp only [validations, bind_eq_ok, exists_const, mem_cons, forall_eq_or_imp,
        RequestOp.validation_ok_iff op valid.1, validations_ok_iff ops valid.2]

end

/-- Validation answers for conflicts exactly when a transaction without conflicts
also has, in each nested transaction, no put of a key in one branch and no
delete of the key in the other. -/
theorem TxnRequest.validation_exact_iff [IntervalMap] (req : TxnRequest) (valid : req.Valid) :
    (req.validation = .ok () ↔ ConflictFree req.success ∧ ConflictFree req.failure) ↔
      (ConflictFree req.success ∧ ConflictFree req.failure ->
        BranchesSeparateIn req.success ∧ BranchesSeparateIn req.failure) := by
  have exact : req.validation = .ok () ↔
      (FreeOf Leaf.Compatible req.success ∧ BranchesSeparateIn req.success) ∧
        FreeOf Leaf.Compatible req.failure ∧ BranchesSeparateIn req.failure :=
    validation_ok_iff (.requestTxn req.compare req.success req.failure) valid
  rw [ConflictFree, ConflictFree, outcomesOf_pairwise_iff, outcomesOf_pairwise_iff]
  tauto

/-- A nested transaction that puts one key in its success branch and deletes the
other in its failure branch. -/
def eitherPutOrDelete (put delete : Key) : TxnRequest where
  compare := []
  success := [.requestTxn [] [.requestPut { key := put }] [.requestDeleteRange { key := delete }]]
  failure := []

theorem eitherPutOrDelete_valid {put delete : Key} (putKey : put ≠ []) (deleteKey : delete ≠ []) :
    (eitherPutOrDelete put delete).Valid := by
  simp [eitherPutOrDelete, TxnRequest.Valid, RequestOp.Valid, ValidAll, tooManyOps,
    defaultMaxTxnOps, PutRequest.validation, DeleteRangeRequest.validation,
    DeleteRangeRequest.Ordered, oneKey, putKey, deleteKey]

/-- A map that compares all of its entries. -/
instance : IntervalMap where
  findAllOverlap dels interval := dels.filter fun del => interval.overlap del.1
  mem_findAllOverlap := fun _ _ _ => mem_filter

theorem TxnRequest.validation_exact_iff_other_key :
    (eitherPutOrDelete [1] [2]).Valid ∧
      ((eitherPutOrDelete [1] [2]).validation = .ok () ↔
        ConflictFree (eitherPutOrDelete [1] [2]).success ∧
          ConflictFree (eitherPutOrDelete [1] [2]).failure) := by
  have valid : (eitherPutOrDelete [1] [2]).Valid := eitherPutOrDelete_valid (by decide) (by decide)
  refine ⟨valid, (TxnRequest.validation_exact_iff _ valid).mpr fun _ => ?_⟩
  simp only [eitherPutOrDelete, BranchesSeparateIn, RequestOp.BranchesSeparate]
  decide

/-- Exactly one branch of the nested transaction is executed, so the key is
either put or deleted.  The transaction is rejected all the same: the common
ancestor of the two operations is the node of the nested transaction. -/
theorem TxnRequest.validation_rejects_exclusive_branches :
    (eitherPutOrDelete [1] [1]).Valid ∧
      ConflictFree (eitherPutOrDelete [1] [1]).success ∧
      ConflictFree (eitherPutOrDelete [1] [1]).failure ∧
      (eitherPutOrDelete [1] [1]).validation = .error .duplicateKey :=
  ⟨eitherPutOrDelete_valid (by decide) (by decide), by decide, by decide, by decide +kernel⟩

end Rk8s.Xline
