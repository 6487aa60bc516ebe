import Rk8s.Xline.Api.LcaTree
import Rk8s.Xline.Api.Request

namespace Rk8s.Xline

open Std

/-!
# Validation of requests

A transaction is rejected if it puts a key twice, or puts a key in a range that
it deletes.  Only one branch of a nested transaction is executed, so puts in its
two branches may name the same key.

The check collects the puts and deletes of a branch together with a tree: each
operation is a node, and so is each branch of a nested transaction.  Whether a
put and a delete of a common key may both be executed is read off the depth of
their lowest common ancestor.
-/

inductive ValidationError
  | emptyKey
  | valueProvided
  | leaseProvided
  | invalidSortOption
  | tooManyOps
  | requestNotProvided
  | duplicateKey
  deriving DecidableEq

def defaultMaxTxnOps : Nat := 128

def RangeRequest.validation (req : RangeRequest) : Except ValidationError Unit :=
  if req.key = [] then .error .emptyKey
  else if (SortOrder.ofI32 req.sortOrder).isNone ∨ (SortTarget.ofI32 req.sortTarget).isNone then
    .error .invalidSortOption
  else .ok ()

def PutRequest.validation (req : PutRequest) : Except ValidationError Unit :=
  if req.key = [] then .error .emptyKey
  else if req.ignoreValue ∧ req.value ≠ [] then .error .valueProvided
  else if req.ignoreLease ∧ req.lease ≠ 0 then .error .leaseProvided
  else .ok ()

def DeleteRangeRequest.validation (req : DeleteRangeRequest) : Except ValidationError Unit :=
  if req.key = [] then .error .emptyKey else .ok ()

/-! ## Intervals of keys -/

/-- A key as the end of an interval, or no end. -/
inductive BytesAffine
  | bytes (bytes : Bytes)
  | unbounded

def BytesAffine.isLT : BytesAffine -> BytesAffine -> Bool
  | .bytes x, .bytes y => (compare x y).isLT
  | .bytes _, .unbounded => true
  | .unbounded, _ => false

/-- A half-open interval of keys. -/
structure Interval where
  low : BytesAffine
  high : BytesAffine

def Interval.overlap (first second : Interval) : Bool :=
  first.low.isLT second.high && second.low.isLT first.high

/-- The lookup in an interval map, given as the list of its entries.  An interval without
keys cannot be built in the source. -/
class IntervalMap where
  findAllOverlap : List (Interval × Nat) -> Interval -> List (Interval × Nat)
  mem_findAllOverlap : forall dels interval del,
    del ∈ findAllOverlap dels interval ↔ del ∈ dels ∧ interval.overlap del.1 = true

def newBytesAffineInterval (start keyEnd : Key) : Interval where
  low := .bytes start
  high :=
    if keyEnd = [] then .bytes (start ++ [0])
    else if keyEnd = [0] then .unbounded
    else .bytes keyEnd

/-! ## Collecting the operations of a branch -/

/-- The nodes of the puts of each key. -/
abbrev PutsMap := ExtTreeMap Key (List Nat)

/-- What has been collected: the nodes of the puts, the intervals and nodes of
the deletes, and the tree. -/
structure Collected where
  puts : PutsMap
  dels : List (Interval × Nat)
  tree : LCATree

/-- The puts of a success branch cannot overlap with those of other operations. -/
def mergeSuccess (puts successPuts : PutsMap) : Except ValidationError PutsMap :=
  successPuts.toList.foldlM
    (fun puts entry =>
      if puts.contains entry.1 then .error .duplicateKey else .ok (puts.insert entry.1 entry.2))
    puts

/-- The puts of a failure branch cannot either, but they can overlap with those
of the success branch. -/
def mergeFailure (puts successPuts failurePuts : PutsMap) : Except ValidationError PutsMap :=
  failurePuts.toList.foldlM
    (fun puts entry =>
      match puts[entry.1]? with
      | none => .ok (puts.insert entry.1 entry.2)
      | some nodes =>
        if successPuts.contains entry.1 then .ok (puts.insert entry.1 (nodes ++ entry.2))
        else .error .duplicateKey)
    puts

/-- The second loop over the operations of a branch collects its own puts. -/
def collectPuts : List RequestOp -> Nat -> Collected -> Except ValidationError Collected
  | [], _, c => .ok c
  | .requestPut req :: ops, parent, c =>
    if c.puts.contains req.key then .error .duplicateKey
    else
      let (tree, node) := c.tree.insertNode parent
      collectPuts ops parent { c with puts := c.puts.insert req.key [node], tree }
  | .missing :: ops, parent, c => collectPuts ops parent c
  | .requestRange _ :: ops, parent, c => collectPuts ops parent c
  | .requestDeleteRange _ :: ops, parent, c => collectPuts ops parent c
  | .requestTxn _ _ _ :: ops, parent, c => collectPuts ops parent c

variable (ops : List RequestOp)

/-- Collect a branch of a nested transaction below the node of the transaction.
An empty branch gets no node.  `collect` is the first loop over the branch. -/
def collectBranch (txnNode : Nat) (dels : List (Interval × Nat)) (tree : LCATree)
    (collect : Nat -> Collected -> Except ValidationError Collected) :
    Except ValidationError Collected :=
  if ops.isEmpty then .ok { puts := ∅, dels, tree }
  else
    let (tree, node) := tree.insertNode txnNode
    (collect node { puts := ∅, dels, tree }).bind fun c => collectPuts ops node c

mutual

/-- The body of the first loop: deletes and nested transactions. -/
def collectOp : RequestOp -> Nat -> Collected -> Except ValidationError Collected
  | .requestDeleteRange req, parent, c =>
    let (tree, node) := c.tree.insertNode parent
    .ok { c with dels := c.dels ++ [(newBytesAffineInterval req.key req.rangeEnd, node)], tree }
  | .requestTxn _ success failure, parent, c =>
    let (tree, node) := c.tree.insertNode parent
    (collectBranch success node c.dels tree fun node c => collectOps success node c).bind
      fun succeeded =>
        (collectBranch failure node succeeded.dels succeeded.tree
            fun node c => collectOps failure node c).bind
          fun failed =>
            (mergeSuccess c.puts succeeded.puts).bind fun puts =>
              (mergeFailure puts succeeded.puts failed.puts).bind fun puts =>
                .ok { failed with puts }
  | .missing, _, c => .ok c
  | .requestRange _, _, c => .ok c
  | .requestPut _, _, c => .ok c

/-- The first loop over the operations of a branch. -/
def collectOps : List RequestOp -> Nat -> Collected -> Except ValidationError Collected
  | [], _, c => .ok c
  | op :: ops, parent, c => (collectOp op parent c).bind fun c => collectOps ops parent c

end

def buildIntervalTree (parent : Nat) (dels : List (Interval × Nat))
    (tree : LCATree) : Except ValidationError Collected :=
  (collectOps ops parent { puts := ∅, dels, tree }).bind fun c => collectPuts ops parent c

/-- Whether some put and some delete of a common key have a lowest common
ancestor of even depth. -/
def clashes [IntervalMap] (c : Collected) : Bool :=
  c.puts.toList.any fun entry =>
    entry.2.any fun put =>
      (IntervalMap.findAllOverlap c.dels (newBytesAffineInterval entry.1 [])).any fun del =>
        c.tree.depth (c.tree.findLca put del.2) % 2 == 0

/-- Check if puts and deletes overlap. -/
def checkIntervals [IntervalMap] : Except ValidationError Unit :=
  (buildIntervalTree ops 0 [] LCATree.new).bind fun c =>
    if clashes c then .error .duplicateKey else .ok ()

/-! ## Transactions -/

def tooManyOps (compare : List Compare) (success failure : List RequestOp) : Bool :=
  defaultMaxTxnOps < max (max compare.length success.length) failure.length

mutual

def RequestOp.validation [IntervalMap] : RequestOp -> Except ValidationError Unit
  | .missing => .error .requestNotProvided
  | .requestRange req => req.validation
  | .requestPut req => req.validation
  | .requestDeleteRange req => req.validation
  | .requestTxn compare success failure =>
    if tooManyOps compare success failure then .error .tooManyOps
    else if compare.any fun cmp => cmp.key = [] then .error .emptyKey
    else
      (validations success).bind fun _ =>
        (validations failure).bind fun _ =>
          (checkIntervals success).bind fun _ => checkIntervals failure

def validations [IntervalMap] : List RequestOp -> Except ValidationError Unit
  | [] => .ok ()
  | op :: ops => op.validation.bind fun _ => validations ops

end

def TxnRequest.validation [IntervalMap] (req : TxnRequest) : Except ValidationError Unit :=
  (RequestOp.requestTxn req.compare req.success req.failure).validation

end Rk8s.Xline
