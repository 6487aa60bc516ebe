import Mathlib.Data.List.Sort
import Rk8s.Lib.BinarySearch
import Rk8s.Lib.Multimap
import Rk8s.Xline.Api.Request

namespace Rk8s.Xline.Storage

open Std BinarySearch Multimap

/-!
# The key index

The store keeps every version of a key in a table under its revision.  The
index maps each key to the revisions of its versions, oldest first.  A deletion
is a version of its own, a tombstone, recognised by a create revision and a
version of zero.

Commands do not change the index directly.  They work on an `IndexState`, which
collects the new revisions of the keys of a batch and adds them to the index
when the batch commits.  Compaction is the exception: it works on the index.

Revisions are `i64` in the program and integers here; nothing below comes near
the limits.
-/

/-- The revision of a change: the number of the command and the number of the
change within the command. -/
structure Revision where
  revision : Int
  subRevision : Int
  deriving DecidableEq

namespace Revision

instance : Ord Revision where
  compare := compareLex (compareOn Revision.revision) (compareOn Revision.subRevision)

instance : TransOrd Revision :=
  inferInstanceAs
    (TransCmp (compareLex (compareOn Revision.revision) (compareOn Revision.subRevision)))

instance : LawfulEqOrd Revision where
  eq_of_compare {first second} equal := by
    have parts := compareLex_eq_eq.mp equal
    cases first
    cases second
    have main := LawfulEqOrd.eq_of_compare parts.1
    have sub := LawfulEqOrd.eq_of_compare parts.2
    simp_all

end Revision

/-- One version of a key. -/
structure KeyRevision where
  createRevision : Int
  version : Int
  modRevision : Int
  subRevision : Int
deriving DecidableEq

namespace KeyRevision

def newDeletion (modRevision subRevision : Int) : KeyRevision :=
  { createRevision := 0, version := 0, modRevision, subRevision }

def isDeleted (rev : KeyRevision) : Bool :=
  rev.createRevision == 0 && rev.version == 0

def asRevision (rev : KeyRevision) : Revision :=
  { revision := rev.modRevision, subRevision := rev.subRevision }

end KeyRevision

/-- Keys to the revisions of their versions. -/
abbrev Index := ExtTreeMap Key (List KeyRevision)

/-- What the deletion of a key reports: its last revision, the revision of the
tombstone, and the key. -/
abbrev Deletion := (Revision × Revision) × Key

/-- Delete keys one after the other, the position in the list added to the sub
revision.  A key that is not live is counted and not deleted. -/
def deleteEach {σ : Type} (deleteOne : σ -> Key -> Int -> σ × Option Deletion) :
    σ -> List Key -> Int -> σ × List Deletion
  | state, [], _ => (state, [])
  | state, key :: keys, subRevision =>
    let (state, deleted) := deleteOne state key subRevision
    let (state, others) := deleteEach deleteOne state keys (subRevision + 1)
    (state, deleted.toList ++ others)

namespace Index

variable (index : Index)

/-- The entries of a range of keys, in key order. -/
def entries (key rangeEnd : Key) : List (Key × List KeyRevision) :=
  match RangeType.getRangeType key rangeEnd with
  | .oneKey => (index[key]?.map fun revs => (key, revs)).toList
  | .allKeys => index.toList
  | .range => index.toList.filter fun entry => (KeyRange.new key rangeEnd).containsKey entry.1

variable (revs : List KeyRevision)

/-- The revisions of the versions from `revision` on. -/
def filterRevision (revision : Int) : List Revision :=
  (revs.filter fun rev => revision ≤ rev.modRevision).map KeyRevision.asRevision

/-- The version that is current at `revision`, or the last one for a revision
that is not positive, unless it is a deletion. -/
def getRevision (revision : Int) : Option Revision :=
  let rev :=
    if revision ≤ 0 then revs.getLast?
    else
      match binarySearchBy (fun rev : KeyRevision => compare rev.modRevision revision) revs with
      | .ok index => revs[index]?
      | .error index => if index = 0 then none else revs[index - 1]?
  (rev.filter fun rev => !rev.isDeleted).map KeyRevision.asRevision

/-- All revisions that need to be kept after a compaction at `atRev`. -/
def keep (atRev : Int) : List Revision :=
  index.toList.filterMap fun entry =>
    match entry.2.head? with
    | none => none
    | some first =>
      if first.modRevision < atRev then
        let pivot := partitionPoint (fun rev => decide (rev.modRevision ≤ atRev)) entry.2
        (entry.2[pivot - 1]?.filter fun rev => !rev.isDeleted).map KeyRevision.asRevision
      else none

/-- Append a tombstone to the versions of a live key. -/
def genDelRevision (revision subRevision : Int) : Option (List KeyRevision × Revision × Revision) :=
  (getRevision revs 0).map fun lastAvailable =>
    let delRev := KeyRevision.newDeletion revision subRevision
    (revs ++ [delRev], lastAvailable, delRev.asRevision)

def get (key rangeEnd : Key) (revision : Int) : List Revision :=
  (entries index key rangeEnd).filterMap fun entry => getRevision entry.2 revision

/-- Whether the first revision comes no later than the second. -/
def revisionLe (first second : Revision) : Prop := (compare first second).isLE
deriving Decidable

/-- The revisions of a range of keys from one revision on, sorted where the
range may hold several keys. -/
def getFromRev (index : Index) (key rangeEnd : Key) (revision : Int) : List Revision :=
  let revs := (entries index key rangeEnd).flatMap fun entry => filterRevision entry.2 revision
  match RangeType.getRangeType key rangeEnd with
  | .oneKey => revs
  | .allKeys | .range => revs.insertionSort revisionLe

/-- The versions of one key that a compaction removes, and those it leaves. -/
def compactRevs (atRev : Int) (revs : List KeyRevision) : List KeyRevision × List KeyRevision :=
  match revs.head? with
  | none => ([], revs)
  | some first =>
    if first.modRevision < atRev then
      let pivot := partitionPoint (fun rev => decide (rev.modRevision ≤ atRev)) revs
      let compactedLastIdx := pivot - 1
      if (revs[compactedLastIdx]?.map KeyRevision.isDeleted).getD false then
        revs.splitAt (compactedLastIdx + 1)
      else
        revs.splitAt compactedLastIdx
    else
      ([], revs)

/-- Remove the versions up to `atRev`, apart from the largest one of each key.
If that one is a tombstone, it is removed too, and a key without versions goes.
The removed versions are returned. -/
def compact (index : Index) (atRev : Int) : Index × List KeyRevision :=
  (index.filterMap fun _ revs =>
      let left := (compactRevs atRev revs).2
      if left = [] ∧ revs ≠ [] then none else some left,
    index.toList.flatMap fun entry => (compactRevs atRev entry.2).1)

/-- The next version of a key, given its versions so far. -/
def nextRev (revision subRevision : Int) : KeyRevision :=
  match revs.getLast? with
  | none => { createRevision := revision, version := 1, modRevision := revision, subRevision }
  | some last =>
    if last.isDeleted then
      { createRevision := revision, version := 1, modRevision := revision, subRevision }
    else
      { createRevision := last.createRevision, version := last.version + 1
        modRevision := revision, subRevision }

/-- Register a new version of the key.  Returns it and the previous one. -/
def registerRevision (index : Index) (key : Key) (revision subRevision : Int) :
    Index × KeyRevision × Option KeyRevision :=
  let revs := index[key]?.getD []
  let newRev := nextRev revs revision subRevision
  (index.insert key (revs ++ [newRev]), newRev, revs.getLast?)

def deleteOne (index : Index) (revision : Int) (key : Key) (subRevision : Int) :
    Index × Option Deletion :=
  match index[key]?.bind fun revs => genDelRevision revs revision subRevision with
  | none => (index, none)
  | some (revs, pair) => (index.insert key revs, some (pair, key))

/-- Mark the live keys of a range as deleted. -/
def delete (key rangeEnd : Key) (revision subRevision : Int) : Index × List Deletion :=
  deleteEach (fun index key sub => deleteOne index revision key sub) index
    ((entries index key rangeEnd).map Prod.fst) subRevision

end Index

/-- An index with the changes of the current batch, which do not reach the index
before the batch commits. -/
structure IndexState where
  index : Index
  state : ExtTreeMap Key (List KeyRevision)

namespace IndexState

def new (index : Index) : IndexState := { index, state := ∅ }

variable (s : IndexState)

/-- Commit all changes. -/
def commit : Index :=
  s.state.toList.foldl (fun index entry => extend index entry.1 entry.2) s.index

def oneKeyRevisions (key : Key) : List KeyRevision :=
  s.index[key]?.getD [] ++ s.state[key]?.getD []

/-- The revisions of the keys that satisfy a predicate, those of the index and
those of the batch. -/
def keyRevisions (within : Key -> Bool) : ExtTreeMap Key (List KeyRevision) :=
  ((s.index.toList.filter fun entry => within entry.1) ++
      s.state.toList.filter fun entry => within entry.1).foldl
    (fun map entry => extend map entry.1 entry.2) ∅

def rangeKeyRevisions (range : KeyRange) : ExtTreeMap Key (List KeyRevision) :=
  s.keyRevisions range.containsKey

def allKeyRevisions : ExtTreeMap Key (List KeyRevision) :=
  s.keyRevisions fun _ => true

/-- The entries of a range of keys, in key order. -/
def entries (key rangeEnd : Key) : List (Key × List KeyRevision) :=
  match RangeType.getRangeType key rangeEnd with
  | .oneKey => [(key, s.oneKeyRevisions key)]
  | .allKeys => s.allKeyRevisions.toList
  | .range => (s.rangeKeyRevisions (KeyRange.new key rangeEnd)).toList

def get (key rangeEnd : Key) (revision : Int) : List Revision :=
  (s.entries key rangeEnd).filterMap fun entry => Index.getRevision entry.2 revision

/-- Register a new version of the key.  Returns it and the previous one, taken
from the batch if the batch has one and from the index otherwise. -/
def registerRevision (key : Key) (revision subRevision : Int) :
    IndexState × KeyRevision × Option KeyRevision :=
  match s.state[key]? with
  | some revs =>
    let newRev := Index.nextRev revs revision subRevision
    ({ s with state := s.state.insert key (revs ++ [newRev]) }, newRev, revs.getLast?)
  | none =>
    let revs := s.index[key]?.getD []
    let newRev := Index.nextRev revs revision subRevision
    ({ s with state := s.state.insert key [newRev] }, newRev, revs.getLast?)

/-- Append revisions to the batch. -/
def insert (keyRevisions : List (Key × KeyRevision)) : IndexState :=
  { s with
    state := keyRevisions.foldl (fun state entry => extend state entry.1 [entry.2]) s.state }

def deleteOne (revision : Int) (key : Key) (subRevision : Int) : IndexState × Option Deletion :=
  match Index.getRevision (s.oneKeyRevisions key) 0 with
  | none => (s, none)
  | some lastAvailable =>
    let delRev := KeyRevision.newDeletion revision subRevision
    ({ s with state := extend s.state key [delRev] },
      some ((lastAvailable, delRev.asRevision), key))

/-- Mark the live keys of a range as deleted. -/
def delete (key rangeEnd : Key) (revision subRevision : Int) : IndexState × List Deletion :=
  deleteEach (fun s key sub => deleteOne s revision key sub) s
    ((s.entries key rangeEnd).map Prod.fst) subRevision

end IndexState

end Rk8s.Xline.Storage
