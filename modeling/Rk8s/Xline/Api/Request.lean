import Mathlib.Tactic.Ring

namespace Rk8s.Xline

open Std

/-!
# Requests of the key-value API

The messages that clients send to the store, with the fields that the store
reads.  Numbers are `i64` in the program and integers here.  Enumerations that
the program takes as they come are inductive types; where it checks that a
number names a member, the message holds the number.
-/

/-- Byte strings, compared lexicographically. -/
abbrev Bytes := List UInt8

abbrev Key := Bytes

/-- There is no key between a key and the key with a zero byte added. -/
theorem compare_snoc_zero (first second : Key) :
    (compare first (second ++ [0])).isLT = (compare first second).isLE := by
  induction first generalizing second with
  | nil => cases second <;> rfl
  | cons head first ih =>
    cases second with
    | nil =>
      cases order : compare head (0 : UInt8) with
      | lt => exact absurd (Std.compare_eq_lt.mp order) (by simp)
      | eq => cases first <;> simp [order]
      | gt => simp [order]
    | cons other second =>
      cases order : compare head other <;> simp_all [List.compare_cons_cons]

theorem zero_isLE {key : Key} (nonempty : key ≠ []) : (compare ([0] : Key) key).isLE = true := by
  cases key with
  | nil => exact absurd rfl nonempty
  | cons head key =>
    cases order : compare (0 : UInt8) head with
    | lt => simp [order]
    | eq => cases key <;> simp [order]
    | gt => exact absurd (Std.compare_eq_gt.mp order) (by simp)

/-- Range start and end to get all keys. -/
def unbounded : Key := [0]

/-- Range end to get one key. -/
def oneKey : Key := []

inductive RangeType
  | oneKey
  | allKeys
  | range

def RangeType.getRangeType (key rangeEnd : Key) : RangeType :=
  if rangeEnd = Xline.oneKey then .oneKey
  else if key = unbounded ∧ rangeEnd = unbounded then .allKeys
  else .range

/-- An end of a range of keys. -/
inductive Bound
  | included (key : Key)
  | excluded (key : Key)
  | unbounded

structure KeyRange where
  key : Bound
  rangeEnd : Bound

namespace KeyRange

def new (start stop : Key) : KeyRange where
  key := if start = Xline.unbounded then .unbounded else .included start
  rangeEnd :=
    if stop = Xline.unbounded then .unbounded
    else if stop = oneKey then .included start
    else .excluded stop

def containsKey (range : KeyRange) (key : Key) : Bool :=
  (match range.key with
    | .included start => (compare start key).isLE
    | .excluded start => (compare start key).isLT
    | .unbounded => true) &&
  (match range.rangeEnd with
    | .included stop => (compare key stop).isLE
    | .excluded stop => (compare key stop).isLT
    | .unbounded => true)

end KeyRange

/-- The keys that a pair of key and range end names. -/
def covers (key rangeEnd candidate : Key) : Bool :=
  match RangeType.getRangeType key rangeEnd with
  | .oneKey => key == candidate
  | .allKeys => true
  | .range => (KeyRange.new key rangeEnd).containsKey candidate

structure KeyValue where
  key : Key := []
  createRevision : Int := 0
  modRevision : Int := 0
  version : Int := 0
  value : Bytes := []
  lease : Int := 0

inductive SortOrder
  | none
  | ascend
  | descend
  deriving DecidableEq

def SortOrder.ofI32 : Int -> Option SortOrder
  | 0 => some .none
  | 1 => some .ascend
  | 2 => some .descend
  | _ => Option.none

inductive SortTarget
  | key
  | version
  | create
  | mod
  | value

def SortTarget.ofI32 : Int -> Option SortTarget
  | 0 => some .key
  | 1 => some .version
  | 2 => some .create
  | 3 => some .mod
  | 4 => some .value
  | _ => none

structure RangeRequest where
  key : Key
  rangeEnd : Key := []
  limit : Int := 0
  revision : Int := 0
  sortOrder : Int := 0
  sortTarget : Int := 0
  keysOnly : Bool := false
  countOnly : Bool := false
  minModRevision : Int := 0
  maxModRevision : Int := 0
  minCreateRevision : Int := 0
  maxCreateRevision : Int := 0

structure PutRequest where
  key : Key
  value : Bytes := []
  lease : Int := 0
  prevKv : Bool := false
  ignoreValue : Bool := false
  ignoreLease : Bool := false

structure DeleteRangeRequest where
  key : Key
  rangeEnd : Key := []
  prevKv : Bool := false

inductive CompareResult
  | equal
  | greater
  | less
  | notEqual
  deriving DecidableEq

inductive CompareTarget
  | version
  | create
  | mod
  | value
  | lease

inductive TargetUnion
  | version (value : Int)
  | createRevision (value : Int)
  | modRevision (value : Int)
  | value (value : Bytes)
  | lease (value : Int)

structure Compare where
  result : CompareResult := .equal
  target : CompareTarget := .version
  key : Key
  targetUnion : Option TargetUnion := none
  rangeEnd : Key := []

/-- An operation of a transaction.  The request of an operation may be missing
from the message. -/
inductive RequestOp
  | missing
  | requestRange (req : RangeRequest)
  | requestPut (req : PutRequest)
  | requestDeleteRange (req : DeleteRangeRequest)
  | requestTxn (compare : List Compare) (success failure : List RequestOp)

structure TxnRequest where
  compare : List Compare
  success : List RequestOp
  failure : List RequestOp

/-- Names of users and roles: strings, ordered by their bytes. -/
abbrev Name := Bytes

/-- Errors met when executing commands, those that the model raises. -/
inductive ExecuteError
  | keyNotFound
  | revisionTooLarge (required current : Int)
  | revisionCompacted (required compacted : Int)
  | leaseNotFound (lease : Int)
  | leaseExpired (lease : Int)
  | leaseTtlTooLarge (ttl : Int)
  | leaseAlreadyExists (lease : Int)
  | userNotFound (user : Name)
  | userAlreadyExists (user : Name)
  | userAlreadyHasRole (user role : Name)
  | roleNotFound (role : Name)
  | roleAlreadyExists (role : Name)
  | roleNotGranted (role : Name)
  | permissionNotGranted
  | permissionNotGiven
  | invalidAuthManagement
  | rootRoleNotExist
  | tokenNotProvided
  | tokenOldRevision (token current : Int)
  | permissionDenied
  | nospace
  /-- A database error with the text `Corrupt`. -/
  | corrupt
  deriving DecidableEq

end Rk8s.Xline
