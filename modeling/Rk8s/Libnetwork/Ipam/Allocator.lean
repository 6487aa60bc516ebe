import Rk8s.Lib.Collections

namespace Rk8s.Ipam

open Std

/-!
# The allocator of host-local addresses

IPv4 addresses are numbers below `2 ^ 32`.  The store of reservations is a
directory with one file for each reserved address, which holds the container and
the interface, and one file for the address that was reserved last.
-/

/-- An address with a mask. -/
structure Ipv4Network where
  ip : Nat
  maskLength : Nat
  ip_lt : ip < 2 ^ 32
  maskLength_le : maskLength ≤ 32

namespace Ipv4Network

variable (net : Ipv4Network)

/-- The number of addresses in the network. -/
def size : Nat := 2 ^ (32 - net.maskLength)

def network : Nat := net.ip / net.size * net.size

def contains (addr : Nat) : Bool := addr / net.size = net.ip / net.size

end Ipv4Network

/-- The broadcast address less one. -/
def lastIp (subnet : Ipv4Network) : Nat := subnet.network + (subnet.size - 1) - 1

def nextIp (ip : Nat) : Option Nat := if ip + 1 < 2 ^ 32 then some (ip + 1) else none

structure IpRange where
  rangeStart : Option Nat := none
  rangeEnd : Option Nat := none
  subnet : Ipv4Network
  gateway : Option Nat := none

inductive RangeError
  | networkTooSmall
  | hostBitsSet
  | rangeStartNotInNetwork
  | rangeEndNotInNetwork
  | emptyRangeSet
  | subnetsOverlap

namespace IpRange

def canonicalize (range : IpRange) : Except RangeError IpRange :=
  let first := nextIp range.subnet.ip
  if 31 ≤ range.subnet.maskLength then
    .error .networkTooSmall
  else if range.subnet.ip ≠ range.subnet.network then
    .error .hostBitsSet
  else if range.rangeStart.any fun start => !range.subnet.contains start then
    .error .rangeStartNotInNetwork
  else if range.rangeEnd.any fun last => !range.subnet.contains last then
    .error .rangeEndNotInNetwork
  else
    .ok
      { range with
        gateway := range.gateway.or first
        rangeStart := range.rangeStart.or first
        rangeEnd := range.rangeEnd.or (some (lastIp range.subnet)) }

def contains (range : IpRange) (addr : Nat) : Bool :=
  range.subnet.contains addr && range.rangeStart.all (· ≤ addr) && range.rangeEnd.all (addr ≤ ·)

def overlap (range other : IpRange) : Bool :=
  match range.rangeStart, range.rangeEnd, other.rangeStart, other.rangeEnd with
  | some start, some last, some otherStart, some otherLast =>
    start ≤ otherLast && otherStart ≤ last
  | _, _, _, _ => false

end IpRange

abbrev RangeSet := List IpRange

namespace RangeSet

def canonicalize (ranges : RangeSet) : Except RangeError RangeSet :=
  if ranges = [] then
    .error .emptyRangeSet
  else
    match ranges.mapM IpRange.canonicalize with
    | .error error => .error error
    | .ok ranges =>
      if ranges.Pairwise fun range other => range.overlap other = false then .ok ranges
      else .error .subnetsOverlap

def containsIp (ranges : RangeSet) (addr : Nat) : Bool := ranges.any (·.contains addr)

end RangeSet

/-! ## The store -/

abbrev Text := List Char

structure Owner where
  id : Text
  ifName : Text
  deriving DecidableEq

/-- What is written to the file of an address. -/
def Owner.text (owner : Owner) : Text := owner.id ++ ['\r', '\n'] ++ owner.ifName

/-- White space, as `str::trim` understands it. -/
def isWhite (c : Char) : Bool :=
  (9 ≤ c.toNat && c.toNat ≤ 13) || (8192 ≤ c.toNat && c.toNat ≤ 8202) ||
    [32, 133, 160, 5760, 8232, 8233, 8239, 8287, 12288].contains c.toNat

def trim (text : Text) : Text := ((text.dropWhile isWhite).reverse.dropWhile isWhite).reverse

/-- The files of a directory, for the one range set that is looked at. -/
structure Store where
  files : ExtTreeMap Nat Text := ∅
  lastReservedIp : Option Nat := none

namespace Store

variable (store : Store)

def matching (owner : Owner) (addr : Nat) : Bool :=
  store.files[addr]?.any fun data => trim data = owner.text

def getById (owner : Owner) : List Nat :=
  store.files.keys.filter (store.matching owner)

def reserve (owner : Owner) (ip : Nat) : Option Store :=
  if store.files.contains ip then none
  else some { files := store.files.insert ip owner.text, lastReservedIp := some ip }

def releaseById (owner : Owner) : Store :=
  { store with files := store.files.filter fun _ data => trim data ≠ owner.text }

end Store

/-! ## The search -/

/-- The reply: an address with the mask of its subnet, and the gateway. -/
structure Ip where
  address : Nat
  maskLength : Nat
  gateway : Nat

structure Iter where
  rangeSet : RangeSet
  rangeIndex : Nat := 0
  cur : Option Nat := none
  startIp : Option Nat := none

/-- What one pass through the body of `next` comes to.  At a gateway `next` calls
itself, which is the next pass. -/
inductive Visit
  | panicked
  | finished
  | gateway (iter : Iter)
  | item (ip : Ip) (iter : Iter)

namespace Iter

/-- The answer for the current address. -/
def answer (iter : Iter) (range : IpRange) : Visit :=
  if iter.cur = range.gateway then .gateway iter
  else
    match iter.cur, range.gateway with
    | some address, some gateway =>
      .item { address, maskLength := range.subnet.maskLength, gateway } iter
    | _, _ => .panicked

/-- One address further, after the end of a range to the start of the next one. -/
def advance (iter : Iter) (range : IpRange) (cur : Nat) : Option (Iter × IpRange) :=
  if range.rangeEnd = some cur then
    let rangeIndex := (iter.rangeIndex + 1) % iter.rangeSet.length
    iter.rangeSet[rangeIndex]?.map fun range =>
      ({ iter with rangeIndex, cur := range.rangeStart }, range)
  else
    some ({ iter with cur := nextIp cur }, range)

def next (iter : Iter) : Visit :=
  match iter.rangeSet[iter.rangeIndex]? with
  | none => .panicked
  | some range =>
    match iter.cur with
    | none =>
      answer { iter with cur := range.rangeStart, startIp := range.rangeStart } range
    | some cur =>
      match iter.advance range cur with
      | none => .panicked
      | some (iter, range) =>
        if iter.startIp = none then answer { iter with startIp := iter.cur } range
        else if iter.cur = iter.startIp then .finished
        else iter.answer range

end Iter

/-- Start after the address that was reserved last, if it is in the set. -/
def newIter (ranges : RangeSet) (lastReservedIp : Option Nat) : Iter :=
  match lastReservedIp with
  | some ip =>
    if ranges.containsIp ip then
      { rangeSet := ranges, rangeIndex := ranges.findIdx (·.contains ip), cur := some ip }
    else
      { rangeSet := ranges, startIp := ranges[0]?.bind IpRange.rangeStart }
  | none => { rangeSet := ranges, startIp := ranges[0]?.bind IpRange.rangeStart }

inductive Outcome
  | panicked
  /-- The container has an address of the set already. -/
  | duplicate
  | unavailable
  | allocated (ip : Ip) (store : Store)

/-- The loop of `get`, for as many passes as are given. -/
def search (store : Store) (owner : Owner) : Nat -> Iter -> Option Outcome
  | 0, _ => none
  | fuel + 1, iter =>
    match iter.next with
    | .panicked => some .panicked
    | .finished => some .unavailable
    | .gateway iter => search store owner fuel iter
    | .item ip iter =>
      match store.reserve owner ip.address with
      | none => search store owner fuel iter
      | some store => some (.allocated ip store)

/-- `get` without a requested address. -/
def get (ranges : RangeSet) (store : Store) (owner : Owner) (fuel : Nat) : Option Outcome :=
  if (store.getById owner).any ranges.containsIp then some .duplicate
  else search store owner fuel (newIter ranges store.lastReservedIp)

/-- The network `10.0.0.0/24`. -/
def exampleNet : Ipv4Network :=
  { ip := 167772160, maskLength := 24, ip_lt := by decide, maskLength_le := by decide }

end Rk8s.Ipam
