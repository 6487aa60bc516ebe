import Mathlib.Data.List.Range
import Rk8s.Lib.Fallible
import Rk8s.Libnetwork.Ipam.Allocator

namespace Rk8s.Ipam

open Ipv4Network Std List Iter RangeSet Nat

/-!
# The search for a free address

The addresses of the ranges form a cycle, and a search goes around it once.
This needs every range to start before it ends.  A range that does not is
accepted nevertheless; a search that enters it never meets its end.
-/

/-! ## Canonical range sets -/

variable {addr : Nat}

namespace Ipv4Network

variable {net : Ipv4Network}

theorem size_pos (net : Ipv4Network) : 0 < net.size := Nat.two_pow_pos _

theorem lt_of_contains (inside : net.contains addr = true) : addr < 2 ^ 32 := by
  have same : addr / net.size = net.ip / net.size := by simpa [contains] using inside
  have whole : 2 ^ 32 = 2 ^ net.maskLength * net.size := by
    rw [size, ← Nat.pow_add, Nat.add_sub_cancel' net.maskLength_le]
  have below := net.ip_lt
  rw [whole, ← div_lt_iff_lt_mul net.size_pos] at below ⊢
  rwa [same]

theorem contains_between {low high : Nat} (first : net.contains low = true)
    (last : net.contains high = true) (above : low ≤ addr) (below : addr ≤ high) :
    net.contains addr = true := by
  simp only [contains, decide_eq_true_eq] at first last ⊢
  have lower : low / net.size ≤ addr / net.size := Nat.div_le_div_right above
  have upper : addr / net.size ≤ high / net.size := Nat.div_le_div_right below
  omega

/-- A network that starts at its address contains what follows within its size. -/
theorem contains_add (start : net.ip = net.network) {offset : Nat} (within : offset < net.size) :
    net.contains (net.ip + offset) = true := by
  rw [contains, decide_eq_true_eq]
  nth_rewrite 1 [start]
  rw [network, mul_comm, mul_add_div net.size_pos, div_eq_of_lt within, add_zero]

end Ipv4Network

/-- All bounds are set, and lie in the subnet. -/
structure IpRange.Bounded (range : IpRange) (start last gateway : Nat) : Prop where
  rangeStart : range.rangeStart = some start
  rangeEnd : range.rangeEnd = some last
  isGateway : range.gateway = some gateway
  startInside : range.subnet.contains start = true
  lastInside : range.subnet.contains last = true

structure RangeSet.Canonical (ranges : RangeSet) : Prop where
  nonempty : ranges ≠ []
  bounded : forall range, range ∈ ranges -> Exists fun start => Exists fun last =>
    Exists fun gateway => range.Bounded start last gateway
  apart : ranges.Pairwise fun range other => range.overlap other = false

variable {range : IpRange}

theorem IpRange.bounded_of_canonicalize {given : IpRange}
    (accepted : given.canonicalize = .ok range) :
    ∃ start last gateway, range.Bounded start last gateway := by
  unfold canonicalize at accepted
  split at accepted
  · cases accepted
  next large =>
  split at accepted
  · cases accepted
  next aligned =>
  split at accepted
  · cases accepted
  next startInside =>
  split at accepted
  · cases accepted
  next lastInside =>
  cases accepted
  have isStart : given.subnet.ip = given.subnet.network := by simpa using aligned
  have wide : 2 ^ 2 ≤ given.subnet.size := Nat.pow_le_pow_right (by omega) (by omega)
  have first : given.subnet.contains (given.subnet.ip + 1) = true := contains_add isStart (by omega)
  have next : nextIp given.subnet.ip = some (given.subnet.ip + 1) := if_pos (lt_of_contains first)
  have final : given.subnet.contains (lastIp given.subnet) = true := by
    have inside := contains_add isStart
      (show given.subnet.size - 1 - 1 < given.subnet.size by omega)
    rwa [lastIp, ← isStart, Nat.add_sub_assoc (by omega)]
  rw [next]
  refine ⟨given.rangeStart.getD (given.subnet.ip + 1), given.rangeEnd.getD (lastIp given.subnet),
    given.gateway.getD (given.subnet.ip + 1), Option.or_some, Option.or_some, Option.or_some,
    ?_, ?_⟩
  · cases start : given.rangeStart <;> simp_all
  · cases last : given.rangeEnd <;> simp_all

variable {ranges : RangeSet} {iter : Iter} {place : Nat × Nat} {start index last gateway : Nat}

theorem RangeSet.canonical_of_canonicalize {given : RangeSet}
    (accepted : canonicalize given = .ok ranges) : RangeSet.Canonical ranges := by
  unfold canonicalize at accepted
  split at accepted
  · cases accepted
  next nonempty =>
  split at accepted
  · cases accepted
  next canonical mapped =>
  split at accepted
  · next apart =>
    cases accepted
    obtain ⟨sameLength, each⟩ := Fallible.of_mapM_eq_ok mapped
    refine ⟨?_, fun range member => ?_, apart⟩
    · rintro rfl
      exact nonempty (length_eq_zero_iff.mp sameLength.symm)
    · obtain ⟨source, isRange⟩ := each range member
      exact IpRange.bounded_of_canonicalize isRange
  · cases accepted

/-! ## Going around

A place is the number of a range with an address. -/

section Walk

variable {store : Store} {owner : Owner}

/-- The iterator at a place. -/
def Iter.on (ranges : RangeSet) (place : Nat × Nat) (startIp : Option Nat) : Iter :=
  { rangeSet := ranges, rangeIndex := place.1, cur := some place.2, startIp }

/-- The iterator goes on from the one place to the other. -/
def Leads (ranges : RangeSet) (place other : Nat × Nat) : Prop :=
  Exists fun range => Exists fun next => ranges[place.1]? = some range ∧
    ranges[other.1]? = some next ∧ forall startIp,
      (Iter.on ranges place startIp).advance range place.2 = some (Iter.on ranges other startIp, next)

/-- The address is neither the gateway of its range nor reserved. -/
def Free (ranges : RangeSet) (store : Store) (place : Nat × Nat) : Prop :=
  (forall range, ranges[place.1]? = some range -> range.gateway ≠ some place.2) ∧
    store.files.contains place.2 = false

/-- The address of the place is given out. -/
def Gives (ranges : RangeSet) (store : Store) (owner : Owner) (place : Nat × Nat)
    (outcome : Option Outcome) : Prop :=
  Exists fun range => Exists fun gateway => ranges[place.1]? = some range ∧
    range.gateway = some gateway ∧ outcome = some (.allocated
      { address := place.2, maskLength := range.subnet.maskLength, gateway }
      { files := store.files.insert place.2 owner.text, lastReservedIp := some place.2 })

variable (store owner) in
/-- A place that is reached is given out if it is free, and passed otherwise. -/
theorem search_of_answer (canonical : ranges.Canonical) (isRange : ranges[place.1]? = some range)
    (answered : iter.next = (on ranges place (some start)).answer range) (fuel : Nat) :
    (Free ranges store place ∧ Gives ranges store owner place (search store owner (fuel + 1) iter)) ∨
      (¬ Free ranges store place ∧ search store owner (fuel + 1) iter =
        search store owner fuel (on ranges place (some start))) := by
  obtain ⟨_, _, gateway, bounded⟩ := canonical.bounded range (mem_of_getElem? isRange)
  have isGateway := bounded.isGateway
  rw [search, answered, answer]
  split_ifs with atGateway
  · exact .inr ⟨fun free => free.1 range isRange atGateway.symm, rfl⟩
  rw [isGateway]
  dsimp only [on, Store.reserve]
  cases reserved : store.files.contains place.2 with
  | true => exact .inr ⟨fun free => by simp [free.2] at reserved, rfl⟩
  | false =>
    refine .inl ⟨⟨fun other isOther => ?_, reserved⟩, range, gateway, isRange, isGateway, rfl⟩
    cases isRange.symm.trans isOther
    exact Ne.symm atGateway

/-- Along places that lead to one another and back to the start, the first free
one is given out. -/
theorem search_walk (canonical : ranges.Canonical) {finish : Nat × Nat} (places : List (Nat × Nat))
    (chain : (place :: places ++ [finish]).IsChain (Leads ranges))
    (fresh : ∀ other ∈ places, other.2 ≠ finish.2) :
    let outcome := search store owner (places.length + 1) (Iter.on ranges place (some finish.2))
    (∃ other ∈ places, Free ranges store other ∧ Gives ranges store owner other outcome) ∨
      (∀ other ∈ places, ¬ Free ranges store other) ∧ outcome = some .unavailable := by
  induction places generalizing place with
  | nil =>
    obtain ⟨range, next, isRange, -, leads⟩ := isChain_pair.mp chain
    refine .inr ⟨by simp, ?_⟩
    simp only [search, Iter.next, Iter.on] at leads ⊢
    simp [isRange, leads]
  | cons first places ih =>
    obtain ⟨leads, chain⟩ := isChain_cons_cons.mp chain
    obtain ⟨range, next, isRange, isNext, leads⟩ := leads
    have answered : (Iter.on ranges place (some finish.2)).next =
        (Iter.on ranges first (some finish.2)).answer next := by
      simp only [Iter.next, Iter.on] at leads ⊢
      simp [isRange, leads, fresh first]
    rcases search_of_answer store owner canonical isNext answered (places.length + 1) with
      given | passed
    · exact .inl ⟨first, mem_cons_self, given⟩
    rw [length_cons, passed.2]
    rcases ih chain fun other member => fresh other (mem_cons_of_mem _ member) with
      ⟨other, member, given⟩ | ⟨none, ended⟩
    · exact .inl ⟨other, mem_cons_of_mem _ member, given⟩
    · exact .inr ⟨forall_mem_cons.mpr ⟨passed.1, none⟩, ended⟩

end Walk

/-! ## The cycle of places -/

def IpRange.ordered (range : IpRange) : Bool :=
  range.rangeStart.all fun start => range.rangeEnd.all (start ≤ ·)

namespace RangeSet

/-- The places of a range, in order. -/
def block (ranges : RangeSet) (index : Nat) : List (Nat × Nat) :=
  match ranges[index]?.bind IpRange.rangeStart, ranges[index]?.bind IpRange.rangeEnd with
  | some start, some last => (List.range' start (last + 1 - start)).map (index, ·)
  | _, _ => []

def places (ranges : RangeSet) : List (Nat × Nat) :=
  ((List.range ranges.length).map ranges.block).flatten

/-- A canonical set in which every range starts before it ends. -/
structure Forward (ranges : RangeSet) : Prop extends Canonical ranges where
  ordered : forall range, range ∈ ranges -> range.ordered = true

namespace Canonical

theorem contains_iff (bounded : range.Bounded start last gateway) :
    range.contains addr = true ↔ start ≤ addr ∧ addr ≤ last := by
  simp only [IpRange.contains, bounded.rangeStart, bounded.rangeEnd, Option.all_some,
    Bool.and_eq_true, decide_eq_true_eq, and_assoc, and_iff_right_iff_imp]
  exact fun between =>
    contains_between bounded.startInside bounded.lastInside between.1 between.2

theorem block_eq (isRange : ranges[index]? = some range)
    (bounded : range.Bounded start last gateway) :
    ranges.block index = (List.range' start (last + 1 - start)).map (index, ·) := by
  simp [block, isRange, bounded.rangeStart, bounded.rangeEnd]

theorem mem_places (canonical : ranges.Canonical) :
    place ∈ ranges.places ↔
      ∃ range, ranges[place.1]? = some range ∧ range.contains place.2 = true := by
  obtain ⟨index, addr⟩ := place
  simp only [places, mem_flatten, mem_map, mem_range, exists_exists_and_eq_and]
  constructor
  · rintro ⟨number, inside, member⟩
    have isRange := getElem?_eq_getElem inside
    obtain ⟨start, last, gateway, bounded⟩ := canonical.bounded _ (getElem_mem inside)
    rw [block_eq isRange bounded, mem_map] at member
    obtain ⟨found, between, same⟩ := member
    obtain ⟨rfl, rfl⟩ := Prod.mk.inj same
    rw [mem_range'_1] at between
    exact ⟨_, isRange, (contains_iff bounded).mpr (by omega)⟩
  rintro ⟨range, isRange, contained⟩
  obtain ⟨start, last, gateway, bounded⟩ := canonical.bounded _ (mem_of_getElem? isRange)
  have between := (contains_iff bounded).mp contained
  refine ⟨index, (List.getElem?_eq_some_iff.mp isRange).1, ?_⟩
  rw [block_eq isRange bounded, mem_map]
  exact ⟨addr, mem_range'_1.mpr (by omega), rfl⟩

/-- No address is in two ranges. -/
theorem index_unique (canonical : ranges.Canonical) {other : Nat} {next : IpRange}
    (isRange : ranges[index]? = some range) (isNext : ranges[other]? = some next)
    (inRange : range.contains addr = true) (inNext : next.contains addr = true) : index = other := by
  have overlaps : ∀ {first second : IpRange}, first ∈ ranges -> second ∈ ranges ->
      first.contains addr = true -> second.contains addr = true -> first.overlap second = true := by
    intro first second isFirst isSecond inFirst inSecond
    obtain ⟨start, last, _, bounded⟩ := canonical.bounded first isFirst
    obtain ⟨otherStart, otherLast, _, otherBounded⟩ := canonical.bounded second isSecond
    have between := (contains_iff bounded).mp inFirst
    have otherBetween := (contains_iff otherBounded).mp inSecond
    simp only [IpRange.overlap, bounded.rangeStart, bounded.rangeEnd, otherBounded.rangeStart,
      otherBounded.rangeEnd, Bool.and_eq_true, decide_eq_true_eq]
    omega
  obtain ⟨inside, isRange⟩ := List.getElem?_eq_some_iff.mp isRange
  obtain ⟨nextInside, isNext⟩ := List.getElem?_eq_some_iff.mp isNext
  have apart := pairwise_iff_getElem.mp canonical.apart
  subst isRange isNext
  rcases Nat.lt_trichotomy index other with before | same | after
  · have disjoint := apart index other inside nextInside before
    rw [overlaps (getElem_mem _) (getElem_mem _) inRange inNext] at disjoint
    cases disjoint
  · exact same
  · have disjoint := apart other index nextInside inside after
    rw [overlaps (getElem_mem _) (getElem_mem _) inNext inRange] at disjoint
    cases disjoint

end Canonical

theorem fst_of_mem_block (member : place ∈ ranges.block index) : place.1 = index := by
  unfold block at member
  split at member
  · obtain ⟨addr, -, rfl⟩ := mem_map.mp member
    rfl
  · cases member

theorem nodup_places (ranges : RangeSet) : ranges.places.Nodup := by
  refine pairwise_flatten.mpr ⟨?_, pairwise_map.mpr (pairwise_lt_range.imp ?_)⟩
  · intro block isBlock
    obtain ⟨index, -, rfl⟩ := mem_map.mp isBlock
    unfold block
    split
    · exact pairwise_map.mpr ((nodup_range' 1).imp fun different same =>
        different (Prod.mk.inj same).2)
    · exact List.Pairwise.nil
  · intro index other less place isPlace next isNext same
    rw [← fst_of_mem_block isPlace, ← fst_of_mem_block isNext, same] at less
    exact lt_irrefl _ less

namespace Forward

variable (forward : ranges.Forward)
include forward

section

variable (inside : index < ranges.length)
include inside

/-- The bounds of a range, in order. -/
theorem exists_bounds :
    ∃ range start, ∃ last gateway,
      ranges[index]? = some range ∧ range.Bounded start last gateway ∧ start ≤ last ∧
        last < 2 ^ 32 := by
  have member := getElem_mem inside
  obtain ⟨start, last, gateway, bounded⟩ := forward.bounded _ member
  have order := forward.ordered _ member
  simp only [IpRange.ordered, bounded.rangeStart, bounded.rangeEnd, Option.all_some,
    decide_eq_true_eq] at order
  exact ⟨_, start, last, gateway, getElem?_eq_getElem inside, bounded, order,
    lt_of_contains bounded.lastInside⟩

theorem block_chain :
    (ranges.block index).IsChain (Leads ranges) := by
  obtain ⟨range, start, last, gateway, isRange, bounded, -, small⟩ := forward.exists_bounds inside
  rw [Canonical.block_eq isRange bounded, isChain_iff_getElem]
  intro place within
  simp only [length_map, length_range', getElem_map, getElem_range', one_mul] at within ⊢
  refine ⟨range, range, isRange, isRange, fun startIp => ?_⟩
  have before : ¬ range.rangeEnd = some (start + place) := by
    rw [bounded.rangeEnd, Option.some.injEq]
    omega
  have next : nextIp (start + place) = some (start + (place + 1)) := if_pos (by omega)
  simp only [advance, on, before, next, if_false]

/-- After the last place of a range comes the first one of the next. -/
theorem block_link {next : Nat × Nat} (isLast : place ∈ (ranges.block index).getLast?)
    (isFirst : next ∈ (ranges.block ((index + 1) % ranges.length)).head?) :
    Leads ranges place next := by
  have nextInside : (index + 1) % ranges.length < ranges.length :=
    Nat.mod_lt _ (Nat.lt_of_le_of_lt (Nat.zero_le _) inside)
  obtain ⟨range, start, last, gateway, isRange, bounded, order, -⟩ := forward.exists_bounds inside
  obtain ⟨other, otherStart, otherLast, otherGateway, isOther, otherBounded, otherOrder, -⟩ :=
    forward.exists_bounds nextInside
  rw [Canonical.block_eq isRange bounded, getLast?_map, getLast?_range',
    if_neg (by omega)] at isLast
  rw [Canonical.block_eq isOther otherBounded, head?_map, head?_range',
    if_neg (by omega)] at isFirst
  obtain rfl := Option.some.inj isLast
  obtain rfl := Option.some.inj isFirst
  refine ⟨range, other, isRange, isOther, fun startIp => ?_⟩
  have atEnd : range.rangeEnd = some (start + (last + 1 - start) - 1) := by
    rw [bounded.rangeEnd]
    congr 1
    omega
  simp only [advance, on, atEnd, if_true, isOther, Option.map_some,
    otherBounded.rangeStart]

end

theorem places_chain : (ranges.places ++ ranges.places).IsChain (Leads ranges) := by
  have positive := length_pos_of_ne_nil forward.nonempty
  have nonempty : [] ∉ (List.range ranges.length).map ranges.block := by
    intro member
    obtain ⟨index, inside, empty⟩ := mem_map.mp member
    obtain ⟨range, start, last, gateway, isRange, bounded, order, -⟩ :=
      forward.exists_bounds (mem_range.mp inside)
    rw [Canonical.block_eq isRange bounded, map_eq_nil_iff, range'_eq_nil_iff] at empty
    omega
  have once : (List.range ranges.length).IsChain fun index next =>
      index < ranges.length ∧ next = (index + 1) % ranges.length := by
    rw [isChain_range]
    intro index inside
    rw [mod_eq_of_lt (by omega)]
    exact ⟨by omega, rfl⟩
  have twice : (List.range ranges.length ++ List.range ranges.length).IsChain fun index next =>
      index < ranges.length ∧ next = (index + 1) % ranges.length := by
    refine isChain_append.mpr ⟨once, once, fun index isLast next isFirst => ?_⟩
    rw [getLast?_range, if_neg (by omega)] at isLast
    rw [head?_range, if_neg (by omega)] at isFirst
    obtain rfl := Option.some.inj isLast
    obtain rfl := Option.some.inj isFirst
    rw [Nat.sub_add_cancel positive, Nat.mod_self]
    exact ⟨by omega, rfl⟩
  rw [places, ← flatten_append, ← map_append, isChain_flatten (by simpa using nonempty)]
  refine ⟨fun block isBlock => ?_, (isChain_map _).mpr (twice.imp ?_)⟩
  · obtain ⟨index, inside, rfl⟩ := mem_map.mp isBlock
    exact forward.block_chain (by simpa using inside)
  · rintro index _ ⟨inside, rfl⟩ place isLast next isFirst
    exact forward.block_link inside isLast isFirst

theorem exists_next (member : place ∈ ranges.places) :
    ∃ next ∈ ranges.places, Leads ranges place next := by
  obtain ⟨before, after, split⟩ := append_of_mem member
  have chain := forward.places_chain
  cases rest : after ++ (before ++ place :: after) with
  | nil => simp at rest
  | cons next others =>
    rw [split, append_assoc, cons_append, rest] at chain
    have isNext : next ∈ after ++ (before ++ place :: after) := by
      rw [rest]
      exact mem_cons_self
    refine ⟨next, ?_, (isChain_cons_cons.mp chain.right_of_append).1⟩
    rw [split]
    simp only [mem_append] at isNext ⊢
    tauto

/-- A search that starts at a place goes around all of them. -/
theorem search_around (store : Store) (owner : Owner) (member : place ∈ ranges.places)
    (isRange : ranges[place.1]? = some range)
    (answered : iter.next = (on ranges place (some place.2)).answer range) :
    ∃ fuel,
      (∃ other ∈ ranges.places, Free ranges store other ∧
          Gives ranges store owner other (search store owner fuel iter)) ∨
        (∀ other ∈ ranges.places, ¬ Free ranges store other) ∧
          search store owner fuel iter = some .unavailable := by
  obtain ⟨before, after, split⟩ := append_of_mem member
  have around : ∀ other, other ∈ ranges.places ↔ other = place ∨ other ∈ after ++ before := by
    intro other
    simp only [split, mem_append, mem_cons]
    tauto
  have chain : (place :: (after ++ before) ++ [place]).IsChain (Leads ranges) := by
    refine forward.places_chain.infix ⟨before, after, ?_⟩
    simp [split]
  have fresh : ∀ other ∈ after ++ before, other.2 ≠ place.2 := by
    intro other isOther same
    obtain ⟨otherRange, isOtherRange, inOther⟩ :=
      forward.mem_places.mp ((around other).mpr (.inr isOther))
    obtain ⟨found, isFound, inRange⟩ := forward.mem_places.mp member
    rw [same] at inOther
    have sameIndex := forward.index_unique isOtherRange isFound inOther inRange
    have nodup := ranges.nodup_places
    rw [split, nodup_middle, nodup_cons, ← Prod.ext sameIndex same] at nodup
    exact nodup.1 (mem_append.mpr (mem_append.mp isOther).symm)
  refine ⟨(after ++ before).length + 2, ?_⟩
  rcases search_of_answer store owner forward.toCanonical isRange answered _ with given | passed
  · exact .inl ⟨place, member, given⟩
  rw [passed.2]
  rcases search_walk forward.toCanonical (after ++ before) chain fresh with
    ⟨other, isOther, given⟩ | ⟨nothing, ended⟩
  · exact .inl ⟨other, (around other).mpr (.inr isOther), given⟩
  · refine .inr ⟨fun other isOther => ?_, ended⟩
    rcases (around other).mp isOther with rfl | isOther
    · exact passed.1
    · exact nothing other isOther

/-- Wherever the last reserved address lies, the search starts at a place. -/
theorem newIter_next (lastReservedIp : Option Nat) :
    ∃ place range, place ∈ ranges.places ∧
      ranges[place.1]? = some range ∧ (newIter ranges lastReservedIp).next =
        (Iter.on ranges place (some place.2)).answer range := by
  have positive := length_pos_of_ne_nil forward.nonempty
  have fromStart (startIp : Option Nat) : ∃ place range,
      place ∈ ranges.places ∧ ranges[place.1]? = some range ∧
        ({ rangeSet := ranges, startIp } : Iter).next =
          (Iter.on ranges place (some place.2)).answer range := by
    obtain ⟨range, start, last, gateway, isRange, bounded, order, -⟩ :=
      forward.exists_bounds positive
    refine ⟨(0, start), range, forward.mem_places.mpr ⟨range, isRange, ?_⟩, isRange, ?_⟩
    · exact (Canonical.contains_iff bounded).mpr ⟨le_rfl, order⟩
    · simp only [Iter.next, isRange, bounded.rangeStart, Iter.on]
  cases lastReservedIp with
  | none => exact fromStart _
  | some ip =>
    cases contained : ranges.containsIp ip with
    | false =>
      simp only [newIter, contained]
      exact fromStart _
    | true =>
      have found : ranges.findIdx (·.contains ip) < ranges.length :=
        findIdx_lt_length_of_exists (any_eq_true.mp contained)
      have isRange := getElem?_eq_getElem found
      have isLast : (ranges.findIdx (·.contains ip), ip) ∈ ranges.places :=
        forward.mem_places.mpr ⟨_, isRange, findIdx_getElem (w := found)⟩
      obtain ⟨place, isPlace, range, next, isFirst, isNext, leads⟩ := forward.exists_next isLast
      refine ⟨place, next, isPlace, isNext, ?_⟩
      simp only [Iter.on] at leads
      simp only [newIter, contained, if_true, Iter.next, Iter.on, isFirst, leads]

end Forward

end RangeSet

/-! ## Sound and complete allocation -/

/-- What a request without an address is to come to. -/
def Served (ranges : RangeSet) (store : Store) (owner : Owner) : Outcome -> Prop
  | .allocated ip after => Exists fun range => range ∈ ranges ∧ range.contains ip.address = true ∧
      range.gateway = some ip.gateway ∧ ip.address ≠ ip.gateway ∧
      ip.maskLength = range.subnet.maskLength ∧ store.files.contains ip.address = false ∧
      after.files = store.files.insert ip.address owner.text
  | .unavailable => forall range addr, range ∈ ranges -> range.contains addr = true ->
      range.gateway ≠ some addr -> store.files.contains addr = true
  | .panicked | .duplicate => False

/-- Every owner without an address of the set is served, after a finite search. -/
def AllocatesWell (ranges : RangeSet) : Prop :=
  forall store owner, (store.getById owner).any ranges.containsIp = false ->
    Exists fun fuel => Exists fun outcome =>
      get ranges store owner fuel = some outcome ∧ Served ranges store owner outcome

theorem RangeSet.Forward.allocatesWell (forward : ranges.Forward) : AllocatesWell ranges := by
  intro store owner hasNone
  obtain ⟨place, range, member, isRange, answered⟩ := forward.newIter_next store.lastReservedIp
  obtain ⟨fuel, found⟩ := forward.search_around store owner member isRange answered
  refine ⟨fuel, ?_⟩
  rw [get, hasNone]
  rcases found with ⟨other, isOther, free, found, gateway, isFound, isGateway, outcome⟩ |
    ⟨nothing, outcome⟩
  · obtain ⟨holder, isHolder, inside⟩ := forward.mem_places.mp isOther
    cases isHolder.symm.trans isFound
    refine ⟨_, outcome, found, mem_of_getElem? isFound, inside, isGateway, ?_, rfl, free.2, rfl⟩
    intro atGateway
    exact free.1 found isFound (isGateway.trans (congrArg some atGateway.symm))
  refine ⟨_, outcome, fun range addr isMember inside notGateway => ?_⟩
  obtain ⟨index, isRange⟩ := getElem?_of_mem isMember
  have taken := nothing (index, addr) (forward.mem_places.mpr ⟨range, isRange, inside⟩)
  cases reserved : store.files.contains addr with
  | true => rfl
  | false =>
    refine absurd ⟨fun other isOther => ?_, reserved⟩ taken
    cases isRange.symm.trans isOther
    exact notGateway

/-! ## A range that ends before it starts -/

/-- All addresses can be taken, by nobody in particular. -/
theorem exists_full (bound : Nat) : ∃ files : ExtTreeMap Nat Text,
    ∀ addr, files[addr]? = if addr < bound then some [] else none := by
  induction bound with
  | zero => exact ⟨∅, fun addr => by simp⟩
  | succ bound ih =>
    obtain ⟨files, full⟩ := ih
    refine ⟨files.insert bound [], fun addr => ?_⟩
    rw [ExtTreeMap.getElem?_insert, full]
    by_cases same : bound = addr
    · simp [same]
    · rw [if_neg (by simpa using same)]
      exact if_congr (by omega) rfl rfl

section Reversed

variable {store : Store} {owner : Owner} (canonical : ranges.Canonical)
  (isRange : ranges[index]? = some range)
include canonical isRange

variable (store owner) in
/-- Above the end of its range a search climbs until there is no next address. -/
theorem search_climbs (bounded : range.Bounded start last gateway) (reversed : last < start)
    (full : ∀ addr < 2 ^ 32, store.files.contains addr = true) (fuel : Nat)
    (above : start ≤ addr) :
    search store owner fuel (on ranges (index, addr) (some start)) = none ∨
      search store owner fuel (on ranges (index, addr) (some start)) = some .panicked := by
  induction fuel generalizing addr with
  | zero => exact .inl rfl
  | succ fuel ih =>
    have beyond : ¬ range.rangeEnd = some addr := by
      rw [bounded.rangeEnd, Option.some.injEq]
      omega
    by_cases within : addr + 1 < 2 ^ 32
    · have isNext : nextIp addr = some (addr + 1) := if_pos within
      have climbed : (on ranges (index, addr) (some start)).next =
          (on ranges (index, addr + 1) (some start)).answer range := by
        have notStart : ¬ addr + 1 = start := by omega
        simp [Iter.next, on, advance, isRange, beyond, isNext, notStart]
      rcases search_of_answer store owner canonical isRange climbed fuel with
        given | passed
      · cases given.1.2.symm.trans (full _ within)
      · rw [passed.2]
        exact ih (le_succ_of_le above)
    · have isNext : nextIp addr = none := if_neg within
      refine .inr ?_
      simp [search, Iter.next, on, advance, isRange, beyond, isNext, answer,
        bounded.isGateway]

variable (before : ∀ other < index, ∀ range, ranges[other]? = some range -> range.ordered = true)
include before

/-- The last reserved address can be such that the search enters the first range
that is the wrong way around. -/
theorem search_enters (bounded : range.Bounded start last gateway) :
    ∃ lastReservedIp, (newIter ranges lastReservedIp).next =
      (on ranges (index, start) (some start)).answer range := by
  cases index with
  | zero =>
    refine ⟨none, ?_⟩
    simp only [newIter, Iter.next, isRange, bounded.rangeStart, on]
  | succ index =>
    obtain ⟨inside, -⟩ := List.getElem?_eq_some_iff.mp isRange
    have within : index < ranges.length := lt_of_succ_lt inside
    have isPrevious := getElem?_eq_getElem within
    obtain ⟨first, end_, _, previous⟩ := canonical.bounded _ (getElem_mem within)
    have contained : ranges[index].contains end_ = true := by
      have order := before index (lt_add_one _) _ isPrevious
      simp only [IpRange.ordered, previous.rangeStart, previous.rangeEnd, Option.all_some,
        decide_eq_true_eq] at order
      exact (RangeSet.Canonical.contains_iff previous).mpr ⟨order, le_rfl⟩
    have isContained : ranges.containsIp end_ = true :=
      any_eq_true.mpr ⟨_, getElem_mem within, contained⟩
    have found : ranges.findIdx (·.contains end_) < ranges.length :=
      findIdx_lt_length_of_exists (any_eq_true.mp isContained)
    have isIndex : ranges.findIdx (·.contains end_) = index :=
      canonical.index_unique (getElem?_eq_getElem found) isPrevious
        (findIdx_getElem (w := found)) contained
    refine ⟨some end_, ?_⟩
    simp only [newIter, isContained, if_true, Iter.next, isIndex, isPrevious, advance,
      previous.rangeEnd, mod_eq_of_lt inside, isRange, Option.map_some, bounded.rangeStart,
      on]

theorem not_allocatesWell (reversed : range.ordered = false) : ¬ AllocatesWell ranges := by
  obtain ⟨start, last, gateway, bounded⟩ := canonical.bounded _ (mem_of_getElem? isRange)
  have lower : last < start := by
    simpa [IpRange.ordered, bounded.rangeStart, bounded.rangeEnd] using reversed
  obtain ⟨lastReservedIp, entered⟩ := search_enters canonical isRange before bounded
  obtain ⟨files, isFull⟩ := exists_full (2 ^ 32)
  have full : ∀ addr < 2 ^ 32, files.contains addr = true := by
    intro addr small
    rw [ExtTreeMap.contains_eq_isSome_getElem?, isFull, if_pos small]
    rfl
  have small := lt_of_contains bounded.startInside
  intro well
  obtain ⟨fuel, outcome, got, served⟩ :=
    well { files, lastReservedIp } { id := [], ifName := [] } (by
      rw [any_eq_false]
      intro addr isHeld
      have held := (mem_filter.mp isHeld).2
      simp only [Store.matching, isFull] at held
      split at held
      · cases held
      · cases held)
  unfold get at got
  split at got
  · cases got
    exact served
  cases fuel with
  | zero => cases got
  | succ fuel =>
    rcases search_of_answer { files, lastReservedIp } _ canonical isRange entered fuel with
      given | passed
    · cases given.1.2.symm.trans (full _ small)
    rcases search_climbs { files, lastReservedIp } _ canonical isRange bounded lower full fuel
      (Nat.le_refl start) with endless | panicked
    · cases (passed.2.symm.trans got).symm.trans endless
    · cases (passed.2.symm.trans got).symm.trans panicked
      exact served

end Reversed

/-- Allocation is sound and complete exactly for the sets whose ranges all start
before they end, which `canonicalize` does not check. -/
theorem allocatesWell_iff {given ranges : RangeSet}
    (accepted : RangeSet.canonicalize given = .ok ranges) :
    AllocatesWell ranges ↔ forall range, range ∈ ranges -> range.ordered = true := by
  have canonical := canonical_of_canonicalize accepted
  refine ⟨fun well => ?_, fun ordered => RangeSet.Forward.allocatesWell ⟨canonical, ordered⟩⟩
  -- Every range is in order once those before it are.
  have each : ∀ (index : Nat) (range : IpRange), ranges[index]? = some range ->
      range.ordered = true := by
    intro index
    induction index using Nat.strongRecOn with
    | ind index before =>
      intro range isRange
      cases order : range.ordered with
      | true => rfl
      | false => exact absurd well (not_allocatesWell canonical isRange before order)
  intro range member
  obtain ⟨index, isRange⟩ := getElem?_of_mem member
  exact each index range isRange

theorem allocatesWell_default : Exists fun ranges =>
    RangeSet.canonicalize [{ subnet := exampleNet }] = .ok ranges ∧ AllocatesWell ranges := by
  have accepted : canonicalize [{ subnet := exampleNet }] = .ok _ := rfl
  exact ⟨_, accepted, (allocatesWell_iff accepted).mpr (by decide)⟩

/-- A range from `10.0.0.20` to `10.0.0.10`. -/
def reversedRange : IpRange :=
  { subnet := exampleNet, rangeStart := some 167772180, rangeEnd := some 167772170 }

/-- The range is accepted, and `10.0.0.20` is given out from it, which it does not
contain. -/
theorem reversed_range_served : Exists fun ranges => Exists fun ip => Exists fun after =>
    RangeSet.canonicalize [reversedRange] = .ok ranges ∧
      get ranges {} { id := ['a'], ifName := ['b'] } 1 = some (.allocated ip after) ∧
      ranges.containsIp ip.address = false :=
  ⟨_, _, _, rfl, rfl, rfl⟩

end Rk8s.Ipam
