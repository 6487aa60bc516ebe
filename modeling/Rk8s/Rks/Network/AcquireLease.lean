import Mathlib.Data.BitVec
import Mathlib.Dynamics.PeriodicPts.Defs
import Mathlib.Tactic.Ring
import Rk8s.Rks.Network.LeaseWatcher

namespace Rk8s.Rks.LocalManager

/-!
# Acquiring a subnet

`acquire_lease` goes on if an attempt fails with `TryAgain`.  A lost race is reported as
`SubnetAlreadyExists` and ends the loop: the test for it only knows a status code, and the
error that it would give is a text.
-/

inductive XlineRegistryError
  | tryAgain
  | subnetAlreadyExists
  | xlineAlreadyExists
  | other

/-- Only errors that were made from one of the registry can be told apart again. -/
inductive AnyError
  | registry (error : XlineRegistryError)
  | message (text : String)

structure NetworkConfig where
  enableIpv6 : Bool := false
  subnetMin : Option (BitVec 32)
  subnetMax : Option (BitVec 32)
  subnetLen : Nat
  ipv6SubnetMin : Option (BitVec 128) := none
  ipv6SubnetMax : Option (BitVec 128) := none
  ipv6SubnetLen : Nat := 0

abbrev Subnets := IpNetwork 32 × Option (IpNetwork 128)

/-- A lease without its expiry and its other attributes. -/
structure Held where
  publicIp : BitVec 32
  subnets : Subnets

/-- The manager, with the network and the address of the node. -/
structure Manager where
  config : NetworkConfig
  previousSubnet : Option (IpNetwork 32) := none
  previousSubnetIpv6 : Option (IpNetwork 128) := none
  publicIp : BitVec 32

/-- What an attempt meets: the leases that it reads, the numbers that it draws, and the keys
that exist when it creates one. -/
structure Attempt where
  leases : List Held
  drawn : Nat × Nat
  taken : Subnets -> Bool

def isSubnetConfigCompat (config : NetworkConfig) (sn : IpNetwork 32) : Bool :=
  match config.subnetMin, config.subnetMax with
  | some min, some max => min ≤ sn.ip ∧ sn.ip ≤ max ∧ sn.prefixLen = config.subnetLen
  | _, _ => false

def isIpv6SubnetConfigCompat (config : NetworkConfig) (sn6 : Option (IpNetwork 128)) : Bool :=
  if config.enableIpv6 then
    match sn6, config.ipv6SubnetMin, config.ipv6SubnetMax with
    | some sn6, some min, some max =>
      sn6.ip ≠ 0 ∧ min ≤ sn6.ip ∧ sn6.ip ≤ max ∧ sn6.prefixLen = config.ipv6SubnetLen
    | _, _, _ => false
  -- a prefix of length 0 leaves no bits of the network
  else sn6.all fun sn6 => sn6.prefixLen = 0

def isErrEtcdNodeExist : XlineRegistryError -> Bool
  | .xlineAlreadyExists => true
  | _ => false

def raceRetries : Nat := 10

/-! ## The search for free networks -/

section Search

variable {width : Nat} (leased : IpNetwork width -> Bool)

/-- The address wraps around. -/
def nextNetwork (net : IpNetwork width) : IpNetwork width :=
  { net with ip := net.ip + BitVec.twoPow width ((width - net.prefixLen) % width) }

/-- The loop collects up to a hundred networks that are not leased.  It has no result if it
is not over after so many rounds. -/
def search (last : BitVec width) :
    Nat -> IpNetwork width -> List (IpNetwork width) -> Option (List (IpNetwork width))
  | 0, _, _ => none
  | rounds + 1, current, available =>
    if current.ip ≤ last ∧ available.length < 100 then
      search last rounds (nextNetwork current)
        (if leased current then available else available ++ [current])
    else some available

/-- After `2 ^ width` rounds the search is back where it was, so it never ends if it has not
found a hundred networks after a hundred times as many. -/
def available (start last : Option (BitVec width)) (len : Nat) : Option (List (IpNetwork width)) :=
  match start, last with
  | some start, some last => search leased last (101 * 2 ^ width) ⟨start, len⟩ []
  | _, _ => some []

/-- One of the networks that are found. -/
def draw (start last : Option (BitVec width)) (len drawn : Nat) :
    Option (Option (IpNetwork width)) :=
  (available leased start last len).map fun found => found[drawn % found.length]?

/-- The search comes to a network that is not leased. -/
def Free (start last : Option (BitVec width)) (len : Nat) : Prop :=
  Exists fun first => Exists fun stop => start = some first ∧ last = some stop ∧
    Exists fun n => (forall i, i ≤ n -> (nextNetwork^[i] ⟨first, len⟩).ip ≤ stop) ∧
      leased (nextNetwork^[n] ⟨first, len⟩) = false

variable {leased} {last : BitVec width}

theorem iterate_nextNetwork (net : IpNetwork width) (n : Nat) : nextNetwork^[n] net =
    { net with ip := net.ip + n * BitVec.twoPow width ((width - net.prefixLen) % width) } := by
  induction n with
  | zero => simp
  | succ n ih =>
    rw [Function.iterate_succ_apply', ih, nextNetwork]
    push_cast
    ring_nf

theorem isPeriodicPt_nextNetwork (net : IpNetwork width) :
    Function.IsPeriodicPt nextNetwork (2 ^ width) net := by
  have wraps : ((2 ^ width : Nat) : BitVec width) = 0 := BitVec.eq_of_toNat_eq (Nat.mod_self _)
  rw [Function.IsPeriodicPt, Function.IsFixedPt, iterate_nextNetwork, wraps, zero_mul, add_zero]

variable {rounds distance : Nat} {current : IpNetwork width} {found : List (IpNetwork width)}

/-- A search that finds nothing only comes to leased networks. -/
theorem leased_of_search (nothing : search leased last rounds current found = some []) :
    found = [] ∧ ∀ n, (∀ i ≤ n, (nextNetwork^[i] current).ip ≤ last) ->
      leased (nextNetwork^[n] current) = true := by
  induction rounds generalizing current found with
  | zero => cases nothing
  | succ rounds ih =>
    rw [search] at nothing
    split_ifs at nothing with more held
    · obtain ⟨rfl, others⟩ := ih nothing
      refine ⟨rfl, fun n inside => ?_⟩
      cases n with
      | zero => exact held
      | succ n => exact others n fun i le => inside (i + 1) (Nat.succ_le_succ le)
    · cases (List.append_eq_nil_iff.mp (ih nothing).1).2
    · cases nothing
      exact ⟨rfl, fun n inside => absurd ⟨inside 0 n.zero_le, Nat.succ_pos 99⟩ more⟩

/-- A search that comes to a network that is not leased ends. -/
theorem exists_search (free : leased (nextNetwork^[distance] current) = false)
    (enough : (100 - found.length) * 2 ^ width + distance < rounds) :
    ∃ networks, search leased last rounds current found = some networks := by
  induction rounds generalizing distance current found with
  | zero => cases enough
  | succ rounds ih =>
    rw [search]
    split_ifs with more held
    · cases distance with
      | zero => cases held.symm.trans free
      | succ distance => exact ih free (by omega)
    · -- the network that was found now is the next one to be found again
      have positive := Nat.two_pow_pos width
      have again : nextNetwork^[2 ^ width - 1] (nextNetwork current) = current := by
        rw [← Function.iterate_succ_apply, Nat.succ_eq_add_one, Nat.sub_add_cancel positive]
        exact isPeriodicPt_nextNetwork current
      refine ih (again.symm ▸ Bool.eq_false_iff.mpr held) ?_
      have one : 100 - found.length = 100 - (found ++ [current]).length + 1 := by
        rw [List.length_append, List.length_singleton]
        omega
      rw [one, Nat.succ_mul] at enough
      omega
    · exact ⟨found, rfl⟩

theorem Free.draws {start last : Option (BitVec width)} {len : Nat}
    (free : Free leased start last len) (drawn : Nat) :
    ∃ net, draw leased start last len drawn = some (some net) := by
  obtain ⟨first, stop, rfl, rfl, n, inside, free⟩ := free
  have near := (isPeriodicPt_nextNetwork ⟨first, len⟩).iterate_mod_apply n
  have below := Nat.mod_lt n (Nat.two_pow_pos width)
  obtain ⟨networks, ends⟩ : ∃ networks, search leased stop (101 * 2 ^ width) ⟨first, len⟩ [] =
      some networks := exists_search (near.symm ▸ free) (by rw [List.length_nil]; omega)
  cases networks with
  | nil => cases ((leased_of_search ends).2 n inside).symm.trans free
  | cons net others =>
    have below : drawn % (net :: others).length < (net :: others).length :=
      Nat.mod_lt drawn others.length.succ_pos
    exact ⟨_, by rw [draw, available, ends, Option.map_some, List.getElem?_eq_getElem below]⟩

end Search

/-! ## Attempts -/

def Attempt.leasedIpv4 (attempt : Attempt) (net : IpNetwork 32) : Bool :=
  attempt.leases.any fun lease => lease.subnets.1 = net

def Attempt.leasedIpv6 (attempt : Attempt) (net : IpNetwork 128) : Bool :=
  attempt.leases.any fun lease => lease.subnets.2 = some net

section Source

variable (manager : Manager) (attempt : Attempt)

def compat (subnets : Subnets) : Bool :=
  isSubnetConfigCompat manager.config subnets.1 &&
    isIpv6SubnetConfigCompat manager.config subnets.2

def createSubnet (subnets : Subnets) : Except XlineRegistryError Unit :=
  if attempt.taken subnets then .error .subnetAlreadyExists else .ok ()

/-- Its errors are texts. -/
def allocateSubnet : Option (Except String Subnets) :=
  let config := manager.config
  if config.subnetMin = none then some (.error "Missing subnet_min")
  else if config.subnetMax = none then some (.error "Missing subnet_max")
  else do
    let ipv4 <- draw attempt.leasedIpv4 config.subnetMin config.subnetMax config.subnetLen
      attempt.drawn.1
    let ipv6 <- bif config.enableIpv6 then
        draw attempt.leasedIpv6 config.ipv6SubnetMin config.ipv6SubnetMax config.ipv6SubnetLen
          attempt.drawn.2
      else some none
    match ipv4, config.enableIpv6, ipv6 with
    | some subnet, false, _ => return .ok (subnet, none)
    | some subnet, true, some ipv6 => return .ok (subnet, some ipv6)
    | _, _, _ => return .error "out of subnets"

/-- The subnets that are not leased to the node yet. -/
def newSubnets : Option (Except String Subnets) :=
  match manager.previousSubnet with
  | some previous =>
    if (attempt.leases.all fun lease => lease.subnets.1 ≠ previous) ∧
        compat manager (previous, manager.previousSubnetIpv6) then
      some (.ok (previous, manager.previousSubnetIpv6))
    else allocateSubnet manager attempt
  | none => allocateSubnet manager attempt

/-- What an attempt does before it creates a subnet, with its lease if that is renewed. -/
def choose : Option (Except String (Held ⊕ Subnets)) :=
  match attempt.leases.find? fun lease => lease.publicIp = manager.publicIp with
  | some lease =>
    if compat manager lease.subnets then some (.ok (.inl lease))
    else (newSubnets manager attempt).map (Except.map .inr)
  | none => (newSubnets manager attempt).map (Except.map .inr)

def tryAcquireLease : Option (Except AnyError Held) :=
  (choose manager attempt).map fun
    | .error text => .error (.message text)
    | .ok (.inl lease) => .ok lease
    | .ok (.inr subnets) =>
      match createSubnet attempt subnets with
      | .ok _ => .ok ⟨manager.publicIp, subnets⟩
      | .error error =>
        .error (if isErrEtcdNodeExist error then .message "try again" else .registry error)

/-- The rest of the loop: the number of attempts in the end, and the result. -/
def retry (attempts : Nat -> Attempt) : Nat -> Nat -> Option (Nat × Except AnyError Held)
  | 0, started =>
    some (started, .error (.message "max retries reached trying to acquire a subnet"))
  | retries + 1, started =>
    match tryAcquireLease manager (attempts started) with
    | none => none
    | some (.ok lease) => some (started + 1, .ok lease)
    | some (.error (.registry .tryAgain)) => retry attempts retries (started + 1)
    | some (.error error) => some (started + 1, .error error)

def acquireLease (attempts : Nat -> Attempt) : Option (Nat × Except AnyError Held) :=
  retry manager attempts raceRetries 0

/-- `createSubnet` reports that the key exists. -/
def Lost : Prop :=
  Exists fun subnets =>
    choose manager attempt = some (.ok (.inr subnets)) ∧ attempt.taken subnets = true

/-- All networks of a range are leased. -/
def NoneLeft : Prop :=
  let config := manager.config
  config.subnetMin ≠ none ∧ config.subnetMax ≠ none ∧
    (¬Free attempt.leasedIpv4 config.subnetMin config.subnetMax config.subnetLen ∨
      config.enableIpv6 = true ∧ ¬Free attempt.leasedIpv6 config.ipv6SubnetMin
        config.ipv6SubnetMax config.ipv6SubnetLen)

/-- Lost races are retried, and only a lack of subnets is an error otherwise. -/
structure Retried (attempts : Nat -> Attempt) : Prop where
  again : forall n result, acquireLease manager attempts = some (n, result) ->
    forall i, i < n -> Lost manager (attempts i) -> i + 1 < n ∨ i + 1 = raceRetries
  fails : forall n error, acquireLease manager attempts = some (n, .error error) ->
    (Exists fun i => i < n ∧ NoneLeft manager (attempts i)) ∨
      forall i, i < raceRetries -> Lost manager (attempts i)
  succeeds : (forall i, ¬NoneLeft manager (attempts i)) ->
    (Exists fun i => i < raceRetries ∧ ¬Lost manager (attempts i)) ->
    Exists fun n => Exists fun lease => acquireLease manager attempts = some (n, .ok lease)

end Source

variable (manager : Manager) (attempts : Nat -> Attempt)

section

variable {manager} {attempt : Attempt} (start : manager.config.subnetMin ≠ none)
  (stop : manager.config.subnetMax ≠ none)
include start stop

/-- Where a network of each range is free, the searches end. -/
theorem allocateSubnet_of_left (left : ¬NoneLeft manager attempt) :
    ∃ subnets, allocateSubnet manager attempt = some (.ok subnets) := by
  obtain ⟨ipv4, ipv6⟩ := not_or.mp fun none => left ⟨start, stop, none⟩
  obtain ⟨net, found⟩ := (not_not.mp ipv4).draws attempt.drawn.1
  rw [allocateSubnet, if_neg start, if_neg stop, found]
  cases enabled : manager.config.enableIpv6 with
  | false => exact ⟨_, rfl⟩
  | true =>
    obtain ⟨net6, found6⟩ := (not_not.mp fun none => ipv6 ⟨enabled, none⟩).draws attempt.drawn.2
    rw [found6]
    exact ⟨_, rfl⟩

theorem text_of_allocateSubnet {text : String}
    (failed : allocateSubnet manager attempt = some (.error text)) : text = "out of subnets" := by
  rw [allocateSubnet, if_neg start, if_neg stop] at failed
  obtain ⟨ipv4, _, failed⟩ := Option.bind_eq_some_iff.mp failed
  obtain ⟨ipv6, _, failed⟩ := Option.bind_eq_some_iff.mp failed
  split at failed <;> cases failed
  rfl

end

theorem choose_cases (attempt : Attempt) : (∃ chosen, choose manager attempt = some (.ok chosen)) ∨
    choose manager attempt = (allocateSubnet manager attempt).map (Except.map .inr) := by
  unfold choose newSubnets
  repeat' split
  all_goals first | exact .inr rfl | exact .inl ⟨_, rfl⟩

/-- No attempt fails with `tryAgain`. -/
theorem acquireLease_eq : acquireLease manager attempts =
    (tryAcquireLease manager (attempts 0)).map fun result => (1, result) := by
  rw [acquireLease, raceRetries, retry]
  split
  · next never => rw [never]; rfl
  · next ok => rw [ok]; rfl
  · next failed =>
    obtain ⟨_ | _ | subnets, _, failed⟩ := Option.map_eq_some_iff.mp failed <;> try cases failed
    dsimp only [createSubnet] at failed
    split_ifs at failed
    cases failed
  · next failed => rw [failed]; rfl

theorem retried_iff : Retried manager attempts ↔ ¬Lost manager (attempts 0) ∧
    forall text, choose manager (attempts 0) = some (.error text) -> text = "out of subnets" := by
  constructor
  · rintro ⟨again, fails, _⟩
    rw [acquireLease_eq] at again fails
    have kept : ¬Lost manager (attempts 0) := by
      intro lost
      obtain ⟨subnets, chosen, taken⟩ := id lost
      have := again 1 _ (by rw [tryAcquireLease, chosen]; rfl) 0 Nat.one_pos lost
      simp [raceRetries] at this
    refine ⟨kept, fun text failed => ?_⟩
    rcases fails 1 (.message text) (by rw [tryAcquireLease, failed]; rfl) with
      ⟨_, _, start, stop, _⟩ | lost
    · rcases choose_cases manager (attempts 0) with ⟨_, ok⟩ | allocated
      · cases ok.symm.trans failed
      · obtain ⟨_ | _, failed, ⟨⟩⟩ := Option.map_eq_some_iff.mp (allocated.symm.trans failed)
        exact text_of_allocateSubnet start stop failed
    · exact absurd (lost 0 (by decide)) kept
  · rintro ⟨kept, texts⟩
    have holds {chosen} (ok : choose manager (attempts 0) = some (.ok chosen)) :
        ∃ lease, tryAcquireLease manager (attempts 0) = some (.ok lease) := by
      rw [tryAcquireLease, ok]
      rcases chosen with lease | subnets
      · exact ⟨lease, rfl⟩
      · have free : ¬(attempts 0).taken subnets = true := fun taken => kept ⟨subnets, ok, taken⟩
        simp [createSubnet, free]
    have outcome : (∃ lease, tryAcquireLease manager (attempts 0) = some (.ok lease)) ∨
        NoneLeft manager (attempts 0) := by
      rcases choose_cases manager (attempts 0) with ⟨_, ok⟩ | allocated
      · exact .inl (holds ok)
      by_cases start : manager.config.subnetMin = none
      · rw [allocateSubnet, if_pos start] at allocated
        exact absurd (texts _ allocated) (by decide)
      by_cases stop : manager.config.subnetMax = none
      · rw [allocateSubnet, if_neg start, if_pos stop] at allocated
        exact absurd (texts _ allocated) (by decide)
      refine (Classical.em _).symm.imp_left fun left => ?_
      obtain ⟨subnets, ok⟩ := allocateSubnet_of_left start stop left
      exact holds (allocated.trans (by rw [ok]; rfl))
    constructor <;> rw [acquireLease_eq]
    · intro n result ends i first lost
      obtain ⟨_, _, ⟨⟩⟩ := Option.map_eq_some_iff.mp ends
      cases Nat.lt_one_iff.mp first
      exact absurd lost kept
    · intro n error ends
      obtain ⟨_, failed, ⟨⟩⟩ := Option.map_eq_some_iff.mp ends
      rcases outcome with ⟨lease, ok⟩ | noneLeft
      · cases ok.symm.trans failed
      · exact .inl ⟨0, Nat.one_pos, noneLeft⟩
    · intro left _
      obtain ⟨lease, ok⟩ := outcome.resolve_right (left 0)
      exact ⟨1, lease, by rw [ok]; rfl⟩

/-- Another node takes the subnet before it is created. -/
theorem acquireLease_lost : Exists fun manager => Exists fun attempts : Nat -> Attempt =>
    (forall i, ¬NoneLeft manager (attempts i)) ∧ (forall i, ¬Lost manager (attempts (i + 1))) ∧
      acquireLease manager attempts = some (1, .error (.registry .subnetAlreadyExists)) := by
  refine ⟨⟨⟨false, some 0, some 0, 24, none, none, 0⟩, none, none, 0⟩,
    fun i => ⟨[], (0, 0), fun _ => i = 0⟩, ?_, ?_, rfl⟩
  · rintro i ⟨_, _, full | ⟨⟨⟩, _⟩⟩
    refine full ⟨0, 0, rfl, rfl, 0, fun i first => ?_, rfl⟩
    rw [Nat.le_zero.mp first]
    exact BitVec.le_refl _
  · rintro i ⟨_, _, ⟨⟩⟩

end Rk8s.Rks.LocalManager
