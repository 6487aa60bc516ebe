import Rk8s.Lib.Sessions
import Rk8s.Lib.Slots
import Rk8s.Lib.Transition
import Rk8s.Libnetwork.Ipam.Allocator

namespace Rk8s.Ipam

open Std ExtTreeMap Sessions Transition List Slots

/-!
# Processes that share a store

Every call of the plugin is a process of its own.  `get` and `release` take the
lock of the store, and drop it at once; one reservation and one release is all
that is done under the lock.  Two processes that look for an address for the same
container can therefore both find that it has none.
-/

inductive Call
  | get (owner : Owner)
  | request (owner : Owner) (ip : Nat)
  | release (owner : Owner)

def Call.owner : Call -> Owner
  | .get owner | .request owner _ | .release owner => owner

inductive Process
  | idle
  | started (call : Call)
  /-- The container was found to have no address of the set. -/
  | checked (owner : Owner)
  | searching (owner : Owner) (iter : Iter)

inductive Event
  | reserved (owner : Owner) (ip : Nat) (requested : Bool)
  | released (owner : Owner) (ips : List Nat)
  deriving DecidableEq

namespace Process

def owner : Process -> Option Owner
  | .idle => none
  | .started call => some call.owner
  | .checked owner | .searching owner _ => some owner

/-- The container for which an address is looked for, after the check. -/
def seeks : Process -> Option Owner
  | .checked owner | .searching owner _ => some owner
  | .idle | .started _ => none

/-- The container for which the check is made next. -/
def checks : Process -> Option Owner
  | .started (.get owner) => some owner
  | _ => none

/-- Reserve an address, and go on in another state if it is taken. -/
def reserve (store : Store) (owner : Owner) (ip : Nat) (requested : Bool) (taken : Process) :
    Process × Store × List Event :=
  match store.reserve owner ip with
  | none => (taken, store, [])
  | some store => (.idle, store, [.reserved owner ip requested])

/-- The next access to the store. -/
def run (ranges : RangeSet) (store : Store) : Process -> Process × Store × List Event
  | .idle => (.idle, store, [])
  | .started (.get owner) =>
    (if (store.getById owner).any ranges.containsIp then .idle else .checked owner, store, [])
  | .started (.request owner ip) =>
    match ranges.find? (·.contains ip) with
    | none => (.idle, store, [])
    | some range =>
      if range.gateway.all (· = ip) then (.idle, store, [])
      else reserve store owner ip true .idle
  | .started (.release owner) =>
    (.idle, store.releaseById owner, [.released owner (store.getById owner)])
  | .checked owner => (.searching owner (newIter ranges store.lastReservedIp), store, [])
  | .searching owner iter =>
    match iter.next with
    | .panicked | .finished => (.idle, store, [])
    | .gateway iter => (.searching owner iter, store, [])
    | .item ip iter => reserve store owner ip.address false (.searching owner iter)

/-- What one access can come to. -/
inductive Ran (ranges : RangeSet) (store : Store) (process : Process) :
    Process × Store × List Event -> Prop
  | ended : Ran ranges store process (.idle, store, [])
  | found {owner : Owner} (isCheck : process = .started (.get owner))
      (none : (store.getById owner).any ranges.containsIp = false) :
      Ran ranges store process (.checked owner, store, [])
  | continued {next : Process} (sameOwner : next.owner = process.owner)
      (sameSeeks : next.seeks = process.seeks) : Ran ranges store process (next, store, [])
  | reserved {owner : Owner} {ip : Nat} {requested : Bool} {after : Store}
      (isOwner : process.owner = some owner)
      (searched : requested = true ∨ process.seeks = some owner)
      (isReserve : store.reserve owner ip = some after) :
      Ran ranges store process (.idle, after, [.reserved owner ip requested])
  | released {owner : Owner} (isOwner : process.owner = some owner) :
      Ran ranges store process
        (.idle, store.releaseById owner, [.released owner (store.getById owner)])

theorem run_cases (ranges : RangeSet) (store : Store) (process : Process) :
    Ran ranges store process (process.run ranges store) := by
  cases process with
  | idle => exact .ended
  | started call =>
    cases call with
    | get owner =>
      cases checked : (store.getById owner).any ranges.containsIp with
      | true =>
        rw [run, checked]
        exact .ended
      | false =>
        rw [run, checked]
        exact .found rfl checked
    | request owner ip =>
      simp only [run]
      split
      · exact .ended
      split
      · exact .ended
      rw [reserve]
      split
      · exact .ended
      · next isReserve => exact .reserved rfl (.inl rfl) isReserve
    | release owner => exact .released rfl
  | checked owner => exact .continued rfl rfl
  | searching owner iter =>
    simp only [run]
    split
    · exact .ended
    · exact .ended
    · exact .continued rfl rfl
    rw [reserve]
    split
    · exact .continued rfl rfl
    · next isReserve => exact .reserved rfl (.inr rfl) isReserve

end Process

/-! ## The log -/

namespace Event

def reserves : Event -> Owner × Nat -> Bool
  | .reserved owner ip _, key => (owner, ip) = key
  | .released _ _, _ => false

def frees : Event -> Owner × Nat -> Bool
  | .reserved _ _ _, _ => false
  | .released _ ips, key => ips.contains key.2

/-- An address of the set was found without being asked for. -/
def obtains (ranges : RangeSet) : Event -> Owner -> Bool
  | .reserved owner ip requested, key => owner = key && !requested && ranges.containsIp ip
  | .released _ _, _ => false

def releases : Event -> Owner -> Bool
  | .reserved _ _ _, _ => false
  | .released owner _, key => owner = key

end Event

/-- No address has two holders, and a container that obtains an address again has
released in between. -/
structure Exclusive (ranges : RangeSet) (log : List Event) : Prop where
  holder : forall {ip owner other}, isOpen Event.reserves Event.frees log (owner, ip) = true ->
    isOpen Event.reserves Event.frees log (other, ip) = true -> owner = other
  once : Alternates (Event.obtains ranges) Event.releases log

/-! ## The store agrees with the log -/

variable {owner : Owner}

namespace Owner

/-- What is written for the container is read back as it is, and for no other. -/
def plain (owner : Owner) : Bool :=
  !(owner.id ++ owner.ifName).contains '\r' && trim owner.text = owner.text

variable {other : Owner}

theorem trim_text (plain : owner.plain = true) : trim owner.text = owner.text := by
  simp only [Owner.plain, Bool.and_eq_true, decide_eq_true_eq] at plain
  exact plain.2

theorem eq_of_text (plain : owner.plain = true) (same : owner.text = other.text) :
    owner = other := by
  simp only [Owner.plain, Bool.and_eq_true, Bool.not_eq_true', contains_eq_mem,
    decide_eq_false_iff_not, mem_append, not_or] at plain
  obtain ⟨⟨notInId, notInName⟩, -⟩ := plain
  simp only [text, append_assoc] at same
  obtain ⟨sameId, -, sameName⟩ :=
    (append_cons_inj_of_notMem notInId (by simpa using notInName)).mp same
  cases owner
  cases other
  simp_all

end Owner

namespace Store

variable {store after : Store} {ip : Nat}

theorem any_getById {accepts : Nat -> Bool} : (store.getById owner).any accepts = true ↔
    ∃ ip data, store.files[ip]? = some data ∧ trim data = owner.text ∧ accepts ip = true := by
  simp only [getById, any_eq_true, mem_filter, matching, Option.any_eq_true, decide_eq_true_eq]
  constructor
  · rintro ⟨ip, ⟨-, data, isData, matched⟩, accepted⟩
    exact ⟨ip, data, isData, matched, accepted⟩
  · rintro ⟨ip, data, isData, matched, accepted⟩
    refine ⟨ip, ⟨mem_keys.mpr ?_, data, isData, matched⟩, accepted⟩
    exact mem_iff_isSome_getElem?.mpr (by rw [isData]; rfl)

theorem of_reserve (isReserve : store.reserve owner ip = some after) :
    store.files.contains ip = false ∧ after.files = store.files.insert ip owner.text := by
  unfold reserve at isReserve
  split at isReserve
  · cases isReserve
  · next absent =>
    cases isReserve
    exact ⟨Bool.not_eq_true _ ▸ absent, rfl⟩

end Store

/-- Who holds an address by the log holds it in the store. -/
structure Ledger (ranges : RangeSet) (store : Store) (log : List Event) : Prop extends
    Exclusive ranges log where
  stored : forall {owner ip}, isOpen Event.reserves Event.frees log (owner, ip) = true ->
    store.files.contains ip = true
  known : forall {owner}, isOpen (Event.obtains ranges) Event.releases log owner = true ->
    owner.plain = true ∧ (store.getById owner).any ranges.containsIp = true

namespace Ledger

variable {ranges : RangeSet} {store after : Store} {log : List Event} {ip : Nat}

theorem reserve (ledger : Ledger ranges store log) (plain : owner.plain = true) {requested : Bool}
    (isReserve : store.reserve owner ip = some after)
    (closed : requested = true ∨ isOpen (Event.obtains ranges) Event.releases log owner = false) :
    Ledger ranges after (log ++ [.reserved owner ip requested]) := by
  obtain ⟨free, isAfter⟩ := Store.of_reserve isReserve
  have unheld (other : Owner) : isOpen Event.reserves Event.frees log (other, ip) = false := by
    cases held : isOpen Event.reserves Event.frees log (other, ip) with
    | false => rfl
    | true => cases (ledger.stored held).symm.trans free
  have held {key : Owner × Nat} : isOpen Event.reserves Event.frees
      (log ++ [.reserved owner ip requested]) key = true ->
        key = (owner, ip) ∨ isOpen Event.reserves Event.frees log key = true := by
    intro isHeld
    rw [isOpen_snoc] at isHeld
    split at isHeld
    · next same => exact .inl (of_decide_eq_true same).symm
    · exact .inr isHeld
  constructor
  · constructor
    · intro addr first second isFirst isSecond
      rcases held isFirst with same | isFirst
      · cases same
        rcases held isSecond with same | isSecond
        · cases same
          rfl
        · cases (unheld second).symm.trans isSecond
      · rcases held isSecond with same | isSecond
        · cases same
          cases (unheld first).symm.trans isFirst
        · exact ledger.holder isFirst isSecond
    · refine ledger.once.snoc fun key obtained => ?_
      simp only [Event.obtains, Bool.and_eq_true, decide_eq_true_eq] at obtained
      obtain ⟨⟨rfl, unasked⟩, -⟩ := obtained
      rcases closed with asked | closed
      · simp [asked] at unasked
      · exact closed
  · intro other addr isHeld
    rw [isAfter, ExtTreeMap.contains_insert]
    rcases held isHeld with same | isHeld
    · cases same
      simp
    · simp [ledger.stored isHeld]
  intro other isOpened
  have known : other.plain = true ∧ ((store.getById other).any ranges.containsIp = true ∨
      other = owner ∧ ranges.containsIp ip = true) := by
    rw [isOpen_snoc] at isOpened
    split at isOpened
    · next obtained =>
      simp only [Event.obtains, Bool.and_eq_true, decide_eq_true_eq] at obtained
      obtain ⟨⟨rfl, -⟩, inSet⟩ := obtained
      exact ⟨plain, .inr ⟨rfl, inSet⟩⟩
    · exact ⟨(ledger.known isOpened).1, .inl (ledger.known isOpened).2⟩
  refine ⟨known.1, Store.any_getById.mpr ?_⟩
  rcases known.2 with before | ⟨rfl, inSet⟩
  · obtain ⟨addr, data, isData, matched, inSet⟩ := Store.any_getById.mp before
    refine ⟨addr, data, ?_, matched, inSet⟩
    rw [isAfter, ExtTreeMap.getElem?_insert, if_neg, isData]
    rintro same
    cases LawfulEqCmp.eq_of_compare same
    rw [contains_eq_isSome_getElem?, isData] at free
    cases free
  · refine ⟨ip, other.text, ?_, Owner.trim_text known.1, inSet⟩
    rw [isAfter, getElem?_insert_self]

theorem release (ledger : Ledger ranges store log) :
    Ledger ranges (store.releaseById owner)
      (log ++ [.released owner (store.getById owner)]) := by
  have held {key : Owner × Nat} (isHeld : isOpen Event.reserves Event.frees
      (log ++ [.released owner (store.getById owner)]) key = true) :
      key.2 ∉ store.getById owner ∧ isOpen Event.reserves Event.frees log key = true := by
    rw [isOpen_snoc] at isHeld
    simpa [Event.reserves, Event.frees] using isHeld
  have remains {addr : Nat} {data : Text} (isData : store.files[addr]? = some data)
      (unmatched : trim data ≠ owner.text) : (store.releaseById owner).files[addr]? = some data := by
    rw [Store.releaseById, getElem?_filter', isData]
    simp [unmatched]
  constructor
  · constructor
    · intro addr first second isFirst isSecond
      exact ledger.holder (held isFirst).2 (held isSecond).2
    · refine ledger.once.snoc fun key obtained => ?_
      cases obtained
  · intro other addr isHeld
    obtain ⟨unreleased, before⟩ := held isHeld
    have stored := ledger.stored before
    rw [contains_eq_isSome_getElem?, Option.isSome_iff_exists] at stored
    obtain ⟨data, isData⟩ := stored
    rw [contains_eq_isSome_getElem?, remains isData, Option.isSome_some]
    intro matched
    have listed : (store.getById owner).any (· = addr) = true :=
      Store.any_getById.mpr ⟨addr, data, isData, matched, decide_eq_true rfl⟩
    exact unreleased (by simpa using listed)
  intro other isOpened
  rw [isOpen_snoc] at isOpened
  have different : ¬ owner = other ∧
      isOpen (Event.obtains ranges) Event.releases log other = true := by
    simpa [Event.obtains, Event.releases] using isOpened
  obtain ⟨plain, before⟩ := ledger.known different.2
  obtain ⟨addr, data, isData, matched, inSet⟩ := Store.any_getById.mp before
  refine ⟨plain, Store.any_getById.mpr ⟨addr, data, remains isData fun other => ?_, matched, inSet⟩⟩
  exact different.1 (Owner.eq_of_text plain (matched.symm.trans other)).symm

end Ledger

/-! ## Interleavings -/

structure Host where
  store : Store
  processes : List Process
  log : List Event := []

namespace Host

inductive Action
  /-- A process is called and takes the lock for a moment. -/
  | call (process : Nat) (call : Call)
  | run (process : Nat)
  /-- A call fails, because the lock is taken or a file cannot be used. -/
  | fail (process : Nat)

def step (ranges : RangeSet) (host : Host) : Action -> Option Host
  | .call index call =>
    match host.processes[index]? with
    | some .idle => some { host with processes := host.processes.set index (.started call) }
    | _ => none
  | .run index =>
    host.processes[index]?.map fun process =>
      let (next, store, events) := process.run ranges host.store
      { store, processes := host.processes.set index next, log := host.log ++ events }
  | .fail index => some { host with processes := host.processes.set index .idle }

/-- Names are plain, and the check for an address is made only while nobody else
looks for one for the same container. -/
def Apart (host : Host) : Action -> Prop
  | .call _ call => call.owner.plain = true
  | .run index => forall process, process ∈ host.processes ->
      process.seeks = none ∨ host.processes[index]?.bind Process.checks ≠ process.seeks
  | .fail _ => True

instance (host : Host) (action : Action) : Decidable (host.Apart action) := by
  unfold Apart
  split <;> infer_instance

structure Sound (ranges : RangeSet) (host : Host) : Prop where
  ledger : Ledger ranges host.store host.log
  plain : forall {index : Nat} {process : Process} {owner}, host.processes[index]? = some process ->
    process.owner = some owner -> owner.plain = true
  seeking : forall {index : Nat} {process : Process} {owner}, host.processes[index]? = some process ->
    process.seeks = some owner ->
    isOpen (Event.obtains ranges) Event.releases host.log owner = false
  single : forall {first second : Nat} {process other : Process} {owner},
    host.processes[first]? = some process -> host.processes[second]? = some other ->
    process.seeks = some owner -> other.seeks = some owner -> first = second

variable {ranges : RangeSet} {host after : Host} {index : Nat} {next : Process} {store : Store}
  {log : List Event}

section

variable (sound : host.Sound ranges)
include sound

section

variable (ledger : Ledger ranges store log)
  (plain : ∀ {owner}, next.owner = some owner -> owner.plain = true)
  (unopened : ∀ {other owner} {process : Process}, other ≠ index ->
    host.processes[other]? = some process -> process.seeks = some owner ->
    isOpen (Event.obtains ranges) Event.releases log owner = false)
include ledger plain unopened

/-- One process goes on, and the log grows by what others do not look for. -/
theorem Sound.replace
    (closed : ∀ {owner}, next.seeks = some owner ->
      isOpen (Event.obtains ranges) Event.releases log owner = false)
    (alone : ∀ {owner other} {process : Process}, next.seeks = some owner ->
      host.processes[other]? = some process -> process.seeks = some owner -> index = other) :
    Sound ranges { store, processes := host.processes.set index next, log } := by
  refine ⟨ledger, fun isProcess isOwner => ?_, fun isProcess seeks => ?_,
    fun isFirst isSecond seeks otherSeeks => ?_⟩
  · rcases getElem?_set_eq_some_iff.mp isProcess with ⟨-, -, rfl⟩ | ⟨-, before⟩
    · exact plain isOwner
    · exact sound.plain before isOwner
  · rcases getElem?_set_eq_some_iff.mp isProcess with ⟨-, -, rfl⟩ | ⟨different, before⟩
    · exact closed seeks
    · exact unopened different before seeks
  rcases getElem?_set_eq_some_iff.mp isFirst with ⟨rfl, -, rfl⟩ | ⟨-, before⟩
  · rcases getElem?_set_eq_some_iff.mp isSecond with ⟨same, -⟩ | ⟨-, otherBefore⟩
    · exact same.symm
    · exact alone seeks otherBefore otherSeeks
  · rcases getElem?_set_eq_some_iff.mp isSecond with ⟨rfl, -, rfl⟩ | ⟨-, otherBefore⟩
    · exact (alone otherSeeks before seeks).symm
    · exact sound.single before otherBefore seeks otherSeeks

/-- A process that looks for nothing does not matter to the others. -/
theorem Sound.rest (quiet : next.seeks = none) :
    Sound ranges { store, processes := host.processes.set index next, log } :=
  sound.replace ledger plain unopened (fun seeks => by cases quiet.symm.trans seeks)
    fun seeks _ _ => by cases quiet.symm.trans seeks

end

theorem Sound.run (apart : host.Apart (.run index))
    (taken : host.step ranges (.run index) = some after) : after.Sound ranges := by
  obtain ⟨process, isProcess, isAfter⟩ := Option.map_eq_some_iff.mp taken
  have idle {owner} : Process.idle.owner = some owner -> owner.plain = true := fun owned => by
    cases owned
  have ran := process.run_cases ranges host.store
  revert isAfter
  generalize process.run ranges host.store = result at ran
  rintro rfl
  cases ran with
  | ended =>
    simp only [append_nil]
    exact sound.rest sound.ledger idle (fun _ => sound.seeking) rfl
  | found isCheck none =>
    rename_i owner
    subst isCheck
    simp only [append_nil]
    refine sound.replace sound.ledger (fun owned => sound.plain isProcess (by exact owned))
      (fun _ => sound.seeking) (fun seeks => ?_) fun seeks isOther otherSeeks => ?_
    · cases seeks
      cases opened : isOpen (Event.obtains ranges) Event.releases host.log owner with
      | false => rfl
      | true => cases (sound.ledger.known opened).2.symm.trans none
    · cases seeks
      rcases apart _ (mem_of_getElem? isOther) with quiet | different
      · cases quiet.symm.trans otherSeeks
      · rw [isProcess, otherSeeks] at different
        exact absurd rfl different
  | continued sameOwner sameSeeks =>
    simp only [append_nil]
    refine sound.replace sound.ledger (sound.plain isProcess <| sameOwner ▸ ·)
      (fun _ => sound.seeking) (fun seeks => ?_) fun seeks isOther otherSeeks => ?_
    · exact sound.seeking isProcess (sameSeeks ▸ seeks)
    · exact sound.single isProcess isOther (sameSeeks ▸ seeks) otherSeeks
  | reserved isOwner searched isReserve =>
    have closed := searched.imp_right (sound.seeking isProcess)
    refine sound.rest (sound.ledger.reserve (sound.plain isProcess isOwner) isReserve closed) idle
      (fun different isOther otherSeeks => ?_) rfl
    rw [isOpen_snoc, sound.seeking isOther otherSeeks]
    split
    · next obtained =>
      simp only [Event.obtains, Bool.and_eq_true, decide_eq_true_eq] at obtained
      obtain ⟨⟨rfl, unasked⟩, -⟩ := obtained
      rcases searched with asked | seeks
      · simp [asked] at unasked
      · exact absurd (sound.single isOther isProcess otherSeeks seeks) different
    · exact ite_self _
  | released isOwner =>
    refine sound.rest sound.ledger.release idle (fun _ isOther otherSeeks => ?_) rfl
    rw [isOpen_snoc, sound.seeking isOther otherSeeks]
    exact ite_self _

theorem Sound.step {action : Action} (apart : host.Apart action)
    (taken : host.step ranges action = some after) : after.Sound ranges := by
  cases action with
  | call index call =>
    simp only [Host.step] at taken
    split at taken
    · cases taken
      refine sound.rest sound.ledger (fun owned => ?_) (fun _ => sound.seeking) rfl
      cases owned
      exact apart
    · cases taken
  | run index => exact sound.run apart taken
  | fail index =>
    cases taken
    exact sound.rest sound.ledger nofun (fun _ => sound.seeking) rfl

end

/-- Nothing has been called yet. -/
def start (store : Store) (processes : Nat) : Host :=
  { store, processes := List.replicate processes .idle }

theorem sound_start (store : Store) (processes : Nat) : (start store processes).Sound ranges := by
  have isIdle {index : Nat} {process : Process}
      (isProcess : (start store processes).processes[index]? = some process) :
      process = .idle := by
    exact eq_of_mem_replicate (mem_of_getElem? isProcess)
  refine ⟨⟨⟨fun held => ?_, alternates_nil⟩, fun held => ?_, fun opened => ?_⟩,
    fun isProcess owned => ?_, fun isProcess seeks => ?_, fun isProcess _ seeks => ?_⟩
  · cases held
  · cases held
  · cases opened
  · cases isIdle isProcess
    cases owned
  · cases isIdle isProcess
    cases seeks
  · cases isIdle isProcess
    cases seeks

/-- In every run that keeps searches for one container apart, no address has two
holders and no container obtains a second address. -/
theorem exclusive_of_apart {processes : Nat} {actions : List Action}
    (run : Run (step ranges) Apart (start store processes) actions host) :
    Exclusive ranges host.log :=
  (run.invariant (Sound ranges) (sound_start store processes)
    fun _ _ _ sound apart taken => sound.step apart taken).ledger.toExclusive

/-- From `10.0.0.10` to `10.0.0.12`. -/
def threeAddresses : IpRange :=
  { subnet := exampleNet, rangeStart := some 167772170, rangeEnd := some 167772172
    gateway := some 167772161 }

def container : Owner := { id := ['c'], ifName := ['e'] }

theorem exclusive_of_apart_in_turn : Exists fun actions => Exists fun host =>
    Run (step [threeAddresses]) Apart (start {} 2) actions host ∧
      host.log = [.reserved container 167772170 false, .released container [167772170],
        .reserved container 167772171 false] ∧ Exclusive [threeAddresses] host.log := by
  refine ⟨[.call 0 (.get container), .run 0, .run 0, .run 0, .call 1 (.get container), .run 1,
      .call 1 (.release container), .run 1, .call 0 (.get container), .run 0, .run 0, .run 0],
    exists_run_of (fun host => host.log = [.reserved container 167772170 false,
      .released container [167772170], .reserved container 167772171 false]) (by decide +kernel) ?_⟩
  exact fun _ run isLog => ⟨isLog, exclusive_of_apart run⟩

/-- Two processes make the check for the same container before either has reserved
an address, and both succeed. -/
theorem concurrent_gets_both_succeed : Exists fun actions => Exists fun host =>
    Run (step [threeAddresses]) anyStep (start {} 2) actions host ∧
      host.log = [.reserved container 167772170 false, .reserved container 167772171 false] ∧
      ¬ Exclusive [threeAddresses] host.log := by
  refine ⟨[.call 0 (.get container), .call 1 (.get container), .run 0, .run 1, .run 0, .run 0,
      .run 1, .run 1], exists_run_of (fun host => host.log =
        [.reserved container 167772170 false, .reserved container 167772171 false])
      (by decide +kernel) fun host run isLog => ⟨isLog, fun exclusive => ?_⟩⟩
  obtain ⟨event, isBetween, -⟩ :=
    exclusive.once container [] _ [] _ [] isLog (by decide) (by decide)
  cases isBetween

end Host

end Rk8s.Ipam
