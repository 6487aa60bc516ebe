import Rk8s.Lib.LittleEndian
import Rk8s.Slayerfs.Meta.Etcd.Serializable

namespace Rk8s.Slayerfs.Etcd

open Option Transition Slots Function

/-!
# Ids from local pools

A client serves ids from a pool in memory.  When the pool is empty, a call
reserves the next batch with a transaction on the counter key, keeps the first
id for itself and installs the rest as the new pool.  Several calls of a client
may do so at once, and the last one to install its batch wins.

Uniqueness is a statement about who holds an id: a pool, a call that has not yet
installed its batch, or a call that has returned.  An id never has two holders,
and the counter is above everything that is held.
-/

def batchSize : Int := 1000

def firstAllocatedId : Int := 2

/-! ## Numbers in the store -/

def i64Max : Int := 2 ^ 63 - 1

def i64Min : Int := -2 ^ 63

def checkedAdd (left right : Int) : Option Int :=
  if i64Min ≤ left + right ∧ left + right ≤ i64Max then some (left + right) else none

/-- How the JSON library prints and reads an `i64`.  Every number is read back. -/
class Json where
  toVec : Int -> ByteArray
  fromSlice : ByteArray -> Except String Int
  roundTrip : forall number, i64Min ≤ number -> number ≤ i64Max ->
    fromSlice (toVec number) = .ok number

variable [Json]

universe u

/-- `tx.get_typed_json::<i64>(key).await?` -/
def Task.getTypedJson {R : Type u} (key : String) (rest : Option Int -> Task R) : Task R :=
  .get key fun raw =>
    match raw with
    | none => rest none
    | some raw =>
      match Json.fromSlice raw with
      | .ok number => rest (some number)
      | .error cause => .done (.error (.internal s!"Failed to parse {key}: {cause}"))

/-- `tx.set_typed_json(key, &number)?` -/
def Task.setTypedJson {R : Type u} (key : String) (number : Int) (rest : Task R) : Task R :=
  .set key (Json.toVec number) none rest

/-! ## Pools -/

structure IdPoolInner where
  next : Int
  stop : Int

/-- The pools of a client, one for each counter key.  A key without a pool has the
empty one. -/
abbrev IdPool := String -> IdPoolInner

namespace IdPool

def empty : IdPool := fun _ => ⟨0, 0⟩

def tryAlloc (pools : IdPool) (counterKey : String) : Option (Int × IdPool) :=
  let pool := pools counterKey
  if pool.next < pool.stop then
    some (pool.next, Function.update pools counterKey { pool with next := pool.next + 1 })
  else
    none

def update (pools : IdPool) (counterKey : String) (next stop : Int) : IdPool :=
  Function.update pools counterKey ⟨next, stop⟩

end IdPool

/-- A reserved batch: the id of the call itself and what goes into the pool. -/
structure Batch where
  allocatedId : Int
  nextStart : Int
  poolEnd : Int

/-- The closure that reserves the next batch. -/
def reserveBatch (counterKey : String) : Task Batch :=
  .getTypedJson counterKey fun current =>
    let currentId := current.getD firstAllocatedId
    match checkedAdd currentId batchSize with
    | none => .done (.error (.internal "ID counter overflow"))
    | some nextEtcdId =>
      .setTypedJson counterKey nextEtcdId (.done (.ok ⟨currentId, currentId + 1, nextEtcdId⟩))

def reserveTxn (counterKey : String) : EtcdTxn Batch := ⟨reserveBatch counterKey, 10⟩

/-! ## Calls of `generate_id` -/

inductive GeneratePc where
  | allocating
  | reserving (phase : Phase Batch)
  | updating (batch : Batch)
  | returned (id : Int)
  | failed (error : MetaError)

structure GenerateCall where
  client : Nat
  counterKey : String
  pc : GeneratePc

/-- All clients over one store. -/
structure Clients where
  store : Store
  pools : Nat -> IdPool
  calls : List GenerateCall

inductive GenerateAction where
  | call (client : Nat) (counterKey : String)
  | advance (call : Nat)
  | disconnect (call : Nat) (cause : String)

/-- Where a call goes on after a step of its transaction. -/
def GeneratePc.ofPhase : Phase Batch -> GeneratePc
  | .returned _ batch => updating batch
  | .failed error => failed error
  | phase => reserving phase

namespace Clients

def initial (store : Store) : Clients := ⟨store, fun _ => .empty, []⟩

variable (state : Clients)

def setPools (client : Nat) (pools : IdPool) : Clients :=
  { state with pools := Function.update state.pools client pools }

def moveTo (index : Nat) (call : GenerateCall) (pc : GeneratePc) : Clients :=
  { state with calls := state.calls.set index { call with pc := pc } }

def advance (state : Clients) (index : Nat) (call : GenerateCall) : Option Clients :=
  match call.pc with
  | .allocating =>
    match (state.pools call.client).tryAlloc call.counterKey with
    | some (id, pools) => some ((state.setPools call.client pools).moveTo index call (.returned id))
    | none => some (state.moveTo index call (.reserving (.attempt 0)))
  | .reserving phase =>
    ((reserveTxn call.counterKey).advance state.store phase).map fun next =>
      { state.moveTo index call (.ofPhase next.2) with store := next.1 }
  | .updating batch =>
    let pools := (state.pools call.client).update call.counterKey batch.nextStart batch.poolEnd
    some ((state.setPools call.client pools).moveTo index call (.returned batch.allocatedId))
  | .returned _ => none
  | .failed _ => none

def disconnect (state : Clients) (index : Nat) (call : GenerateCall) (cause : String) :
    Option Clients :=
  match call.pc with
  | .reserving phase =>
    (EtcdTxn.disconnect cause phase).map fun next =>
      state.moveTo index call (.ofPhase next)
  | _ => none

def step : GenerateAction -> Option Clients
  | .call client counterKey =>
    some { state with calls := state.calls ++ [⟨client, counterKey, .allocating⟩] }
  | .advance index => state.calls[index]?.bind fun call => state.advance index call
  | .disconnect index cause => state.calls[index]?.bind fun call =>
    state.disconnect index call cause

end Clients

/-! ## The transaction -/

/-- The number that a closure finds under a counter key. -/
def Finds (view : View) (counterKey : String) (number : Int) : Prop :=
  view counterKey = none ∧ number = firstAllocatedId ∨
    Exists fun entry => view counterKey = some entry ∧ Json.fromSlice entry.value = .ok number

variable {counterKey : String} {view : View}

theorem Finds.unique {first second : Int} (one : Finds view counterKey first)
    (two : Finds view counterKey second) : first = second := by
  rcases one with ⟨absent, rfl⟩ | ⟨entry, present, read⟩ <;>
    rcases two with ⟨absent', rfl⟩ | ⟨entry', present', read'⟩
  · rfl
  · rw [absent] at present'
    cases present'
  · rw [present] at absent'
    cases absent'
  · rw [present] at present'
    cases present'
    rw [read] at read'
    exact Except.ok.inj read'

variable {batch : Batch} {tx : EtcdTxnCtx} {after : View}

section

variable (executed : (reserveBatch counterKey).exec view = (.ok batch, after))
include executed

/-- What a reservation that succeeds does. -/
theorem reserveBatch_exec :
    ∃ number : Int, Finds view counterKey number ∧
      (i64Min ≤ number + batchSize ∧ number + batchSize ≤ i64Max) ∧
      batch = ⟨number, number + 1, number + batchSize⟩ ∧
      after = Function.update view counterKey (some ⟨Json.toVec (number + batchSize), 0⟩) := by
  have reserve : ∀ current : Option Int,
      Task.exec (match checkedAdd (current.getD firstAllocatedId) batchSize with
        | none => .done (.error (.internal "ID counter overflow"))
        | some nextEtcdId =>
          .setTypedJson counterKey nextEtcdId
            (.done (.ok (Batch.mk (current.getD firstAllocatedId)
              (current.getD firstAllocatedId + 1) nextEtcdId)))) view = (.ok batch, after) ->
      (i64Min ≤ current.getD firstAllocatedId + batchSize ∧
          current.getD firstAllocatedId + batchSize ≤ i64Max) ∧
        batch = ⟨current.getD firstAllocatedId, current.getD firstAllocatedId + 1,
          current.getD firstAllocatedId + batchSize⟩ ∧
        after = Function.update view counterKey
          (some ⟨Json.toVec (current.getD firstAllocatedId + batchSize), 0⟩) := by
    intro current result
    by_cases fits : i64Min ≤ current.getD firstAllocatedId + batchSize ∧
        current.getD firstAllocatedId + batchSize ≤ i64Max
    · rw [checkedAdd, if_pos fits] at result
      obtain ⟨made, stored⟩ := Prod.mk.inj result
      exact ⟨fits, (Except.ok.inj made).symm, stored.symm⟩
    · rw [checkedAdd, if_neg fits] at result
      cases (Prod.mk.inj result).1
  cases found : view counterKey with
  | none =>
    simp only [reserveBatch, Task.getTypedJson, Task.exec, found] at executed
    exact ⟨firstAllocatedId, .inl ⟨found, rfl⟩, reserve none executed⟩
  | some entry =>
    simp only [reserveBatch, Task.getTypedJson, Task.exec, found, map_some] at executed
    cases read : Json.fromSlice entry.value with
    | error cause =>
      rw [read] at executed
      cases (Prod.mk.inj executed).1
    | ok number =>
      rw [read] at executed
      exact ⟨number, .inr ⟨entry, found, read⟩, reserve (some number) executed⟩

/-- Such a reservation is never empty. -/
theorem reserveBatch_changes : after ≠ view := by
  obtain ⟨number, finds, fits, _, rfl⟩ := reserveBatch_exec executed
  intro same
  have here := congrFun same counterKey
  rw [update_self] at here
  rcases finds with ⟨absent, _⟩ | ⟨entry, present, read⟩
  · rw [absent] at here
    cases here
  rw [present] at here
  cases here
  rw [Json.roundTrip _ fits.1 fits.2] at read
  have equal : number + batchSize = number := Except.ok.inj read
  unfold batchSize at equal
  omega

end

omit [Json] in
/-- There are contents that agree with whatever a context has read. -/
theorem EtcdTxnCtx.exists_agrees (tx : EtcdTxnCtx) : ∃ view, tx.Agrees view := by
  refine ⟨fun key => ((tx.reads.lookup key).bind ReadSlot.value).map fun value => ⟨value, 0⟩, ?_⟩
  intro key slot found
  simp only [found, bind_some]
  cases slot.value <;> rfl

/-- A reservation does not reach its end with nothing staged. -/
theorem reserveBatch_stages {store : Store}
    (attempt : Attempt store (reserveBatch counterKey) tx (.done (.ok batch))) :
    tx.writes.entries ≠ [] := by
  intro empty
  obtain ⟨view, agrees⟩ := tx.exists_agrees
  refine reserveBatch_changes (attempt.explains view agrees) ?_
  funext key
  simp [Writes.overlay, AList.lookup, empty]

/-! ## Holders of ids -/

/-- The ids of a call: its own, and those of a batch it has not installed. -/
def GeneratePc.Keeps (id : Int) : GeneratePc -> Prop
  | updating batch => id = batch.allocatedId ∨ batch.nextStart ≤ id ∧ id < batch.poolEnd
  | returned own => id = own
  | allocating | reserving _ | failed _ => False

inductive Holder where
  | pool (client : Nat)
  | call (index : Nat)
deriving DecidableEq

namespace Clients

/-- Who has an id of the counter `key`. -/
def Holds (state : Clients) (key : String) (id : Int) : Holder -> Prop
  | .pool client => (state.pools client key).next ≤ id ∧ id < (state.pools client key).stop
  | .call index => Exists fun call : GenerateCall =>
    state.calls[index]? = some call ∧ call.counterKey = key ∧ call.pc.Keeps id

/-- What is stored under the counter key when the ids below `bound` may be in use:
nothing while there are none, or the bound. -/
def Counter (view : View) (key : String) (bound : Int) : Prop :=
  Finds view key bound ∧ firstAllocatedId ≤ bound

/-- The transactions under way and the batches not yet installed are what
`reserveBatch` makes. -/
structure Sound (state : Clients) : Prop where
  phases : forall (index : Nat) (call : GenerateCall) phase, state.calls[index]? = some call ->
    call.pc = .reserving phase ->
    phase.Sound state.store (reserveBatch call.counterKey) ∧ forall tx batch,
      phase ≠ .returned tx batch
  batches : forall (index : Nat) (call : GenerateCall) batch, state.calls[index]? = some call ->
    call.pc = .updating batch -> batch.nextStart = batch.allocatedId + 1

/-- No id of the counter has two holders, and all are below the counter. -/
structure Inv (key : String) (state : Clients) : Prop where
  sound : Sound state
  counter : Exists fun bound => Counter state.store.values key bound ∧
    forall holder id, state.Holds key id holder -> firstAllocatedId ≤ id ∧ id < bound
  alone : forall first second id, state.Holds key id first -> state.Holds key id second ->
    first = second

variable {store : Store} {key : String}

theorem inv_initial {bound : Int} (counter : Counter store.values key bound) :
    Inv key (initial store) := by
  have none_ : ∀ holder id, ¬ (initial store).Holds key id holder := by
    rintro (client | index) id held
    · have bounds : (0 : Int) ≤ id ∧ id < 0 := held
      omega
    · obtain ⟨call, found, _⟩ := held
      cases found
  refine ⟨⟨?_, ?_⟩, ⟨bound, counter, ?_⟩, ?_⟩
  · intro index call phase found
    cases found
  · intro index call batch found
    cases found
  · intro holder id held
    exact absurd held (none_ holder id)
  · intro first second id held
    exact absurd held (none_ first id)

variable {state : Clients}

/-- The rule for the steps that make no ids: every id that is held afterwards was
held before, and no two holders got it from the same one. -/
theorem Inv.transfer {next : Clients} (inv : Inv key state) (sound : Sound next)
    (values : next.store.values key = state.store.values key) (source : Holder -> Holder)
    (held : ∀ holder id, next.Holds key id holder -> state.Holds key id (source holder))
    (apart : ∀ first second id, next.Holds key id first -> next.Holds key id second ->
      source first = source second -> first = second) : Inv key next where
  sound := sound
  counter := by
    obtain ⟨bound, counter, below⟩ := inv.counter
    refine ⟨bound, ?_, fun holder id held' => below (source holder) id (held holder id held')⟩
    simpa only [Counter, Finds, values] using counter
  alone := by
    intro first second id one two
    exact apart first second id one two
      (inv.alone _ _ id (held first id one) (held second id two))

variable {index : Nat} {pc : GeneratePc} {id : Int} {call : GenerateCall} {other : Nat}

omit [Json] in
theorem holds_moveTo (found : state.calls[index]? = some call) :
    (state.moveTo index call pc).Holds key id (.call other) ↔
      if other = index then call.counterKey = key ∧ pc.Keeps id
      else state.Holds key id (.call other) := by
  have inside : index < state.calls.length := (List.getElem?_eq_some_iff.mp found).1
  split_ifs with here
  · subst here
    simp [Holds, moveTo, inside]
  · simp [Holds, moveTo, List.getElem?_set_ne (Ne.symm here)]

/-- One call moves within the invariant on transactions and batches. -/
theorem Sound.moveTo {next : Clients} (old : Sound state)
    (moves : next.calls = state.calls.set index { call with pc := pc })
    (later : state.store.Later next.store) (phase : ∀ phase, pc = .reserving phase ->
      phase.Sound next.store (reserveBatch call.counterKey) ∧ ∀ tx batch,
        phase ≠ .returned tx batch)
    (batch : ∀ batch, pc = .updating batch -> batch.nextStart = batch.allocatedId + 1) :
    Sound next where
  phases := by
    intro other moved inner present at_
    rw [moves] at present
    rcases getElem?_set_eq_some_iff.mp present with ⟨_, _, rfl⟩ | ⟨_, before⟩
    · exact phase inner at_
    · have kept := old.phases other moved inner before at_
      exact ⟨kept.1.later later, kept.2⟩
  batches := by
    intro other moved inner present at_
    rw [moves] at present
    rcases getElem?_set_eq_some_iff.mp present with ⟨_, _, rfl⟩ | ⟨_, before⟩
    · exact batch inner at_
    · exact old.batches other moved inner before at_

/-- A call that moves to a place where it has no ids. -/
theorem Inv.idle (inv : Inv key state) (found : state.calls[index]? = some call)
    (empty : ∀ id, ¬ pc.Keeps id) (phase : ∀ phase, pc = .reserving phase ->
      phase.Sound state.store (reserveBatch call.counterKey) ∧ ∀ tx batch,
        phase ≠ .returned tx batch) (batch : ∀ batch, pc ≠ .updating batch) :
    Inv key (state.moveTo index call pc) := by
  refine inv.transfer
    (inv.sound.moveTo rfl (Store.Later.refl _) phase fun inner at_ => absurd at_ (batch inner))
    rfl id ?_ ?_
  · rintro (client | other) id held
    · exact held
    · rw [holds_moveTo found] at held
      split_ifs at held
      · exact absurd held.2 (empty id)
      · exact held
  · intro first second id _ _ same
    exact same

/-- A call returns with an id while the pool of its client is replaced. -/
def handOver (state : Clients) (index : Nat) (call : GenerateCall) (pool : IdPoolInner)
    (own : Int) : Clients :=
  (state.setPools call.client
    (Function.update (state.pools call.client) call.counterKey pool)).moveTo index call
      (.returned own)

variable {pool : IdPoolInner} {own : Int}

omit [Json] in
theorem holds_handOver_pool {client : Nat} :
    (state.handOver index call pool own).Holds key id (.pool client) ↔
      if client = call.client ∧ key = call.counterKey then pool.next ≤ id ∧ id < pool.stop
      else state.Holds key id (.pool client) := by
  by_cases here : client = call.client
  · subst here
    by_cases same : key = call.counterKey
    · subst same
      simp [Holds, handOver, moveTo, setPools]
    · simp [Holds, handOver, moveTo, setPools, same]
  · simp [Holds, handOver, moveTo, setPools, here]

omit [Json] in
theorem holds_handOver_call (found : state.calls[index]? = some call) :
    (state.handOver index call pool own).Holds key id (.call other) ↔
      if other = index then call.counterKey = key ∧ id = own
      else state.Holds key id (.call other) := by
  rw [handOver, holds_moveTo (show (state.setPools _ _).calls[index]? = some call from found)]
  rfl

section

variable (inv : Inv key state) {phase next : Phase Batch}
include inv

section

variable (found : state.calls[index]? = some call)
include found

/-- The id and those of the new pool had one holder before, the call itself or the
old pool. -/
theorem Inv.handOver {giver : Holder} (near : giver = .pool call.client ∨ giver = .call index)
    (given : ∀ id, id = own ∨ pool.next ≤ id ∧ id < pool.stop ->
      state.Holds call.counterKey id giver) (apart : own < pool.next) :
    Inv key (state.handOver index call pool own) := by
  have sound : Sound (state.handOver index call pool own) :=
    inv.sound.moveTo rfl (Store.Later.refl _) nofun nofun
  by_cases same : key = call.counterKey
  · subst same
    -- The giver is one of the two holders that change, so the others keep their ids.
    refine inv.transfer sound rfl
      (fun holder => if holder = .pool call.client ∨ holder = .call index then giver else holder)
      ?_ ?_
    · rintro (client | other) id held
      · rw [holds_handOver_pool] at held
        by_cases here : client = call.client
        · rw [if_pos ⟨here, rfl⟩] at held
          simpa [here] using given id (.inr held)
        · rw [if_neg fun both => here both.1] at held
          simpa [here] using held
      · rw [holds_handOver_call found] at held
        split_ifs at held with here
        · simpa [here] using given id (.inl held.2)
        · simpa [here] using held
    have disjoint : ∀ id,
        (state.handOver index call pool own).Holds call.counterKey id (.pool call.client) ->
        ¬ (state.handOver index call pool own).Holds call.counterKey id (.call index) := by
      intro id pooled kept
      rw [holds_handOver_pool, if_pos ⟨rfl, rfl⟩] at pooled
      rw [holds_handOver_call found, if_pos rfl] at kept
      omega
    intro first second id one two equal
    by_cases firstNear : first = .pool call.client ∨ first = .call index <;>
      by_cases secondNear : second = .pool call.client ∨ second = .call index
    · rcases firstNear with rfl | rfl <;> rcases secondNear with rfl | rfl
      · rfl
      · exact absurd two (disjoint id one)
      · exact absurd one (disjoint id two)
      · rfl
    · rw [if_pos firstNear, if_neg secondNear] at equal
      exact absurd (equal ▸ near) secondNear
    · rw [if_neg firstNear, if_pos secondNear] at equal
      exact absurd (equal ▸ near) firstNear
    · rwa [if_neg firstNear, if_neg secondNear] at equal
  · refine inv.transfer sound rfl id ?_ (fun _ _ _ _ _ => id)
    rintro (client | other) id held
    · rwa [holds_handOver_pool, if_neg fun both => same both.2] at held
    · rw [holds_handOver_call found] at held
      split_ifs at held
      · exact absurd held.1.symm same
      · exact held

variable (at_ : call.pc = .reserving phase)
include at_

/-- A step of a reservation that leaves the store alone. -/
theorem Inv.quiet (quiet : Quiet state.store (reserveBatch call.counterKey) phase next) :
    Inv key (state.moveTo index call (.ofPhase next)) := by
  have sound := quiet.sound (inv.sound.phases index call phase found at_).1
  have open_ : ∀ tx batch, next ≠ .returned tx batch := by
    rintro tx batch rfl
    exact reserveBatch_stages sound (quiet.empty tx batch rfl)
  cases next with
  | returned tx batch => exact absurd rfl (open_ tx batch)
  | failed error =>
    exact inv.idle found (fun _ => id) nofun nofun
  | attempt | running | baselining | committing =>
    exact inv.idle found (fun _ => id) (fun _ same => by cases same; exact ⟨sound, open_⟩)
      nofun

/-- A reservation that has been committed gives its call a new batch. -/
theorem Inv.commit (commits : Commits state.store phase store next tx batch) :
    Inv key { state.moveTo index call (.updating batch) with store := store } := by
  obtain ⟨⟨attempt, rfl⟩, _, holds, rfl⟩ := commits
  have sound := (inv.sound.phases index call _ found at_).1
  have executed := sound.1.exec_of_holds holds
  obtain ⟨number, finds, fits, rfl, stored⟩ := reserveBatch_exec executed
  have moved : Sound { state.moveTo index call (.updating ⟨number, number + 1, number + batchSize⟩)
      with store := state.store.apply tx.writes } :=
    inv.sound.moveTo rfl (Store.Later.apply _ _) nofun
      (fun _ same => by cases same; rfl)
  have others : ∀ holder id, holder ≠ .call index ->
      Holds { state.moveTo index call (.updating ⟨number, number + 1, number + batchSize⟩) with
        store := state.store.apply tx.writes } key id holder -> state.Holds key id holder := by
    rintro (client | other) id different held
    · exact held
    · have kept := (holds_moveTo found).mp held
      rwa [if_neg fun same => different (congrArg Holder.call same)] at kept
  by_cases same : call.counterKey = key
  · subst same
    obtain ⟨bound, ⟨known, first⟩, below⟩ := inv.counter
    obtain rfl : bound = number := known.unique finds
    have own : ∀ id,
        Holds { state.moveTo index call (.updating ⟨bound, bound + 1, bound + batchSize⟩) with
          store := state.store.apply tx.writes } call.counterKey id (.call index) ->
        bound ≤ id ∧ id < bound + batchSize := by
      intro id held
      have kept := (holds_moveTo found).mp held
      rw [if_pos rfl] at kept
      have cases_ : id = bound ∨ bound + 1 ≤ id ∧ id < bound + batchSize := kept.2
      unfold batchSize at cases_ ⊢
      omega
    refine ⟨moved, ⟨bound + batchSize, ⟨.inr ⟨⟨Json.toVec (bound + batchSize), 0⟩, ?_,
      Json.roundTrip _ fits.1 fits.2⟩, ?_⟩, ?_⟩, ?_⟩
    · rw [stored, update_self]
    · unfold batchSize
      omega
    · intro holder id held
      by_cases here : holder = .call index
      · subst here
        have range := own id held
        omega
      · have range := below holder id (others holder id here held)
        unfold batchSize
        omega
    intro one two id oneHolds twoHolds
    by_cases oneHere : one = .call index <;> by_cases twoHere : two = .call index
    · rw [oneHere, twoHere]
    · subst oneHere
      have range := own id oneHolds
      have old := below two id (others two id twoHere twoHolds)
      omega
    · subst twoHere
      have range := own id twoHolds
      have old := below one id (others one id oneHere oneHolds)
      omega
    · exact inv.alone one two id (others one id oneHere oneHolds) (others two id twoHere twoHolds)
  · refine inv.transfer moved ?_ id ?_ (fun _ _ _ _ _ => id)
    · rw [stored, update_of_ne (Ne.symm same)]
    intro holder id held
    refine others holder id ?_ held
    rintro rfl
    have kept := (holds_moveTo found).mp held
    rw [if_pos rfl] at kept
    exact same kept.1

/-- One step of a reservation. -/
theorem Inv.reserve
    (taken : (reserveTxn call.counterKey).advance state.store phase = some (store, next)) :
    Inv key { state.moveTo index call (.ofPhase next) with store := store } := by
  rcases EtcdTxn.advance_cases taken with ⟨rfl, quiet⟩ | ⟨tx, batch, commits⟩
  · exact inv.quiet found at_ quiet
  · rw [commits.returned]
    exact inv.commit found at_ commits

end

/-- A new call has no ids. -/
theorem Inv.newCall (client : Nat) (counterKey : String) :
    Inv key { state with calls := state.calls ++ [⟨client, counterKey, .allocating⟩] } := by
  refine inv.transfer ⟨?_, ?_⟩ rfl id ?_ (fun _ _ _ _ _ => id)
  · intro index call phase found at_
    rcases getElem?_append_eq_some_iff.mp found with old | ⟨_, rfl⟩
    · exact inv.sound.phases index call phase old at_
    · cases at_
  · intro index call batch found at_
    rcases getElem?_append_eq_some_iff.mp found with old | ⟨_, rfl⟩
    · exact inv.sound.batches index call batch old at_
    · cases at_
  rintro (owner | index) id held
  · exact held
  · obtain ⟨call, found, same, kept⟩ := held
    rcases getElem?_append_eq_some_iff.mp found with old | ⟨_, rfl⟩
    · exact ⟨call, old, same, kept⟩
    · exact kept.elim

theorem step_inv {next : Clients} {action : GenerateAction}
    (taken : state.step action = some next) : Inv key next := by
  cases action with
  | call client counterKey =>
    cases taken
    exact inv.newCall client counterKey
  | disconnect index cause =>
    obtain ⟨call, found, moved⟩ := bind_eq_some_iff.mp taken
    unfold disconnect at moved
    split at moved
    next phase at_ =>
      obtain ⟨after, broken, rfl⟩ := map_eq_some_iff.mp moved
      exact inv.quiet found at_ (EtcdTxn.disconnect_quiet broken)
    next => cases moved
  | advance index =>
    obtain ⟨call, found, moved⟩ := bind_eq_some_iff.mp taken
    unfold advance at moved
    split at moved
    next at_ =>
      simp only [IdPool.tryAlloc] at moved
      by_cases nonempty : (state.pools call.client call.counterKey).next <
          (state.pools call.client call.counterKey).stop
      · rw [if_pos nonempty] at moved
        cases moved
        refine inv.handOver found (.inl rfl) ?_ (Int.lt_succ _)
        intro id given
        dsimp only at given
        simp only [Holds]
        omega
      · rw [if_neg nonempty] at moved
        cases moved
        exact inv.idle found (fun _ => id)
          (fun _ same => by cases same; exact ⟨trivial, by simp⟩)
          nofun
    next phase at_ =>
      obtain ⟨⟨store, after⟩, advanced, rfl⟩ := map_eq_some_iff.mp moved
      exact inv.reserve found at_ advanced
    next batch at_ =>
      cases moved
      have shape := inv.sound.batches index call batch found at_
      refine inv.handOver found (.inr rfl) ?_ (by dsimp only; omega)
      intro id given
      exact ⟨call, found, rfl, by rw [at_]; exact given⟩
    next => cases moved
    next => cases moved

end

/-- The call `index` for the counter `key` has returned `id`. -/
def Returned (state : Clients) (key : String) (index : Nat) (id : Int) : Prop :=
  Exists fun call : GenerateCall =>
    state.calls[index]? = some call ∧ call.counterKey = key ∧ call.pc = .returned id

omit [Json] in
theorem Returned.holds (returned : state.Returned key index id) :
    state.Holds key id (.call index) := by
  obtain ⟨call, found, same, at_⟩ := returned
  exact ⟨call, found, same, by rw [at_]; rfl⟩

/-- Ids are unique.  For a counter that does not exist at the start, or that earlier
clients have left at some number, no two calls of any clients ever return the
same id, and no id is below the first one. -/
theorem generateId_unique {store : Store} {key : String} {bound : Int}
    (counter : Counter store.values key bound) {actions : List GenerateAction} {final : Clients}
    (run : Run step anyStep (initial store) actions final) :
    (forall first second id, final.Returned key first id -> final.Returned key second id ->
      first = second) ∧
    (forall index id, final.Returned key index id -> firstAllocatedId ≤ id) := by
  have inv : Inv key final :=
    run.invariant (Inv key) (inv_initial counter) fun _ _ _ inv _ taken => step_inv inv taken
  constructor
  · intro first second id one two
    have same := inv.alone _ _ id one.holds two.holds
    cases same
    rfl
  · intro index id returned
    obtain ⟨bound, _, below⟩ := inv.counter
    exact (below _ id returned.holds).1

/-- The ids that have been returned, in the order of the calls. -/
def returnedIds (state : Clients) : List Int :=
  state.calls.filterMap fun call =>
    match call.pc with
    | .returned id => some id
    | _ => none

/-- Eight bytes that count from the least number. -/
abbrev fixedWidth : Json where
  toVec number := ⟨(leBytes 8 (number - i64Min).toNat).toArray⟩
  fromSlice bytes := .ok (ofLeBytes bytes.data.toList + i64Min)
  roundTrip number low high := by
    unfold i64Min i64Max at *
    rw [ofLeBytes_leBytes, Nat.mod_eq_of_lt (by omega), Int.toNat_of_nonneg (by omega)]
    simp

omit [Json] in
/-- Two calls of one client reserve two batches at the same time, a second client
reserves a third, and the first client goes on with the pool installed last. -/
theorem generateId_unique_two_clients :
    Exists fun final : Clients => final.returnedIds = [1002, 2, 2002, 3] ∧
      (forall first second id, final.Returned "k" first id -> final.Returned "k" second id ->
        first = second) := by
  let := fixedWidth
  obtain ⟨final, run, observed⟩ : ∃ final,
      Run step anyStep (initial Store.empty)
        ([.call 0 "k", .call 0 "k", .call 1 "k", .call 0 "k"] ++
          ([0, 1] ++ [1, 1, 1, 1, 1, 1] ++ [0, 0, 0, 0, 0, 0] ++ [0, 1] ++
            [2, 2, 2, 2, 2, 2, 2, 2] ++ [3]).map GenerateAction.advance) final ∧
        final.returnedIds = [1002, 2, 2002, 3] := exists_run (by decide +kernel)
  have counter : Counter Store.empty.values "k" firstAllocatedId := ⟨.inl ⟨rfl, rfl⟩, Int.le_refl _⟩
  exact ⟨final, observed, (generateId_unique counter run).1⟩

end Clients

end Rk8s.Slayerfs.Etcd
