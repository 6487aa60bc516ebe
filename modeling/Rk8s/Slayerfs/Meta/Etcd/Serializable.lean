import Rk8s.Lib.Slots
import Rk8s.Slayerfs.Meta.Etcd.Txn

namespace Rk8s.Slayerfs.Etcd

open AList Option Transition Function List EtcdTxnCtx EtcdTxn

universe u

/-!
# Committed transactions are serializable

The argument looks at one attempt.  Whatever the contents of the store are, as
long as they agree with the slots that the attempt has read, executing the whole
closure on them comes to the same as executing the rest of the closure on them
with the staged operations laid over.  The comparisons of the commit say that
the contents at that moment are such contents.

A slot stays informative while other calls change the store: the key may be
modified, but then its revision is a new one.
-/

variable {R : Type u}

/-! ## Slots -/

/-- What a slot says about a store that is at least as late as the read. -/
structure ReadSlot.Dated (store : Store) (key : String) (slot : ReadSlot) : Prop where
  past : slot.modRevision ≤ store.revision
  absent : slot.modRevision = 0 -> slot.value = none
  same : forall kv, store.kvs key = some kv -> kv.modRevision = slot.modRevision ->
    slot.value = some kv.entry.value

variable {key : String} {slot : ReadSlot} {new old : Store}

theorem ReadSlot.Dated.later (dated : slot.Dated old key)
    (later : old.Later new) : slot.Dated new key where
  past := le_trans dated.past later.revision
  absent := dated.absent
  same := by
    intro kv found equal
    rcases later.kept key kv found with before | modified
    · exact dated.same kv before equal
    · have past := dated.past
      omega

theorem Store.fetchSlot_dated (store : Store) (key : String) :
    (store.fetchSlot key).Dated store key := by
  cases found : store.kvs key with
  | none => exact ⟨by simp [fetchSlot, found], by simp [fetchSlot, found], by simp [found]⟩
  | some kv =>
    have bounds := store.bounded key kv found
    constructor
    · simpa [fetchSlot, found] using bounds.2.2
    · intro zero
      simp only [fetchSlot, found] at zero
      omega
    · intro other same _
      rw [found] at same
      cases same
      simp [fetchSlot, found]

variable {store : Store}

/-- A comparison that holds says that the slot still describes its key. -/
theorem ReadSlot.Dated.value_of_holds (dated : slot.Dated store key)
    (holds : store.holds (EtcdTxnCtx.compare key slot) = true) :
    (store.values key).map Entry.value = slot.value := by
  unfold EtcdTxnCtx.compare at holds
  split_ifs at holds with zero
  · cases found : store.kvs key with
    | none => simp [Store.values, found, dated.absent zero]
    | some kv =>
      have version := (store.bounded key kv found).1
      simp only [Store.holds, found, elim_some, beq_iff_eq] at holds
      omega
  cases found : store.kvs key with
  | none =>
    simp only [Store.holds, found, beq_iff_eq] at holds
    exact absurd holds.symm zero
  | some kv =>
    simp only [Store.holds, found, beq_iff_eq] at holds
    simp [Store.values, found, dated.same kv found holds]

/-! ## One attempt -/

/-- The operation that a closure staged last for a key. -/
def lastStaged (key : String) (trace : List Event) : Option WriteOp :=
  trace.foldl (fun last event =>
    match event with
    | .got _ _ => last
    | .staged other op => if other = key then some op else last) none

variable (trace : List Event)

/-- Every read of a key that has been staged before saw what was staged last. -/
def ReadsStaged : Prop :=
  forall before after key value op, trace = before ++ .got key value :: after ->
    lastStaged key before = some op -> value = op.value?

theorem ReadsStaged.snoc {trace : List Event} {event : Event} (old : ReadsStaged trace)
    (new : ∀ key value op, event = .got key value -> lastStaged key trace = some op ->
      value = op.value?) : ReadsStaged (trace ++ [event]) := by
  intro before after key value op split staged
  rcases eq_nil_or_concat after with rfl | ⟨front, last, rfl⟩
  · obtain ⟨rfl, single⟩ := append_inj' split rfl
    exact new key value op (List.cons.inj single).1 staged
  · rw [concat_eq_append, ← cons_append, ← append_assoc] at split
    exact old before front key value op (append_inj' split rfl).1 staged

/-- Contents that agree with everything a context has read. -/
def EtcdTxnCtx.Agrees (tx : EtcdTxnCtx) (view : View) : Prop :=
  forall key slot, tx.reads.lookup key = some slot -> (view key).map Entry.value = slot.value

/-- An attempt at `task` that has come to `rest`. -/
structure Attempt (store : Store) (task : Task R) (tx : EtcdTxnCtx) (rest : Task R) : Prop where
  slots : forall key slot, tx.reads.lookup key = some slot -> slot.Dated store key
  explains : forall view, tx.Agrees view -> task.exec view = rest.exec (tx.writes.overlay view)
  staged : forall key, tx.writes.lookup key = lastStaged key tx.trace
  traced : ReadsStaged tx.trace

variable {out : R} {task rest : Task R} {tx : EtcdTxnCtx}

namespace Attempt

theorem start (store : Store) (task : Task R) : Attempt store task .new task where
  slots := by simp [new]
  explains := by
    intro view _
    rfl
  staged := by
    intro key
    rfl
  traced := by
    intro before after key value op split
    cases before <;> cases split

theorem later (attempt : Attempt store task tx rest) (later : store.Later new) :
    Attempt new task tx rest :=
  { attempt with slots := fun key slot found => (attempt.slots key slot found).later later }

variable {next : Option ByteArray -> Task R}

/-- A `get` that the context answers itself. -/
theorem get_local {value : Option ByteArray} (attempt : Attempt store task tx (.get key next))
    (known : tx.get? key = some value) :
    Attempt store task (tx.got key value) (next value) where
  slots := attempt.slots
  explains := by
    intro view agrees
    have seen : (tx.writes.overlay view key).map Entry.value = value := by
      cases staged : tx.writes.lookup key with
      | some op =>
        simp only [get?, staged, some.injEq] at known
        simp only [Writes.overlay, staged]
        exact known
      | none =>
        simp only [get?, staged] at known
        obtain ⟨slot, read, rfl⟩ := map_eq_some_iff.mp known
        simp only [Writes.overlay, staged]
        exact agrees key slot read
    rw [attempt.explains view agrees, Task.exec, seen]
    rfl
  staged := by
    intro other
    simpa [got, lastStaged] using attempt.staged other
  traced := by
    refine attempt.traced.snoc ?_
    rintro other seen op ⟨rfl, rfl⟩ last
    rw [← attempt.staged key] at last
    simpa [get?, last] using known.symm

/-- Reading one more key.  Fewer contents agree with the context afterwards. -/
theorem insertRead (attempt : Attempt store task tx rest) (key : String)
    (new : tx.reads.lookup key = none) :
    Attempt store task (tx.insertRead key (store.fetchSlot key)) rest where
  slots := by
    intro other slot found
    by_cases same : other = key
    · subst same
      rw [EtcdTxnCtx.insertRead, AList.lookup_insert] at found
      cases found
      exact store.fetchSlot_dated other
    · rw [EtcdTxnCtx.insertRead, lookup_insert_ne same] at found
      exact attempt.slots other slot found
  explains := by
    intro view agrees
    refine attempt.explains view fun other slot found => agrees other slot ?_
    have different : other ≠ key := by
      rintro rfl
      rw [new] at found
      cases found
    rw [EtcdTxnCtx.insertRead, lookup_insert_ne different]
    exact found
  staged := attempt.staged
  traced := attempt.traced

/-- A `get` that asks the store. -/
theorem get_fetched (attempt : Attempt store task tx (.get key next))
    (unknown : tx.get? key = none) :
    Attempt store task
      ((tx.insertRead key (store.fetchSlot key)).got key (store.fetchSlot key).value)
      (next (store.fetchSlot key).value) := by
  have free : tx.writes.lookup key = none ∧ tx.reads.lookup key = none := by
    cases staged : tx.writes.lookup key with
    | some op => simp [EtcdTxnCtx.get?, staged] at unknown
    | none => simpa [EtcdTxnCtx.get?, staged] using unknown
  refine (attempt.insertRead key free.2).get_local ?_
  simp [EtcdTxnCtx.get?, EtcdTxnCtx.insertRead, free.1]

theorem overlay_insert (writes : Writes) (key : String) (op : WriteOp) (view : View) :
    Writes.overlay (writes.insert key op) view = update (writes.overlay view) key op.entry := by
  funext other
  by_cases same : other = key
  · subst same
    simp [Writes.overlay]
  · rw [update_of_ne same, Writes.overlay, lookup_insert_ne same, Writes.overlay]

/-- Staging an operation is writing it to the contents underneath. -/
theorem stage {op : WriteOp} {next : Task R} (attempt : Attempt store task tx rest)
    (unfolds : ∀ view, rest.exec view = next.exec (update view key op.entry)) :
    Attempt store task (tx.stage key op) next where
  slots := attempt.slots
  explains := by
    intro view agrees
    rw [attempt.explains view agrees, unfolds, EtcdTxnCtx.stage, overlay_insert]
  staged := by
    intro other
    by_cases same : key = other
    · subst same
      simp [EtcdTxnCtx.stage, lastStaged]
    · rw [EtcdTxnCtx.stage, lookup_insert_ne (Ne.symm same), attempt.staged other]
      simp [lastStaged, same]
  traced := attempt.traced.snoc (by
    intro other value op impossible
    cases impossible)

/-- When all comparisons hold, executing the closure on the present contents
gives the result of the attempt and the contents after its operations. -/
theorem exec_of_holds (attempt : Attempt store task tx (.done (.ok out)))
    (holds : tx.compares.all store.holds = true) :
    task.exec store.values = (.ok out, (store.apply tx.writes).values) := by
  have agrees : tx.Agrees store.values := by
    intro key slot found
    have member : (⟨key, slot⟩ : Sigma fun _ : String => ReadSlot) ∈ tx.reads.entries :=
      mem_lookup_iff.mp found
    have compared := all_eq_true.mp holds _ (mem_map.mpr ⟨_, member, rfl⟩)
    exact (attempt.slots key slot found).value_of_holds compared
  rw [attempt.explains _ agrees, Task.exec, Store.values_apply]

end Attempt

/-! ## One step of a call -/

/-- The invariant of a call in each of its phases. -/
def Phase.Sound (store : Store) (task : Task R) : Phase R -> Prop
  | .attempt _ => True
  | .running _ tx rest => Attempt store task tx rest
  | .baselining _ tx out missing =>
    Attempt store task tx (.done (.ok out)) ∧ missing.Nodup ∧
      forall key, key ∈ missing -> tx.reads.lookup key = none
  | .committing _ tx out =>
    Attempt store task tx (.done (.ok out)) ∧ tx.writes.entries ≠ []
  | .returned tx out => Attempt store task tx (.done (.ok out))
  | .failed _ => True

theorem Phase.Sound.later {phase : Phase R} (sound : phase.Sound old task)
    (later : old.Later new) : phase.Sound new task := by
  cases phase with
  | attempt number => trivial
  | running | returned => exact Attempt.later sound later
  | baselining | committing => exact ⟨sound.1.later later, sound.2⟩
  | failed error => trivial

/-- A step that leaves the store alone. -/
structure Quiet (store : Store) (task : Task R) (phase next : Phase R) : Prop where
  active : forall tx out, phase ≠ .returned tx out
  local_ : EtcdTxn.commits phase next = false
  empty : forall tx out, next = .returned tx out -> tx.writes.entries = []
  sound : phase.Sound store task -> next.Sound store task

/-- A transaction that the store carries out. -/
structure Commits (store : Store) (phase : Phase R) (after : Store) (next : Phase R)
    (tx : EtcdTxnCtx) (out : R) : Prop where
  before : Exists fun number => phase = .committing number tx out
  returned : next = .returned tx out
  holds : tx.compares.all store.holds = true
  applied : after = store.apply tx.writes

variable {number : Nat}

theorem EtcdTxn.runTask_sound (attempt : Attempt store task tx rest) :
    (runTask store number tx rest).Sound store task := by
  cases rest with
  | get key next =>
    cases known : tx.get? key with
    | some value =>
      simp only [runTask, known]
      exact attempt.get_local known
    | none =>
      simp only [runTask, known]
      exact attempt.get_fetched known
  | set | delete => exact attempt.stage fun view => rfl
  | done result =>
    cases result with
    | error error => trivial
    | ok out =>
      refine ⟨attempt, ?_, ?_⟩
      · exact List.Nodup.filter _ tx.writes.keys_nodup
      · intro key missing
        simpa using (mem_filter.mp missing).2

theorem EtcdTxn.runTask_quiet :
    Quiet store task (.running number tx rest) (runTask store number tx rest) where
  active := by simp
  local_ := rfl
  empty := by
    intro other out same
    cases rest with
    | get key next => cases known : tx.get? key <;> simp [runTask, known] at same
    | set key value options next => cases same
    | delete key next => cases same
    | done result => cases result <;> cases same
  sound := runTask_sound

variable {txn : EtcdTxn R}

/-- What a step of a call can be. -/
theorem EtcdTxn.advance_cases {after : Store} {phase next : Phase R}
    (taken : txn.advance store phase = some (after, next)) :
    after = store ∧ Quiet store txn.task phase next ∨
      ∃ tx out, Commits store phase after next tx out := by
  cases phase with
  | attempt number =>
    simp only [advance] at taken
    split_ifs at taken
    · cases taken
      exact .inl ⟨rfl, by simp, rfl, by simp, fun _ => Attempt.start store txn.task⟩
    · cases taken
      exact .inl ⟨rfl, by simp, rfl, by simp, fun _ => trivial⟩
  | running number tx rest =>
    cases taken
    exact .inl ⟨rfl, runTask_quiet⟩
  | baselining number tx out missing =>
    cases missing with
    | cons key missing =>
      cases taken
      refine .inl ⟨rfl, by simp, rfl, by simp, ?_⟩
      rintro ⟨attempt, distinct, unread⟩
      refine ⟨attempt.insertRead key (unread key mem_cons_self), distinct.of_cons, ?_⟩
      intro other member
      have different : other ≠ key := by
        rintro rfl
        exact (nodup_cons.mp distinct).1 member
      rw [insertRead, lookup_insert_ne different]
      exact unread other (mem_cons_of_mem _ member)
    | nil =>
      simp only [advance] at taken
      split_ifs at taken with empty
      · cases taken
        refine .inl ⟨rfl, by simp, rfl, ?_, fun sound => sound.1⟩
        rintro other result ⟨rfl, rfl⟩
        simpa using empty
      · cases taken
        refine .inl ⟨rfl, by simp, rfl, by simp, fun sound => ⟨sound.1, ?_⟩⟩
        simpa using empty
  | committing number tx out =>
    by_cases holds : tx.compares.all store.holds = true
    · simp only [advance, Store.txn, holds, if_true, some.injEq, Prod.mk.injEq] at taken
      exact .inr ⟨tx, out, ⟨number, rfl⟩, taken.2.symm, holds, taken.1.symm⟩
    · simp only [advance, Store.txn, holds] at taken
      obtain ⟨rfl, rfl⟩ := taken
      exact .inl ⟨rfl, by simp, rfl, by simp, fun _ => trivial⟩
  | returned tx out => cases taken
  | failed error => cases taken

/-- A request that is not carried out ends the call with an error. -/
theorem EtcdTxn.disconnect_quiet {cause : String} {phase next : Phase R}
    (taken : disconnect cause phase = some next) :
    Quiet store task phase next := by
  unfold disconnect at taken
  split at taken
  next =>
    split at taken
    · cases taken
    · cases taken
      exact ⟨by simp, rfl, by simp, fun _ => trivial⟩
  next =>
    cases taken
    exact ⟨by simp, rfl, by simp, fun _ => trivial⟩
  next =>
    cases taken
    exact ⟨by simp, rfl, by simp, fun _ => trivial⟩
  next => cases taken

/-! ## All calls -/

namespace Calls

variable {state : Calls R} {action : Action} {next : Calls R}

/-- A step moves one call, quietly or by a commit. -/
theorem step_cases (taken : state.step action = some next) :
    ∃ call : Call R, ∃ store phase,
      state.calls[action.call]? = some call ∧
        next = state.moveTo action.call call store phase ∧
        (store = state.store ∧ Quiet state.store call.txn.task call.phase phase ∨
          ∃ tx out, Commits state.store call.phase store phase tx out) := by
  obtain ⟨call, found, moved⟩ := bind_eq_some_iff.mp taken
  cases action with
  | advance index =>
    obtain ⟨⟨store, phase⟩, advanced, rfl⟩ := map_eq_some_iff.mp moved
    exact ⟨call, store, phase, found, rfl, advance_cases advanced⟩
  | disconnect index cause =>
    obtain ⟨phase, broken, rfl⟩ := map_eq_some_iff.mp moved
    exact ⟨call, state.store, phase, found, rfl, .inl ⟨rfl, disconnect_quiet broken⟩⟩

/-- The call returned `out` and had staged something. -/
def Wrote (state : Calls R) (index : Nat) (out : R) : Prop :=
  Exists fun call : Call R => Exists fun tx =>
    state.calls[index]? = some call ∧ call.phase = .returned tx out ∧ tx.writes.entries ≠ []

/-- The committed calls one at a time give the store and the results of all
calls that have returned with something staged. -/
structure Serialized (txns : List (EtcdTxn R)) (view : View) (state : Calls R) : Prop where
  once : state.committed.Nodup
  wrote : forall index, index ∈ state.committed ↔ Exists fun out => state.Wrote index out
  store : (serially txns state.committed view).2 = state.store.values
  results : forall index out, state.Wrote index out ->
    (index, .ok out) ∈ (serially txns state.committed view).1

/-- The invariant of all calls together. -/
structure Inv (txns : List (EtcdTxn R)) (view : View) (state : Calls R) : Prop where
  closures : state.calls.map Call.txn = txns
  sound : forall (index : Nat) (call : Call R), state.calls[index]? = some call ->
    call.phase.Sound state.store call.txn.task
  serialized : Serialized txns view state

theorem inv_initial (store : Store) (txns : List (EtcdTxn R)) :
    Inv txns store.values (initial store txns) where
  closures := by simp [initial, comp_def]
  sound := by
    intro index call found
    simp only [initial, getElem?_map, map_eq_some_iff] at found
    obtain ⟨txn, _, rfl⟩ := found
    trivial
  serialized := by
    have none_ : ∀ index out, ¬ (initial store txns).Wrote index out := by
      rintro index out ⟨call, tx, found, returned, _⟩
      simp only [initial, getElem?_map, map_eq_some_iff] at found
      obtain ⟨txn, _, rfl⟩ := found
      cases returned
    refine ⟨nodup_nil, ?_, rfl, ?_⟩
    · intro index
      simpa [initial] using none_ index
    · intro index out wrote
      exact absurd wrote (none_ index out)

variable {index : Nat} {call : Call R} {phase : Phase R}

theorem wrote_moveTo {other : Nat} (found : state.calls[index]? = some call) :
    (state.moveTo index call store phase).Wrote other out ↔
      if other = index then
        ∃ tx, phase = .returned tx out ∧ tx.writes.entries ≠ []
      else
        state.Wrote other out := by
  have inside : index < state.calls.length := List.getElem?_eq_some_iff.mp found |>.1
  split_ifs with same
  · subst same
    simp [Wrote, moveTo, inside]
  · simp [Wrote, moveTo, getElem?_set_ne (Ne.symm same)]

theorem serially_concat (txns : List (EtcdTxn R)) (order : List Nat) (index : Nat) (view : View)
    (found : txns[index]? = some txn) :
    serially txns (order ++ [index]) view =
      ((serially txns order view).1 ++
          [(index, (txn.task.atomically (serially txns order view).2).1)],
        (txn.task.atomically (serially txns order view).2).2) := by
  induction order generalizing view with
  | nil => simp [serially, found]
  | cons first order ih =>
    cases entry : txns[first]? with
    | none | some => simp only [cons_append, serially, entry, ih]

variable {txns : List (EtcdTxn R)} {view : View}

/-- A quiet step changes no result and no contents. -/
theorem Serialized.quiet (old : Serialized txns view state)
    (found : state.calls[index]? = some call)
    (quiet : Quiet state.store call.txn.task call.phase phase) :
    Serialized txns view (state.moveTo index call state.store phase) := by
  have same : ∀ other out,
      (state.moveTo index call state.store phase).Wrote other out ↔ state.Wrote other out := by
    intro other out
    rw [wrote_moveTo found]
    split_ifs with here
    · subst here
      constructor
      · rintro ⟨tx, returned, staged⟩
        exact absurd (quiet.empty tx out returned) staged
      · rintro ⟨caller, tx, present, returned, _⟩
        rw [found] at present
        cases present
        exact absurd returned (quiet.active tx out)
    · exact Iff.rfl
  have order : (state.moveTo index call state.store phase).committed = state.committed := by
    simp only [moveTo, quiet.local_, Bool.false_eq_true, if_false]
  constructor
  · rw [order]
    exact old.once
  · intro other
    simp only [order, same]
    exact old.wrote other
  · rw [order]
    exact old.store
  · intro other out wrote
    rw [order]
    exact old.results other out ((same other out).mp wrote)

/-- A commit is the serial execution of its closure after the earlier ones. -/
theorem Serialized.commit (inv : Inv txns view state) (found : state.calls[index]? = some call)
    (commits : Commits state.store call.phase store phase tx out) :
    Serialized txns view (state.moveTo index call store phase) := by
  obtain ⟨⟨number, before⟩, rfl, holds, rfl⟩ := commits
  obtain ⟨attempt, staged⟩ : Attempt state.store call.txn.task tx (.done (.ok out)) ∧
      tx.writes.entries ≠ [] := by
    have sound := inv.sound index call found
    rw [before] at sound
    exact sound
  have closure : txns[index]? = some call.txn := by
    rw [← inv.closures, getElem?_map, found]
    rfl
  have executed : call.txn.task.atomically state.store.values =
      (.ok out, (state.store.apply tx.writes).values) := by
    rw [Task.atomically, attempt.exec_of_holds holds]
  have order : (state.moveTo index call (state.store.apply tx.writes)
      (.returned tx out)).committed = state.committed ++ [index] := by
    simp only [moveTo, before, commits, if_true]
  have fresh : index ∉ state.committed := by
    intro member
    obtain ⟨result, caller, other, present, returned, _⟩ := (inv.serialized.wrote index).mp member
    rw [found] at present
    cases present
    rw [before] at returned
    cases returned
  have serial := serially_concat txns state.committed index view closure
  rw [inv.serialized.store, executed] at serial
  constructor
  · rw [order, nodup_append]
    refine ⟨inv.serialized.once, by simp, ?_⟩
    rintro first member second last rfl
    rw [mem_singleton] at last
    exact fresh (last ▸ member)
  · intro other
    rw [order, mem_append, mem_singleton]
    simp only [wrote_moveTo found]
    split_ifs with here
    · subst here
      simpa using staged
    · rw [← inv.serialized.wrote other]
      simp [here]
  · rw [order, serial]
    rfl
  intro other result wrote
  rw [order, serial]
  rw [wrote_moveTo found] at wrote
  split_ifs at wrote with here
  · subst here
    obtain ⟨_, returned, _⟩ := wrote
    cases returned
    simp
  · exact mem_append_left _ (inv.serialized.results other result wrote)

theorem step_inv (inv : Inv txns view state)
    (taken : state.step action = some next) : Inv txns view next := by
  obtain ⟨call, store, phase, found, rfl, kind⟩ := step_cases taken
  have later : state.store.Later store := by
    rcases kind with ⟨rfl, _⟩ | ⟨tx, out, commits⟩
    · exact Store.Later.refl _
    · rw [commits.applied]
      exact Store.Later.apply _ _
  constructor
  · rw [← inv.closures]
    apply ext_getElem?
    intro index
    by_cases here : action.call = index
    · subst here
      have inside : action.call < state.calls.length := (List.getElem?_eq_some_iff.mp found).1
      simp only [moveTo, getElem?_map, getElem?_set_self inside, found, map_some]
    · simp only [moveTo, getElem?_map, getElem?_set_ne here]
  · intro index moved present
    rcases Slots.getElem?_set_eq_some_iff.mp present with ⟨_, _, rfl⟩ | ⟨_, old⟩
    · have sound := inv.sound _ call found
      rcases kind with ⟨rfl, quiet⟩ | ⟨tx, out, commits⟩
      · exact quiet.sound sound
      · obtain ⟨⟨number, before⟩, rfl, _, _⟩ := commits
        rw [before] at sound
        exact sound.1.later later
    · exact (inv.sound index moved old).later later
  · rcases kind with ⟨rfl, quiet⟩ | ⟨tx, out, commits⟩
    · exact inv.serialized.quiet found quiet
    · exact Serialized.commit inv found commits

variable {actions : List Action} {final : Calls R}

theorem inv_of_run (run : Run step anyStep (initial store txns) actions final) :
    Inv txns store.values final :=
  run.invariant (Inv txns store.values) (inv_initial store txns)
    fun _ _ _ inv _ taken => step_inv inv taken

/-- A call that has returned stays as it is. -/
theorem returned_of_run {start : Calls R} (found : start.calls[index]? = some call)
    (returned : call.phase = .returned tx out)
    (run : Run step anyStep start actions final) :
    final.calls[index]? = some call := by
  refine run.invariant (fun state => state.calls[index]? = some call) found ?_
  intro state action next same _ taken
  obtain ⟨moved, store, phase, present, rfl, kind⟩ := step_cases taken
  have elsewhere : action.call ≠ index := by
    intro here
    rw [here, same] at present
    cases present
    rcases kind with ⟨_, quiet⟩ | ⟨_, _, commits⟩
    · exact quiet.active tx out returned
    · obtain ⟨number, before⟩ := commits.before
      rw [returned] at before
      cases before
  simp only [moveTo]
  rw [getElem?_set_ne elsewhere]
  exact same

/-- A step of a call that ends with an error did not touch the store. -/
theorem store_of_failed {error : MetaError} (taken : state.step action = some next)
    (run : Run step anyStep next actions final)
    (found : final.calls[action.call]? = some call) (failed : call.phase = .failed error) :
    next.store = state.store := by
  obtain ⟨moved, store, phase, present, rfl, kind⟩ := step_cases taken
  rcases kind with ⟨rfl, _⟩ | ⟨tx, out, commits⟩
  · rfl
  have inside : action.call < state.calls.length := (List.getElem?_eq_some_iff.mp present).1
  have here : (state.moveTo action.call moved store phase).calls[action.call]? =
      some { moved with phase := phase } := by
    simp only [moveTo]
    rw [getElem?_set_self inside]
  have still := returned_of_run here commits.returned run
  rw [still] at found
  cases found
  have impossible : phase = .failed error := failed
  rw [commits.returned] at impossible
  cases impossible

/-- The context of a call, while it has one. -/
def tx? (state : Calls R) (index : Nat) : Option EtcdTxnCtx :=
  state.calls[index]?.bind fun call =>
    match call.phase with
    | .running _ tx _ | .baselining _ tx _ _ | .committing _ tx _ | .returned tx _ => some tx
    | .attempt _ | .failed _ => none

theorem readsStaged_of_inv (inv : Inv txns view state)
    (present : state.tx? index = some tx) : ReadsStaged tx.trace := by
  obtain ⟨call, found, context⟩ := bind_eq_some_iff.mp present
  have sound := inv.sound index call found
  revert sound context
  cases call.phase with
  | attempt number => simp
  | failed error => simp
  | running | returned =>
    rintro ⟨⟩ sound
    exact sound.traced
  | baselining | committing =>
    rintro ⟨⟩ sound
    exact sound.1.traced

/-- Transactions are serializable.  For any closures, in every state of every
interleaving: the calls that returned with something staged are the committed
ones, each once, and executing their closures one at a time in the order of the
commits gives the contents of the store and their results.  No step of a call
that ends with an error changes the store.  A closure reads what it has staged. -/
theorem serializable {R : Type u} (store : Store) (txns : List (EtcdTxn R))
    {actions : List Action} {final : Calls R}
    (run : Run step anyStep (initial store txns) actions final) :
    Serialized txns store.values final ∧
      (forall before state action next after call error,
        Run step anyStep (initial store txns) before state ->
        state.step action = some next ->
        Run step anyStep next after final ->
        final.calls[action.call]? = some call -> call.phase = .failed error ->
        next.store = state.store) ∧
      (forall index tx, final.tx? index = some tx -> ReadsStaged tx.trace) := by
  have inv := inv_of_run run
  refine ⟨inv.serialized, ?_, ?_⟩
  · intro before state action next after call error _ taken rest found failed
    exact store_of_failed taken rest found failed
  · intro index tx present
    exact readsStaged_of_inv inv present

/-- Add a byte to the value of a key, and return the old length. -/
def appendByte (key : String) (byte : UInt8) : Task Nat :=
  .get key fun value =>
    let bytes := value.getD .empty
    .set key (bytes.push byte) none (.done (.ok bytes.size))

/-- Two calls that append to the same key.  The second one commits while the
first is in its closure, so the first one runs twice. -/
theorem serializable_two_appends :
    Exists fun final : Calls Nat =>
      (final.committed = [1, 0] ∧ (final.store.values "k").map Entry.value = some ⟨#[2, 1]⟩) ∧
      Serialized [⟨appendByte "k" 1, 10⟩, ⟨appendByte "k" 2, 10⟩] Store.empty.values final := by
  obtain ⟨final, run, observed⟩ : ∃ final, Run step anyStep
      (initial Store.empty [⟨appendByte "k" 1, 10⟩, ⟨appendByte "k" 2, 10⟩])
      ([0, 0, 1, 1, 1, 1, 1, 1, 0, 0, 0, 0, 0, 0, 0, 0, 0, 0].map Action.advance) final ∧
      final.committed = [1, 0] ∧ (final.store.values "k").map Entry.value = some ⟨#[2, 1]⟩ :=
    exists_run (by decide +kernel)
  exact ⟨final, observed, (serializable _ _ run).1⟩

end Calls

end Rk8s.Slayerfs.Etcd
