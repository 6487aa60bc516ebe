import Rk8s.Lib.Transition
import Rk8s.Xline.Curp.Log

namespace Rk8s.Xline.Curp

open Transition List

/-!
# The command worker

Committed entries reach the worker in batches.  It gives all commands of a batch
to the command executor in one call, and afterwards goes through the other
entries.  The executor writes the applied index together with the effects of the
commands; the other entries write it one by one.

After a restart the node applies its log from the applied index on.
-/

/-- What a committed entry holds.  Changes of the configuration are entries of
the log, too; the worker only looks at their index. -/
inductive CommittedData (Cmd : Type) where
  | empty
  | command (cmd : Cmd)
  | confChange
  | shutdown
  | setNodeState (nodeId : ServerId) (name : String) (clientUrls : List String)

structure AfterSyncEntry (Cmd : Type) where
  index : Nat
  data : CommittedData Cmd

/-- The command executor, as far as the worker sees it: the persisted applied
index, and the commands that were applied, each with the index of its entry. -/
structure CommandExecutor (Cmd : Type) where
  lastApplied : Nat := 0
  applied : List (Nat × Cmd) := []

namespace CmdWorker

variable {Cmd : Type}

def commandOf (entry : AfterSyncEntry Cmd) : Option (Nat × Cmd) :=
  match entry.data with
  | .command cmd => some (entry.index, cmd)
  | _ => none

def isCommand (entry : AfterSyncEntry Cmd) : Bool :=
  match entry.data with
  | .command _ => true
  | _ => false

/-- After sync cmd entries.  The highest index is that of the last command. -/
def afterSyncCmds (cmdEntries : List (AfterSyncEntry Cmd)) (ce : CommandExecutor Cmd) :
    CommandExecutor Cmd :=
  match cmdEntries.getLast? with
  | none => ce
  | some last =>
    { lastApplied := last.index
      applied := ce.applied ++ cmdEntries.filterMap commandOf }

/-- After sync one entry other than cmd.  The no-op entry writes nothing. -/
def afterSyncOther (ce : CommandExecutor Cmd) (entry : AfterSyncEntry Cmd) : CommandExecutor Cmd :=
  match entry.data with
  | .empty => ce
  | .shutdown => { ce with lastApplied := entry.index }
  | .confChange => { ce with lastApplied := entry.index }
  | .setNodeState _ _ _ => { ce with lastApplied := entry.index }
  | .command _ => ce

def afterSyncOthers (others : List (AfterSyncEntry Cmd)) (ce : CommandExecutor Cmd) :
    CommandExecutor Cmd :=
  others.foldl afterSyncOther ce

/-- Cmd worker after sync handler. -/
def afterSync (entries : List (AfterSyncEntry Cmd)) (ce : CommandExecutor Cmd) :
    CommandExecutor Cmd :=
  let (cmdEntries, others) := entries.partition isCommand
  afterSyncOthers others (afterSyncCmds cmdEntries ce)

/-! ## One batch -/

/-- Whether applying the entry records an applied index. -/
def records (entry : AfterSyncEntry Cmd) : Bool :=
  match entry.data with
  | .empty => false
  | _ => true

/-- The entries of a batch that record an applied index and are no commands. -/
def recordingOthers (entries : List (AfterSyncEntry Cmd)) : List (AfterSyncEntry Cmd) :=
  entries.filter fun entry => records entry && !isCommand entry

/-- The index of the last entry that records one. -/
def lastRecorded (entries : List (AfterSyncEntry Cmd)) : Option Nat :=
  (entries.filter records).getLast?.map AfterSyncEntry.index

/-- Only commands record an applied index, or the last entry that records one is
no command. -/
def EndsWithOther (entries : List (AfterSyncEntry Cmd)) : Prop :=
  recordingOthers entries = [] ∨ ((entries.filter records).getLast?.map isCommand) = some false
deriving [DecidableEq Cmd] -> Decidable _

/-- The indices of a batch ascend. -/
def Ascending (entries : List (AfterSyncEntry Cmd)) : Prop :=
  entries.Pairwise fun earlier later => earlier.index < later.index

section

variable (entries : List (AfterSyncEntry Cmd))
include entries

omit entries in
theorem afterSyncOthers_eq (others : List (AfterSyncEntry Cmd)) (ce : CommandExecutor Cmd) :
    afterSyncOthers others ce =
      { ce with
        lastApplied :=
          ((recordingOthers others).getLast?.map AfterSyncEntry.index).getD ce.lastApplied } := by
  induction others using List.reverseRecOn with
  | nil => rfl
  | append_singleton others entry ih =>
    have snoc : afterSyncOthers (others ++ [entry]) ce =
        afterSyncOther (afterSyncOthers others ce) entry := by
      simp [afterSyncOthers]
    rw [snoc, ih]
    unfold afterSyncOther recordingOthers
    rw [filter_append, filter_singleton]
    cases kind : entry.data <;> simp [records, isCommand, kind]

variable (ce : CommandExecutor Cmd)

theorem afterSync_eq :
    afterSync entries ce =
      afterSyncOthers (entries.filter fun entry => !isCommand entry)
        (afterSyncCmds (entries.filter isCommand) ce) := by
  rw [afterSync, partition_eq_filter_filter]
  rfl

/-- The applied index after a batch is that of the last other entry that records
one; only if there is none it is that of the last command. -/
theorem lastApplied_afterSync :
    (afterSync entries ce).lastApplied =
      ((recordingOthers entries).getLast?.map AfterSyncEntry.index).getD
        (((entries.filter isCommand).getLast?.map AfterSyncEntry.index).getD ce.lastApplied) := by
  have others : recordingOthers (entries.filter fun entry => !isCommand entry) =
      recordingOthers entries := by
    simp [recordingOthers]
  rw [afterSync_eq, afterSyncOthers_eq, others]
  unfold afterSyncCmds
  cases (entries.filter isCommand).getLast? <;> rfl

theorem applied_afterSync :
    (afterSync entries ce).applied = ce.applied ++ entries.filterMap commandOf := by
  have commands : (entries.filter isCommand).filterMap commandOf = entries.filterMap commandOf := by
    induction entries with
    | nil => rfl
    | cons entry entries ih =>
      cases kind : entry.data <;> simp [isCommand, commandOf, kind, ih]
  rw [afterSync_eq, afterSyncOthers_eq]
  simp only [afterSyncCmds]
  cases last : (entries.filter isCommand).getLast? with
  | some entry => simp [commands]
  | none =>
    rw [getLast?_eq_none_iff] at last
    rw [← commands, last]
    simp

theorem recordingOthers_eq :
    recordingOthers entries = (entries.filter records).filter fun entry => !isCommand entry := by
  simp [recordingOthers, Bool.and_comm]

theorem filter_isCommand_eq :
    entries.filter isCommand = (entries.filter records).filter isCommand := by
  rw [filter_filter]
  refine filter_congr fun entry _ => ?_
  cases kind : entry.data <;> simp [isCommand, records, kind]

end

variable {entries : List (AfterSyncEntry Cmd)}

/-- After a batch the applied index is that of the last entry that records one,
if and only if no command comes after the last other entry that does. -/
theorem lastApplied_eq_iff (ascending : Ascending entries) (ce : CommandExecutor Cmd) :
    (afterSync entries ce).lastApplied = (lastRecorded entries).getD ce.lastApplied ↔
      EndsWithOther entries := by
  have sorted : Ascending (entries.filter records) := ascending.sublist filter_sublist
  rw [lastApplied_afterSync, lastRecorded, EndsWithOther, recordingOthers_eq, filter_isCommand_eq]
  rcases eq_nil_or_concat (entries.filter records) with none | ⟨earlier, last, parts⟩
  · simp [none]
  rw [parts, concat_eq_append] at sorted ⊢
  have before := (pairwise_append.mp sorted).2.2
  cases kind : isCommand last with
  | false => simp [kind]
  | true =>
    simp only [filter_append, filter_singleton, kind, Bool.not_true, cond_false, append_nil,
      getLast?_append, getLast?_singleton, Option.some_or, Option.map_some, Option.some.injEq,
      Bool.true_eq_false, or_false]
    cases other : (earlier.filter fun entry => !isCommand entry).getLast? with
    | none => simpa using getLast?_eq_none_iff.mp other
    | some entry =>
      have member := mem_of_getLast? other
      have lower := before entry (mem_filter.mp member).1 last (by simp)
      have nonempty : (earlier.filter fun entry => !isCommand entry) ≠ [] := ne_nil_of_mem member
      simp only [Option.map_some, Option.getD_some, nonempty, iff_false]
      omega

variable {entry : AfterSyncEntry Cmd}

theorem le_lastRecorded (ascending : Ascending entries) (member : entry ∈ entries)
    (recorded : records entry = true) :
    ∃ last, lastRecorded entries = some last ∧ entry.index ≤ last := by
  have sorted : Ascending (entries.filter records) := ascending.sublist filter_sublist
  have filtered : entry ∈ entries.filter records := mem_filter.mpr ⟨member, recorded⟩
  unfold lastRecorded
  rcases eq_nil_or_concat (entries.filter records) with none | ⟨earlier, last, parts⟩
  · simp [none] at filtered
  rw [parts, concat_eq_append] at sorted filtered ⊢
  refine ⟨last.index, by simp, ?_⟩
  rcases mem_append.mp filtered with before | isLast
  · exact le_of_lt ((pairwise_append.mp sorted).2.2 entry before last (by simp))
  · rw [mem_singleton.mp isLast]

theorem exists_of_lastRecorded {last : Nat} (isLast : lastRecorded entries = some last) :
    ∃ entry ∈ entries, entry.index = last := by
  obtain ⟨entry, found, rfl⟩ := Option.map_eq_some_iff.mp isLast
  exact ⟨entry, (mem_filter.mp (mem_of_getLast? found)).1, rfl⟩

theorem commandOf_eq_some {applied : Nat × Cmd} (isCommand : commandOf entry = some applied) :
    entry.index = applied.1 ∧ records entry = true := by
  cases kind : entry.data <;> simp [commandOf, kind] at isCommand
  exact ⟨by rw [← isCommand], by simp [records, kind]⟩

/-- A batch beyond the applied index does not move it backwards. -/
theorem lastApplied_le_afterSync {ce : CommandExecutor Cmd}
    (beyond : ∀ entry ∈ entries, ce.lastApplied < entry.index) :
    ce.lastApplied ≤ (afterSync entries ce).lastApplied := by
  rw [lastApplied_afterSync]
  cases other : (recordingOthers entries).getLast? with
  | some entry =>
    exact le_of_lt (beyond entry (mem_filter.mp (mem_of_getLast? other)).1)
  | none =>
    cases command : (entries.filter isCommand).getLast? with
    | some entry =>
      exact le_of_lt (beyond entry (mem_filter.mp (mem_of_getLast? command)).1)
    | none => exact le_rfl

/-! ## Runs with restarts -/

/-- A node with its executor: the entries up to `lastAs` have been handed to the
worker since the last restart. -/
structure Node (Cmd : Type) where
  ce : CommandExecutor Cmd := {}
  lastAs : Nat := 0

inductive Action
  /-- The entries up to the commit index are applied. -/
  | apply (commitIndex : Nat)
  | restart

/-- The committed log: what each index holds. -/
abbrev CommittedLog (Cmd : Type) := Nat -> CommittedData Cmd

def batch (log : CommittedLog Cmd) (lastAs commitIndex : Nat) : List (AfterSyncEntry Cmd) :=
  (List.range' (lastAs + 1) (commitIndex - lastAs)).map fun index => { index, data := log index }

def step (log : CommittedLog Cmd) (node : Node Cmd) : Action -> Option (Node Cmd)
  | .apply commitIndex =>
    some
      { ce := afterSync (batch log node.lastAs commitIndex) node.ce
        lastAs := max node.lastAs commitIndex }
  | .restart => some { node with lastAs := node.ce.lastApplied }

/-- No batch has a command after the last other entry that records an index. -/
def inOrder (log : CommittedLog Cmd) (node : Node Cmd) : Action -> Prop
  | .apply commitIndex => EndsWithOther (batch log node.lastAs commitIndex)
  | .restart => True

instance [DecidableEq Cmd] (log : CommittedLog Cmd) (node : Node Cmd) (action : Action) :
    Decidable (inOrder log node action) := by
  cases action <;> unfold inOrder <;> infer_instance

variable {log : CommittedLog Cmd}

theorem bounds_of_mem_batch {lastAs commitIndex : Nat}
    (member : entry ∈ batch log lastAs commitIndex) :
    lastAs < entry.index ∧ entry.index ≤ commitIndex := by
  obtain ⟨index, within, rfl⟩ := mem_map.mp member
  rw [mem_range'_1] at within
  dsimp only
  omega

theorem distinct_commands (ascending : Ascending entries) :
    ((entries.filterMap commandOf).map Prod.fst).Nodup := by
  rw [nodup_iff_pairwise_ne, pairwise_map, pairwise_filterMap]
  refine ascending.imp ?_
  intro earlier later less first isFirst second isSecond same
  rw [← (commandOf_eq_some isFirst).1, ← (commandOf_eq_some isSecond).1] at same
  omega

/-- The commands up to the applied index have been applied once. -/
structure Inv (node : Node Cmd) : Prop where
  distinct : (node.ce.applied.map Prod.fst).Nodup
  upTo : forall entry, entry ∈ node.ce.applied -> entry.1 ≤ node.ce.lastApplied
  bounded : node.ce.lastApplied ≤ node.lastAs

theorem Inv.step {node next : Node Cmd} {action : Action} (inv : Inv node)
    (ordered : inOrder log node action) (taken : CmdWorker.step log node action = some next) :
    Inv next := by
  cases action with
  | restart =>
    cases taken
    exact ⟨inv.distinct, inv.upTo, le_rfl⟩
  | apply commitIndex =>
    cases taken
    set entries := batch log node.lastAs commitIndex
    have ascending : Ascending entries := pairwise_map.mpr pairwise_lt_range'
    have last := (lastApplied_eq_iff ascending node.ce).mpr ordered
    have recorded : ∀ entry ∈ entries, records entry = true ->
        entry.index ≤ (afterSync entries node.ce).lastApplied := by
      intro entry member isRecorded
      obtain ⟨index, isLast, le⟩ := le_lastRecorded ascending member isRecorded
      rw [last, isLast]
      exact le
    have forward : node.ce.lastApplied ≤ (afterSync entries node.ce).lastApplied :=
      lastApplied_le_afterSync fun entry member =>
        inv.bounded.trans_lt (bounds_of_mem_batch member).1
    have newer : ∀ entry ∈ entries.filterMap commandOf,
        node.lastAs < entry.1 ∧ entry.1 ≤ (afterSync entries node.ce).lastApplied := by
      intro entry member
      obtain ⟨source, isSource, isCommand⟩ := mem_filterMap.mp member
      obtain ⟨same, isRecorded⟩ := commandOf_eq_some isCommand
      rw [← same]
      exact ⟨(bounds_of_mem_batch isSource).1, recorded source isSource isRecorded⟩
    constructor
    · dsimp only
      rw [applied_afterSync, map_append]
      refine nodup_append.mpr ⟨inv.distinct, distinct_commands ascending, ?_⟩
      intro old isOld new isNew same
      obtain ⟨oldEntry, isOldEntry, rfl⟩ := mem_map.mp isOld
      obtain ⟨newEntry, isNewEntry, rfl⟩ := mem_map.mp isNew
      have le := inv.upTo oldEntry isOldEntry
      have bounded := inv.bounded
      have lt := (newer newEntry isNewEntry).1
      omega
    · intro entry member
      rw [applied_afterSync] at member
      rcases mem_append.mp member with old | new
      · exact le_trans (inv.upTo entry old) forward
      · exact (newer entry new).2
    · dsimp only
      rw [last]
      cases isLast : lastRecorded entries with
      | none => exact le_trans inv.bounded (le_max_left ..)
      | some index =>
        obtain ⟨entry, member, rfl⟩ := exists_of_lastRecorded isLast
        exact le_trans (bounds_of_mem_batch member).2 (le_max_right ..)

/-- After a batch the applied index is the one recorded last exactly if the batch
does not end with a command that follows another recording entry, and it never
moves backwards.  If all batches are in order, no command is applied twice, with
any number of restarts. -/
theorem lastApplied_exact (Cmd : Type) :
    (forall (entries : List (AfterSyncEntry Cmd)) (ce : CommandExecutor Cmd), Ascending entries ->
      (forall entry, entry ∈ entries -> ce.lastApplied < entry.index) ->
        ((afterSync entries ce).lastApplied = (lastRecorded entries).getD ce.lastApplied ↔
          EndsWithOther entries) ∧ ce.lastApplied ≤ (afterSync entries ce).lastApplied) ∧
    forall (log : CommittedLog Cmd) (actions : List Action) (node : Node Cmd),
      Run (step log) (inOrder log) {} actions node -> (node.ce.applied.map Prod.fst).Nodup := by
  constructor
  · intro entries ce ascending beyond
    exact ⟨lastApplied_eq_iff ascending ce, lastApplied_le_afterSync beyond⟩
  intro log actions node run
  have initial : Inv ({} : Node Cmd) := ⟨nodup_nil, by simp, le_rfl⟩
  have inv := run.invariant Inv initial
    fun _ _ _ inv ordered taken => inv.step ordered taken
  exact inv.distinct

/-- A command, and after it a change of the configuration. -/
def commandFirst : CommittedLog Nat
  | 1 => .command 7
  | 2 => .confChange
  | _ => .empty

theorem lastApplied_exact_command_first :
    (afterSync (batch commandFirst 0 2) {}).lastApplied = 2 ∧
      Exists fun node : Node Nat =>
        Run (step commandFirst) (inOrder commandFirst) {}
          [.apply 2, .restart, .apply 3] node ∧ (node.ce.applied.map Prod.fst).Nodup := by
  have exact := lastApplied_exact Nat
  constructor
  · have ends : EndsWithOther (batch commandFirst 0 2) := by decide
    exact ((exact.1 _ {} (pairwise_map.mpr pairwise_lt_range') (by decide)).1.mpr ends).trans
      (by decide)
  have executed : (execute (step commandFirst) (inOrder commandFirst) {}
      [.apply 2, .restart, .apply 3]).isSome := by decide
  obtain ⟨node, executed⟩ := Option.isSome_iff_exists.mp executed
  have run := run_of_execute executed
  exact ⟨node, run, exact.2 commandFirst _ node run⟩

/-- A change of the configuration, and after it a command. -/
def commandLast : CommittedLog Nat
  | 1 => .confChange
  | 2 => .command 7
  | _ => .empty

/-- The two entries in one batch leave the applied index at the first of them,
although the command is applied.  After a restart it is applied again. -/
theorem afterSync_applies_command_twice :
    (afterSync (batch commandLast 0 2) {}).lastApplied = 1 ∧
      lastRecorded (batch commandLast 0 2) = some 2 ∧
      Exists fun node : Node Nat =>
        Run (step commandLast) anyStep {}
          [.apply 2, .restart, .apply 2] node ∧ node.ce.applied = [(2, 7), (2, 7)] :=
  ⟨by decide, by decide, _, run_of_execute rfl, by decide⟩

end CmdWorker
end Rk8s.Xline.Curp
