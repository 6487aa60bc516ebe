import Mathlib.Data.List.Infix
import Mathlib.Tactic.Ring

namespace Rk8s.Xline.Curp

/-!
# The log of a Curp node

The log in memory is a queue of entries behind a base: entries that have been
applied long ago are popped from its front.  Their index and term are remembered
for the last one only.  The model keeps the popped entries in `compacted`, which no
function reads; `Log.full` is what the log would be without compaction.

How the queue is cut into batches for sending, how far commands have been executed,
and configuration changes, are left out.
-/

abbrev ServerId := Nat

structure ProposeId where
  clientId : Nat
  seqNum : Nat
deriving DecidableEq

inductive EntryData (Cmd : Type) where
  | empty
  | command (cmd : Cmd)
  | shutdown
  | setNodeState (nodeId : ServerId) (name : String) (clientUrls : List String)
deriving DecidableEq

structure LogEntry (Cmd : Type) where
  index : Nat
  term : Nat
  proposeId : ProposeId
  data : EntryData Cmd
deriving DecidableEq

structure Log (Cmd : Type) where
  compacted : List (LogEntry Cmd)
  entries : List (LogEntry Cmd)
  baseIndex : Nat
  baseTerm : Nat
  commitIndex : Nat
  lastAs : Nat
  entriesCap : Nat

namespace Log

variable {Cmd : Type}

def new (entriesCap : Nat) : Log Cmd where
  compacted := []
  entries := []
  baseIndex := 0
  baseTerm := 0
  commitIndex := 0
  lastAs := 0
  entriesCap := entriesCap

variable (log : Log Cmd)

def full : List (LogEntry Cmd) := log.compacted ++ log.entries

def lastLogIndex : Nat :=
  log.entries.getLast?.elim log.baseIndex LogEntry.index

def lastLogTerm : Nat :=
  log.entries.getLast?.elim log.baseTerm LogEntry.term

/-- The position in the queue of a logical index. -/
def liToPi (i : Nat) : Nat := i - log.baseIndex - 1

def get (i : Nat) : Option (LogEntry Cmd) :=
  if log.baseIndex < i then log.entries[log.liToPi i]? else none

/-- The entry at an index, or the base, has a term. -/
def precedes (prevLogIndex prevLogTerm : Nat) : Bool :=
  match log.get prevLogIndex with
  | none => (log.baseIndex, log.baseTerm) == (prevLogIndex, prevLogTerm)
  | some entry => entry.term == prevLogTerm

/-- How many entries at the front of `sent` have the term of the entry in their
place. -/
def matching : (present sent : List (LogEntry Cmd)) -> Nat
  | own :: present, entry :: sent => if own.term = entry.term then matching present sent + 1 else 0
  | _, _ => 0

/-- Append the entries behind the one before them, and cut off all that does not
match.  The result is what is new, and has to be persisted. -/
def tryAppendEntries (entries : List (LogEntry Cmd)) (prevLogIndex prevLogTerm : Nat) :
    Except (List (LogEntry Cmd)) (List (LogEntry Cmd) × Log Cmd) :=
  if !log.precedes prevLogIndex prevLogTerm then .error entries
  else
    let start := log.liToPi (prevLogIndex + 1)
    let same := matching (log.entries.drop start) entries
    let toPersist := entries.drop same
    .ok (toPersist, { log with entries := log.entries.take (start + same) ++ toPersist })

def logUpToDate (lastLogTerm lastLogIndex : Nat) : Bool :=
  if lastLogTerm = log.lastLogTerm then log.lastLogIndex ≤ lastLogIndex
  else log.lastLogTerm < lastLogTerm

def push (term : Nat) (proposeId : ProposeId) (data : EntryData Cmd) : LogEntry Cmd × Log Cmd :=
  let entry := ⟨log.lastLogIndex + 1, term, proposeId, data⟩
  (entry, { log with entries := log.entries ++ [entry] })

/-- The term and index of the entry before an index, if it is still there. -/
def getPrevEntryInfo (i : Nat) : Option (Nat × Nat) :=
  if log.baseIndex + 1 = i then some (log.baseIndex, log.baseTerm)
  else (log.get (i - 1)).map fun entry => (entry.index, entry.term)

/-- Pop entries that were applied long ago. -/
def compact : Log Cmd :=
  match log.entries.head? with
  | none => log
  | some first =>
    if log.lastAs ≤ first.index ∨ log.lastAs - first.index < log.entriesCap then log
    else
      let popped := log.entries.takeWhile fun entry =>
        entry.index ≤ log.lastAs - log.entriesCap
      { log with
        compacted := log.compacted ++ popped
        entries := log.entries.drop popped.length
        baseIndex := popped.getLast?.elim log.baseIndex LogEntry.index
        baseTerm := popped.getLast?.elim log.baseTerm LogEntry.term }

/-- Hand the entries up to the commit index to after sync. -/
def apply : Log Cmd :=
  compact { log with lastAs := max log.lastAs log.commitIndex }

def getCmdIds : List ProposeId := log.entries.map LogEntry.proposeId

/-- The log of a node that starts with entries from its storage. -/
def restore (entriesCap lastApplied : Nat) (entries : List (LogEntry Cmd)) : Log Cmd :=
  if entries.isEmpty then new entriesCap
  else
    compact { (new entriesCap : Log Cmd) with
      lastAs := lastApplied, commitIndex := lastApplied, entries := entries }

end Log
end Rk8s.Xline.Curp
