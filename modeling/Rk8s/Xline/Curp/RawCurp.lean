import Mathlib.Data.Finset.Card
import Mathlib.Data.List.AList
import Rk8s.Xline.Curp.Log

namespace Rk8s.Xline.Curp

/-!
# The handlers of a Curp node

`RawCurp` is the state of one node with the handlers that change it.  Each handler
takes the locks it needs and runs as one step.  The membership is fixed, so the
cluster is a parameter.  Left out are timers (whether a timeout has passed is an
argument), snapshots, leader transfer, leases and the command board.

The speculative pool is made of objects that the user of the crate supplies, so it is
a parameter as well.
-/

structure PoolEntry (Cmd : Type) where
  id : ProposeId
  cmd : Cmd
deriving DecidableEq

/-- The operations of a speculative pool.  `insert` returns the entry that could not be
inserted because of a conflict. -/
structure PoolOps (Cmd Pool : Type) where
  insert : Pool -> PoolEntry Cmd -> Option (PoolEntry Cmd) × Pool
  remove : Pool -> PoolEntry Cmd -> Pool
  all : Pool -> List (PoolEntry Cmd)

/-- A cluster with fixed voters.  Every node starts with the pool `emptyPool`. -/
structure Cluster (Cmd Pool : Type) where
  voters : Finset ServerId
  nonempty : voters.Nonempty
  pools : PoolOps Cmd Pool
  emptyPool : Pool
  entriesCap : Nat

def quorum (size : Nat) : Nat := size / 2 + 1

/-- The smallest number of servers that must have a command in their speculative pool
for it to be recovered. -/
def recoverQuorum (size : Nat) : Nat := quorum size / 2 + 1

inductive Role where
  | follower
  | preCandidate
  | candidate
  | leader
deriving DecidableEq

structure FollowerStatus where
  nextIndex : Nat
  matchIndex : Nat

/-- A node: its state, its vote count when it is a candidate, what it knows about the
others when it is the leader, its log and speculative pool, and its storage.

A vote that `handle_vote` has granted is in `granted` until it is flushed to the
storage, which comes before the answer. -/
structure Node (Cmd Pool : Type) where
  term : Nat
  votedFor : Option ServerId
  role : Role
  leaderId : Option ServerId
  votesReceived : AList fun _ : ServerId => Bool
  sps : AList fun _ : ServerId => List (PoolEntry Cmd)
  statuses : ServerId -> FollowerStatus
  log : Log Cmd
  specPool : Pool
  storedVote : Option (Nat × ServerId)
  storedLog : List (LogEntry Cmd)
  granted : List (Nat × ServerId × List (PoolEntry Cmd))

/-- A request for votes. -/
structure Vote where
  term : Nat
  candidateId : ServerId
  lastLogIndex : Nat
  lastLogTerm : Nat
  preVote : Bool
deriving DecidableEq

structure AppendEntries (Cmd : Type) where
  term : Nat
  leaderId : ServerId
  prevLogIndex : Nat
  prevLogTerm : Nat
  leaderCommit : Nat
  entries : List (LogEntry Cmd)
deriving DecidableEq

inductive VoteResult where
  | won
  | pending
  | lost
deriving DecidableEq

variable {Cmd Pool : Type}

/-- `MajorityConfig::check_vote` -/
def checkVote (voters : Finset ServerId) (votes : AList fun _ : ServerId => Bool) : VoteResult :=
  if voters = ∅ then .won
  else
    let voted := (voters.filter fun id => votes.lookup id = some true).card
    let missing := (voters.filter fun id => votes.lookup id = none).card
    if quorum voters.card ≤ voted then .won
    else if quorum voters.card ≤ voted + missing then .pending
    else .lost

namespace Node

/-- What the storage holds after a batch of entries: a batch replaces all entries from
its first index on. -/
def putLogEntries (node : Node Cmd Pool) (batch : List (LogEntry Cmd)) : Node Cmd Pool :=
  match batch with
  | [] => node
  | first :: _ => { node with storedLog := node.storedLog.take (first.index - 1) ++ batch }

/-- A node without anything in its storage. -/
def new (cluster : Cluster Cmd Pool) : Node Cmd Pool where
  term := 0
  votedFor := none
  role := .follower
  leaderId := none
  votesReceived := ∅
  sps := ∅
  statuses := fun _ => ⟨1, 0⟩
  log := Log.new cluster.entriesCap
  specPool := cluster.emptyPool
  storedVote := none
  storedLog := []
  granted := []

def updateToTermAndBecomeFollower (node : Node Cmd Pool) (term : Nat) : Node Cmd Pool :=
  if term < node.term then node
  else { node with term := term, role := .follower, votedFor := none, leaderId := none }

variable (cluster : Cluster Cmd Pool)

/-- A node that starts again with what is in its storage, and with the index up to
which the state machine has applied entries. -/
def restart (node : Node Cmd Pool) (lastApplied : Nat) : Node Cmd Pool :=
  let fresh := { (new cluster : Node Cmd Pool) with
    storedVote := node.storedVote, storedLog := node.storedLog }
  let voted :=
    match node.storedVote with
    | none => fresh
    | some (term, candidate) =>
      { fresh.updateToTermAndBecomeFollower term with votedFor := some candidate }
  { voted with log := Log.restore cluster.entriesCap lastApplied node.storedLog }

/-! ## Elections -/

/-- How often each id occurs in the pools, with the first entry that has it. -/
def countEntries (pools : List (List (PoolEntry Cmd))) :
    AList fun _ : ProposeId => PoolEntry Cmd × Nat :=
  pools.flatten.foldl (fun counts entry =>
    match counts.lookup entry.id with
    | none => counts.insert entry.id (entry, 1)
    | some (first, count) => counts.insert entry.id (first, count + 1)) ∅

/-- The commands that enough pools have and the log does not. -/
def recoveredCmds (voters : Nat) (log : Log Cmd) (pools : List (List (PoolEntry Cmd))) :
    List (PoolEntry Cmd) :=
  (((countEntries pools).entries.map Sigma.snd).filter fun counted =>
      recoverQuorum voters ≤ counted.2 ∧ counted.1.id ∉ log.getCmdIds).map Prod.fst

/-- Append one recovered command, which is also put into the pool. -/
def pushRecovered (node : Node Cmd Pool) (entry : PoolEntry Cmd) : Node Cmd Pool :=
  { node with
    specPool := (cluster.pools.insert node.specPool entry).2
    log := (node.log.push node.term entry.id (.command entry.cmd)).2 }

def recoverFromSpecPools (node : Node Cmd Pool)
    (pools : List (List (PoolEntry Cmd))) : Node Cmd Pool :=
  let recovered := recoveredCmds cluster.voters.card node.log pools
  let pushed := recovered.foldl (pushRecovered cluster) node
  pushed.putLogEntries (pushed.log.entries.drop node.log.entries.length)

variable (id : ServerId)

def becomeLeader (node : Node Cmd Pool) : Node Cmd Pool :=
  { node with role := .leader, leaderId := some id }

/-- The pools that came with the votes, which are taken out of the candidate state. -/
def drainPools (node : Node Cmd Pool) : List (List (PoolEntry Cmd)) × Node Cmd Pool :=
  (node.sps.entries.map Sigma.snd, { node with sps := ∅ })

def becomeCandidate (node : Node Cmd Pool) : Option Vote × Node Cmd Pool :=
  let node := { node with
    term := node.term + 1
    role := .candidate
    votedFor := some id
    leaderId := none
    votesReceived := AList.singleton id true
    sps := AList.singleton id (cluster.pools.all node.specPool) }
  if checkVote cluster.voters node.votesReceived = .won then
    let (pools, node) := node.drainPools
    (none, becomeLeader id (recoverFromSpecPools cluster node pools))
  else
    (some ⟨node.term, id, node.log.lastLogIndex, node.log.lastLogTerm, false⟩, node)

def becomePreCandidate (node : Node Cmd Pool) : Option Vote × Node Cmd Pool :=
  let node := { node with
    role := .preCandidate
    leaderId := none
    votesReceived := AList.singleton id true }
  if checkVote cluster.voters node.votesReceived = .won then becomeCandidate cluster id node
  else (some ⟨node.term + 1, id, node.log.lastLogIndex, node.log.lastLogTerm, true⟩, node)

def tickElection (node : Node Cmd Pool) (timeout : Bool) : Option Vote × Node Cmd Pool :=
  if timeout then
    match node.role with
    | .follower | .preCandidate => becomePreCandidate cluster id node
    | .candidate => becomeCandidate cluster id node
    | .leader => (none, node)
  else
    (none, node)

/-- Grant a vote or refuse it with the own term. -/
def handleVote (node : Node Cmd Pool) (term : Nat) (candidateId : ServerId)
    (lastLogIndex lastLogTerm : Nat) : Except Nat (Nat × List (PoolEntry Cmd)) × Node Cmd Pool :=
  if term < node.term then (.error node.term, node)
  else
    let node := if node.term < term then node.updateToTermAndBecomeFollower term else node
    if node.role ≠ .follower ∧ node.role ≠ .preCandidate then (.error node.term, node)
    else if node.votedFor.any (fun id => id ≠ candidateId) then (.error node.term, node)
    else if !node.log.logUpToDate lastLogTerm lastLogIndex then (.error node.term, node)
    else
      (.ok (node.term, cluster.pools.all node.specPool), { node with votedFor := some candidateId })

/-- Grant a pre vote or refuse it, `none` if the candidate is not a member.  `timeout`
says that there was no word from the leader for too long. -/
def handlePreVote (node : Node Cmd Pool) (term : Nat) (candidateId : ServerId)
    (lastLogIndex lastLogTerm : Nat) (timeout : Bool) : Except (Option Nat) Nat :=
  if candidateId ∉ cluster.voters then .error none
  else if term < node.term then .error (some node.term)
  else if node.term < term ∧ node.leaderId.isSome ∧ timeout = false then .error (some node.term)
  else if !node.log.logUpToDate lastLogTerm lastLogIndex then .error (some node.term)
  else .ok node.term

/-- A candidate that has won: append an empty entry and what the pools hold, and point
all followers at the end of the log.  The client id of the empty entry is random. -/
def winElection (node : Node Cmd Pool) (random : Nat) : Node Cmd Pool :=
  let (pools, node) := node.drainPools
  let (entry, log) := node.log.push node.term ⟨random, 0⟩ .empty
  let node := { node with log := log }.putLogEntries [entry]
  let node := becomeLeader id (recoverFromSpecPools cluster node pools)
  { node with statuses := fun other =>
      if other ∈ cluster.voters.erase id then
        { node.statuses other with nextIndex := node.log.lastLogIndex + 1 }
      else node.statuses other }

/-- The outcome of an answer to a request for votes. -/
inductive VoteOutcome where
  | notCandidate
  | ends (election : Bool)
  | panicked

def handleVoteResp (node : Node Cmd Pool) (voter : ServerId) (term : Nat) (voteGranted : Bool)
    (specPool : List (PoolEntry Cmd)) (random : Nat) : VoteOutcome × Node Cmd Pool :=
  if node.term < term then (.notCandidate, node.updateToTermAndBecomeFollower term)
  else if node.role ≠ .candidate then (.notCandidate, node)
  else
    let node := { node with votesReceived := node.votesReceived.insert voter voteGranted }
    if !voteGranted then (.ends false, node)
    else
      let twice := (node.sps.lookup voter).isSome
      let node := { node with sps := node.sps.insert voter specPool }
      -- "a server can't vote twice"
      if twice then (.panicked, node)
      else if checkVote cluster.voters node.votesReceived ≠ .won then (.ends false, node)
      else (.ends true, winElection cluster id node random)

def handlePreVoteResp (node : Node Cmd Pool) (voter : ServerId) (term : Nat)
    (voteGranted : Bool) : Except Unit (Option Vote) × Node Cmd Pool :=
  if node.term < term ∧ voteGranted = false then
    (.error (), node.updateToTermAndBecomeFollower term)
  else if node.role ≠ .preCandidate then (.error (), node)
  else
    let node := { node with votesReceived := node.votesReceived.insert voter voteGranted }
    if !voteGranted then (.ok none, node)
    else if checkVote cluster.voters node.votesReceived ≠ .won then (.ok none, node)
    else
      let (vote, node) := becomeCandidate cluster id node
      (.ok vote, node)

/-! ## Replication -/

/-- Append the entries of a leader.  The answer is the term, or the term and the index
from which the leader should try again. -/
def handleAppendEntries (node : Node Cmd Pool) (request : AppendEntries Cmd) :
    Except (Nat × Nat) Nat × Node Cmd Pool :=
  if request.term < node.term then (.error (node.term, node.log.commitIndex + 1), node)
  else
    let node :=
      if node.term < request.term then
        { node.updateToTermAndBecomeFollower request.term with leaderId := some request.leaderId }
      else if node.leaderId.isNone then { node with leaderId := some request.leaderId }
      else node
    match node.log.tryAppendEntries request.entries request.prevLogIndex request.prevLogTerm with
    | .error _ => (.error (request.term, node.log.commitIndex + 1), node)
    | .ok (toPersist, log) =>
      let committed := { log with commitIndex := min request.leaderCommit log.lastLogIndex }
      let log := if log.commitIndex < committed.commitIndex then committed.apply else committed
      (.ok request.term, { node with log := log }.putLogEntries toPersist)

def updateNextIndex (node : Node Cmd Pool) (follower : ServerId) (index : Nat) : Node Cmd Pool :=
  let status := { node.statuses follower with nextIndex := index }
  { node with statuses := Function.update node.statuses follower status }

def updateMatchIndex (node : Node Cmd Pool) (follower : ServerId) (index : Nat) : Node Cmd Pool :=
  if index ≤ (node.statuses follower).matchIndex then node
  else { node with statuses := Function.update node.statuses follower ⟨index + 1, index⟩ }

def canUpdateCommitIndexTo (node : Node Cmd Pool) (i curTerm : Nat) : Bool :=
  if i ≤ node.log.commitIndex then false
  else if (node.log.get i).all (fun entry => entry.term ≠ curTerm) then false
  else
    let replicated :=
      ((cluster.voters.erase id).filter fun other => i ≤ (node.statuses other).matchIndex).card
    quorum cluster.voters.card ≤ replicated + 1

/-- Take note of the answer to entries that were sent up to `lastSentIndex`, which is
absent for a heartbeat. -/
def handleAppendEntriesResp (node : Node Cmd Pool) (follower : ServerId)
    (lastSentIndex : Option Nat) (term : Nat) (success : Bool) (hintIndex : Nat) : Node Cmd Pool :=
  if node.term < term then node.updateToTermAndBecomeFollower term
  else if node.role ≠ .leader then node
  else if !success then node.updateNextIndex follower hintIndex
  else
    match lastSentIndex with
    | none => node
    | some lastSent =>
      let node := node.updateMatchIndex follower lastSent
      if canUpdateCommitIndexTo cluster id node lastSent node.term then
        { node with log := { node.log with commitIndex := lastSent }.apply }
      else node

/-- What a leader sends to a follower next, with at most `batch` entries.  Nothing if it
would have to send a snapshot. -/
def sync (node : Node Cmd Pool) (follower : ServerId) (batch : Nat) : Option (AppendEntries Cmd) :=
  let nextIndex := (node.statuses follower).nextIndex
  if node.role ≠ .leader ∨ nextIndex ≤ node.log.baseIndex then none
  else
    (node.log.getPrevEntryInfo nextIndex).map fun (prevLogIndex, prevLogTerm) =>
      ⟨node.term, id, prevLogIndex, prevLogTerm, node.log.commitIndex,
        (node.log.entries.drop (node.log.liToPi nextIndex)).take batch⟩

/-- Append proposals that were accepted in a term, and see whether the last of them is
committed already, as it is in a cluster of one node.  `handle_shutdown` and
`handle_publish` do the same with one entry. -/
def pushLogs (node : Node Cmd Pool) (term : Nat)
    (proposes : List (ProposeId × EntryData Cmd)) : Node Cmd Pool :=
  let log := proposes.foldl (fun log propose => (log.push term propose.1 propose.2).2) node.log
  let pushed := { node with log := log }
  let committed :=
    if canUpdateCommitIndexTo cluster id pushed log.lastLogIndex term then
      { log with commitIndex := log.lastLogIndex }.apply
    else log
  { node with log := committed }.putLogEntries (log.entries.drop node.log.entries.length)

/-- A command is recorded in the speculative pool. -/
def record (node : Node Cmd Pool) (entry : PoolEntry Cmd) : Node Cmd Pool :=
  { node with specPool := (cluster.pools.insert node.specPool entry).2 }

/-- The command at an index, if it has been handed to after sync. -/
def appliedCmd (node : Node Cmd Pool) (index : Nat) : Option (PoolEntry Cmd) :=
  if 0 < index ∧ index ≤ node.log.lastAs then
    node.log.full[index - 1]?.bind fun entry =>
      match entry.data with
      | .command cmd => some ⟨entry.proposeId, cmd⟩
      | _ => none
  else none

/-- After sync removes a command from the speculative pool. -/
def removeFromSp (node : Node Cmd Pool) (entry : PoolEntry Cmd) : Node Cmd Pool :=
  { node with specPool := cluster.pools.remove node.specPool entry }

end Node
end Rk8s.Xline.Curp
