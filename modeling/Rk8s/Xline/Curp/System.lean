import Rk8s.Lib.Transition
import Rk8s.Xline.Curp.RawCurp

namespace Rk8s.Xline.Curp

open Option Function

/-!
# A cluster of Curp nodes

The nodes run the handlers of `RawCurp` one at a time, and talk over a network that may
delay, reorder, duplicate and lose messages: what was ever sent can be delivered at any
later time and any number of times, or never.  A node may crash and start again with
what it has in its storage.

The state also has a record of the votes that were cast, with the votes of candidates
for themselves, and of the nodes that became leader.  No handler reads it.
-/

/-- An answer to a request for votes. -/
structure VoteResponse (Cmd : Type) where
  voter : ServerId
  candidate : ServerId
  preVote : Bool
  term : Nat
  voteGranted : Bool
  specPool : List (PoolEntry Cmd)
deriving DecidableEq

/-- An answer to entries that were sent.  It comes back to the task that sent them, which
knows how far they went. -/
structure AppendEntriesResponse where
  follower : ServerId
  leader : ServerId
  lastSentIndex : Option Nat
  term : Nat
  success : Bool
  hintIndex : Nat
deriving DecidableEq

/-- A vote that counts: the voter has voted for itself, or has sent its answer. -/
structure Ballot where
  voter : ServerId
  term : Nat
  candidate : ServerId
deriving DecidableEq

structure System (Cmd Pool : Type) where
  nodes : ServerId -> Node Cmd Pool
  requests : List Vote
  responses : List (VoteResponse Cmd)
  appends : List (ServerId × AppendEntries Cmd)
  appendResponses : List AppendEntriesResponse
  ballots : List Ballot
  leaders : List (Nat × ServerId)

inductive Action (Cmd : Type) where
  | tick (id : ServerId) (timeout : Bool)
  | vote (request : Vote) (voter : ServerId) (timeout : Bool)
  | flushVotedFor (voter : ServerId) (position : Nat)
  | voteResp (response : VoteResponse Cmd) (random : Nat)
  | sync (leader follower : ServerId) (batch : Nat)
  | appendEntries (follower : ServerId) (request : AppendEntries Cmd)
  | appendEntriesResp (response : AppendEntriesResponse)
  | propose (leader : ServerId) (term : Nat) (proposes : List (ProposeId × EntryData Cmd))
  | record (id : ServerId) (entry : PoolEntry Cmd)
  | afterSync (id : ServerId) (index : Nat)
  | restart (id : ServerId) (lastApplied : Nat)

namespace System

variable {Cmd Pool : Type} (cluster : Cluster Cmd Pool)

def start : System Cmd Pool where
  nodes := fun _ => Node.new cluster
  requests := []
  responses := []
  appends := []
  appendResponses := []
  ballots := []
  leaders := []

/-- The ballot of a node that has voted for itself in a new term. -/
def ownBallot (id : ServerId) (before after : Node Cmd Pool) : List Ballot :=
  if before.term < after.term ∧ after.votedFor = some id then [⟨id, after.term, id⟩] else []

def newLeader (id : ServerId) (before after : Node Cmd Pool) : List (Nat × ServerId) :=
  if before.role ≠ .leader ∧ after.role = .leader then [(after.term, id)] else []

variable (system : System Cmd Pool)

/-- A node has run a handler. -/
def place (id : ServerId) (node : Node Cmd Pool) : System Cmd Pool :=
  { system with
    nodes := update system.nodes id node
    ballots := ownBallot id (system.nodes id) node ++ system.ballots
    leaders := newLeader id (system.nodes id) node ++ system.leaders }

/-- A request for votes goes to all other voters. -/
def request (vote : Option Vote) : System Cmd Pool :=
  { system with requests := vote.toList ++ system.requests }

def respond (response : VoteResponse Cmd) : System Cmd Pool :=
  { system with responses := response :: system.responses }

/-- `CurpNode::vote`.  A vote that is granted is answered after it has been flushed. -/
def vote (request : Vote) (voter : ServerId) (timeout : Bool) : System Cmd Pool :=
  let node := system.nodes voter
  if request.preVote then
    match node.handlePreVote cluster request.term request.candidateId request.lastLogIndex
        request.lastLogTerm timeout with
    | .ok term => system.respond ⟨voter, request.candidateId, true, term, true, []⟩
    | .error (some term) => system.respond ⟨voter, request.candidateId, true, term, false, []⟩
    | .error none => system
  else
    match node.handleVote cluster request.term request.candidateId request.lastLogIndex
        request.lastLogTerm with
    | (.ok (term, pool), node) =>
      system.place voter { node with
        granted := node.granted ++ [(term, request.candidateId, pool)] }
    | (.error term, node) =>
      (system.place voter node).respond ⟨voter, request.candidateId, false, term, false, []⟩

/-- The rest of `CurpNode::vote`: flush the vote, then answer. -/
def flushVotedFor (voter : ServerId) (position : Nat) : Option (System Cmd Pool) :=
  let node := system.nodes voter
  node.granted[position]?.map fun (term, candidate, pool) =>
    let flushed := { node with
      storedVote := some (term, candidate), granted := node.granted.eraseIdx position }
    { system with
      nodes := update system.nodes voter flushed
      responses := ⟨voter, candidate, false, term, true, pool⟩ :: system.responses
      ballots := ⟨voter, term, candidate⟩ :: system.ballots }

def voteResp (response : VoteResponse Cmd) (random : Nat) : System Cmd Pool :=
  let node := system.nodes response.candidate
  if response.preVote then
    match node.handlePreVoteResp cluster response.candidate response.voter response.term
        response.voteGranted with
    | (.ok vote, node) => (system.place response.candidate node).request vote
    | (.error (), node) => system.place response.candidate node
  else
    system.place response.candidate (node.handleVoteResp cluster response.candidate response.voter
      response.term response.voteGranted response.specPool random).2

/-- `CurpNode::append_entries`, with the answer. -/
def appendEntries (follower : ServerId) (request : AppendEntries Cmd) : System Cmd Pool :=
  let lastSent :=
    if request.entries.isEmpty then none else some (request.prevLogIndex + request.entries.length)
  match (system.nodes follower).handleAppendEntries request with
  | (outcome, node) =>
    let response : AppendEntriesResponse :=
      match outcome with
      | .ok term => ⟨follower, request.leaderId, lastSent, term, true, 0⟩
      | .error (term, hint) => ⟨follower, request.leaderId, lastSent, term, false, hint⟩
    { system.place follower node with appendResponses := response :: system.appendResponses }

/-- One step.  Nodes are voters, and only messages that were sent are delivered. -/
def step [DecidableEq Cmd] (cluster : Cluster Cmd Pool) (system : System Cmd Pool) :
    Action Cmd -> Option (System Cmd Pool)
  | .tick id timeout =>
    if id ∈ cluster.voters then
      let (vote, node) := (system.nodes id).tickElection cluster id timeout
      some ((system.place id node).request vote)
    else none
  | .vote request voter timeout =>
    if request ∈ system.requests ∧ voter ∈ cluster.voters ∧ voter ≠ request.candidateId then
      some (system.vote cluster request voter timeout)
    else none
  | .flushVotedFor voter position => system.flushVotedFor voter position
  | .voteResp response random =>
    if response ∈ system.responses ∧ response.candidate ∈ cluster.voters then
      some (system.voteResp cluster response random)
    else none
  | .sync leader follower batch =>
    if leader ∈ cluster.voters ∧ follower ∈ cluster.voters.erase leader then
      ((system.nodes leader).sync leader follower batch).map fun request =>
        { system with appends := (follower, request) :: system.appends }
    else none
  | .appendEntries follower request =>
    if (follower, request) ∈ system.appends then some (system.appendEntries follower request)
    else none
  | .appendEntriesResp response =>
    if response ∈ system.appendResponses ∧ response.leader ∈ cluster.voters then
      some (system.place response.leader ((system.nodes response.leader).handleAppendEntriesResp
        cluster response.leader response.follower response.lastSentIndex response.term
        response.success response.hintIndex))
    else none
  | .propose leader term proposes =>
    -- Proposals wait in a queue from the check of the term on.
    if (term, leader) ∈ system.leaders ∧ leader ∈ cluster.voters ∧ proposes ≠ [] then
      some (system.place leader ((system.nodes leader).pushLogs cluster leader term proposes))
    else none
  | .record id entry => some (system.place id ((system.nodes id).record cluster entry))
  | .afterSync id index =>
    ((system.nodes id).appliedCmd index).map fun entry =>
      system.place id ((system.nodes id).removeFromSp cluster entry)
  | .restart id lastApplied =>
    some { system with
      nodes := update system.nodes id
        ((system.nodes id).restart cluster lastApplied) }

/-- What one step can do, with the guard of each action. -/
inductive Taken (cluster : Cluster Cmd Pool) (system : System Cmd Pool) :
    Action Cmd -> System Cmd Pool -> Prop
  | tick {id : ServerId} {timeout : Bool} (voter : id ∈ cluster.voters) :
      Taken cluster system (.tick id timeout)
        ((system.place id ((system.nodes id).tickElection cluster id timeout).2).request
          ((system.nodes id).tickElection cluster id timeout).1)
  | vote {request : Vote} {voter : ServerId} {timeout : Bool} (sent : request ∈ system.requests)
      (member : voter ∈ cluster.voters) (different : voter ≠ request.candidateId) :
      Taken cluster system (.vote request voter timeout)
        (system.vote cluster request voter timeout)
  | flushVotedFor {voter : ServerId} {position term : Nat} {candidate : ServerId}
      {pool : List (PoolEntry Cmd)}
      (pending : (system.nodes voter).granted[position]? = some (term, candidate, pool)) :
      Taken cluster system (.flushVotedFor voter position)
        { system with
          nodes := update system.nodes voter { system.nodes voter with
            storedVote := some (term, candidate)
            granted := (system.nodes voter).granted.eraseIdx position }
          responses := ⟨voter, candidate, false, term, true, pool⟩ :: system.responses
          ballots := ⟨voter, term, candidate⟩ :: system.ballots }
  | voteResp {response : VoteResponse Cmd} {random : Nat} (sent : response ∈ system.responses)
      (voter : response.candidate ∈ cluster.voters) :
      Taken cluster system (.voteResp response random) (system.voteResp cluster response random)
  | sync {leader follower : ServerId} {batch : Nat} {request : AppendEntries Cmd}
      (voter : leader ∈ cluster.voters) (other : follower ∈ cluster.voters.erase leader)
      (sends : (system.nodes leader).sync leader follower batch = some request) :
      Taken cluster system (.sync leader follower batch)
        { system with appends := (follower, request) :: system.appends }
  | appendEntries {follower : ServerId} {request : AppendEntries Cmd}
      (sent : (follower, request) ∈ system.appends) :
      Taken cluster system (.appendEntries follower request)
        (system.appendEntries follower request)
  | appendEntriesResp {response : AppendEntriesResponse}
      (sent : response ∈ system.appendResponses) (voter : response.leader ∈ cluster.voters) :
      Taken cluster system (.appendEntriesResp response)
        (system.place response.leader ((system.nodes response.leader).handleAppendEntriesResp
          cluster response.leader response.follower response.lastSentIndex response.term
          response.success response.hintIndex))
  | propose {leader : ServerId} {term : Nat} {proposes : List (ProposeId × EntryData Cmd)}
      (led : (term, leader) ∈ system.leaders) (voter : leader ∈ cluster.voters)
      (some : proposes ≠ []) :
      Taken cluster system (.propose leader term proposes)
        (system.place leader ((system.nodes leader).pushLogs cluster leader term proposes))
  | record {id : ServerId} {entry : PoolEntry Cmd} :
      Taken cluster system (.record id entry)
        (system.place id ((system.nodes id).record cluster entry))
  | afterSync {id : ServerId} {index : Nat} {entry : PoolEntry Cmd}
      (applied : (system.nodes id).appliedCmd index = some entry) :
      Taken cluster system (.afterSync id index)
        (system.place id ((system.nodes id).removeFromSp cluster entry))
  | restart {id : ServerId} {lastApplied : Nat} :
      Taken cluster system (.restart id lastApplied)
        { system with
          nodes := update system.nodes id
            ((system.nodes id).restart cluster lastApplied) }

theorem taken_of_step [DecidableEq Cmd] {cluster : Cluster Cmd Pool}
    {system next : System Cmd Pool} {action : Action Cmd}
    (taken : system.step cluster action = some next) : Taken cluster system action next := by
  cases action with
  | tick id timeout =>
    obtain ⟨voter, made⟩ := ite_none_right_eq_some.mp taken
    cases made
    exact .tick voter
  | vote request voter timeout =>
    obtain ⟨⟨sent, member, different⟩, made⟩ := ite_none_right_eq_some.mp taken
    cases made
    exact .vote sent member different
  | flushVotedFor voter position =>
    obtain ⟨⟨term, candidate, pool⟩, pending, rfl⟩ := map_eq_some_iff.mp taken
    exact .flushVotedFor pending
  | voteResp response random =>
    obtain ⟨⟨sent, voter⟩, made⟩ := ite_none_right_eq_some.mp taken
    cases made
    exact .voteResp sent voter
  | sync leader follower batch =>
    obtain ⟨⟨voter, other⟩, made⟩ := ite_none_right_eq_some.mp taken
    obtain ⟨request, sends, rfl⟩ := map_eq_some_iff.mp made
    exact .sync voter other sends
  | appendEntries follower request =>
    obtain ⟨sent, made⟩ := ite_none_right_eq_some.mp taken
    cases made
    exact .appendEntries sent
  | appendEntriesResp response =>
    obtain ⟨⟨sent, voter⟩, made⟩ := ite_none_right_eq_some.mp taken
    cases made
    exact .appendEntriesResp sent voter
  | propose leader term proposes =>
    obtain ⟨⟨led, voter, some⟩, made⟩ := ite_none_right_eq_some.mp taken
    cases made
    exact .propose led voter some
  | record id entry =>
    cases taken
    exact .record
  | afterSync id index =>
    obtain ⟨entry, applied, rfl⟩ := map_eq_some_iff.mp taken
    exact .afterSync applied
  | restart id lastApplied =>
    cases taken
    exact .restart

end System
end Rk8s.Xline.Curp
