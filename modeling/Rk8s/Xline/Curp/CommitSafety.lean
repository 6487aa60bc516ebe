import Rk8s.Xline.Curp.Replicas

namespace Rk8s.Xline.Curp

open Replication Transition List History.Later Finset

/-!
# State machine safety

Nodes that have committed an index have the same entry there, and keep it.  The handlers
guarantee this only in runs whose steps are careful.  A step that is not does one of the
following, none of which the code rules out.

* A request for entries reaches a node again, or late, and all entries in it match.  The
  node cuts its log off behind them, with entries it has acknowledged.
* A leader counts a match index that is left from an earlier time as leader, or that it
  takes from an answer of an earlier term.
* Proposals are appended after the term in which they were accepted.
* An answer of an earlier candidacy is counted as a vote.
-/

variable {Cmd Pool : Type}

/-- The entry at an index, which `Log.get` finds unless it has been popped. -/
def Node.entryAt (node : Node Cmd Pool) (i : Nat) : Option (LogEntry Cmd) :=
  if 0 < i then node.log.full[i - 1]? else none

namespace System

/-- A voter has accepted entries of a term up to an index. -/
def answered (system : System Cmd Pool) (voter : ServerId) (term i : Nat) : Bool :=
  system.appendResponses.any fun response =>
    response.follower == voter && response.term == term && response.success &&
      response.lastSentIndex.any fun last => decide (i ≤ last)

variable (cluster : Cluster Cmd Pool) (system : System Cmd Pool)

/-- The voters that a leader counts for an index have accepted its entries. -/
def Confirmed (leader : ServerId) (node : Node Cmd Pool) (i : Nat) : Prop :=
  forall voter, voter ∈ cluster.voters.erase leader -> i ≤ (node.statuses voter).matchIndex ->
    system.answered voter node.term i = true
deriving Decidable

/-- Entries that a node accepts and that all match reach to the end of its log. -/
def Reaches (node : Node Cmd Pool) (request : AppendEntries Cmd) : Prop :=
  node.term ≤ request.term ->
    node.log.precedes request.prevLogIndex request.prevLogTerm = true ->
    Log.matching (node.log.entries.drop (node.log.liToPi (request.prevLogIndex + 1)))
      request.entries = request.entries.length ->
    node.log.lastLogIndex ≤ request.prevLogIndex + request.entries.length
deriving Decidable

/-- An answer that may move the commit index to an entry of the present term. -/
def Counted (response : AppendEntriesResponse) (node : Node Cmd Pool) : Prop :=
  match response.lastSentIndex with
  | none => True
  | some i =>
    node.role = .leader -> response.success = true -> node.log.commitIndex < i ->
      (node.log.get i).any (fun entry => entry.term == node.term) = true ->
      Confirmed cluster system response.leader (node.updateMatchIndex response.follower i) i

instance (response : AppendEntriesResponse) (node : Node Cmd Pool) :
    Decidable (Counted cluster system response node) := by
  unfold Counted
  split
  · infer_instance
  · infer_instance

def Careful : Action Cmd -> Prop
  | .voteResp response random => system.Timely (.voteResp response random)
  | .appendEntries follower request => Reaches (system.nodes follower) request
  | .appendEntriesResp response =>
    Counted cluster system response (system.nodes response.leader)
  | .propose leader term proposes =>
    (system.nodes leader).role = .leader ∧ (system.nodes leader).term = term ∧
      Confirmed cluster system leader (system.nodes leader)
        ((system.nodes leader).log.lastLogIndex + proposes.length)
  | .restart _ _ => False
  | _ => True

instance (action : Action Cmd) : Decidable (Careful cluster system action) := by
  cases action <;> unfold Careful <;> infer_instance

variable {cluster system} {action : Action Cmd} {i : Nat}

theorem Careful.timely (careful : Careful cluster system action) : system.Timely action := by
  cases action with
  | voteResp response random => exact careful
  | restart => exact False.elim careful
  | _ => exact True.intro

namespace Replicas

variable {history later : History Cmd} {next : System Cmd Pool} {after : Node Cmd Pool}
  {id leader follower voter : ServerId} {response : AppendEntriesResponse}

/-! ## Messages -/

section

variable (inv : Replicas cluster system history)
include inv

theorem request {before : Node Cmd Pool} {vote : Option Vote}
    (asks : Node.Asks id before (system.nodes id) vote) :
    Replicas cluster (system.request vote) history := by
  refine { inv with requests := ?_ }
  intro request member isVote
  rcases mem_append.mp member with new | old
  · obtain ⟨_, rfl⟩ := asks request (Option.mem_toList.mp new) isVote
    have sound := (inv.nodes id).sound
    exact ⟨le_rfl, fun _ => ⟨sound.lastLogIndex_eq, sound.lastLogTerm_eq⟩⟩
  · exact inv.requests request old isVote

theorem sync {request : AppendEntries Cmd}
    (sends : Node.Sends leader (system.nodes leader) request) (different : follower ≠ leader) :
    Replicas cluster { system with appends := (follower, request) :: system.appends } history := by
  refine { inv with appends := ?_ }
  intro node sent member
  rcases mem_cons.mp member with same | old
  swap
  · exact inv.appends node sent old
  cases same
  have consistent := inv.nodes leader
  have leads := consistent.leads sends.leader
  have log : history.log request.term = (system.nodes leader).log.full := by
    rw [sends.term]
    exact leads.symm
  have committed := consistent.committed
  refine ⟨by rw [sends.leaderId]; exact different, ?_, ?_, ?_, ?_, ?_, ?_⟩
  · rw [sends.term, sends.leaderId]
    exact inv.leader leader sends.leader
  · rw [log]
    exact sends.bound
  · rw [log]
    exact sends.inside
  · rw [log]
    exact sends.prevTerm
  · rw [log, sends.commit]
    exact committed.trans consistent.applied
  · rw [log, sends.commit, sends.term]
    exact consistent.chosen.shorter (take_prefix_take_left committed)

theorem answer
    (acked : response.success = true -> ∀ i, response.lastSentIndex = some i ->
      history.acked response.follower response.term i) :
    Replicas cluster { system with
      appendResponses := response :: system.appendResponses } history :=
  { inv with answers := forall_mem_cons.mpr ⟨acked, inv.answers⟩ }

theorem flush (flushed : Flushed system next) : Replicas cluster next history := by
  have stood : ∀ id t, next.Stands history id t -> system.Stands history id t := by
    rintro id t ⟨role, equal, unled⟩
    exact ⟨(flushed.nodes id).role.symm.trans role, (flushed.nodes id).term.symm.trans equal, unled⟩
  refine ⟨fun id => ?_, ?_, fun id leader => ?_, fun t id member => ?_, ?_, fun t elected => ?_,
    inv.numbered, fun request member isVote => ?_, fun ballot casted => ?_, ?_, ?_⟩
  · have same := flushed.nodes id
    exact (inv.nodes id).turn (Node.Turns.of_same same.term same.role same.log) fun leader =>
      same.role.symm.trans leader
  · rw [flushed.leaders]
    exact inv.elected
  · rw [(flushed.nodes id).term, flushed.leaders]
    exact inv.leader id ((flushed.nodes id).role.symm.trans leader)
  · rw [(flushed.nodes id).term, (flushed.nodes id).role]
    exact inv.led t id (flushed.leaders ▸ member)
  · rw [flushed.leaders]
    exact inv.own
  · obtain ⟨voters, quorum, voted⟩ := inv.elections t elected
    refine ⟨voters, quorum, fun other member => ?_⟩
    rw [(flushed.nodes other).term]
    exact voted other member
  · obtain ⟨reached, describes⟩ := inv.requests request (flushed.requests ▸ member) isVote
    rw [(flushed.nodes _).term, (flushed.nodes _).log]
    exact ⟨reached, fun now => describes (stood _ _ now)⟩
  · obtain ⟨reached, carries⟩ := inv.ballots ballot (flushed.casts ballot casted)
    rw [(flushed.nodes _).term, (flushed.nodes _).log]
    exact ⟨reached, fun now => carries (stood _ _ now)⟩
  · rw [flushed.appends, flushed.leaders]
    exact inv.appends
  · rw [flushed.appendResponses]
    exact inv.answers

theorem acked_of_answered {term : Nat} (answered : system.answered voter term i = true) :
    ∃ j, history.acked voter term j ∧ i ≤ j := by
  obtain ⟨response, member, fits⟩ := any_eq_true.mp answered
  simp only [Bool.and_eq_true, beq_iff_eq, Option.any_eq_true, decide_eq_true_eq] at fits
  obtain ⟨⟨⟨rfl, rfl⟩, success⟩, j, last, above⟩ := fits
  exact ⟨j, inv.answers response member success j last, above⟩

end

/-- The history after a step, and what has been applied. -/
def Goes (cluster : Cluster Cmd Pool) (system : System Cmd Pool) (history : History Cmd)
    (next : System Cmd Pool) : Prop :=
  Exists fun later => Replicas cluster next later ∧ history.Later later ∧
    forall id, (system.nodes id).log.lastAs ≤ (next.nodes id).log.lastAs

theorem goes_place (placed : Replicas cluster (system.place id after) later)
    (since : history.Later later) (lastAs : (system.nodes id).log.lastAs ≤ after.log.lastAs) :
    Goes cluster system history (system.place id after) := by
  refine ⟨later, placed, since, fun node => ?_⟩
  by_cases here : node = id
  · rw [here, nodes_place_self]
    exact lastAs
  · rw [nodes_place_ne here]

/-- A step that leaves what has been applied. -/
theorem goes_turn (placed : Replicas cluster (system.place id after) later)
    (since : history.Later later) (turns : (system.nodes id).Turns after) :
    Goes cluster system history (system.place id after) :=
  goes_place placed since turns.grows.lastAs.ge

theorem Goes.respond (goes : Goes cluster system history next) (response : VoteResponse Cmd) :
    Goes cluster system history (next.respond response) := by
  obtain ⟨later, inv, since, lastAs⟩ := goes
  exact ⟨later, { inv with }, since, lastAs⟩

section

variable (inv : Replicas cluster system history) (prior : VoteInv cluster system)
include inv prior

section

variable (turns : (system.nodes id).Turns after)
include turns

theorem follow (follows : (system.nodes id).Follows after) :
    Goes cluster system history (system.place id after) := by
  have placed := inv.quiet prior turns (fun leads => (follows.leader leads).1)
    fun _ casted => .inl (cast_of_follows casted follows)
  exact goes_turn placed (refl history) turns

/-! ## Elections -/

/-- A node that has moved on in an election, without a vote or with one for itself. -/
theorem turn (votes : VoteInv cluster (system.place id after))
    (moves : (system.nodes id).Follows after ∨
      (system.nodes id).Campaigns cluster.voters id after) :
    Goes cluster system history (system.place id after) := by
  rcases moves with follows | campaigns
  · exact inv.follow prior turns follows
  have cast : ∀ ballot, (system.place id after).Cast ballot ->
      system.Cast ballot ∨ ballot = ⟨id, after.term, id⟩ :=
    fun _ casted => cast_of_campaigns casted campaigns
  rcases campaigns.role with candidate | ⟨leader, _⟩
  · have still : after.log = (system.nodes id).log :=
      turns.still (.inr (by rw [candidate]; decide))
    refine goes_turn (inv.quiet prior turns (fun leader => ?_) fun ballot casted => ?_)
      (refl history) turns
    · rw [candidate] at leader
      cases leader
    · rcases cast ballot casted with old | rfl
      · exact .inl old
      · rw [nodes_place_self, still]
        exact .inr ⟨le_rfl, fun _ => inv.carries_self campaigns.term⟩
  have term := campaigns.term
  have was : (system.nodes id).role ≠ .leader := by
    intro was
    have same := (turns.leader was).mp leader
    omega
  obtain ⟨later, placed, since⟩ := inv.win prior turns ⟨votes, was, leader, .inr term,
    fun ballot casted => (cast ballot casted).imp_right fun same => ⟨same, term⟩⟩
  exact goes_turn placed since turns

/-- A candidate takes note of an answer. -/
theorem count {voteGranted : Bool} (votes : VoteInv cluster (system.place id after))
    (counts : (system.nodes id).Counts cluster.voters voter voteGranted after) :
    Goes cluster system history (system.place id after) := by
  have was : (system.nodes id).role ≠ .leader := by
    rw [counts.was]
    decide
  have cast : ∀ ballot, (system.place id after).Cast ballot -> system.Cast ballot :=
    fun _ casted => cast_of_counts casted counts
  rcases counts.role with candidate | ⟨leader, _⟩
  · refine goes_turn (inv.quiet prior turns (fun leader => ?_)
      fun ballot casted => .inl (cast ballot casted)) (refl history) turns
    rw [candidate] at leader
    cases leader
  · obtain ⟨later, placed, since⟩ := inv.win prior turns ⟨votes, was, leader,
      .inl ⟨counts.was, counts.term⟩, fun ballot casted => .inl (cast ballot casted)⟩
    exact goes_turn placed since turns

/-- A node grants a vote. -/
theorem grant {request : Vote} (pool : List (PoolEntry Cmd))
    (grants : (system.nodes id).Grants request.candidateId request.term after)
    (sent : request ∈ system.requests) (isVote : request.preVote = false)
    (different : request.candidateId ≠ id)
    (upToDate : (system.nodes id).log.logUpToDate request.lastLogTerm request.lastLogIndex = true) :
    Replicas cluster (system.place id { after with
      granted := after.granted ++ [(request.term, request.candidateId, pool)] }) history := by
  obtain ⟨reached, describes⟩ := inv.requests request sent isVote
  refine inv.quiet prior { turns with } (fun leader => absurd leader grants.role.2)
    fun ballot casted => ?_
  rcases cast_of_grants grants different casted with old | rfl
  · exact .inl old
  right
  unfold Stands
  rw [nodes_place_ne different]
  refine ⟨reached, fun now => ?_⟩
  obtain ⟨index, term⟩ := describes now
  rw [index, term] at upToDate
  exact inv.carries_of_upToDate grants.recent now upToDate

end

/-! ## Steps -/

theorem vote {request : Vote} {timeout : Bool}
    (sent : request ∈ system.requests) (different : voter ≠ request.candidateId) :
    Goes cluster system history (system.vote cluster request voter timeout) := by
  have same : Goes cluster system history system :=
    ⟨history, inv, refl history, fun _ => le_rfl⟩
  unfold System.vote
  dsimp only
  split
  · split
    · exact same.respond _
    · exact same.respond _
    · exact same
  rename_i notPre
  rcases (system.nodes voter).handleVote_cases cluster request.term request.candidateId
    request.lastLogIndex request.lastLogTerm with ⟨refused, after, outcome, follows, turns⟩ |
      ⟨pool, after, outcome, grants, turns, upToDate⟩
  · rw [outcome]
    exact (inv.follow prior turns follows).respond _
  · rw [outcome]
    have placed := inv.grant prior turns pool grants sent (by simpa using notPre)
      different.symm upToDate
    exact goes_place placed (refl history) turns.grows.lastAs.ge

/-- A node that has moved on in an election may ask for votes. -/
theorem turn_asking {vote : Option Vote}
    (votes : VoteInv cluster ((system.place id after).request vote))
    (stands : (system.nodes id).Stands cluster id after vote) :
    Goes cluster system history ((system.place id after).request vote) := by
  have unasked : VoteInv cluster (system.place id after) := { votes with }
  obtain ⟨later, placed, since, lastAs⟩ := inv.turn prior stands.turns unasked stands.moves
  have asks := stands.asks
  have self : (system.place id after).nodes id = after := nodes_place_self
  rw [← self] at asks
  exact ⟨later, placed.request asks, since, lastAs⟩

theorem voteResp {response : VoteResponse Cmd} {random : Nat}
    (sent : response ∈ system.responses) (timely : system.Timely (.voteResp response random)) :
    Goes cluster system history (system.voteResp cluster response random) := by
  have votes := prior.voteResp sent timely
  unfold System.voteResp at votes ⊢
  dsimp only at votes ⊢
  split at votes
  · rename_i pre
    rw [if_pos pre]
    have stands := (system.nodes response.candidate).handlePreVoteResp_stands cluster
      response.candidate response.voter response.term response.voteGranted
    generalize (system.nodes response.candidate).handlePreVoteResp cluster response.candidate
      response.voter response.term response.voteGranted = outcome at *
    obtain ⟨_ | vote, after⟩ := outcome
    · exact inv.turn prior stands.turns votes stands.moves
    · exact inv.turn_asking prior votes stands
  rename_i notPre
  rw [if_neg notPre]
  obtain ⟨turns, follows | ⟨_, counts⟩⟩ :=
    (system.nodes response.candidate).handleVoteResp_cases cluster response.candidate
      response.voter response.term response.voteGranted response.specPool random
  · exact inv.follow prior turns follows
  · exact inv.count prior turns votes counts

theorem appendEntries {request : AppendEntries Cmd} (sent : (follower, request) ∈ system.appends)
    (reaches : Reaches (system.nodes follower) request) :
    Goes cluster system history (system.appendEntries follower request) := by
  have sound := (inv.nodes follower).sound
  obtain ⟨follows, ⟨refused, after, outcome, turns⟩ | ⟨after, outcome, accepts⟩⟩ :=
    (system.nodes follower).handleAppendEntries_cases request
  all_goals unfold System.appendEntries
  · rw [outcome] at follows ⊢
    obtain ⟨later, placed, since, lastAs⟩ := inv.follow prior turns follows
    exact ⟨later, placed.answer nofun, since, lastAs⟩
  rw [outcome] at follows ⊢
  have accepts := accepts sound
  have base := sound.baseIndex
  obtain ⟨lower, _, _⟩ := sound.precedes accepts.precedes
  have position : (system.nodes follower).log.liToPi (request.prevLogIndex + 1) =
      request.prevLogIndex - (system.nodes follower).log.compacted.length := by
    rw [Log.liToPi, base]
    omega
  have reach := reaches accepts.recent accepts.precedes
  rw [position, ← Log.drop_full lower, sound.lastLogIndex_eq] at reach
  obtain ⟨next, placed, since, acked⟩ := inv.accept prior sent accepts follows reach
  have applied : (system.nodes follower).log.lastAs ≤ after.log.lastAs := by
    obtain ⟨log, appends, _, _, _, lastAs⟩ := accepts.log
    rw [← appends.lastAs]
    rcases lastAs with ⟨same, _⟩ | raised
    · exact same.ge
    · rw [raised]
      exact le_max_left _ _
  obtain ⟨_, _, _, lastAs⟩ := goes_place placed since applied
  refine ⟨next, placed.answer fun _ i last => ?_, since, lastAs⟩
  dsimp only at last
  split at last
  · cases last
  · cases last
    exact acked

theorem appendEntriesResp (voter : response.leader ∈ cluster.voters)
    (counted : Counted cluster system response (system.nodes response.leader)) :
    Goes cluster system history (system.place response.leader
      ((system.nodes response.leader).handleAppendEntriesResp cluster response.leader
        response.follower response.lastSentIndex response.term response.success
        response.hintIndex)) := by
  set leader := system.nodes response.leader
  obtain ⟨follows, turns | ⟨i, log, last, success, role, commits, result⟩⟩ :=
    leader.handleAppendEntriesResp_cases cluster response.leader
      response.follower response.lastSentIndex response.term response.success response.hintIndex
  · exact inv.follow prior turns follows
  generalize leader.handleAppendEntriesResp cluster response.leader
    response.follower response.lastSentIndex response.term response.success
    response.hintIndex = after at follows result ⊢
  obtain ⟨same, sameLog⟩ := leader.updateMatchIndex_same response.follower i
  have afterLog : after.log = log := by rw [result]
  have afterTerm : after.term = leader.term := by
    rw [result]
    exact same.term
  have afterRole : after.role = leader.role := by
    rw [result]
    exact same.role
  unfold Counted at counted
  rw [last] at counted
  have confirmed : Confirmed cluster system response.leader
      (leader.updateMatchIndex response.follower i) i := by
    have higher := commits.higher
    obtain ⟨entry, found, own⟩ := commits.entry
    rw [sameLog] at higher found
    exact counted role success higher (by rw [found]; simpa using own)
  have placed := inv.commit prior role sameLog (afterLog ▸ commits) afterTerm afterRole voter
    (fun other member => by
      obtain ⟨isVoter, matched⟩ := mem_filter.mp member
      rw [← same.term]
      exact inv.acked_of_answered (confirmed other isVoter matched)) follows
  refine goes_place placed (refl history) ?_
  rw [afterLog, commits.lastAs, sameLog]
  exact le_max_left _ _

theorem propose {proposes : List (ProposeId × EntryData Cmd)}
    (voter : leader ∈ cluster.voters) (role : (system.nodes leader).role = .leader)
    (confirmed : Confirmed cluster system leader (system.nodes leader)
      ((system.nodes leader).log.lastLogIndex + proposes.length)) :
    Goes cluster system history (system.place leader
      ((system.nodes leader).pushLogs cluster leader (system.nodes leader).term proposes)) := by
  have same := (system.nodes leader).pushLogs_same cluster leader (system.nodes leader).term proposes
  have votes := prior.follow same.follows
  obtain ⟨log, grows, index, outcome⟩ :=
    (system.nodes leader).pushLogs_cases cluster leader (system.nodes leader).term proposes
  obtain ⟨later, placed, since⟩ := inv.push prior votes role same voter grows outcome
    fun other member => by
      obtain ⟨isVoter, matched⟩ := mem_filter.mp member
      rw [index] at matched ⊢
      exact inv.acked_of_answered (confirmed other isVoter matched)
  refine goes_place placed since ?_
  rcases outcome with same | commits
  · rw [same, grows.lastAs]
  · rw [commits.lastAs]
    rw [grows.lastAs]
    exact le_max_left _ _

/-- Only the speculative pool changes. -/
theorem pool (same : (system.nodes id).SameBallot after) (log : after.log = (system.nodes id).log) :
    Goes cluster system history (system.place id after) :=
  inv.follow prior (Node.Turns.of_same same.term same.role log) same.follows

theorem step [DecidableEq Cmd] (careful : Careful cluster system action)
    (taken : system.step cluster action = some next) : Goes cluster system history next := by
  have after := prior.step careful.timely taken
  cases taken_of_step taken with
  | @tick id timeout =>
    exact inv.turn_asking prior after ((system.nodes id).tickElection_stands cluster id timeout)
  | vote sent _ different => exact inv.vote prior sent different
  | flushVotedFor pending =>
    have flushed := flushed_of_granted pending
    exact ⟨history, inv.flush flushed, refl history, fun node =>
      le_of_eq (congrArg Log.lastAs (flushed.nodes node).log.symm)⟩
  | voteResp sent _ => exact inv.voteResp prior sent careful
  | @sync leader follower batch request _ other sends =>
    have sound := (inv.nodes leader).sound
    exact ⟨history, inv.sync (Node.sync_sends sound sends) (ne_of_mem_erase other),
      refl history, fun _ => le_rfl⟩
  | appendEntries sent => exact inv.appendEntries prior sent careful
  | appendEntriesResp _ voter => exact inv.appendEntriesResp prior voter careful
  | propose _ voter _ =>
    obtain ⟨role, rfl, confirmed⟩ := careful
    exact inv.propose prior voter role confirmed
  | record | afterSync => exact inv.pool prior ⟨rfl, rfl, rfl, rfl, rfl⟩ rfl
  | restart => exact False.elim careful

end

theorem start (cluster : Cluster Cmd Pool) :
    Replicas cluster (start cluster) (Replication.History.init : History Cmd) where
  nodes := fun id => {
    sound := Log.sound_new _
    grounded := Grounded.nil
    old := nofun
    reached := fun _ _ => False.elim
    leads := nofun
    keeps := by
      rintro t part ⟨_, _, acked, _⟩
      exact False.elim acked
    committed := le_rfl
    applied := le_rfl
    chosen := .inl rfl }
  elected := fun t => ⟨False.elim, nofun⟩
  leader := nofun
  led := nofun
  own := nofun
  elections := fun _ => False.elim
  numbered := nofun
  requests := nofun
  ballots := by
    intro ballot casted
    rcases casted with answered | ⟨_, pending⟩
    · cases answered
    · cases pending
  appends := nofun
  answers := nofun

end Replicas
variable {part : List (LogEntry Cmd)}

theorem entryAt_of_inside {node : Node Cmd Pool} (inside : part <+: node.log.full)
    (positive : 0 < i) (bound : i ≤ part.length) : node.entryAt i = part[i - 1]? := by
  rw [Node.entryAt, if_pos positive]
  obtain ⟨rest, split⟩ := inside
  rw [← split, getElem?_append_left (by omega)]

variable {history : History Cmd}

/-- The entries that a node has applied, cut off behind one that it has committed. -/
theorem Replicas.prefix_of_chosen (inv : Replicas cluster system history) {id : ServerId} {t : Nat}
    (chosen : History.Chosen cluster.IsQuorum history t part)
    (bound : part.length ≤ (system.nodes id).log.lastAs) :
    part <+: (system.nodes id).log.full := by
  have consistent := inv.nodes id
  have length : ((system.nodes id).log.full.take (system.nodes id).log.lastAs).length =
      (system.nodes id).log.lastAs := by
    rw [length_take, min_eq_left consistent.applied]
  rcases chosen.comparable Cluster.IsQuorum.meet inv.elections_of consistent.chosen with
    shorter | longer
  · exact shorter.trans ( take_prefix _ _)
  · rw [← longer.eq_of_length_le (by omega)]
    exact take_prefix _ _

theorem Replicas.chosen_committed (inv : Replicas cluster system history) (id : ServerId) :
    History.Chosen cluster.IsQuorum history (system.nodes id).term
        ((system.nodes id).log.full.take (system.nodes id).log.commitIndex) ∧
      ((system.nodes id).log.full.take (system.nodes id).log.commitIndex).length =
        (system.nodes id).log.commitIndex := by
  have consistent := inv.nodes id
  refine ⟨consistent.chosen.shorter (take_prefix_take_left consistent.committed), ?_⟩
  rw [length_take, min_eq_left (consistent.committed.trans consistent.applied)]

theorem exists_replicas [DecidableEq Cmd] {meets : System Cmd Pool -> Action Cmd -> Prop}
    {actions : List (Action Cmd)}
    (careful : ∀ state action, meets state action -> Careful cluster state action)
    (run : Run (step cluster) meets (start cluster) actions system) :
    ∃ history, VoteInv cluster system ∧ Replicas cluster system history := by
  apply run.invariant (fun state => ∃ history,
    VoteInv cluster state ∧ Replicas cluster state history)
  · exact ⟨_, VoteInv.start cluster, Replicas.start cluster⟩
  · rintro state action next ⟨history, votes, inv⟩ met taken
    have careful := careful state action met
    obtain ⟨later, after, _⟩ := inv.step votes careful taken
    exact ⟨later, votes.step careful.timely taken, after⟩

/-- In every run whose steps are careful, nodes that have committed an index have the same
entry there, and each of them has it ever after. -/
theorem state_machine_safety_of_careful [DecidableEq Cmd] (cluster : Cluster Cmd Pool)
    {actions : List (Action Cmd)} {system : System Cmd Pool}
    (run : Run (step cluster) (Careful cluster) (start cluster) actions system) :
    (forall first second i, 0 < i -> i ≤ (system.nodes first).log.commitIndex ->
      i ≤ (system.nodes second).log.commitIndex ->
      Exists fun entry => (system.nodes first).entryAt i = some entry ∧
        (system.nodes second).entryAt i = some entry) ∧
    (forall more final, Run (step cluster) (Careful cluster) system more final ->
      forall id i, 0 < i -> i ≤ (system.nodes id).log.commitIndex ->
        Exists fun entry => (system.nodes id).entryAt i = some entry ∧
          (final.nodes id).entryAt i = some entry) := by
  obtain ⟨history, votes, inv⟩ := exists_replicas (fun _ _ => id) run
  have found : ∀ node i, 0 < i -> i ≤ (system.nodes node).log.commitIndex ->
      ∃ entry, ((system.nodes node).log.full.take
          (system.nodes node).log.commitIndex)[i - 1]? = some entry ∧
        (system.nodes node).entryAt i = some entry := by
    intro node i positive bound
    have length := (inv.chosen_committed node).2
    have inside : (system.nodes node).log.full.take (system.nodes node).log.commitIndex <+:
        (system.nodes node).log.full := take_prefix _ _
    refine ⟨_, getElem?_eq_getElem (by omega), ?_⟩
    rw [entryAt_of_inside inside positive (by omega)]
    exact getElem?_eq_getElem (by omega)
  constructor
  · intro first second i positive firstBound secondBound
    -- The shorter of the two committed parts is in both logs.
    have shared : ∀ first second, i ≤ (system.nodes first).log.commitIndex ->
        (system.nodes first).log.commitIndex ≤ (system.nodes second).log.commitIndex ->
        ∃ entry, (system.nodes first).entryAt i = some entry ∧
          (system.nodes second).entryAt i = some entry := by
      intro first second bound lower
      obtain ⟨chosen, length⟩ := inv.chosen_committed first
      obtain ⟨entry, at_, own⟩ := found first i positive bound
      have consistent := inv.nodes second
      have other := inv.prefix_of_chosen chosen
        (length.trans_le (lower.trans consistent.committed))
      refine ⟨entry, own, ?_⟩
      rw [entryAt_of_inside other positive (by omega), at_]
    rcases le_total (system.nodes first).log.commitIndex
      (system.nodes second).log.commitIndex with lower | lower
    · exact shared first second firstBound lower
    · obtain ⟨entry, one, two⟩ := shared second first secondBound lower
      exact ⟨entry, two, one⟩
  intro more final rest id i positive bound
  obtain ⟨chosen, length⟩ := inv.chosen_committed id
  obtain ⟨entry, at_, own⟩ := found id i positive bound
  have applied := (inv.nodes id).committed
  generalize (system.nodes id).log.full.take (system.nodes id).log.commitIndex = part at *
  generalize (system.nodes id).term = term at chosen
  -- What was committed stays chosen, and no node applies less than before.
  have kept : ∃ history, VoteInv cluster final ∧ Replicas cluster final history ∧
      History.Chosen cluster.IsQuorum history term part ∧
      part.length ≤ (final.nodes id).log.lastAs := by
    apply rest.invariant (fun state => ∃ history, VoteInv cluster state ∧
      Replicas cluster state history ∧ History.Chosen cluster.IsQuorum history term part ∧
      part.length ≤ (state.nodes id).log.lastAs)
    · exact ⟨history, votes, inv, chosen, by omega⟩
    · rintro state action next ⟨history, votes, inv, chosen, lower⟩ careful taken
      obtain ⟨later, after, since, lastAs⟩ := inv.step votes careful taken
      exact ⟨later, votes.step careful.timely taken, after, chosen.later since,
        lower.trans (lastAs id)⟩
  obtain ⟨later, _, after, still, lower⟩ := kept
  refine ⟨entry, own, ?_⟩
  rw [entryAt_of_inside (after.prefix_of_chosen still lower) positive (by omega), at_]

/-- Node 1 leads in term 1, and nodes 1 and 2 commit its empty entry and a command. -/
def committedRun : List (Action Nat) :=
  [.tick 1 true, .vote ⟨1, 1, 0, 0, true⟩ 2 true, .voteResp ⟨2, 1, true, 0, true, []⟩ 0,
    .vote ⟨1, 1, 0, 0, false⟩ 2 true, .flushVotedFor 2 0, .voteResp ⟨2, 1, false, 1, true, []⟩ 0,
    .sync 1 2 8, .appendEntries 2 ⟨1, 1, 1, 1, 0, []⟩, .appendEntriesResp ⟨2, 1, none, 1, false, 1⟩,
    .propose 1 1 [(⟨5, 1⟩, .command 7)],
    .sync 1 2 1, .appendEntries 2 ⟨1, 1, 0, 0, 0, [⟨1, 1, ⟨0, 0⟩, .empty⟩]⟩,
    .appendEntriesResp ⟨2, 1, some 1, 1, true, 0⟩,
    .sync 1 2 8, .appendEntries 2 ⟨1, 1, 1, 1, 1, [⟨2, 1, ⟨5, 1⟩, .command 7⟩]⟩,
    .appendEntriesResp ⟨2, 1, some 2, 1, true, 0⟩,
    .sync 1 2 8, .appendEntries 2 ⟨1, 1, 2, 1, 2, []⟩]

theorem state_machine_safety_of_careful_two_entries :
    Exists fun system : System Nat Unit =>
      Run (step threeNodes) (Careful threeNodes) (start threeNodes) committedRun system ∧
        (system.nodes 1).log.commitIndex = 2 ∧ (system.nodes 2).log.commitIndex = 2 ∧
        Exists fun entry => (system.nodes 1).entryAt 2 = some entry ∧
          (system.nodes 2).entryAt 2 = some entry := by
  refine exists_run_of (fun system => (system.nodes 1).log.commitIndex = 2 ∧
    (system.nodes 2).log.commitIndex = 2) (by decide +kernel) fun system run ⟨one, two⟩ => ?_
  refine ⟨one, two, ?_⟩
  exact (state_machine_safety_of_careful threeNodes run).1 1 2 2 (by decide) (by omega) (by omega)

section

variable [DecidableEq Cmd] {actions : List (Action Cmd)}
  (run : Run (step cluster) (Careful cluster) (start cluster) actions system)
include run

/-- Logs with entries of the same term in one place agree up to there. -/
theorem log_matching_of_careful {first second : ServerId} {own entry : LogEntry Cmd}
    (one : (system.nodes first).log.full[i]? = some own)
    (two : (system.nodes second).log.full[i]? = some entry) (same : own.term = entry.term) :
    (system.nodes first).log.full.take (i + 1) = (system.nodes second).log.full.take (i + 1) := by
  obtain ⟨history, _, inv⟩ := exists_replicas (fun _ _ => id) run
  exact (inv.nodes first).grounded.take_agree (inv.nodes second).grounded one two same

/-- A node has applied all that it has committed.  A majority, and each leader of no
earlier term, has what it has applied. -/
theorem applied_kept_of_careful {node : ServerId}
    (applied : (system.nodes node).log.full.take (system.nodes node).log.lastAs = part) :
    (system.nodes node).log.commitIndex ≤ (system.nodes node).log.lastAs ∧
    (Exists fun voters => cluster.IsQuorum voters ∧
      forall voter, voter ∈ voters -> part <+: (system.nodes voter).log.full) ∧
    forall leader, (system.nodes leader).role = .leader ->
      (system.nodes node).term ≤ (system.nodes leader).term ->
      part <+: (system.nodes leader).log.full := by
  obtain ⟨history, _, inv⟩ := exists_replicas (fun _ _ => id) run
  have chosen := applied ▸ (inv.nodes node).chosen
  refine ⟨(inv.nodes node).committed, ?_, ?_⟩
  · rcases chosen with empty | ⟨_, last, inside, _, _, voters, quorum, acked⟩
    · have some := card_pos.mpr cluster.nonempty
      refine ⟨cluster.voters, ⟨subset_rfl, by unfold quorum; omega⟩, fun _ _ => ?_⟩
      exact empty ▸ nil_prefix
    -- Every later leader has it, so no voter has dropped it.
    refine ⟨voters, quorum, fun voter member => inside.trans ?_⟩
    apply (inv.nodes voter).keeps last.term _ (acked voter member)
    intro r newer _ elected
    exact History.complete Cluster.IsQuorum.meet inv.elections_of quorum acked r newer elected
  · intro leader leads recent
    rw [(inv.nodes leader).leads leads]
    apply chosen.prefix_log Cluster.IsQuorum.meet inv.elections_of recent
    exact (inv.elected _).mpr ⟨_, inv.leader _ leads⟩

end

theorem log_matching_two_entries :
    Exists fun system : System Nat Unit =>
      Run (step threeNodes) (Careful threeNodes) (start threeNodes) committedRun system ∧
        (system.nodes 1).log.full.take 2 = (system.nodes 2).log.full.take 2 := by
  refine exists_run_of (fun system => forall id, id ∈ [1, 2] ->
    (system.nodes id).log.full[1]? = some ⟨2, 1, ⟨5, 1⟩, .command 7⟩) (by decide +kernel) ?_
  exact fun _ run has => log_matching_of_careful run (has 1 (by simp)) (has 2 (by simp)) rfl

theorem applied_kept_two_entries :
    Exists fun system : System Nat Unit =>
      Run (step threeNodes) (Careful threeNodes) (start threeNodes) committedRun system ∧
        (system.nodes 2).log.lastAs = 2 ∧
        (system.nodes 2).log.full.take 2 <+: (system.nodes 1).log.full := by
  refine exists_run_of (fun system => (system.nodes 2).log.lastAs = 2 ∧
    (system.nodes 1).role = .leader ∧ (system.nodes 2).term ≤ (system.nodes 1).term)
    (by decide +kernel) fun _ run ⟨two, leads, recent⟩ => ⟨two, ?_⟩
  exact (applied_kept_of_careful run (by rw [two])).2.2 1 leads recent

/-- No node starts again. -/
def NoRestart : System Cmd Pool -> Action Cmd -> Prop
  | _, .restart _ _ => False
  | _, _ => True

instance (system : System Cmd Pool) (action : Action Cmd) : Decidable (NoRestart system action) := by
  cases action <;> unfold NoRestart <;> infer_instance

/-- The first request for entries reaches node 2 once more, and removes the command that
it has committed. -/
theorem append_again_removes_committed :
    Exists fun system : System Nat Unit => Exists fun final : System Nat Unit =>
      Run (step threeNodes) NoRestart (start threeNodes) committedRun system ∧
        Run (step threeNodes) NoRestart system
          [.appendEntries 2 ⟨1, 1, 0, 0, 0, [⟨1, 1, ⟨0, 0⟩, .empty⟩]⟩] final ∧
        final.leaders = [(1, 1)] ∧ 2 ≤ (system.nodes 2).log.commitIndex ∧
        (system.nodes 2).entryAt 2 = some ⟨2, 1, ⟨5, 1⟩, .command 7⟩ ∧
        (final.nodes 2).entryAt 2 = none := by
  have executed : ((execute (step threeNodes) NoRestart (start threeNodes)
      committedRun).bind fun system =>
        (execute (step threeNodes) NoRestart system
          [.appendEntries 2 ⟨1, 1, 0, 0, 0, [⟨1, 1, ⟨0, 0⟩, .empty⟩]⟩]).map fun final =>
          (final.leaders, (system.nodes 2).log.commitIndex, (system.nodes 2).entryAt 2,
            (final.nodes 2).entryAt 2)) =
      some ([(1, 1)], 2, some ⟨2, 1, ⟨5, 1⟩, .command 7⟩, none) := by
    decide +kernel
  obtain ⟨system, reached, rest⟩ := Option.bind_eq_some_iff.mp executed
  obtain ⟨final, again, observed⟩ := Option.map_eq_some_iff.mp rest
  obtain ⟨leaders, observed⟩ := Prod.mk.inj observed
  obtain ⟨commit, observed⟩ := Prod.mk.inj observed
  obtain ⟨before, after⟩ := Prod.mk.inj observed
  exact ⟨system, final, run_of_execute reached, run_of_execute again, leaders,
    commit.ge, before, after⟩

/-! ## Match indexes -/

variable (cluster system)

/-- No match index of an earlier term is taken over: a node that wins an election has none,
and an answer that raises one is of the term of the leader. -/
def FromThisTerm : Action Cmd -> Prop
  | .voteResp response _ =>
    response.preVote = false -> (system.nodes response.candidate).role = .candidate ->
      checkVote cluster.voters ((system.nodes response.candidate).votesReceived.insert
        response.voter response.voteGranted) = .won ->
      forall voter, voter ∈ cluster.voters.erase response.candidate ->
        ((system.nodes response.candidate).statuses voter).matchIndex = 0
  | .appendEntriesResp response =>
    (system.nodes response.leader).role = .leader -> response.success = true ->
      forall i, i ∈ response.lastSentIndex ->
        ((system.nodes response.leader).statuses response.follower).matchIndex < i ->
        (system.nodes response.leader).term ≤ response.term
  | _ => True

instance (action : Action Cmd) : Decidable (FromThisTerm cluster system action) := by
  cases action <;> unfold FromThisTerm <;> infer_instance

def Confirming (action : Action Cmd) : Prop :=
  Careful cluster system action ∧ FromThisTerm cluster system action
deriving Decidable

/-- A leader has its match indexes from answers of its term. -/
def OfTerm (leader : ServerId) (node : Node Cmd Pool) : Prop :=
  node.role = .leader -> forall voter, voter ∈ cluster.voters.erase leader ->
    0 < (node.statuses voter).matchIndex ->
      system.answered voter node.term (node.statuses voter).matchIndex = true

def Fresh : Prop :=
  forall leader, OfTerm cluster system leader (system.nodes leader)

variable {cluster system}

/-- Its own vote is enough for a node only if there is no other voter. -/
theorem erase_eq_empty_of_won {id : ServerId}
    (won : checkVote cluster.voters (AList.singleton id true) = .won) :
    cluster.voters.erase id = ∅ := by
  have enough := quorum_of_won cluster.nonempty won
  have few : (cluster.voters.filter fun other =>
      (AList.singleton (β := fun _ => Bool) id true).lookup other = some true) ⊆
        cluster.voters ∩ {id} := by
    intro other member
    obtain ⟨isVoter, granted⟩ := mem_filter.mp member
    refine Finset.mem_inter.mpr ⟨isVoter, Finset.mem_singleton.mpr ?_⟩
    by_contra different
    rw [← AList.insert_empty, AList.lookup_insert_ne different] at granted
    cases granted
  have counted := card_le_card few
  have most : (cluster.voters ∩ {id}).card ≤ 1 := card_le_card inter_subset_right
  have split := card_sdiff_add_card_inter cluster.voters {id}
  rw [← sdiff_singleton_eq_erase, ← card_eq_zero]
  unfold quorum at enough
  omega

namespace Fresh

variable {next : System Cmd Pool} {id : ServerId} {after : Node Cmd Pool}

variable (fresh : Fresh cluster system)
include fresh

theorem place (own : OfTerm cluster system id after) : Fresh cluster (system.place id after) := by
  intro leader
  by_cases here : leader = id
  · subst here
    rw [nodes_place_self]
    exact own
  · rw [nodes_place_ne here]
    exact fresh leader

/-- A node that led before with the same match indexes. -/
theorem keep (leader : after.role = .leader -> (system.nodes id).role = .leader ∧
      after.term = (system.nodes id).term)
    (same : (system.nodes id).role = .leader -> after.statuses = (system.nodes id).statuses) :
    Fresh cluster (system.place id after) := by
  refine fresh.place fun leads => ?_
  obtain ⟨was, term⟩ := leader leads
  rw [same was, term]
  exact fresh id was

theorem answer (response : AppendEntriesResponse) :
    Fresh cluster { system with appendResponses := response :: system.appendResponses } := by
  intro leader leads voter isOther positive
  obtain ⟨other, member, fits⟩ := any_eq_true.mp (fresh leader leads voter isOther positive)
  exact any_eq_true.mpr ⟨other, mem_cons_of_mem _ member, fits⟩

theorem stand {vote : Option Vote} (stands : Node.Stands cluster id (system.nodes id) after vote)
    (same : (system.nodes id).role = .leader -> after.statuses = (system.nodes id).statuses) :
    Fresh cluster (system.place id after) := by
  rcases stands.moves with follows | campaigns
  · exact fresh.keep follows.leader same
  refine fresh.place fun leads voter isOther _ => ?_
  rcases campaigns.role with candidate | ⟨_, won⟩
  · cases leads.symm.trans candidate
  · rw [campaigns.votes] at won
    rw [erase_eq_empty_of_won won] at isOther
    cases isOther

theorem vote (request : Vote) (voter : ServerId) (timeout : Bool) :
    Fresh cluster (system.vote cluster request voter timeout) := by
  unfold System.vote
  dsimp only
  split
  · split <;> exact fresh
  have same := (system.nodes voter).statuses_handleVote cluster request.term request.candidateId
    request.lastLogIndex request.lastLogTerm
  rcases (system.nodes voter).handleVote_cases cluster request.term request.candidateId
    request.lastLogIndex request.lastLogTerm with ⟨refused, after, outcome, follows, _⟩ |
      ⟨pool, after, outcome, grants, _⟩
  · rw [outcome] at same ⊢
    exact fresh.keep follows.leader fun _ => same
  · rw [outcome]
    exact fresh.place fun leads => absurd leads grants.role.2

theorem voteResp {response : VoteResponse Cmd} {random : Nat}
    (current : FromThisTerm cluster system (.voteResp response random)) :
    Fresh cluster (system.voteResp cluster response random) := by
  unfold System.voteResp
  dsimp only
  split
  · have placed := fresh.stand
      ((system.nodes response.candidate).handlePreVoteResp_stands cluster response.candidate
        response.voter response.term response.voteGranted)
      ((system.nodes response.candidate).still_handlePreVoteResp cluster response.candidate
        response.voter response.term response.voteGranted)
    split
    all_goals
      rename_i outcome
      rw [outcome] at placed
      exact placed
  rename_i notPre
  have kept := (system.nodes response.candidate).matchIndex_handleVoteResp cluster
    response.candidate response.voter response.term response.voteGranted response.specPool random
  refine fresh.place fun leads voter isOther positive => ?_
  rw [kept] at positive ⊢
  rcases ((system.nodes response.candidate).handleVoteResp_cases cluster response.candidate
    response.voter response.term response.voteGranted response.specPool random).2 with
    follows | ⟨_, counts⟩
  · obtain ⟨was, term⟩ := follows.leader leads
    rw [term]
    exact fresh _ was voter isOther positive
  rcases counts.role with candidate | ⟨_, won⟩
  · cases leads.symm.trans candidate
  · rw [counts.votes] at won
    have zero := current (by simpa using notPre) counts.was won voter isOther
    omega

theorem appendEntriesResp {response : AppendEntriesResponse}
    (sent : response ∈ system.appendResponses)
    (current : FromThisTerm cluster system (.appendEntriesResp response)) :
    Fresh cluster (system.place response.leader
      ((system.nodes response.leader).handleAppendEntriesResp cluster response.leader
        response.follower response.lastSentIndex response.term response.success
        response.hintIndex)) := by
  refine fresh.place fun leads voter isOther positive => ?_
  obtain ⟨was, term⟩ := (Node.handleAppendEntriesResp_cases _ _ _ _ _ _ _ _).1.leader leads
  rw [term]
  rcases (system.nodes response.leader).matchIndex_handleAppendEntriesResp cluster response.leader
    response.follower response.lastSentIndex response.term response.success response.hintIndex
    voter with same | ⟨rfl, recent, success, i, last, higher, now⟩
  · rw [same] at positive ⊢
    exact fresh _ was voter isOther positive
  -- The answer is not older than the leader, so it confirms what it raises.
  have newer := current was success i last higher
  refine any_eq_true.mpr ⟨response, sent, ?_⟩
  rw [now, success, last]
  simpa using le_antisymm recent newer

theorem step [DecidableEq Cmd] (confirming : Confirming cluster system action)
    (taken : system.step cluster action = some next) : Fresh cluster next := by
  obtain ⟨careful, current⟩ := confirming
  cases taken_of_step taken with
  | @tick id timeout =>
    exact fresh.stand ((system.nodes id).tickElection_stands cluster id timeout)
      fun leads => by rw [(system.nodes id).still_tickElection cluster id timeout leads]
  | vote => exact fresh.vote _ _ _
  | flushVotedFor => exact fresh.keep (fun leads => ⟨leads, rfl⟩) fun _ => rfl
  | voteResp => exact fresh.voteResp current
  | sync => exact fresh
  | @appendEntries follower request =>
    have placed := fresh.keep ((system.nodes follower).handleAppendEntries_cases request).1.leader
      fun _ => (system.nodes follower).statuses_handleAppendEntries request
    exact placed.answer _
  | appendEntriesResp sent => exact fresh.appendEntriesResp sent current
  | propose =>
    exact fresh.keep (Node.pushLogs_same _ _ _ _ _).follows.leader
      fun _ => Node.statuses_putLogEntries _ _
  | record | afterSync => exact fresh.keep (fun leads => ⟨leads, rfl⟩) fun _ => rfl
  | restart => exact False.elim careful

end Fresh

/-- In every run whose steps are confirming, a follower has the entries of the leader of
the highest term up to the match index that the leader has for it. -/
theorem match_index_sound_of_confirming [DecidableEq Cmd] (cluster : Cluster Cmd Pool)
    {actions : List (Action Cmd)} {system : System Cmd Pool}
    (run : Run (step cluster) (Confirming cluster) (start cluster) actions system)
    {leader follower : ServerId} (leads : (system.nodes leader).role = .leader)
    (highest : forall term other, (term, other) ∈ system.leaders ->
      term ≤ (system.nodes leader).term)
    (isOther : follower ∈ cluster.voters.erase leader) {i : Nat} (positive : 0 < i)
    (matched : i ≤ ((system.nodes leader).statuses follower).matchIndex) :
    Exists fun entry => (system.nodes leader).entryAt i = some entry ∧
      (system.nodes follower).entryAt i = some entry := by
  obtain ⟨history, _, inv⟩ := exists_replicas (fun _ _ => And.left) run
  have initial : Fresh cluster (start cluster) := nofun
  have fresh := run.invariant _ initial fun _ _ _ fresh met taken => fresh.step met taken
  obtain ⟨j, acked, above⟩ := inv.acked_of_answered
    (fresh leader leads follower isOther (by omega))
  have bound := history.within _ _ _ acked
  have log := (inv.nodes leader).leads leads
  -- No later leader can have made the follower drop what it has acknowledged.
  have kept := (inv.nodes follower).keeps _ _ ⟨ take_prefix j _, j, acked, by simp⟩
    fun r newer _ elected => by
      obtain ⟨other, led⟩ := (inv.elected r).mp elected
      have limit := highest r other led
      omega
  have own : (history.log (system.nodes leader).term).take j <+: (system.nodes leader).log.full :=
    log ▸ take_prefix j _
  have inside : i ≤ ((history.log (system.nodes leader).term).take j).length := by
    rw [length_take]
    omega
  refine ⟨_, (entryAt_of_inside own positive inside).trans (getElem?_eq_getElem (by omega)), ?_⟩
  exact (entryAt_of_inside kept positive inside).trans (getElem?_eq_getElem (by omega))

theorem match_index_sound_of_confirming_two_entries :
    Exists fun system : System Nat Unit =>
      Run (step threeNodes) (Confirming threeNodes) (start threeNodes) committedRun system ∧
        ((system.nodes 1).statuses 2).matchIndex = 2 ∧
        Exists fun entry => (system.nodes 1).entryAt 2 = some entry ∧
          (system.nodes 2).entryAt 2 = some entry := by
  refine exists_run_of (fun system => (system.nodes 1).role = .leader ∧
    system.leaders = [(1, 1)] ∧ (system.nodes 1).term = 1 ∧
    ((system.nodes 1).statuses 2).matchIndex = 2) (by decide +kernel)
    fun system run ⟨leads, leaders, term, matched⟩ => ⟨matched, ?_⟩
  refine match_index_sound_of_confirming threeNodes run leads ?_ (by decide)
    (by decide) matched.ge
  simp [leaders, term]

/-- The leader sends its first entry, then the first two, and the requests arrive in the
other order.  The follower answers for both entries and then drops the second. -/
theorem late_append_breaks_match_index :
    Exists fun system : System Nat Unit =>
      Run (step threeNodes) NoRestart (start threeNodes)
        (committedRun.take 10 ++
          [.sync 1 2 1, .sync 1 2 8, .appendEntries 2 ⟨1, 1, 0, 0, 0,
              [⟨1, 1, ⟨0, 0⟩, .empty⟩, ⟨2, 1, ⟨5, 1⟩, .command 7⟩]⟩,
            .appendEntriesResp ⟨2, 1, some 2, 1, true, 0⟩,
            .appendEntries 2 ⟨1, 1, 0, 0, 0, [⟨1, 1, ⟨0, 0⟩, .empty⟩]⟩]) system ∧
        (system.nodes 1).role = .leader ∧ system.leaders = [(1, 1)] ∧
        ((system.nodes 1).statuses 2).matchIndex = 2 ∧
        (system.nodes 1).entryAt 2 = some ⟨2, 1, ⟨5, 1⟩, .command 7⟩ ∧
        (system.nodes 2).entryAt 2 = none :=
  exists_run (by decide +kernel)

end System
end Rk8s.Xline.Curp
