import Rk8s.Xline.Curp.HandlerLogs
import Rk8s.Xline.Curp.System

namespace Rk8s.Xline.Curp

open Transition Function List

/-!
# Election safety

No two nodes become leader in the same term, in every run in which a candidate only
counts answers to its present candidacy, and a node only crashes when its storage
remembers the votes it has cast.  Both conditions are needed.  `handle_vote_resp` looks
at the term of an answer to see whether it is newer than its own, not whether it is
older, and the vote of a candidate for itself is never flushed.

The votes that a node has granted and not yet flushed are treated like those it has
cast: a node has voted for no more than one candidate in a term, and as long as it is in
that term it knows whom.
-/

variable {Cmd Pool : Type} {cluster : Cluster Cmd Pool} {candidate : ServerId} {lastApplied : Nat}

namespace Node

/-! ## A node that starts again -/

theorem restart_idle (cluster : Cluster Cmd Pool) (node : Node Cmd Pool) (lastApplied : Nat) :
    (node.restart cluster lastApplied).role = .follower ∧
      (node.restart cluster lastApplied).granted = [] := by
  unfold restart
  split
  · exact ⟨rfl, rfl⟩
  · dsimp only [updateToTermAndBecomeFollower]
    split <;> exact ⟨rfl, rfl⟩

end Node

variable {votes : AList fun _ : ServerId => Bool}

theorem quorum_of_won {voters : Finset ServerId} (nonempty : voters.Nonempty)
    (won : checkVote voters votes = .won) :
    quorum voters.card ≤ (voters.filter fun id => votes.lookup id = some true).card := by
  unfold checkVote at won
  rw [if_neg nonempty.ne_empty] at won
  by_contra few
  rw [if_neg few] at won
  split at won <;> cases won

namespace System

/-- A vote that a node has cast, or has granted and not yet flushed. -/
def Cast (system : System Cmd Pool) (ballot : Ballot) : Prop :=
  ballot ∈ system.ballots ∨ Exists fun pool =>
    (ballot.term, ballot.candidate, pool) ∈ (system.nodes ballot.voter).granted

/-- The voter of a ballot is in a later term, or it is in that term and knows whom it
has voted for. -/
def Knows (node : Node Cmd Pool) (ballot : Ballot) : Prop :=
  ballot.term < node.term ∨ ballot.term = node.term ∧ node.votedFor = some ballot.candidate

/-- Enough voters have voted for a node. -/
def Elected (cluster : Cluster Cmd Pool) (system : System Cmd Pool) (term : Nat)
    (leader : ServerId) : Prop :=
  Exists fun voters => voters ⊆ cluster.voters ∧ quorum cluster.voters.card ≤ voters.card ∧
    forall voter, voter ∈ voters -> (⟨voter, term, leader⟩ : Ballot) ∈ system.ballots

structure VoteInv (cluster : Cluster Cmd Pool) (system : System Cmd Pool) : Prop where
  known : forall ballot, system.Cast ballot -> Knows (system.nodes ballot.voter) ballot
  unique : forall first second, system.Cast first -> system.Cast second ->
    first.voter = second.voter -> first.term = second.term -> first.candidate = second.candidate
  counted : forall id voter, (system.nodes id).role = .candidate ->
    (system.nodes id).votesReceived.lookup voter = some true ->
    (⟨voter, (system.nodes id).term, id⟩ : Ballot) ∈ system.ballots
  answers : forall response, response ∈ system.responses -> response.preVote = false ->
    response.voteGranted = true ->
    (⟨response.voter, response.term, response.candidate⟩ : Ballot) ∈ system.ballots
  elected : forall term leader, (term, leader) ∈ system.leaders ->
    Elected cluster system term leader

variable {term : Nat} {system : System Cmd Pool}

/-- Two nodes that enough voters have voted for in the same term are the same. -/
theorem VoteInv.leader_unique (inv : VoteInv cluster system) {first second : ServerId}
    (one : Elected cluster system term first) (two : Elected cluster system term second) :
    first = second := by
  obtain ⟨firstVoters, firstInside, firstMany, firstVoted⟩ := one
  obtain ⟨secondVoters, secondInside, secondMany, secondVoted⟩ := two
  have overlap : (firstVoters ∩ secondVoters).Nonempty := by
    apply Finset.inter_nonempty_of_card_lt_card_add_card firstInside secondInside
    unfold quorum at firstMany secondMany
    omega
  obtain ⟨voter, both⟩ := overlap
  obtain ⟨inFirst, inSecond⟩ := Finset.mem_inter.mp both
  exact inv.unique ⟨voter, term, first⟩ ⟨voter, term, second⟩ (.inl (firstVoted voter inFirst))
    (.inl (secondVoted voter inSecond)) rfl rfl

variable {leader : ServerId}

theorem Elected.mono {before after : System Cmd Pool} (elected : Elected cluster before term leader)
    (more : ∀ ballot ∈ before.ballots, ballot ∈ after.ballots) :
    Elected cluster after term leader := by
  obtain ⟨voters, inside, many, voted⟩ := elected
  exact ⟨voters, inside, many, fun voter member => more _ (voted voter member)⟩

theorem elected_of_won (won : checkVote cluster.voters votes = .won)
    (counted : ∀ voter, votes.lookup voter = some true ->
      (⟨voter, term, leader⟩ : Ballot) ∈ system.ballots) : Elected cluster system term leader := by
  refine ⟨_, Finset.filter_subset _ _, quorum_of_won cluster.nonempty won, fun voter member => ?_⟩
  exact counted voter (Finset.mem_filter.mp member).2

variable {voter : ServerId} {ballot : Ballot} {response : VoteResponse Cmd}
  {next : System Cmd Pool}

section Steps

variable {id : ServerId} {after : Node Cmd Pool}

theorem nodes_place_self : (system.place id after).nodes id = after := by
  exact update_self id after system.nodes

theorem nodes_place_ne {other : ServerId} (different : other ≠ id) :
    (system.place id after).nodes other = system.nodes other := by
  exact update_of_ne different after system.nodes

theorem granted_place (same : after.granted = (system.nodes id).granted) (other : ServerId) :
    ((system.place id after).nodes other).granted = (system.nodes other).granted := by
  by_cases here : other = id
  · subst here
    rw [nodes_place_self, same]
  · rw [nodes_place_ne here]

variable {voters : Finset ServerId} {voteGranted : Bool}

theorem ownBallot_of_campaigns (campaigns : (system.nodes id).Campaigns voters id after) :
    ownBallot id (system.nodes id) after = [⟨id, after.term, id⟩] := by
  unfold ownBallot
  have term := campaigns.term
  rw [if_pos ⟨by omega, campaigns.votedFor⟩]

section

variable (casted : (system.place id after).Cast ballot)
include casted

/-- A handler that grants no vote only casts the vote of a candidate for itself. -/
theorem cast_place (same : after.granted = (system.nodes id).granted) :
    system.Cast ballot ∨ ballot ∈ ownBallot id (system.nodes id) after := by
  rcases casted with answered | ⟨sent, pending⟩
  · exact (mem_append.mp answered).symm.imp_left .inl
  · rw [granted_place same] at pending
    exact .inl (.inr ⟨sent, pending⟩)

theorem cast_of_unvoted (same : after.granted = (system.nodes id).granted)
    (unvoted : ¬((system.nodes id).term < after.term ∧ after.votedFor = some id)) :
    system.Cast ballot := by
  rcases cast_place casted same with old | own
  · exact old
  · rw [ownBallot, if_neg unvoted] at own
    cases own

theorem cast_of_follows (follows : (system.nodes id).Follows after) : system.Cast ballot := by
  refine cast_of_unvoted casted follows.granted ?_
  rintro ⟨later, own⟩
  cases (follows.unvoted later).symm.trans own

theorem cast_of_campaigns (campaigns : (system.nodes id).Campaigns voters id after) :
    system.Cast ballot ∨ ballot = ⟨id, after.term, id⟩ := by
  have own := cast_place casted campaigns.granted
  rwa [ownBallot_of_campaigns campaigns, mem_singleton] at own

theorem cast_of_counts (counts : (system.nodes id).Counts voters voter voteGranted after) :
    system.Cast ballot := by
  refine cast_of_unvoted casted counts.granted ?_
  rintro ⟨later, _⟩
  rw [counts.term] at later
  exact lt_irrefl _ later

end

variable {pool : List (PoolEntry Cmd)}

/-- A node that grants a vote casts it, and no other. -/
theorem cast_of_grants (grants : (system.nodes id).Grants candidate term after)
    (different : candidate ≠ id) (casted : (system.place id { after with
      granted := after.granted ++ [(term, candidate, pool)] }).Cast ballot) :
    system.Cast ballot ∨ ballot = ⟨id, term, candidate⟩ := by
  generalize held : ({ after with
    granted := after.granted ++ [(term, candidate, pool)] } : Node Cmd Pool) = holder at casted
  have holderVote : holder.votedFor = some candidate := held ▸ grants.votedFor
  have holderGranted : holder.granted = (system.nodes id).granted ++ [(term, candidate, pool)] := by
    rw [← grants.granted, ← held]
  have none : ownBallot id (system.nodes id) holder = [] := by
    unfold ownBallot
    rw [if_neg]
    rintro ⟨_, own⟩
    rw [holderVote] at own
    exact different (Option.some.inj own)
  rcases casted with answered | ⟨sent, pending⟩
  · rcases mem_append.mp answered with new | old
    · rw [none] at new
      cases new
    · exact .inl (.inl old)
  by_cases here : ballot.voter = id
  · rw [here, nodes_place_self, holderGranted] at pending
    rcases mem_append.mp pending with old | new
    · exact .inl (.inr ⟨sent, here ▸ old⟩)
    · right
      cases mem_singleton.mp new
      cases here
      rfl
  · rw [nodes_place_ne here] at pending
    exact .inl (.inr ⟨sent, pending⟩)

theorem mem_leaders_place :
    (term, leader) ∈ (system.place id after).leaders ↔
      ((system.nodes id).role ≠ .leader ∧ after.role = .leader) ∧ term = after.term ∧ leader = id ∨
        (term, leader) ∈ system.leaders := by
  refine mem_append.trans (or_congr_left ?_)
  unfold newLeader
  split <;> simp [*]

/-- What flushing a vote leaves as it was. -/
structure Unmoved (before after : Node Cmd Pool) : Prop where
  term : after.term = before.term
  votedFor : after.votedFor = before.votedFor
  role : after.role = before.role
  votesReceived : after.votesReceived = before.votesReceived
  log : after.log = before.log

/-- A vote that was granted has been flushed and answered. -/
structure Flushed (system next : System Cmd Pool) : Prop where
  nodes : forall id, Unmoved (system.nodes id) (next.nodes id)
  casts : forall ballot, next.Cast ballot -> system.Cast ballot
  ballots : system.ballots ⊆ next.ballots
  responses : forall response, response ∈ next.responses -> response ∈ system.responses ∨
    (⟨response.voter, response.term, response.candidate⟩ : Ballot) ∈ next.ballots
  leaders : next.leaders = system.leaders
  requests : next.requests = system.requests
  appends : next.appends = system.appends
  appendResponses : next.appendResponses = system.appendResponses

theorem flushed_of_granted {position : Nat}
    (found : (system.nodes voter).granted[position]? = some (term, candidate, pool)) :
    Flushed system { system with
      nodes := update system.nodes voter { system.nodes voter with
        storedVote := some (term, candidate)
        granted := (system.nodes voter).granted.eraseIdx position }
      responses := ⟨voter, candidate, false, term, true, pool⟩ :: system.responses
      ballots := ⟨voter, term, candidate⟩ :: system.ballots } := by
  generalize stored : ({ system.nodes voter with
    storedVote := some (term, candidate),
    granted := (system.nodes voter).granted.eraseIdx position } : Node Cmd Pool) = flushed
  have same : ∀ other,
      Unmoved (system.nodes other) (update system.nodes voter flushed other) ∧
        (update system.nodes voter flushed other).granted ⊆
          (system.nodes other).granted := by
    intro other
    by_cases here : other = voter
    · subst here
      rw [update_self, ← stored]
      exact ⟨⟨rfl, rfl, rfl, rfl, rfl⟩, eraseIdx_subset⟩
    · rw [update_of_ne here]
      exact ⟨⟨rfl, rfl, rfl, rfl, rfl⟩, List.Subset.refl _⟩
  refine ⟨fun other => (same other).1, fun ballot casted => ?_, subset_cons_self _ _,
    fun response member => ?_, rfl, rfl, rfl, rfl⟩
  · rcases casted with answered | ⟨sent, waits⟩
    · rcases mem_cons.mp answered with rfl | old
      · exact .inr ⟨pool, mem_of_getElem? found⟩
      · exact .inl old
    · exact .inr ⟨sent, (same ballot.voter).2 waits⟩
  · rcases mem_cons.mp member with rfl | old
    · exact .inr mem_cons_self
    · exact .inl old

namespace VoteInv

variable (inv : VoteInv cluster system)
include inv

/-- The new leader, if there is one, was elected; the others were so before. -/
theorem elected_place
    (won : after.role = .leader -> (system.nodes id).role ≠ .leader ->
      Elected cluster (system.place id after) after.term id) :
    ∀ term leader, (term, leader) ∈ (system.place id after).leaders ->
      Elected cluster (system.place id after) term leader := by
  intro term leader member
  rcases mem_leaders_place.mp member with ⟨turned, rfl, rfl⟩ | old
  · exact won turned.2 turned.1
  · exact (inv.elected term leader old).mono fun _ => mem_append_right _

/-- A handler has changed one node.  The node casts votes for one candidate at most, in
the term that it has reached, and remembers the votes it has cast before. -/
theorem placed
    (cast : ∀ ballot, (system.place id after).Cast ballot -> system.Cast ballot ∨
      ballot.voter = id ∧ ballot.term = after.term ∧ after.votedFor = some ballot.candidate)
    (knows : ∀ ballot, Knows (system.nodes id) ballot -> Knows after ballot)
    (counted : ∀ voter, after.role = .candidate ->
      after.votesReceived.lookup voter = some true ->
      (⟨voter, after.term, id⟩ : Ballot) ∈ (system.place id after).ballots)
    (won : after.role = .leader -> (system.nodes id).role ≠ .leader ->
      Elected cluster (system.place id after) after.term id) :
    VoteInv cluster (system.place id after) := by
  have known : ∀ ballot, (system.place id after).Cast ballot ->
      Knows ((system.place id after).nodes ballot.voter) ballot := by
    intro ballot casted
    by_cases here : ballot.voter = id
    · rw [here, nodes_place_self]
      rcases cast ballot casted with old | ⟨_, term, vote⟩
      · exact knows ballot (here ▸ inv.known ballot old)
      · exact .inr ⟨term, vote⟩
    · rw [nodes_place_ne here]
      exact inv.known ballot ((cast ballot casted).resolve_right fun new => here new.1)
  have agree : ∀ new other : Ballot, new.voter = id ∧ new.term = after.term ∧
      after.votedFor = some new.candidate -> (system.place id after).Cast other ->
      other.voter = new.voter -> other.term = new.term -> other.candidate = new.candidate := by
    rintro new other ⟨voter, term, vote⟩ casted sameVoter sameTerm
    have knownOther := known other casted
    rw [sameVoter, voter, nodes_place_self] at knownOther
    rcases knownOther with earlier | ⟨_, choice⟩
    · omega
    · exact Option.some.inj (choice.symm.trans vote)
  refine ⟨known, ?_, ?_, ?_, inv.elected_place won⟩
  · intro first second one two voter term
    rcases cast first one with old | new
    · rcases cast second two with other | new
      · exact inv.unique first second old other voter term
      · exact agree second first new one voter term
    · exact (agree first second new two voter.symm term.symm).symm
  · intro other voter candidate vote
    by_cases here : other = id
    · subst here
      rw [nodes_place_self] at candidate vote ⊢
      exact counted voter candidate vote
    · rw [nodes_place_ne here] at candidate vote ⊢
      exact mem_append_right _ (inv.counted other voter candidate vote)
  · intro response member vote granted
    exact mem_append_right _ (inv.answers response member vote granted)

theorem follow (follows : (system.nodes id).Follows after) :
    VoteInv cluster (system.place id after) := by
  refine inv.placed (fun _ casted => .inl (cast_of_follows casted follows)) ?_ ?_
    fun leader was => absurd (follows.leader leader).1 was
  · rintro ballot (earlier | ⟨same, vote⟩)
    · exact .inl (earlier.trans_le follows.term)
    · by_cases equal : after.term = (system.nodes id).term
      · exact .inr ⟨same.trans equal.symm, (follows.votedFor equal).trans vote⟩
      · have term := follows.term
        exact .inl (by omega)
  · intro voter candidate vote
    obtain ⟨was, term, votes⟩ := follows.candidate candidate
    rw [term]
    rw [votes] at vote
    exact mem_append_right _ (inv.counted id voter was vote)

/-- A node that votes for itself is in a term in which it has not voted before. -/
theorem campaign (campaigns : (system.nodes id).Campaigns cluster.voters id after) :
    VoteInv cluster (system.place id after) := by
  have only : ∀ voter, after.votesReceived.lookup voter = some true ->
      (⟨voter, after.term, id⟩ : Ballot) ∈ (system.place id after).ballots := by
    intro voter vote
    rw [campaigns.votes] at vote
    by_cases here : voter = id
    · subst here
      refine mem_append_left _ ?_
      rw [ownBallot_of_campaigns campaigns]
      exact mem_singleton.mpr rfl
    · rw [← AList.insert_empty, AList.lookup_insert_ne here] at vote
      cases vote
  refine inv.placed ?_ ?_ (fun voter _ => only voter) ?_
  · intro ballot casted
    rcases cast_of_campaigns casted campaigns with old | rfl
    · exact .inl old
    · exact .inr ⟨rfl, rfl, campaigns.votedFor⟩
  · intro ballot known
    have term := campaigns.term
    rcases known with earlier | ⟨same, _⟩ <;> exact .inl (by omega)
  · intro leader _
    rcases campaigns.role with candidate | ⟨_, won⟩
    · rw [candidate] at leader
      cases leader
    · exact elected_of_won won only

theorem move (moves : (system.nodes id).Follows after ∨
    (system.nodes id).Campaigns cluster.voters id after) :
    VoteInv cluster (system.place id after) := by
  rcases moves with follows | campaigns
  · exact inv.follow follows
  · exact inv.campaign campaigns

theorem grant (grants : (system.nodes id).Grants candidate term after)
    (different : candidate ≠ id) :
    VoteInv cluster (system.place id { after with
      granted := after.granted ++ [(term, candidate, pool)] }) := by
  refine inv.placed ?_ ?_ (fun _ role => absurd role grants.role.1)
    fun leader => absurd leader grants.role.2
  · intro ballot casted
    rcases cast_of_grants grants different casted with old | rfl
    · exact .inl old
    · exact .inr ⟨rfl, grants.reached.symm, grants.votedFor⟩
  -- In the term of the vote the node has voted for nobody else.
  intro ballot known
  have recent := grants.recent
  have reached := grants.reached
  rcases known with earlier | ⟨same, vote⟩
  · exact .inl (by dsimp only; omega)
  by_cases equal : (system.nodes id).term = term
  · rcases grants.free equal with free | again
    · rw [free] at vote
      cases vote
    · exact .inr ⟨same.trans (equal.trans reached.symm),
        grants.votedFor.trans (again.symm.trans vote)⟩
  · exact .inl (by dsimp only; omega)

theorem count (counts : (system.nodes id).Counts cluster.voters voter voteGranted after)
    (cast : voteGranted = true -> (⟨voter, (system.nodes id).term, id⟩ : Ballot) ∈ system.ballots) :
    VoteInv cluster (system.place id after) := by
  have voted : ∀ other, after.votesReceived.lookup other = some true ->
      (⟨other, after.term, id⟩ : Ballot) ∈ (system.place id after).ballots := by
    intro other vote
    refine mem_append_right _ ?_
    rw [counts.term]
    rw [counts.votes] at vote
    by_cases here : other = voter
    · subst here
      rw [AList.lookup_insert] at vote
      exact cast (Option.some.inj vote)
    · rw [AList.lookup_insert_ne here] at vote
      exact inv.counted id other counts.was vote
  refine inv.placed (fun _ casted => .inl (cast_of_counts casted counts)) ?_
    (fun other _ => voted other) ?_
  · intro ballot known
    unfold Knows at known ⊢
    rw [counts.term, counts.votedFor]
    exact known
  · intro leader _
    rcases counts.role with candidate | ⟨_, won⟩
    · rw [candidate] at leader
      cases leader
    · exact elected_of_won won voted

/-- Answers that grant nothing, or only a pre vote, do not matter. -/
theorem respond (harmless : response.preVote = true ∨ response.voteGranted = false) :
    VoteInv cluster (system.respond response) := by
  refine { inv with answers := ?_ }
  intro other member vote granted
  rcases mem_cons.mp member with rfl | old
  · rcases harmless with pre | refused
    · rw [pre] at vote
      cases vote
    · rw [refused] at granted
      cases granted
  · exact inv.answers other old vote granted

theorem flush (flushed : Flushed system next) : VoteInv cluster next := by
  refine ⟨fun ballot casted => ?_, fun first second one two => ?_, fun other voter role vote => ?_,
    fun response member vote granted => ?_, fun term leader member => ?_⟩
  · have known := inv.known ballot (flushed.casts ballot casted)
    unfold Knows at known ⊢
    rwa [(flushed.nodes _).term, (flushed.nodes _).votedFor]
  · exact inv.unique first second (flushed.casts first one) (flushed.casts second two)
  · rw [(flushed.nodes other).role] at role
    rw [(flushed.nodes other).votesReceived] at vote
    rw [(flushed.nodes other).term]
    exact flushed.ballots (inv.counted other voter role vote)
  · rcases flushed.responses response member with old | new
    · exact flushed.ballots (inv.answers response old vote granted)
    · exact new
  · rw [flushed.leaders] at member
    exact (inv.elected term leader member).mono fun _ cast => flushed.ballots cast

theorem restart (remembered : ∀ ballot ∈ system.ballots, ballot.voter = id ->
      Knows ((system.nodes id).restart cluster lastApplied) ballot) :
    VoteInv cluster { system with
      nodes := update system.nodes id
        ((system.nodes id).restart cluster lastApplied) } := by
  have idle := (system.nodes id).restart_idle cluster lastApplied
  generalize (system.nodes id).restart cluster lastApplied = fresh at *
  obtain ⟨role, granted⟩ := idle
  have casts : ∀ ballot,
      System.Cast { system with nodes := update system.nodes id fresh } ballot ->
      system.Cast ballot ∧ (ballot.voter = id -> ballot ∈ system.ballots) := by
    intro ballot casted
    rcases casted with answered | ⟨sent, waits⟩
    · exact ⟨.inl answered, fun _ => answered⟩
    by_cases here : ballot.voter = id
    · dsimp only at waits
      rw [here, update_self, granted] at waits
      cases waits
    · dsimp only at waits
      rw [update_of_ne here] at waits
      exact ⟨.inr ⟨sent, waits⟩, fun equal => absurd equal here⟩
  refine ⟨?_, ?_, ?_, inv.answers, inv.elected⟩
  · intro ballot casted
    obtain ⟨old, answered⟩ := casts ballot casted
    by_cases here : ballot.voter = id
    · have known := remembered ballot (answered here) here
      rw [here]
      dsimp only
      rw [update_self]
      exact known
    · dsimp only
      rw [update_of_ne here]
      exact inv.known ballot old
  · intro first second one two
    exact inv.unique first second (casts first one).1 (casts second two).1
  · intro other ballotVoter candidate vote
    dsimp only at candidate vote ⊢
    by_cases here : other = id
    · subst here
      rw [update_self, role] at candidate
      cases candidate
    · rw [update_of_ne here] at candidate vote ⊢
      exact inv.counted other ballotVoter candidate vote

end VoteInv
end Steps

/-! ## Runs

`Timely` keeps out what the code does not: an answer that granted a vote to an earlier
candidacy of a node that is a candidate again, and a node that starts again without a
vote that has counted.  The second happens to the vote of a candidate for itself, which
is not flushed, and to a vote that an older one has overwritten. -/

/-- A stored vote is at least as new as one that has counted. -/
def Stored (stored : Option (Nat × ServerId)) (ballot : Ballot) : Prop :=
  stored.any fun vote =>
    ballot.term < vote.1 || ballot.term == vote.1 && ballot.candidate == vote.2
deriving Decidable

def Timely (system : System Cmd Pool) : Action Cmd -> Prop
  | .voteResp response _ =>
    response.preVote = false -> response.voteGranted = true ->
      (system.nodes response.candidate).role = .candidate ->
        (system.nodes response.candidate).term ≤ response.term
  | .restart id _ => forall ballot, ballot ∈ system.ballots -> ballot.voter = id ->
      Stored (system.nodes id).storedVote ballot
  | _ => True

instance (system : System Cmd Pool) : (action : Action Cmd) -> Decidable (system.Timely action)
  | .voteResp .. | .restart .. => by unfold Timely; infer_instance
  | .tick .. | .vote .. | .flushVotedFor .. | .sync .. | .appendEntries .. | .appendEntriesResp ..
  | .propose .. | .record .. | .afterSync .. => instDecidableTrue

theorem knows_restart {node : Node Cmd Pool} (stored : Stored node.storedVote ballot) :
    Knows (node.restart cluster lastApplied) ballot := by
  obtain ⟨⟨term, candidate⟩, found, newer⟩ := (Option.any_eq_true _ _).mp stored
  have restarted : (node.restart cluster lastApplied).term = term ∧
      (node.restart cluster lastApplied).votedFor = some candidate := by
    unfold Node.restart
    rw [found]
    exact ⟨rfl, rfl⟩
  unfold Knows
  rw [restarted.1, restarted.2]
  simp only [Bool.or_eq_true, decide_eq_true_eq, Bool.and_eq_true, beq_iff_eq] at newer
  rcases newer with earlier | ⟨same, choice⟩
  · exact .inl earlier
  · exact .inr ⟨same, by rw [choice]⟩

theorem VoteInv.start (cluster : Cluster Cmd Pool) : VoteInv cluster (start cluster) where
  known := by
    intro ballot casted
    rcases casted with answered | ⟨_, pending⟩
    · cases answered
    · cases pending
  unique := by
    intro first second one
    rcases one with answered | ⟨_, pending⟩
    · cases answered
    · cases pending
  counted := nofun
  answers := nofun
  elected := nofun

section

variable (inv : VoteInv cluster system)
include inv

theorem VoteInv.vote {request : Vote} {timeout : Bool} (different : voter ≠ request.candidateId) :
    VoteInv cluster (system.vote cluster request voter timeout) := by
  unfold System.vote
  dsimp only
  split
  · split
    · exact inv.respond (.inl rfl)
    · exact inv.respond (.inl rfl)
    · exact inv
  rcases (system.nodes voter).handleVote_cases cluster request.term request.candidateId
    request.lastLogIndex request.lastLogTerm with ⟨refused, after, outcome, follows, _⟩ |
      ⟨pool, after, outcome, grants, _⟩
  · rw [outcome]
    exact (inv.follow follows).respond (.inr rfl)
  · rw [outcome]
    exact inv.grant grants different.symm

theorem VoteInv.voteResp {random : Nat}
    (sent : response ∈ system.responses) (timely : system.Timely (.voteResp response random)) :
    VoteInv cluster (system.voteResp cluster response random) := by
  unfold System.voteResp
  dsimp only
  split
  · have placed : VoteInv cluster (system.place response.candidate
        ((system.nodes response.candidate).handlePreVoteResp cluster response.candidate
          response.voter response.term response.voteGranted).2) := by
      exact inv.move ((system.nodes response.candidate).handlePreVoteResp_stands cluster
        response.candidate response.voter response.term response.voteGranted).moves
    split
    · rename_i vote node outcome
      rw [outcome] at placed
      exact { placed with }
    · rename_i node outcome
      rw [outcome] at placed
      exact placed
  rename_i notPre
  have vote : response.preVote = false := by simpa using notPre
  rcases ((system.nodes response.candidate).handleVoteResp_cases cluster response.candidate
    response.voter response.term response.voteGranted response.specPool random).2 with
    follows | ⟨recent, counts⟩
  · exact inv.follow follows
  refine inv.count counts fun granted => ?_
  -- The answer is not newer than the candidate, and not older on a timely step.
  have current := timely vote granted counts.was
  have same : (system.nodes response.candidate).term = response.term := by omega
  rw [same]
  exact inv.answers response sent vote granted

theorem VoteInv.step [DecidableEq Cmd] {action : Action Cmd}
    (timely : system.Timely action) (taken : system.step cluster action = some next) :
    VoteInv cluster next := by
  cases taken_of_step taken with
  | @tick id timeout =>
    have placed := inv.move ((system.nodes id).tickElection_stands cluster id timeout).moves
    exact { placed with }
  | vote _ _ different => exact inv.vote different
  | flushVotedFor pending => exact inv.flush (flushed_of_granted pending)
  | voteResp sent => exact inv.voteResp sent timely
  | sync => exact { inv with }
  | @appendEntries follower request =>
    have placed := inv.follow ((system.nodes follower).handleAppendEntries_cases request).1
    exact { placed with }
  | appendEntriesResp => exact inv.follow (Node.handleAppendEntriesResp_cases _ _ _ _ _ _ _ _).1
  | propose => exact inv.follow (Node.pushLogs_same _ _ _ _ _).follows
  | record | afterSync => exact inv.follow (Node.SameBallot.follows ⟨rfl, rfl, rfl, rfl, rfl⟩)
  | restart => exact inv.restart fun ballot member here => knows_restart (timely ballot member here)

end

/-- In every run whose steps are timely, at most one node becomes leader in each term. -/
theorem election_safety_of_timely [DecidableEq Cmd] (cluster : Cluster Cmd Pool)
    {actions : List (Action Cmd)} {system : System Cmd Pool}
    (run : Run (step cluster) Timely (start cluster) actions system) {term : Nat}
    {first second : ServerId} (one : (term, first) ∈ system.leaders)
    (two : (term, second) ∈ system.leaders) : first = second := by
  have inv : VoteInv cluster system :=
    run.invariant (VoteInv cluster) (VoteInv.start cluster)
      fun _ _ _ holds timely taken => holds.step timely taken
  exact inv.leader_unique (inv.elected term first one) (inv.elected term second two)

/-- Three nodes whose pools hold nothing. -/
def threeNodes : Cluster Nat Unit where
  voters := {1, 2, 3}
  nonempty := by decide
  pools := ⟨fun pool _ => (none, pool), fun pool _ => pool, fun _ => []⟩
  emptyPool := ()
  entriesCap := 8

/-- Node 1 is elected in term 1.  Node 2, which has voted for it, starts again and
refuses its vote to node 3, so that node 3 is elected only in term 2. -/
theorem election_safety_of_timely_two_terms :
    Exists fun actions => Exists fun system : System Nat Unit =>
      Run (step threeNodes) Timely (start threeNodes) actions system ∧
        system.leaders = [(2, 3), (1, 1)] ∧
        forall first second, (1, first) ∈ system.leaders -> (1, second) ∈ system.leaders ->
          first = second := by
  refine ⟨[.tick 1 true, .vote ⟨1, 1, 0, 0, true⟩ 2 true, .voteResp ⟨2, 1, true, 0, true, []⟩ 0,
        .vote ⟨1, 1, 0, 0, false⟩ 2 true, .flushVotedFor 2 0, .restart 2 0,
        .tick 3 true, .vote ⟨1, 3, 0, 0, true⟩ 2 true, .voteResp ⟨2, 3, true, 1, true, []⟩ 0,
        .vote ⟨1, 3, 0, 0, false⟩ 2 true, .voteResp ⟨2, 1, false, 1, true, []⟩ 0,
        .voteResp ⟨2, 3, false, 1, false, []⟩ 0, .tick 3 true, .vote ⟨2, 3, 0, 0, false⟩ 2 true,
        .flushVotedFor 2 0, .voteResp ⟨2, 3, false, 2, true, []⟩ 0],
    exists_run_of (fun system => system.leaders = [(2, 3), (1, 1)]) (by decide +kernel) ?_⟩
  exact fun _ run leaders => ⟨leaders, fun _ _ => election_safety_of_timely threeNodes run⟩

/-- Node 2 votes for node 1 in term 1 and for node 3 in term 2.  Its first answer arrives
when node 1 is a candidate in term 2, and is counted. -/
theorem two_leaders_of_stale_vote :
    Exists fun actions => Exists fun system : System Nat Unit =>
      Run (step threeNodes) anyStep (start threeNodes) actions system ∧
        (2, 1) ∈ system.leaders ∧ (2, 3) ∈ system.leaders :=
  ⟨[.tick 1 true, .vote ⟨1, 1, 0, 0, true⟩ 2 true, .voteResp ⟨2, 1, true, 0, true, []⟩ 0,
      .vote ⟨1, 1, 0, 0, false⟩ 2 true, .flushVotedFor 2 0, .tick 1 true,
      .tick 3 true, .vote ⟨1, 3, 0, 0, true⟩ 2 true, .voteResp ⟨2, 3, true, 1, true, []⟩ 0,
      .tick 3 true, .vote ⟨2, 3, 0, 0, false⟩ 2 true, .flushVotedFor 2 0,
      .voteResp ⟨2, 3, false, 2, true, []⟩ 0, .voteResp ⟨2, 1, false, 1, true, []⟩ 0],
    exists_run (by decide +kernel)⟩

end System
end Rk8s.Xline.Curp
