import Rk8s.Xline.Curp.LogSound
import Rk8s.Xline.Curp.RawCurp

namespace Rk8s.Xline.Curp.Node

/-!
# What the handlers do

A handler neither casts a vote nor counts one (`Follows`), votes for its own node
(`Campaigns`), grants a vote (`Grants`) or counts one (`Counts`).  Elections leave the
log of a node alone until the node is the leader, and then only append entries of its
term (`Turns`).  The handlers of replication append the entries of a leader, and raise
the commit index; only the one for answers raises match indexes.
-/

variable {Cmd Pool : Type} {before after node : Node Cmd Pool} {id : ServerId} {term : Nat}

/-- Two nodes that do not differ in what an election looks at. -/
structure SameBallot (before after : Node Cmd Pool) : Prop where
  term : after.term = before.term
  votedFor : after.votedFor = before.votedFor
  role : after.role = before.role
  votesReceived : after.votesReceived = before.votesReceived
  granted : after.granted = before.granted

namespace SameBallot

theorem refl (node : Node Cmd Pool) : SameBallot node node := ⟨rfl, rfl, rfl, rfl, rfl⟩

theorem trans {first second third : Node Cmd Pool} (one : SameBallot first second)
    (two : SameBallot second third) : SameBallot first third :=
  ⟨two.term.trans one.term, two.votedFor.trans one.votedFor, two.role.trans one.role,
    two.votesReceived.trans one.votesReceived, two.granted.trans one.granted⟩

end SameBallot

/-- What a handler does that neither casts a vote nor counts one. -/
structure Follows (before after : Node Cmd Pool) : Prop where
  term : before.term ≤ after.term
  votedFor : after.term = before.term -> after.votedFor = before.votedFor
  unvoted : before.term < after.term -> after.votedFor = none
  candidate : after.role = .candidate -> before.role = .candidate ∧ after.term = before.term ∧
    after.votesReceived = before.votesReceived
  leader : after.role = .leader -> before.role = .leader ∧ after.term = before.term
  granted : after.granted = before.granted

theorem SameBallot.follows (same : SameBallot before after) :
    Follows before after where
  term := same.term.ge
  votedFor _ := same.votedFor
  unvoted later := absurd same.term (ne_of_gt later)
  candidate role := ⟨same.role ▸ role, same.term, same.votesReceived⟩
  leader role := ⟨same.role ▸ role, same.term⟩
  granted := same.granted

theorem Follows.same {middle : Node Cmd Pool} (follows : Follows before middle)
    (same : SameBallot middle after) : Follows before after where
  term := same.term.symm ▸ follows.term
  votedFor equal := same.votedFor.trans (follows.votedFor (same.term ▸ equal))
  unvoted later := same.votedFor.trans (follows.unvoted (same.term ▸ later))
  candidate role := by
    obtain ⟨one, two, three⟩ := follows.candidate (same.role ▸ role)
    exact ⟨one, same.term.trans two, same.votesReceived.trans three⟩
  leader role := (follows.leader (same.role ▸ role)).imp_right same.term.trans
  granted := same.granted.trans follows.granted

/-- A node that takes part in elections.  Its log changes only when it becomes leader. -/
structure Turns (before after : Node Cmd Pool) : Prop where
  term : before.term ≤ after.term
  grows : Log.Grows after.term before.log after.log
  still : before.role = .leader ∨ after.role ≠ .leader -> after.log = before.log
  leader : before.role = .leader -> (after.role = .leader ↔ after.term = before.term)
  candidate : after.role = .candidate ->
    before.term < after.term ∨ before.role = .candidate ∧ after.term = before.term

namespace Turns

/-- The role, the term and the log are the same. -/
theorem of_same (term : after.term = before.term)
    (role : after.role = before.role) (log : after.log = before.log) : Turns before after where
  term := term.ge
  grows := log ▸ Log.Grows.refl _ _
  still := fun _ => log
  leader := fun was => ⟨fun _ => term, fun _ => role.trans was⟩
  candidate := fun candidate => .inr ⟨role ▸ candidate, term⟩

theorem refl (node : Node Cmd Pool) : Turns node node := of_same rfl rfl rfl

/-- A node that was not the leader, with the same log. -/
theorem of_role (term : before.term ≤ after.term)
    (log : after.log = before.log) (was : before.role ≠ .leader)
    (candidate : after.role = .candidate -> before.term < after.term) : Turns before after where
  term := term
  grows := log ▸ Log.Grows.refl _ _
  still := fun _ => log
  leader := fun leader => absurd leader was
  candidate := fun role => .inl (candidate role)

end Turns

theorem SameBallot.quiet (same : SameBallot before after)
    (log : after.log = before.log) : Follows before after ∧ Turns before after :=
  ⟨same.follows, Turns.of_same same.term same.role log⟩

section

variable (cluster : Cluster Cmd Pool) (id : ServerId) (node : Node Cmd Pool)

theorem quiet_refl : Follows node node ∧ Turns node node :=
  (SameBallot.refl node).quiet rfl

theorem updateToTerm_quiet (newer : node.term < term) :
    Follows node (node.updateToTermAndBecomeFollower term) ∧
      Turns node (node.updateToTermAndBecomeFollower term) := by
  rw [updateToTermAndBecomeFollower, if_neg (by omega)]
  refine ⟨⟨newer.le, fun equal => absurd equal (ne_of_gt newer), fun _ => rfl, nofun,
    nofun, rfl⟩, newer.le, Log.Grows.refl _ _, fun _ => rfl,
    fun _ => ⟨nofun, fun same => ?_⟩, nofun⟩
  dsimp only at same
  omega

/-! ## Elections -/

theorem putLogEntries_same (batch : List (LogEntry Cmd)) :
    SameBallot node (node.putLogEntries batch) ∧ (node.putLogEntries batch).log = node.log := by
  cases batch with
  | nil => exact ⟨SameBallot.refl node, rfl⟩
  | cons first rest => exact ⟨⟨rfl, rfl, rfl, rfl, rfl⟩, rfl⟩

theorem foldl_pushRecovered_grows (recovered : List (PoolEntry Cmd)) :
    ∀ node : Node Cmd Pool,
      SameBallot node (recovered.foldl (pushRecovered cluster) node) ∧
        Log.Grows node.term node.log (recovered.foldl (pushRecovered cluster) node).log := by
  induction recovered with
  | nil => exact fun node => ⟨SameBallot.refl node, Log.Grows.refl _ _⟩
  | cons entry recovered ih =>
    intro node
    have pushed : SameBallot node (pushRecovered cluster node entry) := ⟨rfl, rfl, rfl, rfl, rfl⟩
    obtain ⟨same, grows⟩ := ih (pushRecovered cluster node entry)
    exact ⟨pushed.trans same,
      (node.log.push_grows node.term entry.id (.command entry.cmd)).trans grows⟩

theorem recoverFromSpecPools_grows (pools : List (List (PoolEntry Cmd))) :
    SameBallot node (recoverFromSpecPools cluster node pools) ∧
      Log.Grows node.term node.log (recoverFromSpecPools cluster node pools).log := by
  unfold recoverFromSpecPools
  obtain ⟨same, grows⟩ := foldl_pushRecovered_grows cluster
    (recoveredCmds cluster.voters.card node.log pools) node
  refine ⟨same.trans (putLogEntries_same _ _).1, ?_⟩
  rw [(putLogEntries_same _ _).2]
  exact grows

theorem winElection_grows (random : Nat) :
    SameBallot { node with role := .leader } (node.winElection cluster id random) ∧
      Log.Grows node.term node.log (node.winElection cluster id random).log := by
  unfold winElection
  dsimp only [becomeLeader, drainPools]
  have pushes := node.log.push_grows node.term ⟨random, 0⟩ .empty
  generalize node.log.push node.term ⟨random, 0⟩ .empty = pushed at pushes ⊢
  obtain ⟨stored, log⟩ := putLogEntries_same { node with sps := ∅, log := pushed.2 } [pushed.1]
  obtain ⟨recovered, grows⟩ := recoverFromSpecPools_grows cluster
    ({ node with sps := ∅, log := pushed.2 }.putLogEntries [pushed.1])
    (node.sps.entries.map Sigma.snd)
  have same := stored.trans recovered
  exact ⟨⟨same.term, same.votedFor, rfl, same.votesReceived, same.granted⟩, pushes.trans grows⟩

end

/-- A request for votes, if there is one, is about the new candidacy of a node and its
log.  Requests for pre votes say nothing. -/
def Asks (id : ServerId) (before after : Node Cmd Pool) (vote : Option Vote) : Prop :=
  forall request, vote = some request -> request.preVote = false ->
    before.term < after.term ∧
      request = ⟨after.term, id, after.log.lastLogIndex, after.log.lastLogTerm, false⟩

/-- A node votes for itself in a new term.  It is the leader at once if that is enough. -/
structure Campaigns (voters : Finset ServerId) (id : ServerId) (before after : Node Cmd Pool) :
    Prop where
  term : after.term = before.term + 1
  votedFor : after.votedFor = some id
  votes : after.votesReceived = AList.singleton id true
  role : after.role = .candidate ∨
    after.role = .leader ∧ checkVote voters after.votesReceived = .won
  granted : after.granted = before.granted

/-- A step of an election: the node votes for nobody or for itself, and may ask for
votes. -/
structure Stands (cluster : Cluster Cmd Pool) (id : ServerId) (before after : Node Cmd Pool)
    (vote : Option Vote) : Prop where
  moves : Follows before after ∨ Campaigns cluster.voters id before after
  turns : Turns before after
  asks : Asks id before after vote

theorem Stands.of_quiet {cluster : Cluster Cmd Pool}
    (quiet : Follows before after ∧ Turns before after) : Stands cluster id before after none :=
  ⟨.inl quiet.1, quiet.2, nofun⟩

section

variable (cluster : Cluster Cmd Pool) (id : ServerId) (node : Node Cmd Pool)
include cluster

theorem becomeCandidate_campaigns (was : node.role ≠ .leader) :
    Campaigns cluster.voters id node (becomeCandidate cluster id node).2 ∧
      Turns node (becomeCandidate cluster id node).2 ∧
      Asks id node (becomeCandidate cluster id node).2 (becomeCandidate cluster id node).1 := by
  unfold becomeCandidate
  dsimp only [drainPools]
  split
  · rename_i won
    have recovered := recoverFromSpecPools_grows cluster
      { node with
        term := node.term + 1, role := .candidate, votedFor := some id, leaderId := none,
        votesReceived := AList.singleton id true, sps := ∅ }
    have same := fun pools => (recovered pools).1
    have term := fun pools => (same pools).term
    dsimp only at term
    refine ⟨⟨(same _).term, (same _).votedFor, (same _).votesReceived, .inr ⟨rfl, ?_⟩,
      (same _).granted⟩, ⟨?_, ?_, ?_, fun leader => absurd leader was, nofun⟩, nofun⟩
    · exact (congrArg (checkVote cluster.voters) (same _).votesReceived).trans won
    · dsimp only [becomeLeader]
      rw [term]
      omega
    · dsimp only [becomeLeader]
      rw [term]
      exact (recovered _).2
    · rintro (leader | notLeader)
      · exact absurd leader was
      · exact absurd rfl notLeader
  · refine ⟨⟨rfl, rfl, rfl, .inl rfl, rfl⟩,
      Turns.of_role (Nat.le_succ _) rfl was fun _ => lt_add_one _, ?_⟩
    intro request asked _
    cases asked
    exact ⟨lt_add_one _, rfl⟩

theorem becomePreCandidate_stands (was : node.role ≠ .leader) :
    Stands cluster id node (becomePreCandidate cluster id node).2
      (becomePreCandidate cluster id node).1 := by
  unfold becomePreCandidate
  dsimp only
  split
  · obtain ⟨campaign, turns, asks⟩ := becomeCandidate_campaigns cluster id
      { node with
        role := .preCandidate, leaderId := none, votesReceived := AList.singleton id true } nofun
    refine ⟨.inr ⟨campaign.term, campaign.votedFor, campaign.votes, campaign.role,
      campaign.granted⟩, ⟨turns.term, turns.grows, ?_, fun leader => absurd leader was, ?_⟩, asks⟩
    · rintro (leader | notLeader)
      · exact absurd leader was
      · exact turns.still (.inr notLeader)
    · intro candidate
      rcases turns.candidate candidate with newer | ⟨before, _⟩
      · exact .inl newer
      · cases before
  · refine ⟨.inl ⟨le_rfl, fun _ => rfl, fun later => absurd later (lt_irrefl _), nofun,
      nofun, rfl⟩, Turns.of_role le_rfl rfl was nofun, ?_⟩
    intro request asked vote
    cases asked
    cases vote

theorem tickElection_stands (timeout : Bool) :
    Stands cluster id node (node.tickElection cluster id timeout).2
      (node.tickElection cluster id timeout).1 := by
  unfold tickElection
  split
  · split
    iterate 2
      · rename_i role
        exact becomePreCandidate_stands cluster id node (by rw [role]; decide)
    · rename_i role
      obtain ⟨campaign, rest⟩ := becomeCandidate_campaigns cluster id node (by rw [role]; decide)
      exact ⟨.inr campaign, rest.1, rest.2⟩
    · exact Stands.of_quiet (quiet_refl node)
  · exact Stands.of_quiet (quiet_refl node)

theorem handlePreVoteResp_stands (voter : ServerId) (term : Nat) (voteGranted : Bool) :
    Stands cluster id node (node.handlePreVoteResp cluster id voter term voteGranted).2
      (node.handlePreVoteResp cluster id voter term voteGranted).1.toOption.join := by
  unfold handlePreVoteResp
  split
  · rename_i newer
    exact Stands.of_quiet (updateToTerm_quiet node newer.1)
  split
  · exact Stands.of_quiet (quiet_refl node)
  rename_i role
  have preCandidate : node.role = .preCandidate := by simpa using role
  have noted : Follows node
      { node with votesReceived := node.votesReceived.insert voter voteGranted } := by
    refine ⟨le_rfl, fun _ => rfl, fun later => absurd later (lt_irrefl _), ?_, ?_, rfl⟩
    · intro candidate
      rw [preCandidate] at candidate
      cases candidate
    · intro leader
      rw [preCandidate] at leader
      cases leader
  dsimp only
  split
  · exact Stands.of_quiet ⟨noted, Turns.of_same rfl rfl rfl⟩
  split
  · exact Stands.of_quiet ⟨noted, Turns.of_same rfl rfl rfl⟩
  obtain ⟨campaign, turns, asks⟩ := becomeCandidate_campaigns cluster id
    { node with votesReceived := node.votesReceived.insert voter voteGranted }
    (by rw [preCandidate]; decide)
  exact ⟨.inr ⟨campaign.term, campaign.votedFor, campaign.votes, campaign.role,
    campaign.granted⟩, ⟨turns.term, turns.grows, turns.still, turns.leader, turns.candidate⟩,
    asks⟩

/-- A node grants a vote, which may be its second for the same candidate. -/
structure Grants (candidate : ServerId) (term : Nat) (before after : Node Cmd Pool) : Prop where
  reached : after.term = term
  recent : before.term ≤ term
  votedFor : after.votedFor = some candidate
  free : before.term = term -> before.votedFor = none ∨ before.votedFor = some candidate
  role : after.role ≠ .candidate ∧ after.role ≠ .leader
  granted : after.granted = before.granted

theorem handleVote_cases (term : Nat) (candidateId : ServerId) (lastLogIndex lastLogTerm : Nat) :
    (∃ refused after,
      node.handleVote cluster term candidateId lastLogIndex lastLogTerm = (.error refused, after) ∧
        Follows node after ∧ Turns node after) ∨
    ∃ pool after,
      node.handleVote cluster term candidateId lastLogIndex lastLogTerm = (.ok (term, pool), after) ∧
        Grants candidateId term node after ∧ Turns node after ∧
        node.log.logUpToDate lastLogTerm lastLogIndex = true := by
  unfold handleVote
  split
  · exact .inl ⟨_, _, rfl, quiet_refl node⟩
  rename_i recent
  generalize updated : (if node.term < term then node.updateToTermAndBecomeFollower term
    else node) = calibrated
  have calibration : (Follows node calibrated ∧ Turns node calibrated) ∧
      calibrated.term = term ∧ calibrated.log = node.log := by
    subst updated
    split
    · rename_i newer
      refine ⟨updateToTerm_quiet node newer, ?_⟩
      rw [updateToTermAndBecomeFollower, if_neg (by omega)]
      exact ⟨rfl, rfl⟩
    · exact ⟨quiet_refl node, by omega, rfl⟩
  obtain ⟨quiet, reached, log⟩ := calibration
  obtain ⟨follows, turns⟩ := quiet
  dsimp only
  split
  · exact .inl ⟨_, _, rfl, follows, turns⟩
  rename_i role
  split
  · exact .inl ⟨_, _, rfl, follows, turns⟩
  rename_i unvoted
  split
  · exact .inl ⟨_, _, rfl, follows, turns⟩
  rename_i upToDate
  refine .inr ⟨cluster.pools.all calibrated.specPool,
    { calibrated with votedFor := some candidateId }, by rw [reached],
    ⟨reached, by omega, rfl, ?_, ?_, follows.granted⟩,
    ⟨turns.term, turns.grows, turns.still, turns.leader, turns.candidate⟩, ?_⟩
  · intro same
    rw [← follows.votedFor (reached.trans same.symm)]
    cases vote : calibrated.votedFor with
    | none => exact .inl rfl
    | some other =>
      rw [vote] at unvoted
      simp only [Option.any_some, decide_eq_true_eq, not_not] at unvoted
      exact .inr (by rw [unvoted])
  · constructor
    · intro candidate
      have was : calibrated.role = .candidate := candidate
      exact role (by rw [was]; decide)
    · intro leader
      have was : calibrated.role = .leader := leader
      exact role (by rw [was]; decide)
  · rw [← log]
    simpa using upToDate

/-- A candidate takes note of an answer, and is the leader if it is the last that was
missing. -/
structure Counts (voters : Finset ServerId) (voter : ServerId) (voteGranted : Bool)
    (before after : Node Cmd Pool) : Prop where
  was : before.role = .candidate
  term : after.term = before.term
  votedFor : after.votedFor = before.votedFor
  votes : after.votesReceived = before.votesReceived.insert voter voteGranted
  role : after.role = .candidate ∨
    after.role = .leader ∧ checkVote voters after.votesReceived = .won
  granted : after.granted = before.granted

theorem handleVoteResp_cases (voter : ServerId) (term : Nat) (voteGranted : Bool)
    (specPool : List (PoolEntry Cmd)) (random : Nat) :
    Turns node (node.handleVoteResp cluster id voter term voteGranted specPool random).2 ∧
      (Follows node (node.handleVoteResp cluster id voter term voteGranted specPool random).2 ∨
        term ≤ node.term ∧ Counts cluster.voters voter voteGranted node
          (node.handleVoteResp cluster id voter term voteGranted specPool random).2) := by
  unfold handleVoteResp
  split
  · rename_i newer
    obtain ⟨follows, turns⟩ := updateToTerm_quiet node newer
    exact ⟨turns, .inl follows⟩
  rename_i recent
  have reached : term ≤ node.term := by omega
  split
  · exact ⟨Turns.refl node, .inl (SameBallot.refl node).follows⟩
  rename_i role
  have candidate : node.role = .candidate := by simpa using role
  have was : node.role ≠ .leader := by rw [candidate]; decide
  dsimp only
  split
  · exact ⟨Turns.of_same rfl rfl rfl,
      .inr ⟨reached, candidate, rfl, rfl, rfl, .inl candidate, rfl⟩⟩
  split
  · exact ⟨Turns.of_same rfl rfl rfl,
      .inr ⟨reached, candidate, rfl, rfl, rfl, .inl candidate, rfl⟩⟩
  split
  · exact ⟨Turns.of_same rfl rfl rfl,
      .inr ⟨reached, candidate, rfl, rfl, rfl, .inl candidate, rfl⟩⟩
  rename_i won
  obtain ⟨same, grows⟩ := winElection_grows cluster id
    { node with
      votesReceived := node.votesReceived.insert voter voteGranted,
      sps := node.sps.insert voter specPool } random
  have sameTerm := same.term
  have leads := same.role
  refine ⟨⟨sameTerm.ge, ?_, ?_, fun leader => absurd leader was, ?_⟩,
    .inr ⟨reached, candidate, same.term, same.votedFor, same.votesReceived,
      .inr ⟨same.role, ?_⟩, same.granted⟩⟩
  · rw [sameTerm]
    exact grows
  · rintro (leader | notLeader)
    · exact absurd leader was
    · exact absurd leads notLeader
  · nofun
  · rw [same.votesReceived]
    simpa using won

end

/-! ## Replication -/

/-- The node follows the leader of the request and has appended its entries. -/
structure Accepts (request : AppendEntries Cmd) (before after : Node Cmd Pool) : Prop where
  recent : before.term ≤ request.term
  term : after.term = request.term
  follower : before.term < request.term -> after.role = .follower
  log : Exists fun log => Log.Appends before.log request.entries request.prevLogIndex
      request.prevLogTerm log ∧ after.log.full = log.full ∧
    (log.Sound -> after.log.Sound) ∧
    after.log.commitIndex = min request.leaderCommit log.lastLogIndex ∧
    (after.log.lastAs = log.lastAs ∧ after.log.commitIndex ≤ log.commitIndex ∨
      after.log.lastAs = max log.lastAs after.log.commitIndex)
  precedes : before.log.precedes request.prevLogIndex request.prevLogTerm = true

theorem handleAppendEntries_cases (node : Node Cmd Pool) (request : AppendEntries Cmd) :
    Follows node (node.handleAppendEntries request).2 ∧
    ((∃ refused after,
      node.handleAppendEntries request = (.error refused, after) ∧ Turns node after) ∨
    ∃ after, node.handleAppendEntries request = (.ok request.term, after) ∧
      (node.log.Sound -> Accepts request node after)) := by
  unfold handleAppendEntries
  split
  · exact ⟨(SameBallot.refl node).follows, .inl ⟨_, _, rfl, Turns.refl node⟩⟩
  rename_i recent
  generalize updated : (if node.term < request.term then
      { node.updateToTermAndBecomeFollower request.term with leaderId := some request.leaderId }
    else if node.leaderId.isNone then { node with leaderId := some request.leaderId }
    else node) = calibrated
  have calibration : (Follows node calibrated ∧ Turns node calibrated) ∧
      calibrated.term = request.term ∧ calibrated.log = node.log ∧
      (node.term < request.term -> calibrated.role = .follower) := by
    rw [← updated]
    split
    · rename_i newer
      obtain ⟨follows, turns⟩ := updateToTerm_quiet node newer
      rw [updateToTermAndBecomeFollower, if_neg (by omega)] at follows turns ⊢
      exact ⟨⟨follows.same ⟨rfl, rfl, rfl, rfl, rfl⟩, { turns with }⟩, rfl, rfl,
        fun _ => rfl⟩
    · split
      · exact ⟨SameBallot.quiet ⟨rfl, rfl, rfl, rfl, rfl⟩ rfl, by dsimp only; omega, rfl,
          fun newer => absurd newer (by omega)⟩
      · exact ⟨quiet_refl node, by omega, rfl, fun newer => absurd newer (by omega)⟩
  obtain ⟨⟨follows, turns⟩, term, log, follower⟩ := calibration
  dsimp only
  rw [log]
  cases appended : node.log.tryAppendEntries request.entries request.prevLogIndex
      request.prevLogTerm with
  | error entries => exact ⟨follows, .inl ⟨_, _, rfl, turns⟩⟩
  | ok outcome =>
    obtain ⟨toPersist, log⟩ := outcome
    have stored := fun log => putLogEntries_same { calibrated with log := log } toPersist
    have same := fun log => (stored log).1
    refine ⟨follows.same ((?_ : SameBallot _ _).trans (same _)), .inr ⟨_, rfl, fun sound => ?_⟩⟩
    · exact ⟨rfl, rfl, rfl, rfl, rfl⟩
    refine ⟨by omega, (same _).term.trans term,
      fun newer => (same _).role.trans (follower newer), ⟨log, sound.appends appended, ?_⟩, ?_⟩
    · rw [(stored _).2]
      split
      · have applied := Log.apply_same
          { log with commitIndex := min request.leaderCommit log.lastLogIndex }
        refine ⟨applied.1.full, fun sound => applied.1.sound
          ⟨sound.numbered, sound.baseIndex, sound.baseTerm⟩, applied.1.commitIndex, .inr ?_⟩
        rw [applied.1.commitIndex]
        exact applied.2
      · rename_i lower
        exact ⟨rfl, fun sound => ⟨sound.numbered, sound.baseIndex, sound.baseTerm⟩, rfl,
          .inl ⟨rfl, by dsimp only; omega⟩⟩
    · unfold Log.tryAppendEntries at appended
      split at appended
      · cases appended
      · rename_i accepted
        simpa using accepted

/-- The voters that are counted for an index, with the leader itself. -/
def replicated (cluster : Cluster Cmd Pool) (id : ServerId) (node : Node Cmd Pool) (i : Nat) :
    Finset ServerId :=
  insert id ((cluster.voters.erase id).filter fun other => i ≤ (node.statuses other).matchIndex)

/-- The leader raises the commit index to an entry of its term. -/
structure Commits (cluster : Cluster Cmd Pool) (id : ServerId) (node : Node Cmd Pool) (i term : Nat)
    (after : Log Cmd) : Prop where
  higher : node.log.commitIndex < i
  entry : Exists fun entry => node.log.get i = some entry ∧ entry.term = term
  many : quorum cluster.voters.card ≤ (replicated cluster id node i).card
  full : after.full = node.log.full
  sound : node.log.Sound -> after.Sound
  commitIndex : after.commitIndex = i
  lastAs : after.lastAs = max node.log.lastAs i

theorem commits_of_canUpdate {cluster : Cluster Cmd Pool}
    {i : Nat} (can : canUpdateCommitIndexTo cluster id node i term = true) :
    Commits cluster id node i term { node.log with commitIndex := i }.apply := by
  unfold canUpdateCommitIndexTo at can
  split at can
  · cases can
  rename_i higher
  split at can
  · cases can
  rename_i own
  have applied := Log.apply_same { node.log with commitIndex := i }
  have entry : ∃ entry, node.log.get i = some entry ∧ entry.term = term := by
    cases found : node.log.get i with
    | none => simp [found] at own
    | some entry => exact ⟨entry, rfl, by simpa [found] using own⟩
  refine ⟨by omega, entry, ?_, applied.1.full, fun sound => applied.1.sound
    ⟨sound.numbered, sound.baseIndex, sound.baseTerm⟩, applied.1.commitIndex, applied.2⟩
  unfold replicated
  simpa using can

section

variable (cluster : Cluster Cmd Pool) (id : ServerId) (node : Node Cmd Pool)

theorem updateMatchIndex_same (follower : ServerId) (i : Nat) :
    SameBallot node (node.updateMatchIndex follower i) ∧
      (node.updateMatchIndex follower i).log = node.log := by
  unfold updateMatchIndex
  split
  · exact ⟨SameBallot.refl node, rfl⟩
  · exact ⟨⟨rfl, rfl, rfl, rfl, rfl⟩, rfl⟩

theorem handleAppendEntriesResp_cases (follower : ServerId) (lastSentIndex : Option Nat)
    (term : Nat) (success : Bool) (hintIndex : Nat) :
    Follows node (node.handleAppendEntriesResp cluster id follower lastSentIndex term success
      hintIndex) ∧
    (Turns node (node.handleAppendEntriesResp cluster id follower lastSentIndex term success
      hintIndex) ∨
    ∃ i log, lastSentIndex = some i ∧ success = true ∧
      node.role = .leader ∧
      Commits cluster id (node.updateMatchIndex follower i) i node.term log ∧
      node.handleAppendEntriesResp cluster id follower lastSentIndex term success hintIndex =
        { node.updateMatchIndex follower i with log := log }) := by
  unfold handleAppendEntriesResp
  split
  · rename_i newer
    exact (updateToTerm_quiet node newer).imp_right .inl
  split
  · exact (quiet_refl node).imp_right .inl
  rename_i role
  have leader : node.role = .leader := by simpa using role
  split
  · exact ⟨SameBallot.follows ⟨rfl, rfl, rfl, rfl, rfl⟩, .inl (Turns.of_same rfl rfl rfl)⟩
  rename_i succeeded
  cases lastSentIndex with
  | none => exact (quiet_refl node).imp_right .inl
  | some i =>
    dsimp only
    obtain ⟨same, sameLog⟩ := node.updateMatchIndex_same follower i
    split
    · rename_i can
      rw [same.term] at can
      refine ⟨(same.trans (?_ : SameBallot _ _)).follows, .inr ⟨i, _, rfl,
        by simpa using succeeded, leader, commits_of_canUpdate can, rfl⟩⟩
      exact ⟨rfl, rfl, rfl, rfl, rfl⟩
    · exact (same.quiet sameLog).imp_right .inl

variable (term : Nat) (proposes : List (ProposeId × EntryData Cmd))

theorem foldl_push_grows :
    ∀ log : Log Cmd,
      Log.Grows term log
        (proposes.foldl (fun log propose => (log.push term propose.1 propose.2).2) log) := by
  induction proposes with
  | nil => exact fun log => Log.Grows.refl _ _
  | cons propose proposes ih =>
    intro log
    exact (log.push_grows term propose.1 propose.2).trans (ih _)

theorem foldl_push_lastLogIndex :
    ∀ log : Log Cmd,
      (proposes.foldl (fun log propose => (log.push term propose.1 propose.2).2) log).lastLogIndex =
        log.lastLogIndex + proposes.length := by
  induction proposes with
  | nil => exact fun log => rfl
  | cons propose proposes ih =>
    intro log
    have pushed : (log.push term propose.1 propose.2).2.lastLogIndex = log.lastLogIndex + 1 := by
      simp [Log.push, Log.lastLogIndex]
    rw [List.foldl_cons, ih, pushed, List.length_cons]
    omega

theorem pushLogs_same : SameBallot node (node.pushLogs cluster id term proposes) := by
  have stored := fun log batch => (putLogEntries_same { node with log := log } batch).1
  exact ⟨(stored _ _).term, (stored _ _).votedFor, (stored _ _).role, (stored _ _).votesReceived,
    (stored _ _).granted⟩

/-- Proposals are appended, and may be committed at once. -/
theorem pushLogs_cases :
    ∃ log, Log.Grows term node.log log ∧
      log.lastLogIndex = node.log.lastLogIndex + proposes.length ∧
      ((node.pushLogs cluster id term proposes).log = log ∨
        Commits cluster id { node with log := log } log.lastLogIndex term
          (node.pushLogs cluster id term proposes).log) := by
  refine ⟨_, foldl_push_grows term proposes node.log,
    foldl_push_lastLogIndex term proposes node.log, ?_⟩
  unfold pushLogs
  rw [(putLogEntries_same _ _).2]
  split
  · rename_i can
    exact .inr (commits_of_canUpdate can)
  · exact .inl rfl

end

/-- The entries that a leader sends are a part of its log. -/
structure Sends (id : ServerId) (node : Node Cmd Pool) (request : AppendEntries Cmd) : Prop where
  leader : node.role = .leader
  term : request.term = node.term
  leaderId : request.leaderId = id
  commit : request.leaderCommit = node.log.commitIndex
  bound : request.prevLogIndex ≤ node.log.full.length
  prevTerm : Replication.lastTerm LogEntry.term (node.log.full.take request.prevLogIndex) =
    request.prevLogTerm
  inside : node.log.full.take request.prevLogIndex ++ request.entries <+: node.log.full

theorem sync_sends {follower : ServerId} {batch : Nat}
    {request : AppendEntries Cmd} (sound : node.log.Sound)
    (sends : node.sync id follower batch = some request) : Sends id node request := by
  unfold sync at sends
  dsimp only at sends
  split at sends
  · cases sends
  rename_i able
  obtain ⟨⟨prevLogIndex, prevLogTerm⟩, info, rfl⟩ := Option.map_eq_some_iff.mp sends
  rw [not_or, not_not, not_le] at able
  obtain ⟨next, lower, bound, prevTerm⟩ := sound.prevEntryInfo able.2 info
  refine ⟨able.1, rfl, rfl, rfl, bound, prevTerm, ?_⟩
  have position : node.log.liToPi (node.statuses follower).nextIndex =
      prevLogIndex - node.log.compacted.length := by
    rw [Log.liToPi, sound.baseIndex, next]
    omega
  rw [position, ← Log.drop_full lower]
  have split := List.take_append_drop prevLogIndex node.log.full
  generalize node.log.full.drop prevLogIndex = rest at split ⊢
  nth_rewrite 2 [← split]
  exact List.prefix_append_right_inj _ |>.mpr ( List.take_prefix _ _)

/-! ## Match indexes -/

variable (cluster : Cluster Cmd Pool) (id : ServerId) (node : Node Cmd Pool)

theorem statuses_putLogEntries (batch : List (LogEntry Cmd)) :
    (node.putLogEntries batch).statuses = node.statuses := by
  cases batch <;> rfl

theorem statuses_recoverFromSpecPools (pools : List (List (PoolEntry Cmd))) :
    (recoverFromSpecPools cluster node pools).statuses = node.statuses := by
  have pushed : ∀ (recovered : List (PoolEntry Cmd)) (node : Node Cmd Pool),
      (recovered.foldl (pushRecovered cluster) node).statuses = node.statuses := by
    intro recovered
    induction recovered with
    | nil => exact fun _ => rfl
    | cons entry recovered ih => exact fun node => ih (pushRecovered cluster node entry)
  exact (statuses_putLogEntries _ _).trans (pushed _ node)

/-- Winning an election leaves the match indexes of an earlier time as leader. -/
theorem matchIndex_handleVoteResp (voter : ServerId) (term : Nat) (voteGranted : Bool)
    (specPool : List (PoolEntry Cmd)) (random : Nat) (other : ServerId) :
    ((node.handleVoteResp cluster id voter term voteGranted specPool random).2.statuses
      other).matchIndex = (node.statuses other).matchIndex := by
  unfold handleVoteResp updateToTermAndBecomeFollower
  dsimp only
  split_ifs
  iterate 6 rfl
  · dsimp only [winElection, becomeLeader]
    split <;> simp only [statuses_recoverFromSpecPools, statuses_putLogEntries, drainPools]

theorem statuses_handleVote (term : Nat) (candidateId : ServerId)
    (lastLogIndex lastLogTerm : Nat) :
    (node.handleVote cluster term candidateId lastLogIndex lastLogTerm).2.statuses =
      node.statuses := by
  unfold handleVote updateToTermAndBecomeFollower
  dsimp only
  split_ifs <;> rfl

theorem statuses_handleAppendEntries (request : AppendEntries Cmd) :
    (node.handleAppendEntries request).2.statuses = node.statuses := by
  unfold handleAppendEntries updateToTermAndBecomeFollower
  dsimp only
  split_ifs
  · rfl
  all_goals
    split
    · rfl
    · exact statuses_putLogEntries _ _

theorem still_tickElection (timeout : Bool) (leads : node.role = .leader) :
    (node.tickElection cluster id timeout).2 = node := by
  unfold tickElection
  rw [leads]
  split <;> rfl

theorem still_handlePreVoteResp (voter : ServerId) (term : Nat) (voteGranted : Bool)
    (leads : node.role = .leader) :
    (node.handlePreVoteResp cluster id voter term voteGranted).2.statuses = node.statuses := by
  unfold handlePreVoteResp updateToTermAndBecomeFollower
  rw [leads]
  split_ifs <;> first | rfl | simp_all

theorem matchIndex_updateMatchIndex (follower : ServerId) (i : Nat) (other : ServerId) :
    ((node.updateMatchIndex follower i).statuses other).matchIndex =
        (node.statuses other).matchIndex ∨
      other = follower ∧ (node.statuses other).matchIndex < i ∧
        ((node.updateMatchIndex follower i).statuses other).matchIndex = i := by
  unfold updateMatchIndex
  split
  · exact .inl rfl
  · by_cases here : other = follower
    · subst here
      exact .inr ⟨rfl, by omega, by simp⟩
    · exact .inl (by simp [here])

/-- A match index is what it was, or is raised by an answer to the leader. -/
theorem matchIndex_handleAppendEntriesResp (follower : ServerId) (lastSentIndex : Option Nat)
    (term : Nat) (success : Bool) (hintIndex : Nat) (other : ServerId) :
    ((node.handleAppendEntriesResp cluster id follower lastSentIndex term success
        hintIndex).statuses other).matchIndex = (node.statuses other).matchIndex ∨
      other = follower ∧ term ≤ node.term ∧ success = true ∧
        ∃ i, lastSentIndex = some i ∧ (node.statuses other).matchIndex < i ∧
          ((node.handleAppendEntriesResp cluster id follower lastSentIndex term success
            hintIndex).statuses other).matchIndex = i := by
  unfold handleAppendEntriesResp
  split_ifs with newer role failed
  · rw [updateToTermAndBecomeFollower, if_neg (by omega)]
    exact .inl rfl
  · exact .inl rfl
  · left
    by_cases here : other = follower <;> simp [updateNextIndex, here]
  cases lastSentIndex with
  | none => exact .inl rfl
  | some i =>
    dsimp only
    split <;>
    · refine (node.matchIndex_updateMatchIndex follower i other).imp_right ?_
      rintro ⟨here, higher, now⟩
      exact ⟨here, by omega, by simpa using failed, i, rfl, higher, now⟩

end Rk8s.Xline.Curp.Node
