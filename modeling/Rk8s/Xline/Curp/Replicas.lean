import Rk8s.Xline.Curp.Election

namespace Rk8s.Xline.Curp

open Replication List History.Later

/-!
# The logs of a cluster

The invariant of replication.  It speaks about the logs of the leaders of all terms and
about what the nodes have acknowledged, which is the history of a run.  Leaders, votes
and messages of the system are tied to it in `System.Replicas`, the log of one node in
`Node.Consistent`.

There is one lemma for each way in which a step changes a node: its log stays as it is,
it appends entries of a leader, it leads, or it raises the commit index.
-/

variable {Cmd Pool : Type}

abbrev History (Cmd : Type) := Replication.History ServerId (@LogEntry.term Cmd)

def Cluster.IsQuorum (cluster : Cluster Cmd Pool) (nodes : Finset ServerId) : Prop :=
  nodes ⊆ cluster.voters ∧ quorum cluster.voters.card ≤ nodes.card

variable {cluster : Cluster Cmd Pool}

theorem Cluster.IsQuorum.meet (first second : Finset ServerId) (one : cluster.IsQuorum first)
    (two : cluster.IsQuorum second) :
    (first ∩ second).Nonempty := by
  apply Finset.inter_nonempty_of_card_lt_card_add_card one.1 two.1
  have many := one.2
  have others := two.2
  unfold quorum at many others
  omega

/-- The log of a node agrees with the logs of the leaders, keeps what the node has
acknowledged, and what it has applied was chosen. -/
structure Node.Consistent (cluster : Cluster Cmd Pool) (history : History Cmd) (id : ServerId)
    (node : Node Cmd Pool) : Prop where
  sound : node.log.Sound
  grounded : Grounded LogEntry.term history.log node.log.full
  old : forall entry, entry ∈ node.log.full -> entry.term ≤ node.term
  reached : forall t i, history.acked id t i -> t ≤ node.term
  leads : node.role = .leader -> node.log.full = history.log node.term
  keeps : forall t, history.Keeps id t (fun r => r ≤ node.term) node.log.full
  committed : node.log.commitIndex ≤ node.log.lastAs
  applied : node.log.lastAs ≤ node.log.full.length
  chosen : History.Chosen cluster.IsQuorum history node.term (node.log.full.take node.log.lastAs)

/-- Entries that a leader has sent, and what it has committed. -/
structure Shipped (cluster : Cluster Cmd Pool) (history : History Cmd)
    (request : AppendEntries Cmd) : Prop where
  bound : request.prevLogIndex ≤ (history.log request.term).length
  inside : (history.log request.term).take request.prevLogIndex ++ request.entries <+:
    history.log request.term
  prevTerm : lastTerm LogEntry.term ((history.log request.term).take request.prevLogIndex) =
    request.prevLogTerm
  commitBound : request.leaderCommit ≤ (history.log request.term).length
  chosen : History.Chosen cluster.IsQuorum history request.term
    ((history.log request.term).take request.leaderCommit)

namespace System

/-- A candidate in a term that has no leader yet. -/
def Stands (system : System Cmd Pool) (history : History Cmd) (id : ServerId) (term : Nat) : Prop :=
  (system.nodes id).role = .candidate ∧ (system.nodes id).term = term ∧ ¬ history.elected term

structure Replicas (cluster : Cluster Cmd Pool) (system : System Cmd Pool)
    (history : History Cmd) : Prop where
  nodes : forall id, (system.nodes id).Consistent cluster history id
  elected : forall t, history.elected t ↔ Exists fun leader => (t, leader) ∈ system.leaders
  leader : forall id, (system.nodes id).role = .leader ->
    ((system.nodes id).term, id) ∈ system.leaders
  led : forall t id, (t, id) ∈ system.leaders -> t < (system.nodes id).term ∨
    t = (system.nodes id).term ∧ (system.nodes id).role = .leader
  own : forall t id, (t, id) ∈ system.leaders ->
    forall i, i ≤ (history.log t).length -> history.acked id t i
  elections : forall t, history.elected t -> Exists fun voters => cluster.IsQuorum voters ∧
    forall voter, voter ∈ voters -> t ≤ (system.nodes voter).term ∧
      history.Carries voter t (history.log t)
  numbered : forall t, Log.Numbered (history.log t)
  requests : forall request, request ∈ system.requests -> request.preVote = false ->
    request.term ≤ (system.nodes request.candidateId).term ∧
      (system.Stands history request.candidateId request.term ->
        request.lastLogIndex = (system.nodes request.candidateId).log.full.length ∧
          request.lastLogTerm = lastTerm LogEntry.term (system.nodes request.candidateId).log.full)
  ballots : forall ballot, system.Cast ballot ->
    ballot.term ≤ (system.nodes ballot.candidate).term ∧
      (system.Stands history ballot.candidate ballot.term ->
        history.Carries ballot.voter ballot.term (system.nodes ballot.candidate).log.full)
  appends : forall follower request, (follower, request) ∈ system.appends ->
    follower ≠ request.leaderId ∧ (request.term, request.leaderId) ∈ system.leaders ∧
      Shipped cluster history request
  answers : forall response, response ∈ system.appendResponses -> response.success = true ->
    forall i, response.lastSentIndex = some i -> history.acked response.follower response.term i

end System

/-! ## What later histories keep -/

theorem take_of_inside {Entry : Type} {shorter longer : List Entry} (inside : shorter <+: longer)
    {count : Nat} (bound : count ≤ shorter.length) : longer.take count = shorter.take count := by
  obtain ⟨rest, rfl⟩ := inside
  exact take_append_of_le_length bound

variable {request : AppendEntries Cmd} {log : Log Cmd} {term : Nat} {history : History Cmd}
  {id : ServerId} {node after : Node Cmd Pool}

theorem Shipped.later {before after : History Cmd} (shipped : Shipped cluster before request)
    (later : before.Later after) : Shipped cluster after request := by
  have inside := later.log request.term
  have prev := take_of_inside inside shipped.bound
  have commit := take_of_inside inside shipped.commitBound
  refine ⟨shipped.bound.trans inside.length_le, ?_, ?_,
    shipped.commitBound.trans inside.length_le, ?_⟩
  · rw [prev]
    exact shipped.inside.trans inside
  · rw [prev]
    exact shipped.prevTerm
  · rw [commit]
    exact shipped.chosen.later later

namespace Node.Consistent

variable (consistent : node.Consistent cluster history id)
include consistent

/-- A node that has acknowledged nothing new, and whose log as a leader is the same. -/
theorem later {next : History Cmd}
    (later : history.Later next) (acks : ∀ t i, next.acked id t i -> history.acked id t i)
    (leads : node.role = .leader -> next.log node.term = history.log node.term) :
    node.Consistent cluster next id where
  sound := consistent.sound
  grounded := consistent.grounded.grow later.log
  old := consistent.old
  reached := fun t i acked => consistent.reached t i (acks t i acked)
  leads := fun leader => (consistent.leads leader).trans (leads leader).symm
  keeps := fun t => (consistent.keeps t).later later (fun _ le => le) (acks t)
  committed := consistent.committed
  applied := consistent.applied
  chosen := consistent.chosen.later later

/-- A node that does not start to lead and keeps its log. -/
theorem turn (turns : Turns node after)
    (stays : after.role = .leader -> node.role = .leader) : after.Consistent cluster history id := by
  have same : after.log = node.log := by
    apply turns.still
    by_cases leader : after.role = .leader
    · exact .inl (stays leader)
    · exact .inr leader
  have term := turns.term
  constructor
  · rw [same]
    exact consistent.sound
  · rw [same]
    exact consistent.grounded
  · rw [same]
    exact fun entry member => (consistent.old entry member).trans term
  · exact fun t i acked => (consistent.reached t i acked).trans term
  · intro leader
    rw [same, (turns.leader (stays leader)).mp leader]
    exact consistent.leads (stays leader)
  · intro t
    rw [same]
    exact (consistent.keeps t).later (refl history) (fun r le => le.trans term)
      fun _ acked => acked
  · rw [same]
    exact consistent.committed
  · rw [same]
    exact consistent.applied
  · rw [same]
    exact consistent.chosen.mono term

/-- A log that grows by entries of a term not before the node's keeps to the leaders' logs. -/
theorem of_grows (grows : Log.Grows term node.log log) (recent : node.term ≤ term) :
    (∀ entry ∈ log.full, entry.term ≤ term) ∧ ∀ front last, front ++ [last] <+: log.full ->
      last.term ≠ term -> front ++ [last] <+: history.log last.term := by
  obtain ⟨new, full, own⟩ := grows.full
  rw [full]
  refine ⟨fun entry member => ?_, fun front last inside other => ?_⟩
  · rcases mem_append.mp member with old | fresh
    · exact (consistent.old entry old).trans recent
    · exact le_of_eq (own entry fresh)
  · exact consistent.grounded front last
      (prefix_of_last_notMem inside fun fresh => other (own last fresh))

end Node.Consistent

namespace System.Replicas

variable {system : System Cmd Pool} {next : History Cmd} {i : Nat}

theorem leaders_place_of_stays (stays : after.role = .leader -> (system.nodes id).role = .leader) :
    (system.place id after).leaders = system.leaders := by
  unfold System.place newLeader
  rw [if_neg]
  · rfl
  · rintro ⟨was, now⟩
    exact was (stays now)

/-- Of two parts of a log that were chosen the longer one was. -/
theorem chosen_max {log : List (LogEntry Cmd)} {first second : Nat}
    (one : History.Chosen cluster.IsQuorum history term (log.take first))
    (two : History.Chosen cluster.IsQuorum history term (log.take second)) :
    History.Chosen cluster.IsQuorum history term (log.take (max first second)) := by
  rcases le_total first second with le | le
  · rw [max_eq_right le]
    exact two
  · rw [max_eq_left le]
    exact one

/-- What a leader commits was chosen: it and the voters it counts have the entries. -/
theorem chosen_of_commits
    (commits : Node.Commits cluster id node i term log) (sound : node.log.Sound)
    (voter : id ∈ cluster.voters) (full : node.log.full = history.log term)
    (own : ∀ j ≤ (history.log term).length, history.acked id term j)
    (counted : ∀ other ∈ (cluster.voters.erase id).filter (fun other =>
        i ≤ (node.statuses other).matchIndex),
      ∃ j, history.acked other term j ∧ i ≤ j) :
    i ≤ node.log.full.length ∧
      History.Chosen cluster.IsQuorum history term (node.log.full.take i) := by
  obtain ⟨entry, found, ownTerm⟩ := commits.entry
  have after : node.log.baseIndex < i := by
    by_contra early
    rw [Log.get, if_neg early] at found
    cases found
  rw [sound.get_eq after] at found
  have bound := (List.getElem?_eq_some_iff.mp found).1
  have split : node.log.full.take i = node.log.full.take (i - 1) ++ [entry] := by
    have next : i = i - 1 + 1 := by omega
    rw [next, take_add_one, found]
    rfl
  have inside : node.log.full.take i <+: history.log term := by
    rw [← full]
    exact take_prefix _ _
  refine ⟨by omega, .inr ⟨node.log.full.take (i - 1), entry, ?_, ownTerm.le, ?_,
    Node.replicated cluster id node i, ⟨?_, commits.many⟩, ?_⟩⟩
  · rw [split]
  · rw [← split, ownTerm]
    exact inside
  · intro other member
    rcases Finset.mem_insert.mp member with rfl | others
    · exact voter
    · exact Finset.mem_of_mem_erase (Finset.mem_filter.mp others).1
  intro other member
  rw [ownTerm, ← split]
  refine ⟨inside, ?_⟩
  rcases Finset.mem_insert.mp member with rfl | others
  · exact ⟨i, own i (by rw [← full]; omega), length_take_le i _⟩
  · obtain ⟨j, acked, above⟩ := counted other others
    exact ⟨j, acked, (length_take_le i _).trans above⟩

/-- A node becomes the leader of a term it stood in. -/
structure Wins (cluster : Cluster Cmd Pool) (system : System Cmd Pool) (id : ServerId)
    (after : Node Cmd Pool) : Prop where
  votes : VoteInv cluster (system.place id after)
  was : (system.nodes id).role ≠ .leader
  now : after.role = .leader
  stood : (system.nodes id).role = .candidate ∧ after.term = (system.nodes id).term ∨
    after.term = (system.nodes id).term + 1
  cast : forall ballot, (system.place id after).Cast ballot ->
    system.Cast ballot ∨ ballot = ⟨id, after.term, id⟩ ∧ after.term = (system.nodes id).term + 1

theorem Wins.elected (wins : Wins cluster system id after) :
    (after.term, id) ∈ (system.place id after).leaders :=
  mem_leaders_place.mpr (.inl ⟨⟨wins.was, wins.now⟩, rfl, rfl⟩)

variable (inv : Replicas cluster system history)
include inv

/-- A node that reaches a new term without a leader carries over what it has itself. -/
theorem carries_self (term : after.term = (system.nodes id).term + 1) :
    history.Carries id after.term (system.nodes id).log.full := by
  have consistent := inv.nodes id
  refine History.Keeps.carries ?_ consistent.grounded consistent.grounded ?_
    (.inr ⟨rfl, le_rfl⟩)
  · intro t _ part acked kept
    exact consistent.keeps t part acked fun r newer within => kept r newer (by omega)
  · intro entry member
    have old := consistent.old entry member
    omega

/-- A voter that grants a vote carries over what it has. -/
theorem carries_of_upToDate {candidate : ServerId} (recent : (system.nodes id).term ≤ term)
    (stands : system.Stands history candidate term)
    (upToDate : (system.nodes id).log.logUpToDate
      (lastTerm LogEntry.term (system.nodes candidate).log.full)
      (system.nodes candidate).log.full.length = true) :
    history.Carries id term (system.nodes candidate).log.full := by
  have voter := inv.nodes id
  have other := inv.nodes candidate
  refine History.Keeps.carries ?_ voter.grounded other.grounded ?_ ?_
  · intro t _ part acked kept
    refine voter.keeps t part acked fun r newer within elected => kept r newer ?_ elected
    rcases lt_or_eq_of_le (within.trans recent) with lower | rfl
    · exact lower
    · exact absurd elected stands.2.2
  · -- Entries of the term itself would come from its leader.
    intro entry member
    have old := other.old entry member
    rw [stands.2.1] at old
    rcases lt_or_eq_of_le old with lower | same
    · exact lower
    exfalso
    obtain ⟨front, rest, split⟩ := append_of_mem member
    have inside := other.grounded front entry
      ⟨rest, by rw [split, append_assoc]; rfl⟩
    apply stands.2.2
    apply history.elected_of_ne_nil
    intro empty
    rw [same, empty] at inside
    simp at inside
  · unfold Log.logUpToDate at upToDate
    rw [voter.sound.lastLogTerm_eq, voter.sound.lastLogIndex_eq] at upToDate
    split at upToDate
    · rename_i same
      exact .inr ⟨same.symm, by simpa using upToDate⟩
    · exact .inl (by simpa using upToDate)

theorem unled_of_win (wins : Wins cluster system id after) : ¬ history.elected after.term := by
  intro elected
  obtain ⟨leader, old⟩ := (inv.elected after.term).mp elected
  have same : leader = id := wins.votes.leader_unique
    (wins.votes.elected _ _ (mem_append_right _ old)) (wins.votes.elected _ _ wins.elected)
  subst same
  have stood := wins.stood
  rcases inv.led after.term leader old with lower | ⟨_, role⟩
  · omega
  · exact wins.was role

/-- The voters of a new leader carry over what they have. -/
theorem electors_of_win (wins : Wins cluster system id after) :
    ∃ voters, cluster.IsQuorum voters ∧ ∀ voter ∈ voters,
      after.term ≤ ((system.place id after).nodes voter).term ∧
        history.Carries voter after.term (system.nodes id).log.full := by
  obtain ⟨voters, inside, many, voted⟩ := wins.votes.elected _ _ wins.elected
  refine ⟨voters, ⟨inside, many⟩, fun voter member => ?_⟩
  have casted : (system.place id after).Cast ⟨voter, after.term, id⟩ := .inl (voted voter member)
  constructor
  · rcases wins.votes.known _ casted with earlier | ⟨same, _⟩
    · exact earlier.le
    · exact same.le
  rcases wins.cast _ casted with old | ⟨same, next⟩
  · obtain ⟨reached, carries⟩ := inv.ballots _ old
    dsimp only at reached carries
    rcases wins.stood with ⟨role, same⟩ | next
    · exact carries ⟨role, same.symm, inv.unled_of_win wins⟩
    · omega
  · cases same
    exact inv.carries_self next

theorem mem_leaders_of_leads (now : after.role = .leader)
    (leader : (system.nodes id).role = .leader -> after.term = (system.nodes id).term) :
    (after.term, id) ∈ (system.place id after).leaders := by
  by_cases was : (system.nodes id).role = .leader
  · rw [leader was]
    exact mem_leaders_place.mpr (.inr (inv.leader id was))
  · exact mem_leaders_place.mpr (.inl ⟨⟨was, now⟩, rfl, rfl⟩)

theorem elections_of : History.Elections cluster.IsQuorum history := by
  intro t elected
  obtain ⟨voters, quorum, voted⟩ := inv.elections t elected
  exact ⟨voters, quorum, fun voter member => (voted voter member).2⟩

variable (prior : VoteInv cluster system)
include prior

/-- One node has run a handler.  What the handler has done to the logs of leaders, to
acknowledgements and to votes is in the hypotheses. -/
theorem place (later : history.Later next) (consistent : after.Consistent cluster next id)
    (term : (system.nodes id).term ≤ after.term)
    (leader : (system.nodes id).role = .leader ->
      (after.role = .leader ↔ after.term = (system.nodes id).term))
    (acks : ∀ node t i, next.acked node t i ->
      history.acked node t i ∨ node = id ∧ (system.nodes id).term ≤ t)
    (others : ∀ node ≠ id, (system.nodes node).role = .leader ->
      next.log (system.nodes node).term = history.log (system.nodes node).term)
    (elected : ∀ t, next.elected t ↔ ∃ leader, (t, leader) ∈ (system.place id after).leaders)
    (own : ∀ t leader, (t, leader) ∈ (system.place id after).leaders ->
      ∀ i ≤ (next.log t).length, next.acked leader t i)
    (won : ∀ t, next.elected t -> ¬ history.elected t ->
      ∃ voters, cluster.IsQuorum voters ∧ ∀ voter ∈ voters,
        t ≤ ((system.place id after).nodes voter).term ∧ next.Carries voter t (next.log t))
    (numbered : ∀ t, Log.Numbered (next.log t))
    (stands : after.role = .candidate -> ¬ next.elected after.term ->
      (system.nodes id).term < after.term ∨ (system.nodes id).role = .candidate ∧
        after.term = (system.nodes id).term ∧ after.log.full = (system.nodes id).log.full)
    (cast : ∀ ballot, (system.place id after).Cast ballot -> system.Cast ballot ∨
      ballot.term ≤ ((system.place id after).nodes ballot.candidate).term ∧
        ((system.place id after).Stands next ballot.candidate ballot.term ->
          next.Carries ballot.voter ballot.term
            ((system.place id after).nodes ballot.candidate).log.full)) :
    Replicas cluster (system.place id after) next := by
  have terms : ∀ node, (system.nodes node).term ≤ ((system.place id after).nodes node).term := by
    intro node
    by_cases here : node = id
    · rw [here, nodes_place_self]
      exact term
    · rw [nodes_place_ne here]
  -- A candidate that stands after the step in a term it had reached stood before, with
  -- the same log.
  have stood : ∀ node t, (system.place id after).Stands next node t ->
      t ≤ (system.nodes node).term -> system.Stands history node t ∧
        ((system.place id after).nodes node).log.full = (system.nodes node).log.full := by
    rintro node t ⟨role, same, unled⟩ reached
    have before : ¬ history.elected t := fun elected => unled (later.elected t elected)
    by_cases here : node = id
    · subst here
      rw [nodes_place_self] at role same ⊢
      subst same
      rcases stands role unled with newer | ⟨was, equal, full⟩
      · omega
      · exact ⟨⟨was, equal.symm, before⟩, full⟩
    · rw [nodes_place_ne here] at role same ⊢
      exact ⟨⟨role, same, before⟩, rfl⟩
  have oldAcks : ∀ node s t i, s ≤ (system.nodes node).term -> t < s ->
      next.acked node t i -> history.acked node t i := by
    intro node s t i reached lower acked
    rcases acks node t i acked with old | ⟨rfl, new⟩
    · exact old
    · omega
  refine ⟨?_, elected, ?_, ?_, own, ?_, numbered, ?_, ?_, ?_, ?_⟩
  · intro node
    by_cases here : node = id
    · rw [here, nodes_place_self]
      exact consistent
    rw [nodes_place_ne here]
    refine (inv.nodes node).later later (fun t i acked => ?_) (others node here)
    rcases acks node t i acked with old | ⟨same, _⟩
    · exact old
    · exact absurd same here
  · intro node role
    by_cases here : node = id
    · subst here
      rw [nodes_place_self] at role ⊢
      exact inv.mem_leaders_of_leads role fun was => (leader was).mp role
    · rw [nodes_place_ne here] at role ⊢
      exact mem_leaders_place.mpr (.inr (inv.leader node role))
  · intro t node member
    rcases mem_leaders_place.mp member with ⟨turned, rfl, rfl⟩ | old
    · rw [nodes_place_self]
      exact .inr ⟨rfl, turned.2⟩
    have before := inv.led t node old
    by_cases here : node = id
    · subst here
      rw [nodes_place_self]
      rcases before with lower | ⟨same, role⟩
      · exact .inl (by omega)
      · by_cases equal : after.term = (system.nodes node).term
        · exact .inr ⟨same.trans equal.symm, (leader role).mpr equal⟩
        · exact .inl (by omega)
    · rw [nodes_place_ne here]
      exact before
  · intro t isElected
    by_cases was : history.elected t
    · obtain ⟨voters, quorum, voted⟩ := inv.elections t was
      refine ⟨voters, quorum, fun voter member => ?_⟩
      obtain ⟨reached, carries⟩ := voted voter member
      exact ⟨reached.trans (terms voter), carries.later later (later.log t)
        fun s i lower => oldAcks voter t s i reached lower⟩
    · exact won t isElected was
  · intro request member vote
    obtain ⟨reached, describes⟩ := inv.requests request member vote
    refine ⟨reached.trans (terms _), fun now => ?_⟩
    obtain ⟨before, full⟩ := stood _ _ now reached
    rw [full]
    exact describes before
  · intro ballot casted
    rcases cast ballot casted with old | new
    swap
    · exact new
    obtain ⟨reached, carries⟩ := inv.ballots ballot old
    refine ⟨reached.trans (terms _), fun now => ?_⟩
    obtain ⟨before, full⟩ := stood _ _ now reached
    rw [full]
    have known : ballot.term ≤ (system.nodes ballot.voter).term := by
      rcases prior.known ballot old with earlier | ⟨same, _⟩
      · exact earlier.le
      · exact same.le
    exact (carries before).later later prefix_rfl
      fun t i lower => oldAcks ballot.voter ballot.term t i known lower
  · intro follower request member
    obtain ⟨different, leads, shipped⟩ := inv.appends follower request member
    exact ⟨different, mem_append_right _ leads, shipped.later later⟩
  · intro response member success i sent
    exact later.acked _ _ _ (inv.answers response member success i sent)

/-- A node keeps its log and does not start to lead. -/
theorem quiet (turns : (system.nodes id).Turns after)
    (stays : after.role = .leader -> (system.nodes id).role = .leader)
    (cast : ∀ ballot, (system.place id after).Cast ballot -> system.Cast ballot ∨
      ballot.term ≤ ((system.place id after).nodes ballot.candidate).term ∧
        ((system.place id after).Stands history ballot.candidate ballot.term ->
          history.Carries ballot.voter ballot.term
            ((system.place id after).nodes ballot.candidate).log.full)) :
    Replicas cluster (system.place id after) history := by
  have leaders := leaders_place_of_stays stays
  refine inv.place prior (refl history) ((inv.nodes id).turn turns stays) turns.term
    turns.leader (fun _ _ _ => .inl) (fun _ _ _ => rfl) ?_ ?_
    (fun t elected unled => absurd elected unled) inv.numbered ?_ cast
  · rw [leaders]
    exact inv.elected
  · rw [leaders]
    exact inv.own
  intro candidate _
  rcases turns.candidate candidate with newer | ⟨was, same⟩
  · exact .inl newer
  · refine .inr ⟨was, same, ?_⟩
    rw [turns.still (.inr (by rw [candidate]; decide))]

/-- A node leads, with a log that has grown by entries of its term. -/
theorem lead (votes : VoteInv cluster (system.place id after))
    (term : (system.nodes id).term ≤ after.term) (now : after.role = .leader)
    (leader : (system.nodes id).role = .leader -> after.term = (system.nodes id).term)
    (grown : history.log after.term <+: after.log.full)
    (bounded : ∀ entry ∈ after.log.full, entry.term ≤ after.term)
    (grounded : ∀ front last, front ++ [last] <+: after.log.full ->
      last.term ≠ after.term -> front ++ [last] <+: history.log last.term)
    (own : history.elected after.term ->
      ∀ entry ∈ after.log.full.drop (history.log after.term).length, entry.term = after.term)
    (sound : after.log.Sound) (committed : after.log.commitIndex ≤ after.log.lastAs)
    (applied : after.log.lastAs ≤ after.log.full.length)
    (chosen : ∀ next : History Cmd, history.Later next ->
      next.log after.term = after.log.full ->
      (∀ i ≤ (next.log after.term).length, next.acked id after.term i) ->
      History.Chosen cluster.IsQuorum next after.term (after.log.full.take after.log.lastAs))
    (electors : ¬ history.elected after.term -> ∃ voters, cluster.IsQuorum voters ∧
      ∀ voter ∈ voters, after.term ≤ ((system.place id after).nodes voter).term ∧
        history.Carries voter after.term after.log.full)
    (cast : ∀ ballot, (system.place id after).Cast ballot ->
      system.Cast ballot ∨ ballot = ⟨id, after.term, id⟩) :
    ∃ next, Replicas cluster (system.place id after) next ∧ history.Later next := by
  have later : history.Later (history.lead id after.term after.log.full grown bounded grounded) :=
    of_lead grown bounded grounded own
  generalize leading : history.lead id after.term after.log.full grown bounded grounded = next
    at later
  have self := inv.mem_leaders_of_leads now leader
  have sole : ∀ other, (after.term, other) ∈ (system.place id after).leaders -> other = id :=
    fun other member => votes.leader_unique (votes.elected _ _ member) (votes.elected _ _ self)
  have log : next.log after.term = after.log.full := by
    rw [← leading]
    exact Function.update_self _ _ _
  have logs : ∀ t ≠ after.term, next.log t = history.log t := by
    intro t other
    rw [← leading]
    exact Function.update_of_ne other _ _
  have elected : ∀ t, next.elected t ↔ history.elected t ∨ t = after.term := by
    intro t
    rw [← leading]
    rfl
  have acked : ∀ node t i, next.acked node t i ↔
      history.acked node t i ∨ node = id ∧ t = after.term ∧ i ≤ after.log.full.length := by
    intro node t i
    rw [← leading]
    rfl
  have consistent := inv.nodes id
  have reached : ∀ t i, next.acked id t i -> t ≤ after.term := by
    intro t i acks
    rcases (acked id t i).mp acks with old | ⟨_, same, _⟩
    · exact (consistent.reached t i old).trans term
    · exact same.le
  have chosenNow := chosen next later log
    fun i bound => (acked id after.term i).mpr (.inr ⟨rfl, rfl, log ▸ bound⟩)
  refine ⟨next, inv.place prior later
    ⟨sound, log ▸ next.grounded after.term, bounded, reached, fun _ => log.symm, ?_, committed,
      applied, chosenNow⟩
    term (fun was => ⟨fun _ => leader was, fun _ => now⟩) ?_ ?_ ?_ ?_ ?_ ?_ ?_ ?_, later⟩
  · -- All that the leader has acknowledged is in the log of its own term.
    intro t part acks kept
    obtain ⟨inside, i, acknowledged, _⟩ := acks
    rw [← log]
    rcases lt_or_eq_of_le (reached t i acknowledged) with lower | rfl
    · exact kept after.term lower le_rfl ((elected _).mpr (.inr rfl))
    · exact inside
  · intro node t i acks
    rcases (acked node t i).mp acks with old | ⟨same, rfl, _⟩
    · exact .inl old
    · exact .inr ⟨same, term⟩
  · intro node other role
    apply logs
    intro same
    have member := inv.leader node role
    rw [same] at member
    exact other (sole node (mem_append_right _ member))
  · intro t
    rw [elected, inv.elected]
    constructor
    · rintro (⟨other, member⟩ | rfl)
      · exact ⟨other, mem_append_right _ member⟩
      · exact ⟨id, self⟩
    · rintro ⟨other, member⟩
      rcases mem_leaders_place.mp member with ⟨_, rfl, _⟩ | old
      · exact .inr rfl
      · exact .inl ⟨other, old⟩
  · intro t other member i bound
    rw [acked]
    by_cases here : t = after.term
    · subst here
      rw [log] at bound
      exact .inr ⟨sole other member, rfl, bound⟩
    · rw [logs t here] at bound
      rcases mem_leaders_place.mp member with ⟨_, same, _⟩ | old
      · exact absurd same here
      · exact .inl (inv.own t other old i bound)
  · intro t isElected unled
    rcases (elected t).mp isElected with was | rfl
    · exact absurd was unled
    obtain ⟨voters, quorum, voted⟩ := electors unled
    refine ⟨voters, quorum, fun voter member => ⟨(voted voter member).1, ?_⟩⟩
    rw [log]
    refine (voted voter member).2.later later prefix_rfl fun t i lower acks => ?_
    rcases (acked voter t i).mp acks with old | ⟨_, same, _⟩
    · exact old
    · omega
  · intro t
    by_cases here : t = after.term
    · rw [here, log]
      exact sound.numbered
    · rw [logs t here]
      exact inv.numbered t
  · intro candidate
    rw [now] at candidate
    cases candidate
  intro ballot casted
  rcases cast ballot casted with old | rfl
  · exact .inl old
  rw [nodes_place_self]
  refine .inr ⟨le_rfl, fun stands => ?_⟩
  have role := stands.1
  rw [nodes_place_self, now] at role
  cases role

/-- A node has won an election. -/
theorem win (turns : (system.nodes id).Turns after) (wins : Wins cluster system id after) :
    ∃ next, Replicas cluster (system.place id after) next ∧ history.Later next := by
  have consistent := inv.nodes id
  have unled := inv.unled_of_win wins
  obtain ⟨new, full, _⟩ := turns.grows.full
  have empty : history.log after.term = [] := by
    by_contra nonempty
    exact unled (history.elected_of_ne_nil _ nonempty)
  have grown : history.log after.term <+: after.log.full := by
    rw [empty]
    exact nil_prefix
  have longer : (system.nodes id).log.full <+: after.log.full := ⟨new, full.symm⟩
  obtain ⟨bounded, grounded⟩ := consistent.of_grows turns.grows turns.term
  refine inv.lead prior wins.votes turns.term wins.now (fun leader => absurd leader wins.was) grown
    bounded grounded (fun elected => absurd elected unled) (turns.grows.sound consistent.sound)
    ?_ ?_ ?_ ?_ ?_
  · rw [turns.grows.commitIndex, turns.grows.lastAs]
    exact consistent.committed
  · rw [turns.grows.lastAs]
    exact consistent.applied.trans longer.length_le
  · intro next later _ _
    rw [turns.grows.lastAs, take_of_inside longer consistent.applied]
    exact (consistent.chosen.later later).mono turns.term
  · intro _
    obtain ⟨voters, quorum, voted⟩ := inv.electors_of_win wins
    refine ⟨voters, quorum, fun voter member => ⟨(voted voter member).1, ?_⟩⟩
    exact (voted voter member).2.later (refl history) longer fun _ _ _ acked => acked
  · intro ballot casted
    rcases wins.cast ballot casted with old | ⟨same, _⟩
    · exact .inl old
    · exact .inr same

/-- The leader of a request is not the node that receives it. -/
theorem notLeader_of_append (sent : (id, request) ∈ system.appends)
    (same : (system.nodes id).term = request.term) :
    (system.nodes id).role ≠ .leader := by
  intro role
  obtain ⟨different, leads, _⟩ := inv.appends id request sent
  have own := inv.leader id role
  rw [same] at own
  exact different (prior.leader_unique (prior.elected _ _ own) (prior.elected _ _ leads))

/-- A node appends the entries of a leader, and does not cut off entries that match. -/
theorem accept (sent : (id, request) ∈ system.appends)
    (accepts : (system.nodes id).Accepts request after) (follows : (system.nodes id).Follows after)
    (reach : Log.matching ((system.nodes id).log.full.drop request.prevLogIndex) request.entries =
        request.entries.length ->
      (system.nodes id).log.full.length ≤ request.prevLogIndex + request.entries.length) :
    ∃ next, Replicas cluster (system.place id after) next ∧ history.Later next ∧
      next.acked id request.term (request.prevLogIndex + request.entries.length) := by
  have consistent := inv.nodes id
  obtain ⟨different, leads, shipped⟩ := inv.appends id request sent
  have elected : history.elected request.term := (inv.elected _).mpr ⟨_, leads⟩
  obtain ⟨log, appends, sameFull, soundness, commit, lastAs⟩ := accepts.log
  obtain ⟨result, related⟩ := appends.result consistent.grounded (history.grounded request.term)
    shipped.inside shipped.bound shipped.prevTerm
  have inside := shipped.inside
  have length : ((history.log request.term).take request.prevLogIndex ++ request.entries).length =
      request.prevLogIndex + request.entries.length := by
    have bound := shipped.bound
    rw [length_append, length_take]
    omega
  rw [result] at sameFull
  have sentNumbered := (inv.numbered request.term).shorter inside
  generalize (history.log request.term).take request.prevLogIndex ++ request.entries = sentLog at *
  -- What the log had in common with the log of the leader is still there.
  have held : ∀ part, part <+: (system.nodes id).log.full ->
      part <+: history.log request.term -> part <+: sentLog := by
    intro part inOwn inLeader
    rcases related reach with shorter | ⟨place, own, entry, ownAt, entryAt, conflict⟩
    · exact inOwn.trans shorter
    · exact prefix_of_conflict inOwn inLeader inside ownAt entryAt conflict
  have logSound : log.Sound := appends.sound consistent.sound (result ▸ sentNumbered)
  have commitBound : after.log.commitIndex ≤ request.leaderCommit ∧
      after.log.commitIndex ≤ sentLog.length := by
    rw [commit, logSound.lastLogIndex_eq, result]
    exact ⟨min_le_left _ _, min_le_right _ _⟩
  have before : (system.nodes id).log.full.take (system.nodes id).log.lastAs <+: sentLog :=
    held _ ( take_prefix _ _)
      (consistent.chosen.prefix_log Cluster.IsQuorum.meet inv.elections_of accepts.recent elected)
  have beforeLength : (system.nodes id).log.lastAs ≤ sentLog.length := by
    have bound := before.length_le
    rw [length_take, min_eq_left consistent.applied] at bound
    exact bound
  have bound : request.prevLogIndex + request.entries.length ≤
      (history.log request.term).length := by
    rw [← length]
    exact inside.length_le
  have stays : after.role = .leader -> (system.nodes id).role = .leader :=
    fun leads => (follows.leader leads).1
  have leaders := leaders_place_of_stays stays
  have notLeader : after.role ≠ .leader := by
    intro role
    rcases lt_or_eq_of_le accepts.recent with newer | same
    · rw [accepts.follower newer] at role
      cases role
    · exact inv.notLeader_of_append prior sent same (stays role)
  have later : history.Later (history.ack id request.term
      (request.prevLogIndex + request.entries.length) bound) :=
    ⟨fun _ => prefix_rfl, fun _ elected => elected, fun _ _ _ => .inl, by simp [History.ack]⟩
  refine ⟨_, inv.place prior later ⟨?_, ?_, ?_, ?_, fun role => absurd role notLeader, ?_, ?_, ?_, ?_⟩
    (accepts.term ▸ accepts.recent) ?_ ?_ (fun _ _ _ => rfl) ?_ ?_
    (fun t elected unled => absurd elected unled) inv.numbered ?_
    (fun _ casted => .inl (cast_of_follows casted follows)), later,
    .inr ⟨rfl, rfl, rfl⟩⟩
  · exact soundness logSound
  · rw [sameFull]
    exact (history.grounded request.term).shorter inside
  · intro entry member
    rw [sameFull] at member
    rw [accepts.term]
    exact history.bounded _ entry (inside.subset member)
  · rintro t i (old | ⟨_, rfl, _⟩)
    · rw [accepts.term]
      exact (consistent.reached t i old).trans accepts.recent
    · exact accepts.term.ge
  · rintro t part ⟨inLeader, i, old | ⟨_, rfl, rfl⟩, short⟩ kept
    · rw [sameFull]
      have reached := (consistent.reached t i old).trans accepts.recent
      refine held part (consistent.keeps t part ⟨inLeader, i, old, short⟩
        fun r newer within => kept r newer ?_) ?_
      · exact within.trans (accepts.recent.trans accepts.term.ge)
      · rcases lt_or_eq_of_le reached with lower | same
        · exact kept request.term lower accepts.term.ge elected
        · exact same ▸ inLeader
    · rw [sameFull]
      exact prefix_of_prefix_length_le inLeader inside (by omega)
  · have lower := consistent.committed
    rcases lastAs with ⟨same, less⟩ | raised
    · rw [appends.lastAs] at same
      rw [appends.commitIndex] at less
      omega
    · omega
  · rw [sameFull]
    rcases lastAs with ⟨same, _⟩ | raised
    · rw [same, appends.lastAs]
      exact beforeLength
    · rw [raised, appends.lastAs]
      omega
  · rw [sameFull, accepts.term]
    have old : History.Chosen cluster.IsQuorum history request.term
        (sentLog.take (system.nodes id).log.lastAs) := by
      have same : sentLog.take (system.nodes id).log.lastAs =
          (system.nodes id).log.full.take (system.nodes id).log.lastAs := by
        have part := prefix_iff_eq_take.mp before
        rw [length_take, min_eq_left consistent.applied] at part
        exact part.symm
      rw [same]
      exact consistent.chosen.mono accepts.recent
    have new : History.Chosen cluster.IsQuorum history request.term
        (sentLog.take after.log.commitIndex) := by
      refine shipped.chosen.shorter ?_
      rw [← take_of_inside inside commitBound.2]
      exact take_prefix_take_left commitBound.1
    refine History.Chosen.later ?_ later
    rcases lastAs with ⟨same, _⟩ | raised
    · rw [same, appends.lastAs]
      exact old
    · rw [raised, appends.lastAs]
      exact chosen_max old new
  · intro was
    rcases lt_or_eq_of_le accepts.recent with newer | same
    · refine ⟨fun role => absurd role notLeader, fun equal => ?_⟩
      rw [accepts.term] at equal
      omega
    · exact absurd was (inv.notLeader_of_append prior sent same)
  · rintro node t i (old | ⟨same, rfl, _⟩)
    · exact .inl old
    · exact .inr ⟨same, accepts.recent⟩
  · rw [leaders]
    exact inv.elected
  · rw [leaders]
    exact fun t leader member i short => .inl (inv.own t leader member i short)
  · intro _ unled
    rw [accepts.term] at unled
    exact absurd elected unled

/-- The leader raises its commit index. -/
theorem commit (role : (system.nodes id).role = .leader)
    (sameLog : node.log = (system.nodes id).log)
    (commits : Node.Commits cluster id node i (system.nodes id).term after.log)
    (sameTerm : after.term = (system.nodes id).term)
    (sameRole : after.role = (system.nodes id).role) (voter : id ∈ cluster.voters)
    (counted : ∀ other ∈ (cluster.voters.erase id).filter (fun other =>
        i ≤ (node.statuses other).matchIndex),
      ∃ j, history.acked other (system.nodes id).term j ∧ i ≤ j)
    (follows : (system.nodes id).Follows after) :
    Replicas cluster (system.place id after) history := by
  have consistent := inv.nodes id
  have leads := consistent.leads role
  have full : after.log.full = (system.nodes id).log.full := by rw [commits.full, sameLog]
  have lastAs : after.log.lastAs = max (system.nodes id).log.lastAs i := by
    rw [commits.lastAs, sameLog]
  obtain ⟨bound, chosen⟩ := chosen_of_commits commits (sameLog ▸ consistent.sound) voter
    (sameLog ▸ leads) (inv.own _ _ (inv.leader id role)) counted
  rw [sameLog] at bound chosen
  have leaders := leaders_place_of_stays fun leads => (follows.leader leads).1
  refine inv.place prior (refl history) ⟨?_, ?_, ?_, ?_, ?_, ?_, ?_, ?_, ?_⟩
    sameTerm.ge
    (fun _ => ⟨fun _ => sameTerm, fun _ => sameRole.trans role⟩) (fun _ _ _ => .inl)
    (fun _ _ _ => rfl) ?_ ?_ (fun t elected unled => absurd elected unled) inv.numbered ?_
    (fun _ casted => .inl (cast_of_follows casted follows))
  · exact commits.sound (sameLog ▸ consistent.sound)
  · rw [full]
    exact consistent.grounded
  · rw [full, sameTerm]
    exact consistent.old
  · rw [sameTerm]
    exact consistent.reached
  · intro _
    rw [full, sameTerm]
    exact leads
  · rw [full, sameTerm]
    exact consistent.keeps
  · rw [commits.commitIndex, lastAs]
    exact le_max_right _ _
  · rw [full, lastAs]
    exact Nat.max_le.mpr ⟨consistent.applied, bound⟩
  · rw [full, lastAs, sameTerm]
    exact chosen_max consistent.chosen chosen
  · rw [leaders]
    exact inv.elected
  · rw [leaders]
    exact inv.own
  · intro candidate
    rw [sameRole, role] at candidate
    cases candidate

/-- The leader appends proposals, and may commit them at once. -/
theorem push (votes : VoteInv cluster (system.place id after))
    (role : (system.nodes id).role = .leader)
    (same : (system.nodes id).SameBallot after) (voter : id ∈ cluster.voters)
    (grows : Log.Grows (system.nodes id).term (system.nodes id).log log)
    (outcome : after.log = log ∨ Node.Commits cluster id { system.nodes id with log := log }
      log.lastLogIndex (system.nodes id).term after.log)
    (counted : ∀ other ∈ (cluster.voters.erase id).filter (fun other =>
        log.lastLogIndex ≤ ((system.nodes id).statuses other).matchIndex),
      ∃ j, history.acked other (system.nodes id).term j ∧ log.lastLogIndex ≤ j) :
    ∃ next, Replicas cluster (system.place id after) next ∧ history.Later next := by
  have consistent := inv.nodes id
  have leads := consistent.leads role
  have sameTerm := same.term
  have now : after.role = .leader := same.role.trans role
  have elected : history.elected (system.nodes id).term :=
    (inv.elected _).mpr ⟨id, inv.leader id role⟩
  have logSound := grows.sound consistent.sound
  have full : after.log.full = log.full := by
    rcases outcome with rfl | commits
    · rfl
    · exact commits.full
  obtain ⟨new, grown, own⟩ := grows.full
  have longer : history.log after.term <+: after.log.full := by
    rw [full, grown, sameTerm, leads]
    exact prefix_append _ _
  have kept := consistent.of_grows grows le_rfl
  rw [← full, ← sameTerm] at kept
  obtain ⟨bounded, grounded⟩ := kept
  have ownTerm : history.elected after.term ->
      ∀ entry ∈ after.log.full.drop (history.log after.term).length, entry.term = after.term := by
    intro _ entry member
    rw [full, grown, sameTerm, leads, drop_left] at member
    rw [sameTerm]
    exact own entry member
  have before : (system.nodes id).log.full <+: log.full := ⟨new, grown.symm⟩
  have follows := same.follows
  have cast : ∀ ballot, (system.place id after).Cast ballot ->
      system.Cast ballot ∨ ballot = ⟨id, after.term, id⟩ :=
    fun _ casted => .inl (cast_of_follows casted follows)
  have old : ∀ next : History Cmd, history.Later next ->
      History.Chosen cluster.IsQuorum next (system.nodes id).term
        (log.full.take (system.nodes id).log.lastAs) := by
    intro next later
    rw [take_of_inside before consistent.applied]
    exact consistent.chosen.later later
  refine inv.lead prior votes sameTerm.ge now (fun _ => sameTerm) longer
    bounded grounded ownTerm ?_ ?_ ?_ ?_ (fun unled => absurd (sameTerm ▸ elected) unled) cast
  · rcases outcome with rfl | commits
    · exact logSound
    · exact commits.sound logSound
  · rcases outcome with rfl | commits
    · rw [grows.commitIndex, grows.lastAs]
      exact consistent.committed
    · rw [commits.commitIndex, commits.lastAs]
      exact le_max_right _ _
  · rw [full]
    rcases outcome with rfl | commits
    · rw [grows.lastAs]
      exact consistent.applied.trans before.length_le
    · rw [commits.lastAs, logSound.lastLogIndex_eq]
      rw [grows.lastAs]
      exact Nat.max_le.mpr ⟨consistent.applied.trans before.length_le, le_rfl⟩
  intro next later leadsNow acked
  rw [full, sameTerm]
  rw [sameTerm] at leadsNow acked
  rcases outcome with rfl | commits
  · rw [grows.lastAs]
    exact old next later
  obtain ⟨_, chosen⟩ := chosen_of_commits commits logSound voter
    (full.symm.trans leadsNow.symm) acked fun other member => by
      obtain ⟨j, acknowledged, above⟩ := counted other member
      exact ⟨j, later.acked _ _ _ acknowledged, above⟩
  rw [commits.lastAs]
  rw [grows.lastAs]
  exact chosen_max (old next later) chosen

end System.Replicas
end Rk8s.Xline.Curp
