import Rk8s.Xline.Curp.Election

namespace Rk8s.Xline.Curp

open Replication Transition List

/-!
# What a follower has acknowledged

The requests that one leader has sent in its term reach a follower in any order, and some
of them more than once.  `handle_append_entries` cuts the log behind the entries of the
last one and takes over its commit index, so a late request can take back what the
follower has acknowledged.
-/

variable {Cmd Pool : Type}

/-- A follower with the index of the last entry that it has acknowledged to the leader, and
its commit index before the last request that it has accepted. -/
structure Follower (Cmd Pool : Type) where
  node : Node Cmd Pool
  acked : Nat
  committed : Nat

namespace Follower

/-- The leader of a term has sent the request from its log. -/
def Sent (term : Nat) (whole : List (LogEntry Cmd)) (request : AppendEntries Cmd) : Prop :=
  request.term = term ∧ request.prevLogIndex ≤ whole.length ∧
    lastTerm LogEntry.term (whole.take request.prevLogIndex) = request.prevLogTerm ∧
    whole.take request.prevLogIndex ++ request.entries <+: whole
deriving [DecidableEq Cmd] -> Decidable _

/-- A heartbeat has no entries to acknowledge. -/
def receive (follower : Follower Cmd Pool) (request : AppendEntries Cmd) :
    Option (Follower Cmd Pool) :=
  match follower.node.handleAppendEntries request with
  | (.error _, node) => some { follower with node }
  | (.ok _, node) =>
    some {
      node
      acked := if request.entries.isEmpty then follower.acked
        else max follower.acked (request.prevLogIndex + request.entries.length)
      committed := follower.node.log.commitIndex }

/-- A request that is accepted reaches to the last entry that has been acknowledged and to
the commit index, and so does its own commit index. -/
def Reaches (follower : Follower Cmd Pool) (request : AppendEntries Cmd) : Prop :=
  follower.node.term ≤ request.term ->
    follower.node.log.precedes request.prevLogIndex request.prevLogTerm = true ->
    follower.acked ≤ request.prevLogIndex + request.entries.length ∧
      follower.node.log.commitIndex ≤
        min request.leaderCommit (request.prevLogIndex + request.entries.length)
deriving Decidable

/-- Nothing has been taken back.  The log keeps to the logs of the leaders of all terms. -/
structure Keeps (logs : Nat -> List (LogEntry Cmd)) (whole : List (LogEntry Cmd))
    (follower : Follower Cmd Pool) : Prop where
  acked : whole.take follower.acked <+: follower.node.log.full
  committed : follower.committed ≤ follower.node.log.commitIndex
  applied : follower.node.log.lastAs ≤ follower.node.log.commitIndex
  inside : follower.node.log.commitIndex ≤ follower.node.log.lastLogIndex
  sound : follower.node.log.Sound
  grounded : Grounded LogEntry.term logs follower.node.log.full

variable {term : Nat} {whole : List (LogEntry Cmd)} {logs : Nat -> List (LogEntry Cmd)}
  {follower next : Follower Cmd Pool} {request : AppendEntries Cmd}

theorem Keeps.receive (keeps : Keeps logs whole follower) (numbered : Log.Numbered whole)
    (grounded : Grounded LogEntry.term logs whole) (sent : Sent term whole request)
    (reaches : Reaches follower request) (received : follower.receive request = some next) :
    Keeps logs whole next := by
  obtain ⟨-, bound, prevTerm, part⟩ := sent
  unfold Follower.receive at received
  obtain ⟨follows, ⟨refused, after, outcome, turns⟩ | ⟨after, outcome, accepts⟩⟩ :=
    follower.node.handleAppendEntries_cases request
  · rw [outcome] at received follows
    cases received
    have same : after.log = follower.node.log := by
      by_cases leads : after.role = .leader
      · exact turns.still (.inl (follows.leader leads).1)
      · exact turns.still (.inr leads)
    obtain ⟨acked, committed, applied, inside, sound, own⟩ := keeps
    rw [← same] at acked committed applied inside sound own
    exact ⟨acked, committed, applied, inside, sound, own⟩
  rw [outcome] at received
  cases received
  have accepts := accepts keeps.sound
  obtain ⟨ackedBound, commitBound⟩ := reaches accepts.recent accepts.precedes
  obtain ⟨log, appends, full, soundAfter, commit, lastAs⟩ := accepts.log
  -- The log is now the log of the leader up to the last entry of the request.
  obtain ⟨isPart, -⟩ := appends.result keeps.grounded grounded part bound prevTerm
  have sound := appends.sound keeps.sound (isPart ▸ numbered.shorter part)
  have length : log.full.length = request.prevLogIndex + request.entries.length := by
    rw [isPart, length_append, length_take, min_eq_left bound]
  rw [← isPart, ← full] at part
  have last := (soundAfter sound).lastLogIndex_eq
  rw [full, length] at last
  rw [sound.lastLogIndex_eq] at commit
  have applied := keeps.applied
  have same := appends.lastAs
  have before := appends.commitIndex
  refine ⟨?_, ?_, ?_, ?_, soundAfter sound, grounded.shorter part⟩
  · refine prefix_of_prefix_length_le ( take_prefix _ _) part ?_
    rw [length_take, full, length]
    dsimp only
    split <;> omega
  all_goals dsimp only
  all_goals omega

/-- In every run in which the requests that are accepted reach far enough, a follower keeps
what it has acknowledged. -/
theorem keeps_of_reaches (start : Node Cmd Pool) (sound : start.log.Sound)
    (applied : start.log.lastAs ≤ start.log.commitIndex)
    (inside : start.log.commitIndex ≤ start.log.lastLogIndex)
    (own : Grounded LogEntry.term logs start.log.full) (numbered : Log.Numbered whole)
    (grounded : Grounded LogEntry.term logs whole) {requests : List (AppendEntries Cmd)}
    (run : Run receive (fun follower request => Sent term whole request ∧ Reaches follower request)
      ⟨start, 0, 0⟩ requests follower) : Keeps logs whole follower := by
  refine run.invariant (Keeps logs whole) ?_ fun _ _ _ keeps met received =>
    keeps.receive numbered grounded met.1 met.2 received
  exact ⟨by simp, Nat.zero_le _, applied, inside, sound, own⟩

def oneTerm : List (LogEntry Nat) := [⟨1, 1, ⟨0, 0⟩, .empty⟩, ⟨2, 1, ⟨5, 1⟩, .command 7⟩]

theorem keeps_of_reaches_two_entries :
    Exists fun follower : Follower Nat Unit =>
      Run receive (fun follower request => Sent 1 oneTerm request ∧ Reaches follower request)
        ⟨(System.start System.threeNodes).nodes 2, 0, 0⟩
        [⟨1, 1, 0, 0, 0, oneTerm.take 1⟩, ⟨1, 1, 0, 0, 0, oneTerm⟩, ⟨1, 1, 2, 1, 2, []⟩] follower ∧
      follower.acked = 2 ∧ follower.node.log.commitIndex = 2 ∧
      Keeps (fun _ => oneTerm) oneTerm follower := by
  refine exists_run_of (fun follower => follower.acked = 2 ∧ follower.node.log.commitIndex = 2)
    (by decide +kernel) fun follower run seen => ⟨seen.1, seen.2, ?_⟩
  refine keeps_of_reaches _ (Log.sound_new _) (by decide) (by decide) Grounded.nil ?_
    (fun _ _ => id) run
  rintro (_ | _ | _) entry found
  all_goals cases found
  all_goals rfl

/-- The first request arrives once more, after both entries are acknowledged and committed. -/
theorem late_request_takes_back :
    Exists fun follower : Follower Nat Unit =>
      Run receive (fun _ request => Sent 1 oneTerm request)
        ⟨(System.start System.threeNodes).nodes 2, 0, 0⟩
        [⟨1, 1, 0, 0, 0, oneTerm.take 1⟩, ⟨1, 1, 0, 0, 0, oneTerm⟩, ⟨1, 1, 2, 1, 2, []⟩,
          ⟨1, 1, 0, 0, 0, oneTerm.take 1⟩] follower ∧
      follower.acked = 2 ∧ follower.node.log.full = oneTerm.take 1 ∧ follower.committed = 2 ∧
      follower.node.log.commitIndex = 0 ∧ follower.node.log.lastAs = 2 :=
  exists_run (by decide +kernel)

end Follower
end Rk8s.Xline.Curp
