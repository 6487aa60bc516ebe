import Mathlib.Data.Finset.Basic
import Mathlib.Tactic.Ring

namespace Rk8s.Replication

open Function List

universe u v

/-!
# Logs that are replicated by elected leaders

Every term has at most one leader, and the log of the leader of a term only grows
while the term lasts.  A `History` records these logs, together with what the nodes
have acknowledged: a node that acknowledges the first `i` entries of the leader of a
term has them in its own log at that moment.

A log is `Grounded` if each of its entries stands, with all entries before it, in the
log of the leader of its term.  Two grounded logs that have entries of the same term
in the same place agree up to there.

The last part is leader completeness.  What a quorum has acknowledged stands in the
logs of all later leaders, provided that each of them was elected by voters that
carry over what they have acknowledged (`Carries`), and voters do so if they vote
only for candidates whose log is up to date.
-/

section Logs

variable {Entry : Type u} (term : Entry -> Nat)

def lastTerm (log : List Entry) : Nat := log.getLast?.elim 0 term

@[simp] theorem lastTerm_append_singleton (front : List Entry) (last : Entry) :
    lastTerm term (front ++ [last]) = term last := by
  simp [lastTerm]

/-- Every entry stands, with what comes before it, in the log of its term. -/
def Grounded (logs : Nat -> List Entry) (log : List Entry) : Prop :=
  forall front last, front ++ [last] <+: log -> front ++ [last] <+: logs (term last)

/-- The log of a candidate is at least as good as that of a voter. -/
def UpToDate (candidate voter : List Entry) : Prop :=
  lastTerm term voter < lastTerm term candidate ∨
    lastTerm term voter = lastTerm term candidate ∧ voter.length ≤ candidate.length

end Logs

variable {place : Nat}

section Prefixes

variable {Entry : Type u}

theorem prefix_of_conflict {held log sent whole : List Entry} {own entry : Entry}
    (inLog : held <+: log) (inWhole : held <+: whole) (part : sent <+: whole)
    (ownAt : log[place]? = some own) (entryAt : sent[place]? = some entry)
    (different : own ≠ entry) : held <+: sent := by
  have short : held.length ≤ place := by
    by_contra long
    have inside : place < held.length := by omega
    have left := inLog.getElem inside
    have right := inWhole.getElem inside
    have placed := part.getElem (List.getElem?_eq_some_iff.mp entryAt).1
    apply different
    rw [← (List.getElem?_eq_some_iff.mp ownAt).2, ← (List.getElem?_eq_some_iff.mp entryAt).2,
      placed, ← left, right]
  have inside := (List.getElem?_eq_some_iff.mp entryAt).1
  exact prefix_of_prefix_length_le inWhole part (by omega)

/-- A part that does not end in an added entry was there before. -/
theorem prefix_of_last_notMem {front base new : List Entry} {last : Entry}
    (inside : front ++ [last] <+: base ++ new) (notNew : last ∉ new) :
    front ++ [last] <+: base := by
  rcases lt_or_ge base.length (front ++ [last]).length with long | short
  · exfalso
    rw [length_append, length_singleton] at long
    have placed := inside.getElem (i := front.length) (by simp)
    rw [getElem_append_right (by omega)] at placed
    simp only [Nat.sub_self, getElem_cons_zero] at placed
    rw [getElem_append_right (by omega)] at placed
    exact notNew (placed ▸ getElem_mem _)
  · exact prefix_of_prefix_length_le inside (prefix_append base new) short

end Prefixes

namespace Grounded

variable {Entry : Type u} {term : Entry -> Nat} {logs : Nat -> List Entry} {log : List Entry}

theorem nil : Grounded term logs [] := by
  intro front last inside
  simp at inside

variable (grounded : Grounded term logs log) {other : List Entry}
include grounded

theorem shorter {part : List Entry} (inside : part <+: log) : Grounded term logs part :=
  fun front last within => grounded front last (within.trans inside)

theorem grow {later : Nat -> List Entry}
    (grown : ∀ t, logs t <+: later t) : Grounded term later log :=
  fun front last within => (grounded front last within).trans (grown (term last))

/-- Logs that have entries of the same term in one place agree up to there. -/
theorem agree
    (otherGrounded : Grounded term logs other) {front others : List Entry} {last final : Entry}
    (inside : front ++ [last] <+: log) (otherInside : others ++ [final] <+: other)
    (length : front.length = others.length) (same : term last = term final) :
    front ++ [last] = others ++ [final] := by
  have left := grounded front last inside
  have right := otherGrounded others final otherInside
  rw [same] at left
  have lengths : (front ++ [last]).length = (others ++ [final]).length := by
    simp [length]
  exact (prefix_of_prefix_length_le left right lengths.le).eq_of_length lengths

theorem take_agree (otherGrounded : Grounded term logs other)
    {own entry : Entry} (ownAt : log[place]? = some own) (entryAt : other[place]? = some entry)
    (same : term own = term entry) : log.take (place + 1) = other.take (place + 1) := by
  have split : ∀ {list : List Entry} {x : Entry}, list[place]? = some x ->
      list.take (place + 1) = list.take place ++ [x] := by
    intro list x found
    rw [take_add_one, found]
    rfl
  have inside : ∀ {list : List Entry} {x : Entry}, list[place]? = some x ->
      (list.take place).length = place := by
    intro list x found
    have bound := (List.getElem?_eq_some_iff.mp found).1
    rw [length_take]
    omega
  rw [split ownAt, split entryAt]
  refine grounded.agree otherGrounded ?_ ?_ ?_ same
  · rw [← split ownAt]
    exact take_prefix _ _
  · rw [← split entryAt]
    exact take_prefix _ _
  · rw [inside ownAt, inside entryAt]

end Grounded

/-! ## Histories -/

/-- The logs of the leaders so far, the terms that have a leader, and what has been
acknowledged: `acked node t i` says that the node had the first `i` entries of the leader
of term `t` in term `t`. -/
structure History (Node : Type v) {Entry : Type u} (term : Entry -> Nat) where
  log : Nat -> List Entry
  elected : Nat -> Prop
  acked : Node -> Nat -> Nat -> Prop
  bounded : forall t entry, entry ∈ log t -> term entry ≤ t
  grounded : forall t, Grounded term log (log t)
  elected_of_ne_nil : forall t, log t ≠ [] -> elected t
  within : forall node t i, acked node t i -> i ≤ (log t).length

namespace History

variable {Node : Type v} {Entry : Type u} {term : Entry -> Nat}

def init : History Node term where
  log := fun _ => []
  elected := fun _ => False
  acked := fun _ _ _ => False
  bounded := by simp
  grounded := fun _ => Grounded.nil
  elected_of_ne_nil := fun _ nonempty => nonempty rfl
  within := fun _ _ _ => False.elim

variable (history : History Node term)

/-- A node acknowledges entries. -/
def ack (node : Node) (t i : Nat) (within : i ≤ (history.log t).length) : History Node term where
  log := history.log
  elected := history.elected
  acked := fun other s j => history.acked other s j ∨ other = node ∧ s = t ∧ j = i
  bounded := history.bounded
  grounded := history.grounded
  elected_of_ne_nil := history.elected_of_ne_nil
  within := by
    rintro other s j (old | ⟨rfl, rfl, rfl⟩)
    · exact history.within other s j old
    · exact within

/-- The leader of a term has a longer log.  This is also how a leader starts. -/
def lead (node : Node) (t : Nat) (log : List Entry) (grown : history.log t <+: log)
    (bounded : forall entry, entry ∈ log -> term entry ≤ t)
    (grounded : forall front last, front ++ [last] <+: log -> term last ≠ t ->
      front ++ [last] <+: history.log (term last)) : History Node term where
  log := update history.log t log
  elected := fun s => history.elected s ∨ s = t
  acked := fun other s i => history.acked other s i ∨ other = node ∧ s = t ∧ i ≤ log.length
  bounded := (forall_update_iff history.log fun s log => forall entry, entry ∈ log ->
    term entry ≤ s).mpr ⟨bounded, fun s _ => history.bounded s⟩
  grounded := by
    have longer : forall s, history.log s <+: update history.log t log s :=
      (forall_update_iff history.log fun s log => history.log s <+: log).mpr
        ⟨grown, fun _ _ => prefix_rfl⟩
    refine (forall_update_iff history.log fun _ => Grounded term _).mpr
      ⟨fun front last within => ?_, fun s _ => (history.grounded s).grow longer⟩
    by_cases own : term last = t
    · rw [own, update_self]
      exact within
    · rw [update_of_ne own]
      exact grounded front last within own
  elected_of_ne_nil := by
    intro s nonempty
    by_cases here : s = t
    · exact .inr here
    · rw [update_of_ne here] at nonempty
      exact .inl (history.elected_of_ne_nil s nonempty)
  within := by
    rintro other s i (old | ⟨rfl, rfl, inside⟩)
    · by_cases here : s = t
      · subst here
        rw [update_self]
        exact (history.within other s i old).trans grown.length_le
      · rw [update_of_ne here]
        exact history.within other s i old
    · rw [update_self]
      exact inside

/-- Nothing is taken back, and a leader only appends entries of its own term. -/
structure Later (before after : History Node term) : Prop where
  log : forall t, before.log t <+: after.log t
  elected : forall t, before.elected t -> after.elected t
  acked : forall node t i, before.acked node t i -> after.acked node t i
  own : forall t, before.elected t ->
    forall entry, entry ∈ (after.log t).drop (before.log t).length -> term entry = t

variable {t : Nat} {before after : History Node term}

namespace Later

theorem refl : Later history history where
  log := fun _ => prefix_rfl
  elected := fun _ => id
  acked := fun _ _ _ => id
  own := by simp

variable {history : History Node term}

theorem of_lead {node : Node} {log : List Entry} (grown : history.log t <+: log)
    (bounded : ∀ entry ∈ log, term entry ≤ t)
    (grounded : ∀ front last, front ++ [last] <+: log -> term last ≠ t ->
      front ++ [last] <+: history.log (term last)) (own : history.elected t ->
      ∀ entry ∈ log.drop (history.log t).length, term entry = t) :
    Later history (history.lead node t log grown bounded grounded) where
  log := (forall_update_iff history.log fun s log => history.log s <+: log).mpr
    ⟨grown, fun _ _ => prefix_rfl⟩
  elected := fun _ => .inl
  acked := fun _ _ _ => .inl
  own := (forall_update_iff history.log fun s log => history.elected s ->
    ∀ entry ∈ log.drop (history.log s).length, term entry = s).mpr
      ⟨own, fun s _ => by simp⟩

/-- What has been acknowledged does not become part of a later log by growth. -/
theorem prefix_back (later : Later before after)
    {part : List Entry} {r : Nat} (old : ∀ entry ∈ part, term entry ≤ t)
    (newer : t < r) (elected : before.elected r) (inside : part <+: after.log r) :
    part <+: before.log r := by
  rcases lt_or_ge (before.log r).length part.length with long | short
  swap
  · exact prefix_of_prefix_length_le inside (later.log r) short
  exfalso
  have bound := inside.length_le
  have found := inside.getElem long
  have member : part[(before.log r).length] ∈ (after.log r).drop (before.log r).length := by
    rw [mem_drop_iff_getElem]
    refine ⟨0, by omega, ?_⟩
    simpa using found.symm
  have own := later.own r elected _ member
  have bounded := old _ (getElem_mem long)
  omega

end Later

/-! ## Leader completeness -/

/-- The node has acknowledged a list of entries that ends in the term `t`. -/
def Acked (node : Node) (t : Nat) (part : List Entry) : Prop :=
  part <+: history.log t ∧ Exists fun i => history.acked node t i ∧ part.length ≤ i

variable {node : Node}

theorem Acked.later (later : Later before after)
    {part : List Entry} (acked : before.Acked node t part) : after.Acked node t part := by
  obtain ⟨inside, i, acknowledged, short⟩ := acked
  exact ⟨inside.trans (later.log t), i, later.acked node t i acknowledged, short⟩

theorem Acked.back {part : List Entry} (acked : after.Acked node t part)
    (later : Later before after) (same : ∀ i, after.acked node t i -> before.acked node t i) :
    before.Acked node t part := by
  obtain ⟨inside, i, acknowledged, short⟩ := acked
  have old := same i acknowledged
  have within := short.trans (before.within node t i old)
  exact ⟨prefix_of_prefix_length_le inside (later.log t) within, i, old, short⟩

variable {history : History Node term} {s : Nat}

theorem Acked.bounded {part : List Entry} (acked : history.Acked node t part) :
    ∀ entry ∈ part, term entry ≤ t :=
  fun entry member => history.bounded t entry (acked.1.subset member)

/-- A log keeps what a node has acknowledged in earlier terms, as far as all leaders
since then have kept it. -/
def Keeps (history : History Node term) (node : Node) (t : Nat) (reached : Nat -> Prop)
    (log : List Entry) : Prop :=
  forall part, history.Acked node t part ->
    (forall r, t < r -> reached r -> history.elected r -> part <+: history.log r) -> part <+: log

/-- The vote of a node in a term carries over what it has acknowledged before. -/
def Carries (history : History Node term) (node : Node) (s : Nat) (log : List Entry) : Prop :=
  forall front last, term last < s -> history.Acked node (term last) (front ++ [last]) ->
    (forall r, term last < r -> r < s -> history.elected r -> front ++ [last] <+: history.log r) ->
    front ++ [last] <+: log

theorem Keeps.later {reached further : Nat -> Prop}
    {log : List Entry} (keeps : before.Keeps node t reached log) (later : Later before after)
    (wider : ∀ r, reached r -> further r)
    (same : ∀ i, after.acked node t i -> before.acked node t i) :
    after.Keeps node t further log := by
  intro part new kept
  have acked := new.back later same
  refine keeps part acked fun r newer within elected => ?_
  exact later.prefix_back acked.bounded newer elected
    (kept r newer (wider r within) (later.elected r elected))

theorem Carries.later {log longer : List Entry}
    (carries : before.Carries node s log) (later : Later before after) (grown : log <+: longer)
    (same : ∀ t i, t < s -> after.acked node t i -> before.acked node t i) :
    after.Carries node s longer := by
  intro front last earlier new kept
  have acked := new.back later fun i => same (term last) i earlier
  refine (carries front last earlier acked fun r newer within elected => ?_).trans grown
  exact later.prefix_back acked.bounded newer elected
    (kept r newer within (later.elected r elected))

/-- A voter that only votes for logs that are up to date carries over what it has. -/
theorem Keeps.carries {voter candidate : List Entry}
    (keeps : ∀ t < s, history.Keeps node t (fun r => r < s) voter)
    (voterGrounded : Grounded term history.log voter)
    (candidateGrounded : Grounded term history.log candidate)
    (old : ∀ entry ∈ candidate, term entry < s)
    (upToDate : UpToDate term candidate voter) : history.Carries node s candidate := by
  intro front last earlier acked kept
  have held : front ++ [last] <+: voter := keeps (term last) earlier _ acked kept
  rcases eq_nil_or_concat' voter with rfl | ⟨voterFront, voterLast, rfl⟩
  · simp at held
  have voterInside := voterGrounded voterFront voterLast prefix_rfl
  have reached : term last ≤ term voterLast :=
    history.bounded _ last (voterInside.subset (held.subset (by simp)))
  rcases eq_nil_or_concat' candidate with rfl | ⟨candidateFront, candidateLast, rfl⟩
  · rcases upToDate with lower | ⟨_, short⟩
    · simp [lastTerm] at lower
    · simp at short
  have candidateInside := candidateGrounded candidateFront candidateLast prefix_rfl
  simp only [UpToDate, lastTerm_append_singleton] at upToDate
  rcases upToDate with lower | ⟨same, short⟩
  swap
  · -- Both logs are parts of the log of the same leader.
    rw [same] at voterInside
    exact held.trans (prefix_of_prefix_length_le voterInside candidateInside short)
  -- The candidate has entries of a leader in between, which has kept what is held.
  have elected : history.elected (term candidateLast) := by
    apply history.elected_of_ne_nil
    intro empty
    rw [empty] at candidateInside
    simp at candidateInside
  have inside : front ++ [last] <+: history.log (term candidateLast) :=
    kept (term candidateLast) (by omega) (old candidateLast (by simp)) elected
  refine prefix_of_prefix_length_le inside candidateInside ?_
  by_contra long
  have part : candidateFront ++ [candidateLast] <+: front ++ [last] :=
    prefix_of_prefix_length_le candidateInside inside (by omega)
  have bound := acked.bounded candidateLast (part.subset (by simp))
  omega

section Quorums

variable {Quorum : Finset Node -> Prop}

/-- Every leader was elected by voters that carry over what they have acknowledged. -/
def Elections (Quorum : Finset Node -> Prop) (history : History Node term) : Prop :=
  forall s, history.elected s -> Exists fun voters => Quorum voters ∧
    forall node, node ∈ voters -> history.Carries node s (history.log s)

/-- A list of entries that a quorum has acknowledged in the term of the last of them, or
a part of such a list.  The term is not above `t`. -/
def Chosen (Quorum : Finset Node -> Prop) (history : History Node term) (t : Nat)
    (part : List Entry) : Prop :=
  part = [] ∨ Exists fun front => Exists fun last => part <+: front ++ [last] ∧ term last ≤ t ∧
    front ++ [last] <+: history.log (term last) ∧ Exists fun nodes => Quorum nodes ∧
      forall node, node ∈ nodes -> history.Acked node (term last) (front ++ [last])

variable {part : List Entry}

theorem Chosen.mono (chosen : Chosen Quorum history t part) (le : t ≤ s) :
    Chosen Quorum history s part := by
  rcases chosen with rfl | ⟨front, last, inside, early, logged, quorum⟩
  · exact .inl rfl
  · exact .inr ⟨front, last, inside, early.trans le, logged, quorum⟩

theorem Chosen.shorter {less : List Entry} (chosen : Chosen Quorum history t part)
    (inside : less <+: part) : Chosen Quorum history t less := by
  rcases chosen with rfl | ⟨front, last, whole, early, logged, quorum⟩
  · exact .inl (prefix_nil.mp inside)
  · exact .inr ⟨front, last, inside.trans whole, early, logged, quorum⟩

theorem Chosen.later (chosen : Chosen Quorum before t part) (later : Later before after) :
    Chosen Quorum after t part := by
  rcases chosen with rfl | ⟨front, last, inside, early, logged, nodes, quorum, acked⟩
  · exact .inl rfl
  · exact .inr ⟨front, last, inside, early, logged.trans (later.log _), nodes, quorum,
      fun node member => (acked node member).later later⟩

variable [DecidableEq Node]

variable (meet : forall first second, Quorum first -> Quorum second -> (first ∩ second).Nonempty)
include meet

variable (elections : Elections Quorum history)
include elections

/-- Leader completeness: what a quorum has acknowledged stands in the logs of all
leaders of later terms. -/
theorem complete {front : List Entry} {last : Entry} {nodes : Finset Node} (quorum : Quorum nodes)
    (acked : ∀ node ∈ nodes, history.Acked node (term last) (front ++ [last])) :
    ∀ s, term last < s -> history.elected s -> front ++ [last] <+: history.log s := by
  intro s
  induction s using Nat.strong_induction_on with
  | _ s ih =>
    intro later elected
    obtain ⟨voters, voted, carries⟩ := elections s elected
    obtain ⟨node, both⟩ := meet nodes voters quorum voted
    obtain ⟨inNodes, inVoters⟩ := Finset.mem_inter.mp both
    exact carries node inVoters front last later (acked node inNodes)
      fun r newer within => ih r within newer

theorem Chosen.prefix_log
    (chosen : Chosen Quorum history t part) (le : t ≤ s) (elected : history.elected s) :
    part <+: history.log s := by
  rcases chosen with rfl | ⟨front, last, inside, early, logged, nodes, quorum, acked⟩
  · exact nil_prefix
  · refine inside.trans ?_
    rcases lt_or_eq_of_le (early.trans le) with lower | same
    · exact complete meet elections quorum acked s lower elected
    · exact same ▸ logged

/-- Of two lists that have been chosen one is part of the other. -/
theorem Chosen.comparable {first second : List Entry} (one : Chosen Quorum history t first)
    (two : Chosen Quorum history s second) : first <+: second ∨ second <+: first := by
  have ordered : ∀ {t : Nat} {first second front : List Entry} {last : Entry},
      Chosen Quorum history t first -> second <+: front ++ [last] -> t ≤ term last ->
      front ++ [last] <+: history.log (term last) -> first <+: second ∨ second <+: first := by
    intro t first second front last one inside le logged
    have elected : history.elected (term last) := by
      apply history.elected_of_ne_nil
      intro empty
      rw [empty] at logged
      simp at logged
    exact prefix_or_prefix_of_prefix (one.prefix_log meet elections le elected)
      (inside.trans logged)
  rcases one with rfl | ⟨front, last, inside, early, logged, quorum⟩
  · exact .inl nil_prefix
  rcases two with rfl | ⟨others, final, otherInside, otherEarly, otherLogged, otherQuorum⟩
  · exact .inr nil_prefix
  rcases le_total (term last) (term final) with le | le
  · exact ordered (.inr ⟨front, last, inside, le_rfl, logged, quorum⟩) otherInside le
      otherLogged
  · exact (ordered (.inr ⟨others, final, otherInside, le_rfl, otherLogged, otherQuorum⟩)
      inside le logged).symm

end Quorums

end History
end Rk8s.Replication
