import Rk8s.Lib.Replication
import Rk8s.Xline.Curp.Log

namespace Rk8s.Xline.Curp.Log

open Replication List LogEntry

/-!
# What the functions of a log do to the full log

The entries of a log are numbered without gaps, and the base describes the last entry
that was popped.  For such logs every function is described by what it does to
`Log.full`, so that compaction plays no part in what follows.
-/

variable {Cmd : Type}

/-- The entries are numbered from one on. -/
def Numbered (entries : List (LogEntry Cmd)) : Prop :=
  forall place entry, entries[place]? = some entry -> entry.index = place + 1

structure Sound (log : Log Cmd) : Prop where
  numbered : Numbered log.full
  baseIndex : log.baseIndex = log.compacted.length
  baseTerm : log.baseTerm = lastTerm term log.compacted

variable {entries : List (LogEntry Cmd)}

theorem Numbered.shorter {part : List (LogEntry Cmd)} (numbered : Numbered entries)
    (inside : part <+: entries) : Numbered part := by
  intro place entry found
  have bound := (List.getElem?_eq_some_iff.mp found).1
  apply numbered place entry
  rw [← found]
  obtain ⟨rest, rfl⟩ := inside
  exact getElem?_append_left bound

variable {entry : LogEntry Cmd} {i place : Nat} {log : Log Cmd}

theorem Numbered.snoc (numbered : Numbered entries) (next : entry.index = entries.length + 1) :
    Numbered (entries ++ [entry]) := by
  intro place found at_
  rcases lt_or_ge place entries.length with old | new
  · rw [getElem?_append_left old] at at_
    exact numbered place found at_
  rw [getElem?_append_right new] at at_
  have zero : place - entries.length = 0 := by
    have bound := (List.getElem?_eq_some_iff.mp at_).1
    simp at bound
    omega
  rw [zero] at at_
  cases at_
  omega

theorem sound_new (entriesCap : Nat) : (new entriesCap : Log Cmd).Sound :=
  ⟨by intro place entry found; simp [full, new] at found, rfl, rfl⟩

/-! ## Reading -/

theorem Sound.lastLogIndex_eq (sound : log.Sound) : log.lastLogIndex = log.full.length := by
  unfold lastLogIndex full
  rcases eq_nil_or_concat' log.entries with empty | ⟨front, last, snoc⟩
  · rw [empty, sound.baseIndex]
    simp
  have index := sound.numbered (log.compacted.length + front.length) last
    (by rw [full, snoc]; simp)
  rw [snoc]
  simp [index]
  omega

theorem Sound.lastLogTerm_eq (sound : log.Sound) :
    log.lastLogTerm = lastTerm term log.full := by
  unfold lastLogTerm full
  rcases eq_nil_or_concat' log.entries with empty | ⟨front, last, snoc⟩
  · rw [empty, sound.baseTerm]
    simp
  · rw [snoc, ← append_assoc, lastTerm_append_singleton]
    simp

theorem Sound.get_eq (sound : log.Sound) (after : log.baseIndex < i) :
    log.get i = log.full[i - 1]? := by
  rw [get, if_pos after, full, liToPi]
  have bound : log.compacted.length ≤ i - 1 := by
    have base := sound.baseIndex
    omega
  rw [getElem?_append_right bound, sound.baseIndex]
  congr 1
  omega

/-- The last term of a part of a log that is not empty. -/
theorem lastTerm_take (found : entries[place]? = some entry) :
    lastTerm term (entries.take (place + 1)) = entry.term := by
  rw [take_add_one, found]
  exact lastTerm_append_singleton _ _ _

/-! ## Appending -/

theorem matching_le_sent (present sent : List (LogEntry Cmd)) :
    matching present sent ≤ sent.length := by
  fun_induction matching present sent with
  | case1 => simp_all
  | case2 => simp
  | case3 => simp

theorem matching_same (present sent : List (LogEntry Cmd)) :
    ∀ place < matching present sent,
      ∃ own entry, present[place]? = some own ∧
        sent[place]? = some entry ∧ own.term = entry.term := by
  fun_induction matching present sent with
  | case1 own present entry sent same ih =>
    intro place below
    cases place with
    | zero => exact ⟨own, entry, rfl, rfl, same⟩
    | succ place => exact ih place (by omega)
  | case2 => simp
  | case3 => simp

theorem matching_stop (present sent : List (LogEntry Cmd))
    (stopped : matching present sent < sent.length) :
    present.length ≤ matching present sent ∨
      ∃ own entry, present[matching present sent]? = some own ∧
        sent[matching present sent]? = some entry ∧ own.term ≠ entry.term := by
  fun_induction matching present sent with
  | case1 own present entry sent same ih =>
    rw [length_cons] at stopped
    rcases ih (by omega) with ended | ⟨other, found, otherAt, foundAt, different⟩
    · exact .inl (by rw [length_cons]; omega)
    · exact .inr ⟨other, found, otherAt, foundAt, different⟩
  | case2 own present entry sent different => exact .inr ⟨own, entry, rfl, rfl, different⟩
  | case3 present sent shape =>
    cases present with
    | nil => exact .inl (le_refl 0)
    | cons own present =>
      cases sent with
      | nil => simp at stopped
      | cons entry sent => exact absurd rfl (shape own present entry sent rfl)

variable {prevLogIndex prevLogTerm : Nat} {sent : List (LogEntry Cmd)} {after : Log Cmd}
  {term : Nat}

theorem Sound.precedes (sound : log.Sound)
    (precedes : log.precedes prevLogIndex prevLogTerm = true) :
    log.compacted.length ≤ prevLogIndex ∧ prevLogIndex ≤ log.full.length ∧
      lastTerm LogEntry.term (log.full.take prevLogIndex) = prevLogTerm := by
  have base := sound.baseIndex
  unfold Log.precedes at precedes
  cases found : log.get prevLogIndex with
  | none =>
    rw [found] at precedes
    simp only [beq_iff_eq] at precedes
    obtain ⟨rfl, rfl⟩ := precedes
    refine ⟨base.ge, ?_, ?_⟩
    · rw [full, length_append]
      omega
    · rw [base, full, take_left, sound.baseTerm]
  | some entry =>
    rw [found] at precedes
    have after : log.baseIndex < prevLogIndex := by
      by_contra early
      rw [get, if_neg early] at found
      cases found
    rw [sound.get_eq after] at found
    have bound := (List.getElem?_eq_some_iff.mp found).1
    refine ⟨by omega, by omega, ?_⟩
    have next : prevLogIndex - 1 + 1 = prevLogIndex := by omega
    rw [← next, lastTerm_take found]
    simpa using precedes

/-- What appending does if it is not refused. -/
structure Appends (log : Log Cmd) (entries : List (LogEntry Cmd)) (prevLogIndex prevLogTerm : Nat)
    (after : Log Cmd) : Prop where
  upper : prevLogIndex ≤ log.full.length
  prevTerm : lastTerm LogEntry.term (log.full.take prevLogIndex) = prevLogTerm
  full : after.full =
    log.full.take (prevLogIndex + matching (log.full.drop prevLogIndex) entries) ++
      entries.drop (matching (log.full.drop prevLogIndex) entries)
  compacted : after.compacted = log.compacted
  baseIndex : after.baseIndex = log.baseIndex
  baseTerm : after.baseTerm = log.baseTerm
  commitIndex : after.commitIndex = log.commitIndex
  lastAs : after.lastAs = log.lastAs

theorem drop_full (after : log.compacted.length ≤ place) :
    log.full.drop place = log.entries.drop (place - log.compacted.length) := by
  rw [full, drop_append, drop_eq_nil_of_le after, nil_append]

theorem Sound.appends (sound : log.Sound) {toPersist : List (LogEntry Cmd)}
    (appended : log.tryAppendEntries entries prevLogIndex prevLogTerm = .ok (toPersist, after)) :
    Appends log entries prevLogIndex prevLogTerm after := by
  unfold tryAppendEntries at appended
  split at appended
  · cases appended
  rename_i accepted
  obtain ⟨lower, upper, prevTerm⟩ := sound.precedes (by simpa using accepted)
  have position : log.liToPi (prevLogIndex + 1) = prevLogIndex - log.compacted.length := by
    rw [liToPi, sound.baseIndex]
    omega
  cases appended
  refine ⟨upper, prevTerm, ?_, rfl, rfl, rfl, rfl, rfl⟩
  rw [position, ← drop_full lower]
  generalize matching (log.full.drop prevLogIndex) entries = same
  have split : log.full.take (prevLogIndex + same) =
      log.compacted ++ log.entries.take (prevLogIndex - log.compacted.length + same) := by
    rw [full, take_append, take_of_length_le (by omega)]
    congr 2
    omega
  rw [split, append_assoc]
  rfl

/-- Entries of a leader that are appended: the log is then the log of the leader up to the
last entry sent.  If entries that match are not cut off, it was a part of that or differs
from it in an entry. -/
theorem Appends.result {whole : List (LogEntry Cmd)}
    {logs : Nat -> List (LogEntry Cmd)} (appends : Appends log sent prevLogIndex prevLogTerm after)
    (grounded : Grounded LogEntry.term logs log.full)
    (wholeGrounded : Grounded LogEntry.term logs whole)
    (inside : whole.take prevLogIndex ++ sent <+: whole) (bound : prevLogIndex ≤ whole.length)
    (prevTerm : lastTerm LogEntry.term (whole.take prevLogIndex) = prevLogTerm) :
    after.full = whole.take prevLogIndex ++ sent ∧
      ((matching (log.full.drop prevLogIndex) sent = sent.length ->
        log.full.length ≤ prevLogIndex + sent.length) ->
      log.full <+: whole.take prevLogIndex ++ sent ∨
        ∃ place : Nat, ∃ own entry,
          log.full[place]? = some own ∧
            (whole.take prevLogIndex ++ sent)[place]? = some entry ∧ own ≠ entry) := by
  have sentGrounded := wholeGrounded.shorter inside
  have length : (whole.take prevLogIndex).length = prevLogIndex := by
    rw [length_take]
    omega
  have sentAt : ∀ place, (whole.take prevLogIndex ++ sent)[prevLogIndex + place]? =
      sent[place]? := by
    intro place
    rw [getElem?_append_right (by omega)]
    congr 1
    omega
  have start : log.full.take prevLogIndex = (whole.take prevLogIndex ++ sent).take prevLogIndex := by
    rw [take_left' length]
    cases prevLogIndex with
    | zero => simp
    | succ place =>
      have ownBound : place < log.full.length := appends.upper
      have wholeBound : place < whole.length := bound
      apply grounded.take_agree wholeGrounded (getElem?_eq_getElem ownBound)
        (getElem?_eq_getElem wholeBound)
      rw [← lastTerm_take (getElem?_eq_getElem ownBound),
        ← lastTerm_take (getElem?_eq_getElem wholeBound), appends.prevTerm, prevTerm]
  have stop := matching_stop (log.full.drop prevLogIndex) sent
  have same := matching_same (log.full.drop prevLogIndex) sent
  have full := appends.full
  have enough := matching_le_sent (log.full.drop prevLogIndex) sent
  generalize matching (log.full.drop prevLogIndex) sent = count at *
  -- Up to the last entry that matches both logs are the same.
  have common : log.full.take (prevLogIndex + count) =
      (whole.take prevLogIndex ++ sent).take (prevLogIndex + count) := by
    cases count with
    | zero => exact start
    | succ count =>
      obtain ⟨own, entry, ownAt, entryAt, equal⟩ := same count (by omega)
      rw [getElem?_drop] at ownAt
      exact grounded.take_agree sentGrounded ownAt ((sentAt count).trans entryAt) equal
  have rest : sent.drop count = (whole.take prevLogIndex ++ sent).drop (prevLogIndex + count) := by
    rw [← drop_drop, drop_left' length]
  have shorter : log.full.length ≤ prevLogIndex + count ->
      log.full <+: whole.take prevLogIndex ++ sent := by
    intro short
    rw [take_of_length_le short] at common
    rw [common]
    exact take_prefix _ _
  refine ⟨by rw [full, common, rest, take_append_drop], fun reach => ?_⟩
  rcases lt_or_eq_of_le enough with stopped | all
  · rcases stop stopped with ended | ⟨own, entry, ownAt, entryAt, different⟩
    · rw [length_drop] at ended
      exact .inl (shorter (by omega))
    · rw [getElem?_drop] at ownAt
      refine .inr ⟨prevLogIndex + count, own, entry, ownAt, (sentAt count).trans entryAt, ?_⟩
      rintro rfl
      exact different rfl
  · exact .inl (shorter (all ▸ reach all))

theorem Appends.sound
    (appends : Appends log sent prevLogIndex prevLogTerm after) (sound : log.Sound)
    (numbered : Numbered after.full) : after.Sound :=
  ⟨numbered, by rw [appends.baseIndex, appends.compacted, sound.baseIndex],
    by rw [appends.baseTerm, appends.compacted, sound.baseTerm]⟩

/-- A log with more entries of one term, all else being the same. -/
structure Grows (term : Nat) (before after : Log Cmd) : Prop where
  full : Exists fun new => after.full = before.full ++ new ∧
    forall entry, entry ∈ new -> entry.term = term
  sound : before.Sound -> after.Sound
  commitIndex : after.commitIndex = before.commitIndex
  lastAs : after.lastAs = before.lastAs

theorem Grows.refl (term : Nat) (log : Log Cmd) : Grows term log log :=
  ⟨⟨[], by simp, by simp⟩, id, rfl, rfl⟩

theorem Grows.trans {first second third : Log Cmd} (one : Grows term first second)
    (two : Grows term second third) : Grows term first third := by
  obtain ⟨new, newFull, newTerm⟩ := one.full
  obtain ⟨more, moreFull, moreTerm⟩ := two.full
  exact ⟨⟨new ++ more, by rw [moreFull, newFull, append_assoc],
      forall_mem_append.mpr ⟨newTerm, moreTerm⟩⟩,
    fun sound => two.sound (one.sound sound), two.commitIndex.trans one.commitIndex,
    two.lastAs.trans one.lastAs⟩

theorem push_grows (log : Log Cmd) (term : Nat) (proposeId : ProposeId) (data : EntryData Cmd) :
    Grows term log (log.push term proposeId data).2 := by
  have full : (log.push term proposeId data).2.full =
      log.full ++ [(log.push term proposeId data).1] := by
    simp only [push, Log.full, append_assoc]
  refine ⟨⟨[(log.push term proposeId data).1], full, by simp [push]⟩, fun sound => ?_, rfl, rfl⟩
  refine ⟨?_, sound.baseIndex, sound.baseTerm⟩
  rw [full]
  apply sound.numbered.snoc
  dsimp only [push]
  rw [sound.lastLogIndex_eq]

/-! ## Applying -/

/-- A log whose full log is the same. -/
structure SameFull (before after : Log Cmd) : Prop where
  full : after.full = before.full
  sound : before.Sound -> after.Sound
  commitIndex : after.commitIndex = before.commitIndex

theorem compact_same (log : Log Cmd) :
    SameFull log log.compact ∧ log.compact.lastAs = log.lastAs := by
  unfold compact
  split
  · exact ⟨⟨rfl, id, rfl⟩, rfl⟩
  split
  · exact ⟨⟨rfl, id, rfl⟩, rfl⟩
  generalize popped_ : log.entries.takeWhile (fun entry =>
    entry.index ≤ log.lastAs - log.entriesCap) = popped
  have front : popped <+: log.entries := popped_ ▸ takeWhile_prefix _
  obtain ⟨rest, split⟩ := front
  have full : log.full = log.compacted ++ popped ++ rest := by
    rw [Log.full, ← split, append_assoc]
  refine ⟨⟨?_, fun sound => ?_, rfl⟩, rfl⟩
  · dsimp only [Log.full]
    rw [← split, drop_left, append_assoc]
  have drop : log.entries.drop popped.length = rest := by
    rw [← split, drop_left]
  rcases eq_nil_or_concat' popped with rfl | ⟨front, last, rfl⟩
  · constructor
    · simpa [Log.full] using sound.numbered
    · simpa using sound.baseIndex
    · simpa using sound.baseTerm
  constructor
  · dsimp only [Log.full]
    rw [drop, ← full]
    exact sound.numbered
  · have index := sound.numbered (log.compacted.length + front.length) last
      (by rw [full]; simp)
    simp [index]
    omega
  · dsimp only
    rw [← append_assoc, lastTerm_append_singleton]
    simp

theorem apply_same (log : Log Cmd) :
    SameFull log log.apply ∧ log.apply.lastAs = max log.lastAs log.commitIndex := by
  have compacted := compact_same { log with lastAs := max log.lastAs log.commitIndex }
  refine ⟨⟨compacted.1.full, fun sound => ?_, compacted.1.commitIndex⟩, compacted.2⟩
  exact compacted.1.sound ⟨sound.numbered, sound.baseIndex, sound.baseTerm⟩

/-! ## Sending -/

theorem Sound.prevEntryInfo (sound : log.Sound) {index : Nat} (after : log.baseIndex < i)
    (info : log.getPrevEntryInfo i = some (index, term)) :
    i = index + 1 ∧ log.compacted.length ≤ index ∧ index ≤ log.full.length ∧
      lastTerm LogEntry.term (log.full.take index) = term := by
  have base := sound.baseIndex
  unfold getPrevEntryInfo at info
  split at info
  · rename_i first
    cases info
    refine ⟨first.symm, base.ge, ?_, ?_⟩
    · rw [full, length_append]
      omega
    · rw [base, full, take_left, sound.baseTerm]
  rename_i notFirst
  obtain ⟨entry, found, same⟩ := Option.map_eq_some_iff.mp info
  cases same
  rw [sound.get_eq (by omega)] at found
  have bound := (List.getElem?_eq_some_iff.mp found).1
  have index := sound.numbered _ entry found
  refine ⟨by omega, by omega, by omega, ?_⟩
  rw [index, lastTerm_take found]

end Rk8s.Xline.Curp.Log
