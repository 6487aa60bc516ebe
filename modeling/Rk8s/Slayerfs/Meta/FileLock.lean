import Mathlib.Data.List.InsertIdx
import Rk8s.Lib.Transition

namespace Rk8s.Slayerfs

open Transition List

/-!
# Byte-range locks

The records of one owner on a file are a list, and `update_locks` works a new
request into it with a single pass.  The pass moves the start of the request
forward as it goes and never looks back.  A request for another owner's bytes is
refused by `check_conflict` before that, so exclusion is a matter of what the
pass does to the owner's own records: it must not make them cover bytes that
they did not cover and that were not requested.

It does so in two situations.  A record that starts behind the end of the request
is pulled forward to that end.  A record of the other type that the request
starts inside of and does not reach the end of is converted as a whole.
`Contained` excludes the two.
-/

inductive FileLockType where
  | read
  | write
  | unLock
deriving DecidableEq

structure FileLockRange where
  start : Nat
  stop : Nat
deriving DecidableEq

def FileLockRange.overlaps (range other : FileLockRange) : Bool :=
  range.stop > other.start && range.start < other.stop

structure PlockRecord where
  lockType : FileLockType
  pid : Nat
  lockRange : FileLockRange
deriving DecidableEq

/-- The variables of the loop in `update_locks`: the records, the position, what
is left of the request, and the records to insert with their places. -/
structure LockSweep where
  ls : List PlockRecord
  index : Nat
  nl : PlockRecord
  newRecords : List (Nat × PlockRecord)

namespace PlockRecord

def withStart (record : PlockRecord) (start : Nat) : PlockRecord :=
  { record with lockRange := { record.lockRange with start := start } }

def withStop (record : PlockRecord) (stop : Nat) : PlockRecord :=
  { record with lockRange := { record.lockRange with stop := stop } }

end PlockRecord

namespace LockSweep

/-- The body of the loop for the record at the current position. -/
def visit (sweep : LockSweep) (l : PlockRecord) : LockSweep :=
  let nl := sweep.nl
  if l.lockRange.stop < nl.lockRange.start then
    { sweep with index := sweep.index + 1 }
  else if l.lockRange.start < nl.lockRange.start then
    { ls := sweep.ls.set sweep.index (l.withStop nl.lockRange.start)
      index := sweep.index + 2
      nl := nl.withStart l.lockRange.stop
      newRecords := sweep.newRecords ++
        [(sweep.index + 1, ⟨nl.lockType, nl.pid, nl.lockRange.start, l.lockRange.stop⟩)] }
  else if l.lockRange.stop > nl.lockRange.stop ∧ l.lockRange.start ≥ nl.lockRange.start then
    { sweep with
      ls := sweep.ls.set sweep.index (l.withStart nl.lockRange.stop)
      index := sweep.index + 1
      nl := nl.withStart l.lockRange.stop }
  else if l.lockRange.start < nl.lockRange.start ∧ l.lockRange.stop > nl.lockRange.stop then
    -- The second branch has taken these records already.
    { sweep with
      ls := sweep.ls.set sweep.index (l.withStop nl.lockRange.start)
      index := sweep.index + 2
      newRecords := sweep.newRecords ++ [(sweep.index + 1, l.withStart nl.lockRange.stop)] }
  else
    { sweep with
      ls := sweep.ls.eraseIdx sweep.index
      nl := nl.withStart l.lockRange.stop }

/-- One round of the loop; nothing when its condition fails. -/
def round (sweep : LockSweep) : Option LockSweep :=
  match sweep.ls[sweep.index]? with
  | none => none
  | some l =>
    if sweep.nl.lockRange.stop > sweep.nl.lockRange.start then some (sweep.visit l) else none

/-- At most `fuel` rounds. -/
def rounds : Nat -> LockSweep -> LockSweep
  | 0, sweep => sweep
  | fuel + 1, sweep =>
    match sweep.round with
    | none => sweep
    | some next => rounds fuel next

end LockSweep

namespace PlockRecord

def insertAll (ls : List PlockRecord) (newRecords : List (Nat × PlockRecord)) : List PlockRecord :=
  newRecords.reverse.foldl (fun ls entry => ls.insertIdx entry.1 entry.2) ls

/-- One round of the merge: a record that continues the last one extends it. -/
def mergeInto (result : List PlockRecord) (record : PlockRecord) : List PlockRecord :=
  match result.getLast? with
  | some last =>
    if last.lockType = record.lockType ∧ last.lockRange.stop = record.lockRange.start then
      result.dropLast ++ [last.withStop record.lockRange.stop]
    else
      result ++ [record]
  | none => result ++ [record]

def isKept (record : PlockRecord) : Bool :=
  record.lockType ≠ .unLock ∧ record.lockRange.start < record.lockRange.stop

/-- Every round of the loop passes a record or removes one, so that there are at
most as many rounds as records. -/
def updateLocks (ls : List PlockRecord) (nl : PlockRecord) : List PlockRecord :=
  let swept := LockSweep.rounds ls.length ⟨ls, 0, nl, []⟩
  let inserted := insertAll swept.ls swept.newRecords
  let pushed :=
    if swept.nl.lockRange.start < swept.nl.lockRange.stop then inserted ++ [swept.nl] else inserted
  (pushed.filter isKept).foldl mergeInto []

def checkConflict (lockType : FileLockType) (range : FileLockRange) (ls : List PlockRecord) : Bool :=
  ls.any fun l =>
    (lockType = .write ∨ l.lockType = .write) ∧ range.stop > l.lockRange.start ∧
      range.start < l.lockRange.stop

/-! ## What an update may cover -/

def Contains (record : PlockRecord) (position : Nat) : Prop :=
  record.lockRange.start ≤ position ∧ position < record.lockRange.stop

variable (ls : List PlockRecord)

/-- A record of the type has the position. -/
def Covers (lockType : FileLockType) (position : Nat) : Prop :=
  Exists fun record => record ∈ ls ∧ record.lockType = lockType ∧ record.Contains position

/-- Wherever the record locks, the old records did with the same type, or the
request asks for it. -/
def Within (nl record : PlockRecord) : Prop :=
  record.lockType ≠ .unLock -> forall position, record.Contains position ->
    Covers ls record.lockType position ∨ nl.lockType = record.lockType ∧ nl.Contains position

/-- Of the owner's records that end behind the request, none starts behind it,
and one of another type starts inside of it, not below the end of a record in
front of it in the list that ends within the request. -/
def Contained (nl : PlockRecord) : Prop :=
  (forall l, l ∈ ls -> nl.lockRange.stop < l.lockRange.stop ->
    l.lockRange.start ≤ nl.lockRange.stop ∧
      (nl.lockType = .unLock ∨ l.lockType = nl.lockType ∨ nl.lockRange.start ≤ l.lockRange.start)) ∧
  ls.Pairwise fun m l => nl.lockRange.stop < l.lockRange.stop ->
    nl.lockType = .unLock ∨ l.lockType = nl.lockType ∨
      ¬ (l.lockRange.start < m.lockRange.stop ∧ m.lockRange.stop ≤ nl.lockRange.stop)
deriving Decidable

variable {ls : List PlockRecord} {nl : PlockRecord}

theorem Within.of_mem {record : PlockRecord} (member : record ∈ ls) : Within ls nl record :=
  fun _ _ inside => .inl ⟨record, member, rfl, inside⟩

/-- A part of a record. -/
theorem Within.part {record part : PlockRecord} (within : Within ls nl record)
    (sameType : part.lockType = record.lockType)
    (inside : ∀ position, part.Contains position -> record.Contains position) :
    Within ls nl part := by
  intro locks position here
  rw [sameType] at locks ⊢
  exact within locks position (inside position here)

end PlockRecord

namespace LockSweep

open PlockRecord

/-- What holds between two rounds.  The records from the current position on are
as they were, and the request starts where it did or where one of the passed
records ended. -/
structure Inv (ls : List PlockRecord) (nl : PlockRecord) (sweep : LockSweep) : Prop where
  rest : Exists fun before => ls = before ++ sweep.ls.drop sweep.index ∧
    (sweep.nl.lockRange.start = nl.lockRange.start ∨
      Exists fun m => m ∈ before ∧ sweep.nl.lockRange.start = m.lockRange.stop)
  request : sweep.nl = nl.withStart sweep.nl.lockRange.start
  forward : nl.lockRange.start ≤ sweep.nl.lockRange.start
  old : forall record, record ∈ sweep.ls -> Within ls nl record
  new : forall entry, entry ∈ sweep.newRecords -> Within ls nl entry.2

variable {ls : List PlockRecord} {nl l : PlockRecord} {sweep next : LockSweep}

/-- The record at the current position, behind those that were passed. -/
private structure Visits (ls : List PlockRecord) (nl : PlockRecord) (sweep : LockSweep)
    (before : List PlockRecord) (l : PlockRecord) : Prop where
  inside : sweep.index < sweep.ls.length
  split : ls = before ++ l :: sweep.ls.drop (sweep.index + 1)
  from_ : sweep.nl.lockRange.start = nl.lockRange.start ∨
    Exists fun m => m ∈ before ∧ sweep.nl.lockRange.start = m.lockRange.stop

theorem Inv.visits (inv : Inv ls nl sweep) (here : sweep.ls[sweep.index]? = some l) :
    ∃ before, Visits ls nl sweep before l := by
  rcases inv.rest with ⟨before, split, from_⟩
  rcases List.getElem?_eq_some_iff.mp here with ⟨inside, found⟩
  rw [drop_eq_getElem_cons inside, found] at split
  exact ⟨before, inside, split, from_⟩

variable {before : List PlockRecord}

section

variable (visits : Visits ls nl sweep before l)
include visits

theorem Visits.member : l ∈ ls := by
  simp [visits.split]

theorem Visits.passed :
    ls = (before ++ [l]) ++ sweep.ls.drop (sweep.index + 1) := by
  simp [visits.split]

theorem Visits.passed_two (record : PlockRecord) :
    ls = (before ++ [l] ++ (sweep.ls.drop (sweep.index + 1)).take 1) ++
      (sweep.ls.set sweep.index record).drop (sweep.index + 2) := by
  have rest : (sweep.ls.set sweep.index record).drop (sweep.index + 2) =
      (sweep.ls.drop (sweep.index + 1)).drop 1 := by
    rw [drop_set_of_lt (by omega), drop_drop]
  rw [rest, append_assoc _ (List.take 1 _), take_append_drop]
  exact visits.passed

end

variable (inv : Inv ls nl sweep)
include inv

theorem Inv.stop : sweep.nl.lockRange.stop = nl.lockRange.stop := by
  rw [inv.request]
  rfl

theorem Inv.moved (start : Nat) : sweep.nl.withStart start = nl.withStart start := by
  rw [inv.request]
  rfl

theorem Inv.set {record other : PlockRecord}
    (within : Within ls nl record) (listed : other ∈ sweep.ls.set sweep.index record) :
    Within ls nl other := by
  rcases mem_or_eq_of_mem_set listed with before | rfl
  · exact inv.old other before
  · exact within

section

variable (visits : Visits ls nl sweep before l)
include visits

theorem Inv.skip : Inv ls nl { sweep with index := sweep.index + 1 } := by
  refine { inv with rest := ⟨before ++ [l], visits.passed, ?_⟩ }
  rcases visits.from_ with same | ⟨m, listed, same⟩
  · exact .inl same
  · exact .inr ⟨m, mem_append_left _ listed, same⟩

theorem Inv.remove (forward : sweep.nl.lockRange.start ≤ l.lockRange.stop) :
    Inv ls nl { sweep with
      ls := sweep.ls.eraseIdx sweep.index
      nl := sweep.nl.withStart l.lockRange.stop } := by
  refine ⟨⟨before ++ [l], ?_, .inr ⟨l, by simp, rfl⟩⟩, inv.moved _,
    le_trans inv.forward forward,
    fun other listed => inv.old other (mem_of_mem_eraseIdx listed), inv.new⟩
  have short : (sweep.ls.take sweep.index).length = sweep.index :=
    length_take_of_le visits.inside.le
  refine visits.passed.trans (congrArg _ ?_)
  rw [eraseIdx_eq_take_drop_succ]
  exact (drop_left' short).symm

variable (contained : Contained ls nl)
include contained

theorem Inv.shrink (ends : nl.lockRange.stop < l.lockRange.stop)
    (forward : sweep.nl.lockRange.start ≤ l.lockRange.stop) :
    Inv ls nl { sweep with
      ls := sweep.ls.set sweep.index (l.withStart sweep.nl.lockRange.stop)
      index := sweep.index + 1
      nl := sweep.nl.withStart l.lockRange.stop } := by
  have right : Within ls nl (l.withStart sweep.nl.lockRange.stop) := by
    refine (Within.of_mem visits.member).part rfl fun position inside => ⟨?_, inside.2⟩
    rw [inv.stop] at inside
    exact le_trans (contained.1 l visits.member ends).1 inside.1
  refine ⟨⟨before ++ [l], ?_, .inr ⟨l, by simp, rfl⟩⟩, inv.moved _,
    le_trans inv.forward forward, fun other listed => inv.set right listed, inv.new⟩
  exact visits.passed.trans (by rw [drop_set_of_lt (lt_add_one _)])

variable (open_ : sweep.nl.lockRange.start < nl.lockRange.stop)
include open_

/-- What the request takes of the record is requested, and what reaches behind
the request the record had before. -/
theorem Inv.middle (below : l.lockRange.start < sweep.nl.lockRange.start) :
    Within ls nl ⟨nl.lockType, nl.pid, sweep.nl.lockRange.start, l.lockRange.stop⟩ := by
  rintro locks position ⟨above, inside⟩
  have forward := inv.forward
  by_cases requested : position < nl.lockRange.stop
  · exact .inr ⟨rfl, le_trans forward above, requested⟩
  have beyond : nl.lockRange.stop < l.lockRange.stop :=
    Nat.lt_of_le_of_lt (Nat.le_of_not_lt requested) inside
  have sameType : l.lockType = nl.lockType := by
    rcases (contained.1 l visits.member beyond).2 with unlock | same | later
    · exact absurd unlock locks
    · exact same
    rcases visits.from_ with start | ⟨m, passed, start⟩
    · omega
    have pairs := contained.2
    rw [visits.split] at pairs
    rcases (pairwise_append.mp pairs).2.2 m passed l mem_cons_self beyond with
      unlock | same | apart
    · exact absurd unlock locks
    · exact same
    · exact absurd ⟨by omega, by omega⟩ apart
  exact .inl ⟨l, visits.member, sameType, le_trans below.le above, inside⟩

theorem Inv.cut (reaches : sweep.nl.lockRange.start ≤ l.lockRange.stop)
    (below : l.lockRange.start < sweep.nl.lockRange.start) :
    Inv ls nl {
      ls := sweep.ls.set sweep.index (l.withStop sweep.nl.lockRange.start)
      index := sweep.index + 2
      nl := sweep.nl.withStart l.lockRange.stop
      newRecords := sweep.newRecords ++ [(sweep.index + 1,
        ⟨sweep.nl.lockType, sweep.nl.pid, sweep.nl.lockRange.start, l.lockRange.stop⟩)] } := by
  have left : Within ls nl (l.withStop sweep.nl.lockRange.start) :=
    (Within.of_mem visits.member).part rfl fun position inside =>
      ⟨inside.1, inside.2.trans_le reaches⟩
  refine ⟨⟨_, visits.passed_two _, .inr ⟨l, by simp, rfl⟩⟩, inv.moved _,
    le_trans inv.forward reaches, fun other listed => inv.set left listed,
    forall_mem_append.mpr ⟨inv.new, forall_mem_singleton.mpr ?_⟩⟩
  have middle := inv.middle visits contained open_ below
  rw [show sweep.nl.lockType = nl.lockType by rw [inv.request]; rfl,
    show sweep.nl.pid = nl.pid by rw [inv.request]; rfl]
  exact middle

end

/-- Each round keeps the invariant. -/
theorem Inv.round (contained : Contained ls nl) (taken : sweep.round = some next) :
    Inv ls nl next := by
  unfold LockSweep.round at taken
  split at taken
  · cases taken
  next l here =>
    split_ifs at taken with open_
    cases taken
    rcases inv.visits here with ⟨before, visits⟩
    have stop := inv.stop
    unfold visit
    dsimp only
    split_ifs with skipped below shrinks impossible
    · exact inv.skip visits
    · exact inv.cut visits contained (stop ▸ open_) (Nat.le_of_not_lt skipped) below
    · exact inv.shrink visits contained (stop ▸ shrinks.1) (Nat.le_of_not_lt skipped)
    · exact absurd impossible.1 below
    · exact inv.remove visits (Nat.le_of_not_lt skipped)

theorem Inv.rounds (contained : Contained ls nl) (fuel : Nat) :
    Inv ls nl (LockSweep.rounds fuel sweep) := by
  induction fuel generalizing sweep with
  | zero => exact inv
  | succ fuel ih =>
    rw [LockSweep.rounds]
    cases taken : sweep.round with
    | none => exact inv
    | some next => exact ih (inv.round contained taken)

end LockSweep

namespace PlockRecord

variable {ls : List PlockRecord} {nl record : PlockRecord}
  {result : List PlockRecord}

theorem mem_insertAll {entries : List (Nat × PlockRecord)}
    (member : record ∈ insertAll ls entries) :
    record ∈ ls ∨ ∃ entry ∈ entries, entry.2 = record := by
  unfold insertAll at member
  rw [foldl_reverse] at member
  induction entries with
  | nil => exact .inl member
  | cons entry entries ih =>
    rcases eq_or_mem_of_mem_insertIdx member with rfl | rest
    · exact .inr ⟨entry, mem_cons_self, rfl⟩
    · rcases ih rest with old | ⟨other, listed, same⟩
      · exact .inl old
      · exact .inr ⟨other, mem_cons_of_mem _ listed, same⟩

/-- A merged record covers what the two records did. -/
theorem forall_mergeInto (old : ∀ other ∈ result, Within ls nl other ∧ other.isKept = true)
    (new : Within ls nl record ∧ record.isKept = true) :
    ∀ other ∈ mergeInto result record, Within ls nl other ∧ other.isKept = true := by
  have appended : ∀ other ∈ result ++ [record], Within ls nl other ∧ other.isKept = true :=
    forall_mem_append.mpr ⟨old, forall_mem_singleton.mpr new⟩
  unfold mergeInto
  split
  next last final =>
    have known := old last (mem_of_getLast? final)
    split_ifs with continues
    swap
    · exact appended
    refine forall_mem_append.mpr ⟨fun other before => old other (dropLast_subset _ before),
      forall_mem_singleton.mpr ?_⟩
    have lastKept : last.lockType ≠ .unLock ∧ last.lockRange.start < last.lockRange.stop := by
      simpa [isKept] using known.2
    have newKept : record.lockType ≠ .unLock ∧
        record.lockRange.start < record.lockRange.stop := by
      simpa [isKept] using new.2
    constructor
    · rintro locks position ⟨above, below⟩
      by_cases first : position < last.lockRange.stop
      · exact known.1 locks position ⟨above, first⟩
      have second : record.Contains position :=
        ⟨continues.2 ▸ Nat.le_of_not_lt first, below⟩
      change last.lockType ≠ .unLock at locks
      change Covers ls last.lockType position ∨ nl.lockType = last.lockType ∧ _
      rw [continues.1] at locks ⊢
      exact new.1 locks position second
    · have longer : last.lockRange.start < record.lockRange.stop := by omega
      simp [isKept, withStop, lastKept.1, longer]
  next => exact appended

theorem forall_foldl_mergeInto {rest : List PlockRecord}
    (new : ∀ other ∈ rest, Within ls nl other ∧ other.isKept = true)
    (old : ∀ other ∈ result, Within ls nl other ∧ other.isKept = true) :
    ∀ other ∈ rest.foldl mergeInto result, Within ls nl other ∧ other.isKept = true := by
  induction rest generalizing result with
  | nil => exact old
  | cons first rest ih =>
    exact ih (fun other listed => new other (mem_cons_of_mem _ listed))
      (forall_mergeInto old (new first mem_cons_self))

/-- An update with a contained request covers nothing that was neither covered
before with the same type nor requested. -/
theorem updateLocks_within (contained : Contained ls nl)
    (member : record ∈ updateLocks ls nl) : Within ls nl record ∧ record.isKept = true := by
  have start : LockSweep.Inv ls nl ⟨ls, 0, nl, []⟩ :=
    ⟨⟨[], rfl, .inl rfl⟩, rfl, le_rfl, fun _ listed => .of_mem listed, nofun⟩
  have swept := start.rounds contained ls.length
  have inserted : ∀ other ∈ insertAll (LockSweep.rounds ls.length ⟨ls, 0, nl, []⟩).ls
      (LockSweep.rounds ls.length ⟨ls, 0, nl, []⟩).newRecords, Within ls nl other := by
    intro other listed
    rcases mem_insertAll listed with old | ⟨entry, new, rfl⟩
    · exact swept.old other old
    · exact swept.new entry new
  have rest : Within ls nl (LockSweep.rounds ls.length ⟨ls, 0, nl, []⟩).nl := by
    intro _ position inside
    rw [swept.request] at inside ⊢
    exact .inr ⟨rfl, le_trans swept.forward inside.1, inside.2⟩
  refine forall_foldl_mergeInto ?_ ?_ record member
  swap
  · exact nofun
  intro other listed
  refine ⟨?_, (mem_filter.mp listed).2⟩
  have pushed := (mem_filter.mp listed).1
  split_ifs at pushed
  · rcases mem_append.mp pushed with before | last
    · exact inserted other before
    · exact mem_singleton.mp last ▸ rest
  · exact inserted other pushed

end PlockRecord

/-! ## The table -/

/-- The session and the owner of a row. -/
structure PlockKey where
  sid : Nat
  owner : Int
deriving DecidableEq

/-- The rows of `plock_meta` for one inode. -/
abbrev PlockTable := List (PlockKey × List PlockRecord)

inductive PlockError where
  | lockConflict (owner : Int) (range : FileLockRange)

namespace PlockTable

open PlockRecord

variable (table : PlockTable) (key : PlockKey)

/-- The records of a key; none if it has no row. -/
def records : List PlockRecord :=
  (table.lookup key).getD []

def setRow (ls : List PlockRecord) : PlockTable :=
  if key ∈ table.map Prod.fst then
    table.map fun row => if row.1 = key then (key, ls) else row
  else
    table ++ [(key, ls)]

def deleteRow : PlockTable :=
  table.filter fun row => row.1 ≠ key

/-- Another key has a record that conflicts with the request. -/
def conflicts (newLock : PlockRecord) : Bool :=
  table.any fun row => row.1 ≠ key ∧ checkConflict newLock.lockType newLock.lockRange row.2

/-- The transaction of `try_set_plock` on an inode that exists. -/
def trySetPlock (newLock : PlockRecord) : Except PlockError PlockTable :=
  match newLock.lockType with
  | .unLock =>
    match table.lookup key with
    | none => .ok table
    | some ls =>
      if ls.isEmpty then
        .ok table
      else
        let newRecords := updateLocks ls newLock
        if newRecords.isEmpty then
          .ok (table.deleteRow key)
        else
          .ok (table.setRow key newRecords)
  | _ =>
    if table.conflicts key newLock then
      .error (.lockConflict key.owner newLock.lockRange)
    else
      let ls := updateLocks (table.records key) newLock
      if table.lookup key = some ls then .ok table else .ok (table.setRow key ls)

/-- Records of the two lists overlap only if both are read locks. -/
def Compatible (first second : List PlockRecord) : Prop :=
  forall a b, a ∈ first -> b ∈ second -> a.lockRange.overlaps b.lockRange = true ->
    a.lockType = .read ∧ b.lockType = .read

/-- No two keys hold overlapping ranges unless both are read locks. -/
def Exclusive : Prop :=
  forall first second, first ∈ table -> second ∈ table -> first.1 ≠ second.1 ->
    Compatible first.2 second.2

/-- A call with a proper range. -/
structure Request where
  key : PlockKey
  lock : PlockRecord

def step (request : Request) : Option PlockTable :=
  if request.lock.lockRange.start < request.lock.lockRange.stop then
    (table.trySetPlock request.key request.lock).toOption
  else
    none

/-- The request is contained in the records of its key. -/
def IsContained (request : Request) : Prop :=
  Contained (table.records request.key) request.lock
deriving Decidable

variable {table after : PlockTable} {key : PlockKey} {ls : List PlockRecord}
  {row : PlockKey × List PlockRecord} {a b : PlockRecord}

theorem mem_setRow
    (member : row ∈ table.setRow key ls) : row = (key, ls) ∨ row ∈ table ∧ row.1 ≠ key := by
  unfold setRow at member
  split_ifs at member with present
  · rcases mem_map.mp member with ⟨old, listed, rfl⟩
    split_ifs with here
    · exact .inl rfl
    · exact .inr ⟨listed, here⟩
  · rcases mem_append.mp member with before | new
    · refine .inr ⟨before, fun same => present ?_⟩
      exact same ▸ mem_map_of_mem before
    · exact .inl (mem_singleton.mp new)

theorem mem_of_lookup (found : table.lookup key = some ls) : (key, ls) ∈ table := by
  rcases lookup_eq_some_iff.mp found with ⟨front, back, rfl, _⟩
  simp

theorem Compatible.symm {first second : List PlockRecord} (compatible : Compatible first second) :
    Compatible second first := by
  intro a b left right overlap
  have swapped : b.lockRange.overlaps a.lockRange = true := by
    simp only [FileLockRange.overlaps, Bool.and_eq_true, decide_eq_true_eq] at overlap ⊢
    omega
  exact (compatible b a right left swapped).symm

/-- A new row that is compatible with the rows of the other keys. -/
theorem Exclusive.setRow (exclusive : table.Exclusive)
    (compatible : ∀ row ∈ table, row.1 ≠ key -> Compatible ls row.2) :
    (table.setRow key ls).Exclusive := by
  intro first second firstRow secondRow different
  rcases mem_setRow firstRow with rfl | ⟨firstOld, firstOther⟩
  · rcases mem_setRow secondRow with rfl | ⟨secondOld, secondOther⟩
    · exact absurd rfl different
    · exact compatible second secondOld secondOther
  · rcases mem_setRow secondRow with rfl | ⟨secondOld, _⟩
    · exact (compatible first firstOld firstOther).symm
    · exact exclusive first second firstOld secondOld different

theorem Exclusive.deleteRow (exclusive : table.Exclusive) (key : PlockKey) :
    (table.deleteRow key).Exclusive :=
  fun first second firstRow secondRow =>
    exclusive first second (mem_filter.mp firstRow).1 (mem_filter.mp secondRow).1

/-! ## Exclusion -/

theorem overlaps_of_contains {position : Nat}
    (left : a.Contains position) (right : b.Contains position) :
    a.lockRange.overlaps b.lockRange = true := by
  simp only [FileLockRange.overlaps, Bool.and_eq_true, decide_eq_true_eq]
  exact ⟨right.1.trans_lt left.2, left.1.trans_lt right.2⟩

theorem contains_of_overlaps (leftKept : a.isKept = true)
    (rightKept : b.isKept = true) (overlap : a.lockRange.overlaps b.lockRange = true) :
    ∃ position, a.Contains position ∧ b.Contains position := by
  simp only [isKept, decide_eq_true_eq] at leftKept rightKept
  simp only [FileLockRange.overlaps, Bool.and_eq_true, decide_eq_true_eq] at overlap
  refine ⟨max a.lockRange.start b.lockRange.start, ⟨?_, ?_⟩, ?_, ?_⟩ <;> omega

/-- The updated records stay compatible with records that the request does not
conflict with. -/
theorem compatible_updateLocks {others : List PlockRecord} {nl : PlockRecord}
    (contained : Contained ls nl) (compatible : Compatible ls others)
    (kept : ∀ b ∈ others, b.isKept = true)
    (free : nl.lockType ≠ .unLock -> checkConflict nl.lockType nl.lockRange others = false) :
    Compatible (updateLocks ls nl) others := by
  intro a b left right overlap
  rcases updateLocks_within contained left with ⟨within, leftKept⟩
  have rightKept := kept b right
  rcases contains_of_overlaps leftKept rightKept overlap with ⟨position, inA, inB⟩
  simp only [isKept, decide_eq_true_eq] at leftKept rightKept
  rcases within leftKept.1 position inA with ⟨old, listed, sameType, inOld⟩ | ⟨sameType, inside⟩
  · rw [← sameType]
    exact compatible old b listed right (overlaps_of_contains inOld inB)
  have none_ := free (sameType ▸ leftKept.1)
  simp only [checkConflict, any_eq_false] at none_
  have apart := none_ b right
  have touches : nl.lockRange.stop > b.lockRange.start ∧ nl.lockRange.start < b.lockRange.stop :=
    ⟨inB.1.trans_lt inside.2, inside.1.trans_lt inB.2⟩
  cases kindA : a.lockType <;> cases kindB : b.lockType <;> simp_all

/-- Every record is a read or a write lock on a nonempty range. -/
def Kept (table : PlockTable) : Prop :=
  forall row, row ∈ table -> forall record, record ∈ row.2 -> record.isKept = true

theorem records_compatible (exclusive : table.Exclusive) (member : row ∈ table)
    (other : row.1 ≠ key) :
    Compatible (table.records key) row.2 := by
  unfold records
  cases found : table.lookup key with
  | none => exact nofun
  | some ls => exact exclusive (key, ls) row (mem_of_lookup found) member other.symm

theorem setRow_kept (kept : table.Kept)
    (new : ∀ record ∈ ls, record.isKept = true) : (table.setRow key ls).Kept := by
  intro row member
  rcases mem_setRow member with rfl | ⟨old, _⟩
  · exact new
  · exact kept row old

theorem trySetPlock_exclusive {newLock : PlockRecord} (exclusive : table.Exclusive)
    (kept : table.Kept) (contained : Contained (table.records key) newLock)
    (taken : table.trySetPlock key newLock = .ok after) : after.Exclusive ∧ after.Kept := by
  have replaced : (newLock.lockType ≠ .unLock -> table.conflicts key newLock = false) ->
      (table.setRow key (updateLocks (table.records key) newLock)).Exclusive ∧
        (table.setRow key (updateLocks (table.records key) newLock)).Kept := by
    intro free
    refine ⟨exclusive.setRow ?_, setRow_kept kept fun record member =>
      (updateLocks_within contained member).2⟩
    intro row member other
    refine compatible_updateLocks contained (records_compatible exclusive member other)
      (kept row member) ?_
    intro locks
    have apart := free locks
    simp only [conflicts, any_eq_false] at apart
    simpa [other] using apart row member
  unfold trySetPlock at taken
  split at taken
  next unlocks =>
    split at taken
    · cases taken
      exact ⟨exclusive, kept⟩
    next ls found =>
      have known : table.records key = ls := by simp [records, found]
      dsimp only at taken
      split_ifs at taken <;> cases taken
      · exact ⟨exclusive, kept⟩
      · exact ⟨exclusive.deleteRow key, fun row member =>
          kept row (mem_filter.mp member).1⟩
      · exact known ▸ replaced fun locks => absurd unlocks locks
  next locks =>
    dsimp only at taken
    split_ifs at taken with conflict same <;> cases taken
    · exact ⟨exclusive, kept⟩
    · exact replaced fun _ => Bool.eq_false_iff.mpr conflict

/-- In every sequence of successful calls whose requests are contained, no two
keys come to hold overlapping ranges that are not both read locks. -/
theorem exclusive_of_isContained {requests : List Request} {final : PlockTable}
    (run : Run step IsContained [] requests final) : final.Exclusive := by
  have both : final.Exclusive ∧ final.Kept := by
    refine run.invariant (fun table => table.Exclusive ∧ table.Kept) ⟨nofun, nofun⟩ ?_
    rintro table request next ⟨exclusive, kept⟩ contained taken
    unfold step at taken
    split_ifs at taken
    cases result : table.trySetPlock request.key request.lock with
    | error error => simp [result, Except.toOption] at taken
    | ok after =>
      simp only [result, Except.toOption, Option.some.injEq] at taken
      exact taken ▸ trySetPlock_exclusive exclusive kept contained result
  exact both.1

private def firstKey : PlockKey := ⟨1, 1⟩

private def secondKey : PlockKey := ⟨1, 2⟩

/-- The first owner extends its lock up to the second one's and gives up a part of it. -/
private def extendAndSplit : List Request :=
  [⟨firstKey, .read, 7, 0, 10⟩, ⟨secondKey, .write, 8, 20, 30⟩, ⟨firstKey, .read, 7, 5, 20⟩,
    ⟨firstKey, .unLock, 7, 0, 4⟩]

/-- The first owner locks bytes behind the second one's and then bytes before them. -/
private def lockBehindThenBefore : List Request :=
  [⟨firstKey, .read, 7, 50, 60⟩, ⟨secondKey, .write, 8, 20, 30⟩, ⟨firstKey, .read, 7, 0, 10⟩]

theorem exclusive_extendAndSplit :
    Exists fun table =>
      Run step IsContained [] extendAndSplit table ∧
      table.records firstKey = [⟨.read, 7, 4, 20⟩] ∧
      table.records secondKey = [⟨.write, 8, 20, 30⟩] ∧ table.Exclusive := by
  refine exists_run_of (fun table => table.records firstKey = [⟨.read, 7, 4, 20⟩] ∧
    table.records secondKey = [⟨.write, 8, 20, 30⟩]) (by decide +kernel) fun _ run held => ?_
  exact ⟨held.1, held.2, exclusive_of_isContained run⟩

/-- The record of bytes 50 to 60 is stretched over the write lock on 20 to 30. -/
theorem updateLocks_stretches_over_other_lock :
    Exists fun table =>
      Run step anyStep [] lockBehindThenBefore table ∧
      table = [(firstKey, [⟨.read, 7, 10, 60⟩]), (secondKey, [⟨.write, 8, 20, 30⟩])] ∧
      ¬ table.Exclusive := by
  have ran : execute step anyStep [] lockBehindThenBefore =
      some [(firstKey, [⟨.read, 7, 10, 60⟩]), (secondKey, [⟨.write, 8, 20, 30⟩])] := by
    decide +kernel
  refine ⟨_, run_of_execute ran, rfl, ?_⟩
  intro exclusive
  have both := exclusive (firstKey, [⟨.read, 7, 10, 60⟩]) (secondKey, [⟨.write, 8, 20, 30⟩])
    (by simp) (by simp) (by decide) ⟨.read, 7, 10, 60⟩ ⟨.write, 8, 20, 30⟩ (by simp) (by simp) rfl
  cases both.2

end PlockTable

end Rk8s.Slayerfs
