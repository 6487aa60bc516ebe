import Mathlib.Algebra.Order.BigOperators.Group.List
import Rk8s.Slayerfs.Vfs.ReadCache

namespace Rk8s.Slayerfs

open Transition Intervals List

/-!
# Reads are served from ready slices

A read pins slices that cover its range, so they stay in the queue until it has
collected them, and every slice it copies from was found ready.  `Progress` says
how much of the buffer is filled at each stage of the read, and which slices
have what is missing.

The argument needs the conditions of `Undisturbed`.  `invalidate_all` empties the
queue although slices are pinned: a read that collects its slices afterwards
finds none and returns the zeros of its buffer as data.  Between the wait for a
slice and the copy the slice may be invalidated or taken by a second fetch task,
and after `invalidate_all` the copy is out of bounds.
-/

namespace ReadPc

/-- The call relies on its pins. -/
def active : ReadPc -> Bool
  | .preparing _ | .ahead _ | .collecting _ | .visiting .. | .copying .. => true
  | .cleaning | .pressing | .unpinning _ | .cleanup _ | .returned _ => false

/-- The call has not prepared anything yet. -/
def early : ReadPc -> Bool
  | .cleaning | .pressing => true
  | _ => false

/-- The slice that was found ready and is copied next. -/
def copies? : ReadPc -> Option Nat
  | .copying _ _ key _ _ => some key
  | _ => none

/-- The slices that were collected and not copied yet. -/
def visits : ReadPc -> List Nat
  | .visiting _ _ slices _ => slices
  | .copying _ _ key slices _ => key :: slices
  | _ => []

def result? : ReadPc -> Option ReadResult
  | .unpinning result | .cleanup result | .returned result => some result
  | _ => none

end ReadPc

namespace FileReader

/-- The steps that take nothing away from a read under way.  No `invalidate_all`
runs between the first preparation of a read and its last copy; a slice that a
read has found ready is neither invalidated nor fetched again before the copy;
and no reference count overflows. -/
def Undisturbed (config : ReadConfig) (state : FileReader) : Action -> Prop
  | .invalidateAll => forall read, read ∈ state.reads -> read.pc.active = false
  | .invalidate offset len => forall read, read ∈ state.reads -> forall key, key ∈ state.slices ->
      read.pc.copies? = some key ->
      hits (splitChunkSpans config.layout offset len) (state.cells key) = false
  | .fetch index =>
    match state.tasks[index]? with
    | some ⟨key, .queued⟩ => forall read, read ∈ state.reads -> read.pc.copies? ≠ some key
    | _ => True
  | .read call (.prepare _) =>
    match state.reads[call]?.bind fun read => read.pc.todo.head? with
    | some span => forall key, key ∈ state.slices ->
        pins span.index span.offset (span.offset + span.len) (state.cells key) = true ->
        (state.cells key).refs < maxRefs
    | none => True
  | _ => True

instance (config : ReadConfig) (state : FileReader) (action : Action) :
    Decidable (Undisturbed config state action) := by
  unfold Undisturbed
  repeat' split
  all_goals infer_instance

/-- What the cache serves.  The valid slices of a chunk do not overlap; the page
of a ready slice was fetched from metadata read after the last invalidation of
its range; a read that returns `n` bytes has copied each of them from a slice
that was ready; and no copy was out of bounds. -/
structure ServesFetched (state : FileReader) : Prop where
  separate : state.slices.Pairwise fun first second =>
    (state.cells first).Apart (state.cells second)
  fresh : forall key, key ∈ state.slices -> (state.cells key).state = .ready ->
    (state.cells key).invalidatedAt ≤ (state.cells key).readAt
  served : forall read, read ∈ state.reads -> forall n, read.pc = .returned (.ok n) ->
    read.out.length = n ∧ forall byte, byte ∈ read.out -> byte.source = some .ready
  inBounds : forall read, read ∈ state.reads -> read.pc.result? ≠ some .panicked

/-! ## Progress of a read -/

variable (state : FileReader)

/-- The pinned slices have every position of the span. -/
def Covered (pinned : List Nat) (span : Span .chunk) : Prop :=
  forall i, i < span.len -> Exists fun key => key ∈ pinned ∧
    (state.cells key).index = span.index ∧
    Inside (state.cells key).range (span.offset + i)

/-- A byte of the segment was copied, or one of the remaining slices has it. -/
def Filled (span : Span .chunk) (seg : List ReadByte) (slices : List Nat) : Prop :=
  seg.length = span.len ∧ forall i byte, seg[i]? = some byte -> byte.source = some .ready ∨
    Exists fun key => key ∈ slices ∧ Inside (state.cells key).range (span.offset + i)

def AllReady (bytes : List ReadByte) : Prop :=
  forall byte, byte ∈ bytes -> byte.source = some .ready

/-- The finished part of the buffer and the spans that follow it. -/
def Remaining (read : ReadCall) (done : Nat) (spans : List (Span .chunk)) : Prop :=
  AllReady read.out ∧ done + (spans.map Span.len).sum = read.len ∧
    forall span, span ∈ spans -> Covered state read.pins span

def Progress (config : ReadConfig) (state : FileReader) (read : ReadCall) : Prop :=
  match read.pc with
  | .cleaning | .pressing => read.out = []
  | .preparing todo => read.out = [] ∧ Exists fun done => spansOf config read = done ++ todo ∧
      forall span, span ∈ done -> Covered state read.pins span
  | .ahead _ => read.out = [] ∧
      forall span, span ∈ spansOf config read -> Covered state read.pins span
  | .collecting spans => Remaining state read read.out.length spans
  | .visiting span seg slices spans =>
    Remaining state read (read.out.length + span.len) spans ∧ Filled state span seg slices
  | .copying span seg key slices spans =>
    Remaining state read (read.out.length + span.len) spans ∧
      Filled state span seg (key :: slices) ∧
      (copyRange span (state.cells key)).1 < (copyRange span (state.cells key)).2
  | .unpinning result | .cleanup result | .returned result =>
    match result with
    | .ok n => AllReady read.out ∧ read.out.length = n
    | .error _ => True
    | .panicked => False

/-- The pins that all calls hold on a slice. -/
def pinCount (key : Nat) : Nat :=
  (state.reads.map fun read => read.pins.count key).sum

structure Reading (config : ReadConfig) (state : FileReader) : Prop where
  pinned : forall read, read ∈ state.reads -> read.pc.active = true ->
    forall key, key ∈ read.pins -> key ∈ state.slices
  counted : forall key, state.pinCount key ≤ (state.cells key).refs
  known : forall read, read ∈ state.reads -> forall key, key ∈ read.pins ∨ key ∈ read.pc.visits ->
    key < state.nextKey
  progress : forall read, read ∈ state.reads -> Progress config state read
  waited : forall read, read ∈ state.reads -> forall key, read.pc.copies? = some key ->
    (state.cells key).state = .ready
  unpinned : forall read, read ∈ state.reads -> read.pc.early = true -> read.pins = []

variable {config : ReadConfig} {ino : Int} {state next : FileReader}

/-- The ranges of the slices that exist are the same. -/
def SameShape (state next : FileReader) : Prop :=
  forall key, key < state.nextKey -> (next.cells key).index = (state.cells key).index ∧
    (next.cells key).range = (state.cells key).range

variable {span : Span .chunk} {pinned slices : List Nat} {seg : List ReadByte}
  {read : ReadCall} {spans : List (Span .chunk)}

theorem Covered.append {more : List Nat} (covered : Covered state pinned span) :
    Covered state (pinned ++ more) span := by
  intro i inside
  rcases covered i inside with ⟨key, member, rest⟩
  exact ⟨key, mem_append_left _ member, rest⟩

/-- What holds for each read. -/
structure Served (config : ReadConfig) (state : FileReader) (read : ReadCall) : Prop where
  pinned : read.pc.active = true -> forall key, key ∈ read.pins -> key ∈ state.slices
  known : forall key, key ∈ read.pins ∨ key ∈ read.pc.visits -> key < state.nextKey
  progress : Progress config state read
  waited : forall key, read.pc.copies? = some key -> (state.cells key).state = .ready
  unpinned : read.pc.early = true -> read.pins = []

theorem Reading.served (reading : Reading config state) (member : read ∈ state.reads) :
    Served config state read where
  pinned := reading.pinned read member
  known := reading.known read member
  progress := reading.progress read member
  waited := reading.waited read member
  unpinned := reading.unpinned read member

theorem Reading.of_served (counted : ∀ key, state.pinCount key ≤ (state.cells key).refs)
    (served : ∀ read ∈ state.reads, Served config state read) :
    Reading config state where
  pinned read member := (served read member).pinned
  counted := counted
  known read member := (served read member).known
  progress read member := (served read member).progress
  waited read member := (served read member).waited
  unpinned read member := (served read member).unpinned

section

variable (shape : SameShape state next)
include shape

theorem Covered.mono (covered : Covered state pinned span)
    (known : ∀ key ∈ pinned, key < state.nextKey) :
    Covered next pinned span := by
  intro i inside
  rcases covered i inside with ⟨key, member, index, range⟩
  rcases shape key (known key member) with ⟨sameIndex, sameRange⟩
  exact ⟨key, member, sameIndex.trans index, by rw [sameRange]; exact range⟩

theorem Filled.mono (filled : Filled state span seg slices)
    (known : ∀ key ∈ slices, key < state.nextKey) :
    Filled next span seg slices := by
  refine ⟨filled.1, ?_⟩
  intro i byte there
  rcases filled.2 i byte there with ready | ⟨key, member, inside⟩
  · exact .inl ready
  · refine .inr ⟨key, member, ?_⟩
    rw [(shape key (known key member)).2]
    exact inside

theorem Remaining.mono {done : Nat} (remaining : Remaining state read done spans)
    (known : ∀ key ∈ read.pins, key < state.nextKey) :
    Remaining next read done spans :=
  ⟨remaining.1, remaining.2.1, fun span member => (remaining.2.2 span member).mono shape known⟩

theorem Progress.mono (progress : Progress config state read)
    (known : ∀ key, key ∈ read.pins ∨ key ∈ read.pc.visits -> key < state.nextKey) :
    Progress config next read := by
  have pinned := fun key member => known key (.inl member)
  rcases read with ⟨offset, len, held, out, pc⟩
  cases pc with
  | cleaning | pressing | unpinning result | cleanup result | returned result => exact progress
  | preparing todo =>
    rcases progress with ⟨empty, done, split, covered⟩
    exact ⟨empty, done, split, fun span member => (covered span member).mono shape pinned⟩
  | ahead todo =>
    exact ⟨progress.1, fun span member => (progress.2 span member).mono shape pinned⟩
  | collecting spans => exact Remaining.mono shape progress pinned
  | visiting span seg slices spans =>
    exact ⟨progress.1.mono shape pinned,
      progress.2.mono shape fun key member => known key (.inr member)⟩
  | copying span seg key slices spans =>
    refine ⟨progress.1.mono shape pinned,
      progress.2.1.mono shape fun other member => known other (.inr member), ?_⟩
    rw [copyRange, (shape key (known key (.inr (.head _)))).2]
    exact progress.2.2

/-- A read that does not move is not affected as long as its pinned slices stay, and
the slice that it is about to copy stays ready. -/
theorem Served.mono (served : Served config state read)
    (grows : state.nextKey ≤ next.nextKey)
    (kept : read.pc.active = true -> ∀ key ∈ read.pins, key ∈ state.slices -> key ∈ next.slices)
    (ready : ∀ key, read.pc.copies? = some key -> (state.cells key).state = .ready ->
      (next.cells key).state = .ready) : Served config next read where
  pinned active key held := kept active key held (served.pinned active key held)
  known key inside := lt_of_lt_of_le (served.known key inside) grows
  progress := served.progress.mono shape served.known
  waited key copies := ready key copies (served.waited key copies)
  unpinned := served.unpinned

end

theorem pinCount_pos {key : Nat} (member : read ∈ state.reads) (held : key ∈ read.pins) :
    0 < state.pinCount key := by
  have one := count_pos_iff.mpr held
  have sum : read.pins.count key ≤ state.pinCount key := le_sum_of_mem (mem_map_of_mem member)
  omega

/-! ## Steps of a read -/

variable {call : Nat} {moved : ReadCall}

theorem Moves.sameShape (moves : Moves call state next moved) : SameShape state next :=
  fun key _ => ⟨(moves.cells key).index, (moves.cells key).range⟩

section

variable (reading : Reading config state) (there : state.reads[call]? = some read)
  (moves : Moves call state next moved)
include reading there moves

/-- A read moves without taking new pins: what its new position claims is to be
shown, the other reads are not affected. -/
theorem Reading.move (kept : ∀ key ∈ state.slices, 0 < state.pinCount key -> key ∈ next.slices)
    (counted : ∀ key, next.pinCount key ≤ (next.cells key).refs)
    (fewer : ∀ key ∈ moved.pins, key ∈ read.pins)
    (active : moved.pc.active = true -> read.pc.active = true ∨ moved.pins = [])
    (visits : ∀ key ∈ moved.pc.visits, key ∈ read.pc.visits ∨ key ∈ state.slices)
    (below : ∀ key ∈ state.slices, key < state.nextKey)
    (progress : Progress config next moved)
    (waited : ∀ key, moved.pc.copies? = some key -> (state.cells key).state = .ready)
    (unpinned : moved.pc.early = true -> read.pc.early = true) : Reading config next := by
  have member := mem_of_getElem? there
  have served := reading.served member
  refine .of_served counted fun other found => ?_
  rw [moves.reads] at found
  rcases mem_or_eq_of_mem_set found with old | rfl
  · exact (reading.served old).mono moves.sameShape moves.nextKey.ge
      (fun _ key held inQueue => kept key inQueue (pinCount_pos old held))
      fun key _ ready => (moves.cells key).state.trans ready
  refine ⟨?_, ?_, progress, fun key copies => (moves.cells key).state.trans (waited key copies), ?_⟩
  · intro isActive key pinned
    rcases active isActive with wasActive | none_
    · have before := fewer key pinned
      exact kept key (served.pinned wasActive key before) (pinCount_pos member before)
    · rw [none_] at pinned
      cases pinned
  · intro key inside
    rw [moves.nextKey]
    rcases inside with pinned | visited
    · exact served.known key (.inl (fewer key pinned))
    · exact (visits key visited).elim (fun before => served.known key (.inr before)) (below key)
  intro early
  have none_ := served.unpinned (unpinned early)
  rw [eq_nil_iff_forall_not_mem]
  intro key pinned
  have before := fewer key pinned
  rw [none_] at before
  cases before

/-- The counts stay when neither the pins of the read nor the slices' counts change. -/
theorem counted_of_same (pins : moved.pins = read.pins)
    (refs : ∀ key, (next.cells key).refs = (state.cells key).refs) :
    ∀ key, next.pinCount key ≤ (next.cells key).refs := by
  intro key
  have sum : next.pinCount key + read.pins.count key = state.pinCount key + moved.pins.count key := by
    unfold pinCount
    rw [moves.reads]
    exact Slots.sum_map_set there
  have before := reading.counted key
  rw [pins] at sum
  rw [refs key]
  omega

/-! ### Dropping slices -/

end

variable {key : Nat}

theorem retainLimited_keeps {overlapsCurrent removable : Nat -> Bool} {limit : Nat}
    {keys : List Nat} (cnt : Nat) (member : key ∈ keys) (stays : removable key = false) :
    key ∈ retainLimited overlapsCurrent removable limit keys cnt := by
  induction keys generalizing cnt with
  | nil => cases member
  | cons first keys ih =>
    rw [retainLimited]
    rcases mem_cons.mp member with rfl | later
    · rw [stays, Bool.and_false, if_neg (by decide)]
      exact .head _
    · split_ifs
      · exact ih _ later
      · exact .tail _ (ih _ later)

variable {now offset len : Nat}

/-- Pinned slices survive the cleanings. -/
theorem cleanEvictableSlices_keeps (member : key ∈ state.slices)
    (pinned : 0 < (state.cells key).refs) :
    key ∈ (state.cleanEvictableSlices config offset len now).slices := by
  have held : ((state.cells key).refs == 0) = false := by
    rw [beq_eq_false_iff_ne]
    omega
  have kept : key ∈ state.slices.filter fun key =>
      keepSlice config state.sessions offset len now (state.cells key) := by
    refine mem_filter.mpr ⟨member, ?_⟩
    simp only [keepSlice, held, Bool.and_false, Bool.false_and, Bool.or_false, Bool.not_false]
  unfold cleanEvictableSlices
  dsimp only
  split_ifs
  · exact retainLimited_keeps _ kept (by rw [held, Bool.false_and])
  · exact kept

theorem cleanupInvalid_keeps (member : key ∈ state.slices)
    (pinned : 0 < (state.cells key).refs) : key ∈ state.cleanupInvalid.slices := by
  have held : ((state.cells key).refs == 0) = false := by
    rw [beq_eq_false_iff_ne]
    omega
  refine mem_filter.mpr ⟨member, ?_⟩
  rw [held, Bool.and_false, Bool.not_false]

/-! ### Copying -/

/-- A part of a list replaced by one of the same length. -/
theorem getElem?_splice {whole part : List ReadByte} {first stop : Nat} (i : Nat)
    (ordered : first ≤ stop) (inside : stop ≤ whole.length) (fits : part.length = stop - first) :
    (whole.take first ++ part ++ whole.drop stop)[i]? =
      if first ≤ i ∧ i < stop then part[i - first]? else whole[i]? := by
  have front : (whole.take first).length = first := by
    rw [length_take]
    omega
  by_cases before : i < first
  · rw [append_assoc, getElem?_append_left (by omega), getElem?_take_of_lt before,
      if_neg (by omega)]
  by_cases within : i < stop
  · rw [append_assoc, getElem?_append_right (by omega), front,
      getElem?_append_left (by omega), if_pos (by omega)]
  · rw [getElem?_append_right (by rw [length_append]; omega), length_append, front,
      getElem?_drop, if_neg (by omega)]
    congr 1
    omega

/-- Copying from a ready slice fills what the slice has of the span. -/
theorem copyOut_filled (slice : ReadSlice) (length : seg.length = span.len)
    (ready : slice.state = .ready) (sized : slice.page.length = slice.range.2 - slice.range.1)
    (proper : (copyRange span slice).1 < (copyRange span slice).2) :
    ∃ copied, copyOut span slice seg = some copied ∧ copied.length = span.len ∧
      ∀ i byte, copied[i]? = some byte -> byte.source = some .ready ∨
        seg[i]? = some byte ∧ ¬ Inside slice.range (span.offset + i) := by
  unfold copyRange at proper
  have inPage : min slice.range.2 (span.offset + span.len) - slice.range.1 ≤ slice.page.length := by
    omega
  refine ⟨_, if_pos inPage, ?_, ?_⟩
  · simp only [length_append, length_take, length_map, length_drop]
    omega
  intro i byte there
  rw [getElem?_splice i (by omega) (by omega)
    (by rw [length_map, length_drop, length_take]; omega)] at there
  split_ifs at there with within
  · left
    rcases mem_map.mp (mem_of_getElem? there) with ⟨value, _, rfl⟩
    exact congrArg some ready
  right
  refine ⟨there, ?_⟩
  have inSeg := (List.getElem?_eq_some_iff.mp there).1
  rintro ⟨above, below⟩
  omega

/-! ### The steps one by one -/

section

variable (reading : Reading config state)
include reading

section

variable (cache : Cache ino state)
include cache

variable (there : state.reads[call]? = some read)
include there

/-- A read moves and nothing else happens. -/
theorem Reading.setRead (later : moved.pc.early = false) (samePins : moved.pins = read.pins)
    (active : moved.pc.active = true -> read.pc.active = true ∨ read.pins = [])
    (visits : ∀ key ∈ moved.pc.visits, key ∈ read.pc.visits ∨ key ∈ state.slices)
    (progress : Progress config state moved)
    (waited : ∀ key, moved.pc.copies? = some key -> (state.cells key).state = .ready) :
    Reading config (state.setRead call moved) := by
  have moves : Moves call state (state.setRead call moved) moved := moves_setRead moved
  refine reading.move there moves (fun _ held _ => held)
    (counted_of_same reading there moves samePins fun _ => rfl)
    (fun key member => samePins ▸ member) (samePins ▸ active) visits cache.below ?_ waited
    (fun early => absurd (later.symm.trans early) nofun)
  rcases moved with ⟨offset, len, held, out, pc⟩
  cases pc <;> exact progress

theorem clean_reading (at_ : read.pc = .cleaning) :
    Reading config ((state.cleanEvictableSlices config read.offset read.len now).setRead call
      { read with pc := .pressing }) := by
  have moves : Moves call state ((state.cleanEvictableSlices config read.offset read.len now).setRead
      call { read with pc := .pressing }) { read with pc := .pressing } :=
    ⟨rfl, fun _ => .refl _, cleanEvictableSlices_sublist .., rfl, rfl, rfl⟩
  have progress := reading.progress read (mem_of_getElem? there)
  rw [Progress, at_] at progress
  refine reading.move there moves ?_ (counted_of_same reading there moves rfl fun _ => rfl)
    (fun _ => id) nofun nofun cache.below progress nofun (fun _ => by rw [at_]; rfl)
  intro key held pinned
  exact cleanEvictableSlices_keeps held (pinned.trans_le (reading.counted key))

theorem collect_reading
    (taken : state.readStep config call read .collect = some next) : Reading config next := by
  have member := mem_of_getElem? there
  have progress := reading.progress read member
  rw [readStep] at taken
  split at taken
  · rename_i span spans at_
    cases taken
    rw [Progress, at_] at progress
    rcases progress with ⟨ready, total, covered⟩
    have isActive : read.pc.active = true := by
      rw [at_]
      rfl
    refine reading.setRead cache there rfl rfl (fun _ => .inl isActive) ?_ ?_ (by rintro _ ⟨⟩)
    · intro key visited
      exact .inr (mem_filter.mp visited).1
    refine ⟨⟨ready, ?_, fun later listed => covered later (.tail _ listed)⟩, length_replicate, ?_⟩
    · rw [map_cons, sum_cons] at total
      dsimp only
      omega
    intro i byte found
    have inside := (List.getElem?_eq_some_iff.mp found).1
    rw [length_replicate] at inside
    rcases covered span (.head _) i inside with ⟨key, pinned, index, range⟩
    refine .inr ⟨key, mem_filter.mpr ⟨?_, by rw [index, beq_self_eq_true]⟩, range⟩
    exact reading.pinned read member isActive key pinned
  · rename_i at_
    cases taken
    rw [Progress, at_] at progress
    rcases progress with ⟨ready, total, _⟩
    exact reading.setRead cache there rfl rfl (by rintro ⟨⟩) (by rintro _ ⟨⟩) ⟨ready, total⟩
      (by rintro _ ⟨⟩)
  · cases taken

theorem visit_reading
    (taken : state.readStep config call read .visit = some next) : Reading config next := by
  have progress := reading.progress read (mem_of_getElem? there)
  rw [readStep] at taken
  split at taken
  swap
  · cases taken
  rename_i span seg slices spans at_
  rw [Progress, at_] at progress
  rcases progress with ⟨⟨ready, total, covered⟩, length, filled⟩
  have isActive : read.pc.active = true := by
    rw [at_]
    rfl
  cases slices with
  | nil =>
    cases taken
    refine reading.setRead cache there rfl rfl (fun _ => .inl isActive) (by rintro _ ⟨⟩)
      ⟨?_, ?_, covered⟩ (by rintro _ ⟨⟩)
    · intro byte member
      rcases mem_append.mp member with old | new
      · exact ready byte old
      · rcases mem_iff_getElem?.mp new with ⟨i, found⟩
        rcases filled i byte found with copied | ⟨key, none_, _⟩
        · exact copied
        · cases none_
    · dsimp only
      rw [length_append, length]
      exact total
  | cons key slices =>
    rw [visit] at taken
    have later : ∀ other ∈ key :: slices, other ∈ read.pc.visits ∨ other ∈ state.slices := by
      intro other visited
      rw [at_]
      exact .inl visited
    by_cases nothing : (copyRange span (state.cells key)).2 ≤ (copyRange span (state.cells key)).1
    · rw [if_pos nothing] at taken
      cases taken
      refine reading.setRead cache there rfl rfl (fun _ => .inl isActive)
        (fun other visited => later other (.tail _ visited))
        ⟨⟨ready, total, covered⟩, length, ?_⟩ (by rintro _ ⟨⟩)
      intro i byte found
      rcases filled i byte found with copied | ⟨other, listed, inside⟩
      · exact .inl copied
      rcases mem_cons.mp listed with rfl | tail
      · -- the slice has no part of the span
        have inSeg := (List.getElem?_eq_some_iff.mp found).1
        unfold copyRange at nothing
        have low := inside.1
        have high := inside.2
        omega
      · exact .inr ⟨other, tail, inside⟩
    rw [if_neg nothing] at taken
    split at taken
    · rename_i isReady
      cases taken
      refine reading.setRead cache there rfl rfl (fun _ => .inl isActive) later
        ⟨⟨ready, total, covered⟩, ⟨length, filled⟩, Nat.lt_of_not_le nothing⟩ ?_
      rintro other ⟨⟩
      exact isReady
    · cases taken
      exact reading.setRead cache there rfl rfl (by rintro ⟨⟩) (by rintro _ ⟨⟩) trivial
        (by rintro _ ⟨⟩)
    all_goals cases taken

theorem copy_reading (at_ : read.pc = .copying span seg key slices spans) :
    Reading config (state.copy call read span seg key slices spans now) := by
  have member := mem_of_getElem? there
  have progress := reading.progress read member
  rw [Progress, at_] at progress
  rcases progress with ⟨⟨ready, total, covered⟩, ⟨length, filled⟩, proper⟩
  have isReady := reading.waited read member key (by rw [at_]; rfl)
  have isActive : read.pc.active = true := by
    rw [at_]
    rfl
  rcases copyOut_filled { state.cells key with lastAccess := now } length isReady
    (cache.sized key isReady) proper with ⟨copied, done, sameLength, filledNow⟩
  have moves : Moves call state
      ((state.setSlice key { state.cells key with lastAccess := now }).setRead call
        { read with pc := .visiting span copied slices spans })
      { read with pc := .visiting span copied slices spans } :=
    moves_setSlice _ .of_pins
  rw [copy]
  rw [done]
  refine reading.move there moves (fun _ held _ => held)
    (counted_of_same reading there moves rfl ?_) (fun _ => id) (fun _ => .inl isActive) ?_
    cache.below ?_ (by rintro _ ⟨⟩) (by rintro ⟨⟩)
  · intro other
    change ((state.setSlice key _).cells other).refs = (state.cells other).refs
    by_cases here : other = key
    · rw [here, setSlice_cells_self]
    · rw [setSlice_cells_of_ne here]
  · intro other visited
    rw [at_]
    exact .inl (.tail _ visited)
  have here : Progress config state { read with pc := .visiting span copied slices spans } := by
    refine ⟨⟨ready, total, covered⟩, sameLength, ?_⟩
    intro i byte found
    rcases filledNow i byte found with copiedNow | ⟨before, outside⟩
    · exact .inl copiedNow
    rcases filled i byte before with copiedBefore | ⟨other, listed, inside⟩
    · exact .inl copiedBefore
    · rcases mem_cons.mp listed with rfl | later
      · exact absurd inside outside
      · exact .inr ⟨other, later, inside⟩
  refine here.mono moves.sameShape ?_
  intro other held
  refine reading.known read member other (held.imp_right ?_)
  intro visited
  rw [at_]
  exact .tail _ visited

theorem unpin_reading {result : ReadResult}
    (at_ : read.pc = .unpinning result) : Reading config (state.unpin call read result) := by
  have progress := reading.progress read (mem_of_getElem? there)
  rw [Progress, at_] at progress
  rw [unpin]
  split
  · rename_i key pins pinned
    have moves : Moves call state ((state.setSlice key (state.cells key).unpin).setRead call
        { read with pins := pins }) { read with pins := pins } :=
      moves_setSlice _ .of_pins
    refine reading.move there moves (fun _ held _ => held) ?_ ?_ ?_ ?_ cache.below ?_ ?_
      id
    · intro other
      have sum : ((state.setSlice key (state.cells key).unpin).setRead call
          { read with pins := pins }).pinCount other + read.pins.count other =
          state.pinCount other + pins.count other :=
        Slots.sum_map_set there
      have before := reading.counted other
      rw [pinned, count_cons] at sum
      change _ ≤ ((state.setSlice key (state.cells key).unpin).cells other).refs
      by_cases here : other = key
      · rw [here, setSlice_cells_self]
        rw [here] at sum before
        rw [if_pos (beq_self_eq_true key)] at sum
        change _ ≤ (state.cells key).refs - 1
        omega
      · rw [setSlice_cells_of_ne here]
        omega
    · intro other held
      rw [pinned]
      exact .tail _ held
    · rw [at_]
      rintro ⟨⟩
    · rw [at_]
      rintro _ ⟨⟩
    · rw [Progress, at_]
      exact progress
    · rw [at_]
      rintro _ ⟨⟩
  · rename_i none_
    refine reading.setRead cache there ?_ rfl ?_ ?_ ?_ ?_
    · dsimp only
      split_ifs <;> rfl
    · intro _
      exact .inr none_
    · dsimp only
      split_ifs <;> rintro _ ⟨⟩
    · rw [Progress]
      split_ifs with panicked
      · rw [panicked] at progress
        exact progress
      · exact progress
    · dsimp only
      split_ifs <;> rintro _ ⟨⟩

theorem readStep_reading {action : ReadAction}
    (notPrepare : ∀ now, action = .prepare now -> read.pc.todo = [])
    (taken : state.readStep config call read action = some next) : Reading config next := by
  have progress := reading.progress read (mem_of_getElem? there)
  cases action <;> rw [readStep] at taken
  case clean now =>
    split at taken
    · rename_i at_
      cases taken
      exact clean_reading reading cache there at_
    · cases taken
  case backPressure ok =>
    split at taken
    swap
    · cases taken
    rename_i at_
    cases taken
    rw [Progress, at_] at progress
    have nothing : read.pins = [] :=
      reading.unpinned read (mem_of_getElem? there) (by rw [at_]; rfl)
    cases ok with
    | true =>
      exact reading.setRead cache there rfl rfl (fun _ => .inr nothing) (by rintro _ ⟨⟩)
        ⟨progress, [], rfl, by rintro _ ⟨⟩⟩ (by rintro _ ⟨⟩)
    | false =>
      exact reading.setRead cache there rfl rfl (by rintro ⟨⟩) (by rintro _ ⟨⟩) trivial
        (by rintro _ ⟨⟩)
  case prepare now =>
    have nothing := notPrepare now rfl
    split at taken
    iterate 2
      · rename_i span todo at_
        rw [at_] at nothing
        cases nothing
    swap
    · cases taken
    rename_i at_
    cases taken
    rw [Progress, at_] at progress
    have tiles := tiles_splitChunkSpans config.layout read.offset read.len
    refine reading.setRead cache there rfl rfl ?_ (by rintro _ ⟨⟩) ⟨?_, ?_, progress.2⟩
      (by rintro _ ⟨⟩)
    · rw [at_]
      exact fun _ => .inl rfl
    · dsimp only
      rw [progress.1]
      rintro _ ⟨⟩
    · dsimp only
      rw [progress.1, length_nil, zero_add]
      exact tiles.sum_len
  case checkSession usage now =>
    split at taken
    swap
    · cases taken
    rename_i at_
    cases taken
    rw [Progress, at_] at progress
    rcases progress with ⟨empty, done, split, covered⟩
    rw [append_nil] at split
    have moves : Moves call state
        ({ state with sessions :=
            (state.sessions.checkSession config usage read.offset read.len now).1 }.setRead call
          { read with pc := .ahead (aheadSpans config read
            (state.sessions.checkSession config usage read.offset read.len now).2) })
        { read with pc := .ahead (aheadSpans config read
          (state.sessions.checkSession config usage read.offset read.len now).2) } :=
      ⟨rfl, fun _ => .refl _, Sublist.refl _, rfl, rfl, rfl⟩
    refine reading.move there moves (fun _ held _ => held)
      (counted_of_same reading there moves rfl fun _ => rfl) (fun _ => id) ?_
      (by rintro _ ⟨⟩) cache.below ⟨empty, ?_⟩ (by rintro _ ⟨⟩) (by rintro ⟨⟩)
    · rw [at_]
      exact fun _ => .inl rfl
    · intro span member
      exact covered span (split ▸ member)
  case collect => exact collect_reading reading cache there taken
  case visit => exact visit_reading reading cache there taken
  case copy now =>
    split at taken
    · rename_i at_
      cases taken
      exact copy_reading reading cache there at_
    · cases taken
  case unpin =>
    split at taken
    · rename_i at_
      cases taken
      exact unpin_reading reading cache there at_
    · cases taken
  case cleanup =>
    split at taken
    swap
    · cases taken
    rename_i result at_
    cases taken
    rw [Progress, at_] at progress
    have moves : Moves call state (state.cleanupInvalid.setRead call
        { read with pc := .returned result }) { read with pc := .returned result } :=
      ⟨rfl, fun _ => .refl _, filter_sublist, rfl, rfl, rfl⟩
    refine reading.move there moves ?_ (counted_of_same reading there moves rfl fun _ => rfl)
      (fun _ => id) (by rintro ⟨⟩) (by rintro _ ⟨⟩) cache.below progress (by rintro _ ⟨⟩)
      (by rintro ⟨⟩)
    intro key held pinned
    exact cleanupInvalid_keeps held (pinned.trans_le (reading.counted key))

end

/-- Nobody holds a slice that does not exist. -/
theorem Reading.pinCount_eq_zero (unknown : ¬ key < state.nextKey) : state.pinCount key = 0 := by
  refine sum_eq_zero ?_
  intro count listed
  rcases mem_map.mp listed with ⟨read, member, rfl⟩
  exact count_eq_zero_of_not_mem fun held =>
    unknown (reading.known read member key (.inl held))

end

variable {pc : ReadPc}

/-- The slice that a call copies from is one it visits. -/
theorem ReadPc.mem_visits_of_copies (copies : pc.copies? = some key) : key ∈ pc.visits := by
  cases pc <;> cases copies
  exact .head _

theorem ReadPc.active_of_copies (copies : pc.copies? = some key) : pc.active = true := by
  cases pc <;> cases copies
  rfl

section

variable (reading : Reading config state)
include reading

/-- The read pins slices for its next span; no other read is affected. -/
theorem prepareSpan_reading (cache : Cache ino state)
    (there : state.reads[call]? = some read) (proper : 0 < span.len)
    (room : ∀ key ∈ state.slices,
      pins span.index span.offset (span.offset + span.len) (state.cells key) = true ->
      (state.cells key).refs < maxRefs)
    (at_ : read.pc = .preparing (span :: pc.todo) ∧ pc = .preparing pc.todo ∨
      read.pc = .ahead (span :: pc.todo) ∧ pc = .ahead pc.todo) :
    Reading config (state.prepareSpan call read span now pc) := by
  have prepared := prepareSlices_spec cache span.index now
    (show span.offset < span.offset + span.len by omega)
  unfold prepareSpan
  generalize state.prepareSlices span.index span.offset (span.offset + span.len) now = result
    at prepared
  rcases result with ⟨after, pinned⟩
  dsimp only at prepared ⊢
  have member := mem_of_getElem? there
  have wasActive : read.pc.active = true := by
    rcases at_ with ⟨here, _⟩ | ⟨here, _⟩ <;> rw [here] <;> rfl
  have noVisits : pc.visits = [] ∧ pc.copies? = none ∧ pc.early = false := by
    rcases at_ with ⟨_, here⟩ | ⟨_, here⟩ <;> rw [here] <;> exact ⟨rfl, rfl, rfl⟩
  have shape : SameShape state after := fun key below =>
    ⟨(prepared.old key below).index, (prepared.old key below).range⟩
  have grown : Covered after (read.pins ++ pinned) span := by
    intro i inside
    rcases prepared.covered (span.offset + i) (by omega) (by omega) with ⟨key, held, index, range⟩
    exact ⟨key, mem_append_right _ held, index, range⟩
  have stays : ∀ other, Covered state read.pins other ->
      Covered after (read.pins ++ pinned) other :=
    fun other covered => (covered.mono shape fun key held =>
      reading.known read member key (.inl held)).append
  refine .of_served ?counted fun other found => ?served
  case counted =>
    intro key
    have sum : (after.setRead call { read with pins := read.pins ++ pinned, pc := pc }).pinCount key +
        read.pins.count key = state.pinCount key + (read.pins ++ pinned).count key := by
      unfold pinCount setRead
      rw [prepared.reads]
      exact Slots.sum_map_set there
    have before := reading.counted key
    rw [count_append] at sum
    change _ ≤ (after.cells key).refs
    by_cases new : key ∈ pinned
    · have once := count_eq_one_of_mem prepared.nodup new
      by_cases old : key < state.nextKey
      · rw [prepared.refs key old, if_pos new]
        rcases prepared.pinsOld key new old with ⟨held, pins⟩
        have space := room key held pins
        omega
      · rw [prepared.newRefs key new old]
        have none_ := reading.pinCount_eq_zero old
        omega
    rw [count_eq_zero_of_not_mem new] at sum
    by_cases old : key < state.nextKey
    · rw [prepared.refs key old, if_neg new]
      omega
    · have none_ := reading.pinCount_eq_zero old
      omega
  case served =>
    change other ∈ after.reads.set _ _ at found
    rw [prepared.reads] at found
    rcases mem_or_eq_of_mem_set found with old | rfl
    · have served := reading.served old
      refine served.mono shape prepared.grows (fun _ key _ held => prepared.kept key held) ?_
      intro key copies ready
      have visited := ReadPc.mem_visits_of_copies copies
      exact (prepared.old key (served.known key (.inr visited))).state.trans ready
    have served := reading.served member
    refine ⟨?_, ?_, ?_, by rw [noVisits.2.1]; nofun, by rw [noVisits.2.2]; nofun⟩
    · exact fun _ => forall_mem_append.mpr ⟨fun key before =>
        prepared.kept key (served.pinned wasActive key before), prepared.held⟩
    · rintro key (held | visited)
      · rcases mem_append.mp held with before | new
        · exact lt_of_lt_of_le (served.known key (.inl before)) prepared.grows
        · exact prepared.cache.below key (prepared.held key new)
      · rw [noVisits.1] at visited
        cases visited
    have progress := served.progress
    rcases at_ with ⟨before, now_⟩ | ⟨before, now_⟩
    · rw [Progress, before] at progress
      rw [Progress, now_]
      rcases progress with ⟨empty, done, spans, covered⟩
      refine ⟨empty, done ++ [span], ?_, ?_⟩
      · rw [append_assoc]
        exact spans
      · exact forall_mem_append.mpr
          ⟨fun one old => stays one (covered one old), forall_mem_singleton.mpr grown⟩
    · rw [Progress, before] at progress
      rw [Progress, now_]
      exact ⟨progress.1, fun one listed => stays one (progress.2 one listed)⟩

/-! ## Steps of others -/

/-- Steps that move no read: pinned slices stay, and a slice that is about to be
copied stays ready. -/
theorem Reading.others (reads : next.reads = state.reads)
    (shape : SameShape state next) (grows : state.nextKey ≤ next.nextKey)
    (kept : ∀ read ∈ state.reads, read.pc.active = true -> ∀ key ∈ read.pins,
      key ∈ state.slices -> key ∈ next.slices)
    (refs : ∀ key, (next.cells key).refs = (state.cells key).refs)
    (ready : ∀ read ∈ state.reads, ∀ key, read.pc.copies? = some key ->
      (state.cells key).state = .ready -> (next.cells key).state = .ready) :
    Reading config next := by
  refine .of_served (fun key => ?_) fun read member => ?_
  · rw [pinCount, reads, refs key]
    exact reading.counted key
  · rw [reads] at member
    exact (reading.served member).mono shape grows (kept read member) (ready read member)

theorem invalidate_reading
    (free : ∀ read ∈ state.reads, ∀ key ∈ state.slices,
      read.pc.copies? = some key ->
      hits (splitChunkSpans config.layout offset len) (state.cells key) = false) :
    Reading config (state.invalidate config offset len) := by
  unfold invalidate
  split_ifs with empty
  · exact reading
  refine reading.others rfl ?_ le_rfl ?_ ?_ ?_
  · intro key _
    dsimp only
    split_ifs <;> exact ⟨rfl, rfl⟩
  · intro read member _ key held inQueue
    refine mem_filter.mpr ⟨inQueue, ?_⟩
    have pinned := lt_of_lt_of_le (pinCount_pos member held) (reading.counted key)
    simp only [Bool.or_eq_true, decide_eq_true_eq]
    right
    split_ifs
    · exact pinned
    · exact pinned
  · intro key
    dsimp only
    split_ifs <;> rfl
  intro read member key copies isReady
  dsimp only
  split_ifs with hit inQueue
  · rw [free read member key inQueue copies] at hit
    cases hit
  · exact isReady
  · exact isReady

/-- A task that has started does not change a ready slice: either its generation
is over, or the slice would be busy. -/
theorem fetches_reading {task : FetchTask} (fetches : Fetches ino task state next)
    (free : task.pc = .queued -> ∀ read ∈ state.reads,
      read.pc.copies? ≠ some task.key) : Reading config next := by
  refine reading.others fetches.reads ?_ fetches.nextKey.ge ?_ ?_ ?_
  · intro key _
    by_cases here : key = task.key
    · rw [here]
      exact ⟨fetches.index, fetches.range⟩
    · rw [fetches.others key here]
      exact ⟨rfl, rfl⟩
  · intro read _ _ key _ held
    rw [fetches.slices]
    exact held
  · intro key
    by_cases here : key = task.key
    · rw [here]
      exact fetches.refs
    · rw [fetches.others key here]
  intro read member key copies isReady
  by_cases here : key = task.key
  · subst here
    exact fetches.ready (fun queued => free queued read member copies) isReady
  · rw [fetches.others key here]
    exact isReady

/-! ## Whole runs -/

theorem beginRead_reading {fileSize : Nat} :
    Reading config (state.beginRead offset len fileSize) := by
  have start : ∃ read : ReadCall, state.beginRead offset len fileSize =
      { state with reads := state.reads ++ [read] } ∧ read.pins = [] ∧ read.pc.visits = [] ∧
        read.pc.copies? = none ∧ Progress config state read := by
    unfold beginRead
    split_ifs
    · exact ⟨_, rfl, rfl, rfl, rfl, nofun, rfl⟩
    · exact ⟨_, rfl, rfl, rfl, rfl, rfl⟩
  rcases start with ⟨read, same, noPins, noVisits, noCopy, progress⟩
  rw [same]
  refine .of_served (fun key => ?_) fun other member => ?_
  · have sum : FileReader.pinCount { state with reads := state.reads ++ [read] } key =
        state.pinCount key := by
      simp [pinCount, noPins]
    rw [sum]
    exact reading.counted key
  have shape : SameShape state { state with reads := state.reads ++ [read] } :=
    fun _ _ => ⟨rfl, rfl⟩
  rcases mem_append.mp member with old | new
  · exact (reading.served old).mono shape le_rfl (fun _ _ _ => id) fun _ _ => id
  cases mem_singleton.mp new
  have nothing : ∀ key, key ∈ read.pins ∨ key ∈ read.pc.visits -> key < state.nextKey := by
    rw [noPins, noVisits]
    rintro key (held | held) <;> cases held
  exact ⟨by rw [noPins]; nofun, nothing, progress.mono shape nothing,
    by rw [noCopy]; nofun, fun _ => noPins⟩

end

theorem step_reading {action : Action} (steady : Steady ino state)
    (reading : Reading config state) (met : Undisturbed config state action)
    (taken : state.step config ino action = some next) : Reading config next := by
  have cache := steady.cache
  cases action with
  | publish | putBlock =>
    cases taken
    exact reading.others rfl (fun _ _ => ⟨rfl, rfl⟩) le_rfl (fun _ _ _ _ _ => id)
      (fun _ => rfl) fun _ _ _ _ => id
  | beginRead offset len fileSize =>
    cases taken
    exact beginRead_reading reading
  | read call action =>
    rcases Option.bind_eq_some_iff.mp taken with ⟨read, there, stepped⟩
    by_cases prepares : ∃ now, action = .prepare now ∧ read.pc.todo ≠ []
    · rcases prepares with ⟨now, rfl, some_⟩
      have nonempty := steady.spans read (mem_of_getElem? there)
      have room : ∀ span, read.pc.todo.head? = some span -> ∀ key ∈ state.slices,
          pins span.index span.offset (span.offset + span.len) (state.cells key) = true ->
          (state.cells key).refs < maxRefs := by
        intro span first
        simp only [Undisturbed, there, Option.bind_some, first] at met
        exact met
      rw [readStep] at stepped
      split at stepped
      · rename_i span todo at_
        cases stepped
        rw [at_] at nonempty room
        exact prepareSpan_reading reading cache there (nonempty span (.head _)) (room span rfl)
          (.inl ⟨at_, rfl⟩)
      · rename_i span todo at_
        cases stepped
        rw [at_] at nonempty room
        exact prepareSpan_reading reading cache there (nonempty span (.head _)) (room span rfl)
          (.inr ⟨at_, rfl⟩)
      · rename_i at_
        rw [at_] at some_
        exact absurd rfl some_
      · cases stepped
    · refine readStep_reading reading cache there ?_ stepped
      intro now same
      by_contra some_
      exact prepares ⟨now, same, some_⟩
  | invalidate offset len =>
    cases taken
    exact invalidate_reading reading met
  | invalidateAll =>
    cases taken
    refine reading.others rfl ?_ le_rfl ?_ ?_ ?_
    · intro key _
      dsimp only [invalidateAll]
      split_ifs <;> exact ⟨rfl, rfl⟩
    · intro read member isActive
      rw [met read member] at isActive
      cases isActive
    · intro key
      dsimp only [invalidateAll]
      split_ifs <;> rfl
    · intro read member key copies
      cases (met read member).symm.trans (ReadPc.active_of_copies copies)
  | fetch index =>
    rcases Option.bind_eq_some_iff.mp taken with ⟨task, there, stepped⟩
    refine fetches_reading reading (fetch_fetches cache there stepped) fun queued => ?_
    have whole : task = ⟨task.key, .queued⟩ := by
      rw [← queued]
    rw [Undisturbed, there, whole] at met
    exact met
  | failFetch index message =>
    rcases Option.bind_eq_some_iff.mp taken with ⟨task, there, stepped⟩
    refine fetches_reading reading (failFetch_fetches cache there stepped) fun queued => ?_
    rw [failFetch, queued] at stepped
    cases stepped

theorem servesFetched_of_reading (steady : Steady ino state)
    (reading : Reading config state) : state.ServesFetched where
  separate := steady.cache.separate
  fresh key held isReady := steady.cache.fresh key isReady held
  served read member n returned := by
    have progress := reading.progress read member
    rw [Progress, returned] at progress
    exact ⟨progress.2, progress.1⟩
  inBounds read member panicked := by
    have progress := reading.progress read member
    unfold Progress at progress
    cases at_ : read.pc with
    | unpinning result | cleanup result | returned result =>
      rw [at_] at panicked progress
      cases panicked
      exact progress
    | cleaning | pressing | preparing _ | ahead _ | collecting _ | visiting _ _ _ _
    | copying _ _ _ _ _ =>
      rw [at_] at panicked
      cases panicked

/-- In every run that leaves its reads undisturbed, valid slices do not overlap,
ready slices are newer than the last invalidation of their range, and reads
return bytes of ready slices only. -/
theorem servesFetched_of_undisturbed {chunkSlices : Nat -> List SliceDesc} {store : BlockStore}
    {actions : List Action} {final : FileReader}
    (run : Run (step config ino) (Undisturbed config) (initial chunkSlices store) actions
      final) : final.ServesFetched := by
  have both := run.invariant (fun state => Steady ino state ∧ Reading config state)
    ⟨initial_steady chunkSlices store, .of_served (fun _ => le_refl 0) nofun⟩
    fun _ _ _ inv met taken => ⟨step_steady inv.1 taken, step_reading inv.1 inv.2 met taken⟩
  exact servesFetched_of_reading both.1 both.2

/-- Chunks of 8 bytes and blocks of 4, without reading ahead. -/
private def smallReader : ReadConfig := ⟨.ofBlocks 1 3, 0, 0⟩

/-- A reader of a file whose first block is stored. -/
private def oneBlock : FileReader :=
  initial (fun _ => [⟨1, 1000000000, 0, 4⟩])
    fun key => if key = (1, 0) then some [5, 6, 7, 8] else none

private def startRead : List Action :=
  .beginRead 0 4 4 :: [.clean 0, .backPressure true, .prepare 0, .checkSession 0 0, .prepare 0].map
    (.read 0)

private def finishRead : List Action := [.collect, .unpin, .unpin, .cleanup].map (.read 0)

/-- A read of the block, during which another range is invalidated. -/
private def readBlock : List Action :=
  startRead ++ List.replicate 4 (.fetch 0) ++ [.read 0 .collect, .invalidate 8 4] ++
    [.visit, .copy 0, .visit].map (.read 0) ++ finishRead

theorem servesFetched_readBlock :
    Exists fun state =>
      Run (step smallReader 1) (Undisturbed smallReader) oneBlock readBlock state ∧
      (state.reads.map fun read => (read.pc, read.out.map ReadByte.value)) =
        [(.returned (.ok 4), [5, 6, 7, 8])] ∧
      state.ServesFetched := by
  refine exists_run_of (fun state =>
    (state.reads.map fun read => (read.pc, read.out.map ReadByte.value)) =
      [(.returned (.ok 4), [5, 6, 7, 8])]) (by decide +kernel) fun _ run facts => ?_
  exact ⟨facts, servesFetched_of_undisturbed run⟩

/-- The queue is emptied between the preparation and the collection. -/
private def invalidateUnderRead : List Action :=
  startRead ++ [.invalidateAll, .read 0 .collect, .read 0 .visit] ++ finishRead

/-- The read returns `Ok(4)` with four bytes that were never copied. -/
theorem readAt_returns_unfetched_bytes :
    Exists fun state =>
      Run (step smallReader 1) anyStep oneBlock invalidateUnderRead state ∧
      (state.reads.map fun read => (read.pc, read.out)) =
        [(.returned (.ok 4), List.replicate 4 ⟨0, none⟩)] ∧
      ¬ state.ServesFetched := by
  refine exists_run_of (fun state => (state.reads.map fun read => (read.pc, read.out)) =
    [(.returned (.ok 4), List.replicate 4 ⟨0, none⟩)]) (by decide +kernel) fun state run facts => ?_
  refine ⟨facts, fun serves => ?_⟩
  rcases map_eq_singleton_iff.mp facts with ⟨read, only, pair⟩
  rcases Prod.mk.inj pair with ⟨returned, out⟩
  have copied := (serves.served read (only ▸ .head _) 4 returned).2 ⟨0, none⟩ (out ▸ .head _)
  cases copied

end FileReader

end Rk8s.Slayerfs
