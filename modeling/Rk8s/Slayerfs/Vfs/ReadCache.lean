import Rk8s.Slayerfs.Vfs.FileReader

namespace Rk8s.Slayerfs

open Intervals Slots Function List Sublist

/-!
# What the read cache serves

Two facts hold whatever the order of the steps.  The cached slices of a chunk
that are not invalid do not overlap, and the page of a ready slice was fetched
after the last invalidation of its range.  Both rest on the generation counter:
of all fetch tasks of a slice at most one has the current generation, and while
there is one the slice is busy.  `Cache` is this invariant.

That a read returns only bytes of ready slices needs more.  Its slices have to
stay in the queue between the preparation and the copies, which the pins ensure
except against `invalidate_all` and an overflow of the reference count, and a
slice has to stay ready from the wait to the copy, which nothing ensures.
-/

namespace FetchPc

/-- The generation under which a task works, once it has started. -/
def generation? : FetchPc -> Option Nat
  | .started generation | .prepared generation _ _ | .fetched generation _ _ => some generation
  | .queued | .finished => none

/-- When the task has read the metadata, if it has. -/
def readAt? : FetchPc -> Option Nat
  | .prepared _ readAt _ | .fetched _ readAt _ => some readAt
  | .started _ | .queued | .finished => none

/-- The page that the task will install. -/
def page? : FetchPc -> Option Bytes
  | .fetched _ _ (.ok page) => some page
  | _ => none

end FetchPc

namespace ReadPc

/-- The spans that a call has still to prepare. -/
def todo : ReadPc -> List (Span .chunk)
  | .preparing todo | .ahead todo => todo
  | _ => []

end ReadPc

namespace ReadSlice

/-- Only the pins, the access time and the error text may differ. -/
structure SameData (slice other : ReadSlice) : Prop where
  index : other.index = slice.index
  range : other.range = slice.range
  page : other.page = slice.page
  state : other.state = slice.state
  generation : other.generation = slice.generation
  invalidatedAt : other.invalidatedAt = slice.invalidatedAt
  readAt : other.readAt = slice.readAt

theorem SameData.refl (slice : ReadSlice) : slice.SameData slice := by constructor <;> rfl

theorem SameData.of_pins {slice : ReadSlice} {refs lastAccess : Nat} :
    slice.SameData { slice with refs := refs, lastAccess := lastAccess } :=
  ⟨rfl, rfl, rfl, rfl, rfl, rfl, rfl⟩

/-- The chunk of the slice has an id. -/
def Named (ino : Int) (slice : ReadSlice) : Prop :=
  Exists fun chunkId => chunkIdFor ino slice.index = .ok chunkId

/-- Two slices of one chunk that are both valid have no position in common. -/
def Apart (slice other : ReadSlice) : Prop :=
  slice.state ≠ .invalid -> other.state ≠ .invalid -> slice.index = other.index ->
    Separate slice.range other.range

end ReadSlice

namespace FileReader

/-- What the tasks know about their slices. -/
structure TaskFits (ino : Int) (state : FileReader) (task : FetchTask) : Prop where
  below : task.key < state.nextKey
  past : forall generation, task.pc.generation? = some generation ->
    generation ≤ (state.cells task.key).generation
  busy : (state.cells task.key).Named ino ->
    task.pc.generation? = some (state.cells task.key).generation ->
    (state.cells task.key).state = .busy
  named : forall readAt, task.pc.readAt? = some readAt -> (state.cells task.key).Named ino
  current : forall readAt, task.pc.readAt? = some readAt ->
    task.pc.generation? = some (state.cells task.key).generation -> task.key ∈ state.slices ->
    (state.cells task.key).invalidatedAt ≤ readAt
  sized : forall page, task.pc.page? = some page ->
    page.length = (state.cells task.key).range.2 - (state.cells task.key).range.1

/-- The invariant of the cache. -/
structure Cache (ino : Int) (state : FileReader) : Prop where
  nodup : state.slices.Nodup
  below : forall key, key ∈ state.slices -> key < state.nextKey
  separate : state.slices.Pairwise fun first second =>
    (state.cells first).Apart (state.cells second)
  proper : forall key, (state.cells key).range.1 ≤ (state.cells key).range.2
  stamped : forall key, (state.cells key).invalidatedAt ≤ state.invalidations
  sized : forall key, (state.cells key).state = .ready ->
    (state.cells key).page.length = (state.cells key).range.2 - (state.cells key).range.1
  fresh : forall key, (state.cells key).state = .ready -> key ∈ state.slices ->
    (state.cells key).invalidatedAt ≤ (state.cells key).readAt
  named : forall key, (state.cells key).state = .ready -> (state.cells key).Named ino
  fits : forall (index : Nat) (task : FetchTask), state.tasks[index]? = some task ->
    state.TaskFits ino task
  alone : forall (first second : Nat) (task other : FetchTask), state.tasks[first]? = some task ->
    state.tasks[second]? = some other -> task.key = other.key ->
    (state.cells task.key).Named ino ->
    task.pc.generation? = some (state.cells task.key).generation ->
    other.pc.generation? = some (state.cells task.key).generation -> first = second

variable {config : ReadConfig} {ino : Int} {state next : FileReader}

/-! ## Fetch tasks -/

@[simp] theorem setSlice_cells_self (state : FileReader) (key : Nat) (slice : ReadSlice) :
    (state.setSlice key slice).cells key = slice :=
  update_self ..

variable {key : Nat} {slice : ReadSlice}

theorem setSlice_cells_of_ne {other : Nat} (different : other ≠ key) :
    (state.setSlice key slice).cells other = state.cells other :=
  update_of_ne different ..

variable {task : FetchTask} {pc : FetchPc}

/-- A task that has not started, or is over, knows nothing. -/
theorem TaskFits.idle (fits : state.TaskFits ino task)
    (generation : pc.generation? = none) (readAt : pc.readAt? = none) (page : pc.page? = none) :
    state.TaskFits ino { task with pc := pc } where
  below := fits.below
  past _ known := by cases generation.symm.trans known
  busy _ known := by cases generation.symm.trans known
  named _ known := by cases readAt.symm.trans known
  current _ known := by cases readAt.symm.trans known
  sized _ known := by cases page.symm.trans known

variable {index : Nat}

/-- The task works on the slice under its current generation. -/
private def Works (ino : Int) (state : FileReader) (key : Nat) (task : FetchTask) : Prop :=
  task.key = key ∧ (state.cells key).Named ino ∧
    task.pc.generation? = some (state.cells key).generation

theorem Cache.works_alone {first second : Nat} {other : FetchTask}
    (cache : Cache ino state) (here : state.tasks[first]? = some task)
    (there : state.tasks[second]? = some other) (works : Works ino state key task)
    (otherWorks : Works ino state key other) : first = second := by
  rcases works with ⟨rfl, named, current⟩
  exact cache.alone first second task other here there otherWorks.1.symm named current
    otherWorks.2.2

/-- A task moves on.  If it works under the current generation afterwards, no
other task of the slice does. -/
theorem Cache.setFetch (cache : Cache ino state) (there : state.tasks[index]? = some task)
    (fits : state.TaskFits ino { task with pc := pc })
    (alone : ∀ (other : Nat) (second : FetchTask), other ≠ index ->
      state.tasks[other]? = some second -> Works ino state task.key { task with pc := pc } ->
      ¬ Works ino state task.key second) :
    Cache ino (state.setFetch index task pc) :=
  { cache with
    fits := by
      intro other second here
      rcases getElem?_set_eq_some_iff.mp here with ⟨rfl, _, rfl⟩ | ⟨_, old⟩
      · exact { fits with }
      · exact { cache.fits other second old with }
    alone := by
      intro first second one other here otherHere same named current otherCurrent
      rcases getElem?_set_eq_some_iff.mp here with ⟨rfl, _, rfl⟩ | ⟨different, old⟩ <;>
        rcases getElem?_set_eq_some_iff.mp otherHere with ⟨rfl, _, rfl⟩ | ⟨otherDifferent, otherOld⟩
      · rfl
      · exact absurd ⟨same.symm, named, otherCurrent⟩
          (alone second other otherDifferent otherOld ⟨rfl, named, current⟩)
      · have key : one.key = task.key := same
        exact absurd ⟨key, key ▸ named, key ▸ current⟩
          (alone first one different old ⟨rfl, key ▸ named, key ▸ otherCurrent⟩)
      · exact cache.alone first second one other old otherOld same named current otherCurrent }

/-- What may happen to a slice.  A new generation begins, and the slice is not ready,
or no task works on it under the current generation, or it is busy afterwards. -/
private structure Changed (ino : Int) (state next : FileReader) (key : Nat) : Prop where
  index : (next.cells key).index = (state.cells key).index
  range : (next.cells key).range = (state.cells key).range
  valid : (next.cells key).state ≠ .invalid -> (state.cells key).state ≠ .invalid
  ready : (next.cells key).state = .ready ->
    (next.cells key).page.length = (next.cells key).range.2 - (next.cells key).range.1 ∧
      (key ∈ state.slices -> (next.cells key).invalidatedAt ≤ (next.cells key).readAt) ∧
      (next.cells key).Named ino
  generation : (next.cells key).generation = (state.cells key).generation + 1 ∨
    (next.cells key).generation = (state.cells key).generation ∧
      (key ∈ state.slices -> (next.cells key).invalidatedAt = (state.cells key).invalidatedAt) ∧
      forall (position : Nat) (task : FetchTask), state.tasks[position]? = some task ->
        Works ino state key task -> (next.cells key).state = .busy

/-- A task of the current generation has not been overtaken. -/
theorem Changed.current (changed : Changed ino state next task.key) (fits : state.TaskFits ino task)
    (current : task.pc.generation? = some (next.cells task.key).generation) :
    task.pc.generation? = some (state.cells task.key).generation ∧
      (task.key ∈ state.slices ->
        (next.cells task.key).invalidatedAt = (state.cells task.key).invalidatedAt) ∧
      ∀ (position : Nat) (other : FetchTask), state.tasks[position]? = some other ->
        Works ino state task.key other -> (next.cells task.key).state = .busy := by
  rcases changed.generation with generation | ⟨generation, rest⟩
  · have past := fits.past _ current
    omega
  · exact ⟨generation ▸ current, rest⟩

theorem Cache.change (refetched : List Nat) (cache : Cache ino state)
    (changed : ∀ key, Changed ino state next key)
    (stamped : ∀ key, (next.cells key).invalidatedAt ≤ next.invalidations)
    (slices : next.slices.Sublist state.slices) (nextKey : next.nextKey = state.nextKey)
    (tasks : next.tasks = state.tasks ++ refetched.map fun key => ⟨key, .queued⟩)
    (queued : ∀ key ∈ refetched, key ∈ state.slices) : Cache ino next := by
  have named : ∀ key, (next.cells key).Named ino ↔ (state.cells key).Named ino := by
    intro key
    rw [ReadSlice.Named, ReadSlice.Named, (changed key).index]
  -- a task is an old one, or one of the new ones, which have not started
  have found : ∀ (position : Nat) (task : FetchTask), next.tasks[position]? = some task ->
      state.tasks[position]? = some task ∨ task.pc = .queued ∧ task.key ∈ state.slices := by
    intro position task there
    rw [tasks] at there
    by_cases old : position < state.tasks.length
    · rw [getElem?_append_left old] at there
      exact .inl there
    · rw [getElem?_append_right (Nat.le_of_not_lt old)] at there
      rcases mem_map.mp (mem_of_getElem? there) with ⟨key, member, rfl⟩
      exact .inr ⟨rfl, queued key member⟩
  refine
    { nodup := cache.nodup.sublist slices
      below := fun key member => nextKey ▸ cache.below key (slices.subset member)
      separate := ?separate
      proper := fun key => (changed key).range ▸ cache.proper key
      stamped := stamped
      sized := fun key ready => ((changed key).ready ready).1
      fresh := fun key ready member => ((changed key).ready ready).2.1 (slices.subset member)
      named := fun key ready => ((changed key).ready ready).2.2
      fits := ?fits
      alone := ?alone }
  case separate =>
    refine (cache.separate.sublist slices).imp ?_
    intro first second apart live otherLive same
    rw [(changed first).range, (changed second).range]
    rw [(changed first).index, (changed second).index] at same
    exact apart ((changed first).valid live) ((changed second).valid otherLive) same
  case fits =>
    intro position task there
    rcases found position task there with old | ⟨notStarted, member⟩
    · have fits := cache.fits position task old
      refine ⟨nextKey ▸ fits.below, ?_, ?_, ?_, ?_, ?_⟩
      · intro generation known
        have past := fits.past generation known
        rcases (changed task.key).generation with later | ⟨same, _⟩ <;> omega
      · intro isNamed current
        rcases (changed task.key).current fits current with ⟨wasCurrent, _, busy⟩
        exact busy position task old ⟨rfl, (named task.key).mp isNamed, wasCurrent⟩
      · intro time known
        exact (named task.key).mpr (fits.named time known)
      · intro time known current member
        rcases (changed task.key).current fits current with ⟨wasCurrent, stamp, _⟩
        have held := slices.subset member
        rw [stamp held]
        exact fits.current time known wasCurrent held
      · rw [(changed task.key).range]
        exact fits.sized
    · refine ⟨nextKey ▸ cache.below task.key member, ?_, ?_, ?_, ?_, ?_⟩
      all_goals
        rw [notStarted]
        nofun
  case alone =>
    intro first second task other here there same isNamed current otherCurrent
    rcases found first task here with old | ⟨notStarted, _⟩
    · rcases found second other there with otherOld | ⟨notStarted, _⟩
      · have wasCurrent := ((changed task.key).current (cache.fits first task old) current).1
        have otherWas := ((changed other.key).current (cache.fits second other otherOld)
          (same ▸ otherCurrent)).1
        exact cache.alone first second task other old otherOld same ((named task.key).mp isNamed)
          wasCurrent (same ▸ otherWas)
      · rw [notStarted] at otherCurrent
        cases otherCurrent
    · rw [notStarted] at current
      cases current

/-- Fetching moves no read, drops no slice and leaves ranges and pins alone.  Only a
task that begins may take a ready slice. -/
structure Fetches (ino : Int) (task : FetchTask) (state next : FileReader) : Prop where
  cache : Cache ino next
  reads : next.reads = state.reads
  slices : next.slices = state.slices
  nextKey : next.nextKey = state.nextKey
  others : forall key, key ≠ task.key -> next.cells key = state.cells key
  index : (next.cells task.key).index = (state.cells task.key).index
  range : (next.cells task.key).range = (state.cells task.key).range
  refs : (next.cells task.key).refs = (state.cells task.key).refs
  ready : task.pc ≠ .queued -> (state.cells task.key).state = .ready ->
    (next.cells task.key).state = .ready

theorem fetches_setFetch (cache : Cache ino (state.setFetch index task pc)) :
    Fetches ino task state (state.setFetch index task pc) :=
  ⟨cache, rfl, rfl, rfl, fun _ _ => rfl, rfl, rfl, rfl, fun _ => id⟩

theorem fetches_setSlice
    (cache : Cache ino ((state.setSlice task.key slice).setFetch index task pc))
    (sameIndex : slice.index = (state.cells task.key).index)
    (range : slice.range = (state.cells task.key).range)
    (refs : slice.refs = (state.cells task.key).refs)
    (notReady : task.pc ≠ .queued -> (state.cells task.key).state ≠ .ready) :
    Fetches ino task state ((state.setSlice task.key slice).setFetch index task pc) := by
  have here : ((state.setSlice task.key slice).setFetch index task pc).cells task.key = slice :=
    setSlice_cells_self ..
  refine ⟨cache, rfl, rfl, rfl, fun _ different => setSlice_cells_of_ne different, ?_, ?_, ?_,
    fun started isReady => absurd isReady (notReady started)⟩
  · rw [here, sameIndex]
  · rw [here, range]
  · rw [here, refs]

section

variable (cache : Cache ino state)
include cache

/-- A slice of which only the pins and the access time change, and the stamp if it is
not in the queue. -/
theorem Cache.unchanged
    (same : ({ state.cells key with
      invalidatedAt := (next.cells key).invalidatedAt } : ReadSlice).SameData (next.cells key))
    (stamp : key ∈ state.slices ->
      (next.cells key).invalidatedAt = (state.cells key).invalidatedAt) :
    Changed ino state next key where
  index := same.index
  range := same.range
  valid := same.state ▸ id
  ready := by
    rw [same.state, same.page, same.range, same.readAt, ReadSlice.Named, same.index]
    exact fun ready => ⟨cache.sized key ready,
      fun held => stamp held ▸ cache.fresh key ready held, cache.named key ready⟩
  generation := by
    refine .inr ⟨same.generation, stamp, ?_⟩
    rintro position task there ⟨rfl, named, current⟩
    exact same.state.trans ((cache.fits position task there).busy named current)

/-- A slice changes while no task works on it under the current generation, or
it is busy afterwards. -/
theorem Cache.setSlice (index : slice.index = (state.cells key).index)
    (range : slice.range = (state.cells key).range)
    (generation : slice.generation = (state.cells key).generation)
    (stamp : slice.invalidatedAt = (state.cells key).invalidatedAt)
    (valid : slice.state ≠ .invalid -> (state.cells key).state ≠ .invalid)
    (ready : slice.state = .ready -> slice.page.length = slice.range.2 - slice.range.1 ∧
      (key ∈ state.slices -> slice.invalidatedAt ≤ slice.readAt) ∧ slice.Named ino)
    (quiet : ∀ (other : Nat) (task : FetchTask), state.tasks[other]? = some task ->
      Works ino state key task -> slice.state = .busy) :
    Cache ino (state.setSlice key slice) := by
  have here := setSlice_cells_self state key slice
  refine cache.change [] (fun other => ?_) (fun other => ?_) (refl _) rfl
    (append_nil _).symm nofun
  · by_cases same : other = key
    · subst same
      constructor <;> rw [here]
      · exact index
      · exact range
      · exact valid
      · exact ready
      · exact .inr ⟨generation, fun _ => stamp, quiet⟩
    · refine cache.unchanged ?_ fun _ => ?_ <;> rw [setSlice_cells_of_ne same]
      exact .refl _
  · by_cases same : other = key
    · rw [same, here, stamp]
      exact cache.stamped key
    · rw [setSlice_cells_of_ne same]
      exact cache.stamped other

/-! ## Invalidation -/

/-- Steps that touch only the pins, drop slices from the queue or move the reads. -/
theorem Cache.touch (cells : ∀ key, (state.cells key).SameData (next.cells key))
    (slices : next.slices.Sublist state.slices) (nextKey : next.nextKey = state.nextKey)
    (tasks : next.tasks = state.tasks) (count : next.invalidations = state.invalidations) :
    Cache ino next := by
  refine cache.change [] (fun key => cache.unchanged { cells key with invalidatedAt := rfl }
    fun _ => (cells key).invalidatedAt) (fun key => ?_) slices nextKey
    (tasks.trans (append_nil _).symm) nofun
  rw [(cells key).invalidatedAt, count]
  exact cache.stamped key

theorem invalidate_cache {offset len : Nat} :
    Cache ino (state.invalidate config offset len) := by
  unfold invalidate
  split_ifs with empty
  · exact cache
  refine cache.change _ (fun key => ?_) (fun key => ?_) filter_sublist rfl rfl ?_
  · by_cases hit : hits (splitChunkSpans config.layout offset len) (state.cells key)
    swap
    · refine cache.unchanged ?_ fun _ => ?_ <;> simp only [if_neg hit]
      exact .refl _
    by_cases member : key ∈ state.slices
    · constructor <;> dsimp only <;> rw [if_pos hit, if_pos member]
      · rfl
      · rfl
      all_goals
        dsimp only [invalidateSlice]
        cases (state.cells key).state <;> (try split_ifs) <;> simp
    · refine cache.unchanged ?_ fun held => absurd held member
      simp only [if_pos hit, if_neg member]
      exact .refl _
  · dsimp only
    split_ifs
    · exact le_rfl
    · exact le_rfl
    · exact Nat.le_succ_of_le (cache.stamped key)
  · intro key member
    exact (mem_filter.mp member).1

theorem invalidateAll_cache : Cache ino state.invalidateAll := by
  unfold invalidateAll
  refine cache.change [] (fun key => ?_) (fun key => ?_) (nil_sublist _) rfl
    (append_nil _).symm nofun
  · by_cases member : key ∈ state.slices
    · constructor <;> simp [member]
    · refine cache.unchanged ?_ fun _ => ?_ <;> simp only [if_neg member]
      exact .refl _
  · dsimp only
    split_ifs <;> exact cache.stamped key

/-! ## Fetching -/

variable (there : state.tasks[index]? = some task)
include there

theorem Cache.finishFetch : Cache ino (state.setFetch index task .finished) :=
  cache.setFetch there ((cache.fits index task there).idle rfl rfl rfl) fun _ _ _ _ works =>
    nomatch works.2.2

/-- The task goes on under its generation, with what it reads now or has read. -/
theorem Cache.continueFetch (generation : pc.generation? = task.pc.generation?)
    (named : (state.cells task.key).Named ino)
    (readAt : pc.readAt? = some state.invalidations ∨ pc.readAt? = task.pc.readAt?)
    (sized : ∀ page, pc.page? = some page ->
      page.length = (state.cells task.key).range.2 - (state.cells task.key).range.1) :
    Fetches ino task state (state.setFetch index task pc) := by
  have fits := cache.fits index task there
  refine fetches_setFetch
    (cache.setFetch there ⟨fits.below, ?_, ?_, fun _ _ => named, ?_, sized⟩ ?_)
  · rw [generation]
    exact fits.past
  · rw [generation]
    exact fits.busy
  · rcases readAt with now | before
    · rw [now]
      rintro _ ⟨⟩ _ _
      exact cache.stamped task.key
    · rw [before, generation]
      exact fits.current
  · intro other second different otherThere mine its
    exact different (cache.works_alone otherThere there its ⟨rfl, named, generation ▸ mine.2.2⟩)

/-- A task takes a slice that nobody is fetching. -/
theorem Cache.startFetch
    (free : ¬ ((state.cells task.key).state = .busy ∨ (state.cells task.key).state = .invalid)) :
    Cache ino ((state.setSlice task.key { state.cells task.key with state := .busy }).setFetch index
      task (.started (state.cells task.key).generation)) := by
  have taken : Cache ino (state.setSlice task.key { state.cells task.key with state := .busy }) :=
    cache.setSlice rfl rfl rfl rfl (fun _ => fun invalid => free (.inr invalid)) nofun
      fun _ _ _ _ => rfl
  refine taken.setFetch there ⟨(cache.fits index task there).below, ?_, ?_, nofun, nofun, nofun⟩ ?_
  · rintro generation ⟨⟩
    rw [setSlice_cells_self]
  · intro _ _
    rw [setSlice_cells_self]
  · rintro other second _ otherThere _ ⟨same, named, current⟩
    rw [setSlice_cells_self] at named current
    have busy := (cache.fits other second otherThere).busy (same ▸ named) (same ▸ current)
    exact free (.inl (same ▸ busy))

/-- A task that was not overtaken by an invalidation puts its result into the slice. -/
theorem Cache.completeFetch {generation readAt : Nat} {result : Except String Bytes}
    (at_ : task.pc = .fetched generation readAt result)
    (current : (state.cells task.key).generation = generation) :
    Fetches ino task state ((state.setSlice task.key
      ((state.cells task.key).install readAt result)).setFetch index task .finished) := by
  have fits := cache.fits index task there
  have named := fits.named readAt (by rw [at_]; rfl)
  have mine : task.pc.generation? = some (state.cells task.key).generation := by
    rw [at_, current]
    rfl
  have busy := fits.busy named mine
  have quiet : ∀ (other : Nat) (second : FetchTask),
      (state.setFetch index task .finished).tasks[other]? = some second ->
      Works ino state task.key second ->
      ((state.cells task.key).install readAt result).state = .busy := by
    intro other second here its
    rcases getElem?_set_eq_some_iff.mp here with ⟨rfl, _, rfl⟩ | ⟨different, old⟩
    · cases its.2.2
    · exact absurd (cache.works_alone old there its ⟨rfl, named, mine⟩) different
  have notReady : task.pc ≠ .queued -> (state.cells task.key).state ≠ .ready := by
    rw [busy]
    nofun
  cases result with
  | ok out =>
    refine fetches_setSlice ((cache.finishFetch there).setSlice rfl rfl rfl rfl ?_ ?_ quiet) rfl rfl
      rfl notReady
    · intro _ invalid
      cases busy.symm.trans invalid
    · intro _
      refine ⟨fits.sized out (by rw [at_]; rfl), ?_, named⟩
      exact fits.current readAt (by rw [at_]; rfl) mine
  | error message =>
    exact fetches_setSlice ((cache.finishFetch there).setSlice rfl rfl rfl rfl
      (fun live => absurd rfl live) nofun quiet) rfl rfl rfl notReady

theorem fetch_fetches (taken : state.fetch config ino index task = some next) :
    Fetches ino task state next := by
  have fits := cache.fits index task there
  rw [fetch] at taken
  cases at_ : task.pc with
  | queued =>
    rw [at_] at taken
    split_ifs at taken with occupied
    · cases taken
      exact fetches_setFetch (cache.finishFetch there)
    · cases taken
      exact fetches_setSlice (cache.startFetch there occupied) rfl rfl rfl
        fun started => absurd at_ started
  | started generation =>
    rw [at_] at taken
    cases id : chunkIdFor ino (state.cells task.key).index with
    | error error =>
      rw [id] at taken
      cases taken
      -- no slice of this chunk was ever fetched
      have unnamed : ¬ (state.cells task.key).Named ino := by
        rintro ⟨chunkId, known⟩
        cases id.symm.trans known
      refine fetches_setSlice ((cache.finishFetch there).setSlice rfl rfl rfl rfl
        (fun live => absurd rfl live) nofun ?_) rfl rfl rfl
        fun _ isReady => unnamed (cache.named task.key isReady)
      exact fun _ _ _ works => absurd works.2.1 unnamed
    | ok chunkId =>
      rw [id] at taken
      cases taken
      exact cache.continueFetch there (by rw [at_]; rfl) ⟨chunkId, id⟩ (.inl rfl) nofun
  | prepared generation readAt slices =>
    rw [at_] at taken
    cases taken
    refine cache.continueFetch there (by rw [at_]; rfl) (fits.named readAt (by rw [at_]; rfl))
      (.inr (by rw [at_]; rfl)) ?_
    intro page known
    rw [DataFetcher.readAt_eq _ _ rfl] at known
    cases known
    rw [length_map, length_range]
  | fetched generation readAt result =>
    rw [at_] at taken
    dsimp only at taken
    split_ifs at taken with stale
    · cases taken
      exact fetches_setFetch (cache.finishFetch there)
    · cases taken
      exact cache.completeFetch there at_ (not_not.mp stale)
  | finished =>
    rw [at_] at taken
    cases taken

theorem failFetch_fetches {message : String}
    (taken : state.failFetch ino index task message = some next) :
    Fetches ino task state next := by
  have fits := cache.fits index task there
  rw [failFetch] at taken
  cases at_ : task.pc with
  | started generation =>
    rw [at_] at taken
    cases id : chunkIdFor ino (state.cells task.key).index with
    | error error =>
      rw [id] at taken
      cases taken
    | ok chunkId =>
      rw [id] at taken
      cases taken
      exact cache.continueFetch there (by rw [at_]; rfl) ⟨chunkId, id⟩ (.inl rfl) nofun
  | prepared generation readAt slices =>
    rw [at_] at taken
    cases taken
    exact cache.continueFetch there (by rw [at_]; rfl) (fits.named readAt (by rw [at_]; rfl))
      (.inr (by rw [at_]; rfl)) nofun
  | queued | fetched generation readAt result | finished =>
    rw [at_] at taken
    cases taken

end

/-! ## Preparing slices -/

/-- The slices of the queue that `prepare_slices` takes into account. -/
def counts (index : Nat) (slice : ReadSlice) : Bool :=
  slice.index == index && slice.state != .invalid

/-- Those of them that it pins. -/
def pins (index start stop : Nat) (slice : ReadSlice) : Bool :=
  counts index slice && slice.overlaps start (stop - start)

theorem prepareSlice_eq (index start stop now : Nat) (loop : PrepareLoop) (key : Nat) :
    prepareSlice index start stop now loop key =
      { cells :=
          if pins index start stop (loop.cells key) then
            update loop.cells key ((loop.cells key).pin now)
          else loop.cells
        pinned := loop.pinned ++ if pins index start stop (loop.cells key) then [key] else []
        cutter :=
          if counts index (loop.cells key) then
            (loop.cutter.cut (loop.cells key).range.1 (loop.cells key).range.2).2
          else loop.cutter } := by
  have skipped : ((loop.cells key).index ≠ index ∨ (loop.cells key).state = .invalid) ↔
      counts index (loop.cells key) = false := by
    rw [counts, Bool.and_eq_false_iff]
    simp
  unfold prepareSlice pins
  by_cases counted : counts index (loop.cells key) = true
  · rw [if_neg (fun skip => by rw [skipped.mp skip] at counted; cases counted)]
    simp only [counted, Bool.true_and]
    split_ifs <;> simp
  · rw [Bool.not_eq_true] at counted
    rw [if_pos (skipped.mpr counted)]
    simp [counted]

/-- The loop over the queue: which slices are pinned, and which positions are
left for new slices. -/
private structure LoopSpec (index start stop now : Nat) (keys : List Nat)
    (loop result : PrepareLoop) : Prop where
  cells : forall key, result.cells key =
    if key ∈ keys ∧ pins index start stop (loop.cells key) then (loop.cells key).pin now
    else loop.cells key
  pinned : result.pinned =
    loop.pinned ++ keys.filter fun key => pins index start stop (loop.cells key)
  left : forall position, Contains result.cutter.ranges position ↔
    Contains loop.cutter.ranges position ∧
      forall key, key ∈ keys -> counts index (loop.cells key) = true ->
        ¬ Inside (loop.cells key).range position
  nonempty : (forall range, range ∈ loop.cutter.ranges -> range.1 < range.2) ->
    forall range, range ∈ result.cutter.ranges -> range.1 < range.2
  separate : (forall key, key ∈ keys -> (loop.cells key).range.1 ≤ (loop.cells key).range.2) ->
    loop.cutter.ranges.Pairwise Separate ->
    result.cutter.ranges.Pairwise Separate

theorem foldl_prepareSlice {keys : List Nat} (nodup : keys.Nodup)
    (index start stop now : Nat) (loop : PrepareLoop) :
    LoopSpec index start stop now keys loop
      (keys.foldl (prepareSlice index start stop now) loop) := by
  induction keys generalizing loop with
  | nil =>
    refine ⟨?_, ?_, ?_, id, fun _ => id⟩
    · simp
    · simp
    · simp
  | cons key keys ih =>
    rcases nodup_cons.mp nodup with ⟨new, rest⟩
    have spec := ih rest (prepareSlice index start stop now loop key)
    rw [foldl_cons]
    have later : ∀ other ≠ key,
        (prepareSlice index start stop now loop key).cells other = loop.cells other := by
      intro other different
      rw [prepareSlice_eq]
      dsimp only
      split_ifs
      · exact update_of_ne different ..
      · rfl
    have among : ∀ other ∈ keys,
        (prepareSlice index start stop now loop key).cells other = loop.cells other :=
      fun other member => later other fun same => new (same ▸ member)
    constructor
    · intro other
      rw [spec.cells other]
      by_cases here : other = key
      · subst here
        simp only [new, false_and, if_false, mem_cons, true_or, true_and]
        rw [prepareSlice_eq]
        dsimp only
        split_ifs
        · exact update_self ..
        · rfl
      · rw [later other here]
        simp only [mem_cons, here, false_or]
    · rw [spec.pinned, prepareSlice_eq]
      rw [append_assoc, filter_cons]
      congr 1
      have same : (keys.filter fun other => pins index start stop
          ((prepareSlice index start stop now loop key).cells other)) =
          keys.filter fun other => pins index start stop (loop.cells other) :=
        filter_congr fun other member => by rw [among other member]
      rw [prepareSlice_eq] at same
      rw [same]
      split_ifs <;> rfl
    · intro position
      rw [spec.left position]
      have tail : (∀ other ∈ keys,
          counts index ((prepareSlice index start stop now loop key).cells other) = true ->
            ¬ Inside
              ((prepareSlice index start stop now loop key).cells other).range position) ↔
          ∀ other ∈ keys, counts index (loop.cells other) = true ->
            ¬ Inside (loop.cells other).range position := by
        refine forall₂_congr ?_
        intro other member
        rw [among other member]
      rw [tail, prepareSlice_eq]
      simp only [forall_mem_cons]
      split_ifs with counted
      · rw [contains_cut_snd]
        simp only [counted, forall_const]
        exact and_assoc
      · simp only [counted]
        tauto
    · intro nonempty
      refine spec.nonempty ?_
      rw [prepareSlice_eq]
      dsimp only
      split_ifs
      · exact cut_snd_nonempty nonempty
      · exact nonempty
    intro proper separate
    refine spec.separate ?_ ?_
    · intro other member
      rw [among other member]
      exact proper other (.tail _ member)
    rw [prepareSlice_eq]
    dsimp only
    split_ifs
    · exact pairwise_cut_snd (proper key (.head _)) separate
    · exact separate

variable {now : Nat} {range : Nat × Nat}

theorem createSlice_cells_of_ne (old : key ≠ state.nextKey) :
    (createSlice index now state range).cells key = state.cells key :=
  update_of_ne old ..

@[simp] theorem createSlice_cells_nextKey (state : FileReader) (index now : Nat) (range : Nat × Nat) :
    (createSlice index now state range).cells state.nextKey = ReadSlice.new index range 1 now :=
  update_self ..

theorem Cache.createSlice (cache : Cache ino state) (proper : range.1 < range.2)
    (apart : ∀ key ∈ state.slices, counts index (state.cells key) = true ->
      Separate (state.cells key).range range) :
    Cache ino (FileReader.createSlice index now state range) := by
  have unused : state.nextKey ∉ state.slices := fun member =>
    lt_irrefl _ (cache.below _ member)
  have held : ∀ key ∈ state.slices, key ≠ state.nextKey :=
    fun key member same => unused (same ▸ member)
  have found : ∀ (position : Nat) (task : FetchTask),
      (FileReader.createSlice index now state range).tasks[position]? = some task ->
      state.tasks[position]? = some task ∧ task.key ≠ state.nextKey ∨
        task = ⟨state.nextKey, .queued⟩ := by
    intro position task there
    rcases getElem?_append_eq_some_iff.mp there with old | ⟨_, rfl⟩
    · exact .inl ⟨old, ne_of_lt (cache.fits position task old).below⟩
    · exact .inr rfl
  -- every slice is an old one or the new one
  have split : ∀ (claim : ReadSlice -> Prop) key, claim (ReadSlice.new index range 1 now) ->
      claim (state.cells key) ->
        claim ((FileReader.createSlice index now state range).cells key) := by
    intro claim key new old
    by_cases here : key = state.nextKey
    · rw [here, createSlice_cells_nextKey]
      exact new
    · rw [createSlice_cells_of_ne here]
      exact old
  refine
    { nodup := ?nodup, below := ?below, separate := ?separate
      proper := fun key => split (fun slice => slice.range.1 ≤ slice.range.2) key
        proper.le (cache.proper key)
      stamped := fun key => split (fun slice => slice.invalidatedAt ≤ state.invalidations) key
        (Nat.zero_le _) (cache.stamped key)
      sized := fun key => split (fun slice => slice.state = .ready ->
        slice.page.length = slice.range.2 - slice.range.1) key nofun (cache.sized key)
      fresh := ?fresh
      named := fun key => split (fun slice => slice.state = .ready -> slice.Named ino) key nofun
        (cache.named key)
      fits := ?fits, alone := ?alone }
  case nodup =>
    exact nodup_append.mpr ⟨cache.nodup, nodup_singleton _, fun key member other single =>
      mem_singleton.mp single ▸ held key member⟩
  case below =>
    exact forall_mem_append.mpr ⟨fun key old => Nat.lt_succ_of_lt (cache.below key old),
      forall_mem_singleton.mpr (lt_add_one _)⟩
  case separate =>
    refine pairwise_append.mpr ⟨?_, pairwise_singleton _ _, ?_⟩
    · refine cache.separate.imp_of_mem ?_
      intro first second firstHeld secondHeld both
      rw [createSlice_cells_of_ne (held first firstHeld),
        createSlice_cells_of_ne (held second secondHeld)]
      exact both
    intro key member other single live _ same
    rw [mem_singleton.mp single, createSlice_cells_nextKey] at same ⊢
    rw [createSlice_cells_of_ne (held key member)] at same live ⊢
    refine apart key member ?_
    rw [counts, Bool.and_eq_true, beq_iff_eq, bne_iff_ne]
    exact ⟨same, live⟩
  case fresh =>
    intro key ready member
    rcases mem_append.mp member with old | new
    · rw [createSlice_cells_of_ne (held key old)] at ready ⊢
      exact cache.fresh key ready old
    · rw [mem_singleton.mp new, createSlice_cells_nextKey] at ready
      cases ready
  case fits =>
    intro position task there
    rcases found position task there with ⟨old, different⟩ | rfl
    swap
    · exact ⟨lt_add_one _, nofun, fun _ => nofun, nofun, nofun, nofun⟩
    have fits := cache.fits position task old
    refine ⟨Nat.lt_succ_of_lt fits.below, ?_, ?_, ?_, ?_, ?_⟩
    all_goals rw [createSlice_cells_of_ne different]
    · exact fits.past
    · exact fits.busy
    · exact fits.named
    · intro readAt known current member
      rcases mem_append.mp member with heldKey | new
      · exact fits.current readAt known current heldKey
      · exact absurd (mem_singleton.mp new) different
    · exact fits.sized
  case alone =>
    intro first second task other here there same named current otherCurrent
    rcases found first task here with ⟨old, different⟩ | rfl
    · rcases found second other there with ⟨otherOld, _⟩ | rfl
      · rw [createSlice_cells_of_ne different] at named current otherCurrent
        exact cache.alone first second task other old otherOld same named current otherCurrent
      · cases otherCurrent
    · cases current

/-- The slices that are created for the ranges that are left. -/
private structure Creates (index now : Nat) (ranges : List (Nat × Nat)) (state next : FileReader) :
    Prop where
  nextKey : next.nextKey = state.nextKey + ranges.length
  slices : next.slices = state.slices ++ List.range' state.nextKey ranges.length
  old : forall key, key < state.nextKey -> next.cells key = state.cells key
  created : forall range, range ∈ ranges -> Exists fun key =>
    key ∈ List.range' state.nextKey ranges.length ∧ next.cells key = ReadSlice.new index range 1 now
  refs : forall key, key ∈ List.range' state.nextKey ranges.length -> (next.cells key).refs = 1
  reads : next.reads = state.reads

theorem foldl_createSlice (index now : Nat) (ranges : List (Nat × Nat)) (state : FileReader) :
    Creates index now ranges state (ranges.foldl (createSlice index now) state) := by
  induction ranges generalizing state with
  | nil => exact ⟨rfl, (append_nil _).symm, fun _ _ => rfl, nofun, nofun, rfl⟩
  | cons range ranges ih =>
    rw [foldl_cons]
    have rest := ih (createSlice index now state range)
    have first : (ranges.foldl (createSlice index now)
        (createSlice index now state range)).cells state.nextKey =
        ReadSlice.new index range 1 now := by
      rw [rest.old state.nextKey (lt_add_one _), createSlice_cells_nextKey]
    refine ⟨?_, ?_, ?_, ?_, ?_, rest.reads⟩
    · rw [rest.nextKey]
      exact Nat.add_right_comm ..
    · rw [rest.slices]
      exact append_assoc ..
    · intro key below
      rw [rest.old key (Nat.lt_succ_of_lt below), createSlice_cells_of_ne below.ne]
    · intro other member
      rcases mem_cons.mp member with rfl | later
      · exact ⟨state.nextKey, .head _, first⟩
      · rcases rest.created other later with ⟨key, there, isNew⟩
        exact ⟨key, .tail _ there, isNew⟩
    · intro key member
      rcases mem_cons.mp member with rfl | later
      · rw [first]
        rfl
      · exact rest.refs key later

theorem Cache.foldl_createSlice {ranges : List (Nat × Nat)} (cache : Cache ino state)
    (nonempty : ∀ range ∈ ranges, range.1 < range.2)
    (separate : ranges.Pairwise Separate)
    (apart : ∀ range ∈ ranges, ∀ key ∈ state.slices,
      counts index (state.cells key) = true ->
      Separate (state.cells key).range range) :
    Cache ino (ranges.foldl (FileReader.createSlice index now) state) := by
  induction ranges generalizing state with
  | nil => exact cache
  | cons range ranges ih =>
    rcases pairwise_cons.mp separate with ⟨first, others⟩
    refine ih (cache.createSlice (nonempty range (.head _)) (apart range (.head _)))
      (fun other member => nonempty other (.tail _ member)) others ?_
    intro other member key held counted
    rcases mem_append.mp held with old | new
    · have different := ne_of_lt (cache.below key old)
      rw [createSlice_cells_of_ne different] at counted ⊢
      exact apart other (.tail _ member) key old counted
    · rw [mem_singleton.mp new, createSlice_cells_nextKey]
      exact first other member

/-- What `prepare_slices` has done: every position of the range is in a slice that
it has pinned. -/
structure Prepared (ino : Int) (state next : FileReader) (index start stop : Nat)
    (pinned : List Nat) : Prop where
  cache : Cache ino next
  reads : next.reads = state.reads
  grows : state.nextKey ≤ next.nextKey
  old : forall key, key < state.nextKey -> (state.cells key).SameData (next.cells key)
  kept : forall key, key ∈ state.slices -> key ∈ next.slices
  held : forall key, key ∈ pinned -> key ∈ next.slices
  nodup : pinned.Nodup
  refs : forall key, key < state.nextKey -> (next.cells key).refs =
    if key ∈ pinned then min ((state.cells key).refs + 1) maxRefs else (state.cells key).refs
  pinsOld : forall key, key ∈ pinned -> key < state.nextKey ->
    key ∈ state.slices ∧ pins index start stop (state.cells key) = true
  newRefs : forall key, key ∈ pinned -> ¬ key < state.nextKey -> (next.cells key).refs = 1
  covered : forall position, start ≤ position -> position < stop -> Exists fun key =>
    key ∈ pinned ∧ (next.cells key).index = index ∧ Inside (next.cells key).range position

theorem prepareSlices_spec (cache : Cache ino state) (index : Nat) {start stop : Nat} (now : Nat)
    (proper : start < stop) :
    Prepared ino state (state.prepareSlices index start stop now).1 index start stop
      (state.prepareSlices index start stop now).2 := by
  have spec := foldl_prepareSlice cache.nodup index start stop now
    ⟨state.cells, [], Intervals.new start stop⟩
  unfold prepareSlices
  generalize state.slices.foldl (prepareSlice index start stop now)
    ⟨state.cells, [], Intervals.new start stop⟩ = loop at spec
  have same : ∀ key, (state.cells key).SameData (loop.cells key) := by
    intro key
    rw [spec.cells key]
    split_ifs
    · exact .of_pins
    · exact .refl _
  have made := foldl_createSlice index now loop.cutter.ranges { state with cells := loop.cells }
  have inQueue : ∀ key ∈ loop.pinned, key ∈ state.slices ∧
      pins index start stop (state.cells key) = true := by
    intro key member
    rw [spec.pinned] at member
    exact mem_filter.mp member
  have counted : ∀ key, counts index (loop.cells key) = counts index (state.cells key) := by
    intro key
    rw [counts, counts, (same key).index, (same key).state]
  have notNew : ∀ key < state.nextKey,
      key ∉ List.range' state.nextKey loop.cutter.ranges.length := by
    intro key below member
    have above := (mem_range'_1.mp member).1
    omega
  refine ⟨?cache, made.reads, ?grows, ?old, ?kept, ?held, ?nodup, ?refs, ?pinsOld, ?newRefs,
    ?covered⟩
  case cache =>
    have touched : Cache ino { state with cells := loop.cells } :=
      cache.touch same (refl _) rfl rfl rfl
    refine touched.foldl_createSlice (spec.nonempty (forall_mem_singleton.mpr proper))
      (spec.separate (fun key _ => cache.proper key) (pairwise_singleton _ _)) ?_
    intro range member key held isCounted position inSlice inRange
    have free := ((spec.left position).mp ⟨range, member, inRange⟩).2 key held
      (counted key ▸ isCounted)
    rw [(same key).range] at inSlice
    exact free inSlice
  case grows =>
    rw [made.nextKey]
    exact Nat.le_add_right ..
  case old =>
    intro key below
    rw [made.old key below]
    exact same key
  case kept =>
    intro key member
    rw [made.slices]
    exact mem_append_left _ member
  case held =>
    rw [made.slices]
    exact forall_mem_append.mpr
      ⟨fun key old => mem_append_left _ (inQueue key old).1, fun _ => mem_append_right _⟩
  case nodup =>
    refine nodup_append.mpr ⟨?_, nodup_range', ?_⟩
    · rw [spec.pinned]
      exact cache.nodup.filter _
    · rintro key member other new rfl
      exact notNew key (cache.below key (inQueue key member).1) new
  case refs =>
    intro key below
    have iff : key ∈ loop.pinned ++ List.range' state.nextKey loop.cutter.ranges.length ↔
        key ∈ state.slices ∧ pins index start stop (state.cells key) = true := by
      rw [mem_append, spec.pinned, nil_append, mem_filter]
      simp only [notNew key below, or_false]
    rw [made.old key below]
    dsimp only
    rw [spec.cells key]
    by_cases isPinned : key ∈ state.slices ∧ pins index start stop (state.cells key) = true
    · rw [if_pos isPinned, if_pos (iff.mpr isPinned)]
      rfl
    · rw [if_neg isPinned, if_neg (mt iff.mp isPinned)]
  case pinsOld =>
    exact forall_mem_append.mpr
      ⟨fun key old _ => inQueue key old, fun key new below => absurd new (notNew key below)⟩
  case newRefs =>
    exact forall_mem_append.mpr ⟨fun key old new =>
      absurd (cache.below key (inQueue key old).1) new, fun key created _ => made.refs key created⟩
  case covered =>
    intro position above below
    by_cases isLeft : Contains loop.cutter.ranges position
    · rcases isLeft with ⟨range, member, inside⟩
      rcases made.created range member with ⟨key, there, isNew⟩
      exact ⟨key, mem_append_right _ there, by rw [isNew]; rfl, by rw [isNew]; exact inside⟩
    have whole : Contains (Intervals.new start stop).ranges position :=
      ⟨(start, stop), .head _, above, below⟩
    have inSome : ∃ key, key ∈ state.slices ∧
        counts index (state.cells key) = true ∧
        Inside (state.cells key).range position := by
      by_contra none_
      refine isLeft ((spec.left position).mpr ⟨whole, ?_⟩)
      intro key held isCounted inside
      exact none_ ⟨key, held, isCounted, inside⟩
    rcases inSome with ⟨key, held, isCounted, inside⟩
    have pinned : pins index start stop (state.cells key) = true := by
      rw [pins, isCounted, Bool.true_and, ReadSlice.overlaps, Bool.and_eq_true,
        decide_eq_true_eq, decide_eq_true_eq]
      have low := inside.1
      have high := inside.2
      omega
    have old := cache.below key held
    refine ⟨key, mem_append_left _ ?_, ?_, ?_⟩
    · rw [spec.pinned]
      exact mem_filter.mpr ⟨held, pinned⟩
    · rw [made.old key old]
      rw [(same key).index]
      rw [counts, Bool.and_eq_true, beq_iff_eq] at isCounted
      exact isCounted.1
    · rw [made.old key old]
      rw [(same key).range]
      exact inside

/-! ## Whole runs -/

/-- The passes that only drop slices from the queue. -/
theorem retainLimited_sublist (overlapsCurrent removable : Nat -> Bool) (limit : Nat)
    (keys : List Nat) (cnt : Nat) :
    (retainLimited overlapsCurrent removable limit keys cnt).Sublist keys := by
  induction keys generalizing cnt with
  | nil => exact refl _
  | cons key keys ih =>
    rw [retainLimited]
    split_ifs
    · exact (ih _).cons _
    · exact (ih _).cons_cons _

theorem cleanEvictableSlices_sublist (state : FileReader) (offset len now : Nat) :
    (state.cleanEvictableSlices config offset len now).slices.Sublist state.slices := by
  unfold cleanEvictableSlices
  dsimp only
  split_ifs
  · exact (retainLimited_sublist ..).trans filter_sublist
  · exact filter_sublist

/-- The cache, and the calls have no empty span to prepare. -/
structure Steady (ino : Int) (state : FileReader) : Prop where
  cache : Cache ino state
  spans : forall read, read ∈ state.reads -> forall span, span ∈ read.pc.todo -> 0 < span.len

/-- A step of a read that prepares nothing: the read moves, pins and access times
may change, and slices may be dropped from the queue. -/
structure Moves (call : Nat) (state next : FileReader) (moved : ReadCall) : Prop where
  reads : next.reads = state.reads.set call moved
  cells : forall key, (state.cells key).SameData (next.cells key)
  slices : next.slices.Sublist state.slices
  nextKey : next.nextKey = state.nextKey
  tasks : next.tasks = state.tasks
  invalidations : next.invalidations = state.invalidations

variable {call : Nat}

theorem moves_setRead (moved : ReadCall) : Moves call state (state.setRead call moved) moved :=
  ⟨rfl, fun _ => .refl _, refl _, rfl, rfl, rfl⟩

theorem moves_setSlice (moved : ReadCall) (same : (state.cells key).SameData slice) :
    Moves call state ((state.setSlice key slice).setRead call moved) moved := by
  refine ⟨rfl, ?_, refl _, rfl, rfl, rfl⟩
  intro other
  change (state.cells other).SameData ((state.setSlice key slice).cells other)
  by_cases here : other = key
  · rw [here, setSlice_cells_self]
    exact same
  · rw [setSlice_cells_of_ne here]
    exact .refl _

/-- A step of a read prepares its next span, or moves. -/
theorem readStep_cases {read : ReadCall} {action : ReadAction}
    (taken : state.readStep config call read action = some next) :
    (∃ span now pc,
        action = .prepare now ∧ read.pc.todo = span :: pc.todo ∧
          next = state.prepareSpan call read span now pc) ∨
      ∃ moved, Moves call state next moved ∧ ∀ span ∈ moved.pc.todo, 0 < span.len := by
  cases action <;> rw [readStep] at taken
  case clean now =>
    split at taken
    · cases taken
      exact .inr ⟨_, ⟨rfl, fun _ => .refl _, cleanEvictableSlices_sublist .., rfl, rfl, rfl⟩, nofun⟩
    · cases taken
  case backPressure ok =>
    split at taken
    · cases taken
      refine .inr ⟨_, moves_setRead _, ?_⟩
      intro span member
      cases ok with
      | true => exact ((tiles_splitChunkSpans ..).fits member).1
      | false => cases member
    · cases taken
  case prepare now =>
    split at taken
    iterate 2
      · rename_i span todo at_
        cases taken
        exact .inl ⟨span, now, _, rfl, by rw [at_]; rfl, rfl⟩
    · cases taken
      exact .inr ⟨_, moves_setRead _, nofun⟩
    · cases taken
  case checkSession usage now =>
    split at taken
    · cases taken
      refine .inr ⟨_, ⟨rfl, fun _ => .refl _, refl _, rfl, rfl, rfl⟩, ?_⟩
      intro span member
      exact ((tiles_splitChunkSpans ..).fits member).1
    · cases taken
  case collect =>
    split at taken
    iterate 2
      · cases taken
        exact .inr ⟨_, moves_setRead _, nofun⟩
    · cases taken
  case visit =>
    split at taken
    swap
    · cases taken
    rename_i span seg slices spans at_
    cases slices with
    | nil =>
      cases taken
      exact .inr ⟨_, moves_setRead _, nofun⟩
    | cons key slices =>
      rw [visit] at taken
      split_ifs at taken
      · cases taken
        exact .inr ⟨_, moves_setRead _, nofun⟩
      split at taken
      iterate 2
        · cases taken
          exact .inr ⟨_, moves_setRead _, nofun⟩
      all_goals cases taken
  case copy now =>
    split at taken
    · cases taken
      rw [copy]
      split <;> exact .inr ⟨_, moves_setSlice _ .of_pins, nofun⟩
    · cases taken
  case unpin =>
    split at taken
    · rename_i result at_
      cases taken
      rw [unpin]
      split
      · refine .inr ⟨_, moves_setSlice _ .of_pins, ?_⟩
        rw [at_]
        nofun
      · refine .inr ⟨_, moves_setRead _, ?_⟩
        split_ifs <;> nofun
    · cases taken
  case cleanup =>
    split at taken
    · cases taken
      exact .inr ⟨_, ⟨rfl, fun _ => .refl _, filter_sublist, rfl, rfl, rfl⟩, nofun⟩
    · cases taken

theorem Moves.cache {moved : ReadCall} (moves : Moves call state next moved)
    (cache : Cache ino state) : Cache ino next :=
  cache.touch moves.cells moves.slices moves.nextKey moves.tasks moves.invalidations

theorem beginRead_pc (state : FileReader) (offset len fileSize : Nat) :
    ∃ read : ReadCall, state.beginRead offset len fileSize =
      { state with reads := state.reads ++ [read] } ∧ read.pc.todo = [] := by
  unfold beginRead
  split_ifs <;> exact ⟨_, rfl, rfl⟩

theorem step_steady {action : Action} (steady : Steady ino state)
    (taken : state.step config ino action = some next) : Steady ino next := by
  cases action with
  | publish | putBlock =>
    cases taken
    exact ⟨steady.cache.touch (fun _ => .refl _) (refl _) rfl rfl rfl, steady.spans⟩
  | beginRead offset len fileSize =>
    cases taken
    rcases beginRead_pc state offset len fileSize with ⟨read, same, nothing⟩
    rw [same]
    refine ⟨steady.cache.touch (fun _ => .refl _) (refl _) rfl rfl rfl,
      forall_mem_append.mpr ⟨steady.spans, forall_mem_singleton.mpr ?_⟩⟩
    rw [nothing]
    exact nofun
  | read call action =>
    rcases Option.bind_eq_some_iff.mp taken with ⟨read, there, stepped⟩
    have spans := steady.spans read (mem_of_getElem? there)
    rcases readStep_cases stepped with ⟨span, now, pc, _, todo, rfl⟩ | ⟨moved, moves, nonempty⟩
    · have proper : span.offset < span.offset + span.len := by
        have some_ := spans span (todo ▸ .head _)
        omega
      have prepared := prepareSlices_spec steady.cache span.index now proper
      constructor
      · exact prepared.cache.touch (fun _ => .refl _) (refl _) rfl rfl rfl
      intro other member
      change other ∈ (FileReader.prepareSlices ..).1.reads.set _ _ at member
      rw [prepared.reads] at member
      rcases mem_or_eq_of_mem_set member with old | rfl
      · exact steady.spans other old
      · intro later inTodo
        exact spans later (todo ▸ .tail _ inTodo)
    · refine ⟨moves.cache steady.cache, ?_⟩
      intro other member
      rw [moves.reads] at member
      rcases mem_or_eq_of_mem_set member with old | rfl
      · exact steady.spans other old
      · exact nonempty
  | invalidate offset len =>
    cases taken
    refine ⟨invalidate_cache steady.cache, ?_⟩
    unfold invalidate
    split_ifs <;> exact steady.spans
  | invalidateAll =>
    cases taken
    exact ⟨invalidateAll_cache steady.cache, steady.spans⟩
  | fetch index =>
    rcases Option.bind_eq_some_iff.mp taken with ⟨task, there, stepped⟩
    have fetches := fetch_fetches steady.cache there stepped
    exact ⟨fetches.cache, fetches.reads ▸ steady.spans⟩
  | failFetch index message =>
    rcases Option.bind_eq_some_iff.mp taken with ⟨task, there, stepped⟩
    have fetches := failFetch_fetches steady.cache there stepped
    exact ⟨fetches.cache, fetches.reads ▸ steady.spans⟩

theorem initial_steady (chunkSlices : Nat -> List SliceDesc) (store : BlockStore) :
    Steady ino (initial chunkSlices store) where
  cache :=
    { nodup := nodup_nil
      below := nofun
      separate := List.Pairwise.nil
      proper := fun _ => le_rfl
      stamped := fun _ => le_rfl
      sized := nofun
      fresh := nofun
      named := nofun
      fits := nofun
      alone := nofun }
  spans := nofun

end FileReader

end Rk8s.Slayerfs
