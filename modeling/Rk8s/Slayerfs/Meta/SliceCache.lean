import Rk8s.Lib.Slots
import Rk8s.Lib.Transition
import Rk8s.Slayerfs.Meta.SliceTables

namespace Rk8s.Slayerfs

open Transition Function

/-!
# The slice cache of the metadata client

`MetaClient` keeps the slice lists of chunks in its inode cache.  Every call
works on the store and on the cache in separate steps: `get_slices` installs
what it has read from the store, `write` and `append_slice` append to the store
and then to the cached list, and `truncate` drops the inode from the cache after
the store is done.

The cache is right when the calls do not get between each other's two steps.
The condition `Undisturbed` says which pairs matter: a list that is about to be
installed must still be the store's, and a slice that is about to be appended to
the cached list must be the only one that list lacks.
-/

/-- The part of a cached inode that matters here: slice lists by chunk index. -/
structure InodeEntry where
  slices : Nat -> Option (List SliceDesc)

/-- The inodes that the TTL cache has at the moment. -/
abbrev InodeCache := Nat -> Option InodeEntry

variable {slices : List SliceDesc}

namespace InodeCache

variable (cache : InodeCache)

def insertNode (ino : Nat) : InodeCache :=
  match cache ino with
  | some _ => cache
  | none => update cache ino (some ⟨fun _ => none⟩)

/-- `invalidate_inode`, and also what eviction does. -/
def invalidateInode (ino : Nat) : InodeCache :=
  update cache ino none

def getSlices (ino chunkIndex : Nat) : Option (List SliceDesc) :=
  (cache ino).bind fun node => node.slices chunkIndex

/-- Sets the list of a chunk in a cached inode. -/
def setSlices (ino chunkIndex : Nat) (slices : Option (List SliceDesc)) : InodeCache :=
  match cache ino with
  | none => cache
  | some node =>
    update cache ino (some ⟨update node.slices chunkIndex slices⟩)

/-- Appends to a list that is there and never starts one. -/
def appendSlice (ino chunkIndex : Nat) (desc : SliceDesc) : InodeCache :=
  match cache.getSlices ino chunkIndex with
  | none => cache
  | some slices => cache.setSlices ino chunkIndex (some (slices ++ [desc]))

/-- The cache afterwards and what the caller gets; nothing if the inode is not cached. -/
def cacheSlicesIfAbsent (ino chunkIndex : Nat) (desc : List SliceDesc) :
    InodeCache × Option (List SliceDesc) :=
  match cache ino with
  | none => (cache, none)
  | some node =>
    match node.slices chunkIndex with
    | some slices => (cache, some slices)
    | none => (cache.setSlices ino chunkIndex (some desc), some desc)

def invalidateSlices (ino chunkIndex : Nat) : InodeCache :=
  cache.setSlices ino chunkIndex none

variable {cache : InodeCache} {ino chunkIndex : Nat}

theorem getSlices_insertNode :
    (cache.insertNode ino).getSlices ino chunkIndex = cache.getSlices ino chunkIndex := by
  unfold insertNode
  cases present : cache ino with
  | some node => rfl
  | none => simp [getSlices, present]

@[simp] theorem getSlices_invalidateInode :
    (cache.invalidateInode ino).getSlices ino chunkIndex = none := by
  simp [invalidateInode, getSlices]

theorem getSlices_setSlices {slices : Option (List SliceDesc)} :
    (cache.setSlices ino chunkIndex slices).getSlices ino chunkIndex =
      if (cache ino).isSome then slices else none := by
  unfold setSlices
  cases present : cache ino with
  | none => simp [getSlices, present]
  | some node => simp [getSlices]

theorem getSlices_appendSlice {desc : SliceDesc} :
    (cache.appendSlice ino chunkIndex desc).getSlices ino chunkIndex =
      (cache.getSlices ino chunkIndex).map fun slices => slices ++ [desc] := by
  unfold appendSlice
  cases present : cache ino with
  | none => simp [getSlices, present]
  | some node =>
    cases cached : node.slices chunkIndex with
    | none => simp [getSlices, present, cached]
    | some slices =>
      have hit : cache.getSlices ino chunkIndex = some slices := by
        simp [getSlices, present, cached]
      simp [hit, getSlices_setSlices, present]

/-- An entry after the installation was there before or is the list installed. -/
theorem getSlices_cacheSlicesIfAbsent {desc : List SliceDesc}
    (cached : (cache.cacheSlicesIfAbsent ino chunkIndex desc).1.getSlices ino chunkIndex =
      some slices) :
    cache.getSlices ino chunkIndex = some slices ∨ slices = desc := by
  unfold cacheSlicesIfAbsent at cached
  split at cached
  · exact .inl cached
  split at cached
  · exact .inl cached
  next node present _ _ =>
    simp only [getSlices_setSlices, present, Option.isSome_some, if_true, Option.some.injEq]
      at cached
    exact .inr cached.symm

end InodeCache

/-! ## Calls -/

/-- Where a call stands.  `write` and `append_slice` are alike in what they do to
the slices. -/
inductive SliceCall where
  | getSlices
  | missed
  | read (slices : List SliceDesc)
  | returned (slices : List SliceDesc)
  | write (slice : SliceDesc)
  | appended (slice : SliceDesc)
  | truncate (newSize oldSize : Nat)
  | truncated
  | done

namespace SliceCall

/-- The calls as they come in.  A slice that is written to the chunk names it. -/
def isNew (chunkId : Nat) : SliceCall -> Bool
  | .getSlices | .truncate _ _ => true
  | .write slice => slice.chunkId = chunkId
  | _ => false

def isOver : SliceCall -> Bool
  | .returned _ | .done => true
  | _ => false

/-- A `get_slices` with a list it has read and not yet installed. -/
def isReading : SliceCall -> Bool
  | .read _ => true
  | _ => false

/-- A write whose slice is in the store and not yet in the cache. -/
def isAppending : SliceCall -> Bool
  | .appended _ => true
  | _ => false

end SliceCall

/-- The store, the cache and the calls that one client has made on a chunk. -/
structure SliceClient where
  tables : SliceTables
  cache : InodeCache
  calls : List SliceCall

namespace SliceClient

/-- A call starts, takes its next step or fails before it has changed anything;
the inode comes into the cache or leaves it. -/
inductive Action where
  | start (call : SliceCall)
  | advance (index : Nat)
  | fail (index : Nat)
  | insertNode
  | evict
  | invalidateChunkSlices

/-- The inode of a chunk and the index of the chunk in it. -/
def extractInoAndChunkIndex (chunkId : Nat) : Nat × Nat :=
  (chunkId / chunkIdBase, chunkId % chunkIdBase)

variable (chunkId chunkSize : Nat) (state : SliceClient)

def entry : Option (List SliceDesc) :=
  state.cache.getSlices (extractInoAndChunkIndex chunkId).1 (extractInoAndChunkIndex chunkId).2

def stored : List SliceDesc := state.tables.getSlices chunkId

def setCall (index : Nat) (call : SliceCall) : SliceClient :=
  { state with calls := state.calls.set index call }

/-- The next step of a call. -/
def advance (index : Nat) : SliceCall -> Option SliceClient
  | .getSlices =>
    match state.entry chunkId with
    | some slices => some (state.setCall index (.returned slices))
    | none => some (state.setCall index .missed)
  | .missed => some (state.setCall index (.read (state.stored chunkId)))
  | .read slices =>
    let location := extractInoAndChunkIndex chunkId
    let installed := state.cache.cacheSlicesIfAbsent location.1 location.2 slices
    some ({ state with cache := installed.1 }.setCall index
      (.returned (installed.2.getD slices)))
  | .write slice =>
    some ({ state with tables := state.tables.appendSlice chunkId slice }.setCall index
      (.appended slice))
  | .appended slice =>
    let location := extractInoAndChunkIndex chunkId
    some ({ state with
      cache := state.cache.appendSlice location.1 location.2 slice }.setCall index .done)
  | .truncate newSize oldSize =>
    match state.tables.pruneSlicesForTruncate (extractInoAndChunkIndex chunkId).1 newSize oldSize
        chunkSize with
    | .ok tables => some ({ state with tables := tables }.setCall index .truncated)
    | .error _ => some (state.setCall index .done)
  | .truncated =>
    some ({ state with
      cache := state.cache.invalidateInode (extractInoAndChunkIndex chunkId).1 }.setCall index
        .done)
  | .returned _ | .done => none

def step : Action -> Option SliceClient
  | .start call =>
    if call.isNew chunkId then some { state with calls := state.calls ++ [call] } else none
  | .advance index =>
    state.calls[index]?.bind fun call => state.advance chunkId chunkSize index call
  | .fail index =>
    match state.calls[index]? with
    | some .missed | some (.write _) | some (.truncate _ _) => some (state.setCall index .done)
    | _ => none
  | .insertNode =>
    some { state with cache := state.cache.insertNode (extractInoAndChunkIndex chunkId).1 }
  | .evict =>
    some { state with cache := state.cache.invalidateInode (extractInoAndChunkIndex chunkId).1 }
  | .invalidateChunkSlices =>
    some { state with
      cache := state.cache.invalidateSlices (extractInoAndChunkIndex chunkId).1
        (extractInoAndChunkIndex chunkId).2 }

/-- Nothing is cached at first; the store may have slices already. -/
def initial (tables : SliceTables) : SliceClient := ⟨tables, fun _ => none, []⟩

/-- No call is in flight. -/
def Quiet : Prop := forall call, call ∈ state.calls -> call.isOver = true
deriving Decidable

/-- A cached list is the store's. -/
def Coherent : Prop :=
  forall slices, state.entry chunkId = some slices -> slices = state.stored chunkId

/-- No call gets between the two steps of another one.  The store is not read
while a write is between its steps; it is not appended to while a read or a write
is between its steps; it is not truncated while a read is between its steps. -/
def Undisturbed : Action -> Prop
  | .advance index =>
    match state.calls[index]? with
    | some .missed => forall call, call ∈ state.calls -> call.isAppending = false
    | some (.write _) =>
      forall call, call ∈ state.calls -> call.isReading = false ∧ call.isAppending = false
    | some (.truncate _ _) => forall call, call ∈ state.calls -> call.isReading = false
    | _ => True
  | _ => True

instance (state : SliceClient) (action : Action) : Decidable (state.Undisturbed action) := by
  unfold Undisturbed
  split
  · split <;> infer_instance
  · infer_instance

/-! ## The invariant -/

/-- The call with the given number is where it says. -/
def At (index : Nat) (call : SliceCall) : Prop :=
  state.calls[index]? = some call

structure Inv (state : SliceClient) : Prop where
  reading : forall index slices, state.At index (.read slices) -> slices = state.stored chunkId
  alone : forall index slice, state.At index (.appended slice) -> forall other call,
    state.At other call -> call.isReading = false ∧ (call.isAppending = true -> other = index)
  named : forall index slice, state.At index (.write slice) -> slice.chunkId = chunkId
  synced : (forall index, ¬ state.At index .truncated) ->
    (forall index slice, ¬ state.At index (.appended slice)) -> state.Coherent chunkId
  behind : (forall index, ¬ state.At index .truncated) ->
    forall index slice, state.At index (.appended slice) -> forall slices,
      state.entry chunkId = some slices -> slices ++ [slice] = state.stored chunkId

variable {chunkId chunkSize} {state next : SliceClient} {index other : Nat} {call new : SliceCall}

theorem at_setCall :
    (state.setCall index new).At other call ↔
      other = index ∧ index < state.calls.length ∧ call = new ∨
        other ≠ index ∧ state.At other call :=
  Slots.getElem?_set_eq_some_iff

/-- A call in another place than the new one was there before. -/
theorem at_of_setCall (there : (state.setCall index new).At other call) (different : call ≠ new) :
    state.At other call := by
  rcases at_setCall.mp there with ⟨_, _, same⟩ | ⟨_, before⟩
  · exact absurd same different
  · exact before

theorem mem_of_at (at_ : state.At index call) : call ∈ state.calls := List.mem_of_getElem? at_

/-- Calls in other places stay there. -/
theorem At.setCall {old : SliceCall} (there : state.At other old) (at_ : state.At index call)
    (different : call ≠ old) : (state.setCall index new).At other old := by
  refine at_setCall.mpr (.inr ⟨?_, there⟩)
  rintro rfl
  exact different (Option.some.inj (at_.symm.trans there))

/-- The call of a number that is there gets a new place. -/
theorem at_set (state : SliceClient) (at_ : state.At index call) (new : SliceCall) :
    (state.setCall index new).At index new :=
  at_setCall.mpr (.inl ⟨rfl, (List.getElem?_eq_some_iff.mp at_).1, rfl⟩)

/-- Places in which a call is not between two of its steps. -/
private def isIdle (chunkId : Nat) : SliceCall -> Prop
  | .read _ | .appended _ | .truncated => False
  | .write slice => slice.chunkId = chunkId
  | _ => True

theorem idle_of_isNew (new : call.isNew chunkId = true) : isIdle chunkId call := by
  cases call <;> simp_all [SliceCall.isNew, isIdle]

/-- A step in which no call enters or leaves the time between its two steps. -/
theorem Inv.idle (inv : Inv chunkId state) (stored : next.stored chunkId = state.stored chunkId)
    (entry : ∀ slices, next.entry chunkId = some slices -> state.entry chunkId = some slices)
    (after : ∀ index call, next.At index call -> state.At index call ∨ isIdle chunkId call)
    (before : ∀ index call, state.At index call ->
      next.At index call ∨ isIdle chunkId call) : Inv chunkId next := by
  have same : ∀ index call, ¬ isIdle chunkId call -> (next.At index call ↔ state.At index call) :=
    fun index call busy =>
      ⟨fun at_ => (after index call at_).resolve_right busy,
        fun at_ => (before index call at_).resolve_right busy⟩
  have truncated : (∀ index, ¬ next.At index .truncated) -> ∀ index, ¬ state.At index .truncated :=
    fun none_ index at_ => none_ index ((same index _ id).mpr at_)
  constructor
  · intro index slices at_
    rw [stored]
    exact inv.reading index slices ((same index _ id).mp at_)
  · intro index slice at_ other call there
    have known := inv.alone index slice ((same index _ id).mp at_) other call
    cases call with
    | read | appended => exact known ((same other _ id).mp there)
    | _ => exact ⟨rfl, nofun⟩
  · intro index slice at_
    rcases after index _ at_ with old | idle
    · exact inv.named index slice old
    · exact idle
  · intro none_ settled slices cached
    rw [stored]
    refine inv.synced (truncated none_) ?_ slices (entry slices cached)
    exact fun index slice at_ => settled index slice ((same index _ id).mpr at_)
  · intro none_ index slice at_ slices cached
    rw [stored]
    exact inv.behind (truncated none_) index slice ((same index _ id).mp at_) slices
      (entry slices cached)

/-- The same for a step of one call that leaves store and cache alone. -/
theorem Inv.setCall (inv : Inv chunkId state) (at_ : state.At index call)
    (idle : isIdle chunkId call) (still : isIdle chunkId new) :
    Inv chunkId (state.setCall index new) := by
  refine inv.idle rfl (fun _ => id) ?_ ?_
  · intro other place there
    rcases at_setCall.mp there with ⟨_, _, rfl⟩ | ⟨_, old⟩
    · exact .inr still
    · exact .inl old
  intro other place there
  by_cases same : call = place
  · exact .inr (same ▸ idle)
  · exact .inl (there.setCall at_ same)

/-! ### The steps at the store -/

theorem Inv.readStore (inv : Inv chunkId state) (at_ : state.At index .missed)
    (undisturbed : ∀ call ∈ state.calls, call.isAppending = false) :
    Inv chunkId (state.setCall index (.read (state.stored chunkId))) := by
  have settled : ∀ other slice,
      ¬ (state.setCall index (.read (state.stored chunkId))).At other (.appended slice) := by
    intro other slice there
    cases undisturbed _ (mem_of_at (at_of_setCall there nofun))
  constructor
  · intro other slices there
    rcases at_setCall.mp there with ⟨_, _, same⟩ | ⟨_, old⟩
    · cases same
      rfl
    · exact inv.reading other slices old
  · intro other slice there
    exact absurd there (settled other slice)
  · intro other slice there
    exact inv.named other slice (at_of_setCall there nofun)
  · intro none_ _ slices cached
    refine inv.synced ?_ ?_ slices cached
    · exact fun other there => none_ other (there.setCall at_ nofun)
    · intro other slice there
      cases undisturbed _ (mem_of_at there)
  · intro _ other slice there
    exact absurd there (settled other slice)

variable {slice : SliceDesc}

theorem stored_appendSlice (state : SliceClient) (named : slice.chunkId = chunkId) :
    (state.tables.appendSlice chunkId slice).getSlices chunkId =
      state.stored chunkId ++ [slice] := by
  subst named
  simp [SliceTables.appendSlice, SliceTables.getSlices, stored]

section

variable (inv : Inv chunkId state)
include inv

theorem Inv.append (at_ : state.At index (.write slice))
    (undisturbed : ∀ call ∈ state.calls, call.isReading = false ∧ call.isAppending = false) :
    Inv chunkId ({ state with tables := state.tables.appendSlice chunkId slice }.setCall index
      (.appended slice)) := by
  have stored := stored_appendSlice state (inv.named index slice at_)
  have only : ∀ other call, call.isReading = true ∨ call.isAppending = true ->
      ({ state with tables := state.tables.appendSlice chunkId slice }.setCall index
        (.appended slice)).At other call -> other = index ∧ call = .appended slice := by
    intro other call busy there
    rcases at_setCall.mp there with ⟨same, _, rfl⟩ | ⟨_, old⟩
    · exact ⟨same, rfl⟩
    · have free := undisturbed call (mem_of_at (show state.At other call from old))
      simp [free] at busy
  constructor
  · intro other slices there
    cases (only other _ (.inl rfl) there).2
  · intro first written there other call also
    rw [(only first _ (.inr rfl) there).1]
    refine ⟨?_, fun appending => (only other call (.inr appending) also).1⟩
    by_contra reading
    cases (only other call (.inl (by simpa using reading)) also).2
    exact reading rfl
  · intro other written there
    exact inv.named other written (at_of_setCall there nofun)
  · intro _ settled
    exact absurd (at_set { state with tables := state.tables.appendSlice chunkId slice } at_
      (.appended slice)) (settled index slice)
  intro none_ other written there slices cached
  cases (only other _ (.inr rfl) there).2
  have synced : slices = state.stored chunkId := by
    refine inv.synced ?_ ?_ slices cached
    · exact fun place truncated => none_ place (truncated.setCall at_ nofun)
    · intro place appended impossible
      cases (undisturbed _ (mem_of_at impossible)).2
  rw [synced]
  exact stored.symm

theorem Inv.truncate {newSize oldSize : Nat}
    (at_ : state.At index (.truncate newSize oldSize)) (tables : SliceTables)
    (undisturbed : ∀ call ∈ state.calls, call.isReading = false) :
    Inv chunkId ({ state with tables := tables }.setCall index .truncated) := by
  have running := at_set { state with tables := tables } at_ .truncated
  constructor
  · intro other slices there
    have free := undisturbed (.read slices) (mem_of_at (at_of_setCall there nofun))
    cases free
  · intro first slice there other call also
    cases call with
    | truncated => exact ⟨rfl, nofun⟩
    | _ => exact inv.alone first slice (at_of_setCall there nofun) other _ (at_of_setCall also nofun)
  · intro other slice there
    exact inv.named other slice (at_of_setCall there nofun)
  all_goals
    intro none_
    exact absurd running (none_ index)

/-! ### The steps at the cache -/

variable {cache : InodeCache}

theorem Inv.install (at_ : state.At index (.read slices)) (result : List SliceDesc)
    (installed : ∀ cached, { state with cache := cache }.entry chunkId = some cached ->
      state.entry chunkId = some cached ∨ cached = slices) :
    Inv chunkId ({ state with cache := cache }.setCall index (.returned result)) := by
  have settled : ∀ other slice, ¬ state.At other (.appended slice) := by
    intro other slice there
    cases (inv.alone other slice there index _ at_).1
  constructor
  · intro other read there
    exact inv.reading other read (at_of_setCall there nofun)
  · intro other slice there
    exact absurd (at_of_setCall there nofun) (settled other slice)
  · intro other slice there
    exact inv.named other slice (at_of_setCall there nofun)
  · intro none_ _ cached hit
    rcases installed cached hit with before | rfl
    · exact inv.synced (fun other there => none_ other (there.setCall at_ nofun)) settled cached
        before
    · exact inv.reading index cached at_
  · intro _ other slice there
    exact absurd (at_of_setCall there nofun) (settled other slice)

theorem Inv.push (at_ : state.At index (.appended slice))
    (pushed : { state with cache := cache }.entry chunkId =
      (state.entry chunkId).map fun slices => slices ++ [slice]) :
    Inv chunkId ({ state with cache := cache }.setCall index .done) := by
  have settled : ∀ other written,
      ¬ ({ state with cache := cache }.setCall index .done).At other (.appended written) := by
    intro other written there
    rcases at_setCall.mp there with ⟨_, _, ⟨⟩⟩ | ⟨different, before⟩
    exact different ((inv.alone index slice at_ other _ before).2 rfl)
  constructor
  · intro other slices there
    exact inv.reading other slices (at_of_setCall there nofun)
  · intro other written there
    exact absurd there (settled other written)
  · intro other written there
    exact inv.named other written (at_of_setCall there nofun)
  · intro none_ _ slices hit
    rcases Option.map_eq_some_iff.mp (pushed.symm.trans hit) with ⟨before, cached, rfl⟩
    exact inv.behind (fun other there => none_ other (there.setCall at_ nofun)) index slice at_
      before cached
  · intro _ other written there
    exact absurd there (settled other written)

theorem Inv.invalidate (index : Nat)
    (dropped : { state with cache := cache }.entry chunkId = none) :
    Inv chunkId ({ state with cache := cache }.setCall index .done) := by
  constructor
  · intro other slices there
    exact inv.reading other slices (at_of_setCall there nofun)
  · intro first slice there other call also
    cases call with
    | done => exact ⟨rfl, nofun⟩
    | _ => exact inv.alone first slice (at_of_setCall there nofun) other _ (at_of_setCall also nofun)
  · intro other slice there
    exact inv.named other slice (at_of_setCall there nofun)
  · intro _ _ slices hit
    cases dropped.symm.trans hit
  · intro _ _ _ _ slices hit
    cases dropped.symm.trans hit

/-! ## Whole runs -/

theorem advance_inv (at_ : state.At index call) (met : state.Undisturbed (.advance index))
    (taken : state.advance chunkId chunkSize index call = some next) : Inv chunkId next := by
  simp only [Undisturbed, show state.calls[index]? = some call from at_] at met
  unfold advance at taken
  split at taken
  · split at taken <;> cases taken <;> exact inv.setCall at_ trivial trivial
  · cases taken
    exact inv.readStore at_ met
  next slices =>
    cases taken
    exact inv.install at_ _ fun cached hit => InodeCache.getSlices_cacheSlicesIfAbsent hit
  · cases taken
    exact inv.append at_ met
  · cases taken
    exact inv.push at_ InodeCache.getSlices_appendSlice
  · split at taken <;> cases taken
    · exact inv.truncate at_ _ met
    · exact inv.setCall at_ trivial trivial
  · cases taken
    exact inv.invalidate index InodeCache.getSlices_invalidateInode
  · cases taken
  · cases taken

theorem step_inv {action : Action}
    (met : state.Undisturbed action) (taken : state.step chunkId chunkSize action = some next) :
    Inv chunkId next := by
  cases action with
  | start call =>
    simp only [step] at taken
    split_ifs at taken with new
    cases taken
    refine inv.idle rfl (fun _ => id) ?_ ?_
    · intro index place there
      rcases Slots.getElem?_append_eq_some_iff.mp there with old | ⟨_, rfl⟩
      · exact .inl old
      · exact .inr (idle_of_isNew new)
    · intro index place there
      exact .inl (Slots.getElem?_append_eq_some_iff.mpr (.inl there))
  | advance index =>
    rcases Option.bind_eq_some_iff.mp taken with ⟨call, at_, advanced⟩
    exact advance_inv inv at_ met advanced
  | fail index =>
    simp only [step] at taken
    split at taken
    next at_ => cases taken; exact inv.setCall at_ trivial trivial
    next slice at_ => cases taken; exact inv.setCall at_ (inv.named index slice at_) trivial
    next at_ => cases taken; exact inv.setCall at_ trivial trivial
    next => cases taken
  | insertNode =>
    cases taken
    refine inv.idle rfl ?_ (fun _ _ => .inl) (fun _ _ => .inl)
    intro slices cached
    exact InodeCache.getSlices_insertNode.symm.trans cached
  | evict =>
    cases taken
    refine inv.idle rfl ?_ (fun _ _ => .inl) (fun _ _ => .inl)
    intro slices cached
    cases InodeCache.getSlices_invalidateInode.symm.trans cached
  | invalidateChunkSlices =>
    cases taken
    refine inv.idle rfl ?_ (fun _ _ => .inl) (fun _ _ => .inl)
    intro slices cached
    simp [entry, InodeCache.invalidateSlices, InodeCache.getSlices_setSlices] at cached

end

theorem initial_inv (chunkId : Nat) (tables : SliceTables) : Inv chunkId (initial tables) where
  reading := nofun
  alone := nofun
  named := nofun
  synced _ _ := nofun
  behind _ := nofun

/-- In every run whose store steps are undisturbed, the cache is coherent
whenever no call is in flight. -/
theorem coherent_of_undisturbed {tables : SliceTables} {actions : List Action} {final : SliceClient}
    (run : Run (step chunkId chunkSize) Undisturbed (initial tables) actions final)
    (quiet : final.Quiet) : final.Coherent chunkId := by
  have inv := run.invariant (Inv chunkId) (initial_inv chunkId tables)
    fun _ _ _ inv met taken => step_inv inv met taken
  refine inv.synced ?_ ?_
  · intro index there
    cases quiet _ (mem_of_at there)
  · intro index slice there
    cases quiet _ (mem_of_at there)

private def noSlices : SliceTables := ⟨[], [], 0, [], 0⟩

/-- A read installs the empty list, then a slice is written. -/
private def readThenWrite : List Action :=
  [.insertNode, .start .getSlices, .start (.write ⟨1, 7, 0, 4⟩), .advance 0, .advance 0,
    .advance 0, .advance 1, .advance 1]

/-- The slice is written after the read of the store and before the installation. -/
private def writeInsideRead : List Action :=
  [.insertNode, .start .getSlices, .start (.write ⟨1, 7, 0, 4⟩), .advance 0, .advance 0,
    .advance 1, .advance 1, .advance 0]

theorem coherent_readThenWrite :
    Exists fun state =>
      Run (step 7 16) Undisturbed (initial noSlices) readThenWrite state ∧
      state.Quiet ∧ state.entry 7 = some [⟨1, 7, 0, 4⟩] ∧ state.Coherent 7 := by
  refine exists_run_of (fun state => state.Quiet ∧ state.entry 7 = some [⟨1, 7, 0, 4⟩])
    (by decide +kernel) fun state run ⟨quiet, cached⟩ => ?_
  exact ⟨quiet, cached, coherent_of_undisturbed run quiet⟩

/-- The cache keeps the list without the slice when all calls are over. -/
theorem getSlices_installs_stale_list :
    Exists fun state =>
      Run (step 7 16) anyStep (initial noSlices) writeInsideRead state ∧
      state.Quiet ∧ state.entry 7 = some [] ∧ state.stored 7 = [⟨1, 7, 0, 4⟩] ∧
      ¬ state.Coherent 7 := by
  refine exists_run_of (fun state => state.Quiet ∧ state.entry 7 = some [] ∧
    state.stored 7 = [⟨1, 7, 0, 4⟩]) (by decide +kernel) fun state run ⟨quiet, cached, stored⟩ => ?_
  refine ⟨quiet, cached, stored, fun coherent => ?_⟩
  have same := coherent [] cached
  rw [stored] at same
  cases same

end SliceClient

end Rk8s.Slayerfs
