import Rk8s.Slayerfs.Chunk.Store

namespace Rk8s.Slayerfs

open List

/-!
# Uploading a slice

A slice arrives as a list of byte segments that need not respect the block
boundaries.  `ChunkCursor` hands out the next bytes of the list without joining
it, and `writeAtVectored` stores one run of segments per block.

A cursor stands for the bytes that it has not handed out yet.  In those terms
`take` is `List.take` and `List.drop`, whatever the segments are, and an upload
replaces exactly the bytes of its range in the slice, as long as the index of
each block fits the 32 bits of a block key.
-/

/-- A position in a list of segments. -/
structure ChunkCursor where
  chunks : List Bytes
  idx : Nat
  off : Nat

namespace ChunkCursor

def new (chunks : List Bytes) : ChunkCursor := ⟨chunks, 0, 0⟩

variable (cursor : ChunkCursor)

/-- The cursor after handing out `count` bytes of the current segment. -/
def advance (chunk : Bytes) (count : Nat) : ChunkCursor :=
  if cursor.off + count = chunk.length then
    { cursor with idx := cursor.idx + 1, off := 0 }
  else
    { cursor with off := cursor.off + count }

/-- At most `fuel` rounds of the loop in `take`.  Indexing past the last
segment, which aborts the program, is `none`. -/
def takeLoop : Nat -> ChunkCursor -> Nat -> List Bytes -> Option (List Bytes × ChunkCursor)
  | _, cursor, 0, out => some (out, cursor)
  | 0, _, _ + 1, _ => none
  | fuel + 1, cursor, need + 1, out =>
    match cursor.chunks[cursor.idx]? with
    | none => none
    | some chunk =>
      let avail := chunk.length - cursor.off
      let take := min (need + 1) avail
      takeLoop fuel (cursor.advance chunk take) (need + 1 - take)
        (out ++ [(chunk.drop cursor.off).take take])

/-- The next `need` bytes.  Each round hands out a byte or moves on to the next
segment, which bounds the number of rounds. -/
def take (need : Nat) : Option (List Bytes × ChunkCursor) :=
  takeLoop (need + cursor.chunks.length) cursor need []

/-- The bytes that the cursor has not handed out. -/
def rest : Bytes := (cursor.chunks.drop cursor.idx).flatten.drop cursor.off

/-- The offset stays inside the current segment. -/
def Valid : Prop :=
  cursor.off ≤ (cursor.chunks[cursor.idx]?.getD []).length

theorem valid_new (chunks : List Bytes) : (new chunks).Valid := Nat.zero_le _

variable {cursor : ChunkCursor}

theorem rest_eq_of_getElem {chunk : Bytes} (current : cursor.chunks[cursor.idx]? = some chunk)
    (inside : cursor.off ≤ chunk.length) :
    cursor.rest = chunk.drop cursor.off ++ (cursor.chunks.drop (cursor.idx + 1)).flatten := by
  rcases List.getElem?_eq_some_iff.mp current with ⟨bound, found⟩
  unfold rest
  rw [drop_eq_getElem_cons bound, found, flatten_cons, drop_append_of_le_length inside]

theorem rest_eq_nil_of_getElem (past : cursor.chunks[cursor.idx]? = none) : cursor.rest = [] := by
  unfold rest
  rw [drop_eq_nil_of_le (List.getElem?_eq_none_iff.mp past), flatten_nil, drop_nil]

section

variable {chunk : Bytes} {count : Nat}

variable (current : cursor.chunks[cursor.idx]? = some chunk)
  (inside : cursor.off + count ≤ chunk.length)
include current inside

theorem rest_advance :
    (cursor.advance chunk count).rest = cursor.rest.drop count := by
  rw [rest_eq_of_getElem current (by omega), drop_append_of_le_length
    (by rw [length_drop]; omega), drop_drop]
  unfold advance
  split_ifs with finished
  · rw [finished, drop_length, nil_append]
    exact drop_zero
  · exact @rest_eq_of_getElem { cursor with off := cursor.off + count } _ current inside

theorem valid_advance : (cursor.advance chunk count).Valid := by
  unfold advance
  split_ifs with finished
  · exact Nat.zero_le _
  · rw [Valid, current]
    exact inside

end

/-- The loop appends the next `need` bytes and moves the cursor past them. -/
theorem takeLoop_spec (fuel need : Nat) (out : List Bytes) (valid : cursor.Valid)
    (available : need ≤ cursor.rest.length)
    (enough : need + (cursor.chunks.length - cursor.idx) ≤ fuel) :
    ∃ taken moved, takeLoop fuel cursor need out = some (taken, moved) ∧
      taken.flatten = out.flatten ++ cursor.rest.take need ∧
      moved.rest = cursor.rest.drop need ∧ moved.Valid := by
  induction fuel generalizing need cursor out with
  | zero =>
    cases need with
    | zero => exact ⟨out, cursor, rfl, by simp, by simp, valid⟩
    | succ need => omega
  | succ fuel ih =>
    cases need with
    | zero => exact ⟨out, cursor, rfl, by simp, by simp, valid⟩
    | succ need =>
      cases current : cursor.chunks[cursor.idx]? with
      | none =>
        rw [rest_eq_nil_of_getElem current, length_nil] at available
        omega
      | some chunk =>
        have inside : cursor.off ≤ chunk.length := by
          rw [Valid, current] at valid
          exact valid
        have bound := (List.getElem?_eq_some_iff.mp current).1
        generalize amount : min (need + 1) (chunk.length - cursor.off) = count
        have fits : cursor.off + count ≤ chunk.length := by omega
        -- A round hands out a byte or leaves an exhausted segment.
        have shrinks : need + 1 - count + ((cursor.advance chunk count).chunks.length -
            (cursor.advance chunk count).idx) ≤ fuel := by
          unfold advance
          split_ifs with finished <;> dsimp only <;> omega
        have moved := rest_advance current fits
        rcases ih (need + 1 - count) (out ++ [(chunk.drop cursor.off).take count])
          (valid_advance current fits) (by rw [moved, length_drop]; omega) shrinks with
          ⟨taken, final, ran, bytes, left, kept⟩
        refine ⟨taken, final, ?_, ?_, ?_, kept⟩
        · rw [takeLoop, current]
          simp only [amount]
          exact ran
        · have piece : (chunk.drop cursor.off).take count = cursor.rest.take count := by
            rw [rest_eq_of_getElem current inside,
              take_append_of_le_length (by rw [length_drop]; omega)]
          rw [bytes, moved, piece, flatten_append, flatten_singleton, append_assoc, ← take_add]
          congr 2
          omega
        · rw [left, moved, drop_drop]
          congr 1
          omega

/-- `take` splits the remaining bytes. -/
theorem take_spec (need : Nat) (valid : cursor.Valid) (available : need ≤ cursor.rest.length) :
    ∃ taken moved, cursor.take need = some (taken, moved) ∧
      taken.flatten = cursor.rest.take need ∧ moved.rest = cursor.rest.drop need ∧ moved.Valid := by
  rcases takeLoop_spec (need + cursor.chunks.length) need [] valid available (by omega) with
    ⟨taken, moved, ran, bytes, left, kept⟩
  exact ⟨taken, moved, ran, bytes, left, kept⟩

end ChunkCursor

/-! ## Writing block by block -/

namespace DataUploader

/-- The loop of `write_at_vectored`: the next bytes of the cursor go into the
block of each span. -/
def writeSpans (sliceId : Nat) :
    List (Span .block) -> ChunkCursor -> BlockStore -> Option BlockStore
  | [], _, store => some store
  | span :: spans, cursor, store =>
    match cursor.take span.len with
    | none => none
    | some (blockChunks, cursor) =>
      let blockIndex := asU32 span.index
      writeSpans sliceId spans cursor
        (store.writeFreshVectored (sliceId, blockIndex) span.offset blockChunks)

def writeAtVectored (layout : ChunkLayout) (store : BlockStore) (sliceId offset : Nat)
    (chunks : List Bytes) : Option BlockStore :=
  let totalLen := (chunks.map List.length).sum
  writeSpans sliceId (blockSpanIterSlice offset totalLen layout) (ChunkCursor.new chunks) store

/-- The same loop when the store fails for some blocks: only the spans whose
index is listed reach it. -/
def writeSpansPartly (sliceId : Nat) (landed : List Nat) :
    List (Span .block) -> ChunkCursor -> BlockStore -> Option BlockStore
  | [], _, store => some store
  | span :: spans, cursor, store =>
    match cursor.take span.len with
    | none => none
    | some (blockChunks, cursor) =>
      writeSpansPartly sliceId landed spans cursor
        (if span.index ∈ landed then
          store.writeFreshVectored (sliceId, asU32 span.index) span.offset blockChunks
        else
          store)

/-- The store after an attempt of `write_at_vectored` that returns an error. -/
def failedWriteAtVectored (layout : ChunkLayout) (store : BlockStore) (sliceId offset : Nat)
    (chunks : List Bytes) (landed : List Nat) : Option BlockStore :=
  let totalLen := (chunks.map List.length).sum
  writeSpansPartly sliceId landed (blockSpanIterSlice offset totalLen layout)
    (ChunkCursor.new chunks) store

end DataUploader

/-! ## What an upload stores -/

variable {sliceId : Nat} {layout : ChunkLayout}

section

variable {span : Span .block} {position : Nat}

theorem address_of_mem (inside : span.offset + span.len ≤ layout.blockSize)
    (from_ : span.index * layout.blockSize + span.offset ≤ position)
    (below : position < span.index * layout.blockSize + span.offset + span.len) :
    layout.address position = (asU32 span.index, position - span.index * layout.blockSize) := by
  rcases Span.div_mod_of_mem _ inside from_ below with ⟨unit, within⟩
  rw [ChunkLayout.address, unit, within]

variable {data : Bytes}

/-- Writing one span leaves alone every byte that no position of it is stored under. -/
theorem blockByte_writeSpan_of_unaddressed (store : BlockStore) {index within : Nat}
    (long : data.length = span.len) (inside : span.offset + span.len ≤ layout.blockSize)
    (unaddressed : ∀ position, span.index * layout.blockSize + span.offset ≤ position ->
      position < span.index * layout.blockSize + span.offset + span.len ->
      layout.address position ≠ (index, within)) :
    blockByte (store.writeRange (sliceId, asU32 span.index) span.offset data (sliceId, index))
        within =
      blockByte (store (sliceId, index)) within := by
  rw [blockByte_writeRange, if_neg]
  rintro ⟨same, above, below⟩
  have block : index = asU32 span.index := congrArg Prod.snd same
  have from_ : span.index * layout.blockSize + span.offset ≤
      span.index * layout.blockSize + within := by omega
  apply unaddressed (span.index * layout.blockSize + within) from_ (by omega)
  rw [address_of_mem inside from_ (by omega), block, Nat.add_sub_cancel_left]

end

/-- A write that stays inside `[offset, offset + length)` of a slice. -/
structure WritesWithin (layout : ChunkLayout) (sliceId offset length : Nat)
    (store stored : BlockStore) : Prop where
  others : forall key : BlockKey, key.1 ≠ sliceId -> stored key = store key
  kept : forall index within,
    (forall position, offset ≤ position -> position < offset + length ->
      layout.address position ≠ (index, within)) ->
    blockByte (stored (sliceId, index)) within = blockByte (store (sliceId, index)) within
  grows : forall key, blockLength (store key) ≤ blockLength (stored key)

variable {offset : Nat} {store stored : BlockStore} {length : Nat}

/-- Addressable bytes outside the range stay as they are. -/
theorem WritesWithin.sliceByte_eq {position : Nat}
    (within_ : WritesWithin layout sliceId offset length store stored)
    (fits : offset + length ≤ layout.addressable) (addressable : position < layout.addressable)
    (outside : ¬ (offset ≤ position ∧ position < offset + length)) :
    sliceByte layout stored sliceId position = sliceByte layout store sliceId position := by
  apply within_.kept
  intro other from_ below same
  have := ChunkLayout.address_injective (by omega) addressable same
  omega

/-- What an upload of `payload` to `[offset, offset + payload.length)` of a slice does to the
store.  Where several positions share an address the last one is stored. -/
structure Uploads (layout : ChunkLayout) (sliceId offset : Nat) (payload : Bytes)
    (store stored : BlockStore) : Prop
    extends WritesWithin layout sliceId offset payload.length store stored where
  written : forall position, offset ≤ position -> position < offset + payload.length ->
    (forall later, position < later -> later < offset + payload.length ->
      layout.address later ≠ layout.address position) ->
    sliceByte layout stored sliceId position = payload.getD (position - offset) 0
  held : forall position, offset ≤ position -> position < offset + payload.length ->
    Held layout stored sliceId position

variable {payload : Bytes}

/-- An upload to addressable positions replaces the bytes of its range and no
others. -/
theorem Uploads.bytes (uploads : Uploads layout sliceId offset payload store stored)
    (fits : offset + payload.length ≤ layout.addressable) {position : Nat}
    (addressable : position < layout.addressable) :
    sliceByte layout stored sliceId position =
      if offset ≤ position ∧ position < offset + payload.length then
        payload.getD (position - offset) 0
      else
        sliceByte layout store sliceId position := by
  split_ifs with inside
  · apply uploads.written position inside.1 inside.2
    intro later after below same
    have := ChunkLayout.address_injective (by omega) addressable same
    omega
  · exact uploads.toWritesWithin.sliceByte_eq fits addressable inside

theorem Uploads.nil (empty : payload = []) : Uploads layout sliceId offset payload store store := by
  subst empty
  refine ⟨⟨fun _ _ => rfl, fun _ _ _ => rfl, fun _ => le_rfl⟩, ?_, ?_⟩
  all_goals
    intro position from_ below
    exact absurd below (not_lt.mpr from_)

/-- Writing the first span of a payload and uploading the rest. -/
theorem Uploads.cons {span : Span .block}
    (inside : span.offset + span.len ≤ layout.blockSize) (enough : span.len ≤ payload.length)
    (later : Uploads layout sliceId (span.index * layout.blockSize + span.offset + span.len)
      (payload.drop span.len)
      (store.writeRange (sliceId, asU32 span.index) span.offset (payload.take span.len)) stored) :
    Uploads layout sliceId (span.index * layout.blockSize + span.offset) payload store stored := by
  have long : (payload.take span.len).length = span.len := by
    rw [length_take]
    omega
  have rest : (payload.drop span.len).length = payload.length - span.len := length_drop
  constructor
  · constructor
    · intro key different
      rw [later.others key different]
      exact Function.update_of_ne (fun same => different (congrArg Prod.fst same)) _ _
    · intro index within unaddressed
      rw [later.kept index within fun position from_ below =>
        unaddressed position (by omega) (by omega)]
      exact blockByte_writeSpan_of_unaddressed store long inside fun position from_ below =>
        unaddressed position from_ (by omega)
    · intro key
      exact le_trans (blockLength_writeRange ..).1 (later.grows key)
  · intro position from_ below last
    by_cases first : position < span.index * layout.blockSize + span.offset + span.len
    · have unchanged := later.kept (layout.address position).1 (layout.address position).2
        fun other from_ below => last other (by omega) (by omega)
      calc sliceByte layout stored sliceId position
          = (payload.take span.len).getD
              (position - (span.index * layout.blockSize + span.offset)) 0 := by
            rw [sliceByte, unchanged, address_of_mem inside from_ first, blockByte_writeRange,
              if_pos ⟨rfl, by dsimp only; omega, by dsimp only; omega⟩]
            congr 1
            dsimp only
            omega
        _ = payload.getD (position - (span.index * layout.blockSize + span.offset)) 0 := by
            simp only [getD_eq_getElem?_getD, getElem?_take]
            rw [if_pos (by omega)]
    · rw [later.written position (by omega) (by omega)
        fun other after below => last other after (by omega)]
      simp only [getD_eq_getElem?_getD, getElem?_drop]
      congr 2
      omega
  · intro position from_ below
    by_cases first : position < span.index * layout.blockSize + span.offset + span.len
    · have wide := (blockLength_writeRange store (sliceId, asU32 span.index)
        (sliceId, asU32 span.index) span.offset (payload.take span.len)).2 rfl
      have kept := later.grows (sliceId, asU32 span.index)
      rw [Held, address_of_mem inside from_ first]
      dsimp only
      omega
    · exact later.held position (by omega) (by omega)

namespace DataUploader

variable {cursor : ChunkCursor} {spans : List (Span .block)}

/-- The loop stores what the cursor has left, span by span. -/
theorem writeSpans_spec (store : BlockStore)
    (tiles : Tiles layout.blockSize offset spans length) (valid : cursor.Valid)
    (available : cursor.rest.length = length) :
    ∃ stored, writeSpans sliceId spans cursor store = some stored ∧
      Uploads layout sliceId offset cursor.rest store stored := by
  induction spans generalizing offset length cursor store with
  | nil =>
    have empty : length = 0 := tiles
    exact ⟨store, rfl, Uploads.nil (length_eq_zero_iff.mp (available.trans empty))⟩
  | cons span spans ih =>
    rcases tiles with ⟨rfl, nonempty, inside, remaining, total, tail⟩
    rcases ChunkCursor.take_spec span.len valid (by omega) with
      ⟨taken, moved, ran, head, left, kept⟩
    rcases ih (store.writeFreshVectored (sliceId, asU32 span.index) span.offset taken) tail kept
      (by rw [left, length_drop]; omega) with ⟨stored, wrote, later⟩
    rw [BlockStore.writeFreshVectored, head, left] at later
    refine ⟨stored, ?_, later.cons inside (by omega)⟩
    rw [writeSpans, ran]
    exact wrote

/-- An upload succeeds and stores the joined segments. -/
theorem writeAtVectored_spec (layout : ChunkLayout) (store : BlockStore) (sliceId offset : Nat)
    (chunks : List Bytes) :
    ∃ stored, writeAtVectored layout store sliceId offset chunks = some stored ∧
      Uploads layout sliceId offset chunks.flatten store stored := by
  have available : (ChunkCursor.new chunks).rest.length = (chunks.map List.length).sum :=
    length_flatten
  exact writeSpans_spec store (tiles_blockSpanIterSlice ..) (ChunkCursor.valid_new chunks) available

/-- A failed attempt changes nothing outside the range of the upload. -/
theorem writeSpansPartly_spec {landed : List Nat} (store : BlockStore)
    (tiles : Tiles layout.blockSize offset spans length) (valid : cursor.Valid)
    (available : cursor.rest.length = length) :
    ∃ stored, writeSpansPartly sliceId landed spans cursor store = some stored ∧
      WritesWithin layout sliceId offset length store stored := by
  induction spans generalizing offset length cursor store with
  | nil => exact ⟨store, rfl, fun _ _ => rfl, fun _ _ _ => rfl, fun _ => le_rfl⟩
  | cons span spans ih =>
    rcases tiles with ⟨rfl, nonempty, inside, remaining, rfl, tail⟩
    rcases ChunkCursor.take_spec span.len valid (by omega) with
      ⟨taken, moved, ran, head, left, kept⟩
    have long : taken.flatten.length = span.len := by
      rw [head, length_take]
      omega
    rcases ih (if span.index ∈ landed then
        store.writeFreshVectored (sliceId, asU32 span.index) span.offset taken
      else store) tail kept (by rw [left, length_drop]; omega) with ⟨stored, wrote, later⟩
    refine ⟨stored, ?_, fun key different => ?_, fun index within unaddressed => ?_,
      fun key => le_trans ?_ (later.grows key)⟩
    · rw [writeSpansPartly, ran]
      exact wrote
    · rw [later.others key different]
      split_ifs
      · exact Function.update_of_ne (fun same => different (congrArg Prod.fst same)) _ _
      · rfl
    · rw [later.kept index within fun position from_ below =>
        unaddressed position (by omega) (by omega)]
      split_ifs
      · exact blockByte_writeSpan_of_unaddressed store long inside fun position from_ below =>
          unaddressed position from_ (by omega)
      · rfl
    · split_ifs
      · exact (blockLength_writeRange ..).1
      · exact le_rfl

theorem failedWriteAtVectored_spec (layout : ChunkLayout) (store : BlockStore)
    (sliceId offset : Nat) (chunks : List Bytes) (landed : List Nat) :
    ∃ stored,
      failedWriteAtVectored layout store sliceId offset chunks landed = some stored ∧
      WritesWithin layout sliceId offset chunks.flatten.length store stored := by
  have available : (ChunkCursor.new chunks).rest.length = (chunks.map List.length).sum :=
    length_flatten
  rw [length_flatten]
  exact writeSpansPartly_spec store (tiles_blockSpanIterSlice ..) (ChunkCursor.valid_new chunks)
    available

end DataUploader

end Rk8s.Slayerfs
