import Rk8s.Slayerfs.Chunk.Store

namespace Rk8s.Slayerfs

open Option List Nat

/-!
# The page buffer of a slice

Bytes that were written but not uploaded live in pages.  A page is allocated,
zeroed, on the first write into it; it is mutable until it is frozen for an
upload and is released when the upload is done.  A write either appends at the
end of the buffer or overwrites bytes before it.

`byte` is the content of the buffer.  The specifications say that a write which
meets no frozen page succeeds and changes exactly the bytes of its range, and
that collecting pages for an upload returns the content.
-/

/-- Layout and page size of a writer.  `CacheSlice::new` asserts that a block is
a whole number of pages. -/
structure WriteConfig where
  layout : ChunkLayout
  pageSize : Nat
  pageSize_pos : 0 < pageSize
  pageSize_dvd : pageSize ∣ layout.blockSize

/-- A page with its buffer, `BytesMut` or `Bytes`. -/
inductive Page where
  | mutable (data : Bytes)
  | frozen (data : Bytes)

namespace Page

def new (size : Nat) : Page := .mutable (List.replicate size 0)

def freeze : Page -> Page
  | .mutable data => .frozen data
  | .frozen data => .frozen data

/-- The bytes of a frozen page; a mutable page is an error. -/
def bytes : Page -> Option Bytes
  | .mutable _ => none
  | .frozen data => some data

/-- The buffer of the page in either form. -/
def contents : Page -> Bytes
  | .mutable data => data
  | .frozen data => data

@[simp]
theorem contents_freeze (page : Page) : page.freeze.contents = page.contents := by
  cases page <;> rfl

@[simp]
theorem bytes_freeze (page : Page) : page.freeze.bytes = some page.contents := by
  cases page <;> rfl

end Page

/-- How a write changes the buffer. -/
inductive PageWriteAction where
  | overlap
  | append

namespace WriteConfig

variable (config : WriteConfig)

def pagesPerBlock : Nat := divCeil config.layout.blockSize config.pageSize

def flatIndex (blockIdx pageIdx : Nat) : Nat :=
  blockIdx * config.pagesPerBlock + pageIdx

theorem pagesPerBlock_mul : config.pagesPerBlock * config.pageSize = config.layout.blockSize := by
  rw [pagesPerBlock, divCeil, if_pos (Nat.mod_eq_zero_of_dvd config.pageSize_dvd),
    Nat.div_mul_cancel config.pageSize_dvd]

end WriteConfig

/-- The buffered bytes of a slice. -/
structure CacheSlice where
  len : Nat
  pages : List (Option Page)

namespace CacheSlice

variable (config : WriteConfig)

def new : CacheSlice where
  len := 0
  pages := List.replicate
    (divCeil config.layout.chunkSize config.layout.blockSize * config.pagesPerBlock) none

variable (slice : CacheSlice) (offset : Nat)

def canAppend : Bool := slice.len == offset

def canWriteAt (len : Nat) : Bool := offset + len ≤ slice.len

def canWrite (len : Nat) : Option PageWriteAction :=
  if slice.canAppend offset then some .append
  else if slice.canWriteAt offset len then some .overlap
  else none

/-- Copies the data into a page, which is allocated if it is missing.  The
second component is false where the source returns the error of a frozen page
or aborts on a bad index. -/
def writePage (flatIdx within : Nat) (data : Bytes) : CacheSlice × Bool :=
  match slice.pages[flatIdx]? with
  | none => (slice, false)
  | some cell =>
    match cell.getD (Page.new config.pageSize) with
    | .frozen _ => (slice, false)
    | .mutable buf =>
      if within + data.length ≤ buf.length then
        ({ slice with pages := slice.pages.set flatIdx (some (.mutable (copyInto buf within data))) },
          true)
      else
        (slice, false)

/-- The pages of a range with their flat indices, block by block. -/
def pageSpans (length : Nat) : List (Span .page) :=
  (blockSpanIterRange offset length config.layout).flatMap fun blockSpan =>
    ((blockSpan.splitInto .page config.layout.blockSize config.pageSize true).collect).map
      fun pageSpan =>
        ⟨config.flatIndex blockSpan.index pageSpan.index, pageSpan.offset, pageSpan.len⟩

/-- The loops of `write_at`: each page span takes the next bytes of the buffer. -/
def writeSpans : List (Span .page) -> Bytes -> CacheSlice -> CacheSlice × Bool
  | [], _, slice => (slice, true)
  | span :: spans, buf, slice =>
    match slice.writePage config span.index span.offset (buf.take span.len) with
    | (slice, false) => (slice, false)
    | (slice, true) => writeSpans spans (buf.drop span.len) slice

def writeAt (buf : Bytes) : CacheSlice × Bool :=
  writeSpans config (pageSpans config offset buf.length) buf slice

/-- The page and the offset in it where the next byte is appended. -/
def nextWriteSlotFlat : Nat × Nat :=
  let blockIndex := slice.len / config.layout.blockSize
  let withinBlock := slice.len % config.layout.blockSize
  let pageIndex := withinBlock / config.pageSize
  let withinPage := withinBlock % config.pageSize
  (config.flatIndex blockIndex pageIndex, withinPage)

/-- The loop of `append`; each round fills a page or takes the rest of the buffer. -/
def appendLoop : Nat -> Bytes -> CacheSlice -> CacheSlice × Bool
  | 0, _, slice => (slice, true)
  | fuel + 1, buf, slice =>
    if buf.length = 0 then
      (slice, true)
    else
      let (flatIdx, withinPage) := slice.nextWriteSlotFlat config
      let read := min buf.length (config.pageSize - withinPage)
      match slice.writePage config flatIdx withinPage (buf.take read) with
      | (slice, false) => (slice, false)
      | (slice, true) =>
        if read = 0 then
          (slice, true)
        else
          appendLoop fuel (buf.drop read) { slice with len := slice.len + read }

def append (buf : Bytes) : CacheSlice × Bool :=
  if slice.len + buf.length ≤ config.layout.chunkSize then
    appendLoop config buf.length buf slice
  else
    (slice, false)

def write (buf : Bytes) : PageWriteAction -> CacheSlice × Bool
  | .append => slice.append config buf
  | .overlap => slice.writeAt config offset buf

def freeze (slice : CacheSlice) : CacheSlice :=
  { slice with pages := slice.pages.map (Option.map Page.freeze) }

def freezeBlocks (start stop : Nat) : CacheSlice :=
  { slice with
    pages := slice.pages.mapIdx fun flatIdx page =>
      if start * config.pagesPerBlock ≤ flatIdx ∧ flatIdx < stop * config.pagesPerBlock then
        page.map Page.freeze
      else
        page }

def releaseBlock (blocks : List Nat) : CacheSlice :=
  { slice with
    pages := slice.pages.mapIdx fun flatIdx page =>
      if flatIdx / config.pagesPerBlock ∈ blocks then none else page }

def releaseAll : CacheSlice :=
  { slice with pages := slice.pages.map fun _ => none }

/-- The first `take` bytes of a page for an upload.  A missing page is sent as
zeros, a mutable one is an error. -/
def pageBytes (flatIdx take : Nat) : Option Bytes :=
  match slice.pages[flatIdx]? with
  | none => none
  | some none => some (List.replicate take 0)
  | some (some page) => page.bytes.map fun bytes => bytes.take take

/-- The inner loop of `collect_pages`, with the bytes that remain to be
collected. -/
def collectBlock (slice : CacheSlice) (blockIdx : Nat) :
    List Nat -> Nat -> Option (List Bytes × Nat)
  | [], remaining => some ([], remaining)
  | pageIdx :: pageIdxs, remaining =>
    if remaining = 0 then
      some ([], 0)
    else do
      let take := min remaining config.pageSize
      let bytes <- slice.pageBytes (config.flatIndex blockIdx pageIdx) take
      let (pages, remaining) <- collectBlock slice blockIdx pageIdxs (remaining - take)
      return (bytes :: pages, remaining)

/-- The outer loop of `collect_pages`. -/
def collectBlocks (slice : CacheSlice) : List Nat -> Nat -> Option (List (Nat × List Bytes))
  | [], _ => some []
  | blockIdx :: blockIdxs, remaining => do
      let (pages, remaining) <-
        collectBlock config slice blockIdx (List.range config.pagesPerBlock) remaining
      let out <- collectBlocks slice blockIdxs remaining
      return (blockIdx, pages) :: out

def collectPages (start stop : Nat) : Option (List (Nat × List Bytes)) :=
  let remaining := slice.len - start * config.layout.blockSize
  if remaining = 0 then
    some []
  else
    collectBlocks config slice (List.range' start (stop - start)) remaining

/-- The bytes of a page, none of them if the page is missing. -/
def pageContents (flatIdx : Nat) : Bytes :=
  (slice.pages[flatIdx]?.getD none).elim [] Page.contents

/-- The content of the buffer; bytes without a page are zero. -/
def byte (position : Nat) : UInt8 :=
  (slice.pageContents (position / config.pageSize)).getD (position % config.pageSize) 0

/-- The buffer has room for a chunk and every page has the page size. -/
structure Sized (slice : CacheSlice) : Prop where
  room : slice.pages.length * config.pageSize = config.layout.chunkSize
  page : forall page, some page ∈ slice.pages -> page.contents.length = config.pageSize

/-- No page from the given flat index on is frozen. -/
def MutableFrom (start : Nat) : Prop :=
  forall flatIdx data, start ≤ flatIdx -> slice.pages[flatIdx]? ≠ some (some (.frozen data))

variable {slice : CacheSlice} {start : Nat}

theorem MutableFrom.mono {later : Nat} (after : start ≤ later) (thawed : slice.MutableFrom start) :
    slice.MutableFrom later :=
  fun flatIdx data above => thawed flatIdx data (le_trans after above)

/-- The effect of writing `data` at `position`, apart from the length. -/
structure Wrote (slice : CacheSlice) (position : Nat) (data : Bytes) (written : CacheSlice) :
    Prop where
  sized : written.Sized config
  byte : forall other, written.byte config other =
    if position ≤ other ∧ other < position + data.length then data.getD (other - position) 0
    else slice.byte config other
  mutableFrom : forall start, slice.MutableFrom start -> written.MutableFrom start

/-! ## Writes -/

variable {config}

theorem sized_new : (new config).Sized config := by
  constructor
  · rw [new, length_replicate, Nat.mul_assoc, config.pagesPerBlock_mul, divCeil,
      if_pos (Nat.mod_eq_zero_of_dvd config.layout.blockSize_dvd),
      Nat.div_mul_cancel config.layout.blockSize_dvd]
  · intro page member
    cases eq_of_mem_replicate member

theorem Wrote.refl (sized : slice.Sized config) (position : Nat) :
    slice.Wrote config position [] slice := by
  refine ⟨sized, fun other => ?_, fun _ => id⟩
  rw [length_nil, if_neg (by omega)]

variable {position : Nat} {data : Bytes}

/-- Two writes of adjacent data are one write. -/
theorem Wrote.trans {first second third : CacheSlice} {next : Nat} {head tail : Bytes}
    (front : first.Wrote config position head second) (adjacent : next = position + head.length)
    (back : second.Wrote config next tail third) :
    first.Wrote config position (head ++ tail) third := by
  subst adjacent
  refine ⟨back.sized, fun other => ?_, fun start kept => back.mutableFrom start
    (front.mutableFrom start kept)⟩
  rw [back.byte, front.byte, length_append]
  by_cases inTail : position + head.length ≤ other ∧ other < position + head.length + tail.length
  · rw [if_pos inTail, if_pos (by omega), getD_append_right _ _ _ _ (by omega)]
    congr 1
    omega
  · rw [if_neg inTail]
    by_cases inHead : position ≤ other ∧ other < position + head.length
    · rw [if_pos inHead, if_pos (by omega), getD_append _ _ _ _ (by omega)]
    · rw [if_neg inHead, if_neg (by omega)]

theorem Wrote.setLen {written : CacheSlice} (len : Nat)
    (wrote : slice.Wrote config position data written) :
    slice.Wrote config position data { written with len := len } :=
  ⟨⟨wrote.sized.room, wrote.sized.page⟩, wrote.byte, wrote.mutableFrom⟩

variable {flatIdx : Nat} {other : CacheSlice} {length from_ : Nat}

/-- The pages of the blocks of a range tile the range. -/
theorem tiles_pageSpans (config : WriteConfig) (offset length : Nat) :
    Tiles config.pageSize offset (pageSpans config offset length) length := by
  have blocks : Tiles config.layout.blockSize offset
      (blockSpanIterRange offset length config.layout) length :=
    tiles_blockSpanIterSlice offset length config.layout
  unfold pageSpans
  generalize blockSpanIterRange offset length config.layout = spans at blocks
  induction spans generalizing offset length with
  | nil => exact blocks
  | cons block spans ih =>
    rcases blocks with ⟨rfl, _, _, rest, rfl, tail⟩
    refine Tiles.append ?_ (ih _ _ tail)
    have pages := (tiles_splitInto .page block config.layout.blockSize config.pageSize_pos).shift
      (block.index * config.pagesPerBlock)
    rwa [mul_assoc, config.pagesPerBlock_mul] at pages

/-- The next slot is the place of the first byte past the end. -/
theorem nextWriteSlotFlat_spec (config : WriteConfig) (slice : CacheSlice) :
    (slice.nextWriteSlotFlat config).1 * config.pageSize + (slice.nextWriteSlotFlat config).2 =
        slice.len ∧
      (slice.nextWriteSlotFlat config).2 < config.pageSize := by
  refine ⟨?_, mod_lt _ config.pageSize_pos⟩
  simp only [nextWriteSlotFlat, WriteConfig.flatIndex]
  rw [add_mul, mul_assoc, config.pagesPerBlock_mul, add_assoc, div_add_mod',
    div_add_mod']

section

variable (sized : slice.Sized config)
include sized

/-- A page that is missing or mutable has a mutable buffer with the same bytes. -/
theorem exists_mutable {cell : Option Page}
    (found : slice.pages[flatIdx]? = some cell)
    (thawed : ∀ frozen, slice.pages[flatIdx]? ≠ some (some (.frozen frozen))) :
    ∃ buf, cell.getD (Page.new config.pageSize) = .mutable buf ∧
      buf.length = config.pageSize ∧
      ∀ i, buf.getD i 0 = (cell.elim [] Page.contents).getD i 0 := by
  cases cell with
  | none =>
    refine ⟨List.replicate config.pageSize 0, rfl, length_replicate, fun i => ?_⟩
    rw [elim_none, getD_nil]
    by_cases inside : i < config.pageSize
    · rw [getD_replicate _ inside]
    · rw [getD_eq_default _ _ (by rw [length_replicate]; omega)]
  | some page =>
    cases page with
    | mutable buf =>
      exact ⟨buf, rfl, sized.page (.mutable buf) (mem_of_getElem? found), fun _ => rfl⟩
    | frozen buf => exact absurd found (thawed buf)

/-- A write into a page that is not frozen succeeds. -/
theorem writePage_spec {within : Nat} (room : flatIdx < slice.pages.length)
    (fits : within + data.length ≤ config.pageSize)
    (thawed : ∀ frozen, slice.pages[flatIdx]? ≠ some (some (.frozen frozen))) :
    ∃ written, slice.writePage config flatIdx within data = (written, true) ∧
      slice.Wrote config (flatIdx * config.pageSize + within) data written ∧
      written.len = slice.len := by
  have found := getElem?_eq_getElem room
  rcases exists_mutable sized found thawed with ⟨buf, opened, size, same⟩
  have wrote : slice.writePage config flatIdx within data =
      ({ slice with pages := slice.pages.set flatIdx (some (.mutable (copyInto buf within data))) },
        true) := by
    rw [writePage, found]
    dsimp only
    rw [opened]
    dsimp only
    rw [if_pos (by omega)]
  refine ⟨_, wrote, ⟨⟨?_, ?_⟩, ?_, ?_⟩, rfl⟩
  · rw [length_set]
    exact sized.room
  · intro page member
    rcases mem_or_eq_of_mem_set member with old | new
    · exact sized.page page old
    · cases some_inj.mp new
      change (copyInto buf within data).length = config.pageSize
      rw [length_copyInto]
      omega
  · intro other
    have whole := Nat.div_add_mod' other config.pageSize
    by_cases here : other / config.pageSize = flatIdx
    · have current : slice.byte config other = buf.getD (other % config.pageSize) 0 := by
        rw [byte, pageContents, here, found, same]
        rfl
      rw [current, byte, pageContents, here]
      simp only [getElem?_set_self room, getD_some, elim_some, Page.contents]
      rw [getD_copyInto]
      rw [here] at whole
      by_cases inside : within ≤ other % config.pageSize ∧
          other % config.pageSize < within + data.length
      · rw [if_pos inside, if_pos (by omega)]
        congr 1
        omega
      · rw [if_neg inside, if_neg (by omega)]
    · rw [byte, byte, pageContents, pageContents]
      simp only [getElem?_set_ne (Ne.symm here)]
      rw [if_neg]
      rintro ⟨above, below⟩
      apply here
      exact (Nat.div_mod_unique config.pageSize_pos (d := flatIdx)
        (c := other - flatIdx * config.pageSize)).mpr
        ⟨by rw [mul_comm config.pageSize]; omega, by omega⟩ |>.1
  · intro start kept index frozen after
    by_cases here : flatIdx = index
    · subst here
      rw [getElem?_set_self room]
      intro equal
      cases equal
    · rw [getElem?_set_ne here]
      exact kept index frozen after

variable (thawed : slice.MutableFrom start)
include thawed

/-- A nonempty write of one page span, in terms of positions. -/
theorem writePage_of_mutableFrom (span : Span .page) (data : Bytes) (nonempty : 0 < data.length)
    (inside : span.offset + data.length ≤ config.pageSize)
    (room : span.index * config.pageSize + span.offset < config.layout.chunkSize)
    (after : start * config.pageSize ≤ span.index * config.pageSize + span.offset) :
    ∃ written, slice.writePage config span.index span.offset data = (written, true) ∧
      slice.Wrote config (span.index * config.pageSize + span.offset) data written ∧
      written.len = slice.len := by
  have bound : span.index * config.pageSize < slice.pages.length * config.pageSize := by
    rw [sized.room]
    omega
  have reach : start * config.pageSize < (span.index + 1) * config.pageSize := by
    rw [Nat.succ_mul]
    omega
  have index : start ≤ span.index := Nat.le_of_lt_succ (Nat.lt_of_mul_lt_mul_right reach)
  exact writePage_spec sized (Nat.lt_of_mul_lt_mul_right bound) inside
    fun frozen => thawed span.index frozen index

theorem writeSpans_spec {spans : List (Span .page)} (buf : Bytes)
    (tiles : Tiles config.pageSize position spans length) (available : buf.length = length)
    (room : position + length ≤ config.layout.chunkSize)
    (after : start * config.pageSize ≤ position) :
    ∃ written, writeSpans config spans buf slice = (written, true) ∧
      slice.Wrote config position buf written ∧ written.len = slice.len := by
  induction spans generalizing slice position length buf with
  | nil =>
    cases (show length = 0 from tiles)
    cases length_eq_zero_iff.mp available
    exact ⟨slice, rfl, Wrote.refl sized position, rfl⟩
  | cons span spans ih =>
    rcases tiles with ⟨rfl, nonempty, inside, rest, total, tail⟩
    have taken : (buf.take span.len).length = span.len := by
      rw [length_take]
      omega
    rcases writePage_of_mutableFrom sized thawed span (buf.take span.len) (by omega) (by omega)
      (by omega) after with ⟨first, wrote, head, sameLen⟩
    rcases ih head.sized (head.mutableFrom start thawed) (buf.drop span.len) tail
      (by rw [length_drop]; omega) (by omega) (by omega) with ⟨written, ran, rear, lenKept⟩
    refine ⟨written, ?_, ?_, lenKept.trans sameLen⟩
    · rw [writeSpans, wrote]
      exact ran
    · have joined := head.trans (by rw [taken]) rear
      rwa [take_append_drop] at joined

/-- Overwriting bytes of the buffer past the frozen pages succeeds. -/
theorem writeAt_spec (offset : Nat) (buf : Bytes)
    (room : offset + buf.length ≤ config.layout.chunkSize)
    (after : start * config.pageSize ≤ offset) :
    ∃ written, slice.writeAt config offset buf = (written, true) ∧
      slice.Wrote config offset buf written ∧ written.len = slice.len :=
  writeSpans_spec sized thawed buf (tiles_pageSpans config offset buf.length) rfl room after

theorem appendLoop_spec {fuel : Nat} (buf : Bytes) (enough : buf.length ≤ fuel)
    (room : slice.len + buf.length ≤ config.layout.chunkSize)
    (after : start * config.pageSize ≤ slice.len) :
    ∃ written, appendLoop config fuel buf slice = (written, true) ∧
      slice.Wrote config slice.len buf written ∧ written.len = slice.len + buf.length := by
  induction fuel generalizing buf slice with
  | zero =>
    cases length_eq_zero_iff.mp (le_zero.mp enough)
    exact ⟨slice, rfl, Wrote.refl sized slice.len, rfl⟩
  | succ fuel ih =>
    rw [appendLoop]
    by_cases done : buf.length = 0
    · cases length_eq_zero_iff.mp done
      exact ⟨slice, if_pos done, Wrote.refl sized slice.len, rfl⟩
    rw [if_neg done]
    rcases slice.nextWriteSlotFlat_spec config with ⟨slot, small⟩
    generalize slice.nextWriteSlotFlat config = next at slot small ⊢
    rcases next with ⟨flatIdx, withinPage⟩
    dsimp only at slot small ⊢
    generalize amount : min buf.length (config.pageSize - withinPage) = read
    have taken : (buf.take read).length = read := by
      rw [length_take]
      omega
    rcases writePage_of_mutableFrom sized thawed ⟨flatIdx, withinPage, read⟩
      (buf.take read) (by omega) (by dsimp only; omega) (by dsimp only; omega)
      (by dsimp only; omega) with ⟨first, wrote, head, sameLen⟩
    rw [slot] at head
    have grown := head.setLen (first.len + read)
    rcases ih grown.sized (grown.mutableFrom start thawed) (buf.drop read)
      (by rw [length_drop]; omega) (by rw [length_drop]; dsimp only; omega)
      (by dsimp only; omega) with ⟨written, ran, rear, lenKept⟩
    refine ⟨written, ?_, ?_, ?_⟩
    · rw [wrote]
      dsimp only
      rw [if_neg (by omega)]
      exact ran
    · have joined := grown.trans (by rw [taken, ← sameLen]) rear
      rwa [take_append_drop] at joined
    · rw [lenKept, length_drop]
      dsimp only
      omega

/-- Appending to the buffer past the frozen pages succeeds. -/
theorem append_spec (buf : Bytes) (room : slice.len + buf.length ≤ config.layout.chunkSize)
    (after : start * config.pageSize ≤ slice.len) :
    ∃ written, slice.append config buf = (written, true) ∧
      slice.Wrote config slice.len buf written ∧ written.len = slice.len + buf.length := by
  rw [append, if_pos room]
  exact appendLoop_spec sized thawed buf le_rfl room after

end

/-! ## Freezing and releasing pages -/

theorem byte_congr (same : other.pageContents (position / config.pageSize) =
      slice.pageContents (position / config.pageSize)) :
    other.byte config position = slice.byte config position := by
  rw [byte, byte, same]

theorem elim_freeze (cell : Option Page) :
    (cell.map Page.freeze).elim [] Page.contents = cell.elim [] Page.contents := by
  cases cell with
  | none => rfl
  | some page => exact page.contents_freeze

theorem byte_freeze (slice : CacheSlice) (position : Nat) :
    slice.freeze.byte config position = slice.byte config position := by
  apply byte_congr
  rw [pageContents, pageContents, freeze, getElem?_map]
  cases slice.pages[position / config.pageSize]? with
  | none => rfl
  | some cell => exact elim_freeze cell

theorem sized_freeze (sized : slice.Sized config) : slice.freeze.Sized config := by
  constructor
  · rw [freeze, length_map]
    exact sized.room
  intro page member
  rcases mem_map.mp member with ⟨cell, listed, equal⟩
  rcases map_eq_some_iff.mp equal with ⟨old, rfl, rfl⟩
  rw [Page.contents_freeze]
  exact sized.page old listed

theorem byte_freezeBlocks (slice : CacheSlice) (start stop position : Nat) :
    (slice.freezeBlocks config start stop).byte config position = slice.byte config position := by
  apply byte_congr
  rw [pageContents, pageContents, freezeBlocks, getElem?_mapIdx]
  cases slice.pages[position / config.pageSize]? with
  | none => rfl
  | some cell =>
    split_ifs with chosen
    · exact elim_freeze cell
    · rfl

theorem sized_freezeBlocks (start stop : Nat) (sized : slice.Sized config) :
    (slice.freezeBlocks config start stop).Sized config := by
  constructor
  · rw [freezeBlocks, length_mapIdx]
    exact sized.room
  intro page member
  rcases mem_mapIdx.mp member with ⟨flatIdx, bound, equal⟩
  have listed := getElem_mem bound
  split_ifs at equal with chosen
  · rcases map_eq_some_iff.mp equal with ⟨old, found, rfl⟩
    rw [Page.contents_freeze]
    exact sized.page old (found ▸ listed)
  · exact sized.page page (equal ▸ listed)

/-- Pages past the blocks that are frozen stay mutable. -/
theorem mutableFrom_freezeBlocks {stop : Nat} (past : stop * config.pagesPerBlock ≤ from_)
    (thawed : slice.MutableFrom from_) :
    (slice.freezeBlocks config start stop).MutableFrom from_ := by
  intro flatIdx data after
  rw [freezeBlocks, getElem?_mapIdx]
  intro found
  rcases map_eq_some_iff.mp found with ⟨cell, old, equal⟩
  rw [if_neg (by omega)] at equal
  exact thawed flatIdx data after (equal ▸ old)

/-- The pages of the blocks can be handed to an upload. -/
def FrozenBlocks (config : WriteConfig) (slice : CacheSlice) (start stop : Nat) : Prop :=
  forall flatIdx page, start * config.pagesPerBlock ≤ flatIdx ->
    flatIdx < stop * config.pagesPerBlock ->
    slice.pages[flatIdx]? = some (some page) -> page.bytes = some page.contents

theorem frozenBlocks_freezeBlocks (slice : CacheSlice) (start stop : Nat) :
    (slice.freezeBlocks config start stop).FrozenBlocks config start stop := by
  intro flatIdx page above below found
  rw [freezeBlocks, getElem?_mapIdx] at found
  rcases map_eq_some_iff.mp found with ⟨cell, _, equal⟩
  rw [if_pos ⟨above, below⟩] at equal
  rcases map_eq_some_iff.mp equal with ⟨old, _, rfl⟩
  rw [Page.bytes_freeze, Page.contents_freeze]

/-- Releasing blocks keeps the bytes of the others. -/
theorem byte_releaseBlock {blocks : List Nat} (kept : position / config.layout.blockSize ∉ blocks) :
    (slice.releaseBlock config blocks).byte config position = slice.byte config position := by
  apply byte_congr
  have block : position / config.pageSize / config.pagesPerBlock =
      position / config.layout.blockSize := by
    rw [Nat.div_div_eq_div_mul, mul_comm, config.pagesPerBlock_mul]
  rw [pageContents, pageContents, releaseBlock, getElem?_mapIdx]
  cases slice.pages[position / config.pageSize]? with
  | none => rfl
  | some cell =>
    simp only [map_some]
    rw [if_neg (block ▸ kept)]

theorem sized_releaseBlock (blocks : List Nat) (sized : slice.Sized config) :
    (slice.releaseBlock config blocks).Sized config := by
  constructor
  · rw [releaseBlock, length_mapIdx]
    exact sized.room
  · intro page member
    rcases mem_mapIdx.mp member with ⟨flatIdx, bound, equal⟩
    split_ifs at equal
    exact sized.page page (equal ▸ getElem_mem bound)

theorem mutableFrom_releaseBlock (blocks : List Nat)
    (thawed : slice.MutableFrom from_) : (slice.releaseBlock config blocks).MutableFrom from_ := by
  intro flatIdx data after
  rw [releaseBlock, getElem?_mapIdx]
  intro found
  rcases map_eq_some_iff.mp found with ⟨cell, old, equal⟩
  split_ifs at equal
  exact thawed flatIdx data after (equal ▸ old)

/-! ## Collecting the pages of an upload -/

/-- The bytes of the buffer in a range. -/
def segment (config : WriteConfig) (slice : CacheSlice) (position length : Nat) : Bytes :=
  (List.range length).map fun i => slice.byte config (position + i)

theorem segment_add (slice : CacheSlice) (position first second : Nat) :
    slice.segment config position (first + second) =
      slice.segment config position first ++ slice.segment config (position + first) second := by
  unfold segment
  rw [range_add, map_append, List.map_map]
  congr 1
  apply map_congr_left
  intro i _
  exact congrArg (slice.byte config) (add_assoc position first i).symm

/-- A range cut off at `remaining` bytes is collected piece by piece. -/
theorem segment_min (slice : CacheSlice) (position remaining size rest : Nat) :
    slice.segment config position (min remaining size) ++
        slice.segment config (position + size) (min (remaining - min remaining size) rest) =
      slice.segment config position (min remaining (size + rest)) := by
  rcases le_total size remaining with full | short
  · rw [min_eq_right full, ← segment_add]
    congr 1
    omega
  · have none : min (remaining - min remaining size) rest = 0 := by omega
    rw [none, show slice.segment config (position + size) 0 = [] from rfl, append_nil]
    congr 1
    omega

theorem segment_congr
    (same : ∀ i < length, other.byte config (position + i) = slice.byte config (position + i)) :
    other.segment config position length = slice.segment config position length :=
  map_congr_left fun i listed => same i (mem_range.mp listed)

theorem length_segment (slice : CacheSlice) (position length : Nat) :
    (slice.segment config position length).length = length := by
  rw [segment, length_map, length_range]

theorem getD_segment {i : Nat} (inside : i < length) :
    (slice.segment config position length).getD i 0 = slice.byte config (position + i) := by
  rw [getD_eq_getElem _ _ (by rwa [length_segment])]
  simp only [segment, getElem_map, getElem_range]

theorem eq_segment {take : Nat} {bytes : Bytes} (long : bytes.length = take)
    (fits : take ≤ config.pageSize)
    (same : ∀ i < take, bytes.getD i 0 = (slice.pageContents flatIdx).getD i 0) :
    bytes = slice.segment config (flatIdx * config.pageSize) take := by
  apply ext_getElem
  · rw [length_segment, long]
  intro i inside _
  have page : (flatIdx * config.pageSize + i) / config.pageSize = flatIdx ∧
      (flatIdx * config.pageSize + i) % config.pageSize = i := by
    rw [Nat.div_mod_unique config.pageSize_pos, mul_comm config.pageSize]
    omega
  simp only [segment, getElem_map, getElem_range]
  rw [byte, page.1, page.2, ← same i (by omega), getD_eq_getElem]

/-- What the loop sends for one page is the content of its positions. -/
theorem pageBytes_spec (take : Nat) (sized : slice.Sized config)
    (bound : flatIdx < slice.pages.length) (fits : take ≤ config.pageSize)
    (frozen : ∀ page, slice.pages[flatIdx]? = some (some page) -> page.bytes = some page.contents) :
    slice.pageBytes flatIdx take =
      some (slice.segment config (flatIdx * config.pageSize) take) := by
  rcases List.getElem?_eq_some_iff.mpr ⟨bound, rfl⟩ with found
  rw [pageBytes]
  cases cell : slice.pages[flatIdx]? with
  | none => rw [cell] at found; cases found
  | some page =>
    cases page with
    | none =>
      refine congrArg some (eq_segment length_replicate fits fun i inside => ?_)
      rw [pageContents, cell, getD_replicate _ inside]
      rfl
    | some page =>
      have long := sized.page page (mem_of_getElem? cell)
      dsimp only
      rw [frozen page cell, map_some]
      refine congrArg some (eq_segment (by rw [length_take]; omega) fits fun i inside => ?_)
      rw [pageContents, cell]
      simp only [getD_eq_getElem?_getD, getElem?_take, if_pos inside]
      rfl

theorem collectBlock_spec {blockIdx : Nat} (first count remaining : Nat)
    (sized : slice.Sized config) (frozen : slice.FrozenBlocks config blockIdx (blockIdx + 1))
    (inBlock : first + count ≤ config.pagesPerBlock)
    (room : (blockIdx + 1) * config.pagesPerBlock ≤ slice.pages.length) :
    ∃ pages,
      collectBlock config slice blockIdx (List.range' first count) remaining =
        some (pages, remaining - min remaining (count * config.pageSize)) ∧
      pages.flatten = slice.segment config (config.flatIndex blockIdx first * config.pageSize)
        (min remaining (count * config.pageSize)) := by
  induction count generalizing first remaining with
  | zero => exact ⟨[], by simp [collectBlock], by simp [segment]⟩
  | succ count ih =>
    rw [range'_succ, collectBlock]
    by_cases done : remaining = 0
    · subst done
      exact ⟨[], by simp, by simp [segment]⟩
    rw [if_neg done, Nat.succ_mul]
    generalize amount : min remaining config.pageSize = take
    have above : blockIdx * config.pagesPerBlock ≤ config.flatIndex blockIdx first :=
      Nat.le_add_right ..
    have below : config.flatIndex blockIdx first < (blockIdx + 1) * config.pagesPerBlock := by
      rw [WriteConfig.flatIndex, Nat.succ_mul]
      omega
    have bound := below.trans_le room
    have sent := pageBytes_spec take sized bound (by omega)
      fun page => frozen _ page above below
    rcases ih (first + 1) (remaining - take) (by omega) with
      ⟨pages, ran, joined⟩
    refine ⟨slice.segment config (config.flatIndex blockIdx first * config.pageSize) take ::
      pages, ?_, ?_⟩
    · simp only [sent, ran, bind_eq_bind, bind_some]
      congr 2
      omega
    rw [flatten_cons, joined]
    have next : config.flatIndex blockIdx (first + 1) * config.pageSize =
        config.flatIndex blockIdx first * config.pageSize + config.pageSize := by
      rw [WriteConfig.flatIndex, ← add_assoc, Nat.succ_mul, WriteConfig.flatIndex]
    rw [next, ← amount, segment_min, add_comm (count * _)]

/-- Consecutive blocks from `first` on. -/
theorem collectBlocks_spec (first count remaining : Nat) (sized : slice.Sized config)
    (frozen : slice.FrozenBlocks config first (first + count))
    (room : (first + count) * config.pagesPerBlock ≤ slice.pages.length) :
    ∃ data,
      collectBlocks config slice (List.range' first count) remaining = some data ∧
      data.map Prod.fst = List.range' first count ∧
      (data.map fun block => block.2.flatten).flatten =
        slice.segment config (first * config.layout.blockSize)
          (min remaining (count * config.layout.blockSize)) := by
  induction count generalizing first remaining with
  | zero => exact ⟨[], rfl, rfl, by simp [segment]⟩
  | succ count ih =>
    have blockFrozen : slice.FrozenBlocks config first (first + 1) := by
      intro flatIdx page above below
      refine frozen flatIdx page above (lt_of_lt_of_le below ?_)
      exact mul_le_mul_right _ (by omega)
    have blockRoom : (first + 1) * config.pagesPerBlock ≤ slice.pages.length :=
      le_trans (mul_le_mul_right _ (by omega)) room
    rcases collectBlock_spec 0 config.pagesPerBlock remaining
      sized blockFrozen (by omega) blockRoom with ⟨pages, ran, piece⟩
    rw [config.pagesPerBlock_mul] at ran piece
    rw [WriteConfig.flatIndex, add_zero, mul_assoc, config.pagesPerBlock_mul] at piece
    rcases ih (first + 1) (remaining - min remaining config.layout.blockSize)
      (fun flatIdx page above below => frozen flatIdx page
        (le_trans (mul_le_mul_right _ (le_succ _)) above)
        (by rwa [add_right_comm, add_assoc] at below))
      (by rwa [add_right_comm, add_assoc]) with ⟨data, rest, indices, joined⟩
    refine ⟨(first, pages) :: data, ?_, ?_, ?_⟩
    · rw [range'_succ, collectBlocks, range_eq_range']
      simp only [ran, rest, bind_eq_bind, bind_some, Option.pure_def]
    · rw [map_cons, indices, range'_succ]
    · rw [map_cons, flatten_cons, piece, joined, succ_mul count]
      rw [succ_mul first, segment_min, add_comm (count * _)]

end CacheSlice

end Rk8s.Slayerfs
