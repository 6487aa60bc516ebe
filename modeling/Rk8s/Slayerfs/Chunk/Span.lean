import Mathlib.Tactic.Ring

namespace Rk8s.Slayerfs

open Nat

/-!
# Chunk layout and spans

A file is cut into chunks and a chunk into blocks.  A span is a range inside
one unit of a level: the index of the unit, the offset in it and a length.
`splitInto` walks such a range and yields the spans of the next finer level.

The walk is used for blocks of a slice and for pages of a buffer.  All of its
users need the same facts, which `Tiles` collects: the spans are nonempty, each
stays inside its unit, and together they are the given range without gaps.
-/

/-- The cast of `NumCastExt::as_u32`; the release build keeps the low 32 bits. -/
def asU32 (value : Nat) : Nat := value % 2 ^ 32

/-- Division rounding up. -/
def divCeil (first second : Nat) : Nat :=
  if first % second = 0 then first / second else first / second + 1

theorem divCeil_le_iff {first second bound : Nat} (positive : 0 < second) :
    divCeil first second ≤ bound ↔ first ≤ bound * second := by
  rw [divCeil]
  split_ifs with whole
  · rw [← Nat.mul_le_mul_right_iff positive, Nat.div_mul_cancel (Nat.dvd_of_mod_eq_zero whole)]
  · rw [add_one_le_iff, div_lt_iff_lt_mul positive]
    refine ⟨le_of_lt, fun fits => lt_of_le_of_ne fits ?_⟩
    rintro rfl
    exact whole (mul_mod_left ..)

/-- Sizes of chunks and blocks.  A zero block size would divide by zero, and
`split_into` asserts that the chunk is a multiple of the block. -/
structure ChunkLayout where
  chunkSize : Nat
  blockSize : Nat
  blockSize_pos : 0 < blockSize
  chunkSize_pos : 0 < chunkSize
  blockSize_dvd : blockSize ∣ chunkSize

/-- Chunks of `blocks + 1` blocks with `size + 1` bytes each. -/
def ChunkLayout.ofBlocks (blocks size : Nat) : ChunkLayout :=
  ⟨(blocks + 1) * (size + 1), size + 1, size.succ_pos, mul_pos blocks.succ_pos size.succ_pos,
    dvd_mul_left _ _⟩

/-- The markers `ChunkTag`, `BlockTag` and `PageTag`. -/
inductive SpanTag where
  | chunk
  | block
  | page

/-- The range `[offset, offset + len)` of the unit with number `index`. -/
structure Span (tag : SpanTag) where
  index : Nat
  offset : Nat
  len : Nat
deriving DecidableEq

/-- The iterator that `split_into` returns. -/
structure SpanIter (tag : SpanTag) where
  cursor : Nat
  remaining : Nat
  targetAlign : Nat
  baseOffset : Nat

variable {tag : SpanTag} {span : Span tag}

namespace SpanIter

def next (iter : SpanIter tag) : Option (Span tag × SpanIter tag) :=
  if iter.remaining = 0 then
    none
  else
    let effectiveVal := iter.cursor - iter.baseOffset
    let index := effectiveVal / iter.targetAlign
    let offset := effectiveVal % iter.targetAlign
    let capacity := iter.targetAlign - offset
    let take := min iter.remaining capacity
    some (⟨index, offset, take⟩,
      { iter with cursor := iter.cursor + take, remaining := iter.remaining - take })

/-- The items of at most `fuel` calls of `next`. -/
def collectUpTo : Nat -> SpanIter tag -> List (Span tag)
  | 0, _ => []
  | fuel + 1, iter =>
    match iter.next with
    | none => []
    | some (span, rest) => span :: collectUpTo fuel rest

/-- All items.  Every item takes at least one byte, so `remaining` calls are
enough. -/
def collect (iter : SpanIter tag) : List (Span tag) := collectUpTo iter.remaining iter

end SpanIter

namespace Span

/-- The spans of the target level inside `span`, with indices relative to the
parent unit or absolute. -/
def splitInto (target : SpanTag) (span : Span tag) (myAlign targetAlign : Nat)
    (relative : Bool) : SpanIter target where
  cursor := span.index * myAlign + span.offset
  remaining := span.len
  targetAlign := targetAlign
  baseOffset := if relative then span.index * myAlign else 0

end Span

/-- The spans are, in order and without gaps, the `length` bytes from
`position` on, each of them nonempty and inside one unit of size `align`. -/
def Tiles (align : Nat) : Nat -> List (Span tag) -> Nat -> Prop
  | _, [], length => length = 0
  | position, span :: spans, length =>
    span.index * align + span.offset = position ∧ 0 < span.len ∧
      span.offset + span.len ≤ align ∧
      Exists fun rest => length = span.len + rest ∧ Tiles align (position + span.len) spans rest

namespace SpanIter

/-- The collected spans tile what remains of the iterator. -/
theorem tiles_collectUpTo (iter : SpanIter tag) {fuel : Nat} (positive : 0 < iter.targetAlign)
    (based : iter.baseOffset ≤ iter.cursor) (enough : iter.remaining ≤ fuel) :
    Tiles iter.targetAlign (iter.cursor - iter.baseOffset) (collectUpTo fuel iter)
      iter.remaining := by
  induction fuel generalizing iter with
  | zero => exact le_zero.mp enough
  | succ fuel ih =>
    rw [collectUpTo, next]
    split_ifs with done
    · exact done
    -- An item is the part of the remaining range that lies in the unit of the cursor.
    have inside := mod_lt (iter.cursor - iter.baseOffset) positive
    dsimp only
    generalize taken : min iter.remaining
      (iter.targetAlign - (iter.cursor - iter.baseOffset) % iter.targetAlign) = count
    have tail := ih { iter with cursor := iter.cursor + count, remaining := iter.remaining - count }
      positive (Nat.le_add_right_of_le based) (Nat.sub_le_iff_le_add.mpr (by omega))
    rw [Nat.sub_add_comm based] at tail
    refine ⟨div_add_mod' _ _, ?_, ?_, iter.remaining - count, ?_, tail⟩
    all_goals
      dsimp only
      omega

end SpanIter

theorem tiles_splitInto (target : SpanTag) (span : Span tag) (myAlign : Nat) {targetAlign : Nat}
    (positive : 0 < targetAlign) :
    Tiles targetAlign span.offset (span.splitInto target myAlign targetAlign true).collect
      span.len := by
  have tiled := SpanIter.tiles_collectUpTo (span.splitInto target myAlign targetAlign true)
    positive (le_add_right _ _) le_rfl
  have start : span.index * myAlign + span.offset - span.index * myAlign = span.offset :=
    Nat.add_sub_cancel_left ..
  rw [← start]
  exact tiled

namespace Tiles

variable {align position : Nat}

theorem append {first second : List (Span tag)} {firstLen secondLen : Nat}
    (head : Tiles align position first firstLen)
    (tail : Tiles align (position + firstLen) second secondLen) :
    Tiles align position (first ++ second) (firstLen + secondLen) := by
  induction first generalizing position firstLen with
  | nil =>
    cases (show firstLen = 0 from head)
    simpa only [List.nil_append, zero_add, add_zero] using tail
  | cons span spans ih =>
    rcases head with ⟨placed, nonempty, inside, rest, rfl, follows⟩
    refine ⟨placed, nonempty, inside, rest + secondLen, add_assoc .., ih follows ?_⟩
    rwa [add_assoc]

variable {spans : List (Span tag)} {length : Nat}

/-- Moving every span by whole units moves the tiled range. -/
theorem shift (units : Nat) (tiles : Tiles align position spans length) :
    Tiles align (units * align + position)
      (spans.map fun span => (⟨units + span.index, span.offset, span.len⟩ : Span tag)) length := by
  induction spans generalizing position length with
  | nil => exact tiles
  | cons span spans ih =>
    rcases tiles with ⟨rfl, nonempty, inside, rest, total, follows⟩
    refine ⟨?_, nonempty, inside, rest, total, ?_⟩
    · rw [add_mul, add_assoc]
    · rw [add_assoc (units * align)]
      exact ih follows

variable (tiles : Tiles align position spans length)
include tiles

/-- No span of a tiling is empty, and each stays inside its unit. -/
theorem fits (member : span ∈ spans) : 0 < span.len ∧ span.offset + span.len ≤ align := by
  induction spans generalizing position length with
  | nil => cases member
  | cons head spans ih =>
    rcases tiles with ⟨_, nonempty, inside, rest, _, follows⟩
    rcases List.mem_cons.mp member with rfl | later
    · exact ⟨nonempty, inside⟩
    · exact ih follows later

theorem sum_len : (spans.map Span.len).sum = length := by
  induction spans generalizing position length with
  | nil => exact tiles.symm
  | cons head spans ih =>
    rcases tiles with ⟨_, _, _, rest, rfl, follows⟩
    rw [List.map_cons, List.sum_cons, ih follows]

end Tiles

/-- The span that holds a position says in which unit and where in it the
position lies. -/
theorem Span.div_mod_of_mem {align : Nat} (position : Nat)
    (inside : span.offset + span.len ≤ align) (from_ : span.index * align + span.offset ≤ position)
    (below : position < span.index * align + span.offset + span.len) :
    position / align = span.index ∧ position % align = position - span.index * align := by
  have positive : 0 < align := by omega
  rw [Nat.div_mod_unique positive, mul_comm align]
  omega

/-- The spans of the blocks of a range inside a slice or a chunk. -/
def blockSpanIterRange (offset length : Nat) (layout : ChunkLayout) : List (Span .block) :=
  ((⟨0, offset, length⟩ : Span .chunk).splitInto .block layout.chunkSize layout.blockSize
    true).collect

def blockSpanIterSlice (offset length : Nat) (layout : ChunkLayout) : List (Span .block) :=
  blockSpanIterRange offset length layout

theorem tiles_blockSpanIterSlice (offset length : Nat) (layout : ChunkLayout) :
    Tiles layout.blockSize offset (blockSpanIterSlice offset length layout) length :=
  tiles_splitInto .block (⟨0, offset, length⟩ : Span .chunk) layout.chunkSize layout.blockSize_pos

/-- The spans of the chunks that a range of the file touches. -/
def splitChunkSpans (layout : ChunkLayout) (offset len : Nat) : List (Span .chunk) :=
  if len = 0 then []
  else
    ((⟨offset / layout.chunkSize, offset % layout.chunkSize, len⟩ : Span .chunk).splitInto .chunk
      layout.chunkSize layout.chunkSize false).collect

theorem tiles_splitChunkSpans (layout : ChunkLayout) (offset len : Nat) :
    Tiles layout.chunkSize offset (splitChunkSpans layout offset len) len := by
  unfold splitChunkSpans
  split_ifs with empty
  · exact empty
  have tiled := SpanIter.tiles_collectUpTo
    ((⟨offset / layout.chunkSize, offset % layout.chunkSize, len⟩ : Span .chunk).splitInto .chunk
      layout.chunkSize layout.chunkSize false)
    layout.chunkSize_pos (zero_le _) le_rfl
  change Tiles _ (offset / layout.chunkSize * layout.chunkSize + offset % layout.chunkSize - 0) _ _
    at tiled
  rw [div_add_mod'] at tiled
  exact tiled

end Rk8s.Slayerfs
