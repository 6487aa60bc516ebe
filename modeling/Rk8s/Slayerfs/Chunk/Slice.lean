import Rk8s.Lib.Overlay
import Rk8s.Slayerfs.Chunk.Store

namespace Rk8s.Slayerfs

/-!
# Slice descriptors

A slice is one immutable write to a chunk.  The metadata of a chunk is the list
of its slices in the order they were committed; a later slice hides what an
earlier one has in the same place.  `chunkContent` states that reading, as the
overlay of the slices over zeros.
-/

/-- A contiguous range of a chunk whose bytes are stored under a slice id. -/
structure SliceDesc where
  sliceId : Nat
  chunkId : Nat
  offset : Nat
  length : Nat
deriving DecidableEq

variable (layout : ChunkLayout)

/-- The bytes of the chunk that a slice replaces, taken from the block store. -/
def SliceDesc.patch (store : BlockStore) (slice : SliceDesc) : Patch UInt8 where
  start := slice.offset
  size := slice.length
  value position := sliceByte layout store slice.sliceId (position - slice.offset)

/-- The patch of a buffer that is written at an offset. -/
def bufPatch (offset : Nat) (buf : Bytes) : Patch UInt8 where
  start := offset
  size := buf.length
  value position := buf.getD (position - offset) 0

/-- The content of a chunk with the given slices, the newest last. -/
def chunkContent (store : BlockStore) (slices : List SliceDesc) : Nat -> UInt8 :=
  overlay (fun _ => 0) (slices.map (SliceDesc.patch layout store))

theorem chunkContent_concat (store : BlockStore) (slices : List SliceDesc) (slice : SliceDesc) :
    chunkContent layout store (slices ++ [slice]) =
      (slice.patch layout store).apply (chunkContent layout store slices) := by
  rw [chunkContent, List.map_append, List.map_singleton, overlay_concat]
  rfl

end Rk8s.Slayerfs
