import Mathlib.Data.List.GetD
import Rk8s.Slayerfs.Chunk.Span

namespace Rk8s.Slayerfs

open Function List

/-!
# The block store

Blocks are addressed by the slice they belong to and their number in it.  The
model is the in-memory store: a map from keys to byte vectors, where a write
extends the vector with zeros as far as it has to and a read copies what is
there into the caller's buffer.

To a reader a block is a zero-extended sequence of bytes, and a slice is the
sequence of its blocks.  `blockByte` and `sliceByte` are these two views, and
each operation of the store is described through them.
-/

abbrev Bytes := List UInt8

/-- The slice id and the index of a block in the slice. -/
abbrev BlockKey := Nat × Nat

/-- The map of the in-memory store. -/
abbrev BlockStore := BlockKey -> Option Bytes

/-- Copies `data` into the vector at `start`, after extending it with zeros. -/
def copyInto (entry : Bytes) (start : Nat) (data : Bytes) : Bytes :=
  let stop := start + data.length
  let entry :=
    if entry.length < stop then entry ++ List.replicate (stop - entry.length) 0 else entry
  entry.take start ++ data ++ entry.drop stop

namespace BlockStore

variable (store : BlockStore) (key : BlockKey)

def writeRange (offset : Nat) (data : Bytes) : BlockStore :=
  update store key (some (copyInto ((store key).getD []) offset data))

/-- The default implementation, which joins the segments first. -/
def writeFreshVectored (offset : Nat) (chunks : List Bytes) : BlockStore :=
  store.writeRange key offset chunks.flatten

/-- The buffer after a read; bytes the block does not have stay as they were. -/
def readRange (offset : Nat) (buf : Bytes) : Bytes :=
  match store key with
  | none => buf
  | some src =>
    let stop := offset + buf.length
    let copyEnd := min stop src.length
    if copyEnd > offset then
      (src.take copyEnd).drop offset ++ buf.drop (copyEnd - offset)
    else
      buf

def deleteRange (blockCount : Nat) : BlockStore :=
  fun other =>
    if other.1 = key.1 ∧ key.2 ≤ other.2 ∧ other.2 < key.2 + asU32 blockCount then
      none
    else
      store other

end BlockStore

/-- A byte of a zero-extended block. -/
def blockByte (block : Option Bytes) (position : Nat) : UInt8 := (block.getD []).getD position 0

variable (layout : ChunkLayout)

/-- The block index and the offset in that block under which the data path
looks for a position of a slice. -/
def ChunkLayout.address (position : Nat) : Nat × Nat :=
  (asU32 (position / layout.blockSize), position % layout.blockSize)

def blockLength (block : Option Bytes) : Nat := (block.getD []).length

/-- A byte of a slice. -/
def sliceByte (store : BlockStore) (sliceId position : Nat) : UInt8 :=
  blockByte (store (sliceId, (layout.address position).1)) (layout.address position).2

theorem sliceByte_congr {layout : ChunkLayout} {store other : BlockStore} {sliceId : Nat}
    (same : ∀ index, other (sliceId, index) = store (sliceId, index)) (position : Nat) :
    sliceByte layout other sliceId position = sliceByte layout store sliceId position := by
  unfold sliceByte
  rw [same]

/-- The block of the position reaches it, so that a read copies the byte. -/
def Held (store : BlockStore) (sliceId position : Nat) : Prop :=
  (layout.address position).2 < blockLength (store (sliceId, (layout.address position).1))
deriving Decidable

/-- The number of positions whose block index fits the 32 bits of a key. -/
def ChunkLayout.addressable : Nat := 2 ^ 32 * layout.blockSize

/-- Below that bound no two positions share an address. -/
theorem ChunkLayout.address_injective {layout : ChunkLayout} {first second : Nat}
    (firstSmall : first < layout.addressable) (secondSmall : second < layout.addressable)
    (same : layout.address first = layout.address second) : first = second := by
  have block : asU32 (first / layout.blockSize) = asU32 (second / layout.blockSize) :=
    congrArg Prod.fst same
  have within : first % layout.blockSize = second % layout.blockSize := congrArg Prod.snd same
  rw [asU32, asU32, Nat.mod_eq_of_lt (Nat.div_lt_of_lt_mul (Nat.mul_comm .. ▸ firstSmall)),
    Nat.mod_eq_of_lt (Nat.div_lt_of_lt_mul (Nat.mul_comm .. ▸ secondSmall))] at block
  rw [← Nat.div_add_mod first layout.blockSize, block, within, Nat.div_add_mod]

/-! ## Copies -/

/-- The vector that `copyInto` writes to. -/
private def resized (entry : Bytes) (size : Nat) : Bytes :=
  if entry.length < size then entry ++ List.replicate (size - entry.length) 0 else entry

theorem le_length_resized (entry : Bytes) (size : Nat) : size ≤ (resized entry size).length := by
  unfold resized
  split_ifs with short
  · rw [length_append, length_replicate]
    omega
  · omega

theorem getD_resized (entry : Bytes) (size position : Nat) :
    (resized entry size).getD position 0 = entry.getD position 0 := by
  unfold resized
  split_ifs with short
  · by_cases old : position < entry.length
    · rw [getD_append _ _ _ _ old]
    · rw [getD_append_right _ _ _ _ (by omega), getD_eq_default entry 0 (by omega)]
      by_cases added : position - entry.length < size - entry.length
      · rw [getD_replicate _ added]
      · rw [getD_eq_default _ _ (by rw [length_replicate]; omega)]
  · rfl

/-- A copy replaces exactly the bytes of its range. -/
theorem getD_copyInto (entry : Bytes) (start : Nat) (data : Bytes) (position : Nat) :
    (copyInto entry start data).getD position 0 =
      if start ≤ position ∧ position < start + data.length then data.getD (position - start) 0
      else entry.getD position 0 := by
  have long := le_length_resized entry (start + data.length)
  have before : ((resized entry (start + data.length)).take start).length = start := by
    rw [length_take]
    omega
  change ((resized entry (start + data.length)).take start ++ data ++
    (resized entry (start + data.length)).drop (start + data.length)).getD position 0 = _
  by_cases left : position < start
  · rw [if_neg (by omega), append_assoc, getD_append _ _ _ _ (by omega),
      ← getD_resized entry (start + data.length)]
    simp only [getD_eq_getElem?_getD, getElem?_take, if_pos left]
  by_cases right : position < start + data.length
  · rw [if_pos (by omega), getD_append _ _ _ _ (by rw [length_append]; omega),
      getD_append_right _ _ _ _ (by omega), before]
  rw [if_neg (by omega), getD_append_right _ _ _ _ (by rw [length_append]; omega),
    ← getD_resized entry (start + data.length)]
  simp only [getD_eq_getElem?_getD, getElem?_drop, length_append]
  congr 2
  omega

theorem length_copyInto (entry : Bytes) (start : Nat) (data : Bytes) :
    (copyInto entry start data).length = max entry.length (start + data.length) := by
  unfold copyInto
  dsimp only
  split_ifs with short
  all_goals
    simp only [length_append, length_take, length_drop, length_replicate]
    omega

/-! ## The operations on bytes -/

variable (store : BlockStore)
include store

variable (key : BlockKey)

theorem blockByte_writeRange (other : BlockKey) (offset : Nat) (data : Bytes) (position : Nat) :
    blockByte (store.writeRange key offset data other) position =
      if other = key ∧ offset ≤ position ∧ position < offset + data.length then
        data.getD (position - offset) 0
      else
        blockByte (store other) position := by
  by_cases same : other = key
  · subst same
    simp only [true_and, BlockStore.writeRange, update_self]
    exact getD_copyInto ..
  · rw [if_neg (fun both => same both.1), BlockStore.writeRange, update_of_ne same]

/-- No write shortens a block. -/
theorem blockLength_writeRange (other : BlockKey) (offset : Nat) (data : Bytes) :
    blockLength (store other) ≤ blockLength (store.writeRange key offset data other) ∧
      (other = key ->
        offset + data.length ≤ blockLength (store.writeRange key offset data other)) := by
  by_cases same : other = key
  · subst same
    simp only [BlockStore.writeRange, update_self, blockLength, Option.getD_some, length_copyInto]
    exact ⟨le_max_left .., fun _ => le_max_right ..⟩
  · rw [BlockStore.writeRange, update_of_ne same]
    exact ⟨le_rfl, fun eq => absurd eq same⟩

theorem length_readRange (offset : Nat) (buf : Bytes) :
    (store.readRange key offset buf).length = buf.length := by
  unfold BlockStore.readRange
  cases store key with
  | none => rfl
  | some src =>
    dsimp only
    split_ifs with copied
    · rw [length_append, length_drop, length_take, length_drop]
      omega
    · rfl

theorem getD_readRange_zeros {offset length i : Nat} (inside : i < length) :
    (store.readRange key offset (List.replicate length 0)).getD i 0 =
      blockByte (store key) (offset + i) := by
  unfold BlockStore.readRange blockByte
  cases store key with
  | none => rw [Option.getD_none, getD_replicate _ inside, getD_nil]
  | some src =>
    simp only [length_replicate, Option.getD_some]
    split_ifs with copied
    swap
    · rw [getD_replicate _ inside, getD_eq_default src 0 (by omega)]
    have taken : ((src.take (min (offset + length) src.length)).drop offset).length =
        min (offset + length) src.length - offset := by
      rw [length_drop, length_take]
      omega
    by_cases stored : i < min (offset + length) src.length - offset
    · rw [getD_append _ _ _ _ (by omega)]
      simp only [getD_eq_getElem?_getD, getElem?_drop, getElem?_take,
        if_pos (show offset + i < min (offset + length) src.length by omega)]
    · rw [getD_append_right _ _ _ _ (by omega), drop_replicate,
        getD_replicate _ (by omega), getD_eq_default src 0 (by omega)]

/-- A read into a zeroed buffer gives the bytes of the zero-extended block. -/
theorem readRange_zeros (offset length : Nat) :
    store.readRange key offset (List.replicate length 0) =
      (List.range length).map fun i => blockByte (store key) (offset + i) := by
  apply ext_getElem
  · rw [length_readRange, length_replicate, length_map, length_range]
  · intro i read inside
    rw [length_map, length_range] at inside
    rw [getElem_map, getElem_range, ← getD_eq_getElem _ 0 read]
    exact getD_readRange_zeros store key inside

/-- A read that stays inside the block overwrites the whole buffer. -/
theorem readRange_of_le_blockLength {offset : Nat} {buf : Bytes}
    (inside : offset + buf.length ≤ blockLength (store key)) :
    store.readRange key offset buf =
      (List.range buf.length).map fun i => blockByte (store key) (offset + i) := by
  apply ext_getElem
  · rw [length_readRange, length_map, length_range]
  intro i read small
  rw [length_map, length_range] at small
  rw [getElem_map, getElem_range, ← getD_eq_getElem _ 0 read]
  unfold BlockStore.readRange blockByte
  cases found : store key with
  | none =>
    rw [found] at inside
    have short : offset + buf.length ≤ 0 := inside
    omega
  | some src =>
    rw [found] at inside
    have long : offset + buf.length ≤ src.length := inside
    simp only [min_eq_left long, Option.getD_some]
    rw [if_pos (by omega), getD_append _ _ _ _
      (by rw [length_drop, length_take]; omega)]
    simp only [getD_eq_getElem?_getD, getElem?_drop, getElem?_take,
      if_pos (show offset + i < offset + buf.length by omega)]

end Rk8s.Slayerfs
