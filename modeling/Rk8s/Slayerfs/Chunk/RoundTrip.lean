import Mathlib.Data.List.Induction
import Rk8s.Slayerfs.Chunk.Reader
import Rk8s.Slayerfs.Chunk.Writer

namespace Rk8s.Slayerfs

open List DataFetcher

/-!
# Upload and fetch

Slices are uploaded one by one, each under its own id and in whatever segments
the client has, and recorded in a list.  A read of the chunk then returns, byte
by byte, the payload of the last slice of the list that covers the position.

A block key holds 32 bits of block index.  A slice that reaches past
`ChunkLayout.addressable` therefore stores two of its blocks under one key, and
the read of the first returns the bytes of the second.
-/

/-- A slice together with the segments in which it is uploaded. -/
structure SliceUpload where
  desc : SliceDesc
  parts : List Bytes
  recorded : desc.length = parts.flatten.length

namespace SliceUpload

def payload (upload : SliceUpload) : Bytes := upload.parts.flatten

def Covers (upload : SliceUpload) (position : Nat) : Prop :=
  upload.desc.offset ≤ position ∧ position < upload.desc.offset + upload.desc.length
deriving Decidable

end SliceUpload

/-- The payload byte of the last slice that covers the position, zero where
there is none. -/
def lastPayload (slices : List SliceUpload) (position : Nat) : UInt8 :=
  match slices.reverse.find? fun upload => upload.Covers position with
  | none => 0
  | some upload => upload.payload.getD (position - upload.desc.offset) 0

/-- Uploads the slices one after another. -/
def uploadAll (layout : ChunkLayout) : List SliceUpload -> BlockStore -> Option BlockStore
  | [], store => some store
  | upload :: uploads, store =>
    match DataUploader.writeAtVectored layout store upload.desc.sliceId 0 upload.parts with
    | none => none
    | some stored => uploadAll layout uploads stored

/-- The store holds the payload of the slice. -/
def Holds (layout : ChunkLayout) (store : BlockStore) (upload : SliceUpload) : Prop :=
  forall position, position < upload.payload.length ->
    sliceByte layout store upload.desc.sliceId position = upload.payload.getD position 0

section

variable {layout : ChunkLayout} {store : BlockStore}

/-- Uploads under different ids do not disturb each other. -/
theorem uploadAll_spec (uploads : List SliceUpload)
    (distinct : (uploads.map fun upload => upload.desc.sliceId).Nodup)
    (fits : ∀ upload ∈ uploads, upload.payload.length ≤ layout.addressable)
    (store : BlockStore) :
    ∃ stored, uploadAll layout uploads store = some stored ∧
      (∀ key : BlockKey, (∀ upload ∈ uploads, key.1 ≠ upload.desc.sliceId) ->
        stored key = store key) ∧
      ∀ upload ∈ uploads, Holds layout stored upload := by
  induction uploads generalizing store with
  | nil => exact ⟨store, rfl, fun _ _ => rfl, fun _ member => absurd member not_mem_nil⟩
  | cons upload uploads ih =>
    rcases nodup_cons.mp distinct with ⟨fresh, distinct⟩
    rcases DataUploader.writeAtVectored_spec layout store upload.desc.sliceId 0 upload.parts with
      ⟨written, wrote, uploaded⟩
    rcases ih distinct (fun other member => fits other (mem_cons_of_mem _ member)) written with
      ⟨stored, ran, others, holds⟩
    have untouched : ∀ index, stored (upload.desc.sliceId, index) =
        written (upload.desc.sliceId, index) := by
      intro index
      apply others
      intro other member same
      exact fresh (mem_map.mpr ⟨other, member, same.symm⟩)
    refine ⟨stored, ?_, fun key different => ?_, fun other member => ?_⟩
    · rw [uploadAll, wrote]
      exact ran
    · rw [others key fun other member => different other (mem_cons_of_mem _ member)]
      exact uploaded.others key (different upload mem_cons_self)
    rcases mem_cons.mp member with rfl | later
    · intro position inside
      rw [sliceByte_congr untouched]
      have small := fits other mem_cons_self
      rw [uploaded.bytes (by rw [zero_add]; exact small) (by omega), if_pos]
      · rfl
      · rw [zero_add]
        exact ⟨Nat.zero_le _, inside⟩
    · exact holds other later

/-- Over a store that holds the payloads the overlay of the slices is the last
payload at every position. -/
theorem chunkContent_eq_lastPayload {slices : List SliceUpload}
    (holds : ∀ upload ∈ slices, Holds layout store upload) (position : Nat) :
    chunkContent layout store (slices.map SliceUpload.desc) position =
      lastPayload slices position := by
  induction slices using List.reverseRecOn with
  | nil => rfl
  | append_singleton slices upload ih =>
    rw [map_append, map_singleton, chunkContent_concat]
    have older := ih fun other member => holds other (mem_append_left _ member)
    have newest := holds upload (mem_append_right _ mem_cons_self)
    unfold lastPayload
    rw [reverse_append, reverse_singleton, singleton_append, find?_cons]
    by_cases covered : (upload.desc.patch layout store).Covers position
    · rw [decide_eq_true (p := upload.Covers position) covered, Patch.apply_of_covers covered]
      apply newest
      have length : upload.desc.length = upload.payload.length := upload.recorded
      have below : position < upload.desc.offset + upload.desc.length := covered.2
      have above : upload.desc.offset ≤ position := covered.1
      omega
    · rw [decide_eq_false (p := upload.Covers position) covered, Patch.apply_of_not_covers covered]
      exact older

end

/-- Whatever the segments and the order of the uploads, a read returns the
payload of the last covering slice at every position of the range, the parts it
is put together from do not overlap, and no buffer split is out of bounds. -/
theorem readAt_of_uploadAll {layout : ChunkLayout}
    (addressable : layout.chunkSize ≤ layout.addressable)
    {slices uploads : List SliceUpload} (order : uploads.Perm slices)
    (distinct : (slices.map fun upload => upload.desc.sliceId).Nodup)
    (inside : forall upload, upload ∈ slices ->
      upload.desc.offset + upload.desc.length ≤ layout.chunkSize)
    (store : BlockStore) (chunkId offset len : Nat) :
    Exists fun stored => uploadAll layout uploads store = some stored ∧
      (Exists fun buf =>
        ((DataFetcher.new layout chunkId).prepareSlices (slices.map SliceUpload.desc)).readAt stored
          offset len = .ok buf ∧ buf.length = len ∧
        forall i, i < len -> buf[i]? = some (lastPayload slices (offset + i))) ∧
      (needRead (slices.map SliceUpload.desc) offset len).Pairwise ReadPart.Before ∧
      forall part, part ∈ needRead (slices.map SliceUpload.desc) offset len ->
        part.Fits offset (offset + len) := by
  have small : ∀ upload ∈ uploads, upload.payload.length ≤ layout.addressable := by
    intro upload member
    have length : upload.desc.length = upload.payload.length := upload.recorded
    have bound := inside upload (order.mem_iff.mp member)
    omega
  rcases uploadAll_spec uploads ((order.map _).nodup_iff.mpr distinct) small store with
    ⟨stored, ran, _, holds⟩
  refine ⟨stored, ran, ⟨_, readAt_eq _ stored rfl offset len, ?_, ?_⟩,
    needRead_ordered .., fun part member => needRead_fits member⟩
  · rw [length_map, length_range]
  · intro i below
    rw [getElem?_map, getElem?_range below, Option.map_some]
    congr 1
    exact chunkContent_eq_lastPayload (fun upload member => holds upload (order.mem_iff.mpr member)) _

/-- Two overlapping slices, split inside and across the blocks of two bytes. -/
private def overlappingUploads : List SliceUpload :=
  [⟨⟨1, 1, 0, 3⟩, [[1], [], [2, 3]], by decide⟩, ⟨⟨2, 1, 1, 2⟩, [[7], [8]], by decide⟩]

theorem readAt_of_uploadAll_overlapping :
    Exists fun stored => Exists fun buf =>
      uploadAll ⟨4, 2, by decide, by decide, by decide⟩ overlappingUploads (fun _ => none) =
        some stored ∧
      ((DataFetcher.new ⟨4, 2, by decide, by decide, by decide⟩ 1).prepareSlices
        (overlappingUploads.map SliceUpload.desc)).readAt stored 0 4 = .ok buf ∧
      buf.length = 4 ∧ buf[1]? = some 7 ∧ buf[3]? = some 0 := by
  rcases @readAt_of_uploadAll ⟨4, 2, by decide, by decide, by decide⟩ (by decide) _ _
    (Perm.refl overlappingUploads) (by decide) (by decide) (fun _ => none) 1 0 4 with
    ⟨stored, ran, ⟨buf, read, length, bytes⟩, _, _⟩
  exact ⟨stored, buf, ran, read, length, bytes 1 (by decide), bytes 3 (by decide)⟩

/-- A layout of `size + 1` blocks of one byte. -/
private def byteBlocks (size : Nat) : ChunkLayout :=
  ⟨size + 1, 1, Nat.one_pos, Nat.succ_pos _, Nat.one_dvd _⟩

/-- A slice of `size` zeros and a one. -/
private def zerosThenOne (size : Nat) : SliceUpload where
  desc := ⟨1, 1, 0, size + 1⟩
  parts := [List.replicate size 0 ++ [1]]
  recorded := by
    rw [flatten_singleton, length_append, length_replicate]
    rfl

theorem readAt_zerosThenOne (size : Nat) (wraps : asU32 size = 0) :
    ∃ stored,
      uploadAll (byteBlocks size) [zerosThenOne size] (fun _ => none) = some stored ∧
      ((new (byteBlocks size) 1).prepareSlices [(zerosThenOne size).desc]).readAt stored
        0 1 = .ok [1] := by
  rcases DataUploader.writeAtVectored_spec (byteBlocks size) (fun _ => none) 1 0
    [List.replicate size 0 ++ [1]] with ⟨stored, wrote, uploaded⟩
  have length : [List.replicate size (0 : UInt8) ++ [1]].flatten.length = size + 1 :=
    (zerosThenOne size).recorded.symm
  have last := uploaded.written size (Nat.zero_le _) (by omega) (fun later after below => by omega)
  have shared : (byteBlocks size).address 0 = (byteBlocks size).address size := by
    simp only [ChunkLayout.address, byteBlocks, Nat.div_one, Nat.mod_one, wraps]
    rfl
  have first : sliceByte (byteBlocks size) stored 1 0 = 1 := by
    rw [sliceByte, shared]
    refine last.trans ?_
    rw [flatten_singleton, Nat.sub_zero,
      getD_append_right _ _ _ _ (by rw [length_replicate]), length_replicate,
      Nat.sub_self]
    rfl
  refine ⟨stored, ?_, ?_⟩
  · rw [uploadAll]
    change (match DataUploader.writeAtVectored (byteBlocks size) (fun _ => none) 1 0
      [List.replicate size 0 ++ [1]] with
      | none => none
      | some stored => some stored) = some stored
    rw [wrote]
  rw [readAt_eq _ _ rfl]
  have covered : ((zerosThenOne size).desc.patch (byteBlocks size) stored).Covers 0 :=
    ⟨le_rfl, Nat.succ_pos _⟩
  have byte : chunkContent (byteBlocks size) stored [(zerosThenOne size).desc] 0 = 1 :=
    (@Patch.apply_of_covers _ _ _ (fun _ => 0) covered).trans first
  exact congrArg (fun byte => Except.ok [byte]) byte

theorem lastPayload_zerosThenOne {size : Nat} (positive : 0 < size) :
    lastPayload [zerosThenOne size] 0 = 0 := by
  change ([List.replicate size 0 ++ [1]].flatten).getD 0 0 = 0
  rw [flatten_singleton, getD_append _ _ _ _ (by rwa [length_replicate]), getD_replicate _ positive]

/-- Without the bound on the layout the read can be wrong: with 2^32 + 1 blocks
of one byte the last block is stored over the first. -/
theorem readAt_of_uploadAll_wraps :
    Exists fun layout => Exists fun slices => Exists fun stored =>
      (slices.map fun upload : SliceUpload => upload.desc.sliceId).Nodup ∧
      (forall upload, upload ∈ slices ->
        upload.desc.offset + upload.desc.length ≤ layout.chunkSize) ∧
      uploadAll layout slices (fun _ => none) = some stored ∧
      ((DataFetcher.new layout 1).prepareSlices (slices.map SliceUpload.desc)).readAt stored 0 1 =
        .ok [1] ∧
      lastPayload slices 0 = 0 := by
  rcases readAt_zerosThenOne (2 ^ 32) (Nat.mod_self _) with ⟨stored, ran, read⟩
  refine ⟨byteBlocks (2 ^ 32), [zerosThenOne (2 ^ 32)], stored, nodup_singleton _, ?_, ran,
    read, ?_⟩
  · exact forall_mem_singleton.mpr (le_of_eq (zero_add _))
  · exact lastPayload_zerosThenOne (Nat.two_pow_pos 32)

end Rk8s.Slayerfs
