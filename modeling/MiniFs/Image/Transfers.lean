import MiniFs.Core.Admin
import MiniFs.Image.Geometry

/-! # Block transfers on an open disk

While no system call fails, transfers of blocks below `totalBlocks` succeed and
are exact reads and writes of the file.
-/

set_option autoImplicit false

namespace MiniFs.Image
open MiniFs.Core Library Library.Exec Library.ByteRange

structure Ready (g : Geometry) (s : World) (disk : List UInt8) : Prop where
  fd : s.fd = .opened
  size : s.diskBlockSize.toNat = g.blockSize
  file : s.file = some disk
  length : g.blockPos g.totalBlocks ≤ disk.length
  faults : s.faults = noFaults

theorem nextFault_none {s : World} (h : s.faults = noFaults) : nextFault s = some (none, s) := by
  cases s
  subst h
  rfl

variable {g : Geometry} {s : World} {disk : List UInt8}

theorem Ready.block_le (h : Ready g s disk) {b : ℕ} (hb : b < g.totalBlocks) :
    g.blockPos b + g.blockSize ≤ disk.length :=
  (g.blockPos_add_le hb).trans h.length

def blockAt (g : Geometry) (disk : List UInt8) (b : ℕ) : List UInt8 :=
  slice (g.blockPos b) g.blockSize disk

theorem Ready.length_blockAt (h : Ready g s disk) {b : ℕ} (hb : b < g.totalBlocks) :
    (blockAt g disk b).length = g.blockSize :=
  length_slice (h.block_le hb)

theorem diskRead_ready (h : Ready g s disk) {b : UInt32} (hb : b.toNat < g.totalBlocks)
    {buf : List UInt8} (hbuf : g.blockSize ≤ buf.length) :
    diskRead b buf s = some ((0, splice 0 (blockAt g disk b.toNat) buf), s) := by
  have hl := h.length_blockAt hb
  unfold blockAt Geometry.blockPos at *
  simp only [diskRead, bind_apply, ask_apply, Option.bind_some, h.fd, h.size, h.file,
    nextFault_none h.faults, Option.getD_some]
  rw [require_pos (by omega), if_pos hl]
  rfl

theorem diskWrite_ready (h : Ready g s disk) {b : UInt32} (hb : b.toNat < g.totalBlocks)
    {buf : List UInt8} (hbuf : g.blockSize ≤ buf.length) :
    diskWrite b buf s = some (0, { s with
      file := some (splice (g.blockPos b.toNat) (buf.take g.blockSize) disk) }) := by
  have hl := h.block_le hb
  unfold Geometry.blockPos at *
  have ht : (buf.take g.blockSize).length = g.blockSize := by rw [List.length_take]; omega
  have hp : b.toNat * g.blockSize + g.blockSize - disk.length = 0 := by omega
  simp only [diskWrite, bind_apply, ask_apply, Option.bind_some, h.fd, h.size, h.file,
    require_pos hbuf, pure_apply, nextFault_none h.faults, update_apply, Option.map_some, pwrite,
    ht, hp, List.replicate_zero, List.append_nil]

theorem Ready.write (h : Ready g s disk) {disk' : List UInt8} (hl : disk'.length = disk.length) :
    Ready g { s with file := some disk' } disk' :=
  ⟨h.fd, h.size, rfl, hl ▸ h.length, h.faults⟩

theorem mallocRead_ready (h : Ready g s disk) {b n : UInt32} (hb : b.toNat < g.totalBlocks)
    (hn : n.toNat = g.blockSize) :
    mallocRead b n s = some ((0, blockAt g disk b.toNat), s) := by
  have hl := h.length_blockAt hb
  simp only [mallocRead, malloc, bind_apply, ask_apply, Option.bind_some]
  rw [diskRead_ready h hb (by simp [hn])]
  congr 3
  rw [splice, List.drop_eq_nil_of_le (by simp [hl, hn])]
  simp

def superblockBytes (g : Geometry) (s : World) : List UInt8 :=
  superblockCodec.encode s.sb ++ (List.range (g.blockSize - superblockSize)).map s.behindSb

theorem length_superblockBytes (g : Geometry) (s : World) :
    (superblockBytes g s).length = g.blockSize := by
  have h := superblockCodec.length_encode s.sb
  have hb := g.inode_le
  rw [superblockCodec_size] at h
  simp only [superblockBytes, List.length_append, h, List.length_map, List.length_range]
  unfold superblockSize
  omega

theorem diskWriteSb_ready (h : Ready g s disk) :
    diskWriteSb s = some (0, { s with file := some (splice 0 (superblockBytes g s) disk) }) := by
  have hl := length_superblockBytes g s
  have h0 : (0 : UInt32).toNat < g.totalBlocks := lt_of_le_of_lt (Nat.zero_le _) g.dataStart_lt
  have hw := diskWrite_ready h h0 hl.ge
  rw [← hl, List.take_length] at hw
  simp only [diskWriteSb, bind_apply, ask_apply, Option.bind_some, h.size]
  simpa [superblockBytes, Geometry.blockPos] using hw

/-- Writing the pieces of a longer string one after the other writes the string. -/
theorem splice_slice_succ {off n i : ℕ} {bytes disk : List UInt8}
    (hb : (i + 1) * n ≤ bytes.length) (hd : off + bytes.length ≤ disk.length) :
    splice (off + i * n) (slice (i * n) n bytes) (splice off (bytes.take (i * n)) disk) =
      splice off (bytes.take ((i + 1) * n)) disk := by
  have h1 : (i + 1) * n = i * n + n := by ring
  have hs : (slice (i * n) n bytes).length = n := length_slice (by omega)
  have ht : (bytes.take (i * n)).length = i * n := by rw [List.length_take]; omega
  have ht' : (bytes.take ((i + 1) * n)).length = i * n + n := by rw [List.length_take]; omega
  have hl : (splice off (bytes.take (i * n)) disk).length = disk.length :=
    length_splice (by omega)
  ext1 k
  rw [getElem?_splice (by omega), getElem?_splice (by omega), getElem?_splice (by omega), hs, ht,
    ht', getElem?_slice, List.getElem?_take, List.getElem?_take]
  split_ifs <;> first | rfl | omega | (congr 1; omega)

theorem Geometry.Describes.toNat_bitmapBlock {sb : Superblock} (hg : g.Describes sb) {i : ℕ}
    (hi : i < g.bitmapBlocks) : (sb.bitmapStart + UInt32.ofNat i).toNat = 1 + i := by
  have h1 := g.room
  have h2 := g.totalBlocks_lt
  rw [UInt32.toNat_add, hg.bitmapStart, toNat_word (by omega),
    Nat.mod_eq_of_lt (by omega)]

theorem bitmap_bytes_lt : g.bitmapBlocks * g.blockSize < 2 ^ 32 := by
  have h1 := g.room
  have h2 : g.bitmapBlocks * g.blockSize ≤ g.totalBlocks * g.blockSize :=
    Nat.mul_le_mul_right _ (by omega)
  exact h2.trans_lt g.bytes_lt

theorem bitmapOffset_eq {sb : Superblock} (hg : g.Describes sb) {i : ℕ} (hi : i < g.bitmapBlocks)
    {bytes : List UInt8} (hb : bytes.length = g.bitmapBlocks * g.blockSize) (s : World) :
    bitmapOffset sb bytes i s = some (i * g.blockSize, s) := by
  have h1 : i * g.blockSize ≤ g.bitmapBlocks * g.blockSize := Nat.mul_le_mul_right _ hi.le
  have h2 : g.bitmapBlocks * g.blockSize < 2 ^ 32 := bitmap_bytes_lt
  have h3 := g.room
  have h4 := g.totalBlocks_lt
  have hoff : (UInt32.ofNat i * sb.blockSize).toNat = i * g.blockSize := by
    rw [UInt32.toNat_mul, hg.blockSize, toNat_word (by omega),
      Nat.mod_eq_of_lt (by omega)]
  simp only [bitmapOffset, bind_apply, hoff]
  rw [require_pos (by omega)]
  rfl

theorem bitmapSync_ready (hg : g.Describes s.sb) (h : Ready g s disk) {bytes : List UInt8}
    (hm : s.bitmap = .live bytes) (hb : bytes.length = g.bitmapBlocks * g.blockSize) :
    bitmapSync s = some ((), { s with file := some (splice (g.blockPos 1) bytes disk) }) := by
  have htot := g.bytes_lt
  have hroom := g.room
  have hbm : g.bitmapBlocks * g.blockSize ≤ g.totalBlocks * g.blockSize :=
    Nat.mul_le_mul_right _ (by omega)
  have hend : g.blockPos 1 + bytes.length ≤ disk.length := by
    have := h.length
    have h1 : g.blockPos (1 + g.bitmapBlocks) ≤ g.blockPos g.totalBlocks :=
      g.blockPos_mono (by omega)
    unfold Geometry.blockPos at *
    rw [Nat.add_mul] at h1
    omega
  let after (i : ℕ) : World :=
    { s with file := some (splice (g.blockPos 1) (bytes.take (i * g.blockSize)) disk) }
  have hstep (i : ℕ) (hi : i < g.bitmapBlocks) :
      syncBitmapBlock s.sb bytes i (after i) = some ((), after (i + 1)) := by
    have hmul : (i + 1) * g.blockSize ≤ g.bitmapBlocks * g.blockSize := Nat.mul_le_mul_right _ hi
    have hmul' : (i + 1) * g.blockSize = i * g.blockSize + g.blockSize := by ring
    have hready : Ready g (after i) (splice (g.blockPos 1) (bytes.take (i * g.blockSize)) disk) :=
      h.write (length_splice (by rw [List.length_take]; omega))
    have hpiece : g.blockSize ≤ (bytes.drop (i * g.blockSize)).length := by
      rw [List.length_drop]; omega
    have hblk := hg.toNat_bitmapBlock hi
    have hw := diskWrite_ready hready (b := s.sb.bitmapStart + UInt32.ofNat i)
      (by rw [hblk]; omega) hpiece
    have hpos : g.blockPos (1 + i) = g.blockPos 1 + i * g.blockSize := by
      unfold Geometry.blockPos; ring
    have hnext := splice_slice_succ (i := i) (n := g.blockSize) (by omega) hend
    rw [slice] at hnext
    rw [syncBitmapBlock, bind_apply, bitmapOffset_eq hg hi hb, Option.bind_some, bind_apply, hw,
      Option.bind_some, pure_apply, hblk, hpos, hnext]
  have hloop : forLoop (syncBitmapBlock s.sb bytes) g.bitmapBlocks 0 (after 0) =
      some ((), after (0 + g.bitmapBlocks)) :=
    forLoop_chain after (fun i _ hi => hstep i (by omega))
  have h0 : after 0 = s := by
    simp [after, splice, h.file.symm]
  have hlast : bytes.take (g.bitmapBlocks * g.blockSize) = bytes := by rw [← hb, List.take_length]
  rw [h0, Nat.zero_add] at hloop
  simp only [bitmapSync, getSb, bind_apply, ask_apply, Option.bind_some, hm, hg.bitmapBlocks]
  rw [hloop]
  simp only [after, hlast, hm]

end MiniFs.Image
