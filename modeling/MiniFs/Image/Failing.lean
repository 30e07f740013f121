import MiniFs.Library.Total
import MiniFs.Image.Disturbed

/-! # The primitives while system calls fail

What a process knows after a system call that may have failed: a read brings the
block or an error, a write happens or does not. Nothing is assumed about the
outcomes to come, so these facts hold on every failing disk.
-/

set_option autoImplicit false

namespace MiniFs.Image
open MiniFs.Core Library Library.Exec Library.ByteRange Library.BitArray

/-- A process at work on a disk of the geometry: the bytes of the file, the bitmap in memory and
the superblock in memory. -/
structure Running (g : Geometry) (disk bytes : List UInt8) (sb : Superblock) (s : World) :
    Prop where
  layout : g.Describes sb
  sb : s.sb = sb
  fd : s.fd = .opened
  size : s.diskBlockSize.toNat = g.blockSize
  file : s.file = some disk
  bitmap : s.bitmap = .live bytes
  length : g.blockPos g.totalBlocks ≤ disk.length
  length_bitmap : bytes.length = g.bitmapBlocks * g.blockSize

variable {g : Geometry} {disk bytes : List UInt8} {sb : Superblock} {s : World}

namespace Running

theorem say (h : Running g disk bytes sb s) (msgs : List Message) :
    Running g disk bytes sb (s.say msgs) :=
  { h with }

theorem disturb (h : Running g disk bytes sb s) (f : ℕ → Fault) :
    Running g disk bytes sb (callTape.set f s) :=
  { h with }

theorem write (h : Running g disk bytes sb s) {disk' : List UInt8}
    (hlen : disk'.length = disk.length) : Running g disk' bytes sb { s with file := some disk' } :=
  { h with file := rfl, length := hlen ▸ h.length }

theorem remark (h : Running g disk bytes sb s) {bytes' : List UInt8}
    (hlen : bytes'.length = bytes.length) :
    Running g disk bytes' sb { s with bitmap := .live bytes' } :=
  { h with bitmap := rfl, length_bitmap := hlen.trans h.length_bitmap }

/-- The same process, if no call fails. -/
theorem ready (h : Running g disk bytes sb s) : Ready g s.still disk :=
  ⟨h.fd, h.size, h.file, h.length, rfl⟩

theorem block_le (h : Running g disk bytes sb s) {b : ℕ} (hb : b < g.totalBlocks) :
    g.blockPos b + g.blockSize ≤ disk.length :=
  h.ready.block_le hb

theorem length_blockAt (h : Running g disk bytes sb s) {b : ℕ} (hb : b < g.totalBlocks) :
    (blockAt g disk b).length = g.blockSize :=
  h.ready.length_blockAt hb

theorem size_eq (h : Running g disk bytes sb s) : s.diskBlockSize = UInt32.ofNat g.blockSize := by
  rw [← h.size, UInt32.ofNat_toNat]

end Running

theorem toNat_blockSize : (UInt32.ofNat g.blockSize).toNat = g.blockSize := by
  have := g.blockSize_lt
  exact toNat_word (by omega)

theorem emit_total (m : Message) :
    Total (Running g disk bytes sb) (emit m) fun _ => Running g disk bytes sb :=
  .update fun _ h => h.say [m]

theorem bitmapBytes_bind {α : Type} {k : List UInt8 → M α} {Q : α → World → Prop}
    (hk : Total (Running g disk bytes sb) (k bytes) Q) :
    Total (Running g disk bytes sb) (bitmapBytes >>= k) Q := by
  intro s hs
  have hbytes : bitmapBytes s = some (bytes, s) := by
    simp only [bitmapBytes, bind_apply, ask_apply, Option.bind_some, hs.bitmap, pure_apply]
  rw [bind_apply, hbytes]
  exact hk s hs

/-! ## Transfers -/

theorem nextFault_total : Total (Running g disk bytes sb) nextFault
    fun _ => Running g disk bytes sb :=
  fun s h => ⟨s.faults 0, _, rfl, h.disturb fun k => s.faults (k + 1)⟩

theorem diskRead_total {b : UInt32} (hb : b.toNat < g.totalBlocks) {buf : List UInt8}
    (hbuf : buf.length = g.blockSize) :
    Total (Running g disk bytes sb) (diskRead b buf) fun r s => Running g disk bytes sb s ∧
      r.2.length = g.blockSize ∧ (r.1 = -1 ∨ r.1 = 0 ∧ r.2 = blockAt g disk b.toNat) := by
  refine .ask_bind (fun _ h => h.size_eq) (.ask_bind (fun _ h => h.fd) ?_)
  refine nextFault_total.seq fun r => ?_
  cases r with
  | some junk =>
    refine (emit_total _).seq fun _ => .pure fun s h => ⟨h, ?_, .inl rfl⟩
    rw [List.length_map, List.length_range, hbuf]
  | none =>
    refine .ask_bind (fun _ h => h.file) (.fact (fun _ h => h.length_blockAt hb) fun hblock => ?_)
    have hdata : slice (b.toNat * (UInt32.ofNat g.blockSize).toNat)
        (UInt32.ofNat g.blockSize).toNat ((some disk).getD []) = blockAt g disk b.toNat := by
      rw [toNat_blockSize]
      rfl
    have hwhole : splice 0 (blockAt g disk b.toNat) buf = blockAt g disk b.toNat := by
      rw [splice, List.take_zero, List.nil_append, List.drop_eq_nil_of_le (by omega),
        List.append_nil]
    rw [← hdata] at hblock hwhole ⊢
    refine .require_bind (fun _ _ => hblock.trans_le hbuf.ge) ?_
    rw [if_pos (hblock.trans toNat_blockSize.symm), hwhole]
    exact .pure fun s h => ⟨h, hblock, .inr ⟨rfl, rfl⟩⟩

theorem mallocRead_total {b n : UInt32} (hb : b.toNat < g.totalBlocks)
    (hn : n.toNat = g.blockSize) :
    Total (Running g disk bytes sb) (mallocRead b n) fun r s => Running g disk bytes sb s ∧
      r.2.length = g.blockSize ∧ (r.1 = -1 ∨ r.1 = 0 ∧ r.2 = blockAt g disk b.toNat) := by
  refine Total.bind (I := fun buf s => Running g disk bytes sb s ∧ buf.length = g.blockSize)
    (.ask fun s h => ⟨h, ?_⟩) fun buf => ?_
  · rw [List.length_map, List.length_range, hn]
  · exact .fact (fun _ h => h.2) fun hbuf => (diskRead_total hb hbuf).conseq (fun _ h => h.1)
      fun _ _ h => h

def Written (off : ℕ) (new disk disk' : List UInt8) : Prop :=
  disk' = splice off new disk ∨ disk' = disk

theorem diskWrite_total {b : UInt32} (hb : b.toNat < g.totalBlocks) {buf : List UInt8}
    (hbuf : g.blockSize ≤ buf.length) :
    Total (Running g disk bytes sb) (diskWrite b buf) fun _ s =>
      ∃ disk', Written (g.blockPos b.toNat) (buf.take g.blockSize) disk disk' ∧
        Running g disk' bytes sb s := by
  refine .ask_bind (fun _ h => h.size_eq) (.ask_bind (fun _ h => h.fd) ?_)
  refine .require_bind (fun _ _ => toNat_blockSize.trans_le hbuf) ?_
  refine nextFault_total.seq fun r => ?_
  cases r with
  | some junk => exact (emit_total _).seq fun _ => .pure fun s h => ⟨disk, .inr rfl, h⟩
  | none =>
    refine Total.seq (.update fun s h => ?_) fun _ => .pure fun s h => h
    have hfit := h.block_le hb
    have htake : (buf.take g.blockSize).length = g.blockSize := by
      rw [List.length_take]
      omega
    have hwrite : pwrite (b.toNat * (UInt32.ofNat g.blockSize).toNat)
        (buf.take (UInt32.ofNat g.blockSize).toNat) disk =
        splice (g.blockPos b.toNat) (buf.take g.blockSize) disk := by
      rw [toNat_blockSize, pwrite, htake]
      change splice (g.blockPos b.toNat) _
        (disk ++ List.replicate (g.blockPos b.toNat + g.blockSize - disk.length) 0) = _
      rw [Nat.sub_eq_zero_of_le hfit, List.replicate_zero, List.append_nil]
    rw [h.file, Option.map_some, hwrite]
    exact ⟨_, .inl rfl, h.write (length_splice (by omega))⟩

/-- The superblock in memory is saved, with something behind it, or is not. -/
theorem diskWriteSb_total : Total (Running g disk bytes sb) diskWriteSb fun _ s =>
    ∃ buf disk', buf.length = g.blockSize ∧
      slice 0 superblockSize buf = superblockCodec.encode sb ∧ Written 0 buf disk disk' ∧
      Running g disk' bytes sb s := by
  have hsize : (superblockCodec.encode sb).length = superblockSize :=
    superblockCodec.length_encode sb
  refine Total.bind (I := fun buf s => Running g disk bytes sb s ∧ buf.length = g.blockSize ∧
    slice 0 superblockSize buf = superblockCodec.encode sb) (.ask fun s h => ⟨h, ?_, ?_⟩)
    fun buf => .fact (fun _ h => h.2) fun hbuf => ?_
  · have hbs := g.inode_le
    rw [List.length_append, h.sb, hsize, List.length_map, List.length_range, h.size]
    unfold superblockSize
    omega
  · rw [h.sb, slice_append_left hsize.ge, ← hsize, slice_zero_length]
  · have hzero : (0 : UInt32).toNat < g.totalBlocks := (Nat.zero_le _).trans_lt g.dataStart_lt
    have hpos : g.blockPos (0 : UInt32).toNat = 0 := Nat.zero_mul _
    refine (diskWrite_total hzero hbuf.1.ge).conseq (fun _ h => h.1) fun _ s h => ?_
    obtain ⟨disk', hw, hrun⟩ := h
    rw [← hbuf.1, List.take_length, hpos] at hw
    exact ⟨buf, disk', hbuf.1, hbuf.2, hw, hrun⟩

/-- Block `i` of the bitmap in memory is written or is not. -/
theorem syncBitmapBlock_total {i : ℕ} (hi : i < g.bitmapBlocks) :
    Total (Running g disk bytes sb) (syncBitmapBlock sb bytes i) fun _ s => ∃ disk',
      Written (g.blockPos (1 + i)) (slice (i * g.blockSize) g.blockSize bytes) disk disk' ∧
      Running g disk' bytes sb s := by
  refine .fact (fun _ h => h.layout) fun hg => .fact (fun _ h => h.length_bitmap) fun hlen => ?_
  have hmul : (i + 1) * g.blockSize ≤ bytes.length := hlen ▸ Nat.mul_le_mul_right _ hi
  have hlt : 1 + i < g.totalBlocks :=
    (Nat.add_lt_add_left hi 1).trans (g.inodeStart_le_dataStart.trans_lt g.dataStart_lt)
  have htotal := g.totalBlocks_lt
  have hbytes := g.bytes_lt
  have hle : (i + 1) * g.blockSize ≤ g.totalBlocks * g.blockSize :=
    Nat.mul_le_mul_right _ (by omega)
  rw [Nat.succ_mul] at hmul hle
  have hword : (UInt32.ofNat i).toNat = i := toNat_word (by omega)
  have hoff : (UInt32.ofNat i * sb.blockSize).toNat = i * g.blockSize := by
    rw [UInt32.toNat_mul, hword, hg.blockSize, Nat.mod_eq_of_lt (by omega)]
  have hblock : (sb.bitmapStart + UInt32.ofNat i).toNat = 1 + i := by
    rw [UInt32.toNat_add, hg.bitmapStart, hword, Nat.mod_eq_of_lt (by omega)]
  have hoffset : bitmapOffset sb bytes i = pure (i * g.blockSize) := by
    rw [bitmapOffset]
    simp only [hoff]
    rw [require_pos (by omega), pure_bind]
  have hdrop : g.blockSize ≤ (bytes.drop (i * g.blockSize)).length := by
    rw [List.length_drop]
    omega
  have hwrite : Total (Running g disk bytes sb)
      (diskWrite (sb.bitmapStart + UInt32.ofNat i) (bytes.drop (i * g.blockSize))) _ :=
    diskWrite_total (hblock.trans_lt hlt) hdrop
  rw [hblock] at hwrite
  rw [syncBitmapBlock, hoffset, pure_bind]
  exact hwrite.bind fun _ => .pure fun _ h => h

/-! ## Inodes -/

def slotAt (g : Geometry) (disk : List UInt8) (i : ℕ) : Inode :=
  inodeCodec.decode (slice (g.slotPos i) 144 disk)

section Inodes
variable {id : UInt32} {i : ℕ}

theorem inodeLocation_total (hg : g.Describes sb) (hid : id.toNat = i) (hi : i < g.maxInodes) :
    Total (Running g disk bytes sb) (inodeLocation sb id) fun p s => Running g disk bytes sb s ∧
      p.1.toNat = g.inodeStart + i / g.inodesPerBlock ∧ p.2 = i % g.inodesPerBlock * 144 := by
  subst hid
  intro s h
  obtain ⟨blk, hloc, hblk⟩ := inodeLocation_eq hg hi s
  exact ⟨_, s, hloc, h, hblk, rfl⟩

theorem not_maxInodes_le (hg : g.Describes sb) (hid : id.toNat = i) (hi : i < g.maxInodes) :
    ¬sb.maxInodes ≤ id := by
  rw [UInt32.le_iff_toNat_le, hg.maxInodes]
  omega

/-- `inode_read` and `inode_write` begin by reading the block of the slot. -/
theorem slotBlock_total {α : Type} (hid : id.toNat = i) (hi : i < g.maxInodes) (fail : α)
    {k : UInt32 → ℕ → List UInt8 → M α} {Q : α → World → Prop}
    (hfail : Total (Running g disk bytes sb) (pure fail) Q)
    (hk : ∀ blk : UInt32, blk.toNat = g.inodeStart + i / g.inodesPerBlock →
      Total (Running g disk bytes sb)
        (k blk (i % g.inodesPerBlock * 144) (blockAt g disk blk.toNat)) Q) :
    Total (Running g disk bytes sb) (do
      let sb ← getSb
      if sb.maxInodes ≤ id then pure fail
      else
        let (blockNum, offsetInBlock) ← inodeLocation sb id
        let (ret, buf) ← mallocRead blockNum sb.blockSize
        if ret < 0 then pure fail else k blockNum offsetInBlock buf) Q := by
  refine .ask_bind (fun _ h => h.sb) (.fact (fun _ h => h.layout) fun hg => ?_)
  rw [if_neg (not_maxInodes_le hg hid hi)]
  refine (inodeLocation_total hg hid hi).bind fun p => ?_
  refine .fact (fun _ h => h.2) fun hp => ?_
  obtain ⟨blk, off⟩ := p
  obtain ⟨hblk, rfl⟩ := hp
  have hlt : blk.toNat < g.totalBlocks :=
    hblk.trans_lt ((g.slot_block_lt hi).trans g.dataStart_lt)
  refine Total.bind ((mallocRead_total hlt hg.blockSize).conseq (fun _ h => h.1) fun _ _ h => h) ?_
  rintro ⟨ret, buf⟩
  refine .fact (fun _ h => h.2.2) fun hret => ?_
  rcases hret with hret | ⟨hret, hbuf⟩
  · change ret = -1 at hret
    subst hret
    exact hfail.conseq (fun _ h => h.1) fun _ _ h => h
  · change ret = 0 at hret
    change buf = _ at hbuf
    subst hret hbuf
    exact (hk blk hblk).conseq (fun _ h => h.1) fun _ _ h => h

/-- The slot as it is on the disk, or nothing. -/
theorem inodeRead_total (hid : id.toNat = i) (hi : i < g.maxInodes) :
    Total (Running g disk bytes sb) (inodeRead id) fun r s => Running g disk bytes sb s ∧
      (r = none ∨ r = some (slotAt g disk i)) := by
  let k (_ : UInt32) (off : ℕ) (buf : List UInt8) : M (Option Inode) := do
    require (off + inodeSize.toNat ≤ buf.length)
    pure (some (inodeCodec.decode (slice off inodeSize.toNat buf)))
  refine slotBlock_total (k := k) hid hi none (.pure fun s h => ⟨h, .inl rfl⟩) fun blk hblk => ?_
  have hoff := g.slot_offset_le i
  have hlt := (g.slot_block_lt hi).trans g.dataStart_lt
  refine .fact (fun _ h => h.length_blockAt (hblk.trans_lt hlt)) fun hlen => ?_
  refine .require_bind (fun _ _ => ?_) (.pure fun s h => ⟨h, .inr ?_⟩)
  · change _ + 144 ≤ _
    omega
  · rw [slotAt, blockAt, hblk]
    exact congrArg (some ∘ inodeCodec.decode) (slice_slice hoff)

theorem inodeWrite_total (hid : id.toNat = i) (hi : i < g.maxInodes) (x : Inode) :
    Total (Running g disk bytes sb) (inodeWrite id x) fun _ s =>
      ∃ disk', Written (g.slotPos i) (inodeCodec.encode x) disk disk' ∧
        Running g disk' bytes sb s := by
  let k (blk : UInt32) (off : ℕ) (buf : List UInt8) : M Int := do
    require (off + inodeSize.toNat ≤ buf.length)
    let ret ← diskWrite blk (splice off (inodeCodec.encode x) buf)
    if ret < 0 then pure (-1) else pure 0
  refine slotBlock_total (k := k) hid hi (-1) (.pure fun s h => ⟨disk, .inr rfl, h⟩)
    fun blk hblk => ?_
  have hoff := g.slot_offset_le i
  have hlt := hblk.trans_lt ((g.slot_block_lt hi).trans g.dataStart_lt)
  have hx := length_encode_inode x
  refine .fact (fun _ h => h.length_blockAt hlt) fun hlen => ?_
  refine .fact (fun _ h => h.block_le hlt) fun hfit => ?_
  have hbuf : (splice (i % g.inodesPerBlock * 144) (inodeCodec.encode x)
      (blockAt g disk blk.toNat)).length = g.blockSize := by
    rw [length_splice (by omega), hlen]
  refine .require_bind (fun _ _ => ?_) ?_
  · change _ + 144 ≤ _
    omega
  · refine (diskWrite_total hlt hbuf.ge).bind fun ret => ?_
    have hend : Total (fun s => ∃ disk', Written (g.slotPos i) (inodeCodec.encode x) disk disk' ∧
        Running g disk' bytes sb s) (if ret < 0 then pure (-1) else pure 0 : M Int) fun _ s =>
        ∃ disk', Written (g.slotPos i) (inodeCodec.encode x) disk disk' ∧
          Running g disk' bytes sb s := by
      split_ifs
      · exact .pure fun _ h => h
      · exact .pure fun _ h => h
    refine hend.conseq (fun s h => ?_) fun _ _ h => h
    obtain ⟨disk', hdisk, hrun⟩ := h
    refine ⟨disk', hdisk.imp_left fun heq => ?_, hrun⟩
    rw [heq, ← hbuf, List.take_length, blockAt, splice_splice_slice (by omega) hfit, hblk]
    rfl

end Inodes

end MiniFs.Image
