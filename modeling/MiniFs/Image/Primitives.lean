import MiniFs.Image.Represents

/-! # The primitives on a volume

One lemma per primitive of the core: what it answers and what it does to the
volume, as long as no system call fails.
-/

set_option autoImplicit false

namespace MiniFs.Image
open MiniFs.Core Library Library.Exec Library.ByteRange Library.BitArray

variable {g : Geometry} {v : View}

theorem Represents.ready {s : World} (h : Represents g s v) (hv : v.faults = noFaults)
    {disk bytes : List UInt8} (hfile : s.file = some disk) (hh : Holds g disk bytes v.vol) :
    Ready g s disk :=
  ⟨h.fd, h.size, hfile, hh.length, h.faults.trans hv⟩

theorem emit_runs (m : Message) :
    Runs (view g) v (emit m) () (v.say [m]) := by
  apply Runs.update
  · intro s hs
    exact { hs with out := congrArg (· ++ [m]) hs.out }
  · exact fun _ => rfl
  · intro s t hst
    exact { hst with out := congrArg (· ++ [m]) hst.out }

theorem getSb_runs : Runs (view g) v getSb v.vol.sb v :=
  Runs.ask fun _ hs => hs.sb

theorem setSb_runs {f : Superblock → Superblock} (hf : g.Describes (f v.vol.sb)) :
    Runs (view g) v (setSb f) () (v.setVol (v.vol.setSb f)) := by
  apply Runs.update
  · intro s hs
    obtain ⟨disk, bytes, hfile, hmem, hh, htail⟩ := hs.memory
    exact { hs with
      sb := congrArg f hs.sb
      layout := hf
      memory := ⟨disk, bytes, hfile, hmem, { hh with }, htail⟩ }
  · exact fun _ => rfl
  · intro s t hst
    exact { hst with sb := congrArg f hst.sb }

/-! ## The inode table -/

section Inodes
variable {s : World} {disk : List UInt8}

theorem toNat_inodesPerBlock {sb : Superblock} (hg : g.Describes sb) :
    (sb.blockSize / inodeSize).toNat = g.inodesPerBlock := by
  rw [UInt32.toNat_div, hg.blockSize]
  rfl

theorem inodeLocation_eq {sb : Superblock} (hg : g.Describes sb) {id : UInt32}
    (hi : id.toNat < g.maxInodes) (s : World) :
    ∃ blk : UInt32, inodeLocation sb id s = some ((blk, id.toNat % g.inodesPerBlock * 144), s) ∧
      blk.toNat = g.inodeStart + id.toNat / g.inodesPerBlock := by
  have hper := toNat_inodesPerBlock hg
  have hpos := g.inodesPerBlock_pos
  have h1 := g.slot_block_lt hi
  have h2 := g.dataStart_lt
  have h3 := g.totalBlocks_lt
  have h4 := g.slot_offset_le id.toNat
  have h5 := g.blockSize_lt
  refine ⟨sb.inodeStart + id / (sb.blockSize / inodeSize), ?_, ?_⟩
  · have hne : sb.blockSize / inodeSize ≠ 0 := by
      intro h
      rw [h] at hper
      exact absurd hper.symm (Nat.pos_iff_ne_zero.mp hpos)
    have hoff : (id % (sb.blockSize / inodeSize) * inodeSize).toNat =
        id.toNat % g.inodesPerBlock * 144 := by
      rw [UInt32.toNat_mul, UInt32.toNat_mod, hper]
      exact Nat.mod_eq_of_lt (by change _ * 144 < _; omega)
    simp only [inodeLocation, bind_apply]
    rw [require_pos hne, pure_apply, Option.bind_some, hoff, pure_apply]
  · rw [UInt32.toNat_add, UInt32.toNat_div, hper, hg.inodeStart]
    exact Nat.mod_eq_of_lt (by omega)

theorem inodeRead_ready (hg : g.Describes s.sb) (h : Ready g s disk) {id : UInt32}
    (hi : id.toNat < g.maxInodes) :
    inodeRead id s = some (some (inodeCodec.decode (slice (g.slotPos id.toNat) 144 disk)), s) := by
  obtain ⟨blk, hloc, hblk⟩ := inodeLocation_eq hg hi s
  have hlt := (g.slot_block_lt hi).trans g.dataStart_lt
  have hoff := g.slot_offset_le id.toNat
  have hid : ¬ s.sb.maxInodes ≤ id := by
    rw [UInt32.le_iff_toNat_le, hg.maxInodes]; omega
  have hlen : (blockAt g disk blk.toNat).length = g.blockSize :=
    h.length_blockAt (by rw [hblk]; exact hlt)
  simp only [inodeRead, getSb, bind_apply, ask_apply, Option.bind_some, if_neg hid, hloc]
  rw [mallocRead_ready h (by rw [hblk]; exact hlt) hg.blockSize]
  simp only [Option.bind_some]
  rw [if_neg (by decide), bind_apply, require_pos (by change _ + 144 ≤ _; omega), pure_apply,
    Option.bind_some, pure_apply]
  congr 4
  rw [blockAt, hblk]
  exact slice_slice hoff

theorem inodeWrite_ready (hg : g.Describes s.sb) (h : Ready g s disk) {id : UInt32}
    (hi : id.toNat < g.maxInodes) (x : Inode) :
    inodeWrite id x s = some (0, { s with
      file := some (splice (g.slotPos id.toNat) (inodeCodec.encode x) disk) }) := by
  obtain ⟨blk, hloc, hblk⟩ := inodeLocation_eq hg hi s
  have hlt := (g.slot_block_lt hi).trans g.dataStart_lt
  have hoff := g.slot_offset_le id.toNat
  have hid : ¬ s.sb.maxInodes ≤ id := by
    rw [UInt32.le_iff_toNat_le, hg.maxInodes]; omega
  have hx := length_encode_inode x
  have hlen : (blockAt g disk blk.toNat).length = g.blockSize :=
    h.length_blockAt (by rw [hblk]; exact hlt)
  have hbuf : (splice (id.toNat % g.inodesPerBlock * 144) (inodeCodec.encode x)
      (blockAt g disk blk.toNat)).length = g.blockSize := by
    rw [length_splice (by omega), hlen]
  simp only [inodeWrite, getSb, bind_apply, ask_apply, Option.bind_some, if_neg hid, hloc]
  rw [mallocRead_ready h (by rw [hblk]; exact hlt) hg.blockSize]
  simp only [Option.bind_some]
  rw [if_neg (by decide), bind_apply, require_pos (by change _ + 144 ≤ _; omega), pure_apply,
    Option.bind_some, bind_apply, diskWrite_ready h (by rw [hblk]; exact hlt) hbuf.ge,
    Option.bind_some]
  simp only
  rw [if_neg (by decide), pure_apply, ← hbuf, List.take_length, blockAt, hblk]
  rw [splice_splice_slice (by omega) (h.block_le hlt)]
  rfl

end Inodes

theorem inodeRead_runs (hv : v.faults = noFaults) {id : UInt32} {i : ℕ} (hid : id.toNat = i)
    (hi : i < v.vol.inodes.length) :
    Runs (view g) v (inodeRead id) (some v.vol.inodes[i]) v := by
  apply Runs.read
  intro s hs
  obtain ⟨disk, bytes, hfile, -, hh, -⟩ := hs.memory
  have hlt : id.toNat < g.maxInodes := by rw [hid, ← hh.inodes_length]; exact hi
  rw [inodeRead_ready (hs.sb ▸ hs.layout) (hs.ready hv hfile hh) hlt, hid, hh.inode i hi,
    inodeCodec.decode_encode]

theorem inodeWrite_runs (hv : v.faults = noFaults) {id : UInt32} {i : ℕ} (hid : id.toNat = i)
    (hi : i < v.vol.inodes.length) (hlen : v.vol.inodes.length = g.maxInodes) {x : Inode} :
    Runs (view g) v (inodeWrite id x) 0 (v.setVol (v.vol.setInode i x)) := by
  have hx := length_encode_inode x
  have hslot := g.slotPos_bounds (hlen ▸ hi)
  obtain ⟨r1, r2, r3, r4, r5⟩ := region_bounds g
  refine runs_putBytes (g.slotPos i) (inodeCodec.encode x) (by omega) (by omega) rfl
    (fun disk bytes hh => hh.writeInode hi x) fun s hs => ?_
  obtain ⟨disk, bytes, hfile, -, hh, -⟩ := hs.memory
  rw [inodeWrite_ready (hs.sb ▸ hs.layout) (hs.ready hv hfile hh) (by omega), hid, putBytes, hfile]
  rfl

/-! ## The bitmap -/

section Bitmap
variable {s : World} {disk bytes : List UInt8}

/-- The changed bitmap, the changed superblock, and the write-back. -/
theorem rewriteBitmap_ready {α : Type} (hr : Ready g s disk) (hm : s.bitmap = .live bytes)
    (hb : bytes.length = g.bitmapBlocks * g.blockSize) {f : List UInt8 → List UInt8}
    {h : Superblock → Superblock} (hlen : (f bytes).length = bytes.length)
    (hlayout : g.Describes (h s.sb)) (a : α) :
    (do setBitmap (.live (f bytes)); setSb h; bitmapSync; pure a : M α) s =
      some (a, rewriteBitmap g f h s) := by
  let s1 : World := { s with bitmap := .live (f bytes), sb := h s.sb }
  have hr1 : Ready g s1 disk := ⟨hr.fd, hr.size, hr.file, hr.length, hr.faults⟩
  have hsync := bitmapSync_ready (s := s1) hlayout hr1 rfl (hlen.trans hb)
  simp only [setBitmap, setSb, bind_apply, update_apply, Option.bind_some]
  rw [hsync]
  simp only [s1, rewriteBitmap, hm, hr.file, pointerBytes, Option.map_some, Option.bind_some,
    pure_apply]

theorem Represents.bitmap_fits (hs : Represents g s v) :
    ∀ disk, s.file = some disk → g.blockPos 1 + (pointerBytes s.bitmap).length ≤ disk.length := by
  obtain ⟨r1, r2, r3, r4, r5⟩ := region_bounds g
  obtain ⟨disk, bytes, hfile, hmem, hold, -⟩ := hs.memory
  intro d hd
  obtain rfl : d = disk := Option.some.inj (hd.symm.trans hfile)
  have h1 := hold.length_bytes
  have h2 := hold.length
  rw [hmem, pointerBytes]
  omega

theorem bit_lt {b : ℕ} (hb : b < g.totalBlocks) (hlen : bytes.length = g.bitmapBlocks * g.blockSize) :
    b / 8 < bytes.length := by
  have := g.bits_le
  omega

theorem Geometry.Describes.freeBlocks {sb : Superblock} (hg : g.Describes sb) (n : UInt32) :
    g.Describes { sb with freeBlocks := n } :=
  { hg with }

theorem Geometry.Describes.freeInodes {sb : Superblock} (hg : g.Describes sb) (n : UInt32) :
    g.Describes { sb with freeInodes := n } :=
  { hg with }

theorem allocateIfClear_set {k : ℕ} (hm : s.bitmap = .live bytes) (hlt : k / 8 < bytes.length)
    (hbit : bitAt bytes k = true) : allocateIfClear k s = some (none, s) := by
  have hset : ¬bytes.getD (k / 8) 0 &&& mask (k % 8) = 0 := by
    rw [and_mask_eq_zero_iff _ (Nat.mod_lt _ (by decide))]
    rw [bitAt] at hbit
    rw [hbit]
    decide
  simp only [allocateIfClear, bitmapBytes, bind_apply, ask_apply, Option.bind_some, hm, pure_apply]
  rw [require_pos hlt, pure_apply, Option.bind_some, if_neg hset, pure_apply]

theorem allocateIfClear_clear (hlay : g.Describes s.sb) (hr : Ready g s disk)
    (hm : s.bitmap = .live bytes) (hlen : bytes.length = g.bitmapBlocks * g.blockSize) {k : ℕ}
    (hk : k < g.totalBlocks) (hbit : bitAt bytes k = false) :
    allocateIfClear k s = some (some (UInt32.ofNat k),
      rewriteBitmap g (setBit · k) (fun sb => { sb with freeBlocks := sb.freeBlocks - 1 }) s) := by
  have hclear : bytes.getD (k / 8) 0 &&& mask (k % 8) = 0 :=
    (and_mask_eq_zero_iff _ (Nat.mod_lt _ (by decide))).mpr hbit
  simp only [allocateIfClear, bitmapBytes, bind_apply, ask_apply, Option.bind_some, hm, pure_apply]
  rw [require_pos (bit_lt hk hlen), pure_apply, Option.bind_some, if_pos hclear]
  exact rewriteBitmap_ready (f := (setBit · k))
    (h := fun sb => { sb with freeBlocks := sb.freeBlocks - 1 }) hr hm hlen (length_setBit _ _)
    (hlay.freeBlocks _) _

theorem bitmapFreeBlock_ready (hlay : g.Describes s.sb) (hr : Ready g s disk)
    (hm : s.bitmap = .live bytes) (hlen : bytes.length = g.bitmapBlocks * g.blockSize)
    {b : UInt32} (hb : b.toNat < g.totalBlocks) :
    bitmapFreeBlock b s = some (0, rewriteBitmap g (clearBit · b.toNat)
      (fun sb => { sb with freeBlocks := sb.freeBlocks + 1 }) s) := by
  have hle : ¬ s.sb.totalBlocks ≤ b := by
    rw [UInt32.le_iff_toNat_le, hlay.totalBlocks]
    omega
  simp only [bitmapFreeBlock, getSb, bitmapBytes, bind_apply, ask_apply, Option.bind_some, hm,
    if_neg hle, pure_apply]
  rw [require_pos (bit_lt hb hlen), pure_apply, Option.bind_some]
  exact rewriteBitmap_ready (f := (clearBit · b.toNat))
    (h := fun sb => { sb with freeBlocks := sb.freeBlocks + 1 }) hr hm hlen (length_clearBit _ _)
    (hlay.freeBlocks _) (0 : Int)

end Bitmap

def Volume.release (vol : Volume) (b : ℕ) : Volume :=
  { vol with
    used := vol.used.erase b
    sb := { vol.sb with freeBlocks := vol.sb.freeBlocks + 1 } }

def Volume.take (vol : Volume) (b : ℕ) : Volume :=
  { vol with
    used := insert b vol.used
    sb := { vol.sb with freeBlocks := vol.sb.freeBlocks - 1 } }

theorem bitmapFreeBlock_runs (hv : v.faults = noFaults) {b : UInt32} (hb : b.toNat < g.totalBlocks) :
    Runs (view g) v (bitmapFreeBlock b) 0 (v.setVol (v.vol.release b.toNat)) := by
  refine ⟨rewriteBitmap g (clearBit · b.toNat) fun sb => { sb with freeBlocks := sb.freeBlocks + 1 },
    fun s hs => ⟨?_, ?_, rfl, ?_⟩⟩
  · obtain ⟨disk, bytes, hfile, hmem, hh, -⟩ := hs.memory
    exact bitmapFreeBlock_ready (hs.sb ▸ hs.layout) (hs.ready hv hfile hh) hmem hh.length_bytes hb
  · apply hs.rewriteBitmap (fun bytes => length_clearBit bytes _)
    · intro bytes hh c
      rw [bitAt_clearBit (bit_lt hb hh.length_bytes), hh.bits c]
      by_cases hbc : b.toNat = c
      · simp [hbc]
      · simp [hbc, Ne.symm hbc]
    · exact hs.layout.freeBlocks _
  · intro t ht hst
    exact hst.rewriteBitmap (fun bytes => length_clearBit bytes _) hs.bitmap_fits

/-- The scan passes a block in use. -/
theorem allocateIfClear_used {k : ℕ} (hk : k < g.totalBlocks)
    (hused : k ∈ v.vol.used) : Runs (view g) v (allocateIfClear k) none v := by
  apply Runs.read
  intro s hs
  obtain ⟨disk, bytes, hfile, hmem, hh, -⟩ := hs.memory
  exact allocateIfClear_set hmem (bit_lt hk hh.length_bytes)
    ((hh.bits k).trans (decide_eq_true hused))

/-- The scan stops at a free block and takes it. -/
theorem allocateIfClear_free (hv : v.faults = noFaults) {k : ℕ} (hk : k < g.totalBlocks)
    (hfree : k ∉ v.vol.used) :
    Runs (view g) v (allocateIfClear k) (some (UInt32.ofNat k)) (v.setVol (v.vol.take k)) := by
  refine ⟨rewriteBitmap g (setBit · k) fun sb => { sb with freeBlocks := sb.freeBlocks - 1 },
    fun s hs => ⟨?_, ?_, rfl, ?_⟩⟩
  · obtain ⟨disk, bytes, hfile, hmem, hh, -⟩ := hs.memory
    exact allocateIfClear_clear (hs.sb ▸ hs.layout) (hs.ready hv hfile hh) hmem hh.length_bytes hk
      ((hh.bits k).trans (decide_eq_false hfree))
  · apply hs.rewriteBitmap (fun bytes => length_setBit bytes _)
    · intro bytes hh c
      rw [bitAt_setBit (bit_lt hk hh.length_bytes), hh.bits c]
      by_cases hkc : k = c
      · simp [hkc]
      · simp [hkc, Ne.symm hkc]
    · exact hs.layout.freeBlocks _
  · intro t ht hst
    exact hst.rewriteBitmap (fun bytes => length_setBit bytes _) hs.bitmap_fits

theorem bitmapAllocateBlock_runs (hv : v.faults = noFaults) (hg : g.Describes v.vol.sb) {k : ℕ}
    (hk : k < g.totalBlocks) (hfree : k ∉ v.vol.used) (hleast : ∀ j < k, j ∈ v.vol.used) :
    Runs (view g) v bitmapAllocateBlock (some (UInt32.ofNat k)) (v.setVol (v.vol.take k)) := by
  refine getSb_runs.bind ?_
  rw [hg.totalBlocks]
  exact Runs.search_some (Nat.zero_le k) (by omega)
    (fun j _ hj => allocateIfClear_used (hj.trans hk) (hleast j hj))
    (allocateIfClear_free hv hk hfree)

/-! ## Data blocks and the superblock -/

theorem mallocRead_runs (hv : v.faults = noFaults) {b n : UInt32} (hb : g.dataStart ≤ b.toNat)
    (hb' : b.toNat < g.totalBlocks) (hn : n.toNat = g.blockSize) :
    Runs (view g) v (mallocRead b n) (0, v.vol.data b.toNat) v := by
  apply Runs.read
  intro s hs
  obtain ⟨disk, bytes, hfile, -, hh, -⟩ := hs.memory
  rw [mallocRead_ready (hs.ready hv hfile hh) hb' hn, hh.data _ hb hb']

theorem diskWrite_runs (hv : v.faults = noFaults) {b : UInt32} (hb : g.dataStart ≤ b.toNat)
    (hb' : b.toNat < g.totalBlocks) {buf : List UInt8} (hbuf : buf.length = g.blockSize) :
    Runs (view g) v (diskWrite b buf) 0 (v.setVol (v.vol.setData b.toNat buf)) := by
  obtain ⟨r1, r2, r3, r4, r5⟩ := region_bounds g
  have hpos := data_bounds hb hb'
  refine runs_putBytes (g.blockPos b.toNat) buf (by omega) (by omega) rfl
    (fun disk bytes hh => hh.writeData hb hb' hbuf) fun s hs => ?_
  obtain ⟨disk, bytes, hfile, -, hh, -⟩ := hs.memory
  rw [diskWrite_ready (hs.ready hv hfile hh) hb' hbuf.ge, ← hbuf, List.take_length, putBytes, hfile]
  rfl

theorem superblockBytes_getElem? {s t : World} (hsb : s.sb = t.sb) {k : ℕ}
    (hk : k < superblockSize ∨ g.blockSize ≤ k) :
    (superblockBytes g s)[k]? = (superblockBytes g t)[k]? := by
  have hs := superblockCodec.length_encode t.sb
  rw [superblockCodec_size] at hs
  rcases hk with hlt | hge
  · unfold superblockBytes
    rw [hsb, List.getElem?_append_left (by omega), List.getElem?_append_left (by omega)]
  · rw [List.getElem?_eq_none (by rw [length_superblockBytes]; exact hge),
      List.getElem?_eq_none (by rw [length_superblockBytes]; exact hge)]

theorem slice_superblockBytes (g : Geometry) (s : World) :
    slice 0 superblockSize (superblockBytes g s) = superblockCodec.encode s.sb := by
  have hs := superblockCodec.length_encode s.sb
  rw [superblockCodec_size] at hs
  rw [superblockBytes, slice_append_left hs.ge, ← hs, slice_zero_length]

theorem tailOf_superblockBytes (g : Geometry) (s : World) :
    tailOf g (superblockBytes g s) = overrun g s := by
  have hs := superblockCodec.length_encode s.sb
  rw [superblockCodec_size] at hs
  have h := slice_append_right (superblockCodec.encode s.sb) (overrun g s)
  rw [hs, overrun, List.length_map, List.length_range] at h
  exact h

theorem tailOf_save {s : World} {disk : List UInt8} (hlen : g.blockPos g.totalBlocks ≤ disk.length) :
    tailOf g (splice 0 (superblockBytes g s) disk) = overrun g s := by
  have hbytes := length_superblockBytes g s
  have h0 := g.blockPos_add_le (lt_of_le_of_lt (Nat.zero_le _) g.dataStart_lt)
  have hself := slice_splice_self (l := disk)
    (show 0 + (superblockBytes g s).length ≤ disk.length by omega)
  have htail := slice_slice (i := superblockSize) (n := g.blockSize - superblockSize) (j := 0)
    (m := g.blockSize) (l := splice 0 (superblockBytes g s) disk)
    (by have := g.inode_le; unfold superblockSize; omega)
  rw [hbytes] at hself
  rw [hself, Nat.zero_add] at htail
  rw [tailOf, ← htail]
  exact tailOf_superblockBytes g s

/-- `disk_write(0, &sb)` saves the superblock and fixes the rest of block 0. -/
theorem diskWriteSb_runs (hv : v.faults = noFaults) :
    Runs (view g) v diskWriteSb 0 v.save := by
  have hroom := g.dataStart_lt
  refine ⟨fun s => { s with file := s.file.map (splice 0 (superblockBytes g s)) },
    fun s hs => ⟨?_, ?_, rfl, ?_⟩⟩
  · obtain ⟨disk, bytes, hfile, -, hh, -⟩ := hs.memory
    rw [diskWriteSb_ready (hs.ready hv hfile hh)]
    simp only [hfile, Option.map_some]
  · obtain ⟨disk, bytes, hfile, hmem, hh, -⟩ := hs.memory
    have hlen := length_superblockBytes g s
    have hsb := slice_superblockBytes g s
    rw [hs.sb] at hsb
    refine { hs with
      memory := ⟨splice 0 (superblockBytes g s) disk, bytes, ?_, hmem,
        { hh.writeSuperblock hlen hsb with }, fun _ => ?_⟩ }
    · simp only [hfile, Option.map_some]
    · exact tailOf_save hh.length
  · intro t ht hst
    obtain ⟨d, e, hd, he, hde⟩ := hst.file
    have hlen := length_superblockBytes g s
    refine { hst with file := ⟨splice 0 (superblockBytes g s) d, splice 0 (superblockBytes g t) e,
      ?_, ?_, hde.splice ?_ ?_ ?_⟩ }
    · simp only [hd, Option.map_some]
    · simp only [he, Option.map_some]
    · have h1 := g.blockPos_add_le (lt_of_le_of_lt (Nat.zero_le _) hroom)
      exact hs.fits (by rw [hlen]; omega) d hd
    · rw [hlen, length_superblockBytes]
    · intro k hk
      rw [Nat.zero_add] at hk
      exact superblockBytes_getElem? hst.sb hk

end MiniFs.Image
