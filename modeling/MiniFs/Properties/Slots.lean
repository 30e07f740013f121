import MiniFs.Properties.FormatAgreement

/-! # The slots of the inode table

On every layout `fs_format` accepts, whatever the disk holds, writing one inode
changes the bytes of its slot and no others. The alignment bytes of the struct are
part of an inode, so any 144 bytes are one.
-/

set_option autoImplicit false

namespace MiniFs.Properties
open MiniFs.Core MiniFs.Image Library Library.Exec Library.ByteRange

/-! ## A process on a formatted disk -/

/-- Superblocks of one layout; their counters and times may differ. -/
structure SameLayout (a b : Superblock) : Prop where
  magic : a.magic = b.magic
  totalBlocks : a.totalBlocks = b.totalBlocks
  blockSize : a.blockSize = b.blockSize
  maxInodes : a.maxInodes = b.maxInodes
  bitmapStart : a.bitmapStart = b.bitmapStart
  bitmapBlocks : a.bitmapBlocks = b.bitmapBlocks
  inodeStart : a.inodeStart = b.inodeStart
  inodeBlocks : a.inodeBlocks = b.inodeBlocks
  dataStart : a.dataStart = b.dataStart
  dataBlocks : a.dataBlocks = b.dataBlocks

theorem SameLayout.refl (a : Superblock) : SameLayout a a :=
  ⟨rfl, rfl, rfl, rfl, rfl, rfl, rfl, rfl, rfl, rfl⟩

theorem SameLayout.describes {g : Geometry} {a b : Superblock} (h : SameLayout a b)
    (hb : g.Describes b) : g.Describes a where
  magic := h.magic.trans hb.magic
  totalBlocks := h.totalBlocks ▸ hb.totalBlocks
  blockSize := h.blockSize ▸ hb.blockSize
  maxInodes := h.maxInodes ▸ hb.maxInodes
  bitmapStart := h.bitmapStart ▸ hb.bitmapStart
  bitmapBlocks := h.bitmapBlocks ▸ hb.bitmapBlocks
  inodeStart := h.inodeStart ▸ hb.inodeStart
  inodeBlocks := h.inodeBlocks ▸ hb.inodeBlocks
  dataStart := h.dataStart ▸ hb.dataStart
  dataBlocks := h.dataBlocks ▸ hb.dataBlocks

/-- The disk file is open, as large as the format made it and with any content, the superblock in
memory has the layout of `sb`, and the system calls succeed. -/
structure OnFormatted (totalSize blockSize : UInt32) (sb : Superblock) (w : World)
    (disk : List UInt8) : Prop where
  fd : w.fd = .opened
  size : w.diskBlockSize = blockSize
  layout : SameLayout w.sb sb
  file : w.file = some disk
  length : disk.length = totalSize.toNat
  faults : w.faults = noFaults

variable {totalSize blockSize : UInt32} {now : UInt64} {s0 s1 w : World} {disk : List UInt8}

/-- A format that returns 0 had sizes it accepts, and left their layout in memory. -/
theorem formatted_layout (hfmt : Core.fsFormat now totalSize blockSize s0 = some (0, s1)) :
    ∃ h : Image.Formattable totalSize blockSize, (Geometry.ofFormat h).Describes s1.sb := by
  obtain ⟨-, -, s, hinit, -⟩ := fsFormat_inv hfmt
  obtain ⟨hanswer, hsb⟩ := fsFormat_answer hinit hfmt
  have h := hanswer.mp rfl
  obtain ⟨n, hn⟩ := hsb rfl
  exact ⟨h, hn ▸ (describes_formatSb h now).freeBlocks n⟩

theorem OnFormatted.ready (hw : OnFormatted totalSize blockSize s1.sb w disk)
    (hfmt : Core.fsFormat now totalSize blockSize s0 = some (0, s1)) :
    ∃ g : Geometry, g.Describes w.sb ∧ Ready g w disk ∧ g.blockSize = blockSize.toNat := by
  obtain ⟨h, hlay⟩ := formatted_layout hfmt
  refine ⟨Geometry.ofFormat h, hw.layout.describes hlay, ⟨hw.fd, ?_, hw.file, ?_, hw.faults⟩, rfl⟩
  · rw [hw.size]
    rfl
  · rw [hw.length]
    exact Nat.div_mul_le_self _ _

/-! ## Slots -/

def slotOffset (sb : Superblock) (i : UInt32) : ℕ :=
  (sb.inodeStart.toNat + i.toNat / (sb.blockSize.toNat / 144)) * sb.blockSize.toNat +
    i.toNat % (sb.blockSize.toNat / 144) * 144

theorem slotOffset_eq {g : Geometry} {sb : Superblock} (h : g.Describes sb) (i : UInt32) :
    slotOffset sb i = g.slotPos i.toNat := by
  rw [slotOffset, h.inodeStart, h.blockSize]
  rfl

/-- Whatever inodes the slots hold and whatever is written to one of them: the write succeeds, it
is read back, all other slots read as before, and no byte outside the slot changes, which lies
between `inode_start` and `data_start`. -/
theorem inode_slots_independent (hfmt : Core.fsFormat now totalSize blockSize s0 = some (0, s1))
    (hw : OnFormatted totalSize blockSize s1.sb w disk) {i : UInt32} (hi : i < w.sb.maxInodes)
    (x : Inode) :
    ∃ disk' : List UInt8, inodeWrite i x w = some (0, { w with file := some disk' }) ∧
      inodeRead i { w with file := some disk' } = some (some x, { w with file := some disk' }) ∧
      (∀ j, j < w.sb.maxInodes → j ≠ i → ∃ y, inodeRead j w = some (some y, w) ∧
        inodeRead j { w with file := some disk' } = some (some y, { w with file := some disk' })) ∧
      disk'.length = disk.length ∧
      (∀ k, k < slotOffset w.sb i ∨ slotOffset w.sb i + 144 ≤ k → disk'[k]? = disk[k]?) ∧
      w.sb.inodeStart.toNat * blockSize.toNat ≤ slotOffset w.sb i ∧
      slotOffset w.sb i + 144 ≤ w.sb.dataStart.toNat * blockSize.toNat := by
  obtain ⟨g, hlay, hready, hsize⟩ := hw.ready hfmt
  have hid {j : UInt32} (hj : j < w.sb.maxInodes) : j.toNat < g.maxInodes := by
    rw [← hlay.maxInodes]
    exact UInt32.lt_iff_toNat_lt.mp hj
  obtain ⟨hlow, hhigh⟩ := g.slotPos_bounds (hid hi)
  have hregion := g.blockPos_mono g.dataStart_lt.le
  have hx := length_encode_inode x
  have hlen := hready.length
  have hfit : g.slotPos i.toNat + (inodeCodec.encode x).length ≤ disk.length := by omega
  set disk' := splice (g.slotPos i.toNat) (inodeCodec.encode x) disk with hdisk'
  have hlay' : g.Describes { w with file := some disk' }.sb := hlay
  have hlen' : disk'.length = disk.length := length_splice hfit
  have hready' : Ready g { w with file := some disk' } disk' :=
    ⟨hready.fd, hready.size, rfl, hlen'.symm ▸ hlen, hready.faults⟩
  refine ⟨disk', inodeWrite_ready hlay hready (hid hi) x, ?_, fun j hj hne => ?_, hlen', ?_, ?_, ?_⟩
  · have hself := slice_splice_self hfit
    rw [hx] at hself
    rw [inodeRead_ready hlay' hready' (hid hi), hself, inodeCodec.decode_encode]
  · refine ⟨_, inodeRead_ready hlay hready (hid hj), ?_⟩
    have hapart := g.slotPos_disjoint fun h => hne (UInt32.toNat_inj.mp h)
    rw [inodeRead_ready hlay' hready' (hid hj), hdisk', slice_splice_disjoint hfit (by omega)]
  · intro k hk
    rw [slotOffset_eq hlay] at hk
    rw [hdisk', getElem?_splice hfit]
    split_ifs
    · rfl
    · omega
    · rfl
  · rw [slotOffset_eq hlay, hlay.inodeStart, ← hsize]
    exact hlow
  · rw [slotOffset_eq hlay, hlay.dataStart, ← hsize]
    exact hhigh

/-- Three slots in blocks of 500 bytes, and a disk full of other bytes. -/
theorem inode_slots_independent_three : ∃ s1 w disk disk',
    Core.fsFormat 0 2500 500 (.start none 0 0) = some (0, s1) ∧
    OnFormatted 2500 500 s1.sb w disk ∧ (1 : UInt32) < w.sb.maxInodes ∧
    inodeWrite 1 Inode.zero w = some (0, { w with file := some disk' }) ∧
    inodeRead 1 { w with file := some disk' } =
      some (some Inode.zero, { w with file := some disk' }) ∧
    (∀ j, j < w.sb.maxInodes → j ≠ 1 → ∃ y, inodeRead j w = some (some y, w) ∧
      inodeRead j { w with file := some disk' } = some (some y, { w with file := some disk' })) ∧
    disk'.length = disk.length ∧
    (∀ k, k < slotOffset w.sb 1 ∨ slotOffset w.sb 1 + 144 ≤ k → disk'[k]? = disk[k]?) ∧
    w.sb.inodeStart.toNat * (500 : UInt32).toNat ≤ slotOffset w.sb 1 ∧
    slotOffset w.sb 1 + 144 ≤ w.sb.dataStart.toNat * (500 : UInt32).toNat := by
  have hrun : (Core.fsFormat 0 2500 500 (.start none 0 0)).any fun p =>
      p.1 = 0 ∧ 1 < p.2.sb.maxInodes := by decide +kernel
  obtain ⟨r, s1, hfmt, hr⟩ := exists_of_any hrun
  obtain ⟨rfl, hi⟩ : r = 0 ∧ 1 < s1.sb.maxInodes := of_decide_eq_true hr
  let w : World := { s1 with
    fd := .opened
    diskBlockSize := 500
    file := some (List.replicate 2500 7)
    faults := noFaults }
  have hw : OnFormatted 2500 500 s1.sb w (List.replicate 2500 7) :=
    ⟨rfl, rfl, SameLayout.refl s1.sb, rfl, List.length_replicate, rfl⟩
  obtain ⟨disk', hall⟩ := inode_slots_independent hfmt hw (i := 1) hi Inode.zero
  exact ⟨s1, w, _, disk', hfmt, hw, hi, hall⟩

end MiniFs.Properties
