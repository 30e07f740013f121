import MiniFs.Image.Transfers
import Mathlib.Data.Finset.Card

/-! # The volume a process sees

A volume is the content of a mounted disk as its parts: the superblock in memory
and on disk, the set of used blocks, the inode table, and the data blocks. It
leaves out the bytes that mean nothing: the rest of block 0, the bits past the
last block, and the gaps between inodes.
-/

set_option autoImplicit false

namespace MiniFs.Image
open MiniFs.Core Library Library.Exec Library.ByteRange Library.BitArray

structure Volume where
  /-- the superblock in memory -/
  sb : Superblock
  /-- the superblock in block 0 -/
  saved : Superblock
  used : Finset ℕ
  inodes : List Inode
  data : ℕ → List UInt8

/-- A disk file, and a bitmap in memory equal to the one on it, that hold a volume. -/
structure Holds (g : Geometry) (disk bytes : List UInt8) (vol : Volume) : Prop where
  length : g.blockPos g.totalBlocks ≤ disk.length
  saved : slice 0 superblockSize disk = superblockCodec.encode vol.saved
  bitmap : slice (g.blockPos 1) (g.bitmapBlocks * g.blockSize) disk = bytes
  bits : ∀ b, bitAt bytes b = decide (b ∈ vol.used)
  inodes_length : vol.inodes.length = g.maxInodes
  inode : ∀ (i : ℕ) (hi : i < vol.inodes.length),
    slice (g.slotPos i) 144 disk = inodeCodec.encode vol.inodes[i]
  data : ∀ b, g.dataStart ≤ b → b < g.totalBlocks → blockAt g disk b = vol.data b

/-- The memory behind the global superblock, as far as it reaches block 0. -/
def overrun (g : Geometry) (s : World) : List UInt8 :=
  (List.range (g.blockSize - superblockSize)).map s.behindSb

/-- The rest of block 0 behind the superblock. -/
def tailOf (g : Geometry) (disk : List UInt8) : List UInt8 :=
  slice superblockSize (g.blockSize - superblockSize) disk

/-- What an abstract run follows: the volume, what is printed, and the failures to come.
`stamped` says that the rest of block 0 was written by this process. -/
structure View where
  vol : Volume
  out : List Message
  faults : ℕ → Fault
  stamped : Bool

def View.setVol (v : View) (vol : Volume) : View := { v with vol := vol }

def View.say (v : View) (msgs : List Message) : View := { v with out := v.out ++ msgs }

def View.save (v : View) : View :=
  { v with vol := { v.vol with saved := v.vol.sb }, stamped := true }

def Volume.setSb (vol : Volume) (f : Superblock → Superblock) : Volume :=
  { vol with sb := f vol.sb }

def Volume.setInode (vol : Volume) (i : ℕ) (x : Inode) : Volume :=
  { vol with inodes := vol.inodes.set i x }

def Volume.setData (vol : Volume) (b : ℕ) (buf : List UInt8) : Volume :=
  { vol with data := Function.update vol.data b buf }

structure Represents (g : Geometry) (s : World) (v : View) : Prop where
  fd : s.fd = .opened
  size : s.diskBlockSize.toNat = g.blockSize
  sb : s.sb = v.vol.sb
  layout : g.Describes v.vol.sb
  out : s.out = v.out
  faults : s.faults = v.faults
  memory : ∃ disk bytes, s.file = some disk ∧ s.bitmap = .live bytes ∧
    Holds g disk bytes v.vol ∧ (v.stamped → tailOf g disk = overrun g s)

/-- Two files that differ at most in the rest of block 0. -/
def AgreeOutsideTail (g : Geometry) (d e : List UInt8) : Prop :=
  d.length = e.length ∧ ∀ k, k < superblockSize ∨ g.blockSize ≤ k → d[k]? = e[k]?

/-- Two processes that differ at most in what no command looks at: uninitialised memory, the
memory behind the superblock, and the rest of block 0. -/
structure Same (g : Geometry) (s t : World) : Prop where
  fd : s.fd = t.fd
  size : s.diskBlockSize = t.diskBlockSize
  sb : s.sb = t.sb
  bitmap : s.bitmap = t.bitmap
  out : s.out = t.out
  faults : s.faults = t.faults
  file : ∃ d e, s.file = some d ∧ t.file = some e ∧ AgreeOutsideTail g d e

/-- Memory the program never writes. -/
def foreign (s : World) : (ℕ → UInt8) × (ℕ → UInt8) := (s.behindSb, s.garbage)

/-- The view of a process on a disk of the given geometry. -/
def view (g : Geometry) : Abstraction World View ((ℕ → UInt8) × (ℕ → UInt8)) where
  rep := Represents g
  same := Same g
  env := foreign

/-! ## How writes change what a disk holds -/

section Writes
variable {g : Geometry} {disk bytes : List UInt8} {vol : Volume}

theorem blockPos_one : g.blockPos 1 = g.blockSize := Nat.one_mul _

theorem blockPos_bitmap : g.blockPos 1 + g.bitmapBlocks * g.blockSize = g.blockPos g.inodeStart := by
  unfold Geometry.blockPos Geometry.inodeStart
  ring

theorem Holds.length_bytes (h : Holds g disk bytes vol) :
    bytes.length = g.bitmapBlocks * g.blockSize := by
  rw [← h.bitmap]
  apply length_slice
  have h1 := blockPos_bitmap (g := g)
  have h2 := g.blockPos_mono (g.inodeStart_le_dataStart.trans g.dataStart_lt.le)
  have h3 := h.length
  omega

/-- The parts of a disk in bytes: superblock and its block, bitmap, inode table, data. -/
theorem region_bounds (g : Geometry) : 144 ≤ g.blockSize ∧ g.blockPos 1 = g.blockSize ∧
    g.blockPos 1 + g.bitmapBlocks * g.blockSize = g.blockPos g.inodeStart ∧
    g.blockPos g.inodeStart ≤ g.blockPos g.dataStart ∧
    g.blockPos g.dataStart ≤ g.blockPos g.totalBlocks :=
  ⟨g.inode_le, blockPos_one, blockPos_bitmap, g.blockPos_mono g.inodeStart_le_dataStart,
    g.blockPos_mono g.dataStart_lt.le⟩

theorem data_bounds {b : ℕ} (h1 : g.dataStart ≤ b) (h2 : b < g.totalBlocks) :
    g.blockPos g.dataStart ≤ g.blockPos b ∧ g.blockPos b + g.blockSize ≤ g.blockPos g.totalBlocks :=
  ⟨g.blockPos_mono h1, g.blockPos_add_le h2⟩

theorem length_encode_inode (x : Inode) : (inodeCodec.encode x).length = 144 :=
  inodeCodec.length_encode x

section Kept
variable {off : ℕ} {new : List UInt8}

/-! A write keeps the parts of the disk it does not touch. -/

theorem Holds.saved_kept (h : Holds g disk bytes vol) (hfit : off + new.length ≤ disk.length)
    (hout : g.blockSize ≤ off) :
    slice 0 superblockSize (splice off new disk) = superblockCodec.encode vol.saved := by
  have hsize := g.inode_le
  rw [slice_splice_disjoint hfit (.inl (by unfold superblockSize; omega))]
  exact h.saved

theorem Holds.bitmap_kept (h : Holds g disk bytes vol) (hfit : off + new.length ≤ disk.length)
    (hout : off + new.length ≤ g.blockPos 1 ∨ g.blockPos g.inodeStart ≤ off) :
    slice (g.blockPos 1) (g.bitmapBlocks * g.blockSize) (splice off new disk) = bytes := by
  rw [slice_splice_disjoint hfit (by rw [blockPos_bitmap]; exact hout.symm)]
  exact h.bitmap

theorem Holds.inode_kept (h : Holds g disk bytes vol) (hfit : off + new.length ≤ disk.length)
    {i : ℕ} (hi : i < vol.inodes.length)
    (hout : off + new.length ≤ g.slotPos i ∨ g.slotPos i + 144 ≤ off) :
    slice (g.slotPos i) 144 (splice off new disk) = inodeCodec.encode vol.inodes[i] := by
  rw [slice_splice_disjoint hfit hout.symm]
  exact h.inode i hi

theorem Holds.data_kept (h : Holds g disk bytes vol) (hfit : off + new.length ≤ disk.length)
    {b : ℕ} (hb : g.dataStart ≤ b) (hb' : b < g.totalBlocks)
    (hout : off + new.length ≤ g.blockPos b ∨ g.blockPos b + g.blockSize ≤ off) :
    blockAt g (splice off new disk) b = vol.data b := by
  rw [blockAt, slice_splice_disjoint hfit hout.symm]
  exact h.data b hb hb'

end Kept

theorem Holds.writeInode (h : Holds g disk bytes vol) {i : ℕ} (hi : i < vol.inodes.length)
    (x : Inode) :
    Holds g (splice (g.slotPos i) (inodeCodec.encode x) disk) bytes
      (vol.setInode i x) := by
  have hx := length_encode_inode x
  obtain ⟨h1, h2, h3, h4, h5⟩ := region_bounds g
  have hlen := h.length
  have hslot := g.slotPos_bounds (h.inodes_length ▸ hi)
  have hfit : g.slotPos i + (inodeCodec.encode x).length ≤ disk.length := by omega
  constructor
  · rw [length_splice hfit]; exact hlen
  · exact h.saved_kept hfit (by omega)
  · exact h.bitmap_kept hfit (.inr hslot.1)
  · exact h.bits
  · exact List.length_set.trans h.inodes_length
  · intro j hj
    change j < (vol.inodes.set i x).length at hj
    change _ = inodeCodec.encode (vol.inodes.set i x)[j]
    rw [List.length_set] at hj
    rw [List.getElem_set]
    by_cases hij : i = j
    · subst hij
      have hs := slice_splice_self hfit
      rw [hx] at hs
      rw [if_pos rfl, hs]
    · rw [if_neg hij]
      exact h.inode_kept hfit hj (by have := g.slotPos_disjoint hij; omega)
  · intro b hb hb'
    have := data_bounds hb hb'
    exact h.data_kept hfit hb hb' (by omega)

theorem Holds.writeData (h : Holds g disk bytes vol) {b : ℕ} (h1 : g.dataStart ≤ b)
    (h2 : b < g.totalBlocks) {buf : List UInt8} (hbuf : buf.length = g.blockSize) :
    Holds g (splice (g.blockPos b) buf disk) bytes
      (vol.setData b buf) := by
  obtain ⟨r1, r2, r3, r4, r5⟩ := region_bounds g
  have hlen := h.length
  have hpos := data_bounds h1 h2
  have hfit : g.blockPos b + buf.length ≤ disk.length := by omega
  constructor
  · rw [length_splice hfit]; exact hlen
  · exact h.saved_kept hfit (by omega)
  · exact h.bitmap_kept hfit (by omega)
  · exact h.bits
  · exact h.inodes_length
  · intro i hi
    have := g.slotPos_bounds (h.inodes_length ▸ hi)
    exact h.inode_kept hfit hi (by omega)
  · intro c hc hc'
    change blockAt g _ c = Function.update vol.data b buf c
    by_cases hbc : c = b
    · subst hbc
      have hs := slice_splice_self hfit
      rw [hbuf] at hs
      rw [Function.update_self, blockAt, hs]
    · rw [Function.update_of_ne hbc]
      refine h.data_kept hfit hc hc' ?_
      rw [hbuf]
      rcases lt_or_gt_of_ne hbc with hlt | hgt
      · exact .inr (g.blockPos_add_le hlt)
      · exact .inl (g.blockPos_add_le hgt)

theorem Holds.writeBitmap (h : Holds g disk bytes vol) {bytes' : List UInt8} {used' : Finset ℕ}
    (hlen' : bytes'.length = bytes.length) (hbits : ∀ b, bitAt bytes' b = decide (b ∈ used')) :
    Holds g (splice (g.blockPos 1) bytes' disk) bytes' { vol with used := used' } := by
  obtain ⟨r1, r2, r3, r4, r5⟩ := region_bounds g
  have hb := h.length_bytes
  have hlen := h.length
  have hfit : g.blockPos 1 + bytes'.length ≤ disk.length := by omega
  constructor
  · rw [length_splice hfit]; exact hlen
  · exact h.saved_kept hfit (by omega)
  · rw [← hb, ← hlen']; exact slice_splice_self hfit
  · exact hbits
  · exact h.inodes_length
  · intro i hi
    have := g.slotPos_bounds (h.inodes_length ▸ hi)
    exact h.inode_kept hfit hi (by omega)
  · intro b hb hb'
    have := data_bounds hb hb'
    exact h.data_kept hfit hb hb' (by omega)

theorem Holds.writeSuperblock (h : Holds g disk bytes vol) {sb : Superblock} {buf : List UInt8}
    (hbuf : buf.length = g.blockSize) (hsb : slice 0 superblockSize buf = superblockCodec.encode sb) :
    Holds g (splice 0 buf disk) bytes { vol with saved := sb } := by
  obtain ⟨r1, r2, r3, r4, r5⟩ := region_bounds g
  have hlen := h.length
  have hfit : 0 + buf.length ≤ disk.length := by omega
  constructor
  · rw [length_splice hfit]; exact hlen
  · rw [← hsb]
    have hs := slice_splice_self hfit
    have hin : slice 0 superblockSize (slice 0 buf.length (splice 0 buf disk)) =
        slice (0 + 0) superblockSize (splice 0 buf disk) :=
      slice_slice (by unfold superblockSize; omega)
    rw [hs] at hin
    exact hin.symm
  · exact h.bitmap_kept hfit (by omega)
  · exact h.bits
  · exact h.inodes_length
  · intro i hi
    have := g.slotPos_bounds (h.inodes_length ▸ hi)
    exact h.inode_kept hfit hi (by omega)
  · intro b hb hb'
    have := data_bounds hb hb'
    exact h.data_kept hfit hb hb' (by omega)

/-- A write behind block 0 keeps the rest of block 0. -/
theorem tailOf_splice {off : ℕ} {new : List UInt8} (hfit : off + new.length ≤ disk.length)
    (hoff : g.blockSize ≤ off) : tailOf g (splice off new disk) = tailOf g disk := by
  have h := g.inode_le
  exact slice_splice_disjoint hfit (.inl (by unfold superblockSize; omega))

/-- The same write on both sides keeps two files in agreement. -/
theorem AgreeOutsideTail.splice {d e new new' : List UInt8} (h : AgreeOutsideTail g d e) {off : ℕ}
    (hfit : off + new.length ≤ d.length) (hlen : new.length = new'.length)
    (hnew : ∀ k, off + k < superblockSize ∨ g.blockSize ≤ off + k → new[k]? = new'[k]?) :
    AgreeOutsideTail g (splice off new d) (splice off new' e) := by
  obtain ⟨hl, hk⟩ := h
  refine ⟨by rw [length_splice hfit, length_splice (by omega), hl], fun k hout => ?_⟩
  rw [getElem?_splice hfit, getElem?_splice (by omega), hlen]
  split_ifs with h1 h2
  · exact hk k hout
  · exact hnew (k - off) (by omega)
  · exact hk k hout

end Writes

/-! ## Writing bytes of the disk file -/

def putBytes (off : ℕ) (new : List UInt8) (s : World) : World :=
  { s with file := s.file.map (splice off new) }

variable {g : Geometry} {v : View} {s t : World}

/-- A write behind block 0 gives a state of any volume whose bytes it makes. -/
theorem Represents.putBytes (hs : Represents g s v) {off : ℕ} {new : List UInt8}
    (hoff : g.blockSize ≤ off) (hfit : off + new.length ≤ g.blockPos g.totalBlocks) {vol : Volume}
    (hsb : vol.sb = v.vol.sb)
    (hh : ∀ disk bytes, Holds g disk bytes v.vol → Holds g (splice off new disk) bytes vol) :
    Represents g (putBytes off new s) (v.setVol vol) := by
  obtain ⟨disk, bytes, hfile, hmem, hold, htail⟩ := hs.memory
  refine ⟨hs.fd, hs.size, hs.sb.trans hsb.symm, ?_, hs.out, hs.faults,
    splice off new disk, bytes, ?_, hmem, hh disk bytes hold, fun hst => ?_⟩
  · change g.Describes vol.sb
    rw [hsb]
    exact hs.layout
  · simp only [Image.putBytes, hfile, Option.map_some]
  · rw [tailOf_splice (hfit.trans hold.length) hoff]
    exact htail hst

theorem Same.putBytes (h : Same g s t) {off : ℕ} {new : List UInt8}
    (hfit : ∀ disk, s.file = some disk → off + new.length ≤ disk.length) :
    Same g (putBytes off new s) (putBytes off new t) := by
  obtain ⟨d, e, hd, he, hde⟩ := h.file
  refine ⟨h.fd, h.size, h.sb, h.bitmap, h.out, h.faults, splice off new d, splice off new e, ?_, ?_,
    hde.splice (hfit d hd) rfl fun _ _ => rfl⟩
  · simp only [Image.putBytes, hd, Option.map_some]
  · simp only [Image.putBytes, he, Option.map_some]

theorem Represents.fits (hs : Represents g s v) {n : ℕ} (hn : n ≤ g.blockPos g.totalBlocks) :
    ∀ disk, s.file = some disk → n ≤ disk.length := by
  intro d hd
  obtain ⟨disk, bytes, hfile, -, hold, -⟩ := hs.memory
  obtain rfl : d = disk := Option.some.inj (hd.symm.trans hfile)
  exact hn.trans hold.length

/-- A program that writes bytes behind block 0. -/
theorem runs_putBytes {α : Type} {m : M α} {a : α} (off : ℕ) (new : List UInt8)
    (hoff : g.blockSize ≤ off) (hfit : off + new.length ≤ g.blockPos g.totalBlocks) {vol : Volume}
    (hsb : vol.sb = v.vol.sb)
    (hh : ∀ disk bytes, Holds g disk bytes v.vol → Holds g (splice off new disk) bytes vol)
    (hm : ∀ s, Represents g s v → m s = some (a, putBytes off new s)) :
    Runs (view g) v m a (v.setVol vol) :=
  ⟨putBytes off new, fun s hs => ⟨hm s hs, hs.putBytes hoff hfit hsb hh, rfl,
    fun _ _ hst => hst.putBytes (hs.fits hfit)⟩⟩

/-! ## Changing the bitmap and its blocks together -/

def pointerBytes : Pointer → List UInt8
  | .live bytes => bytes
  | _ => []

/-- The bitmap changed by `f`, in memory and on disk, and the superblock changed by `h`. -/
def rewriteBitmap (g : Geometry) (f : List UInt8 → List UInt8) (h : Superblock → Superblock)
    (s : World) : World :=
  { s with
    bitmap := .live (f (pointerBytes s.bitmap))
    sb := h s.sb
    file := s.file.map (splice (g.blockPos 1) (f (pointerBytes s.bitmap))) }

theorem Represents.rewriteBitmap (hs : Represents g s v) {f : List UInt8 → List UInt8}
    {h : Superblock → Superblock} {used' : Finset ℕ} (hlen : ∀ bytes, (f bytes).length = bytes.length)
    (hbits : ∀ bytes, Holds g (s.file.getD []) bytes v.vol →
      ∀ b, bitAt (f bytes) b = decide (b ∈ used'))
    (hlayout : g.Describes (h v.vol.sb)) :
    Represents g (rewriteBitmap g f h s)
      (v.setVol { v.vol with used := used', sb := h v.vol.sb }) := by
  obtain ⟨disk, bytes, hfile, hmem, hold, htail⟩ := hs.memory
  obtain ⟨r1, r2, r3, r4, r5⟩ := region_bounds g
  have hb := hold.length_bytes
  have hf := hlen bytes
  have hl := hold.length
  refine ⟨hs.fd, hs.size, congrArg h hs.sb, hlayout, hs.out, hs.faults,
    splice (g.blockPos 1) (f bytes) disk, f bytes, ?_, ?_, ?_, fun hst => ?_⟩
  · simp only [Image.rewriteBitmap, hfile, hmem, Option.map_some, pointerBytes]
  · simp only [Image.rewriteBitmap, hmem, pointerBytes]
  · exact { hold.writeBitmap hf (hbits bytes (by rw [hfile]; exact hold)) with }
  · rw [tailOf_splice (by omega) (by omega)]
    exact htail hst

theorem Same.rewriteBitmap (hst : Same g s t) {f : List UInt8 → List UInt8}
    {h : Superblock → Superblock} (hlen : ∀ bytes, (f bytes).length = bytes.length)
    (hfit : ∀ disk, s.file = some disk → g.blockPos 1 + (pointerBytes s.bitmap).length ≤ disk.length) :
    Same g (rewriteBitmap g f h s) (rewriteBitmap g f h t) := by
  obtain ⟨d, e, hd, he, hde⟩ := hst.file
  have hfd := hfit d hd
  refine ⟨hst.fd, hst.size, congrArg h hst.sb, ?_, hst.out, hst.faults, _, _, ?_, ?_,
    hde.splice (by rw [hlen]; exact hfd) rfl fun _ _ => rfl⟩
  · simp only [Image.rewriteBitmap, hst.bitmap]
  · simp only [Image.rewriteBitmap, hd, Option.map_some]
  · simp only [Image.rewriteBitmap, he, Option.map_some, hst.bitmap]

end MiniFs.Image
