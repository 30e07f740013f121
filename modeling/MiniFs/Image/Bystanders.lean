import MiniFs.Image.Failing
import MiniFs.Image.Names
import MiniFs.Image.Files

/-! # Files that are left alone while system calls fail

A volume has files that no command is to touch. This says what the disk and the
process keep of them whatever fails, and that the primitives keep it: no other
inode gets hold of their blocks, their blocks stay marked, and their slots are
not written.
-/

set_option autoImplicit false

namespace MiniFs.Image
open MiniFs.Core Library Library.Exec Library.ByteRange Library.BitArray Library.Chunks

/-- What a live inode keeps to in its slot. -/
structure Shaped (g : Geometry) (i : ℕ) (x : Inode) : Prop where
  id : x.id.toNat = i
  name_end : x.name[31] = 0
  size : x.size.toNat ≤ 16 * g.blockSize
  size_fits : x.size.toNat + 3 * g.blockSize < 2 ^ 32
  block_lt : ∀ b ∈ blocksOf g x, b < g.totalBlocks

theorem Sound.shaped {g : Geometry} {vol : Volume} (h : Sound g vol) {i : ℕ} {x : Inode}
    (hi : vol.inodes[i]? = some x) (hx : x.isUsed = 1) : Shaped g i x where
  id := (h.live i x hi hx).id
  name_end := (h.live i x hi hx).name_end
  size := (h.live i x hi hx).size
  size_fits := h.size_fits hi hx
  block_lt _ hb := (h.block_bounds (own_live hi hx ▸ hb)).2

theorem bitmapBlock_fit {g : Geometry} {i : ℕ} (hi : i < g.bitmapBlocks) :
    i * g.blockSize + g.blockSize ≤ g.bitmapBlocks * g.blockSize := by
  rw [← Nat.succ_mul]
  exact Nat.mul_le_mul_right _ hi

theorem Holds.writeBits {g : Geometry} {disk old bytes : List UInt8} {vol : Volume}
    (h : Holds g disk old vol) (hlen : bytes.length = g.bitmapBlocks * g.blockSize) {i : ℕ}
    (hi : i < g.bitmapBlocks) :
    ∃ used, Holds g
      (splice (g.blockPos (1 + i)) (slice (i * g.blockSize) g.blockSize bytes) disk)
      (splice (i * g.blockSize) (slice (i * g.blockSize) g.blockSize bytes) old)
      { vol with used := used } := by
  have hold := h.length_bytes
  have hfit := bitmapBlock_fit hi
  have hslice : (slice (i * g.blockSize) g.blockSize bytes).length = g.blockSize :=
    length_slice (by omega)
  let new := splice (i * g.blockSize) (slice (i * g.blockSize) g.blockSize bytes) old
  have hnew : new.length = old.length := length_splice (by omega)
  obtain ⟨used, hused⟩ := exists_bits new
  have hdisk : splice (g.blockPos (1 + i)) (slice (i * g.blockSize) g.blockSize bytes) disk =
      splice (g.blockPos 1) new disk := by
    obtain ⟨-, r2, r3, r4, r5⟩ := region_bounds g
    have hlength := h.length
    have hpos : g.blockPos (1 + i) = g.blockPos 1 + i * g.blockSize := Nat.add_mul _ _ _
    rw [hpos, ← splice_splice_slice (m := g.bitmapBlocks * g.blockSize) (by omega) (by omega),
      h.bitmap]
  rw [hdisk]
  exact ⟨used, h.writeBitmap hnew hused⟩

/-- The files of a sound volume with certain names. -/
structure Bystanders (g : Geometry) where
  vol : Volume
  sound : Sound g vol
  names : Set (List UInt8)

namespace Bystanders
variable {g : Geometry}

section
variable (B : Bystanders g)

structure Slot (i : ℕ) (y : Inode) : Prop where
  slot : B.vol.inodes[i]? = some y
  live : y.isUsed = 1
  name : y.shownName ∈ B.names

def Other (i : ℕ) : Prop := ∀ y, ¬B.Slot i y

/-- The blocks in front of the data and those of the files. -/
def Spared (b : ℕ) : Prop := b < g.dataStart ∨ ∃ i y, B.Slot i y ∧ b ∈ blocksOf g y

/-- The inode of another file: it has another name, and none of the blocks. -/
structure Apart (i : ℕ) (x : Inode) : Prop extends Shaped g i x where
  name : x.shownName ∉ B.names
  block : ∀ b ∈ blocksOf g x, ¬B.Spared b

/-- What may stand in slot `i`: of a file that is left alone the same inode, read at any time. -/
inductive Fine (i : ℕ) (x : Inode) : Prop
  | kept {y : Inode} (t : UInt64) (h : B.Slot i y) (hx : x = { y with accessedAt := t })
  | other (h : B.Other i) (hx : x.isUsed = 1 → B.Apart i x)

structure Keeps (vol : Volume) : Prop where
  saved : g.Describes vol.saved
  used : ∀ b, B.Spared b → b ∈ vol.used
  slot : ∀ i x, vol.inodes[i]? = some x → B.Fine i x
  data : ∀ b, B.Spared b → vol.data b = B.vol.data b

def OnDisk (disk : List UInt8) : Prop := ∃ bytes vol, Holds g disk bytes vol ∧ B.Keeps vol

/-- What a bitmap in memory marks: their blocks, and those just taken. -/
def Marks (bytes : List UInt8) (held : Finset ℕ) : Prop :=
  ∀ b, B.Spared b ∨ b ∈ held → bitAt bytes b = true

def Guarded (held : Finset ℕ) (s : World) : Prop :=
  ∃ disk bytes sb, Running g disk bytes sb s ∧ B.Marks bytes held ∧ B.OnDisk disk

end

variable {B : Bystanders g} {i : ℕ} {x y : Inode} {held : Finset ℕ}

/-! ## Slots -/

theorem Slot.shaped (h : B.Slot i y) : Shaped g i y := B.sound.shaped h.slot h.live

theorem Slot.unique {z : Inode} (h : B.Slot i y) (h' : B.Slot i z) : y = z :=
  Option.some.inj (h.slot.symm.trans h'.slot)

theorem Fine.shaped (h : B.Fine i x) (hx : x.isUsed = 1) : Shaped g i x := by
  cases h with
  | kept t h heq =>
    subst heq
    exact { h.shaped with }
  | other _ h => exact (h hx).toShaped

theorem Fine.other_of_free (h : B.Fine i x) (hx : x.isUsed = 0) : B.Other i := by
  cases h with
  | kept t h heq =>
    subst heq
    exact absurd (h.live.symm.trans hx) (by decide)
  | other h _ => exact h

theorem Fine.apart (h : B.Fine i x) (hx : x.isUsed = 1) (hname : x.shownName ∉ B.names) :
    B.Other i ∧ B.Apart i x := by
  cases h with
  | kept t h heq =>
    subst heq
    exact absurd h.name hname
  | other h hap => exact ⟨h, hap hx⟩

/-- Reading a file changes its access time. -/
theorem Fine.touch (h : B.Fine i x) (t : UInt64) : B.Fine i { x with accessedAt := t } := by
  cases h with
  | kept u h heq =>
    subst heq
    exact .kept t h rfl
  | other h hap => exact .other h fun hx => { hap hx with }

theorem Spared.not_lt {b : ℕ} (h : ¬B.Spared b) : g.dataStart ≤ b :=
  Nat.le_of_not_lt fun hlt => h (.inl hlt)

theorem Marks.mono {bytes : List UInt8} {held' : Finset ℕ} (h : B.Marks bytes held)
    (hsub : held' ⊆ held) : B.Marks bytes held' :=
  fun b hb => h b (hb.imp_right (hsub ·))

theorem Guarded.mono {held' : Finset ℕ} {s : World} (h : B.Guarded held s) (hsub : held' ⊆ held) :
    B.Guarded held' s := by
  obtain ⟨disk, bytes, sb, hrun, hmarks, hdisk⟩ := h
  exact ⟨disk, bytes, sb, hrun, hmarks.mono hsub, hdisk⟩

/-- The failures to come do not matter. -/
theorem Guarded.still {s : World} (h : B.Guarded held s) : B.Guarded held s.still := by
  obtain ⟨disk, bytes, sb, hrun, hmarks, hdisk⟩ := h
  exact ⟨disk, bytes, sb, hrun.disturb noFaults, hmarks, hdisk⟩

/-! ## Writes to the disk -/

namespace OnDisk
variable {disk : List UInt8}

theorem writeInode (h : B.OnDisk disk) (hi : i < g.maxInodes) (hx : B.Fine i x) :
    B.OnDisk (splice (g.slotPos i) (inodeCodec.encode x) disk) := by
  obtain ⟨bytes, vol, hh, hk⟩ := h
  have hlt : i < vol.inodes.length := hi.trans_eq hh.inodes_length.symm
  refine ⟨bytes, vol.setInode i x, hh.writeInode hlt x, { hk with slot := fun j y hj => ?_ }⟩
  change (vol.inodes.set i x)[j]? = some y at hj
  rw [List.getElem?_set] at hj
  split_ifs at hj with hij
  · subst hij
    obtain rfl := Option.some.inj hj
    exact hx
  · exact hk.slot j y hj

theorem writeData (h : B.OnDisk disk) {b : ℕ} (hb : ¬B.Spared b) (hlt : b < g.totalBlocks)
    {buf : List UInt8} (hbuf : buf.length = g.blockSize) :
    B.OnDisk (splice (g.blockPos b) buf disk) := by
  obtain ⟨bytes, vol, hh, hk⟩ := h
  refine ⟨bytes, vol.setData b buf, hh.writeData (Spared.not_lt hb) hlt hbuf,
    { hk with data := fun c hc => ?_ }⟩
  have hne : c ≠ b := by
    rintro rfl
    exact hb hc
  exact (Function.update_of_ne hne _ _).trans (hk.data c hc)

theorem writeSuperblock (h : B.OnDisk disk) {sb : Superblock} (hsb : g.Describes sb)
    {buf : List UInt8} (hbuf : buf.length = g.blockSize)
    (hhead : slice 0 superblockSize buf = superblockCodec.encode sb) :
    B.OnDisk (splice 0 buf disk) := by
  obtain ⟨bytes, vol, hh, hk⟩ := h
  exact ⟨bytes, _, hh.writeSuperblock hbuf hhead, { hk with saved := hsb }⟩

/-- Block `i` of a bitmap in memory that marks the blocks. -/
theorem writeBits (h : B.OnDisk disk) {bytes : List UInt8} (hmarks : B.Marks bytes held)
    (hlen : bytes.length = g.bitmapBlocks * g.blockSize) (hi : i < g.bitmapBlocks) :
    B.OnDisk (splice (g.blockPos (1 + i)) (slice (i * g.blockSize) g.blockSize bytes) disk) := by
  obtain ⟨old, vol, hh, hk⟩ := h
  have hold := hh.length_bytes
  have hfit := bitmapBlock_fit hi
  obtain ⟨used, hused⟩ := hh.writeBits hlen hi
  refine ⟨_, _, hused, { hk with used := fun b hb => ?_ }⟩
  have hbit := hused.bits b
  rw [bitAt_splice (hlen.trans hold.symm) (by omega)] at hbit
  have hold' : bitAt old b = true := by
    rw [hh.bits b]
    exact decide_eq_true (hk.used b hb)
  rw [hmarks b (.inl hb), hold', ite_self] at hbit
  exact of_decide_eq_true hbit.symm

theorem written (h : B.OnDisk disk) {off : ℕ} {new disk' : List UInt8}
    (hw : Written off new disk disk') (hnew : B.OnDisk (splice off new disk)) : B.OnDisk disk' := by
  cases hw with
  | inl heq => exact heq ▸ hnew
  | inr heq => exact heq ▸ h

end OnDisk

/-! ## The primitives -/

section Primitives
variable {α : Type}

/-- What a program does from each disk and each memory of a guarded process. -/
theorem total {m : M α} {Q : α → World → Prop} (h : ∀ disk bytes sb, B.Marks bytes held →
    B.OnDisk disk → Total (Running g disk bytes sb) m Q) : Total (B.Guarded held) m Q := by
  rintro s ⟨disk, bytes, sb, hrun, hmarks, hdisk⟩
  exact h disk bytes sb hmarks hdisk s hrun

theorem emit_guarded (msg : Message) :
    Total (B.Guarded held) (emit msg) fun _ => B.Guarded held :=
  total fun disk bytes sb hmarks hdisk =>
    (emit_total msg).weaken fun _ _ hrun => ⟨disk, bytes, sb, hrun, hmarks, hdisk⟩

theorem getSb_guarded : Total (B.Guarded held) getSb fun sb s =>
    g.Describes sb ∧ B.Guarded held s :=
  .ask fun _ ⟨disk, bytes, sb, hrun, hmarks, hdisk⟩ =>
    ⟨hrun.sb ▸ hrun.layout, disk, bytes, sb, hrun, hmarks, hdisk⟩

theorem getSb_bind {k : Superblock → M α} {Q : α → World → Prop}
    (hk : ∀ sb, g.Describes sb → Total (B.Guarded held) (k sb) Q) :
    Total (B.Guarded held) (getSb >>= k) Q :=
  getSb_guarded.bind fun sb => .fact (fun _ h => h.1) fun hg =>
    (hk sb hg).conseq (fun _ h => h.2) fun _ _ h => h

theorem setSb_bind {f : Superblock → Superblock} {k : Unit → M α} {Q : α → World → Prop}
    (hk : Total (B.Guarded held) (k ()) Q) (hf : ∀ sb, g.Describes sb → g.Describes (f sb)) :
    Total (B.Guarded held) (setSb f >>= k) Q := by
  refine Total.seq (R := B.Guarded held) (.update fun s h => ?_) fun _ => hk
  obtain ⟨disk, bytes, sb, hrun, hmarks, hdisk⟩ := h
  exact ⟨disk, bytes, f sb, { hrun with layout := hf sb hrun.layout, sb := congrArg f hrun.sb },
    hmarks, hdisk⟩

/-- Every inode that is read is one that may stand in its slot. -/
theorem inodeRead_guarded (id : UInt32) : Total (B.Guarded held) (inodeRead id) fun r s =>
    B.Guarded held s ∧ ∀ x, r = some x → B.Fine id.toNat x := by
  refine total fun disk bytes sb hmarks hdisk => ?_
  by_cases hid : id.toNat < g.maxInodes
  · refine (inodeRead_total rfl hid).weaken fun r s h => ?_
    obtain ⟨hrun, hr⟩ := h
    refine ⟨⟨disk, bytes, sb, hrun, hmarks, hdisk⟩, fun x hx => ?_⟩
    obtain ⟨old, vol, hh, hk⟩ := hdisk
    have hlt : id.toNat < vol.inodes.length := hid.trans_eq hh.inodes_length.symm
    have hslot : slotAt g disk id.toNat = vol.inodes[id.toNat] := by
      rw [slotAt, hh.inode _ hlt, inodeCodec.decode_encode]
    rcases hr with hr | hr
    · rw [hr] at hx
      cases hx
    · rw [hr, hslot] at hx
      exact hk.slot _ x ((List.getElem?_eq_getElem hlt).trans hx)
  · refine .ask_bind (fun _ h => h.sb) (.fact (fun _ h => h.layout) fun hg => ?_)
    rw [if_pos]
    · exact .pure fun s hrun => ⟨⟨disk, bytes, sb, hrun, hmarks, hdisk⟩, fun x hx => by cases hx⟩
    · rw [UInt32.le_iff_toNat_le, hg.maxInodes]
      exact not_lt.mp hid

theorem inodeWrite_guarded {id : UInt32} (hx : B.Fine id.toNat x) :
    Total (B.Guarded held) (inodeWrite id x) fun _ => B.Guarded held := by
  refine total fun disk bytes sb hmarks hdisk => ?_
  by_cases hid : id.toNat < g.maxInodes
  · refine (inodeWrite_total rfl hid x).weaken fun _ s h => ?_
    obtain ⟨disk', hw, hrun⟩ := h
    exact ⟨disk', bytes, sb, hrun, hmarks, hdisk.written hw (hdisk.writeInode hid hx)⟩
  · refine .ask_bind (fun _ h => h.sb) (.fact (fun _ h => h.layout) fun hg => ?_)
    rw [if_pos]
    · exact .pure fun s hrun => ⟨disk, bytes, sb, hrun, hmarks, hdisk⟩
    · rw [UInt32.le_iff_toNat_le, hg.maxInodes]
      exact not_lt.mp hid

theorem mallocRead_guarded {b n : UInt32} (hb : b.toNat < g.totalBlocks)
    (hn : n.toNat = g.blockSize) :
    Total (B.Guarded held) (mallocRead b n) fun _ => B.Guarded held :=
  total fun disk bytes sb hmarks hdisk =>
    (mallocRead_total hb hn).weaken fun _ _ h => ⟨disk, bytes, sb, h.1, hmarks, hdisk⟩

theorem diskWrite_guarded {b : UInt32} (hb : ¬B.Spared b.toNat) (hlt : b.toNat < g.totalBlocks)
    {buf : List UInt8} (hbuf : g.blockSize ≤ buf.length) :
    Total (B.Guarded held) (diskWrite b buf) fun _ => B.Guarded held := by
  refine total fun disk bytes sb hmarks hdisk => (diskWrite_total hlt hbuf).weaken fun _ s h => ?_
  obtain ⟨disk', hw, hrun⟩ := h
  have htake : (buf.take g.blockSize).length = g.blockSize := by
    rw [List.length_take]
    omega
  exact ⟨disk', bytes, sb, hrun, hmarks, hdisk.written hw (hdisk.writeData hb hlt htake)⟩

theorem diskWriteSb_guarded : Total (B.Guarded held) diskWriteSb fun _ => B.Guarded held := by
  refine total fun disk bytes sb hmarks hdisk => .fact (fun _ h => h.layout) fun hg => ?_
  refine diskWriteSb_total.weaken fun _ s h => ?_
  obtain ⟨buf, disk', hbuf, hhead, hw, hrun⟩ := h
  exact ⟨disk', bytes, sb, hrun, hmarks, hdisk.written hw (hdisk.writeSuperblock hg hbuf hhead)⟩

/-! ## The bitmap -/

theorem bitmapSync_guarded : Total (B.Guarded held) bitmapSync fun _ => B.Guarded held := by
  refine total fun disk bytes sb hmarks hdisk => ?_
  refine .ask_bind (fun _ h => h.sb) (.ask_bind (fun _ h => h.bitmap) ?_)
  refine .fact (fun _ h => h.layout) fun hg => .fact (fun _ h => h.length_bitmap) fun hlen => ?_
  let P (s : World) : Prop := ∃ disk, Running g disk bytes sb s ∧ B.OnDisk disk
  have hpass (i : ℕ) (hi : i < 0 + sb.bitmapBlocks.toNat) :
      Total P (syncBitmapBlock sb bytes i) fun _ => P := by
    rw [Nat.zero_add, hg.bitmapBlocks] at hi
    refine .ex fun d => .fact (fun _ h => h.2) fun hd => ?_
    refine (syncBitmapBlock_total hi).conseq (fun _ h => h.1) fun _ s h => ?_
    obtain ⟨disk', hw, hrun⟩ := h
    exact ⟨disk', hrun, hd.written hw (hd.writeBits hmarks hlen hi)⟩
  refine (Total.forLoop fun i _ hi => hpass i hi).conseq (fun _ hrun => ⟨disk, hrun, hdisk⟩)
    fun _ s h => ?_
  obtain ⟨disk', hrun, hdisk'⟩ := h
  exact ⟨disk', bytes, sb, hrun, hmarks, hdisk'⟩

theorem bitmapFreeBlock_guarded {b : UInt32} (hb : ¬B.Spared b.toNat) :
    Total (B.Guarded ∅) (bitmapFreeBlock b) fun _ => B.Guarded ∅ := by
  refine getSb_bind fun sb hg => ?_
  split_ifs with hle
  · exact .pure fun _ h => h
  · rw [UInt32.le_iff_toNat_le, hg.totalBlocks, not_le] at hle
    refine total fun disk bytes sb hmarks hdisk => bitmapBytes_bind ?_
    refine .fact (fun _ h => bit_lt hle h.length_bitmap) fun hlt => ?_
    have hclear : B.Marks (clearBit bytes b.toNat) ∅ := by
      intro c hc
      have hne : b.toNat ≠ c := by
        rintro rfl
        exact hb (hc.resolve_right (Finset.notMem_empty _))
      rw [bitAt_clearBit hlt, hmarks c hc]
      simp [hne]
    refine .require_bind (fun _ _ => hlt) ?_
    refine Total.seq (R := B.Guarded ∅) (.update fun s h => ?_) fun _ => ?_
    · exact ⟨disk, _, sb, h.remark (length_clearBit _ _), hclear, hdisk⟩
    · refine setSb_bind ?_ fun _ hd => { hd with }
      exact bitmapSync_guarded.seq fun _ => .pure fun _ h => h

theorem allocateIfClear_guarded (hi : i < g.totalBlocks) :
    Total (B.Guarded held) (allocateIfClear i) fun r s => r.elim (B.Guarded held s) fun b =>
      b.toNat < g.totalBlocks ∧ ¬B.Spared b.toNat ∧ b.toNat ∉ held ∧
        B.Guarded (insert b.toNat held) s := by
  refine total fun disk bytes sb hmarks hdisk => bitmapBytes_bind ?_
  refine .fact (fun _ h => bit_lt hi h.length_bitmap) fun hlt => .require_bind (fun _ _ => hlt) ?_
  split_ifs with hclear
  · have hbit : bitAt bytes i = false :=
      (and_mask_eq_zero_iff _ (Nat.mod_lt _ (by decide))).mp hclear
    have hfree : ¬(B.Spared i ∨ i ∈ held) := fun h => by
      rw [hmarks i h] at hbit
      cases hbit
    rw [not_or] at hfree
    have hword : (UInt32.ofNat i).toNat = i := toNat_block hi
    have hset : B.Marks (setBit bytes i) (insert i held) := by
      intro c hc
      rw [bitAt_setBit hlt]
      by_cases hic : i = c
      · simp [hic]
      · rw [hmarks c (hc.imp_right fun h => Finset.mem_of_mem_insert_of_ne h (Ne.symm hic))]
        rfl
    refine Total.seq (R := B.Guarded (insert i held)) (.update fun s h => ?_) fun _ => ?_
    · exact ⟨disk, _, sb, h.remark (length_setBit _ _), hset, hdisk⟩
    · refine setSb_bind (bitmapSync_guarded.seq fun _ => .pure fun s h => ?_)
        fun _ hd => { hd with }
      rw [Option.elim_some, hword]
      exact ⟨hi, hfree.1, hfree.2, h⟩
  · exact .pure fun s h => ⟨disk, bytes, sb, h, hmarks, hdisk⟩

/-- A block that is taken is no file's that is left alone, and was not taken before. -/
theorem bitmapAllocateBlock_guarded :
    Total (B.Guarded held) bitmapAllocateBlock fun r s => r.elim (B.Guarded held s) fun b =>
      b.toNat < g.totalBlocks ∧ ¬B.Spared b.toNat ∧ b.toNat ∉ held ∧
        B.Guarded (insert b.toNat held) s := by
  refine getSb_bind fun sb hg => ?_
  rw [hg.totalBlocks]
  refine Total.search (fun i _ hi => ?_) fun _ h => h
  exact allocateIfClear_guarded (by omega)

end Primitives

end Bystanders

end MiniFs.Image
