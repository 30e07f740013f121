import MiniFs.Image.Opened

/-! # What a clean `fsck` says

`fsck` compares the inode table with the counters of the superblock. It passes
over slots it takes for garbage, compares no pointers with each other and does
not look at the bitmap.
-/

set_option autoImplicit false

namespace MiniFs.Image
open MiniFs.Core Library Library.Exec Library.ByteRange

/-- The superblock has the layout `fs_format` gives to some sizes; its counters are arbitrary. -/
def FormatLayout (sb : Superblock) : Prop :=
  ∃ totalSize blockSize, Formattable totalSize blockSize ∧
    sb = { formatSb sb.formattedAt totalSize blockSize with
      freeBlocks := sb.freeBlocks
      freeInodes := sb.freeInodes
      totalWrites := sb.totalWrites
      totalReads := sb.totalReads
      bytesWritten := sb.bytesWritten
      bytesRead := sb.bytesRead }

theorem FormatLayout.describes {sb : Superblock} (h : FormatLayout sb) :
    ∃ g : Geometry, g.Describes sb := by
  obtain ⟨totalSize, blockSize, hfmt, hsb⟩ := h
  refine ⟨Geometry.ofFormat hfmt, ?_⟩
  rw [hsb]
  exact { describes_formatSb hfmt sb.formattedAt with }

section
variable {sb : Superblock} {x : Inode}

theorem Counted.isUsed (h : Counted sb x) : x.isUsed = 1 := by
  obtain ⟨hne, hskip⟩ := h
  have hle : ¬ 1 < x.isUsed := fun hlt => hskip (.inr (.inl hlt))
  grind

theorem Counted.size_le (h : Counted sb x) : x.size.toNat ≤ 16 * sb.blockSize.toNat := by
  have hle : x.size ≤ maxDirectBlocks * sb.blockSize :=
    UInt32.not_lt.mp fun hlt => h.2 (.inr (.inr hlt))
  have hle' := UInt32.le_iff_toNat_le.mp hle
  rw [UInt32.toNat_mul] at hle'
  exact hle'.trans (Nat.mod_le _ _)

/-- A slot is in order if `fsck` passes over it, or finds its number and its pointers right. -/
theorem slotErrors_eq_zero_iff {i : UInt32} : slotErrors sb i x = 0 ↔ (Counted sb x →
    x.id = i ∧ (blocksUsed sb x.size).toNat ≤ 16 ∧
      ∀ b ∈ x.directBlocks.toList.take (blocksUsed sb x.size).toNat,
        sb.dataStart ≤ b ∧ b < sb.totalBlocks) := by
  unfold slotErrors
  by_cases hc : Counted sb x
  · have hmany : blocksUsed sb x.size > maxDirectBlocks ↔ ¬ (blocksUsed sb x.size).toNat ≤ 16 := by
      rw [gt_iff_lt, UInt32.lt_iff_toNat_lt, not_le]
      rfl
    have hbad (n : ℕ) : badPointers sb x n = 0 ↔
        ∀ b ∈ x.directBlocks.toList.take n, sb.dataStart ≤ b ∧ b < sb.totalBlocks := by
      rw [badPointers, slice, List.drop_zero, List.countP_eq_zero]
      refine forall₂_congr fun b _ => ?_
      rw [decide_eq_true_eq, not_or, UInt32.not_lt, UInt32.not_le]
    rw [if_pos hc, Nat.add_eq_zero_iff, ite_eq_right_iff]
    simp only [hc, forall_const, one_ne_zero, imp_false, ne_eq, not_not]
    refine and_congr_right fun _ => ?_
    by_cases hle : (blocksUsed sb x.size).toNat ≤ 16
    · rw [if_neg fun h => hmany.mp h hle, hbad]
      exact (and_iff_right hle).symm
    · rw [if_pos (hmany.mpr hle)]
      exact iff_of_false one_ne_zero fun h => hle h.1
  · rw [if_neg hc]
    exact iff_of_true rfl fun h => absurd h hc

end

end MiniFs.Image

namespace MiniFs.Properties
open MiniFs.Core MiniFs.Image Library Library.Exec Library.ByteRange

/-- The blocks `fsck` counts for an inode, in its 32 bits. -/
def countedBlocks (sb : Superblock) (x : Inode) : ℕ :=
  if Counted sb x then (blocksUsed sb x.size).toNat else 0

/-- What holds of an image with a clean `fsck`. -/
structure FsckPasses (w : World) : Prop where
  live : ∀ (i : ℕ) (x : Inode), w.slot i = some x → Counted w.sb x →
    x.isUsed = 1 ∧ x.id.toNat = i ∧ x.size.toNat ≤ 16 * w.sb.blockSize.toNat ∧
      (blocksUsed w.sb x.size).toNat ≤ 16
  pointers : ∀ (i : ℕ) (x : Inode), w.slot i = some x → Counted w.sb x →
    ∀ b ∈ x.directBlocks.toList.take (blocksUsed w.sb x.size).toNat,
      w.sb.dataStart ≤ b ∧ b < w.sb.totalBlocks
  free_inodes : w.sb.freeInodes.toNat + w.inodes.countP (Counted w.sb) = w.sb.maxInodes.toNat
  free_blocks : (w.sb.freeBlocks.toNat + (w.inodes.map (countedBlocks w.sb)).sum) % 2 ^ 32 =
    w.sb.dataBlocks.toNat

theorem sum_indicator {l : List Inode} {p : Inode → Prop} [DecidablePred p] :
    (l.map fun x => if p x then 1 else 0).sum = l.countP p := by
  induction l with
  | nil => rfl
  | cons x l ih =>
    rw [List.map_cons, List.sum_cons, ih, List.countP_cons, Nat.add_comm]
    simp only [decide_eq_true_eq]

theorem sub_eq_ofNat_iff {a b : UInt32} {n : ℕ} :
    UInt32.ofNat n = a - b ↔ (b.toNat + n) % 2 ^ 32 = a.toNat := by
  have ha := a.toNat_lt
  have hb := b.toNat_lt
  rw [← UInt32.toNat_inj, UInt32.toNat_sub, UInt32.toNat_ofNat']
  omega

theorem scanned_slot (w : World) : scanned w.sb w.slot = w.inodes := rfl

/-- A clean bill in the words of the inode table and the counters. -/
theorem fsckClean_iff_passes (w : World) : FsckClean w.sb w.slot ↔ FsckPasses w := by
  have hslot {i : ℕ} {x : Inode} (hi : w.slot i = some x) : i < w.sb.maxInodes.toNat := by
    by_contra hge
    rw [World.slot, if_neg hge] at hi
    cases hi
  have hid {i : ℕ} {x : Inode} (hi : w.slot i = some x) : x.id = UInt32.ofNat i ↔ x.id.toNat = i := by
    have hlt := w.sb.maxInodes.toNat_lt
    have := hslot hi
    rw [← UInt32.toNat_inj, toNat_word (by omega)]
  have hinodes : ((scanned w.sb w.slot).map (slotInodes w.sb)).sum =
      UInt32.ofNat (w.inodes.countP (Counted w.sb)) := by
    rw [scanned_slot, sum_map_ofNat (n := fun x => if Counted w.sb x then 1 else 0) fun x _ => ?_,
      sum_indicator]
    unfold slotInodes
    split_ifs <;> rfl
  have hblocks (hle : ∀ x ∈ w.inodes, Counted w.sb x → (blocksUsed w.sb x.size).toNat ≤ 16) :
      ((scanned w.sb w.slot).map (slotBlocks w.sb)).sum =
        UInt32.ofNat (w.inodes.map (countedBlocks w.sb)).sum := by
    rw [scanned_slot, sum_map_ofNat fun x hx => ?_]
    unfold slotBlocks countedBlocks
    by_cases hc : Counted w.sb x
    · have hfew : ¬ blocksUsed w.sb x.size > maxDirectBlocks := by
        rw [gt_iff_lt, UInt32.lt_iff_toNat_lt, not_lt]
        exact hle x hx hc
      rw [if_pos ⟨hc, hfew⟩, if_pos hc, UInt32.ofNat_toNat]
    · rw [if_neg fun h => hc h.1, if_neg hc]
      rfl
  have hcount : w.inodes.countP (Counted w.sb) ≤ w.sb.maxInodes.toNat := by
    refine List.countP_le_length.trans ?_
    rw [World.inodes]
    exact (List.length_filterMap_le _ _).trans (List.length_range).le
  have hmax := w.sb.maxInodes.toNat_lt
  have hfree := w.sb.freeInodes.toNat_lt
  constructor
  · rintro ⟨herrors, hin, hbl⟩
    have hsound (i : ℕ) (x : Inode) (hi : w.slot i = some x) (hc : Counted w.sb x) :=
      slotErrors_eq_zero_iff.mp (herrors i x (hslot hi) hi) hc
    rw [hinodes, sub_eq_ofNat_iff] at hin
    rw [hblocks, sub_eq_ofNat_iff] at hbl
    · refine ⟨fun i x hi hc => ?_, fun i x hi hc => (hsound i x hi hc).2.2, ?_, hbl⟩
      · exact ⟨hc.isUsed, (hid hi).mp (hsound i x hi hc).1, hc.size_le, (hsound i x hi hc).2.1⟩
      · omega
    · intro x hx hc
      obtain ⟨i, -, hi⟩ := List.mem_filterMap.mp hx
      exact (hsound i x hi hc).2.1
  · rintro ⟨hlive, hptr, hin, hbl⟩
    refine ⟨fun i x _ hi => slotErrors_eq_zero_iff.mpr fun hc => ?_, ?_, ?_⟩
    · exact ⟨(hid hi).mpr (hlive i x hi hc).2.1, (hlive i x hi hc).2.2.2, hptr i x hi hc⟩
    · rw [hinodes, sub_eq_ofNat_iff]
      omega
    · rw [hblocks fun x hx hc => ?_, sub_eq_ofNat_iff]
      · exact hbl
      · obtain ⟨i, -, hi⟩ := List.mem_filterMap.mp hx
        exact (hlive i x hi hc).2.2.2

/-- On every mounted image with the layout of a format, `fsck` answers 0 exactly if the slots it
does not pass over are in order and the counters agree with them. -/
theorem fsck_clean_iff {w0 w : World} (hf : w0.faults = noFaults) (hmount : fsMount w0 = some (0, w))
    (hlay : FormatLayout w.sb) : ∃ r w', fsFsck w = some (r, w') ∧ (r = 0 ↔ FsckPasses w) := by
  obtain ⟨disk, -, -, hmagic, hopen⟩ := fsMount_opens hf hmount
  obtain ⟨g, hg⟩ := hlay.describes
  have hbs : inodeSize ≤ w.sb.blockSize := by
    rw [UInt32.le_iff_toNat_le, hg.blockSize]
    exact g.inode_le
  obtain ⟨r, ⟨msgs, hrun⟩, hr⟩ := fsFsck_prints (hopen.scans hbs) hmagic
  obtain ⟨w', hw', -⟩ := hrun.exec rfl
  exact ⟨r, w', hw', hr.trans (fsckClean_iff_passes w)⟩

/-! ## An image that passes -/

def sixBlocks : Superblock := { formatSb 0 2592 432 with freeBlocks := 1, freeInodes := 1 }

def sharer (id : UInt32) : Inode :=
  { Inode.zero with id := id, size := 1, isUsed := 1, directBlocks := Vector.replicate 16 3 }

/-- The flag of a used slot is 1, here it is 2. -/
def oddSlot : Inode := { Inode.zero with isUsed := 2 }

/-- Two files share a block, a third slot is neither free nor used, and the bitmap is empty. -/
def corruptImage : List UInt8 :=
  superblockCodec.encode sixBlocks ++ List.replicate (432 - 88) 0 ++ List.replicate 432 0 ++
    (inodeCodec.encode (sharer 0) ++ inodeCodec.encode (sharer 1) ++ inodeCodec.encode oddSlot) ++
    List.replicate (3 * 432) 0

theorem formatLayout_sixBlocks : FormatLayout sixBlocks :=
  ⟨2592, 432, ⟨by decide, by decide, by decide⟩, rfl⟩

set_option maxRecDepth 100000 in
theorem corruptImage_mounts : ∃ w w', fsMount (.start (some corruptImage) 0 0) = some (0, w) ∧
    w.sb = sixBlocks ∧ w.slot 0 = some (sharer 0) ∧ w.slot 1 = some (sharer 1) ∧
    w.slot 2 = some oddSlot ∧ (∀ b < 6, w.marked b = false) ∧ fsFsck w = some (0, w') := by
  have hrun : (fsMount (.start (some corruptImage) 0 0)).any (fun p => p.1 = 0 ∧
      p.2.sb = sixBlocks ∧ p.2.slot 0 = some (sharer 0) ∧ p.2.slot 1 = some (sharer 1) ∧
      p.2.slot 2 = some oddSlot ∧ (∀ b < 6, p.2.marked b = false) ∧
      (fsFsck p.2).any (fun q => q.1 = 0)) = true := by decide +kernel
  obtain ⟨r, w, hmount, h⟩ := exists_of_any hrun
  obtain ⟨rfl, hsb, h0, h1, h2, hbits, h⟩ := of_decide_eq_true h
  obtain ⟨r, w', hfsck, h⟩ := exists_of_any h
  obtain rfl : r = 0 := of_decide_eq_true h
  exact ⟨w, w', hmount, hsb, h0, h1, h2, hbits, hfsck⟩

theorem fsck_clean_iff_six : ∃ w r w', fsMount (.start (some corruptImage) 0 0) = some (0, w) ∧
    fsFsck w = some (r, w') ∧ (r = 0 ↔ FsckPasses w) := by
  obtain ⟨w, -, hmount, hsb, -⟩ := corruptImage_mounts
  obtain ⟨r, w', hfsck, hiff⟩ := fsck_clean_iff rfl hmount (hsb ▸ formatLayout_sixBlocks)
  exact ⟨w, r, w', hmount, hfsck, hiff⟩

/-- `fsck` answers 0 on an image where two files share a block that the bitmap shows as free, like
block 0 and all others, the counter of free blocks is wrong, and a slot has a flag of its own. -/
theorem corruptImage_clean : ∃ w w', fsMount (.start (some corruptImage) 0 0) = some (0, w) ∧
    FormatLayout w.sb ∧ fsFsck w = some (0, w') ∧ w.LiveAt 0 (sharer 0) ∧ w.LiveAt 1 (sharer 1) ∧
    w.blocksOf (sharer 0) = [3] ∧ w.blocksOf (sharer 1) = [3] ∧ w.marked 3 = false ∧
    w.marked 0 = false ∧ w.sb.freeBlocks.toNat ≠ (List.range 6).countP (fun b => !w.marked b) ∧
    w.slot 2 = some oddSlot ∧ oddSlot.isUsed ≠ 0 ∧ oddSlot.isUsed ≠ 1 := by
  obtain ⟨w, w', hmount, hsb, h0, h1, h2, hbits, hfsck⟩ := corruptImage_mounts
  have hblocks (id : UInt32) : w.blocksOf (sharer id) = [3] := by
    have hone : Chunks.pieces (1 : UInt32).toNat sixBlocks.blockSize.toNat = 1 := by decide
    rw [World.blocksOf, hsb]
    change ((Vector.replicate 16 (3 : UInt32)).toList.take (Chunks.pieces (1 : UInt32).toNat _)).map
      UInt32.toNat = [3]
    rw [hone]
    rfl
  have hclear : (List.range 6).countP (fun b => !w.marked b) = 6 := by
    refine List.countP_eq_length.mpr fun b hb => ?_
    rw [hbits b (List.mem_range.mp hb)]
    rfl
  refine ⟨w, w', hmount, hsb ▸ formatLayout_sixBlocks, hfsck, ⟨h0, rfl⟩, ⟨h1, rfl⟩, hblocks 0,
    hblocks 1, hbits 3 (by decide), hbits 0 (by decide), ?_, h2, by decide, by decide⟩
  rw [hclear, hsb]
  decide

/-! ## Where `fsck` is defined -/

/-- A block that holds no inode makes reading an inode a division by zero. -/
theorem inodeRead_stuck {w : World} (hsmall : w.sb.blockSize < inodeSize) {id : UInt32}
    (hid : id < w.sb.maxInodes) : inodeRead id w = none := by
  have hzero : w.sb.blockSize / inodeSize = 0 := by
    rw [← UInt32.toNat_inj, UInt32.toNat_div, UInt32.toNat_zero]
    exact Nat.div_eq_of_lt (UInt32.lt_iff_toNat_lt.mp hsmall)
  have hno : ¬ w.sb.maxInodes ≤ id := UInt32.not_le.mpr hid
  rw [inodeRead, getSb, bind_apply, ask_apply, Option.bind_some]
  simp only [if_neg hno, bind_apply, inodeLocation, hzero, ne_eq, not_true_eq_false,
    require_neg not_false]
  rfl

/-- The walk reads the first slot before anything else. -/
theorem fsFsck_stuck {w : World} (hsmall : w.sb.blockSize < inodeSize)
    (hsome : w.sb.maxInodes ≠ 0) (hm : w.sb.magic = fsMagic) : fsFsck w = none := by
  obtain ⟨n, hn⟩ : ∃ n, w.sb.maxInodes.toNat = n + 1 := by
    refine Nat.exists_eq_succ_of_ne_zero fun h0 => hsome ?_
    rw [← UInt32.toNat_inj, h0, UInt32.toNat_zero]
  have hfirst : UInt32.ofNat 0 < w.sb.maxInodes := by
    rw [UInt32.lt_iff_toNat_lt, hn]
    exact Nat.succ_pos n
  let w1 : World := { w with out := w.out ++ [.magicOk w.sb.magic] }
  have hsay : emit (.magicOk w.sb.magic) w = some ((), w1) := rfl
  have hwalk : fsckWalk w.sb (n + 1) 0 ⟨0, 0, 0⟩ w1 = none := by
    rw [fsckWalk, bind_apply, fsckInode, bind_apply, inodeRead_stuck (w := w1) hsmall hfirst]
    rfl
  rw [fsFsck, bind_apply, getSb, ask_apply, Option.bind_some]
  simp only [if_neg (not_not.mpr hm), bind_apply, hsay, Option.bind_some, pure_apply, hn, hwalk,
    Option.bind_none]

/-- On a mounted image `fsck` comes to an end, without a division by zero and without reading
past a block buffer or the pointer array, exactly if there are no inodes or a block holds one. -/
theorem fsck_defined_iff {w0 w : World} (hf : w0.faults = noFaults)
    (hmount : fsMount w0 = some (0, w)) :
    (∃ r w', fsFsck w = some (r, w')) ↔ w.sb.maxInodes = 0 ∨ inodeSize ≤ w.sb.blockSize := by
  obtain ⟨disk, -, -, hmagic, hopen⟩ := fsMount_opens hf hmount
  constructor
  · rintro ⟨r, w', hrun⟩
    by_contra hno
    obtain ⟨hsome, hsmall⟩ := not_or.mp hno
    rw [fsFsck_stuck (UInt32.not_le.mp hsmall) hsome hmagic] at hrun
    cases hrun
  · intro hsafe
    have hscans : Scans asIs w w.sb w.slot := by
      rcases hsafe with hnone | hbs
      · refine ⟨fun msgs => runs_asIs (congrArg (fun sb => some (sb, _)) (hopen.sayMore msgs).sb),
          fun msgs i hi => ?_⟩
        rw [hnone, UInt32.toNat_zero] at hi
        exact absurd hi (Nat.not_lt_zero i)
      · exact hopen.scans hbs
    obtain ⟨r, ⟨msgs, hrun⟩, -⟩ := fsFsck_prints hscans hmagic
    obtain ⟨w', hw', -⟩ := hrun.exec rfl
    exact ⟨r, w', hw'⟩

/-- The corrupt image above still gets its check. -/
theorem fsck_defined_iff_six : ∃ w, fsMount (.start (some corruptImage) 0 0) = some (0, w) ∧
    inodeSize ≤ w.sb.blockSize ∧ ∃ r w', fsFsck w = some (r, w') := by
  obtain ⟨w, -, hmount, hsb, -⟩ := corruptImage_mounts
  have hbs : inodeSize ≤ w.sb.blockSize := by
    rw [hsb]
    decide
  exact ⟨w, hmount, hbs, (fsck_defined_iff rfl hmount).mpr (.inr hbs)⟩

def smallBlocks : Superblock :=
  { Superblock.zero with magic := fsMagic, blockSize := 100, maxInodes := 1, totalBlocks := 2 }

/-- An image of 200 bytes mounts, and `fsck` divides by zero. -/
theorem smallBlocks_crashes : ∃ w,
    fsMount (.start (some (superblockCodec.encode smallBlocks ++ List.replicate 112 0)) 0 0) =
      some (0, w) ∧ w.sb = smallBlocks ∧ fsFsck w = none := by
  have hrun : (fsMount (.start (some (superblockCodec.encode smallBlocks ++
      List.replicate 112 0)) 0 0)).any (fun p => p.1 = 0 ∧ p.2.sb = smallBlocks) = true := by
    decide +kernel
  obtain ⟨r, w, hmount, h⟩ := exists_of_any hrun
  obtain ⟨rfl, hsb⟩ := of_decide_eq_true h
  refine ⟨w, hmount, hsb, fsFsck_stuck ?_ ?_ ?_⟩
  · rw [hsb]
    decide
  · rw [hsb]
    decide
  · rw [hsb]
    rfl

end MiniFs.Properties
