import MiniFs.Image.Observe

/-! # What an accepted format leaves, and which sizes are computed exactly

A format and a mount give an empty file system whose regions fill the disk. The 32-bit
arithmetic of `fs_format` is exact, except that eight times the block size may wrap to zero.
-/

set_option autoImplicit false

namespace MiniFs.Image
open MiniFs.Core Library Library.Exec Library.ByteRange Library.BitArray Library.Chunks
open Library.Ownership

section
variable {totalSize blockSize : UInt32}

/-! ## Sizes -/

/-- Eight times the block size wraps to zero for the multiples of 2^29. -/
theorem bits_eq_zero_iff : blockSize * 8 = 0 ↔ 2 ^ 29 ∣ blockSize.toNat := by
  rw [← UInt32.toNat_inj, UInt32.toNat_mul, UInt32.toNat_zero]
  change blockSize.toNat * 8 % 2 ^ 32 = 0 ↔ _
  omega

/-- A number of bytes that wraps counts the same blocks: then the disk has fewer than eight. -/
theorem pieces_wrapped {t b : ℕ} (hb : 144 ≤ b) (hb' : b < 2 ^ 32) (ht : t < 2 ^ 32)
    (hne : b * 8 % 2 ^ 32 ≠ 0) : pieces (t / b) (b * 8 % 2 ^ 32) = pieces (t / b) (8 * b) := by
  by_cases hsmall : b < 2 ^ 29
  · rw [Nat.mod_eq_of_lt (by omega), Nat.mul_comm]
  · have hfew : t / b < 8 := by
      rw [Nat.div_lt_iff_lt_mul (by omega)]
      omega
    generalize t / b = n at hfew ⊢
    have hone {m : ℕ} (hm : 8 ≤ m) : pieces n m = if n = 0 then 0 else 1 := by
      have hpos : 0 < m := by omega
      split_ifs with h0
      · rw [h0, pieces_zero hpos]
      · have hle : pieces n m ≤ 1 := (pieces_le_iff hpos).mpr (by omega)
        have hge : 0 < pieces n m := (lt_pieces_iff hpos).mpr (by omega)
        omega
    rw [hone (by omega), hone (by omega)]

theorem toNat_bitmapBlocks_exact (hb : inodeSize ≤ blockSize) (hne : blockSize * 8 ≠ 0) :
    (formatBitmapBlocks totalSize blockSize).toNat =
      pieces (totalSize.toNat / blockSize.toNat) (8 * blockSize.toNat) := by
  rw [toNat_formatBitmapBlocks hb hne]
  refine pieces_wrapped (UInt32.le_iff_toNat_le.mp hb) blockSize.toNat_lt totalSize.toNat_lt ?_
  exact (toNat_bits_pos hne).ne'

theorem toNat_maxInodes_exact (hb : inodeSize ≤ blockSize) :
    (blockSize / inodeSize * formatInodeBlocks totalSize blockSize).toNat =
      blockSize.toNat / 144 * (formatInodeBlocks totalSize blockSize).toNat := by
  have hb' : 144 ≤ blockSize.toNat := UInt32.le_iff_toNat_le.mp hb
  have ht := totalSize.toNat_lt
  have hbs := blockSize.toNat_lt
  have hmul := Nat.div_mul_le_self totalSize.toNat blockSize.toNat
  rw [UInt32.toNat_mul, UInt32.toNat_div, toNat_formatInodeBlocks]
  change blockSize.toNat / 144 * _ % 2 ^ 32 = blockSize.toNat / 144 * _
  refine Nat.mod_eq_of_lt ?_
  rcases Nat.le_total (totalSize.toNat / blockSize.toNat / 10) 1 with hle | hge
  · rw [max_eq_left hle]
    omega
  · rw [max_eq_right hge]
    calc blockSize.toNat / 144 * (totalSize.toNat / blockSize.toNat / 10)
        ≤ blockSize.toNat * (totalSize.toNat / blockSize.toNat) :=
          Nat.mul_le_mul (Nat.div_le_self _ _) (Nat.div_le_self _ _)
      _ = totalSize.toNat / blockSize.toNat * blockSize.toNat := Nat.mul_comm _ _
      _ < 2 ^ 32 := by omega

/-- The comparison of the metadata blocks with all blocks. -/
theorem tooSmall_exact (hb : inodeSize ≤ blockSize) (hne : blockSize * 8 ≠ 0) :
    1 + formatBitmapBlocks totalSize blockSize + formatInodeBlocks totalSize blockSize ≥
        totalSize / blockSize ↔
      1 + pieces (totalSize.toNat / blockSize.toNat) (8 * blockSize.toNat) +
        max 1 (totalSize.toNat / blockSize.toNat / 10) ≥ totalSize.toNat / blockSize.toNat := by
  rw [ge_iff_le, UInt32.le_iff_toNat_le, toNat_formatMetadata totalSize hb hne, UInt32.toNat_div,
    toNat_bitmapBlocks_exact hb hne, toNat_formatInodeBlocks]

theorem fsFormat_tooSmall {now : UInt64} {s : World} (hf : s.faults = noFaults)
    (hb : inodeSize ≤ blockSize) (hne : blockSize * 8 ≠ 0)
    (hsmall : 1 + formatBitmapBlocks totalSize blockSize +
      formatInodeBlocks totalSize blockSize ≥ totalSize / blockSize) :
    ∃ s', fsFormat now totalSize blockSize s = some (-1, s') := by
  rw [fsFormat_opened (UInt32.not_lt.mpr hb) (diskInit_format hf totalSize blockSize), if_neg hne,
    layOut, if_pos hsmall]
  exact ⟨_, rfl⟩

theorem savedSb_formatted {now : UInt64} {h : Formattable totalSize blockSize} {s s' : World}
    (hfin : Formatted now h s s') : s'.savedSb = formatSb now totalSize blockSize := by
  obtain ⟨disk, bytes, hfile, hh, -⟩ := hfin.disk
  rw [World.savedSb, hfile, Option.getD_some, hh.saved, superblockCodec.decode_encode]
  rfl

end

end MiniFs.Image

namespace MiniFs.Properties
open MiniFs.Core MiniFs.Image Library Library.Exec Library.ByteRange Library.Chunks

section
variable {totalSize blockSize : UInt32}

/-- The sizes of `fs_format` over the unbounded integers. -/
structure SizesExact (totalSize blockSize : UInt32) : Prop where
  divisor : blockSize * 8 ≠ 0
  bitmapBlocks : (formatBitmapBlocks totalSize blockSize).toNat =
    pieces (totalSize.toNat / blockSize.toNat) (8 * blockSize.toNat)
  tooSmall : 1 + formatBitmapBlocks totalSize blockSize + formatInodeBlocks totalSize blockSize ≥
      totalSize / blockSize ↔
    1 + pieces (totalSize.toNat / blockSize.toNat) (8 * blockSize.toNat) +
      max 1 (totalSize.toNat / blockSize.toNat / 10) ≥ totalSize.toNat / blockSize.toNat
  maxInodes : (blockSize / inodeSize * formatInodeBlocks totalSize blockSize).toNat =
    blockSize.toNat / 144 * max 1 (totalSize.toNat / blockSize.toNat / 10)

/-- `fs_format` returns, and accepts the sizes that are large enough with these counts. -/
def FormatsExactly (totalSize blockSize : UInt32) : Prop :=
  ∀ (now : UInt64) (s : World), s.faults = noFaults →
    ∃ r s', fsFormat now totalSize blockSize s = some (r, s') ∧
      (r = -1 ↔ 1 + pieces (totalSize.toNat / blockSize.toNat) (8 * blockSize.toNat) +
        max 1 (totalSize.toNat / blockSize.toNat / 10) ≥ totalSize.toNat / blockSize.toNat) ∧
      (r ≠ -1 → r = 0 ∧ s'.savedSb.bitmapBlocks.toNat =
          pieces (totalSize.toNat / blockSize.toNat) (8 * blockSize.toNat) ∧
        s'.savedSb.maxInodes.toNat =
          blockSize.toNat / 144 * max 1 (totalSize.toNat / blockSize.toNat / 10))

/-- The size arithmetic of `fs_format` is exact unless the block size is a multiple of 2^29. -/
theorem format_sizes_exact_iff (hb : inodeSize ≤ blockSize) :
    SizesExact totalSize blockSize ∧ FormatsExactly totalSize blockSize ↔
      ¬ 2 ^ 29 ∣ blockSize.toNat := by
  rw [← bits_eq_zero_iff]
  constructor
  · exact fun h => h.1.divisor
  · intro hne
    have hbitmap := @toNat_bitmapBlocks_exact totalSize blockSize hb hne
    have hsmall := @tooSmall_exact totalSize blockSize hb hne
    have hmax := @toNat_maxInodes_exact totalSize blockSize hb
    rw [toNat_formatInodeBlocks] at hmax
    refine ⟨⟨hne, hbitmap, hsmall, hmax⟩, fun now s hf => ?_⟩
    rw [← hsmall]
    by_cases htoo : 1 + formatBitmapBlocks totalSize blockSize +
        formatInodeBlocks totalSize blockSize ≥ totalSize / blockSize
    · obtain ⟨s', hrun⟩ : ∃ s', fsFormat now totalSize blockSize s = some (-1, s') :=
        fsFormat_tooSmall hf hb hne htoo
      exact ⟨-1, s', hrun, iff_of_true rfl htoo, fun h => absurd rfl h⟩
    · have hfmt : Formattable totalSize blockSize := ⟨hb, hne, UInt32.not_le.mp htoo⟩
      obtain ⟨s', hrun, hfin⟩ := fsFormat_formatted hfmt now hf
      refine ⟨0, s', hrun, iff_of_false (by decide) htoo, fun _ => ⟨rfl, ?_⟩⟩
      rw [savedSb_formatted hfin]
      exact ⟨hbitmap, hmax⟩

theorem format_sizes_exact_iff_large : ¬ 2 ^ 29 ∣ (1610612735 : UInt32).toNat ∧
    SizesExact 4294967295 1610612735 := by
  have hne : ¬ 2 ^ 29 ∣ (1610612735 : UInt32).toNat := by decide
  exact ⟨hne, ((format_sizes_exact_iff (by decide)).mpr hne).1⟩

/-- With blocks of 2^29 bytes `fs_format` divides by zero. -/
theorem hugeBlocks_crash : fsFormat 0 2147483647 536870912 (.start none 0 0) = none ∧
    ¬ SizesExact 2147483647 536870912 ∧ ¬ FormatsExactly 2147483647 536870912 := by
  have hstuck : fsFormat 0 2147483647 536870912 (.start none 0 0) = none := by
    rw [fsFormat_opened (by decide) (diskInit_format rfl 2147483647 536870912),
      if_pos (by decide)]
  refine ⟨hstuck, fun h => h.divisor (by decide), fun h => ?_⟩
  obtain ⟨r, s', hrun, -⟩ := h 0 (.start none 0 0) rfl
  rw [hstuck] at hrun
  cases hrun

end

/-! ## The empty file system -/

/-- A well-formed file system without files, on a disk of `totalSize` bytes. -/
structure EmptyFs (totalSize blockSize : UInt32) (w : World) : Prop where
  /-- block 0, the bitmap, the inode table and the data follow each other and fill the disk -/
  bitmapStart : w.sb.bitmapStart.toNat = 1
  inodeStart : w.sb.inodeStart.toNat = w.sb.bitmapStart.toNat + w.sb.bitmapBlocks.toNat
  dataStart : w.sb.dataStart.toNat = w.sb.inodeStart.toNat + w.sb.inodeBlocks.toNat
  totalBlocks : w.sb.totalBlocks.toNat = w.sb.dataStart.toNat + w.sb.dataBlocks.toNat
  size : w.sb.blockSize = blockSize
  fits : w.sb.totalBlocks.toNat * blockSize.toNat ≤ totalSize.toNat
  dataBlocks : 1 ≤ w.sb.dataBlocks.toNat
  bitmap : ∃ bytes, w.bitmap = .live bytes ∧ w.sb.totalBlocks.toNat ≤ 8 * bytes.length
  marked : ∀ b, w.marked b = true ↔ b < w.sb.dataStart.toNat
  /-- a slot lies in one block of the inode region -/
  slots : ∀ i < w.sb.maxInodes.toNat, ∃ block offset,
    inodeLocation w.sb (UInt32.ofNat i) w = some ((block, offset), w) ∧
      w.sb.inodeStart.toNat ≤ block.toNat ∧ block.toNat < w.sb.dataStart.toNat ∧
      offset + inodeSize.toNat ≤ blockSize.toNat
  unused : ∀ i < w.sb.maxInodes.toNat, ∃ x, w.slot i = some x ∧ x.isUsed = 0
  freeBlocks : w.sb.freeBlocks = w.sb.dataBlocks
  clear : w.sb.freeBlocks.toNat =
    (List.range w.sb.totalBlocks.toNat).countP fun b => !w.marked b
  freeInodes : w.sb.freeInodes = w.sb.maxInodes

/-- If the first `m` of `m + n` blocks are marked, `n` are not. -/
theorem countP_unmarked {marked : ℕ → Bool} {m : ℕ} (h : ∀ b, marked b = decide (b < m)) (n : ℕ) :
    ((List.range (m + n)).countP fun b => !marked b) = n := by
  have hset : ∀ b ∈ List.range m, ¬ (!marked b) = true := by
    intro b hb
    rw [h b, decide_eq_true (List.mem_range.mp hb)]
    decide
  have hclear : ∀ b ∈ (List.range n).map (m + ·), (!marked b) = true := by
    intro b hb
    obtain ⟨k, -, rfl⟩ := List.mem_map.mp hb
    rw [h, decide_eq_false (by omega)]
    rfl
  rw [List.range_add, List.countP_append, List.countP_eq_zero.mpr hset,
    List.countP_eq_length.mpr hclear, List.length_map, List.length_range, Nat.zero_add]

theorem inodeLocation_bounds {g : Geometry} {w : World} (hg : g.Describes w.sb) {i : ℕ}
    (hi : i < g.maxInodes) : ∃ block offset,
      inodeLocation w.sb (UInt32.ofNat i) w = some ((block, offset), w) ∧
      g.inodeStart ≤ block.toNat ∧ block.toNat < g.dataStart ∧
      offset + inodeSize.toNat ≤ g.blockSize := by
  have hid := Geometry.toNat_slot (g := g) hi
  obtain ⟨blk, hloc, hblk⟩ := inodeLocation_eq hg (hid.symm ▸ hi) w
  refine ⟨blk, _, hloc, ?_, ?_, g.slot_offset_le _⟩
  · rw [hblk]
    exact Nat.le_add_right _ _
  · rw [hblk, hid]
    exact g.slot_block_lt hi

/-- After every format that returns 0, a mount gives an empty file system. -/
theorem format_emptyFs {totalSize blockSize : UInt32} {now : UInt64} {s s' : World}
    (hf : s.faults = noFaults) (h : fsFormat now totalSize blockSize s = some (0, s')) :
    ∃ w, fsMount s' = some (0, w) ∧ EmptyFs totalSize blockSize w := by
  obtain ⟨hfmt, w, hmount, hrep, hsteady⟩ := mount_initial hf h
  let g := Geometry.ofFormat hfmt
  have hg : g.Describes w.sb := hrep.sb ▸ hrep.layout
  have hsb : w.sb = formatSb now totalSize blockSize := hrep.sb
  have hadd := g.dataBlocks_add
  have hlt := g.dataStart_lt
  have hmarked (b : ℕ) : w.marked b = decide (b < g.dataStart) := by
    rw [hrep.marked_eq b]
    exact decide_eq_decide.mpr Finset.mem_range
  refine ⟨w, hmount, ?_⟩
  constructor
  · exact hg.bitmapStart
  · rw [hg.inodeStart, hg.bitmapStart, hg.bitmapBlocks]
    rfl
  · rw [hg.dataStart, hg.inodeStart, hg.inodeBlocks]
    rfl
  · rw [hg.totalBlocks, hg.dataStart, hg.dataBlocks]
    omega
  · rw [hsb]
    rfl
  · rw [hg.totalBlocks]
    exact Nat.div_mul_le_self _ _
  · rw [hg.dataBlocks]
    omega
  · obtain ⟨disk, bytes, -, hmem, hh, -⟩ := hrep.memory
    refine ⟨bytes, hmem, ?_⟩
    rw [hg.totalBlocks, hh.length_bytes]
    exact g.bits_le
  · intro b
    rw [hmarked b, hg.dataStart, decide_eq_true_eq]
  · intro i hi
    rw [hg.maxInodes] at hi
    rw [hg.inodeStart, hg.dataStart]
    exact inodeLocation_bounds hg hi
  · intro i hi
    rw [hg.maxInodes] at hi
    refine ⟨Inode.zero, ?_, rfl⟩
    rw [hrep.slot_eq rfl]
    exact List.getElem?_replicate_of_lt hi
  · rw [hsb]
    rfl
  · rw [hg.totalBlocks, ← hadd, Nat.add_comm, countP_unmarked hmarked, ← hg.dataBlocks, hsb]
    rfl
  · rw [hsb]
    rfl

set_option maxRecDepth 100000 in
/-- Blocks of 200 bytes hold one inode each, and 56 bytes stay unused. -/
theorem format_emptyFs_six : ∃ s' w, fsFormat 0 1250 200 (.start none 0 0) = some (0, s') ∧
    fsMount s' = some (0, w) ∧ EmptyFs 1250 200 w := by
  have hrun : (fsFormat 0 1250 200 (.start none 0 0)).any (fun p => p.1 = 0) = true := by
    decide +kernel
  obtain ⟨r, s', hfmt, h0⟩ := exists_of_any hrun
  obtain rfl : r = 0 := of_decide_eq_true h0
  obtain ⟨w, hmount, hempty⟩ := format_emptyFs rfl hfmt
  exact ⟨s', w, hfmt, hmount, hempty⟩

end MiniFs.Properties
