import MiniFs.Properties.Simulator
import MiniFs.Image.Opened

/-! # One disk layout

`fs_format` and `fsFormat` of the page round in different ways: adding and dividing
in 32 bits there, `Math.ceil` under a `max` with 1 here. For blocks below 2^29 bytes
they accept the same sizes and compute the same layout.
-/

set_option autoImplicit false

namespace MiniFs.Image
open MiniFs.Core Library Library.Exec

/-! ## The superblock in memory

Whatever the system calls answer, the transfers leave the superblock alone.
-/

variable {P : Superblock → Prop}

def OfSb (P : Superblock → Prop) (w : World) : Prop := P w.sb

theorem nextFault_sb : Triple (OfSb P) nextFault fun _ => OfSb P := by
  intro s a s' h hrun
  obtain ⟨-, rfl⟩ := returned_inj hrun
  exact h

theorem emit_sb {m : Message} : Triple (OfSb P) (emit m) fun _ => OfSb P :=
  Triple.update fun _ h => h

theorem ask_keeps {α : Type} {Q : World → Prop} {f : World → α} : Triple Q (ask f) fun _ => Q :=
  Triple.ask fun _ h => h

theorem diskRead_sb {b : UInt32} {buf : List UInt8} :
    Triple (OfSb P) (diskRead b buf) fun _ => OfSb P := by
  refine ask_keeps.bind fun size => ask_keeps.bind fun fd => ?_
  cases fd with
  | closed => exact Triple.pure fun _ h => h
  | stale => exact emit_sb.bind fun _ => Triple.pure fun _ h => h
  | opened =>
    refine nextFault_sb.bind fun fault => ?_
    cases fault with
    | some junk => exact emit_sb.bind fun _ => Triple.pure fun _ h => h
    | none =>
      refine ask_keeps.bind fun file => Triple.require.bind fun _ => ?_
      split_ifs
      · exact Triple.pure fun _ h => h.1
      · exact Triple.bind (I := fun _ => OfSb P) (Triple.update fun _ h => h.1)
          fun _ => Triple.pure fun _ h => h

theorem diskWrite_sb {b : UInt32} {buf : List UInt8} :
    Triple (OfSb P) (diskWrite b buf) fun _ => OfSb P := by
  refine ask_keeps.bind fun size => ask_keeps.bind fun fd => ?_
  cases fd with
  | closed => exact Triple.pure fun _ h => h
  | stale => exact emit_sb.bind fun _ => Triple.pure fun _ h => h
  | opened =>
    refine Triple.bind (I := fun _ => OfSb P) (fun s a s' h hrun => (Triple.require s a s' h hrun).1)
      fun _ => nextFault_sb.bind fun fault => ?_
    cases fault with
    | some junk => exact emit_sb.bind fun _ => Triple.pure fun _ h => h
    | none =>
      exact Triple.bind (I := fun _ => OfSb P) (Triple.update fun _ h => h)
        fun _ => Triple.pure fun _ h => h

theorem setBitmap_sb {p : Pointer} : Triple (OfSb P) (setBitmap p) fun _ => OfSb P :=
  Triple.update fun _ h => h

theorem bitmapOffset_sb {sb : Superblock} {bytes : List UInt8} {i : ℕ} :
    Triple (OfSb P) (bitmapOffset sb bytes i) fun _ => OfSb P :=
  Triple.bind Triple.require fun _ => Triple.pure fun _ h => h.1

theorem bitmapInit_sb : Triple (OfSb P) bitmapInit fun _ => OfSb P := by
  have hload {sb : Superblock} {i : ℕ} : Triple (OfSb P) (loadBitmapBlock sb i) fun r s =>
      r.elim (OfSb P s) fun _ => OfSb P s := by
    refine bitmapBytes_keeps.bind fun bytes => bitmapOffset_sb.bind fun off =>
      diskRead_sb.bind fun r => setBitmap_sb.bind fun _ => Triple.pure fun s h => ?_
    split_ifs
    · exact h
    · exact h
  refine ask_keeps.bind fun sb => ask_keeps.bind fun memory => setBitmap_sb.bind fun _ =>
    (Triple.search fun _ _ => hload).bind fun r => ?_
  cases r with
  | none => exact Triple.pure fun _ h => h
  | some u => exact setBitmap_sb.bind fun _ => Triple.pure fun _ h => h

theorem bitmapSync_sb : Triple (OfSb P) bitmapSync fun _ => OfSb P := by
  refine ask_keeps.bind fun sb => ask_keeps.bind fun p => ?_
  cases p with
  | null => exact Triple.pure fun _ h => h
  | freed => exact Triple.stuck
  | live bytes =>
    exact Triple.forLoop fun i => bitmapOffset_sb.bind fun off => diskWrite_sb.bind fun _ =>
      Triple.pure fun _ h => h

theorem bitmapAllocateBlock_sb (hP : ∀ sb n, P sb → P { sb with freeBlocks := n }) :
    Triple (OfSb P) bitmapAllocateBlock fun _ => OfSb P := by
  have htry (i : ℕ) : Triple (OfSb P) (allocateIfClear i) fun r s =>
      r.elim (OfSb P s) fun _ => OfSb P s := by
    refine bitmapBytes_keeps.bind fun bytes =>
      Triple.bind (I := fun _ => OfSb P) (fun s a s' h hrun => (Triple.require s a s' h hrun).1)
        fun _ => ?_
    split_ifs
    · refine setBitmap_sb.bind fun _ => Triple.bind (I := fun _ => OfSb P)
        (Triple.update fun w h => hP w.sb _ h) fun _ => bitmapSync_sb.bind fun _ =>
          Triple.pure fun _ h => h
    · exact Triple.pure fun _ h => h
  intro s a s' h hrun
  have hall := (ask_keeps.bind fun sb => Triple.search fun i _ => htry i) s a s' h hrun
  cases a with
  | none => exact hall
  | some b => exact hall

theorem writeLayout_sb {blockSize : UInt32} {sb : Superblock} {msg : Message} (hsb : P sb)
    (hP : ∀ sb n, P sb → P { sb with freeBlocks := n }) :
    Triple (fun _ => True) (writeLayout blockSize sb msg) fun r s => r = 0 ∧ OfSb P s := by
  have hzero {start count : UInt32} :
      Triple (OfSb P) (zeroBlocks blockSize start count) fun _ => OfSb P :=
    Triple.forLoop fun i => diskWrite_sb.bind fun _ => Triple.pure fun _ h => h
  have hmark : Triple (OfSb P) (forLoop (fun _ => do
      let _ ← bitmapAllocateBlock
      pure ()) sb.dataStart.toNat 0) fun _ => OfSb P :=
    Triple.forLoop fun i => (bitmapAllocateBlock_sb hP).bind fun _ => Triple.pure fun _ h => h
  refine Triple.bind (I := fun _ => OfSb P) (Triple.update fun _ _ => hsb) fun _ =>
    Triple.bind (I := fun _ => OfSb P) (ask_keeps.bind fun _ => diskWrite_sb) fun _ =>
      hzero.bind fun _ => hzero.bind fun _ => bitmapInit_sb.bind fun _ => hmark.bind fun _ =>
        Triple.bind (I := fun _ => OfSb P) (Triple.update fun _ h => h) fun _ =>
          emit_sb.bind fun _ => Triple.pure fun _ h => ⟨rfl, h⟩

/-- Once the disk file is open, the answer of `fs_format` depends on the sizes only, and so does
what it leaves in memory but for the count of free blocks. -/
theorem fsFormat_answer {totalSize blockSize : UInt32} {now : UInt64} {s s1 s' : World} {r : Int}
    (hopen : diskInit totalSize blockSize true s = some (0, s1))
    (hrun : fsFormat now totalSize blockSize s = some (r, s')) :
    (r = 0 ↔ Formattable totalSize blockSize) ∧
      (r = 0 → ∃ n, s'.sb = { formatSb now totalSize blockSize with freeBlocks := n }) := by
  have hno {m : Message} {t : World} (h : (do emit m; pure (-1) : M Int) t = some (r, s')) :
      r ≠ 0 := by
    obtain ⟨rfl, -⟩ := returned_inj h
    decide
  by_cases hsmall : blockSize < inodeSize
  · rw [fsFormat, if_pos hsmall] at hrun
    have hr := hno hrun
    exact ⟨iff_of_false hr fun h => absurd h.inode_le (UInt32.not_le.mpr hsmall),
      fun h => absurd h hr⟩
  rw [fsFormat_opened hsmall hopen] at hrun
  by_cases hbits : blockSize * 8 = 0
  · rw [if_pos hbits] at hrun
    cases hrun
  rw [if_neg hbits, layOut] at hrun
  split_ifs at hrun with hroom hinodes
  · have hr := hno hrun
    exact ⟨iff_of_false hr fun h => absurd h.room (UInt32.not_lt.mpr hroom), fun h => absurd h hr⟩
  · have hr := hno hrun
    refine ⟨iff_of_false hr fun h => ?_, fun h => absurd h hr⟩
    have hpos := (Geometry.ofFormat h).maxInodes_pos
    rw [← (describes_formatSb h now).maxInodes] at hpos
    exact absurd (congrArg UInt32.toNat hinodes) (Nat.pos_iff_ne_zero.mp hpos)
  · have hkept := writeLayout_sb
      (P := fun sb => ∃ n, sb = { formatSb now totalSize blockSize with freeBlocks := n }) ⟨_, rfl⟩
      (fun sb n h => by
        obtain ⟨k, rfl⟩ := h
        exact ⟨n, rfl⟩) s1 r s' trivial hrun
    exact ⟨iff_of_true hkept.1 ⟨UInt32.not_lt.mp hsmall, hbits, UInt32.not_le.mp hroom⟩,
      fun _ => hkept.2⟩

end MiniFs.Image

namespace MiniFs.Properties
open MiniFs.Core MiniFs.Image MiniFs.Simulator Library Library.Exec Library.Chunks

structure SameRegions (sb : Core.Superblock) (page : Simulator.Superblock) : Prop where
  totalBlocks : (sb.totalBlocks.toNat : ℤ) = page.totalBlocks
  maxInodes : (sb.maxInodes.toNat : ℤ) = page.maxInodes
  bitmapStart : (sb.bitmapStart.toNat : ℤ) = page.bitmapStart
  bitmapBlocks : (sb.bitmapBlocks.toNat : ℤ) = page.bitmapBlocks
  inodeStart : (sb.inodeStart.toNat : ℤ) = page.inodeStart
  inodeBlocks : (sb.inodeBlocks.toNat : ℤ) = page.inodeBlocks
  dataStart : (sb.dataStart.toNat : ℤ) = page.dataStart
  dataBlocks : (sb.dataBlocks.toNat : ℤ) = page.dataBlocks

variable {totalSize blockSize : UInt32} {ts : JsString} {fs : FS} {now : UInt64} {s s' : World}

/-! ## The sizes that are accepted -/

theorem bits_ne_zero (hb : inodeSize ≤ blockSize) (hlt : blockSize.toNat < 2 ^ 29) :
    blockSize * 8 ≠ 0 := by
  have hb' : 144 ≤ blockSize.toNat := UInt32.le_iff_toNat_le.mp hb
  rw [Ne, bits_eq_zero_iff]
  exact fun hdvd => absurd (Nat.le_of_dvd (by omega) hdvd) (not_le.mpr hlt)

/-- The clamp of the page makes a difference only where there is no block at all. -/
theorem formattable_iff (hlt : blockSize.toNat < 2 ^ 29) :
    Image.Formattable totalSize blockSize ↔
      Simulator.Formattable totalSize.toNat blockSize.toNat := by
  by_cases hb : inodeSize ≤ blockSize
  · have hb' : 144 ≤ blockSize.toNat := UInt32.le_iff_toNat_le.mp hb
    have hne := bits_ne_zero hb hlt
    have hceil := ceilDiv_natCast (m := 8 * blockSize.toNat) (by omega)
      (totalSize.toNat / blockSize.toNat)
    have htotal : (totalSize.toNat : ℤ) / blockSize.toNat =
      ((totalSize.toNat / blockSize.toNat : ℕ) : ℤ) := (Int.natCast_div _ _).symm
    have hzero := pieces_eq_zero_iff (n := totalSize.toNat / blockSize.toNat)
      (m := 8 * blockSize.toNat) (by omega)
    have hpage : 1 + Simulator.bitmapBlocks totalSize.toNat blockSize.toNat +
        Simulator.inodeBlocks totalSize.toNat blockSize.toNat <
          (totalSize.toNat : ℤ) / blockSize.toNat ↔
        1 + pieces (totalSize.toNat / blockSize.toNat) (8 * blockSize.toNat) +
          max 1 (totalSize.toNat / blockSize.toNat / 10) < totalSize.toNat / blockSize.toNat := by
      rw [Nat.cast_mul, Nat.cast_ofNat] at hceil
      rw [Simulator.bitmapBlocks, Simulator.inodeBlocks, htotal, mul_comm (blockSize.toNat : ℤ), hceil]
      generalize totalSize.toNat / blockSize.toNat = n at *
      generalize pieces n (8 * blockSize.toNat) = k at *
      omega
    have hroom : 1 + formatBitmapBlocks totalSize blockSize +
        formatInodeBlocks totalSize blockSize < totalSize / blockSize ↔
        1 + pieces (totalSize.toNat / blockSize.toNat) (8 * blockSize.toNat) +
          max 1 (totalSize.toNat / blockSize.toNat / 10) < totalSize.toNat / blockSize.toNat := by
      rw [← UInt32.not_le, ← Nat.not_le, not_iff_not]
      exact tooSmall_exact hb hne
    constructor
    · exact fun h => ⟨by exact_mod_cast hb', hpage.mpr (hroom.mp h.room)⟩
    · exact fun h => ⟨hb, hne, hroom.mpr (hpage.mp h.room)⟩
  · refine iff_of_false (fun h => hb h.inode_le) fun h => hb ?_
    exact UInt32.le_iff_toNat_le.mpr (by exact_mod_cast h.inode_le)

/-! ## The regions -/

/-- The layout the core computes is that of the page. -/
theorem sameRegions_formatSb (h : Image.Formattable totalSize blockSize) :
    SameRegions (formatSb now totalSize blockSize)
      (emptyFS ts totalSize.toNat blockSize.toNat).superblock := by
  obtain ⟨hbitmap, hinode⟩ := page_sizes h
  have hlay := describes_formatSb h now
  have hroom := (Geometry.ofFormat h).room
  have htotal : (totalSize.toNat : ℤ) / blockSize.toNat =
    ((totalSize.toNat / blockSize.toNat : ℕ) : ℤ) := (Int.natCast_div _ _).symm
  constructor
  · rw [hlay.totalBlocks]
    exact htotal.symm
  · rw [hlay.maxInodes]
    change ((blockSize.toNat / 144 * (formatInodeBlocks totalSize blockSize).toNat : ℕ) : ℤ) =
      blockSize.toNat / 144 * _
    rw [hinode]
    norm_cast
  · rw [hlay.bitmapStart]
    rfl
  · exact hbitmap.symm
  · rw [hlay.inodeStart]
    change ((1 + (formatBitmapBlocks totalSize blockSize).toNat : ℕ) : ℤ) = 1 + _
    rw [hbitmap]
    omega
  · exact hinode.symm
  · rw [hlay.dataStart]
    change ((1 + (formatBitmapBlocks totalSize blockSize).toNat +
      (formatInodeBlocks totalSize blockSize).toNat : ℕ) : ℤ) = 1 + _ + _
    rw [hbitmap, hinode]
    omega
  · rw [hlay.dataBlocks]
    have hadd := (Geometry.ofFormat h).dataBlocks_add
    change _ + (1 + (formatBitmapBlocks totalSize blockSize).toNat +
      (formatInodeBlocks totalSize blockSize).toNat) = totalSize.toNat / blockSize.toNat at hadd
    change _ = (totalSize.toNat : ℤ) / blockSize.toNat - (1 + Simulator.bitmapBlocks _ _ +
      Simulator.inodeBlocks _ _)
    rw [hbitmap, hinode, htotal]
    omega

theorem SameRegions.setFree {sb : Core.Superblock} {page : Simulator.Superblock}
    (h : SameRegions sb page) (n : UInt32) : SameRegions { sb with freeBlocks := n } page :=
  { h with }

/-! ## Both sides -/

/-- Where all system calls succeed, `fs_format` returns for these block sizes. -/
theorem fsFormat_returns (totalSize : UInt32) (hlt : blockSize.toNat < 2 ^ 29) (now : UInt64)
    (hf : s.faults = noFaults) :
    ∃ r s', Core.fsFormat now totalSize blockSize s = some (r, s') := by
  by_cases hsmall : blockSize < inodeSize
  · rw [Core.fsFormat, if_pos hsmall]
    exact ⟨_, _, rfl⟩
  · have hb := UInt32.not_lt.mp hsmall
    have hne := bits_ne_zero hb hlt
    by_cases hroom : 1 + formatBitmapBlocks totalSize blockSize +
        formatInodeBlocks totalSize blockSize < totalSize / blockSize
    · obtain ⟨s', hrun, -⟩ := fsFormat_formatted ⟨hb, hne, hroom⟩ now hf
      exact ⟨0, s', hrun⟩
    · obtain ⟨s', hrun⟩ := fsFormat_tooSmall hf hb hne (UInt32.not_lt.mp hroom)
      exact ⟨-1, s', hrun⟩

/-- For blocks below 2^29 bytes `fsFormat` of the page succeeds exactly if `fs_format` returns 0,
provided the disk file can be opened, and then both cut the disk into the same regions. Where all
system calls succeed, `fs_format` does return, and the process that mounts the disk has the same
superblock as the page, the free blocks and inodes included. -/
theorem formats_alike (totalSize blockSize : UInt32) (hlt : blockSize.toNat < 2 ^ 29)
    (ts : JsString) (fs : FS) (now : UInt64) (s : World) :
    (∀ s1 r s', diskInit totalSize blockSize true s = some (0, s1) →
      Core.fsFormat now totalSize blockSize s = some (r, s') →
        (r = 0 ↔ (Simulator.fsFormat ts totalSize.toNat blockSize.toNat fs).1.ok = true) ∧
        (r = 0 → SameRegions s'.sb
          (Simulator.fsFormat ts totalSize.toNat blockSize.toNat fs).2.superblock)) ∧
    (s.faults = noFaults → ∃ r s', Core.fsFormat now totalSize blockSize s = some (r, s') ∧
      (r = 0 ↔ (Simulator.fsFormat ts totalSize.toNat blockSize.toNat fs).1.ok = true) ∧
      (r = 0 → ∃ w, fsMount s' = some (0, w) ∧
        SameRegions w.sb (Simulator.fsFormat ts totalSize.toNat blockSize.toNat fs).2.superblock ∧
        w.sb.freeBlocks.toNat =
          (Simulator.fsFormat ts totalSize.toNat blockSize.toNat fs).2.superblock.freeBlocks ∧
        w.sb.freeInodes.toNat =
          (Simulator.fsFormat ts totalSize.toNat blockSize.toNat fs).2.superblock.freeInodes)) := by
  have hboth {s1 s' : World} {r : Int} (hopen : diskInit totalSize blockSize true s = some (0, s1))
      (hrun : Core.fsFormat now totalSize blockSize s = some (r, s')) :
      r = 0 ↔ (Simulator.fsFormat ts totalSize.toNat blockSize.toNat fs).1.ok = true := by
    rw [fsFormat_ok_iff, ← formattable_iff hlt]
    exact (fsFormat_answer hopen hrun).1
  constructor
  · intro s1 r s' hopen hrun
    obtain ⟨hanswer, hsb⟩ := fsFormat_answer hopen hrun
    refine ⟨hboth hopen hrun, fun hr => ?_⟩
    have h := hanswer.mp hr
    obtain ⟨msg, hpage⟩ := fsFormat_accepts ((formattable_iff hlt).mp h) ts fs
    obtain ⟨n, hn⟩ := hsb hr
    rw [hn, hpage]
    exact (sameRegions_formatSb h).setFree n
  · intro hf
    obtain ⟨r, s', hrun⟩ := fsFormat_returns totalSize hlt now hf
    refine ⟨r, s', hrun, hboth (diskInit_format hf _ _) hrun, ?_⟩
    rintro rfl
    obtain ⟨h, w, hmount, hrep, hv⟩ := mount_initial hf hrun
    have hsim := (formattable_iff hlt).mp h
    obtain ⟨msg, hpage⟩ := fsFormat_accepts hsim ts fs
    have hm := matches_initial h now s'.out ts hsim
    have hsb : w.sb = formatSb now totalSize blockSize := hrep.sb
    rw [hpage]
    refine ⟨w, hmount, ?_⟩
    rw [hsb]
    exact ⟨sameRegions_formatSb h, hm.freeBlocks.symm, hm.freeInodes.symm⟩

/-- A disk of four blocks. -/
theorem formats_alike_four : ∃ w1 w, Core.fsFormat 0 576 144 (.start none 0 0) = some (0, w1) ∧
    (Simulator.fsFormat [] 576 144 FS.start).1.ok = true ∧ fsMount w1 = some (0, w) ∧
    SameRegions w.sb (Simulator.fsFormat [] 576 144 FS.start).2.superblock ∧
    w.sb.freeBlocks.toNat = (Simulator.fsFormat [] 576 144 FS.start).2.superblock.freeBlocks ∧
    w.sb.freeInodes.toNat = (Simulator.fsFormat [] 576 144 FS.start).2.superblock.freeInodes := by
  obtain ⟨w1, hfmt⟩ := fsFormat_four
  obtain ⟨-, hall⟩ := formats_alike 576 144 (by decide) [] FS.start 0 (.start none 0 0)
  obtain ⟨r, s', hrun, hok, hmounts⟩ := hall rfl
  obtain ⟨rfl, rfl⟩ := run_unique hfmt hrun
  obtain ⟨w, hw⟩ := hmounts rfl
  exact ⟨w1, w, hfmt, hok.mp rfl, hw⟩

end MiniFs.Properties
