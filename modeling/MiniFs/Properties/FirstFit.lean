import MiniFs.Properties.Slots
import Mathlib.Order.Bounds.Basic

/-! # The bitmap as a set

On every layout `fs_format` accepts, whatever bytes the bitmap in memory has and
whatever the disk holds, allocating takes the least block number not in use and freeing
gives back the one it is asked for. Both leave the blocks of the bitmap on disk equal to
the bytes in memory; an allocation that finds nothing leaves everything as it is.
-/

set_option autoImplicit false

namespace MiniFs.Properties
open MiniFs.Core MiniFs.Image Library Library.Exec Library.ByteRange Library.BitArray

/-- The numbers below `total_blocks` whose bit is set. -/
def usedSet (sb : Superblock) (bytes : List UInt8) : Finset ℕ :=
  (Finset.range sb.totalBlocks.toNat).filter fun b => bitAt bytes b = true

/-- What `bitmap_init` allocated: a byte for each byte of the bitmap's blocks. -/
structure InMemory (w : World) (bytes : List UInt8) : Prop where
  live : w.bitmap = .live bytes
  length : bytes.length = w.sb.bitmapBlocks.toNat * w.sb.blockSize.toNat

/-- The blocks of the bitmap on disk are equal to the bytes in memory. -/
def Synced (w : World) (bytes : List UInt8) : Prop :=
  ∃ disk, w.file = some disk ∧
    slice (w.sb.bitmapStart.toNat * w.sb.blockSize.toNat)
      (w.sb.bitmapBlocks.toNat * w.sb.blockSize.toNat) disk = bytes

variable {g : Geometry} {w : World} {disk bytes : List UInt8}

theorem mem_usedSet {sb : Superblock} {b : ℕ} :
    b ∈ usedSet sb bytes ↔ b < sb.totalBlocks.toNat ∧ bitAt bytes b = true := by
  rw [usedSet, Finset.mem_filter, Finset.mem_range]

theorem usedSet_setBit (sb : Superblock) {b : ℕ} (hb : b < sb.totalBlocks.toNat)
    (hlt : b / 8 < bytes.length) :
    usedSet sb (setBit bytes b) = insert b (usedSet sb bytes) := by
  ext c
  rw [Finset.mem_insert, mem_usedSet, mem_usedSet, bitAt_setBit hlt, Bool.or_eq_true,
    decide_eq_true_eq]
  constructor
  · rintro ⟨hc, h | rfl⟩
    · exact .inr ⟨hc, h⟩
    · exact .inl rfl
  · rintro (rfl | ⟨hc, h⟩)
    · exact ⟨hb, .inr rfl⟩
    · exact ⟨hc, .inl h⟩

theorem usedSet_clearBit (sb : Superblock) {b : ℕ} (hlt : b / 8 < bytes.length) :
    usedSet sb (clearBit bytes b) = (usedSet sb bytes).erase b := by
  ext c
  rw [Finset.mem_erase, mem_usedSet, mem_usedSet, bitAt_clearBit hlt, Bool.and_eq_true,
    Bool.not_eq_true', decide_eq_false_iff_not]
  constructor
  · rintro ⟨hc, h, hne⟩
    exact ⟨Ne.symm hne, hc, h⟩
  · rintro ⟨hne, hc, h⟩
    exact ⟨hc, h, Ne.symm hne⟩

/-! ## The write-back -/

/-- After the bitmap was changed and written back, disk and memory agree. -/
theorem rewriteBitmap_synced (hlay : g.Describes w.sb) (hr : Ready g w disk)
    (hm : InMemory w bytes) {f : List UInt8 → List UInt8} {h : Superblock → Superblock}
    (hlen : (f bytes).length = bytes.length) (hlayout : g.Describes (h w.sb)) :
    InMemory (rewriteBitmap g f h w) (f bytes) ∧ Synced (rewriteBitmap g f h w) (f bytes) := by
  have hb := hm.length
  rw [hlay.bitmapBlocks, hlay.blockSize] at hb
  have hmem : pointerBytes w.bitmap = bytes := by
    rw [hm.live]
    rfl
  have hsb : (rewriteBitmap g f h w).sb = h w.sb := rfl
  refine ⟨⟨?_, ?_⟩, splice (g.blockPos 1) (f bytes) disk, ?_, ?_⟩
  · change Pointer.live (f (pointerBytes w.bitmap)) = _
    rw [hmem]
  · rw [hlen, hb, hsb, hlayout.bitmapBlocks, hlayout.blockSize]
  · change w.file.map (splice (g.blockPos 1) (f (pointerBytes w.bitmap))) = _
    rw [hmem, hr.file, Option.map_some]
  · obtain ⟨-, -, h1, h2, h3⟩ := region_bounds g
    have hdisk := hr.length
    have hself : slice (g.blockPos 1) (f bytes).length (splice (g.blockPos 1) (f bytes) disk) =
        f bytes := slice_splice_self (by omega)
    rw [hlen, hb] at hself
    rw [hsb, hlayout.bitmapStart, hlayout.blockSize, hlayout.bitmapBlocks]
    exact hself

/-! ## Allocating -/

/-- What an allocation does to the set `usedSet w.sb bytes` and to the disk. If it takes a block,
disk and memory agree even where an earlier write-back had failed. -/
def Allocates (w : World) (bytes : List UInt8) : Prop :=
  ∃ r w' bytes', bitmapAllocateBlock w = some (r, w') ∧ InMemory w' bytes' ∧
    (r ≠ none ∨ Synced w bytes → Synced w' bytes') ∧
    (r = none ↔ usedSet w.sb bytes = Finset.range w.sb.totalBlocks.toNat) ∧
    (r = none → w' = w) ∧
    ∀ b, r = some b → IsLeast { k | k ∉ usedSet w.sb bytes } b.toNat ∧ b < w.sb.totalBlocks ∧
      w'.sb = { w.sb with freeBlocks := w.sb.freeBlocks - 1 } ∧
      usedSet w'.sb bytes' = insert b.toNat (usedSet w.sb bytes)

theorem bitmapAllocateBlock_full (hm : InMemory w bytes)
    (hlt : ∀ i < w.sb.totalBlocks.toNat, i / 8 < bytes.length)
    (hfull : ∀ i < w.sb.totalBlocks.toNat, bitAt bytes i = true) :
    bitmapAllocateBlock w = some (none, w) := by
  rw [bitmapAllocateBlock, getSb, bind_apply, ask_apply, Option.bind_some]
  refine search_chain (fun _ => w) fun i _ hi => ?_
  rw [Nat.zero_add] at hi
  exact allocateIfClear_set hm.live (hlt i hi) (hfull i hi)

theorem bitmapAllocateBlock_first (hlay : g.Describes w.sb) (hr : Ready g w disk)
    (hm : w.bitmap = .live bytes) (hlen : bytes.length = g.bitmapBlocks * g.blockSize) {k : ℕ}
    (hk : k < g.totalBlocks) (hclear : bitAt bytes k = false)
    (hfirst : ∀ i < k, bitAt bytes i = true) :
    bitmapAllocateBlock w = some (some (UInt32.ofNat k),
      rewriteBitmap g (setBit · k) (fun sb => { sb with freeBlocks := sb.freeBlocks - 1 }) w) := by
  rw [bitmapAllocateBlock, getSb, bind_apply, ask_apply, Option.bind_some]
  refine search_chain_some (fun _ => w) (Nat.zero_le k) ?_ (fun i _ hi => ?_)
    (allocateIfClear_clear hlay hr hm hlen hk hclear)
  · rw [Nat.zero_add, hlay.totalBlocks]
    exact hk
  · exact allocateIfClear_set hm (bit_lt (hi.trans hk) hlen) (hfirst i hi)

theorem exists_first_clear {n : ℕ} (h : ¬∀ i < n, bitAt bytes i = true) :
    ∃ k < n, bitAt bytes k = false ∧ ∀ i < k, bitAt bytes i = true := by
  have hex : ∃ i, i < n ∧ bitAt bytes i = false := by
    by_contra hno
    exact h fun i hi => Bool.not_eq_false _ ▸ fun hclear => hno ⟨i, hi, hclear⟩
  obtain ⟨hk, hclear⟩ := Nat.find_spec hex
  refine ⟨Nat.find hex, hk, hclear, fun i hi => ?_⟩
  by_contra hne
  exact Nat.find_min hex hi ⟨hi.trans hk, Bool.not_eq_true _ ▸ hne⟩

theorem allocates (hlay : g.Describes w.sb) (hr : Ready g w disk) (hm : InMemory w bytes) :
    Allocates w bytes := by
  have htotal := hlay.totalBlocks
  have hb := hm.length
  rw [hlay.bitmapBlocks, hlay.blockSize] at hb
  have hlt : ∀ i < w.sb.totalBlocks.toNat, i / 8 < bytes.length := fun i hi =>
    bit_lt (htotal ▸ hi) hb
  by_cases hfull : ∀ i < w.sb.totalBlocks.toNat, bitAt bytes i = true
  · refine ⟨none, w, bytes, bitmapAllocateBlock_full hm hlt hfull, hm,
      fun h => h.resolve_left fun hne => hne rfl, iff_of_true rfl ?_, fun _ => rfl,
      fun b hb => nomatch hb⟩
    exact Finset.filter_true_of_mem fun i hi => hfull i (Finset.mem_range.mp hi)
  · obtain ⟨k, hk, hclear, hfirst⟩ := exists_first_clear hfull
    have hrun := bitmapAllocateBlock_first hlay hr hm.live hb (htotal ▸ hk) hclear hfirst
    have hk32 : (UInt32.ofNat k).toNat = k := toNat_block (g := g) (htotal ▸ hk)
    have hnot : k ∉ usedSet w.sb bytes := by
      rw [mem_usedSet, hclear]
      exact fun h => Bool.false_ne_true h.2
    obtain ⟨hmem, hsync⟩ := rewriteBitmap_synced hlay hr hm (f := (setBit · k))
      (h := fun sb => { sb with freeBlocks := sb.freeBlocks - 1 }) (length_setBit _ _)
      (hlay.freeBlocks _)
    refine ⟨_, _, setBit bytes k, hrun, hmem, fun _ => hsync,
      iff_of_false (Option.some_ne_none _) fun h => ?_,
      fun h => absurd h (Option.some_ne_none _), fun b hb' => ?_⟩
    · rw [h, Finset.mem_range] at hnot
      exact hnot hk
    · obtain rfl : UInt32.ofNat k = b := Option.some.inj hb'
      refine ⟨⟨?_, fun i hi => ?_⟩, ?_, rfl, ?_⟩
      · rw [hk32]
        exact hnot
      · rw [hk32]
        by_contra hgt
        exact hi (mem_usedSet.mpr ⟨(not_le.mp hgt).trans hk, hfirst i (not_le.mp hgt)⟩)
      · rw [UInt32.lt_iff_toNat_lt, hk32]
        exact hk
      · rw [hk32]
        exact usedSet_setBit w.sb hk (hlt k hk)

/-! ## Freeing -/

def Frees (w : World) (bytes : List UInt8) (b : UInt32) : Prop :=
  ∃ w' bytes', bitmapFreeBlock b w = some (0, w') ∧ InMemory w' bytes' ∧ Synced w' bytes' ∧
    w'.sb = { w.sb with freeBlocks := w.sb.freeBlocks + 1 } ∧
    usedSet w'.sb bytes' = (usedSet w.sb bytes).erase b.toNat

theorem frees (hlay : g.Describes w.sb) (hr : Ready g w disk) (hm : InMemory w bytes) {b : UInt32}
    (hb : b < w.sb.totalBlocks) : Frees w bytes b := by
  have hlen := hm.length
  rw [hlay.bitmapBlocks, hlay.blockSize] at hlen
  have hbound : b.toNat < g.totalBlocks := by
    rw [← hlay.totalBlocks]
    exact UInt32.lt_iff_toNat_lt.mp hb
  obtain ⟨hmem, hsync⟩ := rewriteBitmap_synced hlay hr hm (f := (clearBit · b.toNat))
    (h := fun sb => { sb with freeBlocks := sb.freeBlocks + 1 }) (length_clearBit _ _)
    (hlay.freeBlocks _)
  exact ⟨_, _, bitmapFreeBlock_ready hlay hr hm.live hlen hbound, hmem, hsync, rfl,
    usedSet_clearBit w.sb (bit_lt hbound hlen)⟩

/-! ## The set -/

variable {totalSize blockSize : UInt32} {now : UInt64} {s0 s1 : World}

/-- Allocating and freeing are first-fit insertion and removal, every byte they look at belongs to
the bitmap, and they write back what they changed. -/
theorem bitmap_first_fit (hfmt : Core.fsFormat now totalSize blockSize s0 = some (0, s1))
    (hw : OnFormatted totalSize blockSize s1.sb w disk) (hm : InMemory w bytes) :
    Allocates w bytes ∧
      (∀ b : UInt32, b.toNat ∈ usedSet w.sb bytes → Frees w bytes b) ∧
      ∀ i < w.sb.totalBlocks.toNat, i / 8 < w.sb.bitmapBlocks.toNat * w.sb.blockSize.toNat := by
  obtain ⟨g, hlay, hready, -⟩ := hw.ready hfmt
  refine ⟨allocates hlay hready hm, fun b hb => ?_, fun i hi => ?_⟩
  · exact frees hlay hready hm (UInt32.lt_iff_toNat_lt.mpr (mem_usedSet.mp hb).1)
  · have hlen := hm.length
    rw [← hlen]
    rw [hlay.bitmapBlocks, hlay.blockSize] at hlen
    exact bit_lt (hlay.totalBlocks ▸ hi) hlen

/-- The layout of eleven blocks, with `bytes` in memory and sevens on the disk. -/
theorem exists_elevenBlocks (bytes : List UInt8) (hlen : bytes.length = 144) : ∃ s1 w,
    Core.fsFormat 0 1600 144 (.start none 0 0) = some (0, s1) ∧
    OnFormatted 1600 144 s1.sb w (List.replicate 1600 7) ∧ InMemory w bytes ∧
    w.sb.totalBlocks = 11 ∧ w.file = some (List.replicate 1600 7) ∧ w.sb.bitmapStart = 1 ∧
    w.sb.bitmapBlocks = 1 ∧ w.sb.blockSize = 144 := by
  have hrun : (Core.fsFormat 0 1600 144 (.start none 0 0)).any fun p => p.1 = 0 ∧
      p.2.sb.totalBlocks = 11 ∧ p.2.sb.bitmapStart = 1 ∧ p.2.sb.bitmapBlocks = 1 ∧
      p.2.sb.blockSize = 144 := by decide +kernel
  obtain ⟨r, s1, hfmt, hr⟩ := exists_of_any hrun
  obtain ⟨rfl, htotal, hstart, hblocks, hsize⟩ : r = 0 ∧ s1.sb.totalBlocks = 11 ∧
    s1.sb.bitmapStart = 1 ∧ s1.sb.bitmapBlocks = 1 ∧ s1.sb.blockSize = 144 := of_decide_eq_true hr
  refine ⟨s1, { s1 with
    fd := .opened
    diskBlockSize := 144
    file := some (List.replicate 1600 7)
    bitmap := .live bytes
    faults := noFaults }, hfmt, ?_, ⟨rfl, ?_⟩, htotal, rfl, hstart, hblocks, hsize⟩
  · exact ⟨rfl, rfl, SameLayout.refl s1.sb, rfl, List.length_replicate, rfl⟩
  · change bytes.length = s1.sb.bitmapBlocks.toNat * s1.sb.blockSize.toNat
    rw [hblocks, hsize]
    exact hlen

/-- A bitmap of 144 bytes for eleven blocks, of which the first ten are in use. -/
theorem bitmap_first_fit_eleven : ∃ s1 w disk bytes,
    Core.fsFormat 0 1600 144 (.start none 0 0) = some (0, s1) ∧
    OnFormatted 1600 144 s1.sb w disk ∧ InMemory w bytes ∧ Allocates w bytes ∧
    (∀ b : UInt32, b.toNat ∈ usedSet w.sb bytes → Frees w bytes b) ∧
    ∀ i < w.sb.totalBlocks.toNat, i / 8 < w.sb.bitmapBlocks.toNat * w.sb.blockSize.toNat := by
  obtain ⟨s1, w, hfmt, hw, hm, -⟩ :=
    exists_elevenBlocks (0xFF :: 0x03 :: List.replicate 142 0) rfl
  exact ⟨s1, w, _, _, hfmt, hw, hm, bitmap_first_fit hfmt hw hm⟩

/-- With all blocks in use in memory and other bytes on the disk, an allocation fails and leaves
the two different. -/
theorem full_bitmap_unsynced : ∃ s1 w disk bytes w',
    Core.fsFormat 0 1600 144 (.start none 0 0) = some (0, s1) ∧
    OnFormatted 1600 144 s1.sb w disk ∧ InMemory w bytes ∧
    bitmapAllocateBlock w = some (none, w') ∧ InMemory w' bytes ∧ ¬Synced w' bytes := by
  obtain ⟨s1, w, hfmt, hw, hm, htotal, hfile, hstart, hblocks, hsize⟩ :=
    exists_elevenBlocks (List.replicate 144 0xFF) rfl
  have heleven : w.sb.totalBlocks.toNat = 11 := congrArg UInt32.toNat htotal
  have hfull : ∀ i < 11, i / 8 < 144 ∧ bitAt (List.replicate 144 0xFF) i = true := by decide
  have hrun := bitmapAllocateBlock_full hm
    (fun i hi => (hfull i (heleven ▸ hi)).1) (fun i hi => (hfull i (heleven ▸ hi)).2)
  refine ⟨s1, w, _, _, w, hfmt, hw, hm, hrun, hm, ?_⟩
  rintro ⟨disk, hdisk, hslice⟩
  obtain rfl := Option.some.inj (hfile.symm.trans hdisk)
  rw [hstart, hblocks, hsize] at hslice
  exact absurd hslice (by decide +kernel)

end MiniFs.Properties
