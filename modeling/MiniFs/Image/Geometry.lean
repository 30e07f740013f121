import MiniFs.Core.Types
import Mathlib.Tactic.Linarith

/-! # Where things lie on a formatted disk

A geometry is a set of block counts that leaves room for the superblock, the
bitmap, the inode table and at least one data block, in 32 bits. Everything
else about the layout follows from the counts.
-/

set_option autoImplicit false

namespace MiniFs.Image
open MiniFs.Core

theorem toNat_word {n : ℕ} (h : n < 2 ^ 32) : (UInt32.ofNat n).toNat = n :=
  UInt32.toNat_ofNat_of_lt' h

structure Geometry where
  totalBlocks : ℕ
  blockSize : ℕ
  bitmapBlocks : ℕ
  inodeBlocks : ℕ
  inode_le : 144 ≤ blockSize
  inodeBlocks_pos : 0 < inodeBlocks
  room : 1 + bitmapBlocks + inodeBlocks < totalBlocks
  bits_le : totalBlocks ≤ 8 * (bitmapBlocks * blockSize)
  bytes_lt : totalBlocks * blockSize < 2 ^ 32

namespace Geometry

variable (g : Geometry)

def inodeStart : ℕ := 1 + g.bitmapBlocks
def dataStart : ℕ := g.inodeStart + g.inodeBlocks
def dataBlocks : ℕ := g.totalBlocks - g.dataStart
def inodesPerBlock : ℕ := g.blockSize / 144
def maxInodes : ℕ := g.inodesPerBlock * g.inodeBlocks

def blockPos (b : ℕ) : ℕ := b * g.blockSize

def slotPos (i : ℕ) : ℕ :=
  g.blockPos (g.inodeStart + i / g.inodesPerBlock) + i % g.inodesPerBlock * 144

theorem dataStart_lt : g.dataStart < g.totalBlocks := g.room

theorem one_le_inodeStart : 1 ≤ g.inodeStart := Nat.le_add_right 1 _

theorem inodeStart_le_dataStart : g.inodeStart ≤ g.dataStart := Nat.le_add_right _ _

theorem dataBlocks_add : g.dataBlocks + g.dataStart = g.totalBlocks :=
  Nat.sub_add_cancel g.dataStart_lt.le

theorem blockSize_pos : 0 < g.blockSize := by
  have := g.inode_le
  omega

theorem inodesPerBlock_pos : 0 < g.inodesPerBlock := Nat.div_pos g.inode_le (by decide)

theorem inodesPerBlock_mul_le : g.inodesPerBlock * 144 ≤ g.blockSize := Nat.div_mul_le_self _ _

theorem maxInodes_pos : 0 < g.maxInodes := Nat.mul_pos g.inodesPerBlock_pos g.inodeBlocks_pos

theorem totalBlocks_lt : g.totalBlocks < 2 ^ 32 :=
  lt_of_le_of_lt (Nat.le_mul_of_pos_right _ g.blockSize_pos) g.bytes_lt

theorem bitmapBlocks_pos : 0 < g.bitmapBlocks := by
  have hroom := g.room
  by_contra h
  have h0 : g.bitmapBlocks = 0 := by omega
  have hb := g.bits_le
  simp [h0] at hb
  omega

theorem four_le_totalBlocks : 4 ≤ g.totalBlocks := by
  have h1 := g.room
  have h2 := g.inodeBlocks_pos
  have h3 := g.bitmapBlocks_pos
  omega

theorem blockSize_lt : 4 * g.blockSize < 2 ^ 32 :=
  lt_of_le_of_lt (Nat.mul_le_mul_right _ g.four_le_totalBlocks) g.bytes_lt

theorem blockPos_mono {a b : ℕ} (h : a ≤ b) : g.blockPos a ≤ g.blockPos b :=
  Nat.mul_le_mul_right _ h

theorem blockPos_succ (b : ℕ) : g.blockPos (b + 1) = g.blockPos b + g.blockSize := by
  rw [blockPos, blockPos, Nat.add_mul, Nat.one_mul]

theorem blockPos_add_le {a b : ℕ} (h : a < b) : g.blockPos a + g.blockSize ≤ g.blockPos b := by
  rw [← blockPos_succ]
  exact g.blockPos_mono h

theorem maxInodes_lt : g.maxInodes < 2 ^ 32 := by
  have h1 : g.maxInodes ≤ g.blockSize * g.totalBlocks :=
    Nat.mul_le_mul (Nat.div_le_self _ _)
      (by have := g.room; omega)
  have h2 := g.bytes_lt
  rw [Nat.mul_comm] at h2
  omega

theorem slot_block_lt {i : ℕ} (hi : i < g.maxInodes) :
    g.inodeStart + i / g.inodesPerBlock < g.dataStart := by
  have h : i / g.inodesPerBlock < g.inodeBlocks := Nat.div_lt_of_lt_mul hi
  unfold dataStart
  omega

theorem slot_offset_le (i : ℕ) : i % g.inodesPerBlock * 144 + 144 ≤ g.blockSize := by
  have h1 := Nat.mod_lt i g.inodesPerBlock_pos
  have h2 := g.inodesPerBlock_mul_le
  omega

theorem slotPos_bounds {i : ℕ} (hi : i < g.maxInodes) :
    g.blockPos g.inodeStart ≤ g.slotPos i ∧ g.slotPos i + 144 ≤ g.blockPos g.dataStart := by
  have h1 := g.slot_offset_le i
  have h2 := g.blockPos_add_le (g.slot_block_lt hi)
  have h3 : g.blockPos g.inodeStart ≤ g.blockPos (g.inodeStart + i / g.inodesPerBlock) :=
    g.blockPos_mono (Nat.le_add_right _ _)
  unfold slotPos
  omega

theorem slotPos_disjoint {i j : ℕ} (h : i ≠ j) :
    g.slotPos i + 144 ≤ g.slotPos j ∨ g.slotPos j + 144 ≤ g.slotPos i := by
  have hi := g.slot_offset_le i
  have hj := g.slot_offset_le j
  unfold slotPos
  rcases lt_trichotomy (i / g.inodesPerBlock) (j / g.inodesPerBlock) with hlt | heq | hgt
  · have := g.blockPos_add_le (Nat.add_lt_add_left hlt g.inodeStart)
    omega
  · have hne : i % g.inodesPerBlock ≠ j % g.inodesPerBlock := by
      intro hm
      apply h
      rw [← Nat.div_add_mod i g.inodesPerBlock, ← Nat.div_add_mod j g.inodesPerBlock, heq, hm]
    rw [heq]
    omega
  · have := g.blockPos_add_le (Nat.add_lt_add_left hgt g.inodeStart)
    omega

/-- The superblock carries the layout of the geometry. -/
structure Describes (sb : Superblock) : Prop where
  magic : sb.magic = fsMagic
  totalBlocks : sb.totalBlocks.toNat = g.totalBlocks
  blockSize : sb.blockSize.toNat = g.blockSize
  maxInodes : sb.maxInodes.toNat = g.maxInodes
  bitmapStart : sb.bitmapStart.toNat = 1
  bitmapBlocks : sb.bitmapBlocks.toNat = g.bitmapBlocks
  inodeStart : sb.inodeStart.toNat = g.inodeStart
  inodeBlocks : sb.inodeBlocks.toNat = g.inodeBlocks
  dataStart : sb.dataStart.toNat = g.dataStart
  dataBlocks : sb.dataBlocks.toNat = g.dataBlocks

end Geometry

end MiniFs.Image
