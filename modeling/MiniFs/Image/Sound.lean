import MiniFs.Image.Primitives
import MiniFs.Library.Chunks
import MiniFs.Library.Ownership

/-! # Sound volumes

The invariant of a mounted volume: live inodes sit in the slot of their number,
own exclusive data blocks, and the counters count.
-/

set_option autoImplicit false

namespace MiniFs.Image
open MiniFs.Core Library Library.Exec Library.ByteRange Library.Chunks Library.Ownership

section
variable (g : Geometry) (vol : Volume)

def blocksOf (x : Inode) : List ℕ :=
  (x.directBlocks.toList.take (pieces x.size.toNat g.blockSize)).map UInt32.toNat

def Volume.content (x : Inode) : List UInt8 :=
  ((blocksOf g x).flatMap vol.data).take x.size.toNat

def ownedBy (x : Inode) : List ℕ := if x.isUsed = 1 then blocksOf g x else []

def Volume.own (i : ℕ) : List ℕ := (vol.inodes[i]?.map (ownedBy g)).getD []

def matchesName (name : List UInt8) (x : Inode) : Bool := x.isUsed = 1 ∧ x.shownName = name

def Volume.lookup (name : List UInt8) : Option Inode := vol.inodes.find? (matchesName name)

end

structure LiveAt (g : Geometry) (i : ℕ) (x : Inode) : Prop where
  id : x.id.toNat = i
  size : x.size.toNat ≤ 16 * g.blockSize
  name_end : x.name[31] = 0

structure Sound (g : Geometry) (vol : Volume) : Prop where
  layout : g.Describes vol.sb
  saved : vol.saved = vol.sb
  inodes_length : vol.inodes.length = g.maxInodes
  flags : ∀ x ∈ vol.inodes, x.isUsed = 0 ∨ x.isUsed = 1
  live : ∀ i x, vol.inodes[i]? = some x → x.isUsed = 1 → LiveAt g i x
  exclusive : Exclusive (Finset.range g.dataStart) vol.used (vol.own g)
  used_lt : ∀ b ∈ vol.used, b < g.totalBlocks
  free_blocks : vol.sb.freeBlocks.toNat + vol.used.card = g.totalBlocks
  free_inodes : vol.sb.freeInodes.toNat = vol.inodes.countP (·.isUsed = 0)
  data_length : ∀ b, g.dataStart ≤ b → b < g.totalBlocks → (vol.data b).length = g.blockSize

variable {g : Geometry} {vol : Volume}

theorem LiveAt.pieces_le {i : ℕ} {x : Inode} (h : LiveAt g i x) :
    pieces x.size.toNat g.blockSize ≤ 16 :=
  (pieces_le_iff g.blockSize_pos).mpr h.size

theorem LiveAt.length_blocksOf {i : ℕ} {x : Inode} (h : LiveAt g i x) :
    (blocksOf g x).length = pieces x.size.toNat g.blockSize := by
  have hle := h.pieces_le
  simp only [blocksOf, List.length_map, List.length_take, Vector.length_toList]
  omega

theorem LiveAt.terminated {i : ℕ} {x : Inode} (h : LiveAt g i x) : x.Terminated := by
  have hlt : 31 < x.name.toList.length := by rw [Vector.length_toList]; decide
  have hmem := List.getElem_mem hlt
  rwa [Vector.getElem_toList, h.name_end] at hmem

theorem Volume.own_eq {i : ℕ} {x : Inode} (hi : vol.inodes[i]? = some x) :
    vol.own g i = ownedBy g x := by
  rw [Volume.own, hi, Option.map_some, Option.getD_some]

theorem own_live {i : ℕ} {x : Inode} (hi : vol.inodes[i]? = some x) (hx : x.isUsed = 1) :
    vol.own g i = blocksOf g x := by
  rw [Volume.own_eq hi, ownedBy, if_pos hx]

/-- A look-up finds a live inode in some slot, the first with the name. -/
theorem lookup_eq_some {name : List UInt8} {x : Inode} (h : vol.lookup name = some x) :
    x.isUsed = 1 ∧ x.shownName = name ∧ ∃ i, vol.inodes[i]? = some x ∧
      ∀ (j : ℕ) (y : Inode), j < i → vol.inodes[j]? = some y → matchesName name y = false := by
  obtain ⟨hp, i, hi, hx, hbefore⟩ := List.find?_eq_some_iff_getElem.mp h
  rw [matchesName, decide_eq_true_eq] at hp
  refine ⟨hp.1, hp.2, i, by rw [List.getElem?_eq_getElem hi, hx], fun j y hj hy => ?_⟩
  obtain ⟨hlt, rfl⟩ := List.getElem?_eq_some_iff.mp hy
  simpa using hbefore j hj

namespace Sound
variable {i : ℕ} {x : Inode}

theorem isUsed_cases (h : Sound g vol) (hi : vol.inodes[i]? = some x) :
    x.isUsed = 0 ∨ x.isUsed = 1 :=
  h.flags x (List.mem_of_getElem? hi)

theorem slot_lt (h : Sound g vol) (hi : vol.inodes[i]? = some x) : i < g.maxInodes := by
  rw [← h.inodes_length]
  exact (List.getElem?_eq_some_iff.mp hi).1

theorem block_bounds (h : Sound g vol) {b : ℕ} (hb : b ∈ vol.own g i) :
    g.dataStart ≤ b ∧ b < g.totalBlocks := by
  have hfree := h.exclusive.own_free i b hb
  rw [Finset.mem_range] at hfree
  exact ⟨by omega, h.used_lt b (h.exclusive.own_used i b hb)⟩

theorem card_used_le (h : Sound g vol) : vol.used.card ≤ g.totalBlocks := by
  have := h.free_blocks
  omega

theorem own_length_le (h : Sound g vol) (i : ℕ) :
    (vol.own g i).length + g.dataStart ≤ g.totalBlocks := by
  have hcard := h.exclusive.card_used {i}
  have hle := h.card_used_le
  rw [Finset.sum_singleton, Finset.card_range] at hcard
  omega

/-- Sizes stay clear of the end of 32 bits by three blocks. -/
theorem size_fits (h : Sound g vol) (hi : vol.inodes[i]? = some x) (hx : x.isUsed = 1) :
    x.size.toNat + 3 * g.blockSize < 2 ^ 32 := by
  have hlive := h.live i x hi hx
  have hlen := h.own_length_le i
  rw [own_live hi hx, hlive.length_blocksOf] at hlen
  have hsize := le_pieces_mul (n := x.size.toNat) g.blockSize_pos
  have hstart : 3 ≤ g.dataStart := by
    have h1 := g.inodeBlocks_pos
    have h2 := g.bitmapBlocks_pos
    unfold Geometry.dataStart Geometry.inodeStart
    omega
  have hmul : (pieces x.size.toNat g.blockSize + 3) * g.blockSize ≤ g.totalBlocks * g.blockSize :=
    Nat.mul_le_mul_right _ (by omega)
  have hlt := g.bytes_lt
  rw [Nat.add_mul] at hmul
  omega

end Sound

end MiniFs.Image
