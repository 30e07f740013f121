import MiniFs.Image.Edit
import MiniFs.Image.Operations
import MiniFs.Image.Loading

/-! # Mounting

A mount reads the superblock and the bitmap back from the disk file.
-/

set_option autoImplicit false

namespace MiniFs.Image
open MiniFs.Core Library Library.Exec Library.ByteRange Library.Chunks Library.Ownership

variable {g : Geometry} {s : World} {disk : List UInt8}

theorem Ready.opened (hg : g.Describes s.sb) (h : Ready g s disk) : Opened (some disk) s.sb s where
  fd := h.fd
  size := UInt32.toNat_inj.mp (h.size.trans hg.blockSize.symm)
  sb := rfl
  file := h.file
  faults := h.faults

theorem bitmapInit_ready (hg : g.Describes s.sb) (h : Ready g s disk) :
    bitmapInit s = some (0, { s with
      bitmap := .live (slice (g.blockPos 1) (g.bitmapBlocks * g.blockSize) disk) }) := by
  have hroom := g.room
  have hblock (i : ℕ) (hi : i < g.bitmapBlocks) :
      bitmapBlock (some disk) s.sb i = slice (i * g.blockSize) g.blockSize
        (disk.drop (g.blockPos 1)) := by
    have hpos : g.blockPos (1 + i) = g.blockPos 1 + i * g.blockSize := by
      unfold Geometry.blockPos; ring
    rw [bitmapBlock, imageBlock, hg.toNat_bitmapBlock hi, hg.blockSize, Option.getD_some]
    change slice (g.blockPos (1 + i)) g.blockSize disk = _
    rw [hpos, slice, slice, List.drop_drop]
  have hfull (i : ℕ) (hi : i < s.sb.bitmapBlocks.toNat) :
      (bitmapBlock (some disk) s.sb i).length = s.sb.blockSize.toNat := by
    rw [hg.bitmapBlocks] at hi
    rw [bitmapBlock, imageBlock, hg.toNat_bitmapBlock hi, hg.blockSize]
    exact h.length_blockAt (by omega)
  have hfit : s.sb.bitmapBlocks.toNat * s.sb.blockSize.toNat < 2 ^ 32 := by
    rw [hg.bitmapBlocks, hg.blockSize]
    exact bitmap_bytes_lt
  have hall : (List.range s.sb.bitmapBlocks.toNat).flatMap (bitmapBlock (some disk) s.sb) =
      slice (g.blockPos 1) (g.bitmapBlocks * g.blockSize) disk := by
    have hcongr := List.flatMap_congr
      fun i (hi : i ∈ List.range g.bitmapBlocks) => hblock i (List.mem_range.mp hi)
    rw [hg.bitmapBlocks, hcongr, flatMap_slice, slice, slice, List.drop_zero]
  rw [bitmapInit_complete (h.opened hg) hfit hfull, hall]

theorem diskInit_open (hf : s.faults = noFaults) (hfile : s.file = some disk)
    (totalSize blockSize : UInt32) :
    diskInit totalSize blockSize false s =
      some (0, { s with fd := .opened, diskBlockSize := blockSize }) := by
  simp only [diskInit, bind_apply, nextFault_none hf, Option.bind_some, ask_apply, hfile,
    Option.isSome_none, Bool.false_or, Bool.not_false, Bool.true_and, Option.isNone_some,
    Bool.false_eq_true, if_false, update_apply, pure_apply]

theorem readSuperblock_ready (hf : s.faults = noFaults) (hfile : s.file = some disk) {sb : Superblock}
    (hsaved : slice 0 superblockSize disk = superblockCodec.encode sb) :
    readSuperblock s = some ((), { s with sb := sb }) := by
  have hlen := superblockCodec.length_encode sb
  have hlen' := superblockCodec.length_encode s.sb
  have hover : splice 0 (superblockCodec.encode sb) (superblockCodec.encode s.sb) =
      superblockCodec.encode sb := by
    rw [splice, List.take_zero, List.nil_append, Nat.zero_add,
      List.drop_eq_nil_of_le (hlen'.trans hlen.symm).le, List.append_nil]
  simp only [readSuperblock, bind_apply, nextFault_none hf, Option.bind_some, ask_apply, hfile,
    Option.getD_some, setSb, update_apply, hsaved, hover, superblockCodec.decode_encode]

/-- Mounting a disk file that starts with a superblock of the geometry. -/
theorem fsMount_ready (hf : s.faults = noFaults) (hfile : s.file = some disk) {sb : Superblock}
    (hsaved : slice 0 superblockSize disk = superblockCodec.encode sb) (hg : g.Describes sb)
    (hlen : g.blockPos g.totalBlocks ≤ disk.length) :
    fsMount s = some (0, { s with
      fd := .opened
      diskBlockSize := sb.blockSize
      sb := sb
      bitmap := .live (slice (g.blockPos 1) (g.bitmapBlocks * g.blockSize) disk) }) := by
  have hopen := diskInit_open hf hfile 0 0
  have hread := readSuperblock_ready (s := { s with fd := .opened, diskBlockSize := 0 }) hf hfile
    hsaved
  have hreopen := diskInit_open
    (s := { s with fd := .opened, diskBlockSize := 0, sb := sb }) hf hfile
    (sb.totalBlocks * sb.blockSize) sb.blockSize
  have hready : Ready g { s with fd := .opened, diskBlockSize := sb.blockSize, sb := sb } disk :=
    ⟨rfl, hg.blockSize, hfile, hlen, hf⟩
  have hinit := bitmapInit_ready hg hready
  have hnext := nextFault_none (s := { s with fd := .opened, diskBlockSize := 0 }) hf
  have hmagic : ¬ sb.magic ≠ fsMagic := not_not.mpr hg.magic
  simp only [fsMount, bind_apply, hopen, Option.bind_some]
  rw [if_neg (by decide)]
  simp only [bind_apply, hnext, Option.bind_some, hread, getSb, ask_apply]
  rw [if_neg hmagic]
  simp only [bind_apply, hreopen, Option.bind_some, hinit, pure_apply]

/-- Mounting a disk file that holds a volume with its superblock saved. -/
theorem fsMount_represents (hf : s.faults = noFaults) (hfile : s.file = some disk) {bytes : List UInt8}
    {vol : Volume} (hh : Holds g disk bytes vol) (hg : g.Describes vol.sb)
    (hsaved : vol.saved = vol.sb) {stamped : Bool}
    (htail : stamped = true → tailOf g disk = overrun g s) :
    ∃ s', fsMount s = some (0, s') ∧ Represents g s' ⟨vol, s.out, noFaults, stamped⟩ := by
  have hmount := fsMount_ready hf hfile (hsaved ▸ hh.saved) hg hh.length
  refine ⟨_, hmount, ?_⟩
  exact {
    fd := rfl
    size := hg.blockSize
    sb := rfl
    layout := hg
    out := rfl
    faults := hf
    memory := ⟨disk, bytes, hfile, congrArg Pointer.live hh.bitmap, hh, htail⟩ }

end MiniFs.Image
