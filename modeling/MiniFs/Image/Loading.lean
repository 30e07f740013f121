import MiniFs.Image.Transfers

/-! # Loading the bitmap of any image

What `bitmap_init` makes of an opened disk file, complete or cut off: it loads the
bitmap blocks if all of them can be read and gives the memory back if not.
-/

set_option autoImplicit false

namespace MiniFs.Image
open MiniFs.Core Library Library.Exec Library.ByteRange

/-- A process that has opened a disk file with the superblock `sb`. -/
structure Opened (file : Option (List UInt8)) (sb : Superblock) (s : World) : Prop where
  fd : s.fd = .opened
  size : s.diskBlockSize = sb.blockSize
  sb : s.sb = sb
  file : s.file = file
  faults : s.faults = noFaults

variable {file : Option (List UInt8)} {sb : Superblock} {s : World}

/-- Block `b` of an image, complete or cut off by the end of the file. -/
def imageBlock (file : Option (List UInt8)) (sb : Superblock) (b : UInt32) : List UInt8 :=
  slice (b.toNat * sb.blockSize.toNat) sb.blockSize.toNat (file.getD [])

def sayMore (s : World) (msgs : List Message) : World := { s with out := s.out ++ msgs }

theorem Opened.sayMore (h : Opened file sb s) (msgs : List Message) :
    Opened file sb (sayMore s msgs) :=
  { h with }

/-- `disk_read` on an opened image succeeds for the blocks that are complete. -/
theorem diskRead_opened (h : Opened file sb s) {b : UInt32} {buf : List UInt8}
    (hbuf : sb.blockSize.toNat ≤ buf.length) :
    diskRead b buf s = if (imageBlock file sb b).length = sb.blockSize.toNat
      then some ((0, splice 0 (imageBlock file sb b) buf), s)
      else some ((-1, splice 0 (imageBlock file sb b) buf), Image.sayMore s [.diskReadEof b]) := by
  have hle : (imageBlock file sb b).length ≤ sb.blockSize.toNat := by
    rw [imageBlock, slice, List.length_take]
    exact Nat.min_le_left _ _
  have hfit := require_pos (σ := World) (hle.trans hbuf)
  unfold imageBlock at *
  simp only [diskRead, bind_apply, ask_apply, Option.bind_some, h.fd, h.size, h.file,
    nextFault_none h.faults, hfit, pure_apply]
  split_ifs with hfull
  · rfl
  · rfl

/-! ## The loop of `bitmap_init` -/

/-- Block `i` of the bitmap, under the 32-bit number `bitmap_init` reads it. -/
def bitmapBlock (file : Option (List UInt8)) (sb : Superblock) (i : ℕ) : List UInt8 :=
  imageBlock file sb (sb.bitmapStart + UInt32.ofNat i)

theorem toNat_bitmapOffset {i n : ℕ} (hi : i < 2 ^ 32) (h : i * sb.blockSize.toNat ≤ n)
    (hn : n < 2 ^ 32) : (UInt32.ofNat i * sb.blockSize).toNat = i * sb.blockSize.toNat := by
  rw [UInt32.toNat_mul, toNat_word (by omega),
    Nat.mod_eq_of_lt (by omega)]

section
variable {bytes : List UInt8} {i : ℕ}

theorem loadBitmapBlock_eq (hlive : s.bitmap = .live bytes) (hi : i < 2 ^ 32)
    (hroom : i * sb.blockSize.toNat + sb.blockSize.toNat ≤ bytes.length)
    (hlt : bytes.length < 2 ^ 32) : loadBitmapBlock sb i s =
      (diskRead (sb.bitmapStart + UInt32.ofNat i) (bytes.drop (i * sb.blockSize.toNat)) s).map
        fun p => (if p.1.1 < 0 then some () else none,
          { p.2 with bitmap := .live (bytes.take (i * sb.blockSize.toNat) ++ p.1.2) }) := by
  have hoff := toNat_bitmapOffset hi (show i * sb.blockSize.toNat ≤ bytes.length by omega) hlt
  have hoffset : bitmapOffset sb bytes i s = some (i * sb.blockSize.toNat, s) := by
    rw [bitmapOffset]
    simp only [hoff]
    rw [require_pos (by omega)]
    rfl
  have hbytes : bitmapBytes s = some (bytes, s) := by
    simp only [bitmapBytes, bind_apply, ask_apply, Option.bind_some, hlive, pure_apply]
  rw [loadBitmapBlock, bind_apply, hbytes, Option.bind_some, bind_apply, hoffset,
    Option.bind_some, bind_apply, Option.map_eq_bind]
  rfl

theorem diskRead_bitmapBlock (h : Opened file sb s)
    (hroom : i * sb.blockSize.toNat + sb.blockSize.toNat ≤ bytes.length) :
    diskRead (sb.bitmapStart + UInt32.ofNat i) (bytes.drop (i * sb.blockSize.toNat)) s =
      if (bitmapBlock file sb i).length = sb.blockSize.toNat
      then some ((0, splice 0 (bitmapBlock file sb i) (bytes.drop (i * sb.blockSize.toNat))), s)
      else some ((-1, splice 0 (bitmapBlock file sb i) (bytes.drop (i * sb.blockSize.toNat))),
        sayMore s [.diskReadEof (sb.bitmapStart + UInt32.ofNat i)]) := by
  refine diskRead_opened h ?_
  rw [List.length_drop]
  omega

theorem loadBitmapBlock_complete (h : Opened file sb s) (hlive : s.bitmap = .live bytes)
    (hi : i < 2 ^ 32) (hroom : i * sb.blockSize.toNat + sb.blockSize.toNat ≤ bytes.length)
    (hlt : bytes.length < 2 ^ 32) (hfull : (bitmapBlock file sb i).length = sb.blockSize.toNat) :
    loadBitmapBlock sb i s = some (none, { s with
      bitmap := .live (bytes.take (i * sb.blockSize.toNat) ++
        splice 0 (bitmapBlock file sb i) (bytes.drop (i * sb.blockSize.toNat))) }) := by
  rw [loadBitmapBlock_eq hlive hi hroom hlt, diskRead_bitmapBlock h hroom, if_pos hfull]
  rfl

theorem loadBitmapBlock_cut (h : Opened file sb s) (hlive : s.bitmap = .live bytes)
    (hi : i < 2 ^ 32) (hroom : i * sb.blockSize.toNat + sb.blockSize.toNat ≤ bytes.length)
    (hlt : bytes.length < 2 ^ 32) (hcut : (bitmapBlock file sb i).length ≠ sb.blockSize.toNat) :
    ∃ s', loadBitmapBlock sb i s = some (some (), s') := by
  rw [loadBitmapBlock_eq hlive hi hroom hlt, diskRead_bitmapBlock h hroom, if_neg hcut]
  exact ⟨_, rfl⟩

end

/-- The memory of the bitmap once `i` blocks are loaded. -/
def loadedBytes (file : Option (List UInt8)) (sb : Superblock) (memory : List UInt8) (i : ℕ) :
    List UInt8 :=
  (List.range i).flatMap (bitmapBlock file sb) ++ memory.drop (i * sb.blockSize.toNat)

theorem loadedBytes_succ {memory : List UInt8} {i : ℕ}
    (hfull : ∀ j ≤ i, (bitmapBlock file sb j).length = sb.blockSize.toNat) :
    (loadedBytes file sb memory i).take (i * sb.blockSize.toNat) ++
        splice 0 (bitmapBlock file sb i)
          ((loadedBytes file sb memory i).drop (i * sb.blockSize.toNat)) =
      loadedBytes file sb memory (i + 1) := by
  have hlen : ((List.range i).flatMap (bitmapBlock file sb)).length = i * sb.blockSize.toNat := by
    rw [length_flatMap_const fun j hj => hfull j (List.mem_range.mp hj).le, List.length_range]
  have hsucc : (i + 1) * sb.blockSize.toNat = i * sb.blockSize.toNat + sb.blockSize.toNat := by ring
  rw [loadedBytes, List.take_left' hlen, List.drop_left' hlen, splice, List.take_zero,
    List.nil_append, Nat.zero_add, hfull i le_rfl, List.drop_drop, ← hsucc, ← List.append_assoc,
    loadedBytes, List.range_succ, List.flatMap_append, List.flatMap_singleton]

theorem length_loadedBytes {memory : List UInt8} {i : ℕ}
    (hmemory : memory.length = sb.bitmapBlocks.toNat * sb.blockSize.toNat)
    (hi : i ≤ sb.bitmapBlocks.toNat)
    (hfull : ∀ j < i, (bitmapBlock file sb j).length = sb.blockSize.toNat) :
    (loadedBytes file sb memory i).length = sb.bitmapBlocks.toNat * sb.blockSize.toNat := by
  have hmul : i * sb.blockSize.toNat ≤ sb.bitmapBlocks.toNat * sb.blockSize.toNat :=
    Nat.mul_le_mul_right _ hi
  rw [loadedBytes, List.length_append,
    length_flatMap_const fun j hj => hfull j (List.mem_range.mp hj), List.length_range,
    List.length_drop, hmemory]
  omega

/-! ## The whole loop -/

section
variable (h : Opened file sb s) (hfit : sb.bitmapBlocks.toNat * sb.blockSize.toNat < 2 ^ 32)
include h hfit

/-- `bitmap_init` up to its loop. -/
theorem bitmapInit_eq : ∃ memory : List UInt8,
    memory.length = sb.bitmapBlocks.toNat * sb.blockSize.toNat ∧
    bitmapInit s = (search (loadBitmapBlock sb) sb.bitmapBlocks.toNat 0
      { s with bitmap := .live (loadedBytes file sb memory 0) }).map fun p =>
        match p.1 with
        | some () => (-1, { p.2 with bitmap := .freed })
        | none => (0, p.2) := by
  have hsize : (sb.bitmapBlocks * sb.blockSize).toNat =
      sb.bitmapBlocks.toNat * sb.blockSize.toNat := by
    rw [UInt32.toNat_mul, Nat.mod_eq_of_lt hfit]
  refine ⟨(List.range (sb.bitmapBlocks * sb.blockSize).toNat).map s.garbage, ?_, ?_⟩
  · rw [List.length_map, List.length_range, hsize]
  · have hzero (memory : List UInt8) : loadedBytes file sb memory 0 = memory := by
      rw [loadedBytes, List.range_zero, List.flatMap_nil, List.nil_append, Nat.zero_mul,
        List.drop_zero]
    obtain rfl := h.sb
    rw [hzero, bitmapInit, bind_apply, getSb, ask_apply, Option.bind_some]
    simp only [bind_apply, malloc, ask_apply, Option.bind_some, setBitmap, update_apply]
    cases search (loadBitmapBlock s.sb) s.sb.bitmapBlocks.toNat 0 { s with
        bitmap := .live ((List.range (s.sb.bitmapBlocks * s.sb.blockSize).toNat).map s.garbage) } with
    | none => rfl
    | some p =>
      obtain ⟨r, s'⟩ := p
      cases r with
      | none => rfl
      | some u => rfl

/-- One pass along the chain of memories. -/
theorem loadBitmapBlock_next {memory : List UInt8}
    (hmemory : memory.length = sb.bitmapBlocks.toNat * sb.blockSize.toNat) {i : ℕ}
    (hi : i < sb.bitmapBlocks.toNat)
    (hfull : ∀ j ≤ i, (bitmapBlock file sb j).length = sb.blockSize.toNat) :
    loadBitmapBlock sb i { s with bitmap := .live (loadedBytes file sb memory i) } =
      some (none, { s with bitmap := .live (loadedBytes file sb memory (i + 1)) }) := by
  have hlt := sb.bitmapBlocks.toNat_lt
  have hlen := length_loadedBytes hmemory hi.le fun j hj => hfull j hj.le
  have hmul : (i + 1) * sb.blockSize.toNat ≤ sb.bitmapBlocks.toNat * sb.blockSize.toNat :=
    Nat.mul_le_mul_right _ hi
  rw [Nat.succ_mul] at hmul
  have hpass := loadBitmapBlock_complete
    (s := { s with bitmap := .live (loadedBytes file sb memory i) }) { h with } rfl
    (by omega) (by rw [hlen]; exact hmul) (by rw [hlen]; exact hfit) (hfull i le_rfl)
  rw [hpass, loadedBytes_succ hfull]

theorem bitmapInit_complete
    (hfull : ∀ i < sb.bitmapBlocks.toNat, (bitmapBlock file sb i).length = sb.blockSize.toNat) :
    bitmapInit s = some (0, { s with
      bitmap := .live ((List.range sb.bitmapBlocks.toNat).flatMap (bitmapBlock file sb)) }) := by
  obtain ⟨memory, hmemory, hinit⟩ := bitmapInit_eq h hfit
  have hloop : search (loadBitmapBlock sb) sb.bitmapBlocks.toNat 0
      { s with bitmap := .live (loadedBytes file sb memory 0) } = some (none, { s with
        bitmap := .live (loadedBytes file sb memory (0 + sb.bitmapBlocks.toNat)) }) :=
    search_chain (fun i => { s with bitmap := .live (loadedBytes file sb memory i) })
      fun i _ hi => loadBitmapBlock_next h hfit hmemory (by omega) fun j hj => hfull j (by omega)
  have hlast : loadedBytes file sb memory sb.bitmapBlocks.toNat =
      (List.range sb.bitmapBlocks.toNat).flatMap (bitmapBlock file sb) := by
    rw [loadedBytes, List.drop_eq_nil_of_le hmemory.le, List.append_nil]
  rw [Nat.zero_add, hlast] at hloop
  rw [hinit, hloop]
  rfl

theorem bitmapInit_cut (hcut : ∃ i < sb.bitmapBlocks.toNat,
    (bitmapBlock file sb i).length ≠ sb.blockSize.toNat) :
    ∃ s', bitmapInit s = some (-1, s') ∧ s'.bitmap = .freed := by
  obtain ⟨memory, hmemory, hinit⟩ := bitmapInit_eq h hfit
  have hlt := sb.bitmapBlocks.toNat_lt
  -- the loop ends at the first such block
  obtain ⟨hk, hkcut⟩ := Nat.find_spec hcut
  have hbefore (j : ℕ) (hj : j < Nat.find hcut) :
      (bitmapBlock file sb j).length = sb.blockSize.toNat := by
    by_contra hne
    exact Nat.find_min hcut hj ⟨by omega, hne⟩
  have hlen := length_loadedBytes hmemory hk.le hbefore
  have hmul : (Nat.find hcut + 1) * sb.blockSize.toNat ≤
      sb.bitmapBlocks.toNat * sb.blockSize.toNat := Nat.mul_le_mul_right _ hk
  rw [Nat.succ_mul] at hmul
  obtain ⟨s', hat⟩ := loadBitmapBlock_cut 
    (s := { s with bitmap := .live (loadedBytes file sb memory (Nat.find hcut)) }) { h with } rfl
    (by omega) (by rw [hlen]; exact hmul) (by rw [hlen]; exact hfit) hkcut
  have hloop : search (loadBitmapBlock sb) sb.bitmapBlocks.toNat 0
      { s with bitmap := .live (loadedBytes file sb memory 0) } = some (some (), s') :=
    search_chain_some (fun i => { s with bitmap := .live (loadedBytes file sb memory i) })
      (Nat.zero_le _) (by omega)
      (fun i _ hi => loadBitmapBlock_next h hfit hmemory (by omega) fun j hj => hbefore j (by omega))
      hat
  rw [hinit, hloop]
  exact ⟨_, rfl, rfl⟩

end

end MiniFs.Image
