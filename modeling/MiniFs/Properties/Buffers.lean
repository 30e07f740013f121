import MiniFs.Library.Calls
import MiniFs.Image.Opened

/-! # The buffers of block transfers

A transfer moves a whole block, whatever it is given. Buffers for inodes, the bitmap,
zeros and data have the length of a block or more. The superblock is sent from a
global struct of 88 bytes, and no block that `fs_format` accepts is that short.
-/

set_option autoImplicit false

namespace MiniFs.Properties
open MiniFs.Core MiniFs.Image Library Library.Exec Library.ByteRange

def formatAndRun (now : UInt64) (totalSize blockSize : UInt32) (calls : List FileCall) :
    M (Int × Int × List Int) := do
  let formatted ← fsFormat now totalSize blockSize
  let results ← session calls
  pure (formatted, results)

/-- A read of block `b` gets the whole block. -/
structure Arrives (w : World) (b : UInt32) : Prop where
  fd : w.fd = .opened
  fault : w.faults 0 = none
  inside : (b.toNat + 1) * w.diskBlockSize.toNat ≤ (w.file.getD []).length

/-- Every transfer a run makes is given as many bytes as a block has. `disk_write(0, &sb)` is given
the struct. -/
structure FullBuffers {α : Type} (run : M α) (w : World) : Prop where
  read : ∀ b buffer t, Calls (diskRead b buffer) t run w → Arrives t b →
    t.diskBlockSize.toNat ≤ buffer.length
  write : ∀ b buffer t, Calls (diskWrite b buffer) t run w → t.fd = .opened →
    t.diskBlockSize.toNat ≤ buffer.length
  superblock : ∀ t, Calls diskWriteSb t run w → t.fd = .opened →
    t.diskBlockSize.toNat ≤ superblockSize

variable {totalSize blockSize : UInt32} {now : UInt64} {w0 w1 w : World}

/-! ## The superblock -/

/-- An accepted format sends the superblock to the disk it has opened. -/
theorem fsFormat_saves (h : fsFormat now totalSize blockSize w0 = some (0, w1)) :
    inodeSize ≤ blockSize ∧ ∃ t, Calls diskWriteSb t (fsFormat now totalSize blockSize) w0 ∧
      t.fd = .opened ∧ t.diskBlockSize = blockSize := by
  obtain ⟨hbig, hbits, s1, hinit, hfd, hsize, hlay⟩ := fsFormat_inv h
  have hsave : Calls diskWriteSb { s1 with sb := formatSb now totalSize blockSize }
      (layOut now totalSize blockSize) s1 := by
    rw [layOut] at hlay ⊢
    split_ifs at hlay ⊢ with hroom hinodes
    · exact absurd (returned_inj hlay).1 (by decide)
    · exact absurd (returned_inj hlay).1 (by decide)
    · exact .after rfl (.first .here)
  refine ⟨hbig, { s1 with sb := formatSb now totalSize blockSize }, ?_, hfd, hsize⟩
  rw [fsFormat_parts, if_neg (UInt32.not_lt.mpr hbig)]
  refine .after hinit ?_
  rw [if_neg (by decide), require_pos hbits]
  exact .after rfl hsave

/-- No run from an accepted format on has full buffers: the superblock is shorter than a block. -/
theorem format_overreads (h : fsFormat now totalSize blockSize w0 = some (0, w1))
    (calls : List FileCall) : ¬ FullBuffers (formatAndRun now totalSize blockSize calls) w0 := by
  obtain ⟨hsize, t, hcall, hfd, hbs⟩ := fsFormat_saves h
  intro hfull
  have hle := hfull.superblock t (.first hcall) hfd
  have hinode : 144 ≤ blockSize.toNat := UInt32.le_iff_toNat_le.mp hsize
  rw [hbs, superblockSize] at hle
  omega

/-- A disk of four blocks. -/
theorem format_overreads_four : ∃ w1, fsFormat 0 576 144 (.start none 0 0) = some (0, w1) ∧
    ¬ FullBuffers (formatAndRun 0 576 144 [⟨.create ⟨[97], by decide⟩, 1⟩]) (.start none 0 0) := by
  obtain ⟨w1, hfmt⟩ := fsFormat_four
  exact ⟨w1, hfmt, format_overreads hfmt _⟩

/-- On it, `fs_format` sends blocks of 144 bytes from a superblock of 88. -/
theorem superblock_short : ∃ w1 t, fsFormat 0 576 144 (.start none 0 0) = some (0, w1) ∧
    Calls diskWriteSb t (formatAndRun 0 576 144 []) (.start none 0 0) ∧ t.fd = .opened ∧
    t.diskBlockSize = 144 ∧ superblockSize = 88 ∧
    ¬ FullBuffers (formatAndRun 0 576 144 []) (.start none 0 0) := by
  obtain ⟨w1, hfmt⟩ := fsFormat_four
  obtain ⟨-, t, hcall, hfd, hbs⟩ := fsFormat_saves hfmt
  refine ⟨w1, t, hfmt, .first hcall, hfd, hbs, rfl, fun hfull => ?_⟩
  have hle := hfull.superblock t (.first hcall) hfd
  rw [hbs] at hle
  exact absurd hle (by decide)

/-! ## All other transfers -/

theorem diskWrite_full {b : UInt32} {buffer : List UInt8} (h : (diskWrite b buffer w).isSome)
    (hfd : w.fd = .opened) : w.diskBlockSize.toNat ≤ buffer.length := by
  by_contra hshort
  simp only [diskWrite, bind_apply, ask_apply, Option.bind_some, hfd] at h
  rw [require_neg hshort] at h
  cases h

theorem diskRead_full {b : UInt32} {buffer : List UInt8} (h : (diskRead b buffer w).isSome)
    (hb : Arrives w b) : w.diskBlockSize.toNat ≤ buffer.length := by
  have hwhole : (slice (b.toNat * w.diskBlockSize.toNat) w.diskBlockSize.toNat
      (w.file.getD [])).length = w.diskBlockSize.toNat := by
    apply length_slice
    have hin := hb.inside
    rw [Nat.add_mul, Nat.one_mul] at hin
    exact hin
  by_contra hshort
  rw [← hwhole] at hshort
  simp only [diskRead, nextFault, bind_apply, ask_apply, Option.bind_some, hb.fd, hb.fault] at h
  rw [require_neg hshort] at h
  cases h

/-- Where all system calls succeed, every run from an accepted format on gives full buffers to all
its transfers but those of the superblock. -/
theorem other_buffers_full (hf : w0.faults = noFaults)
    (h : fsFormat now totalSize blockSize w0 = some (0, w1)) {calls : List FileCall}
    (hcalls : ∀ c ∈ calls, ContentBelow c.op) :
    (∀ b buffer t, Calls (diskRead b buffer) t (formatAndRun now totalSize blockSize calls) w0 →
      Arrives t b → t.diskBlockSize.toNat ≤ buffer.length) ∧
    ∀ b buffer t, Calls (diskWrite b buffer) t (formatAndRun now totalSize blockSize calls) w0 →
      t.fd = .opened → t.diskBlockSize.toNat ≤ buffer.length := by
  have hdefined : (formatAndRun now totalSize blockSize calls w0).isSome := by
    obtain ⟨-, results, w, -, hses, -⟩ := session_runs hf h calls hcalls
    simp only [formatAndRun, bind_apply, h, Option.bind_some, hses, pure_apply, Option.isSome_some]
  exact ⟨fun b buffer t hcall => diskRead_full (hcall.isSome hdefined),
    fun b buffer t hcall => diskWrite_full (hcall.isSome hdefined)⟩

end MiniFs.Properties
