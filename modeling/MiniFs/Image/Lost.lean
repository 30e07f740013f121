import MiniFs.Library.Total
import MiniFs.Image.Catalog

/-! # A shell without a file system

The shell goes on after a format that found the disk too small. The mount behind
it has then failed on a disk of zeros and left a superblock of zeros. There is no
inode to read in that state and no block to write, so no command does any harm.
-/

set_option autoImplicit false

namespace MiniFs.Image
open MiniFs.Core Library Library.Exec Library.ByteRange

/-- A process with a superblock of zeros in memory over a disk of zeros. -/
structure Blank (s : World) : Prop where
  sb : s.sb = Superblock.zero
  bitmap : ∃ bytes, s.bitmap = .live bytes
  faults : s.faults = noFaults
  file : ∃ n, s.file = some (List.replicate n 0)

/-- A process after a mount that failed on such a disk. -/
structure Lost (s : World) : Prop extends Blank s where
  fd : s.fd = .opened
  size : s.diskBlockSize = 0

namespace Lost
variable {s : World} {α : Type} {Q : α → World → Prop}

theorem emit_lost (msg : Message) : Total Lost (emit msg) fun _ => Lost :=
  .update fun _ h => { h with }

theorem say_lost (msg : Message) (a : α) : Total Lost (do emit msg; pure a) fun _ => Lost :=
  (emit_lost msg).seq fun _ => .pure fun _ h => h

theorem getSb_bind {k : Superblock → M α} (hk : Total Lost (k Superblock.zero) Q) :
    Total Lost (getSb >>= k) Q :=
  .ask_bind (fun _ h => h.sb) hk

theorem find_bind {name : CStr} {k : Option Inode → M α} (hk : Total Lost (k none) Q) :
    Total Lost (inodeFindByName name >>= k) Q := by
  rw [inodeFindByName, bind_assoc]
  exact getSb_bind hk

theorem diskWrite_lost (b : UInt32) (buf : List UInt8) :
    Total Lost (diskWrite b buf) fun _ => Lost := by
  refine .ask_bind (fun _ h => h.size) (.ask_bind (fun _ h => h.fd) ?_)
  refine .require_bind (fun _ _ => Nat.zero_le _) ?_
  refine Total.bind (I := fun r s => r = none ∧ Lost s)
    (fun s h => ⟨none, s, nextFault_none h.faults, rfl, h⟩)
    fun r => .fact (fun _ h => h.1) fun hr => ?_
  subst hr
  refine Total.seq (R := Lost) (.update fun s h => ?_) fun _ => .pure fun _ h => h
  obtain ⟨-, h⟩ := h
  obtain ⟨n, hfile⟩ := h.file
  have hwrite : pwrite (b.toNat * (0 : UInt32).toNat) (buf.take (0 : UInt32).toNat)
      (List.replicate n 0) = List.replicate n 0 := by simp [pwrite, splice]
  exact { h with file := ⟨n, by rw [hfile, Option.map_some, hwrite]⟩ }

/-! ## Commands -/

theorem fsCreate_lost (now : UInt64) (name : CStr) :
    Total Lost (fsCreate now name) fun _ => Lost := by
  rw [fsCreate]
  split_ifs
  · exact say_lost _ _
  · refine find_bind ?_
    rw [if_neg (by simp)]
    refine getSb_bind ?_
    exact say_lost _ _

theorem runOp_lost (now : UInt64) (op : FileOp) : Total Lost (runOp now op) fun _ => Lost := by
  cases op with
  | create name => exact fsCreate_lost now name
  | rename oldName newName =>
    rw [runOp, fsRename]
    split_ifs
    · exact say_lost _ _
    · exact find_bind (say_lost _ _)
  | _ => exact find_bind (say_lost _ _)

theorem fsLs_lost : Total Lost fsLs fun _ => Lost := by
  refine getSb_bind ?_
  exact (emit_lost _).seq fun _ => say_lost _ _

theorem fsFsck_lost : Total Lost fsFsck fun _ => Lost := by
  refine getSb_bind ?_
  rw [if_pos (by decide)]
  refine (emit_lost _).seq fun _ => ?_
  exact (emit_lost _).seq fun _ => (emit_lost _).seq fun _ => (emit_lost _).seq fun _ =>
    say_lost _ _

theorem runCommand_lost (c : Command) : Total Lost (runCommand c) fun _ => Lost := by
  cases c with
  | file call => exact runOp_lost call.now call.op
  | ls => exact fsLs_lost
  | stat name => exact find_bind (say_lost _ _)
  | statfs =>
    refine getSb_bind ?_
    exact say_lost _ _
  | fsck => exact fsFsck_lost

theorem fsUnmount_lost : Total Lost fsUnmount fun _ => Blank := by
  have hsync : Total Lost bitmapSync fun _ => Lost := by
    refine getSb_bind fun s h => ?_
    obtain ⟨bytes, hbitmap⟩ := h.bitmap
    refine ⟨(), s, ?_, h⟩
    rw [bind_apply, ask_apply, Option.bind_some, hbitmap]
    rfl
  have hsave : Total Lost diskWriteSb fun _ => Lost :=
    Total.seq (R := Lost) (.ask fun _ h => h) fun buf => diskWrite_lost 0 buf
  exact hsync.seq fun _ => hsave.seq fun _ => .update fun _ h => { h.toBlank with }

end Lost

/-! ## Mounts and formats -/

section Format
variable {s : World} {now : UInt64} {totalSize blockSize : UInt32}

theorem encode_superblock_zero : superblockCodec.encode Superblock.zero = List.replicate 88 0 := by
  decide

/-- A superblock loaded from zeros is zero, if it was zero before or all of it is there. -/
theorem loadedSb_zero {old : Superblock} {n : ℕ} (h : old = Superblock.zero ∨ 88 ≤ n) :
    loadedSb old (List.replicate n 0) = Superblock.zero := by
  have hbytes : splice 0 (slice 0 superblockSize (List.replicate n 0)) (superblockCodec.encode old) =
      superblockCodec.encode Superblock.zero := by
    have hlen : (superblockCodec.encode old).length = 88 := superblockCodec.length_encode old
    have hslice : slice 0 superblockSize (List.replicate n (0 : UInt8)) =
        List.replicate (min 88 n) 0 := by simp [slice]
    rw [hslice, splice, List.take_zero, List.nil_append, List.length_replicate, Nat.zero_add,
      encode_superblock_zero]
    cases h with
    | inl h =>
      rw [h, encode_superblock_zero, List.drop_replicate, ← List.replicate_add]
      congr 1
      omega
    | inr h => rw [Nat.min_eq_left h, List.drop_of_length_le hlen.le, List.append_nil]
  rw [loadedSb, hbytes, superblockCodec.decode_encode]

theorem fsMount_lost {n : ℕ} (hf : s.faults = noFaults) (hfile : s.file = some (List.replicate n 0))
    (hbitmap : ∃ bytes, s.bitmap = .live bytes) (h : s.sb = Superblock.zero ∨ 88 ≤ n) :
    ∃ s', fsMount s = some (-1, s') ∧ Lost s' := by
  have hmount := fsMount_eq hf hfile
  rw [loadedSb_zero h, if_pos (by decide)] at hmount
  exact ⟨_, hmount, { sb := rfl, bitmap := hbitmap, faults := hf, file := ⟨n, hfile⟩, fd := rfl,
                      size := rfl }⟩

/-- A format that finds the disk too small has made it a disk of zeros. -/
theorem fsFormat_zeros (now : UInt64) (hf : s.faults = noFaults)
    (hbig : ¬blockSize < inodeSize) (hbits : blockSize * 8 ≠ 0)
    (hno : ¬Formattable totalSize blockSize) :
    ∃ msg, fsFormat now totalSize blockSize s = some (-1, sayMore { s with
      fd := .opened, file := some (List.replicate totalSize.toNat 0), diskBlockSize := blockSize }
      [msg]) := by
  have hopen := diskInit_format hf totalSize blockSize
  rw [fsFormat_opened hbig hopen, if_neg hbits]
  by_cases hroom : 1 + formatBitmapBlocks totalSize blockSize +
      formatInodeBlocks totalSize blockSize < totalSize / blockSize
  · exact absurd ⟨UInt32.not_lt.mp hbig, hbits, hroom⟩ hno
  · rw [layOut, if_pos (UInt32.not_lt.mp hroom)]
    exact ⟨_, rfl⟩

/-- Sizes that do not take the shell out of what is defined. -/
def SafeFormat (totalSize blockSize : UInt32) : Prop :=
  blockSize < inodeSize ∨ blockSize * 8 ≠ 0 ∧ 88 ≤ totalSize.toNat

/-- A shell at work: it has a file system or has lost it. -/
def AtWork (s : World) : Prop := Mounted s ∨ Lost s

/-- The format and the mount behind the unmount. -/
theorem format_atWork (now : UInt64) (hf : s.faults = noFaults)
    (hbitmap : ∃ bytes, s.bitmap = .live bytes) (hbig : ¬blockSize < inodeSize)
    (hbits : blockSize * 8 ≠ 0) (hzero : s.sb = Superblock.zero ∨ 88 ≤ totalSize.toNat) :
    ∃ r t m s', fsFormat now totalSize blockSize s = some (r, t) ∧ fsMount t = some (m, s') ∧
      AtWork s' := by
  by_cases hfm : Formattable totalSize blockSize
  · obtain ⟨t, hfmt, -⟩ := fsFormat_formatted hfm now hf
    obtain ⟨-, s', hmount, -⟩ := formatted_mounts hf hfmt
    exact ⟨0, t, 0, s', hfmt, hmount, .inl (.format hf hfmt hmount)⟩
  · obtain ⟨msg, hfmt⟩ := fsFormat_zeros now hf hbig hbits hfm
    obtain ⟨s', hmount, hlost⟩ := fsMount_lost (s := sayMore { s with
      fd := .opened, file := some (List.replicate totalSize.toNat 0), diskBlockSize := blockSize }
      [msg]) hf rfl hbitmap hzero
    exact ⟨-1, _, -1, s', hfmt, hmount, .inr hlost⟩

theorem shellFormat_atWork (h : SafeFormat totalSize blockSize) :
    Total AtWork (shellFormat now totalSize blockSize) fun _ => AtWork := by
  rintro s (hm | hl)
  · obtain ⟨g, v, hrep, hv⟩ := hm.steady
    by_cases hsmall : blockSize < inodeSize
    · obtain ⟨w, hrun, -⟩ := shellFormat_small hrep hv now totalSize hsmall
      exact ⟨_, w, hrun, .inl (.smallBlocks hm hsmall hrun)⟩
    · obtain ⟨hbits, hsize⟩ := h.resolve_left hsmall
      obtain ⟨disk, bytes, -, hmem, -⟩ := hrep.memory
      obtain ⟨r, t, m, s', hfmt, hmount, hs'⟩ :=
        format_atWork (s := { stamp g s with fd := .closed }) now
          (hrep.faults.trans hv.faults) ⟨bytes, hmem⟩ hsmall hbits (.inr hsize)
      refine ⟨(r, m), s', ?_, hs'⟩
      rw [shellFormat, bind_apply, fsUnmount_ready hrep hv, Option.bind_some, bind_apply, hfmt,
        Option.bind_some, bind_apply, hmount]
      rfl
  · obtain ⟨u, w, hunmount, hw⟩ := Lost.fsUnmount_lost s hl
    have hstep : ∃ r t m s', fsFormat now totalSize blockSize w = some (r, t) ∧
        fsMount t = some (m, s') ∧ AtWork s' := by
      by_cases hsmall : blockSize < inodeSize
      · obtain ⟨n, hfile⟩ := hw.file
        obtain ⟨s', hmount, hlost⟩ := fsMount_lost
          (s := sayMore w [.blockSizeTooSmall blockSize inodeSize]) hw.faults hfile hw.bitmap
          (.inl hw.sb)
        refine ⟨-1, _, -1, s', ?_, hmount, .inr hlost⟩
        rw [fsFormat, if_pos hsmall]
        rfl
      · exact format_atWork now hw.faults hw.bitmap hsmall (h.resolve_left hsmall).1 (.inl hw.sb)
    obtain ⟨r, t, m, s', hfmt, hmount, hs'⟩ := hstep
    refine ⟨(r, m), s', ?_, hs'⟩
    rw [shellFormat, bind_apply, hunmount, Option.bind_some, bind_apply, hfmt, Option.bind_some,
      bind_apply, hmount]
    rfl

end Format

end MiniFs.Image
