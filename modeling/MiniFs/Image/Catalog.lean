import MiniFs.Image.Opened
import MiniFs.Image.Remount

/-! # What is stored on a disk

The parameters and the files as a new process finds them when it mounts the disk file.
Of a process with a mounted file system, the disk holds what the process shows.
-/

set_option autoImplicit false

namespace MiniFs.Image
open MiniFs.Core Library Library.Exec Library.ByteRange

/-- The parameters of a file system, and the inode and the content of each file. -/
structure Catalog where
  sb : Superblock
  files : CStr → Option (Inode × List UInt8)

def Catalog.Shorter (c : Catalog) (name : CStr) (n : UInt32) : Prop :=
  ∀ p, c.files name = some p → p.1.size < n

/-- What a process shows. -/
def shown (w : World) : Catalog := ⟨w.sb, fun name => (w.find name).map fun x => (x, w.content x)⟩

/-- What a new process shows after it has mounted the disk file; `none` if it cannot. -/
def catalog (file : Option (List UInt8)) : Option Catalog :=
  match fsMount (World.start file 0 0) with
  | some (0, w) => some (shown w)
  | _ => none

def Volume.catalog (g : Geometry) (vol : Volume) : Catalog :=
  ⟨vol.sb, fun name => (vol.lookup name.bytes).map fun x => (x, vol.content g x)⟩

inductive Mounted : World → Prop
  | format {now : UInt64} {totalSize blockSize : UInt32} {w w1 w2 : World}
      (hf : w.faults = noFaults) (hfmt : fsFormat now totalSize blockSize w = some (0, w1))
      (hmount : fsMount w1 = some (0, w2)) : Mounted w2
  | command {c : Command} {r : Int} {w w' : World} (h : Mounted w) (hc : c.ArgsBelow (2 ^ 17))
      (hrun : runCommand c w = some (r, w')) : Mounted w'
  | resume {x : Interruption} {w w' : World} (h : Mounted w)
      (hrun : resume x w = some (0, w')) : Mounted w'
  /-- another process -/
  | process {behindSb garbage : ℕ → UInt8} {w w' : World} (h : Mounted w)
      (hmount : fsMount (World.start w.file behindSb garbage) = some (0, w')) : Mounted w'
  /-- a format of the shell that stops at its first check -/
  | smallBlocks {now : UInt64} {totalSize blockSize : UInt32} {r : Int × Int} {w w' : World}
      (h : Mounted w) (hsmall : blockSize < inodeSize)
      (hrun : shellFormat now totalSize blockSize w = some (r, w')) : Mounted w'

variable {g : Geometry} {s t w : World} {v : View}

/-! ## What a sound volume shows -/

theorem Represents.shown_eq (h : Represents g w v) (hv : Steady g v) :
    shown w = v.vol.catalog g := by
  rw [shown, h.sb, Volume.catalog]
  congr 1
  funext name
  rw [h.find_eq hv.sound hv.faults name]
  cases hlook : v.vol.lookup name.bytes with
  | none => rfl
  | some x =>
    obtain ⟨hlive, -, i, hi, -⟩ := lookup_eq_some hlook
    rw [Option.map_some, Option.map_some, h.content_eq hv.sound hi hlive]

/-- A new process mounts the volume. It has printed nothing, and what is behind the superblock in
block 0 is not its own. -/
theorem Represents.mounts (h : Represents g w v) (hv : Steady g v) (behindSb garbage : ℕ → UInt8) :
    ∃ w', fsMount (World.start w.file behindSb garbage) = some (0, w') ∧
      Represents g w' { v with out := [], stamped := false } ∧
      Steady g { v with out := [], stamped := false } := by
  obtain ⟨disk, bytes, hfile, hmem, hh, -⟩ := h.memory
  refine ⟨_, fsMount_same (t := World.start w.file behindSb garbage) h hv rfl rfl, ?_,
    hv.sound, hv.faults⟩
  exact { h with
    out := rfl
    memory := ⟨disk, bytes, hfile, hmem, hh, fun hst => absurd hst Bool.false_ne_true⟩ }

theorem Represents.catalog_eq (h : Represents g w v) (hv : Steady g v) :
    catalog w.file = some (v.vol.catalog g) := by
  obtain ⟨w', hmount, hrep, hv'⟩ := h.mounts hv 0 0
  rw [catalog, hmount]
  exact congrArg some (hrep.shown_eq hv')

/-! ## Disks without a file system -/

theorem catalog_eq_none {file : Option (List UInt8)}
    (h : fsMount (World.start file 0 0) = some (-1, w)) : catalog file = none := by
  rw [catalog, h]
  rfl

/-- A disk of zeros does not mount. -/
theorem fsMount_zeros (n : ℕ) (behindSb garbage : ℕ → UInt8) : ∃ w,
    fsMount (World.start (some (List.replicate n 0)) behindSb garbage) = some (-1, w) := by
  have hmagic : (loadedSb Superblock.zero (List.replicate n 0)).magic ≠ fsMagic := by
    intro hmagic
    obtain rfl := loadedSb_zeros hmagic
    rw [List.replicate_zero, loadedSb_nil] at hmagic
    exact absurd hmagic (by decide)
  exact ⟨_, (fsMount_eq rfl rfl).trans (if_pos hmagic)⟩

theorem catalog_zeros (n : ℕ) : catalog (some (List.replicate n 0)) = none := by
  obtain ⟨w, hmount⟩ := fsMount_zeros n 0 0
  exact catalog_eq_none hmount

/-! ## Every state of a process -/

/-- `fs_unmount` and a format that stops at its first check. -/
theorem shellFormat_small (h : Represents g w v) (hv : Steady g v) (now : UInt64)
    (totalSize : UInt32) {blockSize : UInt32} (hsmall : blockSize < inodeSize) :
    ∃ w', shellFormat now totalSize blockSize w = some ((-1, 0), w') ∧
      Represents g w' { v with stamped := true, out := w'.out } := by
  have hstamp := stamp_represents h hv
  have hmount := fsMount_same (t := sayMore { stamp g w with fd := .closed }
    [.blockSizeTooSmall blockSize inodeSize]) hstamp ⟨hv.sound, hv.faults⟩ rfl
    (h.faults.trans hv.faults)
  have hformat : fsFormat now totalSize blockSize { stamp g w with fd := .closed } =
      some (-1, sayMore { stamp g w with fd := .closed }
        [.blockSizeTooSmall blockSize inodeSize]) := by
    rw [fsFormat, if_pos hsmall]
    rfl
  refine ⟨{ stamp g w with out := w.out ++ [.blockSizeTooSmall blockSize inodeSize] }, ?_,
    { hstamp with out := rfl }⟩
  rw [shellFormat, bind_apply, fsUnmount_ready h hv, Option.bind_some, bind_apply, hformat,
    Option.bind_some, bind_apply, hmount]
  rfl

theorem Mounted.steady (h : Mounted w) : ∃ g v, Represents g w v ∧ Steady g v := by
  induction h with
  | @format _ _ _ _ _ w2 hf hfmt hmount =>
    obtain ⟨hfm, w3, hmount', hrep, hv⟩ := mount_initial hf hfmt
    obtain ⟨-, rfl⟩ := run_unique hmount hmount'
    exact ⟨_, _, hrep, hv⟩
  | command _ hc hrun ih =>
    obtain ⟨g, v, hrep, hv⟩ := ih
    obtain ⟨r, v', hruns, hv', -⟩ := runCommand_runs hv hc
    obtain ⟨t, ht, hrep'⟩ := hruns.exec hrep
    obtain ⟨-, rfl⟩ := run_unique hrun ht
    exact ⟨g, v', hrep', hv'⟩
  | resume _ hrun ih =>
    obtain ⟨g, v, hrep, hv⟩ := ih
    obtain ⟨t, ht, hrep', -⟩ := resume_represents
      (hrep.restamp (b := false) fun hb => absurd hb Bool.false_ne_true) ⟨hv.sound, hv.faults⟩
      fun hb => absurd hb Bool.false_ne_true
    obtain ⟨-, rfl⟩ := run_unique hrun ht
    exact ⟨g, _, hrep', ⟨hv.sound, hv.faults⟩⟩
  | process _ hmount ih =>
    obtain ⟨g, v, hrep, hv⟩ := ih
    obtain ⟨t, ht, hrep', hv'⟩ := hrep.mounts hv _ _
    obtain ⟨-, rfl⟩ := run_unique hmount ht
    exact ⟨g, _, hrep', hv'⟩
  | smallBlocks _ hsmall hrun ih =>
    obtain ⟨g, v, hrep, hv⟩ := ih
    obtain ⟨t, ht, hrep'⟩ := shellFormat_small hrep hv _ _ hsmall
    obtain ⟨-, rfl⟩ := run_unique hrun ht
    exact ⟨g, _, hrep', ⟨hv.sound, hv.faults⟩⟩

theorem Mounted.runs (h : Mounted s) {c : Command} (hc : c.ArgsBelow (2 ^ 17)) :
    ∃ r s', runCommand c s = some (r, s') ∧ Mounted s' := by
  obtain ⟨g, v, hrep, hv⟩ := h.steady
  obtain ⟨r, v', hruns, -⟩ := runCommand_runs hv hc
  obtain ⟨s', hs', -⟩ := hruns.exec hrep
  exact ⟨r, s', hs', .command h hc hs'⟩

theorem Mounted.catalog_eq (h : Mounted w) : catalog w.file = some (shown w) := by
  obtain ⟨g, v, hrep, hv⟩ := h.steady
  rw [hrep.catalog_eq hv, hrep.shown_eq hv]

set_option maxRecDepth 100000 in
/-- A process with a file of two bytes. -/
theorem exists_twoBytes : ∃ w, Mounted w ∧ ∃ x, w.find ⟨[97], by decide⟩ = some x ∧ x.size = 2 := by
  have hrun : (fsFormat 0 576 144 (.start none 0 0)).any (fun p => p.1 = 0 ∧
      (fsMount p.2).any (fun q => q.1 = 0 ∧
        (runCommand (.file ⟨.create ⟨[97], by decide⟩, 1⟩) q.2).any (fun c =>
          (runCommand (.file ⟨.write ⟨[97], by decide⟩ ⟨[104, 105], by decide⟩, 2⟩) c.2).any
            fun d => (d.2.find ⟨[97], by decide⟩).map Inode.size = some 2))) := by decide +kernel
  obtain ⟨r1, w1, hfmt, h1⟩ := exists_of_any hrun
  obtain ⟨rfl, h1⟩ := of_decide_eq_true h1
  obtain ⟨r2, w2, hmount, h2⟩ := exists_of_any h1
  obtain ⟨rfl, h2⟩ := of_decide_eq_true h2
  obtain ⟨r3, w3, hcreate, h3⟩ := exists_of_any h2
  obtain ⟨r4, w4, hwrite, h4⟩ := exists_of_any h3
  obtain ⟨x, hx, hsize⟩ := Option.map_eq_some_iff.mp (of_decide_eq_true h4)
  have hmounted : Mounted w2 := .format rfl hfmt hmount
  refine ⟨w4, .command (.command hmounted ?_ hcreate) ?_ hwrite, x, hx, hsize⟩
  · simp [Command.ArgsBelow, FileOp.ArgsBelow, FileOp.args, CStr.strlen]
  · simp [Command.ArgsBelow, FileOp.ArgsBelow, FileOp.args, CStr.strlen]

end MiniFs.Image
