import MiniFs.Library.Triple
import MiniFs.Image.Observe

/-! # Any mounted image

What a mount leaves of an arbitrary disk file, and what reading the inode table
then gives. Blocks behind the end of the file cannot be read.
-/

set_option autoImplicit false

namespace MiniFs.Image
open MiniFs.Core Library Library.Exec Library.ByteRange

variable {file : Option (List UInt8)} {sb : Superblock} {s : World}

/-! ## Reading the inode table -/

/-- A process seen as it is. -/
def asIs : Abstraction World World Unit where
  rep := Eq
  same _ _ := True
  env _ := ()

theorem runs_asIs {α : Type} {m : M α} {a : α} {s' : World} (h : m s = some (a, s')) :
    Runs asIs s m a s' := by
  refine ⟨fun _ => s', fun t ht => ⟨?_, rfl, rfl, fun _ _ _ => trivial⟩⟩
  rw [show t = s from ht]
  exact h

instance : Printing asIs where
  say := Image.sayMore
  say_nil s := by rw [Image.sayMore, List.append_nil]
  say_say s l k := by simp only [Image.sayMore, List.append_assoc]
  emit_runs _ _ := runs_asIs rfl

/-- Inode slot `i` of an image, if its block is complete. -/
def imageSlot (file : Option (List UInt8)) (sb : Superblock) (i : ℕ) : Option Inode :=
  let perBlock := sb.blockSize / inodeSize
  let block := imageBlock file sb (sb.inodeStart + UInt32.ofNat i / perBlock)
  if block.length = sb.blockSize.toNat then
    some (inodeCodec.decode (slice (UInt32.ofNat i % perBlock * inodeSize).toNat 144 block))
  else none

theorem toNat_perBlock (sb : Superblock) :
    (sb.blockSize / inodeSize).toNat = sb.blockSize.toNat / 144 :=
  UInt32.toNat_div _ _

theorem inodeOffset_le (hbs : inodeSize ≤ sb.blockSize) (id : UInt32) :
    (id % (sb.blockSize / inodeSize) * inodeSize).toNat + 144 ≤ sb.blockSize.toNat := by
  have h144 : 144 ≤ sb.blockSize.toNat := UInt32.le_iff_toNat_le.mp hbs
  have hpos : 0 < sb.blockSize.toNat / 144 := Nat.div_pos h144 (by decide)
  have hmod := Nat.mod_lt id.toNat hpos
  have hmul := Nat.div_mul_le_self sb.blockSize.toNat 144
  have hlt := sb.blockSize.toNat_lt
  rw [UInt32.toNat_mul, UInt32.toNat_mod, toNat_perBlock]
  change id.toNat % (sb.blockSize.toNat / 144) * 144 % 2 ^ 32 + 144 ≤ _
  rw [Nat.mod_eq_of_lt (by omega)]
  omega

theorem mallocRead_complete (h : Opened file sb s) {b : UInt32}
    (hfull : (imageBlock file sb b).length = sb.blockSize.toNat) :
    mallocRead b sb.blockSize s = some ((0, imageBlock file sb b), s) := by
  let buf := (List.range sb.blockSize.toNat).map s.garbage
  have hbuf : buf.length = sb.blockSize.toNat := by rw [List.length_map, List.length_range]
  have hread := diskRead_opened h (b := b) hbuf.ge
  have hall : splice 0 (imageBlock file sb b) buf = imageBlock file sb b := by
    rw [splice, List.take_zero, List.nil_append, Nat.zero_add,
      List.drop_eq_nil_of_le (by rw [hbuf, hfull]), List.append_nil]
  rw [if_pos hfull, hall] at hread
  exact hread

theorem mallocRead_cut (h : Opened file sb s) {b : UInt32}
    (hcut : (imageBlock file sb b).length ≠ sb.blockSize.toNat) :
    ∃ buf, mallocRead b sb.blockSize s = some ((-1, buf), sayMore s [.diskReadEof b]) := by
  let buf := (List.range sb.blockSize.toNat).map s.garbage
  have hbuf : buf.length = sb.blockSize.toNat := by rw [List.length_map, List.length_range]
  have hread := diskRead_opened h (b := b) hbuf.ge
  rw [if_neg hcut] at hread
  exact ⟨_, hread⟩

theorem inodeRead_opened (h : Opened file sb s) (hbs : inodeSize ≤ sb.blockSize) {i : ℕ}
    (hi : i < sb.maxInodes.toNat) :
    Prints asIs s (inodeRead (UInt32.ofNat i)) (imageSlot file sb i) := by
  have hlt := sb.maxInodes.toNat_lt
  have hid : ¬ sb.maxInodes ≤ UInt32.ofNat i := by
    rw [UInt32.le_iff_toNat_le, toNat_word (by omega)]
    omega
  have hper : sb.blockSize / inodeSize ≠ 0 := by
    intro h0
    have h1 := toNat_perBlock sb
    have h144 : 144 ≤ sb.blockSize.toNat := UInt32.le_iff_toNat_le.mp hbs
    have h2 : 0 < sb.blockSize.toNat / 144 := Nat.div_pos h144 (by decide)
    rw [h0, UInt32.toNat_zero] at h1
    omega
  have hoff := inodeOffset_le hbs (UInt32.ofNat i)
  let b := sb.inodeStart + UInt32.ofNat i / (sb.blockSize / inodeSize)
  by_cases hfull : (imageBlock file sb b).length = sb.blockSize.toNat
  · have hread := mallocRead_complete h hfull
    refine .of_runs (runs_asIs ?_)
    simp only [inodeRead, getSb, bind_apply, ask_apply, Option.bind_some, h.sb, if_neg hid,
      inodeLocation, require_pos hper, pure_apply]
    rw [hread]
    simp only [Option.bind_some]
    rw [if_neg (by decide), bind_apply, require_pos (by rw [hfull]; exact hoff), pure_apply,
      Option.bind_some, imageSlot, if_pos hfull]
    rfl
  · obtain ⟨buf, hread⟩ := mallocRead_cut h hfull
    refine ⟨[.diskReadEof b], runs_asIs ?_⟩
    simp only [inodeRead, getSb, bind_apply, ask_apply, Option.bind_some, h.sb, if_neg hid,
      inodeLocation, require_pos hper, pure_apply]
    rw [hread]
    simp only [Option.bind_some]
    rw [if_pos (by decide), imageSlot, if_neg hfull]
    rfl

theorem Opened.slot_eq (h : Opened file sb s) (hbs : inodeSize ≤ sb.blockSize) {i : ℕ}
    (hi : i < sb.maxInodes.toNat) : s.slot i = imageSlot file sb i := by
  obtain ⟨msgs, hrun⟩ := inodeRead_opened h hbs hi
  obtain ⟨s', hs', -⟩ := hrun.exec rfl
  rw [World.slot, h.sb, if_pos hi, hs']
  rfl

theorem Opened.scans (h : Opened file sb s) (hbs : inodeSize ≤ sb.blockSize) :
    Scans asIs s sb s.slot where
  getSb msgs := runs_asIs (congrArg (fun sb => some (sb, _)) (h.sayMore msgs).sb)
  read msgs i hi := by
    rw [h.slot_eq hbs hi]
    exact inodeRead_opened (h.sayMore msgs) hbs hi

/-! ## What a mount leaves -/

theorem diskRead_keeps {b : UInt32} {buf : List UInt8} :
    Triple (Opened file sb) (diskRead b buf) fun _ => Opened file sb := by
  intro s a s' h hrun
  let data := slice (b.toNat * s.diskBlockSize.toNat) s.diskBlockSize.toNat (s.file.getD [])
  simp only [diskRead, bind_apply, ask_apply, Option.bind_some, h.fd,
    nextFault_none h.faults] at hrun
  by_cases hfit : data.length ≤ buf.length
  · rw [require_pos hfit, pure_apply, Option.bind_some] at hrun
    split_ifs at hrun with hfull
    · obtain ⟨-, rfl⟩ := returned_inj hrun
      exact h
    · obtain ⟨-, rfl⟩ := returned_inj hrun
      exact { h with }
  · rw [require_neg hfit] at hrun
    cases hrun

theorem bitmapBytes_keeps {P : World → Prop} : Triple P bitmapBytes fun _ => P := by
  refine Triple.bind (I := fun _ => P) (Triple.ask fun _ h => h) fun p => ?_
  cases p with
  | live bytes => exact Triple.pure fun _ h => h
  | null => exact Triple.stuck
  | freed => exact Triple.stuck

theorem setBitmap_keeps {p : Pointer} :
    Triple (Opened file sb) (setBitmap p) fun _ => Opened file sb :=
  Triple.update fun _ h => { h with }

theorem loadBitmapBlock_keeps {sb' : Superblock} {i : ℕ} :
    Triple (Opened file sb) (loadBitmapBlock sb' i) fun r s => r.elim (Opened file sb s)
      fun _ => Opened file sb s := by
  have hoffset {bytes : List UInt8} : Triple (Opened file sb) (bitmapOffset sb' bytes i) fun _ =>
      Opened file sb := by
    refine Triple.bind Triple.require fun _ => Triple.pure fun _ h => h.1
  refine Triple.bind bitmapBytes_keeps fun bytes => Triple.bind hoffset fun off =>
    Triple.bind diskRead_keeps fun r => Triple.bind setBitmap_keeps fun _ => ?_
  refine Triple.pure fun s h => ?_
  split_ifs
  · exact h
  · exact h

/-- `bitmap_init` changes nothing but the bitmap and the output. -/
theorem bitmapInit_keeps : Triple (Opened file sb) bitmapInit fun _ => Opened file sb := by
  refine Triple.bind (Triple.ask fun _ h => h) fun sb' => Triple.bind (Triple.ask fun _ h => h)
    fun bytes => Triple.bind setBitmap_keeps fun _ => ?_
  refine Triple.bind (Triple.search fun _ _ => loadBitmapBlock_keeps) fun r => ?_
  cases r with
  | none => exact Triple.pure fun _ h => h
  | some u => exact Triple.bind setBitmap_keeps fun _ => Triple.pure fun _ h => h

/-- The superblock `fs_mount` has after its `pread`, over the one it had before. -/
def loadedSb (old : Superblock) (disk : List UInt8) : Superblock :=
  superblockCodec.decode (splice 0 (slice 0 superblockSize disk) (superblockCodec.encode old))

/-- The first byte of a superblock is the low byte of its magic number. -/
theorem encode_head (sb : Superblock) :
    (superblockCodec.encode sb)[0]? = some (UInt8.ofNat (sb.magic.toNat % 256)) := rfl

/-- Over a file of zeros the magic number is lost, unless the file is empty. -/
theorem loadedSb_zeros {sb : Superblock} {n : ℕ}
    (h : (loadedSb sb (List.replicate n 0)).magic = fsMagic) : n = 0 := by
  have hlen := superblockCodec.length_encode sb
  have hhead := encode_head (loadedSb sb (List.replicate n 0))
  have hfit : 0 + (slice 0 superblockSize (List.replicate n (0 : UInt8))).length ≤
      (superblockCodec.encode sb).length := by
    rw [hlen, superblockCodec_size, slice, List.length_take]
    omega
  rw [loadedSb, superblockCodec.encode_decode _ (by rw [length_splice hfit, hlen])] at hhead
  by_contra hne
  have hpos : 0 < (slice 0 superblockSize (List.replicate n (0 : UInt8))).length := by
    rw [slice, List.drop_zero, List.length_take, List.length_replicate]
    unfold superblockSize
    omega
  rw [getElem?_splice hfit, if_neg (by omega), if_pos (by omega), getElem?_slice,
    if_pos (by unfold superblockSize; omega), List.getElem?_replicate, if_pos (by omega)] at hhead
  rw [loadedSb] at h
  rw [h] at hhead
  exact absurd hhead (by decide)

theorem loadedSb_nil (old : Superblock) : loadedSb old [] = old := by
  have hnil : slice 0 superblockSize ([] : List UInt8) = [] := rfl
  rw [loadedSb, hnil]
  have hsplice : splice 0 [] (superblockCodec.encode old) = superblockCodec.encode old := by
    simp [splice]
  rw [hsplice, superblockCodec.decode_encode]

theorem readSuperblock_loads {disk : List UInt8} (hf : s.faults = noFaults)
    (hfile : s.file = some disk) :
    readSuperblock s = some ((), { s with sb := loadedSb s.sb disk }) := by
  simp only [readSuperblock, bind_apply, nextFault_none hf, Option.bind_some, ask_apply, hfile,
    Option.getD_some, setSb, update_apply, loadedSb]

/-- A mount reads the superblock, checks its magic number and loads the bitmap. -/
theorem fsMount_eq {disk : List UInt8} (hf : s.faults = noFaults) (hfile : s.file = some disk) :
    fsMount s = if (loadedSb s.sb disk).magic ≠ fsMagic
      then some (-1, sayMore { s with
        fd := .opened, diskBlockSize := 0, sb := loadedSb s.sb disk }
        [.invalidMagic (loadedSb s.sb disk).magic fsMagic])
      else (bitmapInit { s with
        fd := .opened
        diskBlockSize := (loadedSb s.sb disk).blockSize
        sb := loadedSb s.sb disk }).map fun p => (0, p.2) := by
  have hopen := diskInit_open hf hfile 0 0
  have hnext := nextFault_none (s := { s with fd := .opened, diskBlockSize := 0 }) hf
  have hread := readSuperblock_loads (s := { s with fd := .opened, diskBlockSize := 0 }) hf hfile
  simp only [fsMount, bind_apply, hopen, Option.bind_some]
  rw [if_neg (by decide)]
  simp only [bind_apply, hnext, Option.bind_some, hread, getSb, ask_apply]
  generalize loadedSb s.sb disk = sb
  have hreopen := diskInit_open (s := { s with fd := .opened, diskBlockSize := 0, sb := sb })
    hf hfile (sb.totalBlocks * sb.blockSize) sb.blockSize
  split_ifs with hmagic
  · rfl
  · simp only [bind_apply, hreopen, Option.bind_some, Option.map_eq_bind]
    rfl

theorem fsMount_missing (hf : s.faults = noFaults) (hfile : s.file = none) :
    ∃ s', fsMount s = some (-1, s') ∧ s'.file = none := by
  obtain ⟨file, fd, size, sb, bitmap, behindSb, garbage, faults, out⟩ := s
  obtain rfl : file = none := hfile
  obtain rfl : faults = noFaults := hf
  exact ⟨_, rfl, rfl⟩

/-- A mount fails and keeps the disk file, or it has opened it and loaded a superblock with the
magic number. -/
theorem fsMount_cases {r : Int} {s' : World} (hf : s.faults = noFaults)
    (h : fsMount s = some (r, s')) :
    (r = -1 ∧ s'.file = s.file) ∨
    (r = 0 ∧ ∃ disk, s.file = some disk ∧ s'.sb = loadedSb s.sb disk ∧ s'.sb.magic = fsMagic ∧
      Opened (some disk) s'.sb s') := by
  cases hfile : s.file with
  | none =>
    obtain ⟨t, ht, htfile⟩ := fsMount_missing hf hfile
    obtain ⟨rfl, rfl⟩ := run_unique ht h
    exact .inl ⟨rfl, htfile⟩
  | some disk =>
    rw [fsMount_eq hf hfile] at h
    generalize hsb : loadedSb s.sb disk = sb at h
    split_ifs at h with hmagic
    · obtain ⟨rfl, rfl⟩ := returned_inj h
      exact .inl ⟨rfl, hfile⟩
    · obtain ⟨p, hp, hps⟩ := Option.map_eq_some_iff.mp h
      obtain ⟨rfl, rfl⟩ := Prod.mk.inj hps
      have hopened : Opened (some disk) sb p.2 :=
        bitmapInit_keeps { s with fd := .opened, diskBlockSize := sb.blockSize, sb := sb } p.1 p.2
          ⟨rfl, rfl, rfl, hfile, hf⟩ hp
      have hloaded := hopened.sb
      exact .inr ⟨rfl, disk, rfl, hloaded.trans hsb.symm, hloaded ▸ not_not.mp hmagic,
        hloaded.symm ▸ hopened⟩

/-- A mount that returns 0 has opened the file and loaded a superblock with the magic number. -/
theorem fsMount_opens {s' : World} (hf : s.faults = noFaults) (h : fsMount s = some (0, s')) :
    ∃ disk, s.file = some disk ∧ s'.sb = loadedSb s.sb disk ∧ s'.sb.magic = fsMagic ∧
      Opened (some disk) s'.sb s' := by
  obtain ⟨hr, -⟩ | ⟨-, hopens⟩ := fsMount_cases hf h
  · exact absurd hr (by decide)
  · exact hopens

theorem fsMount_file {r : Int} {s' : World} (hf : s.faults = noFaults)
    (h : fsMount s = some (r, s')) : s'.file = s.file := by
  obtain ⟨-, hfile⟩ | ⟨-, disk, hfile, -, -, hopened⟩ := fsMount_cases hf h
  · exact hfile
  · rw [hopened.file, hfile]

/-! ## What a format leaves -/

section Format
variable {totalSize blockSize : UInt32}

/-- Whatever the system calls answer. -/
theorem diskInit_answer : Triple (fun _ => True) (diskInit totalSize blockSize true)
    fun r w => r = -1 ∨ r = 0 ∧ w.fd = .opened ∧ w.diskBlockSize = blockSize := by
  have hnext : Triple (fun w => w.fd = .opened) nextFault fun _ w => w.fd = .opened := by
    intro s a s' h hrun
    obtain ⟨-, rfl⟩ := returned_inj hrun
    exact h
  refine Triple.trivial.bind fun failed => Triple.trivial.bind fun file => ?_
  split_ifs with hopen hformat
  · exact Triple.trivial.bind fun _ => Triple.trivial.bind fun _ => Triple.pure fun _ _ => .inl rfl
  · refine Triple.bind (I := fun _ w => w.fd = .opened) (Triple.update fun _ _ => rfl) fun _ =>
      Triple.bind (I := fun _ w => w.fd = .opened) (Triple.update fun _ h => h) fun _ =>
        hnext.bind fun fault => ?_
    cases fault with
    | some junk =>
      exact Triple.trivial.bind fun _ => Triple.trivial.bind fun _ =>
        Triple.pure fun _ _ => .inl rfl
    | none =>
      exact Triple.bind (I := fun _ w => w.fd = .opened ∧ w.diskBlockSize = blockSize)
        (Triple.update fun _ h => ⟨h, rfl⟩) fun _ => Triple.pure fun _ h => .inr ⟨rfl, h⟩
  · exact absurd rfl hformat

theorem fsFormat_parts (now : UInt64) (totalSize blockSize : UInt32) :
    fsFormat now totalSize blockSize =
      if blockSize < inodeSize then do
        emit (.blockSizeTooSmall blockSize inodeSize)
        pure (-1)
      else diskInit totalSize blockSize true >>= fun r =>
        if r < 0 then pure (-1)
        else require (blockSize * 8 ≠ 0) >>= fun _ => layOut now totalSize blockSize := rfl

/-- A format that returns 0 has opened the disk and laid it out. -/
theorem fsFormat_inv {now : UInt64} {s' : World}
    (h : fsFormat now totalSize blockSize s = some (0, s')) :
    inodeSize ≤ blockSize ∧ blockSize * 8 ≠ 0 ∧ ∃ t, diskInit totalSize blockSize true s =
      some (0, t) ∧ t.fd = .opened ∧ t.diskBlockSize = blockSize ∧
        layOut now totalSize blockSize t = some (0, s') := by
  rw [fsFormat_parts] at h
  by_cases hsmall : blockSize < inodeSize
  · rw [if_pos hsmall] at h
    exact absurd (returned_inj h).1 (by decide)
  rw [if_neg hsmall] at h
  obtain ⟨r, t, hinit, h⟩ := bind_inv h
  obtain rfl | ⟨rfl, hfd, hsize⟩ := diskInit_answer s r t True.intro hinit
  · rw [if_pos (by decide)] at h
    exact absurd (returned_inj h).1 (by decide)
  rw [if_neg (by decide)] at h
  by_cases hbits : blockSize * 8 ≠ 0
  · rw [require_pos hbits] at h
    exact ⟨UInt32.not_lt.mp hsmall, hbits, t, hinit, hfd, hsize, h⟩
  · rw [require_neg hbits] at h
    cases h

end Format

end MiniFs.Image
