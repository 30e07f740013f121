import MiniFs.Image.Opened
import MiniFs.Image.Remount

/-! # What a rejected format leaves of the disk

`fs_format` compares the block size with the size of an inode before it opens the
disk file. All other checks come after the file was cut to nothing and filled up
with zeros.
-/

set_option autoImplicit false

namespace MiniFs.Image
open MiniFs.Core Library Library.Exec Library.ByteRange

section Format
variable {s s' : World} {now : UInt64} {totalSize blockSize : UInt32}

theorem diskInit_creates (hopen : s.faults 0 = none) (htrunc : s.faults 1 = none) :
    ∃ s1, diskInit totalSize blockSize true s = some (0, s1) ∧
      s1.file = some (List.replicate totalSize.toNat 0) ∧ s1.sb = s.sb ∧
      ∀ k, s1.faults k = s.faults (k + 2) := by
  simp only [diskInit, nextFault, bind_apply, hopen, Option.bind_some, ask_apply,
    Option.isSome_none, Bool.false_or, Bool.not_true, Bool.false_and, Bool.false_eq_true, if_false,
    if_true, update_apply, htrunc, Nat.zero_add, pure_apply]
  exact ⟨_, rfl, rfl, rfl, fun _ => rfl⟩

/-- With sizes it has accepted, `fs_format` does not answer -1 any more. -/
theorem writeLayout_returns_zero (sb : Superblock) (msg : Message) :
    Triple (fun _ : World => True) (writeLayout blockSize sb msg) fun r _ => r = 0 := by
  refine Triple.bind Triple.trivial fun _ => Triple.bind Triple.trivial fun _ => ?_
  refine Triple.bind Triple.trivial fun _ => Triple.bind Triple.trivial fun _ => ?_
  refine Triple.bind Triple.trivial fun _ => Triple.bind Triple.trivial fun _ => ?_
  refine Triple.bind Triple.trivial fun _ => Triple.bind Triple.trivial fun _ => ?_
  exact Triple.pure fun _ _ => rfl

theorem layOut_codes {r : Int} (h : layOut now totalSize blockSize s = some (r, s')) :
    r = 0 ∨ r = -1 := by
  unfold layOut at h
  split_ifs at h
  · exact .inr (returned_inj h).1.symm
  · exact .inr (returned_inj h).1.symm
  · exact .inl (writeLayout_returns_zero _ _ _ _ _ trivial h)

/-- The two checks behind the opening of the disk say what is wrong and change nothing. -/
theorem layOut_rejected (h : layOut now totalSize blockSize s = some (-1, s')) :
    ∃ msg, s' = sayMore s [msg] := by
  unfold layOut at h
  split_ifs at h
  · obtain ⟨-, rfl⟩ := returned_inj h
    exact ⟨_, rfl⟩
  · obtain ⟨-, rfl⟩ := returned_inj h
    exact ⟨_, rfl⟩
  · have h0 : (-1 : Int) = 0 := writeLayout_returns_zero _ _ _ _ _ trivial h
    exact absurd h0 (by decide)

/-- A rejected format has printed, or has cleared the disk file. -/
theorem fsFormat_rejected (hopen : s.faults 0 = none) (htrunc : s.faults 1 = none)
    (h : fsFormat now totalSize blockSize s = some (-1, s')) :
    (blockSize < inodeSize ∧ ∃ msg, s' = sayMore s [msg]) ∨
    (inodeSize ≤ blockSize ∧ s'.file = some (List.replicate totalSize.toNat 0) ∧ s'.sb = s.sb ∧
      ∀ k, s'.faults k = s.faults (k + 2)) := by
  by_cases hsmall : blockSize < inodeSize
  · rw [fsFormat, if_pos hsmall] at h
    obtain ⟨-, rfl⟩ := returned_inj h
    exact .inl ⟨hsmall, _, rfl⟩
  · obtain ⟨s1, hinit, hfile, hsb, hfaults⟩ := @diskInit_creates s totalSize blockSize
      hopen htrunc
    refine .inr ⟨UInt32.not_lt.mp hsmall, ?_⟩
    rw [fsFormat_opened hsmall hinit] at h
    by_cases hbits : blockSize * 8 = 0
    · rw [if_pos hbits] at h
      cases h
    rw [if_neg hbits] at h
    obtain ⟨msg, rfl⟩ := layOut_rejected h
    exact ⟨hfile, hsb, hfaults⟩

end Format

/-! ## Mounting what is left -/

section Cleared
variable {s s' : World} {sb : Superblock}

theorem inodeRead_nil (hbs : inodeSize ≤ sb.blockSize) {i : ℕ} (hi : i < sb.maxInodes.toNat) :
    Triple (Opened (some []) sb) (inodeRead (UInt32.ofNat i)) fun r s =>
      Opened (some []) sb s ∧ r = none := by
  intro s r s' h hrun
  have h144 : 144 ≤ sb.blockSize.toNat := UInt32.le_iff_toNat_le.mp hbs
  have hnone : imageSlot (some []) sb i = none := by
    refine if_neg ?_
    simp only [imageBlock, Option.getD_some, slice, List.drop_nil, List.take_nil, List.length_nil]
    omega
  obtain ⟨msgs, hprints⟩ := inodeRead_opened h hbs hi
  obtain ⟨t, ht, hrep⟩ := hprints.exec rfl
  obtain ⟨rfl, rfl⟩ := run_unique ht hrun
  obtain rfl : t = sayMore s msgs := hrep
  exact ⟨h.sayMore msgs, hnone⟩

theorem Opened.find_nil (h : Opened (some []) sb s) (hbs : inodeSize ≤ sb.blockSize) (name : CStr) :
    s.find name = none := by
  have hmatch (i : ℕ) (hi : i < 0 + sb.maxInodes.toNat) : Triple (Opened (some []) sb)
      (matchName name i) fun r s => r.elim (Opened (some []) sb s) fun _ => False := by
    refine Triple.bind (inodeRead_nil hbs (by omega)) fun r => ?_
    cases r with
    | none => exact Triple.pure fun s hs => hs.1
    | some x => exact fun s _ _ hs => absurd hs.2 (by simp)
  have hfind : Triple (Opened (some []) sb) (inodeFindByName name) fun r _ => r = none := by
    refine Triple.bind (I := fun sb' s => sb' = sb ∧ Opened (some []) sb s)
      (Triple.ask fun s hs => ⟨hs.sb, hs⟩) fun sb' => ?_
    intro s r s' hs hrun
    obtain ⟨rfl, hs⟩ := hs
    have hr := Triple.search hmatch s r s' hs hrun
    cases r with
    | none => rfl
    | some x => exact hr.elim
  rw [World.find]
  cases hrun : inodeFindByName name s with
  | none => rfl
  | some p => exact hfind s p.1 p.2 h hrun

end Cleared

end MiniFs.Image

namespace MiniFs.Properties
open MiniFs.Core MiniFs.Image Library Library.Exec Library.ByteRange

/-- A state a session on a formatted disk reaches. -/
def Reached (w : World) : Prop :=
  ∃ totalSize blockSize now w0 w1 calls results, w0.faults = noFaults ∧
    fsFormat now totalSize blockSize w0 = some (0, w1) ∧
    (∀ c ∈ calls, c.op.ArgsBelow (2 ^ 17)) ∧ session calls w1 = some ((0, results), w)

/-- Every file found in `w` can be read in `w'`, where a mount gave this answer: it is mounted, and
the same inode is found with the same content. -/
def FilesKept (w : World) (mounted : Int) (w' : World) : Prop :=
  ∀ name x, w.find name = some x →
    mounted = 0 ∧ w'.find name = some x ∧ w'.content x = w.content x

section
variable {w w' : World} {now : UInt64} {totalSize blockSize : UInt32}

/-- The disk file after a rejected format. -/
theorem rejectedFormat_file_iff {disk : List UInt8} (hopen : w.faults 0 = none)
    (htrunc : w.faults 1 = none) (hfile : w.file = some disk)
    (h : fsFormat now totalSize blockSize w = some (-1, w')) :
    w'.file = some disk ↔ blockSize < inodeSize ∨ disk = List.replicate totalSize.toNat 0 := by
  rcases fsFormat_rejected hopen htrunc h with ⟨hsmall, msg, rfl⟩ | ⟨hbig, hzero, -⟩
  · exact iff_of_true hfile (.inl hsmall)
  · rw [hzero, Option.some_inj]
    constructor
    · exact fun heq => .inr heq.symm
    · rintro (hsmall | rfl)
      · exact absurd hsmall (UInt32.not_lt.mpr hbig)
      · rfl

/-- A remount that finds the volume on the disk keeps the files. -/
theorem filesKept_of_represents {g : Geometry} {v : View} (h : Represents g w v)
    (h' : Represents g w' { v with stamped := true, out := w'.out }) (hv : Steady g v) :
    FilesKept w 0 w' := by
  intro name x hx
  have hlook : v.vol.lookup name.bytes = some x := (h.find_eq hv.sound hv.faults name).symm.trans hx
  obtain ⟨hlive, -, i, hi, -⟩ := lookup_eq_some hlook
  refine ⟨rfl, (h'.find_eq hv.sound hv.faults name).trans hlook, ?_⟩
  exact (h'.content_eq hv.sound hi hlive).trans (h.content_eq hv.sound hi hlive).symm

/-- What is on the disk after a format with rejected sizes cannot be mounted, or is empty. -/
theorem cleared_find {sb : Superblock} {n : ℕ} (hf : w.faults = noFaults)
    (hfile : w.file = some (List.replicate n 0)) (hsb : w.sb = sb) (hbs : inodeSize ≤ sb.blockSize)
    (h : fsMount w = some (0, w')) (name : CStr) : w'.find name = none := by
  obtain ⟨disk, hdisk, hload, hmagic, hopen⟩ := fsMount_opens hf h
  obtain rfl : disk = List.replicate n 0 := Option.some.inj (hdisk.symm.trans hfile)
  obtain rfl : n = 0 := loadedSb_zeros (hload ▸ hmagic)
  have hsame : w'.sb = sb := hload.trans ((loadedSb_nil w.sb).trans hsb)
  exact hopen.find_nil (hsame ▸ hbs) name

theorem rejectedFormat_files_iff (hreach : Reached w) {mounted : Int}
    (h : shellFormat now totalSize blockSize w = some ((-1, mounted), w')) :
    FilesKept w mounted w' ↔ blockSize < inodeSize ∨ ∀ name, w.find name = none := by
  obtain ⟨totalSize0, blockSize0, now0, w0, w1, calls, results, hf, hfmt, hshort, hses⟩ := hreach
  obtain ⟨hfm, v, hrep, hv, -⟩ := session_steady hf hfmt
    (fun c hc => contentBelow_of_argsBelow (by decide) (hshort c hc)) hses
  have hstamp := stamp_represents hrep hv
  have hfaults : w.faults = noFaults := hrep.faults.trans hv.faults
  obtain ⟨f, hformat, hmount⟩ := shellFormat_inv hrep hv h
  rcases fsFormat_rejected (s := { stamp (Geometry.ofFormat hfm) w with fd := .closed })
    (congrFun hfaults 0) (congrFun hfaults 1) hformat with
    ⟨hsmall, msg, rfl⟩ | ⟨hbig, hzero, hsb, hshift⟩
  · have hmounted := fsMount_same (t := sayMore { stamp (Geometry.ofFormat hfm) w with
      fd := .closed } [msg]) hstamp ⟨hv.sound, hv.faults⟩ rfl hfaults
    obtain ⟨rfl, rfl⟩ := run_unique hmounted hmount
    refine iff_of_true (filesKept_of_represents hrep ?_ hv) (.inl hsmall)
    exact { hstamp with out := rfl }
  · have hnone : ¬ blockSize < inodeSize := UInt32.not_lt.mpr hbig
    have hbs : inodeSize ≤ w.sb.blockSize := by
      rw [UInt32.le_iff_toNat_le, hrep.sb, hv.sound.layout.blockSize]
      exact (Geometry.ofFormat hfm).inode_le
    have hf' : f.faults = noFaults := funext fun k => (hshift k).trans (congrFun hfaults (k + 2))
    constructor
    · intro hkept
      refine .inr fun name => ?_
      cases hx : w.find name with
      | none => rfl
      | some x =>
        obtain ⟨rfl, hfound, -⟩ := hkept name x hx
        rw [cleared_find hf' hzero hsb hbs hmount name] at hfound
        cases hfound
    · rintro (hsmall | hempty)
      · exact absurd hsmall hnone
      · intro name x hx
        rw [hempty name] at hx
        cases hx

/-- A format rejected for its sizes leaves the disk file as it was exactly if the block size was
below the size of an inode, or the file was already zeros of that length; the `format` command of
the shell then keeps every stored file exactly in the first case, or if there was none. -/
theorem rejectedFormat_iff (now : UInt64) (totalSize blockSize : UInt32) :
    (∀ w w' disk, w.faults 0 = none → w.faults 1 = none → w.file = some disk →
      fsFormat now totalSize blockSize w = some (-1, w') →
      (w'.file = some disk ↔ blockSize < inodeSize ∨ disk = List.replicate totalSize.toNat 0)) ∧
    (∀ w mounted w', Reached w →
      shellFormat now totalSize blockSize w = some ((-1, mounted), w') →
      (FilesKept w mounted w' ↔ blockSize < inodeSize ∨ ∀ name, w.find name = none)) :=
  ⟨fun _ _ _ hopen htrunc hfile h => rejectedFormat_file_iff hopen htrunc hfile h,
    fun _ _ _ hreach h => rejectedFormat_files_iff hreach h⟩

set_option maxRecDepth 100000 in
/-- A disk with one file, and the `format` command of the shell with room for three blocks. -/
theorem threeBlocks_run : ∃ w1 w w2 w', fsFormat 0 576 144 (.start none 0 0) = some (0, w1) ∧
    session [⟨.create ⟨[97], by decide⟩, 1⟩] w1 = some ((0, [0]), w) ∧
    fsFormat 2 432 144 w = some (-1, w2) ∧ shellFormat 2 432 144 w = some ((-1, -1), w') ∧
    (w.file.map List.length = some 576 ∧ w2.file.map List.length = some 432) ∧
    (w.find ⟨[97], by decide⟩).isSome := by
  have hrun : (fsFormat 0 576 144 (.start none 0 0)).any (fun p => p.1 = 0 ∧
      (session [⟨.create ⟨[97], by decide⟩, 1⟩] p.2).any (fun q => q.1 = (0, [0]) ∧
        (fsFormat 2 432 144 q.2).any (fun k => k.1 = -1 ∧
          (shellFormat 2 432 144 q.2).any (fun c => c.1 = (-1, -1) ∧
            (q.2.file.map List.length = some 576 ∧ k.2.file.map List.length = some 432) ∧
            (q.2.find ⟨[97], by decide⟩).isSome)))) := by decide +kernel
  obtain ⟨r1, w1, hfmt, h1⟩ := exists_of_any hrun
  obtain ⟨rfl, h1⟩ := of_decide_eq_true h1
  obtain ⟨r2, w, hses, h2⟩ := exists_of_any h1
  obtain ⟨rfl, h2⟩ := of_decide_eq_true h2
  obtain ⟨r3, w2, hrej, h3⟩ := exists_of_any h2
  obtain ⟨rfl, h3⟩ := of_decide_eq_true h3
  obtain ⟨r4, w', hshell, h4⟩ := exists_of_any h3
  obtain ⟨rfl, hfiles, hfind⟩ := of_decide_eq_true h4
  exact ⟨w1, w, w2, w', hfmt, hses, hrej, hshell, hfiles, hfind⟩

theorem reached_one {w1 w : World} (hfmt : fsFormat 0 576 144 (.start none 0 0) = some (0, w1))
    (hses : session [⟨.create ⟨[97], by decide⟩, 1⟩] w1 = some ((0, [0]), w)) : Reached w :=
  ⟨576, 144, 0, .start none 0 0, w1, _, _, rfl, hfmt,
    by simp [FileOp.ArgsBelow, FileOp.args, CStr.strlen], hses⟩

theorem rejectedFormat_iff_three : ∃ w disk w2 w', w.file = some disk ∧
    fsFormat 2 432 144 w = some (-1, w2) ∧ shellFormat 2 432 144 w = some ((-1, -1), w') ∧
    w2.file ≠ some disk ∧ ¬ FilesKept w (-1) w' := by
  obtain ⟨w1, w, w2, w', hfmt, hses, hrej, hshell, ⟨hlen, -⟩, hfind⟩ := threeBlocks_run
  obtain ⟨disk, hdisk, hsize⟩ := Option.map_eq_some_iff.mp hlen
  have hreach := reached_one hfmt hses
  obtain ⟨_, _, _, w0, _, calls, _, hf, hfmt', hshort, hses'⟩ := id hreach
  obtain ⟨hfm, v, hrep, hv, -⟩ := session_steady hf hfmt'
    (fun c hc => contentBelow_of_argsBelow (by decide) (hshort c hc)) hses'
  have hfaults : w.faults = noFaults := hrep.faults.trans hv.faults
  have hno : ¬ (144 : UInt32) < inodeSize := by decide
  refine ⟨w, disk, w2, w', hdisk, hrej, hshell, fun hsame => ?_, fun hkept => ?_⟩
  · obtain hlt | hzeros := ((rejectedFormat_iff 2 432 144).1 w w2 disk (congrFun hfaults 0)
      (congrFun hfaults 1) hdisk hrej).mp hsame
    · exact hno hlt
    · rw [hzeros, List.length_replicate] at hsize
      exact absurd hsize (by decide)
  · obtain hlt | hnone := ((rejectedFormat_iff 2 432 144).2 w (-1) w' hreach hshell).mp hkept
    · exact hno hlt
    · rw [hnone] at hfind
      cases hfind

/-- A format to three blocks is rejected, but the disk file is cut to their size, and the file
stored before is gone. -/
theorem threeBlocks_destroys : ∃ w w2 w', Reached w ∧ fsFormat 2 432 144 w = some (-1, w2) ∧
    w2.file ≠ w.file ∧ shellFormat 2 432 144 w = some ((-1, -1), w') ∧ ¬ FilesKept w (-1) w' := by
  obtain ⟨w1, w, w2, w', hfmt, hses, hrej, hshell, ⟨hlen, hlen2⟩, hfind⟩ := threeBlocks_run
  refine ⟨w, w2, w', reached_one hfmt hses, hrej, ?_, hshell, ?_⟩
  · intro hsame
    rw [hsame, hlen] at hlen2
    cases hlen2
  · intro hkept
    obtain ⟨x, hx⟩ := Option.isSome_iff_exists.mp hfind
    exact absurd (hkept _ x hx).1 (by decide)

end

end MiniFs.Properties
