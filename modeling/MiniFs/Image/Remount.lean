import MiniFs.Image.Observe
import MiniFs.Image.Reports

/-! # Interruptions between commands

Everything a process knows of a mounted volume is on the disk at the end of each
command, so a remount or a new process shows the same view. Only the rest of
block 0, which nothing reads, may come out different.
-/

set_option autoImplicit false

namespace MiniFs.Image
open MiniFs.Core Library Library.Exec Library.ByteRange

variable {g : Geometry} {s t w : World} {v v' : View}

/-! ## Any command -/

theorem runCommand_runs (hv : Steady g v) {c : Command} (hc : c.ArgsBelow (2 ^ 17)) :
    ∃ r v', Runs (view g) v (runCommand c) r v' ∧ Steady g v' ∧
      (v.stamped = true → v'.stamped = true) := by
  have hprints {m : M Int} {r : Int} (h : Prints (view g) v m r) :
      ∃ r v', Runs (view g) v m r v' ∧ Steady g v' ∧ (v.stamped = true → v'.stamped = true) := by
    obtain ⟨msgs, hrun⟩ := h
    exact ⟨r, v.say msgs, hrun, ⟨hv.sound, hv.faults⟩, id⟩
  cases c with
  | file c =>
    obtain ⟨r, v', hrun, hstep, hv'⟩ :=
      runCall_runs hv (hv.sound.fits (contentBelow_of_argsBelow (by decide) hc))
    exact ⟨r, v', hrun, hv', hstep.stamped⟩
  | ls => exact hprints (fsLs_prints hv.faults hv.sound.layout hv.sound.inodes_length)
  | stat name =>
    obtain ⟨r, hr⟩ := fsStat_prints hv.sound hv.faults name
    exact hprints hr
  | statfs => exact hprints fsStatfs_prints
  | fsck =>
    obtain ⟨r, hr, -⟩ := fsFsck_prints
      (scans_view hv.faults hv.sound.layout hv.sound.inodes_length) hv.sound.layout.magic
    exact hprints hr

/-! ## Unmounting and mounting -/

theorem AgreeOutsideTail.trans {c d e : List UInt8} (h : AgreeOutsideTail g c d)
    (h' : AgreeOutsideTail g d e) : AgreeOutsideTail g c e :=
  ⟨h.1.trans h'.1, fun k hk => (h.2 k hk).trans (h'.2 k hk)⟩

theorem Same.trans (h : Same g s t) (h' : Same g t w) : Same g s w := by
  obtain ⟨c, d, hc, hd, hcd⟩ := h.file
  obtain ⟨d', e, hd', he, hde⟩ := h'.file
  obtain rfl : d = d' := Option.some.inj (hd.symm.trans hd')
  exact ⟨h.fd.trans h'.fd, h.size.trans h'.size, h.sb.trans h'.sb, h.bitmap.trans h'.bitmap,
    h.out.trans h'.out, h.faults.trans h'.faults, c, e, hc, he, hcd.trans hde⟩

theorem Same.refl (h : Represents g s v) : Same g s s := by
  obtain ⟨disk, bytes, hfile, -⟩ := h.memory
  exact ⟨rfl, rfl, rfl, rfl, rfl, rfl, disk, disk, hfile, hfile, rfl, fun _ _ => rfl⟩

/-- A view may forget that the rest of block 0 is known. -/
theorem Represents.restamp (h : Represents g s v) {b : Bool} (hb : b = true → v.stamped = true) :
    Represents g s { v with stamped := b } := by
  obtain ⟨disk, bytes, hfile, hmem, hh, htail⟩ := h.memory
  exact { h with memory := ⟨disk, bytes, hfile, hmem, hh, fun h => htail (hb h)⟩ }

/-- The disk file after `disk_write(0, &sb)`. -/
def stamp (g : Geometry) (s : World) : World :=
  { s with file := s.file.map (splice 0 (superblockBytes g s)) }

theorem stamp_represents (h : Represents g s v) (hv : Steady g v) :
    Represents g (stamp g s) { v with stamped := true } := by
  obtain ⟨disk, bytes, hfile, -, hh, -⟩ := h.memory
  obtain ⟨s', hs', hrep⟩ := (diskWriteSb_runs (g := g) hv.faults).exec h
  rw [diskWriteSb_ready (h.ready hv.faults hfile hh)] at hs'
  obtain ⟨-, rfl⟩ := returned_inj hs'
  have hsave : v.save = { v with stamped := true } := by
    rw [View.save, ← hv.sound.saved]
  rw [hsave] at hrep
  rw [stamp, hfile, Option.map_some]
  exact hrep

/-- The superblock on disk is the one in memory, so only the rest of block 0 is new. -/
theorem stamp_same (h : Represents g s v) (hv : Steady g v) : Same g s (stamp g s) := by
  obtain ⟨disk, bytes, hfile, -, hh, -⟩ := h.memory
  obtain ⟨h144, -⟩ := region_bounds g
  have hlen := length_superblockBytes g s
  have hfit : 0 + (superblockBytes g s).length ≤ disk.length := by
    have h1 := g.blockPos_add_le (lt_of_le_of_lt (Nat.zero_le _) g.dataStart_lt)
    have h2 := hh.length
    omega
  have hhead : slice 0 superblockSize (superblockBytes g s) = slice 0 superblockSize disk := by
    rw [slice_superblockBytes, hh.saved, hv.sound.saved, h.sb]
  refine ⟨rfl, rfl, rfl, rfl, rfl, rfl, disk, splice 0 (superblockBytes g s) disk, hfile, ?_, ?_, ?_⟩
  · simp only [stamp, hfile, Option.map_some]
  · rw [length_splice hfit]
  · intro k hk
    rw [getElem?_splice hfit, hlen]
    rcases hk with hk | hk
    · have hbyte := congrArg (fun l : List UInt8 => l[k]?) hhead
      have hk' : k < 88 := hk
      simp only [getElem?_slice, Nat.zero_add, if_pos hk] at hbyte
      rw [if_neg (by omega), if_pos (by omega), Nat.sub_zero, hbyte]
    · rw [if_neg (by omega), if_neg (by omega)]

/-- `fs_unmount` writes back what is on the disk already. -/
theorem fsUnmount_ready (h : Represents g s v) (hv : Steady g v) :
    fsUnmount s = some ((), { stamp g s with fd := .closed }) := by
  obtain ⟨disk, bytes, hfile, hmem, hh, -⟩ := h.memory
  have hlay : g.Describes s.sb := h.sb ▸ h.layout
  have hready := h.ready hv.faults hfile hh
  have hsync := bitmapSync_ready hlay hready hmem hh.length_bytes
  have hfit : g.blockPos 1 + bytes.length ≤ disk.length := by
    obtain ⟨-, -, h1, h2, h3⟩ := region_bounds g
    have h4 := hh.length
    rw [hh.length_bytes]
    omega
  have hsame : splice (g.blockPos 1) bytes disk = disk := by
    rw [← hh.bitmap]
    exact splice_slice_self (by rw [← hh.length_bytes]; exact hfit)
  rw [hsame, ← hfile] at hsync
  have hsync' : bitmapSync s = some ((), s) := hsync
  simp only [fsUnmount, bind_apply, hsync', Option.bind_some]
  rw [diskWriteSb_ready hready, stamp, hfile]
  rfl

/-- The format and the mount behind the unmount of the shell. -/
theorem shellFormat_inv (h : Represents g s v) (hv : Steady g v) {now : UInt64}
    {totalSize blockSize : UInt32} {formatted mounted : Int}
    (hrun : shellFormat now totalSize blockSize s = some ((formatted, mounted), t)) :
    ∃ u, fsFormat now totalSize blockSize { stamp g s with fd := .closed } =
        some (formatted, u) ∧ fsMount u = some (mounted, t) := by
  rw [shellFormat] at hrun
  obtain ⟨⟨⟩, closed, hunmount, hrun⟩ := bind_inv hrun
  obtain ⟨-, rfl⟩ := run_unique (fsUnmount_ready h hv) hunmount
  obtain ⟨r, u, hformat, hrun⟩ := bind_inv hrun
  obtain ⟨m, u', hmount, hrun⟩ := bind_inv hrun
  obtain ⟨hpair, rfl⟩ := returned_inj hrun
  obtain ⟨rfl, rfl⟩ := Prod.mk.inj hpair
  exact ⟨u, hformat, hmount⟩

/-- What `fs_mount` finds on the disk of a process that shows a steady view is what that process
has in memory. -/
theorem fsMount_same (h : Represents g s v) (hv : Steady g v) (ht : t.file = s.file)
    (hf : t.faults = noFaults) :
    fsMount t = some (0, { s with
      behindSb := t.behindSb, garbage := t.garbage, out := t.out }) := by
  obtain ⟨disk, bytes, hfile, hmem, hh, -⟩ := h.memory
  have hsaved : slice 0 superblockSize disk = superblockCodec.encode s.sb := by
    rw [hh.saved, hv.sound.saved, h.sb]
  have hlay : g.Describes s.sb := h.sb ▸ h.layout
  have hsize : s.diskBlockSize = s.sb.blockSize := by
    rw [← UInt32.toNat_inj, h.size, hlay.blockSize]
  have hmount := fsMount_ready hf (ht.trans hfile) hsaved hlay hh.length
  have hfaults : t.faults = s.faults := hf.trans (h.faults.trans hv.faults).symm
  rw [hmount, ht, hfaults, ← h.fd, ← hsize, hh.bitmap, ← hmem]

/-- The memory of a new process behind its superblock is that of the old one. -/
def Interruption.Keeps (memory : ℕ → UInt8) : Interruption → Prop
  | .restart _ behindSb _ => behindSb = memory
  | _ => True

theorem overrun_eq {s t : World} (h : t.behindSb = s.behindSb) : overrun g t = overrun g s := by
  rw [overrun, overrun, h]

theorem Represents.restarted (h : Represents g s v) {behindSb garbage : ℕ → UInt8}
    (hb : v.stamped = true → behindSb = s.behindSb) :
    Represents g { s with behindSb := behindSb, garbage := garbage } v := by
  obtain ⟨disk, bytes, hfile, hmem, hh, htail⟩ := h.memory
  refine { h with memory := ⟨disk, bytes, hfile, hmem, hh, fun hst => ?_⟩ }
  rw [htail hst, overrun, overrun]
  simp only [hb hst]

/-- After an interruption a process shows the same view. -/
theorem resume_represents (h : Represents g s v) (hv : Steady g v) {x : Interruption}
    (hx : v.stamped = true → Interruption.Keeps s.behindSb x) :
    ∃ t, resume x s = some (0, t) ∧ Represents g t v ∧ Same g s t ∧
      (v.stamped = true → t.behindSb = s.behindSb) := by
  have hstamp : Represents g (stamp g s) v :=
    (stamp_represents h hv).restamp (b := v.stamped) fun _ => rfl
  have hunmount := fsUnmount_ready h hv
  cases x with
  | none => exact ⟨s, rfl, h, .refl h, fun _ => rfl⟩
  | remount =>
    have hmount := fsMount_same (t := { stamp g s with fd := .closed }) hstamp hv rfl
      (h.faults.trans hv.faults)
    refine ⟨stamp g s, ?_, hstamp, stamp_same h hv, fun _ => rfl⟩
    rw [resume, bind_apply, hunmount, Option.bind_some]
    exact hmount
  | restart unmounted behindSb garbage =>
    cases unmounted with
    | false =>
      have hmount := fsMount_same (t := s.restart behindSb garbage) h hv rfl
        (h.faults.trans hv.faults)
      have hrep : Represents g { s with behindSb := behindSb, garbage := garbage } v :=
        h.restarted hx
      refine ⟨_, ?_, hrep, ?_, hx⟩
      · exact hmount
      · exact { Same.refl h with }
    | true =>
      have hmount := fsMount_same
        (t := ({ stamp g s with fd := .closed } : World).restart behindSb garbage) hstamp hv rfl
        (h.faults.trans hv.faults)
      have hrep : Represents g { stamp g s with behindSb := behindSb, garbage := garbage } v :=
        hstamp.restarted hx
      refine ⟨_, ?_, hrep, ?_, hx⟩
      · rw [resume, if_pos rfl, bind_apply, hunmount, Option.bind_some]
        exact hmount
      · exact (stamp_same h hv).trans { Same.refl hstamp with }

/-! ## Runs with and without interruptions -/

/-- A run with interruptions answers like the run without, and ends in a state that differs at most
in the rest of block 0. -/
theorem runResumed_same (h : Represents g s v) (h' : Represents g t v) (hst : Same g s t)
    (hv : Steady g v) (hmem : v.stamped = true → t.behindSb = s.behindSb)
    (steps : List (Interruption × Command)) (hshort : ∀ p ∈ steps, p.2.ArgsBelow (2 ^ 17))
    (hkeep : v.stamped = true → ∀ p ∈ steps, Interruption.Keeps s.behindSb p.1) :
    ∃ rs w w' v', runList runCommand (steps.map Prod.snd) s = some (rs, w) ∧
      runList runResumed steps t = some (rs.map fun r => (0, r), w') ∧ Represents g w v' ∧
      Represents g w' v' ∧ Same g w w' ∧ Steady g v' ∧ v'.stamped = v.stamped ∧
      (v.stamped = true → w'.behindSb = w.behindSb) := by
  induction steps generalizing s t v with
  | nil => exact ⟨[], s, t, v, rfl, rfl, h, h', hst, hv, rfl, hmem⟩
  | cons p steps ih =>
    obtain ⟨t1, ht1, hrep1, hsame1, hmem1⟩ := resume_represents h' hv (x := p.1) fun hs => by
      rw [hmem hs]
      exact hkeep hs p List.mem_cons_self
    obtain ⟨r, v1, hrun, hv1, hstamp⟩ := runCommand_runs hv (hshort p List.mem_cons_self)
    obtain ⟨s2, t2, hs2, ht2, hreps, hrept, henvs, henvt, hsame⟩ :=
      hrun.exec_same h hrep1 (hst.trans hsame1)
    have hbs : s2.behindSb = s.behindSb := (Prod.mk.inj henvs).1
    have hbt : t2.behindSb = t1.behindSb := (Prod.mk.inj henvt).1
    have hkeep2 : v.stamped = true → ∀ q ∈ steps, Interruption.Keeps s2.behindSb q.1 := by
      intro hs q hq
      rw [hbs]
      exact hkeep hs q (List.mem_cons_of_mem p hq)
    obtain ⟨rs, w, w', v', hw, hw', hrest⟩ := ih (hreps.restamp (b := v.stamped) hstamp)
      (hrept.restamp (b := v.stamped) hstamp) hsame ⟨hv1.sound, hv1.faults⟩
      (fun hs => by rw [hbt, hbs, hmem1 hs, hmem hs])
      (fun q hq => hshort q (List.mem_cons_of_mem p hq)) hkeep2
    refine ⟨r :: rs, w, w', v', ?_, ?_, hrest⟩
    · simp only [List.map_cons, runList, bind_apply, hs2, Option.bind_some, hw, pure_apply]
    · simp only [runList, runResumed, bind_apply, ht1, ht2, Option.bind_some, pure_apply, hw',
        List.map_cons]

/-- If the rest of block 0 is known on both sides, the disk files are the same. -/
theorem file_eq_of_stamped (h : Represents g s v) (h' : Represents g t v) (hst : Same g s t)
    (hv : v.stamped = true) (hmem : t.behindSb = s.behindSb) : t.file = s.file := by
  obtain ⟨d, -, hd, -, -, hdtail⟩ := h.memory
  obtain ⟨e, -, he, -, -, hetail⟩ := h'.memory
  obtain ⟨d', e', hd', he', -, hagree⟩ := hst.file
  obtain rfl : d = d' := Option.some.inj (hd.symm.trans hd')
  obtain rfl : e = e' := Option.some.inj (he.symm.trans he')
  have htail : tailOf g e = tailOf g d := by rw [hetail hv, hdtail hv, overrun_eq hmem]
  rw [hd, he]
  congr 1
  ext1 k
  by_cases hk : k < superblockSize ∨ g.blockSize ≤ k
  · exact (hagree k hk).symm
  · have hbyte := congrArg (fun l : List UInt8 => l[k - superblockSize]?) htail
    have hin : superblockSize + (k - superblockSize) = k := by omega
    simp only [tailOf, getElem?_slice, hin] at hbyte
    rwa [if_pos (by omega), if_pos (by omega)] at hbyte

end MiniFs.Image
