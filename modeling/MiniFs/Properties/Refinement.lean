import MiniFs.Spec.Steps
import MiniFs.Spec.Reports
import MiniFs.Library.Simulation

/-! # The file system refines the flat one

Whatever commands are run, interrupted or not, their answers and their output are those
of the flat file system, and so is what a process shows in the end.
-/

set_option autoImplicit false

namespace MiniFs.Image
open MiniFs.Core MiniFs.Spec Library Library.Exec

variable {g : Geometry} {v : View} {s w : World}

theorem runCommand_flat (hv : Steady g v) {c : Command} (hc : c.ArgsBelow (2 ^ 17)) :
    ∃ r v', Runs (view g) v (runCommand c) r v' ∧ Steady g v' ∧
      Spec.run c (v.flat g) = (r, v'.flat g) := by
  cases c with
  | file c =>
    have hfit : Fits g v.vol c.op := hv.sound.fits (contentBelow_of_argsBelow (by decide) hc)
    exact runOp_flat hv c.now c.op hfit
  | ls => exact ⟨0, ls_flat hv⟩
  | stat name => exact stat_flat hv name
  | statfs => exact ⟨0, statfs_flat hv⟩
  | fsck => exact fsck_flat hv

theorem runCommand_follows {c : Command} (hc : c.ArgsBelow (2 ^ 17)) :
    Follows Mounted World.flat (runCommand c) (Spec.run c) := by
  intro s hs
  obtain ⟨g, v, hrep, hv⟩ := hs.steady
  obtain ⟨r, v', hruns, hv', hflat⟩ := runCommand_flat hv hc
  obtain ⟨s', hs', hrep'⟩ := hruns.exec hrep
  rw [hrep.flat_eq hv, hflat]
  exact ⟨s', hs', .command hs hc hs', hrep'.flat_eq hv'⟩

theorem Mounted.resumes (hs : Mounted s) (x : Interruption) :
    ∃ s', Core.resume x s = some (0, s') ∧ Mounted s' ∧ s'.flat = s.flat := by
  obtain ⟨g, v, hrep, hv⟩ := hs.steady
  have hv' : Steady g { v with stamped := false } := ⟨hv.sound, hv.faults⟩
  obtain ⟨t, ht, hrep', -⟩ := resume_represents (x := x)
    (hrep.restamp (b := false) fun hb => absurd hb Bool.false_ne_true) hv'
    fun hb => absurd hb Bool.false_ne_true
  refine ⟨t, ht, .resume hs ht, ?_⟩
  rw [hrep'.flat_eq hv', hrep.flat_eq hv]
  rfl

theorem runResumed_follows {p : Interruption × Command} (hp : p.2.ArgsBelow (2 ^ 17)) :
    Follows Mounted World.flat (Core.runResumed p) (Spec.runResumed p) :=
  .unseen (fun _ hs => hs.resumes p.1) (runCommand_follows hp)

/-- A disk that was just formatted is the flat file system without files. -/
theorem formatted_flat {now : UInt64} {totalSize blockSize : UInt32} {w0 w1 w2 : World}
    (hf : w0.faults = noFaults) (hfmt : fsFormat now totalSize blockSize w0 = some (0, w1))
    (hmount : fsMount w1 = some (0, w2)) : w2.flat = ⟨formatSb now totalSize blockSize,
      List.replicate (formatSb now totalSize blockSize).maxInodes.toNat none,
      w1.out.map seen⟩ := by
  obtain ⟨hfm, w3, hmount', hrep, hv⟩ := mount_initial hf hfmt
  obtain ⟨-, rfl⟩ := run_unique hmount hmount'
  rw [hrep.flat_eq hv, View.flat, Volume.flat]
  ext1
  · rfl
  · have hlen := hv.sound.inodes_length
    have hmax := hv.sound.layout.maxInodes
    change (initialView hfm now w1.out).vol.inodes.length = _ at hlen
    rw [List.eq_replicate_iff]
    refine ⟨by rw [List.length_map, hlen, ← hmax]; rfl, fun f hfile => ?_⟩
    obtain ⟨x, hx, rfl⟩ := List.mem_map.mp hfile
    have hfree : x.isUsed = 0 := by
      obtain ⟨-, rfl⟩ := List.mem_replicate.mp hx
      rfl
    exact file?_free _ hfree
  · rfl

/-- A process that has mounted a disk of these sizes without files, and has printed nothing. -/
theorem exists_formatted {totalSize blockSize : UInt32} (h : Formattable totalSize blockSize) :
    ∃ w, Mounted w ∧ w.flat = ⟨formatSb 0 totalSize blockSize,
      List.replicate (formatSb 0 totalSize blockSize).maxInodes.toNat none, []⟩ := by
  have hf : (World.start none 0 0).faults = noFaults := rfl
  obtain ⟨w1, hfmt, -⟩ := fsFormat_formatted h 0 hf
  obtain ⟨-, w2, hmount, -⟩ := mount_initial hf hfmt
  have hw2 : Mounted w2 := .format hf hfmt hmount
  obtain ⟨g, v, hrep, hv⟩ := hw2.steady
  obtain ⟨w, hmount', hrep', hv'⟩ := hrep.mounts hv 0 0
  refine ⟨w, .process hw2 hmount', ?_⟩
  have hflat := formatted_flat hf hfmt hmount
  rw [hrep.flat_eq hv] at hflat
  rw [hrep'.flat_eq hv']
  exact congrArg (fun fs : Flat => { fs with printed := [] }) hflat

theorem formattable_eight : Formattable 1152 144 := ⟨by decide, by decide, by decide⟩

end MiniFs.Image

namespace MiniFs.Properties
open MiniFs.Core MiniFs.Image MiniFs.Spec Library Library.Exec

/-- Any commands, with the process ending, being killed or remounting before any of them, answer and
print what the flat file system does, and the process shows it in the end. -/
theorem session_refines_flat {steps : List (Interruption × Command)}
    (h : ∀ p ∈ steps, p.2.ArgsBelow (2 ^ 17)) :
    Follows Mounted World.flat (runList Core.runResumed steps) (runEach Spec.runResumed steps) :=
  .list fun p hp => runResumed_follows (h p hp)

def createStat : List (Interruption × Command) :=
  [(.none, .file ⟨.create ⟨[102, 108], by decide⟩, 0⟩), (.remount, .stat ⟨[102, 108], by decide⟩)]

theorem session_refines_flat_createStat : ∃ w w', Mounted w ∧ Mounted w' ∧
    runList Core.runResumed createStat w =
      some ((runEach Spec.runResumed createStat w.flat).1, w') ∧
    w'.flat = (runEach Spec.runResumed createStat w.flat).2 := by
  obtain ⟨w, hw, -⟩ := exists_twoBytes
  have hshort : ∀ p ∈ createStat, p.2.ArgsBelow (2 ^ 17) := by
    simp [createStat, Command.ArgsBelow, FileOp.ArgsBelow, FileOp.args, CStr.strlen]
  obtain ⟨w', hrun, hw', hflat⟩ := session_refines_flat hshort w hw
  exact ⟨w, w', hw, hw', hrun, hflat⟩

end MiniFs.Properties
