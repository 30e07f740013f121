import MiniFs.Core.Main
import MiniFs.Image.Catalog
import MiniFs.Properties.FormatAgreement
import MiniFs.Properties.Reformat

/-! # Disks between processes

What a process of one command leaves on the disk is a file system that mounts, with a
sound volume, or nothing that mounts.
-/

set_option autoImplicit false

namespace MiniFs.Properties
open MiniFs.Core MiniFs.Image Library Library.Exec

/-- The disk file between two processes: one has had it mounted, or none can. -/
inductive AtRest (file : Option (List UInt8)) : Prop
  | mounted {w : World} (h : Mounted w) (hfile : w.file = file)
  | unmountable (h : ∀ behindSb garbage, ∃ w,
      fsMount (World.start file behindSb garbage) = some (-1, w))

def TooSmall (totalSize blockSize : UInt32) : Prop :=
  blockSize * 8 ≠ 0 ∧ ¬Formattable totalSize blockSize

section Format
variable {w w' : World} {now : UInt64} {totalSize blockSize : UInt32}

theorem fsFormat_small (w : World) (now : UInt64) (totalSize : UInt32)
    (hsmall : blockSize < inodeSize) :
    ∃ w', fsFormat now totalSize blockSize w = some (-1, w') ∧ w'.file = w.file := by
  rw [fsFormat, if_pos hsmall]
  exact ⟨_, rfl, rfl⟩

/-- With sizes that get past the first check, a format writes a file system or leaves zeros. -/
theorem fsFormat_cases {r : Int} (hf : w.faults = noFaults) (hbig : ¬blockSize < inodeSize)
    (h : fsFormat now totalSize blockSize w = some (r, w')) :
    r = 0 ∨ r = -1 ∧ TooSmall totalSize blockSize ∧
      w'.file = some (List.replicate totalSize.toNat 0) ∧ w'.faults = noFaults := by
  have hopen := diskInit_format hf totalSize blockSize
  have hanswer := (fsFormat_answer hopen h).1
  have hrun := h
  rw [fsFormat_opened hbig hopen] at hrun
  by_cases hbits : blockSize * 8 = 0
  · rw [if_pos hbits] at hrun
    exact nomatch hrun
  rw [if_neg hbits] at hrun
  rcases layOut_codes hrun with rfl | rfl
  · exact .inl rfl
  · have hno : ¬Formattable totalSize blockSize := fun hfm => absurd (hanswer.mpr hfm) (by decide)
    obtain ⟨hsmall, -⟩ | ⟨-, hfile, -, hfaults⟩ :=
      fsFormat_rejected (congrFun hf 0) (congrFun hf 1) h
    · exact absurd hsmall hbig
    · exact .inr ⟨rfl, ⟨hbits, hno⟩, hfile,
        funext fun k => (hfaults k).trans (congrFun hf (k + 2))⟩

end Format

/-! ## A process of one command -/

section Process
variable {w w' : World} {now : UInt64} {file : Option (List UInt8)}

theorem atRest_missing : AtRest none := by
  refine .unmountable fun behindSb garbage => ?_
  obtain ⟨w', hmount, -⟩ := fsMount_missing (s := World.start none behindSb garbage) rfl rfl
  exact ⟨w', hmount⟩

theorem atRest_zeros (n : ℕ) : AtRest (some (List.replicate n 0)) := by
  refine .unmountable fun behindSb garbage => ?_
  exact fsMount_zeros n behindSb garbage

theorem atRest_format {totalSize blockSize : UInt32} (hf : w.faults = noFaults)
    (hfmt : fsFormat now totalSize blockSize w = some (0, w')) : AtRest w'.file := by
  obtain ⟨hfm, w2, hmount, -⟩ := mount_initial hf hfmt
  obtain ⟨s, hs, hformatted⟩ := fsFormat_formatted hfm now hf
  obtain ⟨-, rfl⟩ := run_unique hs hfmt
  exact .mounted (.format hf hfmt hmount) (fsMount_file hformatted.faults hmount)

theorem atRest_unmount (h : Mounted w) (hrun : fsUnmount w = some ((), w')) : AtRest w'.file := by
  obtain ⟨g, v, hrep, hv⟩ := h.steady
  obtain ⟨-, rfl⟩ := run_unique (fsUnmount_ready hrep hv) hrun
  have hmount := fsMount_same (t := { stamp g w with fd := .closed }) (stamp_represents hrep hv)
    ⟨hv.sound, hv.faults⟩ rfl (hrep.faults.trans hv.faults)
  have hresume : resume .remount w = some (0, stamp g w) := by
    rw [resume, bind_apply, fsUnmount_ready hrep hv]
    exact hmount
  exact .mounted (.resume h hresume) rfl

/-- A command behind the mount says that it was called wrongly, or it is one of the commands that
keep the file system sound. -/
theorem mainCommand_cases (now : UInt64) (cmd : CStr) (args : List CStr) :
    (∃ e, mainCommand now cmd args = pure e) ∨
    ∃ (c : Command) (f : Int → Exit), mainCommand now cmd args = (do pure (f (← runCommand c))) ∧
      ∀ n, (∀ arg ∈ args, arg.strlen < n) → c.ArgsBelow n := by
  have hfirst {name arg : CStr} {n : ℕ} (h : ∀ s ∈ [name, arg], s.strlen < n) :
      ∀ s ∈ [name], s.strlen < n := fun s hs =>
    h s (List.mem_cons.mpr (.inl (List.mem_singleton.mp hs)))
  fun_cases mainCommand now cmd args with
  | case1 _ name => exact .inr ⟨.file ⟨.create name, now⟩, .of, rfl, fun _ h => h⟩
  | case3 _ _ name => exact .inr ⟨.file ⟨.delete name, now⟩, .of, rfl, fun _ h => h⟩
  | case5 _ _ _ name data => exact .inr ⟨.file ⟨.write name data, now⟩, .of, rfl, fun _ h => h⟩
  | case7 _ _ _ _ name data => exact .inr ⟨.file ⟨.append name data, now⟩, .of, rfl, fun _ h => h⟩
  | case9 _ _ _ _ _ name => exact .inr ⟨.file ⟨.read name, now⟩, .of, rfl, fun _ h => h⟩
  | case11 _ _ _ _ _ _ oldName newName =>
    exact .inr ⟨.file ⟨.rename oldName newName, now⟩, .of, rfl, fun _ h => h⟩
  | case13 _ _ _ _ _ _ _ src dst =>
    exact .inr ⟨.file ⟨.copy src dst, now⟩, .of, rfl, fun _ h => h⟩
  | case15 _ _ _ _ _ _ _ _ name =>
    exact .inr ⟨.stat name, .of, rfl, fun _ h => h name List.mem_cons_self⟩
  | case17 _ _ _ _ _ _ _ _ _ name mode =>
    exact .inr ⟨.file ⟨.chmod name (UInt16.ofInt (strtol mode 8)), now⟩, .of, rfl,
      fun _ h => hfirst h⟩
  | case19 _ _ _ _ _ _ _ _ _ _ name newSize =>
    exact .inr ⟨.file ⟨.truncate name (atoi newSize), now⟩, .of, rfl, fun _ h => hfirst h⟩
  | case21 => exact .inr ⟨.ls, fun _ => ⟨0, none⟩, rfl, fun _ _ => trivial⟩
  | case22 => exact .inr ⟨.statfs, fun _ => ⟨0, none⟩, rfl, fun _ _ => trivial⟩
  | case23 => exact .inr ⟨.fsck, .of, rfl, fun _ _ => trivial⟩
  | _ => exact .inl ⟨_, rfl⟩

/-- What is between the mount and the unmount of a process keeps the file system sound. -/
theorem mounted_atRest (h : AtRest file) {body : M Exit}
    (hbody : ∀ {m m' : World} {e : Exit}, Mounted m → body m = some (e, m') → Mounted m')
    {behindSb garbage : ℕ → UInt8} {e : Exit}
    (hrun : mounted body (World.start file behindSb garbage) = some (e, w')) : AtRest w'.file := by
  rw [mounted] at hrun
  obtain ⟨r, m, hmount, hrest⟩ := bind_inv hrun
  obtain ⟨rfl, hfile⟩ | ⟨rfl, -⟩ := Image.fsMount_cases rfl hmount
  · obtain ⟨-, rfl⟩ := returned_inj hrest
    rw [hfile]
    exact h
  · cases h with
    | unmountable hno =>
      obtain ⟨t, ht⟩ := hno behindSb garbage
      exact absurd (run_unique ht hmount).1 (by decide)
    | @mounted w hw hfile =>
      subst hfile
      have hbetween : (do let e ← body; fsUnmount; pure e : M Exit) m = some (e, w') := hrest
      obtain ⟨e', m', hexec, hleave⟩ := bind_inv hbetween
      obtain ⟨⟨⟩, t, hunmount, hexit⟩ := bind_inv hleave
      obtain ⟨-, rfl⟩ := returned_inj hexit
      exact atRest_unmount (hbody (.process hw hmount) hexec) hunmount

/-- A process that does not run the shell leaves a disk at rest. The strings of a command line are
shorter than 128 KiB. -/
theorem main_atRest (h : AtRest file) {clock : ℕ → UInt64} {input : List UInt8} {argv : List CStr}
    (hshell : ∀ cmd ∈ argv[1]?, cmd.bytes ≠ ascii ['s', 'h', 'e', 'l', 'l'])
    (hargs : ∀ arg ∈ argv, arg.strlen < 2 ^ 17) {behindSb garbage : ℕ → UInt8} {e : Exit}
    (hrun : main clock input argv (World.start file behindSb garbage) = some (e, w')) :
    AtRest w'.file := by
  have hsame {e' : Exit} (hpure : (pure e' : M Exit) (World.start file behindSb garbage) =
      some (e, w')) : AtRest w'.file := by
    obtain ⟨-, rfl⟩ := returned_inj hpure
    exact h
  revert hrun
  fun_cases main clock input argv with
  | case1 arg0 cmd _ a b =>
    intro hrun
    obtain ⟨r, t, hformat, hexit⟩ := bind_inv hrun
    obtain ⟨-, rfl⟩ := returned_inj hexit
    by_cases hsmall : atoi b < inodeSize
    · obtain ⟨t', ht', hfile⟩ :=
        fsFormat_small (World.start file behindSb garbage) (clock 0) (atoi a) hsmall
      obtain ⟨-, rfl⟩ := run_unique ht' hformat
      rw [hfile]
      exact h
    · obtain rfl | ⟨-, -, hfile, -⟩ := fsFormat_cases rfl hsmall hformat
      · exact atRest_format rfl hformat
      · rw [hfile]
        exact atRest_zeros _
  | case2 => exact hsame
  | case3 arg0 cmd args _ hcmd => exact absurd hcmd (hshell cmd rfl)
  | case4 arg0 cmd args =>
    refine mounted_atRest h fun {m m' e'} hm hexec => ?_
    obtain ⟨e1, hpure⟩ | ⟨c, f, hcommand, hbelow⟩ := mainCommand_cases (clock 0) cmd args
    · rw [hpure] at hexec
      obtain ⟨-, rfl⟩ := returned_inj hexec
      exact hm
    · rw [hcommand] at hexec
      obtain ⟨r, t, hrun, hexit⟩ := bind_inv hexec
      obtain ⟨-, rfl⟩ := returned_inj hexit
      refine .command hm (hbelow _ fun arg harg => ?_) hrun
      exact hargs arg (List.mem_cons_of_mem _ (List.mem_cons_of_mem _ harg))
  | case5 => exact hsame

end Process

end MiniFs.Properties
