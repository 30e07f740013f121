import MiniFs.Image.Untouched

/-! # What a disk file keeps over many processes

One process after the other mounts a disk file, runs commands while system calls
fail as they like, and ends with `fs_unmount` or without it. A process that is
killed is one all of whose further calls fail. The files that no command names
are still there for the next process.
-/

set_option autoImplicit false

namespace MiniFs.Properties
open MiniFs.Core MiniFs.Image Library Library.Exec

/-- Commands none of which alters one of the names. -/
def Avoids (names : Set (List UInt8)) (cs : List Command) : Prop :=
  ∀ c ∈ cs, c.ArgsBelow (2 ^ 17) ∧ ∀ name ∈ c.alters, name ∉ names

/-- A process that mounts `file` and runs such commands; the state it ends in. Only the calls of
the mount succeed for sure. -/
def Used (names : Set (List UInt8)) (file : Option (List UInt8)) (w : World) : Prop :=
  ∃ (behindSb garbage : ℕ → UInt8) (f : ℕ → Fault) (cs : List Command) (as : List Int)
    (w1 : World), fsMount (World.start file behindSb garbage) = some (0, w1) ∧ Avoids names cs ∧
    Always runCommand GetsSlot (callTape.set f w1) cs ∧
    runList runCommand cs (callTape.set f w1) = some (as, w)

/-- What a disk file becomes over any number of such processes. -/
inductive Worn (names : Set (List UInt8)) (file : Option (List UInt8)) : Option (List UInt8) → Prop
  | unused : Worn names file file
  | left {file' : Option (List UInt8)} {w : World} (h : Worn names file file')
      (hused : Used names file' w) : Worn names file w.file
  | unmounted {file' : Option (List UInt8)} {w w' : World} (h : Worn names file file')
      (hused : Used names file' w) (hend : fsUnmount w = some ((), w')) : Worn names file w'.file

section
variable {g : Geometry} {B : Bystanders g} {disk : List UInt8} {s : World}

theorem guarded_of_used {names : Set (List UInt8)} (hnames : B.names = names) (h : B.OnDisk disk)
    (hused : Used names (some disk) s) : B.Guarded ∅ s := by
  obtain ⟨behindSb, garbage, f, cs, as, w1, hmount, hcs, hgets, hrun⟩ := hused
  obtain ⟨w, hmount', -, hguard⟩ := h.mounts (s := World.start (some disk) behindSb garbage) rfl rfl
  obtain ⟨-, rfl⟩ := run_unique hmount hmount'
  obtain ⟨as', s', hrun', hs'⟩ := Bystanders.runList_guarded (fun c hc => (hcs c hc).1)
    (fun c hc => hnames ▸ (hcs c hc).2) (hguard.disturb f) hgets
  obtain ⟨-, rfl⟩ := run_unique hrun hrun'
  exact hs'

theorem onDisk_of_worn {names : Set (List UInt8)} (hnames : B.names = names) (h : B.OnDisk disk)
    {file : Option (List UInt8)} (hworn : Worn names (some disk) file) :
    ∃ disk', file = some disk' ∧ B.OnDisk disk' := by
  induction hworn with
  | unused => exact ⟨disk, rfl, h⟩
  | left _ hused ih =>
    obtain ⟨disk', rfl, h'⟩ := ih
    exact (guarded_of_used hnames h' hused).onDisk
  | unmounted _ hused hend ih =>
    obtain ⟨disk', rfl, h'⟩ := ih
    obtain ⟨u, w', hend', hdisk⟩ := Bystanders.fsUnmount_guarded _ (guarded_of_used hnames h' hused)
    obtain ⟨-, rfl⟩ := run_unique hend hend'
    exact hdisk

end

/-- After any number of processes a new one mounts the disk, finds each file that no command
altered as it was, and comes to the end of its own commands whatever fails. -/
theorem worn_durability {w : World} (hw : Mounted w) {names : Set (List UInt8)}
    {file : Option (List UInt8)} (hworn : Worn names w.file file) (behindSb garbage : ℕ → UInt8) :
    ∃ w', fsMount (World.start file behindSb garbage) = some (0, w') ∧
      (∀ name : CStr, name.bytes ∈ names → (shown w').file name = (shown w).file name) ∧
      ∀ (f : ℕ → Fault) (cs : List Command), Avoids names cs →
        Always runCommand GetsSlot (callTape.set f w') cs →
        ∃ as w'', runList runCommand cs (callTape.set f w') = some (as, w'') := by
  obtain ⟨g, v, hrep, hv⟩ := hw.steady
  obtain ⟨disk, bytes, hfile, -, hh, -⟩ := hrep.memory
  let B : Bystanders g := ⟨v.vol, hv.sound, names⟩
  rw [hfile] at hworn
  obtain ⟨disk', rfl, hdisk⟩ :=
    onDisk_of_worn (B := B) rfl ⟨bytes, _, hh, B.keeps_refl⟩ hworn
  obtain ⟨w', hmount, hf, hguard⟩ :=
    hdisk.mounts (s := World.start (some disk') behindSb garbage) rfl rfl
  refine ⟨w', hmount, fun name hname => ?_, fun f cs hcs hgets => ?_⟩
  · rw [hguard.file_eq hf hname, hrep.shown_eq hv]
  · obtain ⟨as, w'', hrun, -⟩ := Bystanders.runList_guarded (fun c hc => (hcs c hc).1)
      (fun c hc => (hcs c hc).2) (hguard.disturb f) hgets
    exact ⟨as, w'', hrun⟩

/-- A process appends to one file, and all its calls from the tenth on fail; the other file is
still there. -/
theorem worn_durability_twoBytes : ∃ w file, Mounted w ∧ Worn {[97]} w.file file ∧
    ∃ w', fsMount (World.start file 0 0) = some (0, w') ∧
      (∀ name : CStr, name.bytes ∈ ({[97]} : Set (List UInt8)) →
        (shown w').file name = (shown w).file name) ∧
      ∀ (f : ℕ → Fault) (cs : List Command), Avoids {[97]} cs →
        Always runCommand GetsSlot (callTape.set f w') cs →
        ∃ as w'', runList runCommand cs (callTape.set f w') = some (as, w'') := by
  obtain ⟨w, hw, -⟩ := exists_twoBytes
  let cs : List Command := [.file ⟨.create ⟨[98], by decide⟩, 3⟩,
    .file ⟨.append ⟨[98], by decide⟩ ⟨[120], by decide⟩, 4⟩]
  let f (k : ℕ) : Fault := if k < 9 then none else some 0
  have hcs : Avoids {[97]} cs := by
    simp [cs, Avoids, Command.ArgsBelow, FileOp.ArgsBelow, FileOp.args, CStr.strlen,
      Command.alters, FileOp.alters]
  obtain ⟨w1, hmount, -, hend⟩ := worn_durability hw (.unused : Worn {[97]} w.file w.file) 0 0
  have hgets : Always runCommand GetsSlot (callTape.set f w1) cs :=
    ⟨trivial, fun _ _ _ => ⟨trivial, fun _ _ _ => trivial⟩⟩
  obtain ⟨as, w2, hrun⟩ := hend f cs hcs hgets
  have hworn : Worn {[97]} w.file w2.file :=
    .left .unused ⟨0, 0, f, cs, as, w1, hmount, hcs, hgets, hrun⟩
  exact ⟨w, w2.file, hw, hworn, worn_durability hw hworn 0 0⟩

end MiniFs.Properties
