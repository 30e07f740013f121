import MiniFs.Image.Untouched

/-! # Failing system calls do not reach other files

Any number of system calls may fail while commands run. A file that none of the
commands names is afterwards what it was: the same inode, but for the access time,
and the same content.
-/

set_option autoImplicit false

namespace MiniFs.Properties
open MiniFs.Core MiniFs.Image Library Library.Exec

/-- Whatever system calls fail while commands run, the commands return, and each file that none of
them names is left as it was. -/
theorem runCommands_containment {w : World} (hw : Mounted w) (f : ℕ → Fault) {cs : List Command}
    (hargs : ∀ c ∈ cs, c.ArgsBelow (2 ^ 17))
    (hgets : Always runCommand GetsSlot (callTape.set f w) cs) :
    ∃ as w', runList runCommand cs (callTape.set f w) = some (as, w') ∧
      ∀ name : CStr, (∀ c ∈ cs, name.bytes ∉ c.alters) →
        (shown w'.still).file name = (shown w).file name := by
  obtain ⟨g, v, hrep, hv⟩ := hw.steady
  let B : Bystanders g := ⟨v.vol, hv.sound, {name | ∀ c ∈ cs, name ∉ c.alters}⟩
  obtain ⟨as, w', hrun, hguard⟩ := Bystanders.runList_guarded (B := B) hargs
    (fun c hc name hmem hname => hname c hc hmem) (B.guarded_of_represents hrep rfl f) hgets
  refine ⟨as, w', hrun, fun name hname => ?_⟩
  rw [hguard.still.file_eq rfl hname, hrep.shown_eq hv]

/-- The calls from the tenth on fail while a file is made and written. -/
theorem runCommands_containment_twoBytes : ∃ w, Mounted w ∧ ∃ as w', runList runCommand
    [.file ⟨.create ⟨[98], by decide⟩, 3⟩,
      .file ⟨.append ⟨[98], by decide⟩ ⟨[120], by decide⟩, 4⟩]
    (callTape.set (fun k => if k < 9 then none else some 0) w) = some (as, w') ∧
      ∀ name : CStr, (∀ c ∈ [Command.file ⟨.create ⟨[98], by decide⟩, 3⟩,
        .file ⟨.append ⟨[98], by decide⟩ ⟨[120], by decide⟩, 4⟩], name.bytes ∉ c.alters) →
        (shown w'.still).file name = (shown w).file name := by
  obtain ⟨w, hw, -⟩ := exists_twoBytes
  refine ⟨w, hw, runCommands_containment hw _ ?_ ?_⟩
  · simp [Command.ArgsBelow, FileOp.ArgsBelow, FileOp.args, CStr.strlen]
  · exact ⟨trivial, fun _ _ _ => ⟨trivial, fun _ _ _ => trivial⟩⟩

end MiniFs.Properties
