import MiniFs.Image.Files

/-! # The file operations refine a store of contents

In every state a session reaches, an operation that returns 0 is a step of the
abstract store: it changes the one file it names and no other.
-/

set_option autoImplicit false

namespace MiniFs.Core
open Image

def World.files (w : World) : FileStore := fun i =>
  (w.slot i).bind fun x => if x.isUsed = 1 then some (w.content x) else none

def World.findSlot (w : World) (name : CStr) : Option ℕ := (w.find name).map (·.id.toNat)

end MiniFs.Core

namespace MiniFs.Properties
open MiniFs.Core Image Library Library.Exec

variable {g : Geometry} {w : World} {v : View}

theorem files_eq (h : Represents g w v) (hv : Steady g v) : w.files = v.vol.files g := by
  funext i
  rw [World.files, Volume.files, h.slot_eq hv.faults]
  cases hi : v.vol.inodes[i]? with
  | none => rfl
  | some x =>
    rw [Option.bind_some, Option.bind_some, Volume.fileOf]
    split_ifs with hx
    · rw [h.content_eq hv.sound hi hx]
    · rfl

theorem findSlot_eq (h : Represents g w v) (hv : Steady g v) :
    w.findSlot = v.vol.findSlot := by
  funext name
  rw [World.findSlot, Volume.findSlot, h.find_eq hv.sound hv.faults]

theorem runCall_storeStep (h : Represents g w v) (hv : Steady g v) {c : FileCall}
    (hc : ContentBelow c.op) :
    ∃ r w', runCall c w = some (r, w') ∧ (r = 0 → ∃ msgs, w'.out = w.out ++ msgs ∧
      StoreStep w.findSlot c.op w.files w'.files (shownContent msgs)) := by
  obtain ⟨r, w', v', hw', h', hstep, hv'⟩ := h.runCall hv (hv.sound.fits hc)
  refine ⟨r, w', hw', fun hr => ?_⟩
  rw [files_eq h hv, files_eq h' hv', findSlot_eq h hv]
  cases hstep with
  | rejected => exact absurd hr (by decide)
  | @accepted vol' msgs _ hacc hadv =>
    refine ⟨msgs, ?_, ?_⟩
    · rw [h'.out, h.out, hadv.out]
    · rw [hadv.vol]
      exact hacc.storeStep hv.sound (hv.sound.fits hc)

/-- In every state a session ends in, a call that returns 0 is a step of the store. -/
theorem session_storeStep {totalSize blockSize : UInt32} {now : UInt64} {w0 w1 w : World}
    (hf : w0.faults = noFaults) (hfmt : fsFormat now totalSize blockSize w0 = some (0, w1))
    {calls : List FileCall} (hshort : ∀ c ∈ calls, c.op.ArgsBelow (2 ^ 17)) {results : List Int}
    (hses : session calls w1 = some ((0, results), w)) (c : FileCall)
    (hc : c.op.ArgsBelow (2 ^ 17)) :
    ∃ r w', runCall c w = some (r, w') ∧ (r = 0 → ∃ msgs, w'.out = w.out ++ msgs ∧
      StoreStep w.findSlot c.op w.files w'.files (shownContent msgs)) := by
  obtain ⟨h, v, hrep, hv, -⟩ := session_steady hf hfmt
    (fun d hd => contentBelow_of_argsBelow (by decide) (hshort d hd)) hses
  exact runCall_storeStep hrep hv (contentBelow_of_argsBelow (by decide) hc)

/-- Reading back what was written. -/
theorem session_storeStep_four : ∃ w1 results w w' msgs,
    fsFormat 0 576 144 (.start none 0 0) = some (0, w1) ∧
    session [⟨.create ⟨[97], by decide⟩, 1⟩, ⟨.write ⟨[97], by decide⟩ ⟨[98], by decide⟩, 2⟩] w1 =
      some ((0, results), w) ∧ runCall ⟨.read ⟨[97], by decide⟩, 3⟩ w = some (0, w') ∧
    w'.out = w.out ++ msgs ∧
    StoreStep w.findSlot (.read ⟨[97], by decide⟩) w.files w'.files (shownContent msgs) := by
  obtain ⟨w1, results, w, hfmt, hses, hread⟩ := exists_session [⟨.create ⟨[97], by decide⟩, 1⟩,
    ⟨.write ⟨[97], by decide⟩ ⟨[98], by decide⟩, 2⟩]
    (fun w => (runCall ⟨.read ⟨[97], by decide⟩, 3⟩ w).any fun p => p.1 = 0) (by decide +kernel)
  obtain ⟨r, u, hrun, hr⟩ := exists_of_any hread
  obtain rfl : r = 0 := of_decide_eq_true hr
  obtain ⟨_, w', hcall, hstep⟩ := session_storeStep rfl hfmt
    (by simp [FileOp.ArgsBelow, FileOp.args, CStr.strlen]) hses ⟨.read ⟨[97], by decide⟩, 3⟩
    (by simp [FileOp.ArgsBelow, FileOp.args, CStr.strlen])
  obtain ⟨rfl, rfl⟩ := run_unique hrun hcall
  obtain ⟨msgs, hout, hstore⟩ := hstep rfl
  exact ⟨w1, results, w, u, msgs, hfmt, hses, hrun, hout, hstore⟩

end MiniFs.Properties
