import MiniFs.Image.Tolerance
import MiniFs.Properties.Names
import MiniFs.Properties.Contents
import MiniFs.Properties.WriteThrough

/-! # Failures of the disk

The operations drop the result of almost every transfer, so that a failure behind
the look-ups goes unreported. In a run where all failures are reads of look-ups
that end as they would anyway, or in a refusal, a call that returns 0 is carried
out completely.
-/

set_option autoImplicit false

namespace MiniFs.Core

/-- What a failing transfer on an open disk prints. -/
def Message.IsFailure : Message → Prop
  | .diskReadPread | .diskReadEof _ | .diskWritePwrite => True
  | _ => False

end MiniFs.Core

namespace MiniFs.Properties
open MiniFs.Core Image Library Library.Exec

/-- What a call that returns 0 must have done, whatever fails and whatever a failing read leaves in
its buffer. At most reads of look-ups failed. The inode table, the bitmap, the data blocks and the
saved superblock have the changes of the operation, and what was shown is the content on disk. -/
def Reported (g : Geometry) (w : World) (c : FileCall) (r : Int) (w' : World) : Prop :=
  r = 0 → ∃ errs msgs v v', w'.out = w.out ++ errs ++ msgs ∧
    (∀ msg ∈ errs, msg = .diskReadPread) ∧ (∀ msg ∈ msgs, ¬ msg.IsFailure) ∧
    Represents g w v ∧ Represents g w' v' ∧ Accepted g c.now c.op v.vol v'.vol msgs ∧
    StoreStep w.still.findSlot c.op w.still.files w'.still.files (shownContent msgs) ∧
    WriteThrough w'

/-- The call meets no failure that it misses, and stores what it can count. -/
def QuietCall (w : World) (c : FileCall) : Prop :=
  Storable w.still.find w.sb c.op ∧ Quiet w.still.slot w.sb w.faults c.op

variable {g : Geometry} {w : World} {v : View} {c : FileCall}

theorem Accepted.no_failure {now : UInt64} {op : FileOp} {vol vol' : Volume} {msgs : List Message}
    (h : Accepted g now op vol vol' msgs) : ∀ msg ∈ msgs, ¬ msg.IsFailure := by
  intro msg hmsg
  cases h with
  | read hat =>
    split_ifs at hmsg with hsize
    · obtain rfl := List.mem_singleton.mp hmsg
      exact id
    · rcases List.mem_cons.mp hmsg with rfl | hmsg
      · exact id
      · obtain rfl := List.mem_singleton.mp hmsg
        exact id
  | _ =>
    obtain rfl := List.mem_singleton.mp hmsg
    exact id

/-- A quiet call on a sound volume is refused or carried out. -/
theorem quietCall_reported (h : Represents g w.still v) (hv : Steady g v) (hc : QuietCall w c) :
    ∃ r w' v', runCall c w = some (r, w') ∧ Reported g w c r w' ∧ Represents g w'.still v' ∧
      Steady g v' := by
  obtain ⟨hstore, hquiet⟩ := hc
  have hsb : w.sb = v.vol.sb := h.sb
  have hslot : w.still.slot = v.vol.slot := funext (h.slot_eq hv.faults)
  rw [find_eq h hv, hsb] at hstore
  rw [hslot, hsb] at hquiet
  have hfit := Storable.fits hv.sound hstore
  have htol : Tolerated (runCall c) w.still w.faults := runOp_tolerated h hv hfit hquiet
  obtain ⟨r, t, hrun, hend⟩ := htol fun l => by
    obtain ⟨r, u, -, hu, -⟩ := (h.say l).runCall (c := c) (hv.say l) hfit
    exact ⟨r, u, hu⟩
  have hrun' : runCall c w = some (r, t) := hrun
  rcases hend with ⟨rfl, msgs, f', rfl⟩ | ⟨errs, u, f', herrs, hu, rfl⟩
  · exact ⟨-1, _, v.say msgs, hrun', fun h0 => absurd h0 (by decide), h.say msgs, hv.say msgs⟩
  obtain ⟨r', u', v', hu', hrep', hstep, hv'⟩ := (h.say errs).runCall (c := c) (hv.say errs) hfit
  obtain ⟨rfl, rfl⟩ := run_unique hu hu'
  have hstill : (callTape.set f' u).still = u := set_noFaults (hrep'.faults.trans hv'.faults)
  refine ⟨r, _, v', hrun', fun h0 => ?_, by rw [hstill]; exact hrep', hv'⟩
  cases hstep with
  | rejected => exact absurd h0 (by decide)
  | @accepted vol' msgs _ hacc hadv =>
    have hout : u.out = w.out ++ errs ++ msgs := by
      rw [hrep'.out, hadv.out]
      exact congrArg (· ++ errs ++ msgs) h.out.symm
    have hsaved := writeThrough_of_steady hrep' hv'
    have hstepped := hacc.storeStep hv.sound hfit
    rw [← hadv.vol] at hacc hstepped
    refine ⟨errs, msgs, _, _, hout, herrs, Accepted.no_failure hacc, h.disturb w.faults,
      hrep'.disturb f', hacc, ?_, hsaved.superblock, hsaved.bitmap⟩
    rw [hstill, files_eq h hv, findSlot_eq h hv, files_eq hrep' hv']
    exact hstepped

theorem quietCalls_reported (h : Represents g w.still v) (hv : Steady g v) {calls : List FileCall}
    (hquiet : Always runCall QuietCall w calls) : Throughout runCall (Reported g) w calls := by
  induction calls generalizing w v with
  | nil => trivial
  | cons c calls ih =>
    obtain ⟨r, w', v', hrun, hrep, h', hv'⟩ := quietCall_reported h hv hquiet.1
    exact ⟨r, w', hrun, hrep, ih h' hv' (hquiet.2 r w' hrun)⟩

/-- After a format and a mount, whatever system calls fail from then on: in a run of quiet calls,
every call that returns 0 is carried out. -/
theorem mounted_reported {totalSize blockSize : UInt32} {now : UInt64} {w0 w1 : World}
    (hf : w0.faults = noFaults) (hfmt : fsFormat now totalSize blockSize w0 = some (0, w1)) :
    ∃ (h : Formattable totalSize blockSize) (w2 : World), fsMount w1 = some (0, w2) ∧
      ∀ (faults : ℕ → Fault) (calls : List FileCall),
        Always runCall QuietCall { w2 with faults := faults } calls →
        Throughout runCall (Reported (Geometry.ofFormat h)) { w2 with faults := faults } calls := by
  obtain ⟨h, w2, hmount, hrep, hv⟩ := mount_initial hf hfmt
  refine ⟨h, w2, hmount, fun faults calls hquiet => ?_⟩
  have hstill : World.still { w2 with faults := faults } = w2 :=
    set_noFaults (hrep.faults.trans hv.faults)
  exact quietCalls_reported (hstill ▸ hrep) hv hquiet

/-- One slot, which is free, and whose first read fails: a file is created all the same. -/
theorem mounted_reported_four : ∃ (h : Formattable 576 144) (w1 w2 : World),
    fsFormat 0 576 144 (.start none 0 0) = some (0, w1) ∧ fsMount w1 = some (0, w2) ∧
    Throughout runCall (Reported (Geometry.ofFormat h))
      { w2 with faults := fun k => if k = 0 then some 0 else none }
      [⟨.create ⟨[97], by decide⟩, 1⟩] := by
  have hmounted := exists_mounted 576 144
    (fun w => w.sb.maxInodes = 1 ∧ ∃ x ∈ w.still.slot 0, x.isUsed = 0)
  obtain ⟨w1, w2, hfmt, hmounts, h1⟩ := hmounted (by decide +kernel)
  obtain ⟨h, w, hmount, hall⟩ := mounted_reported rfl hfmt
  obtain rfl : w2 = w := (run_unique hmounts hmount).2
  obtain ⟨hmax, x, hslot, hfree⟩ := of_decide_eq_true h1
  have hn : w2.sb.maxInodes.toNat = 1 := by rw [hmax]; rfl
  have hscan (f : ℕ → Fault) (p : Inode → Bool) :
      firstRead w2.still.slot w2.sb.maxInodes.toNat f p =
        if (f 0).isNone && p x then some 0 else none := by
    have hslot : w2.still.slot 0 = some x := hslot
    rw [firstRead, hn, List.range_one, List.find?_singleton, hslot, Option.any_some]
  refine ⟨h, w1, w2, hfmt, hmount, hall _ _ ⟨⟨trivial, fun _ _ => ⟨?_, fun _ i y hi _ => ⟨?_, ?_⟩⟩⟩,
    fun _ _ _ => trivial⟩⟩
  · exact (hscan _ _).trans (if_neg (by simp [matchesName, hfree]))
  · have hcalm : firstRead w2.still.slot w2.sb.maxInodes.toNat noFaults (·.isUsed = 0) = some 0 :=
      (hscan _ _).trans (if_pos (by simp [noFaults, hfree]))
    have hi := hi.symm.trans (hscan _ _)
    split_ifs at hi
    rw [hi]
    exact hcalm
  · exact fun k _ => if_neg (by omega)

set_option maxRecDepth 100000 in
/-- The third call of a write, that of the data block, fails: the write returns 0, and the file shows
what the block held before. -/
theorem lostWrite : ∃ w1 w2 w w',
    fsFormat 0 576 144 (.start none 0 0) = some (0, w1) ∧ fsMount w1 = some (0, w2) ∧
    runCall ⟨.create ⟨[97], by decide⟩, 1⟩ w2 = some (0, w) ∧
    runCall ⟨.write ⟨[97], by decide⟩ ⟨[120], by decide⟩, 2⟩
      { w with faults := fun k => if k = 2 then some 0 else none } = some (0, w') ∧
    w'.still.files 0 = some [0] ∧ ∀ g, ¬ Reported g
      { w with faults := fun k => if k = 2 then some 0 else none }
      ⟨.write ⟨[97], by decide⟩ ⟨[120], by decide⟩, 2⟩ 0 w' := by
  have hmounted := exists_mounted 576 144
    (fun w2 => (runCall ⟨.create ⟨[97], by decide⟩, 1⟩ w2).any fun k => k.1 = 0 ∧
      k.2.still.findSlot ⟨[97], by decide⟩ = some 0 ∧
      (runCall ⟨.write ⟨[97], by decide⟩ ⟨[120], by decide⟩, 2⟩
        { k.2 with faults := fun k => if k = 2 then some 0 else none }).any fun e =>
          e.1 = 0 ∧ e.2.still.files 0 = some [0])
  obtain ⟨w1, w2, hfmt, hmount, h2⟩ := hmounted (by decide +kernel)
  obtain ⟨r3, w, hcreate, h3⟩ := exists_of_any h2
  obtain ⟨rfl, hfind, h3⟩ := of_decide_eq_true h3
  obtain ⟨r4, w', hwrite, h4⟩ := exists_of_any h3
  obtain ⟨rfl, hfile⟩ := of_decide_eq_true h4
  refine ⟨w1, w2, w, w', hfmt, hmount, hcreate, hwrite, hfile, fun g hrep => ?_⟩
  obtain ⟨errs, msgs, v, v', -, -, -, -, -, -, hstep, -⟩ := hrep rfl
  generalize w'.still.files = after at hstep hfile
  generalize shownContent msgs = shown at hstep
  cases hstep with
  | @write _ _ _ i hi =>
    obtain rfl : 0 = i := Option.some.inj (hfind.symm.trans hi)
    rw [Function.update_self] at hfile
    exact absurd hfile (by decide)

end MiniFs.Properties
