import MiniFs.Image.Files

/-! # Failed operations

An operation that does not return 0 leaves files, bitmap and superblock as they
were, and the failures that would come after work has begun do not happen.
-/

set_option autoImplicit false

namespace MiniFs.Properties
open MiniFs.Core Image Library Library.Exec Library.BitArray

/-- The live inodes and their contents, the bitmap and the superblock, in memory and on disk, are
as they were. -/
structure Untouched (w w' : World) : Prop where
  live : ∀ i x, w'.LiveAt i x ↔ w.LiveAt i x
  content : ∀ i x, w.LiveAt i x → w'.content x = w.content x
  bitmap : w'.bitmap = w.bitmap
  saved_bitmap : w'.savedBitmap = w.savedBitmap
  sb : w'.sb = w.sb
  saved_sb : w'.savedSb = w.savedSb

variable {g : Geometry} {vol vol' : Volume} {w w' : World} {v v' : View}

theorem bitmap_eq (h : Represents g w v) (h' : Represents g w' v')
    (hused : v'.vol.used = v.vol.used) : w'.bitmap = w.bitmap := by
  obtain ⟨disk, bytes, -, hmem, hh, -⟩ := h.memory
  obtain ⟨disk', bytes', -, hmem', hh', -⟩ := h'.memory
  have hbytes : bytes' = bytes := by
    apply eq_of_bitAt
    · rw [hh.length_bytes, hh'.length_bytes]
    · intro b
      rw [hh.bits, hh'.bits, hused]
  rw [hmem, hmem', hbytes]

/-- A rejected operation changes no live inode, and nothing else but a free slot. -/
theorem Rejected.untouched {op : FileOp} {msg : Message} (h : Rejected g op vol vol' msg) :
    (∀ (i : ℕ) (x : Inode), x.isUsed = 1 → (vol'.inodes[i]? = some x ↔ vol.inodes[i]? = some x)) ∧
      vol'.data = vol.data ∧ vol'.used = vol.used ∧ vol'.sb = vol.sb ∧ vol'.saved = vol.saved := by
  rcases h.cases with rfl | ⟨i, y, hslot, rfl⟩
  · exact ⟨fun _ _ _ => Iff.rfl, rfl, rfl, rfl, rfl⟩
  · refine ⟨fun j x hx => ?_, rfl, rfl, rfl, rfl⟩
    obtain ⟨hlt, rfl⟩ := List.getElem?_eq_some_iff.mp hslot.slot
    rcases eq_or_ne i j with rfl | hij
    · have hfree : x.isUsed ≠ 0 := by rw [hx]; decide
      refine iff_of_false (fun hnew => ?_) (fun hold => ?_)
      · change (vol.inodes.set i _)[i]? = some x at hnew
        rw [List.getElem?_set_self hlt] at hnew
        obtain rfl := Option.some.inj hnew
        exact hfree rfl
      · rw [hslot.slot] at hold
        obtain rfl := Option.some.inj hold
        exact hfree hslot.free
    · change (vol.inodes.set i _)[j]? = some x ↔ _
      rw [List.getElem?_set_ne hij]

theorem subject_message {op : FileOp} {name : CStr} {msg : Message}
    (h : subject op = some (name, msg)) :
    msg = .fileNotFound name.bytes ∨ msg = .sourceNotFound name.bytes := by
  unfold subject at h
  split at h
  · exact nomatch h
  all_goals
    obtain ⟨rfl, rfl⟩ := returned_inj h
    simp

/-- What is printed never tells of a failure after work has begun. -/
theorem Outcome.no_late_failure {now : UInt64} {op : FileOp} {r : Int}
    (h : Outcome g now op v r v') : ∃ msgs, v'.out = v.out ++ msgs ∧
      .bitmapAllocateFailed ∉ msgs ∧ .inodeAllocateFailed ∉ msgs := by
  cases h with
  | accepted hstep hadv =>
    refine ⟨_, hadv.out, ?_⟩
    cases hstep with
    | read => split_ifs <;> simp
    | _ => simp
  | rejected hstep hadv =>
    refine ⟨_, hadv.out, ?_⟩
    cases hstep with
    | notFound hsub =>
      rcases subject_message hsub with rfl | rfl
      · simp
      · simp
    | _ => simp [tooLarge, noRoom]

theorem untouched_of_rejected (h : Represents g w v) (hv : Steady g v) (h' : Represents g w' v')
    (hv' : Steady g v') {op : FileOp} {msg : Message} (hrej : Rejected g op v.vol v'.vol msg) :
    Untouched w w' := by
  obtain ⟨hlive, hdata, hused, hsb, hsaved⟩ := Rejected.untouched hrej
  have hslots (i : ℕ) (x : Inode) : w'.LiveAt i x ↔ w.LiveAt i x := by
    rw [h.liveAt_iff hv.faults, h'.liveAt_iff hv'.faults]
    exact and_congr_left fun hx => hlive i x hx
  have hbitmap := bitmap_eq h h' hused
  refine ⟨hslots, fun i x hx => ?_, hbitmap, ?_, ?_, ?_⟩
  · obtain ⟨hi, hx1⟩ := (h.liveAt_iff hv.faults).mp hx
    obtain ⟨hi', -⟩ := (h'.liveAt_iff hv'.faults).mp ((hslots i x).mpr hx)
    rw [h.content_eq hv.sound hi hx1, h'.content_eq hv'.sound hi' hx1, Volume.content,
      Volume.content, hdata]
  · have hboth := h'.savedBitmap_eq.symm.trans (hbitmap.trans h.savedBitmap_eq)
    exact Pointer.live.inj hboth
  · rw [h.sb, h'.sb, hsb]
  · rw [h.savedSb_eq, h'.savedSb_eq, hsaved]

/-- In every state a session ends in, a call that does not return 0 changes nothing; no call fails
after work has begun; and a free inode is found whenever the counter says there is one. -/
theorem session_failure_untouched {totalSize blockSize : UInt32} {now : UInt64} {w0 w1 w : World}
    (hf : w0.faults = noFaults) (hfmt : fsFormat now totalSize blockSize w0 = some (0, w1))
    {calls : List FileCall} (hshort : ∀ c ∈ calls, c.op.ArgsBelow (2 ^ 17)) {results : List Int}
    (hses : session calls w1 = some ((0, results), w)) (c : FileCall)
    (hc : c.op.ArgsBelow (2 ^ 17)) :
    ∃ r w' msgs, runCall c w = some (r, w') ∧ w'.out = w.out ++ msgs ∧ (r ≠ 0 → Untouched w w') ∧
      .bitmapAllocateFailed ∉ msgs ∧ .inodeAllocateFailed ∉ msgs ∧
      (w.sb.freeInodes ≠ 0 → ∃ x w'', inodeAllocate w = some (some x, w'')) := by
  obtain ⟨h, v, hrep, hv, -⟩ := session_steady hf hfmt
    (fun d hd => contentBelow_of_argsBelow (by decide) (hshort d hd)) hses
  have hfit := hv.sound.fits (contentBelow_of_argsBelow (by decide) hc)
  obtain ⟨r, w', v', hw', hrep', hstep, hv'⟩ := hrep.runCall hv hfit
  obtain ⟨msgs, hout, hbitmap, hinode⟩ := Outcome.no_late_failure hstep
  rw [← hrep'.out, ← hrep.out] at hout
  refine ⟨r, w', msgs, hw', hout, fun hr => ?_, hbitmap, hinode, fun hfree => ?_⟩
  · cases hstep with
    | accepted => exact absurd rfl hr
    | rejected hrej hadv =>
      rw [← hadv.vol] at hrej
      exact untouched_of_rejected hrep hv hrep' hv' hrej
  · rw [hrep.sb] at hfree
    obtain ⟨i, x, hslot⟩ := hv.sound.exists_firstFree hfree
    obtain ⟨w'', hw'', -⟩ := (inodeAllocate_runs hv.sound hv.faults hslot).exec hrep
    exact ⟨_, w'', hw''⟩

/-- Creating a file whose name is taken. -/
theorem session_failure_untouched_four : ∃ w1 results w w' msgs,
    fsFormat 0 576 144 (.start none 0 0) = some (0, w1) ∧
    session [⟨.create ⟨[97], by decide⟩, 1⟩] w1 = some ((0, results), w) ∧
    runCall ⟨.create ⟨[97], by decide⟩, 2⟩ w = some (-1, w') ∧ w'.out = w.out ++ msgs ∧
    Untouched w w' := by
  obtain ⟨w1, results, w, hfmt, hses, hfails⟩ := exists_session [⟨.create ⟨[97], by decide⟩, 1⟩]
    (fun w => (runCall ⟨.create ⟨[97], by decide⟩, 2⟩ w).any fun p => p.1 = -1) (by decide +kernel)
  obtain ⟨r, u, hrun, hr⟩ := exists_of_any hfails
  obtain rfl : r = -1 := of_decide_eq_true hr
  obtain ⟨_, w', msgs, hcall, hout, hsame, -⟩ := session_failure_untouched rfl hfmt
    (by simp [FileOp.ArgsBelow, FileOp.args, CStr.strlen]) hses ⟨.create ⟨[97], by decide⟩, 2⟩
    (by simp [FileOp.ArgsBelow, FileOp.args, CStr.strlen])
  obtain ⟨rfl, rfl⟩ := run_unique hrun hcall
  exact ⟨w1, results, w, u, msgs, hfmt, hses, hrun, hout, hsame (by decide)⟩

end MiniFs.Properties
