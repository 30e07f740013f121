import MiniFs.Properties.Refinement
import MiniFs.Spec.Room

/-! # What still fits

The two counters of the superblock, which `statfs` prints, say exactly which new files
can still be stored. What can be appended in parts can be appended in one go.
-/

set_option autoImplicit false

namespace MiniFs.Image
open MiniFs.Core MiniFs.Spec Library Library.Exec Library.Chunks

variable {w : World} {name : List UInt8} {f : Spec.File}

/-- The free inodes are the free slots. -/
theorem Mounted.slots (hw : Mounted w) : w.flat.slots = w.sb.freeInodes.toNat := by
  obtain ⟨g, v, hrep, hv⟩ := hw.steady
  rw [hrep.flat_eq hv, hrep.sb, hv.sound.free_inodes]
  change (v.vol.inodes.map _).countP Option.isNone = _
  rw [List.countP_map, file?_isNone]
  refine List.countP_congr fun x hx => ?_
  rcases hv.sound.flags x hx with h | h <;> simp [h]

theorem Mounted.blockSize_pos (hw : Mounted w) : 0 < w.sb.blockSize.toNat := by
  obtain ⟨g, v, hrep, hv⟩ := hw.steady
  rw [hrep.sb, hv.sound.layout.blockSize]
  exact g.blockSize_pos

/-- The free blocks and those of a file are not more than there are. -/
theorem Mounted.room_fits (hw : Mounted w) (hshown : w.flat.shown name = some f) :
    w.flat.room + w.flat.blocks f.content.length < 2 ^ 32 := by
  obtain ⟨g, v, hrep, hv⟩ := hw.steady
  obtain ⟨i, hfind⟩ := find_of_shown hshown
  have hslot := (find_slot hfind).1
  rw [hrep.flat_eq hv] at hslot ⊢
  change (v.vol.inodes.map _)[i]? = _ at hslot
  rw [List.getElem?_map, Option.map_eq_some_iff] at hslot
  obtain ⟨x, hx, hfile⟩ := hslot
  have hlive : x.isUsed = 1 := by
    by_contra h
    rw [Inode.file?, if_neg h] at hfile
    exact absurd hfile.symm (Option.some_ne_none f)
  rw [file?_live hlive] at hfile
  obtain rfl := Option.some.inj hfile
  have hs := hv.sound
  have howned := hs.owned_length hx hlive
  have hsub : (blocksOf g x).toFinset ⊆ v.vol.used := fun b hb =>
    hs.exclusive.own_used i b (own_live hx hlive ▸ List.mem_toFinset.mp hb)
  have hcard := Finset.card_le_card hsub
  rw [List.toFinset_card_of_nodup (own_live hx hlive ▸ hs.exclusive.nodup i), howned] at hcard
  have hfree := hs.free_blocks
  have htotal := g.totalBlocks_lt
  change v.vol.sb.freeBlocks.toNat + (v.vol.flat g _).blocks _ < _
  rw [hs.flat_blocks]
  omega

theorem runCalls_follows {calls : List FileCall} (h : ∀ c ∈ calls, c.op.ArgsBelow (2 ^ 17)) :
    Follows Mounted World.flat (runList runCall calls) (runEach runCallFlat calls) :=
  .list fun c hc => runCommand_follows (c := .file c) (h c hc)

end MiniFs.Image

namespace MiniFs.Properties
open MiniFs.Core MiniFs.Image MiniFs.Spec Library Library.Exec

/-- New files with their contents can all be stored if and only if each name fits, each content fits
a file, and the free inodes and the free blocks are enough for all of them. -/
theorem stored_iff_room {w : World} (hw : Mounted w) (hd : w.flat.Distinct) {files : List NewFile}
    (hdiff : (files.map fun n => n.name.bytes).Nodup)
    (hnew : ∀ n ∈ files, w.flat.shown n.name.bytes = none)
    (hshort : ∀ n ∈ files, n.name.strlen < 2 ^ 17 ∧ n.data.strlen < 2 ^ 17) :
    ∃ rs u, runList runCall (storeCalls files) w = some (rs, u) ∧
      ((∀ r ∈ rs, r = 0) ↔
        (∀ n ∈ files, n.name.strlen < maxFilenameLen ∧ w.flat.needed n ≤ 16) ∧
        files.length ≤ w.sb.freeInodes.toNat ∧
        (files.map w.flat.needed).sum ≤ w.sb.freeBlocks.toNat) ∧
      ((∀ r ∈ rs, r = 0) → ∀ name, u.flat.shown name =
        ((files.find? fun n => n.name.bytes = name).map NewFile.stored).or
          (w.flat.shown name)) := by
  have hargs : ∀ c ∈ storeCalls files, c.op.ArgsBelow (2 ^ 17) := by
    intro c hc
    obtain ⟨n, hn, hcall⟩ := List.mem_flatMap.mp hc
    obtain ⟨hname, hdata⟩ := hshort n hn
    rcases List.mem_cons.mp hcall with rfl | hcall
    · simpa [FileOp.ArgsBelow, FileOp.args] using hname
    · rw [List.mem_singleton.mp hcall]
      simpa [FileOp.ArgsBelow, FileOp.args] using ⟨hname, hdata⟩
  obtain ⟨u, hrun, -, hflat⟩ := runCalls_follows hargs w hw
  obtain ⟨hiff, hshown⟩ := storeAll hd hw.blockSize_pos hdiff hnew
  refine ⟨_, u, hrun, ?_, fun h name => ?_⟩
  · rw [hiff, ← hw.slots]
    exact ⟨fun h => ⟨h.each, h.slots, h.room⟩, fun h => ⟨h.1, h.2.1, h.2.2⟩⟩
  · rw [hflat]
    exact hshown h name

def noteName : CStr := ⟨[110, 111], by decide⟩

def note : NewFile := ⟨noteName, ⟨[111, 107], by decide⟩, 1, 2⟩

theorem stored_iff_room_note : ∃ w, Mounted w ∧ ∃ rs u,
    runList runCall (storeCalls [note]) w = some (rs, u) ∧ (∀ r ∈ rs, r = 0) ∧
    u.flat.shown noteName.bytes = some note.stored := by
  obtain ⟨w, hw, hflat⟩ := exists_formatted formattable_eight
  have hd : w.flat.Distinct := distinct_empty (congrArg Flat.files hflat)
  have hnew : ∀ n ∈ [note], w.flat.shown n.name.bytes = none := by
    rw [hflat]
    exact List.forall_mem_singleton.mpr rfl
  obtain ⟨rs, u, hrun, hiff, hshown⟩ := stored_iff_room hw hd (by decide) hnew (by decide)
  have hsb : w.sb = formatSb 0 1152 144 := congrArg Flat.sb hflat
  have hzero : ∀ r ∈ rs, r = 0 := by
    refine hiff.mpr ?_
    rw [hflat, hsb]
    decide +kernel
  refine ⟨w, hw, rs, u, hrun, hzero, ?_⟩
  rw [hshown hzero noteName.bytes]
  rfl

/-- If parts can be appended to a file one after the other, all of them can be appended in one go.
The contents are the same then, and no fewer blocks are free. -/
theorem append_whole {w u : World} (hw : Mounted w) (hd : w.flat.Distinct) {name whole : CStr}
    {parts : List (CStr × UInt64)} (hne : parts ≠ [])
    (hwhole : whole.bytes = parts.flatMap fun p => p.1.bytes) (hname : name.strlen < 2 ^ 17)
    (hshort : whole.strlen < 2 ^ 17) {rs : List Int}
    (hrun : runList runCall (appendCalls name parts) w = some (rs, u)) (hzero : ∀ r ∈ rs, r = 0)
    (now : UInt64) : ∃ v, runCall ⟨.append name whole, now⟩ w = some (0, v) ∧
      (v.flat.shown name.bytes).map File.content = (u.flat.shown name.bytes).map File.content ∧
      (∀ n ≠ name.bytes, v.flat.shown n = u.flat.shown n) ∧
      u.sb.freeBlocks ≤ v.sb.freeBlocks := by
  have hargs : ∀ c ∈ appendCalls name parts, c.op.ArgsBelow (2 ^ 17) := by
    intro c hc
    obtain ⟨p, hp, rfl⟩ := List.mem_map.mp hc
    have hle : p.1.strlen ≤ whole.strlen := by
      have hmem : p.1.bytes ∈ parts.map fun p => p.1.bytes := List.mem_map_of_mem hp
      rw [CStr.strlen, CStr.strlen, hwhole, List.flatMap_def]
      exact (List.sublist_flatten_of_mem hmem).length_le
    simpa [FileOp.ArgsBelow, FileOp.args] using ⟨hname, hle.trans_lt hshort⟩
  obtain ⟨u', hrun', -, hflat⟩ := runCalls_follows hargs w hw
  obtain ⟨rfl, rfl⟩ := run_unique hrun hrun'
  obtain ⟨f, hshown⟩ : ∃ f, w.flat.shown name.bytes = some f := by
    cases parts with
    | nil => exact absurd rfl hne
    | cons p parts => exact shown_of_append (hzero _ List.mem_cons_self)
  have hfit := hw.room_fits hshown
  obtain ⟨hroom, hparts⟩ := appendAll parts hne hd hw.blockSize_pos hshown hfit
    (by rw [← hwhole]) hzero
  have hop : FileOp.ArgsBelow (2 ^ 17) (.append name whole) := by
    simpa [FileOp.ArgsBelow, FileOp.args] using ⟨hname, hshort⟩
  obtain ⟨v, hv, -, hvflat⟩ := runCommand_follows (c := .file ⟨.append name whole, now⟩) hop w hw
  obtain ⟨i, hfind⟩ := find_of_shown hshown
  have hok : (w.flat.append now name whole).1 = 0 := (append_find hfind).mpr (store_ok_iff.mpr hroom)
  have hone := append_grown hd hshown hfit hok
  change runCall _ w = some ((w.flat.append now name whole).1, v) at hv
  rw [hok] at hv
  change v.flat = (w.flat.append now name whole).2 at hvflat
  refine ⟨v, hv, ?_, fun n hn => ?_, ?_⟩
  · rw [hflat, hvflat, hone.shown, hparts.shown]
  · rw [hflat, hvflat, hone.others n hn, hparts.others n hn]
  · have hleft := (append_room hfind hfit hok).1
    have hparts' := hparts.room
    rw [← hvflat] at hleft
    rw [← hflat, List.length_append] at hparts'
    have hle : u.flat.room ≤ v.flat.room := by
      rw [CStr.strlen] at hleft
      omega
    exact UInt32.le_iff_toNat_le.mpr hle

def twoParts : List (CStr × UInt64) := [(⟨[111], by decide⟩, 2), (⟨[107], by decide⟩, 3)]

theorem append_whole_note : ∃ w rs u v, Mounted w ∧
    runList runCall (appendCalls noteName twoParts) w = some (rs, u) ∧
    runCall ⟨.append noteName note.data, 4⟩ w = some (0, v) ∧
    (v.flat.shown noteName.bytes).map File.content =
      (u.flat.shown noteName.bytes).map File.content ∧
    (∀ n ≠ noteName.bytes, v.flat.shown n = u.flat.shown n) ∧
    u.sb.freeBlocks ≤ v.sb.freeBlocks := by
  obtain ⟨w0, hw0, hflat0⟩ := exists_formatted formattable_eight
  have hd0 : w0.flat.Distinct := distinct_empty (congrArg Flat.files hflat0)
  have hcreate : (Command.file ⟨.create noteName, 1⟩).ArgsBelow (2 ^ 17) := by
    simp [Command.ArgsBelow, FileOp.ArgsBelow, FileOp.args, noteName, CStr.strlen]
  obtain ⟨w, -, hw, hflat⟩ := runCommand_follows hcreate w0 hw0
  have hfits : CopyFits (.create noteName) := trivial
  have hd : w.flat.Distinct := hflat ▸ (runOp_shows hd0 1 hfits).distinct
  have hargs : ∀ c ∈ appendCalls noteName twoParts, c.op.ArgsBelow (2 ^ 17) := by
    simp [appendCalls, twoParts, FileOp.ArgsBelow, FileOp.args, noteName, CStr.strlen]
  obtain ⟨u, hrun, -⟩ := runCalls_follows hargs w hw
  have hzero : ∀ r ∈ (runEach runCallFlat (appendCalls noteName twoParts) w.flat).1, r = 0 := by
    rw [hflat, hflat0]
    decide +kernel
  have hwhole : note.data.bytes = twoParts.flatMap fun p => p.1.bytes := rfl
  obtain ⟨v, hv⟩ := append_whole hw hd (by decide) hwhole (by decide) (by decide) hrun hzero 4
  exact ⟨w, _, u, v, hw, hrun, hv⟩

end MiniFs.Properties
