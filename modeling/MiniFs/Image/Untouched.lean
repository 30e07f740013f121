import MiniFs.Image.Catalog
import MiniFs.Image.Contained

/-! # What is left of the bystanders

A guarded process finds the files as they were on the volume: the same inodes, but
for the access time, and the same content.
-/

set_option autoImplicit false

namespace MiniFs.Image
open MiniFs.Core Library Library.Exec Library.ByteRange

/-- A file of the catalog, but for its access time. -/
def Catalog.file (c : Catalog) (name : CStr) : Option (Inode × List UInt8) :=
  (c.files name).map fun p => ({ p.1 with accessedAt := 0 }, p.2)

variable {g : Geometry} {disk bytes : List UInt8} {sb : Superblock} {s w : World} {vol : Volume}

/-! ## Look-ups on a volume that need not be sound -/

theorem World.still_eq (h : s.faults = noFaults) : s.still = s := by
  cases s
  subst h
  rfl

/-- A pass of a look-up that meets no failure. -/
theorem Running.matchName_eq (h : Running g disk bytes sb s) (hf : s.faults = noFaults)
    {saved : List UInt8} (hh : Holds g disk saved vol) {i : ℕ} {x : Inode}
    (hx : vol.inodes[i]? = some x) (hterm : x.isUsed = 1 → x.Terminated) (name : CStr) :
    matchName name i s = some (if matchesName name.bytes x then some x else none, s) := by
  obtain ⟨hi, rfl⟩ := List.getElem?_eq_some_iff.mp hx
  have hlt : i < g.maxInodes := hi.trans_eq hh.inodes_length
  have hword := Geometry.toNat_slot hlt
  have hready : Ready g s disk := World.still_eq hf ▸ h.ready
  rw [matchName, bind_apply, inodeRead_ready (h.sb ▸ h.layout) hready (hword.trans_lt hlt), hword,
    hh.inode i hi, inodeCodec.decode_encode, Option.bind_some]
  dsimp only
  by_cases hlive : vol.inodes[i].isUsed = 1
  · rw [if_pos hlive, nameEquals, require_pos (.inl (hterm hlive) : _ ∨ _), pure_bind, pure_bind]
    by_cases hname : vol.inodes[i].shownName = name.bytes
    · simp [matchesName, hlive, hname]
    · simp [matchesName, hname]
  · simp [matchesName, hlive]

theorem Running.find_eq (h : Running g disk bytes sb s) (hf : s.faults = noFaults)
    {saved : List UInt8} (hh : Holds g disk saved vol)
    (hterm : ∀ x ∈ vol.inodes, x.isUsed = 1 → x.Terminated) (name : CStr) :
    s.find name = vol.lookup name.bytes := by
  have hpass (j : ℕ) (hj : j < vol.inodes.length) : matchName name j s =
      some (if matchesName name.bytes vol.inodes[j] then some vol.inodes[j] else none, s) :=
    h.matchName_eq hf hh (List.getElem?_eq_getElem hj) (hterm _ (List.getElem_mem hj)) name
  have hcount : sb.maxInodes.toNat = vol.inodes.length :=
    h.layout.maxInodes.trans hh.inodes_length.symm
  have hrun : inodeFindByName name s = some (vol.lookup name.bytes, s) := by
    rw [inodeFindByName, getSb, bind_apply, ask_apply, Option.bind_some, h.sb, hcount]
    cases hlook : vol.lookup name.bytes with
    | none =>
      refine search_chain (fun _ => s) fun j _ hj => ?_
      have hlt : j < vol.inodes.length := by omega
      have hno := List.find?_eq_none.mp hlook _ (List.getElem_mem hlt)
      rw [hpass j hlt, if_neg hno]
    | some x =>
      obtain ⟨hlive, hname, i, hi, hbefore⟩ := lookup_eq_some hlook
      obtain ⟨hlt, rfl⟩ := List.getElem?_eq_some_iff.mp hi
      have hyes : matchesName name.bytes vol.inodes[i] = true := by simp [matchesName, hlive, hname]
      refine search_chain_some (fun _ => s) (Nat.zero_le i) (by omega) (fun j _ hj => ?_) ?_
      · have hno := hbefore j _ hj (List.getElem?_eq_getElem (hj.trans hlt))
        rw [hpass j (hj.trans hlt), hno]
        rfl
      · rw [hpass i hlt, if_pos hyes]
  rw [World.find, hrun]
  rfl

/-! ## What is left of the files -/

namespace Bystanders
variable {B : Bystanders g} {held : Finset ℕ} {i : ℕ} {x y : Inode}

/-- A look-up of one of the names tells the same of the same slots. -/
theorem Fine.matchesName_eq (h : B.Fine i x) (hy : B.vol.inodes[i]? = some y) {name : List UInt8}
    (hname : name ∈ B.names) : matchesName name x = matchesName name y := by
  cases h with
  | kept t h heq =>
    obtain rfl := Option.some.inj (h.slot.symm.trans hy)
    subst heq
    rfl
  | other hother hap =>
    have hx : ¬(x.isUsed = 1 ∧ x.shownName = name) := fun h =>
      (hap h.1).name (h.2.symm ▸ hname)
    have hy : ¬(y.isUsed = 1 ∧ y.shownName = name) := fun h =>
      hother y ⟨hy, h.1, h.2.symm ▸ hname⟩
    simp [matchesName, hx, hy]

section Lookup
variable {name : List UInt8}

theorem Keeps.matchesName_eq (h : B.Keeps vol) {j : ℕ} (hx : vol.inodes[j]? = some x)
    (hy : B.vol.inodes[j]? = some y) (hname : name ∈ B.names) :
    matchesName name x = matchesName name y :=
  (h.slot j x hx).matchesName_eq hy hname

/-- No file is found that was not there. -/
theorem Keeps.lookup_none (h : B.Keeps vol) (hlen : vol.inodes.length = B.vol.inodes.length)
    (hname : name ∈ B.names) (hlook : B.vol.lookup name = none) : vol.lookup name = none := by
  refine List.find?_eq_none.mpr fun x hx => ?_
  obtain ⟨j, hj, rfl⟩ := List.getElem_of_mem hx
  have hj' : j < B.vol.inodes.length := hj.trans_eq hlen
  rw [h.matchesName_eq (List.getElem?_eq_getElem hj) (List.getElem?_eq_getElem hj') hname]
  exact List.find?_eq_none.mp hlook _ (List.getElem_mem hj')

/-- The same file is found, but for its access time. -/
theorem Keeps.lookup_some (h : B.Keeps vol) (hlen : vol.inodes.length = B.vol.inodes.length)
    (hname : name ∈ B.names) (hlook : B.vol.lookup name = some y) :
    ∃ i t, B.Slot i y ∧ vol.lookup name = some { y with accessedAt := t } := by
  obtain ⟨hlive, hshown, i, hi, hbefore⟩ := lookup_eq_some hlook
  have hslot : B.Slot i y := ⟨hi, hlive, hshown.symm ▸ hname⟩
  have hlt : i < vol.inodes.length := hlen ▸ (List.getElem?_eq_some_iff.mp hi).1
  cases h.slot i _ (List.getElem?_eq_getElem hlt) with
  | other hother _ => exact absurd hslot (hother y)
  | kept t hk heq =>
    obtain rfl := hk.unique hslot
    refine ⟨i, t, hslot, List.find?_eq_some_iff_getElem.mpr ⟨?_, i, hlt, heq, fun j hj => ?_⟩⟩
    · exact decide_eq_true ⟨hlive, hshown⟩
    · have hj' : j < B.vol.inodes.length := (hj.trans hlt).trans_eq hlen
      have hy := List.getElem?_eq_getElem hj'
      rw [h.matchesName_eq (List.getElem?_eq_getElem (hj.trans hlt)) hy hname, hbefore j _ hj hy]
      rfl

end Lookup

/-- The blocks of a file hold what they held. -/
theorem Keeps.content_eq (h : B.Keeps vol) (hrun : Running g disk bytes sb s) {saved : List UInt8}
    (hh : Holds g disk saved vol) (hslot : B.Slot i y) (t : UInt64) :
    s.content { y with accessedAt := t } = B.vol.content g y := by
  have hbs : s.sb.blockSize.toNat = g.blockSize := hrun.sb ▸ hrun.layout.blockSize
  have hblocks : s.blocksOf { y with accessedAt := t } = blocksOf g y := by
    rw [World.blocksOf, hbs]
    rfl
  have hdata : ∀ b ∈ blocksOf g y, s.block b = B.vol.data b := by
    intro b hb
    have hspared : B.Spared b := .inr ⟨i, y, hslot, hb⟩
    have hbounds := B.sound.block_bounds (own_live hslot.slot hslot.live ▸ hb)
    rw [World.block, hbs, hrun.file, Option.getD_some, ← h.data b hspared]
    exact hh.data b hbounds.1 hbounds.2
  rw [World.content, hblocks, List.flatMap_congr hdata]
  rfl

/-- A guarded process shows the files as they were. -/
theorem Guarded.file_eq (h : B.Guarded held s) (hf : s.faults = noFaults)
    {name : CStr} (hname : name.bytes ∈ B.names) :
    (shown s).file name = (B.vol.catalog g).file name := by
  obtain ⟨disk, bytes, sb, hrun, -, saved, vol, hh, hk⟩ := h
  have hlen : vol.inodes.length = B.vol.inodes.length :=
    hh.inodes_length.trans B.sound.inodes_length.symm
  have hterm : ∀ x ∈ vol.inodes, x.isUsed = 1 → x.Terminated := by
    intro x hx hlive
    obtain ⟨j, hj, rfl⟩ := List.getElem_of_mem hx
    exact ((hk.slot j _ (List.getElem?_eq_getElem hj)).shaped hlive).liveAt.terminated
  simp only [Catalog.file, shown, Volume.catalog, hrun.find_eq hf hh hterm]
  cases hlook : B.vol.lookup name.bytes with
  | none => rw [hk.lookup_none hlen hname hlook]; rfl
  | some y =>
    obtain ⟨i, t, hslot, hfound⟩ := hk.lookup_some hlen hname hlook
    rw [hfound]
    simp only [Option.map_some, hk.content_eq hrun hh hslot t]

theorem keeps_refl (B : Bystanders g) : B.Keeps B.vol where
  saved := B.sound.saved ▸ B.sound.layout
  used b hb := by
    rcases hb with hlt | ⟨i, y, hslot, hmem⟩
    · exact B.sound.exclusive.reserved_used b (Finset.mem_range.mpr hlt)
    · exact B.sound.exclusive.own_used i b (own_live hslot.slot hslot.live ▸ hmem)
  slot i x hx := by
    by_cases hslot : B.Slot i x
    · exact .kept x.accessedAt hslot rfl
    · refine .other (fun y hy => ?_) fun hlive => ?_
      · obtain rfl := Option.some.inj (hy.slot.symm.trans hx)
        exact hslot hy
      · have hname : x.shownName ∉ B.names := fun h => hslot ⟨hx, hlive, h⟩
        have hown (b : ℕ) (hb : b ∈ blocksOf g x) : b ∈ B.vol.own g i := own_live hx hlive ▸ hb
        refine { B.sound.shaped hx hlive with name := hname, block := fun b hb hspared => ?_ }
        rcases hspared with hlt | ⟨j, y, hy, hmem⟩
        · have := (B.sound.block_bounds (hown b hb)).1
          omega
        · have hij : i ≠ j := by
            rintro rfl
            obtain rfl := Option.some.inj (hy.slot.symm.trans hx)
            exact hslot hy
          exact B.sound.exclusive.disjoint i j hij b (hown b hb) (own_live hy.slot hy.live ▸ hmem)
  data _ _ := rfl

theorem guarded_of_represents (B : Bystanders g) {v : View} (h : Represents g w v)
    (hv : v.vol = B.vol) (f : ℕ → Fault) : B.Guarded ∅ (callTape.set f w) := by
  obtain ⟨disk, bytes, hfile, hmem, hh, -⟩ := h.memory
  have hrun : Running g disk bytes w.sb w :=
    ⟨h.sb ▸ h.layout, rfl, h.fd, h.size, hfile, hmem, hh.length, hh.length_bytes⟩
  refine ⟨disk, bytes, w.sb, hrun.disturb f, fun b hb => ?_, bytes, v.vol, hh, hv ▸ B.keeps_refl⟩
  have hspared : B.Spared b := hb.resolve_right (Finset.notMem_empty b)
  rw [hh.bits b, hv]
  exact decide_eq_true (B.keeps_refl.used b hspared)

/-- A process that mounts such a disk is guarded. -/
theorem OnDisk.mounts (h : B.OnDisk disk) (hf : s.faults = noFaults) (hfile : s.file = some disk) :
    ∃ w, fsMount s = some (0, w) ∧ w.faults = noFaults ∧ B.Guarded ∅ w := by
  obtain ⟨bytes, vol, hh, hk⟩ := h
  have hmount := fsMount_ready hf hfile hh.saved hk.saved hh.length
  rw [hh.bitmap] at hmount
  refine ⟨_, hmount, hf, disk, bytes, vol.saved, ?_, fun b hb => ?_, bytes, vol, hh, hk⟩
  · exact ⟨hk.saved, rfl, rfl, hk.saved.blockSize, hfile, rfl, hh.length, hh.length_bytes⟩
  · rw [hh.bits b]
    exact decide_eq_true (hk.used b (hb.resolve_right (Finset.notMem_empty b)))

theorem Guarded.disturb (h : B.Guarded held s) (f : ℕ → Fault) :
    B.Guarded held (callTape.set f s) := by
  obtain ⟨disk, bytes, sb, hrun, hmarks, hdisk⟩ := h
  exact ⟨disk, bytes, sb, hrun.disturb f, hmarks, hdisk⟩

theorem Guarded.onDisk (h : B.Guarded held s) :
    ∃ disk, s.file = some disk ∧ B.OnDisk disk := by
  obtain ⟨disk, bytes, sb, hrun, -, hdisk⟩ := h
  exact ⟨disk, hrun.file, hdisk⟩

end Bystanders

end MiniFs.Image
