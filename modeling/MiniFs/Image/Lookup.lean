import MiniFs.Image.Sound

/-! # Scans of the inode table on a sound volume -/

set_option autoImplicit false

namespace MiniFs.Image
open MiniFs.Core Library Library.Exec Library.Chunks Library.Ownership

variable {g : Geometry} {v : View}

theorem Geometry.toNat_slot {i : ℕ} (hi : i < g.maxInodes) : (UInt32.ofNat i).toNat = i := by
  have h := g.maxInodes_lt
  exact toNat_word (by omega)

theorem Sound.inodeRead_runs (hs : Sound g v.vol) (hv : v.faults = noFaults) {i : ℕ} {x : Inode}
    (hi : v.vol.inodes[i]? = some x) :
    Runs (view g) v (inodeRead (UInt32.ofNat i)) (some x) v := by
  obtain ⟨hlt, rfl⟩ := List.getElem?_eq_some_iff.mp hi
  exact Image.inodeRead_runs hv (Geometry.toNat_slot (hs.slot_lt hi)) hlt

theorem Sound.inodeWrite_runs (hs : Sound g v.vol) (hv : v.faults = noFaults) {id : UInt32} {i : ℕ}
    {y : Inode} (hi : v.vol.inodes[i]? = some y) (hid : id.toNat = i) {x : Inode} :
    Runs (view g) v (inodeWrite id x) 0 (v.setVol (v.vol.setInode i x)) :=
  Image.inodeWrite_runs hv hid (List.getElem?_eq_some_iff.mp hi).1 hs.inodes_length

/-! ## Looking a name up -/

theorem matchName_runs (hs : Sound g v.vol) (hv : v.faults = noFaults) (name : CStr) {i : ℕ} {x : Inode}
    (hi : v.vol.inodes[i]? = some x) :
    Runs (view g) v (matchName name i) (if matchesName name.bytes x then some x else none) v := by
  refine (hs.inodeRead_runs hv hi).bind ?_
  rcases hs.isUsed_cases hi with hfree | hlive
  · have hne : x.isUsed ≠ 1 := by rw [hfree]; decide
    have hm : matchesName name.bytes x = false := by simp [matchesName, hne]
    simp only [hne, if_false, hm]
    exact Runs.pure v none
  · simp only [hlive, if_true]
    have hterm := (hs.live i x hi hlive).terminated
    refine Runs.bind ((Runs.require (.inl hterm)).bind (Runs.pure v _)) ?_
    by_cases hname : x.shownName = name.bytes
    · simp only [matchesName, hlive, hname, and_self, decide_true, if_true]
      exact Runs.pure v (some x)
    · simp only [matchesName, hname, and_false, decide_false, Bool.false_eq_true, if_false]
      exact Runs.pure v none

theorem inodeFindByName_runs (hs : Sound g v.vol) (hv : v.faults = noFaults) (name : CStr) :
    Runs (view g) v (inodeFindByName name) (v.vol.lookup name.bytes) v := by
  refine getSb_runs.bind ?_
  rw [hs.layout.maxInodes, ← hs.inodes_length]
  have hpass {j : ℕ} {y : Inode} (hy : v.vol.inodes[j]? = some y)
      (hm : matchesName name.bytes y = false) : Runs (view g) v (matchName name j) none v := by
    have h := matchName_runs hs hv name hy
    rwa [hm, if_neg (by decide)] at h
  cases hlook : v.vol.lookup name.bytes with
  | none =>
    refine Runs.search_none fun j _ hj => ?_
    have hlt : j < v.vol.inodes.length := by omega
    have hno := List.find?_eq_none.mp hlook _ (List.getElem_mem hlt)
    exact hpass (List.getElem?_eq_getElem hlt) (by simpa using hno)
  | some x =>
    obtain ⟨hlive, hname, i, hi, hbefore⟩ := lookup_eq_some hlook
    have hlt := (List.getElem?_eq_some_iff.mp hi).1
    have hat := matchName_runs hs hv name hi
    have hm : matchesName name.bytes x = true := by simp [matchesName, hlive, hname]
    rw [hm, if_pos rfl] at hat
    refine Runs.search_some (Nat.zero_le i) (by omega) (fun j _ hj => ?_) hat
    have hjlt : j < v.vol.inodes.length := by omega
    have hy := List.getElem?_eq_getElem hjlt
    exact hpass hy (hbefore j _ hj hy)

/-! ## Taking and giving back a slot -/

structure FirstFree (vol : Volume) (i : ℕ) (x : Inode) : Prop where
  slot : vol.inodes[i]? = some x
  free : x.isUsed = 0
  before : ∀ (j : ℕ) (y : Inode), j < i → vol.inodes[j]? = some y → y.isUsed ≠ 0

theorem Sound.exists_firstFree {vol : Volume} (hs : Sound g vol) (h : vol.sb.freeInodes ≠ 0) :
    ∃ i x, FirstFree vol i x := by
  have hpos : 0 < vol.inodes.countP (·.isUsed = 0) := by
    rw [← hs.free_inodes, Nat.pos_iff_ne_zero]
    intro h0
    exact h (UInt32.toNat_inj.mp h0)
  obtain ⟨y, hy, hfree⟩ := List.countP_pos_iff.mp hpos
  cases hf : vol.inodes.find? (·.isUsed = 0) with
  | none => exact absurd hfree (List.find?_eq_none.mp hf y hy)
  | some x =>
    obtain ⟨hx, i, hi, rfl, hbefore⟩ := List.find?_eq_some_iff_getElem.mp hf
    refine ⟨i, _, List.getElem?_eq_getElem hi, by simpa using hx, fun j z hj hz => ?_⟩
    obtain ⟨hlt, rfl⟩ := List.getElem?_eq_some_iff.mp hz
    simpa using hbefore j hj

theorem FirstFree.freeInodes_ne {vol : Volume} (hs : Sound g vol) {i : ℕ} {x : Inode}
    (h : FirstFree vol i x) : vol.sb.freeInodes ≠ 0 := by
  have hpos : 0 < vol.inodes.countP (·.isUsed = 0) :=
    List.countP_pos_iff.mpr ⟨x, List.mem_of_getElem? h.slot, decide_eq_true h.free⟩
  intro h0
  rw [← hs.free_inodes, h0, UInt32.toNat_zero] at hpos
  omega

theorem claimIfFree_live (hs : Sound g v.vol) (hv : v.faults = noFaults) {i : ℕ} {x : Inode}
    (hi : v.vol.inodes[i]? = some x) (hx : x.isUsed ≠ 0) :
    Runs (view g) v (claimIfFree i) none v := by
  refine (hs.inodeRead_runs hv hi).bind ?_
  simp only [hx, if_false]
  exact Runs.pure v none

def Volume.claim (vol : Volume) (i : ℕ) (x : Inode) : Volume :=
  (vol.setSb fun sb => { sb with freeInodes := sb.freeInodes - 1 }).setInode i x

def claimSlot (i : ℕ) : M Inode := do
  setSb fun sb => { sb with freeInodes := sb.freeInodes - 1 }
  let _ ← inodeWrite (UInt32.ofNat i) (Inode.fresh i)
  pure (Inode.fresh i)

theorem claimSlot_runs (hs : Sound g v.vol) (hv : v.faults = noFaults) {i : ℕ} {x : Inode}
    (hi : v.vol.inodes[i]? = some x) :
    Runs (view g) v (claimSlot i) (Inode.fresh i) (v.setVol (v.vol.claim i (Inode.fresh i))) := by
  have hlt := (List.getElem?_eq_some_iff.mp hi).1
  refine (setSb_runs (hs.layout.freeInodes _)).bind (Runs.bind (a := (0 : Int)) ?_ (Runs.pure _ _))
  exact Image.inodeWrite_runs (v := v.setVol (v.vol.setSb _)) hv
    (Geometry.toNat_slot (hs.slot_lt hi)) hlt hs.inodes_length

theorem inodeAllocate_runs (hs : Sound g v.vol) (hv : v.faults = noFaults) {i : ℕ} {x : Inode}
    (hi : FirstFree v.vol i x) :
    Runs (view g) v inodeAllocate (some (Inode.fresh i))
      (v.setVol (v.vol.claim i (Inode.fresh i))) := by
  refine getSb_runs.bind ?_
  have hlt := (List.getElem?_eq_some_iff.mp hi.slot).1
  rw [hs.layout.maxInodes, ← hs.inodes_length]
  refine Runs.search_some (Nat.zero_le i) (by omega) (fun j _ hj => ?_) ?_
  · have hjlt : j < v.vol.inodes.length := by omega
    have hy := List.getElem?_eq_getElem hjlt
    exact claimIfFree_live hs hv hy (hi.before j _ hj hy)
  · refine (hs.inodeRead_runs hv hi.slot).bind ?_
    simp only [hi.free, if_true]
    have hclaim : Runs (view g) v (claimSlot i >>= fun y => pure (some y)) (some (Inode.fresh i))
        (v.setVol (v.vol.claim i (Inode.fresh i))) :=
      (claimSlot_runs hs hv hi.slot).bind (Runs.pure _ _)
    simp only [claimSlot, bind_assoc, pure_bind] at hclaim
    exact hclaim

def Volume.unclaim (vol : Volume) (i : ℕ) (x : Inode) : Volume :=
  (vol.setSb fun sb => { sb with freeInodes := sb.freeInodes + 1 }).setInode i
    { x with isUsed := 0 }

theorem inodeFree_runs (hv : v.faults = noFaults) (hg : g.Describes v.vol.sb)
    (hlen : v.vol.inodes.length = g.maxInodes) {id : UInt32} {i : ℕ} {x : Inode}
    (hi : v.vol.inodes[i]? = some x) (hid : id.toNat = i) :
    Runs (view g) v (inodeFree id) 0 (v.setVol (v.vol.unclaim i x)) := by
  obtain ⟨hlt, rfl⟩ := List.getElem?_eq_some_iff.mp hi
  refine (Image.inodeRead_runs hv hid hlt).bind ?_
  refine (setSb_runs (hg.freeInodes _)).bind ?_
  exact Image.inodeWrite_runs (v := v.setVol (v.vol.setSb _)) hv hid hlt hlen

end MiniFs.Image
