import MiniFs.Image.Observe
import MiniFs.Image.Reports

/-! # Lost blocks

A write that stores no content takes one block and records none, so that block is
marked used for ever. Nothing else loses blocks, and `fsck` reports exactly that.
-/

set_option autoImplicit false

namespace MiniFs.Core
open Library Library.Exec Library.Chunks

namespace World

def neededBlocks (w : World) : ℕ :=
  (w.inodes.map fun x =>
    if x.isUsed = 1 then pieces x.size.toNat w.sb.blockSize.toNat else 0).sum

end World

end MiniFs.Core

namespace MiniFs.Image
open MiniFs.Core Library Library.Exec Library.ByteRange Library.Chunks Library.Ownership

variable {g : Geometry} {vol vol' : Volume} {w : World} {v : View}

/-! ## Counting lost blocks -/

def lostCount (g : Geometry) (vol : Volume) : ℕ :=
  (Exclusive.lost (Finset.range g.dataStart) vol.used (vol.own g) (Finset.range g.maxInodes)).card

theorem Edit.lostCount (hs : Sound g vol) {i : ℕ} {x x' : Inode} {held : List ℕ}
    (h : Edit g vol i x x' held vol') :
    lostCount g vol' + (ownedBy g x').length = lostCount g vol + held.length := by
  have hown := Volume.own_eq (g := g) h.slot
  have hi : i ∈ Finset.range g.maxInodes := Finset.mem_range.mpr (hs.slot_lt h.slot)
  have hcard := hs.exclusive.card_lost_reassign hi h.own_nodup h.nodup h.own_held
    (fun b hb => by rw [hown]; exact (h.fresh b hb).1)
  rw [Image.lostCount, Image.lostCount, h.own, h.used, ← hown]
  exact hcard

/-- Only an accepted operation that stores no content loses a block. -/
theorem Outcome.lostCount {v' : View} (hs : Sound g v.vol) {now : UInt64} {op : FileOp}
    (hfit : Fits g v.vol op) {r : Int} (h : Outcome g now op v r v') :
    lostCount g v'.vol = lostCount g v.vol + if r = 0 then lostBlocks v.vol op else 0 := by
  cases h with
  | accepted hstep hadv =>
    obtain ⟨i, x, x', held, hedit, hlen⟩ := hstep.edit hs hfit
    have hcount := Edit.lostCount hs hedit
    rw [hadv.vol, if_pos rfl]
    omega
  | rejected hstep hadv =>
    rw [hadv.vol, if_neg (by decide)]
    rcases hstep.cases with rfl | ⟨i, x, hslot, rfl⟩
    · rfl
    · have hfree : ({ Inode.fresh i with isUsed := 0 } : Inode).isUsed = 0 := rfl
      have hcount := Edit.lostCount hs (free_edit hs hslot.slot hslot.free hfree)
      rw [ownedBy_free hfree] at hcount
      simpa using hcount

theorem sum_own_length (l : List Inode) (f : Inode → List ℕ) :
    ∑ i ∈ Finset.range l.length, ((l[i]?.map f).getD []).length =
      (l.map fun x => (f x).length).sum := by
  induction l with
  | nil => rfl
  | cons x l ih =>
    rw [List.length_cons, Finset.sum_range_succ', List.map_cons, List.sum_cons, ← ih, add_comm]
    rfl

/-- Every data block is free, owned or lost. -/
theorem Sound.dataBlocks_eq (hs : Sound g vol) :
    g.dataBlocks = vol.sb.freeBlocks.toNat + (vol.inodes.map fun x => (ownedBy g x).length).sum +
      lostCount g vol := by
  have hcard := hs.exclusive.card_used (Finset.range g.maxInodes)
  have hsum : ∑ i ∈ Finset.range g.maxInodes, (vol.own g i).length =
      (vol.inodes.map fun x => (ownedBy g x).length).sum := by
    rw [← hs.inodes_length]
    exact sum_own_length vol.inodes (ownedBy g)
  have hfree := hs.free_blocks
  have hdata := g.dataBlocks_add
  rw [Finset.card_range, hsum] at hcard
  rw [Image.lostCount]
  omega

/-! ## What `fsck` counts on a sound volume -/

section Fsck
variable {i : ℕ} {x : Inode}

theorem Sound.counted (hs : Sound g vol) (hbs : 16 * g.blockSize < 2 ^ 32)
    (hi : vol.inodes[i]? = some x) : Counted vol.sb x ↔ x.isUsed = 1 := by
  constructor
  · intro h
    exact (hs.isUsed_cases hi).resolve_left h.1
  · intro hx
    have hlive := hs.live i x hi hx
    refine ⟨by rw [hx]; decide, ?_⟩
    rintro (hid | hflag | hsize)
    · have hlt := hs.slot_lt hi
      have hle := UInt32.le_iff_toNat_le.mp hid
      rw [hs.layout.maxInodes, hlive.id] at hle
      omega
    · rw [hx] at hflag
      exact absurd hflag (by decide)
    · have hmul : (maxDirectBlocks * vol.sb.blockSize).toNat = 16 * g.blockSize := by
        rw [UInt32.toNat_mul, hs.layout.blockSize]
        exact Nat.mod_eq_of_lt hbs
      have hlt := UInt32.lt_iff_toNat_lt.mp hsize
      have hle := hlive.size
      omega

theorem Sound.toNat_blocksUsed (hs : Sound g vol) (hi : vol.inodes[i]? = some x)
    (hx : x.isUsed = 1) : (blocksUsed vol.sb x.size).toNat = (ownedBy g x).length := by
  have hfit := hs.size_fits hi hx
  rw [Image.toNat_blocksUsed hs.layout (by omega), ownedBy_live hx,
    (hs.live i x hi hx).length_blocksOf]

theorem Sound.not_oversized (hs : Sound g vol) (hi : vol.inodes[i]? = some x)
    (hx : x.isUsed = 1) : ¬ blocksUsed vol.sb x.size > maxDirectBlocks := by
  have hle := (hs.live i x hi hx).pieces_le
  rw [gt_iff_lt, UInt32.lt_iff_toNat_lt, hs.toNat_blocksUsed hi hx, ownedBy_live hx,
    (hs.live i x hi hx).length_blocksOf]
  exact not_lt.mpr hle

theorem Sound.slotErrors (hs : Sound g vol) (hbs : 16 * g.blockSize < 2 ^ 32)
    (hi : vol.inodes[i]? = some x) : slotErrors vol.sb (UInt32.ofNat i) x = 0 := by
  by_cases hx : x.isUsed = 1
  · have hlive := hs.live i x hi hx
    have hid : x.id = UInt32.ofNat i := by rw [← hlive.id, UInt32.ofNat_toNat]
    have hgood : badPointers vol.sb x (blocksUsed vol.sb x.size).toNat = 0 := by
      rw [badPointers, List.countP_eq_zero]
      intro b hb
      rw [hs.toNat_blocksUsed hi hx, ownedBy_live hx, hlive.length_blocksOf] at hb
      have hmem : b.toNat ∈ vol.own g i := by
        rw [own_live hi hx]
        exact List.mem_map_of_mem hb
      have hbounds := hs.block_bounds hmem
      rw [decide_eq_true_eq, UInt32.lt_iff_toNat_lt, UInt32.le_iff_toNat_le,
        hs.layout.dataStart, hs.layout.totalBlocks]
      omega
    rw [Image.slotErrors, if_pos ((hs.counted hbs hi).mpr hx), if_neg (not_not.mpr hid),
      if_neg (hs.not_oversized hi hx), hgood]
  · rw [Image.slotErrors, if_neg (fun h => hx ((hs.counted hbs hi).mp h))]

theorem Sound.slotInodes (hs : Sound g vol) (hbs : 16 * g.blockSize < 2 ^ 32)
    (hi : vol.inodes[i]? = some x) :
    slotInodes vol.sb x = UInt32.ofNat (if x.isUsed = 1 then 1 else 0) := by
  simp only [Image.slotInodes, hs.counted hbs hi]
  split_ifs <;> rfl

theorem Sound.slotBlocks (hs : Sound g vol) (hbs : 16 * g.blockSize < 2 ^ 32)
    (hi : vol.inodes[i]? = some x) :
    slotBlocks vol.sb x = UInt32.ofNat (ownedBy g x).length := by
  by_cases hx : x.isUsed = 1
  · have hcond : Counted vol.sb x ∧ ¬ blocksUsed vol.sb x.size > maxDirectBlocks :=
      ⟨(hs.counted hbs hi).mpr hx, hs.not_oversized hi hx⟩
    rw [Image.slotBlocks, if_pos hcond, ← hs.toNat_blocksUsed hi hx, UInt32.ofNat_toNat]
  · rw [Image.slotBlocks, if_neg (fun h => hx ((hs.counted hbs hi).mp h.1)), ownedBy, if_neg hx]
    rfl

theorem sum_live_add_free {l : List Inode} (h : ∀ x ∈ l, x.isUsed = 0 ∨ x.isUsed = 1) :
    (l.map fun x => if x.isUsed = 1 then 1 else 0).sum + l.countP (·.isUsed = 0) = l.length := by
  induction l with
  | nil => rfl
  | cons x l ih =>
    have htail := ih fun y hy => h y (List.mem_cons_of_mem x hy)
    rw [List.map_cons, List.sum_cons, List.countP_cons, List.length_cons, ← htail]
    rcases h x List.mem_cons_self with hx | hx
    · rw [if_neg (by rw [hx]; decide), if_pos (by rw [hx]; decide)]
      omega
    · rw [if_pos hx, if_neg (by rw [hx]; decide)]
      omega

theorem Sound.sum_slotInodes (hs : Sound g vol) (hbs : 16 * g.blockSize < 2 ^ 32) :
    (vol.inodes.map (Image.slotInodes vol.sb)).sum = vol.sb.maxInodes - vol.sb.freeInodes := by
  have hlive := sum_live_add_free hs.flags
  have hmax := hs.layout.maxInodes
  have hfree := hs.free_inodes
  have hlen := hs.inodes_length
  rw [sum_map_ofNat (n := fun x => if x.isUsed = 1 then 1 else 0) fun x hx => ?_]
  · have hle : vol.sb.freeInodes ≤ vol.sb.maxInodes := by
      rw [UInt32.le_iff_toNat_le]
      omega
    apply UInt32.toNat_inj.mp
    have hlt := vol.sb.maxInodes.toNat_lt
    rw [UInt32.toNat_sub_of_le _ _ hle, toNat_word (by omega)]
    omega
  · obtain ⟨i, hi⟩ := List.getElem?_of_mem hx
    exact hs.slotInodes hbs hi

theorem Sound.sum_slotBlocks (hs : Sound g vol) (hbs : 16 * g.blockSize < 2 ^ 32) :
    (vol.inodes.map (Image.slotBlocks vol.sb)).sum = vol.sb.dataBlocks - vol.sb.freeBlocks ↔
      lostCount g vol = 0 := by
  have hdata := hs.layout.dataBlocks
  have heq := hs.dataBlocks_eq
  rw [sum_map_ofNat (n := fun x => (ownedBy g x).length) fun x hx => ?_]
  · have hle : vol.sb.freeBlocks ≤ vol.sb.dataBlocks := by
      rw [UInt32.le_iff_toNat_le]
      omega
    have hlt := vol.sb.dataBlocks.toNat_lt
    rw [← UInt32.toNat_inj, UInt32.toNat_sub_of_le _ _ hle,
      toNat_word (by omega)]
    omega
  · obtain ⟨i, hi⟩ := List.getElem?_of_mem hx
    exact hs.slotBlocks hbs hi

/-- On a sound volume `fsck` complains exactly about lost blocks. -/
theorem Sound.fsckClean_iff (hs : Sound g vol) (hbs : 16 * g.blockSize < 2 ^ 32) :
    FsckClean vol.sb (fun i => vol.inodes[i]?) ↔ lostCount g vol = 0 := by
  have hall := scanned_view hs.layout hs.inodes_length
  rw [← hs.sum_slotBlocks hbs]
  constructor
  · intro h
    rw [← hall]
    exact h.blocks
  · intro h
    refine ⟨fun i x _ hi => hs.slotErrors hbs hi, ?_, ?_⟩
    · rw [hall]
      exact hs.sum_slotInodes hbs
    · rw [hall]
      exact h

end Fsck

end MiniFs.Image

namespace MiniFs.Properties
open MiniFs.Core Image Library Library.Exec Library.Chunks

/-- Every data block counted as used belongs to a live file. -/
def Balanced (w : World) : Prop :=
  w.sb.dataBlocks.toNat = w.sb.freeBlocks.toNat + w.neededBlocks

/-- The call leaves an existing file without content by storing some of length zero, while a block
is free; `find` is the look-up of the state before it. -/
def StoresNothing (find : CStr → Option Inode) (freeBlocks : UInt32) : FileOp → Prop
  | .write name data => data.strlen = 0 ∧ (find name).isSome ∧ freeBlocks ≠ 0
  | .append name data =>
    data.strlen = 0 ∧ (∃ x, find name = some x ∧ x.size = 0) ∧ freeBlocks ≠ 0
  | _ => False

def NoEmptyStores : World → List FileCall → Prop :=
  Always runCall fun w c => ¬ StoresNothing w.find w.sb.freeBlocks c.op

variable {g : Geometry} {w : World} {v v' : View}

theorem one_le_blocksNeeded (g : Geometry) (n : ℕ) : 1 ≤ blocksNeeded g n := le_max_left 1 _

theorem needed_zero (g : Geometry) : blocksNeeded g 0 = 1 := by
  rw [blocksNeeded, pieces_zero g.blockSize_pos]
  rfl

theorem room_ne_zero {n : UInt32} {k len : ℕ} (hk : k = blocksNeeded g len) (h : k ≤ n.toNat) :
    n ≠ 0 := by
  rintro rfl
  have := one_le_blocksNeeded g len
  rw [UInt32.toNat_zero] at h
  omega

theorem Rejected.not_storesNothing {vol vol' : Volume} {op : FileOp} {msg : Message}
    (h : Rejected g op vol vol' msg) :
    ¬ StoresNothing (fun name => vol.lookup name.bytes) vol.sb.freeBlocks op := by
  have hfull {n : UInt32} (hlt : n.toNat < blocksNeeded g 0) : n = 0 := by
    rw [needed_zero] at hlt
    exact UInt32.toNat_inj.mp (Nat.lt_one_iff.mp hlt)
  cases h with
  | notFound hsub hnone =>
    cases op with
    | write name data =>
      obtain ⟨rfl, -⟩ := returned_inj hsub
      simp [StoresNothing, hnone]
    | append name data =>
      obtain ⟨rfl, -⟩ := returned_inj hsub
      simp [StoresNothing, hnone]
    | _ => exact id
  | writeTooLarge hat hlarge =>
    rintro ⟨h0, -⟩
    rw [h0, needed_zero] at hlarge
    omega
  | writeFull hat hle hlt =>
    rintro ⟨h0, -, hfree⟩
    rw [h0] at hlt
    exact hfree (hfull hlt)
  | appendTooLarge hat hlarge =>
    rintro ⟨h0, ⟨y, hy, hsize⟩, -⟩
    obtain rfl := Option.some.inj (hat.lookup.symm.trans hy)
    rw [h0, hsize, UInt32.toNat_zero, needed_zero] at hlarge
    omega
  | appendFull hat hle hlt =>
    rintro ⟨h0, ⟨y, hy, hsize⟩, hfree⟩
    obtain rfl := Option.some.inj (hat.lookup.symm.trans hy)
    rw [h0, hsize, UInt32.toNat_zero] at hlt
    exact hfree (hfull hlt)
  | _ => exact id

/-- The calls that lose a block are the calls that store nothing. -/
theorem lostBlocks_eq_zero_iff {now : UInt64} {op : FileOp} {r : Int}
    (h : Outcome g now op v r v') :
    (if r = 0 then lostBlocks v.vol op else 0) = 0 ↔
      ¬ StoresNothing (fun name => v.vol.lookup name.bytes) v.vol.sb.freeBlocks op := by
  cases h with
  | accepted hstep hadv =>
    rw [if_pos rfl]
    cases hstep with
    | @write _ _ name data _ _ _ _ hat hst =>
      have hroom := room_ne_zero hst.length hst.room
      rw [lostBlocks_some rfl]
      simp [StoresNothing, hat.lookup, hroom]
    | @append _ _ name data _ x _ _ hat hst =>
      have hroom := room_ne_zero hst.length hst.room
      have hsize : x.size.toNat = 0 ↔ x.size = 0 := UInt32.toNat_inj (b := 0)
      rw [lostBlocks_some (n := x.size.toNat + data.strlen)
        (by rw [storedLength, hat.lookup, Option.map_some])]
      simp only [StoresNothing, hat.lookup, Option.some_inj, exists_eq_left']
      rw [ite_eq_right_iff, Nat.add_eq_zero_iff, hsize]
      constructor
      · rintro h ⟨hdata, hx, -⟩
        exact absurd (h ⟨hx, hdata⟩) one_ne_zero
      · rintro h ⟨hx, hdata⟩
        exact absurd ⟨hdata, hx, hroom⟩ h
    | _ => simp [lostBlocks, storedLength, StoresNothing]
  | rejected hstep hadv =>
    rw [if_neg (by decide)]
    exact iff_of_true rfl (Rejected.not_storesNothing hstep)

/-- Along a run of calls, the number of lost blocks grows unless no call stores nothing. -/
theorem runCalls_lostCount (h : Represents g w v) (hv : Steady g v) (calls : List FileCall)
    (hcalls : ∀ c ∈ calls, ContentBelow c.op) :
    ∃ rs w' v', runList runCall calls w = some (rs, w') ∧ Represents g w' v' ∧ Steady g v' ∧
      lostCount g v.vol ≤ lostCount g v'.vol ∧
      (lostCount g v'.vol = lostCount g v.vol ↔ NoEmptyStores w calls) := by
  induction calls generalizing w v with
  | nil => exact ⟨[], w, v, rfl, h, hv, le_rfl, iff_of_true rfl trivial⟩
  | cons c calls ih =>
    have hc := hcalls c List.mem_cons_self
    obtain ⟨r, w1, v1, hw1, h1, hstep, hv1⟩ := h.runCall hv (hv.sound.fits hc)
    obtain ⟨rs, w2, v2, hw2, h2, hv2, hle, hiff⟩ :=
      ih h1 hv1 fun d hd => hcalls d (List.mem_cons_of_mem c hd)
    have hcount := Outcome.lostCount hv.sound (hv.sound.fits hc) hstep
    have hlost := lostBlocks_eq_zero_iff hstep
    rw [← find_eq h hv, ← h.sb] at hlost
    refine ⟨r :: rs, w2, v2, ?_, h2, hv2, by omega, ?_⟩
    · simp only [runList, bind_apply, hw1, hw2, Option.bind_some, pure_apply]
    · rw [NoEmptyStores, always_cons hw1, ← hlost]
      change _ ↔ _ ∧ NoEmptyStores w1 calls
      rw [← hiff]
      omega

theorem balanced_iff (h : Represents g w v) (hv : Steady g v) :
    Balanced w ↔ lostCount g v.vol = 0 := by
  have hlay : g.Describes w.sb := h.sb ▸ h.layout
  have hneed : w.neededBlocks = (v.vol.inodes.map fun x => (ownedBy g x).length).sum := by
    rw [World.neededBlocks, h.inodes_eq hv.faults, hlay.blockSize]
    congr 1
    apply List.map_congr_left
    intro x hx
    obtain ⟨i, hi⟩ := List.getElem?_of_mem hx
    by_cases hlive : x.isUsed = 1
    · rw [if_pos hlive, ownedBy_live hlive, (hv.sound.live i x hi hlive).length_blocksOf]
    · rw [if_neg hlive, ownedBy, if_neg hlive, List.length_nil]
  have heq := hv.sound.dataBlocks_eq
  rw [Balanced, hlay.dataBlocks, hneed, h.sb]
  omega

theorem fsFsck_clean_iff (h : Represents g w v) (hv : Steady g v)
    (hbs : 16 * g.blockSize < 2 ^ 32) :
    (∃ w', fsFsck w = some (0, w')) ↔ lostCount g v.vol = 0 := by
  obtain ⟨r, ⟨msgs, hrun⟩, hr⟩ := fsFsck_prints
    (scans_view hv.faults hv.sound.layout hv.sound.inodes_length) hv.sound.layout.magic
  obtain ⟨w1, hw1, -⟩ := hrun.exec h
  rw [← hv.sound.fsckClean_iff hbs, ← hr, hw1]
  constructor
  · rintro ⟨w', hw'⟩
    exact (returned_inj hw').1
  · rintro rfl
    exact ⟨w1, rfl⟩

theorem lostCount_empty {totalSize blockSize : UInt32} (h : Formattable totalSize blockSize)
    (now : UInt64) (out : List Message) :
    lostCount (Geometry.ofFormat h) (initialView h now out).vol = 0 := by
  rw [lostCount, Library.Ownership.Exclusive.lost]
  change ((Finset.range _ \ Finset.range _) \ _).card = 0
  rw [Finset.sdiff_self, Finset.empty_sdiff, Finset.card_empty]

/-- After a session on a formatted disk every used data block belongs to a live file if no call
stored nothing, and only then; and so `fsck` answers 0. -/
theorem session_balanced_iff {totalSize blockSize : UInt32} {now : UInt64} {w0 w1 : World}
    (hf : w0.faults = noFaults) (hfmt : fsFormat now totalSize blockSize w0 = some (0, w1))
    (hbs : blockSize < 2 ^ 28) (calls : List FileCall)
    (hshort : ∀ c ∈ calls, c.op.ArgsBelow (2 ^ 17)) :
    ∃ w2 results w, fsMount w1 = some (0, w2) ∧ runList runCall calls w2 = some (results, w) ∧
      (Balanced w ↔ NoEmptyStores w2 calls) ∧
      ((∃ w', fsFsck w = some (0, w')) ↔ NoEmptyStores w2 calls) := by
  obtain ⟨h, w2, hmount, hrep, hv0⟩ := mount_initial hf hfmt
  obtain ⟨rs, w, v, hrun, hrepw, hv, -, hiff⟩ := runCalls_lostCount hrep hv0 calls fun c hc =>
    contentBelow_of_argsBelow (by decide) (hshort c hc)
  have hbs' : 16 * (Geometry.ofFormat h).blockSize < 2 ^ 32 := by
    have hlt := UInt32.lt_iff_toNat_lt.mp hbs
    change blockSize.toNat < 2 ^ 28 at hlt
    change 16 * blockSize.toNat < 2 ^ 32
    omega
  rw [lostCount_empty] at hiff
  exact ⟨w2, rs, w, hmount, hrun, (balanced_iff hrepw hv).trans hiff,
    (fsFsck_clean_iff hrepw hv hbs').trans hiff⟩

/-- A run that stores and deletes one byte. -/
theorem session_balanced_iff_four : ∃ w1 w2 results w,
    fsFormat 0 576 144 (.start none 0 0) = some (0, w1) ∧ fsMount w1 = some (0, w2) ∧
    runList runCall [⟨.create ⟨[97], by decide⟩, 1⟩, ⟨.write ⟨[97], by decide⟩ ⟨[98], by decide⟩, 2⟩,
      ⟨.delete ⟨[97], by decide⟩, 3⟩] w2 = some (results, w) ∧
    Balanced w ∧ ∃ w', fsFsck w = some (0, w') := by
  obtain ⟨w1, hfmt⟩ := fsFormat_four
  obtain ⟨w2, results, w, hmount, hcalls, hbalanced, hfsck⟩ :=
    session_balanced_iff rfl hfmt (by decide) [⟨.create ⟨[97], by decide⟩, 1⟩,
      ⟨.write ⟨[97], by decide⟩ ⟨[98], by decide⟩, 2⟩, ⟨.delete ⟨[97], by decide⟩, 3⟩]
      (by simp [FileOp.ArgsBelow, FileOp.args, CStr.strlen])
  have hstores : NoEmptyStores w2 [⟨.create ⟨[97], by decide⟩, 1⟩,
      ⟨.write ⟨[97], by decide⟩ ⟨[98], by decide⟩, 2⟩, ⟨.delete ⟨[97], by decide⟩, 3⟩] :=
    ⟨not_false, fun _ _ _ => ⟨fun hnothing => absurd hnothing.1 (by decide),
      fun _ _ _ => ⟨not_false, fun _ _ _ => trivial⟩⟩⟩
  exact ⟨w1, w2, results, w, hfmt, hmount, hcalls, hbalanced.mpr hstores, hfsck.mpr hstores⟩

instance (w : World) : Decidable (Balanced w) := inferInstanceAs (Decidable (_ = _))

set_option maxRecDepth 100000 in
/-- Writing the empty string to a new file uses up a block that belongs to nobody, and `fsck`
answers -1. -/
theorem emptyWrite_unbalanced : ∃ w1 w2 w w3,
    fsFormat 0 576 144 (.start none 0 0) = some (0, w1) ∧ fsMount w1 = some (0, w2) ∧
    runList runCall [⟨.create ⟨[97], by decide⟩, 1⟩, ⟨.write ⟨[97], by decide⟩ ⟨[], by decide⟩, 2⟩]
      w2 = some ([0, 0], w) ∧ ¬ Balanced w ∧ fsFsck w = some (-1, w3) := by
  have hmounted := exists_mounted 576 144
    (fun w2 => (runList runCall [⟨.create ⟨[97], by decide⟩, 1⟩,
      ⟨.write ⟨[97], by decide⟩ ⟨[], by decide⟩, 2⟩] w2).any fun k => k.1 = [0, 0] ∧
        ¬ Balanced k.2 ∧ (fsFsck k.2).any fun c => c.1 = -1)
  obtain ⟨w1, w2, hfmt, hmount, h2⟩ := hmounted (by decide +kernel)
  obtain ⟨rs, w, hcalls, h3⟩ := exists_of_any h2
  obtain ⟨rfl, hbad, h3⟩ := of_decide_eq_true h3
  obtain ⟨r3, w3, hfsck, h4⟩ := exists_of_any h3
  obtain rfl : r3 = -1 := of_decide_eq_true h4
  exact ⟨w1, w2, w, w3, hfmt, hmount, hcalls, hbad, hfsck⟩

end MiniFs.Properties
