import MiniFs.Image.Observe
import MiniFs.Image.Acceptance

/-! # Which files the filter of `fsck` takes for garbage

`fsck` passes over inodes larger than `MAX_DIRECT_BLOCKS * block_size`, a product
of 32 bits. `_do_write` rounds the size up to blocks, in 32 bits too, and compares
the quotient with `MAX_DIRECT_BLOCKS`. The two limits part where one of them wraps.
-/

set_option autoImplicit false

namespace MiniFs.Image
open MiniFs.Core Library Library.Exec Library.Chunks

variable {g : Geometry} {v : View} {w w1 : World} {now : UInt64} {x : Inode} {data : List UInt8}
  {len : UInt32}

/-- What `_do_write` returned and left, if it accepted the data. -/
theorem doWrite_inv (hrep : Represents g w v) (hv : v.faults = noFaults) (hw : Writable g v.vol x)
    (hlen : data.length = len.toNat) {x' : Inode}
    (hrun : doWrite now x data len w = some (some x', w1)) :
    blockCount v.vol.sb len ≤ maxDirectBlocks ∧ ∃ d vol', x' = storedInode now x d len ∧
      vol'.inodes = v.vol.inodes ∧ Represents g w1 (v.setVol vol') := by
  let n := if blockCount v.vol.sb len = 0 then 1 else blockCount v.vol.sb len
  have hno (v' : View) (h : Runs (view g) v (doWrite now x data len) none v') : False := by
    obtain ⟨w', hw', -⟩ := h.exec hrep
    exact nomatch (run_unique hw' hrun).1
  by_cases hlarge : n > maxDirectBlocks
  · refine (hno (v.say [tooLarge v.vol.sb]) (getSb_runs.bind ?_)).elim
    simp only [n] at hlarge
    simp only [hlarge, if_true]
    exact (emit_runs _).bind (Runs.pure _ _)
  by_cases hfull : n > v.vol.sb.freeBlocks
  · refine (hno (v.say [.diskFull n v.vol.sb.freeBlocks]) (getSb_runs.bind ?_)).elim
    simp only [n] at hlarge hfull
    simp only [hlarge, hfull, if_true, if_false]
    exact (emit_runs _).bind (Runs.pure _ _)
  · obtain ⟨held, d, vol1, -, hp, -, hplaced⟩ :=
      doWrite_placed (n := n) hv now hw hlen rfl hlarge hfull
    obtain ⟨w', hw', hrep'⟩ := hplaced.exec hrep
    obtain ⟨hx, rfl⟩ := run_unique hrun hw'
    refine ⟨?_, d, vol1.setSb _, Option.some.inj hx, hp.inodes, hrep'⟩
    have hle := UInt32.not_lt.mp hlarge
    simp only [n] at hle
    split_ifs at hle with hzero
    · rw [hzero]
      decide
    · exact hle

end MiniFs.Image

namespace MiniFs.Properties
open MiniFs.Core MiniFs.Image Library Library.Exec

/-- The sizes below the limit of `fsck`. Either the product does not wrap, and neither does the
count of blocks or else the size is small all the same; or the product wraps. -/
def BelowLimit (blockSize len : ℕ) : Prop :=
  (blockSize < 2 ^ 28 ∧ (len + blockSize ≤ 2 ^ 32 ∨ len ≤ 16 * blockSize)) ∨
    (2 ^ 28 ≤ blockSize ∧ len ≤ 16 * (blockSize % 2 ^ 28))

instance (blockSize len : ℕ) : Decidable (BelowLimit blockSize len) :=
  inferInstanceAs (Decidable (_ ∨ _))

variable {sb : Superblock} {len : UInt32}

/-- For the sizes `_do_write` accepts. -/
theorem size_le_limit_iff (hbs : 0 < sb.blockSize.toNat) (hle : blockCount sb len ≤ maxDirectBlocks) :
    len ≤ maxDirectBlocks * sb.blockSize ↔ BelowLimit sb.blockSize.toNat len.toNat := by
  have hlen := len.toNat_lt
  have hblock := sb.blockSize.toNat_lt
  have hlimit : (maxDirectBlocks * sb.blockSize).toNat = 16 * (sb.blockSize.toNat % 2 ^ 28) := by
    rw [UInt32.toNat_mul]
    change 16 * sb.blockSize.toNat % 2 ^ 32 = _
    omega
  rw [UInt32.le_iff_toNat_le, hlimit, BelowLimit]
  by_cases hsmall : sb.blockSize.toNat < 2 ^ 28
  · rw [Nat.mod_eq_of_lt hsmall]
    have hexact : len.toNat + sb.blockSize.toNat ≤ 2 ^ 32 → len.toNat ≤ 16 * sb.blockSize.toNat := by
      intro hfit
      have hcount := UInt32.le_iff_toNat_le.mp hle
      rw [blockCount, UInt32.toNat_div, UInt32.toNat_sub, UInt32.toNat_add, UInt32.toNat_one] at hcount
      have hsum : (2 ^ 32 - 1 + (len.toNat + sb.blockSize.toNat) % 2 ^ 32) % 2 ^ 32 =
          len.toNat + sb.blockSize.toNat - 1 := by omega
      rw [hsum] at hcount
      exact (Chunks.pieces_le_iff hbs).mp hcount
    omega
  · omega

variable {totalSize blockSize : UInt32} {now stamp : UInt64} {w0 w1 w w' : World}

/-- What `_do_write` and `inode_write` leave in the slot of a live inode. -/
theorem written_counted_iff (h : Formattable totalSize blockSize) {v : View}
    (hrep : Represents (Geometry.ofFormat h) w v) (hv : Steady (Geometry.ofFormat h) v) {i : ℕ}
    {x x' : Inode} (hx : w.LiveAt i x) {data : List UInt8} (hlen : data.length = len.toNat)
    (hrun : doWrite stamp x data len w = some (some x', w')) :
    ∃ w2, inodeWrite x'.id x' w' = some (0, w2) ∧ w2.LiveAt i x' ∧
      (¬ FsckSkips w2.sb x' ↔ BelowLimit blockSize.toNat len.toNat) := by
  obtain ⟨hslot, hlive⟩ := (hrep.liveAt_iff hv.faults).mp hx
  have hs := hv.sound
  have hid := sound_id hs hslot hlive
  have hi := (List.getElem?_eq_some_iff.mp hslot).1
  obtain ⟨hcount, d, vol', rfl, hinodes, hrep'⟩ :=
    doWrite_inv hrep hv.faults (hs.writable hslot hlive) hlen hrun
  have hwrite : Runs (view (Geometry.ofFormat h)) (v.setVol vol')
      (inodeWrite (storedInode stamp x d len).id (storedInode stamp x d len)) 0
      ((v.setVol vol').setVol (vol'.setInode i (storedInode stamp x d len))) :=
    inodeWrite_runs (v := v.setVol vol') hv.faults hid (by change i < vol'.inodes.length; rwa [hinodes])
      (by change vol'.inodes.length = _; rw [hinodes, hs.inodes_length])
  obtain ⟨w2, hw2, hrep2⟩ := hwrite.exec hrep'
  have hlay : (Geometry.ofFormat h).Describes w2.sb := hrep2.sb ▸ hrep2.layout
  have hbs : w2.sb.blockSize = v.vol.sb.blockSize :=
    UInt32.toNat_inj.mp (hlay.blockSize.trans hs.layout.blockSize.symm)
  refine ⟨w2, hw2, (hrep2.liveAt_iff hv.faults).mpr ⟨?_, hlive⟩, ?_⟩
  · change (vol'.inodes.set i _)[i]? = _
    rw [hinodes, List.getElem?_set_self hi]
  · have hcount' : blockCount w2.sb len ≤ maxDirectBlocks := by
      rw [blockCount, hbs]
      exact hcount
    have hpos : 0 < w2.sb.blockSize.toNat := hlay.blockSize ▸ (Geometry.ofFormat h).blockSize_pos
    have hiff := size_le_limit_iff hpos hcount'
    rw [hlay.blockSize] at hiff
    change _ ↔ BelowLimit (Geometry.ofFormat h).blockSize len.toNat
    rw [← hiff, FsckSkips, not_or, not_or, UInt32.not_le, UInt32.not_lt]
    have hidlt : x.id < w2.sb.maxInodes := by
      rw [UInt32.lt_iff_toNat_lt, hid, hlay.maxInodes]
      exact hs.slot_lt hslot
    have hused : ¬ 1 < x.isUsed := by
      rw [hlive]
      decide
    exact ⟨fun hall => hall.2.2, fun hle => ⟨hidlt, hused, hle⟩⟩

/-- After a format, a mount and any calls: whenever `_do_write` accepts data for a live inode and
`inode_write` stores the inode, `fsck` counts it if and only if the size is below its limit. -/
theorem counted_iff (hf : w0.faults = noFaults)
    (hfmt : fsFormat now totalSize blockSize w0 = some (0, w1)) {calls : List FileCall}
    (hcalls : ∀ c ∈ calls, ContentBelow c.op) {results : List Int}
    (hses : session calls w1 = some ((0, results), w)) {i : ℕ} {x x' : Inode} (hx : w.LiveAt i x)
    {data : List UInt8} (hlen : data.length = len.toNat)
    (hrun : doWrite stamp x data len w = some (some x', w')) :
    ∃ w2, inodeWrite x'.id x' w' = some (0, w2) ∧ w2.LiveAt i x' ∧
      (¬ FsckSkips w2.sb x' ↔ BelowLimit blockSize.toNat len.toNat) := by
  obtain ⟨h, v, hrep, hv, -⟩ := session_steady hf hfmt hcalls hses
  exact written_counted_iff h hrep hv hx hlen hrun

set_option maxRecDepth 100000 in
/-- A file of one byte on a disk of four blocks. -/
theorem counted_iff_four : ∃ w1 w w' w2 x x', fsFormat 0 576 144 (.start none 0 0) = some (0, w1) ∧
    session [⟨.create ⟨[97], by decide⟩, 1⟩] w1 = some ((0, [0]), w) ∧ w.LiveAt 0 x ∧
    doWrite 2 x [98] 1 w = some (some x', w') ∧ inodeWrite x'.id x' w' = some (0, w2) ∧
    w2.LiveAt 0 x' ∧ (¬ FsckSkips w2.sb x' ↔ BelowLimit (144 : UInt32).toNat (1 : UInt32).toNat) := by
  have hrun : (fsFormat 0 576 144 (.start none 0 0)).any fun a => a.1 = 0 ∧
      (session [⟨.create ⟨[97], by decide⟩, 1⟩] a.2).any fun b => b.1 = (0, [0]) ∧
        (b.2.slot 0).any fun x => x.isUsed = 1 ∧
          (doWrite 2 x [98] 1 b.2).any fun c => c.1.isSome := by
    decide +kernel
  obtain ⟨r, w1, hfmt, h1⟩ := exists_of_any hrun
  obtain ⟨rfl, h1⟩ := of_decide_eq_true h1
  obtain ⟨rs, w, hses, h2⟩ := exists_of_any h1
  obtain ⟨rfl, h2⟩ := of_decide_eq_true h2
  obtain ⟨x, hx, h3⟩ := (Option.any_eq_true _ _).mp h2
  obtain ⟨hlive, h3⟩ := of_decide_eq_true h3
  obtain ⟨y, w', hwrite, h4⟩ := exists_of_any h3
  obtain ⟨x', rfl⟩ := Option.isSome_iff_exists.mp h4
  obtain ⟨w2, hall⟩ := counted_iff rfl hfmt (by simp [ContentBelow]) hses ⟨hx, hlive⟩ rfl hwrite
  exact ⟨w1, w, w', w2, x, x', hfmt, hses, ⟨hx, hlive⟩, hwrite, hall⟩

/-- A disk of four blocks of 2^28 bytes: sixteen times the block size wraps to zero. -/
theorem formattable_wrapping : Formattable (2 ^ 30) (2 ^ 28) :=
  ⟨by decide, by decide, by decide⟩

theorem created_first {g : Geometry} {v0 v : View} {r : Int} (hv : Steady g v0)
    (hempty : ∀ x ∈ v0.vol.inodes, x = Inode.zero) (hfree : v0.vol.sb.freeInodes ≠ 0)
    (hstep : callStep g ⟨.create ⟨[97], by decide⟩, 1⟩ v0 r v) :
    r = 0 ∧ v.vol.sb.freeBlocks = v0.vol.sb.freeBlocks ∧
      ∃ (i : ℕ) (x : Inode), v.vol.inodes[i]? = some x ∧ x.isUsed = 1 := by
  have hnone : v0.vol.lookup [97] = none := by
    refine List.find?_eq_none.mpr fun x hx => ?_
    rw [hempty x hx]
    decide
  have hr : r = 0 := (Outcome.admits_iff hv.sound (hv.sound.fits (by simp [ContentBelow])) hstep).mpr
    ⟨by decide, hnone, hfree⟩
  refine ⟨hr, ?_⟩
  cases hstep with
  | rejected hrej hadv => exact absurd hr (by decide)
  | accepted hacc hadv =>
    cases hacc with
    | @create _ _ i x hlen hnew hslot =>
      rw [hadv.vol]
      refine ⟨rfl, i, newInode 1 i ⟨[97], by decide⟩ (fsIfreg ||| fsDefaultMode), ?_, rfl⟩
      exact List.getElem?_set_self (List.getElem?_eq_some_iff.mp hslot.slot).1

/-- On it, a file of one byte is taken for garbage. -/
theorem oneByte_skipped : ∃ w1 w w' w2 i x x',
    fsFormat 0 (2 ^ 30) (2 ^ 28) (.start none 0 0) = some (0, w1) ∧
    session [⟨.create ⟨[97], by decide⟩, 1⟩] w1 = some ((0, [0]), w) ∧ w.LiveAt i x ∧
    doWrite 2 x [98] 1 w = some (some x', w') ∧ inodeWrite x'.id x' w' = some (0, w2) ∧
    w2.LiveAt i x' ∧ FsckSkips w2.sb x' := by
  obtain ⟨w1, hfmt, -⟩ := fsFormat_formatted formattable_wrapping 0 (s := .start none 0 0) rfl
  obtain ⟨h, w1', hmount, hrep0, hv0⟩ := mount_initial rfl hfmt
  obtain ⟨h, rs, w, v, hses, hrep, hv, htrace⟩ :=
    session_runs rfl hfmt [⟨.create ⟨[97], by decide⟩, 1⟩] (by simp [ContentBelow])
  cases htrace with
  | cons hstep hrest =>
    cases hrest with
    | nil =>
      have hinodes : (formatSb 0 (2 ^ 30) (2 ^ 28)).freeInodes ≠ 0 := by decide
      have hblocks : 1 ≤ (formatSb 0 (2 ^ 30) (2 ^ 28)).freeBlocks.toNat := by decide
      obtain ⟨rfl, hfree, i, x, hslot, hlive⟩ :=
        created_first hv0 (fun y hy => List.eq_of_mem_replicate hy) hinodes hstep
      have hx : w.LiveAt i x := (hrep.liveAt_iff hv.faults).mpr ⟨hslot, hlive⟩
      have hneeded : blocksNeeded (Geometry.ofFormat h) (1 : UInt32).toNat = 1 := by
        change max 1 (Chunks.pieces 1 (2 ^ 28 : UInt32).toNat) = 1
        decide
      have hroom : blocksNeeded (Geometry.ofFormat h) (1 : UInt32).toNat ≤
          v.vol.sb.freeBlocks.toNat := by
        rw [hfree, hneeded]
        exact hblocks
      have hfit : (1 : UInt32).toNat + (Geometry.ofFormat h).blockSize ≤ 2 ^ 32 := by
        change 1 + (2 ^ 28 : UInt32).toNat ≤ 2 ^ 32
        decide
      have hdata : [(98 : UInt8)].length = (1 : UInt32).toNat := rfl
      obtain ⟨held, d, vol', -, hwrites⟩ := doWrite_stored (g := Geometry.ofFormat h) hv.faults
        (hv.sound.writable hslot hlive) hdata hfit (by omega) hroom
      obtain ⟨w', hwrite, -⟩ := hwrites.exec hrep
      obtain ⟨w2, hstore, hlive2, hiff⟩ := written_counted_iff h hrep hv hx rfl hwrite
      have hskip : FsckSkips w2.sb _ := not_not.mp fun hno => absurd (hiff.mp hno) (by decide)
      exact ⟨w1, w, w', w2, i, x, _, hfmt, hses, hx, hwrite, hstore, hlive2, hskip⟩

end MiniFs.Properties
