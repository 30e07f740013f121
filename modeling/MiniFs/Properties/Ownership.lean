import MiniFs.Image.Observe

/-! # Who owns which block

In every state a session reaches, live files own exclusive blocks of the data
region, metadata blocks stay marked, and both free counters are exact.
-/

set_option autoImplicit false

namespace MiniFs.Properties
open MiniFs.Core Image Library Library.Exec Library.Chunks Library.Ownership

/-- The invariant of inode table, bitmap and counters, as a process shows them. -/
structure BlockOwnership (w : World) : Prop where
  flag : ∀ x ∈ w.inodes, x.isUsed = 0 ∨ x.isUsed = 1
  id : ∀ i x, w.LiveAt i x → x.id.toNat = i
  size : ∀ i x, w.LiveAt i x → x.size.toNat ≤ 16 * w.sb.blockSize.toNat
  length : ∀ i x, w.LiveAt i x →
    (w.blocksOf x).length = pieces x.size.toNat w.sb.blockSize.toNat
  in_data : ∀ i x, w.LiveAt i x → ∀ b ∈ w.blocksOf x,
    w.sb.dataStart.toNat ≤ b ∧ b < w.sb.totalBlocks.toNat
  marked : ∀ i x, w.LiveAt i x → ∀ b ∈ w.blocksOf x, w.marked b = true
  nodup : ∀ i x, w.LiveAt i x → (w.blocksOf x).Nodup
  disjoint : ∀ i j x y, i ≠ j → w.LiveAt i x → w.LiveAt j y → ∀ b ∈ w.blocksOf x, b ∉ w.blocksOf y
  metadata : ∀ b < w.sb.dataStart.toNat, w.marked b = true
  free_blocks : w.sb.freeBlocks.toNat =
    {b ∈ Finset.range w.sb.totalBlocks.toNat | w.marked b = false}.card
  free_inodes : w.sb.freeInodes.toNat = w.inodes.countP (·.isUsed = 0)

variable {g : Geometry} {w : World} {v : View}

theorem card_unmarked (h : Represents g w v) (hs : Sound g v.vol) :
    {b ∈ Finset.range g.totalBlocks | w.marked b = false}.card + v.vol.used.card =
      g.totalBlocks := by
  have hfree : {b ∈ Finset.range g.totalBlocks | w.marked b = false} =
      Finset.range g.totalBlocks \ v.vol.used := by
    ext b
    rw [Finset.mem_filter, Finset.mem_sdiff]
    rw [h.marked_eq, decide_eq_false_iff_not]
  have hsub : v.vol.used ⊆ Finset.range g.totalBlocks :=
    fun b hb => Finset.mem_range.mpr (hs.used_lt b hb)
  rw [hfree, Finset.card_sdiff_add_card_eq_card hsub, Finset.card_range]

theorem blockOwnership_of_sound (h : Represents g w v) (hs : Sound g v.vol) (hf : v.faults = noFaults) :
    BlockOwnership w := by
  have hlay : g.Describes w.sb := h.sb ▸ h.layout
  have hown {i : ℕ} {x : Inode} (hx : w.LiveAt i x) : w.blocksOf x = v.vol.own g i := by
    obtain ⟨hi, hlive⟩ := (h.liveAt_iff hf).mp hx
    rw [h.blocksOf_eq, own_live hi hlive]
  have hlive {i : ℕ} {x : Inode} (hx : w.LiveAt i x) : LiveAt g i x :=
    hs.live i x ((h.liveAt_iff hf).mp hx).1 hx.2
  have hmarked (b : ℕ) (hb : b ∈ v.vol.used) : w.marked b = true := by
    rw [h.marked_eq]
    exact decide_eq_true hb
  constructor
  · rw [h.inodes_eq hf]
    exact hs.flags
  · exact fun i x hx => (hlive hx).id
  · intro i x hx
    rw [hlay.blockSize]
    exact (hlive hx).size
  · intro i x hx
    rw [h.blocksOf_eq, hlay.blockSize]
    exact (hlive hx).length_blocksOf
  · intro i x hx b hb
    rw [hown hx] at hb
    rw [hlay.dataStart, hlay.totalBlocks]
    exact hs.block_bounds hb
  · intro i x hx b hb
    rw [hown hx] at hb
    exact hmarked b (hs.exclusive.own_used i b hb)
  · intro i x hx
    rw [hown hx]
    exact hs.exclusive.nodup i
  · intro i j x y hij hx hy b hb
    rw [hown hx] at hb
    rw [hown hy]
    exact hs.exclusive.disjoint i j hij b hb
  · intro b hb
    rw [hlay.dataStart] at hb
    exact hmarked b (hs.exclusive.reserved_used b (Finset.mem_range.mpr hb))
  · have hcard := card_unmarked h hs
    have hfree := hs.free_blocks
    rw [hlay.totalBlocks, h.sb]
    omega
  · rw [h.inodes_eq hf, h.sb]
    exact hs.free_inodes

/-- Every session on a formatted disk runs to its end, in a state with the invariant. -/
theorem session_blockOwnership {totalSize blockSize : UInt32} {now : UInt64} {w0 w1 : World}
    (hf : w0.faults = noFaults) (hfmt : fsFormat now totalSize blockSize w0 = some (0, w1))
    (calls : List FileCall) (hshort : ∀ c ∈ calls, c.op.ArgsBelow (2 ^ 17)) :
    ∃ results w, session calls w1 = some ((0, results), w) ∧ BlockOwnership w := by
  obtain ⟨h, rs, w, v, hrun, hrep, hv, -⟩ := session_runs hf hfmt calls fun c hc =>
    contentBelow_of_argsBelow (by decide) (hshort c hc)
  exact ⟨rs, w, hrun, blockOwnership_of_sound hrep hv.sound hv.faults⟩

set_option maxRecDepth 100000 in
/-- A disk of four blocks, a file, and a write to it. -/
theorem session_blockOwnership_four : ∃ w1 results w,
    fsFormat 0 576 144 (.start none 0 0) = some (0, w1) ∧
    session [⟨.create ⟨[97], by decide⟩, 1⟩, ⟨.write ⟨[97], by decide⟩ ⟨[98], by decide⟩, 2⟩] w1 =
      some ((0, results), w) ∧ BlockOwnership w := by
  obtain ⟨w1, hfmt⟩ := fsFormat_four
  obtain ⟨results, w, hses, how⟩ := session_blockOwnership rfl hfmt
    [⟨.create ⟨[97], by decide⟩, 1⟩, ⟨.write ⟨[97], by decide⟩ ⟨[98], by decide⟩, 2⟩]
    (by simp [FileOp.ArgsBelow, FileOp.args, CStr.strlen])
  exact ⟨w1, results, w, hfmt, hses, how⟩

end MiniFs.Properties
