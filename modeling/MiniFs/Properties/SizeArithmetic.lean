import MiniFs.Image.Observe

/-! # File sizes in 32 bits

No file comes within three blocks of 2^32 bytes, so the sums that lengths and block counts are
computed from do not wrap.
-/

set_option autoImplicit false

namespace MiniFs.Properties
open MiniFs.Core MiniFs.Image Library Library.Exec Library.Chunks

/-- `len + block_size - 1` is the sum of the integers, and the block count the true quotient. -/
structure RoundsUp (w : World) (len : UInt32) : Prop where
  sum : (len + w.sb.blockSize - 1).toNat = len.toNat + w.sb.blockSize.toNat - 1
  count : (blockCount w.sb len).toNat = pieces len.toNat w.sb.blockSize.toNat

/-- What holds of the size arithmetic of all file operations in a state, for strings that a
command line can hold. -/
structure NoWrap (w : World) : Prop where
  /-- the size of a file, and what `fs_truncate_file` may cut it to -/
  sizes : ∀ (i : ℕ) (x : Inode) (n : UInt32), w.LiveAt i x → n ≤ x.size →
    RoundsUp w n ∧ pieces n.toNat w.sb.blockSize.toNat ≤ 16
  /-- `data_len` of `fs_write` -/
  written : ∀ data : CStr, data.strlen < 2 ^ 17 →
    (UInt32.ofNat data.strlen).toNat = data.strlen ∧ RoundsUp w (UInt32.ofNat data.strlen)
  /-- `old_len + app_len` of `fs_append` -/
  appended : ∀ (i : ℕ) (x : Inode) (data : CStr), w.LiveAt i x → data.strlen < 2 ^ 17 →
    (x.size + UInt32.ofNat data.strlen).toNat = x.size.toNat + data.strlen ∧
      RoundsUp w (x.size + UInt32.ofNat data.strlen)
  /-- every call returns, so none uses a pointer index of 16 or more -/
  indices : ∀ c : FileCall, c.op.ArgsBelow (2 ^ 17) → ∃ r w', runCall c w = some (r, w')

theorem noWrap_of_steady {g : Geometry} {w : World} {v : View} (h : Represents g w v)
    (hv : Steady g v) : NoWrap w := by
  have hlay : g.Describes w.sb := h.sb ▸ h.layout
  have hs := hv.sound
  have hbs := g.blockSize_lt
  have hround {len : UInt32} (hlen : len.toNat + g.blockSize ≤ 2 ^ 32) : RoundsUp w len := by
    refine ⟨?_, ?_⟩
    · rw [toNat_roundUp hlay hlen, hlay.blockSize]
    · rw [toNat_blockCount hlay hlen, hlay.blockSize]
  have hstrlen {data : CStr} (hdata : data.strlen < 2 ^ 17) :
      (UInt32.ofNat data.strlen).toNat = data.strlen :=
    toNat_word (by omega)
  constructor
  · intro i x n hx hn
    obtain ⟨hi, hlive⟩ := (h.liveAt_iff hv.faults).mp hx
    have hfit := hs.size_fits hi hlive
    have hle := UInt32.le_iff_toNat_le.mp hn
    refine ⟨hround (by omega), ?_⟩
    rw [hlay.blockSize]
    exact (pieces_mono g.blockSize_pos hle).trans (hs.live i x hi hlive).pieces_le
  · intro data hdata
    refine ⟨hstrlen hdata, hround ?_⟩
    rw [hstrlen hdata]
    omega
  · intro i x data hx hdata
    obtain ⟨hi, hlive⟩ := (h.liveAt_iff hv.faults).mp hx
    have hfit := hs.size_fits hi hlive
    -- small blocks bound the size by 16 blocks, large ones by what is left of 32 bits
    have hsize := (hs.live i x hi hlive).size
    have hsum : (x.size + UInt32.ofNat data.strlen).toNat = x.size.toNat + data.strlen := by
      rw [UInt32.toNat_add, hstrlen hdata]
      exact Nat.mod_eq_of_lt (by omega)
    refine ⟨hsum, hround ?_⟩
    rw [hsum]
    omega
  · intro c hc
    have hfit := hs.fits (contentBelow_of_argsBelow (by decide) hc)
    obtain ⟨r, w', -, hw', -⟩ := h.runCall hv hfit
    exact ⟨r, w', hw'⟩

/-- In every state a session on a formatted disk reaches, no size or block count wraps. -/
theorem session_noWrap {totalSize blockSize : UInt32} {now : UInt64} {w0 w1 w : World}
    (hf : w0.faults = noFaults) (hfmt : fsFormat now totalSize blockSize w0 = some (0, w1))
    {calls : List FileCall} (hshort : ∀ c ∈ calls, c.op.ArgsBelow (2 ^ 17)) {results : List Int}
    (hses : session calls w1 = some ((0, results), w)) : NoWrap w := by
  obtain ⟨h, v, hrep, hv, -⟩ := session_steady hf hfmt
    (fun c hc => contentBelow_of_argsBelow (by decide) (hshort c hc)) hses
  exact noWrap_of_steady hrep hv

/-- A disk of four blocks, a file, and a write to it. -/
theorem session_noWrap_four : ∃ w1 results w,
    fsFormat 0 576 144 (.start none 0 0) = some (0, w1) ∧
    session [⟨.create ⟨[97], by decide⟩, 1⟩, ⟨.write ⟨[97], by decide⟩ ⟨[98], by decide⟩, 2⟩] w1 =
      some ((0, results), w) ∧ NoWrap w := by
  obtain ⟨w1, results, w, hfmt, hses⟩ := session_four [⟨.create ⟨[97], by decide⟩, 1⟩,
    ⟨.write ⟨[97], by decide⟩ ⟨[98], by decide⟩, 2⟩] (by simp [ContentBelow, CStr.strlen])
  exact ⟨w1, results, w, hfmt, hses,
    session_noWrap rfl hfmt (by simp [FileOp.ArgsBelow, FileOp.args, CStr.strlen]) hses⟩

end MiniFs.Properties
