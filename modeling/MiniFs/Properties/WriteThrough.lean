import MiniFs.Image.Remount

/-! # Remounting between commands

At the end of every command the disk holds the superblock and the bitmap of the
memory. A remount or a new process between two commands is therefore not noticed
later, and one shell session agrees with a sequence of processes of one command.
-/

set_option autoImplicit false

namespace MiniFs.Properties
open MiniFs.Core Image Library Library.Exec

/-- The superblock and the bitmap on disk are those in memory. -/
structure WriteThrough (w : World) : Prop where
  superblock : w.savedSb = w.sb
  bitmap : w.bitmap = .live w.savedBitmap

/-- The same output, memory and disk, up to the bytes of block 0 behind the superblock. These are
sent along from the memory behind the global `sb`, and no command reads them. -/
structure SameState (w w' : World) : Prop where
  out : w'.out = w.out
  sb : w'.sb = w.sb
  bitmap : w'.bitmap = w.bitmap
  file : ∃ d d', w.file = some d ∧ w'.file = some d' ∧ d'.length = d.length ∧
    ∀ k, k < superblockSize ∨ w.sb.blockSize.toNat ≤ k → d'[k]? = d[k]?

variable {g : Geometry} {w w' : World} {v : View}

theorem writeThrough_of_steady (h : Represents g w v) (hv : Steady g v) : WriteThrough w :=
  ⟨by rw [h.savedSb_eq, hv.sound.saved, h.sb], h.savedBitmap_eq⟩

theorem sameState_of_same (h : Represents g w v) (hst : Same g w w') : SameState w w' := by
  obtain ⟨d, d', hd, hd', hlen, hagree⟩ := hst.file
  have hlay : g.Describes w.sb := h.sb ▸ h.layout
  refine ⟨hst.out.symm, hst.sb.symm, hst.bitmap.symm, d, d', hd, hd', hlen.symm, fun k hk => ?_⟩
  rw [hlay.blockSize] at hk
  exact (hagree k hk).symm

end MiniFs.Properties
