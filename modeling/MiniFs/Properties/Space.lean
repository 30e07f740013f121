import MiniFs.Image.Acceptance
import MiniFs.Properties.Names

/-! # The room for a new content

`_do_write` compares the blocks needed with the free ones before it gives the
blocks of the old content back, so a content that would fit is refused on a
nearly full disk.
-/

set_option autoImplicit false

namespace MiniFs.Properties
open MiniFs.Core MiniFs.Image Library Library.Exec Library.Chunks

/-- `fs_write` or `fs_append` on the file `x`, to a content of `len` bytes. -/
def Stores (w : World) (x : Inode) (len : ℕ) : FileOp → Prop
  | .write name data => w.find name = some x ∧ len = data.strlen
  | .append name data => w.find name = some x ∧ len = x.size.toNat + data.strlen
  | _ => False

def neededFor (w : World) (len : ℕ) : ℕ := max 1 (pieces len w.sb.blockSize.toNat)

def ownCount (w : World) (x : Inode) : ℕ := pieces x.size.toNat w.sb.blockSize.toNat

/-- The call returns, and with 0 exactly if the content fits into the free blocks and those of
the old content. -/
def SpaceExact (w : World) (c : FileCall) (x : Inode) (len : ℕ) : Prop :=
  ∃ r w', runCall c w = some (r, w') ∧
    (r = 0 ↔ neededFor w len ≤ maxDirectBlocks.toNat ∧
      neededFor w len ≤ w.sb.freeBlocks.toNat + ownCount w x)

/-- The content fits, but only together with the blocks of the old one. -/
def Squeezed (w : World) (x : Inode) (len : ℕ) : Prop :=
  w.sb.freeBlocks.toNat < neededFor w len ∧ neededFor w len ≤ maxDirectBlocks.toNat ∧
    neededFor w len ≤ w.sb.freeBlocks.toNat + ownCount w x

variable {g : Geometry} {w : World} {v : View} {c : FileCall} {x : Inode} {len : ℕ}

theorem storing_exact (h : Represents g w v) (hv : Steady g v) (hstores : Stores w x len c.op)
    (hlen : len < 2 ^ 31) : ∃ r w', runCall c w = some (r, w') ∧
      (r = 0 ↔ neededFor w len ≤ maxDirectBlocks.toNat ∧
        neededFor w len ≤ w.sb.freeBlocks.toNat) := by
  have hbs := g.blockSize_lt
  have hsb : w.sb.blockSize.toNat = g.blockSize := by rw [h.sb, h.layout.blockSize]
  obtain ⟨op, now⟩ := c
  -- the length is a block clear of 32 bits, and the call asks for room for it
  have hcall : Fits g v.vol op ∧ (Admits g v.vol op ↔ HasRoom g v.vol.sb len) := by
    cases op with
    | write name data =>
      obtain ⟨hfind, rfl⟩ := hstores
      rw [h.find_eq hv.sound hv.faults] at hfind
      refine ⟨fun n hn => ?_, fun ⟨_, _, hroom⟩ => hroom, fun hroom => ⟨x, hfind, hroom⟩⟩
      obtain rfl := Option.some.inj hn
      omega
    | append name data =>
      obtain ⟨hfind, rfl⟩ := hstores
      rw [h.find_eq hv.sound hv.faults] at hfind
      refine ⟨fun n hn => ?_, fun ⟨y, hy, hroom⟩ => ?_, fun hroom => ⟨x, hfind, hroom⟩⟩
      · obtain ⟨y, hy, rfl⟩ := Option.map_eq_some_iff.mp hn
        obtain rfl := Option.some.inj (hfind.symm.trans hy)
        omega
      · obtain rfl := Option.some.inj (hfind.symm.trans hy)
        exact hroom
    | _ => exact hstores.elim
  obtain ⟨r, w', v', hw', -, hstep, -⟩ := h.runCall (c := ⟨op, now⟩) hv hcall.1
  refine ⟨r, w', hw', ?_⟩
  rw [hstep.admits_iff hv.sound hcall.1, hcall.2, HasRoom, blocksNeeded, neededFor, hsb, h.sb]
  rfl

theorem spaceExact_iff (h : Represents g w v) (hv : Steady g v) (hstores : Stores w x len c.op)
    (hlen : len < 2 ^ 31) : SpaceExact w c x len ↔ ¬ Squeezed w x len := by
  obtain ⟨r, w', hrun, hr⟩ := storing_exact h hv hstores hlen
  have hexact : SpaceExact w c x len ↔
      (neededFor w len ≤ maxDirectBlocks.toNat ∧ neededFor w len ≤ w.sb.freeBlocks.toNat ↔
        neededFor w len ≤ maxDirectBlocks.toNat ∧
          neededFor w len ≤ w.sb.freeBlocks.toNat + ownCount w x) := by
    rw [← hr]
    refine ⟨fun ⟨r', u, hrun', hr'⟩ => ?_, fun hr' => ⟨r, w', hrun, hr'⟩⟩
    obtain ⟨rfl, -⟩ := run_unique hrun hrun'
    exact hr'
  rw [hexact, Squeezed]
  omega

/-- A run of storable calls ends in a state that shows a steady view. -/
theorem storable_steady (h : Represents g w v) (hv : Steady g v) {calls : List FileCall}
    (hstore : Always runCall (fun w c => Storable w.find w.sb c.op) w calls) {results : List Int}
    {w' : World} (hrun : runList runCall calls w = some (results, w')) :
    ∃ v', Represents g w' v' ∧ Steady g v' := by
  induction calls generalizing w v results with
  | nil =>
    obtain ⟨-, rfl⟩ := returned_inj hrun
    exact ⟨v, h, hv⟩
  | cons c calls ih =>
    have hc : Storable w.find w.sb c.op := hstore.1
    rw [find_eq h hv, h.sb] at hc
    obtain ⟨r, w1, v1, hw1, h1, -, hv1⟩ := h.runCall hv (Storable.fits hv.sound hc)
    obtain ⟨r', rs, u, -, hcall, hrest⟩ := runList_cons hrun
    obtain ⟨-, rfl⟩ := run_unique hw1 hcall
    rw [always_cons hw1] at hstore
    exact ih h1 hv1 hstore.2 hrest

/-- After a format, a mount and storable calls, a write or an append of less than 2^31 bytes in all
is refused for lack of real space only, if and only if it is not squeezed. -/
theorem mounted_spaceExact_iff {totalSize blockSize : UInt32} {now : UInt64} {w0 w1 : World}
    (hf : w0.faults = noFaults) (hfmt : fsFormat now totalSize blockSize w0 = some (0, w1)) :
    ∃ w2, fsMount w1 = some (0, w2) ∧ ∀ (calls : List FileCall) (results : List Int) (w : World),
      Always runCall (fun w c => Storable w.find w.sb c.op) w2 calls →
      runList runCall calls w2 = some (results, w) →
      ∀ (c : FileCall) (x : Inode) (len : ℕ), Stores w x len c.op → len < 2 ^ 31 →
        (SpaceExact w c x len ↔ ¬ Squeezed w x len) := by
  obtain ⟨h, w2, hmount, hrep, hv⟩ := mount_initial hf hfmt
  refine ⟨w2, hmount, fun calls results w hstore hrun c x len hstores hlen => ?_⟩
  obtain ⟨v', hrep', hv'⟩ := storable_steady hrep hv hstore hrun
  exact spaceExact_iff hrep' hv' hstores hlen

set_option maxRecDepth 100000 in
theorem oneByte_run : ∃ w1 w2 w w' x,
    fsFormat 0 576 144 (.start none 0 0) = some (0, w1) ∧ fsMount w1 = some (0, w2) ∧
    runList runCall [⟨.create ⟨[97], by decide⟩, 1⟩,
      ⟨.write ⟨[97], by decide⟩ ⟨[120], by decide⟩, 2⟩] w2 = some ([0, 0], w) ∧
    w.find ⟨[97], by decide⟩ = some x ∧ (neededFor w 1 = 1 ∧ ownCount w x = 1 ∧
      w.sb.freeBlocks = 0) ∧
    runCall ⟨.write ⟨[97], by decide⟩ ⟨[121], by decide⟩, 3⟩ w = some (-1, w') := by
  have hmounted := exists_mounted 576 144
    (fun w2 => (runList runCall [⟨.create ⟨[97], by decide⟩, 1⟩,
      ⟨.write ⟨[97], by decide⟩ ⟨[120], by decide⟩, 2⟩] w2).any fun k => k.1 = [0, 0] ∧
        (∃ x ∈ k.2.find ⟨[97], by decide⟩, neededFor k.2 1 = 1 ∧ ownCount k.2 x = 1 ∧
          k.2.sb.freeBlocks = 0) ∧
        (runCall ⟨.write ⟨[97], by decide⟩ ⟨[121], by decide⟩, 3⟩ k.2).any fun e => e.1 = -1)
  obtain ⟨w1, w2, hfmt, hmount, h2⟩ := hmounted (by decide +kernel)
  obtain ⟨rs, w, hcalls, h3⟩ := exists_of_any h2
  obtain ⟨rfl, ⟨x, hx, hcounts⟩, hlast⟩ := of_decide_eq_true h3
  obtain ⟨r3, w', hw', h4⟩ := exists_of_any hlast
  obtain rfl : r3 = -1 := of_decide_eq_true h4
  exact ⟨w1, w2, w, w', x, hfmt, hmount, hcalls, hx, hcounts, hw'⟩

/-- One byte in the place of another, on a disk without a free block. -/
theorem mounted_spaceExact_iff_four : ∃ w1 w2 w x,
    fsFormat 0 576 144 (.start none 0 0) = some (0, w1) ∧ fsMount w1 = some (0, w2) ∧
    runList runCall [⟨.create ⟨[97], by decide⟩, 1⟩,
      ⟨.write ⟨[97], by decide⟩ ⟨[120], by decide⟩, 2⟩] w2 = some ([0, 0], w) ∧
    Stores w x 1 (.write ⟨[97], by decide⟩ ⟨[121], by decide⟩) ∧ Squeezed w x 1 ∧
    ¬ SpaceExact w ⟨.write ⟨[97], by decide⟩ ⟨[121], by decide⟩, 3⟩ x 1 := by
  obtain ⟨w1, w2, w, w', x, hfmt, hmount, hcalls, hx, ⟨hneed, hown, hfree⟩, -⟩ := oneByte_run
  obtain ⟨_, hmount', hall⟩ := mounted_spaceExact_iff rfl hfmt
  obtain ⟨-, rfl⟩ := run_unique hmount hmount'
  have hstores : Stores w x 1 (.write ⟨[97], by decide⟩ ⟨[121], by decide⟩) := ⟨hx, rfl⟩
  have hsqueezed : Squeezed w x 1 := by
    rw [Squeezed, hneed, hown, hfree]
    decide
  have hstorable : Always runCall (fun w c => Storable w.find w.sb c.op) w2
      [⟨.create ⟨[97], by decide⟩, 1⟩, ⟨.write ⟨[97], by decide⟩ ⟨[120], by decide⟩, 2⟩] := by
    refine ⟨trivial, fun _ w3 _ => ⟨?_, fun _ _ _ => trivial⟩⟩
    have hlt := w3.sb.blockSize.toNat_lt
    change 1 + w3.sb.blockSize.toNat ≤ 2 ^ 32
    omega
  have hiff := hall _ _ w hstorable hcalls ⟨.write ⟨[97], by decide⟩ ⟨[121], by decide⟩, 3⟩ x 1
    hstores (by norm_num)
  exact ⟨w1, w2, w, x, hfmt, hmount, hcalls, hstores, hsqueezed,
    fun hexact => hiff.mp hexact hsqueezed⟩

/-- The only data block holds one byte, and one byte in its place is refused. -/
theorem sameSize_refused : ∃ w1 w2 w w' x,
    fsFormat 0 576 144 (.start none 0 0) = some (0, w1) ∧ fsMount w1 = some (0, w2) ∧
    runList runCall [⟨.create ⟨[97], by decide⟩, 1⟩,
      ⟨.write ⟨[97], by decide⟩ ⟨[120], by decide⟩, 2⟩] w2 = some ([0, 0], w) ∧
    w.find ⟨[97], by decide⟩ = some x ∧ neededFor w 1 = 1 ∧ ownCount w x = 1 ∧
    runCall ⟨.write ⟨[97], by decide⟩ ⟨[121], by decide⟩, 3⟩ w = some (-1, w') := by
  obtain ⟨w1, w2, w, w', x, hfmt, hmount, hcalls, hx, ⟨hneed, hown, -⟩, hlast⟩ := oneByte_run
  exact ⟨w1, w2, w, w', x, hfmt, hmount, hcalls, hx, hneed, hown, hlast⟩

end MiniFs.Properties
