import MiniFs.Image.Format
import MiniFs.Image.Fsck

/-! # What a state shows, and the states a session reaches

The parts of a file system as they can be read off a process and its disk file,
and the fact that a session on a formatted disk keeps them those of a sound volume.
-/

set_option autoImplicit false

namespace MiniFs.Core
open Library Library.Exec Library.ByteRange Library.BitArray Library.Chunks

namespace World
variable (w : World)

/-- Inode slot `i`, as `inode_read` returns it. -/
def slot (i : ℕ) : Option Inode :=
  if i < w.sb.maxInodes.toNat then ((inodeRead (UInt32.ofNat i) w).map Prod.fst).join else none

def marked (b : ℕ) : Bool :=
  match w.bitmap with
  | .live bytes => bitAt bytes b
  | _ => false

def block (b : ℕ) : List UInt8 :=
  slice (b * w.sb.blockSize.toNat) w.sb.blockSize.toNat (w.file.getD [])

def blocksOf (x : Inode) : List ℕ :=
  (x.directBlocks.toList.take (pieces x.size.toNat w.sb.blockSize.toNat)).map UInt32.toNat

/-- The first `size` bytes of the blocks of an inode. -/
def content (x : Inode) : List UInt8 := ((w.blocksOf x).flatMap w.block).take x.size.toNat

def find (name : CStr) : Option Inode := ((inodeFindByName name w).map Prod.fst).join

def savedSb : Superblock := superblockCodec.decode (slice 0 superblockSize (w.file.getD []))

def savedBitmap : List UInt8 :=
  slice (w.sb.bitmapStart.toNat * w.sb.blockSize.toNat)
    (w.sb.bitmapBlocks.toNat * w.sb.blockSize.toNat) (w.file.getD [])

def inodes : List Inode := (List.range w.sb.maxInodes.toNat).filterMap w.slot

def LiveAt (i : ℕ) (x : Inode) : Prop := w.slot i = some x ∧ x.isUsed = 1

end World

end MiniFs.Core

namespace MiniFs.Image
open MiniFs.Core Library Library.Exec Library.ByteRange Library.BitArray Library.Chunks
open Library.Ownership

/-! ## The view determines what a state shows -/

section Shows
variable {g : Geometry} {w : World} {v : View}

theorem Represents.slot_eq (h : Represents g w v) (hf : v.faults = noFaults) (i : ℕ) :
    w.slot i = v.vol.inodes[i]? := by
  obtain ⟨disk, bytes, hfile, -, hh, -⟩ := h.memory
  have hlay : g.Describes w.sb := h.sb ▸ h.layout
  unfold World.slot
  rw [hlay.maxInodes, ← hh.inodes_length]
  split_ifs with hi
  · have hread := inodeRead_runs (g := g) hf
      (Geometry.toNat_slot (g := g) (hh.inodes_length ▸ hi)) hi
    obtain ⟨w', hw', -⟩ := hread.exec h
    rw [hw', List.getElem?_eq_getElem hi]
    rfl
  · rw [List.getElem?_eq_none (not_lt.mp hi)]

theorem Represents.inodes_eq (h : Represents g w v) (hf : v.faults = noFaults) :
    w.inodes = v.vol.inodes := by
  obtain ⟨disk, bytes, -, -, hh, -⟩ := h.memory
  have hlay : g.Describes w.sb := h.sb ▸ h.layout
  have hslot : w.slot = fun i => v.vol.inodes[i]? := funext (h.slot_eq hf)
  rw [World.inodes, hslot, filterMap_getElem?, hlay.maxInodes, ← hh.inodes_length,
    List.take_length]

theorem Represents.marked_eq (h : Represents g w v) (b : ℕ) :
    w.marked b = decide (b ∈ v.vol.used) := by
  obtain ⟨disk, bytes, -, hmem, hh, -⟩ := h.memory
  simp only [World.marked, hmem]
  exact hh.bits b

theorem Represents.block_eq (h : Represents g w v) {b : ℕ} (hb : g.dataStart ≤ b)
    (hb' : b < g.totalBlocks) : w.block b = v.vol.data b := by
  obtain ⟨disk, bytes, hfile, -, hh, -⟩ := h.memory
  have hlay : g.Describes w.sb := h.sb ▸ h.layout
  rw [World.block, hlay.blockSize, hfile, Option.getD_some]
  exact hh.data b hb hb'

theorem Represents.blocksOf_eq (h : Represents g w v) (x : Inode) :
    w.blocksOf x = blocksOf g x := by
  have hlay : g.Describes w.sb := h.sb ▸ h.layout
  rw [World.blocksOf, hlay.blockSize, blocksOf]

theorem Represents.content_eq (h : Represents g w v) (hs : Sound g v.vol) {i : ℕ} {x : Inode}
    (hi : v.vol.inodes[i]? = some x) (hx : x.isUsed = 1) : w.content x = v.vol.content g x := by
  have hdata : ∀ b ∈ blocksOf g x, w.block b = v.vol.data b := by
    intro b hb
    rw [← own_live hi hx] at hb
    exact h.block_eq (hs.block_bounds hb).1 (hs.block_bounds hb).2
  rw [World.content, h.blocksOf_eq, Volume.content, List.flatMap_congr hdata]

theorem Represents.liveAt_iff (h : Represents g w v) (hf : v.faults = noFaults) {i : ℕ} {x : Inode} :
    w.LiveAt i x ↔ v.vol.inodes[i]? = some x ∧ x.isUsed = 1 := by
  rw [World.LiveAt, h.slot_eq hf]

theorem Represents.find_eq (h : Represents g w v) (hs : Sound g v.vol) (hf : v.faults = noFaults)
    (name : CStr) : w.find name = v.vol.lookup name.bytes := by
  obtain ⟨w', hw', -⟩ := (inodeFindByName_runs hs hf name).exec h
  rw [World.find, hw', Option.map_some, Option.join_some]

theorem Represents.savedSb_eq (h : Represents g w v) : w.savedSb = v.vol.saved := by
  obtain ⟨disk, bytes, hfile, -, hh, -⟩ := h.memory
  rw [World.savedSb, hfile, Option.getD_some, hh.saved, superblockCodec.decode_encode]

theorem Represents.savedBitmap_eq (h : Represents g w v) : w.bitmap = .live w.savedBitmap := by
  obtain ⟨disk, bytes, hfile, hmem, hh, -⟩ := h.memory
  have hlay : g.Describes w.sb := h.sb ▸ h.layout
  rw [hmem, World.savedBitmap, hfile, Option.getD_some, hlay.bitmapStart, hlay.blockSize,
    hlay.bitmapBlocks, ← hh.bitmap, Geometry.blockPos]

end Shows

/-! ## Sessions -/

def ContentBelow (op : FileOp) : Prop :=
  match op with
  | .write _ data | .append _ data => data.strlen < 2 ^ 28
  | _ => True

theorem contentBelow_of_argsBelow {n : ℕ} (hn : n ≤ 2 ^ 28) {op : FileOp} (h : op.ArgsBelow n) :
    ContentBelow op := by
  cases op with
  | write name data => exact (h data (by simp [FileOp.args])).trans_le hn
  | append name data => exact (h data (by simp [FileOp.args])).trans_le hn
  | _ => trivial

theorem Sound.fits {g : Geometry} {vol : Volume} (hs : Sound g vol) {op : FileOp}
    (h : ContentBelow op) : Fits g vol op := by
  have hbs := g.blockSize_lt
  intro n hn
  cases op with
  | write name data =>
    have h : data.strlen < 2 ^ 28 := h
    obtain rfl := Option.some.inj hn
    omega
  | append name data =>
    have h : data.strlen < 2 ^ 28 := h
    rw [storedLength] at hn
    obtain ⟨x, hx, rfl⟩ := Option.map_eq_some_iff.mp hn
    obtain ⟨i, hat⟩ := exists_foundAt hx
    have h1 := (hs.live i x hat.slot hat.live).size
    have h2 := hs.size_fits hat.slot hat.live
    omega
  | _ => simp [storedLength] at hn

structure Steady (g : Geometry) (v : View) : Prop where
  sound : Sound g v.vol
  faults : v.faults = noFaults

theorem find_eq {g : Geometry} {w : World} {v : View} (h : Represents g w v) (hv : Steady g v) :
    w.find = fun name => v.vol.lookup name.bytes :=
  funext (h.find_eq hv.sound hv.faults)

def callStep (g : Geometry) (c : FileCall) (v : View) (r : Int) (v' : View) : Prop :=
  Outcome g c.now c.op v r v'

theorem Outcome.steady {g : Geometry} {now : UInt64} {op : FileOp} {v v' : View} {r : Int}
    (hv : Steady g v) (hfit : Fits g v.vol op) (h : Outcome g now op v r v') : Steady g v' := by
  refine ⟨h.sound hv.sound hfit, ?_⟩
  cases h with
  | accepted _ hadv => exact hadv.faults.trans hv.faults
  | rejected _ hadv => exact hadv.faults.trans hv.faults

/-- Once the rest of block 0 is written by a process, it stays so. -/
theorem Outcome.stamped {g : Geometry} {now : UInt64} {op : FileOp} {v v' : View} {r : Int}
    (h : Outcome g now op v r v') (hst : v.stamped = true) : v'.stamped = true := by
  cases h with
  | accepted _ hadv => exact hadv.stamped hst
  | rejected _ hadv => exact hadv.stamped hst

/-- One call from a steady view. -/
theorem runCall_runs {g : Geometry} {v : View} (hv : Steady g v) {c : FileCall}
    (hfit : Fits g v.vol c.op) :
    ∃ r v', Runs (view g) v (runCall c) r v' ∧ callStep g c v r v' ∧ Steady g v' := by
  obtain ⟨r, v', hrun, hout⟩ := runOp_runs hv.sound hv.faults c.now c.op hfit
  exact ⟨r, v', hrun, hout, hout.steady hv hfit⟩

theorem Represents.runCall {g : Geometry} {s : World} {v : View} (h : Represents g s v)
    (hv : Steady g v) {c : FileCall} (hfit : Fits g v.vol c.op) :
    ∃ r s' v', Core.runCall c s = some (r, s') ∧ Represents g s' v' ∧ callStep g c v r v' ∧
      Steady g v' := by
  obtain ⟨r, v', hrun, hstep, hv'⟩ := runCall_runs hv hfit
  obtain ⟨s', hs', h'⟩ := hrun.exec h
  exact ⟨r, s', v', hs', h', hstep, hv'⟩

/-- A list of calls from a steady view. -/
theorem runCalls_runs {g : Geometry} {v : View} (hv : Steady g v) (calls : List FileCall)
    (hcalls : ∀ c ∈ calls, ContentBelow c.op) :
    ∃ rs v', Runs (view g) v (runList runCall calls) rs v' ∧ Trace (callStep g) v calls rs v' ∧
      Steady g v' :=
  Runs.list (p := fun c : FileCall => ContentBelow c.op) (fun _ _ hc hv =>
    runCall_runs hv (hv.sound.fits hc)) calls hcalls hv

def initialView {totalSize blockSize : UInt32} (h : Formattable totalSize blockSize) (now : UInt64)
    (out : List Message) : View :=
  ⟨emptyVolume (Geometry.ofFormat h) (formatSb now totalSize blockSize)
    (Finset.range (Geometry.ofFormat h).dataStart), out, noFaults, true⟩

theorem mount_initial {totalSize blockSize : UInt32} {now : UInt64} {w0 w1 : World}
    (hf : w0.faults = noFaults) (hfmt : fsFormat now totalSize blockSize w0 = some (0, w1)) :
    ∃ (h : Formattable totalSize blockSize) (w2 : World), fsMount w1 = some (0, w2) ∧
      Represents (Geometry.ofFormat h) w2 (initialView h now w1.out) ∧
      Steady (Geometry.ofFormat h) (initialView h now w1.out) := by
  obtain ⟨h, w2, hmount, hrep⟩ := formatted_mounts hf hfmt
  exact ⟨h, w2, hmount, hrep, sound_formatted h now, rfl⟩

theorem fsFormat_four : ∃ w1, fsFormat 0 576 144 (.start none 0 0) = some (0, w1) := by
  have hrun : (fsFormat 0 576 144 (.start none 0 0)).any fun p => p.1 = 0 := by decide +kernel
  obtain ⟨r, w1, hfmt, hr⟩ := exists_of_any hrun
  obtain rfl : r = 0 := of_decide_eq_true hr
  exact ⟨w1, hfmt⟩

/-- A disk that formats and mounts to a process with a property that can be tested. -/
theorem exists_mounted (totalSize blockSize : UInt32) (p : World → Bool)
    (h : (fsFormat 0 totalSize blockSize (.start none 0 0)).any fun a => a.1 = 0 ∧
      (fsMount a.2).any fun b => b.1 = 0 ∧ p b.2) :
    ∃ w1 w2, fsFormat 0 totalSize blockSize (.start none 0 0) = some (0, w1) ∧
      fsMount w1 = some (0, w2) ∧ p w2 := by
  obtain ⟨r1, w1, hfmt, h1⟩ := exists_of_any h
  obtain ⟨rfl, h1⟩ := of_decide_eq_true h1
  obtain ⟨r2, w2, hmount, h2⟩ := exists_of_any h1
  obtain ⟨rfl, h2⟩ := of_decide_eq_true h2
  exact ⟨w1, w2, hfmt, hmount, h2⟩

/-- Every session on a formatted disk runs to its end and stays on sound volumes. -/
theorem session_runs {totalSize blockSize : UInt32} {now : UInt64} {w0 w1 : World}
    (hf : w0.faults = noFaults) (hfmt : fsFormat now totalSize blockSize w0 = some (0, w1))
    (calls : List FileCall) (hcalls : ∀ c ∈ calls, ContentBelow c.op) :
    ∃ (h : Formattable totalSize blockSize) (rs : List Int) (w : World) (v : View),
      session calls w1 = some ((0, rs), w) ∧ Represents (Geometry.ofFormat h) w v ∧
      Steady (Geometry.ofFormat h) v ∧
      Trace (callStep (Geometry.ofFormat h)) (initialView h now w1.out) calls rs v := by
  obtain ⟨h, w2, hmount, hrep, hv0⟩ := mount_initial hf hfmt
  obtain ⟨rs, v, hruns, htrace, hv⟩ := runCalls_runs hv0 calls hcalls
  obtain ⟨w, hw, hrepw⟩ := hruns.exec hrep
  refine ⟨h, rs, w, v, ?_, hrepw, hv, htrace⟩
  simp only [session, bind_apply, hmount, Option.bind_some, hw, pure_apply]

/-- A session on the disk of four blocks. -/
theorem session_four (calls : List FileCall) (hcalls : ∀ c ∈ calls, ContentBelow c.op) :
    ∃ w1 results w, fsFormat 0 576 144 (.start none 0 0) = some (0, w1) ∧
      session calls w1 = some ((0, results), w) := by
  obtain ⟨w1, hfmt⟩ := fsFormat_four
  obtain ⟨-, results, w, -, hses, -⟩ := session_runs rfl hfmt calls hcalls
  exact ⟨w1, results, w, hfmt, hses⟩

/-- A session that leads to a state with `p`, found by running it. -/
theorem exists_session (calls : List FileCall) (p : World → Bool)
    (h : (fsFormat 0 576 144 (.start none 0 0)).any fun a => a.1 = 0 ∧
      (session calls a.2).any fun b => b.1.1 = 0 ∧ p b.2) :
    ∃ w1 results w, fsFormat 0 576 144 (.start none 0 0) = some (0, w1) ∧
      session calls w1 = some ((0, results), w) ∧ p w := by
  obtain ⟨r1, w1, hfmt, h1⟩ := exists_of_any h
  obtain ⟨rfl, h1⟩ := of_decide_eq_true h1
  obtain ⟨⟨r2, results⟩, w, hses, h2⟩ := exists_of_any h1
  obtain ⟨rfl, h2⟩ := of_decide_eq_true h2
  exact ⟨w1, results, w, hfmt, hses, h2⟩

theorem session_steady {totalSize blockSize : UInt32} {now : UInt64} {w0 w1 w : World}
    (hf : w0.faults = noFaults) (hfmt : fsFormat now totalSize blockSize w0 = some (0, w1))
    {calls : List FileCall} (hcalls : ∀ c ∈ calls, ContentBelow c.op) {results : List Int}
    (hses : session calls w1 = some ((0, results), w)) :
    ∃ (h : Formattable totalSize blockSize) (v : View), Represents (Geometry.ofFormat h) w v ∧
      Steady (Geometry.ofFormat h) v ∧
      Trace (callStep (Geometry.ofFormat h)) (initialView h now w1.out) calls results v := by
  obtain ⟨h, rs, w', v, hrun, hrep, hv, htrace⟩ := session_runs hf hfmt calls hcalls
  obtain ⟨hres, rfl⟩ := run_unique hrun hses
  obtain ⟨-, rfl⟩ := Prod.mk.inj hres
  exact ⟨h, v, hrep, hv, htrace⟩

end MiniFs.Image
