import MiniFs.Simulator.Accounting

/-! # The disk map of the page

`refreshBlockGrid` draws at most 300 blocks, at equal distances, and colours each
by its number alone: a data block is drawn as used if it comes before the count of
the blocks in use. The files that hold a block are asked for the text only.
-/

set_option autoImplicit false

namespace MiniFs.Simulator

/-- The class of a drawn block, without its "type-". -/
inductive BlockType where
  | sb | bm | in_ | du | df
  deriving DecidableEq

inductive Tip where
  /-- "Blok ${real}" -/
  | block (real : ℤ)
  /-- "Superblock (blok 0)" -/
  | superblock
  /-- "Bitmap blok ${real - sb.bitmapStart}" -/
  | bitmap (idx : ℤ)
  /-- "İnode blok ${real - sb.inodeStart}" -/
  | inode (idx : ℤ)
  /-- "Veri blok ${dataIdx} → '${owner.name}'" -/
  | owned (dataIdx : ℤ) (owner : JsString)
  /-- "Veri blok ${dataIdx} (dolu)" -/
  | full (dataIdx : ℤ)
  /-- "Veri blok ${dataIdx} (boş)" -/
  | empty (dataIdx : ℤ)

structure DrawnBlock where
  real : ℤ
  type : BlockType
  tip : Tip

/-- One round of the loop. -/
def drawBlock (fs : FS) (real : ℤ) : DrawnBlock :=
  let sb := fs.superblock
  if real = 0 then
    ⟨real, .sb, .superblock⟩
  else if real ≥ sb.bitmapStart ∧ real < sb.bitmapStart + sb.bitmapBlocks then
    ⟨real, .bm, .bitmap (real - sb.bitmapStart)⟩
  else if real ≥ sb.inodeStart ∧ real < sb.inodeStart + sb.inodeBlocks then
    ⟨real, .in_, .inode (real - sb.inodeStart)⟩
  else if real ≥ sb.dataStart then
    let dataIdx := real - sb.dataStart
    if dataIdx < fs.usedDataBlocks then
      match fs.files.find? fun f => f.blocks.contains real with
      | some owner => ⟨real, .du, .owned dataIdx owner.name⟩
      | none => ⟨real, .du, .full dataIdx⟩
    else
      ⟨real, .df, .empty dataIdx⟩
  else
    ⟨real, .df, .block real⟩

/-- `ratio`, the distance of two drawn blocks -/
def drawRatio (fs : FS) : ℤ := ceilDiv fs.superblock.totalBlocks 300

/-- The drawn blocks; `none` is the note that the disk is not formatted. -/
def refreshBlockGrid (fs : FS) : Option (List DrawnBlock) :=
  if !fs.formatted then none
  else
    let ratio := drawRatio fs
    let count := ceilDiv fs.superblock.totalBlocks ratio
    some ((List.range count.toNat).map fun (i : ℕ) => drawBlock fs (i * ratio))

def FS.Holds (fs : FS) (b : ℤ) : Prop := ∃ f ∈ fs.files, b ∈ f.blocks

/-- Every drawn block of the data area is drawn as used exactly if a file holds it. -/
def FS.MapExact (fs : FS) : Prop :=
  ∀ blocks, refreshBlockGrid fs = some blocks → ∀ b ∈ blocks, fs.superblock.dataStart ≤ b.real →
    (b.type = .du ↔ fs.Holds b.real)

structure Laid (fs : FS) : Prop where
  bitmap_le : fs.superblock.bitmapStart + fs.superblock.bitmapBlocks ≤ fs.superblock.dataStart
  inode_le : fs.superblock.inodeStart + fs.superblock.inodeBlocks ≤ fs.superblock.dataStart
  bitmap_nonneg : 0 ≤ fs.superblock.bitmapStart + fs.superblock.bitmapBlocks
  inode_nonneg : 0 ≤ fs.superblock.inodeStart + fs.superblock.inodeBlocks
  data_pos : 0 < fs.superblock.dataStart

variable {fs fs' : FS} {ts name : JsString} {f : File} {op : Op} {ok : Bool} {real : ℤ}

theorem Laid.step (h : Laid fs) (hstep : Step ts fs op ok fs') : Laid fs' := by
  cases hstep with
  | rejected hno hsame =>
    obtain ⟨h1, h2, h3, h4, h5⟩ := h
    rw [← hsame.superblock] at h1 h2 h3 h4 h5
    exact ⟨h1, h2, h3, h4, h5⟩
  | _ => exact ⟨h.bitmap_le, h.inode_le, h.bitmap_nonneg, h.inode_nonneg, h.data_pos⟩

@[simp] theorem drawBlock_real (fs : FS) (real : ℤ) : (drawBlock fs real).real = real := by
  rw [drawBlock]
  simp only
  split_ifs
  · rfl
  · rfl
  · rfl
  · split <;> rfl
  · rfl
  · rfl

/-- In the data area the colour depends on the count of used blocks only. -/
theorem drawBlock_du_iff (h : Laid fs) (hreal : fs.superblock.dataStart ≤ real) :
    (drawBlock fs real).type = .du ↔ real < fs.superblock.dataStart + fs.usedDataBlocks := by
  have hbitmap := h.bitmap_le
  have hinode := h.inode_le
  have hpos := h.data_pos
  rw [drawBlock]
  simp only
  rw [if_neg (by omega), if_neg (by omega), if_neg (by omega), if_pos hreal]
  split_ifs with hused
  · refine iff_of_true ?_ (by omega)
    split <;> rfl
  · exact iff_of_false (fun h => nomatch h) (by omega)

/-- What the map has to say of the numbers it draws. -/
theorem mapExact_iff (hfmt : fs.formatted = true) (h : Laid fs) :
    fs.MapExact ↔ ∀ i : ℕ, (i : ℤ) < ceilDiv fs.superblock.totalBlocks (drawRatio fs) →
      fs.superblock.dataStart ≤ i * drawRatio fs →
        (i * drawRatio fs < fs.superblock.dataStart + fs.usedDataBlocks ↔
          fs.Holds (i * drawRatio fs)) := by
  rw [FS.MapExact, refreshBlockGrid, if_neg (guard_formatted hfmt)]
  constructor
  · intro hall i hi hdata
    rw [← drawBlock_du_iff h hdata, ← drawBlock_real fs (i * drawRatio fs)]
    rw [← drawBlock_real fs (i * drawRatio fs)] at hdata
    rw [drawBlock_real]
    refine (hall _ rfl _ (List.mem_map_of_mem (List.mem_range.mpr ?_)) hdata).trans ?_
    · omega
    · rw [drawBlock_real]
  · rintro hall blocks hblocks b hb hdata
    obtain rfl := Option.some.inj hblocks
    obtain ⟨i, hi, rfl⟩ := List.mem_map.mp hb
    rw [List.mem_range] at hi
    rw [drawBlock_real] at hdata ⊢
    rw [drawBlock_du_iff h hdata]
    exact hall i (by omega) hdata

end MiniFs.Simulator
