import MiniFs.Simulator.Steps
import MiniFs.Library.Exec
import Mathlib.Data.List.Nodup
import Mathlib.Tactic.Linarith

/-! # The accounts of the page

The counters of the simulator against its file list. Three kinds of change keep
the accounts: a file replaced, a file added, a file removed.
-/

set_option autoImplicit false

namespace MiniFs.Simulator

/-- The size and the block list of a file belong to its content. -/
structure Sized (blockSize : ℤ) (f : File) : Prop where
  size : f.size = f.content.length
  blocks_le : f.blocks.length ≤ 16
  size_le : (f.size : ℤ) ≤ f.blocks.length * blockSize

def FS.heldBlocks (fs : FS) : ℕ := (fs.files.map fun f => f.blocks.length).sum

structure Accounted (fs : FS) : Prop where
  used : fs.usedDataBlocks = fs.heldBlocks
  blocks : fs.usedDataBlocks = fs.superblock.dataBlocks - fs.superblock.freeBlocks
  inodes : fs.superblock.freeInodes + fs.files.length = fs.superblock.maxInodes
  freeBlocks_nonneg : 0 ≤ fs.superblock.freeBlocks
  freeBlocks_le : fs.superblock.freeBlocks ≤ fs.superblock.dataBlocks
  freeInodes_nonneg : 0 ≤ fs.superblock.freeInodes
  freeInodes_le : fs.superblock.freeInodes ≤ fs.superblock.maxInodes
  names : (fs.files.map File.name).Nodup
  sized : ∀ f ∈ fs.files, Sized fs.superblock.blockSize f

structure SameLayout (fs fs' : FS) : Prop where
  formatted : fs'.formatted = fs.formatted
  magic : fs'.superblock.magic = fs.superblock.magic
  totalBlocks : fs'.superblock.totalBlocks = fs.superblock.totalBlocks
  blockSize : fs'.superblock.blockSize = fs.superblock.blockSize
  maxInodes : fs'.superblock.maxInodes = fs.superblock.maxInodes
  dataStart : fs'.superblock.dataStart = fs.superblock.dataStart
  dataBlocks : fs'.superblock.dataBlocks = fs.superblock.dataBlocks

variable {fs fs' : FS} {ts name : JsString} {f f' : File} {before after : List File} {op : Op}
  {ok : Bool}

theorem Step.sameLayout (h : Step ts fs op ok fs') : SameLayout fs fs' := by
  cases h with
  | rejected hno hsame =>
    have hsb := hsame.superblock
    constructor
    · exact hsame.formatted
    all_goals rw [hsb]
  | _ => exact ⟨rfl, rfl, rfl, rfl, rfl, rfl, rfl⟩

/-! ## Counting blocks -/

theorem le_ceilDiv_mul {a b : ℤ} (hb : 0 < b) : a ≤ ceilDiv a b * b := by
  have h := Int.ediv_mul_le (-a) (Int.ne_of_gt hb)
  rw [ceilDiv, Int.neg_mul]
  omega

theorem ceilDiv_le {a b k : ℤ} (hb : 0 < b) (h : a ≤ k * b) : ceilDiv a b ≤ k := by
  have hdiv : -k ≤ -a / b := by
    rw [Int.le_ediv_iff_mul_le hb, Int.neg_mul]
    omega
  rw [ceilDiv]
  omega

theorem one_le_needed (fs : FS) (n : ℕ) : 1 ≤ needed fs n := le_max_left 1 _

theorem length_newBlocks (fs : FS) (held n : ℕ) :
    ((newBlocks fs held n).length : ℤ) = needed fs n := by
  have h := one_le_needed fs n
  rw [newBlocks, List.length_map, List.length_range]
  omega

theorem le_needed_mul (hbs : 0 < fs.superblock.blockSize) (n : ℕ) :
    (n : ℤ) ≤ needed fs n * fs.superblock.blockSize :=
  (le_ceilDiv_mul hbs).trans (Int.mul_le_mul_of_nonneg_right (le_max_right 1 _) hbs.le)

theorem length_sliceTo_le (content : JsString) (n : ℤ) :
    (sliceTo content n).length ≤ content.length := by
  rw [sliceTo, List.length_take]
  exact min_le_right _ _

theorem sized_stored {held : ℕ} {content : JsString} (hbs : 0 < fs.superblock.blockSize)
    (hroom : Room fs held content.length) (ts : JsString) (f : File) :
    Sized fs.superblock.blockSize (stored ts fs f content) := by
  have hlen := length_newBlocks fs f.blocks.length content.length
  have hle := hroom.le
  constructor
  · rfl
  · change (newBlocks fs f.blocks.length content.length).length ≤ 16
    omega
  · change (content.length : ℤ) ≤ (newBlocks fs f.blocks.length content.length).length * _
    rw [hlen]
    exact le_needed_mul hbs content.length

theorem heldBlocks_split (h : Split fs name f before after) :
    fs.heldBlocks = (before.map fun f => f.blocks.length).sum + f.blocks.length +
      (after.map fun f => f.blocks.length).sum := by
  rw [FS.heldBlocks, h.files, List.map_append, List.map_cons, List.sum_append, List.sum_cons]
  omega

/-! ## Changes that keep the accounts -/

namespace Accounted

/-- A file replaced by one with the same name or a new one. -/
theorem replace (h : Accounted fs) (hs : Split fs name f before after)
    (hfiles : fs'.files = before ++ f' :: after) (hlay : SameLayout fs fs')
    (hused : fs'.usedDataBlocks = fs.usedDataBlocks - f.blocks.length + f'.blocks.length)
    (hblocks : fs'.superblock.freeBlocks =
      fs.superblock.freeBlocks + f.blocks.length - f'.blocks.length)
    (hinodes : fs'.superblock.freeInodes = fs.superblock.freeInodes)
    (hroom : 0 ≤ fs'.superblock.freeBlocks)
    (hname : f'.name = f.name ∨ fs.find f'.name = none)
    (hsized : Sized fs.superblock.blockSize f') : Accounted fs' := by
  have hheld := heldBlocks_split hs
  have hheld' : fs'.heldBlocks = (before.map fun f => f.blocks.length).sum + f'.blocks.length +
      (after.map fun f => f.blocks.length).sum := by
    rw [FS.heldBlocks, hfiles, List.map_append, List.map_cons, List.sum_append, List.sum_cons]
    omega
  have hlen : fs'.files.length = fs.files.length := by
    rw [hfiles, hs.files, List.length_append, List.length_append, List.length_cons,
      List.length_cons]
  have hu := h.used
  have hb := h.blocks
  constructor
  · rw [hused, hheld', hu, hheld]
    omega
  · rw [hused, hblocks, hlay.dataBlocks]
    omega
  · rw [hinodes, hlen, hlay.maxInodes]
    exact h.inodes
  · exact hroom
  · rw [hblocks, hlay.dataBlocks]
    omega
  · rw [hinodes]
    exact h.freeInodes_nonneg
  · rw [hinodes, hlay.maxInodes]
    exact h.freeInodes_le
  · have hnodup := h.names
    rw [hs.files, List.map_append, List.map_cons, List.nodup_middle, List.nodup_cons] at hnodup
    rw [hfiles, List.map_append, List.map_cons, List.nodup_middle, List.nodup_cons]
    refine ⟨?_, hnodup.2⟩
    rcases hname with hsame | hnew
    · rw [hsame]
      exact hnodup.1
    · rw [← List.map_append]
      rintro hmem
      obtain ⟨x, hx, hxn⟩ := List.mem_map.mp hmem
      refine find_eq_none_iff.mp hnew x ?_ hxn
      rw [hs.files]
      exact (List.mem_append.mp hx).elim (List.mem_append_left _)
        fun hx => List.mem_append_right _ (List.mem_cons_of_mem _ hx)
  · intro x hx
    rw [hlay.blockSize]
    rw [hfiles, List.mem_append, List.mem_cons] at hx
    have hold : ∀ y, y ∈ before ∨ y ∈ after → Sized fs.superblock.blockSize y := by
      intro y hy
      apply h.sized
      rw [hs.files, List.mem_append, List.mem_cons]
      exact hy.imp_right .inr
    rcases hx with hx | rfl | hx
    · exact hold x (.inl hx)
    · exact hsized
    · exact hold x (.inr hx)

/-- A file with a new name added at the end. -/
theorem add (h : Accounted fs) (hfiles : fs'.files = fs.files ++ [f']) (hlay : SameLayout fs fs')
    (hused : fs'.usedDataBlocks = fs.usedDataBlocks + f'.blocks.length)
    (hblocks : fs'.superblock.freeBlocks = fs.superblock.freeBlocks - f'.blocks.length)
    (hinodes : fs'.superblock.freeInodes = fs.superblock.freeInodes - 1)
    (hroom : 0 ≤ fs'.superblock.freeBlocks) (hfree : 0 < fs.superblock.freeInodes)
    (hname : fs.find f'.name = none) (hsized : Sized fs.superblock.blockSize f') :
    Accounted fs' := by
  have hheld : fs'.heldBlocks = fs.heldBlocks + f'.blocks.length := by
    rw [FS.heldBlocks, hfiles, List.map_append, List.sum_append, List.map_singleton,
      List.sum_singleton, FS.heldBlocks]
  have hlen : fs'.files.length = fs.files.length + 1 := by
    rw [hfiles, List.length_append, List.length_singleton]
  have hu := h.used
  have hb := h.blocks
  have hi := h.inodes
  have hle := h.freeInodes_le
  constructor
  · rw [hused, hheld, hu]
    omega
  · rw [hused, hblocks, hlay.dataBlocks]
    omega
  · rw [hinodes, hlen, hlay.maxInodes]
    omega
  · exact hroom
  · rw [hblocks, hlay.dataBlocks]
    have := h.freeBlocks_le
    omega
  · omega
  · rw [hinodes, hlay.maxInodes]
    omega
  · rw [hfiles, List.map_append, List.map_singleton, List.nodup_append]
    refine ⟨h.names, List.nodup_singleton _, ?_⟩
    intro a ha b hb hab
    obtain ⟨x, hx, rfl⟩ := List.mem_map.mp ha
    rw [List.mem_singleton] at hb
    exact find_eq_none_iff.mp hname x hx (hab.trans hb)
  · intro x hx
    rw [hlay.blockSize]
    rw [hfiles, List.mem_append, List.mem_singleton] at hx
    rcases hx with hx | rfl
    · exact h.sized x hx
    · exact hsized

theorem remove (h : Accounted fs) (hs : Split fs name f before after) :
    Accounted (fs.remove name f) := by
  have hfiles : (fs.remove name f).files = before ++ after := hs.eraseIdx
  have hheld := heldBlocks_split hs
  have hheld' : (fs.remove name f).heldBlocks = (before.map fun f => f.blocks.length).sum +
      (after.map fun f => f.blocks.length).sum := by
    rw [FS.heldBlocks, hfiles, List.map_append, List.sum_append]
  have hlen : fs.files.length = (fs.remove name f).files.length + 1 := by
    rw [hfiles, hs.files, List.length_append, List.length_append, List.length_cons]
    omega
  have hu := h.used
  have hb := h.blocks
  have hi := h.inodes
  have hn := h.freeInodes_nonneg
  have hfb := h.freeBlocks_nonneg
  constructor
  · change fs.usedDataBlocks - f.blocks.length = _
    rw [hheld', hu, hheld]
    omega
  · change fs.usedDataBlocks - f.blocks.length = fs.superblock.dataBlocks - (_ + _)
    omega
  · change fs.superblock.freeInodes + 1 + _ = fs.superblock.maxInodes
    omega
  · change 0 ≤ fs.superblock.freeBlocks + f.blocks.length
    omega
  · change fs.superblock.freeBlocks + f.blocks.length ≤ fs.superblock.dataBlocks
    omega
  · change 0 ≤ fs.superblock.freeInodes + 1
    omega
  · change fs.superblock.freeInodes + 1 ≤ fs.superblock.maxInodes
    omega
  · have hnodup := h.names
    rw [hs.files, List.map_append, List.map_cons, List.nodup_middle, List.nodup_cons,
      ← List.map_append] at hnodup
    rw [hfiles]
    exact hnodup.2
  · intro x hx
    rw [hfiles, List.mem_append] at hx
    apply h.sized
    rw [hs.files, List.mem_append, List.mem_cons]
    exact hx.imp_right .inr

theorem unchanged (h : Accounted fs) (hsame : Unchanged fs fs') : Accounted fs' := by
  have hheld : fs'.heldBlocks = fs.heldBlocks := by rw [FS.heldBlocks, hsame.files, FS.heldBlocks]
  obtain ⟨h1, h2, h3, h4, h5, h6, h7, h8, h9⟩ := h
  rw [← hsame.superblock] at h2 h3 h4 h5 h6 h7 h9
  rw [← hsame.files] at h3 h8 h9
  rw [← hsame.usedDataBlocks] at h1 h2
  exact ⟨h1.trans (by rw [hheld]), h2, h3, h4, h5, h6, h7, h8, h9⟩

theorem step (h : Accounted fs) (hbs : 0 < fs.superblock.blockSize) (hstep : Step ts fs op ok fs') :
    Accounted fs' := by
  have hlay := hstep.sameLayout
  have hempty (name : JsString) (mode : ℕ) :
      Sized fs.superblock.blockSize (newFile ts fs name mode) :=
    ⟨rfl, Nat.zero_le _, by simp [newFile]⟩
  cases hstep with
  | create hlen hnew hfree =>
    exact h.add rfl hlay (Int.add_zero _).symm (Int.sub_zero _).symm rfl h.freeBlocks_nonneg hfree
      hnew (hempty _ _)
  | @rewrite op name content f hf hop hroom =>
    obtain ⟨before, after, hs⟩ := exists_split hf
    have hlen := length_newBlocks fs f.blocks.length content.length
    have hfree := hroom.free
    have hfiles : ((fs.charge f.blocks.length content.length).assign name
        (stored ts fs f content)).files = before ++ stored ts fs f content :: after :=
      (hs.congr rfl).assign _
    refine h.replace hs hfiles hlay ?_ ?_ rfl ?_ (.inl rfl) (sized_stored hbs hroom ts f)
    · change _ = _ - _ + ((newBlocks fs f.blocks.length content.length).length : ℤ)
      rw [hlen]
      rfl
    · change _ = _ + _ - ((newBlocks fs f.blocks.length content.length).length : ℤ)
      rw [hlen]
      rfl
    · change 0 ≤ fs.superblock.freeBlocks + f.blocks.length - needed fs content.length
      omega
  | @read name f hf =>
    obtain ⟨before, after, hs⟩ := exists_split hf
    have hfiles : ((fs.countRead f.size).assign name { f with atime := ts }).files =
        before ++ { f with atime := ts } :: after := (hs.congr rfl).assign _
    refine h.replace hs hfiles hlay ?_ ?_ rfl h.freeBlocks_nonneg (.inl rfl) ?_
    · exact (Int.sub_add_cancel _ _).symm
    · exact (Int.add_sub_cancel _ _).symm
    · have hsized := h.sized f (mem_of_find hf)
      exact ⟨hsized.size, hsized.blocks_le, hsized.size_le⟩
  | @rename oldName newName f hf hnew hlen =>
    obtain ⟨before, after, hs⟩ := exists_split hf
    refine h.replace hs (hs.assign _) hlay ?_ ?_ rfl h.freeBlocks_nonneg (.inr hnew) ?_
    · exact (Int.sub_add_cancel _ _).symm
    · exact (Int.add_sub_cancel _ _).symm
    · have hsized := h.sized f (mem_of_find hf)
      exact ⟨hsized.size, hsized.blocks_le, hsized.size_le⟩
  | copyEmpty hf hnew hfree hsize =>
    exact h.add rfl hlay (Int.add_zero _).symm (Int.sub_zero _).symm rfl h.freeBlocks_nonneg hfree
      hnew (hempty _ _)
  | @copy src dst f hf hnew hfree hsize hroom =>
    have hlen := length_newBlocks fs 0 f.content.length
    have hle := hroom.free
    have hfiles : ((fs.charge 0 f.content.length).push
        (stored ts fs (newFile ts fs dst f.mode) f.content)).files =
          fs.files ++ [stored ts fs (newFile ts fs dst f.mode) f.content] := rfl
    refine h.add hfiles hlay ?_ ?_ rfl ?_ hfree hnew (sized_stored hbs hroom ts _)
    · change fs.usedDataBlocks - (0 : ℕ) + needed fs f.content.length =
        fs.usedDataBlocks + ((newBlocks fs 0 f.content.length).length : ℤ)
      rw [hlen]
      omega
    · change fs.superblock.freeBlocks + (0 : ℕ) - needed fs f.content.length =
        fs.superblock.freeBlocks - ((newBlocks fs 0 f.content.length).length : ℤ)
      rw [hlen]
      omega
    · change 0 ≤ fs.superblock.freeBlocks + (0 : ℕ) - needed fs f.content.length
      omega
  | @chmod name modeOctal f hf =>
    obtain ⟨before, after, hs⟩ := exists_split hf
    refine h.replace hs (hs.assign _) hlay ?_ ?_ rfl h.freeBlocks_nonneg (.inl rfl) ?_
    · exact (Int.sub_add_cancel _ _).symm
    · exact (Int.add_sub_cancel _ _).symm
    · have hsized := h.sized f (mem_of_find hf)
      exact ⟨hsized.size, hsized.blocks_le, hsized.size_le⟩
  | delete hf =>
    obtain ⟨before, after, hs⟩ := exists_split hf
    exact h.remove hs
  | rejected hno hsame => exact h.unchanged hsame

end Accounted

/-! ## Runs -/

def runPage (c : Call) : Library.Exec.Prog FS Reply := fun fs => some (perform c.ts c.op fs)

theorem runPage_step (hfmt : fs.formatted = true) (c : Call) :
    ∃ r fs', runPage c fs = some (r, fs') ∧ Step c.ts fs c.op r.ok fs' :=
  ⟨_, _, rfl, perform_step hfmt c.ts c.op⟩

structure Running (fs : FS) : Prop where
  formatted : fs.formatted = true
  magic : fs.superblock.magic = 0x4D494E49
  blockSize : 144 ≤ fs.superblock.blockSize
  layout : fs.superblock.dataStart + fs.superblock.dataBlocks = fs.superblock.totalBlocks
  accounted : Accounted fs

theorem Running.step (h : Running fs) (hstep : Step ts fs op ok fs') : Running fs' := by
  have hlay := hstep.sameLayout
  have hbs := h.blockSize
  exact ⟨hlay.formatted.trans h.formatted, hlay.magic.trans h.magic, hlay.blockSize ▸ h.blockSize,
    by rw [hlay.dataStart, hlay.dataBlocks, hlay.totalBlocks, h.layout],
    h.accounted.step (by omega) hstep⟩

theorem Running.perform (h : Running fs) (ts : JsString) (op : Op) :
    Running (perform ts op fs).2 :=
  h.step (perform_step h.formatted ts op)

/-! ## Formatting -/

def bitmapBlocks (totalSize blockSize : ℤ) : ℤ :=
  max 1 (ceilDiv (totalSize / blockSize) (blockSize * 8))

def inodeBlocks (totalSize blockSize : ℤ) : ℤ := max 1 (totalSize / blockSize / 10)

structure Formattable (totalSize blockSize : ℤ) : Prop where
  inode_le : 144 ≤ blockSize
  room : 1 + bitmapBlocks totalSize blockSize + inodeBlocks totalSize blockSize <
    totalSize / blockSize

def emptyFS (ts : JsString) (totalSize blockSize : ℤ) : FS where
  formatted := true
  superblock := {
    magic := 0x4D494E49
    totalBlocks := totalSize / blockSize
    blockSize := blockSize
    maxInodes := blockSize / 144 * inodeBlocks totalSize blockSize
    bitmapStart := 1
    bitmapBlocks := bitmapBlocks totalSize blockSize
    inodeStart := 1 + bitmapBlocks totalSize blockSize
    inodeBlocks := inodeBlocks totalSize blockSize
    dataStart := 1 + bitmapBlocks totalSize blockSize + inodeBlocks totalSize blockSize
    dataBlocks := totalSize / blockSize -
      (1 + bitmapBlocks totalSize blockSize + inodeBlocks totalSize blockSize)
    freeBlocks := totalSize / blockSize -
      (1 + bitmapBlocks totalSize blockSize + inodeBlocks totalSize blockSize)
    freeInodes := blockSize / 144 * inodeBlocks totalSize blockSize
    totalWrites := 0
    totalReads := 0
    bytesWritten := 0
    bytesRead := 0
    formattedAt := ts }
  files := []
  nextInode := 0
  usedDataBlocks := 0

section Format
variable {totalSize blockSize : ℤ}

theorem maxInodes_pos (hbs : 144 ≤ blockSize) (totalSize : ℤ) :
    0 < blockSize / 144 * inodeBlocks totalSize blockSize := by
  have hper : 0 < blockSize / 144 := by omega
  exact Int.mul_pos hper (lt_of_lt_of_le one_pos (le_max_left 1 _))

theorem fsFormat_eq {msg : Msg} (h : fsFormat ts totalSize blockSize fs = (⟨true, msg⟩, fs')) :
    Formattable totalSize blockSize ∧ fs' = emptyFS ts totalSize blockSize := by
  have hno {m : Msg} {x : FS} (h : ((⟨false, m⟩ : Reply), x) = (⟨true, msg⟩, fs')) : False := by
    have hok := congrArg (fun p => p.1.ok) h
    exact Bool.false_ne_true hok
  rw [fsFormat] at h
  simp only at h
  split_ifs at h with hsize hroom hmax
  · exact (hno h).elim
  · exact (hno h).elim
  · exact (hno h).elim
  · exact ⟨⟨Int.not_lt.mp hsize, Int.not_le.mp hroom⟩, (Prod.mk.inj h).2.symm⟩

theorem fsFormat_accepts (h : Formattable totalSize blockSize) (ts : JsString) (fs : FS) :
    ∃ msg, fsFormat ts totalSize blockSize fs = (⟨true, msg⟩, emptyFS ts totalSize blockSize) := by
  have hroom : ¬ 1 + max 1 (ceilDiv (totalSize / blockSize) (blockSize * 8)) +
      max 1 (totalSize / blockSize / 10) ≥ totalSize / blockSize := Int.not_le.mpr h.room
  have hmax : ¬ blockSize / 144 * max 1 (totalSize / blockSize / 10) = 0 :=
    (maxInodes_pos h.inode_le totalSize).ne'
  rw [fsFormat, if_neg (Int.not_lt.mpr h.inode_le)]
  simp only
  rw [if_neg hroom, if_neg hmax]
  exact ⟨_, rfl⟩

theorem fsFormat_ok_iff (ts : JsString) (fs : FS) :
    (fsFormat ts totalSize blockSize fs).1.ok = true ↔ Formattable totalSize blockSize := by
  constructor
  · intro hok
    have heq : fsFormat ts totalSize blockSize fs =
        (⟨true, (fsFormat ts totalSize blockSize fs).1.msg⟩,
          (fsFormat ts totalSize blockSize fs).2) := by
      rw [← hok]
    exact (fsFormat_eq heq).1
  · intro h
    obtain ⟨msg, heq⟩ := fsFormat_accepts h ts fs
    rw [heq]

theorem emptyFS_running (h : Formattable totalSize blockSize) (ts : JsString) :
    Running (emptyFS ts totalSize blockSize) := by
  have hmax := maxInodes_pos h.inode_le totalSize
  have hroom := h.room
  refine ⟨rfl, rfl, h.inode_le, add_sub_cancel _ _, ?_⟩
  constructor
  · rfl
  · exact (Int.sub_self _).symm
  · exact Int.add_zero _
  · change 0 ≤ _ - _
    omega
  · exact le_rfl
  · exact hmax.le
  · exact le_rfl
  · exact List.nodup_nil
  · exact fun f hf => absurd hf List.not_mem_nil

end Format

end MiniFs.Simulator
