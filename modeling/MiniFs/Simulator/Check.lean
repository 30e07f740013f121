import MiniFs.Simulator.Accounting
import Mathlib.Data.List.Perm.Basic
import Mathlib.Data.List.Flatten

/-! # What `fsFsck` of the page finds

On a page with its accounts in order the check complains exactly about bad names,
block numbers out of range and block numbers that occur twice.
-/

set_option autoImplicit false

namespace MiniFs.Simulator

/-- The block numbers on the lists of the files lie between `lo` and `hi`, and none occurs twice. -/
structure Apart (lo hi : ℤ) (files : List File) : Prop where
  bounds : ∀ b ∈ files.flatMap File.blocks, lo ≤ b ∧ b < hi
  nodup : (files.flatMap File.blocks).Nodup

def FS.Exclusive (fs : FS) : Prop :=
  Apart fs.superblock.dataStart fs.superblock.totalBlocks fs.files

/-- A name `fsFsck` does not complain about. -/
def Named (f : File) : Prop := f.name ≠ [] ∧ f.name.length < 32

variable {fs : FS} {lo hi : ℤ} {f : File} {files rest : List File}

theorem apart_perm (h : files.Perm rest) : Apart lo hi files ↔ Apart lo hi rest := by
  have hflat := h.flatMap_right File.blocks
  constructor
  · intro ha
    exact ⟨fun b hb => ha.bounds b (hflat.mem_iff.mpr hb), hflat.nodup_iff.mp ha.nodup⟩
  · intro ha
    exact ⟨fun b hb => ha.bounds b (hflat.mem_iff.mp hb), hflat.nodup_iff.mpr ha.nodup⟩

theorem apart_cons : Apart lo hi (f :: rest) ↔ (∀ b ∈ f.blocks, lo ≤ b ∧ b < hi) ∧
    f.blocks.Nodup ∧ (∀ x ∈ rest, ∀ b ∈ x.blocks, b ∉ f.blocks) ∧ Apart lo hi rest := by
  have hflat : (f :: rest).flatMap File.blocks = f.blocks ++ rest.flatMap File.blocks :=
    List.flatMap_cons
  constructor
  · rintro ⟨hbounds, hnodup⟩
    rw [hflat] at hbounds hnodup
    obtain ⟨hf, hrest, hdis⟩ := List.nodup_append.mp hnodup
    refine ⟨fun b hb => hbounds b (List.mem_append_left _ hb), hf, ?_,
      fun b hb => hbounds b (List.mem_append_right _ hb), hrest⟩
    exact fun x hx b hb hbf => hdis b hbf b (List.mem_flatMap.mpr ⟨x, hx, hb⟩) rfl
  · rintro ⟨hbounds, hf, hdis, hrest⟩
    constructor
    · intro b hb
      rw [hflat, List.mem_append] at hb
      exact hb.elim (hbounds b) (hrest.bounds b)
    · rw [hflat, List.nodup_append]
      refine ⟨hf, hrest.nodup, ?_⟩
      rintro a ha b hb rfl
      obtain ⟨x, hx, hbx⟩ := List.mem_flatMap.mp hb
      exact hdis x hx a hbx ha

/-! ## The loops -/

theorem fsckBlock_eq_nil_iff {sb : Superblock} {dups : List ℤ} {b : ℤ} :
    fsckBlock sb f dups b = [] ↔ (sb.dataStart ≤ b ∧ b < sb.totalBlocks) ∧ b ∉ dups := by
  have hrange : ¬ (b < sb.dataStart ∨ b ≥ sb.totalBlocks) ↔
      sb.dataStart ≤ b ∧ b < sb.totalBlocks := by omega
  rw [fsckBlock, List.append_eq_nil_iff, ite_eq_right_iff, ite_eq_right_iff, ← hrange]
  simp only [List.cons_ne_nil, imp_false]

theorem fsckBlocks_eq_nil_iff {sb : Superblock} {blocks dups : List ℤ} :
    fsckBlocks sb f blocks dups = [] ↔
      (∀ b ∈ blocks, sb.dataStart ≤ b ∧ b < sb.totalBlocks) ∧ blocks.Nodup ∧
        ∀ b ∈ blocks, b ∉ dups := by
  induction blocks generalizing dups with
  | nil => simp [fsckBlocks]
  | cons b blocks ih =>
    rw [fsckBlocks, List.append_eq_nil_iff, fsckBlock_eq_nil_iff, ih]
    simp only [List.mem_cons, forall_eq_or_imp, List.nodup_cons, not_or]
    grind

theorem fsckFiles_eq_nil_iff {sb : Superblock} {dups : List ℤ} :
    fsckFiles sb files dups = [] ↔ (∀ f ∈ files, Named f) ∧
      Apart sb.dataStart sb.totalBlocks files ∧ ∀ f ∈ files, ∀ b ∈ f.blocks, b ∉ dups := by
  induction files generalizing dups with
  | nil =>
    have hnil : Apart sb.dataStart sb.totalBlocks [] := ⟨by simp, List.nodup_nil⟩
    simp [fsckFiles, hnil]
  | cons f files ih =>
    have hname : (if f.name.length = 0 ∨ f.name.length ≥ 32 then [FsckLine.invalidFilename f.inode]
        else []) = [] ↔ Named f := by
      rw [Named, Ne, ite_eq_right_iff, ← List.length_eq_zero_iff (l := f.name)]
      simp only [List.cons_ne_nil, imp_false]
      omega
    rw [fsckFiles, List.append_eq_nil_iff, List.append_eq_nil_iff, hname, fsckBlocks_eq_nil_iff, ih,
      apart_cons]
    simp only [List.mem_cons, forall_eq_or_imp, List.mem_append, List.mem_reverse, not_or]
    grind

/-- With the accounts in order only the files are complained about. -/
theorem fsFsck_ok_iff_nil (h : Running fs) :
    (fsFsck fs).ok = true ↔ fsckFiles fs.superblock fs.files [] = [] := by
  have hacc := h.accounted
  have hmagic : ¬ (fs.superblock.magic ≠ 0x4D494E49) := not_not.mpr h.magic
  have hinodes : ¬ ((fs.files.length : ℤ) ≠ fs.superblock.maxInodes - fs.superblock.freeInodes) := by
    have := hacc.inodes
    omega
  have hblocks : ¬ ((fs.heldBlocks : ℤ) ≠
      fs.superblock.dataBlocks - fs.superblock.freeBlocks) := by
    have h1 := hacc.used
    have h2 := hacc.blocks
    omega
  rw [FS.heldBlocks] at hblocks
  rw [fsFsck, if_neg (guard_formatted h.formatted), ← List.length_eq_zero_iff]
  simp only [if_neg hmagic, if_neg hinodes, if_neg hblocks, decide_eq_true_eq, Nat.zero_add,
    Nat.add_zero]

/-- The check is clean if and only if all names are valid and no block is shared or out of range. -/
theorem fsFsck_ok_iff (h : Running fs) :
    (fsFsck fs).ok = true ↔ (∀ f ∈ fs.files, Named f) ∧ fs.Exclusive := by
  have hdups : ∀ f ∈ fs.files, ∀ b ∈ f.blocks, b ∉ ([] : List ℤ) :=
    fun _ _ _ _ => List.not_mem_nil
  rw [fsFsck_ok_iff_nil h, fsckFiles_eq_nil_iff, FS.Exclusive, and_iff_left hdups]

end MiniFs.Simulator
