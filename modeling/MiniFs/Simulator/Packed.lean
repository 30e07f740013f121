import MiniFs.Simulator.Apart
import MiniFs.Simulator.BlockGrid
import Mathlib.Data.Finset.Card
import Mathlib.Order.Interval.Finset.Basic
import Mathlib.Data.Int.Interval

/-! # Steps that leave no gap between the blocks in use

The map is right as long as the blocks held by files are the first of the data
area. A call that gives back blocks keeps them so if and only if its file holds the
blocks that were handed out last.
-/

set_option autoImplicit false

namespace MiniFs.Simulator

/-! ## Intervals as lists -/

theorem nodup_of_fills {l : List ℤ} {a : ℤ} (h : ∀ b, b ∈ l ↔ a ≤ b ∧ b < a + l.length) :
    l.Nodup := by
  have hset : (l : Multiset ℤ).toFinset = Finset.Ico a (a + l.length) := by
    ext b
    rw [Multiset.mem_toFinset, Multiset.mem_coe, Finset.mem_Ico]
    exact h b
  rw [← Multiset.coe_nodup, ← Multiset.toFinset_card_eq_card_iff_nodup, hset, Int.card_Ico,
    Multiset.coe_card]
  omega

theorem fills_of_nodup {l : List ℤ} {a : ℤ} (hnodup : l.Nodup)
    (hle : ∀ b ∈ l, a ≤ b ∧ b < a + l.length) {b : ℤ} (hb : a ≤ b ∧ b < a + l.length) : b ∈ l := by
  have hsub : l.toFinset ⊆ Finset.Ico a (a + l.length) := by
    intro x hx
    exact Finset.mem_Ico.mpr (hle x (List.mem_toFinset.mp hx))
  have hcard : (Finset.Ico a (a + l.length)).card ≤ l.toFinset.card := by
    rw [List.toFinset_card_of_nodup hnodup, Int.card_Ico]
    omega
  rw [← List.mem_toFinset, Finset.eq_of_subset_of_card_le hsub hcard]
  exact Finset.mem_Ico.mpr hb

/-! ## Blocks given back and taken -/

/-- The blocks held by files are the first of the data area. -/
def Packed (fs : FS) : Prop :=
  ∀ b, fs.Holds b ↔
    fs.superblock.dataStart ≤ b ∧ b < fs.superblock.dataStart + fs.usedDataBlocks

def GivesBack (fs : FS) : Op → File → Prop
  | .write name _, f | .append name _, f | .truncate name _, f | .delete name, f =>
    fs.find name = some f
  | _, _ => False

/-- The blocks of the file are the ones with the highest numbers in use. -/
def HoldsLast (fs : FS) (f : File) : Prop :=
  ∀ b ∈ f.blocks, fs.superblock.dataStart + (fs.usedDataBlocks - f.blocks.length) ≤ b

/-- An accepted call gives back only the blocks that were handed out last. -/
def ReturnsLast (fs : FS) (op : Op) : Prop :=
  ∀ f, GivesBack fs op f → Accepts fs op → HoldsLast fs f

variable {fs fs' : FS} {ts name : JsString} {f f' : File} {before after : List File} {op : Op}
  {ok : Bool} {b : ℤ}

theorem mem_newBlocks {held n : ℕ} : b ∈ newBlocks fs held n ↔
    fs.superblock.dataStart + (fs.usedDataBlocks - held) ≤ b ∧
      b < fs.superblock.dataStart + (fs.usedDataBlocks - held) + needed fs n := by
  rw [newBlocks, List.mem_map]
  constructor
  · rintro ⟨i, hi, rfl⟩
    rw [List.mem_range] at hi
    omega
  · rintro ⟨hle, hlt⟩
    refine ⟨(b - fs.superblock.dataStart - (fs.usedDataBlocks - held)).toNat, ?_, by omega⟩
    rw [List.mem_range]
    omega

/-- The blocks in use after a call that adds `n` of them to what `kept` says, from the number
`start` on. -/
structure Adds (fs fs' : FS) (kept : ℤ → Prop) (start n : ℤ) : Prop where
  nonneg : 0 ≤ n
  used : fs'.superblock.dataStart + fs'.usedDataBlocks = start + n
  holds : ∀ b, fs'.Holds b ↔ kept b ∨ (start ≤ b ∧ b < start + n)

theorem holds_replaced (hfiles : fs'.files = before ++ f' :: after) :
    fs'.Holds b ↔ (∃ g ∈ before ++ after, b ∈ g.blocks) ∨ b ∈ f'.blocks := by
  rw [FS.Holds, hfiles]
  simp only [List.perm_middle.mem_iff, List.mem_cons, or_and_right, exists_or, exists_eq_left]
  exact or_comm

theorem holds_split (hs : Split fs name f before after) :
    fs.Holds b ↔ (∃ g ∈ before ++ after, b ∈ g.blocks) ∨ b ∈ f.blocks :=
  holds_replaced hs.files

theorem holds_assign (hf : fs.find name = some f) (hblocks : f'.blocks = f.blocks) :
    (fs.assign name f').Holds b ↔ fs.Holds b := by
  obtain ⟨before, after, hs⟩ := exists_split hf
  rw [holds_replaced (hs.assign f'), hblocks, holds_split hs]

theorem holds_push : (fs.push f').Holds b ↔ fs.Holds b ∨ b ∈ f'.blocks := by
  rw [FS.Holds, FS.Holds, FS.push]
  simp only [List.mem_append, List.mem_singleton, or_and_right, exists_or, exists_eq_left]

/-- The numbers a call leaves in use: those of before and the ones that follow, if no blocks are
given back, and otherwise those of the other files and the ones that follow their count. -/
theorem Step.adds (hstep : Step ts fs op ok fs') :
    ((∀ f, GivesBack fs op f → ¬ Accepts fs op) ∧ ∃ n, Adds fs fs' fs.Holds
      (fs.superblock.dataStart + fs.usedDataBlocks) n) ∨
    (∃ name f before after n, GivesBack fs op f ∧ Accepts fs op ∧ Split fs name f before after ∧
      Adds fs fs' (fun b => ∃ g ∈ before ++ after, b ∈ g.blocks)
        (fs.superblock.dataStart + (fs.usedDataBlocks - f.blocks.length)) n) := by
  have hkept (hholds : ∀ b, fs'.Holds b ↔ fs.Holds b)
      (hused : fs'.superblock.dataStart + fs'.usedDataBlocks =
        fs.superblock.dataStart + fs.usedDataBlocks) :
      ∃ n, Adds fs fs' fs.Holds (fs.superblock.dataStart + fs.usedDataBlocks) n := by
    refine ⟨0, le_rfl, hused.trans (Int.add_zero _).symm, fun b => (hholds b).trans ?_⟩
    exact (or_iff_left (by omega)).symm
  cases hstep with
  | create hlen hnew hfree =>
    exact .inl ⟨fun _ => False.elim,
      hkept (fun b => holds_push.trans (or_iff_left List.not_mem_nil)) rfl⟩
  | @rewrite op name content f hf hop hroom =>
    obtain ⟨before, after, hs⟩ := exists_split hf
    have hone := one_le_needed fs content.length
    refine .inr ⟨name, f, before, after, needed fs content.length, ?_, ?_, hs, by omega, ?_, ?_⟩
    · cases hop <;> exact hf
    · exact (Step.rewrite hf hop hroom : Step ts fs op true _).accepts
    · change fs.superblock.dataStart + (fs.usedDataBlocks - _ + _) = _
      omega
    · intro b
      have hfiles : ((fs.charge f.blocks.length content.length).assign name
          (stored ts fs f content)).files = before ++ stored ts fs f content :: after :=
        (hs.congr rfl).assign _
      rw [holds_replaced hfiles]
      exact or_congr_right mem_newBlocks
  | read hf => exact .inl ⟨fun _ => False.elim, hkept (fun b => holds_assign hf rfl) rfl⟩
  | rename hf hnew hlen =>
    exact .inl ⟨fun _ => False.elim, hkept (fun b => holds_assign hf rfl) rfl⟩
  | chmod hf => exact .inl ⟨fun _ => False.elim, hkept (fun b => holds_assign hf rfl) rfl⟩
  | copyEmpty hf hnew hfree hsize =>
    exact .inl ⟨fun _ => False.elim,
      hkept (fun b => holds_push.trans (or_iff_left List.not_mem_nil)) rfl⟩
  | @copy src dst f hf hnew hfree hsize hroom =>
    have hone := one_le_needed fs f.content.length
    refine .inl ⟨fun _ => False.elim, needed fs f.content.length, by omega, ?_, ?_⟩
    · change fs.superblock.dataStart + (fs.usedDataBlocks - (0 : ℕ) + _) = _
      omega
    · intro b
      rw [holds_push]
      have hnone : (newFile ts fs dst f.mode).blocks.length = 0 := rfl
      refine or_congr_right (mem_newBlocks.trans ?_)
      rw [hnone, Int.natCast_zero, Int.sub_zero]
  | @delete name f hf =>
    obtain ⟨before, after, hs⟩ := exists_split hf
    refine .inr ⟨name, f, before, after, 0, hf, ⟨f, hf⟩, hs, le_rfl, (Int.add_zero _).symm, ?_⟩
    intro b
    rw [FS.Holds, FS.remove, hs.eraseIdx]
    exact (or_iff_left (by omega)).symm
  | rejected hno hsame =>
    refine .inl ⟨fun _ _ => hno, hkept (fun b => ?_) ?_⟩
    · rw [FS.Holds, hsame.files, FS.Holds]
    · rw [hsame.superblock, hsame.usedDataBlocks]

/-! ## One step -/

/-- Where files hold a gap-free range, no block is on two lists. -/
theorem Packed.apart (h : Packed fs) (hacc : Accounted fs) (hs : Split fs name f before after) :
    f.blocks.Nodup ∧ ∀ b ∈ f.blocks, ¬ ∃ g ∈ before ++ after, b ∈ g.blocks := by
  have hlen : ((fs.files.flatMap File.blocks).length : ℤ) = fs.usedDataBlocks := by
    rw [List.length_flatMap, hacc.used, FS.heldBlocks]
  have hall : (fs.files.flatMap File.blocks).Nodup := by
    apply nodup_of_fills (a := fs.superblock.dataStart)
    intro b
    rw [hlen, List.mem_flatMap]
    exact h b
  have hperm : (fs.files.flatMap File.blocks).Perm
      (f.blocks ++ (before ++ after).flatMap File.blocks) := by
    rw [hs.files, List.flatMap_append, List.flatMap_cons, List.flatMap_append]
    exact List.perm_append_comm_assoc _ _ _
  obtain ⟨hmine, -, hout⟩ := List.nodup_append.mp (hperm.nodup_iff.mp hall)
  exact ⟨hmine, fun b hb hex => hout b hb b (List.mem_flatMap.mpr hex) rfl⟩

theorem heldBlocks_ge (hs : Split fs name f before after) : f.blocks.length ≤ fs.heldBlocks := by
  rw [heldBlocks_split hs]
  omega

/-- A file that holds the last blocks has no other behind its first one. -/
theorem Packed.othersAvoid (h : Packed fs) (hacc : Accounted fs) (hf : fs.find name = some f)
    (hlast : HoldsLast fs f) (n : ℕ) : OthersAvoid fs name (newBlocks fs f.blocks.length n) := by
  obtain ⟨before, after, hs⟩ := exists_split hf
  obtain ⟨hnodup, hout⟩ := h.apart hacc hs
  rw [othersAvoid_iff hacc hs]
  intro x hx b hb hnew
  have hlow := (mem_newBlocks.mp hnew).1
  have hin := (h b).mp ((holds_split hs).mpr (.inl ⟨x, hx, hb⟩))
  refine hout b (fills_of_nodup hnodup (fun c hc => ⟨hlast c hc, ?_⟩) ⟨hlow, by omega⟩) ⟨x, hx, hb⟩
  have := (h c).mp ((holds_split hs).mpr (.inr hc))
  omega

/-- A call that returns only the last blocks takes those of no other file. -/
theorem Packed.takesFree (h : Packed fs) (hacc : Accounted fs) (hlast : ReturnsLast fs op)
    (hok : Accepts fs op) : TakesFree fs op := by
  cases op with
  | write name content => exact fun f hf => h.othersAvoid hacc hf (hlast f hf hok) _
  | append name data => exact fun f hf => h.othersAvoid hacc hf (hlast f hf hok) _
  | truncate name newSize => exact fun f hf => h.othersAvoid hacc hf (hlast f hf hok) _
  | copy src dst =>
    intro f _ _ x hx _ b hb hnew
    have hlow := (mem_newBlocks.mp hnew).1
    have hin := (h b).mp ⟨x, hx, hb⟩
    omega
  | _ => trivial

/-- Giving back blocks leaves no gap if and only if they are the last ones. -/
theorem packed_returned_iff (h : Packed fs) (hacc : Accounted fs)
    (hs : Split fs name f before after) (hstart : fs'.superblock.dataStart = fs.superblock.dataStart)
    {n : ℤ} (hadds : Adds fs fs' (fun b => ∃ g ∈ before ++ after, b ∈ g.blocks)
      (fs.superblock.dataStart + (fs.usedDataBlocks - f.blocks.length)) n) :
    Packed fs' ↔ HoldsLast fs f := by
  obtain ⟨hnodup, hout⟩ := h.apart hacc hs
  have hnonneg := hadds.nonneg
  have hused := hadds.used
  have hheld := hacc.used
  have hge := heldBlocks_ge hs
  have hmine : ∀ b ∈ f.blocks, fs.superblock.dataStart ≤ b ∧
      b < fs.superblock.dataStart + fs.usedDataBlocks :=
    fun b hb => (h b).mp ((holds_split hs).mpr (.inr hb))
  constructor
  · intro hpacked b hb
    by_contra hlow
    have hheld' : fs'.Holds b := by
      have := hmine b hb
      exact (hpacked b).mpr ⟨by omega, by omega⟩
    rcases (hadds.holds b).mp hheld' with hother | hnew
    · exact hout b hb hother
    · omega
  · intro hlast b
    have hfills : ∀ b, fs.superblock.dataStart + (fs.usedDataBlocks - f.blocks.length) ≤ b ∧
        b < fs.superblock.dataStart + (fs.usedDataBlocks - f.blocks.length) + f.blocks.length →
        b ∈ f.blocks := by
      refine fun b => fills_of_nodup hnodup fun b hb => ⟨hlast b hb, ?_⟩
      have := hmine b hb
      omega
    rw [hadds.holds, hstart]
    constructor
    · rintro (hother | hnew)
      · have hin := (h b).mp ((holds_split hs).mpr (.inl hother))
        refine ⟨hin.1, ?_⟩
        by_contra hhigh
        exact hout b (hfills b (by omega)) hother
      · omega
    · rintro ⟨hle, hlt⟩
      by_cases hlow : b < fs.superblock.dataStart + (fs.usedDataBlocks - f.blocks.length)
      · left
        refine ((holds_split hs).mp ((h b).mpr ⟨hle, by omega⟩)).resolve_right fun hb => ?_
        have := hlast b hb
        omega
      · exact .inr ⟨by omega, by omega⟩

/-- A step leaves no gap if and only if it returns only the last blocks. -/
theorem step_packed_iff (h : Packed fs) (hacc : Accounted fs) (hstep : Step ts fs op ok fs') :
    Packed fs' ↔ ReturnsLast fs op := by
  have hstart := hstep.sameLayout.dataStart
  rcases Step.adds hstep with ⟨hno, n, hadds⟩ | ⟨name, f, before, after, n, hgives, hok, hs, hadds⟩
  · refine iff_of_true (fun b => ?_) fun f hgives hok => absurd hok (hno f hgives)
    have hnonneg := hadds.nonneg
    have hused := hadds.used
    have hheld := hacc.used
    rw [hadds.holds, h b, hstart]
    omega
  · rw [packed_returned_iff h hacc hs hstart hadds]
    constructor
    · intro hlast f' hgives' _
      have hsame : f' = f := by
        cases op with
        | write _ _ => exact Option.some.inj (hgives'.symm.trans hgives)
        | append _ _ => exact Option.some.inj (hgives'.symm.trans hgives)
        | truncate _ _ => exact Option.some.inj (hgives'.symm.trans hgives)
        | delete _ => exact Option.some.inj (hgives'.symm.trans hgives)
        | _ => exact hgives.elim
      exact hsame ▸ hlast
    · exact fun hall => hall f hgives hok

theorem step_inArea (h : Packed fs) (hacc : Accounted fs) (hacc' : Accounted fs')
    (hstep : Step ts fs op ok fs') (hb : fs'.Holds b) :
    fs.superblock.dataStart ≤ b ∧ b < fs.superblock.dataStart + fs.superblock.dataBlocks := by
  have hheld := hacc.used
  have hblocks := hacc.blocks
  have hfree := hacc.freeBlocks_nonneg
  have hblocks' := hacc'.blocks
  have hfree' := hacc'.freeBlocks_nonneg
  have hlay := hstep.sameLayout
  have hstart := hlay.dataStart
  have hdata := hlay.dataBlocks
  rcases Step.adds hstep with ⟨-, n, hadds⟩ | ⟨name, f, before, after, n, -, -, hs, hadds⟩
  · have hused := hadds.used
    rcases (hadds.holds b).mp hb with hold | hnew
    · have hin := (h b).mp hold
      omega
    · omega
  · have hused := hadds.used
    have hge := heldBlocks_ge hs
    rcases (hadds.holds b).mp hb with hother | hnew
    · have hin := (h b).mp ((holds_split hs).mpr (.inl hother))
      omega
    · omega

/-! ## The map -/

theorem Packed.mapExact (h : Packed fs) (hfmt : fs.formatted = true) (hl : Laid fs) :
    fs.MapExact := by
  rw [mapExact_iff hfmt hl]
  intro i _ hdata
  rw [h]
  exact ⟨fun hlt => ⟨hdata, hlt⟩, And.right⟩

/-- On a disk of at most 300 blocks every block is drawn. -/
theorem packed_of_mapExact (h : Running fs) (hl : Laid fs) (hsmall : fs.superblock.totalBlocks ≤ 300)
    (harea : ∀ b, fs.Holds b →
      fs.superblock.dataStart ≤ b ∧ b < fs.superblock.dataStart + fs.superblock.dataBlocks)
    (hmap : fs.MapExact) : Packed fs := by
  have hpos := hl.data_pos
  have hlay := h.layout
  have hused := h.accounted.used
  have hblocks := h.accounted.blocks
  have hfree := h.accounted.freeBlocks_nonneg
  have hratio : drawRatio fs = 1 := by
    rw [drawRatio, ceilDiv]
    omega
  have hcount : ceilDiv fs.superblock.totalBlocks 1 = fs.superblock.totalBlocks := by
    rw [ceilDiv, Int.ediv_one, neg_neg]
  rw [mapExact_iff h.formatted hl, hratio, hcount] at hmap
  have hdrawn {b : ℤ} (hle : fs.superblock.dataStart ≤ b) (hlt : b < fs.superblock.totalBlocks) :
      b < fs.superblock.dataStart + fs.usedDataBlocks ↔ fs.Holds b := by
    have hb : ((b.toNat : ℕ) : ℤ) * 1 = b := by omega
    have := hmap b.toNat (by omega)
    rw [hb] at this
    exact this hle
  intro b
  constructor
  · intro hheld
    obtain ⟨hle, hlt⟩ := harea b hheld
    exact ⟨hle, (hdrawn hle (by omega)).mpr hheld⟩
  · exact fun hb => (hdrawn hb.1 (by omega)).mp hb.2

end MiniFs.Simulator
