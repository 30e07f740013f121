import MiniFs.Simulator.Tracking
import MiniFs.Simulator.Packed

/-! # When the disk map shows who holds a block

The map is right as long as the numbers it draws are exact and every call that gives
back blocks gives back those that were handed out last. A disk without a size is drawn
without blocks.
-/

set_option autoImplicit false

namespace MiniFs.Properties
open Simulator.Numbers Library Library.Exec
open Simulator (JsString Call Op Packed)

def HeldBlock (fs : FS) (b : Double) : Prop := ∃ f ∈ fs.files, b ∈ f.blocks

/-- Every drawn block of the data area is drawn as used exactly if a file holds it. -/
def MapExact (fs : FS) : Prop :=
  ∀ sb blocks, fs.superblock = some sb → refreshBlockGrid fs = some blocks →
    ∀ b ∈ blocks, sb.dataStart.le b.real = true → (b.type = .du ↔ HeldBlock fs b.real)

def GivesBack (fs : FS) : Op → File → Prop
  | .write name _, f | .append name _, f | .truncate name _, f | .delete name, f =>
    fs.find name = some f
  | _, _ => False

/-- The blocks of the file are the ones with the highest numbers in use. -/
def HoldsLast (fs : FS) (sb : Superblock) (f : File) : Prop :=
  ∀ b ∈ f.blocks, (sb.dataStart + (fs.usedDataBlocks - f.blocks.length)).le b = true

/-- An accepted call gives back only the blocks that were handed out last. -/
def ReturnsLast (fs : FS) (op : Op) : Prop :=
  ∀ sb f, fs.superblock = some sb → GivesBack fs op f → Accepts fs sb op → HoldsLast fs sb f

variable {page : Simulator.FS} {fs fs' : FS} {sb : Superblock} {ts name : JsString}
  {f : Simulator.File} {x : File} {op : Op} {b : Double} {r : ℤ} {msg : Msg}

theorem drawBlock_real (b : Double) : (drawBlock fs sb b).real = b := by
  rw [drawBlock]
  simp only
  split_ifs
  · rfl
  · rfl
  · rfl
  · split <;> rfl
  · rfl
  · rfl

section Tracked
variable (h : Tracks page fs sb) (hx : Addressed sb)
include h hx

/-! ## The map -/

theorem holds_iff (hb : b.Is r) : HeldBlock fs b ↔ page.Holds r :=
  (Paired.exists_iff h.agrees.files fun _ _ hsame =>
    (Paired.mem_iff Double.biUnique_is (hsame.blocks hx) hb).symm).symm

/-- In the data area the colour depends on the count of used blocks only. -/
theorem drawBlock_du_iff (hb : b.Is r) (hr : r < 2 ^ 53)
    (hdata : page.superblock.dataStart ≤ r) : (drawBlock fs sb b).type = .du ↔
      r < page.superblock.dataStart + page.usedDataBlocks := by
  have hp := h.agrees.same.places hx
  have hl := h.laid
  have hpos := hl.data_pos
  have hbitmap := hl.bitmap_le
  have hinode := hl.inode_le
  have hbitmap0 := hl.bitmap_nonneg
  have hinode0 := hl.inode_nonneg
  have hzero : (0 : Double).Is 0 := Double.is_ofNat 0 (by norm_num)
  have hne : ¬ b.equal 0 = true := fun heq => by
    have := (hb.equal_iff hzero).mp heq
    omega
  have hafter {s n : Double} {i j : ℤ} (hs : s.Is i) (hn : n.Is j) (h0 : 0 ≤ i + j)
      (hle : i + j ≤ page.superblock.dataStart) : ¬ (s.le b && b.lt (s + n)) = true := by
    have hsum : (s + n).Is (i + j) := hs.add hn (by rw [abs_of_nonneg] <;> omega)
    rw [Bool.and_eq_true, hb.lt_iff hsum]
    exact fun hand => absurd hand.2 (by omega)
  have hidx : (b - sb.dataStart).Is (r - page.superblock.dataStart) :=
    hb.sub hp.dataStart (by rw [abs_of_nonneg] <;> omega)
  rw [drawBlock, if_neg hne, if_neg (hafter hp.bitmapStart hp.bitmapBlocks hbitmap0 hbitmap),
    if_neg (hafter hp.inodeStart hp.inodeBlocks hinode0 hinode),
    if_pos ((hp.dataStart.le_iff hb).mpr hdata)]
  simp only
  split_ifs with hused
  · refine iff_of_true ?_ ?_
    · split <;> rfl
    · have := (hidx.lt_iff h.agrees.used).mp hused
      omega
  · rw [hidx.lt_iff h.agrees.used] at hused
    exact iff_of_false (fun h => nomatch h) (by omega)

/-- The drawn blocks are those of the page of integers. -/
theorem drawn_is : ∃ c : Double, (sb.totalBlocks / drawRatio sb).ceil = c ∧
    rounds c = (Simulator.ceilDiv page.superblock.totalBlocks (Simulator.drawRatio page)).toNat ∧
    ∀ i : ℕ, (i : ℤ) < Simulator.ceilDiv page.superblock.totalBlocks (Simulator.drawRatio page) →
      ((i : Double) * drawRatio sb).Is (i * Simulator.drawRatio page) ∧
        i * Simulator.drawRatio page < 2 ^ 53 := by
  have hp := h.agrees.same.places hx
  have hpos := h.laid.data_pos
  have hlay := h.running.layout
  have hblocks := h.running.accounted.freeBlocks_le
  have hfree := h.running.accounted.freeBlocks_nonneg
  have htotal := lt_of_lt_maxExact hp.totalBlocks hx
  have hratio : (drawRatio sb).Is (Simulator.drawRatio page) := by
    rw [Simulator.drawRatio, ceilDiv_eq (by norm_num)]
    exact hp.totalBlocks.ceil_div (Double.is_ofNat 300 (by norm_num)) (by omega) htotal (by norm_num)
  have hratio1 : 1 ≤ Simulator.drawRatio page := by
    have := Simulator.le_ceilDiv_mul (a := page.superblock.totalBlocks) (b := 300) (by norm_num)
    rw [Simulator.drawRatio]
    omega
  refine ⟨_, rfl, ?_, fun i hi => ?_⟩
  · rw [ceilDiv_eq (by omega)]
    exact rounds_is (hp.totalBlocks.ceil_div hratio (by omega) htotal (by omega))
  · -- a block that is drawn is one of the disk
    have hlt : i * Simulator.drawRatio page < page.superblock.totalBlocks := by
      by_contra hge
      have := Simulator.ceilDiv_le (by omega) (not_lt.mp hge)
      omega
    have hi' : (i : ℤ) ≤ i * Simulator.drawRatio page :=
      le_mul_of_one_le_right (Int.natCast_nonneg i) hratio1
    refine ⟨(Double.is_natCast (by omega)).mul hratio ?_, by omega⟩
    rw [abs_of_nonneg] <;> omega

theorem mapExact_iff_page : MapExact fs ↔ page.MapExact := by
  obtain ⟨c, hc, hrounds, hreal⟩ := drawn_is h hx
  have hsb := h.agrees.superblock
  have hds := (h.agrees.same.places hx).dataStart
  have hgrid : refreshBlockGrid fs = some ((List.range (rounds c)).map fun (i : ℕ) =>
      drawBlock fs sb (i * drawRatio sb)) := by
    rw [refreshBlockGrid, hsb, ← hc]
    rfl
  rw [Simulator.mapExact_iff h.running.formatted h.laid]
  constructor
  · intro hall i hi hdata
    obtain ⟨his, hlt⟩ := hreal i hi
    have hone := hall sb _ hsb hgrid (drawBlock fs sb (i * drawRatio sb))
      (List.mem_map_of_mem (List.mem_range.mpr (by omega)))
    rw [drawBlock_real, hds.le_iff his, drawBlock_du_iff h hx his hlt hdata, holds_iff h hx his]
      at hone
    exact hone hdata
  · rintro hall sb₀ blocks hsb₀ hblocks b hb hdata
    obtain rfl := Option.some.inj (hsb.symm.trans hsb₀)
    obtain rfl := Option.some.inj (hgrid.symm.trans hblocks)
    obtain ⟨i, hi, rfl⟩ := List.mem_map.mp hb
    rw [List.mem_range] at hi
    obtain ⟨his, hlt⟩ := hreal i (by omega)
    rw [drawBlock_real, hds.le_iff his] at hdata
    rw [drawBlock_real, drawBlock_du_iff h hx his hlt hdata, holds_iff h hx his]
    exact hall i (by omega) hdata

/-! ## One step -/

theorem holdsLast_iff (hf : page.find name = some f) (hsame : SameFile (Addressed sb) f x) :
    HoldsLast fs sb x ↔ Simulator.HoldsLast page f := by
  have hp := h.agrees.same.places hx
  have hb := h.bounded
  have hheld := held_le h.running hf
  have hsum := hb.sum
  have hlay := hb.layout
  have hstart := hb.start_nonneg
  have hfree := hb.free_nonneg
  have htotal := lt_of_lt_maxExact hp.totalBlocks hx
  have hlen : (x.blocks.length : Double).Is f.blocks.length := by
    rw [hsame.length]
    exact Double.is_natCast (by omega)
  have hleft : (fs.usedDataBlocks - x.blocks.length).Is
      (page.usedDataBlocks - f.blocks.length) :=
    h.agrees.used.sub hlen (by rw [abs_of_nonneg] <;> omega)
  have hfirst : (sb.dataStart + (fs.usedDataBlocks - x.blocks.length)).Is
      (page.superblock.dataStart + (page.usedDataBlocks - f.blocks.length)) :=
    hp.dataStart.add hleft (by rw [abs_of_nonneg] <;> omega)
  exact Paired.forall_iff (hsame.blocks hx) fun _ _ hb => hfirst.le_iff hb

theorem returnsLast_iff (hmakes : Makes fs op) :
    ReturnsLast fs op ↔ Simulator.ReturnsLast page op := by
  have hsb := h.agrees.superblock
  have hacc := h.accepts_iff hmakes
  have hfound (name : JsString) :
      (∀ x, fs.find name = some x → Accepts fs sb op → HoldsLast fs sb x) ↔
        ∀ f, page.find name = some f → Simulator.Accepts page op → Simulator.HoldsLast page f :=
    h.forall_found fun f x hf _ hsame => by rw [hacc, holdsLast_iff h hx hf hsame]
  have hone : ReturnsLast fs op ↔
      ∀ x, GivesBack fs op x → Accepts fs sb op → HoldsLast fs sb x := by
    refine ⟨fun hall x => hall sb x hsb, fun hall sb₀ x hsb₀ => ?_⟩
    obtain rfl := Option.some.inj (hsb.symm.trans hsb₀)
    exact hall x
  rw [hone]
  cases op with
  | write name content => exact hfound name
  | append name data => exact hfound name
  | truncate name newSize => exact hfound name
  | delete name => exact hfound name
  | _ => exact iff_of_true (fun _ hno => hno.elim) fun _ hno => hno.elim

end Tracked

/-! ## Runs -/

theorem packed_resigned (page : Simulator.FS) (sb : Superblock) :
    Packed (resigned page sb) ↔ Packed page := by
  rw [resigned]
  split_ifs <;> exact Iff.rfl

theorem packed_of_empty (h : Tracks page fs sb) (hfiles : page.files = []) : Packed page := by
  have hused := h.running.accounted.used
  rw [Simulator.FS.heldBlocks, hfiles, List.map_nil, List.sum_nil, Int.natCast_zero] at hused
  intro b
  refine iff_of_false ?_ (by omega)
  rw [Simulator.FS.Holds, hfiles]
  simp

theorem runPage_mapExact (h : Tracks page fs sb) (hx : Addressed sb) (hp : Packed page)
    (calls : List Call) (hmakes : Always runPage (fun fs c => Makes fs c.op) fs calls) :
    (Always runPage (fun fs c => ReturnsLast fs c.op) fs calls →
      Throughout runPage (fun _ _ _ fs' => MapExact fs') fs calls) ∧
    (sb.totalBlocks.le 300 = true →
      Throughout runPage (fun _ _ _ fs' => MapExact fs') fs calls →
        Always runPage (fun fs c => ReturnsLast fs c.op) fs calls) := by
  induction calls generalizing page fs sb with
  | nil => exact ⟨fun _ => trivial, fun _ _ => trivial⟩
  | cons c calls ih =>
    have hrun := runPage_eq c fs
    rw [always_cons hrun] at hmakes
    obtain ⟨page', sb', hstep, hkept, h'⟩ := h.perform c.ts hmakes.1
    have hx' : Addressed sb' := by rw [Addressed, hkept.totalBlocks]; exact hx
    have hiff := Simulator.step_packed_iff hp h.running.accounted hstep
    rw [← returnsLast_iff h hx hmakes.1, ← packed_resigned page' sb'] at hiff
    rw [throughout_cons hrun, always_cons hrun]
    constructor
    · rintro ⟨hlast, hrest⟩
      have hp' := hiff.mpr hlast
      exact ⟨(mapExact_iff_page h' hx').mpr (hp'.mapExact h'.running.formatted h'.laid),
        (ih h' hx' hp' hmakes.2).1 hrest⟩
    · rintro hsmall ⟨hmap, hrest⟩
      have hsmall' : sb'.totalBlocks.le 300 = true := hkept.totalBlocks ▸ hsmall
      have htotal := ((h'.agrees.same.places hx').totalBlocks.le_iff
        (Double.is_ofNat 300 (by norm_num))).mp hsmall'
      have hp' : Packed (resigned page' sb') := by
        refine Simulator.packed_of_mapExact h'.running h'.laid htotal (fun b hb => ?_)
          ((mapExact_iff_page h' hx').mp hmap)
        rw [Simulator.FS.Holds, resigned_files] at hb
        rw [resigned_dataStart, resigned_dataBlocks, hstep.sameLayout.dataStart,
          hstep.sameLayout.dataBlocks]
        exact Simulator.step_inArea hp h.running.accounted (h.running.step hstep).accounted hstep hb
      exact ⟨hiff.mp hp', (ih h' hx' hp' hmakes.2).2 hsmall' hrest⟩

/-- A disk without a size is drawn without blocks. -/
theorem mapExact_of_none (hsb : fs.superblock = some sb) (hnone : sb.totalBlocks.value = none) :
    MapExact fs := by
  rintro sb₀ blocks hsb₀ hblocks b hb -
  obtain rfl := Option.some.inj (hsb.symm.trans hsb₀)
  have hzero : rounds (sb.totalBlocks / drawRatio sb).ceil = 0 := by
    rw [drawRatio]
    cases htotal : sb.totalBlocks with
    | fin q hq =>
      rw [htotal] at hnone
      exact nomatch hnone
    | inf s => cases s <;> decide +kernel
    | nan => decide +kernel
  rw [refreshBlockGrid, hsb] at hblocks
  obtain rfl := Option.some.inj hblocks
  simp only [hzero, List.range_zero, List.map_nil, List.not_mem_nil] at hb

theorem throughout_mapExact_of_none (hsb : fs.superblock = some sb)
    (hnone : sb.totalBlocks.value = none) (calls : List Call) :
    Throughout runPage (fun _ _ _ fs' => MapExact fs') fs calls := by
  induction calls generalizing fs sb with
  | nil => trivial
  | cons c calls ih =>
    obtain ⟨sb', hsb', hkept⟩ := (perform_keeps hsb c.ts c.op).kept
    rw [← hkept.totalBlocks] at hnone
    rw [throughout_cons (runPage_eq c fs)]
    exact ⟨mapExact_of_none hsb' hnone, ih hsb' hnone⟩

/-- From an accepted format on, the map is right after each call if the disk has no finite count of
blocks, or a count below 2^53 with not more data blocks, and every accepted call that gives back the
blocks of a file finds them to be the last ones handed out; where all blocks are drawn, only
then. -/
theorem mapExact_of_returnsLast {t b : Option ℤ}
    (h : fsFormat ts (number t) (number b) fs = (⟨true, msg⟩, fs'))
    (hsb : fs'.superblock = some sb) (calls : List Call)
    (hmakes : Always runPage (fun fs c => Makes fs c.op) fs' calls) :
    (sb.totalBlocks.value = none →
      MapExact fs' ∧ Throughout runPage (fun _ _ _ fs'' => MapExact fs'') fs' calls) ∧
    (FewBlocks sb → Addressed sb →
      MapExact fs' ∧ (Always runPage (fun fs c => ReturnsLast fs c.op) fs' calls →
        Throughout runPage (fun _ _ _ fs'' => MapExact fs'') fs' calls)) ∧
    (FewBlocks sb → sb.totalBlocks.le 300 = true →
      Throughout runPage (fun _ _ _ fs'' => MapExact fs'') fs' calls →
        Always runPage (fun fs c => ReturnsLast fs c.op) fs' calls) := by
  obtain ⟨_, hsb', -, -, -, -, htracks⟩ := fsFormat_tracks h
  obtain rfl := Option.some.inj (hsb.symm.trans hsb')
  refine ⟨fun hnone => ⟨mapExact_of_none hsb hnone, throughout_mapExact_of_none hsb hnone calls⟩,
    fun hsmall hx => ?_, fun hsmall h300 => ?_⟩
  · obtain ⟨page, hpage, hfiles⟩ := htracks hsmall
    have hp := packed_of_empty hpage hfiles
    exact ⟨(mapExact_iff_page hpage hx).mpr (hp.mapExact hpage.running.formatted hpage.laid),
      (runPage_mapExact hpage hx hp calls hmakes).1⟩
  · obtain ⟨page, hpage, hfiles⟩ := htracks hsmall
    have hx : Addressed sb :=
      Double.lt_of_le (Double.is_ofNat 300 (by norm_num)) maxExact_is (by norm_num) h300
    exact (runPage_mapExact hpage hx (packed_of_empty hpage hfiles) calls hmakes).2 h300

def eightBlocks : FS := (fsFormat [] ((2304 : ℤ) : Double) ((288 : ℤ) : Double) FS.start).2

theorem eightBlocks_eq : fsFormat [] ((2304 : ℤ) : Double) ((288 : ℤ) : Double) FS.start =
    (⟨true, (fsFormat [] ((2304 : ℤ) : Double) ((288 : ℤ) : Double) FS.start).1.msg⟩,
      eightBlocks) :=
  accepted_eq (show (fsFormat [] ((2304 : ℤ) : Double) ((288 : ℤ) : Double) FS.start).1.ok = true by
    decide +kernel)

theorem eightBlocks_superblock : ∃ sb, eightBlocks.superblock = some sb ∧ FewBlocks sb ∧
    Addressed sb ∧ Counted sb := by
  obtain ⟨hb, -, -, hfs⟩ := fsFormat_eq eightBlocks_eq
  refine ⟨_, congrArg FS.superblock hfs, ?_⟩
  have hsmall : (totalBlocks ((2304 : ℤ) : Double) ((288 : ℤ) : Double) -
      dataStart ((2304 : ℤ) : Double) ((288 : ℤ) : Double)).le maxExact = true := by decide +kernel
  have hx : (totalBlocks ((2304 : ℤ) : Double) ((288 : ℤ) : Double)).lt maxExact = true := by
    decide +kernel
  have hc : (maxInodes ((2304 : ℤ) : Double) ((288 : ℤ) : Double)).le maxExact = true := by
    decide +kernel
  exact ⟨hsmall, hx, hc⟩

theorem makes_createWrite (fs : FS) : Always runPage (fun fs c => Makes fs c.op) fs
    [⟨.create [97], []⟩, ⟨.write [97] [1], []⟩] :=
  ⟨trivial, fun _ _ _ => ⟨by norm_num [Makes], fun _ _ _ => trivial⟩⟩

/-- The file that is written has no block before. -/
theorem returnsLast_createWrite : Always runPage (fun fs c => ReturnsLast fs c.op) eightBlocks
    [⟨.create [97], []⟩, ⟨.write [97] [1], []⟩] := by
  refine ⟨fun _ _ _ hno => hno.elim, fun _ _ hstep => ⟨?_, fun _ _ _ => trivial⟩⟩
  obtain ⟨-, rfl⟩ := Prod.mk.inj (Option.some.inj hstep)
  intro sb f _ hf _ b hmem
  have hempty : ((perform [] (.create [97]) eightBlocks).2.find [97]).map File.blocks =
      some [] := by decide +kernel
  have hfind : (perform [] (.create [97]) eightBlocks).2.find [97] = some f := hf
  rw [hfind] at hempty
  rw [Option.some.inj hempty] at hmem
  exact absurd hmem List.not_mem_nil

/-- A file made and written on a page of eight blocks. -/
theorem mapExact_of_returnsLast_eight : Throughout runPage (fun _ _ _ fs => MapExact fs) eightBlocks
    [⟨.create [97], []⟩, ⟨.write [97] [1], []⟩] := by
  obtain ⟨sb, hsb, hsmall, hx, -⟩ := eightBlocks_superblock
  exact ((mapExact_of_returnsLast (t := some 2304) (b := some 288) eightBlocks_eq hsb _
    (makes_createWrite _)).2.1 hsmall hx).2 returnsLast_createWrite

def deletedFirst : List Call :=
  [⟨.create [97], []⟩, ⟨.create [98], []⟩, ⟨.write [97] [1], []⟩, ⟨.write [98] [2], []⟩,
    ⟨.delete [97], []⟩]

/-- The block of the second is drawn as free, and that of the first as used. -/
theorem deleted_first_misdrawn :
    fsFormat [] ((2304 : ℤ) : Double) ((288 : ℤ) : Double) FS.start =
      (⟨true, (fsFormat [] ((2304 : ℤ) : Double) ((288 : ℤ) : Double) FS.start).1.msg⟩,
        eightBlocks) ∧
    (performAll deletedFirst eightBlocks).files.map File.blocks = [[4]] ∧
    (refreshBlockGrid (performAll deletedFirst eightBlocks)).map (List.map DrawnBlock.type) =
      some [.sb, .bm, .in_, .du, .df, .df, .df, .df] ∧
    ¬ MapExact (performAll deletedFirst eightBlocks) := by
  have hheld : (performAll deletedFirst eightBlocks).files.map File.blocks = [[4]] := by
    decide +kernel
  refine ⟨eightBlocks_eq, hheld, by decide +kernel, fun hmap => ?_⟩
  -- a block drawn as used that is not the one a file holds
  have hbad : ((performAll deletedFirst eightBlocks).superblock.any fun sb =>
      (refreshBlockGrid (performAll deletedFirst eightBlocks)).any fun blocks =>
        blocks.any fun b => sb.dataStart.le b.real && decide (b.type = .du) &&
          decide (b.real ≠ 4)) = true := by decide +kernel
  simp only [Option.any_eq_true, List.any_eq_true, Bool.and_eq_true, decide_eq_true_eq] at hbad
  obtain ⟨sb, hsb, blocks, hblocks, b, hb, ⟨hdata, hdu⟩, hne⟩ := hbad
  obtain ⟨f, hf, hmem⟩ := (hmap sb blocks hsb hblocks b hb hdata).mp hdu
  have hlist := List.mem_map_of_mem (f := File.blocks) hf
  rw [hheld, List.mem_singleton] at hlist
  rw [hlist, List.mem_singleton] at hmem
  exact hne hmem

end MiniFs.Properties
