import MiniFs.Properties.DiskMap

/-! # No block of the page belongs to two files

The page takes block numbers from a count of the blocks in use, so a file that is
rewritten or made after another one was deleted may be given numbers that a third
file holds. Where the counts are exact, the check stays clean exactly as long as that does not
happen and no file gets an empty name.
-/

set_option autoImplicit false

namespace MiniFs.Properties
open Simulator.Numbers Library Library.Exec
open Simulator (JsString Call Op Named GivesName CopyShort)

/-- No block number is on two lists, or twice on one, or outside the data region. -/
structure Exclusive (fs : FS) (sb : Superblock) : Prop where
  bounds : ∀ b ∈ fs.files.flatMap File.blocks,
    sb.dataStart.le b = true ∧ b.lt sb.totalBlocks = true
  nodup : (fs.files.flatMap File.blocks).Nodup

/-- No block is shared or out of range, and the check says so. -/
def PageClean (fs : FS) : Prop :=
  ∃ sb, fs.superblock = some sb ∧ Exclusive fs sb ∧ (fsFsck fs).ok = true

structure ExactCounts (sb : Superblock) : Prop where
  blocks : Addressed sb
  data : FewBlocks sb
  inodes : Counted sb

/-- The number behind the blocks in use, without the `held` ones given back. -/
def firstTaken (fs : FS) (sb : Superblock) (held : ℕ) : Double :=
  sb.dataStart + (fs.usedDataBlocks - held)

/-- No file of another name holds one of the numbers behind the blocks in use that `n` characters
need. -/
def OthersAvoid (fs : FS) (sb : Superblock) (name : JsString) (held n : ℕ) : Prop :=
  ∀ f ∈ fs.files, f.name ≠ name → ∀ b ∈ f.blocks,
    (firstTaken fs sb held).le b = true → b.lt (firstTaken fs sb held + needed sb n) = false

/-- The numbers that follow the count of the blocks in use, as many as the call needs, are in no
other file. -/
def TakesFree (fs : FS) (sb : Superblock) : Op → Prop
  | .write name content => ∀ f, fs.find name = some f →
    OthersAvoid fs sb name f.blocks.length content.length
  | .append name data => ∀ f, fs.find name = some f →
    OthersAvoid fs sb name f.blocks.length (f.content ++ data).length
  | .truncate name newSize => ∀ f, fs.find name = some f →
    OthersAvoid fs sb name f.blocks.length (slice f.content newSize).length
  | .copy src dst => ∀ f, fs.find src = some f → f.size ≠ 0 →
    OthersAvoid fs sb dst 0 f.content.length
  | _ => True

/-- If the call is accepted, it gives no empty name and takes blocks of no other file. -/
def KeepsApart (fs : FS) (op : Op) : Prop :=
  ∀ sb, fs.superblock = some sb → Accepts fs sb op → GivesName op ∧ TakesFree fs sb op

variable {page : Simulator.FS} {fs fs' : FS} {sb : Superblock} {ts name : JsString}
  {f : Simulator.File} {x : File} {op : Op} {r : ℤ} {msg : Msg}

/-! ## The check -/

/-- The count of the blocks on all lists. -/
theorem counted_is {l : List ℕ} {a : Double} {n : ℕ} (ha : a.Is n) (hle : n + l.sum ≤ 2 ^ 53) :
    ((l.map fun k : ℕ => (k : Double)).foldl (· + ·) a).Is (n + l.sum : ℕ) := by
  induction l generalizing a n with
  | nil => exact ha
  | cons k l ih =>
    rw [List.sum_cons] at hle
    have hk : (k : Double).Is k := Double.is_natCast (by omega)
    have hnext : (a + k).Is (n + k : ℕ) := by
      rw [Int.natCast_add]
      exact ha.add hk (by rw [abs_of_nonneg] <;> omega)
    rw [List.map_cons, List.foldl_cons, List.sum_cons, ← Nat.add_assoc]
    exact ih hnext (by omega)

section Tracked
variable (h : Tracks page fs sb) (hx : Addressed sb)
include h hx

theorem blocks_is : List.Forall₂ Double.Is (fs.files.flatMap File.blocks)
    (page.files.flatMap Simulator.File.blocks) :=
  (Paired.flatMap h.agrees.files fun _ _ hsame => (hsame.blocks hx).flip).flip

theorem exclusive_iff : Exclusive fs sb ↔ page.Exclusive := by
  have hp := h.agrees.same.places hx
  have hblocks := blocks_is h hx
  have hbounds := Paired.forall_iff hblocks fun b r hb =>
    and_congr (hp.dataStart.le_iff hb) (hb.lt_iff hp.totalBlocks)
  have hnodup := Paired.nodup_iff Double.biUnique_is hblocks
  exact ⟨fun he => ⟨hbounds.mp he.bounds, hnodup.mp he.nodup⟩,
    fun he => ⟨hbounds.mpr he.bounds, hnodup.mpr he.nodup⟩⟩

theorem length_fsckBlock {b : Double} {dups : List Double} {dups' : List ℤ} (hb : b.Is r)
    (hdups : List.Forall₂ Double.Is dups dups') : (fsckBlock sb x dups b).length =
      (Simulator.fsckBlock page.superblock f dups' r).length := by
  have hp := h.agrees.same.places hx
  have hrange : (b.lt sb.dataStart || sb.totalBlocks.le b) = true ↔
      r < page.superblock.dataStart ∨ r ≥ page.superblock.totalBlocks := by
    rw [Bool.or_eq_true, hb.lt_iff hp.dataStart, hp.totalBlocks.le_iff hb]
  have hmem := Paired.mem_iff Double.biUnique_is hdups hb
  rw [fsckBlock, Simulator.fsckBlock]
  simp only [hrange, hmem]
  split_ifs <;> rfl

theorem length_fsckBlocks {blocks dups : List Double} {blocks' dups' : List ℤ}
    (hblocks : List.Forall₂ Double.Is blocks blocks')
    (hdups : List.Forall₂ Double.Is dups dups') : (fsckBlocks sb x blocks dups).length =
      (Simulator.fsckBlocks page.superblock f blocks' dups').length := by
  induction hblocks generalizing dups dups' with
  | nil => rfl
  | cons hb _ ih =>
    rw [fsckBlocks, Simulator.fsckBlocks, List.length_append, List.length_append,
      length_fsckBlock h hx hb hdups, ih (.cons hb hdups)]

theorem length_fsckFiles {files : List Simulator.File} {files' : List File}
    (hfiles : List.Forall₂ (SameFile (Addressed sb)) files files') {dups : List Double}
    {dups' : List ℤ} (hdups : List.Forall₂ Double.Is dups dups') :
    (fsckFiles sb files' dups).length =
      (Simulator.fsckFiles page.superblock files dups').length := by
  induction hfiles generalizing dups dups' with
  | nil => rfl
  | cons hsame _ ih =>
    have hblocks := hsame.blocks hx
    rw [fsckFiles, Simulator.fsckFiles, List.length_append, List.length_append, List.length_append,
      List.length_append, length_fsckBlocks h hx hblocks hdups,
      ih (List.rel_append (List.rel_reverse hblocks) hdups), hsame.name]
    split_ifs <;> rfl

theorem fsFsck_ok_iff (hc : Counted sb) :
    (fsFsck fs).ok = true ↔ (Simulator.fsFsck page).ok = true := by
  have hsame := h.agrees.same
  have hacc := h.running.accounted
  have hin := hsame.inodes hc
  have hmax := le_of_le_maxExact hin.maxInodes hc
  have hbounded := h.bounded
  have hsum := hbounded.sum
  have hfree := hbounded.free_nonneg
  have hdata := hbounded.data_le
  have hfreeInodes := hacc.freeInodes_nonneg
  have hinodes := hacc.inodes
  have hused := hacc.used
  have hlen : fs.files.length = page.files.length := h.agrees.files.length_eq.symm
  have hheld : (fs.files.map fun f => f.blocks.length).sum = page.heldBlocks := h.agrees.heldBlocks
  have hmagic : sb.magic.equal 0x4D494E49 = true :=
    (hsame.magic.equal_iff (Double.is_ofNat 0x4D494E49 (by norm_num))).mpr h.running.magic
  have hcount : Double.equal fs.files.length (sb.maxInodes - sb.freeInodes) = true := by
    refine ((Double.is_natCast (by omega)).equal_iff (hin.maxInodes.sub hin.freeInodes ?_)).mpr ?_
    · rw [abs_of_nonneg] <;> omega
    · omega
  have hblocks : ((fs.files.map fun f : File => (f.blocks.length : Double)).foldl (· + ·) 0).equal
      (sb.dataBlocks - sb.freeBlocks) = true := by
    have hfold := counted_is (l := fs.files.map fun f => f.blocks.length) (n := 0)
      (Double.is_ofNat 0 (by norm_num)) (by omega)
    rw [List.map_map] at hfold
    refine (hfold.equal_iff (hsame.dataBlocks.sub hsame.freeBlocks ?_)).mpr ?_
    · rw [abs_of_nonneg] <;> omega
    · omega
  have hlength := length_fsckFiles h hx h.agrees.files .nil
  rw [Simulator.fsFsck_ok_iff_nil h.running, ← List.length_eq_zero_iff, ← hlength, fsFsck,
    h.agrees.superblock]
  simp only [hmagic, hcount, hblocks, if_true, decide_eq_true_eq, Nat.zero_add, Nat.add_zero]

theorem pageClean_iff (hc : Counted sb) :
    PageClean fs ↔ (∀ f ∈ page.files, Named f) ∧ page.Exclusive := by
  have hok := (fsFsck_ok_iff h hx hc).trans (Simulator.fsFsck_ok_iff h.running)
  have hone : PageClean fs ↔ Exclusive fs sb ∧ (fsFsck fs).ok = true := by
    refine ⟨fun ⟨sb₀, hsb₀, hclean⟩ => ?_, fun hclean => ⟨sb, h.agrees.superblock, hclean⟩⟩
    obtain rfl := Option.some.inj (h.agrees.superblock.symm.trans hsb₀)
    exact hclean
  rw [hone, hok, exclusive_iff h hx]
  tauto

/-! ## One call -/

theorem othersAvoid_iff {held n : ℕ} (hheld : (held : ℤ) ≤ page.usedDataBlocks)
    (hn : n < 2 ^ 53) (hroom : Simulator.Room page held n) (name : JsString) :
    OthersAvoid fs sb name held n ↔
      Simulator.OthersAvoid page name (Simulator.newBlocks page held n) := by
  have hp := h.agrees.same.places hx
  have hb := h.bounded
  have hsum := hb.sum
  have hlay := hb.layout
  have hstart := hb.start_nonneg
  have hfree := hb.free_nonneg
  have htotal := lt_of_lt_maxExact hp.totalBlocks hx
  have hone := Simulator.one_le_needed page n
  have hfits := hroom.free
  have hleft : (fs.usedDataBlocks - held).Is (page.usedDataBlocks - held) :=
    h.agrees.used.sub (Double.is_natCast (by omega)) (by rw [abs_of_nonneg] <;> omega)
  have hfirst : (firstTaken fs sb held).Is
      (page.superblock.dataStart + (page.usedDataBlocks - held)) :=
    hp.dataStart.add hleft (by rw [abs_of_nonneg] <;> omega)
  have hlast : (firstTaken fs sb held + needed sb n).Is
      (page.superblock.dataStart + (page.usedDataBlocks - held) + Simulator.needed page n) :=
    hfirst.add (needed_is h.agrees.same.blockSize hb.blockSize hn) (by rw [abs_of_nonneg] <;> omega)
  refine (Paired.forall_iff h.agrees.files fun f x hsame => ?_).symm
  rw [hsame.name]
  refine imp_congr_right fun _ => (Paired.forall_iff (hsame.blocks hx) fun b r hbr => ?_).symm
  rw [Simulator.mem_newBlocks, hfirst.le_iff hbr, ← Bool.not_eq_true, hbr.lt_iff hlast]
  tauto

theorem keepsApart_iff (hmakes : Makes fs op) :
    KeepsApart fs op ↔ Simulator.KeepsApart page op := by
  have hsb := h.agrees.superblock
  have hone : KeepsApart fs op ↔ (Accepts fs sb op → GivesName op ∧ TakesFree fs sb op) := by
    refine ⟨fun hall => hall sb hsb, fun hone sb₀ hsb₀ => ?_⟩
    obtain rfl := Option.some.inj (hsb.symm.trans hsb₀)
    exact hone
  rw [hone, Simulator.KeepsApart]
  refine imp_congr_ctx (h.accepts_iff hmakes) fun hacc => and_congr_right' ?_
  have hused {f : Simulator.File} {name : JsString} (hf : page.find name = some f) :
      (f.blocks.length : ℤ) ≤ page.usedDataBlocks := held_le h.running hf
  cases op with
  | write name content =>
    obtain ⟨f', hf', hroom⟩ := hacc
    refine h.forall_found fun f x hf hxf hsame => ?_
    obtain rfl := Option.some.inj (hf.symm.trans hf')
    rw [hsame.length]
    exact (othersAvoid_iff h hx (hused hf) hmakes hroom name).symm
  | append name data =>
    obtain ⟨f', hf', hroom⟩ := hacc
    refine h.forall_found fun f x hf hxf hsame => ?_
    obtain rfl := Option.some.inj (hf.symm.trans hf')
    rw [hsame.length, hsame.content]
    exact (othersAvoid_iff h hx (hused hf) (hsame.content ▸ hmakes x hxf) hroom name).symm
  | truncate name newSize =>
    obtain ⟨f', hf', hle, hroom⟩ := hacc
    refine h.forall_found fun f x hf hxf hsame => ?_
    obtain rfl := Option.some.inj (hf.symm.trans hf')
    have hsize := (h.running.accounted.sized f (Simulator.mem_of_find hf)).size
    rw [hsame.length, hsame.content, slice_intCast hsame.short (hsize ▸ hle)]
    exact (othersAvoid_iff h hx (hused hf)
      ((Simulator.length_sliceTo_le _ _).trans_lt hsame.short) hroom name).symm
  | copy src dst =>
    obtain ⟨f', hf', -, -, hroom⟩ := hacc
    refine h.forall_found fun f x hf hxf hsame => ?_
    obtain rfl := Option.some.inj (hf.symm.trans hf')
    rw [hsame.size, hsame.content]
    refine imp_congr_right fun hsize => ?_
    exact (othersAvoid_iff h hx (by have := h.bounded.used_nonneg; omega) hsame.short
      (hroom hsize) dst).symm
  | _ => exact Iff.rfl

end Tracked

/-! ## Runs -/

theorem runPage_clean_iff (h : Tracks page fs sb) (hx : Addressed sb) (hc : Counted sb)
    (hclean : PageClean fs) (calls : List Call)
    (hmakes : Always runPage (fun fs c => Makes fs c.op) fs calls)
    (hshort : ∀ c ∈ calls, CopyShort c.op) :
    Throughout runPage (fun _ _ _ fs' => PageClean fs') fs calls ↔
      Always runPage (fun fs c => KeepsApart fs c.op) fs calls := by
  induction calls generalizing page fs sb with
  | nil => exact iff_of_true trivial trivial
  | cons c calls ih =>
    have hrun := runPage_eq c fs
    obtain ⟨hnamed, hex⟩ := (pageClean_iff h hx hc).mp hclean
    rw [always_cons hrun] at hmakes
    obtain ⟨page', sb', hstep, hkept, h'⟩ := h.perform c.ts hmakes.1
    have hx' : Addressed sb' := by rw [Addressed, hkept.totalBlocks]; exact hx
    have hc' : Counted sb' := by rw [Counted, hkept.maxInodes]; exact hc
    rw [resigned, if_pos hc'] at h'
    have hiff := Simulator.step_keepsApart_iff h.running hnamed hex
      (hshort c List.mem_cons_self) hstep
    rw [← pageClean_iff h' hx' hc', ← keepsApart_iff h hx hmakes.1] at hiff
    rw [throughout_cons hrun, always_cons hrun, hiff]
    refine and_congr_right fun hkeep => ?_
    exact ih h' hx' hc' (hiff.mpr hkeep) hmakes.2 fun d hd => hshort d (List.mem_cons_of_mem c hd)

/-- Calls that return only the blocks handed out last keep the blocks of files apart. -/
theorem keepsApart_of_returnsLast (h : Tracks page fs sb) (hx : Addressed sb)
    (hp : Simulator.Packed page) (calls : List Call)
    (hmakes : Always runPage (fun fs c => Makes fs c.op) fs calls)
    (hnames : ∀ c ∈ calls, GivesName c.op)
    (hlast : Always runPage (fun fs c => ReturnsLast fs c.op) fs calls) :
    Always runPage (fun fs c => KeepsApart fs c.op) fs calls := by
  induction calls generalizing page fs sb with
  | nil => trivial
  | cons c calls ih =>
    have hrun := runPage_eq c fs
    rw [always_cons hrun] at hmakes hlast
    obtain ⟨page', sb', hstep, hkept, h'⟩ := h.perform c.ts hmakes.1
    have hx' : Addressed sb' := by rw [Addressed, hkept.totalBlocks]; exact hx
    have hret := (returnsLast_iff h hx hmakes.1).mp hlast.1
    have hp' := (packed_resigned page' sb').mpr
      ((Simulator.step_packed_iff hp h.running.accounted hstep).mpr hret)
    rw [always_cons hrun]
    refine ⟨(keepsApart_iff h hx hmakes.1).mpr fun hok => ?_, ih h' hx' hp' hmakes.2 ?_ hlast.2⟩
    · exact ⟨hnames c List.mem_cons_self, hp.takesFree h.running.accounted hret hok⟩
    · exact fun d hd => hnames d (List.mem_cons_of_mem c hd)

/-- From an accepted format with exact counts on, with copies to short names only: no block is ever
shared or out of range, and the check finds no error, if and only if no accepted call takes a
block of another file or gives an empty name. So it is where all calls give names and return only
the blocks handed out last. -/
theorem page_clean_iff {t b : ℤ} (h : fsFormat ts t b fs = (⟨true, msg⟩, fs'))
    (hsb : fs'.superblock = some sb) (hexact : ExactCounts sb) :
    PageClean fs' ∧ ∀ calls : List Call, Always runPage (fun fs c => Makes fs c.op) fs' calls →
      (∀ c ∈ calls, CopyShort c.op) →
        (Throughout runPage (fun _ _ _ fs'' => PageClean fs'') fs' calls ↔
          Always runPage (fun fs c => KeepsApart fs c.op) fs' calls) ∧
        ((∀ c ∈ calls, GivesName c.op) →
          Always runPage (fun fs c => ReturnsLast fs c.op) fs' calls →
            Throughout runPage (fun _ _ _ fs'' => PageClean fs'') fs' calls) := by
  obtain ⟨_, hsb', -, -, -, -, htracks⟩ := fsFormat_tracks (n := some b) h
  obtain rfl := Option.some.inj (hsb.symm.trans hsb')
  obtain ⟨page, hpage, hfiles⟩ := htracks hexact.data
  have hclean : PageClean fs' := by
    rw [pageClean_iff hpage hexact.blocks hexact.inodes, Simulator.FS.Exclusive, hfiles]
    exact ⟨fun x hx => absurd hx List.not_mem_nil,
      fun b hb => absurd hb List.not_mem_nil, List.nodup_nil⟩
  refine ⟨hclean, fun calls hmakes hshort => ?_⟩
  have hiff := runPage_clean_iff hpage hexact.blocks hexact.inodes hclean calls hmakes hshort
  exact ⟨hiff, fun hnames hlast => hiff.mpr (keepsApart_of_returnsLast hpage hexact.blocks
    (packed_of_empty hpage hfiles) calls hmakes hnames hlast)⟩

/-- A file made and written. -/
theorem page_clean_iff_eight : PageClean eightBlocks ∧
    Throughout runPage (fun _ _ _ fs => PageClean fs) eightBlocks
      [⟨.create [97], []⟩, ⟨.write [97] [1], []⟩] := by
  obtain ⟨sb, hsb, hsmall, hx, hc⟩ := eightBlocks_superblock
  obtain ⟨hclean, hall⟩ := page_clean_iff eightBlocks_eq hsb ⟨hx, hsmall, hc⟩
  have hrun := hall _ (makes_createWrite _) (by simp [CopyShort])
  exact ⟨hclean, hrun.2 (by simp [GivesName]) returnsLast_createWrite⟩

/-- Two files of one block each, and the first deleted and made again: it gets the block of the
second. -/
theorem remade_shares :
    fsFormat [] ((2304 : ℤ) : Double) ((288 : ℤ) : Double) FS.start =
      (⟨true, (fsFormat [] ((2304 : ℤ) : Double) ((288 : ℤ) : Double) FS.start).1.msg⟩,
        eightBlocks) ∧
    (performAll (deletedFirst ++ [⟨.create [97], []⟩, ⟨.write [97] [1], []⟩])
      eightBlocks).files.map File.blocks = [[4], [4]] ∧
    ¬ PageClean (performAll (deletedFirst ++ [⟨.create [97], []⟩, ⟨.write [97] [1], []⟩])
      eightBlocks) := by
  refine ⟨eightBlocks_eq, by decide +kernel, ?_⟩
  rintro ⟨_, -, -, hok⟩
  exact absurd hok (by decide +kernel)

end MiniFs.Properties
