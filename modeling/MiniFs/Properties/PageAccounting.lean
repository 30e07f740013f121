import MiniFs.Simulator.Tracking

/-! # The accounts of the page along a run

Counters and file list agree in every state of a disk with at most 2^53 data blocks
and as many inodes. Above 2^53 all numbers are even, and the first block or inode that is taken
from such a count is lost.
-/

set_option autoImplicit false

namespace MiniFs.Properties
open Simulator.Numbers Library Library.Exec
open Simulator (JsString Call)

structure FileInOrder (sb : Superblock) (f : File) : Prop where
  size : f.size = f.content.length
  blocks_le : f.blocks.length ≤ 16
  size_le : ∃ q, sb.blockSize.value.value = some q ∧ (f.size : ℚ) ≤ f.blocks.length * q

/-- Counters and file list agree. All counts are compared as the numbers they are. -/
structure InOrder (fs : FS) (sb : Superblock) : Prop where
  used : fs.usedDataBlocks.Is fs.heldBlocks
  blocks : ∃ d n : ℤ, sb.dataBlocks.Is d ∧ sb.freeBlocks.Is n ∧ fs.heldBlocks = d - n ∧
    0 ≤ n ∧ n ≤ d
  inodes : ∃ m n : ℤ, sb.maxInodes.Is m ∧ sb.freeInodes.Is n ∧ n + fs.files.length = m ∧
    0 ≤ n ∧ n ≤ m
  names : (fs.files.map File.name).Nodup
  files : ∀ f ∈ fs.files, FileInOrder sb f

/-- The page has a superblock, and its accounts are in order. -/
def AccountsInOrder (fs : FS) : Prop := ∃ sb, fs.superblock = some sb ∧ InOrder fs sb

variable {page : Simulator.FS} {fs fs' : FS} {sb : Superblock} {ts : JsString} {t b : ℤ} {msg : Msg}
  {x y : Double} {m n d : ℤ}

theorem inOrder_of_tracks (h : Tracks page fs sb) (hc : Counted sb) : InOrder fs sb := by
  have hacc := h.running.accounted
  have hsame := h.agrees.same
  have hin := hsame.inodes hc
  have hheld : fs.heldBlocks = page.heldBlocks := h.agrees.heldBlocks
  have hlen : fs.files.length = page.files.length := h.agrees.files.length_eq.symm
  refine ⟨?_, ⟨_, _, hsame.dataBlocks, hsame.freeBlocks, ?_, hacc.freeBlocks_nonneg,
    hacc.freeBlocks_le⟩, ⟨_, _, hin.maxInodes, hin.freeInodes, ?_, hacc.freeInodes_nonneg,
    hacc.freeInodes_le⟩, ?_, ?_⟩
  · rw [hheld, ← hacc.used]
    exact h.agrees.used
  · rw [hheld, ← hacc.used]
    exact hacc.blocks
  · rw [hlen]
    exact hacc.inodes
  · rw [h.agrees.names]
    exact hacc.names
  · refine (Paired.forall_iff h.agrees.files (Q := FileInOrder sb) fun f x hfx => ?_).mp hacc.sized
    constructor
    · rintro ⟨hsize, hle, hmul⟩
      refine ⟨hfx.size.trans (hsize.trans (congrArg _ hfx.content.symm)), hfx.length ▸ hle,
        _, hsame.blockSize, ?_⟩
      rw [hfx.size, hfx.length]
      exact_mod_cast hmul
    · rintro ⟨hsize, hle, q, hq, hmul⟩
      obtain rfl := Option.some.inj (hq.symm.trans hsame.blockSize)
      rw [hfx.size, hfx.length] at hmul
      refine ⟨hfx.size.symm.trans (hsize.trans (congrArg _ hfx.content)), hfx.length ▸ hle, ?_⟩
      exact_mod_cast hmul

/-! ## Large counts -/

/-- What follows a number above 2^53 downwards is none. -/
theorem not_is_pred (hx : x.Is m) (hm : 2 ^ 53 < m) : ¬ y.Is (m - 1) := by
  intro hy
  obtain ⟨j, hj⟩ := hx.even hm
  rcases (show 2 ^ 53 ≤ m - 1 by omega).eq_or_lt with heq | hlt
  · omega
  · obtain ⟨i, hi⟩ := hy.even hlt
    omega

theorem needed_one {bs : ℤ} (hbs : sb.blockSize.value.Is bs) (hle : 144 ≤ bs) :
    (needed sb 1).Is 1 := by
  have hneeded := needed_of_blockSize hbs hle (n := 1) (by norm_num)
  have hdiv : ((1 : ℕ) : ℚ) / bs ≤ (1 : ℤ) := by
    rw [Nat.cast_one, Int.cast_one, div_le_one (by exact_mod_cast (by omega : 0 < bs))]
    exact_mod_cast (by omega : 1 ≤ bs)
  rw [max_eq_left (Int.ceil_le.mpr hdiv)] at hneeded
  exact hneeded

theorem room_one (hone : (needed sb 1).Is 1) (hd : sb.freeBlocks.Is d) (hpos : 1 ≤ d) :
    Room sb.takeInode 0 1 := by
  constructor
  · rw [← Bool.not_eq_true]
    exact fun hlt => absurd (((Double.is_ofNat 16 (by norm_num)).lt_iff hone).mp hlt) (by norm_num)
  · rw [← Bool.not_eq_true]
    exact fun hlt => absurd (((hd.add_cast_zero).lt_iff hone).mp hlt) (not_lt.mpr hpos)

def fileA (fs : FS) : File := ⟨[97], fs.nextInode, 0, [], 0o100644, [], [], [], [], 1⟩

section Fresh
variable (hfree : sb.freeInodes.le 0 = false) (hsb : fs.superblock = some sb)
  (hfiles : fs.files = [])
include hfree hsb hfiles

theorem performAll_create : performAll [⟨.create [97], []⟩] fs = fs.push sb (fileA fs) := by
  have hnone : (fs.find [97]).isSome = false := by
    rw [FS.find, hfiles]
    rfl
  change (perform [] (.create [97]) fs).2 = _
  rw [perform, fsCreate, hsb]
  simp only [hnone, hfree]
  rfl

theorem performAll_write (hroom : Room sb.takeInode 0 1) :
    (performAll [⟨.create [97], []⟩, ⟨.write [97] [120], []⟩] fs).heldBlocks =
      rounds (needed sb 1) := by
  have hlast : performAll [⟨.create [97], []⟩, ⟨.write [97] [120], []⟩] fs =
      (fsWrite [] [97] [120] (performAll [⟨.create [97], []⟩] fs)).2 := rfl
  have hone : (fs.push sb (fileA fs)).files = [fileA fs] := congrArg (· ++ [fileA fs]) hfiles
  have hfind : (fs.push sb (fileA fs)).find [97] = some (fileA fs) := by
    rw [FS.find, hone]
    rfl
  have hroom' : Room sb.takeInode (fileA fs).blocks.length ([120] : JsString).length := hroom
  rw [hlast, performAll_create hfree hsb hfiles, fsWrite_room rfl hfind hroom']
  have hheld (f f' : File) (fs₁ : FS) (h : fs₁.files = [f]) (hf : f.name = [97]) :
      (fs₁.assign [97] f').heldBlocks = f'.blocks.length := by
    rw [FS.heldBlocks, FS.assign, FS.findIndex, h, List.findIdx_singleton, hf]
    rfl
  have hcharged : ((fs.push sb (fileA fs)).charge sb.takeInode (fileA fs).blocks.length
      ([120] : JsString).length).files = [fileA fs] := hone
  rw [hheld (fileA fs) _ _ hcharged rfl]
  exact length_takeBlocks _ _ _

/-- With more than 2^53 data blocks, the block of the file is still counted as free. -/
theorem not_inOrder_write (hone : (needed sb 1).Is 1) (hfresh : sb.freeBlocks = sb.dataBlocks)
    (hd : sb.dataBlocks.Is d) (hlarge : 2 ^ 53 < d) :
    ¬AccountsInOrder (performAll [⟨.create [97], []⟩, ⟨.write [97] [120], []⟩] fs) := by
  rintro ⟨sb₁, hsb₁, hin⟩
  obtain ⟨d', n, hd', hn, hsum, -, -⟩ := hin.blocks
  have hroom := room_one hone (hfresh ▸ hd) (by omega)
  rw [performAll_write hfree hsb hfiles hroom, rounds_is hone] at hsum
  obtain ⟨sb₂, hsb₂, hkept⟩ := (performAll_keeps hsb
    [⟨.create [97], []⟩, ⟨.write [97] [120], []⟩]).kept
  obtain rfl := Option.some.inj (hsb₁.symm.trans hsb₂)
  have hdd : d' = d := hd'.inj (hkept.dataBlocks ▸ hd)
  have hpred : n = d - 1 := by omega
  exact not_is_pred hd hlarge (hpred ▸ hn)

/-- With more than 2^53 inodes, so is the inode of the file. -/
theorem not_inOrder_create (hm : sb.maxInodes.Is m) (hlarge : 2 ^ 53 < m) :
    ¬AccountsInOrder (performAll [⟨.create [97], []⟩] fs) := by
  rintro ⟨sb₁, hsb₁, hin⟩
  rw [performAll_create hfree hsb hfiles] at hsb₁ hin
  obtain rfl := Option.some.inj hsb₁
  obtain ⟨m', n, hm', hn, hsum, -, -⟩ := hin.inodes
  have hlen : (fs.push sb (fileA fs)).files.length = 1 := by
    rw [FS.push, hfiles]
    rfl
  have hmm : m' = m := Double.Is.inj hm' hm
  rw [hlen] at hsum
  have hpred : n = m - 1 := by omega
  exact not_is_pred hm hlarge (hpred ▸ hn)

end Fresh

/-- An accepted format keeps the accounts in order whatever is called, the strings being as short
as those of JavaScript, if and only if neither the data blocks nor the inodes are more
than 2^53. -/
theorem accountsInOrder_iff (h : fsFormat ts t b fs = (⟨true, msg⟩, fs'))
    (hsb : fs'.superblock = some sb) :
    (∀ calls : List Call, Always runPage (fun fs c => Makes fs c.op) fs' calls →
      AccountsInOrder (performAll calls fs')) ↔ FewBlocks sb ∧ Counted sb := by
  obtain ⟨_, hsb', hfiles, hfreeBlocks, hfreeInodes, hmax, htracks⟩ :=
    fsFormat_tracks (n := some b) h
  obtain rfl := Option.some.inj (hsb.symm.trans hsb')
  constructor
  · intro hall
    obtain ⟨sb₀, hsb₀, hin⟩ := hall [] trivial
    obtain rfl := Option.some.inj (hsb.symm.trans hsb₀)
    obtain ⟨d, _, hd, -⟩ := hin.blocks
    obtain ⟨m, n, hm, hn, -, hn0, -⟩ := hin.inodes
    have hzero : (0 : Double).Is 0 := Double.is_ofNat 0 (by norm_num)
    have hmn : m = n := hm.inj (hfreeInodes ▸ hn)
    have hpos : n ≠ 0 := fun h0 =>
      Bool.false_ne_true (hmax.symm.trans ((hm.equal_iff hzero).mpr (hmn.trans h0)))
    have hfree : sb.freeInodes.le 0 = false := by
      rw [← Bool.not_eq_true, hn.le_iff hzero]
      omega
    have hmakes : Always runPage (fun fs c => Makes fs c.op) fs'
        [⟨.create [97], []⟩, ⟨.write [97] [120], []⟩] :=
      ⟨trivial, fun _ _ _ => ⟨by norm_num [Makes], fun _ _ _ => trivial⟩⟩
    constructor
    · rw [FewBlocks, hd.le_iff maxExact_is]
      by_contra hlarge
      obtain ⟨bs, hbs, hbs144⟩ := fsFormat_blockSize (n := some b) h hsb hd
      exact not_inOrder_write hfree hsb hfiles (needed_one hbs hbs144) hfreeBlocks hd
        (not_le.mp hlarge) (hall _ hmakes)
    · rw [Counted, hm.le_iff maxExact_is]
      by_contra hlarge
      exact not_inOrder_create hfree hsb hfiles hm (not_le.mp hlarge)
        (hall _ ⟨trivial, fun _ _ _ => trivial⟩)
  · rintro ⟨hsmall, hcounted⟩ calls hmakes
    obtain ⟨page, hpage, -⟩ := htracks hsmall
    obtain ⟨page', sb', hkept, hpage'⟩ := hpage.performAll calls hmakes
    refine ⟨sb', hpage'.agrees.superblock, inOrder_of_tracks hpage' ?_⟩
    rw [Counted, hkept.maxInodes]
    exact hcounted

/-- On a page of six blocks a file is made and written. -/
theorem accountsInOrder_iff_six : AccountsInOrder
    (performAll [⟨.create [97], []⟩, ⟨.write [97] [120], []⟩]
      (fsFormat [] (864 : ℤ) (144 : ℤ) FS.start).2) := by
  have h := accepted_eq (show (fsFormat [] (864 : ℤ) (144 : ℤ) FS.start).1.ok = true by
    decide +kernel)
  obtain ⟨hb, -, -, hfs⟩ := fsFormat_eq h
  have hsmall : FewBlocks (newSuperblock [] (864 : ℤ) ⟨(144 : ℤ), hb⟩) :=
    show (totalBlocks (864 : ℤ) (144 : ℤ) - dataStart (864 : ℤ) (144 : ℤ)).le maxExact = true by
      decide +kernel
  have hcounted : Counted (newSuperblock [] (864 : ℤ) ⟨(144 : ℤ), hb⟩) :=
    show (maxInodes (864 : ℤ) (144 : ℤ)).le maxExact = true by decide +kernel
  exact (accountsInOrder_iff h (congrArg FS.superblock hfs)).mpr ⟨hsmall, hcounted⟩ _
    ⟨trivial, fun _ _ _ => ⟨by norm_num [Makes], fun _ _ _ => trivial⟩⟩

/-- A disk of 2^61 blocks, and a file of one character on it: the block it holds is still counted
as free. -/
theorem largeDisk_miscounts : ∃ fs₁, fsFormat [] ((2 ^ 70 : ℤ) : Double) (512 : ℤ) FS.start =
      (⟨true, (fsFormat [] ((2 ^ 70 : ℤ) : Double) (512 : ℤ) FS.start).1.msg⟩, fs₁) ∧
    ((performAll [⟨.create [97], []⟩, ⟨.write [97] [120], []⟩] fs₁).files.map
      fun f => f.blocks.length) = [1] ∧
    ((performAll [⟨.create [97], []⟩, ⟨.write [97] [120], []⟩] fs₁).superblock.map
      fun sb => sb.dataBlocks - sb.freeBlocks) = some 0 ∧
    Always runPage (fun fs c => Makes fs c.op) fs₁
      [⟨.create [97], []⟩, ⟨.write [97] [120], []⟩] ∧
    ¬ AccountsInOrder (performAll [⟨.create [97], []⟩, ⟨.write [97] [120], []⟩] fs₁) := by
  refine ⟨_, accepted_eq (by decide +kernel), by decide +kernel, by decide +kernel,
    ⟨trivial, fun _ _ _ => ⟨by norm_num [Makes], fun _ _ _ => trivial⟩⟩, ?_⟩
  rintro ⟨sb, hsb, hin⟩
  obtain ⟨d, n, hd, hn, hsum, -⟩ := hin.blocks
  have hheld : (performAll [⟨.create [97], []⟩, ⟨.write [97] [120], []⟩]
      (fsFormat [] ((2 ^ 70 : ℤ) : Double) (512 : ℤ) FS.start).2).heldBlocks = 1 := by
    decide +kernel
  have hsame : (performAll [⟨.create [97], []⟩, ⟨.write [97] [120], []⟩]
      (fsFormat [] ((2 ^ 70 : ℤ) : Double) (512 : ℤ) FS.start).2).superblock.map
        Superblock.dataBlocks = (performAll [⟨.create [97], []⟩, ⟨.write [97] [120], []⟩]
      (fsFormat [] ((2 ^ 70 : ℤ) : Double) (512 : ℤ) FS.start).2).superblock.map
        Superblock.freeBlocks := by
    decide +kernel
  rw [hsb] at hsame
  have hdn : d = n := hd.inj (Option.some.inj hsame ▸ hn)
  omega

end MiniFs.Properties
