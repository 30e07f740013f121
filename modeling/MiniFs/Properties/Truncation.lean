import MiniFs.Simulator.Tracking

/-! # Truncation on the page

`fsTruncate` cuts the content with `slice` and stores what is left with `_doWrite`.
A negative size is taken from the back by the one, and an empty content keeps a
block because of the other; all sizes from 1 on behave as they should where the count
of the free blocks is exact.
-/

set_option autoImplicit false

namespace MiniFs.Properties
open Simulator.Numbers Library Library.Exec
open Simulator (JsString Call)

/-- The file `f` became `f'`, of `n` characters and the blocks these need. The blocks it lost
are free. -/
structure Cut (sb sb' : Superblock) (f f' : File) (n : ℤ) : Prop where
  name : f'.name = f.name
  content : f'.content = f.content.take n.toNat
  size : (f'.size : ℤ) = n
  blocks : ∃ q, sb.blockSize.value.value = some q ∧ (f'.blocks.length : ℤ) = ⌈n / q⌉
  free : ∃ p, sb.freeBlocks.value = some p ∧
    sb'.freeBlocks.value = some (p + (f.blocks.length - f'.blocks.length))

/-- The file found under `name` was cut, and no other file was touched. -/
def CutTo (fs : FS) (name : JsString) (f : File) (n : ℤ) (fs' : FS) : Prop :=
  ∃ f' sb sb', fs'.files = (fs.assign name f').files ∧ fs.superblock = some sb ∧
    fs'.superblock = some sb' ∧ Cut sb sb' f f' n

/-- `fsTruncate(name, n)` succeeds for the sizes up to that of the file, and then cuts it;
otherwise it changes nothing. -/
def TruncatesExactly (ts : JsString) (fs : FS) (name : JsString) (f : File) (n : ℤ) : Prop :=
  ((fsTruncate ts name n fs).1.ok = true ↔ 0 ≤ n ∧ n ≤ f.size) ∧
    ((fsTruncate ts name n fs).1.ok = true → CutTo fs name f n (fsTruncate ts name n fs).2) ∧
    ((fsTruncate ts name n fs).1.ok = false → (fsTruncate ts name n fs).2 = fs)

/-- Adding the blocks of the file to the count of the free ones and taking those for `n` characters
off it leaves the exact count. -/
def FreesExactly (sb : Superblock) (f : File) (n : ℕ) : Prop :=
  ∃ p q, sb.freeBlocks.value = some p ∧ sb.blockSize.value.value = some q ∧
    (sb.freeBlocks + f.blocks.length - needed sb n).value = some (p + (f.blocks.length - ⌈n / q⌉))

/-- The size is above that of the file; or it is positive, there is room, and the count of the free
blocks comes out exact; or it is negative, and there is no room for what would be left. -/
def Shrinks (sb : Superblock) (f : File) (n : ℤ) : Prop :=
  f.size < n ∨ (0 < n ∧ Room sb f.blocks.length n.toNat ∧ FreesExactly sb f n.toNat) ∨
    (n < 0 ∧ ¬Room sb f.blocks.length (f.size + n).toNat)

variable {page : Simulator.FS} {fs fs' : FS} {sb : Superblock} {ts name : JsString}
  {f : Simulator.File} {x y : File} {n : ℤ} {msg : Msg}

/-! ## Room for what is left -/

/-- What fits the blocks of a file can be stored in it, if it has a block or one is free. -/
theorem room_shrunk_iff (h : Simulator.Running page) (hf : f ∈ page.files) {m : ℕ}
    (hm : m ≤ f.size) : Simulator.Room page f.blocks.length m ↔
      f.blocks ≠ [] ∨ 0 < page.superblock.freeBlocks := by
  have hsized := h.accounted.sized f hf
  have hbs := h.blockSize
  have hfree := h.accounted.freeBlocks_nonneg
  have hle := hsized.blocks_le
  have hsize := hsized.size_le
  have hceil : Simulator.ceilDiv m page.superblock.blockSize ≤ f.blocks.length :=
    Simulator.ceilDiv_le (by omega) (by omega)
  rw [← List.length_pos_iff]
  constructor
  · intro hroom
    have hone := (Simulator.one_le_needed page m).trans hroom.free
    omega
  · intro hor
    constructor
    · rw [Simulator.needed]
      omega
    · rw [Simulator.needed]
      omega

/-! ## The call -/

theorem fsTruncate_state {z : Double} (hsb : fs.superblock = some sb) (hx : fs.find name = some x)
    (hok : (fsTruncate ts name z fs).1.ok = true) :
    Double.lt x.size z = false ∧ Room sb x.blocks.length (slice x.content z).length ∧
      (fsTruncate ts name z fs).2 = (fs.charge sb x.blocks.length (slice x.content z).length).assign
        name (stored ts fs sb x (slice x.content z)) := by
  rw [fsTruncate] at hok ⊢
  simp only [hsb, hx] at hok ⊢
  split_ifs at hok ⊢ with hlt
  by_cases hroom : Room sb x.blocks.length (slice x.content z).length
  · refine ⟨Bool.eq_false_of_not_eq_true hlt, hroom, ?_⟩
    rw [doWrite_room hroom]
  · obtain ⟨msg, hmsg⟩ := doWrite_refused hroom ts fs
    rw [hmsg] at hok
    exact absurd hok Bool.false_ne_true

theorem findIndex_lt (hx : fs.find name = some x) : fs.findIndex name < fs.files.length :=
  List.findIdx_lt_length_of_exists ⟨x, FS.mem_of_find hx, decide_eq_true (FS.name_of_find hx)⟩

theorem assign_files_inj (hx : fs.find name = some x) {y' : File}
    (h : (fs.assign name y).files = (fs.assign name y').files) : y = y' := by
  have hget := congrArg (fun l => l[fs.findIndex name]?) h
  simpa only [FS.assign, List.getElem?_set_self (findIndex_lt hx), Option.some.injEq] using hget

/-- The size is above that of the file. -/
theorem truncatesExactly_of_lt (htext : Text x) (hsb : fs.superblock = some sb)
    (hx : fs.find name = some x) (hlt : x.size < n) (ts : JsString) :
    TruncatesExactly ts fs name x n := by
  have hshort := htext.short
  have hsize := htext.size
  have hgrow : Double.lt x.size n = true :=
    ((Double.is_natCast (by omega)).lt_intCast_iff (Int.natCast_nonneg _) (by omega) n).mpr hlt
  have hno : (fsTruncate ts name n fs).1.ok = false := by
    rw [fsTruncate, hsb]
    simp only [hx, hgrow, if_true]
  refine ⟨iff_of_false ?_ (by omega), fun hyes => ?_, fun hno => fsTruncate_refused hno⟩
  · rw [hno]
    exact Bool.false_ne_true
  · exact absurd (hno.symm.trans hyes) Bool.false_ne_true

theorem length_sliceTo (htext : Text x) (h0 : 0 ≤ n) (hle : n ≤ x.size) :
    (Simulator.sliceTo x.content n).length = n.toNat := by
  have hsize := htext.size
  rw [Simulator.sliceTo, if_neg (by omega), List.length_take]
  omega

/-- The blocks what is left of a file gets. -/
theorem length_stored_blocks (ts : JsString) (fs : FS) {bs : ℤ} (htext : Text x)
    (hq : sb.blockSize.value.Is bs) (h144 : 144 ≤ bs) (h0 : 0 ≤ n) (hle : n ≤ x.size) :
    ((stored ts fs sb x (Simulator.sliceTo x.content n)).blocks.length : ℤ) =
      max 1 ⌈(n : ℚ) / bs⌉ := by
  have hshort := htext.short
  have hsize := htext.size
  have hneeded := needed_of_blockSize hq h144 (n := n.toNat) (by omega)
  have hcast : ((n.toNat : ℕ) : ℚ) = n := by exact_mod_cast Int.toNat_of_nonneg h0
  rw [stored, newBlocks, length_takeBlocks, length_sliceTo htext h0 hle, rounds_is hneeded,
    hcast]
  exact Int.toNat_of_nonneg (by omega)

section Shorter
variable (htext : Text x) (hsb : fs.superblock = some sb) (hx : fs.find name = some x)
  (hle : n ≤ x.size)
include htext hsb hx hle

theorem fsTruncate_intCast_ok_iff : (fsTruncate ts name n fs).1.ok = true ↔
    Room sb x.blocks.length (Simulator.sliceTo x.content n).length := by
  have hshort := htext.short
  have hsize := htext.size
  have hlt : Double.lt x.size n = false := by
    rw [← Bool.not_eq_true, (Double.is_natCast (by omega)).lt_intCast_iff (Int.natCast_nonneg _)
      (by omega) n]
    omega
  rw [fsTruncate_ok_iff hsb, ← slice_intCast hshort (by omega)]
  constructor
  · rintro ⟨f, hf, -, hroom⟩
    obtain rfl := Option.some.inj (hx.symm.trans hf)
    exact hroom
  · exact fun hroom => ⟨x, hx, hlt, hroom⟩

theorem cutTo_iff (hbs : ∀ q, sb.blockSize.value.value = some q → ∃ bs : ℤ, q = bs ∧ 144 ≤ bs)
    (hok : (fsTruncate ts name n fs).1.ok = true) :
    CutTo fs name x n (fsTruncate ts name n fs).2 ↔ 0 < n ∧ FreesExactly sb x n.toNat := by
  have hstate := (fsTruncate_state hsb hx hok).2.2
  rw [slice_intCast htext.short (htext.size ▸ hle)] at hstate
  have hpos {bs : ℤ} (h144 : 144 ≤ bs) : 1 ≤ ⌈(n : ℚ) / bs⌉ ↔ 0 < n := by
    have hbs : (0 : ℚ) < bs := by exact_mod_cast (by omega : 0 < bs)
    rw [Int.one_le_ceil_iff, div_pos_iff_of_pos_right hbs, Int.cast_pos]
  have hcast (h0 : 0 ≤ n) : ((n.toNat : ℕ) : ℚ) = n := by exact_mod_cast Int.toNat_of_nonneg h0
  rw [hstate]
  constructor
  · rintro ⟨f', _, sb', hfiles, hsb', hcharge, hcut⟩
    obtain rfl := assign_files_inj hx hfiles
    obtain rfl := Option.some.inj (hsb.symm.trans hsb')
    obtain rfl : sb.charge x.blocks.length _ = sb' := Option.some.inj hcharge
    have h0 : 0 ≤ n := hcut.size ▸ Int.natCast_nonneg _
    obtain ⟨q, hq, hceil⟩ := hcut.blocks
    obtain ⟨p, hp, hfree⟩ := hcut.free
    obtain ⟨bs, rfl, h144⟩ := hbs q hq
    have hlen := length_stored_blocks ts fs htext hq h144 h0 hle
    refine ⟨(hpos h144).mp (by omega), p, bs, hp, hq, ?_⟩
    rw [Superblock.charge, length_sliceTo htext h0 hle] at hfree
    rw [hcast h0, ← hceil]
    exact_mod_cast hfree
  · rintro ⟨hn, p, q, hp, hq, hfree⟩
    obtain ⟨bs, rfl, h144⟩ := hbs q hq
    have hlen := length_stored_blocks ts fs htext hq h144 hn.le hle
    rw [max_eq_right ((hpos h144).mpr hn)] at hlen
    rw [hcast hn.le, ← hlen] at hfree
    have hslice : Simulator.sliceTo x.content n = x.content.take n.toNat := by
      rw [Simulator.sliceTo, if_neg (by omega)]
    have hleft := length_sliceTo htext hn.le hle
    refine ⟨stored ts fs sb x (Simulator.sliceTo x.content n), sb, _, rfl, hsb, rfl, rfl, hslice,
      ?_, ⟨bs, hq, hlen⟩, p, hp, ?_⟩
    · rw [stored, hleft]
      exact Int.toNat_of_nonneg hn.le
    · rw [Superblock.charge, hleft]
      exact_mod_cast hfree

theorem truncatesExactly_of_le
    (hbs : ∀ q, sb.blockSize.value.value = some q → ∃ bs : ℤ, q = bs ∧ 144 ≤ bs) :
    TruncatesExactly ts fs name x n ↔ Shrinks sb x n := by
  have hok : (fsTruncate ts name n fs).1.ok = true ↔ _ :=
    fsTruncate_intCast_ok_iff htext hsb hx hle
  have hcut (hyes : (fsTruncate ts name n fs).1.ok = true) :
      CutTo fs name x n (fsTruncate ts name n fs).2 ↔ _ := cutTo_iff htext hsb hx hle hbs hyes
  rw [TruncatesExactly, and_iff_left fun hno => fsTruncate_refused hno, Shrinks,
    or_iff_right (not_lt.mpr hle)]
  rcases lt_or_ge n 0 with hneg | h0
  · have hleft : (Simulator.sliceTo x.content n).length = (x.size + n).toNat := by
      have hsize := htext.size
      rw [Simulator.sliceTo, if_pos hneg, List.length_take]
      omega
    rw [hleft] at hok
    rw [or_iff_right fun h => absurd h.1 (by omega), and_iff_right hneg, ← hok]
    constructor
    · exact fun h hyes => absurd (h.1.mp hyes).1 (by omega)
    · exact fun hno => ⟨iff_of_false hno (by omega), fun hyes => absurd hyes hno⟩
  · rw [length_sliceTo htext h0 hle] at hok
    rw [or_iff_left fun h => absurd h.1 (by omega), 
      iff_true_right (show 0 ≤ n ∧ n ≤ (x.size : ℤ) from ⟨h0, hle⟩)]
    constructor
    · rintro ⟨hyes, hall⟩
      obtain ⟨hn, hfree⟩ := (hcut hyes).mp (hall hyes)
      exact ⟨hn, hok.mp hyes, hfree⟩
    · rintro ⟨hn, hroom, hfree⟩
      exact ⟨hok.mpr hroom, fun hyes => (hcut hyes).mpr ⟨hn, hfree⟩⟩

end Shorter

section Tracked
variable (h : Tracks page fs sb) (hf : page.find name = some f)
  (hsame : SameFile (Addressed sb) f x)
include h hf hsame

/-- What is left of a file has room if the file has a block or one is free. -/
theorem room_shrunk_iff_of_tracks {m : ℕ} (hm : m ≤ x.size) : Room sb x.blocks.length m ↔
    x.blocks ≠ [] ∨ ¬ sb.freeBlocks.Is 0 := by
  have hrun := h.running
  have hmem := Simulator.mem_of_find hf
  have hshort := hsame.short
  have hsize := (hrun.accounted.sized f hmem).size
  have hfree := hrun.accounted.freeBlocks_nonneg
  have hxsize := hsame.size
  rw [hsame.length, Simulator.Numbers.room_iff h.agrees.same h.bounded (held_le hrun hf) (by omega),
    room_shrunk_iff hrun hmem (hxsize ▸ hm), ← List.length_pos_iff, ← List.length_pos_iff,
    hsame.length]
  refine or_congr_right ?_
  have hF := h.agrees.same.freeBlocks
  constructor
  · exact fun hpos hz => absurd (hz.inj hF) hpos.ne
  · exact fun hne => hfree.lt_of_ne fun heq => hne (heq ▸ hF)

theorem freesExactly_of_tracks {m : ℕ} (hm : m ≤ x.size) (h0 : 0 < m)
    (hroom : Room sb x.blocks.length m) : FreesExactly sb x m := by
  have hrun := h.running
  have hshort := hsame.short
  have hsize := (hrun.accounted.sized f (Simulator.mem_of_find hf)).size
  have hxsize := hsame.size
  have hbs := h.bounded.blockSize
  have hheld := held_le hrun hf
  rw [hsame.length] at hroom
  have hroom' := (Simulator.Numbers.room_iff h.agrees.same h.bounded hheld (by omega)).mp hroom
  have hfree := (charge_agrees h.agrees h.bounded hheld (by omega) hroom').same.freeBlocks
  refine ⟨_, _, h.agrees.same.freeBlocks, h.agrees.same.blockSize, ?_⟩
  rw [hsame.length]
  refine hfree.trans (congrArg some ?_)
  have hone : 1 ≤ Simulator.ceilDiv m page.superblock.blockSize := by
    rw [ceilDiv_eq (by omega), Int.one_le_ceil_iff]
    have hpos : 0 < page.superblock.blockSize := by omega
    exact div_pos (by exact_mod_cast h0) (by exact_mod_cast hpos)
  rw [Simulator.FS.charge]
  simp only
  rw [Simulator.needed, max_eq_right hone, ceilDiv_eq (by omega)]
  push_cast
  ring

/-- A disk that is followed. -/
theorem shrinks_iff : Shrinks sb x n ↔ 0 < n ∨ (n < 0 ∧ x.blocks = [] ∧ sb.freeBlocks.Is 0) := by
  have hroom {m : ℕ} (hm : m ≤ x.size) : Room sb x.blocks.length m ↔ _ :=
    room_shrunk_iff_of_tracks h hf hsame hm
  rw [Shrinks]
  rcases lt_trichotomy n 0 with hneg | rfl | hpos
  · rw [hroom (m := (x.size + n).toNat) (by omega), not_or, not_not, not_not]
    constructor
    · rintro (hlt | ⟨hpos, -⟩ | hno)
      · omega
      · omega
      · exact .inr hno
    · rintro (hpos | hno)
      · omega
      · exact .inr (.inr hno)
  · refine iff_of_false ?_ (by omega)
    rintro (hlt | ⟨hpos, -⟩ | ⟨hneg, -⟩) <;> omega
  · refine iff_of_true ?_ (.inl hpos)
    rcases lt_or_ge (x.size : ℤ) n with hlt | hle
    · exact .inl hlt
    · -- a file with characters has a block
      have hblocks : x.blocks ≠ [] := by
        intro hempty
        have hsize := (h.running.accounted.sized f (Simulator.mem_of_find hf)).size_le
        rw [← hsame.length, ← hsame.size, hempty, List.length_nil, Int.natCast_zero,
          Int.zero_mul] at hsize
        omega
      have hyes := (hroom (m := n.toNat) (by omega)).mpr (.inl hblocks)
      exact .inr (.inl ⟨hpos, hyes, freesExactly_of_tracks h hf hsame (by omega) (by omega) hyes⟩)

end Tracked

/-- After an accepted format and any calls, for every file and every integer, the truncation is
exact if and only if the condition holds. If there are at most 2^53 data blocks, that is to say
that the size is positive, or that it is negative and the file, without a block, finds no block
free. -/
theorem truncatesExactly_iff {t b : Option ℤ}
    (h : fsFormat ts (number t) (number b) fs = (⟨true, msg⟩, fs')) (calls : List Call)
    (hmakes : Always runPage (fun fs c => Makes fs c.op) fs' calls)
    (hsb : (performAll calls fs').superblock = some sb)
    (hx : (performAll calls fs').find name = some x) (now : JsString) (n : ℤ) :
    (TruncatesExactly now (performAll calls fs') name x n ↔ Shrinks sb x n) ∧
      (FewBlocks sb →
        (Shrinks sb x n ↔ 0 < n ∨ (n < 0 ∧ x.blocks = [] ∧ sb.freeBlocks.Is 0))) := by
  obtain ⟨sb₀, hsb₀, hfiles, -, -, -, htracks⟩ := fsFormat_tracks h
  obtain ⟨⟨_, hsb', hkept⟩, htexts⟩ := performAll_keeps hsb₀ calls
  obtain rfl := Option.some.inj (hsb.symm.trans hsb')
  have htext : Text x := by
    refine htexts hmakes (fun f hf => ?_) x (FS.mem_of_find hx)
    rw [hfiles] at hf
    exact absurd hf List.not_mem_nil
  constructor
  · rcases lt_or_ge (x.size : ℤ) n with hlt | hle
    · exact iff_of_true (truncatesExactly_of_lt htext hsb hx hlt now) (.inl hlt)
    · refine truncatesExactly_of_le htext hsb hx hle fun q hq => ?_
      obtain ⟨hb, -, -, rfl⟩ := fsFormat_eq h
      obtain rfl := Option.some.inj hsb₀
      rw [hkept.blockSize] at hq
      exact integral_blockSize hb hq
  · intro hsmall
    obtain ⟨page, hpage, -⟩ := htracks (by rw [FewBlocks, ← hkept.dataBlocks]; exact hsmall)
    obtain ⟨page', _, -, hpage'⟩ := hpage.performAll calls hmakes
    obtain rfl := Option.some.inj (hsb.symm.trans hpage'.agrees.superblock)
    obtain ⟨-, hnone⟩ | ⟨f, _, hf, hx', hsame⟩ := hpage'.agrees.find_cases name
    · exact nomatch hnone.symm.trans hx
    · obtain rfl := Option.some.inj (hx.symm.trans hx')
      exact shrinks_iff hpage' hf hsame

/-- A file of three characters cut to two. -/
theorem truncatesExactly_iff_three : ∃ x,
    (performAll [⟨.create [97], []⟩, ⟨.write [97] [1, 2, 3], []⟩]
      (fsFormat [] (number (some 864)) (number (some 144)) FS.start).2).find [97] = some x ∧
    TruncatesExactly [] (performAll [⟨.create [97], []⟩, ⟨.write [97] [1, 2, 3], []⟩]
      (fsFormat [] (number (some 864)) (number (some 144)) FS.start).2) [97] x 2 := by
  have h := accepted_eq (show (fsFormat [] (number (some 864)) (number (some 144))
    FS.start).1.ok = true by decide +kernel)
  obtain ⟨hb, -, -, hfs⟩ := fsFormat_eq h
  obtain ⟨⟨sb, hsb, hkept⟩, -⟩ := performAll_keeps (congrArg FS.superblock hfs)
    [⟨.create [97], []⟩, ⟨.write [97] [1, 2, 3], []⟩]
  have hsmall : FewBlocks sb := by
    rw [FewBlocks, hkept.dataBlocks]
    exact show (totalBlocks (number (some 864)) (number (some 144)) -
      dataStart (number (some 864)) (number (some 144))).le maxExact = true by decide +kernel
  obtain ⟨x, hx⟩ : ∃ x, (performAll [⟨.create [97], []⟩, ⟨.write [97] [1, 2, 3], []⟩]
      (fsFormat [] (number (some 864)) (number (some 144)) FS.start).2).find [97] = some x :=
    Option.isSome_iff_exists.mp (by decide +kernel)
  have hmakes : Always runPage (fun fs c => Makes fs c.op)
      (fsFormat [] (number (some 864)) (number (some 144)) FS.start).2
      [⟨.create [97], []⟩, ⟨.write [97] [1, 2, 3], []⟩] :=
    ⟨trivial, fun _ _ _ => ⟨by norm_num [Makes], fun _ _ _ => trivial⟩⟩
  obtain ⟨hexact, hfew⟩ := truncatesExactly_iff h _ hmakes hsb hx [] 2
  exact ⟨x, hx, hexact.mpr ((hfew hsmall).mpr (.inl (by norm_num)))⟩

/-- A file of three characters cut to none keeps a block, and cut to "-1" it keeps two
characters. -/
theorem truncate_inexact : ∃ fs₁ x,
    fsFormat [] (number (some 864)) (number (some 144)) FS.start =
      (⟨true, (fsFormat [] (number (some 864)) (number (some 144)) FS.start).1.msg⟩, fs₁) ∧
    (performAll [⟨.create [97], []⟩, ⟨.write [97] [1, 2, 3], []⟩] fs₁).find [97] = some x ∧
    x.content = [1, 2, 3] ∧
    ((fsTruncate [] [97] (0 : ℤ) (performAll [⟨.create [97], []⟩, ⟨.write [97] [1, 2, 3], []⟩]
      fs₁)).2.files.map fun f => f.blocks.length) = [1] ∧
    ((fsTruncate [] [97] (-1 : ℤ) (performAll [⟨.create [97], []⟩, ⟨.write [97] [1, 2, 3], []⟩]
      fs₁)).2.files.map File.content) = [[1, 2]] ∧
    ¬ TruncatesExactly [] (performAll [⟨.create [97], []⟩, ⟨.write [97] [1, 2, 3], []⟩] fs₁)
      [97] x 0 ∧
    ¬ TruncatesExactly [] (performAll [⟨.create [97], []⟩, ⟨.write [97] [1, 2, 3], []⟩] fs₁)
      [97] x (-1) := by
  obtain ⟨x, hx⟩ : ∃ x, (performAll [⟨.create [97], []⟩, ⟨.write [97] [1, 2, 3], []⟩]
      (fsFormat [] (number (some 864)) (number (some 144)) FS.start).2).find [97] = some x :=
    Option.isSome_iff_exists.mp (by decide +kernel)
  have hcontent : x.content = [1, 2, 3] := by
    have hmap : ((performAll [⟨.create [97], []⟩, ⟨.write [97] [1, 2, 3], []⟩]
        (fsFormat [] (number (some 864)) (number (some 144)) FS.start).2).find [97]).map
          File.content = some [1, 2, 3] := by decide +kernel
    rw [hx] at hmap
    exact Option.some.inj hmap
  have hblocks : ((fsTruncate [] [97] (0 : ℤ)
      (performAll [⟨.create [97], []⟩, ⟨.write [97] [1, 2, 3], []⟩]
        (fsFormat [] (number (some 864)) (number (some 144)) FS.start).2)).2.files.map
          fun f => f.blocks.length) = [1] := by decide +kernel
  refine ⟨_, x, accepted_eq (by decide +kernel), hx, hcontent, hblocks, by decide +kernel, ?_, ?_⟩
  · rintro ⟨hsucc, hcut, -⟩
    obtain ⟨f', _, _, hfiles, -, -, hcut⟩ := hcut (by decide +kernel)
    obtain ⟨q, -, hceil⟩ := hcut.blocks
    -- the file is the only one, and it has a block
    have hmem : f' ∈ ((performAll [⟨.create [97], []⟩, ⟨.write [97] [1, 2, 3], []⟩]
        (fsFormat [] (number (some 864)) (number (some 144)) FS.start).2).assign [97] f').files :=
      List.mem_set (findIndex_lt hx) f'
    rw [← hfiles] at hmem
    have hone := List.mem_map_of_mem (f := fun f : File => f.blocks.length) hmem
    rw [hblocks, List.mem_singleton] at hone
    rw [hone, Int.cast_zero, zero_div, Int.ceil_zero] at hceil
    omega
  · rintro ⟨hsucc, -⟩
    exact absurd (hsucc.mp (by decide +kernel)).1 (by decide)

end MiniFs.Properties
