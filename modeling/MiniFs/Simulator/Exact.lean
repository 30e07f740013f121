import MiniFs.Library.Paired
import MiniFs.Simulator.BlockGrid
import MiniFs.Simulator.Numbers

/-! # Where the numbers of the page are exact

As long as the counts of a disk are at most 2^53, the page does what `App` says of it
with integers. Inode counts and block numbers are compared only where their own totals
are that small; counters of reads and writes, inode numbers and modes are not
compared.
-/

set_option autoImplicit false

namespace MiniFs.Simulator.Numbers
open Library List

/-! ## The same state -/

/-- A file of `App` and one of the page: the same name and content, and, if block numbers
are `exact`, the same of these. -/
structure SameFile (exact : Prop) (f : Simulator.File) (x : File) : Prop where
  name : x.name = f.name
  size : x.size = f.size
  content : x.content = f.content
  short : f.content.length < 2 ^ 53
  length : x.blocks.length = f.blocks.length
  blocks : exact → Forall₂ Double.Is x.blocks f.blocks

def maxExact : Double := 9007199254740992

/-- The numbers of all blocks are exact. -/
def Addressed (sb : Superblock) : Prop := sb.totalBlocks.lt maxExact = true

def Counted (sb : Superblock) : Prop := sb.maxInodes.le maxExact = true

theorem le_of_le_maxExact {x : Double} {n : ℤ} (hx : x.Is n) (h : x.le maxExact = true) :
    n ≤ 2 ^ 53 :=
  (hx.le_iff (Double.is_round (by norm_num) : maxExact.Is (2 ^ 53))).mp h

theorem lt_of_lt_maxExact {x : Double} {n : ℤ} (hx : x.Is n) (h : x.lt maxExact = true) :
    n < 2 ^ 53 :=
  (hx.lt_iff (Double.is_round (by norm_num) : maxExact.Is (2 ^ 53))).mp h

structure SameInodes (s : Simulator.Superblock) (sb : Superblock) : Prop where
  maxInodes : sb.maxInodes.Is s.maxInodes
  freeInodes : sb.freeInodes.Is s.freeInodes

structure SamePlaces (s : Simulator.Superblock) (sb : Superblock) : Prop where
  totalBlocks : sb.totalBlocks.Is s.totalBlocks
  bitmapStart : sb.bitmapStart.Is s.bitmapStart
  bitmapBlocks : sb.bitmapBlocks.Is s.bitmapBlocks
  inodeStart : sb.inodeStart.Is s.inodeStart
  inodeBlocks : sb.inodeBlocks.Is s.inodeBlocks
  dataStart : sb.dataStart.Is s.dataStart

structure SameSuperblock (s : Simulator.Superblock) (sb : Superblock) : Prop where
  magic : sb.magic.Is s.magic
  blockSize : sb.blockSize.value.Is s.blockSize
  dataBlocks : sb.dataBlocks.Is s.dataBlocks
  freeBlocks : sb.freeBlocks.Is s.freeBlocks
  inodes : Counted sb → SameInodes s sb
  places : Addressed sb → SamePlaces s sb

/-- A state of `App` and one of the page. -/
structure Agrees (page : Simulator.FS) (fs : FS) (sb : Superblock) : Prop where
  formatted : page.formatted = true
  superblock : fs.superblock = some sb
  same : SameSuperblock page.superblock sb
  used : fs.usedDataBlocks.Is page.usedDataBlocks
  files : Forall₂ (SameFile (Addressed sb)) page.files fs.files

/-- The sums that keep the numbers of a page exact. -/
structure Bounded (page : Simulator.FS) : Prop where
  blockSize : 144 ≤ page.superblock.blockSize
  sum : page.usedDataBlocks + page.superblock.freeBlocks = page.superblock.dataBlocks
  used_nonneg : 0 ≤ page.usedDataBlocks
  free_nonneg : 0 ≤ page.superblock.freeBlocks
  data_le : page.superblock.dataBlocks ≤ 2 ^ 53
  layout : page.superblock.dataStart + page.superblock.dataBlocks = page.superblock.totalBlocks
  start_nonneg : 0 ≤ page.superblock.dataStart

variable {page : Simulator.FS} {fs : FS} {sb : Superblock} {f : Simulator.File} {x : File}
  {ts name : JsString} {exact : Prop}

/-! ## Finding files -/

theorem SameFile.hasName (h : SameFile exact f x) (name : JsString) :
    decide (f.name = name) = decide (x.name = name) := by
  rw [h.name]

theorem FS.mem_of_find (h : fs.find name = some x) : x ∈ fs.files := List.mem_of_find?_eq_some h

theorem FS.name_of_find (h : fs.find name = some x) : x.name = name := by
  rw [FS.find] at h
  simpa using List.find?_some h

theorem Agrees.find (h : Agrees page fs sb) (name : JsString) :
    Option.Rel (SameFile (Addressed sb)) (page.find name) (fs.find name) :=
  Paired.find? h.files fun _ _ hsame => hsame.hasName name

theorem Agrees.findIndex (h : Agrees page fs sb) (name : JsString) :
    page.findIndex name = fs.findIndex name :=
  Paired.findIdx h.files fun _ _ hsame => hsame.hasName name

theorem Agrees.find_cases (h : Agrees page fs sb) (name : JsString) :
    (page.find name = none ∧ fs.find name = none) ∨
      ∃ f x, page.find name = some f ∧ fs.find name = some x ∧ SameFile (Addressed sb) f x := by
  have hrel := h.find name
  generalize page.find name = f at hrel
  generalize fs.find name = x at hrel
  cases hrel with
  | none => exact .inl ⟨rfl, rfl⟩
  | some hsame => exact .inr ⟨_, _, rfl, rfl, hsame⟩

theorem Agrees.isSome_find (h : Agrees page fs sb) (name : JsString) :
    (fs.find name).isSome = (page.find name).isSome := by
  have hrel := h.find name
  generalize page.find name = f at hrel
  generalize fs.find name = x at hrel
  cases hrel with
  | none => rfl
  | some _ => rfl

theorem Agrees.assign (h : Agrees page fs sb) (hsame : SameFile (Addressed sb) f x)
    (name : JsString) : Agrees (page.assign name f) (fs.assign name x) sb := by
  refine ⟨h.formatted, h.superblock, h.same, h.used, ?_⟩
  rw [Simulator.FS.assign, FS.assign, h.findIndex name]
  exact Paired.set h.files hsame _

theorem Agrees.names (h : Agrees page fs sb) :
    fs.files.map File.name = page.files.map Simulator.File.name :=
  Paired.map_eq h.files fun _ _ hsame => hsame.name

def FS.heldBlocks (fs : FS) : ℕ := (fs.files.map fun f => f.blocks.length).sum

theorem Agrees.heldBlocks (h : Agrees page fs sb) : fs.heldBlocks = page.heldBlocks :=
  congrArg List.sum (Paired.map_eq h.files fun _ _ hsame => hsame.length)

/-! ## Sums -/

theorem ceilDiv_eq {a b : ℤ} (hb : 0 < b) : ceilDiv a b = ⌈(a : ℚ) / b⌉ := by
  obtain ⟨n, rfl⟩ := Int.eq_ofNat_of_zero_le hb.le
  have hfloor : ⌊((-a : ℤ) : ℚ) / (n : ℤ)⌋ = -a / n := by
    rw [Int.cast_natCast]
    exact Rat.floor_intCast_div_natCast _ _
  rw [ceilDiv, ← hfloor, Int.cast_neg, neg_div, Int.floor_neg, neg_neg]

theorem needed_of_blockSize {bs : ℤ} (h : sb.blockSize.value.Is bs) (hbs : 144 ≤ bs) {n : ℕ}
    (hn : n < 2 ^ 53) : (needed sb n).Is (max 1 ⌈(n : ℚ) / bs⌉) := by
  have hone : (1 : Double).Is 1 := Double.is_ofNat 1 (by norm_num)
  have hlen : (n : Double).Is n := Double.is_natCast hn.le
  have hlt : (n : ℤ) < 2 ^ 53 := by exact_mod_cast hn
  exact hone.max (hlen.ceil_div h (Int.natCast_nonneg n) hlt (by omega))

theorem needed_is (h : sb.blockSize.value.Is page.superblock.blockSize)
    (hbs : 144 ≤ page.superblock.blockSize) {n : ℕ} (hn : n < 2 ^ 53) :
    (needed sb n).Is (Simulator.needed page n) := by
  rw [Simulator.needed, ceilDiv_eq (by omega)]
  exact needed_of_blockSize h hbs hn

theorem rounds_is {x : Double} {n : ℤ} (h : x.Is n) : rounds x = n.toNat := by
  rw [rounds, h]
  simp

theorem length_takeBlocks (d : Double) (k : ℕ) (used : Double) :
    (takeBlocks d k used).1.length = k := by
  induction k generalizing used with
  | zero => rfl
  | succ k ih => rw [takeBlocks, List.length_cons, ih]

/-- The loop of `_doWrite` where its sums are exact. -/
theorem takeBlocks_is {d used : Double} {u : ℤ} {k : ℕ} (hu : used.Is u) (h0 : 0 ≤ u)
    (hle : u + k ≤ 2 ^ 53) : (takeBlocks d k used).2.Is (u + k) ∧
      ∀ s : ℤ, d.Is s → 0 ≤ s → s + u + k ≤ 2 ^ 53 →
        Forall₂ Double.Is (takeBlocks d k used).1
          ((List.range k).map fun (i : ℕ) => s + (u + i)) := by
  induction k generalizing used u with
  | zero =>
    refine ⟨?_, fun _ _ _ _ => .nil⟩
    rw [Int.natCast_zero, Int.add_zero]
    exact hu
  | succ k ih =>
    have hone : (1 : Double).Is 1 := Double.is_ofNat 1 (by norm_num)
    have hnext : (used + 1).Is (u + 1) := hu.add hone (by rw [abs_of_nonneg] <;> omega)
    obtain ⟨hused, hblocks⟩ := ih hnext (by omega) (by omega)
    refine ⟨?_, fun s hs hs0 hsle => ?_⟩
    · rw [takeBlocks]
      have hsum : u + 1 + k = u + (k + 1 : ℕ) := by omega
      exact hsum ▸ hused
    · have hlist : ((List.range (k + 1)).map fun (i : ℕ) => s + (u + i)) =
          (s + u) :: (List.range k).map fun (i : ℕ) => s + (u + 1 + i) := by
        rw [List.range_succ_eq_map, List.map_cons, List.map_map, Int.natCast_zero, Int.add_zero]
        refine congrArg _ (List.map_congr_left fun i _ => ?_)
        simp only [Function.comp_apply]
        omega
      rw [takeBlocks, hlist]
      refine .cons (hs.add hu ?_) (hblocks s hs hs0 (by omega))
      rw [abs_of_nonneg] <;> omega

/-! ## Writing -/

/-- `_doWrite` finds room for `n` characters in place of `held` blocks. -/
def Room (sb : Superblock) (held n : ℕ) : Prop :=
  Double.lt 16 (needed sb n) = false ∧ (sb.freeBlocks + held).lt (needed sb n) = false

theorem room_iff (h : SameSuperblock page.superblock sb) (hb : Bounded page) {held n : ℕ}
    (hheld : (held : ℤ) ≤ page.usedDataBlocks) (hn : n < 2 ^ 53) :
    Room sb held n ↔ Simulator.Room page held n := by
  have hneeded := needed_is h.blockSize hb.blockSize hn
  have hsum := hb.sum
  have hfree := hb.free_nonneg
  have hdata := hb.data_le
  have hheldIs : (held : Double).Is held := Double.is_natCast (by omega)
  have hroom : (sb.freeBlocks + held).Is (page.superblock.freeBlocks + held) :=
    h.freeBlocks.add hheldIs (by rw [abs_of_nonneg] <;> omega)
  rw [Room, ← Bool.not_eq_true, ← Bool.not_eq_true, (Double.is_ofNat 16 (by norm_num)).lt_iff hneeded,
    hroom.lt_iff hneeded, not_lt, not_lt]
  exact ⟨fun hr => ⟨hr.1, hr.2⟩, fun hr => ⟨hr.le, hr.free⟩⟩

/-- The block numbers `_doWrite` takes for `n` characters in place of `held` blocks, and the count
of used blocks after it. -/
def newBlocks (fs : FS) (sb : Superblock) (held n : ℕ) : List Double × Double :=
  takeBlocks sb.dataStart (rounds (needed sb n)) (fs.usedDataBlocks - held)

def stored (ts : JsString) (fs : FS) (sb : Superblock) (x : File) (content : JsString) : File :=
  { x with
    content := content
    size := content.length
    blocks := (newBlocks fs sb x.blocks.length content.length).1
    mtime := ts }

def Superblock.charge (sb : Superblock) (held n : ℕ) : Superblock :=
  { sb with
    freeBlocks := sb.freeBlocks + held - needed sb n
    totalWrites := sb.totalWrites + 1
    bytesWritten := sb.bytesWritten + n }

def FS.charge (fs : FS) (sb : Superblock) (held n : ℕ) : FS :=
  { fs with
    usedDataBlocks := (newBlocks fs sb held n).2
    superblock := some (sb.charge held n) }

theorem doWrite_room {content : JsString} (h : Room sb x.blocks.length content.length) (ts : JsString)
    (fs : FS) : doWrite ts fs sb x content =
      .ok (stored ts fs sb x content, fs.charge sb x.blocks.length content.length) := by
  rw [doWrite]
  simp only
  rw [h.1, h.2, if_neg Bool.false_ne_true, if_neg Bool.false_ne_true]
  rfl

theorem fsWrite_room {content : JsString} (hsb : fs.superblock = some sb)
    (hx : fs.find name = some x) (hroom : Room sb x.blocks.length content.length) :
    (fsWrite ts name content fs).2 = (fs.charge sb x.blocks.length content.length).assign name
      (stored ts fs sb x content) := by
  rw [fsWrite, hsb]
  simp only [hx, doWrite_room hroom]

theorem doWrite_refused {content : JsString} (h : ¬Room sb x.blocks.length content.length)
    (ts : JsString) (fs : FS) : ∃ msg, doWrite ts fs sb x content = .error msg := by
  rw [doWrite]
  simp only
  split_ifs with hlarge hfull
  · exact ⟨_, rfl⟩
  · exact ⟨_, rfl⟩
  · exact absurd ⟨Bool.eq_false_of_not_eq_true hlarge, Bool.eq_false_of_not_eq_true hfull⟩ h

section Room
variable {held n : ℕ} (h : Agrees page fs sb) (hb : Bounded page)
  (hheld : (held : ℤ) ≤ page.usedDataBlocks) (hn : n < 2 ^ 53) (hroom : Simulator.Room page held n)
include h hb hheld hn hroom

theorem newBlocks_is : (newBlocks fs sb held n).2.Is
      (page.usedDataBlocks - held + Simulator.needed page n) ∧
    (newBlocks fs sb held n).1.length = (Simulator.newBlocks page held n).length ∧
    (Addressed sb →
      Forall₂ Double.Is (newBlocks fs sb held n).1 (Simulator.newBlocks page held n)) := by
  have hfree := hroom.free
  have hone := one_le_needed page n
  have hsum := hb.sum
  have hnonneg := hb.free_nonneg
  have hdata := hb.data_le
  have hheldIs : (held : Double).Is held := Double.is_natCast (by omega)
  have hused : (fs.usedDataBlocks - held).Is (page.usedDataBlocks - held) :=
    h.used.sub hheldIs (by rw [abs_of_nonneg] <;> omega)
  have hcount : ((Simulator.needed page n).toNat : ℤ) = Simulator.needed page n :=
    Int.toNat_of_nonneg (by omega)
  obtain ⟨hafter, hblocks⟩ := takeBlocks_is (d := sb.dataStart)
    (k := (Simulator.needed page n).toNat) hused (by omega) (by omega)
  rw [newBlocks, rounds_is (needed_is h.same.blockSize hb.blockSize hn)]
  refine ⟨hcount ▸ hafter, ?_, fun hexact => ?_⟩
  · rw [length_takeBlocks, Simulator.newBlocks, List.length_map, List.length_range]
  · have hplaces := h.same.places hexact
    have hlay := hb.layout
    have htotal := lt_of_lt_maxExact hplaces.totalBlocks hexact
    exact hblocks _ hplaces.dataStart hb.start_nonneg (by omega)

theorem charge_agrees : Agrees (page.charge held n) (fs.charge sb held n) (sb.charge held n) := by
  have hfree := hroom.free
  have hone := one_le_needed page n
  have hsum := hb.sum
  have hnonneg := hb.free_nonneg
  have hdata := hb.data_le
  have hheldIs : (held : Double).Is held := Double.is_natCast (by omega)
  have hback : (sb.freeBlocks + held).Is (page.superblock.freeBlocks + held) :=
    h.same.freeBlocks.add hheldIs (by rw [abs_of_nonneg] <;> omega)
  have hleft : (sb.freeBlocks + held - needed sb n).Is
      (page.superblock.freeBlocks + held - Simulator.needed page n) :=
    hback.sub (needed_is h.same.blockSize hb.blockSize hn) (by rw [abs_of_nonneg] <;> omega)
  have hsame : SameSuperblock (page.charge held n).superblock (sb.charge held n) :=
    ⟨h.same.magic, h.same.blockSize, h.same.dataBlocks, hleft,
      fun hc => ⟨(h.same.inodes hc).maxInodes, (h.same.inodes hc).freeInodes⟩,
      fun hx => { h.same.places hx with }⟩
  exact ⟨h.formatted, rfl, hsame, (newBlocks_is h hb hheld hn hroom).1, h.files⟩

end Room

/-- The file that is written is the same on both. -/
theorem stored_same (h : Agrees page fs sb) (hb : Bounded page) (hsame : SameFile (Addressed sb) f x)
    (hheld : (f.blocks.length : ℤ) ≤ page.usedDataBlocks) {content : JsString}
    (hn : content.length < 2 ^ 53) (hroom : Simulator.Room page f.blocks.length content.length)
    (ts : JsString) : SameFile (Addressed sb) (Simulator.stored ts page f content)
      (stored ts fs sb x content) := by
  obtain ⟨-, hlen, hblocks⟩ := newBlocks_is h hb hheld hn hroom
  rw [← hsame.length] at hlen hblocks
  rw [stored, Simulator.stored, ← hsame.length]
  exact ⟨hsame.name, rfl, rfl, hn, hlen, hblocks⟩

/-! ## Files added and removed -/

def Superblock.takeInode (sb : Superblock) : Superblock :=
  { sb with freeInodes := sb.freeInodes - 1 }

def FS.push (fs : FS) (sb : Superblock) (x : File) : FS :=
  { fs with
    nextInode := fs.nextInode + 1
    files := fs.files ++ [x]
    superblock := some sb.takeInode }

theorem push_agrees (h : Agrees page fs sb) (hrun : Running page) (hsame : SameFile (Addressed sb) f x)
    (hfree : 0 < page.superblock.freeInodes) :
    Agrees (page.push f) (fs.push sb x) sb.takeInode := by
  refine ⟨h.formatted, rfl, ⟨h.same.magic, h.same.blockSize, h.same.dataBlocks, h.same.freeBlocks,
    fun hc => ⟨(h.same.inodes hc).maxInodes, ?_⟩, fun hx => { h.same.places hx with }⟩, h.used,
    Paired.append_singleton h.files hsame⟩
  have hin := h.same.inodes hc
  have hmax := le_of_le_maxExact hin.maxInodes hc
  have hle := hrun.accounted.freeInodes_le
  exact hin.freeInodes.sub (Double.is_ofNat 1 (by norm_num)) (by rw [abs_of_nonneg] <;> omega)

theorem inodes_give (hrun : Running page) (hc : Counted sb)
    (hin : SameInodes page.superblock sb)
    (hlt : page.superblock.freeInodes < page.superblock.maxInodes) :
    (sb.freeInodes + 1).Is (page.superblock.freeInodes + 1) := by
  have hmax := le_of_le_maxExact hin.maxInodes hc
  have hnonneg := hrun.accounted.freeInodes_nonneg
  exact hin.freeInodes.add (Double.is_ofNat 1 (by norm_num)) (by rw [abs_of_nonneg] <;> omega)

def FS.remove (fs : FS) (sb : Superblock) (name : JsString) (x : File) : FS :=
  { fs with
    usedDataBlocks := fs.usedDataBlocks - x.blocks.length
    superblock := some { sb with
      freeBlocks := sb.freeBlocks + x.blocks.length
      freeInodes := sb.freeInodes + 1 }
    files := fs.files.eraseIdx (fs.findIndex name) }

theorem held_le (hrun : Running page) (hf : page.find name = some f) :
    (f.blocks.length : ℤ) ≤ page.usedDataBlocks := by
  obtain ⟨before, after, hs⟩ := exists_split hf
  have hheld := heldBlocks_split hs
  rw [hrun.accounted.used]
  omega

theorem remove_agrees (h : Agrees page fs sb) (hb : Bounded page) (hrun : Running page)
    (hsame : SameFile (Addressed sb) f x) (hf : page.find name = some f) :
    ∃ sb', Agrees (page.remove name f) (fs.remove sb name x) sb' := by
  have hheld := held_le hrun hf
  have hsum := hb.sum
  have hdata := hb.data_le
  have hused := hb.used_nonneg
  have hfree := hb.free_nonneg
  have hlen : (x.blocks.length : Double).Is f.blocks.length := by
    rw [hsame.length]
    exact Double.is_natCast (by omega)
  have hin := hrun.accounted.inodes
  have hpos : 0 < page.files.length := List.length_pos_of_mem (mem_of_find hf)
  refine ⟨_, h.formatted, rfl, ⟨h.same.magic, h.same.blockSize, h.same.dataBlocks, ?_,
    fun hc => ⟨(h.same.inodes hc).maxInodes, ?_⟩, fun hx => { h.same.places hx with }⟩, ?_, ?_⟩
  · exact h.same.freeBlocks.add hlen (by rw [abs_of_nonneg] <;> omega)
  · exact inodes_give hrun hc (h.same.inodes hc) (by omega)
  · exact h.used.sub hlen (by rw [abs_of_nonneg] <;> omega)
  · rw [FS.remove, Simulator.FS.remove, h.findIndex name]
    exact Paired.eraseIdx h.files _

/-! ## The calls -/

/-- Accepted or refused alike, in states that agree. -/
def Matches (p : Simulator.Reply × Simulator.FS) (q : Reply × FS) : Prop :=
  q.1.ok = p.1.ok ∧ ∃ sb', Agrees p.2 q.2 sb'

def SameSign (page : Simulator.FS) (sb : Superblock) : Prop :=
  sb.freeInodes.le 0 = true ↔ page.superblock.freeInodes ≤ 0

section Calls
variable (h : Agrees page fs sb) (hb : Bounded page) (hrun : Running page)

include h in
theorem matches_refused {m : Simulator.Msg} {m' : Msg} :
    Matches (⟨false, m⟩, page) (⟨false, m'⟩, fs) :=
  ⟨rfl, sb, h⟩

include h hrun in
theorem fsCreate_matches (hsign : SameSign page sb) (ts name : JsString) :
    Matches (Simulator.fsCreate ts name page) (fsCreate ts name fs) := by
  rw [Simulator.fsCreate, if_neg (guard_formatted h.formatted), fsCreate, h.superblock]
  simp only [h.isSome_find, hsign.eq]
  split_ifs with hlen hex hfree
  · exact matches_refused h
  · exact matches_refused h
  · exact matches_refused h
  · exact ⟨rfl, _, push_agrees h hrun ⟨rfl, rfl, rfl, by norm_num, rfl, fun _ => .nil⟩
      (not_le.mp hfree)⟩

include h hb hrun in
theorem fsDelete_matches (name : JsString) :
    Matches (Simulator.fsDelete name page) (fsDelete name fs) := by
  rw [Simulator.fsDelete, if_neg (guard_formatted h.formatted), fsDelete, h.superblock]
  obtain ⟨hf, hx⟩ | ⟨f, x, hf, hx, hsame⟩ := h.find_cases name
  · rw [hf, hx]
    exact matches_refused h
  · rw [hf, hx]
    exact ⟨rfl, remove_agrees h hb hrun hsame hf⟩

/-- What the three calls make of the answer of `_doWrite`. -/
def afterWrite (fs : FS) (name : JsString) (done : Msg) : Except Msg (File × FS) → Reply × FS
  | .error msg => (⟨false, msg⟩, fs)
  | .ok (file, fs) => (⟨true, done⟩, fs.assign name file)

include h hb hrun in
theorem rewrite_matches (hf : page.find name = some f) (hsame : SameFile (Addressed sb) f x)
    {content : JsString} (hn : content.length < 2 ^ 53) (done : Simulator.Msg) (done' : Msg) :
    Matches (Simulator.afterWrite page name done (Simulator.doWrite ts page f content))
      (afterWrite fs name done' (doWrite ts fs sb x content)) := by
  have hheld := held_le hrun hf
  have hiff := room_iff h.same hb hheld hn
  by_cases hroom : Simulator.Room page f.blocks.length content.length
  · have hroom' : Room sb x.blocks.length content.length := hsame.length ▸ hiff.mpr hroom
    rw [Simulator.doWrite_room hroom, doWrite_room hroom', hsame.length]
    exact ⟨rfl, _, (charge_agrees h hb hheld hn hroom).assign
      (stored_same h hb hsame hheld hn hroom ts) name⟩
  · have hroom' : ¬Room sb x.blocks.length content.length :=
      hsame.length ▸ fun hr => hroom (hiff.mp hr)
    obtain ⟨m, hm⟩ := Simulator.doWrite_refused ts hroom
    obtain ⟨m', hm'⟩ := doWrite_refused hroom' ts fs
    rw [hm, hm']
    exact matches_refused h

include h hb hrun in
theorem fsWrite_matches {content : JsString} (hn : content.length < 2 ^ 53) (ts name : JsString) :
    Matches (Simulator.fsWrite ts name content page) (fsWrite ts name content fs) := by
  rw [Simulator.fsWrite, if_neg (guard_formatted h.formatted), fsWrite, h.superblock]
  obtain ⟨hf, hx⟩ | ⟨f, x, hf, hx, hsame⟩ := h.find_cases name
  · rw [hf, hx]
    exact matches_refused h
  · rw [hf, hx]
    exact rewrite_matches h hb hrun hf hsame hn _ (.wrote content.length name)

include h hb hrun in
theorem fsAppend_matches {data : JsString}
    (hn : ∀ x, fs.find name = some x → (x.content ++ data).length < 2 ^ 53) (ts : JsString) :
    Matches (Simulator.fsAppend ts name data page) (fsAppend ts name data fs) := by
  rw [Simulator.fsAppend, if_neg (guard_formatted h.formatted), fsAppend, h.superblock]
  obtain ⟨hf, hx⟩ | ⟨f, x, hf, hx, hsame⟩ := h.find_cases name
  · rw [hf, hx]
    exact matches_refused h
  · have hlen := hn x hx
    rw [hf, hx]
    simp only [hsame.content] at hlen ⊢
    exact rewrite_matches h hb hrun hf hsame hlen _
      (.appended data.length name (f.content ++ data).length)

def Superblock.countRead (sb : Superblock) (n : ℕ) : Superblock :=
  { sb with totalReads := sb.totalReads + 1, bytesRead := sb.bytesRead + n }

include h in
theorem fsRead_matches (ts name : JsString) :
    Matches (Simulator.fsRead ts name page) (fsRead ts name fs) := by
  rw [Simulator.fsRead, if_neg (guard_formatted h.formatted), fsRead, h.superblock]
  obtain ⟨hf, hx⟩ | ⟨f, x, hf, hx, hsame⟩ := h.find_cases name
  · rw [hf, hx]
    exact matches_refused h
  · rw [hf, hx]
    have hread : SameFile (Addressed sb) { f with atime := ts } { x with atime := ts } :=
      ⟨hsame.name, hsame.size, hsame.content, hsame.short, hsame.length, hsame.blocks⟩
    have hcounted : Agrees ((page.countRead f.size).assign name { f with atime := ts })
        { fs.assign name { x with atime := ts } with superblock := some (sb.countRead x.size) }
        (sb.countRead x.size) :=
      ⟨h.formatted, rfl, ⟨h.same.magic, h.same.blockSize, h.same.dataBlocks, h.same.freeBlocks,
        fun hc => { h.same.inodes hc with }, fun hx => { h.same.places hx with }⟩, h.used,
        (h.assign hread name).files⟩
    by_cases hzero : f.size = 0
    · simp only [if_pos hzero, if_pos (hsame.size.trans hzero)]
      exact ⟨rfl, _, hcounted⟩
    · simp only [if_neg hzero, if_neg (hsame.size.symm ▸ hzero)]
      exact ⟨rfl, _, hcounted⟩

include h in
theorem fsRename_matches (ts name newName : JsString) :
    Matches (Simulator.fsRename ts name newName page) (fsRename ts name newName fs) := by
  rw [Simulator.fsRename, if_neg (guard_formatted h.formatted), fsRename, h.superblock]
  obtain ⟨hf, hx⟩ | ⟨f, x, hf, hx, hsame⟩ := h.find_cases name
  · rw [hf, hx]
    exact matches_refused h
  · rw [hf, hx]
    simp only [Option.isNone_some, Bool.false_eq_true, if_false, h.isSome_find]
    split_ifs
    · exact matches_refused h
    · exact matches_refused h
    · have hnew : SameFile (Addressed sb) { f with name := newName, mtime := ts }
          { x with name := newName, mtime := ts } :=
        ⟨rfl, hsame.size, hsame.content, hsame.short, hsame.length, hsame.blocks⟩
      exact ⟨rfl, sb, h.assign hnew name⟩

include h in
theorem fsChmod_matches (ts name : JsString) (modeOctal : ℤ) (mode : Double) :
    Matches (Simulator.fsChmod ts name modeOctal page) (fsChmod ts name mode fs) := by
  rw [Simulator.fsChmod, if_neg (guard_formatted h.formatted), fsChmod, h.superblock]
  obtain ⟨hf, hx⟩ | ⟨f, x, hf, hx, hsame⟩ := h.find_cases name
  · rw [hf, hx]
    exact matches_refused h
  · rw [hf, hx]
    have hnew (m m' : ℕ) : SameFile (Addressed sb) { f with mode := m, mtime := ts }
        { x with mode := m', mtime := ts } :=
      ⟨hsame.name, hsame.size, hsame.content, hsame.short, hsame.length, hsame.blocks⟩
    exact ⟨rfl, sb, h.assign (hnew _ _) name⟩

end Calls

theorem truncated_intCast (n : ℤ) : truncated n = n := by
  rw [truncated, Int.floor_intCast, Int.ceil_intCast, ite_self]

/-- What is left of a text does not depend on the rounding of the number. -/
theorem slice_intCast {content : JsString} (hshort : content.length < 2 ^ 53) {n : ℤ}
    (hle : n ≤ content.length) : slice content n = sliceTo content n := by
  have hslice {y : Double} {k : ℤ} (hy : y.Is k) : slice content y = sliceTo content k := by
    obtain ⟨_, rfl⟩ := Double.value_eq_some_iff.mp hy
    rw [slice, truncated_intCast]
  by_cases hexact : |n| ≤ 2 ^ 53
  · exact hslice (Double.is_round hexact)
  -- the number is negative, and too large to leave anything
  have hneg : n < -2 ^ 53 := by
    rcases abs_cases n with habs | habs <;> omega
  have hnone {k : ℤ} (hk : k ≤ -2 ^ 53) : sliceTo content k = [] := by
    rw [sliceTo, if_pos (by omega), List.take_eq_nil_iff]
    exact .inl (by omega)
  rw [hnone hneg.le]
  obtain hinf | ⟨k, hk, hn⟩ := Double.intCast_of_lt_neg hneg
  · rw [hinf]
    rfl
  · rw [hslice hn, hnone hk]

section Calls
variable (h : Agrees page fs sb) (hb : Bounded page) (hrun : Running page)
include h hb hrun

theorem fsTruncate_matches (ts name : JsString) (newSize : ℤ) :
    Matches (Simulator.fsTruncate ts name newSize page) (fsTruncate ts name newSize fs) := by
  rw [Simulator.fsTruncate, if_neg (guard_formatted h.formatted), fsTruncate, h.superblock]
  obtain ⟨hf, hx⟩ | ⟨f, x, hf, hx, hsame⟩ := h.find_cases name
  · rw [hf, hx]
    exact matches_refused h
  · rw [hf, hx]
    have hsize := (hrun.accounted.sized f (mem_of_find hf)).size
    have hshort := hsame.short
    have hlt : Double.lt x.size newSize = true ↔ newSize > f.size := by
      rw [hsame.size]
      exact (Double.is_natCast (by omega)).lt_intCast_iff (Int.natCast_nonneg _) (by omega) newSize
    simp only [hlt]
    split_ifs with hgrow
    · exact matches_refused h
    · rw [hsame.content, slice_intCast hshort (by omega)]
      exact rewrite_matches h hb hrun hf hsame ((length_sliceTo_le _ _).trans_lt hshort) _
        (.truncated name newSize)

/-- What `fsCopy` makes of the answer of `_doWrite`; `taken` is the superblock before it. -/
def afterCopy (pushed : FS) (taken : Superblock) (done : Msg) : Except Msg (File × FS) → Reply × FS
  | .error msg =>
    (⟨false, msg⟩, { pushed with
      files := pushed.files.dropLast
      superblock := some { taken with freeInodes := taken.freeInodes + 1 } })
  | .ok (newFile, written) =>
    (⟨true, done⟩, { written with files := written.files.dropLast ++ [newFile] })

theorem afterCopy_matches (hnew : SameFile (Addressed sb) f x) (hnone : f.blocks = [])
    (hfree : 0 < page.superblock.freeInodes) {content : JsString} (hn : content.length < 2 ^ 53)
    (ts : JsString) (done : Simulator.Msg) (done' : Msg) :
    Matches (Simulator.afterCopy (page.push f) done (Simulator.doWrite ts (page.push f) f content))
      (afterCopy (fs.push sb x) sb.takeInode done'
        (doWrite ts (fs.push sb x) sb.takeInode x content)) := by
  have hpushed := push_agrees h hrun hnew hfree
  have hb' : Bounded (page.push f) := { hb with }
  have hheld : (f.blocks.length : ℤ) ≤ (page.push f).usedDataBlocks := by
    rw [hnone]
    exact hb.used_nonneg
  have hiff := room_iff hpushed.same hb' hheld hn
  by_cases hroom : Simulator.Room (page.push f) f.blocks.length content.length
  · have hroom' : Room sb.takeInode x.blocks.length content.length :=
      hnew.length ▸ hiff.mpr hroom
    have hcharged := charge_agrees hpushed hb' hheld hn hroom
    have hfile := stored_same hpushed hb' hnew hheld hn hroom ts
    rw [Simulator.doWrite_room hroom, doWrite_room hroom', hnew.length]
    refine ⟨rfl, _, hcharged.formatted, hcharged.superblock, hcharged.same, hcharged.used, ?_⟩
    simp only [Simulator.afterCopy, afterCopy, Simulator.FS.charge, FS.charge, Simulator.FS.push,
      FS.push, List.dropLast_concat]
    exact Paired.append_singleton h.files hfile
  · have hroom' : ¬Room sb.takeInode x.blocks.length content.length :=
      hnew.length ▸ fun hr => hroom (hiff.mp hr)
    obtain ⟨m, hm⟩ := Simulator.doWrite_refused ts hroom
    obtain ⟨m', hm'⟩ := doWrite_refused hroom' ts (fs.push sb x)
    rw [hm, hm']
    refine ⟨rfl, _, hpushed.formatted, rfl, ⟨h.same.magic, h.same.blockSize, h.same.dataBlocks,
      h.same.freeBlocks, fun hc => ⟨(h.same.inodes hc).maxInodes, ?_⟩,
      fun hx => { h.same.places hx with }⟩, h.used, ?_⟩
    · -- the inode that was taken is given back
      have hmax := le_of_le_maxExact (h.same.inodes hc).maxInodes hc
      have hle := hrun.accounted.freeInodes_le
      exact ((hpushed.same.inodes hc).freeInodes).add (Double.is_ofNat 1 (by norm_num)) (by
        change |page.superblock.freeInodes - 1 + 1| ≤ 2 ^ 53
        rw [abs_of_nonneg] <;> omega)
    · simp only [Simulator.afterCopy, afterCopy, Simulator.FS.push, FS.push, List.dropLast_concat]
      exact h.files

theorem fsCopy_matches (hsign : SameSign page sb) (ts src dst : JsString) :
    Matches (Simulator.fsCopy ts src dst page) (fsCopy ts src dst fs) := by
  rw [Simulator.fsCopy, if_neg (guard_formatted h.formatted), fsCopy, h.superblock]
  obtain ⟨hf, hx⟩ | ⟨f, x, hf, hx, hsame⟩ := h.find_cases src
  · rw [hf, hx]
    exact matches_refused h
  rw [hf, hx]
  simp only [h.isSome_find, hsign.eq]
  by_cases hex : (page.find dst).isSome = true
  · rw [if_pos hex, if_pos hex]
    exact matches_refused h
  rw [if_neg hex, if_neg hex]
  by_cases hfree : page.superblock.freeInodes ≤ 0
  · rw [if_pos hfree, if_pos hfree]
    exact matches_refused h
  rw [if_neg hfree, if_neg hfree]
  -- the new file, still without content
  have hnew : SameFile (Addressed sb) ⟨dst, page.nextInode, 0, [], f.mode, [], ts, ts, ts, 1⟩
      ⟨dst, fs.nextInode, 0, [], x.mode, [], ts, ts, ts, 1⟩ :=
    ⟨rfl, rfl, rfl, by norm_num, rfl, fun _ => .nil⟩
  by_cases hsize : f.size > 0
  · rw [if_pos hsize, if_pos (hsame.size.symm ▸ hsize)]
    rw [hsame.content]
    exact afterCopy_matches h hb hrun hnew rfl (not_le.mp hfree) hsame.short ts
      (.copied src dst f.size page.nextInode) (.copied src dst x.size fs.nextInode)
  · rw [if_neg hsize, if_neg (hsame.size.symm ▸ hsize)]
    exact ⟨rfl, _, push_agrees h hrun hnew (not_le.mp hfree)⟩

/-- Every call is accepted or refused alike, and leaves states that agree. -/
theorem perform_matches (hsign : SameSign page sb) (ts : JsString) {op : Op}
    (hmakes : Makes fs op) :
    Matches (Simulator.perform ts op page) (perform ts op fs) := by
  cases op with
  | create name => exact fsCreate_matches h hrun hsign ts name
  | write name content => exact fsWrite_matches h hb hrun hmakes ts name
  | append name data => exact fsAppend_matches h hb hrun hmakes ts
  | read name => exact fsRead_matches h ts name
  | rename oldName newName => exact fsRename_matches h ts oldName newName
  | copy src dst => exact fsCopy_matches h hb hrun hsign ts src dst
  | truncate name newSize => exact fsTruncate_matches h hb hrun ts name newSize
  | chmod name modeOctal => exact fsChmod_matches h ts name modeOctal modeOctal
  | delete name => exact fsDelete_matches h hb hrun name

end Calls

end MiniFs.Simulator.Numbers
