import MiniFs.Image.Acceptance
import MiniFs.Simulator.Directory

/-! # Where the page and the core agree

The page counts the blocks on a file's list, the core those of its size. As long
as the two counts are the same, and no name is cut, a call is answered alike and
changes directory and counters alike on both sides.
-/

set_option autoImplicit false

namespace MiniFs.Simulator
open MiniFs.Core Image Library Library.Chunks

/-! ## Free counters -/

/-- The inodes a call gives back, less those it takes. -/
def inodesFreed : FileOp → ℤ
  | .create _ | .copy _ _ => -1
  | .delete _ => 1
  | .write _ _ | .append _ _ | .read _ | .rename _ _ | .truncate _ _ | .chmod _ _ => 0

/-- The blocks an accepted call of the core gives back, less those it takes. -/
def coreFreed (g : Geometry) (vol : Volume) : FileOp → ℤ
  | .write name data => (vol.lookup name.bytes).elim 0 fun x =>
    pieces x.size.toNat g.blockSize - blocksNeeded g data.strlen
  | .append name data => (vol.lookup name.bytes).elim 0 fun x =>
    pieces x.size.toNat g.blockSize - blocksNeeded g (x.size.toNat + data.strlen)
  | .copy src _ => (vol.lookup src.bytes).elim 0 fun x =>
    if x.size.toNat = 0 then 0 else -blocksNeeded g x.size.toNat
  | .truncate name newSize => (vol.lookup name.bytes).elim 0 fun x =>
    pieces x.size.toNat g.blockSize - pieces newSize.toNat g.blockSize
  | .delete name => (vol.lookup name.bytes).elim 0 fun x => pieces x.size.toNat g.blockSize
  | .create _ | .read _ | .rename _ _ | .chmod _ _ => 0

/-- The same on the page, which takes a block also for an empty content. -/
def pageFreed (fs : FS) : FileOp → ℤ
  | .write name data => (fs.find (text name.bytes)).elim 0 fun f =>
    f.blocks.length - needed fs data.strlen
  | .append name data => (fs.find (text name.bytes)).elim 0 fun f =>
    f.blocks.length - needed fs (f.content.length + data.strlen)
  | .copy src _ => (fs.find (text src.bytes)).elim 0 fun f =>
    if f.size = 0 then 0 else -needed fs f.content.length
  | .truncate name newSize => (fs.find (text name.bytes)).elim 0 fun f =>
    f.blocks.length - needed fs (sliceTo f.content newSize.toNat).length
  | .delete name => (fs.find (text name.bytes)).elim 0 fun f => f.blocks.length
  | .create _ | .read _ | .rename _ _ | .chmod _ _ => 0

section Core
variable {g : Geometry} {vol vol' : Volume} {op : FileOp}

theorem edit_counters {i : ℕ} {x x' : Inode} {held : List ℕ} {b n : ℤ} (hs : Sound g vol)
    (h : Edit g vol i x x' held vol') (hb : ((ownedBy g x).length : ℤ) - held.length = b)
    (hn : ((freeCount x').toNat : ℤ) - (freeCount x).toNat = n) :
    (vol'.sb.freeBlocks.toNat : ℤ) = vol.sb.freeBlocks.toNat + b ∧
      (vol'.sb.freeInodes.toNat : ℤ) = vol.sb.freeInodes.toNat + n := by
  obtain ⟨hblocks, hinodes⟩ := hs.counters_edit h
  omega

theorem accepted_counters (hs : Sound g vol) (hfit : Fits g vol op) {now : UInt64}
    {msgs : List Message} (h : Accepted g now op vol vol' msgs) :
    (vol'.sb.freeBlocks.toNat : ℤ) = vol.sb.freeBlocks.toNat + coreFreed g vol op ∧
      (vol'.sb.freeInodes.toNat : ℤ) = vol.sb.freeInodes.toNat + inodesFreed op := by
  have hown {i : ℕ} {x : Inode} (hi : vol.inodes[i]? = some x) (hx : x.isUsed = 1) :
      (ownedBy g x).length = pieces x.size.toNat g.blockSize := by
    rw [ownedBy_live hx, (hs.live i x hi hx).length_blocksOf]
  have hkept {x x' : Inode} (hx : x.isUsed = 1) (hx' : x'.isUsed = 1) :
      ((freeCount x').toNat : ℤ) - (freeCount x).toNat = 0 := by
    rw [freeCount_live hx, freeCount_live hx', sub_self]
  have htaken {x x' : Inode} (hx : x.isUsed = 0) (hx' : x'.isUsed = 1) :
      ((freeCount x').toNat : ℤ) - (freeCount x).toNat = -1 := by
    rw [freeCount_free hx, freeCount_live hx']
    rfl
  have hsame {x x' : Inode} (hx : x.isUsed = 1) (hx' : x'.isUsed = 1)
      (hblocks : blocksOf g x' = blocksOf g x) :
      ((ownedBy g x).length : ℤ) - (ownedBy g x').length = 0 := by
    rw [ownedBy_live hx, ownedBy_live hx', hblocks, sub_self]
  cases h with
  | @create _ name i x hlen hnew hslot =>
    refine edit_counters hs (claim_edit hs hslot.slot hslot.free now name _) ?_
      (htaken hslot.free rfl)
    rw [ownedBy_free hslot.free]
    rfl
  | @write _ vol1 name data i x held d hat hst =>
    have hdata : data.bytes.length = (UInt32.ofNat data.strlen).toNat :=
      length_toNat_ofNat (hfit data.strlen rfl)
    refine edit_counters hs (write_edit hs hat.slot hat.live hst hdata now) ?_
      (hkept hat.live hat.live)
    rw [hown hat.slot hat.live, hst.length, coreFreed, hat.lookup]
    rfl
  | @append _ vol1 name data i x held d hat hst =>
    have hstored : storedLength vol (.append name data) = some (x.size.toNat + data.strlen) := by
      rw [storedLength, hat.lookup, Option.map_some]
    have hlen := length_append (hs.readable hat.slot hat.live) (hfit _ hstored)
    refine edit_counters hs (write_edit hs hat.slot hat.live hst hlen.1 now) ?_
      (hkept hat.live hat.live)
    rw [hown hat.slot hat.live, hst.length, hlen.2, coreFreed, hat.lookup]
    rfl
  | @read _ name i x hat =>
    exact edit_counters hs (read_edit hs hat.slot hat.live now)
      (hsame hat.live hat.live rfl) (hkept hat.live hat.live)
  | @rename _ oldName newName i x hlen hat hnew =>
    exact edit_counters hs (rename_edit hs hat.slot hat.live now newName)
      (hsame hat.live hat.live (by simp only [blocksOf])) (hkept hat.live hat.live)
  | @copyEmpty _ src dst i k x y hat hnew hslot hsize =>
    refine edit_counters hs (claim_edit hs hslot.slot hslot.free now dst y.mode) ?_
      (htaken hslot.free rfl)
    rw [ownedBy_free hslot.free, coreFreed, hat.lookup, Option.elim_some, hsize]
    rfl
  | @copy _ vol1 src dst i k x y held d hat hnew hslot hsize hst =>
    have hdata := (hs.readable hat.slot hat.live).length_content
    have hne : y.size.toNat ≠ 0 := fun h0 => hsize (UInt32.toNat_inj.mp h0)
    refine edit_counters hs (copy_edit hs hslot.slot hslot.free hst hdata) ?_
      (htaken hslot.free rfl)
    rw [ownedBy_free hslot.free, hst.length, hdata, coreFreed, hat.lookup, Option.elim_some,
      if_neg hne, List.length_nil, Nat.cast_zero, zero_sub]
  | @truncate _ name newSize i x hat hle =>
    have hedit := truncate_edit hs hat.slot hat.live hle now
    have hlive := (hs.edit hedit).live i _ hedit.slot_self hat.live
    refine edit_counters hs hedit ?_ (hkept hat.live hat.live)
    rw [hown hat.slot hat.live,
      ownedBy_live (x := { x with size := newSize, modifiedAt := now }) hat.live,
      hlive.length_blocksOf, coreFreed, hat.lookup]
    rfl
  | @chmod _ name mode i x hat =>
    exact edit_counters hs (chmod_edit hs hat.slot hat.live now _)
      (hsame hat.live hat.live rfl) (hkept hat.live hat.live)
  | @delete _ name i x hat =>
    refine edit_counters hs (delete_edit hs hat.slot hat.live) ?_ ?_
    · rw [hown hat.slot hat.live, coreFreed, hat.lookup]
      exact sub_zero _
    · rw [freeCount_free (x := { x with isUsed := 0 }) rfl, freeCount_live hat.live]
      rfl

end Core

section Page
variable {fs fs' : FS} {ts : JsString} {op : FileOp}

theorem step_counters (hstep : Step ts fs (pageOp op) true fs') :
    fs'.superblock.freeBlocks = fs.superblock.freeBlocks + pageFreed fs op ∧
      fs'.superblock.freeInodes = fs.superblock.freeInodes + inodesFreed op := by
  have hcharge {name : JsString} {f : File} {content : JsString} {b : ℤ}
      (hb : f.blocks.length - needed fs content.length = b) :
      ((fs.charge f.blocks.length content.length).assign name
        (stored ts fs f content)).superblock.freeBlocks = fs.superblock.freeBlocks + b := by
    rw [← hb, ← add_sub_assoc]
    rfl
  cases op with
  | create name =>
    cases hstep with
    | create hlen hnew hfree => exact ⟨(add_zero _).symm, rfl⟩
    | rewrite hf hop hroom => cases hop
  | write name data =>
    cases hstep with
    | rewrite hf hop hroom =>
      cases hop
      refine ⟨hcharge ?_, (add_zero _).symm⟩
      rw [pageFreed, hf, length_text]
      rfl
  | append name data =>
    cases hstep with
    | rewrite hf hop hroom =>
      cases hop
      refine ⟨hcharge ?_, (add_zero _).symm⟩
      rw [pageFreed, hf, List.length_append, length_text]
      rfl
  | read name =>
    cases hstep with
    | rewrite hf hop hroom => cases hop
    | read hf => exact ⟨(add_zero _).symm, (add_zero _).symm⟩
  | rename oldName newName =>
    cases hstep with
    | rewrite hf hop hroom => cases hop
    | rename hf hnew hlen => exact ⟨(add_zero _).symm, (add_zero _).symm⟩
  | copy src dst =>
    cases hstep with
    | rewrite hf hop hroom => cases hop
    | copyEmpty hf hnew hfree hsize =>
      refine ⟨?_, rfl⟩
      rw [pageFreed, hf, Option.elim_some, if_pos hsize, add_zero]
      rfl
    | copy hf hnew hfree hsize hroom =>
      refine ⟨?_, rfl⟩
      rw [pageFreed, hf, Option.elim_some, if_neg hsize, ← sub_eq_add_neg]
      exact congrArg (· - _) (add_zero _)
  | truncate name newSize =>
    cases hstep with
    | rewrite hf hop hroom =>
      cases hop
      refine ⟨hcharge ?_, (add_zero _).symm⟩
      rw [pageFreed, hf]
      rfl
  | chmod name mode =>
    cases hstep with
    | rewrite hf hop hroom => cases hop
    | chmod hf => exact ⟨(add_zero _).symm, (add_zero _).symm⟩
  | delete name =>
    cases hstep with
    | rewrite hf hop hroom => cases hop
    | delete hf =>
      refine ⟨?_, rfl⟩
      rw [pageFreed, hf]
      rfl

end Page

/-! ## Corresponding states -/

def filled (fs : FS) (n : ℕ) : ℤ := ceilDiv n fs.superblock.blockSize

/-- A content of `n` characters for `f` is refused for its length or for lack of all room, or it
fits into the free blocks alone and the list of `f` holds the blocks its size fills. -/
def StoredAlike (fs : FS) (f : File) (n : ℕ) : Prop :=
  Room fs f.blocks.length n → needed fs n ≤ fs.superblock.freeBlocks ∧
    (f.blocks.length : ℤ) = filled fs f.size

/-- The calls that core and page treat alike, on the state of the page. -/
def Alike (fs : FS) : FileOp → Prop
  | .write name data =>
    ∀ f, fs.find (text name.bytes) = some f → StoredAlike fs f data.strlen
  | .append name data =>
    ∀ f, fs.find (text name.bytes) = some f → StoredAlike fs f (f.size + data.strlen)
  | .copy src dst => maxFilenameLen ≤ dst.strlen → ¬ Accepts fs (pageOp (.copy src dst))
  | .truncate name newSize => ∀ f, fs.find (text name.bytes) = some f → newSize.toNat ≤ f.size →
    f.blocks.length - filled fs f.size = needed fs newSize.toNat - filled fs newSize.toNat
  | .delete name => ∀ f, fs.find (text name.bytes) = some f →
    (f.blocks.length : ℤ) = filled fs f.size
  | .create _ | .read _ | .rename _ _ | .chmod _ _ => True

structure Matches (g : Geometry) (vol : Volume) (fs : FS) : Prop where
  names : NamesUnique vol
  running : Running fs
  directory : pageDirectory fs = spread (coreDirectory g vol)
  blockSize : fs.superblock.blockSize = g.blockSize
  freeBlocks : fs.superblock.freeBlocks = vol.sb.freeBlocks.toNat
  freeInodes : fs.superblock.freeInodes = vol.sb.freeInodes.toNat

theorem ceilDiv_natCast {m : ℕ} (hm : 0 < m) (n : ℕ) : ceilDiv n m = pieces n m := by
  have hpos : (0 : ℤ) < m := Int.natCast_pos.mpr hm
  have hle : ceilDiv n m ≤ pieces n m := by
    have hmul : (n : ℤ) ≤ pieces n m * m := by exact_mod_cast le_pieces_mul hm
    have hdiv : -(pieces n m : ℤ) ≤ -n / m := by
      rw [Int.le_ediv_iff_mul_le hpos, Int.neg_mul]
      omega
    rw [ceilDiv]
    omega
  have hge : (pieces n m : ℤ) ≤ ceilDiv n m := by
    have hmul := le_ceilDiv_mul (a := n) hpos
    have hnonneg : 0 ≤ ceilDiv n m := by
      by_contra hneg
      have hprod := Int.mul_neg_of_neg_of_pos (Int.not_le.mp hneg) hpos
      omega
    obtain ⟨k, hk⟩ := Int.eq_ofNat_of_zero_le hnonneg
    rw [hk] at hmul ⊢
    exact_mod_cast (pieces_le_iff hm).mpr (by exact_mod_cast hmul)
  exact le_antisymm hle hge

namespace Matches
variable {g : Geometry} {vol vol' : Volume} {fs fs' : FS} {op : FileOp} {ts : JsString}

theorem filled_eq (hm : Matches g vol fs) (n : ℕ) : filled fs n = pieces n g.blockSize := by
  rw [filled, hm.blockSize, ceilDiv_natCast g.blockSize_pos]

theorem needed_eq (hm : Matches g vol fs) (n : ℕ) : needed fs n = blocksNeeded g n := by
  rw [needed, hm.blockSize, ceilDiv_natCast g.blockSize_pos, blocksNeeded, Nat.cast_max,
    Nat.cast_one]

theorem sized (hm : Matches g vol fs) (f : File) (hf : f ∈ fs.files) :
    f.size = f.content.length := (hm.running.accounted.sized f hf).size

theorem found (hm : Matches g vol fs) (name : List UInt8) :
    fs.find (text name) = none ∧ vol.lookup name = none ∨
      ∃ f x, fs.find (text name) = some f ∧ vol.lookup name = some x ∧
        f.entry = coreEntry g vol x := by
  have h := congrFun hm.directory (text name)
  rw [pageDirectory_eq, spread_text, coreDirectory_eq] at h
  cases hf : fs.find (text name) with
  | none =>
    rw [hf, Option.map_none, eq_comm, Option.map_eq_none_iff] at h
    exact .inl ⟨rfl, h⟩
  | some f =>
    rw [hf, Option.map_some, eq_comm, Option.map_eq_some_iff] at h
    obtain ⟨x, hx, hentry⟩ := h
    exact .inr ⟨f, x, rfl, hx, hentry.symm⟩

theorem entry_eq (hm : Matches g vol fs) {name : List UInt8} {f : File} {x : Inode}
    (hf : fs.find (text name) = some f) (hx : vol.lookup name = some x) :
    f.entry = coreEntry g vol x := by
  rcases hm.found name with ⟨hnone, -⟩ | ⟨f', x', hf', hx', hentry⟩
  · exact nomatch hnone.symm.trans hf
  · obtain rfl := Option.some.inj (hf.symm.trans hf')
    obtain rfl := Option.some.inj (hx.symm.trans hx')
    exact hentry

theorem find_iff (hm : Matches g vol fs) (name : List UInt8) :
    (∃ f, fs.find (text name) = some f) ↔ ∃ x, vol.lookup name = some x := by
  rcases hm.found name with ⟨hf, hx⟩ | ⟨f, x, hf, hx, -⟩
  · rw [hf, hx]
    exact iff_of_false (fun ⟨_, h⟩ => nomatch h) fun ⟨_, h⟩ => nomatch h
  · exact iff_of_true ⟨f, hf⟩ ⟨x, hx⟩

theorem find_none_iff (hm : Matches g vol fs) (name : List UInt8) :
    fs.find (text name) = none ↔ vol.lookup name = none := by
  rcases hm.found name with ⟨hf, hx⟩ | ⟨f, x, hf, hx, -⟩
  · exact iff_of_true hf hx
  · rw [hf, hx]
    exact iff_of_false (fun h => nomatch h) fun h => nomatch h

theorem freeInodes_iff (hm : Matches g vol fs) :
    0 < fs.superblock.freeInodes ↔ vol.sb.freeInodes ≠ 0 := by
  rw [hm.freeInodes, Ne, ← UInt32.toNat_inj, UInt32.toNat_zero]
  omega

theorem room_iff_hasRoom (hm : Matches g vol fs) (n : ℕ) : Room fs 0 n ↔ HasRoom g vol.sb n := by
  have hneed := hm.needed_eq n
  have hfree := hm.freeBlocks
  constructor
  · rintro ⟨hle, hroom⟩
    exact ⟨by omega, by omega⟩
  · rintro ⟨hle, hroom⟩
    exact ⟨by omega, by omega⟩

section Found
variable {name : List UInt8} {f : File} {x : Inode}

theorem size_eq (hentry : f.entry = coreEntry g vol x) : f.size = x.size.toNat :=
  congrArg Entry.size hentry

theorem storing_iff (hm : Matches g vol fs) {n : ℕ} (halike : StoredAlike fs f n) :
    Room fs f.blocks.length n ↔ HasRoom g vol.sb n := by
  rw [← hm.room_iff_hasRoom]
  constructor
  · intro h
    have hfree := (halike h).1
    exact ⟨h.le, by omega⟩
  · intro h
    have hfree := h.free
    exact ⟨h.le, by omega⟩

theorem truncate_le_iff (hentry : f.entry = coreEntry g vol x) (newSize : UInt32) :
    (newSize.toNat : ℤ) ≤ f.size ↔ newSize ≤ x.size := by
  rw [size_eq hentry, UInt32.le_iff_toNat_le, Nat.cast_le]

theorem length_sliceTo (hm : Matches g vol fs) (hf : f ∈ fs.files) {n : ℕ} (hn : n ≤ f.size) :
    (sliceTo f.content n).length = n := by
  have hsize := hm.sized f hf
  rw [sliceTo, if_neg (by omega), Int.toNat_natCast, List.length_take]
  omega

end Found

/-- Calls that are treated alike are accepted on both sides or on none. -/
theorem accepts_iff (hm : Matches g vol fs) (hs : Sound g vol) (halike : Alike fs op) :
    Accepts fs (pageOp op) ↔ Admits g vol op := by
  cases op with
  | create name =>
    simp only [pageOp, Accepts, Admits, length_text, hm.find_none_iff, hm.freeInodes_iff]
    rfl
  | write name data =>
    rcases hm.found name.bytes with ⟨hf, hx⟩ | ⟨f, x, hf, hx, hentry⟩
    · simp [pageOp, Accepts, Admits, hf, hx]
    · have hroom := hm.storing_iff (halike f hf)
      simp only [pageOp, Accepts, Admits, hf, hx, Option.some_inj, exists_eq_left', length_text]
      exact hroom
  | append name data =>
    rcases hm.found name.bytes with ⟨hf, hx⟩ | ⟨f, x, hf, hx, hentry⟩
    · simp [pageOp, Accepts, Admits, hf, hx]
    · have hroom := hm.storing_iff (halike f hf)
      simp only [pageOp, Accepts, Admits, hf, hx, Option.some_inj, exists_eq_left',
        List.length_append, length_text]
      rw [← hm.sized f (mem_of_find hf), ← size_eq hentry]
      exact hroom
  | rename oldName newName =>
    simp only [pageOp, Accepts, Admits, length_text, hm.find_none_iff, hm.find_iff]
    exact ⟨fun ⟨h1, h2, h3⟩ => ⟨h3, h1, h2⟩, fun ⟨h1, h2, h3⟩ => ⟨h2, h3, h1⟩⟩
  | copy src dst =>
    rcases hm.found src.bytes with ⟨hf, hx⟩ | ⟨f, x, hf, hx, hentry⟩
    · simp [pageOp, Accepts, Admits, hf, hx]
    · have hzero : f.size ≠ 0 ↔ x.size ≠ 0 := by
        rw [size_eq hentry, Ne, Ne, ← UInt32.toNat_inj, UInt32.toNat_zero]
      simp only [pageOp, Accepts, Admits, hf, hx, Option.some_inj, exists_eq_left',
        hm.find_none_iff, hm.freeInodes_iff, hm.room_iff_hasRoom, hzero]
      rw [← hm.sized f (mem_of_find hf), size_eq hentry]
  | truncate name newSize =>
    rcases hm.found name.bytes with ⟨hf, hx⟩ | ⟨f, x, hf, hx, hentry⟩
    · simp [pageOp, Accepts, Admits, hf, hx]
    · simp only [pageOp, Accepts, Admits, hf, hx, Option.some_inj, exists_eq_left',
        truncate_le_iff hentry]
      refine and_iff_left_of_imp fun hle => ?_
      have hlt : newSize.toNat ≤ f.size := by exact_mod_cast (truncate_le_iff hentry _).mpr hle
      rw [hm.length_sliceTo (mem_of_find hf) hlt]
      -- a shorter content has room: at most 16 blocks, and no more than the list of the file holds
      obtain ⟨i, hat⟩ := exists_foundAt hx
      have h16 := (hs.live i x hat.slot hat.live).pieces_le
      have hmono := pieces_mono g.blockSize_pos hlt
      have hbill := halike f hf hlt
      have hfree := hm.freeBlocks
      rw [hm.filled_eq, hm.filled_eq, hm.needed_eq, blocksNeeded, size_eq hentry] at hbill
      rw [size_eq hentry] at hmono
      constructor
      · rw [hm.needed_eq, blocksNeeded]
        omega
      · rw [hm.needed_eq, blocksNeeded]
        omega
  | read name => exact hm.find_iff name.bytes
  | chmod name mode => exact hm.find_iff name.bytes
  | delete name => exact hm.find_iff name.bytes

/-- A call that both sides refuse is treated alike. -/
theorem alike_of_refused (hm : Matches g vol fs) (hno : ¬ Accepts fs (pageOp op))
    (hno' : ¬ Admits g vol op) : Alike fs op := by
  cases op with
  | write name data =>
    intro f hf hroom
    exact absurd ⟨f, hf, by rwa [length_text]⟩ hno
  | append name data =>
    intro f hf hroom
    refine absurd ⟨f, hf, ?_⟩ hno
    rwa [List.length_append, length_text, ← hm.sized f (mem_of_find hf)]
  | copy src dst => exact fun _ => hno
  | truncate name newSize =>
    intro f hf hle
    rcases hm.found name.bytes with ⟨hnone, -⟩ | ⟨f', x, hf', hx, hentry⟩
    · exact nomatch hnone.symm.trans hf
    · obtain rfl := Option.some.inj (hf.symm.trans hf')
      exact absurd ⟨x, hx, (truncate_le_iff hentry _).mp (by exact_mod_cast hle)⟩ hno'
  | delete name => exact fun f hf => absurd ⟨f, hf⟩ hno
  | _ => trivial

/-- A call that both sides accept is treated alike if it changes the free blocks alike and stores
no name that is cut. -/
theorem alike_iff_freed (hm : Matches g vol fs) (hacc : Accepts fs (pageOp op))
    (hadm : Admits g vol op) :
    Alike fs op ↔ pageFreed fs op = coreFreed g vol op ∧
      ∀ name, givenName op = some name → name.strlen < maxFilenameLen := by
  have hnone {p : CStr → Prop} {b : Prop} :
      (b ∧ ∀ name, (none : Option CStr) = some name → p name) ↔ b :=
    and_iff_left fun _ h => nomatch h
  have hgiven {p : CStr → Prop} {n : CStr} (h : p n) : ∀ name, some n = some name → p name :=
    fun name hname => Option.some.inj hname ▸ h
  have hall {name : JsString} {f : File} {p : File → Prop} (hf : fs.find name = some f) :
      (∀ f', fs.find name = some f' → p f') ↔ p f :=
    ⟨fun h => h f hf, fun h f' hf' => Option.some.inj (hf.symm.trans hf') ▸ h⟩
  have hstored {f : File} {x : Inode} {n : ℕ} (hentry : f.entry = coreEntry g vol x)
      (hroom : Room fs f.blocks.length n) (hroom' : HasRoom g vol.sb n) : StoredAlike fs f n ↔
        (f.blocks.length : ℤ) - needed fs n =
          pieces x.size.toNat g.blockSize - blocksNeeded g n := by
    have hfree := ((hm.room_iff_hasRoom n).mpr hroom').free
    rw [StoredAlike, hm.filled_eq, size_eq hentry, ← hm.needed_eq]
    exact ⟨fun h => by have := (h hroom).2; omega, fun h _ => ⟨by omega, by omega⟩⟩
  cases op with
  | create name => exact iff_of_true trivial ⟨rfl, hgiven hadm.1⟩
  | write name data =>
    obtain ⟨f, hf, hroom⟩ := hacc
    obtain ⟨x, hx, hroom'⟩ := hadm
    rw [length_text] at hroom
    refine Iff.trans ?_ hnone.symm
    rw [Alike, hall hf]
    refine (hstored (hm.entry_eq hf hx) hroom hroom').trans ?_
    rw [pageFreed, coreFreed, hf, hx, Option.elim_some, Option.elim_some]
    rfl
  | append name data =>
    obtain ⟨f, hf, hroom⟩ := hacc
    obtain ⟨x, hx, hroom'⟩ := hadm
    have hsize := size_eq (hm.entry_eq hf hx)
    have hcontent := hm.sized f (mem_of_find hf)
    rw [List.length_append, length_text, ← hcontent] at hroom
    rw [← hsize] at hroom'
    refine Iff.trans ?_ hnone.symm
    rw [Alike, hall hf]
    refine (hstored (hm.entry_eq hf hx) hroom hroom').trans ?_
    rw [pageFreed, coreFreed, hf, hx, Option.elim_some, Option.elim_some, ← hcontent, ← hsize]
    rfl
  | read name => exact iff_of_true trivial ⟨rfl, fun _ h => nomatch h⟩
  | rename oldName newName => exact iff_of_true trivial ⟨rfl, hgiven hadm.1⟩
  | copy src dst =>
    have hfreed : pageFreed fs (.copy src dst) = coreFreed g vol (.copy src dst) := by
      obtain ⟨f, hf, -⟩ := hacc
      obtain ⟨x, hx, -⟩ := hadm
      rw [pageFreed, coreFreed, hf, hx, Option.elim_some, Option.elim_some,
        ← hm.sized f (mem_of_find hf), hm.needed_eq, size_eq (hm.entry_eq hf hx)]
    constructor
    · exact fun h => ⟨hfreed, hgiven (not_le.mp fun hlong => h hlong hacc)⟩
    · exact fun h hlong => absurd hlong (not_le.mpr (h.2 dst rfl))
  | truncate name newSize =>
    obtain ⟨f, hf, hle, -⟩ := hacc
    obtain ⟨x, hx, -⟩ := hadm
    have hle' : newSize.toNat ≤ f.size := by exact_mod_cast hle
    refine Iff.trans ?_ hnone.symm
    rw [Alike, hall hf, pageFreed, coreFreed, hf, hx, Option.elim_some, Option.elim_some,
      hm.length_sliceTo (mem_of_find hf) hle', hm.filled_eq, hm.filled_eq,
      ← size_eq (hm.entry_eq hf hx)]
    exact ⟨fun h => by have := h hle'; omega, fun h _ => by omega⟩
  | chmod name mode => exact iff_of_true trivial ⟨rfl, fun _ h => nomatch h⟩
  | delete name =>
    obtain ⟨f, hf⟩ := hacc
    obtain ⟨x, hx⟩ := hadm
    refine Iff.trans ?_ hnone.symm
    rw [Alike, hall hf, pageFreed, coreFreed, hf, hx, Option.elim_some, Option.elim_some,
      hm.filled_eq, size_eq (hm.entry_eq hf hx)]

/-! ## Steps -/

section Step
variable {v v' : View} {now : UInt64} {r : Int} {ok : Bool}

/-- A call that is treated alike is answered alike, and the page shows the volume after it. -/
theorem step (hm : Matches g v.vol fs) (hs : Sound g v.vol) (hfit : Fits g v.vol op)
    (hcore : Outcome g now op v r v') (hpage : Step ts fs (pageOp op) ok fs')
    (halike : Alike fs op) : (r = 0 ↔ ok = true) ∧ Matches g v'.vol fs' := by
  have hanswer : r = 0 ↔ ok = true := by
    rw [hcore.admits_iff hs hfit, hpage.accepts_iff, hm.accepts_iff hs halike]
  have hrun := hm.running.step hpage
  have hlay := hpage.sameLayout
  refine ⟨hanswer, ?_⟩
  cases hcore with
  | accepted hacc hadv =>
    obtain rfl : ok = true := hanswer.mp rfl
    obtain ⟨hfreed, hlen⟩ := (hm.alike_iff_freed hpage.accepts (hacc.admits hs hfit)).mp halike
    obtain ⟨hblocks, hinodes⟩ := accepted_counters hs hfit hacc
    obtain ⟨hblocks', hinodes'⟩ := step_counters hpage
    have hdir := accepted_directory hs hm.names hfit hlen hacc
    rw [hadv.vol]
    refine ⟨(hacc.names hs hm.names hfit hlen).1, hrun, ?_, hlay.blockSize.trans hm.blockSize, ?_, ?_⟩
    · rw [step_directory hm.running.accounted.names hm.sized hm.directory hpage, hdir]
    · rw [hblocks', hblocks, hfreed, hm.freeBlocks]
    · rw [hinodes', hinodes, hm.freeInodes]
  | rejected hrej hadv =>
    obtain rfl : ok = false := by
      rw [← Bool.not_eq_true, ← hanswer]
      decide
    obtain ⟨hdir, hsb⟩ := rejected_directory hs hm.names hrej
    rw [hadv.vol]
    have hsame := hpage.unchanged
    refine ⟨hrej.names hs hm.names, hrun, ?_, hlay.blockSize.trans hm.blockSize, ?_, ?_⟩
    · rw [pageDirectory_congr hsame.files, hdir, hm.directory]
    · rw [hsame.superblock, hsb, hm.freeBlocks]
    · rw [hsame.superblock, hsb, hm.freeInodes]

/-- A call answered alike is treated alike if the free blocks agree after it and the page stores no
name that is cut. -/
theorem alike_of_agree (hm : Matches g v.vol fs) (hs : Sound g v.vol) (hfit : Fits g v.vol op)
    (hcore : Outcome g now op v r v') (hpage : Step ts fs (pageOp op) ok fs')
    (hanswer : r = 0 ↔ ok = true)
    (hfree : fs'.superblock.freeBlocks = v'.vol.sb.freeBlocks.toNat)
    (hnames : ∀ f ∈ fs'.files, f.name.length < 32) : Alike fs op := by
  cases hcore with
  | accepted hacc hadv =>
    obtain rfl : ok = true := hanswer.mp rfl
    obtain ⟨hblocks, -⟩ := accepted_counters hs hfit hacc
    obtain ⟨hblocks', -⟩ := step_counters hpage
    rw [hadv.vol, hblocks, hblocks', hm.freeBlocks] at hfree
    have hadm := hacc.admits hs hfit
    refine (hm.alike_iff_freed hpage.accepts hadm).mpr ⟨by omega, fun name hname => ?_⟩
    cases op with
    | create n => exact Option.some.inj hname ▸ hadm.1
    | rename n m => exact Option.some.inj hname ▸ hadm.1
    | copy src dst =>
      obtain rfl := Option.some.inj hname
      obtain ⟨f, hf, hdst⟩ := hpage.copied
      have hlen := hnames f hf
      rwa [hdst, length_text] at hlen
    | _ => exact nomatch hname
  | rejected hrej hadv =>
    obtain rfl : ok = false := by
      rw [← Bool.not_eq_true, ← hanswer]
      decide
    exact hm.alike_of_refused (mt hpage.accepts_iff.mpr Bool.false_ne_true) hrej.not_admits

end Step

end Matches

end MiniFs.Simulator
