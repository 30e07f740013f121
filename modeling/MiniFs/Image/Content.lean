import MiniFs.Image.Lookup

/-! # Blocks of a file: freeing, reading and writing them -/

set_option autoImplicit false

namespace MiniFs.Image
open MiniFs.Core Library Library.Exec Library.ByteRange Library.Chunks Library.Ownership

variable {g : Geometry} {v : View}

/-- The block numbers in entries `start` to `start + count` of an inode. -/
def blockRange (x : Inode) (start count : ℕ) : List ℕ :=
  (slice start count x.directBlocks.toList).map UInt32.toNat

theorem blocksOf_eq (g : Geometry) (x : Inode) :
    blocksOf g x = blockRange x 0 (pieces x.size.toNat g.blockSize) := rfl

theorem blockRange_succ {x : Inode} {start count : ℕ} (h : start + count < 16) :
    blockRange x start (count + 1) =
      blockRange x start count ++ [x.directBlocks[start + count].toNat] := by
  have hone : slice (start + count) 1 x.directBlocks.toList = [x.directBlocks[start + count]] := by
    rw [slice, List.drop_eq_getElem_cons (by rw [Vector.length_toList]; exact h)]
    simp
  simp only [blockRange, ← slice_append_slice, hone, List.map_append, List.map_cons, List.map_nil]

theorem blockRange_cons {x : Inode} {start count : ℕ} (h : start < 16) :
    blockRange x start (count + 1) =
      x.directBlocks[start].toNat :: blockRange x (start + 1) count := by
  simp only [blockRange, slice]
  rw [List.drop_eq_getElem_cons (by rw [Vector.length_toList]; exact h), List.take_succ_cons,
    List.map_cons, Vector.getElem_toList]

theorem directBlock_runs {τ ε : Type} {A : Abstraction World τ ε} {v : τ} {x : Inode} {i : ℕ}
    (hi : i < 16) : Runs A v (directBlock x i) x.directBlocks[i] v := by
  simp only [directBlock, Vector.getElem?_eq_getElem hi]
  exact Runs.pure v _

/-! ## Freeing -/

def Volume.releaseAll (vol : Volume) (bs : List ℕ) : Volume :=
  { vol with
    used := vol.used \ bs.toFinset
    sb := { vol.sb with freeBlocks := vol.sb.freeBlocks + UInt32.ofNat bs.length } }

theorem Volume.releaseAll_nil (vol : Volume) : vol.releaseAll [] = vol := by
  simp [Volume.releaseAll]

theorem Volume.release_releaseAll (vol : Volume) (bs : List ℕ) (b : ℕ) :
    (vol.releaseAll bs).release b = vol.releaseAll (bs ++ [b]) := by
  have hused : (vol.used \ bs.toFinset).erase b = vol.used \ (bs ++ [b]).toFinset := by
    ext c
    simp only [Finset.mem_erase, Finset.mem_sdiff, List.mem_toFinset, List.mem_append,
      List.mem_singleton]
    tauto
  have hfree : vol.sb.freeBlocks + UInt32.ofNat bs.length + 1 =
      vol.sb.freeBlocks + UInt32.ofNat (bs ++ [b]).length := by
    rw [List.length_append, UInt32.ofNat_add, UInt32.add_assoc]
    rfl
  simp only [Volume.release, Volume.releaseAll, hused, hfree]

theorem freeBlocksLoop_runs (hv : v.faults = noFaults) {x : Inode} {start count : ℕ}
    (h16 : start + count ≤ 16) (hlt : ∀ b ∈ blockRange x start count, b < g.totalBlocks) :
    Runs (view g) v (freeBlocksLoop x count start) ()
      (v.setVol (v.vol.releaseAll (blockRange x start count))) := by
  let chain (i : ℕ) : View := v.setVol (v.vol.releaseAll (blockRange x start (i - start)))
  have h0 : chain start = v := by
    simp only [chain, Nat.sub_self, blockRange, slice, List.take_zero, List.map_nil,
      Volume.releaseAll_nil]
    rfl
  have hend : chain (start + count) = v.setVol (v.vol.releaseAll (blockRange x start count)) := by
    simp only [chain, Nat.add_sub_cancel_left]
  rw [← hend]
  nth_rewrite 1 [← h0]
  refine Runs.forLoop chain fun i hi hic => ?_
  obtain ⟨k, rfl⟩ := Nat.exists_eq_add_of_le hi
  have hk : start + k < 16 := by omega
  have hmem : x.directBlocks[start + k].toNat ∈ blockRange x start count := by
    obtain ⟨m, rfl⟩ := Nat.exists_eq_add_of_lt (show k < count by omega)
    rw [blockRange, List.mem_map]
    refine ⟨_, List.mem_of_getElem? (i := k) ?_, rfl⟩
    rw [getElem?_slice, if_pos (by omega), List.getElem?_eq_getElem (by simpa using hk)]
    rfl
  refine (directBlock_runs hk).bind (Runs.bind (a := (0 : Int)) ?_ (Runs.pure _ _))
  have hfree := bitmapFreeBlock_runs (g := g) (v := chain (start + k)) hv
    (b := x.directBlocks[start + k]) (hlt _ hmem)
  have hnext : (chain (start + k)).setVol
      ((chain (start + k)).vol.release x.directBlocks[start + k].toNat) = chain (start + k + 1) := by
    have hsub : start + k + 1 - start = k + 1 := by omega
    simp only [chain, View.setVol, Volume.release_releaseAll, Nat.add_sub_cancel_left, hsub,
      blockRange_succ hk]
  rwa [hnext] at hfree

/-! ## Reading -/

theorem toNat_readLen {rest bs : UInt32} :
    (if rest > bs then bs else rest).toNat = min rest.toNat bs.toNat := by
  split_ifs with h
  · have h' := UInt32.lt_iff_toNat_lt.mp h
    omega
  · have h' := UInt32.le_iff_toNat_le.mp (UInt32.not_lt.mp h)
    omega

/-- The read loop takes the rest of the file out of its remaining blocks. -/
theorem readLoop_runs (hv : v.faults = noFaults) {sb : Superblock} (hg : g.Describes sb) {x : Inode}
    (hdata : ∀ b, g.dataStart ≤ b → b < g.totalBlocks → (v.vol.data b).length = g.blockSize)
    {count i : ℕ} {bytesRead : UInt32} (h16 : i + count ≤ 16)
    (hcount : count = pieces (x.size.toNat - i * g.blockSize) g.blockSize)
    (hread : 0 < count → bytesRead.toNat = i * g.blockSize)
    (hblocks : ∀ b ∈ blockRange x i count, g.dataStart ≤ b ∧ b < g.totalBlocks) :
    Runs (view g) v (readLoop sb x count i bytesRead)
      (((blockRange x i count).flatMap v.vol.data).take (x.size.toNat - i * g.blockSize)) v := by
  have hpos := g.blockSize_pos
  induction count generalizing i bytesRead with
  | zero =>
    rw [blockRange, slice, List.take_zero, List.map_nil, List.flatMap_nil, List.take_nil]
    exact Runs.pure v []
  | succ count ih =>
    have hi : i < 16 := by omega
    have hlt : 0 < x.size.toNat - i * g.blockSize := by
      by_contra h
      rw [Nat.eq_zero_of_not_pos h, pieces_zero hpos] at hcount
      omega
    rw [blockRange_cons hi] at hblocks ⊢
    obtain ⟨hb, hb'⟩ := hblocks _ List.mem_cons_self
    have hbr := hread (Nat.succ_pos _)
    have hsize := x.size.toNat_lt
    have hrest : (x.size - bytesRead).toNat = x.size.toNat - i * g.blockSize := by
      rw [UInt32.toNat_sub_of_le _ _ (UInt32.le_iff_toNat_le.mpr (by omega)), hbr]
    have hlen : (if x.size - bytesRead > sb.blockSize then sb.blockSize
        else x.size - bytesRead).toNat = min (x.size.toNat - i * g.blockSize) g.blockSize := by
      rw [toNat_readLen, hrest, hg.blockSize]
    have hmul : x.size.toNat - (i + 1) * g.blockSize =
        x.size.toNat - i * g.blockSize - g.blockSize := by
      rw [Nat.add_mul, Nat.one_mul, Nat.sub_sub]
    have hnext : count = pieces (x.size.toNat - (i + 1) * g.blockSize) g.blockSize := by
      rw [hmul, pieces_sub hpos, ← hcount, Nat.add_sub_cancel]
    have hmore := @ih (i + 1) (bytesRead +
        if x.size - bytesRead > sb.blockSize then sb.blockSize else x.size - bytesRead)
      (by omega) hnext ?_ (fun b hb => hblocks b (List.mem_cons_of_mem _ hb))
    · have htake : (v.vol.data x.directBlocks[i].toNat).take
          (if x.size - bytesRead > sb.blockSize then sb.blockSize else x.size - bytesRead).toNat =
          (v.vol.data x.directBlocks[i].toNat).take (x.size.toNat - i * g.blockSize) := by
        rw [hlen, ← List.take_take, List.take_of_length_le (hdata _ hb hb').le]
      rw [take_flatMap_cons (hdata _ hb hb'), ← hmul, ← htake]
      exact (directBlock_runs hi).bind ((mallocRead_runs hv hb hb' hg.blockSize).bind
        (hmore.bind (Runs.pure v _)))
    · intro hc
      -- another block follows, so this one is read in full
      have hfull : g.blockSize < x.size.toNat - i * g.blockSize := by
        rw [hnext, hmul, lt_pieces_iff hpos] at hc
        omega
      rw [UInt32.toNat_add, hlen, hbr, Nat.min_eq_right hfull.le, Nat.mod_eq_of_lt (by omega),
        Nat.add_mul, Nat.one_mul]

theorem toNat_roundUp {sb : Superblock} (hg : g.Describes sb) {len : UInt32}
    (h : len.toNat + g.blockSize ≤ 2 ^ 32) :
    (len + sb.blockSize - 1).toNat = len.toNat + g.blockSize - 1 := by
  have hpos := g.blockSize_pos
  rw [UInt32.toNat_sub, UInt32.toNat_add, hg.blockSize, UInt32.toNat_one]
  omega

theorem toNat_blockCount {sb : Superblock} (hg : g.Describes sb) {len : UInt32}
    (h : len.toNat + g.blockSize ≤ 2 ^ 32) :
    (blockCount sb len).toNat = pieces len.toNat g.blockSize := by
  rw [blockCount, UInt32.toNat_div, toNat_roundUp hg h, hg.blockSize, pieces]

theorem toNat_blocksUsed {sb : Superblock} (hg : g.Describes sb) {size : UInt32}
    (h : size.toNat + g.blockSize ≤ 2 ^ 32) :
    (blocksUsed sb size).toNat = pieces size.toNat g.blockSize := by
  unfold blocksUsed
  split_ifs with hsize
  · exact toNat_blockCount hg h
  · have h0 : size.toNat = 0 := by
      have := UInt32.le_iff_toNat_le.mp (UInt32.not_lt.mp hsize)
      rw [UInt32.toNat_zero] at this
      omega
    rw [h0, pieces_zero g.blockSize_pos, UInt32.toNat_zero]

/-- What the read loops rely on: the blocks of the inode are data blocks. -/
structure Readable (g : Geometry) (vol : Volume) (x : Inode) : Prop where
  layout : g.Describes vol.sb
  data_length : ∀ b, g.dataStart ≤ b → b < g.totalBlocks → (vol.data b).length = g.blockSize
  bounds : ∀ b ∈ blocksOf g x, g.dataStart ≤ b ∧ b < g.totalBlocks
  pieces_le : pieces x.size.toNat g.blockSize ≤ 16
  size_fits : x.size.toNat + 3 * g.blockSize < 2 ^ 32

theorem Sound.readable {vol : Volume} (hs : Sound g vol) {i : ℕ} {x : Inode}
    (hi : vol.inodes[i]? = some x) (hx : x.isUsed = 1) : Readable g vol x where
  layout := hs.layout
  data_length := hs.data_length
  bounds := fun _ hb => hs.block_bounds (own_live hi hx ▸ hb)
  pieces_le := (hs.live i x hi hx).pieces_le
  size_fits := hs.size_fits hi hx

theorem Readable.length_content {vol : Volume} {x : Inode} (h : Readable g vol x) :
    (vol.content g x).length = x.size.toNat := by
  have hlen : ((blocksOf g x).flatMap vol.data).length =
      (blocksOf g x).length * g.blockSize :=
    length_flatMap_const fun b hb => h.data_length b (h.bounds b hb).1 (h.bounds b hb).2
  have hle := h.pieces_le
  have hcount : (blocksOf g x).length = pieces x.size.toNat g.blockSize := by
    simp only [blocksOf, List.length_map, List.length_take, Vector.length_toList]
    omega
  have hsize := le_pieces_mul (n := x.size.toNat) g.blockSize_pos
  rw [Volume.content, List.length_take, hlen, hcount]
  omega

theorem readBlocks_runs (hv : v.faults = noFaults) {x : Inode} (h : Readable g v.vol x) :
    Runs (view g) v (readLoop v.vol.sb x (blockCount v.vol.sb x.size).toNat 0 0)
      (v.vol.content g x) v := by
  have hfit := h.size_fits
  have hread : Runs (view g) v
      (readLoop v.vol.sb x (pieces x.size.toNat g.blockSize) 0 0)
      (((blocksOf g x).flatMap v.vol.data).take (x.size.toNat - 0 * g.blockSize)) v := by
    refine readLoop_runs hv h.layout h.data_length ?_ ?_ ?_ h.bounds
    · rw [Nat.zero_add]; exact h.pieces_le
    · rw [Nat.zero_mul, Nat.sub_zero]
    · intro _; rw [Nat.zero_mul, UInt32.toNat_zero]
  rw [toNat_blockCount h.layout (by omega)]
  rwa [Nat.zero_mul, Nat.sub_zero] at hread

theorem readContent_runs (hv : v.faults = noFaults) {x : Inode} (h : Readable g v.vol x) :
    Runs (view g) v (readContent v.vol.sb x) (v.vol.content g x) v := by
  have hfit := h.size_fits
  have hpos := g.blockSize_pos
  unfold readContent
  split_ifs with hsize
  · have hroom : x.size.toNat < (x.size + 1).toNat := by
      rw [UInt32.toNat_add, UInt32.toNat_one]
      omega
    refine (Runs.require hroom).bind ((readBlocks_runs hv h).bind ?_)
    have hpad : (v.vol.content g x).rightpad x.size.toNat 0 = v.vol.content g x := by
      rw [List.rightpad, h.length_content, Nat.sub_self, List.replicate_zero, List.append_nil]
    rw [hpad]
    exact Runs.pure v _
  · have h0 : x.size.toNat = 0 := by
      have := UInt32.le_iff_toNat_le.mp (UInt32.not_lt.mp hsize)
      rw [UInt32.toNat_zero] at this
      omega
    rw [Volume.content, h0, List.take_zero]
    exact Runs.pure v _

/-! ## Writing -/

/-- Fresh blocks `held` were taken and filled with the pieces `f i, f (i + 1), ...`. -/
structure Placed (g : Geometry) (vol : Volume) (f : ℕ → List UInt8) (i : ℕ) (held : List ℕ)
    (vol' : Volume) : Prop where
  nodup : held.Nodup
  fresh : ∀ b ∈ held, b ∉ vol.used ∧ g.dataStart ≤ b ∧ b < g.totalBlocks
  used : vol'.used = vol.used ∪ held.toFinset
  sb : vol'.sb = { vol.sb with freeBlocks := vol.sb.freeBlocks - UInt32.ofNat held.length }
  data_at : ∀ (j : ℕ) (hj : j < held.length), vol'.data held[j] = f (i + j)
  data_other : ∀ b ∉ held, vol'.data b = vol.data b
  inodes : vol'.inodes = vol.inodes
  saved : vol'.saved = vol.saved

theorem Placed.nil (vol : Volume) (f : ℕ → List UInt8) (i : ℕ) : Placed g vol f i [] vol where
  nodup := List.nodup_nil
  fresh := by simp
  used := by simp
  sb := by simp
  data_at := by simp
  data_other := fun _ _ => rfl
  inodes := rfl
  saved := rfl

theorem Placed.cons {vol vol' : Volume} {f : ℕ → List UInt8} {i k : ℕ} {held : List ℕ}
    (hfree : k ∉ vol.used) (hk : g.dataStart ≤ k) (hk' : k < g.totalBlocks)
    (h : Placed g ((vol.take k).setData k (f i)) f (i + 1) held vol') :
    Placed g vol f i (k :: held) vol' := by
  have hnew : ∀ b ∈ held, b ≠ k ∧ b ∉ vol.used := by
    intro b hb
    have hnot := (h.fresh b hb).1
    change b ∉ insert k vol.used at hnot
    rw [Finset.mem_insert, not_or] at hnot
    exact hnot
  constructor
  · exact List.nodup_cons.mpr ⟨fun hmem => (hnew k hmem).1 rfl, h.nodup⟩
  · intro b hb
    rcases List.mem_cons.mp hb with rfl | hb
    · exact ⟨hfree, hk, hk'⟩
    · exact ⟨(hnew b hb).2, (h.fresh b hb).2⟩
  · rw [h.used]
    change insert k vol.used ∪ held.toFinset = _
    ext b
    simp only [Finset.mem_union, Finset.mem_insert, List.mem_toFinset, List.mem_cons]
    tauto
  · rw [h.sb]
    change { vol.sb with
      freeBlocks := vol.sb.freeBlocks - 1 - UInt32.ofNat held.length } = _
    have hsub : vol.sb.freeBlocks - 1 - UInt32.ofNat held.length =
        vol.sb.freeBlocks - UInt32.ofNat (k :: held).length := by
      rw [List.length_cons, UInt32.ofNat_add]
      grind
    rw [hsub]
  · intro j hj
    cases j with
    | zero =>
      have hother := h.data_other k (fun hmem => (hnew k hmem).1 rfl)
      simpa [Volume.setData] using hother
    | succ j =>
      have hj' := h.data_at j (Nat.lt_of_succ_lt_succ hj)
      rw [List.getElem_cons_succ, hj']
      congr 1
      omega
  · intro b hb
    rw [List.mem_cons, not_or] at hb
    rw [h.data_other b hb.2]
    exact Function.update_of_ne hb.1 _ _
  · exact h.inodes
  · exact h.saved

theorem toNat_block {k : ℕ} (hk : k < g.totalBlocks) : (UInt32.ofNat k).toNat = k := by
  have h := g.totalBlocks_lt
  exact toNat_word (by omega)

/-- The buffer `_do_write` fills for piece `i`. -/
theorem rightpad_take_eq_chunk {data : List UInt8} {i m n : ℕ}
    (hn : n = min (data.length - i * m) m) :
    ((data.drop (i * m)).take n).rightpad m 0 = chunk 0 m data i := by
  rw [chunk, slice, hn, Nat.min_comm, ← List.take_take,
    List.take_of_length_le (i := data.length - i * m)]
  rw [List.length_drop]

theorem setDirectBlock_runs {x : Inode} {i : ℕ} (hi : i < 16) (b : UInt32) :
    Runs (view g) v (setDirectBlock x i b)
      { x with directBlocks := x.directBlocks.set i b } v := by
  rw [setDirectBlock, dif_pos hi]
  exact Runs.pure v _

/-- The bytes a pass of the write loop puts into its block; if more are to come, it has written a
whole block. -/
theorem written_step {bs len written : UInt32} {i : ℕ} (hbs : bs.toNat = g.blockSize)
    (hwr : written.toNat = i * g.blockSize) (hle : i * g.blockSize ≤ len.toNat) {data : List UInt8}
    (hlen : data.length = len.toNat) {writeLen : UInt32}
    (hw : writeLen = if len - written > bs then bs else len - written) :
    ((data.drop written.toNat).take writeLen.toNat).rightpad bs.toNat 0 =
        chunk 0 g.blockSize data i ∧
      ((i + 1) * g.blockSize < len.toNat →
        (written + writeLen).toNat = (i + 1) * g.blockSize) := by
  have hsize := len.toNat_lt
  have hrest : (len - written).toNat = len.toNat - i * g.blockSize := by
    rw [UInt32.toNat_sub_of_le _ _ (UInt32.le_iff_toNat_le.mpr (by omega)), hwr]
  have hwl : writeLen.toNat = min (len.toNat - i * g.blockSize) g.blockSize := by
    rw [hw, toNat_readLen, hrest, hbs]
  constructor
  · rw [hwr, hbs]
    exact rightpad_take_eq_chunk (by rw [hwl, hlen])
  · intro hmore
    rw [Nat.add_mul, Nat.one_mul] at hmore ⊢
    rw [UInt32.toNat_add, hwl, hwr, Nat.min_eq_right (by omega), Nat.mod_eq_of_lt (by omega)]

theorem doWriteLoop_runs (hv : v.faults = noFaults) (hg : g.Describes v.vol.sb)
    (hres : ∀ b < g.dataStart, b ∈ v.vol.used) {data : List UInt8} {len : UInt32}
    (hlen : data.length = len.toNat) {count i : ℕ} {x : Inode} {written : UInt32}
    (hroom : v.vol.used.card + count ≤ g.totalBlocks) (h16 : i + count ≤ 16)
    (hcount : i + count ≤ max 1 (pieces len.toNat g.blockSize))
    (hwritten : 0 < count → written.toNat = i * g.blockSize ∧ i * g.blockSize ≤ len.toNat) :
    ∃ held d vol', held.length = count ∧ Placed g v.vol (chunk 0 g.blockSize data) i held vol' ∧
      Runs (view g) v (doWriteLoop data len count i x written) (some { x with directBlocks := d })
        (v.setVol vol') ∧
      slice 0 i d.toList = slice 0 i x.directBlocks.toList ∧
      blockRange { x with directBlocks := d } i count = held := by
  have hpos := g.blockSize_pos
  induction count generalizing v i x written with
  | zero =>
    exact ⟨[], x.directBlocks, v.vol, rfl, .nil _ _ _, Runs.pure _ _, rfl, by
      simp [blockRange, slice]⟩
  | succ count ih =>
    obtain ⟨hwr, hle⟩ := hwritten (Nat.succ_pos _)
    obtain ⟨k, hk, hfree, hleast⟩ := exists_least_free
      (show v.vol.used.card < g.totalBlocks by omega)
    have hi : i < 16 := by omega
    have hstart : g.dataStart ≤ k := by
      by_contra h
      exact hfree (hres k (not_le.mp h))
    have hkn := toNat_block hk
    let buf := chunk 0 g.blockSize data i
    let w1 := v.setVol (v.vol.take k)
    let w2 := w1.setVol (w1.vol.setData k buf)
    let y : Inode := { x with directBlocks := x.directBlocks.set i (UInt32.ofNat k) }
    have h1 : Runs (view g) v bitmapAllocateBlock (some (UInt32.ofNat k)) w1 :=
      bitmapAllocateBlock_runs hv hg hk hfree hleast
    have h2 : Runs (view g) w1 (diskWrite (UInt32.ofNat k) buf) 0 w2 := by
      have h := diskWrite_runs (g := g) (v := w1) hv (b := UInt32.ofNat k) (by rw [hkn]; exact hstart)
        (by rw [hkn]; exact hk) (length_chunk 0 g.blockSize data i)
      rwa [hkn] at h
    have hlayout : g.Describes w2.vol.sb := hg.freeBlocks _
    have hbs : w1.vol.sb.blockSize.toNat = g.blockSize := hg.blockSize
    let writeLen := if len - written > w1.vol.sb.blockSize then w1.vol.sb.blockSize
      else len - written
    obtain ⟨hbuf, hfull⟩ := written_step hbs hwr hle hlen (Eq.refl writeLen)
    have hcard : w2.vol.used.card = v.vol.used.card + 1 := Finset.card_insert_of_notMem hfree
    have hnext : 0 < count → (written + writeLen).toNat = (i + 1) * g.blockSize ∧
        (i + 1) * g.blockSize ≤ len.toNat := by
      intro hc
      -- another piece follows, so this one is a full block
      have hmore : (i + 1) * g.blockSize < len.toNat := by
        rw [← lt_pieces_iff hpos]
        omega
      exact ⟨hfull hmore, hmore.le⟩
    obtain ⟨held, d, vol', hlenh, hplaced, hrun, hkeep, hblocks⟩ :=
      @ih w2 hv hlayout (fun b hb => Finset.mem_insert_of_mem (hres b hb)) (i + 1) y
        (written + writeLen) (by omega) (by omega) (by omega) hnext
    have hkeep' (j : ℕ) (hj : j < i + 1) : d.toList[j]? = y.directBlocks.toList[j]? := by
      have h := congrArg (fun l : List UInt32 => l[j]?) hkeep
      simp only [getElem?_slice, Nat.zero_add, if_pos hj] at h
      exact h
    have hset (j : ℕ) : y.directBlocks.toList[j]? =
        if i = j then some (UInt32.ofNat k) else x.directBlocks.toList[j]? := by
      have hlt : i < x.directBlocks.toList.length := by rw [Vector.length_toList]; exact hi
      rw [Vector.toList_set, List.getElem?_set, if_pos hlt]
    refine ⟨k :: held, d, vol', by rw [List.length_cons, hlenh],
      hplaced.cons hfree hstart hk, ?_, ?_, ?_⟩
    · change _ = buf at hbuf
      rw [← hbuf] at h2
      exact h1.bind ((setDirectBlock_runs hi _).bind (getSb_runs.bind (h2.bind hrun)))
    · ext1 j
      rw [getElem?_slice, getElem?_slice, Nat.zero_add]
      by_cases hj : j < i
      · rw [if_pos hj, if_pos hj, hkeep' j (by omega), hset, if_neg (by omega)]
      · rw [if_neg hj, if_neg hj]
    · have hat : d[i] = UInt32.ofNat k := by
        have h := (hkeep' i (Nat.lt_succ_self i)).trans (hset i)
        rw [if_pos rfl, List.getElem?_eq_getElem (by rw [Vector.length_toList]; exact hi)] at h
        exact (Vector.getElem_toList _).symm.trans (Option.some.inj h)
      rw [blockRange_cons hi, ← hblocks, hat, hkn]

/-- What `_do_write` relies on: its inode owns its blocks, and the free counter is right. -/
structure Writable (g : Geometry) (vol : Volume) (x : Inode) : Prop where
  layout : g.Describes vol.sb
  reserved : ∀ b < g.dataStart, b ∈ vol.used
  used_lt : ∀ b ∈ vol.used, b < g.totalBlocks
  free_blocks : vol.sb.freeBlocks.toNat + vol.used.card = g.totalBlocks
  nodup : (blocksOf g x).Nodup
  used : ∀ b ∈ blocksOf g x, b ∈ vol.used
  data : ∀ b ∈ blocksOf g x, g.dataStart ≤ b
  pieces_le : pieces x.size.toNat g.blockSize ≤ 16
  size_fits : x.size.toNat + g.blockSize ≤ 2 ^ 32

theorem Sound.writable {vol : Volume} (hs : Sound g vol) {i : ℕ} {x : Inode}
    (hi : vol.inodes[i]? = some x) (hx : x.isUsed = 1) : Writable g vol x where
  layout := hs.layout
  reserved := fun b hb => hs.exclusive.reserved_used b (Finset.mem_range.mpr hb)
  used_lt := hs.used_lt
  free_blocks := hs.free_blocks
  nodup := own_live hi hx ▸ hs.exclusive.nodup i
  used := own_live hi hx ▸ hs.exclusive.own_used i
  data := fun b hb => (hs.block_bounds (own_live hi hx ▸ hb)).1
  pieces_le := (hs.live i x hi hx).pieces_le
  size_fits := by
    have := hs.size_fits hi hx
    omega

def blocksNeeded (g : Geometry) (len : ℕ) : ℕ := max 1 (pieces len g.blockSize)

/-- The outcome of a successful `_do_write`: the blocks `held` replace those of the inode. -/
structure Stored (g : Geometry) (vol : Volume) (x : Inode) (data : List UInt8) (held : List ℕ)
    (d : Vector UInt32 16) (vol' : Volume) : Prop where
  length : held.length = blocksNeeded g data.length
  room : held.length ≤ vol.sb.freeBlocks.toNat
  le16 : held.length ≤ 16
  nodup : held.Nodup
  fresh : ∀ b ∈ held, (b ∈ vol.used → b ∈ blocksOf g x) ∧ g.dataStart ≤ b ∧ b < g.totalBlocks
  blocks : blockRange { x with directBlocks := d } 0 held.length = held
  used : vol'.used = exchange vol.used (blocksOf g x) held
  sb : vol'.sb = { vol.sb with
    freeBlocks := vol.sb.freeBlocks + UInt32.ofNat (blocksOf g x).length -
      UInt32.ofNat held.length
    totalWrites := vol.sb.totalWrites + 1
    bytesWritten := vol.sb.bytesWritten + (UInt32.ofNat data.length).toUInt64 }
  data_at : ∀ (j : ℕ) (hj : j < held.length), vol'.data held[j] = chunk 0 g.blockSize data j
  data_other : ∀ b ∉ held, vol'.data b = vol.data b
  inodes : vol'.inodes = vol.inodes
  saved : vol'.saved = vol.saved

section DoWrite
variable {x : Inode} {data : List UInt8} {len : UInt32} {now : UInt64}

theorem toNat_needed {sb : Superblock} (hg : g.Describes sb) (h : len.toNat + g.blockSize ≤ 2 ^ 32) :
    (if blockCount sb len = 0 then 1 else blockCount sb len).toNat = blocksNeeded g len.toNat := by
  have hc := toNat_blockCount hg h
  unfold blocksNeeded
  split_ifs with h0
  · rw [h0, UInt32.toNat_zero] at hc
    rw [← hc]
    rfl
  · have hne : pieces len.toNat g.blockSize ≠ 0 := by
      rw [← hc]
      intro hz
      exact h0 (UInt32.toNat_inj.mp hz)
    omega

theorem needed_gt_iff {sb : Superblock} (hg : g.Describes sb) (h : len.toNat + g.blockSize ≤ 2 ^ 32)
    (b : UInt32) : (if blockCount sb len = 0 then 1 else blockCount sb len) > b ↔
      b.toNat < blocksNeeded g len.toNat := by
  rw [gt_iff_lt, UInt32.lt_iff_toNat_lt, toNat_needed hg h]

theorem doWrite_tooLarge (hg : g.Describes v.vol.sb) (hlen : len.toNat + g.blockSize ≤ 2 ^ 32)
    (hlarge : 16 < blocksNeeded g len.toNat) :
    Runs (view g) v (doWrite now x data len) none (v.say
      [.fileTooLarge maxDirectBlocks v.vol.sb.blockSize (maxDirectBlocks * v.vol.sb.blockSize)]) := by
  refine getSb_runs.bind ?_
  have hgt := (needed_gt_iff hg hlen maxDirectBlocks).mpr hlarge
  simp only [hgt, if_true]
  exact (emit_runs _).bind (Runs.pure _ _)

theorem doWrite_full (hg : g.Describes v.vol.sb) (hlen : len.toNat + g.blockSize ≤ 2 ^ 32)
    (hle : blocksNeeded g len.toNat ≤ 16)
    (hfull : v.vol.sb.freeBlocks.toNat < blocksNeeded g len.toNat) :
    Runs (view g) v (doWrite now x data len) none
      (v.say [.diskFull (UInt32.ofNat (blocksNeeded g len.toNat)) v.vol.sb.freeBlocks]) := by
  refine getSb_runs.bind ?_
  rw [← toNat_needed hg hlen, UInt32.ofNat_toNat]
  have hsmall := mt (needed_gt_iff hg hlen maxDirectBlocks).mp (not_lt.mpr hle)
  have hgt := (needed_gt_iff hg hlen v.vol.sb.freeBlocks).mpr hfull
  simp only [hsmall, hgt, if_true, if_false]
  exact (emit_runs _).bind (Runs.pure _ _)

/-- The blocks placed once the old ones are given back are what `_do_write` stores. -/
theorem Placed.stored {vol vol1 : Volume} {held : List ℕ} {d : Vector UInt32 16}
    (hp : Placed g (vol.releaseAll (blocksOf g x)) (chunk 0 g.blockSize data) 0 held vol1)
    (hlen : data.length = len.toNat) (hlength : held.length = blocksNeeded g data.length)
    (hle : held.length ≤ 16) (hroom : held.length ≤ vol.sb.freeBlocks.toNat)
    (hblocks : blockRange { x with directBlocks := d } 0 held.length = held) :
    Stored g vol x data held d (vol1.setSb fun sb => { sb with
      totalWrites := sb.totalWrites + 1, bytesWritten := sb.bytesWritten + len.toUInt64 }) where
  length := hlength
  room := hroom
  le16 := hle
  nodup := hp.nodup
  fresh := by
    intro b hb
    obtain ⟨hnot, hdata⟩ := hp.fresh b hb
    refine ⟨fun hused => ?_, hdata⟩
    by_contra hold
    exact hnot (Finset.mem_sdiff.mpr ⟨hused, fun h => hold (List.mem_toFinset.mp h)⟩)
  blocks := hblocks
  used := hp.used
  sb := by
    rw [hlen, UInt32.ofNat_toNat]
    change { vol1.sb with
      totalWrites := vol1.sb.totalWrites + 1
      bytesWritten := vol1.sb.bytesWritten + len.toUInt64 } = _
    rw [hp.sb]
    rfl
  data_at := by
    intro j hj
    have h := hp.data_at j hj
    rwa [Nat.zero_add] at h
  data_other := hp.data_other
  inodes := hp.inodes
  saved := hp.saved

/-- The count may be a wrapped one, which is smaller than what the data needs. -/
theorem needed_le {sb : Superblock} (hg : g.Describes sb) (len : UInt32) :
    (if blockCount sb len = 0 then 1 else blockCount sb len).toNat ≤ blocksNeeded g len.toNat := by
  have hpos := g.blockSize_pos
  have hsum : (len + sb.blockSize - 1).toNat ≤ len.toNat + g.blockSize - 1 := by
    rw [UInt32.toNat_sub, UInt32.toNat_add, hg.blockSize, UInt32.toNat_one]
    have hlen := len.toNat_lt
    have hbs := g.blockSize_lt
    omega
  have hcount : (blockCount sb len).toNat ≤ pieces len.toNat g.blockSize := by
    rw [blockCount, UInt32.toNat_div, hg.blockSize, pieces]
    exact Nat.div_le_div_right hsum
  unfold blocksNeeded
  split_ifs
  · exact le_max_left 1 _
  · exact hcount.trans (le_max_right 1 _)

/-- `_do_write` where the count of blocks, exact or not, passes both checks. -/
theorem doWrite_placed (hv : v.faults = noFaults) (now : UInt64) (hw : Writable g v.vol x)
    (hlen : data.length = len.toNat) {n : UInt32}
    (hn : (if blockCount v.vol.sb len = 0 then 1 else blockCount v.vol.sb len) = n)
    (hle : ¬ n > maxDirectBlocks) (hroom : ¬ n > v.vol.sb.freeBlocks) :
    ∃ held d vol1, held.length = n.toNat ∧
      Placed g (v.vol.releaseAll (blocksOf g x)) (chunk 0 g.blockSize data) 0 held vol1 ∧
      blockRange { x with directBlocks := d } 0 n.toNat = held ∧
      Runs (view g) v (doWrite now x data len)
        (some { x with directBlocks := d, size := len, modifiedAt := now })
        (v.setVol (vol1.setSb fun sb => { sb with
          totalWrites := sb.totalWrites + 1, bytesWritten := sb.bytesWritten + len.toUInt64 })) := by
  have hle16 : n.toNat ≤ 16 := UInt32.le_iff_toNat_le.mp (UInt32.not_lt.mp hle)
  have hfree : n.toNat ≤ v.vol.sb.freeBlocks.toNat :=
    UInt32.le_iff_toNat_le.mp (UInt32.not_lt.mp hroom)
  have hneeded : n.toNat ≤ blocksNeeded g len.toNat := hn ▸ needed_le hw.layout len
  let w1 := v.setVol (v.vol.releaseAll (blocksOf g x))
  have h1 : Runs (view g) v (freeBlocksLoop x (blocksUsed v.vol.sb x.size).toNat 0) () w1 := by
    rw [toNat_blocksUsed hw.layout hw.size_fits]
    exact freeBlocksLoop_runs hv (by have := hw.pieces_le; omega)
      fun b hb => hw.used_lt b (hw.used b hb)
  have hcard : w1.vol.used.card + (blocksOf g x).length = v.vol.used.card := by
    have hsub : (blocksOf g x).toFinset ⊆ v.vol.used :=
      fun b hb => hw.used b (List.mem_toFinset.mp hb)
    rw [← List.toFinset_card_of_nodup hw.nodup]
    exact Finset.card_sdiff_add_card_eq_card hsub
  have hres : ∀ b < g.dataStart, b ∈ w1.vol.used := by
    intro b hb
    refine Finset.mem_sdiff.mpr ⟨hw.reserved b hb, fun hold => ?_⟩
    have := hw.data b (List.mem_toFinset.mp hold)
    omega
  have hbegin : 0 < n.toNat →
      (0 : UInt32).toNat = 0 * g.blockSize ∧ 0 * g.blockSize ≤ len.toNat := by
    rw [Nat.zero_mul]
    exact fun _ => ⟨rfl, Nat.zero_le _⟩
  obtain ⟨held, d, vol1, hlenh, hp, h2, -, hblocks⟩ :=
    doWriteLoop_runs (g := g) (v := w1) hv (hw.layout.freeBlocks _) hres hlen (i := 0) (x := x)
      (show _ + n.toNat ≤ _ by
        have := hw.free_blocks
        omega) (by omega) (by rw [Nat.zero_add]; exact hneeded) hbegin
  have h3 : Runs (view g) (w1.setVol vol1) (setSb fun sb => { sb with
      totalWrites := sb.totalWrites + 1, bytesWritten := sb.bytesWritten + len.toUInt64 }) ()
      (v.setVol (vol1.setSb fun sb => { sb with
        totalWrites := sb.totalWrites + 1, bytesWritten := sb.bytesWritten + len.toUInt64 })) := by
    refine setSb_runs ?_
    change g.Describes { vol1.sb with
      totalWrites := vol1.sb.totalWrites + 1
      bytesWritten := vol1.sb.bytesWritten + len.toUInt64 }
    rw [hp.sb]
    exact { hw.layout with }
  refine ⟨held, d, vol1, hlenh, hp, hblocks, getSb_runs.bind ?_⟩
  simp only [hn, hle, hroom, if_false]
  exact h1.bind (h2.bind (h3.bind (Runs.pure _ _)))

theorem doWrite_stored (hv : v.faults = noFaults) (hw : Writable g v.vol x)
    (hlen : data.length = len.toNat) (hfit : len.toNat + g.blockSize ≤ 2 ^ 32)
    (hle : blocksNeeded g len.toNat ≤ 16)
    (hroom : blocksNeeded g len.toNat ≤ v.vol.sb.freeBlocks.toNat) :
    ∃ held d vol', Stored g v.vol x data held d vol' ∧
      Runs (view g) v (doWrite now x data len)
        (some { x with directBlocks := d, size := len, modifiedAt := now }) (v.setVol vol') := by
  have hsmall := mt (needed_gt_iff hw.layout hfit maxDirectBlocks).mp (not_lt.mpr hle)
  have hfree := mt (needed_gt_iff hw.layout hfit v.vol.sb.freeBlocks).mp (not_lt.mpr hroom)
  obtain ⟨held, d, vol1, hlenh, hp, hblocks, hrun⟩ :=
    doWrite_placed hv now hw hlen rfl hsmall hfree
  rw [toNat_needed hw.layout hfit] at hlenh hblocks
  refine ⟨held, d, _, ?_, hrun⟩
  rw [← hlenh] at hle hroom hblocks
  exact hp.stored hlen (by rw [hlenh, hlen]) hle hroom hblocks

end DoWrite

end MiniFs.Image
