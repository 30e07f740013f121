import MiniFs.Spec.Abstraction

/-! # Commands that write one inode

A command that takes no blocks leaves the data alone and writes the inode table in one
slot. This follows the table on the disk through such a command while system calls fail.
-/

set_option autoImplicit false

namespace MiniFs.Image
open MiniFs.Core Library Library.Exec Library.ByteRange Library.BitArray Library.Chunks

variable {g : Geometry} {vol : Volume} {S S' : Set (List Inode)} {disk : List UInt8} {s : World}
variable {x : Inode} {i : ℕ}

def HasTable (g : Geometry) (vol : Volume) (S : Set (List Inode)) (disk : List UInt8) : Prop :=
  ∃ bytes vol', Holds g disk bytes vol' ∧ g.Describes vol'.saved ∧ vol'.inodes ∈ S ∧
    vol'.data = vol.data

def Tabled (g : Geometry) (vol : Volume) (S : Set (List Inode)) (s : World) : Prop :=
  ∃ disk bytes sb, Running g disk bytes sb s ∧ HasTable g vol S disk

def putSlot (i : ℕ) (x : Inode) (S : Set (List Inode)) : Set (List Inode) :=
  S ∪ (fun t => t.set i x) '' S

theorem HasTable.mono (h : HasTable g vol S disk) (hsub : S ⊆ S') : HasTable g vol S' disk := by
  obtain ⟨bytes, vol', hh, hsaved, ht, hdata⟩ := h
  exact ⟨bytes, vol', hh, hsaved, hsub ht, hdata⟩

theorem Tabled.mono (h : Tabled g vol S s) (hsub : S ⊆ S') : Tabled g vol S' s := by
  obtain ⟨disk, bytes, sb, hrun, ht⟩ := h
  exact ⟨disk, bytes, sb, hrun, ht.mono hsub⟩

/-- A process of the volume, whatever happens next. -/
theorem Represents.tabled {v : View} (h : Represents g s v) (hs : Sound g v.vol) (f : ℕ → Fault) :
    Tabled g v.vol {v.vol.inodes} (callTape.set f s) := by
  obtain ⟨disk, bytes, hfile, hmem, hh, -⟩ := h.memory
  have hrun : Running g disk bytes s.sb s :=
    ⟨h.sb ▸ h.layout, rfl, h.fd, h.size, hfile, hmem, hh.length, hh.length_bytes⟩
  exact ⟨disk, bytes, s.sb, hrun.disturb f, bytes, v.vol, hh, hs.saved ▸ hs.layout, rfl, rfl⟩

theorem Represents.content_of_bounds {v : View} (h : Represents g s v)
    (hb : ∀ b ∈ blocksOf g x, g.dataStart ≤ b ∧ b < g.totalBlocks) :
    s.content x = v.vol.content g x := by
  have hdata : ∀ b ∈ blocksOf g x, s.block b = v.vol.data b :=
    fun b hmem => h.block_eq (hb b hmem).1 (hb b hmem).2
  rw [World.content, h.blocksOf_eq, Volume.content, List.flatMap_congr hdata]

/-! ## Writes to the disk -/

theorem HasTable.writeInode (h : HasTable g vol S disk) (hi : i < g.maxInodes) (x : Inode) :
    HasTable g vol (putSlot i x S) (splice (g.slotPos i) (inodeCodec.encode x) disk) := by
  obtain ⟨bytes, vol', hh, hsaved, ht, hdata⟩ := h
  have hlt : i < vol'.inodes.length := hi.trans_eq hh.inodes_length.symm
  exact ⟨bytes, vol'.setInode i x, hh.writeInode hlt x, hsaved, .inr ⟨_, ht, rfl⟩, hdata⟩

theorem HasTable.writeSuperblock (h : HasTable g vol S disk) {sb : Superblock}
    (hsb : g.Describes sb) {buf : List UInt8} (hbuf : buf.length = g.blockSize)
    (hhead : slice 0 superblockSize buf = superblockCodec.encode sb) :
    HasTable g vol S (splice 0 buf disk) := by
  obtain ⟨bytes, vol', hh, -, ht, hdata⟩ := h
  exact ⟨bytes, _, hh.writeSuperblock hbuf hhead, hsb, ht, hdata⟩

theorem HasTable.writeBits (h : HasTable g vol S disk) {bytes : List UInt8}
    (hlen : bytes.length = g.bitmapBlocks * g.blockSize) (hi : i < g.bitmapBlocks) :
    HasTable g vol S
      (splice (g.blockPos (1 + i)) (slice (i * g.blockSize) g.blockSize bytes) disk) := by
  obtain ⟨old, vol', hh, hsaved, ht, hdata⟩ := h
  obtain ⟨used, hused⟩ := hh.writeBits hlen hi
  exact ⟨_, _, hused, hsaved, ht, hdata⟩

theorem HasTable.written (h : HasTable g vol S disk) {off : ℕ} {new disk' : List UInt8}
    (hw : Written off new disk disk') (hsub : S ⊆ S')
    (hnew : HasTable g vol S' (splice off new disk)) : HasTable g vol S' disk' := by
  cases hw with
  | inl heq => exact heq ▸ hnew
  | inr heq => exact heq ▸ h.mono hsub

/-! ## The primitives -/

section Primitives
variable {α : Type} {Q : α → World → Prop}

theorem Tabled.total {m : M α} (h : ∀ disk bytes sb, HasTable g vol S disk →
    Total (Running g disk bytes sb) m Q) : Total (Tabled g vol S) m Q := by
  rintro s ⟨disk, bytes, sb, hrun, ht⟩
  exact h disk bytes sb ht s hrun

/-- A program is followed from each of the tables. -/
theorem Tabled.each {m : M α} (h : ∀ t ∈ S, Total (Tabled g vol {t}) m Q) :
    Total (Tabled g vol S) m Q := by
  rintro s ⟨disk, bytes, sb, hrun, saved, vol', hh, hsaved, ht, hdata⟩
  exact h _ ht s ⟨disk, bytes, sb, hrun, saved, vol', hh, hsaved, rfl, hdata⟩

theorem emit_tabled (msg : Message) : Total (Tabled g vol S) (emit msg) fun _ => Tabled g vol S :=
  Tabled.total fun disk bytes sb ht =>
    (emit_total msg).weaken fun _ _ hrun => ⟨disk, bytes, sb, hrun, ht⟩

theorem refuse_tabled {r : α} {msg : Message} :
    Total (Tabled g vol S) (do emit msg; pure r : M α) fun _ => Tabled g vol S :=
  (emit_tabled msg).seq fun _ => .pure fun _ h => h

theorem getSb_bind_tabled {k : Superblock → M α}
    (hk : ∀ sb, g.Describes sb → Total (Tabled g vol S) (k sb) Q) :
    Total (Tabled g vol S) (getSb >>= k) Q := by
  refine Total.bind (I := fun sb s => g.Describes sb ∧ Tabled g vol S s) (.ask ?_) fun sb =>
    .fact (fun _ h => h.1) fun hg => (hk sb hg).conseq (fun _ h => h.2) fun _ _ h => h
  rintro s ⟨disk, bytes, sb, hrun, ht⟩
  exact ⟨hrun.sb ▸ hrun.layout, disk, bytes, sb, hrun, ht⟩

theorem setSb_bind_tabled {f : Superblock → Superblock} {k : Unit → M α}
    (hk : Total (Tabled g vol S) (k ()) Q) (hf : ∀ sb, g.Describes sb → g.Describes (f sb)) :
    Total (Tabled g vol S) (setSb f >>= k) Q := by
  refine Total.seq (R := Tabled g vol S) (.update fun s h => ?_) fun _ => hk
  obtain ⟨disk, bytes, sb, hrun, ht⟩ := h
  exact ⟨disk, bytes, f sb, { hrun with layout := hf sb hrun.layout, sb := congrArg f hrun.sb }, ht⟩

/-- A slot is read as it stands in the table, or not at all. -/
theorem inodeRead_tabled {id : UInt32} (hid : id.toNat = i) (hi : i < g.maxInodes)
    {t : List Inode} : Total (Tabled g vol {t}) (inodeRead id) fun r s =>
      Tabled g vol {t} s ∧ ∀ x, r = some x → t[i]? = some x := by
  refine Tabled.total fun disk bytes sb ht => (inodeRead_total hid hi).weaken fun r s h => ?_
  obtain ⟨hrun, hr⟩ := h
  refine ⟨⟨disk, bytes, sb, hrun, ht⟩, fun x hx => ?_⟩
  obtain ⟨saved, vol', hh, -, rfl, -⟩ := ht
  have hlt : i < vol'.inodes.length := hi.trans_eq hh.inodes_length.symm
  have hslot : slotAt g disk i = vol'.inodes[i] := by
    rw [slotAt, hh.inode _ hlt, inodeCodec.decode_encode]
  rcases hr with rfl | rfl
  · cases hx
  · rw [List.getElem?_eq_getElem hlt, ← hslot]
    exact hx

theorem inodeWrite_tabled {id : UInt32} (hid : id.toNat = i) (hi : i < g.maxInodes) (x : Inode) :
    Total (Tabled g vol S) (inodeWrite id x) fun _ => Tabled g vol (putSlot i x S) := by
  refine Tabled.total fun disk bytes sb ht => (inodeWrite_total hid hi x).weaken fun _ s h => ?_
  obtain ⟨disk', hw, hrun⟩ := h
  exact ⟨disk', bytes, sb, hrun, ht.written hw Set.subset_union_left (ht.writeInode hi x)⟩

theorem mallocRead_tabled {b n : UInt32} (hb : b.toNat < g.totalBlocks)
    (hn : n.toNat = g.blockSize) :
    Total (Tabled g vol S) (mallocRead b n) fun _ => Tabled g vol S :=
  Tabled.total fun disk bytes sb ht =>
    (mallocRead_total hb hn).weaken fun _ _ h => ⟨disk, bytes, sb, h.1, ht⟩

theorem diskWriteSb_tabled : Total (Tabled g vol S) diskWriteSb fun _ => Tabled g vol S := by
  refine Tabled.total fun disk bytes sb ht => .fact (fun _ h => h.layout) fun hg => ?_
  refine diskWriteSb_total.weaken fun _ s h => ?_
  obtain ⟨buf, disk', hbuf, hhead, hw, hrun⟩ := h
  exact ⟨disk', bytes, sb, hrun, ht.written hw subset_rfl (ht.writeSuperblock hg hbuf hhead)⟩

theorem bitmapSync_tabled : Total (Tabled g vol S) bitmapSync fun _ => Tabled g vol S := by
  refine Tabled.total fun disk bytes sb ht => .ask_bind (fun _ h => h.sb) ?_
  refine .ask_bind (fun _ h => h.bitmap) ?_
  refine .fact (fun _ h => h.layout) fun hg => .fact (fun _ h => h.length_bitmap) fun hlen => ?_
  let P (s : World) : Prop := ∃ disk, Running g disk bytes sb s ∧ HasTable g vol S disk
  have hpass (i : ℕ) (hi : i < 0 + sb.bitmapBlocks.toNat) :
      Total P (syncBitmapBlock sb bytes i) fun _ => P := by
    rw [Nat.zero_add, hg.bitmapBlocks] at hi
    refine .ex fun d => .fact (fun _ h => h.2) fun hd => ?_
    refine (syncBitmapBlock_total hi).conseq (fun _ h => h.1) fun _ s h => ?_
    obtain ⟨disk', hw, hrun⟩ := h
    exact ⟨disk', hrun, hd.written hw subset_rfl (hd.writeBits hlen hi)⟩
  refine (Total.forLoop fun i _ hi => hpass i hi).conseq (fun _ hrun => ⟨disk, hrun, ht⟩)
    fun _ s h => ?_
  obtain ⟨disk', hrun, ht'⟩ := h
  exact ⟨disk', bytes, sb, hrun, ht'⟩

theorem bitmapFreeBlock_tabled (b : UInt32) :
    Total (Tabled g vol S) (bitmapFreeBlock b) fun _ => Tabled g vol S := by
  refine getSb_bind_tabled fun sb hg => ?_
  split_ifs with hle
  · exact .pure fun _ h => h
  · rw [UInt32.le_iff_toNat_le, hg.totalBlocks, not_le] at hle
    refine Tabled.total fun disk bytes sb ht => bitmapBytes_bind ?_
    refine .fact (fun _ h => bit_lt hle h.length_bitmap) fun hlt => .require_bind (fun _ _ => hlt) ?_
    refine Total.seq (R := Tabled g vol S) (.update fun s h => ?_) fun _ => ?_
    · exact ⟨disk, _, sb, h.remark (length_clearBit _ _), ht⟩
    · exact setSb_bind_tabled (bitmapSync_tabled.seq fun _ => .pure fun _ h => h)
        fun _ hd => { hd with }

theorem freeBlocksLoop_tabled {start count : ℕ} (h16 : start + count ≤ 16) :
    Total (Tabled g vol S) (freeBlocksLoop x count start) fun _ => Tabled g vol S := by
  refine Total.forLoop fun k _ hlt => ?_
  rw [directBlock_eq x (by omega), pure_bind]
  exact (bitmapFreeBlock_tabled _).seq fun _ => .pure fun _ h => h

theorem readLoop_tabled {sb : Superblock} (hg : g.Describes sb) {count : ℕ} {bytesRead : UInt32}
    (h16 : i + count ≤ 16) (hb : ∀ b ∈ blockRange x i count, b < g.totalBlocks) :
    Total (Tabled g vol S) (readLoop sb x count i bytesRead) fun _ => Tabled g vol S := by
  induction count generalizing i bytesRead with
  | zero => exact .pure fun _ h => h
  | succ count ih =>
    have hi : i < 16 := by omega
    rw [blockRange_cons hi] at hb
    rw [readLoop, directBlock_eq x hi, pure_bind]
    refine (mallocRead_tabled (hb _ List.mem_cons_self) hg.blockSize).seq fun _ => ?_
    refine (ih (by omega) fun b hmem => hb b (List.mem_cons_of_mem _ hmem)).seq fun _ => ?_
    exact .pure fun _ h => h

theorem readBlocks_tabled {sb : Superblock} (hg : g.Describes sb) (hx : Readable g vol x) :
    Total (Tabled g vol S) (readLoop sb x (blockCount sb x.size).toNat 0 0)
      fun _ => Tabled g vol S := by
  have hfit := hx.size_fits
  have h16 := hx.pieces_le
  rw [toNat_blockCount hg (by omega)]
  exact readLoop_tabled hg (by omega) fun b hb => (hx.bounds b hb).2

/-! ## Inodes -/

/-- A live inode of a name, in the slot of its number. -/
structure LiveIn (t : List Inode) (name : List UInt8) (i : ℕ) (x : Inode) : Prop where
  slot : t[i]? = some x
  live : x.isUsed = 1
  shown : x.shownName = name
  id : x.id.toNat = i

/-- A table whose live inodes can be read. -/
structure Neat (g : Geometry) (vol : Volume) (t : List Inode) : Prop where
  length : t.length = g.maxInodes
  live : ∀ (i : ℕ) (x : Inode), t[i]? = some x → x.isUsed = 1 → LiveAt g i x
  readable : ∀ (i : ℕ) (x : Inode), t[i]? = some x → x.isUsed = 1 → Readable g vol x

theorem Sound.readable_empty (hs : Sound g vol) (hsize : x.size = 0) : Readable g vol x := by
  have h0 : x.size.toNat = 0 := by rw [hsize]; rfl
  have hpieces : pieces x.size.toNat g.blockSize = 0 := by rw [h0, pieces_zero g.blockSize_pos]
  have hbs := g.blockSize_lt
  refine ⟨hs.layout, hs.data_length, fun b hb => ?_, by omega, by omega⟩
  rw [blocksOf, hpieces, List.take_zero, List.map_nil] at hb
  exact absurd hb List.not_mem_nil

theorem Readable.congr {x' : Inode} (h : Readable g vol x) (hsize : x'.size = x.size)
    (hblocks : x'.directBlocks = x.directBlocks) : Readable g vol x' := by
  have hsame : blocksOf g x' = blocksOf g x := by rw [blocksOf, blocksOf, hsize, hblocks]
  exact ⟨h.layout, h.data_length, hsame ▸ h.bounds, hsize ▸ h.pieces_le, hsize ▸ h.size_fits⟩

theorem Sound.neat (hs : Sound g vol) : Neat g vol vol.inodes :=
  ⟨hs.inodes_length, hs.live, fun _ _ => hs.readable⟩

variable {t : List Inode}

theorem Neat.lt_maxInodes (hn : Neat g vol t) (hi : t[i]? = some x) : i < g.maxInodes :=
  (List.getElem?_eq_some_iff.mp hi).1.trans_eq hn.length

/-- A slot may be free, or hold another inode that can be read. -/
theorem Neat.set (hn : Neat g vol t) (hlive : x.isUsed = 1 → LiveAt g i x)
    (hread : x.isUsed = 1 → Readable g vol x) : Neat g vol (t.set i x) where
  length := List.length_set.trans hn.length
  live j y hj hy := by
    rw [List.getElem?_set] at hj
    split_ifs at hj with hij
    · subst hij
      obtain rfl := Option.some.inj hj
      exact hlive hy
    · exact hn.live j y hj hy
  readable j y hj hy := by
    rw [List.getElem?_set] at hj
    split_ifs at hj with hij
    · obtain rfl := Option.some.inj hj
      exact hread hy
    · exact hn.readable j y hj hy

theorem matchName_tabled (hn : Neat g vol t) (name : CStr) (hi : i < g.maxInodes) :
    Total (Tabled g vol {t}) (matchName name i) fun r s =>
      r.elim (Tabled g vol {t} s) fun x =>
        Tabled g vol {t} s ∧ LiveIn t name.bytes i x := by
  refine (inodeRead_tabled (Geometry.toNat_slot hi) hi).bind fun r =>
    .fact (fun _ h => h.2) fun hslot => ?_
  cases r with
  | none => exact .pure fun _ h => h.1
  | some x =>
    dsimp only
    split_ifs with hlive
    · have hx := hn.live i x (hslot x rfl) hlive
      rw [nameEquals, require_pos (.inl hx.terminated : _ ∨ _), pure_bind]
      by_cases hname : x.shownName = name.bytes
      · simp only [hname, decide_true, pure_bind, if_true]
        exact .pure fun _ h => ⟨h.1, hslot x rfl, hlive, hname, hx.id⟩
      · simp only [hname, decide_false, pure_bind, Bool.false_eq_true, if_false]
        exact .pure fun _ h => h.1
    · exact .pure fun _ h => h.1

/-- A program that begins with a look-up. -/
theorem find_bind_tabled (hn : Neat g vol t) {name : CStr} {k : Option Inode → M α}
    (hnone : Total (Tabled g vol {t}) (k none) Q)
    (hsome : ∀ i x, LiveIn t name.bytes i x →
      Total (Tabled g vol {t}) (k (some x)) Q) :
    Total (Tabled g vol {t}) (inodeFindByName name >>= k) Q := by
  have hfind : Total (Tabled g vol {t}) (inodeFindByName name) fun r s =>
      r.elim (Tabled g vol {t} s) fun x =>
        Tabled g vol {t} s ∧ ∃ i, LiveIn t name.bytes i x := by
    refine getSb_bind_tabled fun sb hg => Total.search (fun i _ hlt => ?_) fun _ h => h
    rw [hg.maxInodes] at hlt
    refine (matchName_tabled hn name (by omega)).weaken fun r s h => ?_
    cases r with
    | none => exact h
    | some x => exact ⟨h.1, i, h.2⟩
  refine hfind.bind fun r => ?_
  cases r with
  | none => exact hnone
  | some x =>
    refine .fact (fun _ h => h.2) fun hx => ?_
    obtain ⟨i, hx⟩ := hx
    exact (hsome i x hx).conseq (fun _ h => h.1) fun _ _ h => h

theorem claimIfFree_tabled (hi : i < g.maxInodes) :
    Total (Tabled g vol {t}) (claimIfFree i) fun r s =>
      r.elim (Tabled g vol {t} s) fun x =>
        Tabled g vol (putSlot i (Inode.fresh i) {t}) s ∧ x = Inode.fresh i ∧
          x.id.toNat = i ∧ ∃ y, t[i]? = some y ∧ y.isUsed = 0 := by
  have hid := Geometry.toNat_slot hi
  refine (inodeRead_tabled hid hi).bind fun r => .fact (fun _ h => h.2) fun hslot => ?_
  cases r with
  | none => exact .pure fun _ h => h.1
  | some y =>
    dsimp only
    split_ifs with hfree
    · refine Total.conseq (setSb_bind_tabled ?_ fun _ hd => { hd with }) (fun _ h => h.1)
        fun _ _ h => h
      exact (inodeWrite_tabled hid hi _).seq fun _ =>
        .pure fun _ h => ⟨h, rfl, hid, y, hslot y rfl, hfree⟩
    · exact .pure fun _ h => h.1

theorem inodeAllocate_tabled : Total (Tabled g vol {t}) inodeAllocate fun r s =>
    r.elim (Tabled g vol {t} s) fun x => ∃ i,
      Tabled g vol (putSlot i (Inode.fresh i) {t}) s ∧ x = Inode.fresh i ∧
        x.id.toNat = i ∧ ∃ y, t[i]? = some y ∧ y.isUsed = 0 := by
  refine getSb_bind_tabled fun sb hg => Total.search (fun i _ hlt => ?_) fun _ h => h
  rw [hg.maxInodes] at hlt
  refine (claimIfFree_tabled (by omega)).weaken fun r s h => ?_
  cases r with
  | none => exact h
  | some x => exact ⟨i, h⟩

theorem inodeFree_tabled {id : UInt32} (hid : id.toNat = i) (hx : t[i]? = some x)
    (hi : i < g.maxInodes) : Total (Tabled g vol {t}) (inodeFree id) fun _ =>
      Tabled g vol (putSlot i { x with isUsed := 0 } {t}) := by
  refine (inodeRead_tabled hid hi).bind fun r => .fact (fun _ h => h.2) fun hslot => ?_
  cases r with
  | none => exact .pure fun _ h => h.1.mono Set.subset_union_left
  | some y =>
    obtain rfl := Option.some.inj (hx.symm.trans (hslot y rfl))
    exact Total.conseq (setSb_bind_tabled (inodeWrite_tabled hid hi _) fun _ hd => { hd with })
      (fun _ h => h.1) fun _ _ h => h

end Primitives

end MiniFs.Image
