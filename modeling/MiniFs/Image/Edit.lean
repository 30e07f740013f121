import MiniFs.Image.Steps

/-! # Edits of one slot

Whatever an accepted operation does, it rewrites one inode and exchanges the
blocks of that slot for others. Such an edit keeps a volume sound and leaves the
files in the other slots alone.
-/

set_option autoImplicit false

namespace MiniFs.Image
open MiniFs.Core Library Library.Exec Library.ByteRange Library.Chunks Library.Ownership

def freeCount (x : Inode) : UInt32 := if x.isUsed = 0 then 1 else 0

theorem toNat_freeCount (x : Inode) : (freeCount x).toNat = if x.isUsed = 0 then 1 else 0 := by
  unfold freeCount
  split_ifs <;> rfl

/-- Slot `i` gets the inode `x'`, and the blocks it owned are exchanged for `held`. -/
structure Edit (g : Geometry) (vol : Volume) (i : ℕ) (x x' : Inode) (held : List ℕ)
    (vol' : Volume) : Prop where
  slot : vol.inodes[i]? = some x
  inodes : vol'.inodes = vol.inodes.set i x'
  used : vol'.used = exchange vol.used (ownedBy g x) held
  nodup : held.Nodup
  fresh : ∀ b ∈ held, (b ∈ vol.used → b ∈ ownedBy g x) ∧ g.dataStart ≤ b ∧ b < g.totalBlocks
  flag : x'.isUsed = 0 ∨ x'.isUsed = 1
  live : x'.isUsed = 1 → LiveAt g i x'
  own_nodup : (ownedBy g x').Nodup
  own_held : ∀ b ∈ ownedBy g x', b ∈ held
  layout : g.Describes vol'.sb
  saved : vol'.saved = vol'.sb
  free_blocks : vol'.sb.freeBlocks =
    vol.sb.freeBlocks + UInt32.ofNat (ownedBy g x).length - UInt32.ofNat held.length
  free_inodes : vol'.sb.freeInodes = vol.sb.freeInodes + freeCount x' - freeCount x
  data_other : ∀ b ∉ held, vol'.data b = vol.data b
  data_length : ∀ b ∈ held, (vol'.data b).length = g.blockSize

variable {g : Geometry} {vol vol' : Volume} {i : ℕ} {x x' : Inode} {held : List ℕ}

theorem Edit.own (h : Edit g vol i x x' held vol') :
    vol'.own g = Function.update (vol.own g) i (ownedBy g x') := by
  funext j
  rcases eq_or_ne j i with rfl | hj
  · have hlt := (List.getElem?_eq_some_iff.mp h.slot).1
    rw [Function.update_self, Volume.own, h.inodes, List.getElem?_set_self hlt, Option.map_some,
      Option.getD_some]
  · rw [Function.update_of_ne hj, Volume.own, Volume.own, h.inodes, List.getElem?_set_ne hj.symm]

/-- Slots other than the edited one hold what they held. -/
theorem Edit.slot_other (h : Edit g vol i x x' held vol') {j : ℕ} (hj : j ≠ i) :
    vol'.inodes[j]? = vol.inodes[j]? := by
  rw [h.inodes, List.getElem?_set_ne hj.symm]

theorem Edit.slot_self (h : Edit g vol i x x' held vol') : vol'.inodes[i]? = some x' := by
  rw [h.inodes, List.getElem?_set_self (List.getElem?_eq_some_iff.mp h.slot).1]

theorem countP_set {α : Type} {p : α → Bool} {l : List α} {i : ℕ} {x : α} (hi : l[i]? = some x)
    (y : α) :
    (l.set i y).countP p + (if p x then 1 else 0) = l.countP p + (if p y then 1 else 0) := by
  obtain ⟨hlt, rfl⟩ := List.getElem?_eq_some_iff.mp hi
  have hpos : (if p l[i] then 1 else 0) ≤ l.countP p := by
    split_ifs with hp
    · exact List.countP_pos_iff.mpr ⟨_, List.getElem_mem hlt, hp⟩
    · exact Nat.zero_le _
  rw [List.countP_set hlt]
  omega

namespace Sound

theorem card_edit (hs : Sound g vol) (h : Edit g vol i x x' held vol') :
    vol'.used.card + (ownedBy g x).length = vol.used.card + held.length := by
  have hown := Volume.own_eq (g := g) h.slot
  have hnodup := hs.exclusive.nodup i
  have hused := hs.exclusive.own_used i
  rw [hown] at hnodup hused
  rw [h.used]
  exact card_exchange hnodup hused h.nodup fun b hb => (h.fresh b hb).1

theorem edit (hs : Sound g vol) (h : Edit g vol i x x' held vol') : Sound g vol' := by
  have hown := Volume.own_eq (g := g) h.slot
  have hlt : ∀ b ∈ vol'.used, b < g.totalBlocks := by
    intro b hb
    rw [h.used, mem_exchange] at hb
    rcases hb with ⟨hb, -⟩ | hb
    · exact hs.used_lt b hb
    · exact (h.fresh b hb).2.2
  constructor
  · exact h.layout
  · exact h.saved
  · rw [h.inodes, List.length_set]
    exact hs.inodes_length
  · intro y hy
    rw [h.inodes] at hy
    rcases List.mem_or_eq_of_mem_set hy with hy | rfl
    · exact hs.flags y hy
    · exact h.flag
  · intro j y hy hlive
    rcases eq_or_ne j i with rfl | hj
    · obtain rfl : x' = y := Option.some.inj (h.slot_self.symm.trans hy)
      exact h.live hlive
    · exact hs.live j y (h.slot_other hj ▸ hy) hlive
  · rw [h.own, h.used, ← hown]
    refine hs.exclusive.reassign h.own_nodup h.own_held fun b hb => ?_
    rw [hown]
    exact (h.fresh b hb).1
  · exact hlt
  · have hcard := hs.card_edit h
    have hfree := hs.free_blocks
    have hle : vol'.used.card ≤ g.totalBlocks := by
      have hsub : vol'.used ⊆ Finset.range g.totalBlocks :=
        fun b hb => Finset.mem_range.mpr (hlt b hb)
      have hc := Finset.card_le_card hsub
      rwa [Finset.card_range] at hc
    have htot := g.totalBlocks_lt
    have hold : (ownedBy g x).length ≤ vol.used.card := by
      have hl := hs.exclusive.card_used {i}
      rw [Finset.sum_singleton, hown] at hl
      omega
    rw [h.free_blocks, UInt32.toNat_sub, UInt32.toNat_add,
      toNat_word (by omega),
      toNat_word (by omega)]
    omega
  · have hcount := countP_set (p := (·.isUsed = 0)) h.slot x'
    have hle : vol'.inodes.countP (·.isUsed = 0) ≤ vol'.inodes.length := List.countP_le_length
    rw [h.inodes, List.length_set, hs.inodes_length] at hle
    have hmax := g.maxInodes_lt
    have hfree := hs.free_inodes
    simp only [decide_eq_true_eq, ← toNat_freeCount] at hcount
    have hx := toNat_freeCount x
    have hx' := toNat_freeCount x'
    rw [h.free_inodes, h.inodes, UInt32.toNat_sub, UInt32.toNat_add]
    split_ifs at hx hx' <;> omega
  · intro b hb hb'
    by_cases hheld : b ∈ held
    · exact h.data_length b hheld
    · rw [h.data_other b hheld]
      exact hs.data_length b hb hb'

theorem counters_edit (hs : Sound g vol) (h : Edit g vol i x x' held vol') :
    vol'.sb.freeBlocks.toNat + held.length = vol.sb.freeBlocks.toNat + (ownedBy g x).length ∧
      vol'.sb.freeInodes.toNat + (freeCount x).toNat =
        vol.sb.freeInodes.toNat + (freeCount x').toNat := by
  have hs' := hs.edit h
  have hcard := hs.card_edit h
  have hblocks := hs.free_blocks
  have hblocks' := hs'.free_blocks
  have hcount := countP_set (p := (·.isUsed = 0)) h.slot x'
  simp only [decide_eq_true_eq, ← toNat_freeCount] at hcount
  have hinodes := hs.free_inodes
  have hinodes' := hs'.free_inodes
  rw [h.inodes] at hinodes'
  exact ⟨by omega, by omega⟩

theorem content_other (hs : Sound g vol) (h : Edit g vol i x x' held vol') {j : ℕ} {y : Inode}
    (hj : j ≠ i) (hy : vol.inodes[j]? = some y) (hlive : y.isUsed = 1) :
    vol'.content g y = vol.content g y := by
  have hown := Volume.own_eq (g := g) h.slot
  have hdata : ∀ b ∈ blocksOf g y, vol'.data b = vol.data b := by
    intro b hb
    rw [← own_live hy hlive] at hb
    refine h.data_other b fun hheld => ?_
    have hmine := (h.fresh b hheld).1 (hs.exclusive.own_used j b hb)
    rw [← hown] at hmine
    exact hs.exclusive.disjoint j i hj b hb hmine
  rw [Volume.content, Volume.content, List.flatMap_congr hdata]

end Sound

/-! ## The edits of the operations -/

theorem LiveAt.of_eq (h : LiveAt g i x) (hid : x'.id = x.id) (hsize : x'.size.toNat ≤ x.size.toNat)
    (hname : x'.name[31] = x.name[31]) : LiveAt g i x' where
  id := hid ▸ h.id
  size := hsize.trans h.size
  name_end := hname.trans h.name_end

theorem strncpy_last (dst : Vector UInt8 maxFilenameLen) (src : CStr) :
    (Inode.strncpy dst src)[31] = dst[31] := by
  simp [Inode.strncpy]

theorem liveAt_newInode (hi : i < g.maxInodes) (now : UInt64) (name : CStr) (mode : UInt16) :
    LiveAt g i (newInode now i name mode) where
  id := Geometry.toNat_slot hi
  size := Nat.zero_le _
  name_end := strncpy_last _ _

theorem ownedBy_live (hx : x.isUsed = 1) : ownedBy g x = blocksOf g x := if_pos hx

theorem ownedBy_free (hx : x.isUsed = 0) : ownedBy g x = [] := if_neg (by rw [hx]; decide)

theorem freeCount_live (hx : x.isUsed = 1) : freeCount x = 0 := if_neg (by rw [hx]; decide)

theorem freeCount_free (hx : x.isUsed = 0) : freeCount x = 1 := if_pos hx

/-- The blocks recorded after a write: all of them, but none if there is no content. -/
theorem Stored.blocksOf_storedInode {data : List UInt8} {d : Vector UInt32 16} {vol1 : Volume}
    (h : Stored g vol x data held d vol1) {len : UInt32} (hlen : data.length = len.toNat)
    (now : UInt64) :
    blocksOf g (storedInode now x d len) = held.take (pieces data.length g.blockSize) := by
  have hle : pieces data.length g.blockSize ≤ held.length := by
    rw [h.length, blocksNeeded]
    omega
  have hb := h.blocks
  rw [blocksOf_eq]
  change blockRange { x with directBlocks := d } 0 (pieces len.toNat g.blockSize) = _
  conv_rhs => rw [← hb]
  rw [blockRange, blockRange, ← List.map_take, slice, slice, List.take_take, Nat.min_eq_left hle,
    hlen]

/-- A write through `_do_write`, for an inode `y` that takes over the slot and the blocks of `x`
in a volume `vol0` that has the blocks of `vol`. -/
theorem Stored.edit (hi : vol.inodes[i]? = some x) {y : Inode} (hy : y.isUsed = 1)
    (hlive : LiveAt g i y) {data : List UInt8} {d : Vector UInt32 16} {vol0 vol1 : Volume}
    (h : Stored g vol0 y data held d vol1) {len : UInt32} (hlen : data.length = len.toNat)
    (now : UInt64) (hblocks : blocksOf g y = ownedBy g x) (hlayout : g.Describes vol0.sb)
    (hused : vol0.used = vol.used) (hdata : vol0.data = vol.data)
    (hinodes : ∀ z, vol0.inodes.set i z = vol.inodes.set i z)
    (hfree : vol0.sb.freeBlocks = vol.sb.freeBlocks)
    (hslots : vol0.sb.freeInodes = vol.sb.freeInodes - freeCount x) :
    Edit g vol i x (storedInode now y d len) held
      (vol1.setInode i (storedInode now y d len)).save := by
  have hown : ownedBy g (storedInode now y d len) =
      held.take (pieces data.length g.blockSize) :=
    (ownedBy_live (x := storedInode now y d len) hy).trans (h.blocksOf_storedInode hlen now)
  have hpieces : pieces data.length g.blockSize ≤ 16 := by
    have := h.length
    have := h.le16
    rw [blocksNeeded] at *
    omega
  constructor
  · exact hi
  · change vol1.inodes.set i _ = _
    rw [h.inodes, hinodes]
  · rw [← hblocks, ← hused]
    exact h.used
  · exact h.nodup
  · rw [← hblocks, ← hused]
    exact h.fresh
  · exact .inr hy
  · intro _
    refine ⟨hlive.id, ?_, hlive.name_end⟩
    change len.toNat ≤ _
    rw [← hlen]
    exact (pieces_le_iff g.blockSize_pos).mp hpieces
  · rw [hown]
    exact h.nodup.sublist (List.take_sublist _ _)
  · rw [hown]
    exact fun b hb => List.mem_of_mem_take hb
  · change g.Describes vol1.sb
    rw [h.sb]
    exact { hlayout with }
  · rfl
  · change vol1.sb.freeBlocks = _
    rw [h.sb, ← hblocks, ← hfree]
  · change vol1.sb.freeInodes = _
    rw [h.sb, freeCount_live (x := storedInode now y d len) hy, UInt32.add_zero]
    exact hslots
  · rw [← hdata]
    exact h.data_other
  · intro b hb
    obtain ⟨j, hj, rfl⟩ := List.getElem_of_mem hb
    change (vol1.data held[j]).length = _
    rw [h.data_at j hj]
    exact length_chunk _ _ _ _

theorem write_edit (hs : Sound g vol) (hi : vol.inodes[i]? = some x) (hx : x.isUsed = 1)
    {data : List UInt8} {d : Vector UInt32 16} {vol1 : Volume}
    (h : Stored g vol x data held d vol1) {len : UInt32} (hlen : data.length = len.toNat)
    (now : UInt64) :
    Edit g vol i x (storedInode now x d len) held
      (vol1.setInode i (storedInode now x d len)).save := by
  refine h.edit hi hx (hs.live i x hi hx) hlen now (ownedBy_live hx).symm hs.layout rfl rfl
    (fun _ => rfl) rfl ?_
  rw [freeCount_live hx, UInt32.sub_zero]

theorem copy_edit (hs : Sound g vol) (hi : vol.inodes[i]? = some x) (hx : x.isUsed = 0)
    {now : UInt64} {name : CStr} {mode : UInt16} {data : List UInt8} {d : Vector UInt32 16}
    {vol1 : Volume}
    (h : Stored g (vol.claim i (Inode.fresh i)) (newInode now i name mode) data held d vol1)
    {len : UInt32} (hlen : data.length = len.toNat) :
    Edit g vol i x (storedInode now (newInode now i name mode) d len) held
      (vol1.setInode i (storedInode now (newInode now i name mode) d len)).save := by
  have hnil := blocksOf_newInode g now i name mode
  refine h.edit hi rfl (liveAt_newInode (hs.slot_lt hi) now name mode) hlen now
    (hnil.trans (ownedBy_free hx).symm) (hs.layout.freeInodes _) rfl rfl
    (fun _ => List.set_set _) rfl ?_
  rw [freeCount_free hx]
  rfl

/-- An edit that only gives blocks back, namely the last ones of the file. -/
theorem shrink_edit (hs : Sound g vol) (hi : vol.inodes[i]? = some x) (hx : x.isUsed = 1)
    {dropped : List ℕ} (hsplit : ownedBy g x' ++ dropped = ownedBy g x)
    (hflag : x'.isUsed = 0 ∨ x'.isUsed = 1) (hlive : LiveAt g i x')
    (hinodes : vol'.inodes = vol.inodes.set i x') (hused : vol'.used = vol.used \ dropped.toFinset)
    (hlayout : g.Describes vol'.sb) (hsaved : vol'.saved = vol'.sb)
    (hblocks : vol'.sb.freeBlocks = vol.sb.freeBlocks + UInt32.ofNat dropped.length)
    (hslots : vol'.sb.freeInodes = vol.sb.freeInodes + freeCount x') (hdata : vol'.data = vol.data) :
    Edit g vol i x x' (ownedBy g x') vol' := by
  have hown := Volume.own_eq (g := g) hi
  have hnodup := hs.exclusive.nodup i
  have hin := hs.exclusive.own_used i
  have hbounds : ∀ b ∈ ownedBy g x, g.dataStart ≤ b ∧ b < g.totalBlocks :=
    fun b hb => hs.block_bounds (hown.symm ▸ hb)
  rw [hown, ← hsplit] at hnodup hin
  obtain ⟨hkept, -, hdis⟩ := List.nodup_append.mp hnodup
  have hsub : ∀ b ∈ ownedBy g x', b ∈ ownedBy g x :=
    fun b hb => hsplit ▸ List.mem_append_left _ hb
  constructor
  · exact hi
  · exact hinodes
  · rw [hused]
    ext b
    rw [mem_exchange, Finset.mem_sdiff, List.mem_toFinset, ← hsplit, List.mem_append]
    constructor
    · rintro ⟨hb, hnot⟩
      by_cases hk : b ∈ ownedBy g x'
      · exact .inr hk
      · exact .inl ⟨hb, fun h => h.elim hk hnot⟩
    · rintro (⟨hb, hnot⟩ | hk)
      · exact ⟨hb, fun h => hnot (.inr h)⟩
      · exact ⟨hin b (List.mem_append_left _ hk), fun h => hdis b hk b h rfl⟩
  · exact hkept
  · exact fun b hb => ⟨fun _ => hsub b hb, hbounds b (hsub b hb)⟩
  · exact hflag
  · exact fun _ => hlive
  · exact hkept
  · exact fun b hb => hb
  · exact hlayout
  · exact hsaved
  · rw [hblocks, ← hsplit, List.length_append, UInt32.ofNat_add]
    grind
  · rw [hslots, freeCount_live hx, UInt32.sub_zero]
  · intro b _
    rw [hdata]
  · intro b hb
    rw [hdata]
    exact hs.data_length b (hbounds b (hsub b hb)).1 (hbounds b (hsub b hb)).2

theorem keep_edit (hs : Sound g vol) (hi : vol.inodes[i]? = some x) (hx : x.isUsed = 1)
    (hx' : x'.isUsed = 1) (hblocks : blocksOf g x' = blocksOf g x) (hlive : LiveAt g i x')
    (hinodes : vol'.inodes = vol.inodes.set i x') (hused : vol'.used = vol.used)
    (hlayout : g.Describes vol'.sb) (hsaved : vol'.saved = vol'.sb)
    (hfree : vol'.sb.freeBlocks = vol.sb.freeBlocks)
    (hslots : vol'.sb.freeInodes = vol.sb.freeInodes) (hdata : vol'.data = vol.data) :
    Edit g vol i x x' (ownedBy g x') vol' := by
  have hsplit : ownedBy g x' ++ [] = ownedBy g x := by
    rw [List.append_nil, ownedBy_live hx', ownedBy_live hx, hblocks]
  refine shrink_edit hs hi hx hsplit (.inr hx') hlive hinodes ?_ hlayout hsaved ?_ ?_ hdata
  · rw [hused, List.toFinset_nil, Finset.sdiff_empty]
  · rw [hfree]
    simp
  · rw [hslots, freeCount_live hx', UInt32.add_zero]

theorem read_edit (hs : Sound g vol) (hi : vol.inodes[i]? = some x) (hx : x.isUsed = 1)
    (now : UInt64) :
    Edit g vol i x { x with accessedAt := now } (ownedBy g { x with accessedAt := now })
      ((vol.setInode i { x with accessedAt := now }).setSb fun sb => { sb with
        totalReads := sb.totalReads + 1, bytesRead := sb.bytesRead + x.size.toUInt64 }).save :=
  keep_edit hs hi hx hx rfl ((hs.live i x hi hx).of_eq rfl le_rfl rfl) rfl rfl
    { hs.layout with } rfl rfl rfl rfl

theorem rename_edit (hs : Sound g vol) (hi : vol.inodes[i]? = some x) (hx : x.isUsed = 1)
    (now : UInt64) (newName : CStr) :
    Edit g vol i x { x with name := Inode.strncpy x.name newName, modifiedAt := now }
      (ownedBy g { x with name := Inode.strncpy x.name newName, modifiedAt := now })
      (vol.setInode i { x with name := Inode.strncpy x.name newName, modifiedAt := now }) := by
  have hname := strncpy_last x.name newName
  have hlive := hs.live i x hi hx
  exact keep_edit hs hi hx hx (by simp only [blocksOf])
    ⟨hlive.id, hlive.size, hname.trans hlive.name_end⟩ rfl rfl
    hs.layout hs.saved rfl rfl rfl

theorem chmod_edit (hs : Sound g vol) (hi : vol.inodes[i]? = some x) (hx : x.isUsed = 1)
    (now : UInt64) (mode : UInt16) :
    Edit g vol i x { x with mode := mode, modifiedAt := now }
      (ownedBy g { x with mode := mode, modifiedAt := now })
      (vol.setInode i { x with mode := mode, modifiedAt := now }) :=
  keep_edit hs hi hx hx rfl ((hs.live i x hi hx).of_eq rfl le_rfl rfl) rfl rfl hs.layout hs.saved
    rfl rfl rfl

theorem truncate_edit (hs : Sound g vol) (hi : vol.inodes[i]? = some x) (hx : x.isUsed = 1)
    {newSize : UInt32} (hle : newSize ≤ x.size) (now : UInt64) :
    Edit g vol i x { x with size := newSize, modifiedAt := now }
      (ownedBy g { x with size := newSize, modifiedAt := now })
      ((vol.releaseAll (droppedBlocks g x newSize)).setInode i
        { x with size := newSize, modifiedAt := now }).save := by
  have hlive := hs.live i x hi hx
  have hsplit : ownedBy g { x with size := newSize, modifiedAt := now } ++
      droppedBlocks g x newSize = ownedBy g x := by
    rw [ownedBy_live hx, ownedBy_live (x := { x with size := newSize, modifiedAt := now }) hx]
    exact kept_append_dropped hle now
  refine shrink_edit hs hi hx hsplit (.inr hx) ?_ rfl rfl (hs.layout.freeBlocks _) rfl rfl ?_ rfl
  · exact hlive.of_eq rfl (UInt32.le_iff_toNat_le.mp hle) rfl
  · rw [freeCount_live (x := { x with size := newSize, modifiedAt := now }) hx, UInt32.add_zero]
    rfl

theorem delete_edit (hs : Sound g vol) (hi : vol.inodes[i]? = some x) (hx : x.isUsed = 1) :
    Edit g vol i x { x with isUsed := 0 } [] ((vol.releaseAll (blocksOf g x)).unclaim i x).save := by
  have hnone : ownedBy g { x with isUsed := 0 } = [] :=
    ownedBy_free (x := { x with isUsed := 0 }) rfl
  rw [← hnone]
  refine shrink_edit hs hi hx ?_ (.inl rfl) ((hs.live i x hi hx).of_eq rfl le_rfl rfl) rfl rfl
    ((hs.layout.freeBlocks _).freeInodes _) rfl rfl ?_ rfl
  · rw [hnone, List.nil_append, ownedBy_live hx]
  · rw [freeCount_free (x := { x with isUsed := 0 }) rfl]
    rfl

theorem claim_edit (hs : Sound g vol) (hi : vol.inodes[i]? = some x) (hx : x.isUsed = 0)
    (now : UInt64) (name : CStr) (mode : UInt16) :
    Edit g vol i x (newInode now i name mode) [] (vol.claim i (newInode now i name mode)).save := by
  have hnew : ownedBy g (newInode now i name mode) = [] :=
    (ownedBy_live rfl).trans (blocksOf_newInode g now i name mode)
  constructor
  · exact hi
  · rfl
  · rw [ownedBy_free hx, exchange_nil]
    rfl
  · exact List.nodup_nil
  · exact fun b hb => absurd hb List.not_mem_nil
  · exact .inr rfl
  · exact fun _ => liveAt_newInode (hs.slot_lt hi) now name mode
  · rw [hnew]
    exact List.nodup_nil
  · rw [hnew]
    exact fun b hb => hb
  · exact hs.layout.freeInodes _
  · rfl
  · rw [ownedBy_free hx]
    change vol.sb.freeBlocks = _
    simp
  · rw [freeCount_live (x := newInode now i name mode) rfl, freeCount_free hx, UInt32.add_zero]
    rfl
  · exact fun _ _ => rfl
  · exact fun b hb => absurd hb List.not_mem_nil

/-! ## What an operation keeps -/

/-- The blocks an operation takes and does not record: the one a write of no content takes. -/
def lostBlocks (vol : Volume) (op : FileOp) : ℕ := if storedLength vol op = some 0 then 1 else 0

theorem lostBlocks_some {op : FileOp} {n : ℕ} (h : storedLength vol op = some n) :
    lostBlocks vol op = if n = 0 then 1 else 0 := by
  simp only [lostBlocks, h, Option.some_inj]

theorem Stored.length_eq {y : Inode} {data : List UInt8} {d : Vector UInt32 16} {vol0 vol1 : Volume}
    (h : Stored g vol0 y data held d vol1) (hy : y.isUsed = 1) {len : UInt32}
    (hlen : data.length = len.toNat) (now : UInt64) :
    held.length = (ownedBy g (storedInode now y d len)).length + if data.length = 0 then 1 else 0 := by
  have hzero := pieces_eq_zero_iff (n := data.length) g.blockSize_pos
  rw [ownedBy_live (x := storedInode now y d len) hy, h.blocksOf_storedInode hlen now,
    List.length_take, h.length, blocksNeeded]
  split_ifs <;> omega

theorem length_toNat_ofNat {data : CStr} (h : data.strlen + g.blockSize ≤ 2 ^ 32) :
    data.bytes.length = (UInt32.ofNat data.strlen).toNat := by
  have hpos := g.blockSize_pos
  exact (toNat_word (n := data.strlen) (by omega)).symm

theorem length_append (hread : Readable g vol x) {data : CStr}
    (h : x.size.toNat + data.strlen + g.blockSize ≤ 2 ^ 32) :
    (vol.content g x ++ data.bytes).length = (x.size + UInt32.ofNat data.strlen).toNat ∧
      (vol.content g x ++ data.bytes).length = x.size.toNat + data.strlen := by
  have hpos := g.blockSize_pos
  have hlen : data.bytes.length = (UInt32.ofNat data.strlen).toNat :=
    length_toNat_ofNat (g := g) (by omega)
  have hsum : (vol.content g x ++ data.bytes).length = x.size.toNat + data.strlen := by
    rw [List.length_append, hread.length_content]
    rfl
  refine ⟨?_, hsum⟩
  rw [hsum, UInt32.toNat_add, ← hlen]
  exact (Nat.mod_eq_of_lt (by omega)).symm

/-- Every accepted operation is an edit of one slot. -/
theorem Accepted.edit (hs : Sound g vol) {now : UInt64} {op : FileOp} (hfit : Fits g vol op)
    {msgs : List Message} (h : Accepted g now op vol vol' msgs) :
    ∃ i x x' held, Edit g vol i x x' held vol' ∧
      held.length = (ownedBy g x').length + lostBlocks vol op := by
  have hpos := g.blockSize_pos
  cases h with
  | create hlen hnew hslot =>
    refine ⟨_, _, _, _, claim_edit hs hslot.slot hslot.free now _ _, ?_⟩
    rw [ownedBy_live rfl, blocksOf_newInode]
    rfl
  | @write _ _ name data _ _ _ _ hat hst =>
    have hlen := length_toNat_ofNat (hfit data.strlen rfl)
    refine ⟨_, _, _, _, write_edit hs hat.slot hat.live hst hlen now, ?_⟩
    rw [hst.length_eq hat.live hlen now, lostBlocks_some rfl]
    rfl
  | @append _ _ name data _ x _ _ hat hst =>
    have hstored : storedLength vol (.append name data) = some (x.size.toNat + data.strlen) := by
      rw [storedLength, hat.lookup, Option.map_some]
    have hlen := length_append (hs.readable hat.slot hat.live) (hfit _ hstored)
    refine ⟨_, _, _, _, write_edit hs hat.slot hat.live hst hlen.1 now, ?_⟩
    rw [hst.length_eq hat.live hlen.1 now, lostBlocks_some hstored, hlen.2]
  | read hat => exact ⟨_, _, _, _, read_edit hs hat.slot hat.live now, rfl⟩
  | rename hlen hat hnew => exact ⟨_, _, _, _, rename_edit hs hat.slot hat.live now _, rfl⟩
  | copyEmpty hat hnew hslot hsize =>
    refine ⟨_, _, _, _, claim_edit hs hslot.slot hslot.free now _ _, ?_⟩
    rw [ownedBy_live rfl, blocksOf_newInode]
    rfl
  | @copy _ _ _ _ _ _ _ y _ _ hat hnew hslot hsize hst =>
    have hlen := (hs.readable hat.slot hat.live).length_content
    refine ⟨_, _, _, _, copy_edit hs hslot.slot hslot.free hst hlen, ?_⟩
    have hne : (vol.content g y).length ≠ 0 := by
      rw [hlen]
      exact fun h0 => hsize (UInt32.toNat_inj.mp h0)
    rw [hst.length_eq rfl hlen now, if_neg hne]
    rfl
  | truncate hat hle => exact ⟨_, _, _, _, truncate_edit hs hat.slot hat.live hle now, rfl⟩
  | chmod hat => exact ⟨_, _, _, _, chmod_edit hs hat.slot hat.live now _, rfl⟩
  | delete hat =>
    refine ⟨_, _, _, _, delete_edit hs hat.slot hat.live, ?_⟩
    rw [ownedBy_free rfl]
    rfl

/-- A rejected operation changes nothing, or rewrites a slot that was free and stays free. -/
theorem Rejected.cases {op : FileOp} {msg : Message} (h : Rejected g op vol vol' msg) :
    vol' = vol ∨ ∃ i x, FirstFree vol i x ∧
      vol' = vol.setInode i { Inode.fresh i with isUsed := 0 } := by
  cases h with
  | copyFull hat hnew hslot hsize hfull => exact .inr ⟨_, _, hslot, rfl⟩
  | _ => exact .inl rfl

theorem free_edit (hs : Sound g vol) (hi : vol.inodes[i]? = some x) (hx : x.isUsed = 0)
    (hx' : x'.isUsed = 0) : Edit g vol i x x' [] (vol.setInode i x') where
  slot := hi
  inodes := rfl
  used := by
    rw [ownedBy_free hx, exchange_nil]
    rfl
  nodup := List.nodup_nil
  fresh := fun b hb => absurd hb List.not_mem_nil
  flag := .inl hx'
  live := fun h => absurd (hx'.symm.trans h) (by decide)
  own_nodup := by rw [ownedBy_free hx']; exact List.nodup_nil
  own_held := by rw [ownedBy_free hx']; exact fun b hb => hb
  layout := hs.layout
  saved := hs.saved
  free_blocks := by
    rw [ownedBy_free hx]
    change vol.sb.freeBlocks = _
    simp
  free_inodes := by
    rw [freeCount_free hx, freeCount_free hx', UInt32.add_sub_cancel]
    rfl
  data_other := fun _ _ => rfl
  data_length := fun b hb => absurd hb List.not_mem_nil

theorem Outcome.sound {v v' : View} (hs : Sound g v.vol) {now : UInt64} {op : FileOp}
    (hfit : Fits g v.vol op) {r : Int} (h : Outcome g now op v r v') : Sound g v'.vol := by
  cases h with
  | accepted hstep hadv =>
    obtain ⟨i, x, x', held, hedit, -⟩ := hstep.edit hs hfit
    rw [hadv.vol]
    exact hs.edit hedit
  | rejected hstep hadv =>
    rw [hadv.vol]
    rcases hstep.cases with rfl | ⟨i, x, hslot, rfl⟩
    · exact hs
    · exact hs.edit (free_edit hs hslot.slot hslot.free rfl)

end MiniFs.Image
