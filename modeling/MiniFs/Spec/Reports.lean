import MiniFs.Spec.Abstraction
import MiniFs.Image.Remount

/-! # The reports refine the flat ones

What `ls`, `stat`, `statfs` and `fsck` print of a sound volume, message by message.
-/

set_option autoImplicit false

namespace MiniFs.Image
open MiniFs.Core MiniFs.Spec Library Library.Exec Library.ByteRange Library.Chunks

variable {g : Geometry} {v : View} {i : ℕ} {x : Inode}

theorem slotRead_runs (hv : Steady g v) (hi : v.vol.inodes[i]? = some x) :
    Runs (view g) v (inodeRead (UInt32.ofNat i)) (some x) v :=
  hv.sound.inodeRead_runs hv.faults hi

theorem View.say_say (v : View) (l k : List Message) : (v.say l).say k = v.say (l ++ k) := by
  simp only [View.say, List.append_assoc]

theorem View.say_nil (v : View) : v.say [] = v := by
  rw [View.say, List.append_nil]

theorem View.flat_say (v : View) (msgs : List Message) :
    (v.say msgs).flat g = (v.flat g).say (msgs.map seen) := by
  rw [View.flat, View.say, List.map_append]
  rfl

/-! ## `ls` -/

/-- The line `ls` prints for an inode, if it prints one. -/
def row (x : Inode) : Option Message :=
  if x.isUsed = 1 then
    some (.lsRow x.shownName x.size x.id x.modifiedAt (modeToStr x.mode))
  else none

theorem lsLoop_runs (hv : Steady g v) {count i : ℕ} (hi : i + count ≤ g.maxInodes) :
    Runs (view g) v (lsLoop count i) (((v.vol.inodes.drop i).take count).filterMap row).length
      (v.say (((v.vol.inodes.drop i).take count).filterMap row)) := by
  induction count generalizing v i with
  | zero =>
    rw [List.take_zero, List.filterMap_nil, v.say_nil]
    exact Runs.pure v 0
  | succ count ih =>
    have hlt : i < v.vol.inodes.length := by
      rw [hv.sound.inodes_length]
      omega
    rw [List.drop_eq_getElem_cons hlt, List.take_succ_cons, List.filterMap_cons]
    refine (slotRead_runs hv (List.getElem?_eq_getElem hlt)).bind ?_
    by_cases hlive : v.vol.inodes[i].isUsed = 1
    · simp only [row, hlive, if_true]
      refine (emit_runs _).bind ((ih (hv.say _) (by omega)).bind ?_)
      rw [View.say_say]
      exact Runs.pure _ _
    · simp only [row, hlive, if_false]
      exact ih hv (by omega)

theorem fsLs_runs (hv : Steady g v) : Runs (view g) v fsLs 0 (v.say (v.vol.inodes.filterMap row ++
    (if v.vol.inodes.filterMap row = [] then [.emptyDirectory] else []) ++
    [.lsTotals (v.vol.inodes.filterMap row).length (v.vol.sb.maxInodes - v.vol.sb.freeInodes)
      v.vol.sb.maxInodes (v.vol.sb.dataBlocks - v.vol.sb.freeBlocks) v.vol.sb.dataBlocks])) := by
  have hall : 0 + v.vol.sb.maxInodes.toNat ≤ g.maxInodes := by
    rw [Nat.zero_add, hv.sound.layout.maxInodes]
  have hloop := lsLoop_runs hv hall
  rw [List.drop_zero, List.take_of_length_le (by
    rw [hv.sound.inodes_length, hv.sound.layout.maxInodes])] at hloop
  refine getSb_runs.bind (hloop.bind ?_)
  simp only [List.length_eq_zero_iff]
  split_ifs
  · refine (emit_runs _).bind ((emit_runs _).bind ?_)
    rw [View.say_say, View.say_say, ← List.append_assoc]
    exact Runs.pure _ _
  · refine (emit_runs _).bind ?_
    rw [View.say_say, List.append_nil]
    exact Runs.pure _ _

theorem flat_entries (hs : Sound g v.vol) :
    (v.flat g).entries.map (fun p => Flat.lsRow p.1 p.2) = v.vol.inodes.filterMap row := by
  have hfiles : (v.flat g).files = v.vol.inodes.map (Inode.file? (v.vol.content g)) := rfl
  have hinodes : v.vol.inodes.filterMap row = v.vol.inodes.zipIdx.filterMap (row ∘ Prod.fst) := by
    rw [← List.filterMap_map, List.zipIdx_map_fst]
  rw [hinodes, Flat.entries, hfiles, List.zipIdx_map, List.filterMap_map, List.map_filterMap]
  refine List.filterMap_congr fun p hp => ?_
  have hi : v.vol.inodes[p.2]? = some p.1 := List.mem_zipIdx_iff_getElem?.mp hp
  by_cases hlive : p.1.isUsed = 1
  · have hid : p.1.id = UInt32.ofNat p.2 := by
      rw [← (hs.live _ _ hi hlive).id, UInt32.ofNat_toNat]
    simp only [Function.comp_apply, Prod.map_fst, Prod.map_snd, id, file?_live hlive,
      Option.map_some, Flat.lsRow, hs.file_size hi hlive, row, hlive, if_true, hid]
    rfl
  · simp only [Function.comp_apply, Prod.map_fst, Inode.file?, hlive, if_false, Option.map_none,
      row]

theorem ls_flat (hv : Steady g v) : ∃ v', Runs (view g) v fsLs 0 v' ∧ Steady g v' ∧
    (v.flat g).ls = (0, v'.flat g) := by
  refine ⟨_, fsLs_runs hv, hv.say _, ?_⟩
  have hrows := flat_entries (g := g) hv.sound
  have hempty : (v.flat g).entries = [] ↔ v.vol.inodes.filterMap row = [] := by
    rw [← hrows, List.map_eq_nil_iff]
  have hlen : (v.flat g).entries.length = (v.vol.inodes.filterMap row).length := by
    rw [← hrows, List.length_map]
  have hseen : (v.vol.inodes.filterMap row).map seen = v.vol.inodes.filterMap row := by
    rw [← hrows, List.map_map]
    rfl
  rw [Flat.ls, hrows, View.flat_say, List.map_append, List.map_append, hseen, hlen]
  simp only [hempty]
  split_ifs <;> rfl

/-! ## `stat` and `statfs` -/

theorem pointerLoop_runs {count i : ℕ} (h : i + count ≤ 16) :
    Runs (view g) v (pointerLoop x count i) (slice i count x.directBlocks.toList) v := by
  induction count generalizing i with
  | zero =>
    rw [slice, List.take_zero]
    exact Runs.pure v []
  | succ count ih =>
    have hi : i < 16 := by omega
    rw [slice, List.drop_eq_getElem_cons (by rw [Vector.length_toList]; exact hi),
      List.take_succ_cons, Vector.getElem_toList]
    exact (directBlock_runs hi).bind ((ih (by omega)).bind (Runs.pure _ _))

theorem stat_flat (hv : Steady g v) (name : CStr) : ∃ r v', Runs (view g) v (fsStat name) r v' ∧
    Steady g v' ∧ (v.flat g).stat name = (r, v'.flat g) := by
  have hs := hv.sound
  have hfind := inodeFindByName_runs hs hv.faults name
  cases hlook : v.vol.lookup name.bytes with
  | none =>
    rw [hlook] at hfind
    refine ⟨-1, v.say [.fileNotFound name.bytes], hfind.bind ((emit_runs _).bind (Runs.pure _ _)),
      hv.say _, ?_⟩
    rw [Flat.stat, View.flat_say, View.flat, find_none hlook]
    rfl
  | some x =>
    rw [hlook] at hfind
    obtain ⟨i, hat⟩ := exists_foundAt hlook
    have hlive := hs.live i x hat.slot hat.live
    have hfit := hs.size_fits hat.slot hat.live
    have hused : (blocksUsed v.vol.sb x.size).toNat = pieces x.size.toNat g.blockSize :=
      toNat_blocksUsed hs.layout (by omega)
    have hpieces := hlive.pieces_le
    refine ⟨0, _, hfind.bind (getSb_runs.bind ((pointerLoop_runs ?_).bind
      ((emit_runs _).bind (Runs.pure _ _)))), hv.say _, ?_⟩
    · omega
    · have hid : x.id = UInt32.ofNat i := by rw [← hlive.id, UInt32.ofNat_toNat]
      have hblocks : UInt32.ofNat ((v.flat g).blocks x.size.toNat) = blocksUsed v.vol.sb x.size := by
        rw [View.flat, hs.flat_blocks, ← hused, UInt32.ofNat_toNat]
      have hfound : (v.flat g).find name.bytes = some (i, x.file (v.vol.content g x)) := hat.find
      simp only [Flat.stat, hfound, Inode.file_content, hs.length_content hat.slot hat.live,
        hs.file_size hat.slot hat.live, hblocks, ← hid]
      rw [View.flat_say]
      rfl

theorem statfs_flat (hv : Steady g v) : ∃ v', Runs (view g) v fsStatfs 0 v' ∧ Steady g v' ∧
    (v.flat g).statfs = (0, v'.flat g) :=
  ⟨_, getSb_runs.bind ((emit_runs _).bind (Runs.pure _ _)), hv.say _, by
    rw [View.flat_say]
    rfl⟩

/-! ## `fsck` -/

/-- The inodes `fsck` counts on a sound volume. -/
def countedInodes (vol : Volume) : List Inode → List Inode :=
  List.filter fun x => x.isUsed = 1 ∧ x.size ≤ maxDirectBlocks * vol.sb.blockSize

theorem fsckPointers_runs {sb : Superblock} {slot : UInt32} {count b : ℕ} (h : b + count ≤ 16)
    (hgood : ∀ blk ∈ slice b count x.directBlocks.toList,
      ¬(blk < sb.dataStart ∨ sb.totalBlocks ≤ blk)) :
    Runs (view g) v (fsckPointers sb slot x count b) 0 v := by
  induction count generalizing b with
  | zero => exact Runs.pure v 0
  | succ count ih =>
    have hb : b < 16 := by omega
    rw [slice, List.drop_eq_getElem_cons (by rw [Vector.length_toList]; exact hb),
      List.take_succ_cons, List.forall_mem_cons, Vector.getElem_toList] at hgood
    refine (directBlock_runs hb).bind ?_
    rw [if_neg hgood.1]
    exact ih (by omega) hgood.2

theorem Sound.pointers_good (hs : Sound g v.vol) (hi : v.vol.inodes[i]? = some x)
    (hx : x.isUsed = 1) : ∀ blk ∈ slice 0 (pieces x.size.toNat g.blockSize) x.directBlocks.toList,
      ¬(blk < v.vol.sb.dataStart ∨ v.vol.sb.totalBlocks ≤ blk) := by
  intro blk hblk
  have hmem : blk.toNat ∈ v.vol.own g i := by
    rw [own_live hi hx]
    exact List.mem_map_of_mem hblk
  have hbounds := hs.block_bounds hmem
  rw [UInt32.lt_iff_toNat_lt, UInt32.le_iff_toNat_le, hs.layout.dataStart, hs.layout.totalBlocks]
  omega

theorem fsckInode_runs (hv : Steady g v) (hi : v.vol.inodes[i]? = some x) (counts : FsckCounts) :
    Runs (view g) v (fsckInode v.vol.sb (UInt32.ofNat i) counts)
      ⟨counts.errors, counts.usedInodes + UInt32.ofNat (countedInodes v.vol [x]).length,
        counts.usedBlocks + UInt32.ofNat ((countedInodes v.vol [x]).map fun y =>
          pieces y.size.toNat g.blockSize).sum⟩ v := by
  have hs := hv.sound
  have hzero : UInt32.ofNat 0 = 0 := rfl
  refine (slotRead_runs hv hi).bind ?_
  rcases hs.isUsed_cases hi with hx | hx
  · have hno : countedInodes v.vol [x] = [] := by simp [countedInodes, hx]
    simp only [hx, if_true, hno, List.length_nil, List.map_nil, List.sum_nil, hzero,
      UInt32.add_zero]
    exact Runs.pure _ _
  have hlive := hs.live i x hi hx
  have hid : x.id = UInt32.ofNat i := by rw [← hlive.id, UInt32.ofNat_toNat]
  have hskips : FsckSkips v.vol.sb x ↔ ¬x.size ≤ maxDirectBlocks * v.vol.sb.blockSize := by
    have hlt := hs.slot_lt hi
    have h1 : ¬v.vol.sb.maxInodes ≤ x.id := by
      rw [UInt32.le_iff_toNat_le, hs.layout.maxInodes, hlive.id]
      omega
    have h2 : ¬(1 : UInt8) < x.isUsed := by rw [hx]; decide
    simp only [FsckSkips, h1, h2, false_or, UInt32.not_le]
  have hused : ¬x.isUsed = 0 := by rw [hx]; decide
  by_cases hsize : x.size ≤ maxDirectBlocks * v.vol.sb.blockSize
  · have hone : countedInodes v.vol [x] = [x] := by simp [countedInodes, hx, hsize]
    have hfit := hs.size_fits hi hx
    have hblocks : (blocksUsed v.vol.sb x.size).toNat = pieces x.size.toNat g.blockSize :=
      toNat_blocksUsed hs.layout (by omega)
    have hover : ¬blocksUsed v.vol.sb x.size > maxDirectBlocks := by
      rw [gt_iff_lt, UInt32.lt_iff_toNat_lt, hblocks]
      exact not_lt.mpr hlive.pieces_le
    have hpointers : Runs (view g) v (fsckPointers v.vol.sb (UInt32.ofNat i) x
        (pieces x.size.toNat g.blockSize) 0) 0 v :=
      fsckPointers_runs (by have := hlive.pieces_le; omega) (hs.pointers_good hi hx)
    simp only [hused, if_false, hskips, not_not.mpr hsize, hid, ne_eq, not_true_eq_false, hover,
      hone, hblocks, List.map_singleton, List.sum_singleton, List.length_singleton]
    refine (Runs.pure _ _).bind (hpointers.bind ?_)
    rw [← hblocks, UInt32.ofNat_toNat]
    exact Runs.pure _ _
  · have hno : countedInodes v.vol [x] = [] := by simp [countedInodes, hsize]
    simp only [hused, if_false, hskips, hsize, not_false_eq_true, if_true, hno, List.length_nil,
      List.map_nil, List.sum_nil, hzero, UInt32.add_zero]
    exact Runs.pure _ _

theorem fsckWalk_runs (hv : Steady g v) {count i : ℕ} (hi : i + count ≤ g.maxInodes)
    (counts : FsckCounts) : Runs (view g) v (fsckWalk v.vol.sb count i counts)
      ⟨counts.errors, counts.usedInodes +
          UInt32.ofNat (countedInodes v.vol ((v.vol.inodes.drop i).take count)).length,
        counts.usedBlocks + UInt32.ofNat
          ((countedInodes v.vol ((v.vol.inodes.drop i).take count)).map fun y =>
            pieces y.size.toNat g.blockSize).sum⟩ v := by
  induction count generalizing i counts with
  | zero =>
    have hzero : UInt32.ofNat 0 = 0 := rfl
    simp only [List.take_zero, countedInodes, List.filter_nil, List.length_nil, List.map_nil,
      List.sum_nil, hzero, UInt32.add_zero]
    exact Runs.pure _ _
  | succ count ih =>
    have hlt : i < v.vol.inodes.length := by
      rw [hv.sound.inodes_length]
      omega
    have hsplit : countedInodes v.vol ((v.vol.inodes.drop i).take (count + 1)) =
        countedInodes v.vol [v.vol.inodes[i]] ++
          countedInodes v.vol ((v.vol.inodes.drop (i + 1)).take count) := by
      rw [List.drop_eq_getElem_cons hlt, List.take_succ_cons, ← List.singleton_append,
        countedInodes, List.filter_append]
    rw [hsplit, List.length_append, List.map_append, List.sum_append, UInt32.ofNat_add,
      UInt32.ofNat_add, ← UInt32.add_assoc, ← UInt32.add_assoc]
    exact (fsckInode_runs hv (List.getElem?_eq_getElem hlt) counts).bind (ih (by omega) _)

/-- One of the two checks of the counters. -/
theorem check_runs {β : Type} {p : Prop} [Decidable p] {bad good : Message} {f : ℕ → M β} {b : β}
    {v' : View} (h : Runs (view g) (v.say [if p then bad else good]) (f (if p then 1 else 0)) b v') :
    Runs (view g) v (if p then do
        emit bad
        let n ← pure 1
        f n
      else do
        emit good
        let n ← pure 0
        f n) b v' := by
  split_ifs at h ⊢
  · exact (emit_runs _).bind ((Runs.pure _ _).bind h)
  · exact (emit_runs _).bind ((Runs.pure _ _).bind h)

theorem flat_counted (hs : Sound g v.vol) : (v.flat g).counted =
    (countedInodes v.vol v.vol.inodes).map fun x => x.file (v.vol.content g x) := by
  have hfiles : (v.flat g).files = v.vol.inodes.map (Inode.file? (v.vol.content g)) := rfl
  have hall : ∀ x ∈ v.vol.inodes, x.isUsed = 1 → (x.file (v.vol.content g x)).size = x.size := by
    intro x hx hlive
    obtain ⟨i, hi⟩ := List.mem_iff_getElem?.mp hx
    exact hs.file_size hi hlive
  rw [Flat.counted, hfiles]
  change List.filter (fun f : Spec.File => f.size ≤ maxDirectBlocks * v.vol.sb.blockSize) _ = _
  generalize v.vol.inodes = l at hall ⊢
  induction l with
  | nil => rfl
  | cons x l ih =>
    have htail := ih fun y hy => hall y (List.mem_cons_of_mem x hy)
    by_cases hlive : x.isUsed = 1
    · have hsize := hall x List.mem_cons_self hlive
      by_cases hle : x.size ≤ maxDirectBlocks * v.vol.sb.blockSize
      · simpa [countedInodes, file?_live, hlive, hsize, hle] using htail
      · simpa [countedInodes, file?_live, hlive, hsize, hle] using htail
    · simpa [countedInodes, Inode.file?, hlive] using htail

theorem fsFsck_runs (hv : Steady g v) {inodes blocks : UInt32}
    (hinodes : inodes = UInt32.ofNat (countedInodes v.vol v.vol.inodes).length)
    (hblocks : blocks = UInt32.ofNat ((countedInodes v.vol v.vol.inodes).map fun y =>
      pieces y.size.toNat g.blockSize).sum) :
    Runs (view g) v fsFsck (Flat.fsckReport v.vol.sb inodes blocks).1
      (v.say (Flat.fsckReport v.vol.sb inodes blocks).2) := by
  have hs := hv.sound
  have hmagic : ¬v.vol.sb.magic ≠ fsMagic := not_not.mpr hs.layout.magic
  have hall : 0 + v.vol.sb.maxInodes.toNat ≤ g.maxInodes := by
    rw [Nat.zero_add, hs.layout.maxInodes]
  have hlen : v.vol.inodes.length ≤ v.vol.sb.maxInodes.toNat := by
    rw [hs.inodes_length, hs.layout.maxInodes]
  have hwalk (msgs : List Message) : Runs (view g) (v.say msgs)
      (fsckWalk v.vol.sb v.vol.sb.maxInodes.toNat 0 ⟨0, 0, 0⟩) ⟨0, inodes, blocks⟩ (v.say msgs) := by
    have h := fsckWalk_runs (hv.say msgs) hall ⟨0, 0, 0⟩
    simp only [View.say, List.drop_zero, List.take_of_length_le hlen, UInt32.zero_add, ← hinodes,
      ← hblocks] at h
    exact h
  refine getSb_runs.bind (check_runs ?_)
  rw [if_neg hmagic, if_neg hmagic]
  refine (hwalk _).bind (check_runs (check_runs ((emit_runs _).bind ((emit_runs _).bind ?_))))
  rw [View.say_say, View.say_say, View.say_say, View.say_say, Nat.zero_add]
  exact Runs.pure _ _

theorem fsckReport_seen (sb : Superblock) (inodes blocks : UInt32) :
    (Flat.fsckReport sb inodes blocks).2.map seen = (Flat.fsckReport sb inodes blocks).2 := by
  simp only [Flat.fsckReport, List.map_cons, List.map_nil]
  split_ifs <;> rfl

theorem fsck_flat (hv : Steady g v) : ∃ r v', Runs (view g) v fsFsck r v' ∧ Steady g v' ∧
    (v.flat g).fsck = (r, v'.flat g) := by
  have hs := hv.sound
  have hinodes : UInt32.ofNat (v.flat g).counted.length =
      UInt32.ofNat (countedInodes v.vol v.vol.inodes).length := by
    rw [flat_counted hs, List.length_map]
  have hblocks : UInt32.ofNat (((v.flat g).counted.map fun f =>
      (v.flat g).blocks f.content.length).sum) = UInt32.ofNat
        ((countedInodes v.vol v.vol.inodes).map fun y => pieces y.size.toNat g.blockSize).sum := by
    rw [flat_counted hs, List.map_map]
    congr 2
    refine List.map_congr_left fun x hx => ?_
    obtain ⟨hmem, hlive⟩ := List.mem_filter.mp hx
    obtain ⟨i, hi⟩ := List.mem_iff_getElem?.mp hmem
    rw [Function.comp_apply, Inode.file_content,
      hs.length_content hi (of_decide_eq_true hlive).1, View.flat, hs.flat_blocks]
  refine ⟨_, _, fsFsck_runs hv hinodes hblocks, hv.say _, ?_⟩
  rw [View.flat_say, fsckReport_seen, Flat.fsck]
  rfl

end MiniFs.Image
