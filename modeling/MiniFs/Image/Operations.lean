import MiniFs.Image.Steps

/-! # The file operations on a sound volume

Each operation returns, and its outcome is one of the listed steps.
-/

set_option autoImplicit false

namespace MiniFs.Image
open MiniFs.Core Library Library.Exec Library.ByteRange Library.Chunks Library.Ownership

variable {g : Geometry} {v : View} {now : UInt64}

theorem sound_id {vol : Volume} (hs : Sound g vol) {i : ℕ} {x : Inode}
    (hi : vol.inodes[i]? = some x) (hx : x.isUsed = 1) : x.id.toNat = i :=
  (hs.live i x hi hx).id

/-- The last steps of most operations: write the inode, save the superblock, report. -/
def finish (id : UInt32) (x : Inode) (msg : Message) : M Int := do
  let _ ← inodeWrite id x
  let _ ← diskWriteSb
  emit msg
  pure 0

theorem finish_runs (hv : v.faults = noFaults) {id : UInt32} {i : ℕ} (hid : id.toNat = i)
    (hlen : v.vol.inodes.length = g.maxInodes) (hi : i < g.maxInodes) {x : Inode} {vol' : Volume}
    (hvol : v.vol.setInode i x = vol') (msg : Message) :
    Runs (view g) v (finish id x msg) 0 ((v.setVol vol').save.say [msg]) := by
  have h1 : Runs (view g) v (inodeWrite id x) 0 (v.setVol (v.vol.setInode i x)) :=
    inodeWrite_runs hv hid (by rw [hlen]; exact hi) hlen
  have h2 : Runs (view g) (v.setVol vol') diskWriteSb 0 (v.setVol vol').save := diskWriteSb_runs hv
  rw [hvol] at h1
  exact h1.bind (h2.bind ((emit_runs msg).bind (Runs.pure _ _)))

theorem claim_setInode (vol : Volume) (i : ℕ) (x y : Inode) :
    (vol.claim i x).setInode i y = vol.claim i y := by
  simp only [Volume.claim, Volume.setInode, List.set_set]

theorem unclaim_claim (vol : Volume) (i : ℕ) (x : Inode) :
    (vol.claim i x).unclaim i x = vol.setInode i { x with isUsed := 0 } := by
  simp only [Volume.claim, Volume.unclaim, Volume.setInode, Volume.setSb, List.set_set,
    UInt32.sub_add_cancel]

theorem fsCreate_runs (hs : Sound g v.vol) (hv : v.faults = noFaults) (name : CStr) :
    ∃ r v', Runs (view g) v (fsCreate now name) r v' ∧ Outcome g now (.create name) v r v' := by
  have hfind := inodeFindByName_runs hs hv name
  unfold fsCreate
  by_cases hlen : maxFilenameLen ≤ name.strlen
  · rw [if_pos hlen]
    exact ⟨-1, _, (emit_runs _).bind (Runs.pure _ _),
      .rejected (.createLong hlen) ⟨rfl, rfl, rfl, id⟩⟩
  rw [if_neg hlen]
  cases hl : v.vol.lookup name.bytes with
  | some y =>
    refine ⟨-1, v.say [.fileExists name.bytes], hfind.bind ?_,
      .rejected (.createExists (not_le.mp hlen) (by rw [hl]; rfl)) ⟨rfl, rfl, rfl, id⟩⟩
    simp only [hl, Option.isSome_some, if_true]
    exact (emit_runs _).bind (Runs.pure _ _)
  | none =>
    rw [hl] at hfind
    by_cases hno : v.vol.sb.freeInodes = 0
    · refine ⟨-1, v.say [.noFreeInodesAvailable], hfind.bind (getSb_runs.bind ?_),
        .rejected (.createNoInode (not_le.mp hlen) hl hno) ⟨rfl, rfl, rfl, id⟩⟩
      simp only [hno, if_true]
      exact (emit_runs _).bind (Runs.pure _ _)
    · obtain ⟨i, x, hslot⟩ := hs.exists_firstFree hno
      have hlt := hs.slot_lt hslot.slot
      let x' := newInode now i name (fsIfreg ||| fsDefaultMode)
      have halloc := inodeAllocate_runs hs hv hslot
      have hfin := finish_runs (v := v.setVol (v.vol.claim i (Inode.fresh i))) hv
        (Geometry.toNat_slot hlt) (List.length_set.trans hs.inodes_length) hlt
        (claim_setInode v.vol i _ x')
        (.created name.bytes (UInt32.ofNat i) (fsIfreg ||| fsDefaultMode))
      refine ⟨0, ((v.setVol (v.vol.claim i x')).save.say [_]), hfind.bind (getSb_runs.bind ?_),
        .accepted (.create (not_le.mp hlen) hl hslot) ⟨rfl, rfl, rfl, fun _ => rfl⟩⟩
      simp only [hno, if_false]
      exact halloc.bind hfin

/-- An operation on a file: it is not there, or it is found in its slot. -/
theorem find_runs (hs : Sound g v.vol) (hv : v.faults = noFaults) {op : FileOp} {name : CStr}
    {msg : Message} (hsub : subject op = some (name, msg)) {k : Option Inode → M Int}
    (hmiss : Runs (view g) v (k none) (-1) (v.say [msg]))
    (hhit : ∀ i x, FoundAt v.vol name.bytes i x →
      ∃ r v', Runs (view g) v (k (some x)) r v' ∧ Outcome g now op v r v') :
    ∃ r v', Runs (view g) v (inodeFindByName name >>= k) r v' ∧ Outcome g now op v r v' := by
  have hfind := inodeFindByName_runs hs hv name
  cases hl : v.vol.lookup name.bytes with
  | none =>
    rw [hl] at hfind
    exact ⟨-1, v.say [msg], hfind.bind hmiss, .rejected (.notFound hsub hl) ⟨rfl, rfl, rfl, id⟩⟩
  | some x =>
    rw [hl] at hfind
    obtain ⟨i, hat⟩ := exists_foundAt hl
    obtain ⟨r, v', hrun, hout⟩ := hhit i x hat
    exact ⟨r, v', hfind.bind hrun, hout⟩

theorem fsDelete_runs (hs : Sound g v.vol) (hv : v.faults = noFaults) (name : CStr) :
    ∃ r v', Runs (view g) v (fsDelete name) r v' ∧ Outcome g now (.delete name) v r v' := by
  refine find_runs hs hv rfl ((emit_runs _).bind (Runs.pure _ _)) fun i x hat => ?_
  have hw := hs.writable hat.slot hat.live
  have hid := sound_id hs hat.slot hat.live
  let w1 := v.setVol (v.vol.releaseAll (blocksOf g x))
  let w2 := w1.setVol (w1.vol.unclaim i x)
  have hused : (blocksUsed v.vol.sb x.size).toNat = pieces x.size.toNat g.blockSize :=
    toNat_blocksUsed hs.layout hw.size_fits
  have h1 : Runs (view g) v (freeBlocksLoop x (blocksUsed v.vol.sb x.size).toNat 0) () w1 := by
    rw [hused]
    exact freeBlocksLoop_runs hv (by have := hw.pieces_le; omega)
      fun b hb => hw.used_lt b (hw.used b hb)
  have h2 : Runs (view g) w1 (inodeFree x.id) 0 w2 :=
    inodeFree_runs (v := w1) hv (hs.layout.freeBlocks _) hs.inodes_length hat.slot hid
  have h3 : Runs (view g) w2 diskWriteSb 0 w2.save := diskWriteSb_runs hv
  have hmsg : blocksUsed v.vol.sb x.size = UInt32.ofNat (blocksOf g x).length := by
    rw [(hs.live i x hat.slot hat.live).length_blocksOf, ← hused, UInt32.ofNat_toNat]
  have h4 : Runs (view g) w2.save (emit (.deleted name.bytes (blocksUsed v.vol.sb x.size))) ()
      (w2.save.say [.deleted name.bytes (UInt32.ofNat (blocksOf g x).length)]) := by
    rw [hmsg]
    exact emit_runs _
  exact ⟨0, _, getSb_runs.bind (h1.bind (h2.bind (h3.bind
    (h4.bind (Runs.pure _ _))))), .accepted (.delete hat) ⟨rfl, rfl, rfl, fun _ => rfl⟩⟩

theorem fsTruncateFile_runs (hs : Sound g v.vol) (hv : v.faults = noFaults) (name : CStr)
    (newSize : UInt32) :
    ∃ r v', Runs (view g) v (fsTruncateFile now name newSize) r v' ∧
      Outcome g now (.truncate name newSize) v r v' := by
  refine find_runs hs hv rfl ((emit_runs _).bind (Runs.pure _ _)) fun i x hat => ?_
  by_cases hlt : newSize > x.size
  · refine ⟨-1, v.say [.cannotExtend newSize x.size], ?_,
      .rejected (.truncateLonger hat hlt) ⟨rfl, rfl, rfl, id⟩⟩
    simp only [hlt, if_true]
    exact (emit_runs _).bind (Runs.pure _ _)
  · have hle := UInt32.not_lt.mp hlt
    have hle' := UInt32.le_iff_toNat_le.mp hle
    have hw := hs.writable hat.slot hat.live
    have hfit := hw.size_fits
    have h16 := hw.pieces_le
    have hpieces := pieces_mono g.blockSize_pos hle'
    let w1 := v.setVol (v.vol.releaseAll (droppedBlocks g x newSize))
    have h1 : Runs (view g) v (freeBlocksLoop x
        ((blocksUsed v.vol.sb x.size).toNat - (blocksUsed v.vol.sb newSize).toNat)
        (blocksUsed v.vol.sb newSize).toNat) () w1 := by
      rw [toNat_blocksUsed hs.layout hfit, toNat_blocksUsed hs.layout (by omega)]
      refine freeBlocksLoop_runs hv (by omega) fun b hb => hw.used_lt b (hw.used b ?_)
      rw [← kept_append_dropped hle now]
      exact List.mem_append_right _ hb
    let x' : Inode := { x with size := newSize, modifiedAt := now }
    let w2 := w1.setVol (w1.vol.setInode i x')
    have hfin : Runs (view g) w1 (finish x.id x' (.truncated name.bytes newSize)) 0
        (w2.save.say [.truncated name.bytes newSize]) :=
      finish_runs (v := w1) hv (sound_id hs hat.slot hat.live) hs.inodes_length
        (hs.slot_lt hat.slot) rfl _
    refine ⟨0, w2.save.say [_], ?_,
      .accepted (.truncate hat hle) ⟨rfl, rfl, rfl, fun _ => rfl⟩⟩
    simp only [hlt, if_false]
    exact getSb_runs.bind (h1.bind hfin)

theorem fsChmod_runs (hs : Sound g v.vol) (hv : v.faults = noFaults) (name : CStr) (mode : UInt16) :
    ∃ r v', Runs (view g) v (fsChmod now name mode) r v' ∧
      Outcome g now (.chmod name mode) v r v' := by
  refine find_runs hs hv rfl ((emit_runs _).bind (Runs.pure _ _)) fun i x hat => ?_
  have hwrite := hs.inodeWrite_runs hv hat.slot (sound_id hs hat.slot hat.live)
    (x := { x with mode := (x.mode &&& 0xF000) ||| (mode &&& 0x0FFF), modifiedAt := now })
  exact ⟨0, _, hwrite.bind ((emit_runs _).bind (Runs.pure _ _)),
    .accepted (.chmod hat) ⟨rfl, rfl, rfl, id⟩⟩

theorem fsRename_runs (hs : Sound g v.vol) (hv : v.faults = noFaults) (oldName newName : CStr) :
    ∃ r v', Runs (view g) v (fsRename now oldName newName) r v' ∧
      Outcome g now (.rename oldName newName) v r v' := by
  have hfind' := inodeFindByName_runs hs hv newName
  unfold fsRename
  by_cases hlen : maxFilenameLen ≤ newName.strlen
  · rw [if_pos hlen]
    exact ⟨-1, _, (emit_runs _).bind (Runs.pure _ _),
      .rejected (.renameLong hlen) ⟨rfl, rfl, rfl, id⟩⟩
  rw [if_neg hlen]
  refine find_runs hs hv rfl ((emit_runs _).bind (Runs.pure _ _)) fun i x hat => ?_
  cases hl' : v.vol.lookup newName.bytes with
  | some y =>
    rw [hl'] at hfind'
    exact ⟨-1, v.say [.fileExists newName.bytes],
      hfind'.bind ((emit_runs _).bind (Runs.pure _ _)),
      .rejected (.renameExists (not_le.mp hlen) hat (by rw [hl']; rfl)) ⟨rfl, rfl, rfl, id⟩⟩
  | none =>
    rw [hl'] at hfind'
    have hwrite := hs.inodeWrite_runs hv hat.slot (sound_id hs hat.slot hat.live)
      (x := { x with name := Inode.strncpy x.name newName, modifiedAt := now })
    exact ⟨0, _, hfind'.bind (hwrite.bind ((emit_runs _).bind (Runs.pure _ _))),
      .accepted (.rename (not_le.mp hlen) hat hl') ⟨rfl, rfl, rfl, id⟩⟩

theorem fsRead_runs (hs : Sound g v.vol) (hv : v.faults = noFaults) (name : CStr) :
    ∃ r v', Runs (view g) v (fsRead now name) r v' ∧ Outcome g now (.read name) v r v' := by
  refine find_runs hs hv rfl ((emit_runs _).bind (Runs.pure _ _)) fun i x hat => ?_
  let x' : Inode := { x with accessedAt := now }
  let w1 := v.setVol (v.vol.setInode i x')
  have hwrite : Runs (view g) v (inodeWrite x'.id x') 0 w1 :=
    hs.inodeWrite_runs hv hat.slot (sound_id hs hat.slot hat.live)
  have hreadable : Readable g w1.vol x' := { hs.readable hat.slot hat.live with }
  let count (sb : Superblock) : Superblock := { sb with
    totalReads := sb.totalReads + 1, bytesRead := sb.bytesRead + x.size.toUInt64 }
  let w2 := w1.setVol (w1.vol.setSb count)
  let msgs := if x.size = 0 then [Message.emptyFile]
    else [.content (v.vol.content g x), .newline]
  refine ⟨0, w2.save.say msgs, hwrite.bind ?_, .accepted (.read hat) ⟨rfl, rfl, rfl, fun _ => rfl⟩⟩
  have hcount : g.Describes (count w1.vol.sb) := { hs.layout with }
  by_cases hsize : x.size = 0
  · let w3 := w1.say [.emptyFile]
    let count0 (sb : Superblock) : Superblock := { sb with totalReads := sb.totalReads + 1 }
    have hvol : w3.vol.setSb count0 = w1.vol.setSb count := by
      simp [w3, View.say, Volume.setSb, count, count0, hsize]
    have hcount0 : g.Describes (count0 w3.vol.sb) := { hs.layout with }
    have hsb : Runs (view g) w3 (setSb count0) () (w3.setVol (w1.vol.setSb count)) := by
      rw [← hvol]
      exact setSb_runs hcount0
    have hsave : Runs (view g) (w3.setVol (w1.vol.setSb count)) diskWriteSb 0
        (w2.save.say [.emptyFile]) := diskWriteSb_runs hv
    have hmsgs : msgs = [.emptyFile] := if_pos hsize
    rw [hmsgs]
    simp only [hsize, if_true]
    exact (emit_runs _).bind (hsb.bind (hsave.bind (Runs.pure _ _)))
  · let w3 := (w1.say [.content (v.vol.content g x)]).say [.newline]
    have hsb : Runs (view g) w3 (setSb count) () (w3.setVol (w1.vol.setSb count)) :=
      setSb_runs hcount
    have hsave : Runs (view g) (w3.setVol (w1.vol.setSb count)) diskWriteSb 0
        (w3.setVol (w1.vol.setSb count)).save := diskWriteSb_runs hv
    have hout : (w3.setVol (w1.vol.setSb count)).save =
        w2.save.say [.content (v.vol.content g x), .newline] := by
      simp only [w3, w2, View.say, View.setVol, View.save, List.append_assoc, List.cons_append,
        List.nil_append]
    have hmsgs : msgs = [.content (v.vol.content g x), .newline] := if_neg hsize
    rw [hmsgs, ← hout]
    simp only [hsize, if_false]
    exact getSb_runs.bind ((readBlocks_runs (v := w1) hv hreadable).bind ((emit_runs _).bind
      ((emit_runs _).bind (hsb.bind (hsave.bind (Runs.pure _ _))))))

/-- The three outcomes of `_do_write`. -/
theorem doWrite_cases (hv : v.faults = noFaults) (now : UInt64) {x : Inode} (hw : Writable g v.vol x)
    {data : List UInt8} {len : UInt32} (hlen : data.length = len.toNat)
    (hfit : len.toNat + g.blockSize ≤ 2 ^ 32) :
    (∃ held d vol', Stored g v.vol x data held d vol' ∧ Runs (view g) v (doWrite now x data len)
      (some (storedInode now x d len)) (v.setVol vol')) ∨
    (16 < blocksNeeded g data.length ∧ Runs (view g) v (doWrite now x data len) none
      (v.say [tooLarge v.vol.sb])) ∨
    (blocksNeeded g data.length ≤ 16 ∧ v.vol.sb.freeBlocks.toNat < blocksNeeded g data.length ∧
      Runs (view g) v (doWrite now x data len) none
        (v.say [noRoom g v.vol.sb data.length])) := by
  rw [hlen]
  by_cases hlarge : 16 < blocksNeeded g len.toNat
  · exact .inr (.inl ⟨hlarge, doWrite_tooLarge hw.layout hfit hlarge⟩)
  have hle := not_lt.mp hlarge
  by_cases hfull : v.vol.sb.freeBlocks.toNat < blocksNeeded g len.toNat
  · exact .inr (.inr ⟨hle, hfull, doWrite_full hw.layout hfit hle hfull⟩)
  · exact .inl (doWrite_stored hv hw hlen hfit hle (not_lt.mp hfull))

theorem fsWrite_runs (hs : Sound g v.vol) (hv : v.faults = noFaults) (name data : CStr)
    (hfit : data.strlen + g.blockSize ≤ 2 ^ 32) :
    ∃ r v', Runs (view g) v (fsWrite now name data) r v' ∧
      Outcome g now (.write name data) v r v' := by
  refine find_runs hs hv rfl ((emit_runs _).bind (Runs.pure _ _)) fun i x hat => ?_
  have hpos := g.blockSize_pos
  have hlen : (UInt32.ofNat data.strlen).toNat = data.bytes.length :=
    toNat_word (by omega)
  rcases doWrite_cases hv now (hs.writable hat.slot hat.live) hlen.symm
    (by rw [hlen]; exact hfit) with ⟨held, d, vol1, hst, hrun⟩ | ⟨hlarge, hrun⟩ |
      ⟨hle, hfull, hrun⟩
  · let x' := storedInode now x d (UInt32.ofNat data.strlen)
    let w2 := (v.setVol vol1).setVol (vol1.setInode i x')
    have hfin : Runs (view g) (v.setVol vol1) (finish x'.id x'
        (.wrote (UInt32.ofNat data.strlen) name.bytes)) 0
        (w2.save.say [.wrote (UInt32.ofNat data.strlen) name.bytes]) :=
      finish_runs (v := v.setVol vol1) hv (sound_id hs hat.slot hat.live)
        ((congrArg List.length hst.inodes).trans hs.inodes_length) (hs.slot_lt hat.slot) rfl _
    exact ⟨0, _, hrun.bind hfin,
      .accepted (.write hat hst) ⟨rfl, rfl, rfl, fun _ => rfl⟩⟩
  · exact ⟨-1, _, hrun.bind (Runs.pure _ _),
      .rejected (.writeTooLarge hat hlarge) ⟨rfl, rfl, rfl, id⟩⟩
  · exact ⟨-1, _, hrun.bind (Runs.pure _ _),
      .rejected (.writeFull hat hle hfull) ⟨rfl, rfl, rfl, id⟩⟩

theorem fsAppend_runs (hs : Sound g v.vol) (hv : v.faults = noFaults) (name data : CStr)
    (hfit : Fits g v.vol (.append name data)) :
    ∃ r v', Runs (view g) v (fsAppend now name data) r v' ∧
      Outcome g now (.append name data) v r v' := by
  refine find_runs hs hv rfl ((emit_runs _).bind (Runs.pure _ _)) fun i x hat => ?_
  have hpos := g.blockSize_pos
  have hfit := hfit (x.size.toNat + data.strlen) (by rw [storedLength, hat.lookup]; rfl)
  have hreadable := hs.readable hat.slot hat.live
  have hlen : (UInt32.ofNat data.strlen).toNat = data.strlen :=
    toNat_word (by omega)
  have hnew : (x.size + UInt32.ofNat data.strlen).toNat = x.size.toNat + data.strlen := by
    rw [UInt32.toNat_add, hlen, Nat.mod_eq_of_lt (by omega)]
  have hroom : x.size.toNat + (UInt32.ofNat data.strlen).toNat <
      (x.size + UInt32.ofNat data.strlen + 1).toNat := by
    have hbs := g.inode_le
    rw [UInt32.toNat_add, hnew, hlen, UInt32.toNat_one]
    omega
  have htake : data.bytes.take (UInt32.ofNat data.strlen).toNat = data.bytes := by
    rw [hlen]
    exact List.take_length
  have hlength : (v.vol.content g x ++ data.bytes).length =
      (x.size + UInt32.ofNat data.strlen).toNat := by
    rw [List.length_append, hreadable.length_content, hnew]
    rfl
  have hlength' : (v.vol.content g x ++ data.bytes).length = x.size.toNat + data.strlen :=
    hlength.trans hnew
  have hcontent := readContent_runs hv hreadable
  rcases doWrite_cases hv now (hs.writable hat.slot hat.live) hlength
    (by rw [hnew]; exact hfit) with ⟨held, d, vol1, hst, hrun⟩ | ⟨hlarge, hrun⟩ |
      ⟨hle, hfull, hrun⟩
  · let x' := storedInode now x d (x.size + UInt32.ofNat data.strlen)
    let w2 := (v.setVol vol1).setVol (vol1.setInode i x')
    have hfin : Runs (view g) (v.setVol vol1) (finish x'.id x' (.appended
        (UInt32.ofNat data.strlen) name.bytes (x.size + UInt32.ofNat data.strlen))) 0
        (w2.save.say [.appended (UInt32.ofNat data.strlen) name.bytes
          (x.size + UInt32.ofNat data.strlen)]) :=
      finish_runs (v := v.setVol vol1) hv (sound_id hs hat.slot hat.live)
        ((congrArg List.length hst.inodes).trans hs.inodes_length) (hs.slot_lt hat.slot) rfl _
    refine ⟨0, w2.save.say [_],
      getSb_runs.bind (hcontent.bind ((Runs.require hroom).bind ?_)),
      .accepted (.append hat hst) ⟨rfl, rfl, rfl, fun _ => rfl⟩⟩
    rw [htake]
    exact hrun.bind hfin
  · rw [hlength'] at hlarge
    refine ⟨-1, v.say [_], getSb_runs.bind (hcontent.bind
      ((Runs.require hroom).bind ?_)),
      .rejected (.appendTooLarge hat hlarge) ⟨rfl, rfl, rfl, id⟩⟩
    rw [htake]
    exact hrun.bind (Runs.pure _ _)
  · rw [hlength'] at hle hfull hrun
    refine ⟨-1, v.say [_], getSb_runs.bind (hcontent.bind
      ((Runs.require hroom).bind ?_)),
      .rejected (.appendFull hat hle hfull) ⟨rfl, rfl, rfl, id⟩⟩
    rw [htake]
    exact hrun.bind (Runs.pure _ _)

/-- A fresh inode can be written to before it is in the table. -/
theorem Sound.writable_newInode {vol : Volume} (hs : Sound g vol) (i : ℕ) (y : Inode) (name : CStr)
    (mode : UInt16) : Writable g (vol.claim i y) (newInode now i name mode) where
  layout := hs.layout.freeInodes _
  reserved := fun b hb => hs.exclusive.reserved_used b (Finset.mem_range.mpr hb)
  used_lt := hs.used_lt
  free_blocks := hs.free_blocks
  nodup := by rw [blocksOf_newInode]; exact List.nodup_nil
  used := by rw [blocksOf_newInode]; exact fun _ h => absurd h List.not_mem_nil
  data := by rw [blocksOf_newInode]; exact fun _ h => absurd h List.not_mem_nil
  pieces_le := by
    change pieces 0 g.blockSize ≤ 16
    rw [pieces_zero g.blockSize_pos]
    exact Nat.zero_le _
  size_fits := by
    have := g.blockSize_lt
    change 0 + g.blockSize ≤ 2 ^ 32
    omega

/-- `fs_copy` once the new inode is allocated, for a source that is not empty. -/
theorem copyStore_runs (hs : Sound g v.vol) (hv : v.faults = noFaults) {src dst : CStr} {k i : ℕ}
    {x y : Inode} (hat : FoundAt v.vol src.bytes k y) (hnew : v.vol.lookup dst.bytes = none)
    (hslot : FirstFree v.vol i x) (hsize : y.size ≠ 0) :
    ∃ r v', Runs (view g) (v.setVol (v.vol.claim i (Inode.fresh i))) (do
      match ← doWrite now (newInode now i dst y.mode) (v.vol.content g y) y.size with
      | none =>
        let _ ← inodeFree (newInode now i dst y.mode).id
        pure (-1)
      | some newInode => copyFinish src dst y.size newInode) r v' ∧
      Outcome g now (.copy src dst) v r v' := by
  have hlt := hs.slot_lt hslot.slot
  have hslots : (v.vol.claim i (Inode.fresh i)).inodes.length = g.maxInodes :=
    List.length_set.trans hs.inodes_length
  let w1 := v.setVol (v.vol.claim i (Inode.fresh i))
  let x' := newInode now i dst y.mode
  have hlen := (hs.readable hat.slot hat.live).length_content
  have hbound := hs.size_fits hat.slot hat.live
  have hneed : blocksNeeded g (v.vol.content g y).length ≤ 16 := by
    have h16 := (hs.live k y hat.slot hat.live).pieces_le
    rw [hlen, blocksNeeded]
    omega
  rcases doWrite_cases (v := w1) hv now
    (hs.writable_newInode i (Inode.fresh i) dst y.mode) hlen (by omega) with
    ⟨held, d, vol1, hst, hrun⟩ | ⟨hlarge, hrun⟩ | ⟨-, hfull, hrun⟩
  · let x2 := storedInode now x' d y.size
    let w2 := (w1.setVol vol1).setVol (vol1.setInode i x2)
    have hfin : Runs (view g) (w1.setVol vol1) (finish x2.id x2
        (.copied src.bytes dst.bytes y.size (UInt32.ofNat i))) 0
        (w2.save.say [.copied src.bytes dst.bytes y.size (UInt32.ofNat i)]) :=
      finish_runs (v := w1.setVol vol1) hv (Geometry.toNat_slot hlt)
        ((congrArg List.length hst.inodes).trans hslots) hlt rfl _
    exact ⟨0, w2.save.say [_], hrun.bind hfin,
      .accepted (.copy hat hnew hslot hsize hst) ⟨rfl, rfl, rfl, fun _ => rfl⟩⟩
  · omega
  · have hid : x'.id.toNat = i := Geometry.toNat_slot hlt
    have hback := inodeFree_runs (v := w1.say [noRoom g v.vol.sb y.size.toNat]) hv
      (hs.layout.freeInodes _) hslots (i := i) (x := Inode.fresh i)
      (List.getElem?_set_self (List.getElem?_eq_some_iff.mp hslot.slot).1) hid
    rw [hlen] at hfull hrun
    refine ⟨-1, _, hrun.bind (hback.bind (Runs.pure _ _)),
      .rejected (.copyFull hat hnew hslot hsize hfull) ⟨?_, rfl, rfl, id⟩⟩
    exact unclaim_claim v.vol i (Inode.fresh i)

theorem fsCopy_runs (hs : Sound g v.vol) (hv : v.faults = noFaults) (src dst : CStr) :
    ∃ r v', Runs (view g) v (fsCopy now src dst) r v' ∧ Outcome g now (.copy src dst) v r v' := by
  have hfind' := inodeFindByName_runs hs hv dst
  refine find_runs hs hv rfl ((emit_runs _).bind (Runs.pure _ _)) fun k y hat => ?_
  cases hl' : v.vol.lookup dst.bytes with
  | some z =>
    rw [hl'] at hfind'
    exact ⟨-1, v.say [.destinationExists dst.bytes],
      hfind'.bind ((emit_runs _).bind (Runs.pure _ _)),
      .rejected (.copyExists hat (by rw [hl']; rfl)) ⟨rfl, rfl, rfl, id⟩⟩
  | none =>
    rw [hl'] at hfind'
    by_cases hno : v.vol.sb.freeInodes = 0
    · refine ⟨-1, v.say [.noFreeInodes], hfind'.bind (getSb_runs.bind ?_),
        .rejected (.copyNoInode hat hl' hno) ⟨rfl, rfl, rfl, id⟩⟩
      simp only [hno, if_true]
      exact (emit_runs _).bind (Runs.pure _ _)
    · obtain ⟨i, x, hslot⟩ := hs.exists_firstFree hno
      have hlt := hs.slot_lt hslot.slot
      have hslots : (v.vol.claim i (Inode.fresh i)).inodes.length = g.maxInodes :=
        List.length_set.trans hs.inodes_length
      let w1 := v.setVol (v.vol.claim i (Inode.fresh i))
      let x' := newInode now i dst y.mode
      have hcontent := readContent_runs hv (hs.readable hat.slot hat.live)
      have halloc : Runs (view g) v inodeAllocate (some (Inode.fresh i)) w1 :=
        inodeAllocate_runs hs hv hslot
      by_cases hsize : y.size = 0
      · have hfin : Runs (view g) w1 (finish x'.id x'
            (.copied src.bytes dst.bytes y.size (UInt32.ofNat i))) 0
            ((v.setVol (v.vol.claim i x')).save.say
              [.copied src.bytes dst.bytes y.size (UInt32.ofNat i)]) :=
          finish_runs (v := w1) hv (Geometry.toNat_slot hlt) hslots hlt
            (claim_setInode v.vol i _ x') _
        refine ⟨0, (v.setVol (v.vol.claim i x')).save.say [_],
          hfind'.bind (getSb_runs.bind ?_),
          .accepted (.copyEmpty hat hl' hslot hsize) ⟨rfl, rfl, rfl, fun _ => rfl⟩⟩
        simp only [hno, if_false]
        refine getSb_runs.bind (hcontent.bind (halloc.bind ((Runs.pure _ _).bind ?_)))
        have hzero : ¬ y.size > 0 := by rw [hsize]; decide
        simp only [hzero, if_false]
        exact hfin
      · have hpos : y.size > 0 := UInt32.pos_iff_ne_zero.mpr hsize
        obtain ⟨r, v', hrest, hout⟩ := copyStore_runs hs hv hat hl' hslot hsize
        refine ⟨r, v', hfind'.bind (getSb_runs.bind ?_), hout⟩
        simp only [hno, if_false]
        refine getSb_runs.bind (hcontent.bind (halloc.bind ((Runs.pure _ _).bind ?_)))
        simp only [hpos, if_true]
        exact hrest

/-- Every operation on a sound volume returns, with one of the listed outcomes. -/
theorem runOp_runs (hs : Sound g v.vol) (hv : v.faults = noFaults) (now : UInt64) (op : FileOp)
    (hfit : Fits g v.vol op) :
    ∃ r v', Runs (view g) v (runOp now op) r v' ∧ Outcome g now op v r v' := by
  cases op with
  | create name => exact fsCreate_runs hs hv name
  | write name data => exact fsWrite_runs hs hv name data (hfit _ rfl)
  | append name data => exact fsAppend_runs hs hv name data hfit
  | read name => exact fsRead_runs hs hv name
  | rename oldName newName => exact fsRename_runs hs hv oldName newName
  | copy src dst => exact fsCopy_runs hs hv src dst
  | truncate name newSize => exact fsTruncateFile_runs hs hv name newSize
  | chmod name mode => exact fsChmod_runs hs hv name mode
  | delete name => exact fsDelete_runs hs hv name

end MiniFs.Image
