import MiniFs.Spec.Abstraction

/-! # The file commands refine the flat ones

Each change of a volume by an accepted operation, and each reason for a rejection, is
what the flat file system answers.
-/

set_option autoImplicit false

namespace MiniFs.Image
open MiniFs.Core MiniFs.Spec Library Library.Exec Library.ByteRange Library.Chunks
open Library.Ownership

variable {g : Geometry} {vol vol' : Volume} {v v' : View} {i : ℕ} {x : Inode} {now : UInt64}
variable {op : FileOp} {printed : List Message}

/-! ## Storing a content -/

/-- What `_do_write` stores is what the flat file system stores; `y` is the inode before. -/
theorem Stored.flat_store {fs : Flat} {y : Inode} {data : List UInt8} {held : List ℕ}
    {d : Vector UInt32 16} {vol0 vol1 : Volume} (h : Stored g vol0 y data held d vol1)
    (hsb : fs.sb = vol0.sb) (hlay : g.Describes vol0.sb) {f : File}
    (howned : (blocksOf g y).length = pieces f.content.length g.blockSize) :
    fs.store now i f data =
      .ok ⟨vol1.sb, fs.files.set i (some { f with content := data, modifiedAt := now }),
        fs.printed⟩ := by
  have hblocks (len : ℕ) : fs.blocks len = pieces len g.blockSize := by
    rw [Flat.blocks, hsb, hlay.blockSize]
  have hneeded : fs.blocksNeeded data.length = held.length := by
    rw [Flat.blocksNeeded, hblocks, h.length, blocksNeeded]
  have hroom := h.room
  rw [← hsb] at hroom
  rw [Flat.store, hneeded, if_neg (not_lt.mpr h.le16), if_neg (not_lt.mpr hroom), hblocks, ← howned,
    h.sb, ← hsb]
  rfl

theorem Sound.store_tooLarge (hs : Sound g vol) {f : File} {data : List UInt8}
    (hlarge : 16 < blocksNeeded g data.length) :
    (vol.flat g printed).store now i f data = .error (tooLarge vol.sb) := by
  rw [Flat.store, hs.flat_blocksNeeded, if_pos hlarge]
  rfl

theorem Sound.store_full (hs : Sound g vol) {fs : Flat} {f : File} {data : List UInt8}
    (hfree : fs.sb.freeBlocks = vol.sb.freeBlocks) (hsize : fs.sb.blockSize = vol.sb.blockSize)
    (hle : blocksNeeded g data.length ≤ 16)
    (hfull : vol.sb.freeBlocks.toNat < blocksNeeded g data.length) :
    fs.store now i f data = .error (noRoom g vol.sb data.length) := by
  have hneeded : fs.blocksNeeded data.length = blocksNeeded g data.length := by
    rw [Flat.blocksNeeded, Flat.blocks, hsize, hs.layout.blockSize, blocksNeeded]
  rw [Flat.store, hneeded, if_neg (not_lt.mpr hle), hfree, if_pos hfull]
  rfl

theorem Sound.owned_length (hs : Sound g vol) (hi : vol.inodes[i]? = some x) (hx : x.isUsed = 1) :
    (blocksOf g x).length = pieces (x.file (vol.content g x)).content.length g.blockSize := by
  rw [Inode.file, hs.length_content hi hx, (hs.live i x hi hx).length_blocksOf]

theorem Sound.append_length (hs : Sound g vol) {name data : CStr}
    (hfit : Fits g vol (.append name data)) (hat : FoundAt vol name.bytes i x) :
    (vol.content g x ++ data.bytes).length = x.size.toNat + data.strlen := by
  have hstored : storedLength vol (.append name data) = some (x.size.toNat + data.strlen) := by
    rw [storedLength, hat.lookup, Option.map_some]
  exact (length_append (hs.readable hat.slot hat.live) (hfit _ hstored)).2

/-! ## Accepted operations -/

/-- Only `stat` prints where blocks lie. -/
theorem Accepted.seen_msgs {msgs : List Message} (h : Accepted g now op vol vol' msgs) :
    msgs.map seen = msgs := by
  cases h with
  | read hat => split_ifs <;> rfl
  | _ => rfl

section Operations
variable (hs : Sound g vol) {name data : CStr} {vol1 : Volume} {held : List ℕ}
  {d : Vector UInt32 16}
include hs

theorem flat_create (hlen : name.strlen < maxFilenameLen) (hnew : vol.lookup name.bytes = none)
    (hslot : FirstFree vol i x) : (vol.flat g printed).create now name =
      (0, (vol.claim i (newInode now i name (fsIfreg ||| fsDefaultMode))).save.flat g
        (printed ++ [.created name.bytes (UInt32.ofNat i) (fsIfreg ||| fsDefaultMode)])) := by
  have hedit := claim_edit hs hslot.slot hslot.free now name (fsIfreg ||| fsDefaultMode)
  rw [Edit.flat_file hs hedit rfl (content_newInode ..), file_newInode]
  simp only [Flat.create, if_neg (not_le.mpr hlen), find_none hnew, hslot.freeSlot hs,
    Option.isSome_none, Bool.false_eq_true, if_false]
  rfl

theorem flat_write (hfit : Fits g vol (.write name data)) (hat : FoundAt vol name.bytes i x)
    (hst : Stored g vol x data.bytes held d vol1) : (vol.flat g printed).write now name data =
      (0, (vol1.setInode i (storedInode now x d (UInt32.ofNat data.strlen))).save.flat g
        (printed ++ [.wrote (UInt32.ofNat data.strlen) name.bytes])) := by
  have hlen := length_toNat_ofNat (hfit data.strlen rfl)
  have hedit := write_edit hs hat.slot hat.live hst hlen now
  rw [Edit.flat_file hs hedit hat.live (hst.content hlen now)]
  simp only [Flat.write, hat.find]
  rw [hst.flat_store rfl hs.layout (hs.owned_length hat.slot hat.live)]
  rfl

theorem flat_append (hfit : Fits g vol (.append name data)) (hat : FoundAt vol name.bytes i x)
    (hst : Stored g vol x (vol.content g x ++ data.bytes) held d vol1) :
    (vol.flat g printed).append now name data =
      (0, (vol1.setInode i
        (storedInode now x d (x.size + UInt32.ofNat data.strlen))).save.flat g (printed ++
          [.appended (UInt32.ofNat data.strlen) name.bytes (x.size + UInt32.ofNat data.strlen)])) := by
  have hstored : storedLength vol (.append name data) = some (x.size.toNat + data.strlen) := by
    rw [storedLength, hat.lookup, Option.map_some]
  have hlen := (length_append (hs.readable hat.slot hat.live) (hfit _ hstored)).1
  have hedit := write_edit hs hat.slot hat.live hst hlen now
  rw [Edit.flat_file hs hedit hat.live (hst.content hlen now)]
  simp only [Flat.append, hat.find, hs.file_size hat.slot hat.live, Inode.file_content]
  rw [hst.flat_store rfl hs.layout (hs.owned_length hat.slot hat.live)]
  rfl

theorem flat_read (hat : FoundAt vol name.bytes i x) : (vol.flat g printed).read now name =
    (0, ((vol.setInode i { x with accessedAt := now }).setSb fun sb => { sb with
      totalReads := sb.totalReads + 1, bytesRead := sb.bytesRead + x.size.toUInt64 }).save.flat g
        (printed ++
          if x.size = 0 then [.emptyFile] else [.content (vol.content g x), .newline])) := by
  have hedit := read_edit hs hat.slot hat.live now
  rw [Edit.flat_file hs hedit hat.live (content_congr vol x rfl rfl rfl)]
  have hempty : (x.file (vol.content g x)).content = [] ↔ x.size = 0 :=
    hs.content_eq_nil hat.slot hat.live
  simp only [Flat.read, hat.find, hs.file_size hat.slot hat.live, hempty]
  rfl

theorem flat_rename {newName : CStr} (hlen : newName.strlen < maxFilenameLen)
    (hat : FoundAt vol name.bytes i x) (hnew : vol.lookup newName.bytes = none) :
    (vol.flat g printed).rename now name newName = (0, (vol.setInode i
      { x with name := Inode.strncpy x.name newName, modifiedAt := now }).flat g
        (printed ++ [.renamed name.bytes newName.bytes])) := by
  have hedit := rename_edit hs hat.slot hat.live now newName
  have hend := (hs.live i x hat.slot hat.live).name_end
  rw [Edit.flat_file hs hedit hat.live (content_congr vol x rfl rfl rfl)]
  simp only [Flat.rename, if_neg (not_le.mpr hlen), hat.find, find_none hnew, Option.isSome_none,
    Bool.false_eq_true, if_false]
  rw [file_renamed hend hlen]
  rfl

theorem flat_copyEmpty {dst : CStr} {k : ℕ} {y : Inode} (hat : FoundAt vol name.bytes k y)
    (hnew : vol.lookup dst.bytes = none) (hslot : FirstFree vol i x) (hsize : y.size = 0) :
    (vol.flat g printed).copy now name dst =
      (0, (vol.claim i (newInode now i dst y.mode)).save.flat g
        (printed ++ [.copied name.bytes dst.bytes y.size (UInt32.ofNat i)])) := by
  have hedit := claim_edit hs hslot.slot hslot.free now dst y.mode
  rw [Edit.flat_file hs hedit rfl (content_newInode ..), file_newInode]
  have hempty : (y.file (vol.content g y)).content = [] :=
    (hs.content_eq_nil hat.slot hat.live).mpr hsize
  simp only [Flat.copy, hat.find, find_none hnew, hslot.freeSlot hs, hempty, Option.isSome_none,
    Bool.false_eq_true, if_false, if_true, hs.file_size hat.slot hat.live]
  rfl

theorem flat_copy {dst : CStr} {k : ℕ} {y : Inode} (hat : FoundAt vol name.bytes k y)
    (hnew : vol.lookup dst.bytes = none) (hslot : FirstFree vol i x) (hsize : y.size ≠ 0)
    (hst : Stored g (vol.claim i (Inode.fresh i)) (newInode now i dst y.mode) (vol.content g y)
      held d vol1) : (vol.flat g printed).copy now name dst =
      (0, (vol1.setInode i (storedInode now (newInode now i dst y.mode) d y.size)).save.flat g
        (printed ++ [.copied name.bytes dst.bytes y.size (UInt32.ofNat i)])) := by
  have hlen := hs.length_content hat.slot hat.live
  have hedit := copy_edit hs hslot.slot hslot.free hst hlen
  rw [Edit.flat_file hs hedit rfl (hst.content hlen now)]
  have hne : vol.content g y ≠ [] := fun h =>
    hsize ((hs.content_eq_nil hat.slot hat.live).mp h)
  have hfile : (newInode now i dst y.mode).file [] = .new now dst y.mode := file_newInode ..
  have howned : (blocksOf g (newInode now i dst y.mode)).length =
      pieces (File.new now dst y.mode).content.length g.blockSize := by
    rw [blocksOf_newInode, File.new]
    exact (pieces_zero g.blockSize_pos).symm
  simp only [Flat.copy, hat.find, find_none hnew, hslot.freeSlot hs, Option.isSome_none,
    Bool.false_eq_true, if_false, hs.file_size hat.slot hat.live, Inode.file_content,
    Inode.file_mode, hne]
  rw [hst.flat_store (f := .new now dst y.mode) rfl (hs.layout.freeInodes _) howned,
    file_storedInode _ _ _ _ [], hfile]
  simp only [Flat.claim, Flat.setSb, Flat.setFile, List.set_set]
  rfl

theorem flat_truncate {newSize : UInt32} (hat : FoundAt vol name.bytes i x)
    (hle : newSize ≤ x.size) : (vol.flat g printed).truncate now name newSize =
      (0, ((vol.releaseAll (droppedBlocks g x newSize)).setInode i
        { x with size := newSize, modifiedAt := now }).save.flat g
          (printed ++ [.truncated name.bytes newSize])) := by
  have hedit := truncate_edit hs hat.slot hat.live hle now
  have hcontent := (hs.readable hat.slot hat.live).content_truncated hle now
  rw [Edit.flat_file hs hedit hat.live hcontent]
  have hdropped : (droppedBlocks g x newSize).length =
      pieces x.size.toNat g.blockSize - pieces newSize.toNat g.blockSize := by
    have hle16 := (hs.live i x hat.slot hat.live).pieces_le
    rw [droppedBlocks, blockRange, List.length_map, length_slice]
    have hmono := pieces_mono g.blockSize_pos (UInt32.le_iff_toNat_le.mp hle)
    rw [Vector.length_toList]
    omega
  simp only [Flat.truncate, hat.find, hs.file_size hat.slot hat.live,
    if_neg (UInt32.not_lt.mpr hle), hs.flat_blocks, Inode.file_content]
  rw [hs.length_content hat.slot hat.live, ← hdropped]
  rfl

theorem flat_chmod {mode : UInt16} (hat : FoundAt vol name.bytes i x) :
    (vol.flat g printed).chmod now name mode =
      (0, (vol.setInode i { x with
        mode := (x.mode &&& 0xF000) ||| (mode &&& 0x0FFF), modifiedAt := now }).flat g
          (printed ++ [.changedMode name.bytes (mode &&& 0x0FFF)
            (modeToStr ((x.mode &&& 0xF000) ||| (mode &&& 0x0FFF)))])) := by
  have hedit := chmod_edit hs hat.slot hat.live now ((x.mode &&& 0xF000) ||| (mode &&& 0x0FFF))
  rw [Edit.flat_file hs hedit hat.live (content_congr vol x rfl rfl rfl)]
  simp only [Flat.chmod, hat.find]
  rfl

theorem flat_delete (hat : FoundAt vol name.bytes i x) : (vol.flat g printed).delete name =
    (0, ((vol.releaseAll (blocksOf g x)).unclaim i x).save.flat g
      (printed ++ [.deleted name.bytes (UInt32.ofNat (blocksOf g x).length)])) := by
  have hedit := delete_edit hs hat.slot hat.live
  rw [Edit.flat hs hedit, file?_free _ (x := { x with isUsed := 0 }) rfl]
  have howned := hs.owned_length hat.slot hat.live
  simp only [Flat.delete, hat.find, hs.flat_blocks]
  rw [← howned]
  rfl

theorem Accepted.flat_runOp (hfit : Fits g vol op) {msgs : List Message}
    (h : Accepted g now op vol vol' msgs) :
    (vol.flat g printed).runOp now op = (0, vol'.flat g (printed ++ msgs)) := by
  cases h with
  | create hlen hnew hslot => exact flat_create hs hlen hnew hslot
  | write hat hst => exact flat_write hs hfit hat hst
  | append hat hst => exact flat_append hs hfit hat hst
  | read hat => exact flat_read hs hat
  | rename hlen hat hnew => exact flat_rename hs hlen hat hnew
  | copyEmpty hat hnew hslot hsize => exact flat_copyEmpty hs hat hnew hslot hsize
  | copy hat hnew hslot hsize hst => exact flat_copy hs hat hnew hslot hsize hst
  | truncate hat hle => exact flat_truncate hs hat hle
  | chmod hat => exact flat_chmod hs hat
  | delete hat => exact flat_delete hs hat

end Operations

/-! ## Rejected operations -/

theorem Rejected.seen_msg {msg : Message} (h : Rejected g op vol vol' msg) : seen msg = msg := by
  cases h with
  | @notFound _ _ name _ hsub hnone =>
    cases op with
    | create => exact nomatch hsub
    | _ =>
      obtain ⟨-, rfl⟩ := returned_inj hsub
      rfl
  | _ => rfl

/-- A rename to a name that is too long is rejected before anything is looked up. -/
def LongName : FileOp → Prop
  | .rename _ newName => maxFilenameLen ≤ newName.strlen
  | _ => False

theorem flat_setFree (hi : vol.inodes[i]? = some x) (hx : x.isUsed = 0) {x' : Inode}
    (hx' : x'.isUsed = 0) : (vol.setInode i x').flat g printed = vol.flat g printed := by
  obtain ⟨hlt, rfl⟩ := List.getElem?_eq_some_iff.mp hi
  ext1
  · rfl
  · change (vol.inodes.set i x').map (Inode.file? (vol.content g)) = vol.inodes.map _
    rw [List.map_set, file?_free _ hx', ← file?_free (vol.content g) hx]
    apply List.ext_getElem?
    intro j
    rcases eq_or_ne j i with rfl | hj
    · rw [List.getElem?_set_self (by rwa [List.length_map]), List.getElem?_map, hi]
      rfl
    · rw [List.getElem?_set_ne hj.symm]
  · rfl

theorem Rejected.flat_runOp (hs : Sound g vol) (hfit : Fits g vol op) (hname : ¬LongName op)
    {msg : Message} (h : Rejected g op vol vol' msg) :
    (vol.flat g printed).runOp now op = (-1, vol'.flat g (printed ++ [msg])) := by
  cases h with
  | @notFound _ _ name _ hsub hnone =>
    cases op with
    | create => exact nomatch hsub
    | rename oldName newName =>
      obtain ⟨rfl, rfl⟩ := returned_inj hsub
      have hlen : ¬maxFilenameLen ≤ newName.strlen := hname
      simp only [Flat.runOp, Flat.rename, if_neg hlen, find_none hnone]
      rfl
    | _ =>
      obtain ⟨rfl, rfl⟩ := returned_inj hsub
      simp only [Flat.runOp, Flat.write, Flat.append, Flat.read, Flat.copy, Flat.truncate,
        Flat.chmod, Flat.delete, find_none hnone]
      rfl
  | createLong hlen =>
    simp only [Flat.runOp, Flat.create, if_pos hlen]
    rfl
  | createExists hlen hex =>
    simp only [Flat.runOp, Flat.create, if_neg (not_le.mpr hlen), find_isSome, if_pos hex]
    rfl
  | createNoInode hlen hnew hno =>
    simp only [Flat.runOp, Flat.create, if_neg (not_le.mpr hlen), find_none hnew,
      freeSlot_none hs hno, Option.isSome_none, Bool.false_eq_true, if_false]
    rfl
  | writeTooLarge hat hlarge =>
    simp only [Flat.runOp, Flat.write, hat.find]
    rw [hs.store_tooLarge hlarge]
    rfl
  | writeFull hat hle hfull =>
    simp only [Flat.runOp, Flat.write, hat.find]
    rw [hs.store_full rfl rfl hle hfull]
    rfl
  | @appendTooLarge _ name data i x hat hlarge =>
    have hlen := hs.append_length hfit hat
    rw [← hlen] at hlarge
    simp only [Flat.runOp, Flat.append, hat.find, Inode.file_content]
    rw [hs.store_tooLarge hlarge]
    rfl
  | @appendFull _ name data i x hat hle hfull =>
    have hlen := hs.append_length hfit hat
    rw [← hlen] at hle hfull ⊢
    simp only [Flat.runOp, Flat.append, hat.find, Inode.file_content]
    rw [hs.store_full rfl rfl hle hfull]
    rfl
  | renameLong hlen => exact absurd hlen hname
  | renameExists hlen hat hex =>
    simp only [Flat.runOp, Flat.rename, if_neg (not_le.mpr hlen), hat.find, find_isSome, if_pos hex]
    rfl
  | copyExists hat hex =>
    simp only [Flat.runOp, Flat.copy, hat.find, find_isSome, if_pos hex]
    rfl
  | copyNoInode hat hnew hno =>
    simp only [Flat.runOp, Flat.copy, hat.find, find_none hnew, freeSlot_none hs hno,
      Option.isSome_none, Bool.false_eq_true, if_false]
    rfl
  | @copyFull _ src dst i k x y hat hnew hslot hsize hfull =>
    have hlen := hs.length_content hat.slot hat.live
    have hne : vol.content g y ≠ [] := fun h =>
      hsize ((hs.content_eq_nil hat.slot hat.live).mp h)
    have hle : blocksNeeded g y.size.toNat ≤ 16 :=
      max_le (by decide) (hs.live k y hat.slot hat.live).pieces_le
    rw [← hlen] at hle hfull ⊢
    simp only [Flat.runOp, Flat.copy, hat.find, find_none hnew, hslot.freeSlot hs,
      Option.isSome_none, Bool.false_eq_true, if_false, Inode.file_content, Inode.file_mode, hne]
    rw [hs.store_full rfl rfl hle hfull, flat_setFree hslot.slot hslot.free rfl]
    rfl
  | truncateLonger hat hlt =>
    simp only [Flat.runOp, Flat.truncate, hat.find, hs.file_size hat.slot hat.live, if_pos hlt]
    rfl

/-! ## Any file operation -/

theorem Outcome.flat_runOp (hv : Steady g v) (hfit : Fits g v.vol op) (hname : ¬LongName op)
    {r : Int} (h : Outcome g now op v r v') : (v.flat g).runOp now op = (r, v'.flat g) := by
  cases h with
  | accepted hstep hadv =>
    rw [View.flat, hstep.flat_runOp hv.sound hfit, View.flat, hadv.vol, hadv.out, List.map_append,
      hstep.seen_msgs]
  | rejected hstep hadv =>
    rw [View.flat, hstep.flat_runOp hv.sound hfit hname, View.flat, hadv.vol, hadv.out,
      List.map_append, List.map_singleton, hstep.seen_msg]

/-- Every file operation does to the flat file system what the flat operation does. -/
theorem runOp_flat (hv : Steady g v) (now : UInt64) (op : FileOp) (hfit : Fits g v.vol op) :
    ∃ r v', Runs (view g) v (runOp now op) r v' ∧ Steady g v' ∧
      (v.flat g).runOp now op = (r, v'.flat g) := by
  by_cases hname : LongName op
  · cases op with
    | rename oldName newName =>
      have hlen : maxFilenameLen ≤ newName.strlen := hname
      refine ⟨-1, v.say [.newNameTooLong], ?_, ⟨hv.sound, hv.faults⟩, ?_⟩
      · rw [runOp, fsRename, if_pos hlen]
        exact Runs.bind (emit_runs _) (Runs.pure _ _)
      · rw [Flat.runOp, Flat.rename, if_pos hlen, View.flat, View.flat, View.say, List.map_append]
        rfl
    | _ => exact hname.elim
  · obtain ⟨r, v', hrun, hout⟩ := runOp_runs hv.sound hv.faults now op hfit
    exact ⟨r, v', hrun, hout.steady hv hfit, hout.flat_runOp hv hfit hname⟩

end MiniFs.Image
