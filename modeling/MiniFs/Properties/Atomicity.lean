import MiniFs.Image.Tables
import MiniFs.Image.Untouched
import MiniFs.Spec.Steps

/-! # Commands on one inode are done wholly or not at all

Any system calls may fail in a command, up to all calls from some moment on, when the
process is killed. A command that gives no file new blocks then leaves the files on the
disk as they were, or as its success leaves them.
-/

set_option autoImplicit false

namespace MiniFs.Properties
open MiniFs.Core MiniFs.Image MiniFs.Spec Library Library.Exec Library.Chunks

/-- What a command may leave of the files: what was there, or all of its work. `create` may also
leave its new file without a name. Nothing is said of commands that take blocks. -/
inductive CanLeave (now : UInt64) (files : List (Option Spec.File)) :
    FileOp → List (Option Spec.File) → Prop
  | unchanged {op : FileOp} : CanLeave now files op files
  | claimed {name : CStr} {i : ℕ} (hfree : files[i]? = some none) :
      CanLeave now files (.create name) (files.set i (some ⟨[], [], 0, 0, 0, 0, 0⟩))
  | created {name : CStr} {i : ℕ} (hlen : name.strlen < maxFilenameLen)
      (hfree : files[i]? = some none) : CanLeave now files (.create name)
        (files.set i (some (.new now name (fsIfreg ||| fsDefaultMode))))
  | read {name : CStr} {i : ℕ} {f : Spec.File} (hat : files[i]? = some (some f))
      (hname : f.name = name.bytes) : CanLeave now files (.read name)
        (files.set i (some { f with accessedAt := now }))
  | renamed {oldName newName : CStr} {i : ℕ} {f : Spec.File} (hat : files[i]? = some (some f))
      (hname : f.name = oldName.bytes) (hlen : newName.strlen < maxFilenameLen) :
      CanLeave now files (.rename oldName newName)
        (files.set i (some { f with name := newName.bytes, modifiedAt := now }))
  | truncated {name : CStr} {newSize : UInt32} {i : ℕ} {f : Spec.File}
      (hat : files[i]? = some (some f)) (hname : f.name = name.bytes) (hle : newSize ≤ f.size) :
      CanLeave now files (.truncate name newSize) (files.set i (some { f with
        content := f.content.take newSize.toNat, modifiedAt := now }))
  | chmod {name : CStr} {mode : UInt16} {i : ℕ} {f : Spec.File} (hat : files[i]? = some (some f))
      (hname : f.name = name.bytes) : CanLeave now files (.chmod name mode) (files.set i
        (some { f with mode := (f.mode &&& 0xF000) ||| (mode &&& 0x0FFF), modifiedAt := now }))
  | deleted {name : CStr} {i : ℕ} {f : Spec.File} (hat : files[i]? = some (some f))
      (hname : f.name = name.bytes) : CanLeave now files (.delete name) (files.set i none)

def TakesNoBlocks : FileOp → Prop
  | .write _ _ | .append _ _ | .copy _ _ => False
  | _ => True

variable {g : Geometry} {vol : Volume} {now : UInt64} {op : FileOp} {i : ℕ} {x x' : Inode}
variable {t : List Inode}

abbrev filesOf (g : Geometry) (vol : Volume) (t : List Inode) : List (Option Spec.File) :=
  t.map (Inode.file? (vol.content g))

def leftTables (g : Geometry) (vol : Volume) (t : List Inode) (now : UInt64) (op : FileOp) :
    Set (List Inode) :=
  {t' | CanLeave now (filesOf g vol t) op (filesOf g vol t') ∧ Neat g vol t'}

theorem self_mem (hn : Neat g vol t) : t ∈ leftTables g vol t now op := ⟨.unchanged, hn⟩

theorem put_mem (hn : Neat g vol t) (hlive : x'.isUsed = 1 → LiveAt g i x')
    (hread : x'.isUsed = 1 → Readable g vol x') {f : Option Spec.File}
    (hfile : x'.file? (vol.content g) = f)
    (h : CanLeave now (filesOf g vol t) op ((filesOf g vol t).set i f)) :
    t.set i x' ∈ leftTables g vol t now op := by
  have hset : filesOf g vol (t.set i x') = (filesOf g vol t).set i f := by
    rw [← hfile]
    exact List.map_set
  refine ⟨?_, hn.set hlive hread⟩
  rw [hset]
  exact h

/-- A live inode with other fields for the same content. -/
theorem file?_congr (hx : x'.isUsed = 1) (hsize : x'.size = x.size)
    (hblocks : x'.directBlocks = x.directBlocks) :
    x'.file? (vol.content g) = some (x'.file (vol.content g x)) := by
  rw [file?_live hx, content_congr vol x hsize hblocks rfl]

theorem putSlot_subset (hn : Neat g vol t)
    (h : t.set i x' ∈ leftTables g vol t now op) :
    putSlot i x' {t} ⊆ leftTables g vol t now op := by
  rw [putSlot, Set.image_singleton]
  exact Set.union_subset (Set.singleton_subset_iff.mpr (self_mem hn))
    (Set.singleton_subset_iff.mpr h)

theorem filesOf_live (hi : t[i]? = some x) (hx : x.isUsed = 1) :
    (filesOf g vol t)[i]? = some (some (x.file (vol.content g x))) := by
  rw [List.getElem?_map, hi, Option.map_some, file?_live hx]

theorem filesOf_free (hi : t[i]? = some x) (hx : x.isUsed = 0) :
    (filesOf g vol t)[i]? = some none := by
  rw [List.getElem?_map, hi, Option.map_some, file?_free _ hx]

/-! ## The commands -/

section Commands

theorem finish_tabled (hn : Neat g vol t) {id : UInt32} {r : Int} {msg : Message}
    (hid : id.toNat = i) (hi : i < g.maxInodes)
    (h : t.set i x' ∈ leftTables g vol t now op) :
    Total (Tabled g vol {t}) (do
      let _ ← inodeWrite id x'
      let _ ← diskWriteSb
      emit msg
      pure r : M Int) fun _ => Tabled g vol (leftTables g vol t now op) :=
  (inodeWrite_tabled hid hi x').seq fun _ => diskWriteSb_tabled.seq fun _ =>
    refuse_tabled.weaken fun _ _ ht => ht.mono (putSlot_subset hn h)

theorem refused (hn : Neat g vol t) {r : Int} {msg : Message} :
    Total (Tabled g vol {t}) (do emit msg; pure r : M Int)
      fun _ => Tabled g vol (leftTables g vol t now op) :=
  refuse_tabled.weaken fun _ _ ht => ht.mono (Set.singleton_subset_iff.mpr (self_mem hn))

theorem fsRead_leaves (hn : Neat g vol t) (name : CStr) :
    Total (Tabled g vol {t}) (fsRead now name)
      fun _ => Tabled g vol (leftTables g vol t now (.read name)) := by
  refine find_bind_tabled hn (refused hn) fun i x hx => ?_
  have hi := hn.lt_maxInodes hx.slot
  have hlive := hn.live i x hx.slot hx.live
  have hread : Readable g vol { x with accessedAt := now } :=
    (hn.readable i x hx.slot hx.live).congr rfl rfl
  have hmem : t.set i { x with accessedAt := now } ∈ leftTables g vol t now (.read name) :=
    put_mem hn (fun _ => { hlive with }) (fun _ => hread) (file?_congr hx.live rfl rfl)
      (.read (filesOf_live hx.slot hx.live) hx.shown)
  refine (inodeWrite_tabled hx.id hi _).seq fun _ => ?_
  have hend : Total (Tabled g vol (putSlot i { x with accessedAt := now } {t}))
      (do let _ ← diskWriteSb; pure 0 : M Int)
      fun _ => Tabled g vol (leftTables g vol t now (.read name)) :=
    diskWriteSb_tabled.seq fun _ => .pure fun _ ht => ht.mono (putSlot_subset hn hmem)
  dsimp only
  split_ifs
  · exact (emit_tabled _).seq fun _ => setSb_bind_tabled hend fun _ hd => { hd with }
  · refine getSb_bind_tabled fun sb hg => (readBlocks_tabled hg hread).seq fun bytes => ?_
    exact (emit_tabled _).seq fun _ => (emit_tabled _).seq fun _ =>
      setSb_bind_tabled hend fun _ hd => { hd with }

theorem fsRename_leaves (hn : Neat g vol t) (oldName newName : CStr) :
    Total (Tabled g vol {t}) (fsRename now oldName newName)
      fun _ => Tabled g vol (leftTables g vol t now (.rename oldName newName)) := by
  rw [fsRename]
  split_ifs with hlen
  · exact refused hn
  · refine find_bind_tabled hn (refused hn) fun i x hx => find_bind_tabled hn ?_ fun _ _ _ => ?_
    swap
    · rw [if_pos Option.isSome_some]
      exact refused hn
    have hlive := hn.live i x hx.slot hx.live
    have hread := hn.readable i x hx.slot hx.live
    have hend := hlive.name_end
    let x' : Inode := { x with name := Inode.strncpy x.name newName, modifiedAt := now }
    have hrenamed : x'.file (vol.content g x) =
        { x.file (vol.content g x) with name := newName.bytes, modifiedAt := now } :=
      file_renamed hend (not_le.mp hlen) now (vol.content g x)
    have hfile : x'.file? (vol.content g) = some (x'.file (vol.content g x)) :=
      file?_congr hx.live rfl rfl
    rw [hrenamed] at hfile
    have hlive' : LiveAt g i x' := ⟨hlive.id, hlive.size, (strncpy_last _ _).trans hend⟩
    have hread' : Readable g vol x' := hread.congr rfl rfl
    have hmem : t.set i x' ∈ leftTables g vol t now (.rename oldName newName) :=
      put_mem hn (fun _ => hlive') (fun _ => hread') hfile
        (.renamed (filesOf_live hx.slot hx.live) hx.shown (not_le.mp hlen))
    rw [if_neg (by simp)]
    exact (inodeWrite_tabled hx.id (hn.lt_maxInodes hx.slot) _).seq fun _ =>
      refuse_tabled.weaken fun _ _ ht => ht.mono (putSlot_subset hn hmem)

theorem fsTruncate_leaves (hn : Neat g vol t) (name : CStr) (newSize : UInt32) :
    Total (Tabled g vol {t}) (fsTruncateFile now name newSize)
      fun _ => Tabled g vol (leftTables g vol t now (.truncate name newSize)) := by
  refine find_bind_tabled hn (refused hn) fun i x hx => ?_
  dsimp only
  split_ifs with hlt
  · exact refused hn
  · have hle := UInt32.not_lt.mp hlt
    have hle' := UInt32.le_iff_toNat_le.mp hle
    have hread := hn.readable i x hx.slot hx.live
    have hfit := hread.size_fits
    have hpieces := pieces_mono g.blockSize_pos hle'
    have h16 := hread.pieces_le
    have hlive := hn.live i x hx.slot hx.live
    have hkept := kept_append_dropped (g := g) hle now
    let x' : Inode := { x with size := newSize, modifiedAt := now }
    have hlive' : LiveAt g i x' := { hlive with size := hle'.trans hlive.size }
    have hread' : Readable g vol x' :=
      { hread with
        bounds := fun b hb => hread.bounds b (hkept ▸ List.mem_append_left _ hb)
        pieces_le := hpieces.trans h16
        size_fits := by
          change newSize.toNat + _ < _
          omega }
    have hmem : t.set i x' ∈ leftTables g vol t now (.truncate name newSize) := by
      have hfile : x'.file? (vol.content g) = some (x'.file (vol.content g x')) :=
        file?_live hx.live
      rw [hread.content_truncated hle now] at hfile
      refine put_mem hn (fun _ => hlive') (fun _ => hread') hfile
        (.truncated (filesOf_live hx.slot hx.live) hx.shown ?_)
      rwa [Spec.File.size, Inode.file_content, hread.length_content, UInt32.ofNat_toNat]
    refine getSb_bind_tabled fun sb hg => ?_
    rw [toNat_blocksUsed hg (by omega), toNat_blocksUsed hg (by omega)]
    refine (freeBlocksLoop_tabled (by omega)).seq fun _ => ?_
    exact finish_tabled hn hx.id (hn.lt_maxInodes hx.slot) hmem

theorem fsChmod_leaves (hn : Neat g vol t) (name : CStr) (mode : UInt16) :
    Total (Tabled g vol {t}) (fsChmod now name mode)
      fun _ => Tabled g vol (leftTables g vol t now (.chmod name mode)) := by
  refine find_bind_tabled hn (refused hn) fun i x hx => ?_
  have hlive := hn.live i x hx.slot hx.live
  have hread := hn.readable i x hx.slot hx.live
  have hmem : t.set i { x with
      mode := (x.mode &&& 0xF000) ||| (mode &&& 0x0FFF), modifiedAt := now } ∈
      leftTables g vol t now (.chmod name mode) :=
    put_mem hn (fun _ => { hlive with }) (fun _ => hread.congr rfl rfl)
      (file?_congr hx.live rfl rfl)
      (.chmod (filesOf_live hx.slot hx.live) hx.shown)
  exact (inodeWrite_tabled hx.id (hn.lt_maxInodes hx.slot) _).seq fun _ =>
    refuse_tabled.weaken fun _ _ ht => ht.mono (putSlot_subset hn hmem)

theorem fsDelete_leaves (hn : Neat g vol t) (name : CStr) :
    Total (Tabled g vol {t}) (fsDelete name)
      fun _ => Tabled g vol (leftTables g vol t now (.delete name)) := by
  refine find_bind_tabled hn (refused hn) fun i x hx => getSb_bind_tabled fun sb hg => ?_
  have hread := hn.readable i x hx.slot hx.live
  have hfit := hread.size_fits
  have h16 := hread.pieces_le
  have hfree : ¬(0 : UInt8) = 1 := by decide
  have hmem : t.set i { x with isUsed := 0 } ∈ leftTables g vol t now (.delete name) :=
    put_mem hn (fun h => absurd h hfree) (fun h => absurd h hfree) (file?_free _ rfl)
      (.deleted (filesOf_live hx.slot hx.live) hx.shown)
  dsimp only
  rw [toNat_blocksUsed hg (by omega)]
  refine (freeBlocksLoop_tabled (by omega)).seq fun _ => ?_
  refine (inodeFree_tabled hx.id hx.slot (hn.lt_maxInodes hx.slot)).seq fun _ => ?_
  exact diskWriteSb_tabled.seq fun _ =>
    refuse_tabled.weaken fun _ _ ht => ht.mono (putSlot_subset hn hmem)

theorem file?_fresh (i : ℕ) : (Inode.fresh i).file? (vol.content g) =
    some ⟨[], [], 0, 0, 0, 0, 0⟩ := by
  have hname : (Inode.fresh i).shownName = [] := by
    change Inode.zero.shownName = []
    decide
  rw [file?_live rfl, content_of_size_zero rfl, Inode.file, hname]
  rfl

theorem file?_newInode (i : ℕ) (name : CStr) (mode : UInt16) :
    (newInode now i name mode).file? (vol.content g) = some (.new now name mode) := by
  rw [file?_live rfl, content_newInode, file_newInode]

theorem fsCreate_leaves (hs : Sound g vol) (hn : Neat g vol t) (name : CStr) :
    Total (Tabled g vol {t}) (fsCreate now name)
      fun _ => Tabled g vol (leftTables g vol t now (.create name)) := by
  rw [fsCreate]
  split_ifs with hlen
  · exact refused hn
  · refine find_bind_tabled hn ?_ fun _ _ _ => refused hn
    rw [if_neg (by simp)]
    refine getSb_bind_tabled fun sb _ => ?_
    split_ifs
    · exact refused hn
    · refine inodeAllocate_tabled.bind fun r => ?_
      cases r with
      | none => exact refused hn
      | some x =>
        refine .ex fun i => .fact (fun _ h => h.2) fun hx => ?_
        obtain ⟨rfl, hid, y, hy, hfree⟩ := hx
        have hi := hn.lt_maxInodes hy
        have hfresh : LiveAt g i (Inode.fresh i) :=
          ⟨hid, Nat.zero_le _, (by decide : Inode.zero.name[31] = 0)⟩
        have hclaimed : t.set i (Inode.fresh i) ∈ leftTables g vol t now (.create name) :=
          put_mem hn (fun _ => hfresh) (fun _ => hs.readable_empty rfl) (file?_fresh i)
            (.claimed (filesOf_free hy hfree))
        let x' := newInode now i name (fsIfreg ||| fsDefaultMode)
        have hcreated : t.set i x' ∈ leftTables g vol t now (.create name) :=
          put_mem hn (fun _ => liveAt_newInode hi now name _) (fun _ => hs.readable_empty rfl)
            (file?_newInode i name _) (.created (not_le.mp hlen) (filesOf_free hy hfree))
        have hsub : putSlot i x' (putSlot i (Inode.fresh i) {t}) ⊆
            leftTables g vol t now (.create name) := by
          refine Set.union_subset (putSlot_subset hn hclaimed) ?_
          rintro _ ⟨u, hu, rfl⟩
          have hput : u.set i x' = t.set i x' := by
            rcases hu with rfl | ⟨_, rfl, rfl⟩
            · rfl
            · exact List.set_set _
          change u.set i x' ∈ _
          rwa [hput]
        refine Total.conseq (P := Tabled g vol (putSlot i (Inode.fresh i) {t})) ?_
          (fun _ h => h.1) fun _ _ h => h
        exact (inodeWrite_tabled hid hi x').seq fun _ => diskWriteSb_tabled.seq fun _ =>
          refuse_tabled.weaken fun _ _ ht => ht.mono hsub

theorem runOp_leaves (hs : Sound g vol) (hn : Neat g vol t) (hop : TakesNoBlocks op) :
    Total (Tabled g vol {t}) (runOp now op)
      fun _ => Tabled g vol (leftTables g vol t now op) := by
  cases op with
  | create name => exact fsCreate_leaves hs hn name
  | read name => exact fsRead_leaves hn name
  | rename oldName newName => exact fsRename_leaves hn oldName newName
  | truncate name newSize => exact fsTruncate_leaves hn name newSize
  | chmod name mode => exact fsChmod_leaves hn name mode
  | delete name => exact fsDelete_leaves hn name
  | write | append | copy => exact hop.elim

end Commands

/-! ## Lists of commands -/

/-- What a list of such commands may leave, each of what the one before it has left. -/
inductive CanLeaveAll : List (Option Spec.File) → List FileCall → List (Option Spec.File) → Prop
  | nil {files : List (Option Spec.File)} : CanLeaveAll files [] files
  | cons {files files1 files2 : List (Option Spec.File)} {c : FileCall} {cs : List FileCall}
      (h : CanLeave c.now files c.op files1) (hs : CanLeaveAll files1 cs files2) :
      CanLeaveAll files (c :: cs) files2

theorem runList_leaves (hs : Sound g vol) {cs : List FileCall}
    (hcs : ∀ c ∈ cs, TakesNoBlocks c.op) (hn : Neat g vol t) :
    Total (Tabled g vol {t}) (runList runCall cs) fun _ => Tabled g vol
        {t' | CanLeaveAll (filesOf g vol t) cs (filesOf g vol t') ∧ Neat g vol t'} := by
  induction cs generalizing t with
  | nil => exact .pure fun _ h => h.mono (Set.singleton_subset_iff.mpr ⟨.nil, hn⟩)
  | cons c cs ih =>
    refine (runOp_leaves hs hn (hcs c List.mem_cons_self)).seq fun r => Tabled.each fun u hu => ?_
    refine (ih (fun d hd => hcs d (List.mem_cons_of_mem c hd)) hu.2).seq fun rs => ?_
    exact .pure fun _ h => h.mono fun v hv => ⟨.cons hu.1 hv.1, hv.2⟩

/-! ## The next process -/

/-- A process that mounts such a disk shows the files of its table. -/
theorem mounts_tabled {disk : List UInt8} {S : Set (List Inode)} (h : HasTable g vol S disk)
    (hS : ∀ t ∈ S, Neat g vol t) (behindSb garbage : ℕ → UInt8) :
    ∃ w, fsMount (World.start (some disk) behindSb garbage) = some (0, w) ∧
      ∃ t ∈ S, w.flat.files = filesOf g vol t := by
  obtain ⟨bytes, vol', hh, hsaved, ht, heq⟩ := h
  obtain ⟨w, hmount, hrep⟩ := fsMount_represents (s := World.start (some disk) behindSb garbage) rfl
    rfl { hh with : Holds g disk bytes { vol' with sb := vol'.saved } } hsaved rfl
    (fun h => absurd h Bool.false_ne_true)
  refine ⟨w, hmount, vol'.inodes, ht, ?_⟩
  change w.inodes.map _ = _
  rw [hrep.inodes_eq rfl]
  refine List.map_congr_left fun x hx => ?_
  rw [Inode.file?, Inode.file?]
  split_ifs with hlive
  · obtain ⟨i, hi, rfl⟩ := List.getElem_of_mem hx
    have hread := (hS _ ht).readable i _ (List.getElem?_eq_getElem hi) hlive
    rw [hrep.content_of_bounds hread.bounds, Volume.content, Volume.content, heq]
  · rfl

/-- However many system calls fail while such commands run, the next process finds the files as
each of the commands in turn has left them alone or has changed them as a whole. -/
theorem commands_leave {w : World} (hw : Mounted w) (f : ℕ → Fault) {cs : List FileCall}
    (hcs : ∀ c ∈ cs, TakesNoBlocks c.op) :
    ∃ rs s, runList runCall cs (callTape.set f w) = some (rs, s) ∧
      ∀ behindSb garbage : ℕ → UInt8, ∃ t,
        fsMount (World.start s.file behindSb garbage) = some (0, t) ∧
          CanLeaveAll w.flat.files cs t.flat.files := by
  obtain ⟨g, v, hrep, hv⟩ := hw.steady
  obtain ⟨rs, s, hrun, disk, bytes, sb, hs, hdisk⟩ :=
    runList_leaves hv.sound hcs hv.sound.neat _ (hrep.tabled hv.sound f)
  refine ⟨rs, s, hrun, fun behindSb garbage => ?_⟩
  obtain ⟨t, hmount, u, hu, hfiles⟩ := mounts_tabled hdisk (fun _ h => h.2) behindSb garbage
  rw [hs.file, hrep.flat_eq hv]
  exact ⟨t, hmount, hfiles ▸ hu.1⟩

/-- A file is made and another cut, and the tenth call and all later ones fail. -/
def createTruncate : List FileCall :=
  [⟨.create ⟨[98, 98], by decide⟩, 3⟩, ⟨.truncate ⟨[97, 97], by decide⟩ 1, 4⟩]

theorem commands_leave_killed : ∃ w, Mounted w ∧ ∃ rs s,
    runList runCall createTruncate
      (callTape.set (fun k => if k < 9 then none else some 0) w) = some (rs, s) ∧
    ∀ behindSb garbage : ℕ → UInt8, ∃ t,
      fsMount (World.start s.file behindSb garbage) = some (0, t) ∧
        CanLeaveAll w.flat.files createTruncate t.flat.files := by
  obtain ⟨w, hw, -⟩ := exists_twoBytes
  have hcs : ∀ c ∈ createTruncate, TakesNoBlocks c.op := by
    simp [createTruncate, TakesNoBlocks]
  exact ⟨w, hw, commands_leave hw _ hcs⟩

end MiniFs.Properties
