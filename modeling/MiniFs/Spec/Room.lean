import MiniFs.Spec.Abstraction
import MiniFs.Spec.Named

/-! # What there is room for

The free slots and the free blocks of the flat file system, and what a new file with a
content takes of them.
-/

set_option autoImplicit false

namespace MiniFs.Spec
open MiniFs.Core Library Library.Exec Library.Chunks

namespace Flat
variable (fs : Flat)

def slots : ℕ := fs.files.countP Option.isNone

def room : ℕ := fs.sb.freeBlocks.toNat

end Flat

variable {fs : Flat} {i : ℕ} {f : File} {name data : CStr} {now : UInt64}

theorem freeSlot_isSome : fs.freeSlot.isSome ↔ 0 < fs.slots := by
  rw [Flat.freeSlot, Flat.slots, List.findIdx?_isSome, List.any_eq_true, List.countP_pos_iff]

theorem find_of_shown {name : List UInt8} (h : fs.shown name = some f) :
    ∃ i, fs.find name = some (i, f) := by
  obtain ⟨⟨i, f⟩, hfind, rfl⟩ := Option.map_eq_some_iff.mp h
  exact ⟨i, hfind⟩

theorem not_find_of_shown {name : List UInt8} (h : fs.shown name = none) :
    ¬(fs.find name).isSome := by
  rw [Option.map_eq_none_iff.mp h]
  decide

/-- `create` succeeds on a new name that fits if there is a slot. -/
theorem create_zero_iff (hnew : fs.shown name.bytes = none) :
    (fs.create now name).1 = 0 ↔ name.strlen < maxFilenameLen ∧ 0 < fs.slots := by
  rw [Flat.create, if_neg (not_find_of_shown hnew), ← freeSlot_isSome]
  split_ifs with hlen
  · exact iff_of_false (by decide : ((-1 : Int)) ≠ 0) fun h => absurd h.1 (not_lt.mpr hlen)
  · cases fs.freeSlot with
    | none => exact iff_of_false (by decide : ((-1 : Int)) ≠ 0) fun h =>
        absurd h.2 Bool.false_ne_true
    | some i => exact iff_of_true rfl ⟨not_le.mp hlen, rfl⟩

/-- A new file takes a slot and no block. -/
theorem create_room (h : (fs.create now name).1 = 0) :
    (fs.create now name).2.slots + 1 = fs.slots ∧ (fs.create now name).2.room = fs.room ∧
      (fs.create now name).2.sb.blockSize = fs.sb.blockSize := by
  rw [Flat.create] at h ⊢
  split_ifs at h ⊢
  · exact absurd h (by decide : ((-1 : Int)) ≠ 0)
  · exact absurd h (by decide : ((-1 : Int)) ≠ 0)
  · cases hfree : fs.freeSlot with
    | none =>
      rw [hfree] at h
      exact absurd h (by decide : ((-1 : Int)) ≠ 0)
    | some i =>
      have hcount := Image.countP_set (p := Option.isNone) (slot_of_freeSlot hfree)
        (some (.new now name (fsIfreg ||| fsDefaultMode)))
      exact ⟨hcount, rfl, rfl⟩

theorem store_ok_iff {data : List UInt8} : (∃ fs', fs.store now i f data = .ok fs') ↔
    fs.blocksNeeded data.length ≤ 16 ∧ fs.blocksNeeded data.length ≤ fs.room := by
  rw [Flat.store]
  split_ifs with hlarge hfull
  · exact iff_of_false (by rintro ⟨_, ⟨⟩⟩) fun h => absurd h.1 (not_le.mpr hlarge)
  · exact iff_of_false (by rintro ⟨_, ⟨⟩⟩) fun h => absurd h.2 (not_le.mpr hfull)
  · exact iff_of_true ⟨_, rfl⟩ ⟨not_lt.mp hlarge, not_lt.mp hfull⟩

/-- A content that is stored gives the blocks of the old one back. -/
theorem store_room {fs' : Flat} {data : List UInt8} (h : fs.store now i f data = .ok fs')
    (hfit : fs.room + fs.blocks f.content.length < 2 ^ 32) :
    fs'.room + fs.blocksNeeded data.length = fs.room + fs.blocks f.content.length ∧
      fs'.sb.blockSize = fs.sb.blockSize := by
  obtain ⟨-, hroom⟩ := store_ok_iff.mp ⟨fs', h⟩
  rw [Flat.store] at h
  split_ifs at h
  rw [← Except.ok.inj h]
  refine ⟨?_, rfl⟩
  change (fs.sb.freeBlocks + UInt32.ofNat _ - UInt32.ofNat _).toNat + _ = fs.sb.freeBlocks.toNat + _
  have hfit' : fs.sb.freeBlocks.toNat + fs.blocks f.content.length < 2 ^ 32 := hfit
  have hroom' : fs.blocksNeeded data.length ≤ fs.sb.freeBlocks.toNat := hroom
  have hadd : (fs.sb.freeBlocks + UInt32.ofNat (fs.blocks f.content.length)).toNat =
      fs.sb.freeBlocks.toNat + fs.blocks f.content.length := by
    rw [UInt32.toNat_add, Image.toNat_word (by omega), Nat.mod_eq_of_lt hfit']
  have hneeded : (UInt32.ofNat (fs.blocksNeeded data.length)).toNat =
      fs.blocksNeeded data.length := Image.toNat_word (by omega)
  rw [UInt32.toNat_sub_of_le _ _ (UInt32.le_iff_toNat_le.mpr (by omega)), hadd, hneeded]
  omega

theorem write_find (hfind : fs.find name.bytes = some (i, f)) :
    (fs.write now name data).1 = 0 ↔ ∃ fs', fs.store now i f data.bytes = .ok fs' := by
  rw [Flat.write, hfind]
  dsimp only
  cases fs.store now i f data.bytes with
  | error msg => exact iff_of_false (by decide : ((-1 : Int)) ≠ 0) (by rintro ⟨_, ⟨⟩⟩)
  | ok fs' => exact iff_of_true rfl ⟨_, rfl⟩

theorem append_find (hfind : fs.find name.bytes = some (i, f)) :
    (fs.append now name data).1 = 0 ↔
      ∃ fs', fs.store now i f (f.content ++ data.bytes) = .ok fs' := by
  rw [Flat.append, hfind]
  dsimp only
  cases fs.store now i f (f.content ++ data.bytes) with
  | error msg => exact iff_of_false (by decide : ((-1 : Int)) ≠ 0) (by rintro ⟨_, ⟨⟩⟩)
  | ok fs' => exact iff_of_true rfl ⟨_, rfl⟩

/-- A content written to an empty file takes its blocks and no slot. -/
theorem write_room (hfind : fs.find name.bytes = some (i, f)) (hempty : f.content = [])
    (hpos : 0 < fs.sb.blockSize.toNat) (h : (fs.write now name data).1 = 0) :
    (fs.write now name data).2.slots = fs.slots ∧
      (fs.write now name data).2.room + fs.blocksNeeded data.strlen = fs.room ∧
      (fs.write now name data).2.sb.blockSize = fs.sb.blockSize := by
  obtain ⟨fs', hstore⟩ := (write_find hfind).mp h
  have hnone : fs.blocks f.content.length = 0 := by
    rw [hempty]
    exact pieces_zero hpos
  have hlt : fs.room < 2 ^ 32 := fs.sb.freeBlocks.toNat_lt
  obtain ⟨hroom, hsize⟩ := store_room hstore (by rw [hnone]; exact hlt)
  rw [hnone] at hroom
  have hfiles : fs'.files = fs.files.set i (some { f with content := data.bytes, modifiedAt := now })
      := by
    obtain ⟨msg, herr⟩ | ⟨fs'', hok, hfiles⟩ := store_cases fs now i f data.bytes
    · exact nomatch herr.symm.trans hstore
    · rwa [← Except.ok.inj (hok.symm.trans hstore)]
  have hcount := Image.countP_set (p := Option.isNone) (find_slot hfind).1
    (some { f with content := data.bytes, modifiedAt := now })
  rw [Flat.write, hfind]
  dsimp only
  rw [hstore]
  refine ⟨?_, hroom, hsize⟩
  change fs'.files.countP Option.isNone = _
  rw [hfiles]
  exact hcount

/-! ## New files with contents -/

/-- A file to be made, with its content and the times of both calls. -/
structure NewFile where
  name : CStr
  data : CStr
  createdAt : UInt64
  writtenAt : UInt64

def NewFile.stored (n : NewFile) : File :=
  { File.new n.createdAt n.name (fsIfreg ||| fsDefaultMode) with
    content := n.data.bytes, modifiedAt := n.writtenAt }

def NewFile.calls (n : NewFile) : List FileCall :=
  [⟨.create n.name, n.createdAt⟩, ⟨.write n.name n.data, n.writtenAt⟩]

def Flat.needed (fs : Flat) (n : NewFile) : ℕ := fs.blocksNeeded n.data.strlen

def Flat.Holds (fs : Flat) (n : NewFile) : Prop :=
  n.name.strlen < maxFilenameLen ∧ 0 < fs.slots ∧ fs.needed n ≤ 16 ∧ fs.needed n ≤ fs.room

structure Placed (fs : Flat) (n : NewFile) (fs' : Flat) : Prop where
  shows : Shows fs' (Function.update fs.shown n.name.bytes (some n.stored))
  slots : fs'.slots + 1 = fs.slots
  room : fs'.room + fs.needed n = fs.room
  blockSize : fs'.sb.blockSize = fs.sb.blockSize

theorem created_shows {n : NewFile} (hu : fs.Distinct)
    (h : (fs.create n.createdAt n.name).1 = 0) : Shows (fs.create n.createdAt n.name).2
      (Function.update fs.shown n.name.bytes
        (some (.new n.createdAt n.name (fsIfreg ||| fsDefaultMode)))) := by
  have hfits : CopyFits (.create n.name) := trivial
  have hshows := runOp_shows hu n.createdAt hfits
  rw [answered] at hshows
  change (fs.runOp n.createdAt (.create n.name)).1 = 0 at h
  rwa [if_pos h] at hshows

/-- Both calls succeed if and only if there is room for the file. -/
theorem place {n : NewFile} (hu : fs.Distinct) (hpos : 0 < fs.sb.blockSize.toNat)
    (hnew : fs.shown n.name.bytes = none) :
    ((fs.create n.createdAt n.name).1 = 0 ∧
      ((fs.create n.createdAt n.name).2.write n.writtenAt n.name n.data).1 = 0 ↔ fs.Holds n) ∧
    ((fs.create n.createdAt n.name).1 = 0 →
      ((fs.create n.createdAt n.name).2.write n.writtenAt n.name n.data).1 = 0 →
      Placed fs n ((fs.create n.createdAt n.name).2.write n.writtenAt n.name n.data).2) := by
  by_cases hcreate : (fs.create n.createdAt n.name).1 = 0
  · have hshows := created_shows hu hcreate
    obtain ⟨hslots, hroom, hsize⟩ := create_room hcreate
    obtain ⟨hlen, hfree⟩ := (create_zero_iff hnew).mp hcreate
    generalize (fs.create n.createdAt n.name).2 = fs1 at hshows hslots hroom hsize ⊢
    have hshown := (congrFun hshows.shown n.name.bytes).trans (Function.update_self ..)
    obtain ⟨i, hfind⟩ := find_of_shown hshown
    have hneeded : fs1.blocksNeeded n.data.strlen = fs.needed n := by
      rw [Flat.needed, Flat.blocksNeeded, Flat.blocks, hsize]
      rfl
    constructor
    · rw [write_find hfind, store_ok_iff, Flat.Holds, ← hneeded, hroom]
      exact ⟨fun h => ⟨hlen, hfree, h.2⟩, fun h => ⟨hcreate, h.2.2⟩⟩
    · intro _ hwrite
      obtain ⟨hslots', hroom', hsize'⟩ := write_room hfind rfl (hsize ▸ hpos) hwrite
      have hfits : CopyFits (.write n.name n.data) := trivial
      have hend := runOp_shows hshows.distinct n.writtenAt hfits
      change (fs1.runOp n.writtenAt (.write n.name n.data)).1 = 0 at hwrite
      rw [answered, if_pos hwrite, effect, hshown, hshows.shown, Function.update_idem] at hend
      exact ⟨hend, by rw [hslots', hslots], by rw [← hneeded, hroom', hroom], hsize'.trans hsize⟩
  · refine ⟨iff_of_false (fun h => hcreate h.1) fun h => hcreate ?_, fun h => absurd h hcreate⟩
    exact (create_zero_iff hnew).mpr ⟨h.1, h.2.1⟩

/-! ## Lists of new files -/

def storeCalls (files : List NewFile) : List FileCall := files.flatMap NewFile.calls

structure Flat.HoldsAll (fs : Flat) (files : List NewFile) : Prop where
  each : ∀ n ∈ files, n.name.strlen < maxFilenameLen ∧ fs.needed n ≤ 16
  slots : files.length ≤ fs.slots
  room : (files.map fs.needed).sum ≤ fs.room

variable {n : NewFile} {files : List NewFile}

theorem Flat.HoldsAll.head (h : fs.HoldsAll (n :: files)) : fs.Holds n := by
  obtain ⟨hlen, hneeded⟩ := h.each n List.mem_cons_self
  have hslots := h.slots
  have hroom := h.room
  rw [List.length_cons] at hslots
  rw [List.map_cons, List.sum_cons] at hroom
  exact ⟨hlen, by omega, hneeded, by omega⟩

theorem Placed.holdsAll_iff {fs' : Flat} (h : Placed fs n fs') (hn : fs.Holds n) :
    fs.HoldsAll (n :: files) ↔ fs'.HoldsAll files := by
  have hneeded : fs'.needed = fs.needed := by
    funext m
    rw [Flat.needed, Flat.needed, Flat.blocksNeeded, Flat.blocksNeeded, Flat.blocks, Flat.blocks,
      h.blockSize]
  have hslots := h.slots
  have hroom := h.room
  constructor
  · rintro ⟨heach, hlen, hsum⟩
    rw [List.length_cons] at hlen
    rw [List.map_cons, List.sum_cons] at hsum
    rw [← hneeded] at heach hsum hroom
    exact ⟨fun m hm => heach m (List.mem_cons_of_mem n hm), by omega, by omega⟩
  · rintro ⟨heach, hlen, hsum⟩
    rw [hneeded] at heach hsum
    refine ⟨List.forall_mem_cons.mpr ⟨⟨hn.1, hn.2.2.1⟩, heach⟩, ?_, ?_⟩
    · rw [List.length_cons]
      omega
    · rw [List.map_cons, List.sum_cons]
      omega

def runCallFlat (c : FileCall) (fs : Flat) : Int × Flat := fs.runOp c.now c.op

/-- All calls succeed if and only if there is room for all files, and then the names show them. -/
theorem storeAll (hu : fs.Distinct) (hpos : 0 < fs.sb.blockSize.toNat)
    (hdiff : (files.map fun n => n.name.bytes).Nodup)
    (hnew : ∀ n ∈ files, fs.shown n.name.bytes = none) :
    ((∀ r ∈ (runEach runCallFlat (storeCalls files) fs).1, r = 0) ↔ fs.HoldsAll files) ∧
    ((∀ r ∈ (runEach runCallFlat (storeCalls files) fs).1, r = 0) → ∀ name,
      (runEach runCallFlat (storeCalls files) fs).2.shown name =
        ((files.find? fun n => n.name.bytes = name).map NewFile.stored).or (fs.shown name)) := by
  induction files generalizing fs with
  | nil =>
    refine ⟨iff_of_true (fun r hr => nomatch hr) ?_, fun _ _ => rfl⟩
    exact ⟨List.forall_mem_nil _, Nat.zero_le _, Nat.zero_le _⟩
  | cons n files ih =>
    obtain ⟨hiff, hplaced⟩ := place hu hpos (hnew n List.mem_cons_self)
    rw [List.map_cons, List.nodup_cons] at hdiff
    change ((∀ r ∈ (fs.create n.createdAt n.name).1 ::
      ((fs.create n.createdAt n.name).2.write n.writtenAt n.name n.data).1 ::
        (runEach runCallFlat (storeCalls files)
          ((fs.create n.createdAt n.name).2.write n.writtenAt n.name n.data).2).1, r = 0) ↔ _) ∧
      ((∀ r ∈ (fs.create n.createdAt n.name).1 ::
        ((fs.create n.createdAt n.name).2.write n.writtenAt n.name n.data).1 ::
          (runEach runCallFlat (storeCalls files)
            ((fs.create n.createdAt n.name).2.write n.writtenAt n.name n.data).2).1, r = 0) →
        ∀ name, (runEach runCallFlat (storeCalls files)
          ((fs.create n.createdAt n.name).2.write n.writtenAt n.name n.data).2).2.shown name = _)
    simp only [List.forall_mem_cons, ← and_assoc]
    rw [hiff]
    by_cases hn : fs.Holds n
    · obtain ⟨hcreate, hwrite⟩ := hiff.mpr hn
      have hp := hplaced hcreate hwrite
      have hnew' : ∀ m ∈ files,
          ((fs.create n.createdAt n.name).2.write n.writtenAt n.name n.data).2.shown
            m.name.bytes = none := by
        intro m hm
        have hne : m.name.bytes ≠ n.name.bytes := fun h =>
          hdiff.1 (h ▸ List.mem_map_of_mem hm)
        rw [hp.shows.shown, Function.update_of_ne hne]
        exact hnew m (List.mem_cons_of_mem n hm)
      obtain ⟨hall, hshown⟩ := ih hp.shows.distinct (hp.blockSize ▸ hpos) hdiff.2 hnew'
      refine ⟨?_, fun h name => (hshown h.2 name).trans ?_⟩
      · rw [hall, hp.holdsAll_iff hn]
        exact and_iff_right hn
      · rw [hp.shows.shown]
        by_cases hname : n.name.bytes = name
        · subst hname
          have hnone : files.find? (fun m => m.name.bytes = n.name.bytes) = none := by
            rw [List.find?_eq_none]
            exact fun m hm h => hdiff.1 (of_decide_eq_true h ▸ List.mem_map_of_mem hm)
          rw [hnone, List.find?_cons_of_pos (by simp), Function.update_self]
          rfl
        · rw [List.find?_cons_of_neg (by simpa using hname), Function.update_of_ne (Ne.symm hname)]
    · exact ⟨iff_of_false (fun h => hn h.1) fun h => hn h.head, fun h => absurd h.1 hn⟩

/-! ## Appending in pieces -/

/-- The blocks of a file that is longer by `data`, of which `asked` were asked for. -/
theorem append_room (hfind : fs.find name.bytes = some (i, f))
    (hfit : fs.room + fs.blocks f.content.length < 2 ^ 32)
    (h : (fs.append now name data).1 = 0) :
    (fs.append now name data).2.room + fs.blocksNeeded (f.content.length + data.strlen) =
      fs.room + fs.blocks f.content.length ∧
      (fs.append now name data).2.sb.blockSize = fs.sb.blockSize := by
  obtain ⟨fs', hstore⟩ := (append_find hfind).mp h
  have hroom := store_room hstore hfit
  rw [List.length_append] at hroom
  rw [Flat.append, hfind]
  dsimp only
  rw [hstore]
  exact hroom

theorem shown_of_append (h : (fs.append now name data).1 = 0) :
    ∃ f, fs.shown name.bytes = some f := by
  rw [Flat.append] at h
  cases hfind : fs.find name.bytes with
  | none =>
    rw [hfind] at h
    exact absurd h (by decide : ((-1 : Int)) ≠ 0)
  | some p => exact ⟨p.2, shown_of_find hfind⟩

def appendCalls (name : CStr) (parts : List (CStr × UInt64)) : List FileCall :=
  parts.map fun p => ⟨.append name p.1, p.2⟩

structure Grown (fs : Flat) (name : CStr) (f : File) (whole : List UInt8) (fs' : Flat) : Prop where
  shown : (fs'.shown name.bytes).map File.content = some whole
  others : ∀ n ≠ name.bytes, fs'.shown n = fs.shown n
  room : fs'.room + fs.blocksNeeded whole.length ≤ fs.room + fs.blocks f.content.length

theorem appended_shows (hu : fs.Distinct) (hshown : fs.shown name.bytes = some f)
    (h : (fs.append now name data).1 = 0) : Shows (fs.append now name data).2
      (Function.update fs.shown name.bytes
        (some { f with content := f.content ++ data.bytes, modifiedAt := now })) := by
  have hfits : CopyFits (.append name data) := trivial
  have hshows := runOp_shows hu now hfits
  change (fs.runOp now (.append name data)).1 = 0 at h
  rwa [answered, if_pos h, effect, hshown] at hshows

theorem append_grown (hu : fs.Distinct) (hshown : fs.shown name.bytes = some f)
    (hfit : fs.room + fs.blocks f.content.length < 2 ^ 32)
    (h : (fs.append now name data).1 = 0) :
    Grown fs name f (f.content ++ data.bytes) (fs.append now name data).2 := by
  obtain ⟨i, hfind⟩ := find_of_shown hshown
  have hshows := (appended_shows hu hshown h).shown
  refine ⟨?_, fun n hn => ?_, ?_⟩
  · rw [hshows, Function.update_self]
    rfl
  · rw [hshows, Function.update_of_ne hn]
  · rw [List.length_append]
    exact (append_room hfind hfit h).1.le

/-- If all parts can be appended one by one, there was room for all of them in one go. -/
theorem appendAll (parts : List (CStr × UInt64)) (hne : parts ≠ []) (hu : fs.Distinct)
    (hpos : 0 < fs.sb.blockSize.toNat) (hshown : fs.shown name.bytes = some f)
    (hfit : fs.room + fs.blocks f.content.length < 2 ^ 32) {whole : List UInt8}
    (hwhole : whole = f.content ++ parts.flatMap fun p => p.1.bytes)
    (hzero : ∀ r ∈ (runEach runCallFlat (appendCalls name parts) fs).1, r = 0) :
    (fs.blocksNeeded whole.length ≤ 16 ∧ fs.blocksNeeded whole.length ≤ fs.room) ∧
      Grown fs name f whole (runEach runCallFlat (appendCalls name parts) fs).2 := by
  induction parts generalizing fs f with
  | nil => exact absurd rfl hne
  | cons p parts ih =>
    obtain ⟨data, now⟩ := p
    change ∀ r ∈ (fs.append now name data).1 ::
      (runEach runCallFlat (appendCalls name parts) (fs.append now name data).2).1, r = 0 at hzero
    rw [List.forall_mem_cons] at hzero
    change _ ∧ Grown fs name f whole
      (runEach runCallFlat (appendCalls name parts) (fs.append now name data).2).2
    obtain ⟨i, hfind⟩ := find_of_shown hshown
    have hgrown := append_grown hu hshown hfit hzero.1
    have hok := store_ok_iff.mp ((append_find hfind).mp hzero.1)
    by_cases hlast : parts = []
    · subst hlast
      rw [List.flatMap_cons, List.flatMap_nil, List.append_nil] at hwhole
      rw [hwhole]
      exact ⟨hok, hgrown⟩
    · have hshows := appended_shows hu hshown hzero.1
      obtain ⟨hroom, hsize⟩ := append_room hfind hfit hzero.1
      have hblocks (len : ℕ) : (fs.append now name data).2.blocks len = fs.blocks len := by
        rw [Flat.blocks, Flat.blocks, hsize]
      have hneeded (len : ℕ) : (fs.append now name data).2.blocksNeeded len =
          fs.blocksNeeded len := by
        rw [Flat.blocksNeeded, Flat.blocksNeeded, hblocks]
      have hmono : fs.blocks f.content.length ≤ fs.blocks (f.content ++ data.bytes).length :=
        pieces_mono hpos (by rw [List.length_append]; omega)
      have hle : fs.blocks (f.content ++ data.bytes).length ≤
          fs.blocksNeeded (f.content ++ data.bytes).length := le_max_right _ _
      have hroom' := hgrown.room
      have hfit' : (fs.append now name data).2.room +
          (fs.append now name data).2.blocks (f.content ++ data.bytes).length < 2 ^ 32 := by
        rw [hblocks]
        omega
      have hwhole' : whole = (f.content ++ data.bytes) ++ parts.flatMap fun p => p.1.bytes := by
        rw [hwhole, List.flatMap_cons, List.append_assoc]
      obtain ⟨⟨h16, hin⟩, hrest⟩ := ih hlast hshows.distinct (hsize ▸ hpos)
        ((congrFun hshows.shown _).trans (Function.update_self ..)) hfit' hwhole' hzero.2
      have hleft : (runEach runCallFlat (appendCalls name parts) (fs.append now name data).2).2.room +
          (fs.append now name data).2.blocksNeeded whole.length ≤ (fs.append now name data).2.room +
          (fs.append now name data).2.blocks (f.content ++ data.bytes).length := hrest.room
      rw [hneeded] at h16 hin
      rw [hneeded, hblocks] at hleft
      refine ⟨⟨h16, by omega⟩, hrest.shown, fun n hn => ?_, by omega⟩
      exact (hrest.others n hn).trans (hgrown.others n hn)

end MiniFs.Spec
