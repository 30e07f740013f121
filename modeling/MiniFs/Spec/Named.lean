import MiniFs.Library.Footprint
import MiniFs.Library.Keyed
import MiniFs.Library.Simulation
import MiniFs.Spec.Flat

/-! # The files under their names

As long as no two files have the same name, what a successful command does to the
files under their names is an effect of its own: it depends on no inode number, no
free space and no other file. The footprint of the effect are the names the command
mentions. A command that fails has no effect.
-/

set_option autoImplicit false

namespace MiniFs.Spec
open MiniFs.Core Library Library.Exec Library.Footprint

abbrev Shown := List UInt8 → Option File

def Flat.shown (fs : Flat) : Shown := fun name => (fs.find name).map Prod.snd

def Flat.Distinct (fs : Flat) : Prop := Keyed.Unique (Option.map File.name) fs.files

def names : FileOp → List (List UInt8)
  | .create name | .write name _ | .append name _ | .read name | .truncate name _
  | .chmod name _ | .delete name => [name.bytes]
  | .rename oldName newName => [oldName.bytes, newName.bytes]
  | .copy src dst => [src.bytes, dst.bytes]

/-- The name a copy makes fits its field; `fs_copy` does not check it. -/
def CopyFits : FileOp → Prop
  | .copy _ dst => dst.strlen < maxFilenameLen
  | _ => True

/-- What a successful operation does to the files under their names. -/
def effect (now : UInt64) (op : FileOp) (s : Shown) : Shown :=
  match op with
  | .create name =>
    Function.update s name.bytes (some (.new now name (fsIfreg ||| fsDefaultMode)))
  | .write name data => Function.update s name.bytes
      ((s name.bytes).map fun f => { f with content := data.bytes, modifiedAt := now })
  | .append name data => Function.update s name.bytes ((s name.bytes).map fun f =>
      { f with content := f.content ++ data.bytes, modifiedAt := now })
  | .read name => Function.update s name.bytes
      ((s name.bytes).map fun f => { f with accessedAt := now })
  | .rename oldName newName => Function.update (Function.update s oldName.bytes none) newName.bytes
      ((s oldName.bytes).map fun f => { f with name := newName.bytes, modifiedAt := now })
  | .copy src dst => Function.update s dst.bytes
      ((s src.bytes).map fun f => { File.new now dst f.mode with content := f.content })
  | .truncate name newSize => Function.update s name.bytes ((s name.bytes).map fun f =>
      { f with content := f.content.take newSize.toNat, modifiedAt := now })
  | .chmod name mode => Function.update s name.bytes ((s name.bytes).map fun f =>
      { f with mode := (f.mode &&& 0xF000) ||| (mode &&& 0x0FFF), modifiedAt := now })
  | .delete name => Function.update s name.bytes none

/-- A command whose answer is not 0 has no effect. -/
def answered (now : UInt64) (op : FileOp) (r : Int) (s : Shown) : Shown :=
  if r = 0 then effect now op s else s

variable {fs : Flat} {i : ℕ} {f f' : File} {name : List UInt8} {now : UInt64} {op : FileOp}

/-! ## Footprints -/

theorem effect_within (now : UInt64) (op : FileOp) :
    Within {name | name ∈ names op} (effect now op) := by
  constructor
  · intro s name hname
    cases op <;> simp_all [names, effect]
  · intro s t hst name hname
    have hself : s name = t name := hst hname
    cases op with
    | create => simp only [effect, Function.update_apply, hself]
    | delete => simp only [effect, Function.update_apply, hself]
    | write name | append name | read name | rename name | copy name | truncate name | chmod name =>
      have hread : s name.bytes = t name.bytes := hst (by simp [names])
      simp only [effect, Function.update_apply, hself, hread]

/-! ## Tables of files -/

theorem shown_eq_table (fs : Flat) :
    fs.shown = Option.join ∘ Keyed.table (Option.map File.name) id fs.files := by
  funext name
  have hkey (f : Option File) :
      f.any (·.name = name) = decide (f.map File.name = some name) := by
    cases f <;> simp
  simp only [Function.comp_apply, Keyed.table, Keyed.lookup, Option.map_id, id_eq, Flat.shown,
    Flat.find, hkey, List.find?_eq_bind_findIdx?_getElem?]
  cases fs.files.findIdx? fun f => decide (f.map File.name = some name) with
  | none => rfl
  | some i =>
    rw [Option.bind_some, Option.bind_some, Option.map_map]
    exact Option.map_id'

theorem find_slot (h : fs.find name = some (i, f)) :
    fs.files[i]? = some (some f) ∧ f.name = name := by
  obtain ⟨j, hj, hf⟩ := Option.bind_eq_some_iff.mp h
  obtain ⟨y, hy, heq⟩ := Option.map_eq_some_iff.mp hf
  obtain ⟨rfl, rfl⟩ : j = i ∧ y = f := Prod.mk.inj heq
  obtain ⟨hlt, hname, -⟩ := List.findIdx?_eq_some_iff_getElem.mp hj
  have hslot := Option.join_eq_some_iff.mp hy
  obtain ⟨_, hget⟩ := List.getElem?_eq_some_iff.mp hslot
  rw [hget] at hname
  exact ⟨hslot, of_decide_eq_true hname⟩

theorem shown_of_find (h : fs.find name = some (i, f)) : fs.shown name = some f := by
  rw [Flat.shown, h]
  rfl

theorem lookup_of_find (h : ¬(fs.find name).isSome) :
    Keyed.lookup (Option.map File.name) fs.files name = none := by
  have hnone : fs.find name = none := Option.not_isSome_iff_eq_none.mp h
  have hshown : fs.shown name = none := by
    rw [Flat.shown, hnone]
    rfl
  rw [shown_eq_table] at hshown
  cases hl : Keyed.lookup (Option.map File.name) fs.files name with
  | none => rfl
  | some x =>
    obtain ⟨y, rfl, -⟩ := Option.map_eq_some_iff.mp (Keyed.key_of_lookup hl)
    rw [Function.comp_apply, Keyed.table, hl] at hshown
    exact absurd hshown (Option.some_ne_none y)

theorem slot_of_freeSlot (h : fs.freeSlot = some i) : fs.files[i]? = some none := by
  obtain ⟨hlt, hfree, -⟩ := List.findIdx?_eq_some_iff_getElem.mp h
  rw [List.getElem?_eq_getElem hlt, Option.isNone_iff_eq_none.mp hfree]

theorem distinct_empty {n : ℕ} (h : fs.files = List.replicate n none) : fs.Distinct := by
  rw [Flat.Distinct, h]
  intro i j x y name hi _ hx
  obtain ⟨-, rfl⟩ := List.mem_replicate.mp (List.mem_of_getElem? hi)
  exact nomatch hx

/-- Names are distinct and show `s`. -/
structure Shows (fs : Flat) (s : Shown) : Prop where
  distinct : fs.Distinct
  shown : fs.shown = s

/-- The files of the other slots are shown as they were. -/
theorem same_files (fs : Flat) (i : ℕ) : ∀ (j : ℕ) (y : Option File), j ≠ i →
    fs.files[j]? = some y → y.map File.name ≠ none → id y = id y := fun _ _ _ _ _ => rfl

section Changes
variable {fs' : Flat} (hu : fs.Distinct)
include hu

theorem shows_same (h : fs'.files = fs.files) : Shows fs' fs.shown := by
  refine ⟨?_, ?_⟩
  · rw [Flat.Distinct, h]
    exact hu
  · rw [shown_eq_table, shown_eq_table, h]

theorem shows_changed (hi : fs.files[i]? = some (some f)) (hname : f.name = name)
    (hname' : f'.name = name) (h : fs'.files = fs.files.set i (some f')) :
    Shows fs' (Function.update fs.shown name (some f')) := by
  have hkey : Option.map File.name (some f) = some name := congrArg some hname
  have hkey' : Option.map File.name (some f') = some name := congrArg some hname'
  refine ⟨?_, ?_⟩
  · rw [Flat.Distinct, h]
    exact hu.set hi fun k hk => .inl (hkey.trans (hkey'.symm.trans hk))
  · rw [shown_eq_table, shown_eq_table, h,
      hu.table_set_same hi (same_files fs i) hkey hkey', Function.comp_update]
    rfl

theorem shows_moved {newName : List UInt8} (hi : fs.files[i]? = some (some f))
    (hname : f.name = name) (hname' : f'.name = newName)
    (hnew : Keyed.lookup (Option.map File.name) fs.files newName = none)
    (h : fs'.files = fs.files.set i (some f')) :
    Shows fs' (Function.update (Function.update fs.shown name none) newName (some f')) := by
  have hkey : Option.map File.name (some f) = some name := congrArg some hname
  have hkey' : Option.map File.name (some f') = some newName := congrArg some hname'
  refine ⟨?_, ?_⟩
  · rw [Flat.Distinct, h]
    exact hu.set hi fun k hk => .inr (Option.some.inj (hkey'.symm.trans hk) ▸ hnew)
  · rw [shown_eq_table, shown_eq_table, h,
      hu.table_set_moved hi (same_files fs i) hkey hkey' hnew,
      Function.comp_update, Function.comp_update]
    rfl

theorem shows_new (hi : fs.files[i]? = some none) (hname : f'.name = name)
    (hnew : Keyed.lookup (Option.map File.name) fs.files name = none)
    (h : fs'.files = fs.files.set i (some f')) :
    Shows fs' (Function.update fs.shown name (some f')) := by
  have hkey' : Option.map File.name (some f') = some name := congrArg some hname
  refine ⟨?_, ?_⟩
  · rw [Flat.Distinct, h]
    exact hu.set hi fun k hk => .inr (Option.some.inj (hkey'.symm.trans hk) ▸ hnew)
  · rw [shown_eq_table, shown_eq_table, h,
      hu.table_set_new hi (same_files fs i) rfl hkey' hnew, Function.comp_update]
    rfl

theorem shows_gone (hi : fs.files[i]? = some (some f)) (hname : f.name = name)
    (h : fs'.files = fs.files.set i none) : Shows fs' (Function.update fs.shown name none) := by
  have hkey : Option.map File.name (some f) = some name := congrArg some hname
  refine ⟨?_, ?_⟩
  · rw [Flat.Distinct, h]
    exact hu.set hi fun k hk => nomatch hk
  · rw [shown_eq_table, shown_eq_table, h,
      hu.table_set_gone hi (same_files fs i) hkey rfl, Function.comp_update]
    rfl

end Changes

/-! ## One command -/

theorem shows_fail (hu : fs.Distinct) (msg : Message) :
    Shows (fs.fail msg).2 (answered now op (fs.fail msg).1 fs.shown) :=
  shows_same hu rfl

theorem shows_succeed {fs' : Flat} (h : Shows fs' (effect now op fs.shown)) (msgs : List Message) :
    Shows (fs'.succeed msgs).2 (answered now op (fs'.succeed msgs).1 fs.shown) :=
  ⟨h.distinct, h.shown⟩

/-- A content is not stored, or it is stored in its file. -/
theorem store_cases (fs : Flat) (now : UInt64) (i : ℕ) (f : File) (data : List UInt8) :
    (∃ msg, fs.store now i f data = .error msg) ∨ ∃ fs', fs.store now i f data = .ok fs' ∧
      fs'.files = fs.files.set i (some { f with content := data, modifiedAt := now }) := by
  rw [Flat.store]
  split_ifs
  · exact .inl ⟨_, rfl⟩
  · exact .inl ⟨_, rfl⟩
  · exact .inr ⟨_, rfl, rfl⟩

theorem new_name (now : UInt64) {name : CStr} (hlen : name.strlen < maxFilenameLen) (mode : UInt16) :
    (File.new now name mode).name = name.bytes := List.take_of_length_le (Nat.le_of_lt_succ hlen)

/-- The answer and the new state have the effect of the operation, or none. -/
abbrev ShowsAnswer (fs : Flat) (now : UInt64) (op : FileOp) (p : Int × Flat) : Prop :=
  Shows p.2 (answered now op p.1 fs.shown)

section Operations
variable (hu : fs.Distinct) (now : UInt64)
include hu

theorem create_shows (name : CStr) : ShowsAnswer fs now (.create name) (fs.create now name) := by
  rw [Flat.create]
  split_ifs with hlen hex
  · exact shows_fail hu _
  · exact shows_fail hu _
  · cases hfree : fs.freeSlot with
    | none => exact shows_fail hu _
    | some i =>
      exact shows_succeed (shows_new hu (slot_of_freeSlot hfree) (new_name now (not_le.mp hlen) _)
        (lookup_of_find hex) rfl) _

theorem shows_update {fs' : Flat} (change : File → File) (hfind : fs.find name = some (i, f))
    (heffect : effect now op fs.shown = Function.update fs.shown name ((fs.shown name).map change))
    (hname : (change f).name = f.name) (h : fs'.files = fs.files.set i (some (change f)))
    (msgs : List Message) : ShowsAnswer fs now op (fs'.succeed msgs) := by
  obtain ⟨hi, hf⟩ := find_slot hfind
  rw [shown_of_find hfind, Option.map_some] at heffect
  exact shows_succeed (heffect ▸ shows_changed hu hi hf (hname.trans hf) h) msgs

theorem write_shows (name data : CStr) :
    ShowsAnswer fs now (.write name data) (fs.write now name data) := by
  rw [Flat.write]
  cases hfind : fs.find name.bytes with
  | none => exact shows_fail hu _
  | some p =>
    dsimp only
    obtain ⟨msg, hstore⟩ | ⟨fs', hstore, hfiles⟩ := store_cases fs now p.1 p.2 data.bytes
    · rw [hstore]
      exact shows_fail hu msg
    · rw [hstore]
      exact shows_update hu now (fun f => { f with content := data.bytes, modifiedAt := now }) hfind
        rfl rfl hfiles _

theorem append_shows (name data : CStr) :
    ShowsAnswer fs now (.append name data) (fs.append now name data) := by
  rw [Flat.append]
  cases hfind : fs.find name.bytes with
  | none => exact shows_fail hu _
  | some p =>
    dsimp only
    obtain ⟨msg, hstore⟩ | ⟨fs', hstore, hfiles⟩ :=
      store_cases fs now p.1 p.2 (p.2.content ++ data.bytes)
    · rw [hstore]
      exact shows_fail hu msg
    · rw [hstore]
      exact shows_update hu now (fun f => { f with
        content := f.content ++ data.bytes, modifiedAt := now }) hfind rfl rfl hfiles _

theorem read_shows (name : CStr) : ShowsAnswer fs now (.read name) (fs.read now name) := by
  rw [Flat.read]
  cases hfind : fs.find name.bytes with
  | none => exact shows_fail hu _
  | some p =>
    exact shows_update hu now (fun f => { f with accessedAt := now }) hfind rfl rfl rfl _

theorem rename_shows (oldName newName : CStr) :
    ShowsAnswer fs now (.rename oldName newName) (fs.rename now oldName newName) := by
  rw [Flat.rename]
  cases hfind : fs.find oldName.bytes with
  | none =>
    dsimp only
    split_ifs <;> exact shows_fail hu _
  | some p =>
    obtain ⟨hi, hname⟩ := find_slot hfind
    dsimp only
    split_ifs with hlen hex
    · exact shows_fail hu _
    · exact shows_fail hu _
    · refine shows_succeed ?_ _
      rw [effect, shown_of_find hfind]
      exact shows_moved hu hi hname rfl (lookup_of_find hex) rfl

theorem copy_shows {dst : CStr} (src : CStr) (hdst : dst.strlen < maxFilenameLen) :
    ShowsAnswer fs now (.copy src dst) (fs.copy now src dst) := by
  rw [Flat.copy]
  cases hfind : fs.find src.bytes with
  | none => exact shows_fail hu _
  | some p =>
    cases hfree : fs.freeSlot with
    | none =>
      dsimp only
      split_ifs <;> exact shows_fail hu _
    | some i =>
      have hslot := slot_of_freeSlot hfree
      dsimp only
      split_ifs with hex hempty
      · exact shows_fail hu _
      · refine shows_succeed ?_ _
        rw [effect, shown_of_find hfind, Option.map_some, hempty]
        exact shows_new hu hslot (new_name now hdst _) (lookup_of_find hex) rfl
      · obtain ⟨msg, hstore⟩ | ⟨fs', hstore, hfiles⟩ := store_cases
          (fs.claim i (.new now dst p.2.mode)) now i (.new now dst p.2.mode) p.2.content
        · rw [hstore]
          exact shows_fail hu msg
        · rw [hstore]
          refine shows_succeed ?_ _
          rw [effect, shown_of_find hfind, Option.map_some]
          refine shows_new hu hslot (new_name now hdst p.2.mode) (lookup_of_find hex)
            (hfiles.trans ?_)
          exact List.set_set _

theorem truncate_shows (name : CStr) (newSize : UInt32) :
    ShowsAnswer fs now (.truncate name newSize) (fs.truncate now name newSize) := by
  rw [Flat.truncate]
  cases hfind : fs.find name.bytes with
  | none => exact shows_fail hu _
  | some p =>
    dsimp only
    split_ifs
    · exact shows_fail hu _
    · exact shows_update hu now (fun f => { f with
        content := f.content.take newSize.toNat, modifiedAt := now }) hfind rfl rfl rfl _

theorem chmod_shows (name : CStr) (mode : UInt16) :
    ShowsAnswer fs now (.chmod name mode) (fs.chmod now name mode) := by
  rw [Flat.chmod]
  cases hfind : fs.find name.bytes with
  | none => exact shows_fail hu _
  | some p =>
    exact shows_update hu now (fun f => { f with
      mode := (f.mode &&& 0xF000) ||| (mode &&& 0x0FFF), modifiedAt := now }) hfind rfl rfl rfl _

theorem delete_shows (name : CStr) : ShowsAnswer fs now (.delete name) (fs.delete name) := by
  rw [Flat.delete]
  cases hfind : fs.find name.bytes with
  | none => exact shows_fail hu _
  | some p =>
    obtain ⟨hi, hname⟩ := find_slot hfind
    exact shows_succeed (shows_gone hu hi hname rfl) _

/-- Every operation has its effect if its answer is 0, and none otherwise. -/
theorem runOp_shows {op : FileOp} (hcopy : CopyFits op) :
    Shows (fs.runOp now op).2 (answered now op (fs.runOp now op).1 fs.shown) := by
  cases op with
  | create name => exact create_shows hu now name
  | write name data => exact write_shows hu now name data
  | append name data => exact append_shows hu now name data
  | read name => exact read_shows hu now name
  | rename oldName newName => exact rename_shows hu now oldName newName
  | copy src dst => exact copy_shows hu now src hcopy
  | truncate name newSize => exact truncate_shows hu now name newSize
  | chmod name mode => exact chmod_shows hu now name mode
  | delete name => exact delete_shows hu now name

end Operations

/-! ## Lists of commands -/

/-- The file commands of a list whose answer is 0. -/
def done (steps : List (Interruption × Command)) (answers : List (Int × Int)) : List FileCall :=
  (steps.zip answers).filterMap fun p => match p with
    | ((_, .file c), (_, r)) => if r = 0 then some c else none
    | _ => none

theorem run_shows (hu : fs.Distinct) (p : Interruption × Command)
    (hcopy : ∀ c, p.2 = .file c → CopyFits c.op) : Shows (run p.2 fs).2
      (runAll (fun c => effect c.now c.op) (done [p] [(0, (run p.2 fs).1)]) fs.shown) := by
  obtain ⟨x, c⟩ := p
  cases c with
  | file c =>
    have hop := runOp_shows hu c.now (hcopy c rfl)
    rw [answered] at hop
    simp only [run, done, List.zip_cons_cons, List.zip_nil_left, List.filterMap_cons,
      List.filterMap_nil]
    split_ifs at hop ⊢ with h0
    · exact hop
    · exact hop
  | stat name =>
    refine shows_same hu ?_
    rw [run, Flat.stat]
    cases fs.find name.bytes <;> rfl
  | ls => exact shows_same hu rfl
  | statfs => exact shows_same hu rfl
  | fsck => exact shows_same hu rfl

/-- What the names show after a list of commands is the work of those that succeed. -/
theorem runEach_shows (hu : fs.Distinct) (steps : List (Interruption × Command))
    (hcopy : ∀ p ∈ steps, ∀ c, p.2 = .file c → CopyFits c.op) :
    Shows (runEach runResumed steps fs).2 (runAll (fun c => effect c.now c.op)
      (done steps (runEach runResumed steps fs).1) fs.shown) := by
  induction steps generalizing fs with
  | nil => exact shows_same hu rfl
  | cons p steps ih =>
    have hp := run_shows hu p (hcopy p List.mem_cons_self)
    have hrest := ih hp.distinct fun q hq => hcopy q (List.mem_cons_of_mem p hq)
    refine ⟨hrest.distinct, hrest.shown.trans ?_⟩
    rw [hp.shown, ← runAll_append]
    congr 1
    exact List.filterMap_append.symm

end MiniFs.Spec
