import MiniFs.Simulator.App
import Mathlib.Tactic.SplitIfs

/-! # What a call does to the state of the page

A call is accepted and changes the state in one of eight ways, or it is rejected
and leaves files and superblock as they are. Everything proved about runs of the
simulator starts from this list.
-/

set_option autoImplicit false

namespace MiniFs.Simulator

variable {fs fs' : FS} {ts name : JsString} {f f' : File}

/-! ## The file list -/

/-- The file found under a name, with the files before and behind it. -/
structure Split (fs : FS) (name : JsString) (f : File) (before after : List File) : Prop where
  files : fs.files = before ++ f :: after
  index : fs.findIndex name = before.length
  name_eq : f.name = name

theorem exists_split (h : fs.find name = some f) : ∃ before after, Split fs name f before after := by
  obtain ⟨hname, before, after, hfiles, hbefore⟩ := List.find?_eq_some_iff_append.mp h
  refine ⟨before, after, hfiles, ?_, of_decide_eq_true hname⟩
  rw [FS.findIndex, hfiles, List.findIdx_append]
  have hout : before.findIdx (fun f => f.name = name) = before.length := by
    apply List.findIdx_eq_length_of_false
    intro x hx
    simpa using hbefore x hx
  rw [hout, if_neg (lt_irrefl _), List.findIdx_cons, hname, cond_true, Nat.zero_add]

/-- Only the file list matters. -/
theorem Split.congr {before after : List File} (h : Split fs name f before after)
    (hfiles : fs'.files = fs.files) : Split fs' name f before after :=
  ⟨hfiles.trans h.files, by rw [FS.findIndex, hfiles]; exact h.index, h.name_eq⟩

theorem Split.assign {before after : List File} (h : Split fs name f before after) (f' : File) :
    (fs.assign name f').files = before ++ f' :: after := by
  rw [FS.assign, h.index, h.files]
  simp

theorem Split.eraseIdx {before after : List File} (h : Split fs name f before after) :
    fs.files.eraseIdx (fs.findIndex name) = before ++ after := by
  rw [h.index, h.files, List.eraseIdx_append_of_length_le le_rfl, Nat.sub_self,
    List.eraseIdx_cons_zero]

theorem find_eq_none_iff : fs.find name = none ↔ ∀ f ∈ fs.files, f.name ≠ name := by
  simp [FS.find]

theorem mem_of_find (h : fs.find name = some f) : f ∈ fs.files := List.mem_of_find?_eq_some h

theorem name_of_find (h : fs.find name = some f) : f.name = name := by
  rw [FS.find] at h
  simpa using List.find?_some h

/-! ## Accepted calls -/

/-- `_doWrite` finds room for `n` characters in place of `held` blocks. -/
structure Room (fs : FS) (held n : ℕ) : Prop where
  le : needed fs n ≤ 16
  free : needed fs n ≤ fs.superblock.freeBlocks + held

instance (fs : FS) (held n : ℕ) : Decidable (Room fs held n) :=
  decidable_of_iff (needed fs n ≤ 16 ∧ needed fs n ≤ fs.superblock.freeBlocks + held)
    ⟨fun h => ⟨h.1, h.2⟩, fun h => ⟨h.le, h.free⟩⟩

/-- The block numbers `_doWrite` takes for `n` characters in place of `held` blocks: those that
follow the count of the blocks in use. -/
def newBlocks (fs : FS) (held n : ℕ) : List ℤ :=
  (List.range (needed fs n).toNat).map fun (i : ℕ) =>
    fs.superblock.dataStart + (fs.usedDataBlocks - held + i)

def stored (ts : JsString) (fs : FS) (f : File) (content : JsString) : File :=
  { f with
    content := content
    size := content.length
    blocks := newBlocks fs f.blocks.length content.length
    mtime := ts }

def FS.charge (fs : FS) (held n : ℕ) : FS :=
  { fs with
    usedDataBlocks := fs.usedDataBlocks - held + needed fs n
    superblock := { fs.superblock with
      freeBlocks := fs.superblock.freeBlocks + held - needed fs n
      totalWrites := fs.superblock.totalWrites + 1
      bytesWritten := fs.superblock.bytesWritten + n } }

theorem doWrite_room {content : JsString} (h : Room fs f.blocks.length content.length) :
    doWrite ts fs f content =
      .ok (stored ts fs f content, fs.charge f.blocks.length content.length) := by
  have hle := h.le
  have hfree := h.free
  rw [doWrite]
  simp only [gt_iff_lt]
  rw [if_neg (by omega), if_neg (by omega)]
  rfl

theorem doWrite_refused (ts : JsString) {content : JsString}
    (h : ¬ Room fs f.blocks.length content.length) :
    ∃ msg, doWrite ts fs f content = .error msg := by
  rw [doWrite]
  simp only [gt_iff_lt]
  split_ifs with hlarge hfull
  · exact ⟨_, rfl⟩
  · exact ⟨_, rfl⟩
  · exact absurd ⟨by omega, by omega⟩ h

def newFile (ts : JsString) (fs : FS) (name : JsString) (mode : ℕ) : File :=
  ⟨name, fs.nextInode, 0, [], mode, [], ts, ts, ts, 1⟩

/-- A file behind the others, in an inode of its own. -/
def FS.push (fs : FS) (f : File) : FS :=
  { fs with
    nextInode := fs.nextInode + 1
    files := fs.files ++ [f]
    superblock := { fs.superblock with freeInodes := fs.superblock.freeInodes - 1 } }

def FS.remove (fs : FS) (name : JsString) (f : File) : FS :=
  { fs with
    usedDataBlocks := fs.usedDataBlocks - f.blocks.length
    superblock := { fs.superblock with
      freeBlocks := fs.superblock.freeBlocks + f.blocks.length
      freeInodes := fs.superblock.freeInodes + 1 }
    files := fs.files.eraseIdx (fs.findIndex name) }

def FS.countRead (fs : FS) (n : ℕ) : FS :=
  { fs with superblock := { fs.superblock with
      totalReads := fs.superblock.totalReads + 1
      bytesRead := fs.superblock.bytesRead + n } }

/-- The calls that store a new content in the file of a name. -/
inductive Rewrites (f : File) : Op → JsString → JsString → Prop
  | write {name content : JsString} : Rewrites f (.write name content) name content
  | append {name data : JsString} : Rewrites f (.append name data) name (f.content ++ data)
  | truncate {name : JsString} {newSize : ℤ} (hle : newSize ≤ f.size) :
    Rewrites f (.truncate name newSize) name (sliceTo f.content newSize)

/-- The states in which a call is accepted. -/
def Accepts (fs : FS) : Op → Prop
  | .create name => name.length < 32 ∧ fs.find name = none ∧ 0 < fs.superblock.freeInodes
  | .write name content => ∃ f, fs.find name = some f ∧ Room fs f.blocks.length content.length
  | .append name data =>
    ∃ f, fs.find name = some f ∧ Room fs f.blocks.length (f.content ++ data).length
  | .rename oldName newName =>
    (∃ f, fs.find oldName = some f) ∧ fs.find newName = none ∧ newName.length < 32
  | .copy src dst =>
    ∃ f, fs.find src = some f ∧ fs.find dst = none ∧ 0 < fs.superblock.freeInodes ∧
      (f.size ≠ 0 → Room fs 0 f.content.length)
  | .truncate name newSize =>
    ∃ f, fs.find name = some f ∧ newSize ≤ f.size ∧
      Room fs f.blocks.length (sliceTo f.content newSize).length
  | .read name | .chmod name _ | .delete name => ∃ f, fs.find name = some f

/-- At most inode numbers are used up. -/
structure Unchanged (fs fs' : FS) : Prop where
  formatted : fs'.formatted = fs.formatted
  superblock : fs'.superblock = fs.superblock
  files : fs'.files = fs.files
  usedDataBlocks : fs'.usedDataBlocks = fs.usedDataBlocks
  nextInode : fs.nextInode ≤ fs'.nextInode

theorem Unchanged.refl (fs : FS) : Unchanged fs fs := ⟨rfl, rfl, rfl, rfl, le_rfl⟩

inductive Step (ts : JsString) (fs : FS) : Op → Bool → FS → Prop
  | create {name : JsString} (hlen : name.length < 32) (hnew : fs.find name = none)
      (hfree : 0 < fs.superblock.freeInodes) :
      Step ts fs (.create name) true (fs.push (newFile ts fs name 0o100644))
  | rewrite {op : Op} {name content : JsString} {f : File} (hf : fs.find name = some f)
      (hop : Rewrites f op name content) (hroom : Room fs f.blocks.length content.length) :
      Step ts fs op true
        ((fs.charge f.blocks.length content.length).assign name (stored ts fs f content))
  | read {name : JsString} {f : File} (hf : fs.find name = some f) :
      Step ts fs (.read name) true ((fs.countRead f.size).assign name { f with atime := ts })
  | rename {oldName newName : JsString} {f : File} (hf : fs.find oldName = some f)
      (hnew : fs.find newName = none) (hlen : newName.length < 32) :
      Step ts fs (.rename oldName newName) true
        (fs.assign oldName { f with name := newName, mtime := ts })
  | copyEmpty {src dst : JsString} {f : File} (hf : fs.find src = some f)
      (hnew : fs.find dst = none) (hfree : 0 < fs.superblock.freeInodes) (hsize : f.size = 0) :
      Step ts fs (.copy src dst) true (fs.push (newFile ts fs dst f.mode))
  | copy {src dst : JsString} {f : File} (hf : fs.find src = some f) (hnew : fs.find dst = none)
      (hfree : 0 < fs.superblock.freeInodes) (hsize : f.size ≠ 0)
      (hroom : Room fs 0 f.content.length) :
      Step ts fs (.copy src dst) true
        ((fs.charge 0 f.content.length).push (stored ts fs (newFile ts fs dst f.mode) f.content))
  | chmod {name : JsString} {modeOctal : ℤ} {f : File} (hf : fs.find name = some f) :
      Step ts fs (.chmod name modeOctal) true (fs.assign name { f with
        mode := (f.mode &&& 0xF000) ||| (modeOctal % 0x1000).toNat, mtime := ts })
  | delete {name : JsString} {f : File} (hf : fs.find name = some f) :
      Step ts fs (.delete name) true (fs.remove name f)
  | rejected {op : Op} {fs' : FS} (hno : ¬ Accepts fs op) (hsame : Unchanged fs fs') :
      Step ts fs op false fs'

/-- A refusal that leaves the state alone. -/
theorem step_refused {op : Op} (h : ¬ Accepts fs op) : Step ts fs op false fs :=
  .rejected h (Unchanged.refl fs)

def subject : Op → Option JsString
  | .create _ => none
  | .write name _ | .append name _ | .read name | .rename name _ | .copy name _
  | .truncate name _ | .chmod name _ | .delete name => some name

theorem Accepts.found {op : Op} (h : Accepts fs op) (hsub : subject op = some name) :
    ∃ f, fs.find name = some f := by
  cases op with
  | create _ => exact nomatch hsub
  | write _ _ => obtain rfl := Option.some.inj hsub; exact h.imp fun _ hf => hf.1
  | append _ _ => obtain rfl := Option.some.inj hsub; exact h.imp fun _ hf => hf.1
  | rename _ _ => obtain rfl := Option.some.inj hsub; exact h.1
  | copy _ _ => obtain rfl := Option.some.inj hsub; exact h.imp fun _ hf => hf.1
  | truncate _ _ => obtain rfl := Option.some.inj hsub; exact h.imp fun _ hf => hf.1
  | _ => obtain rfl := Option.some.inj hsub; exact h

theorem step_notFound {op : Op} (hsub : subject op = some name) (hnone : fs.find name = none) :
    Step ts fs op false fs := by
  apply step_refused
  intro h
  obtain ⟨f, hf⟩ := h.found hsub
  exact nomatch hnone.symm.trans hf

section Calls
variable (hfmt : fs.formatted = true)
include hfmt

theorem guard_formatted : ¬ (!fs.formatted) = true := by simp [hfmt]

theorem fsCreate_step :
    Step ts fs (.create name) (fsCreate ts name fs).1.ok (fsCreate ts name fs).2 := by
  rw [fsCreate, if_neg (guard_formatted hfmt)]
  split_ifs with hlen hex hfree
  · exact step_refused fun h => absurd h.1 (not_lt.mpr hlen)
  · exact step_refused fun h => by simp [h.2.1] at hex
  · exact step_refused fun h => absurd h.2.2 (Int.not_lt.mpr hfree)
  · exact .create (not_le.mp hlen) (by simpa using hex) (Int.not_le.mp hfree)

theorem fsDelete_step :
    Step ts fs (.delete name) (fsDelete name fs).1.ok (fsDelete name fs).2 := by
  rw [fsDelete, if_neg (guard_formatted hfmt)]
  cases hf : fs.find name with
  | none => exact step_notFound rfl hf
  | some f => exact .delete hf

def afterWrite (fs : FS) (name : JsString) (done : Msg) : Except Msg (File × FS) → Reply × FS
  | .error msg => (⟨false, msg⟩, fs)
  | .ok (file, fs) => (⟨true, done⟩, fs.assign name file)

omit hfmt in
theorem rewrite_step {op : Op} {content : JsString} (done : Msg) (hf : fs.find name = some f)
    (hop : Rewrites f op name content)
    (hacc : Accepts fs op → Room fs f.blocks.length content.length) :
    Step ts fs op (afterWrite fs name done (doWrite ts fs f content)).1.ok
      (afterWrite fs name done (doWrite ts fs f content)).2 := by
  by_cases hroom : Room fs f.blocks.length content.length
  · rw [doWrite_room hroom]
    exact .rewrite hf hop hroom
  · obtain ⟨msg, hmsg⟩ := doWrite_refused ts hroom
    rw [hmsg]
    exact step_refused fun h => hroom (hacc h)

theorem fsWrite_step (content : JsString) :
    Step ts fs (.write name content) (fsWrite ts name content fs).1.ok
      (fsWrite ts name content fs).2 := by
  rw [fsWrite, if_neg (guard_formatted hfmt)]
  cases hf : fs.find name with
  | none => exact step_notFound rfl hf
  | some f =>
    apply rewrite_step (.wrote content.length name) hf .write
    rintro ⟨f', hf', hroom⟩
    obtain rfl := Option.some.inj (hf.symm.trans hf')
    exact hroom

theorem fsAppend_step (data : JsString) :
    Step ts fs (.append name data) (fsAppend ts name data fs).1.ok
      (fsAppend ts name data fs).2 := by
  rw [fsAppend, if_neg (guard_formatted hfmt)]
  cases hf : fs.find name with
  | none => exact step_notFound rfl hf
  | some f =>
    apply rewrite_step (.appended data.length name (f.content ++ data).length) hf .append
    rintro ⟨f', hf', hroom⟩
    obtain rfl := Option.some.inj (hf.symm.trans hf')
    exact hroom

theorem fsTruncate_step (newSize : ℤ) :
    Step ts fs (.truncate name newSize) (fsTruncate ts name newSize fs).1.ok
      (fsTruncate ts name newSize fs).2 := by
  rw [fsTruncate, if_neg (guard_formatted hfmt)]
  cases hf : fs.find name with
  | none => exact step_notFound rfl hf
  | some f =>
    simp only [gt_iff_lt]
    split_ifs with hlt
    · apply step_refused
      rintro ⟨f', hf', hle, -⟩
      obtain rfl := Option.some.inj (hf.symm.trans hf')
      exact absurd hlt (Int.not_lt.mpr hle)
    · apply rewrite_step (.truncated name newSize) hf (.truncate (Int.not_lt.mp hlt))
      rintro ⟨f', hf', -, hroom⟩
      obtain rfl := Option.some.inj (hf.symm.trans hf')
      exact hroom

theorem fsRead_step :
    Step ts fs (.read name) (fsRead ts name fs).1.ok (fsRead ts name fs).2 := by
  rw [fsRead, if_neg (guard_formatted hfmt)]
  cases hf : fs.find name with
  | none => exact step_notFound rfl hf
  | some f =>
    have h : Step ts fs (.read name) true
      ((fs.countRead f.size).assign name { f with atime := ts }) := .read hf
    simp only
    split_ifs <;> exact h

theorem fsRename_step (newName : JsString) :
    Step ts fs (.rename name newName) (fsRename ts name newName fs).1.ok
      (fsRename ts name newName fs).2 := by
  rw [fsRename, if_neg (guard_formatted hfmt)]
  cases hf : fs.find name with
  | none => exact step_notFound rfl hf
  | some f =>
    simp only
    split_ifs with hex hlen
    · exact step_refused fun h => by simp [h.2.1] at hex
    · exact step_refused fun h => absurd h.2.2 (not_lt.mpr hlen)
    · exact .rename hf (by simpa using hex) (not_le.mp hlen)

theorem fsChmod_step (modeOctal : ℤ) :
    Step ts fs (.chmod name modeOctal) (fsChmod ts name modeOctal fs).1.ok
      (fsChmod ts name modeOctal fs).2 := by
  rw [fsChmod, if_neg (guard_formatted hfmt)]
  cases hf : fs.find name with
  | none => exact step_notFound rfl hf
  | some f => exact .chmod hf

def afterCopy (pushed : FS) (done : Msg) : Except Msg (File × FS) → Reply × FS
  | .error msg =>
    (⟨false, msg⟩, { pushed with
      files := pushed.files.dropLast
      superblock := { pushed.superblock with freeInodes := pushed.superblock.freeInodes + 1 } })
  | .ok (newFile, written) =>
    (⟨true, done⟩, { written with files := written.files.dropLast ++ [newFile] })

omit hfmt in
theorem room_push {held n : ℕ} (x : File) : Room (fs.push x) held n ↔ Room fs held n :=
  ⟨fun h => ⟨h.le, h.free⟩, fun h => ⟨h.le, h.free⟩⟩

omit hfmt in
/-- A copy that was refused took back the file. -/
theorem unchanged_afterCopy (x : File) (done msg : Msg) :
    Unchanged fs (afterCopy (fs.push x) done (.error msg)).2 where
  formatted := rfl
  superblock := by
    simp only [afterCopy, FS.push]
    rw [Int.sub_add_cancel]
  files := List.dropLast_concat
  usedDataBlocks := rfl
  nextInode := Nat.le_succ _

omit hfmt in
theorem afterCopy_stored (x : File) (content : JsString) (done : Msg) :
    (afterCopy (fs.push x) done (.ok (stored ts (fs.push x) x content,
      (fs.push x).charge x.blocks.length content.length))).2 =
        (fs.charge x.blocks.length content.length).push (stored ts fs x content) := by
  simp only [afterCopy, FS.push, FS.charge, List.dropLast_concat]
  rfl

theorem fsCopy_step (dst : JsString) :
    Step ts fs (.copy name dst) (fsCopy ts name dst fs).1.ok (fsCopy ts name dst fs).2 := by
  rw [fsCopy, if_neg (guard_formatted hfmt)]
  cases hf : fs.find name with
  | none => exact step_notFound rfl hf
  | some f =>
    have hacc : Accepts fs (.copy name dst) → fs.find dst = none ∧ 0 < fs.superblock.freeInodes ∧
        (f.size ≠ 0 → Room fs 0 f.content.length) := by
      rintro ⟨f', hf', h⟩
      obtain rfl := Option.some.inj (hf.symm.trans hf')
      exact h
    simp only
    split_ifs with hex hfree hsize
    · exact step_refused fun h => by simp [(hacc h).1] at hex
    · exact step_refused fun h => absurd (hacc h).2.1 (Int.not_lt.mpr hfree)
    · have hne : f.size ≠ 0 := Nat.ne_of_gt hsize
      change Step ts fs _
        (afterCopy (fs.push (newFile ts fs dst f.mode)) (.copied name dst f.size fs.nextInode)
          (doWrite ts (fs.push (newFile ts fs dst f.mode)) (newFile ts fs dst f.mode) f.content)).1.ok
        (afterCopy (fs.push (newFile ts fs dst f.mode)) (.copied name dst f.size fs.nextInode)
          (doWrite ts (fs.push (newFile ts fs dst f.mode)) (newFile ts fs dst f.mode) f.content)).2
      by_cases hroom : Room fs 0 f.content.length
      · rw [doWrite_room ((room_push _).mpr hroom), afterCopy_stored]
        exact .copy hf (by simpa using hex) (Int.not_le.mp hfree) hne hroom
      · have hpushed : ¬ Room (fs.push (newFile ts fs dst f.mode))
            (newFile ts fs dst f.mode).blocks.length f.content.length :=
          fun h => hroom ((room_push _).mp h)
        obtain ⟨msg, hmsg⟩ := doWrite_refused ts hpushed
        rw [hmsg]
        exact .rejected (fun h => hroom ((hacc h).2.2 hne)) (unchanged_afterCopy _ _ _)
    · exact .copyEmpty hf (by simpa using hex) (Int.not_le.mp hfree) (Nat.eq_zero_of_not_pos hsize)

end Calls

theorem Step.accepts {op : Op} (h : Step ts fs op true fs') : Accepts fs op := by
  cases h with
  | create hlen hnew hfree => exact ⟨hlen, hnew, hfree⟩
  | rewrite hf hop hroom =>
    cases hop with
    | write => exact ⟨_, hf, hroom⟩
    | append => exact ⟨_, hf, hroom⟩
    | truncate hle => exact ⟨_, hf, hle, hroom⟩
  | read hf => exact ⟨_, hf⟩
  | rename hf hnew hlen => exact ⟨⟨_, hf⟩, hnew, hlen⟩
  | copyEmpty hf hnew hfree hsize => exact ⟨_, hf, hnew, hfree, fun h => absurd hsize h⟩
  | copy hf hnew hfree hsize hroom => exact ⟨_, hf, hnew, hfree, fun _ => hroom⟩
  | chmod hf => exact ⟨_, hf⟩
  | delete hf => exact ⟨_, hf⟩

theorem Step.copied {src dst : JsString} (h : Step ts fs (.copy src dst) true fs') :
    ∃ f ∈ fs'.files, f.name = dst := by
  cases h with
  | rewrite hf hop hroom => cases hop
  | copyEmpty hf hnew hfree hsize => exact ⟨_, List.mem_append_right _ (List.mem_singleton_self _), rfl⟩
  | copy hf hnew hfree hsize hroom =>
    exact ⟨_, List.mem_append_right _ (List.mem_singleton_self _), rfl⟩

theorem Step.unchanged {op : Op} (h : Step ts fs op false fs') : Unchanged fs fs' := by
  cases h with
  | rejected hno hsame => exact hsame

theorem Step.accepts_iff {op : Op} {ok : Bool} (h : Step ts fs op ok fs') :
    ok = true ↔ Accepts fs op := by
  cases ok with
  | true => exact iff_of_true rfl h.accepts
  | false =>
    cases h with
    | rejected hno => exact iff_of_false Bool.false_ne_true hno

/-- Every call on a formatted disk is a step. -/
theorem perform_step (hfmt : fs.formatted = true) (ts : JsString) (op : Op) :
    Step ts fs op (perform ts op fs).1.ok (perform ts op fs).2 := by
  cases op with
  | create name => exact fsCreate_step hfmt
  | write name content => exact fsWrite_step hfmt content
  | append name data => exact fsAppend_step hfmt data
  | read name => exact fsRead_step hfmt
  | rename oldName newName => exact fsRename_step hfmt newName
  | copy src dst => exact fsCopy_step hfmt dst
  | truncate name newSize => exact fsTruncate_step hfmt newSize
  | chmod name modeOctal => exact fsChmod_step hfmt modeOctal
  | delete name => exact fsDelete_step hfmt

end MiniFs.Simulator
