import MiniFs.Simulator.Exact

/-! # The disks whose counts are exact

From its format on, a disk of at most 2^53 data blocks is followed by a page of
integers, call by call. If there are more inodes than that, their count is rounded, and the
page of integers is told after each call whether one is free.
-/

set_option autoImplicit false

namespace MiniFs.Simulator.Numbers
open Library List Library.Exec

variable {page page' : Simulator.FS} {fs fs' : FS} {sb sb' : Superblock} {ts : JsString} {op : Op}
  {t b x y : Double} {d k bs : ℤ} {msg : Msg}

/-! ## What no call changes -/

structure Kept (sb sb' : Superblock) : Prop where
  totalBlocks : sb'.totalBlocks = sb.totalBlocks
  blockSize : sb'.blockSize = sb.blockSize
  maxInodes : sb'.maxInodes = sb.maxInodes
  dataBlocks : sb'.dataBlocks = sb.dataBlocks

theorem Kept.refl (sb : Superblock) : Kept sb sb := ⟨rfl, rfl, rfl, rfl⟩

theorem Kept.trans {sb₁ sb₂ sb₃ : Superblock} (h : Kept sb₁ sb₂) (h' : Kept sb₂ sb₃) : Kept sb₁ sb₃ :=
  ⟨h'.totalBlocks.trans h.totalBlocks, h'.blockSize.trans h.blockSize,
    h'.maxInodes.trans h.maxInodes, h'.dataBlocks.trans h.dataBlocks⟩

theorem kept_charge (sb : Superblock) (held n : ℕ) : Kept sb (sb.charge held n) :=
  ⟨rfl, rfl, rfl, rfl⟩

/-- The size of the file is the length of its content, a string of JavaScript. -/
structure Text (f : File) : Prop where
  size : f.size = f.content.length
  short : f.content.length < 2 ^ 53

def Texts (fs : FS) : Prop := ∀ f ∈ fs.files, Text f

/-- The new state has the fields of the superblock, and if a `short` string was stored, its files
have the size of their content. -/
structure Keeps (sb : Superblock) (short : Prop) (fs fs' : FS) : Prop where
  kept : ∃ sb', fs'.superblock = some sb' ∧ Kept sb sb'
  texts : short → Texts fs → Texts fs'

variable {short : Prop} {name : JsString} {f f' : File}

theorem Keeps.mono {short' : Prop} (h : Keeps sb short fs fs') (himp : short' → short) :
    Keeps sb short' fs fs' :=
  ⟨h.kept, fun hshort => h.texts (himp hshort)⟩

theorem keeps_self (h : fs.superblock = some sb) : Keeps sb short fs fs :=
  ⟨⟨sb, h, .refl sb⟩, fun _ => id⟩

theorem Texts.assign (h : Texts fs) (hf : Text f) (name : JsString) : Texts (fs.assign name f) := by
  intro g hg
  rcases List.mem_or_eq_of_mem_set hg with hold | rfl
  · exact h g hold
  · exact hf

theorem Texts.concat (h : Texts fs) (hf : Text f) : ∀ g ∈ fs.files ++ [f], Text g := by
  intro g hg
  rcases List.mem_append.mp hg with hold | hnew
  · exact h g hold
  · exact List.mem_singleton.mp hnew ▸ hf

theorem keeps_assign (h : fs.superblock = some sb) (hf : fs.find name = some f)
    (hsize : f'.size = f.size) (hcontent : f'.content = f.content) :
    Keeps sb short fs (fs.assign name f') := by
  refine ⟨⟨sb, h, .refl sb⟩, fun _ htexts => htexts.assign ?_ name⟩
  have htext := htexts f (FS.mem_of_find hf)
  exact ⟨by rw [hsize, hcontent, htext.size], hcontent ▸ htext.short⟩

theorem keeps_push (hsize : f.size = 0) (hcontent : f.content = []) :
    Keeps sb short fs (fs.push sb f) := by
  refine ⟨⟨_, rfl, ⟨rfl, rfl, rfl, rfl⟩⟩, fun _ htexts => htexts.concat ?_⟩
  exact ⟨by rw [hsize, hcontent, List.length_nil], by rw [hcontent]; norm_num⟩

theorem keeps_afterWrite (h : fs.superblock = some sb) (ts name : JsString) (done : Msg)
    (f : File) (content : JsString) : Keeps sb (content.length < 2 ^ 53) fs
      (afterWrite fs name done (doWrite ts fs sb f content)).2 := by
  by_cases hroom : Room sb f.blocks.length content.length
  · rw [doWrite_room hroom]
    refine ⟨⟨_, rfl, kept_charge sb _ _⟩, fun hshort htexts => ?_⟩
    have hcharged : Texts (fs.charge sb f.blocks.length content.length) := htexts
    exact hcharged.assign ⟨rfl, hshort⟩ name
  · obtain ⟨msg, hmsg⟩ := doWrite_refused hroom ts fs
    rw [hmsg]
    exact keeps_self h

theorem keeps_afterCopy (ts : JsString) (done : Msg) (f : File) (content : JsString) :
    Keeps sb (content.length < 2 ^ 53) fs (afterCopy (fs.push sb f) sb.takeInode done
      (doWrite ts (fs.push sb f) sb.takeInode f content)).2 := by
  have hdrop : (fs.push sb f).files.dropLast = fs.files := List.dropLast_concat
  have htaken : Kept sb sb.takeInode := ⟨rfl, rfl, rfl, rfl⟩
  by_cases hroom : Room sb.takeInode f.blocks.length content.length
  · rw [doWrite_room hroom]
    refine ⟨⟨_, rfl, htaken.trans (kept_charge _ _ _)⟩, fun hshort htexts => ?_⟩
    change ∀ g ∈ (fs.push sb f).files.dropLast ++ _, Text g
    rw [hdrop]
    exact htexts.concat ⟨rfl, hshort⟩
  · obtain ⟨msg, hmsg⟩ := doWrite_refused hroom ts (fs.push sb f)
    rw [hmsg]
    refine ⟨⟨_, rfl, ⟨rfl, rfl, rfl, rfl⟩⟩, fun _ htexts => ?_⟩
    change ∀ g ∈ (fs.push sb f).files.dropLast, Text g
    rw [hdrop]
    exact htexts

theorem length_slice_le (content : JsString) (z : Double) :
    (slice content z).length ≤ content.length := by
  cases z with
  | nan => exact Nat.zero_le _
  | inf s =>
    rw [slice]
    split_ifs
    · exact Nat.zero_le _
    · exact le_rfl
  | fin q _ => exact Simulator.length_sliceTo_le content (truncated q)

theorem fsCreate_keeps (h : fs.superblock = some sb) (ts name : JsString) :
    Keeps sb short fs (fsCreate ts name fs).2 := by
  rw [fsCreate, h]
  simp only
  split_ifs
  · exact keeps_self h
  · exact keeps_self h
  · exact keeps_self h
  · exact keeps_push rfl rfl

theorem fsWrite_keeps (h : fs.superblock = some sb) (ts name content : JsString) :
    Keeps sb (content.length < 2 ^ 53) fs (fsWrite ts name content fs).2 := by
  rw [fsWrite, h]
  cases hf : fs.find name with
  | none => exact keeps_self h
  | some f => exact keeps_afterWrite h ts name (.wrote content.length name) f content

theorem fsAppend_keeps (h : fs.superblock = some sb) (ts name data : JsString) :
    Keeps sb (Makes fs (.append name data)) fs (fsAppend ts name data fs).2 := by
  rw [fsAppend, h]
  cases hf : fs.find name with
  | none => exact keeps_self h
  | some f =>
    exact (keeps_afterWrite h ts name (.appended data.length name (f.content ++ data).length) f
      (f.content ++ data)).mono fun hmakes => hmakes f hf

theorem fsRead_keeps (h : fs.superblock = some sb) (ts name : JsString) :
    Keeps sb short fs (fsRead ts name fs).2 := by
  rw [fsRead, h]
  cases hf : fs.find name with
  | none => exact keeps_self h
  | some f =>
    have hassigned : Keeps sb short fs (fs.assign name { f with atime := ts }) :=
      keeps_assign h hf rfl rfl
    have hread : Keeps sb short fs
        { fs.assign name { f with atime := ts } with superblock := some (sb.countRead f.size) } :=
      ⟨⟨_, rfl, ⟨rfl, rfl, rfl, rfl⟩⟩, hassigned.texts⟩
    simp only
    split_ifs <;> exact hread

theorem fsRename_keeps (h : fs.superblock = some sb) (ts oldName newName : JsString) :
    Keeps sb short fs (fsRename ts oldName newName fs).2 := by
  rw [fsRename, h]
  cases hf : fs.find oldName with
  | none => exact keeps_self h
  | some f =>
    simp only
    split_ifs
    · exact keeps_self h
    · exact keeps_self h
    · exact keeps_self h
    · exact keeps_assign h hf rfl rfl

theorem fsCopy_keeps (h : fs.superblock = some sb) (ts src dst : JsString) :
    Keeps sb (Texts fs) fs (fsCopy ts src dst fs).2 := by
  rw [fsCopy, h]
  cases hf : fs.find src with
  | none => exact keeps_self h
  | some f =>
    simp only
    split_ifs with hex hfree hsize
    · exact keeps_self h
    · exact keeps_self h
    · exact (keeps_afterCopy ts (.copied src dst f.size fs.nextInode) _ f.content).mono
        fun htexts => (htexts f (FS.mem_of_find hf)).short
    · exact keeps_push rfl rfl

theorem fsTruncate_keeps (h : fs.superblock = some sb) (ts name : JsString) (newSize : Double) :
    Keeps sb (Texts fs) fs (fsTruncate ts name newSize fs).2 := by
  rw [fsTruncate, h]
  cases hf : fs.find name with
  | none => exact keeps_self h
  | some f =>
    simp only
    split_ifs
    · exact keeps_self h
    · exact (keeps_afterWrite h ts name (.truncated name newSize) f _).mono fun htexts =>
        (length_slice_le _ _).trans_lt (htexts f (FS.mem_of_find hf)).short

theorem fsChmod_keeps (h : fs.superblock = some sb) (ts name : JsString) (modeOctal : Double) :
    Keeps sb short fs (fsChmod ts name modeOctal fs).2 := by
  rw [fsChmod, h]
  cases hf : fs.find name with
  | none => exact keeps_self h
  | some f =>
    simp only [Option.isNone_some, Bool.false_eq_true, if_false]
    exact keeps_assign h hf rfl rfl

theorem fsDelete_keeps (h : fs.superblock = some sb) (name : JsString) :
    Keeps sb short fs (fsDelete name fs).2 := by
  rw [fsDelete, h]
  cases hf : fs.find name with
  | none => exact keeps_self h
  | some f =>
    exact ⟨⟨_, rfl, ⟨rfl, rfl, rfl, rfl⟩⟩, fun _ htexts g hg =>
      htexts g (List.mem_of_mem_eraseIdx hg)⟩

theorem perform_keeps (h : fs.superblock = some sb) (ts : JsString) (op : Op) :
    Keeps sb (Makes fs op ∧ Texts fs) fs (perform ts op fs).2 := by
  cases op with
  | create name => exact fsCreate_keeps h ts name
  | write name content => exact (fsWrite_keeps h ts name content).mono And.left
  | append name data => exact (fsAppend_keeps h ts name data).mono And.left
  | read name => exact fsRead_keeps h ts name
  | rename oldName newName => exact fsRename_keeps h ts oldName newName
  | copy src dst => exact (fsCopy_keeps h ts src dst).mono And.right
  | truncate name newSize => exact (fsTruncate_keeps h ts name newSize).mono And.right
  | chmod name modeOctal => exact fsChmod_keeps h ts name modeOctal
  | delete name => exact fsDelete_keeps h name

/-! ## Accepted calls -/

def Accepts (fs : FS) (sb : Superblock) : Op → Prop
  | .create name => name.length < 32 ∧ fs.find name = none ∧ sb.freeInodes.le 0 = false
  | .write name content => ∃ f, fs.find name = some f ∧ Room sb f.blocks.length content.length
  | .append name data =>
    ∃ f, fs.find name = some f ∧ Room sb f.blocks.length (f.content ++ data).length
  | .rename oldName newName =>
    (∃ f, fs.find oldName = some f) ∧ fs.find newName = none ∧ newName.length < 32
  | .copy src dst =>
    ∃ f, fs.find src = some f ∧ fs.find dst = none ∧ sb.freeInodes.le 0 = false ∧
      (f.size ≠ 0 → Room sb 0 f.content.length)
  | .truncate name newSize =>
    ∃ f, fs.find name = some f ∧ Double.lt f.size newSize = false ∧
      Room sb f.blocks.length (slice f.content newSize).length
  | .read name | .chmod name _ | .delete name => ∃ f, fs.find name = some f

theorem afterWrite_ok_iff (ts name : JsString) (done : Msg) (f : File) (content : JsString) :
    (afterWrite fs name done (doWrite ts fs sb f content)).1.ok = true ↔
      Room sb f.blocks.length content.length := by
  by_cases hroom : Room sb f.blocks.length content.length
  · rw [doWrite_room hroom]
    exact iff_of_true rfl hroom
  · obtain ⟨msg, hmsg⟩ := doWrite_refused hroom ts fs
    rw [hmsg]
    exact iff_of_false Bool.false_ne_true hroom

theorem afterCopy_ok_iff (ts : JsString) (done : Msg) (f : File) (content : JsString) :
    (afterCopy fs sb done (doWrite ts fs sb f content)).1.ok = true ↔
      Room sb f.blocks.length content.length := by
  by_cases hroom : Room sb f.blocks.length content.length
  · rw [doWrite_room hroom]
    exact iff_of_true rfl hroom
  · obtain ⟨msg, hmsg⟩ := doWrite_refused hroom ts fs
    rw [hmsg]
    exact iff_of_false Bool.false_ne_true hroom

theorem fsTruncate_ok_iff (h : fs.superblock = some sb) (ts name : JsString) (newSize : Double) :
    (fsTruncate ts name newSize fs).1.ok = true ↔ ∃ f, fs.find name = some f ∧
      Double.lt f.size newSize = false ∧ Room sb f.blocks.length (slice f.content newSize).length := by
  rw [fsTruncate, h]
  cases hf : fs.find name with
  | none => exact iff_of_false Bool.false_ne_true (by simp)
  | some f =>
    simp only [Option.some.injEq, exists_eq_left']
    split_ifs with hgrow
    · exact iff_of_false not_false fun hacc => Bool.false_ne_true (hacc.1.symm.trans hgrow)
    · refine (afterWrite_ok_iff ts name (.truncated name newSize) f _).trans ?_
      exact (and_iff_right (Bool.eq_false_of_not_eq_true hgrow)).symm

theorem fsTruncate_refused {newSize : Double} (h : (fsTruncate ts name newSize fs).1.ok = false) :
    (fsTruncate ts name newSize fs).2 = fs := by
  rw [fsTruncate] at h ⊢
  cases hsb : fs.superblock with
  | none => rfl
  | some sb =>
    cases hf : fs.find name with
    | none => rfl
    | some f =>
      simp only [hsb, hf] at h ⊢
      split_ifs at h ⊢ with hgrow
      · rfl
      · cases hw : doWrite ts fs sb f (slice f.content newSize) with
        | error msg => rfl
        | ok p =>
          rw [hw] at h
          cases h

theorem fsCreate_ok_iff (h : fs.superblock = some sb) (ts name : JsString) :
    (fsCreate ts name fs).1.ok = true ↔
      name.length < 32 ∧ fs.find name = none ∧ sb.freeInodes.le 0 = false := by
  rw [fsCreate, h]
  cases hf : fs.find name with
  | none =>
    simp only [Option.isSome_none, Bool.false_eq_true, if_false, true_and]
    split_ifs with hlen hfree
    · exact iff_of_false not_false fun hacc => absurd hacc.1 (not_lt.mpr hlen)
    · exact iff_of_false not_false fun hacc => Bool.false_ne_true (hacc.2.symm.trans hfree)
    · exact iff_of_true rfl ⟨not_le.mp hlen, Bool.eq_false_of_not_eq_true hfree⟩
  | some f =>
    refine iff_of_false ?_ (by simp)
    simp only [Option.isSome_some, if_true]
    split_ifs <;> exact not_false

theorem fsWrite_ok_iff (h : fs.superblock = some sb) (ts name content : JsString) :
    (fsWrite ts name content fs).1.ok = true ↔ ∃ f, fs.find name = some f ∧
      Room sb f.blocks.length content.length := by
  rw [fsWrite, h]
  cases hf : fs.find name with
  | none => exact iff_of_false Bool.false_ne_true (by simp)
  | some f =>
    simp only [Option.some.injEq, exists_eq_left']
    exact afterWrite_ok_iff ts name (.wrote content.length name) f content

theorem fsAppend_ok_iff (h : fs.superblock = some sb) (ts name data : JsString) :
    (fsAppend ts name data fs).1.ok = true ↔ ∃ f, fs.find name = some f ∧
      Room sb f.blocks.length (f.content ++ data).length := by
  rw [fsAppend, h]
  cases hf : fs.find name with
  | none => exact iff_of_false Bool.false_ne_true (by simp)
  | some f =>
    simp only [Option.some.injEq, exists_eq_left']
    exact afterWrite_ok_iff ts name (.appended data.length name (f.content ++ data).length) f _

theorem fsRead_ok_iff (h : fs.superblock = some sb) (ts name : JsString) :
    (fsRead ts name fs).1.ok = true ↔ ∃ f, fs.find name = some f := by
  rw [fsRead, h]
  cases hf : fs.find name with
  | none => exact iff_of_false Bool.false_ne_true (by simp)
  | some f =>
    simp only
    split_ifs <;> exact iff_of_true rfl ⟨f, rfl⟩

theorem fsRename_ok_iff (h : fs.superblock = some sb) (ts oldName newName : JsString) :
    (fsRename ts oldName newName fs).1.ok = true ↔ (∃ f, fs.find oldName = some f) ∧
      fs.find newName = none ∧ newName.length < 32 := by
  rw [fsRename, h]
  cases hf : fs.find oldName with
  | none => exact iff_of_false Bool.false_ne_true (by simp)
  | some f =>
    cases hnew : fs.find newName with
    | none =>
      simp only [Option.isNone_some, Option.isSome_none, Bool.false_eq_true, if_false, true_and]
      split_ifs with hlen
      · exact iff_of_false not_false fun hacc => absurd hacc.2 (not_lt.mpr hlen)
      · exact iff_of_true rfl ⟨⟨f, rfl⟩, not_le.mp hlen⟩
    | some g => exact iff_of_false Bool.false_ne_true (by simp)

theorem fsCopy_ok_iff (h : fs.superblock = some sb) (ts src dst : JsString) :
    (fsCopy ts src dst fs).1.ok = true ↔ ∃ f, fs.find src = some f ∧ fs.find dst = none ∧
      sb.freeInodes.le 0 = false ∧ (f.size ≠ 0 → Room sb 0 f.content.length) := by
  rw [fsCopy, h]
  cases hf : fs.find src with
  | none => exact iff_of_false Bool.false_ne_true (by simp)
  | some f =>
    cases hnew : fs.find dst with
    | none =>
      simp only [Option.isSome_none, Bool.false_eq_true, if_false, true_and, Option.some.injEq,
        exists_eq_left']
      split_ifs with hfree hsize
      · exact iff_of_false not_false fun hacc =>
          Bool.false_ne_true (hacc.1.symm.trans hfree)
      · have hcopy : (afterCopy (fs.push sb ⟨dst, fs.nextInode, 0, [], f.mode, [], ts, ts, ts, 1⟩)
            sb.takeInode (.copied src dst f.size fs.nextInode) (doWrite ts (fs.push sb
              ⟨dst, fs.nextInode, 0, [], f.mode, [], ts, ts, ts, 1⟩) sb.takeInode
                ⟨dst, fs.nextInode, 0, [], f.mode, [], ts, ts, ts, 1⟩ f.content)).1.ok = true ↔
              Room sb 0 f.content.length := afterCopy_ok_iff ts _ _ f.content
        refine hcopy.trans ⟨fun hroom => ⟨Bool.eq_false_of_not_eq_true hfree, fun _ => hroom⟩, ?_⟩
        exact fun hacc => hacc.2 hsize.ne'
      · exact iff_of_true rfl
          ⟨Bool.eq_false_of_not_eq_true hfree, fun hne => absurd (Nat.pos_of_ne_zero hne) hsize⟩
    | some g => exact iff_of_false Bool.false_ne_true (by simp)

theorem fsChmod_ok_iff (h : fs.superblock = some sb) (ts name : JsString) (modeOctal : Double) :
    (fsChmod ts name modeOctal fs).1.ok = true ↔ ∃ f, fs.find name = some f := by
  rw [fsChmod, h]
  cases hf : fs.find name with
  | none => exact iff_of_false Bool.false_ne_true (by simp)
  | some f => exact iff_of_true rfl ⟨f, rfl⟩

theorem fsDelete_ok_iff (h : fs.superblock = some sb) (name : JsString) :
    (fsDelete name fs).1.ok = true ↔ ∃ f, fs.find name = some f := by
  rw [fsDelete, h]
  cases hf : fs.find name with
  | none => exact iff_of_false Bool.false_ne_true (by simp)
  | some f => exact iff_of_true rfl ⟨f, rfl⟩

theorem perform_ok_iff (h : fs.superblock = some sb) (ts : JsString) (op : Op) :
    (perform ts op fs).1.ok = true ↔ Accepts fs sb op := by
  cases op with
  | create name => exact fsCreate_ok_iff h ts name
  | write name content => exact fsWrite_ok_iff h ts name content
  | append name data => exact fsAppend_ok_iff h ts name data
  | read name => exact fsRead_ok_iff h ts name
  | rename oldName newName => exact fsRename_ok_iff h ts oldName newName
  | copy src dst => exact fsCopy_ok_iff h ts src dst
  | truncate name newSize => exact fsTruncate_ok_iff h ts name newSize
  | chmod name modeOctal => exact fsChmod_ok_iff h ts name modeOctal
  | delete name => exact fsDelete_ok_iff h name

/-! ## Counts of inodes -/

instance (sb : Superblock) : Decidable (Counted sb) :=
  inferInstanceAs (Decidable (sb.maxInodes.le maxExact = true))

instance (sb : Superblock) : Decidable (Addressed sb) :=
  inferInstanceAs (Decidable (sb.totalBlocks.lt maxExact = true))

/-- The page with `free` free inodes besides those of the files. -/
def withInodes (page : Simulator.FS) (free : ℤ) : Simulator.FS :=
  { page with superblock := { page.superblock with
      freeInodes := free
      maxInodes := free + page.files.length } }

/-- The page, with a free inode or none as the disk says if it has too many to count. -/
def resigned (page : Simulator.FS) (sb : Superblock) : Simulator.FS :=
  if Counted sb then page
  else withInodes page (if sb.freeInodes.le 0 = true then 0 else 1)

theorem withInodes_running (h : Running page) {free : ℤ} (h0 : 0 ≤ free) :
    Running (withInodes page free) := by
  have hacc := h.accounted
  refine ⟨h.formatted, h.magic, h.blockSize, h.layout, ?_⟩
  refine { hacc with inodes := rfl, freeInodes_nonneg := h0, freeInodes_le := ?_ }
  change free ≤ free + page.files.length
  omega

structure Tracks (page : Simulator.FS) (fs : FS) (sb : Superblock) : Prop where
  agrees : Agrees page fs sb
  running : Running page
  laid : Laid page
  data_le : page.superblock.dataBlocks ≤ 2 ^ 53
  sign : SameSign page sb

theorem Tracks.bounded (h : Tracks page fs sb) : Bounded page where
  blockSize := h.running.blockSize
  sum := by
    have := h.running.accounted.blocks
    omega
  used_nonneg := by
    rw [h.running.accounted.used]
    exact Int.natCast_nonneg _
  free_nonneg := h.running.accounted.freeBlocks_nonneg
  data_le := h.data_le
  layout := h.running.layout
  start_nonneg := h.laid.data_pos.le

theorem sameSign_of_counted (h : Agrees page fs sb) (hc : Counted sb) : SameSign page sb :=
  (h.same.inodes hc).freeInodes.le_iff (Double.is_ofNat 0 (by norm_num))

/-- A page that agrees with a disk follows it, if it is told whether an inode is free. -/
theorem tracks_resigned (h : Agrees page fs sb) (hrun : Running page) (hl : Laid page)
    (hdata : page.superblock.dataBlocks ≤ 2 ^ 53) : Tracks (resigned page sb) fs sb := by
  by_cases hc : Counted sb
  · rw [resigned, if_pos hc]
    exact ⟨h, hrun, hl, hdata, sameSign_of_counted h hc⟩
  · rw [resigned, if_neg hc]
    have hsame : SameSuperblock page.superblock sb := h.same
    refine ⟨⟨h.formatted, h.superblock, ⟨hsame.magic, hsame.blockSize, hsame.dataBlocks,
      hsame.freeBlocks, fun hc' => absurd hc' hc, fun hx => { hsame.places hx with }⟩, h.used,
      h.files⟩, withInodes_running hrun ?_, ⟨hl.bitmap_le, hl.inode_le, hl.bitmap_nonneg,
      hl.inode_nonneg, hl.data_pos⟩, hdata, ?_⟩
    · split_ifs <;> omega
    · rw [SameSign, withInodes]
      simp only
      split_ifs with hnone
      · exact iff_of_true hnone le_rfl
      · exact iff_of_false hnone (by omega)

theorem Tracks.perform (h : Tracks page fs sb) (ts : JsString) (hmakes : Makes fs op) :
    ∃ page' sb', Simulator.Step ts page op (perform ts op fs).1.ok page' ∧ Kept sb sb' ∧
      Tracks (resigned page' sb') (perform ts op fs).2 sb' := by
  obtain ⟨hok, _, hagrees⟩ := perform_matches h.agrees h.bounded h.running h.sign ts hmakes
  have hstep := perform_step h.running.formatted ts op
  obtain ⟨sb', hsb, hkept⟩ := (perform_keeps h.agrees.superblock ts op).kept
  obtain rfl := Option.some.inj (hsb.symm.trans hagrees.superblock)
  refine ⟨_, sb', hok ▸ hstep, hkept, tracks_resigned hagrees (h.running.step hstep)
    (h.laid.step hstep) ?_⟩
  rw [hstep.sameLayout.dataBlocks]
  exact h.data_le

theorem Tracks.accepts_iff (h : Tracks page fs sb) (hmakes : Makes fs op) :
    Accepts fs sb op ↔ Simulator.Accepts page op := by
  obtain ⟨_, _, hstep, -⟩ := h.perform [] hmakes
  rw [← perform_ok_iff h.agrees.superblock [] op]
  exact hstep.accepts_iff

/-- What holds of the file found here holds of the one found there. -/
theorem Tracks.forall_found (h : Tracks page fs sb) {name : JsString} {p : Simulator.File → Prop}
    {q : File → Prop} (hpq : ∀ f x, page.find name = some f → fs.find name = some x →
      SameFile (Addressed sb) f x → (p f ↔ q x)) :
    (∀ x, fs.find name = some x → q x) ↔ ∀ f, page.find name = some f → p f := by
  obtain ⟨hf, hx⟩ | ⟨f, x, hf, hx, hsame⟩ := h.agrees.find_cases name
  · rw [hf, hx]
    exact iff_of_true (fun _ hno => nomatch hno) fun _ hno => nomatch hno
  · rw [hx, hf]
    simp only [Option.some.injEq, forall_eq']
    exact (hpq f x hf hx hsame).symm

@[simp] theorem resigned_files (page : Simulator.FS) (sb : Superblock) :
    (resigned page sb).files = page.files := by
  rw [resigned]
  split_ifs <;> rfl

@[simp] theorem resigned_dataStart (page : Simulator.FS) (sb : Superblock) :
    (resigned page sb).superblock.dataStart = page.superblock.dataStart := by
  rw [resigned]
  split_ifs <;> rfl

@[simp] theorem resigned_dataBlocks (page : Simulator.FS) (sb : Superblock) :
    (resigned page sb).superblock.dataBlocks = page.superblock.dataBlocks := by
  rw [resigned]
  split_ifs <;> rfl

/-! ## Formatting -/

def totalBlocks (t b : Double) : Double := (t / b).floor

def bitmapBlocks (t b : Double) : Double := Double.max 1 (totalBlocks t b / (b * 8)).ceil

def inodeBlocks (t b : Double) : Double := Double.max 1 (totalBlocks t b / 10).floor

def dataStart (t b : Double) : Double := 1 + bitmapBlocks t b + inodeBlocks t b

def maxInodes (t b : Double) : Double := (b / 144).floor * inodeBlocks t b

def newSuperblock (ts : JsString) (t : Double) (b : BlockSize) : Superblock where
  magic := 0x4D494E49
  totalBlocks := totalBlocks t b.value
  blockSize := b
  maxInodes := maxInodes t b.value
  bitmapStart := 1
  bitmapBlocks := bitmapBlocks t b.value
  inodeStart := 1 + bitmapBlocks t b.value
  inodeBlocks := inodeBlocks t b.value
  dataStart := dataStart t b.value
  dataBlocks := totalBlocks t b.value - dataStart t b.value
  freeBlocks := totalBlocks t b.value - dataStart t b.value
  freeInodes := maxInodes t b.value
  totalWrites := 0
  totalReads := 0
  bytesWritten := 0
  bytesRead := 0
  formattedAt := ts

theorem fsFormat_eq (h : fsFormat ts t b fs = (⟨true, msg⟩, fs')) :
    ∃ hb : b.lt 144 = false, (totalBlocks t b).le (dataStart t b) = false ∧
      (maxInodes t b).equal 0 = false ∧ fs' = ⟨some (newSuperblock ts t ⟨b, hb⟩), [], 0, 0⟩ := by
  have hno {m : Msg} {z : FS} (h : ((⟨false, m⟩ : Reply), z) = (⟨true, msg⟩, fs')) : False := by
    have hok := congrArg (fun p => p.1.ok) h
    exact Bool.false_ne_true hok
  rw [fsFormat] at h
  split_ifs at h with hsize
  · exact (hno h).elim
  · simp only at h
    split_ifs at h with hroom hmax
    · exact (hno h).elim
    · exact (hno h).elim
    · exact ⟨Bool.eq_false_of_not_eq_true hsize, Bool.eq_false_of_not_eq_true hroom,
        Bool.eq_false_of_not_eq_true hmax, (Prod.mk.inj h).2.symm⟩

theorem accepted_eq {p : Reply × FS} (h : p.1.ok = true) : p = (⟨true, p.1.msg⟩, p.2) := by
  obtain ⟨⟨ok, msg⟩, fs⟩ := p
  obtain rfl : ok = true := h
  rfl

/-- The integers of a format with not too many data blocks. -/
structure Layout (t b : Double) (k m i s d : ℤ) : Prop where
  total : (totalBlocks t b).Is k
  bitmap : (bitmapBlocks t b).Is m
  one_le_bitmap : 1 ≤ m
  inode : (inodeBlocks t b).Is i
  one_le_inode : 1 ≤ i
  start : (dataStart t b).Is s
  start_nonneg : 0 ≤ s
  start_lt : s < k
  data : (totalBlocks t b - dataStart t b).Is d
  data_nonneg : 0 ≤ d
  data_le : d ≤ 2 ^ 53
  exact_start : k ≤ 2 ^ 53 → s = 1 + m + i
  exact_data : k ≤ 2 ^ 53 → d = k - s

theorem maxExact_is : maxExact.Is (2 ^ 53) := Double.is_round (by norm_num)

theorem exists_layout (hroom : (totalBlocks t b).le (dataStart t b) = false)
    (hsmall : (totalBlocks t b - dataStart t b).le maxExact = true) :
    ∃ k m i s d, Layout t b k m i s d := by
  obtain ⟨⟨_, htotal⟩, _, hstart⟩ := Double.values_of_sub hsmall maxExact_is hroom
  obtain ⟨⟨_, hsum⟩, _, hinode⟩ := Double.values_of_add hstart
  obtain ⟨-, _, hbitmap⟩ := Double.values_of_add hsum
  obtain ⟨k, hk⟩ := Double.whole_floor _ _ htotal
  obtain ⟨m, hm, hm1⟩ := (Double.whole_ceil _).max_one hbitmap
  obtain ⟨i, hi, hi1⟩ := (Double.whole_floor _).max_one hinode
  have hone : (1 : Double).Is 1 := Double.is_ofNat 1 (by norm_num)
  -- the two sums, perhaps rounded
  obtain ⟨a, ha, ha0⟩ := hone.exists_add hm (by omega) hsum
  obtain ⟨s, hs, hs0⟩ := ha.exists_add hi (by omega) hstart
  have hlt : s < k := by
    rw [← not_le, ← hk.le_iff hs, Bool.not_eq_true]
    exact hroom
  obtain ⟨d, hd, hd0⟩ := hk.exists_sub hs hlt.le hsmall maxExact_is
  -- a sum above 2^53 would leave no room
  have hexact (hle : k ≤ 2 ^ 53) : s = 1 + m + i := by
    have hfirst : 1 + m ≤ 2 ^ 53 := by
      by_contra hlarge
      have hge := hone.pow_le_of_add hm (not_le.mp hlarge) ha
      have := ha.pow_le_of_add hi (by omega) hs
      omega
    have ha' : a = 1 + m := ha.inj (hone.add hm (by rw [abs_of_nonneg] <;> omega))
    have hsecond : a + i ≤ 2 ^ 53 := by
      by_contra hlarge
      have := ha.pow_le_of_add hi (not_le.mp hlarge) hs
      omega
    have hs' : s = a + i := hs.inj (ha.add hi (by rw [abs_of_nonneg] <;> omega))
    omega
  refine ⟨k, m, i, s, d, hk, hm, hm1, hi, hi1, hs, hs0, hlt, hd, hd0,
    le_of_le_maxExact hd hsmall, hexact, fun hle => ?_⟩
  exact hd.inj (hk.sub hs (by rw [abs_of_nonneg] <;> omega))

/-- The block size of an accepted format is an integer, if it is finite. -/
theorem integral_blockSize {n : Option ℤ} (hb : (number n).lt 144 = false) {q : ℚ}
    (hq : (number n).value = some q) : ∃ bs : ℤ, q = bs ∧ 144 ≤ bs := by
  cases n with
  | none => exact nomatch hq
  | some j =>
    obtain ⟨bs, -, hbs⟩ | hinf := Double.round_intCast_cases j
    · refine ⟨bs, Option.some.inj (hq.symm.trans hbs), ?_⟩
      rw [← not_lt, ← Double.Is.lt_iff hbs (Double.is_ofNat 144 (by norm_num)), Bool.not_eq_true]
      exact hb
    · rw [show number (some j) = .inf (decide ((j : ℚ) < 0)) from hinf] at hq
      cases hq

/-- So it is if the count of blocks is a number. -/
theorem exists_blockSize {n : Option ℤ} (hb : (number n).lt 144 = false)
    (hroom : (totalBlocks t (number n)).le (dataStart t (number n)) = false)
    (htotal : (totalBlocks t (number n)).Is k) : ∃ bs : ℤ, (number n).Is bs ∧ 144 ≤ bs := by
  cases hvalue : (number n).value with
  | some q =>
    obtain ⟨bs, rfl, h144⟩ := integral_blockSize hb hvalue
    exact ⟨bs, hvalue, h144⟩
  | none =>
    -- of blocks that are too large there are none
    have hnone (q : ℚ) (hq : IsDouble q) (s : Bool) : (totalBlocks (.fin q hq) (.inf s)).le
        (dataStart (.fin q hq) (.inf s)) = true := by
      have hzero : totalBlocks (.fin q hq) (.inf s) = Double.floor 0 := rfl
      rw [dataStart, bitmapBlocks, inodeBlocks, hzero]
      cases s <;> decide +kernel
    generalize number n = y at hvalue hroom htotal
    cases y with
    | fin q hq => exact nomatch hvalue
    | nan =>
      rw [totalBlocks] at htotal
      cases t <;> exact nomatch htotal
    | inf s =>
      cases t with
      | fin q hq => exact absurd ((hnone q hq s).symm.trans hroom) (by decide)
      | _ => exact nomatch htotal

/-- The count of the inodes, if it is exact. -/
theorem exists_maxInodes {i : ℤ} (hb : b.Is bs) (hbs : 144 ≤ bs) (hi : (inodeBlocks t b).Is i)
    (hone : 1 ≤ i) (hmax : (maxInodes t b).equal 0 = false)
    (hc : (maxInodes t b).le maxExact = true) : ∃ n : ℤ, (maxInodes t b).Is n ∧ 0 < n := by
  have h144 : (144 : Double).Is 144 := Double.is_ofNat 144 (by norm_num)
  have hq : (0 : ℚ) ≤ bs / 144 := by
    have : (0 : ℚ) ≤ bs := by exact_mod_cast (show 0 ≤ bs by omega)
    positivity
  have hdiv : b / 144 = .round (bs / 144) := Double.div_of_value hb h144 (by norm_num)
  rw [maxInodes, hdiv] at hc hmax ⊢
  obtain hround | hinf := Double.round_cases (bs / 144 : ℚ)
  · have hper := Double.is_floor hround
    have hnonneg : 0 ≤ ⌊Double.toBits (bs / 144)⌋ := Int.floor_nonneg.mpr (Double.toBits_nonneg hq)
    obtain ⟨n, hn, hn0⟩ := hper.exists_mul hi (mul_nonneg hnonneg (by omega)) hc maxExact_is
    refine ⟨n, hn, hn0.lt_of_ne fun hzero => ?_⟩
    exact Bool.false_ne_true (hmax.symm.trans
      ((hn.equal_iff (Double.is_ofNat 0 (by norm_num))).mpr hzero.symm))
  · rw [hinf, decide_eq_false (not_lt.mpr hq)] at hc
    obtain ⟨_, hfin⟩ := Double.value_eq_some_iff.mp hi
    have hiq : (0 : ℚ) < i := by exact_mod_cast hone
    have hmul : (Double.inf false).floor * inodeBlocks t b = .inf false := by
      rw [hfin]
      change (if (i : ℚ) = 0 then Double.nan else .inf (false != decide ((i : ℚ) < 0))) = _
      rw [if_neg hiq.ne', decide_eq_false (not_lt.mpr hiq.le)]
      rfl
    obtain ⟨_, hbound⟩ := Double.value_eq_some_iff.mp maxExact_is
    rw [hmul, hbound] at hc
    exact absurd hc Bool.false_ne_true

/-- Places for the page of integers: those of the disk, if they are exact. -/
theorem exists_places {m i s : ℤ} (h : Layout t b k m i s d) (hb : b.lt 144 = false)
    (ts : JsString) : ∃ p : Simulator.Superblock,
      (Addressed (newSuperblock ts t ⟨b, hb⟩) → SamePlaces p (newSuperblock ts t ⟨b, hb⟩)) ∧
      p.dataStart + d = p.totalBlocks ∧ 0 < p.dataStart ∧
      p.bitmapStart + p.bitmapBlocks ≤ p.dataStart ∧
      p.inodeStart + p.inodeBlocks ≤ p.dataStart ∧ 0 ≤ p.bitmapStart + p.bitmapBlocks ∧
      0 ≤ p.inodeStart + p.inodeBlocks := by
  have hm1 := h.one_le_bitmap
  have hi1 := h.one_le_inode
  have hlt := h.start_lt
  by_cases hx : Addressed (newSuperblock ts t ⟨b, hb⟩)
  · have hle := (lt_of_lt_maxExact h.total hx).le
    have hstart := h.exact_start hle
    have hdata := h.exact_data hle
    have hone : (1 : Double).Is 1 := Double.is_ofNat 1 (by norm_num)
    refine ⟨{ Simulator.FS.start.superblock with
      totalBlocks := k
      bitmapStart := 1
      bitmapBlocks := m
      inodeStart := 1 + m
      inodeBlocks := i
      dataStart := s }, fun _ => ⟨h.total, hone, h.bitmap, ?_, h.inode, h.start⟩, ?_, ?_, ?_, ?_, ?_, ?_⟩
    · exact hone.add h.bitmap (by rw [abs_of_nonneg] <;> omega)
    all_goals simp only
    all_goals omega
  · refine ⟨{ Simulator.FS.start.superblock with totalBlocks := 1 + d, dataStart := 1 },
      fun hx' => absurd hx' hx, rfl, one_pos, ?_, ?_, le_rfl, le_rfl⟩
    · exact zero_le_one
    · exact zero_le_one

/-- The page of integers for a disk that was just formatted, `p` having its places. -/
def formattedPage (p : Simulator.Superblock) (bs d n : ℤ) : Simulator.FS where
  formatted := true
  superblock := { p with
    magic := 0x4D494E49
    blockSize := bs
    maxInodes := n
    dataBlocks := d
    freeBlocks := d
    freeInodes := n }
  files := []
  nextInode := 0
  usedDataBlocks := 0

theorem formattedPage_running {p : Simulator.Superblock} {n : ℤ} (hbs : 144 ≤ bs)
    (hlay : p.dataStart + d = p.totalBlocks) (hd : 0 ≤ d) (hn : 0 ≤ n) :
    Running (formattedPage p bs d n) := by
  refine ⟨rfl, rfl, hbs, hlay, ?_⟩
  constructor
  · rfl
  · exact (Int.sub_self d).symm
  · exact Int.add_zero n
  · exact hd
  · exact le_rfl
  · exact hn
  · exact le_rfl
  · exact List.nodup_nil
  · exact fun f hf => absurd hf List.not_mem_nil

def FewBlocks (sb : Superblock) : Prop := sb.dataBlocks.le maxExact = true

/-- An accepted format of not too many data blocks is followed. -/
theorem fsFormat_tracks {n : Option ℤ} (h : fsFormat ts t (number n) fs = (⟨true, msg⟩, fs')) :
    ∃ sb, fs'.superblock = some sb ∧ fs'.files = [] ∧ sb.freeBlocks = sb.dataBlocks ∧
      sb.freeInodes = sb.maxInodes ∧ sb.maxInodes.equal 0 = false ∧
      (FewBlocks sb → ∃ page, Tracks page fs' sb ∧ page.files = []) := by
  obtain ⟨hb, hroom, hmax, rfl⟩ := fsFormat_eq h
  refine ⟨_, rfl, rfl, rfl, rfl, hmax, fun hsmall => ?_⟩
  obtain ⟨k, m, i, s, d, hlay⟩ := exists_layout hroom hsmall
  obtain ⟨bs, hbs, hbs144⟩ := exists_blockSize hb hroom hlay.total
  obtain ⟨p, hp, hpsum, hpos, hbitmap, hinode, hbitmap0, hinode0⟩ := exists_places hlay hb ts
  -- a count of inodes that is not exact is left open
  obtain ⟨j, hj0, hj⟩ : ∃ j : ℤ, 0 ≤ j ∧ (Counted (newSuperblock ts t ⟨number n, hb⟩) →
      (maxInodes t (number n)).Is j) := by
    by_cases hc : Counted (newSuperblock ts t ⟨number n, hb⟩)
    · obtain ⟨j, hj, hpos⟩ := exists_maxInodes hbs hbs144 hlay.inode hlay.one_le_inode hmax hc
      exact ⟨j, hpos.le, fun _ => hj⟩
    · exact ⟨0, le_rfl, fun hc' => absurd hc' hc⟩
  have hsame : SameSuperblock (formattedPage p bs d j).superblock
      (newSuperblock ts t ⟨number n, hb⟩) :=
    ⟨Double.is_ofNat 0x4D494E49 (by norm_num), hbs, hlay.data, hlay.data,
      fun hc => ⟨hj hc, hj hc⟩, fun hx => { hp hx with }⟩
  have hagrees : Agrees (formattedPage p bs d j)
      ⟨some (newSuperblock ts t ⟨number n, hb⟩), [], 0, 0⟩ _ :=
    ⟨rfl, rfl, hsame, Double.is_ofNat 0 (by norm_num), .nil⟩
  refine ⟨_, tracks_resigned hagrees (formattedPage_running hbs144 hpsum hlay.data_nonneg hj0)
    ⟨hbitmap, hinode, hbitmap0, hinode0, hpos⟩ hlay.data_le, ?_⟩
  rw [resigned]
  split_ifs <;> rfl

theorem fsFormat_blockSize {n : Option ℤ} (h : fsFormat ts t (number n) fs = (⟨true, msg⟩, fs'))
    (hsb : fs'.superblock = some sb) (hd : sb.dataBlocks.Is d) :
    ∃ bs : ℤ, sb.blockSize.value.Is bs ∧ 144 ≤ bs := by
  obtain ⟨hb, hroom, -, rfl⟩ := fsFormat_eq h
  obtain rfl := Option.some.inj hsb
  obtain ⟨_, htotal⟩ := Double.left_of_sub hd
  obtain ⟨k, hk⟩ := Double.whole_floor _ _ htotal
  exact exists_blockSize hb hroom hk

/-! ## Runs -/

def runPage (c : Call) : Exec.Prog FS Reply := fun fs => some (perform c.ts c.op fs)

theorem runPage_eq (c : Call) (fs : FS) :
    runPage c fs = some ((perform c.ts c.op fs).1, (perform c.ts c.op fs).2) := rfl

theorem performAll_keeps (h : fs.superblock = some sb) (calls : List Call) :
    Keeps sb (Always runPage (fun fs c => Makes fs c.op) fs calls) fs (performAll calls fs) := by
  induction calls generalizing fs sb with
  | nil => exact keeps_self h
  | cons c calls ih =>
    have hone := perform_keeps h c.ts c.op
    obtain ⟨sb', hsb', hkept⟩ := hone.kept
    obtain ⟨⟨sb'', hsb'', hkept'⟩, hrest⟩ := ih hsb'
    refine ⟨⟨sb'', hsb'', hkept.trans hkept'⟩, fun hmakes htexts => ?_⟩
    rw [always_cons (runPage_eq c fs)] at hmakes
    exact hrest hmakes.2 (hone.texts ⟨hmakes.1, htexts⟩ htexts)

/-- The page keeps following the disk. -/
theorem Tracks.performAll (h : Tracks page fs sb) (calls : List Call)
    (hmakes : Always runPage (fun fs c => Makes fs c.op) fs calls) :
    ∃ page' sb', Kept sb sb' ∧ Tracks page' (performAll calls fs) sb' := by
  induction calls generalizing page fs sb with
  | nil => exact ⟨page, sb, .refl sb, h⟩
  | cons c calls ih =>
    rw [always_cons (runPage_eq c fs)] at hmakes
    obtain ⟨page', sb', -, hkept, htracks⟩ := h.perform c.ts hmakes.1
    obtain ⟨page'', sb'', hkept', htracks'⟩ := ih htracks hmakes.2
    exact ⟨page'', sb'', hkept.trans hkept', htracks'⟩

end MiniFs.Simulator.Numbers
