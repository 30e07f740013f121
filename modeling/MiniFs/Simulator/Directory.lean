import MiniFs.Image.Files
import MiniFs.Image.Names
import MiniFs.Simulator.Accounting

/-! # The directory both programs keep

What a user sees of either program is a directory: a content, a size and a mode
under each name. An accepted call changes it in the same way on both sides; this
module says how, and proves it of the core.
-/

set_option autoImplicit false

namespace MiniFs.Simulator
open MiniFs.Core Image Library Library.Chunks

/-- The text of a byte string; for ASCII bytes the same text. -/
def text (bytes : List UInt8) : JsString := bytes.map UInt8.toUInt16

def pageOp : FileOp → Op
  | .create name => .create (text name.bytes)
  | .write name data => .write (text name.bytes) (text data.bytes)
  | .append name data => .append (text name.bytes) (text data.bytes)
  | .read name => .read (text name.bytes)
  | .rename oldName newName => .rename (text oldName.bytes) (text newName.bytes)
  | .copy src dst => .copy (text src.bytes) (text dst.bytes)
  | .truncate name newSize => .truncate (text name.bytes) newSize.toNat
  | .chmod name mode => .chmod (text name.bytes) mode.toNat
  | .delete name => .delete (text name.bytes)

theorem text_injective : Function.Injective text := by
  apply List.map_injective_iff.mpr
  intro a b hab
  apply UInt8.toNat_inj.mp
  have h := congrArg UInt16.toNat hab
  rwa [UInt8.toNat_toUInt16, UInt8.toNat_toUInt16] at h

@[simp] theorem length_text (bytes : List UInt8) : (text bytes).length = bytes.length :=
  List.length_map _

@[simp] theorem text_append (a b : List UInt8) : text (a ++ b) = text a ++ text b :=
  List.map_append

/-- What both programs tell of a file. -/
structure Entry where
  content : JsString
  size : ℕ
  mode : ℕ

def Entry.store (e : Entry) (content : JsString) : Entry :=
  { e with content := content, size := content.length }

def Entry.chmod (e : Entry) (mode : ℕ) : Entry :=
  { e with mode := (e.mode &&& 0xF000) ||| (mode &&& 0x0FFF) }

abbrev Directory := List UInt8 → Option Entry

def applied (d : Directory) : FileOp → Directory
  | .create name => Function.update d name.bytes (some ⟨[], 0, 0o100644⟩)
  | .write name data =>
    Function.update d name.bytes ((d name.bytes).map (·.store (text data.bytes)))
  | .append name data => Function.update d name.bytes
      ((d name.bytes).map fun e => e.store (e.content ++ text data.bytes))
  | .read _ => d
  | .rename oldName newName => Function.update (Function.update d oldName.bytes none)
      newName.bytes (d oldName.bytes)
  | .copy src dst => Function.update d dst.bytes (d src.bytes)
  | .truncate name newSize => Function.update d name.bytes
      ((d name.bytes).map fun e => e.store (e.content.take newSize.toNat))
  | .chmod name mode => Function.update d name.bytes ((d name.bytes).map (·.chmod mode.toNat))
  | .delete name => Function.update d name.bytes none

/-! ## The directory of the core -/

section Core
variable {g : Geometry} {vol vol' : Volume} {i : ℕ} {x x' : Inode} {held : List ℕ}
  {name : List UInt8}

def coreEntry (g : Geometry) (vol : Volume) (x : Inode) : Entry :=
  ⟨text (vol.content g x), x.size.toNat, x.mode.toNat⟩

def coreDirectory (g : Geometry) (vol : Volume) : Directory :=
  Keyed.table nameKey (coreEntry g vol) vol.inodes

theorem coreDirectory_eq (name : List UInt8) :
    coreDirectory g vol name = (vol.lookup name).map (coreEntry g vol) := by
  rw [coreDirectory, Keyed.table, lookup_eq_keyed]

theorem coreDirectory_found (h : FoundAt vol name i x) :
    coreDirectory g vol name = some (coreEntry g vol x) := by
  rw [coreDirectory_eq, h.lookup, Option.map_some]

theorem nameKey_found (h : FoundAt vol name i x) : nameKey x = some name :=
  nameKey_eq_some_iff.mpr ⟨h.live, h.shown⟩

/-- The other entries stay as they are. -/
theorem coreEntry_other (hs : Sound g vol) (h : Edit g vol i x x' held vol') (j : ℕ) (y : Inode)
    (hj : j ≠ i) (hy : vol.inodes[j]? = some y) (hkey : nameKey y ≠ none) :
    coreEntry g vol' y = coreEntry g vol y := by
  have hlive : y.isUsed = 1 := by
    by_contra hno
    exact hkey (if_neg hno)
  rw [coreEntry, hs.content_other h hj hy hlive, coreEntry]

theorem coreDirectory_same (hs : Sound g vol) (hu : NamesUnique vol)
    (h : Edit g vol i x x' held vol') (hat : FoundAt vol name i x)
    (hx' : nameKey x' = some name) {e : Entry} (he : coreEntry g vol' x' = e) :
    coreDirectory g vol' = Function.update (coreDirectory g vol) name (some e) := by
  rw [coreDirectory, h.inodes, ← he]
  exact (namesUnique_iff.mp hu).table_set_same h.slot (coreEntry_other hs h) (nameKey_found hat) hx'

theorem coreDirectory_new (hs : Sound g vol) (hu : NamesUnique vol)
    (h : Edit g vol i x x' held vol') (hx : x.isUsed = 0) (hx' : nameKey x' = some name)
    (hnew : vol.lookup name = none) {e : Entry} (he : coreEntry g vol' x' = e) :
    coreDirectory g vol' = Function.update (coreDirectory g vol) name (some e) := by
  rw [coreDirectory, h.inodes, ← he]
  exact (namesUnique_iff.mp hu).table_set_new h.slot (coreEntry_other hs h) (nameKey_free hx) hx'
    (lookup_eq_keyed vol ▸ hnew)

theorem coreDirectory_free (hs : Sound g vol) (hu : NamesUnique vol)
    (h : Edit g vol i x x' held vol') (hx : x.isUsed = 0) (hx' : x'.isUsed = 0) :
    coreDirectory g vol' = coreDirectory g vol := by
  rw [coreDirectory, h.inodes]
  exact (namesUnique_iff.mp hu).table_set_free h.slot (coreEntry_other hs h) (nameKey_free hx)
    (nameKey_free hx')

theorem nameKey_newInode {name : CStr} (hlen : name.strlen < maxFilenameLen) (now : UInt64) (i : ℕ)
    (mode : UInt16) : nameKey (newInode now i name mode) = some name.bytes :=
  nameKey_eq_some_iff.mpr ⟨rfl, shownName_newInode hlen now i mode⟩

theorem coreEntry_congr (hsize : x'.size = x.size) (hmode : x'.mode = x.mode)
    (hblocks : x'.directBlocks = x.directBlocks) (hdata : vol'.data = vol.data) :
    coreEntry g vol' x' = coreEntry g vol x := by
  simp only [coreEntry, Volume.content, blocksOf, hsize, hmode, hblocks, hdata]

theorem coreEntry_stored {content : List UInt8} (hcontent : vol'.content g x' = content)
    (hlen : content.length = x'.size.toNat) (hmode : x'.mode = x.mode) :
    coreEntry g vol' x' = (coreEntry g vol x).store (text content) := by
  rw [coreEntry, hcontent, hmode, ← hlen, Entry.store, length_text, coreEntry]

theorem coreDirectory_write (hs : Sound g vol) (hu : NamesUnique vol) (hat : FoundAt vol name i x)
    {data : List UInt8} {d : Vector UInt32 16} {vol1 : Volume}
    (hst : Stored g vol x data held d vol1) {len : UInt32} (hdata : data.length = len.toNat)
    (now : UInt64) : coreDirectory g (vol1.setInode i (storedInode now x d len)).save =
      Function.update (coreDirectory g vol) name
        (some ((coreEntry g vol x).store (text data))) := by
  have hedit := write_edit hs hat.slot hat.live hst hdata now
  have hkey : nameKey (storedInode now x d len) = some name :=
    nameKey_eq_some_iff.mpr ⟨hat.live, hat.shown⟩
  have hcontent : (vol1.setInode i (storedInode now x d len)).save.content g
      (storedInode now x d len) = data := hst.content hdata now
  exact coreDirectory_same hs hu hedit hat hkey (coreEntry_stored hcontent hdata rfl)

theorem coreDirectory_rename (hs : Sound g vol) (hu : NamesUnique vol) (hat : FoundAt vol name i x)
    {newName : CStr} (hlen : newName.strlen < maxFilenameLen)
    (hnew : vol.lookup newName.bytes = none) (now : UInt64) :
    coreDirectory g (vol.setInode i
        { x with name := Inode.strncpy x.name newName, modifiedAt := now }) =
      Function.update (Function.update (coreDirectory g vol) name none) newName.bytes
        (some (coreEntry g vol x)) := by
  have hedit := rename_edit hs hat.slot hat.live now newName
  have hend := (hs.live i x hat.slot hat.live).name_end
  have hshown : Inode.shownName { x with
      name := Inode.strncpy x.name newName, modifiedAt := now } = newName.bytes :=
    shownName_strncpy hend hlen (by simp only)
  have hkey : nameKey { x with
      name := Inode.strncpy x.name newName, modifiedAt := now } = some newName.bytes :=
    nameKey_eq_some_iff.mpr ⟨hat.live, hshown⟩
  have hentry : coreEntry g (vol.setInode i
        { x with name := Inode.strncpy x.name newName, modifiedAt := now })
      { x with name := Inode.strncpy x.name newName, modifiedAt := now } = coreEntry g vol x :=
    coreEntry_congr (by simp only) (by simp only) (by simp only) (by simp only [Volume.setInode])
  rw [coreDirectory, hedit.inodes, (namesUnique_iff.mp hu).table_set_moved hedit.slot
    (coreEntry_other hs hedit) (nameKey_found hat) hkey (lookup_eq_keyed vol ▸ hnew), hentry]
  rfl

theorem toNat_chmod (old mode : UInt16) :
    ((old &&& 0xF000) ||| (mode &&& 0x0FFF)).toNat =
      (old.toNat &&& 0xF000) ||| (mode.toNat &&& 0x0FFF) := by
  rw [UInt16.toNat_or, UInt16.toNat_and, UInt16.toNat_and]
  rfl

/-- An accepted operation that gives no name too long for the field changes the directory as
it should. -/
theorem accepted_directory (hs : Sound g vol) (hu : NamesUnique vol) {now : UInt64} {op : FileOp}
    (hfit : Fits g vol op) (hlen : ∀ name, givenName op = some name → name.strlen < maxFilenameLen)
    {msgs : List Message} (h : Accepted g now op vol vol' msgs) :
    coreDirectory g vol' = applied (coreDirectory g vol) op := by
  cases h with
  | @create _ name i _ _ hnew hslot =>
    have hedit := claim_edit hs hslot.slot hslot.free now name (fsIfreg ||| fsDefaultMode)
    refine coreDirectory_new hs hu hedit hslot.free (nameKey_newInode (hlen name rfl) now i _) hnew ?_
    rw [coreEntry, content_newInode]
    rfl
  | @write _ vol1 name data i x _ d hat hst =>
    rw [coreDirectory_write hs hu hat hst (length_toNat_ofNat (hfit data.strlen rfl)), applied,
      coreDirectory_found hat]
    rfl
  | @append _ vol1 name data i x _ d hat hst =>
    have hstored : storedLength vol (.append name data) = some (x.size.toNat + data.strlen) := by
      rw [storedLength, hat.lookup, Option.map_some]
    have hdata := (length_append (hs.readable hat.slot hat.live) (hfit _ hstored)).1
    rw [coreDirectory_write hs hu hat hst hdata, applied, coreDirectory_found hat, text_append]
    rfl
  | @read _ name i x hat =>
    have hedit := read_edit hs hat.slot hat.live now
    have hkey : nameKey { x with accessedAt := now } = some name.bytes :=
      nameKey_eq_some_iff.mpr ⟨hat.live, hat.shown⟩
    have hsame : applied (coreDirectory g vol) (.read name) = Function.update (coreDirectory g vol)
        name.bytes (some (coreEntry g vol x)) := by
      rw [← coreDirectory_found hat, Function.update_eq_self, applied]
    rw [hsame]
    exact coreDirectory_same hs hu hedit hat hkey (coreEntry_congr rfl rfl rfl rfl)
  | @rename _ oldName newName i x _ hat hnew =>
    rw [coreDirectory_rename hs hu hat (hlen newName rfl) hnew, applied, coreDirectory_found hat]
  | @copyEmpty _ src dst i _ _ y hat hnew hslot hsize =>
    have hedit := claim_edit hs hslot.slot hslot.free now dst y.mode
    rw [applied, coreDirectory_found hat]
    refine coreDirectory_new hs hu hedit hslot.free (nameKey_newInode (hlen dst rfl) now i _) hnew ?_
    rw [coreEntry, coreEntry, content_newInode, content_of_size_zero hsize, hsize]
    rfl
  | @copy _ vol1 src dst i _ _ y _ d hat hnew hslot hsize hst =>
    have hdata := (hs.readable hat.slot hat.live).length_content
    have hedit := copy_edit hs hslot.slot hslot.free hst hdata
    have hkey : nameKey (storedInode now (newInode now i dst y.mode) d y.size) = some dst.bytes :=
      nameKey_newInode (hlen dst rfl) now i y.mode
    have hcontent : (vol1.setInode i
        (storedInode now (newInode now i dst y.mode) d y.size)).save.content g
          (storedInode now (newInode now i dst y.mode) d y.size) = vol.content g y :=
      hst.content hdata now
    rw [applied, coreDirectory_found hat]
    refine coreDirectory_new hs hu hedit hslot.free hkey hnew ?_
    rw [coreEntry, hcontent, coreEntry]
    rfl
  | @truncate _ name newSize i x hat hle =>
    have hedit := truncate_edit hs hat.slot hat.live hle now
    have hread := hs.readable hat.slot hat.live
    have hkey : nameKey { x with size := newSize, modifiedAt := now } = some name.bytes :=
      nameKey_eq_some_iff.mpr ⟨hat.live, hat.shown⟩
    have hcontent : ((vol.releaseAll (droppedBlocks g x newSize)).setInode i
        { x with size := newSize, modifiedAt := now }).save.content g
          { x with size := newSize, modifiedAt := now } = (vol.content g x).take newSize.toNat :=
      hread.content_truncated hle now
    have hdata : ((vol.content g x).take newSize.toNat).length = newSize.toNat := by
      rw [List.length_take, hread.length_content]
      exact Nat.min_eq_left (UInt32.le_iff_toNat_le.mp hle)
    have htake : ((coreEntry g vol x).content).take newSize.toNat =
        text ((vol.content g x).take newSize.toNat) := List.map_take.symm
    rw [applied, coreDirectory_found hat, Option.map_some, htake]
    exact coreDirectory_same hs hu hedit hat hkey (coreEntry_stored hcontent hdata rfl)
  | @chmod _ name mode i x hat =>
    have hedit := chmod_edit hs hat.slot hat.live now ((x.mode &&& 0xF000) ||| (mode &&& 0x0FFF))
    have hkey : nameKey { x with
        mode := (x.mode &&& 0xF000) ||| (mode &&& 0x0FFF), modifiedAt := now } =
          some name.bytes := nameKey_eq_some_iff.mpr ⟨hat.live, hat.shown⟩
    rw [applied, coreDirectory_found hat]
    refine coreDirectory_same hs hu hedit hat hkey ?_
    rw [coreEntry, toNat_chmod]
    rfl
  | @delete _ name i x hat =>
    have hedit := delete_edit hs hat.slot hat.live
    rw [coreDirectory, hedit.inodes, (namesUnique_iff.mp hu).table_set_gone hedit.slot
      (coreEntry_other hs hedit) (nameKey_found hat) (nameKey_free rfl)]
    rfl

/-- A rejected operation leaves directory and superblock as they are. -/
theorem rejected_directory (hs : Sound g vol) (hu : NamesUnique vol) {op : FileOp} {msg : Message}
    (h : Rejected g op vol vol' msg) :
    coreDirectory g vol' = coreDirectory g vol ∧ vol'.sb = vol.sb := by
  rcases h.cases with rfl | ⟨i, x, hslot, rfl⟩
  · exact ⟨rfl, rfl⟩
  · have hedit : Edit g vol i x { Inode.fresh i with isUsed := 0 } []
        (vol.setInode i { Inode.fresh i with isUsed := 0 }) :=
      free_edit hs hslot.slot hslot.free rfl
    exact ⟨coreDirectory_free hs hu hedit hslot.free rfl, rfl⟩

end Core

/-! ## The directory of the page -/

section Page
variable {fs fs' : FS} {ts name : JsString} {f f' : File} {d : Directory} {op : FileOp}

theorem toNat_mode (mode : UInt16) : ((mode.toNat : ℤ) % 0x1000).toNat = mode.toNat &&& 0x0FFF := by
  have hmod := Nat.and_two_pow_sub_one_eq_mod mode.toNat 12
  change mode.toNat &&& 0x0FFF = mode.toNat % 0x1000 at hmod
  omega

/-- The directory under the texts of the names, with nothing under other texts. -/
noncomputable def spread (d : Directory) : JsString → Option Entry :=
  Function.extend text d fun _ => none

@[simp] theorem spread_text (d : Directory) (name : List UInt8) :
    spread d (text name) = d name :=
  text_injective.extend_apply d _ name

theorem spread_eq_some_iff {n : JsString} {e : Entry} :
    spread d n = some e ↔ ∃ name, text name = n ∧ d name = some e := by
  constructor
  · intro h
    by_cases hex : ∃ a, text a = n
    · obtain ⟨a, rfl⟩ := hex
      rw [spread_text] at h
      exact ⟨a, rfl, h⟩
    · rw [spread, Function.extend_apply' _ _ _ hex] at h
      exact nomatch h
  · rintro ⟨name, rfl, h⟩
    rw [spread_text, h]

@[simp] theorem spread_update (d : Directory) (name : List UInt8) (e : Option Entry) :
    spread (Function.update d name e) = Function.update (spread d) (text name) e := by
  funext m
  rw [Function.update_apply]
  split_ifs with hm
  · rw [hm, spread_text, Function.update_self]
  · by_cases hex : ∃ a, text a = m
    · obtain ⟨a, rfl⟩ := hex
      rw [spread_text, spread_text, Function.update_of_ne fun ha => hm (congrArg text ha)]
    · rw [spread, spread, Function.extend_apply' _ _ _ hex, Function.extend_apply' _ _ _ hex]

def File.entry (f : File) : Entry := ⟨f.content, f.size, f.mode⟩

def fileKey (f : File) : Option JsString := some f.name

def pageDirectory (fs : FS) : JsString → Option Entry := Keyed.table fileKey File.entry fs.files

theorem find_eq_keyed (fs : FS) (name : JsString) :
    fs.find name = Keyed.lookup fileKey fs.files name := by
  rw [FS.find, Keyed.lookup]
  simp only [fileKey, Option.some_inj]

theorem pageDirectory_eq (fs : FS) (name : JsString) :
    pageDirectory fs name = (fs.find name).map File.entry := by
  rw [pageDirectory, Keyed.table, find_eq_keyed]

theorem pageDirectory_congr (h : fs'.files = fs.files) : pageDirectory fs' = pageDirectory fs := by
  rw [pageDirectory, h, pageDirectory]

theorem keyed_unique (h : (fs.files.map File.name).Nodup) : Keyed.Unique fileKey fs.files := by
  intro i j x y k hi hj hx hy
  have hname : x.name = y.name := Option.some.inj (hx.trans hy.symm)
  obtain ⟨hilt, rfl⟩ := List.getElem?_eq_some_iff.mp hi
  obtain ⟨hjlt, rfl⟩ := List.getElem?_eq_some_iff.mp hj
  have hmapped {k : ℕ} (hk : k < fs.files.length) : k < (fs.files.map File.name).length := by
    rwa [List.length_map]
  have hnames : (fs.files.map File.name).get ⟨i, hmapped hilt⟩ =
      (fs.files.map File.name).get ⟨j, hmapped hjlt⟩ := by
    rw [List.get_eq_getElem, List.get_eq_getElem, List.getElem_map, List.getElem_map, hname]
  exact Fin.mk.inj (List.nodup_iff_injective_get.mp h hnames)

theorem getElem?_findIndex (hf : fs.find name = some f) : fs.files[fs.findIndex name]? = some f := by
  obtain ⟨before, after, hs⟩ := exists_split hf
  rw [hs.index, hs.files, List.getElem?_append_right le_rfl, Nat.sub_self, List.getElem?_cons_zero]

variable (h : (fs.files.map File.name).Nodup)
include h

theorem pageDirectory_assign (hf : fs.find name = some f) (hname : f'.name = f.name) :
    pageDirectory (fs.assign name f') = Function.update (pageDirectory fs) name (some f'.entry) := by
  have hkey : fileKey f = some name := congrArg some (name_of_find hf)
  exact (keyed_unique h).table_set_same (getElem?_findIndex hf) (fun _ _ _ _ _ => rfl) hkey
    ((congrArg some hname).trans hkey)

theorem pageDirectory_rename {newName : JsString} (hf : fs.find name = some f)
    (hname : f'.name = newName) (hnew : fs.find newName = none) :
    pageDirectory (fs.assign name f') =
      Function.update (Function.update (pageDirectory fs) name none) newName (some f'.entry) :=
  (keyed_unique h).table_set_moved (getElem?_findIndex hf) (fun _ _ _ _ _ => rfl)
    (congrArg some (name_of_find hf)) (congrArg some hname) (find_eq_keyed fs newName ▸ hnew)

theorem pageDirectory_remove (hf : fs.find name = some f) :
    pageDirectory (fs.remove name f) = Function.update (pageDirectory fs) name none :=
  (keyed_unique h).table_eraseIdx (getElem?_findIndex hf) (congrArg some (name_of_find hf)) _

omit h in
theorem pageDirectory_push (hname : f.name = name) (hnew : fs.find name = none) :
    pageDirectory (fs.push f) = Function.update (pageDirectory fs) name (some f.entry) := by
  have hkey : fileKey f = some name := congrArg some hname
  exact Keyed.table_append hkey (find_eq_keyed fs name ▸ hnew) _

omit h in
/-- The entry of a file that is found, in a directory known to be spread. -/
theorem entry_of_find (hd : pageDirectory fs = spread d) {name : List UInt8}
    (hf : fs.find (text name) = some f) : d name = some f.entry := by
  have hentry := congrFun hd (text name)
  rwa [pageDirectory_eq, hf, Option.map_some, spread_text, eq_comm] at hentry

section Found
variable {name : List UInt8} {f : File} (hd : pageDirectory fs = spread d)
  (hf : fs.find (text name) = some f)
include hd hf

theorem directory_rewrite {content : JsString} {held n : ℕ} :
    pageDirectory ((fs.charge held n).assign (text name) (stored ts fs f content)) =
      spread (Function.update d name (some (f.entry.store content))) := by
  rw [spread_update, ← hd]
  have hcharged : (fs.charge held n).find (text name) = some f := hf
  exact pageDirectory_assign h hcharged rfl

theorem directory_read :
    pageDirectory ((fs.countRead f.size).assign (text name) { f with atime := ts }) = spread d := by
  have hsame : Function.update (spread d) (text name) (some f.entry) = spread d := by
    rw [← entry_of_find hd hf, ← spread_text d name, Function.update_eq_self]
  rw [← hsame, ← hd]
  have hcounted : (fs.countRead f.size).find (text name) = some f := hf
  exact pageDirectory_assign h hcounted rfl

theorem directory_chmod (mode : UInt16) : pageDirectory (fs.assign (text name) { f with
      mode := (f.mode &&& 0xF000) ||| ((mode.toNat : ℤ) % 0x1000).toNat, mtime := ts }) =
    spread (Function.update d name (some (f.entry.chmod mode.toNat))) := by
  have hentry : ({ f with
      mode := (f.mode &&& 0xF000) ||| ((mode.toNat : ℤ) % 0x1000).toNat, mtime := ts } :
        File).entry = f.entry.chmod mode.toNat := by
    rw [toNat_mode]
    rfl
  rw [spread_update, ← hd, ← hentry]
  exact pageDirectory_assign h hf rfl

omit h in
/-- A new file with the entry of the one that was found. -/
theorem directory_copy {dst : List UInt8} {fs1 : FS} (hfiles : fs1.files = fs.files)
    (hnew : fs.find (text dst) = none) (hname : f'.name = text dst) (hentry : f'.entry = f.entry) :
    pageDirectory (fs1.push f') = spread (Function.update d dst (d name)) := by
  have hnew1 : fs1.find (text dst) = none := by
    rw [FS.find, hfiles]
    exact hnew
  rw [spread_update, entry_of_find hd hf, ← hd, ← hentry, ← pageDirectory_congr hfiles]
  exact pageDirectory_push hname hnew1

end Found

/-- An accepted call changes the directory of the page as it should. -/
theorem step_directory (hsized : ∀ f ∈ fs.files, f.size = f.content.length)
    (hd : pageDirectory fs = spread d) (hstep : Step ts fs (pageOp op) true fs') :
    pageDirectory fs' = spread (applied d op) := by
  cases op with
  | create name =>
    cases hstep with
    | create hlen hnew hfree =>
      rw [applied, spread_update, ← hd]
      exact pageDirectory_push rfl hnew
    | rewrite hf hop hroom => cases hop
  | write name data =>
    cases hstep with
    | rewrite hf hop hroom =>
      cases hop
      rw [applied, entry_of_find hd hf]
      exact directory_rewrite h hd hf
  | append name data =>
    cases hstep with
    | rewrite hf hop hroom =>
      cases hop
      rw [applied, entry_of_find hd hf]
      exact directory_rewrite h hd hf
  | read name =>
    cases hstep with
    | rewrite hf hop hroom => cases hop
    | read hf => exact directory_read h hd hf
  | rename oldName newName =>
    cases hstep with
    | rewrite hf hop hroom => cases hop
    | rename hf hnew hlen =>
      rw [applied, spread_update, spread_update, entry_of_find hd hf, ← hd]
      exact pageDirectory_rename h hf rfl hnew
  | copy src dst =>
    cases hstep with
    | rewrite hf hop hroom => cases hop
    | @copyEmpty _ _ f hf hnew hfree hsize =>
      have hempty : f.content = [] :=
        List.length_eq_zero_iff.mp ((hsized f (mem_of_find hf)).symm.trans hsize)
      refine directory_copy hd hf rfl hnew rfl ?_
      rw [File.entry, File.entry, hempty, hsize]
      rfl
    | @copy _ _ f hf hnew hfree hsize hroom =>
      refine directory_copy hd hf rfl hnew rfl ?_
      rw [File.entry, File.entry, hsized f (mem_of_find hf)]
      rfl
  | truncate name newSize =>
    cases hstep with
    | @rewrite _ _ _ f hf hop hroom =>
      cases hop with
      | truncate hle =>
        have hcontent : sliceTo f.content newSize.toNat = f.content.take newSize.toNat := by
          rw [sliceTo, if_neg (by omega), Int.toNat_natCast]
        rw [applied, entry_of_find hd hf, hcontent]
        exact directory_rewrite h hd hf
  | chmod name mode =>
    cases hstep with
    | rewrite hf hop hroom => cases hop
    | chmod hf =>
      rw [applied, entry_of_find hd hf]
      exact directory_chmod h hd hf mode
  | delete name =>
    cases hstep with
    | rewrite hf hop hroom => cases hop
    | delete hf =>
      rw [applied, spread_update, ← hd]
      exact pageDirectory_remove h hf

end Page

end MiniFs.Simulator
