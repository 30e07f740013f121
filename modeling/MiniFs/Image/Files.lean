import MiniFs.Image.Observe

/-! # The files of a volume as an abstract store

What the file operations are for: a store of contents keyed by inode number. The
store knows nothing of blocks; every accepted operation is one step of it.
-/

set_option autoImplicit false

namespace MiniFs.Image
open MiniFs.Core Library Library.Exec Library.ByteRange Library.Chunks Library.Ownership

abbrev FileStore := ℕ → Option (List UInt8)

/-- What an operation that returns 0 does to the store, and the content it shows; `find` gives
the inode number of a name. -/
inductive StoreStep (find : CStr → Option ℕ) :
    FileOp → FileStore → FileStore → List UInt8 → Prop
  | create {s : FileStore} {name : CStr} {i : ℕ} (hfree : s i = none) :
      StoreStep find (.create name) s (Function.update s i (some [])) []
  | write {s : FileStore} {name data : CStr} {i : ℕ} (hfind : find name = some i) :
      StoreStep find (.write name data) s (Function.update s i (some data.bytes)) []
  | append {s : FileStore} {name data : CStr} {i : ℕ} {old : List UInt8}
      (hfind : find name = some i) (hold : s i = some old) :
      StoreStep find (.append name data) s (Function.update s i (some (old ++ data.bytes))) []
  | read {s : FileStore} {name : CStr} {i : ℕ} {content : List UInt8}
      (hfind : find name = some i) (hcontent : s i = some content) :
      StoreStep find (.read name) s s content
  | rename {s : FileStore} {oldName newName : CStr} :
      StoreStep find (.rename oldName newName) s s []
  | copy {s : FileStore} {src dst : CStr} {i k : ℕ} {content : List UInt8}
      (hfind : find src = some k) (hcontent : s k = some content) (hfree : s i = none) :
      StoreStep find (.copy src dst) s (Function.update s i (some content)) []
  | truncate {s : FileStore} {name : CStr} {newSize : UInt32} {i : ℕ} {old : List UInt8}
      (hfind : find name = some i) (hold : s i = some old) :
      StoreStep find (.truncate name newSize) s
        (Function.update s i (some (old.take newSize.toNat))) []
  | chmod {s : FileStore} {name : CStr} {mode : UInt16} : StoreStep find (.chmod name mode) s s []
  | delete {s : FileStore} {name : CStr} {i : ℕ} (hfind : find name = some i) :
      StoreStep find (.delete name) s (Function.update s i none) []

def shownContent (msgs : List Message) : List UInt8 :=
  msgs.flatMap fun
    | .content bytes => bytes
    | _ => []

section
variable (g : Geometry) (vol : Volume)

def Volume.fileOf (x : Inode) : Option (List UInt8) :=
  if x.isUsed = 1 then some (vol.content g x) else none

def Volume.files : FileStore := fun i => vol.inodes[i]?.bind (vol.fileOf g)

def Volume.findSlot (name : CStr) : Option ℕ := (vol.lookup name.bytes).map (·.id.toNat)

end

variable {g : Geometry} {vol vol' : Volume} {i : ℕ} {x x' : Inode} {held : List ℕ}

theorem files_slot (hi : vol.inodes[i]? = some x) : vol.files g i = vol.fileOf g x := by
  rw [Volume.files, hi, Option.bind_some]

theorem fileOf_live (hx : x.isUsed = 1) : vol.fileOf g x = some (vol.content g x) := if_pos hx

theorem fileOf_free (hx : x.isUsed = 0) : vol.fileOf g x = none := by
  rw [Volume.fileOf, if_neg]
  rw [hx]
  decide

theorem fileOf_congr (hflag : x'.isUsed = x.isUsed) (hsize : x'.size = x.size)
    (hblocks : x'.directBlocks = x.directBlocks) (hdata : vol'.data = vol.data) :
    vol'.fileOf g x' = vol.fileOf g x := by
  simp only [Volume.fileOf, Volume.content, blocksOf, hflag, hsize, hblocks, hdata]

theorem FoundAt.files {name : List UInt8} (h : FoundAt vol name i x) :
    vol.files g i = some (vol.content g x) := by
  rw [files_slot h.slot, fileOf_live h.live]

theorem FoundAt.findSlot (hs : Sound g vol) {name : CStr} (h : FoundAt vol name.bytes i x) :
    vol.findSlot name = some i := by
  rw [Volume.findSlot, h.lookup, Option.map_some, (hs.live i x h.slot h.live).id]

theorem FirstFree.files (h : FirstFree vol i x) : vol.files g i = none := by
  rw [files_slot h.slot, fileOf_free h.free]

/-- An edit of a slot changes one file of the store. -/
theorem Edit.files (hs : Sound g vol) (h : Edit g vol i x x' held vol') :
    vol'.files g = Function.update (vol.files g) i (vol'.fileOf g x') := by
  funext j
  rcases eq_or_ne j i with rfl | hj
  · rw [Function.update_self, files_slot h.slot_self]
  · rw [Function.update_of_ne hj, Volume.files, Volume.files, h.slot_other hj]
    cases hy : vol.inodes[j]? with
    | none => rfl
    | some y =>
      rw [Option.bind_some, Option.bind_some, Volume.fileOf, Volume.fileOf]
      split_ifs with hlive
      · rw [hs.content_other h hj hy hlive]
      · rfl

theorem Edit.files_update (hs : Sound g vol) (h : Edit g vol i x x' held vol')
    (hlive : x'.isUsed = 1) {content : List UInt8} (hcontent : vol'.content g x' = content) :
    vol'.files g = Function.update (vol.files g) i (some content) := by
  rw [Edit.files hs h, fileOf_live hlive, hcontent]

theorem Edit.files_eq (hs : Sound g vol) (h : Edit g vol i x x' held vol')
    (hsame : vol'.fileOf g x' = vol.fileOf g x) : vol'.files g = vol.files g := by
  rw [Edit.files hs h, hsame, ← files_slot h.slot, Function.update_eq_self]

/-! ## Contents after the operations -/

theorem content_newInode (vol : Volume) (now : UInt64) (name : CStr) (mode : UInt16) :
    vol.content g (newInode now i name mode) = [] := by
  rw [Volume.content, blocksOf_newInode, List.flatMap_nil, List.take_nil]

theorem content_of_size_zero (h : x.size = 0) : vol.content g x = [] := by
  rw [Volume.content, h, UInt32.toNat_zero, List.take_zero]

theorem Stored.content {y : Inode} {data : List UInt8} {d : Vector UInt32 16} {vol1 : Volume}
    (h : Stored g vol y data held d vol1) {len : UInt32} (hlen : data.length = len.toNat)
    (now : UInt64) : vol1.content g (storedInode now y d len) = data := by
  let n := pieces data.length g.blockSize
  have hn : n ≤ held.length := by
    rw [h.length, blocksNeeded]
    exact le_max_right 1 n
  have hmap : (held.take n).map vol1.data = (List.range n).map (chunk 0 g.blockSize data) := by
    apply List.ext_getElem
    · rw [List.length_map, List.length_map, List.length_range, List.length_take]
      exact Nat.min_eq_left hn
    · intro j hj hj'
      rw [List.length_map, List.length_range] at hj'
      rw [List.getElem_map, List.getElem_map, List.getElem_range, List.getElem_take]
      exact h.data_at j (by omega)
  rw [Volume.content, h.blocksOf_storedInode hlen now]
  change ((held.take n).flatMap vol1.data).take len.toNat = data
  rw [List.flatMap_def, hmap, ← List.flatMap_def, ← hlen]
  exact take_flatMap_chunk 0 (le_pieces_mul g.blockSize_pos)

/-- Cutting the size cuts the content. -/
theorem Readable.content_truncated (h : Readable g vol x) {newSize : UInt32} (hle : newSize ≤ x.size)
    (now : UInt64) :
    vol.content g { x with size := newSize, modifiedAt := now } =
      (vol.content g x).take newSize.toNat := by
  have hsplit := kept_append_dropped (g := g) hle now
  have hle' := UInt32.le_iff_toNat_le.mp hle
  have hin (b : ℕ) (hb : b ∈ blocksOf g { x with size := newSize, modifiedAt := now }) :
      b ∈ blocksOf g x := hsplit ▸ List.mem_append_left _ hb
  have hkept : Readable g vol { x with size := newSize, modifiedAt := now } :=
    { h with
      bounds := fun b hb => h.bounds b (hin b hb)
      pieces_le := (pieces_mono g.blockSize_pos hle').trans h.pieces_le
      size_fits := by
        have := h.size_fits
        change newSize.toNat + _ < _
        omega }
  have hlen := hkept.length_content
  change _ = newSize.toNat at hlen
  rw [Volume.content, List.length_take] at hlen
  rw [Volume.content, Volume.content, List.take_take, Nat.min_eq_left hle', ← hsplit,
    List.flatMap_append, List.take_append_of_le_length (by omega)]

theorem Accepted.storeStep (hs : Sound g vol) {now : UInt64} {op : FileOp} (hfit : Fits g vol op)
    {msgs : List Message} (h : Accepted g now op vol vol' msgs) :
    StoreStep vol.findSlot op (vol.files g) (vol'.files g) (shownContent msgs) := by
  cases h with
  | @create _ name _ _ hlen hnew hslot =>
    have hedit := claim_edit hs hslot.slot hslot.free now name (fsIfreg ||| fsDefaultMode)
    rw [Edit.files_update hs hedit rfl (content_newInode ..)]
    exact .create hslot.files
  | @write _ _ name data _ x _ d hat hst =>
    have hlen := length_toNat_ofNat (hfit data.strlen rfl)
    have hedit := write_edit hs hat.slot hat.live hst hlen now
    rw [Edit.files_update hs hedit hat.live (hst.content hlen now)]
    exact .write (hat.findSlot hs)
  | @append _ _ name data _ x _ d hat hst =>
    have hstored : storedLength vol (.append name data) = some (x.size.toNat + data.strlen) := by
      rw [storedLength, hat.lookup, Option.map_some]
    have hlen := (length_append (hs.readable hat.slot hat.live) (hfit _ hstored)).1
    have hedit := write_edit hs hat.slot hat.live hst hlen now
    rw [Edit.files_update hs hedit hat.live (hst.content hlen now)]
    exact .append (hat.findSlot hs) hat.files
  | @read _ name _ x hat =>
    have hedit := read_edit hs hat.slot hat.live now
    have hshown : shownContent (if x.size = 0 then [.emptyFile]
        else [.content (vol.content g x), .newline]) = vol.content g x := by
      split_ifs with hsize
      · exact (content_of_size_zero hsize).symm
      · exact List.append_nil _
    rw [Edit.files_eq hs hedit (fileOf_congr rfl rfl rfl rfl), hshown]
    exact .read (hat.findSlot hs) hat.files
  | @rename _ oldName newName _ x hlen hat hnew =>
    have hedit := rename_edit hs hat.slot hat.live now newName
    rw [Edit.files_eq hs hedit (fileOf_congr rfl rfl rfl rfl)]
    exact .rename
  | @copyEmpty _ src dst i _ _ y hat hnew hslot hsize =>
    have hedit := claim_edit hs hslot.slot hslot.free now dst y.mode
    have hcontent : vol.content g (newInode now i dst y.mode) = vol.content g y := by
      rw [content_newInode, content_of_size_zero hsize]
    rw [Edit.files_update hs hedit rfl hcontent]
    exact .copy (hat.findSlot hs) hat.files hslot.files
  | @copy _ _ src dst _ _ _ y _ d hat hnew hslot hsize hst =>
    have hlen := (hs.readable hat.slot hat.live).length_content
    have hedit := copy_edit hs hslot.slot hslot.free hst hlen
    rw [Edit.files_update hs hedit rfl (hst.content hlen now)]
    exact .copy (hat.findSlot hs) hat.files hslot.files
  | @truncate _ name newSize _ x hat hle =>
    have hedit := truncate_edit hs hat.slot hat.live hle now
    have hcontent := (hs.readable hat.slot hat.live).content_truncated hle now
    rw [Edit.files_update hs hedit hat.live hcontent]
    exact .truncate (hat.findSlot hs) hat.files
  | @chmod _ name mode _ x hat =>
    have hedit := chmod_edit hs hat.slot hat.live now ((x.mode &&& 0xF000) ||| (mode &&& 0x0FFF))
    rw [Edit.files_eq hs hedit (fileOf_congr rfl rfl rfl rfl)]
    exact .chmod
  | delete hat =>
    have hedit := delete_edit hs hat.slot hat.live
    rw [Edit.files hs hedit, fileOf_free rfl]
    exact .delete (hat.findSlot hs)

end MiniFs.Image
