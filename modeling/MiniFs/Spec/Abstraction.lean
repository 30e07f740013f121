import MiniFs.Image.Contained
import MiniFs.Image.Acceptance
import MiniFs.Image.Catalog
import MiniFs.Spec.Flat

/-! # What a process shows of the flat file system

The flat file system a process shows, read off its superblock, its inodes and their
contents, and how an edit of a volume changes it.
-/

set_option autoImplicit false

namespace MiniFs.Core

def Inode.file (x : Inode) (content : List UInt8) : Spec.File :=
  ⟨x.shownName, content, x.mode, x.linkCount, x.createdAt, x.modifiedAt, x.accessedAt⟩

@[simp] theorem Inode.file_content (x : Inode) (content : List UInt8) :
    (x.file content).content = content := rfl

@[simp] theorem Inode.file_mode (x : Inode) (content : List UInt8) :
    (x.file content).mode = x.mode := rfl

def Inode.file? (content : Inode → List UInt8) (x : Inode) : Option Spec.File :=
  if x.isUsed = 1 then some (x.file (content x)) else none

/-- What a process shows. -/
def World.flat (w : World) : Spec.Flat :=
  ⟨w.sb, w.inodes.map (Inode.file? w.content), w.out.map Spec.seen⟩

end MiniFs.Core

namespace MiniFs.Image
open MiniFs.Core MiniFs.Spec Library Library.Exec Library.Chunks Library.Ownership

def Volume.flat (g : Geometry) (vol : Volume) (printed : List Message) : Flat :=
  ⟨vol.sb, vol.inodes.map (Inode.file? (vol.content g)), printed⟩

def View.flat (g : Geometry) (v : View) : Flat := v.vol.flat g (v.out.map seen)

variable {g : Geometry} {vol vol' : Volume} {v : View} {w : World} {i : ℕ} {x x' : Inode}
variable {name : List UInt8} {printed : List Message}

theorem file?_live {content : Inode → List UInt8} (hx : x.isUsed = 1) :
    x.file? content = some (x.file (content x)) := if_pos hx

theorem file?_free (content : Inode → List UInt8) (hx : x.isUsed = 0) :
    x.file? content = none := by
  rw [Inode.file?, hx]
  rfl

theorem Represents.flat_eq (h : Represents g w v) (hv : Steady g v) : w.flat = v.flat g := by
  ext1
  · exact h.sb
  · change w.inodes.map _ = v.vol.inodes.map _
    rw [h.inodes_eq hv.faults]
    refine List.map_congr_left fun x hx => ?_
    obtain ⟨i, hi⟩ := List.mem_iff_getElem?.mp hx
    simp only [Inode.file?]
    split_ifs with hlive
    · rw [h.content_eq hv.sound hi hlive]
    · rfl
  · change w.out.map seen = v.out.map seen
    rw [h.out]

/-! ## Looking up -/

theorem file?_matches (content : Inode → List UInt8) :
    ((fun f : Option File => f.any (·.name = name)) ∘ Inode.file? content) = matchesName name := by
  funext x
  by_cases hx : x.isUsed = 1
  · simp [Inode.file?, matchesName, hx, Inode.file]
  · simp [Inode.file?, matchesName, hx]

theorem file?_isNone (content : Inode → List UInt8) :
    (Option.isNone ∘ Inode.file? content) = fun x => decide (x.isUsed ≠ 1) := by
  funext x
  by_cases hx : x.isUsed = 1 <;> simp [Inode.file?, hx]

theorem FoundAt.find (h : FoundAt vol name i x) :
    (vol.flat g printed).find name = some (i, x.file (vol.content g x)) := by
  obtain ⟨hlt, hx⟩ := List.getElem?_eq_some_iff.mp h.slot
  have hidx : vol.inodes.findIdx? (matchesName name) = some i := by
    rw [List.findIdx?_eq_some_iff_getElem]
    refine ⟨hlt, ?_, fun j hj => ?_⟩
    · simp [hx, matchesName, h.live, h.shown]
    · rw [h.before j _ hj (List.getElem?_eq_getElem _)]
      exact Bool.false_ne_true
  simp [Flat.find, Volume.flat, List.findIdx?_map, file?_matches, hidx, h.slot, file?_live h.live]

theorem find_none (h : vol.lookup name = none) : (vol.flat g printed).find name = none := by
  have hidx : vol.inodes.findIdx? (matchesName name) = none := by
    rw [List.findIdx?_eq_none_iff]
    intro x hx
    simpa using List.find?_eq_none.mp h x hx
  simp [Flat.find, Volume.flat, List.findIdx?_map, file?_matches, hidx]

theorem find_isSome : ((vol.flat g printed).find name).isSome = (vol.lookup name).isSome := by
  cases hlook : vol.lookup name with
  | none => rw [find_none hlook]; rfl
  | some x =>
    obtain ⟨i, hat⟩ := exists_foundAt hlook
    rw [hat.find]
    rfl

theorem FirstFree.freeSlot (hs : Sound g vol) (h : FirstFree vol i x) :
    (vol.flat g printed).freeSlot = some i := by
  obtain ⟨hlt, hx⟩ := List.getElem?_eq_some_iff.mp h.slot
  rw [Flat.freeSlot, Volume.flat, List.findIdx?_map, file?_isNone,
    List.findIdx?_eq_some_iff_getElem]
  refine ⟨hlt, ?_, fun j hj => ?_⟩
  · simp [hx, h.free]
  · have hy := List.getElem?_eq_getElem (hj.trans hlt)
    have hlive := (hs.isUsed_cases hy).resolve_left (h.before j _ hj hy)
    simp [hlive]

theorem freeSlot_none (hs : Sound g vol) (h : vol.sb.freeInodes = 0) :
    (vol.flat g printed).freeSlot = none := by
  have hcount : vol.inodes.countP (·.isUsed = 0) = 0 := by rw [← hs.free_inodes, h]; rfl
  rw [Flat.freeSlot, Volume.flat, List.findIdx?_map, file?_isNone, List.findIdx?_eq_none_iff]
  intro x hx
  have hused := List.countP_eq_zero.mp hcount x hx
  have hlive := (hs.flags x hx).resolve_left (by simpa using hused)
  simp [hlive]

/-! ## Sizes and blocks -/

theorem Sound.flat_blocks (hs : Sound g vol) (len : ℕ) :
    (vol.flat g printed).blocks len = pieces len g.blockSize := by
  rw [Flat.blocks, Volume.flat, hs.layout.blockSize]

theorem Sound.flat_blocksNeeded (hs : Sound g vol) (len : ℕ) :
    (vol.flat g printed).blocksNeeded len = blocksNeeded g len := by
  rw [Flat.blocksNeeded, hs.flat_blocks, blocksNeeded]

theorem Sound.length_content (hs : Sound g vol) (hi : vol.inodes[i]? = some x)
    (hx : x.isUsed = 1) : (vol.content g x).length = x.size.toNat :=
  (hs.readable hi hx).length_content

theorem Sound.file_size (hs : Sound g vol) (hi : vol.inodes[i]? = some x) (hx : x.isUsed = 1) :
    (x.file (vol.content g x)).size = x.size := by
  rw [File.size, Inode.file, hs.length_content hi hx, UInt32.ofNat_toNat]

theorem Sound.content_eq_nil (hs : Sound g vol) (hi : vol.inodes[i]? = some x)
    (hx : x.isUsed = 1) : vol.content g x = [] ↔ x.size = 0 := by
  rw [← List.length_eq_zero_iff, hs.length_content hi hx, ← UInt32.toNat_inj, UInt32.toNat_zero]

/-! ## Edits -/

theorem Edit.flat {held : List ℕ} (hs : Sound g vol) (h : Edit g vol i x x' held vol')
    (printed : List Message) : vol'.flat g printed = ⟨vol'.sb,
      (vol.inodes.map (Inode.file? (vol.content g))).set i (x'.file? (vol'.content g)), printed⟩ := by
  ext1
  · rfl
  · apply List.ext_getElem?
    intro j
    change (vol'.inodes.map _)[j]? = _
    rcases eq_or_ne j i with rfl | hj
    · have hlt := (List.getElem?_eq_some_iff.mp h.slot).1
      rw [List.getElem?_map, h.slot_self, List.getElem?_set_self (by rwa [List.length_map])]
      rfl
    · rw [List.getElem?_map, h.slot_other hj, List.getElem?_set_ne hj.symm, List.getElem?_map]
      cases hy : vol.inodes[j]? with
      | none => rfl
      | some y =>
        simp only [Option.map_some, Inode.file?]
        split_ifs with hlive
        · rw [hs.content_other h hj hy hlive]
        · rfl
  · rfl

/-- An edit that leaves a live inode with this content. -/
theorem Edit.flat_file {held : List ℕ} (hs : Sound g vol) (h : Edit g vol i x x' held vol')
    (hlive : x'.isUsed = 1) {content : List UInt8} (hcontent : vol'.content g x' = content) :
    vol'.flat g printed = ⟨vol'.sb,
      (vol.inodes.map (Inode.file? (vol.content g))).set i (some (x'.file content)), printed⟩ := by
  rw [Edit.flat hs h, file?_live hlive, hcontent]

theorem content_congr (vol : Volume) (x : Inode) (hsize : x'.size = x.size)
    (hblocks : x'.directBlocks = x.directBlocks) (hdata : vol'.data = vol.data) :
    vol'.content g x' = vol.content g x := by
  simp only [Volume.content, blocksOf, hsize, hblocks, hdata]

theorem file_newInode (now : UInt64) (i : ℕ) (name : CStr) (mode : UInt16) :
    (newInode now i name mode).file [] = .new now name mode := by
  have hname : (newInode now i name mode).shownName = name.bytes.take 31 :=
    takeWhile_strncpy_take (by simp [Inode.fresh, Inode.zero]) name
  rw [Inode.file, hname]
  rfl

theorem file_storedInode (now : UInt64) (x : Inode) (d : Vector UInt32 16) (len : UInt32)
    (old content : List UInt8) : (storedInode now x d len).file content =
      { x.file old with content := content, modifiedAt := now } := rfl

theorem file_renamed (hend : x.name[31] = 0) {newName : CStr}
    (hlen : newName.strlen < maxFilenameLen) (now : UInt64) (content : List UInt8) :
    ({ x with name := Inode.strncpy x.name newName, modifiedAt := now } : Inode).file content =
      { x.file content with name := newName.bytes, modifiedAt := now } := by
  have hname : ({ x with name := Inode.strncpy x.name newName, modifiedAt := now } :
      Inode).shownName = newName.bytes := shownName_strncpy hend hlen rfl
  rw [Inode.file, hname]
  rfl

end MiniFs.Image
