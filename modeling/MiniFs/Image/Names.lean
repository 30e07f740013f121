import MiniFs.Image.Observe
import MiniFs.Library.Keyed
import Mathlib.Data.List.TakeWhile

/-! # File names on a volume

A stored name is the argument if it is shorter than the field, and a name the
field cannot hold is never found. As long as no such name is stored, names stay
unique and a look-up finds what was just named.
-/

set_option autoImplicit false

namespace MiniFs.Image
open MiniFs.Core Library Library.Exec Library.Chunks

theorem shownName_length_lt {x : Inode} (h : x.name[31] = 0) :
    x.shownName.length < maxFilenameLen := by
  have hprefix : x.shownName <+: x.name.toList := List.takeWhile_prefix _
  have hfield : x.name.toList.length = maxFilenameLen := Vector.length_toList
  have hle := hprefix.length_le
  by_contra hge
  have hfull : x.shownName = x.name.toList := hprefix.eq_of_length (by omega)
  have hlast : 31 < x.name.toList.length := by rw [hfield]; decide
  have hmem : (0 : UInt8) ∈ x.shownName := by
    rw [hfull, ← h, ← Vector.getElem_toList]
    exact List.getElem_mem hlast
  simpa using List.mem_takeWhile_imp hmem

theorem getElem_strncpy (dst : Vector UInt8 maxFilenameLen) (src : CStr) {i : ℕ} (hi : i < 32) :
    (Inode.strncpy dst src)[i] = if i < 31 then src.bytes.getD i 0 else dst[i] := by
  simp [Inode.strncpy]

theorem toList_strncpy {dst : Vector UInt8 maxFilenameLen} (hend : dst[31] = 0) {name : CStr}
    (hlen : name.bytes.length < 32) :
    (Inode.strncpy dst name).toList =
      name.bytes ++ List.replicate (32 - name.bytes.length) 0 := by
  have hfield : (Inode.strncpy dst name).toList.length = 32 := Vector.length_toList
  apply List.ext_getElem
  · rw [hfield, List.length_append, List.length_replicate]
    omega
  · intro i hi _
    rw [hfield] at hi
    rw [Vector.getElem_toList, getElem_strncpy dst name hi, List.getElem_append]
    split_ifs with h31 hin hin
    · rw [List.getD_eq_getElem _ _ hin]
    · rw [List.getElem_replicate, List.getD_eq_default _ _ (not_lt.mp hin)]
    · omega
    · obtain rfl : i = 31 := by omega
      rw [List.getElem_replicate]
      exact hend

/-- A copied name is read back whole, whatever longer name stood there before. -/
theorem takeWhile_strncpy {dst : Vector UInt8 maxFilenameLen} (hend : dst[31] = 0) {name : CStr}
    (hlen : name.strlen < maxFilenameLen) :
    (Inode.strncpy dst name).toList.takeWhile (· ≠ 0) = name.bytes := by
  have hpos : ∀ b ∈ name.bytes, decide (b ≠ 0) = true := by
    intro b hb
    rw [decide_eq_true_eq]
    rintro rfl
    exact name.noNul hb
  have hlen' : name.bytes.length < 32 := hlen
  obtain ⟨k, hk⟩ : ∃ k, 32 - name.bytes.length = k + 1 := ⟨31 - name.bytes.length, by omega⟩
  rw [toList_strncpy hend hlen', List.takeWhile_append_of_pos hpos, hk, List.replicate_succ,
    List.takeWhile_cons_of_neg (by decide), List.append_nil]

theorem shownName_strncpy {x : Inode} {dst : Vector UInt8 maxFilenameLen} (hend : dst[31] = 0)
    {name : CStr} (hlen : name.strlen < maxFilenameLen) (hx : x.name = Inode.strncpy dst name) :
    x.shownName = name.bytes := by
  rw [Inode.shownName, hx]
  exact takeWhile_strncpy hend hlen

def NamesUnique (vol : Volume) : Prop :=
  ∀ (i j : ℕ) (x y : Inode), vol.inodes[i]? = some x → x.isUsed = 1 → vol.inodes[j]? = some y →
    y.isUsed = 1 → x.shownName = y.shownName → i = j

variable {g : Geometry} {vol vol' : Volume} {i : ℕ} {x x' : Inode} {held : List ℕ}

/-- A name the field cannot hold is not found. -/
theorem Sound.lookup_long (hs : Sound g vol) {name : CStr} (hlen : maxFilenameLen ≤ name.strlen) :
    vol.lookup name.bytes = none := by
  cases hl : vol.lookup name.bytes with
  | none => rfl
  | some x =>
    obtain ⟨hlive, hname, i, hi, -⟩ := lookup_eq_some hl
    have hlt := shownName_length_lt (hs.live i x hi hlive).name_end
    rw [hname] at hlt
    exact absurd hlt (not_lt.mpr hlen)

def nameKey (x : Inode) : Option (List UInt8) := if x.isUsed = 1 then some x.shownName else none

theorem nameKey_eq_some_iff {name : List UInt8} :
    nameKey x = some name ↔ x.isUsed = 1 ∧ x.shownName = name := by
  simp [nameKey]

theorem nameKey_free (hx : x.isUsed = 0) : nameKey x = none := if_neg (by rw [hx]; decide)

theorem lookup_eq_keyed (vol : Volume) : vol.lookup = Keyed.lookup nameKey vol.inodes := by
  funext name
  rw [Volume.lookup, Keyed.lookup]
  congr 1
  funext x
  simp only [matchesName, nameKey_eq_some_iff]

theorem namesUnique_iff : NamesUnique vol ↔ Keyed.Unique nameKey vol.inodes := by
  simp only [NamesUnique, Keyed.Unique, nameKey_eq_some_iff]
  constructor
  · intro hu i j x y name hi hj hx hy
    exact hu i j x y hi hx.1 hj hy.1 (hx.2.trans hy.2.symm)
  · intro hu i j x y hi hx hj hy heq
    exact hu i j x y x.shownName hi hj ⟨hx, rfl⟩ ⟨hy, heq.symm⟩

namespace NamesUnique

/-- A look-up finds the one inode with the name. -/
theorem lookup (hu : NamesUnique vol) (hi : vol.inodes[i]? = some x) (hx : x.isUsed = 1)
    {name : List UInt8} (hname : x.shownName = name) : vol.lookup name = some x := by
  rw [lookup_eq_keyed, (namesUnique_iff.mp hu).lookup_eq_some_iff, nameKey_eq_some_iff]
  exact ⟨List.mem_of_getElem? hi, hx, hname⟩

/-- An edit keeps names unique if it keeps the name of its slot or gives a new one. -/
theorem edit (hu : NamesUnique vol) (h : Edit g vol i x x' held vol')
    (hname : x'.isUsed = 1 → x.isUsed = 1 ∧ x'.shownName = x.shownName ∨
      vol.lookup x'.shownName = none) : NamesUnique vol' := by
  rw [namesUnique_iff, h.inodes]
  apply (namesUnique_iff.mp hu).set h.slot
  intro name hx'
  rw [nameKey_eq_some_iff] at hx'
  obtain ⟨hlive, rfl⟩ := hx'
  rw [← lookup_eq_keyed, nameKey_eq_some_iff]
  exact (hname hlive).imp (fun hold => ⟨hold.1, hold.2.symm⟩) id

theorem name (hu : NamesUnique vol) (h : Edit g vol i x x' held vol') (hlive : x'.isUsed = 1)
    {name : List UInt8} (hname : x'.shownName = name) (hnew : vol.lookup name = none) :
    NamesUnique vol' ∧ vol'.lookup name = some x' := by
  have hu' : NamesUnique vol' := hu.edit h fun _ => .inr (hname ▸ hnew)
  exact ⟨hu', hu'.lookup h.slot_self hlive hname⟩

end NamesUnique

/-! ## The names the operations give -/

def givenName : FileOp → Option CStr
  | .create name | .rename _ name | .copy _ name => some name
  | _ => none

/-- The slot that gets the name: a free one, or the one of the old name. -/
def NamedSlot (vol : Volume) (i : ℕ) : FileOp → Prop
  | .rename oldName _ => ∃ x, vol.lookup oldName.bytes = some x ∧ vol.inodes[i]? = some x
  | _ => ∃ x, vol.inodes[i]? = some x ∧ x.isUsed = 0

theorem shownName_newInode {name : CStr} (hlen : name.strlen < maxFilenameLen) (now : UInt64)
    (i : ℕ) (mode : UInt16) : (newInode now i name mode).shownName = name.bytes := by
  have hend : Inode.zero.name[31] = 0 := by decide
  exact shownName_strncpy hend hlen rfl

/-- Given names that fit the field, an accepted operation keeps names unique, and the name it
gives leads to the inode it is given to. -/
theorem Accepted.names (hs : Sound g vol) (hu : NamesUnique vol) {now : UInt64} {op : FileOp}
    (hfit : Fits g vol op) (hlen : ∀ name, givenName op = some name → name.strlen < maxFilenameLen)
    {msgs : List Message} (h : Accepted g now op vol vol' msgs) :
    NamesUnique vol' ∧ ∀ name, givenName op = some name → ∃ i y, NamedSlot vol i op ∧
      vol'.inodes[i]? = some y ∧ y.isUsed = 1 ∧ vol'.lookup name.bytes = some y := by
  cases h with
  | @create _ name i _ _ hnew hslot =>
    have hedit := claim_edit hs hslot.slot hslot.free now name (fsIfreg ||| fsDefaultMode)
    have hnamed := hu.name hedit rfl (shownName_newInode (hlen name rfl) now i _) hnew
    refine ⟨hnamed.1, fun n hn => ?_⟩
    obtain rfl := Option.some.inj hn
    exact ⟨i, _, ⟨_, hslot.slot, hslot.free⟩, hedit.slot_self, rfl, hnamed.2⟩
  | @rename _ oldName newName i x _ hat hnew =>
    have hedit := rename_edit hs hat.slot hat.live now newName
    have hend := (hs.live i x hat.slot hat.live).name_end
    have hnamed := hu.name hedit hat.live (shownName_strncpy hend (hlen newName rfl) rfl) hnew
    refine ⟨hnamed.1, fun n hn => ?_⟩
    obtain rfl := Option.some.inj hn
    exact ⟨i, _, ⟨x, hat.lookup, hat.slot⟩, hedit.slot_self, hat.live, hnamed.2⟩
  | @copyEmpty _ src dst i _ _ y hat hnew hslot hsize =>
    have hedit := claim_edit hs hslot.slot hslot.free now dst y.mode
    have hnamed := hu.name hedit rfl (shownName_newInode (hlen dst rfl) now i _) hnew
    refine ⟨hnamed.1, fun n hn => ?_⟩
    obtain rfl := Option.some.inj hn
    exact ⟨i, _, ⟨_, hslot.slot, hslot.free⟩, hedit.slot_self, rfl, hnamed.2⟩
  | @copy _ _ src dst i _ _ y _ d hat hnew hslot hsize hst =>
    have hedit := copy_edit hs hslot.slot hslot.free hst
      (hs.readable hat.slot hat.live).length_content
    have hnamed := hu.name hedit rfl (shownName_newInode (hlen dst rfl) now i y.mode) hnew
    refine ⟨hnamed.1, fun n hn => ?_⟩
    obtain rfl := Option.some.inj hn
    exact ⟨i, _, ⟨_, hslot.slot, hslot.free⟩, hedit.slot_self, rfl, hnamed.2⟩
  | @write _ _ name data _ _ _ _ hat hst =>
    have hedit := write_edit hs hat.slot hat.live hst (length_toNat_ofNat (hfit data.strlen rfl)) now
    exact ⟨hu.edit hedit fun _ => .inl ⟨hat.live, rfl⟩, fun n hn => by cases hn⟩
  | @append _ _ name data _ x _ _ hat hst =>
    have hstored : storedLength vol (.append name data) = some (x.size.toNat + data.strlen) := by
      rw [storedLength, hat.lookup, Option.map_some]
    have hedit := write_edit hs hat.slot hat.live hst
      (length_append (hs.readable hat.slot hat.live) (hfit _ hstored)).1 now
    exact ⟨hu.edit hedit fun _ => .inl ⟨hat.live, rfl⟩, fun n hn => by cases hn⟩
  | read hat =>
    have hedit := read_edit hs hat.slot hat.live now
    exact ⟨hu.edit hedit fun _ => .inl ⟨hat.live, rfl⟩, fun n hn => by cases hn⟩
  | truncate hat hle =>
    have hedit := truncate_edit hs hat.slot hat.live hle now
    exact ⟨hu.edit hedit fun _ => .inl ⟨hat.live, rfl⟩, fun n hn => by cases hn⟩
  | @chmod _ name mode _ x hat =>
    have hedit := chmod_edit hs hat.slot hat.live now ((x.mode &&& 0xF000) ||| (mode &&& 0x0FFF))
    exact ⟨hu.edit hedit fun _ => .inl ⟨hat.live, rfl⟩, fun n hn => by cases hn⟩
  | delete hat =>
    have hedit := delete_edit hs hat.slot hat.live
    have hfree : (0 : UInt8) ≠ 1 := by decide
    exact ⟨hu.edit hedit fun h => absurd h hfree, fun n hn => by cases hn⟩

theorem Rejected.names (hs : Sound g vol) (hu : NamesUnique vol) {op : FileOp} {msg : Message}
    (h : Rejected g op vol vol' msg) : NamesUnique vol' := by
  rcases h.cases with rfl | ⟨i, x, hslot, rfl⟩
  · exact hu
  · have hedit : Edit g vol i x { Inode.fresh i with isUsed := 0 } []
        (vol.setInode i { Inode.fresh i with isUsed := 0 }) :=
      free_edit hs hslot.slot hslot.free rfl
    have hfree : (0 : UInt8) ≠ 1 := by decide
    exact hu.edit hedit fun h => absurd h hfree

end MiniFs.Image
