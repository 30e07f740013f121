import MiniFs.Image.Edit

/-! # Which calls return 0

The answer of a call is a matter of the names, the sizes and the free counters before it.
-/

set_option autoImplicit false

namespace MiniFs.Image
open MiniFs.Core Library Library.Exec Library.Chunks

variable {g : Geometry} {vol vol' : Volume} {v v' : View} {now : UInt64} {op : FileOp}

/-- There are as many free blocks as a content of `len` bytes takes, and pointers for them. -/
def HasRoom (g : Geometry) (sb : Superblock) (len : ℕ) : Prop :=
  blocksNeeded g len ≤ 16 ∧ blocksNeeded g len ≤ sb.freeBlocks.toNat

def Admits (g : Geometry) (vol : Volume) : FileOp → Prop
  | .create name =>
    name.strlen < maxFilenameLen ∧ vol.lookup name.bytes = none ∧ vol.sb.freeInodes ≠ 0
  | .write name data => ∃ x, vol.lookup name.bytes = some x ∧ HasRoom g vol.sb data.strlen
  | .append name data => ∃ x, vol.lookup name.bytes = some x ∧
    HasRoom g vol.sb (x.size.toNat + data.strlen)
  | .read name | .chmod name _ | .delete name => ∃ x, vol.lookup name.bytes = some x
  | .rename oldName newName => newName.strlen < maxFilenameLen ∧
    (∃ x, vol.lookup oldName.bytes = some x) ∧ vol.lookup newName.bytes = none
  | .copy src dst => ∃ y, vol.lookup src.bytes = some y ∧ vol.lookup dst.bytes = none ∧
    vol.sb.freeInodes ≠ 0 ∧ (y.size ≠ 0 → HasRoom g vol.sb y.size.toNat)
  | .truncate name newSize => ∃ x, vol.lookup name.bytes = some x ∧ newSize ≤ x.size

theorem Stored.hasRoom {x : Inode} {data : List UInt8} {held : List ℕ} {d : Vector UInt32 16}
    (h : Stored g vol x data held d vol') : HasRoom g vol.sb data.length :=
  ⟨h.length ▸ h.le16, h.length ▸ h.room⟩

theorem Accepted.admits (hs : Sound g vol) (hfit : Fits g vol op) {msgs : List Message}
    (h : Accepted g now op vol vol' msgs) : Admits g vol op := by
  cases h with
  | create hlen hnew hslot => exact ⟨hlen, hnew, hslot.freeInodes_ne hs⟩
  | write hat hst => exact ⟨_, hat.lookup, hst.hasRoom⟩
  | @append _ _ name data i x _ d hat hst =>
    have hstored : storedLength vol (.append name data) = some (x.size.toNat + data.strlen) := by
      rw [storedLength, hat.lookup, Option.map_some]
    have hlen := (length_append (hs.readable hat.slot hat.live) (hfit _ hstored)).2
    exact ⟨x, hat.lookup, hlen ▸ hst.hasRoom⟩
  | read hat => exact ⟨_, hat.lookup⟩
  | rename hlen hat hnew => exact ⟨hlen, ⟨_, hat.lookup⟩, hnew⟩
  | copyEmpty hat hnew hslot hsize =>
    exact ⟨_, hat.lookup, hnew, hslot.freeInodes_ne hs, fun hne => absurd hsize hne⟩
  | @copy _ _ src dst i k x y _ d hat hnew hslot hsize hst =>
    have hlen := (hs.readable hat.slot hat.live).length_content
    exact ⟨y, hat.lookup, hnew, hslot.freeInodes_ne hs, fun _ => hlen ▸ hst.hasRoom⟩
  | truncate hat hle => exact ⟨_, hat.lookup, hle⟩
  | chmod hat => exact ⟨_, hat.lookup⟩
  | delete hat => exact ⟨_, hat.lookup⟩

theorem Admits.found (h : Admits g vol op) {name : CStr} {msg : Message}
    (hsub : subject op = some (name, msg)) : ∃ x, vol.lookup name.bytes = some x := by
  cases op with
  | create n => exact nomatch hsub
  | rename n m =>
    obtain ⟨rfl, -⟩ := returned_inj hsub
    exact h.2.1
  | read | chmod | delete =>
    obtain ⟨rfl, -⟩ := returned_inj hsub
    exact h
  | write | append | copy | truncate =>
    obtain ⟨rfl, -⟩ := returned_inj hsub
    exact Exists.imp (fun _ hx => hx.1) h

theorem Rejected.not_admits {msg : Message} (h : Rejected g op vol vol' msg) :
    ¬ Admits g vol op := by
  intro hadm
  cases h with
  | notFound hsub hnone =>
    obtain ⟨x, hx⟩ := hadm.found hsub
    exact nomatch hx.symm.trans hnone
  | createLong hlen => exact absurd hadm.1 (not_lt.mpr hlen)
  | createExists hlen hex =>
    rw [hadm.2.1] at hex
    cases hex
  | createNoInode hlen hnew hno => exact hadm.2.2 hno
  | writeTooLarge hat hlarge =>
    obtain ⟨x, -, hroom⟩ := hadm
    exact absurd hroom.1 (not_le.mpr hlarge)
  | writeFull hat hle hfull =>
    obtain ⟨x, -, hroom⟩ := hadm
    exact absurd hroom.2 (not_le.mpr hfull)
  | appendTooLarge hat hlarge =>
    obtain ⟨x, hx, hroom⟩ := hadm
    obtain rfl := Option.some.inj (hat.lookup.symm.trans hx)
    exact absurd hroom.1 (not_le.mpr hlarge)
  | appendFull hat hle hfull =>
    obtain ⟨x, hx, hroom⟩ := hadm
    obtain rfl := Option.some.inj (hat.lookup.symm.trans hx)
    exact absurd hroom.2 (not_le.mpr hfull)
  | renameLong hlen => exact absurd hadm.1 (not_lt.mpr hlen)
  | renameExists hlen hat hex =>
    rw [hadm.2.2] at hex
    cases hex
  | copyExists hat hex =>
    obtain ⟨y, -, hnew, -⟩ := hadm
    rw [hnew] at hex
    cases hex
  | copyNoInode hat hnew hno =>
    obtain ⟨y, -, -, hfree, -⟩ := hadm
    exact hfree hno
  | copyFull hat hnew hslot hsize hfull =>
    obtain ⟨y, hy, -, -, hroom⟩ := hadm
    obtain rfl := Option.some.inj (hat.lookup.symm.trans hy)
    exact absurd (hroom hsize).2 (not_le.mpr hfull)
  | truncateLonger hat hlt =>
    obtain ⟨x, hx, hle⟩ := hadm
    obtain rfl := Option.some.inj (hat.lookup.symm.trans hx)
    exact absurd hle (UInt32.not_le.mpr hlt)

theorem Outcome.admits_iff (hs : Sound g v.vol) (hfit : Fits g v.vol op) {r : Int}
    (h : Outcome g now op v r v') : r = 0 ↔ Admits g v.vol op := by
  cases h with
  | accepted hstep => exact iff_of_true rfl (hstep.admits hs hfit)
  | rejected hstep => exact iff_of_false (by decide) hstep.not_admits

end MiniFs.Image
