import MiniFs.Image.Content

/-! # What a file operation does to a volume

Every operation either is accepted and changes the volume in one of ten ways, or
is rejected for one of the reasons listed. The operations of the core run
accordingly on every sound volume.
-/

set_option autoImplicit false

namespace MiniFs.Image
open MiniFs.Core Library Library.Exec Library.ByteRange Library.Chunks Library.Ownership

/-- A look-up of `name` stops at the live inode `x` in slot `i`. -/
structure FoundAt (vol : Volume) (name : List UInt8) (i : ℕ) (x : Inode) : Prop where
  lookup : vol.lookup name = some x
  slot : vol.inodes[i]? = some x
  live : x.isUsed = 1
  shown : x.shownName = name
  before : ∀ (j : ℕ) (y : Inode), j < i → vol.inodes[j]? = some y → matchesName name y = false

theorem exists_foundAt {vol : Volume} {name : List UInt8} {x : Inode}
    (h : vol.lookup name = some x) : ∃ i, FoundAt vol name i x := by
  obtain ⟨hlive, hname, i, hi, hbefore⟩ := lookup_eq_some h
  exact ⟨i, h, hi, hlive, hname, hbefore⟩

def newInode (now : UInt64) (i : ℕ) (name : CStr) (mode : UInt16) : Inode :=
  { Inode.fresh i with
    name := Inode.strncpy (Inode.fresh i).name name
    mode := mode
    linkCount := 1
    createdAt := now
    modifiedAt := now
    accessedAt := now }

theorem blocksOf_newInode (g : Geometry) (now : UInt64) (i : ℕ) (name : CStr) (mode : UInt16) :
    blocksOf g (newInode now i name mode) = [] := by
  rw [blocksOf_eq]
  change blockRange _ 0 (pieces 0 g.blockSize) = []
  rw [pieces_zero g.blockSize_pos, blockRange, slice, List.take_zero, List.map_nil]

def storedInode (now : UInt64) (x : Inode) (d : Vector UInt32 16) (len : UInt32) : Inode :=
  { x with directBlocks := d, size := len, modifiedAt := now }

/-- `disk_write(0, &sb)` as far as the volume shows it. -/
def Volume.save (vol : Volume) : Volume := { vol with saved := vol.sb }

def droppedBlocks (g : Geometry) (x : Inode) (newSize : UInt32) : List ℕ :=
  blockRange x (pieces newSize.toNat g.blockSize)
    (pieces x.size.toNat g.blockSize - pieces newSize.toNat g.blockSize)

theorem kept_append_dropped {g : Geometry} {x : Inode} {newSize : UInt32} (hle : newSize ≤ x.size)
    (now : UInt64) : blocksOf g { x with size := newSize, modifiedAt := now } ++
      droppedBlocks g x newSize = blocksOf g x := by
  have hpieces := pieces_mono g.blockSize_pos (UInt32.le_iff_toNat_le.mp hle)
  have h := slice_append_slice 0 (pieces newSize.toNat g.blockSize)
    (pieces x.size.toNat g.blockSize - pieces newSize.toNat g.blockSize) x.directBlocks.toList
  rw [Nat.zero_add, Nat.add_sub_cancel' hpieces] at h
  rw [blocksOf_eq, blocksOf_eq, droppedBlocks, blockRange, blockRange, blockRange,
    ← List.map_append, h]

/-- The changes of a volume by the operations that return 0. -/
inductive Accepted (g : Geometry) (now : UInt64) :
    FileOp → Volume → Volume → List Message → Prop
  | create {vol : Volume} {name : CStr} {i : ℕ} {x : Inode} (hlen : name.strlen < maxFilenameLen)
      (hnew : vol.lookup name.bytes = none) (hslot : FirstFree vol i x) :
      Accepted g now (.create name) vol
        (vol.claim i (newInode now i name (fsIfreg ||| fsDefaultMode))).save
        [.created name.bytes (UInt32.ofNat i) (fsIfreg ||| fsDefaultMode)]
  | write {vol vol1 : Volume} {name data : CStr} {i : ℕ} {x : Inode} {held : List ℕ}
      {d : Vector UInt32 16} (hat : FoundAt vol name.bytes i x)
      (hst : Stored g vol x data.bytes held d vol1) :
      Accepted g now (.write name data) vol
        (vol1.setInode i (storedInode now x d (UInt32.ofNat data.strlen))).save
        [.wrote (UInt32.ofNat data.strlen) name.bytes]
  | append {vol vol1 : Volume} {name data : CStr} {i : ℕ} {x : Inode} {held : List ℕ}
      {d : Vector UInt32 16} (hat : FoundAt vol name.bytes i x)
      (hst : Stored g vol x (vol.content g x ++ data.bytes) held d vol1) :
      Accepted g now (.append name data) vol
        (vol1.setInode i (storedInode now x d (x.size + UInt32.ofNat data.strlen))).save
        [.appended (UInt32.ofNat data.strlen) name.bytes (x.size + UInt32.ofNat data.strlen)]
  | read {vol : Volume} {name : CStr} {i : ℕ} {x : Inode} (hat : FoundAt vol name.bytes i x) :
      Accepted g now (.read name) vol
        ((vol.setInode i { x with accessedAt := now }).setSb fun sb => { sb with
          totalReads := sb.totalReads + 1, bytesRead := sb.bytesRead + x.size.toUInt64 }).save
        (if x.size = 0 then [.emptyFile] else [.content (vol.content g x), .newline])
  | rename {vol : Volume} {oldName newName : CStr} {i : ℕ} {x : Inode}
      (hlen : newName.strlen < maxFilenameLen) (hat : FoundAt vol oldName.bytes i x)
      (hnew : vol.lookup newName.bytes = none) :
      Accepted g now (.rename oldName newName) vol
        (vol.setInode i { x with name := Inode.strncpy x.name newName, modifiedAt := now })
        [.renamed oldName.bytes newName.bytes]
  | copyEmpty {vol : Volume} {src dst : CStr} {i k : ℕ} {x y : Inode}
      (hat : FoundAt vol src.bytes k y) (hnew : vol.lookup dst.bytes = none)
      (hslot : FirstFree vol i x) (hsize : y.size = 0) :
      Accepted g now (.copy src dst) vol (vol.claim i (newInode now i dst y.mode)).save
        [.copied src.bytes dst.bytes y.size (UInt32.ofNat i)]
  | copy {vol vol1 : Volume} {src dst : CStr} {i k : ℕ} {x y : Inode} {held : List ℕ}
      {d : Vector UInt32 16} (hat : FoundAt vol src.bytes k y) (hnew : vol.lookup dst.bytes = none)
      (hslot : FirstFree vol i x) (hsize : y.size ≠ 0)
      (hst : Stored g (vol.claim i (Inode.fresh i)) (newInode now i dst y.mode)
        (vol.content g y) held d vol1) :
      Accepted g now (.copy src dst) vol
        (vol1.setInode i (storedInode now (newInode now i dst y.mode) d y.size)).save
        [.copied src.bytes dst.bytes y.size (UInt32.ofNat i)]
  | truncate {vol : Volume} {name : CStr} {newSize : UInt32} {i : ℕ} {x : Inode}
      (hat : FoundAt vol name.bytes i x) (hle : newSize ≤ x.size) :
      Accepted g now (.truncate name newSize) vol
        ((vol.releaseAll (droppedBlocks g x newSize)).setInode i
          { x with size := newSize, modifiedAt := now }).save
        [.truncated name.bytes newSize]
  | chmod {vol : Volume} {name : CStr} {mode : UInt16} {i : ℕ} {x : Inode}
      (hat : FoundAt vol name.bytes i x) :
      Accepted g now (.chmod name mode) vol
        (vol.setInode i { x with
          mode := (x.mode &&& 0xF000) ||| (mode &&& 0x0FFF), modifiedAt := now })
        [.changedMode name.bytes (mode &&& 0x0FFF)
          (modeToStr ((x.mode &&& 0xF000) ||| (mode &&& 0x0FFF)))]
  | delete {vol : Volume} {name : CStr} {i : ℕ} {x : Inode} (hat : FoundAt vol name.bytes i x) :
      Accepted g now (.delete name) vol
        ((vol.releaseAll (blocksOf g x)).unclaim i x).save
        [.deleted name.bytes (UInt32.ofNat (blocksOf g x).length)]

/-- The file an operation must find, and what it prints if there is none. -/
def subject : FileOp → Option (CStr × Message)
  | .create _ => none
  | .write name _ | .append name _ | .read name | .truncate name _ | .chmod name _
  | .delete name | .rename name _ => some (name, .fileNotFound name.bytes)
  | .copy src _ => some (src, .sourceNotFound src.bytes)

/-- What `_do_write` says about data that needs too many blocks. -/
def tooLarge (sb : Superblock) : Message :=
  .fileTooLarge maxDirectBlocks sb.blockSize (maxDirectBlocks * sb.blockSize)

/-- What `_do_write` says if there are too few free blocks. -/
def noRoom (g : Geometry) (sb : Superblock) (len : ℕ) : Message :=
  .diskFull (UInt32.ofNat (blocksNeeded g len)) sb.freeBlocks

/-- The reasons for which an operation returns -1. Only a copy that meets a full disk leaves
a trace, in a slot that stays free. -/
inductive Rejected (g : Geometry) : FileOp → Volume → Volume → Message → Prop
  | notFound {vol : Volume} {op : FileOp} {name : CStr} {msg : Message}
      (hsub : subject op = some (name, msg)) (hnone : vol.lookup name.bytes = none) :
      Rejected g op vol vol msg
  | createLong {vol : Volume} {name : CStr} (hlen : maxFilenameLen ≤ name.strlen) :
      Rejected g (.create name) vol vol (.filenameTooLong (maxFilenameLen - 1))
  | createExists {vol : Volume} {name : CStr} (hlen : name.strlen < maxFilenameLen)
      (hex : (vol.lookup name.bytes).isSome) :
      Rejected g (.create name) vol vol (.fileExists name.bytes)
  | createNoInode {vol : Volume} {name : CStr} (hlen : name.strlen < maxFilenameLen)
      (hnew : vol.lookup name.bytes = none) (hno : vol.sb.freeInodes = 0) :
      Rejected g (.create name) vol vol .noFreeInodesAvailable
  | writeTooLarge {vol : Volume} {name data : CStr} {i : ℕ} {x : Inode}
      (hat : FoundAt vol name.bytes i x) (hlarge : 16 < blocksNeeded g data.strlen) :
      Rejected g (.write name data) vol vol (tooLarge vol.sb)
  | writeFull {vol : Volume} {name data : CStr} {i : ℕ} {x : Inode}
      (hat : FoundAt vol name.bytes i x) (hle : blocksNeeded g data.strlen ≤ 16)
      (hfull : vol.sb.freeBlocks.toNat < blocksNeeded g data.strlen) :
      Rejected g (.write name data) vol vol (noRoom g vol.sb data.strlen)
  | appendTooLarge {vol : Volume} {name data : CStr} {i : ℕ} {x : Inode}
      (hat : FoundAt vol name.bytes i x)
      (hlarge : 16 < blocksNeeded g (x.size.toNat + data.strlen)) :
      Rejected g (.append name data) vol vol (tooLarge vol.sb)
  | appendFull {vol : Volume} {name data : CStr} {i : ℕ} {x : Inode}
      (hat : FoundAt vol name.bytes i x)
      (hle : blocksNeeded g (x.size.toNat + data.strlen) ≤ 16)
      (hfull : vol.sb.freeBlocks.toNat < blocksNeeded g (x.size.toNat + data.strlen)) :
      Rejected g (.append name data) vol vol (noRoom g vol.sb (x.size.toNat + data.strlen))
  | renameLong {vol : Volume} {oldName newName : CStr} (hlen : maxFilenameLen ≤ newName.strlen) :
      Rejected g (.rename oldName newName) vol vol .newNameTooLong
  | renameExists {vol : Volume} {oldName newName : CStr} {i : ℕ} {x : Inode}
      (hlen : newName.strlen < maxFilenameLen) (hat : FoundAt vol oldName.bytes i x)
      (hex : (vol.lookup newName.bytes).isSome) :
      Rejected g (.rename oldName newName) vol vol (.fileExists newName.bytes)
  | copyExists {vol : Volume} {src dst : CStr} {k : ℕ} {y : Inode}
      (hat : FoundAt vol src.bytes k y) (hex : (vol.lookup dst.bytes).isSome) :
      Rejected g (.copy src dst) vol vol (.destinationExists dst.bytes)
  | copyNoInode {vol : Volume} {src dst : CStr} {k : ℕ} {y : Inode}
      (hat : FoundAt vol src.bytes k y) (hnew : vol.lookup dst.bytes = none)
      (hno : vol.sb.freeInodes = 0) :
      Rejected g (.copy src dst) vol vol .noFreeInodes
  | copyFull {vol : Volume} {src dst : CStr} {i k : ℕ} {x y : Inode}
      (hat : FoundAt vol src.bytes k y) (hnew : vol.lookup dst.bytes = none)
      (hslot : FirstFree vol i x) (hsize : y.size ≠ 0)
      (hfull : vol.sb.freeBlocks.toNat < blocksNeeded g y.size.toNat) :
      Rejected g (.copy src dst) vol (vol.setInode i { Inode.fresh i with isUsed := 0 })
        (noRoom g vol.sb y.size.toNat)
  | truncateLonger {vol : Volume} {name : CStr} {newSize : UInt32} {i : ℕ} {x : Inode}
      (hat : FoundAt vol name.bytes i x) (hlt : x.size < newSize) :
      Rejected g (.truncate name newSize) vol vol (.cannotExtend newSize x.size)

/-- The length of the content a write or an append is to store. -/
def storedLength (vol : Volume) : FileOp → Option ℕ
  | .write _ data => some data.strlen
  | .append name data => (vol.lookup name.bytes).map fun x => x.size.toNat + data.strlen
  | _ => none

/-- Stored lengths stay clear of the end of 32 bits. -/
def Fits (g : Geometry) (vol : Volume) (op : FileOp) : Prop :=
  ∀ n, storedLength vol op = some n → n + g.blockSize ≤ 2 ^ 32

structure Advance (v : View) (vol' : Volume) (msgs : List Message) (v' : View) : Prop where
  vol : v'.vol = vol'
  out : v'.out = v.out ++ msgs
  faults : v'.faults = v.faults
  stamped : v.stamped = true → v'.stamped = true

inductive Outcome (g : Geometry) (now : UInt64) (op : FileOp) (v : View) : Int → View → Prop
  | accepted {vol' : Volume} {msgs : List Message} {v' : View}
      (hstep : Accepted g now op v.vol vol' msgs) (hadv : Advance v vol' msgs v') :
      Outcome g now op v 0 v'
  | rejected {vol' : Volume} {msg : Message} {v' : View}
      (hstep : Rejected g op v.vol vol' msg) (hadv : Advance v vol' [msg] v') :
      Outcome g now op v (-1) v'

end MiniFs.Image
