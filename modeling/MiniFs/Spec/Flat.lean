import MiniFs.Core.Admin
import MiniFs.Library.Chunks

/-! # The file system as its users see it

A table of files by inode number, each with its content, the parameters and counters
that `statfs` shows, and what has been printed. There are no blocks, no bitmap, no
inode table and no disk: a content takes as many blocks as its length says, and of
the blocks in use only their number is known.
-/

set_option autoImplicit false

namespace MiniFs.Spec
open MiniFs.Core Library.Chunks

structure File where
  name : List UInt8
  content : List UInt8
  mode : UInt16
  linkCount : UInt32
  createdAt : UInt64
  modifiedAt : UInt64
  accessedAt : UInt64
deriving DecidableEq, Repr

def File.size (f : File) : UInt32 := UInt32.ofNat f.content.length

def File.new (now : UInt64) (name : CStr) (mode : UInt16) : File :=
  ⟨name.bytes.take 31, [], mode, 1, now, now, now⟩

@[ext] structure Flat where
  sb : Superblock
  files : List (Option File)
  printed : List Message

/-- What a user can tell of a message: not where the blocks of a file lie. -/
def seen : Message → Message
  | .stat name id size blocks blockSize perm modeStr links createdAt modifiedAt accessedAt _ =>
    .stat name id size blocks blockSize perm modeStr links createdAt modifiedAt accessedAt []
  | msg => msg

namespace Flat
variable (fs : Flat)

def say (msgs : List Message) : Flat := { fs with printed := fs.printed ++ msgs }

def setSb (f : Superblock → Superblock) : Flat := { fs with sb := f fs.sb }

def setFile (i : ℕ) (f : Option File) : Flat := { fs with files := fs.files.set i f }

def fail (msg : Message) : Int × Flat := (-1, fs.say [msg])

def succeed (msgs : List Message) : Int × Flat := (0, fs.say msgs)

/-- The number and the file of a name, the one with the smallest number. -/
def find (name : List UInt8) : Option (ℕ × File) :=
  (fs.files.findIdx? fun f => f.any (·.name = name)).bind fun i =>
    (fs.files[i]?.join).map fun f => (i, f)

def freeSlot : Option ℕ := fs.files.findIdx? Option.isNone

def blocks (len : ℕ) : ℕ := pieces len fs.sb.blockSize.toNat

/-- The blocks that are asked for to store a content: one at least. -/
def blocksNeeded (len : ℕ) : ℕ := max 1 (fs.blocks len)

def store (now : UInt64) (i : ℕ) (f : File) (data : List UInt8) : Except Message Flat :=
  if 16 < fs.blocksNeeded data.length then
    .error (.fileTooLarge maxDirectBlocks fs.sb.blockSize (maxDirectBlocks * fs.sb.blockSize))
  else if fs.sb.freeBlocks.toNat < fs.blocksNeeded data.length then
    .error (.diskFull (UInt32.ofNat (fs.blocksNeeded data.length)) fs.sb.freeBlocks)
  else
    .ok ((fs.setFile i (some { f with content := data, modifiedAt := now })).setSb fun sb =>
      { sb with
        freeBlocks := sb.freeBlocks + UInt32.ofNat (fs.blocks f.content.length) -
          UInt32.ofNat (fs.blocksNeeded data.length)
        totalWrites := sb.totalWrites + 1
        bytesWritten := sb.bytesWritten + (UInt32.ofNat data.length).toUInt64 })

def claim (i : ℕ) (f : File) : Flat :=
  (fs.setFile i (some f)).setSb fun sb => { sb with freeInodes := sb.freeInodes - 1 }

/-! ## The file commands -/

def create (now : UInt64) (name : CStr) : Int × Flat :=
  if maxFilenameLen ≤ name.strlen then
    fs.fail (.filenameTooLong (maxFilenameLen - 1))
  else if (fs.find name.bytes).isSome then
    fs.fail (.fileExists name.bytes)
  else match fs.freeSlot with
    | none => fs.fail .noFreeInodesAvailable
    | some i =>
      (fs.claim i (.new now name (fsIfreg ||| fsDefaultMode))).succeed
        [.created name.bytes (UInt32.ofNat i) (fsIfreg ||| fsDefaultMode)]

def write (now : UInt64) (name data : CStr) : Int × Flat :=
  match fs.find name.bytes with
  | none => fs.fail (.fileNotFound name.bytes)
  | some (i, f) => match fs.store now i f data.bytes with
    | .error msg => fs.fail msg
    | .ok fs' => fs'.succeed [.wrote (UInt32.ofNat data.strlen) name.bytes]

def append (now : UInt64) (name data : CStr) : Int × Flat :=
  match fs.find name.bytes with
  | none => fs.fail (.fileNotFound name.bytes)
  | some (i, f) => match fs.store now i f (f.content ++ data.bytes) with
    | .error msg => fs.fail msg
    | .ok fs' => fs'.succeed
        [.appended (UInt32.ofNat data.strlen) name.bytes (f.size + UInt32.ofNat data.strlen)]

def read (now : UInt64) (name : CStr) : Int × Flat :=
  match fs.find name.bytes with
  | none => fs.fail (.fileNotFound name.bytes)
  | some (i, f) =>
    ((fs.setFile i (some { f with accessedAt := now })).setSb fun sb => { sb with
      totalReads := sb.totalReads + 1, bytesRead := sb.bytesRead + f.size.toUInt64 }).succeed
        (if f.content = [] then [.emptyFile] else [.content f.content, .newline])

def rename (now : UInt64) (oldName newName : CStr) : Int × Flat :=
  if maxFilenameLen ≤ newName.strlen then
    fs.fail .newNameTooLong
  else match fs.find oldName.bytes with
    | none => fs.fail (.fileNotFound oldName.bytes)
    | some (i, f) =>
      if (fs.find newName.bytes).isSome then
        fs.fail (.fileExists newName.bytes)
      else
        (fs.setFile i (some { f with name := newName.bytes, modifiedAt := now })).succeed
          [.renamed oldName.bytes newName.bytes]

def copy (now : UInt64) (src dst : CStr) : Int × Flat :=
  match fs.find src.bytes with
  | none => fs.fail (.sourceNotFound src.bytes)
  | some (_, f) =>
    if (fs.find dst.bytes).isSome then
      fs.fail (.destinationExists dst.bytes)
    else match fs.freeSlot with
      | none => fs.fail .noFreeInodes
      | some i =>
        if f.content = [] then
          (fs.claim i (.new now dst f.mode)).succeed
            [.copied src.bytes dst.bytes f.size (UInt32.ofNat i)]
        else match (fs.claim i (.new now dst f.mode)).store now i (.new now dst f.mode)
            f.content with
          | .error msg => fs.fail msg
          | .ok fs' => fs'.succeed [.copied src.bytes dst.bytes f.size (UInt32.ofNat i)]

def truncate (now : UInt64) (name : CStr) (newSize : UInt32) : Int × Flat :=
  match fs.find name.bytes with
  | none => fs.fail (.fileNotFound name.bytes)
  | some (i, f) =>
    if f.size < newSize then
      fs.fail (.cannotExtend newSize f.size)
    else
      ((fs.setFile i (some { f with
        content := f.content.take newSize.toNat, modifiedAt := now })).setSb fun sb => { sb with
          freeBlocks := sb.freeBlocks +
            UInt32.ofNat (fs.blocks f.content.length - fs.blocks newSize.toNat) }).succeed
        [.truncated name.bytes newSize]

def chmod (now : UInt64) (name : CStr) (mode : UInt16) : Int × Flat :=
  match fs.find name.bytes with
  | none => fs.fail (.fileNotFound name.bytes)
  | some (i, f) =>
    (fs.setFile i (some { f with
      mode := (f.mode &&& 0xF000) ||| (mode &&& 0x0FFF), modifiedAt := now })).succeed
        [.changedMode name.bytes (mode &&& 0x0FFF)
          (modeToStr ((f.mode &&& 0xF000) ||| (mode &&& 0x0FFF)))]

def delete (name : CStr) : Int × Flat :=
  match fs.find name.bytes with
  | none => fs.fail (.fileNotFound name.bytes)
  | some (i, f) =>
    ((fs.setFile i none).setSb fun sb => { sb with
      freeBlocks := sb.freeBlocks + UInt32.ofNat (fs.blocks f.content.length)
      freeInodes := sb.freeInodes + 1 }).succeed
        [.deleted name.bytes (UInt32.ofNat (fs.blocks f.content.length))]

/-! ## The commands that only print -/

def entries : List (ℕ × File) := fs.files.zipIdx.filterMap fun p => p.1.map fun f => (p.2, f)

def lsRow (i : ℕ) (f : File) : Message :=
  .lsRow f.name f.size (UInt32.ofNat i) f.modifiedAt (modeToStr f.mode)

def ls : Int × Flat :=
  fs.succeed (fs.entries.map (fun p => lsRow p.1 p.2) ++
    (if fs.entries = [] then [.emptyDirectory] else []) ++
    [.lsTotals fs.entries.length (fs.sb.maxInodes - fs.sb.freeInodes) fs.sb.maxInodes
      (fs.sb.dataBlocks - fs.sb.freeBlocks) fs.sb.dataBlocks])

def stat (name : CStr) : Int × Flat :=
  match fs.find name.bytes with
  | none => fs.fail (.fileNotFound name.bytes)
  | some (i, f) => fs.succeed
      [.stat f.name (UInt32.ofNat i) f.size (UInt32.ofNat (fs.blocks f.content.length))
        fs.sb.blockSize (f.mode &&& 0x0FFF) (modeToStr f.mode) f.linkCount f.createdAt
        f.modifiedAt f.accessedAt []]

def statfs : Int × Flat := fs.succeed [.statfs fs.sb]

/-- The files `fsck` counts. The bound on their size wraps for blocks from 2^28 bytes on. -/
def counted : List File :=
  (fs.files.filterMap id).filter fun f => f.size ≤ maxDirectBlocks * fs.sb.blockSize

/-- The answer and the lines of `fsck` for what it counts. The only complaints left are those
about the counters. -/
def fsckReport (sb : Superblock) (inodes blocks : UInt32) : Int × List Message :=
  let inodesLost := inodes ≠ sb.maxInodes - sb.freeInodes
  let blocksLost := blocks ≠ sb.dataBlocks - sb.freeBlocks
  let errors : ℕ := (if inodesLost then 1 else 0) + if blocksLost then 1 else 0
  (if errors = 0 then 0 else -1, [.magicOk sb.magic,
    if inodesLost then .inodeCountMismatch inodes (sb.maxInodes - sb.freeInodes)
      else .inodeCountOk inodes sb.maxInodes,
    if blocksLost then .blockCountMismatch blocks (sb.dataBlocks - sb.freeBlocks)
      else .blockCountOk blocks sb.dataBlocks,
    .bitmapAppearsConsistent, .fsckResult errors])

def fsck : Int × Flat :=
  let report := fsckReport fs.sb (UInt32.ofNat fs.counted.length)
    (UInt32.ofNat (fs.counted.map fun f => fs.blocks f.content.length).sum)
  (report.1, fs.say report.2)

def runOp (now : UInt64) : FileOp → Int × Flat
  | .create name => fs.create now name
  | .write name data => fs.write now name data
  | .append name data => fs.append now name data
  | .read name => fs.read now name
  | .rename oldName newName => fs.rename now oldName newName
  | .copy src dst => fs.copy now src dst
  | .truncate name newSize => fs.truncate now name newSize
  | .chmod name mode => fs.chmod now name mode
  | .delete name => fs.delete name

end Flat

def run (c : Command) (fs : Flat) : Int × Flat :=
  match c with
  | .file c => fs.runOp c.now c.op
  | .ls => fs.ls
  | .stat name => fs.stat name
  | .statfs => fs.statfs
  | .fsck => fs.fsck

/-- An interruption before a command is not seen. -/
def runResumed (p : Interruption × Command) (fs : Flat) : (Int × Int) × Flat :=
  ((0, (run p.2 fs).1), (run p.2 fs).2)

end MiniFs.Spec
