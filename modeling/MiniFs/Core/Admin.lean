import MiniFs.Core.FileOps

/-! # Format, mount, directory listing and consistency check (`fs.c`) -/

set_option autoImplicit false

namespace MiniFs.Core
open Library Library.Exec Library.ByteRange

def formatSuperblock (now : UInt64) (totalBlocks blockSize bitmapBlocks inodeBlocks
    maxInodes : UInt32) : Superblock :=
  { Superblock.zero with
    magic := fsMagic
    totalBlocks := totalBlocks
    blockSize := blockSize
    maxInodes := maxInodes
    bitmapStart := 1
    bitmapBlocks := bitmapBlocks
    inodeStart := 1 + bitmapBlocks
    inodeBlocks := inodeBlocks
    dataStart := 1 + bitmapBlocks + inodeBlocks
    dataBlocks := totalBlocks - (1 + bitmapBlocks + inodeBlocks)
    freeBlocks := totalBlocks - (1 + bitmapBlocks + inodeBlocks)
    freeInodes := maxInodes
    formattedAt := now }

/-- `for (i = 0; i < count; i++) disk_write(start + i, zero_buf)` -/
def zeroBlocks (blockSize start count : UInt32) : M Unit :=
  forLoop (fun i => do
    let _ ← diskWrite (start + UInt32.ofNat i) (List.replicate blockSize.toNat 0)
    pure ()) count.toNat 0

def fsFormat (now : UInt64) (totalSize blockSize : UInt32) : M Int := do
  if blockSize < inodeSize then
    emit (.blockSizeTooSmall blockSize inodeSize)
    pure (-1)
  else if (← diskInit totalSize blockSize true) < 0 then
    pure (-1)
  else
    let totalBlocks := totalSize / blockSize
    -- the product wraps to zero for the multiples of 2^29
    require (blockSize * 8 ≠ 0)
    let bitmapBlocks := (totalBlocks + blockSize * 8 - 1) / (blockSize * 8)
    let inodeBlocks := if totalBlocks / 10 = 0 then 1 else totalBlocks / 10
    if 1 + bitmapBlocks + inodeBlocks ≥ totalBlocks then
      emit (.diskTooSmall totalBlocks)
      pure (-1)
    else
      let maxInodes := blockSize / inodeSize * inodeBlocks
      if maxInodes = 0 then
        emit .blockTooSmallForInode
        pure (-1)
      else
        let sb := formatSuperblock now totalBlocks blockSize bitmapBlocks inodeBlocks maxInodes
        setSb fun _ => sb
        let _ ← diskWriteSb
        zeroBlocks blockSize sb.bitmapStart bitmapBlocks
        zeroBlocks blockSize sb.inodeStart inodeBlocks
        let _ ← bitmapInit
        -- the metadata blocks; this also counts sb.free_blocks down, after sb was saved
        forLoop (fun _ => do
          let _ ← bitmapAllocateBlock
          pure ()) sb.dataStart.toNat 0
        diskClose
        emit (.formatted totalSize blockSize totalBlocks sb.dataBlocks maxInodes now)
        pure 0

/-- `pread(temp_fd, &sb, sizeof(Superblock), 0)`: a short file overwrites only a part. -/
def readSuperblock : M Unit := do
  match ← nextFault with
  | some junk =>
    setSb fun _ => superblockCodec.decode ((List.range superblockSize).map junk)
  | none =>
    let file ← ask World.file
    setSb fun sb => superblockCodec.decode
      (splice 0 (slice 0 superblockSize (file.getD [])) (superblockCodec.encode sb))

def fsMount : M Int := do
  if (← diskInit 0 0 false) < 0 then
    pure (-1)
  else
    -- open(DISK_FILE, O_RDONLY)
    match ← nextFault with
    | some _ => pure (-1)
    | none =>
      readSuperblock
      let sb ← getSb
      if sb.magic ≠ fsMagic then
        emit (.invalidMagic sb.magic fsMagic)
        pure (-1)
      else
        let _ ← diskInit (sb.totalBlocks * sb.blockSize) sb.blockSize false
        let _ ← bitmapInit
        pure 0

def fsUnmount : M Unit := do
  bitmapSync
  let _ ← diskWriteSb
  diskClose

/-- The rows of `fs_ls` from slot `i` on; the number of files listed. -/
def lsLoop : (count i : ℕ) → M ℕ
  | 0, _ => pure 0
  | count + 1, i => do
    match ← inodeRead (UInt32.ofNat i) with
    | some temp =>
      if temp.isUsed = 1 then
        emit (.lsRow temp.shownName temp.size temp.id temp.modifiedAt (modeToStr temp.mode))
        let files ← lsLoop count (i + 1)
        pure (files + 1)
      else
        lsLoop count (i + 1)
    | none => lsLoop count (i + 1)

def fsLs : M Int := do
  let sb ← getSb
  let count ← lsLoop sb.maxInodes.toNat 0
  if count = 0 then emit .emptyDirectory
  emit (.lsTotals count (sb.maxInodes - sb.freeInodes) sb.maxInodes
    (sb.dataBlocks - sb.freeBlocks) sb.dataBlocks)
  pure 0

def pointerLoop (inode : Inode) : (count i : ℕ) → M (List UInt32)
  | 0, _ => pure []
  | count + 1, i => do
    let b ← directBlock inode i
    let more ← pointerLoop inode count (i + 1)
    pure (b :: more)

def fsStat (name : CStr) : M Int := do
  match ← inodeFindByName name with
  | none =>
    emit (.fileNotFound name.bytes)
    pure (-1)
  | some inode =>
    let sb ← getSb
    let used := blocksUsed sb inode.size
    let pointers ← pointerLoop inode used.toNat 0
    emit (.stat inode.shownName inode.id inode.size used sb.blockSize (inode.mode &&& 0x0FFF)
      (modeToStr inode.mode) inode.linkCount inode.createdAt inode.modifiedAt inode.accessedAt
      pointers)
    pure 0

def fsStatfs : M Int := do
  let sb ← getSb
  emit (.statfs sb)
  pure 0

structure FsckCounts where
  errors : ℕ
  usedInodes : UInt32
  usedBlocks : UInt32

/-- The slots passed over as "uninitialized inode slots with garbage bytes". -/
def FsckSkips (sb : Superblock) (x : Inode) : Prop :=
  sb.maxInodes ≤ x.id ∨ 1 < x.isUsed ∨ maxDirectBlocks * sb.blockSize < x.size

instance (sb : Superblock) (x : Inode) : Decidable (FsckSkips sb x) :=
  inferInstanceAs (Decidable (_ ∨ _))

/-- The block pointers from `b` on; the number out of the data range. -/
def fsckPointers (sb : Superblock) (i : UInt32) (tmp : Inode) : (count b : ℕ) → M ℕ
  | 0, _ => pure 0
  | count + 1, b => do
    let blk ← directBlock tmp b
    if blk < sb.dataStart ∨ sb.totalBlocks ≤ blk then
      emit (.pointerOutOfRange i tmp.shownName b blk sb.dataStart sb.totalBlocks)
      let bad ← fsckPointers sb i tmp count (b + 1)
      pure (bad + 1)
    else
      fsckPointers sb i tmp count (b + 1)

def fsckInode (sb : Superblock) (i : UInt32) (counts : FsckCounts) : M FsckCounts := do
  match ← inodeRead i with
  | none =>
    emit (.cannotReadInode i)
    pure counts
  | some tmp =>
    if tmp.isUsed = 0 then
      pure counts
    else if FsckSkips sb tmp then
      pure counts
    else
      let counts := { counts with usedInodes := counts.usedInodes + 1 }
      let mismatch ← if tmp.id ≠ i then do emit (.idMismatch i tmp.id); pure 1 else pure 0
      let counts := { counts with errors := counts.errors + mismatch }
      let expected := blocksUsed sb tmp.size
      if expected > maxDirectBlocks then
        emit (.oversized i tmp.shownName tmp.size expected maxDirectBlocks)
        pure { counts with errors := counts.errors + 1 }
      else
        let bad ← fsckPointers sb i tmp expected.toNat 0
        pure { counts with
          errors := counts.errors + bad, usedBlocks := counts.usedBlocks + expected }

def fsckWalk (sb : Superblock) : (count i : ℕ) → FsckCounts → M FsckCounts
  | 0, _, counts => pure counts
  | count + 1, i, counts => do
    let counts ← fsckInode sb (UInt32.ofNat i) counts
    fsckWalk sb count (i + 1) counts

/-- The bitmap check of the source tests nothing and always prints its OK line. -/
def fsFsck : M Int := do
  let sb ← getSb
  let magicErrors ←
    if sb.magic ≠ fsMagic then do emit (.magicCorrupt sb.magic); pure 1
    else do emit (.magicOk sb.magic); pure 0
  let counts ← fsckWalk sb sb.maxInodes.toNat 0 ⟨magicErrors, 0, 0⟩
  let sbUsedInodes := sb.maxInodes - sb.freeInodes
  let inodeErrors ←
    if counts.usedInodes ≠ sbUsedInodes then do
      emit (.inodeCountMismatch counts.usedInodes sbUsedInodes); pure 1
    else do emit (.inodeCountOk counts.usedInodes sb.maxInodes); pure 0
  let sbUsedBlocks := sb.dataBlocks - sb.freeBlocks
  let blockErrors ←
    if counts.usedBlocks ≠ sbUsedBlocks then do
      emit (.blockCountMismatch counts.usedBlocks sbUsedBlocks); pure 1
    else do emit (.blockCountOk counts.usedBlocks sb.dataBlocks); pure 0
  emit .bitmapAppearsConsistent
  let errors := counts.errors + inodeErrors + blockErrors
  emit (.fsckResult errors)
  pure (if errors = 0 then 0 else -1)

/-- The `format` command of the shell. It drops both results; they are kept here. -/
def shellFormat (now : UInt64) (totalSize blockSize : UInt32) : M (Int × Int) := do
  fsUnmount
  let formatted ← fsFormat now totalSize blockSize
  let mounted ← fsMount
  pure (formatted, mounted)

/-! ## Commands -/

inductive FileOp where
  | create (name : CStr)
  | write (name data : CStr)
  | append (name data : CStr)
  | read (name : CStr)
  | rename (oldName newName : CStr)
  | copy (src dst : CStr)
  | truncate (name : CStr) (newSize : UInt32)
  | chmod (name : CStr) (mode : UInt16)
  | delete (name : CStr)

def FileOp.args : FileOp → List CStr
  | .create name | .read name | .truncate name _ | .chmod name _ | .delete name => [name]
  | .write name data | .append name data => [name, data]
  | .rename oldName newName => [oldName, newName]
  | .copy src dst => [src, dst]

def FileOp.ArgsBelow (n : ℕ) (op : FileOp) : Prop := ∀ s ∈ op.args, s.strlen < n

/-- A call with the clock reading it takes. -/
structure FileCall where
  op : FileOp
  now : UInt64

def runOp (now : UInt64) : FileOp → M Int
  | .create name => fsCreate now name
  | .write name data => fsWrite now name data
  | .append name data => fsAppend now name data
  | .read name => fsRead now name
  | .rename oldName newName => fsRename now oldName newName
  | .copy src dst => fsCopy now src dst
  | .truncate name newSize => fsTruncateFile now name newSize
  | .chmod name mode => fsChmod now name mode
  | .delete name => fsDelete name

def runCall (c : FileCall) : M Int := runOp c.now c.op

/-- `fs_mount` and then a list of calls; the answers of both. -/
def session (calls : List FileCall) : M (Int × List Int) := do
  let mounted ← fsMount
  let results ← runList runCall calls
  pure (mounted, results)

/-- The commands of `main` and of the shell that act on the mounted file system. -/
inductive Command where
  | file (c : FileCall)
  | ls
  | stat (name : CStr)
  | statfs
  | fsck

def runCommand : Command → M Int
  | .file c => runCall c
  | .ls => fsLs
  | .stat name => fsStat name
  | .statfs => fsStatfs
  | .fsck => fsFsck

def Command.ArgsBelow (n : ℕ) : Command → Prop
  | .file c => c.op.ArgsBelow n
  | .stat name => name.strlen < n
  | _ => True

/-- What may happen between two commands. -/
inductive Interruption where
  | none
  /-- `fs_unmount` and `fs_mount` -/
  | remount
  /-- The process ends, after `fs_unmount` or killed without it, and a new one mounts; its memory
  behind the superblock and elsewhere is its own. -/
  | restart (unmounted : Bool) (behindSb garbage : ℕ → UInt8)

/-- A new process over the same disk file, printing to the same output. -/
def World.restart (w : World) (behindSb garbage : ℕ → UInt8) : World :=
  { World.start w.file behindSb garbage with out := w.out, faults := w.faults }

def resume : Interruption → M Int
  | .none => pure 0
  | .remount => do
    fsUnmount
    fsMount
  | .restart unmounted behindSb garbage => do
    if unmounted then fsUnmount
    update fun w => w.restart behindSb garbage
    fsMount

def runResumed (p : Interruption × Command) : M (Int × Int) := do
  let mounted ← resume p.1
  let result ← runCommand p.2
  pure (mounted, result)

end MiniFs.Core
