import MiniFs.Core.Bitmap
import MiniFs.Core.InodeTable

/-! # File operations (`fs.c`)

Each operation runs under `fs_mutex`, so it is one step. `now` is the reading of
`time(NULL)`, one for a whole operation: `fs_copy` with content takes a second one
for `modified_at`, which is assumed to be the same. Logging and the performance
counters touch no file-system state and are left out.
-/

set_option autoImplicit false

namespace MiniFs.Core
open Library Library.Exec

def modeToStr (mode : UInt16) : List Char :=
  [(fsIfdir, 'd'), (0o400, 'r'), (0o200, 'w'), (0o100, 'x'), (0o40, 'r'), (0o20, 'w'),
    (0o10, 'x'), (0o4, 'r'), (0o2, 'w'), (0o1, 'x')].map
    fun (bit, c) => if mode &&& bit ≠ 0 then c else '-'

/-- `(len + sb.block_size - 1) / sb.block_size`, in 32 bits. An inode has been read before every
use, which is undefined for a block size below `sizeof(Inode)`, so the divisor is not zero. -/
def blockCount (sb : Superblock) (len : UInt32) : UInt32 := (len + sb.blockSize - 1) / sb.blockSize

/-- `(size > 0) ? ((size + sb.block_size - 1) / sb.block_size) : 0` -/
def blocksUsed (sb : Superblock) (size : UInt32) : UInt32 :=
  if size > 0 then blockCount sb size else 0

/-- `inode.direct_blocks[i]`; outside the array nothing is defined. -/
def directBlock (inode : Inode) (i : ℕ) : M UInt32 :=
  match inode.directBlocks[i]? with
  | some b => pure b
  | none => stuck

def setDirectBlock (inode : Inode) (i : ℕ) (b : UInt32) : M Inode :=
  if h : i < 16 then pure { inode with directBlocks := inode.directBlocks.set i b }
  else stuck

/-- `bitmap_free_block(inode.direct_blocks[i])` for `i` from `start` on. -/
def freeBlocksLoop (inode : Inode) (count start : ℕ) : M Unit :=
  forLoop (fun i => do
    let _ ← bitmapFreeBlock (← directBlock inode i)
    pure ()) count start

/-- The bytes the read loop of `fs_append`, `fs_read` and `fs_copy` takes out of the blocks
from index `i` on. A failing `disk_read` is not noticed. -/
def readLoop (sb : Superblock) (inode : Inode) : (count i : ℕ) → (bytesRead : UInt32) →
    M (List UInt8)
  | 0, _, _ => pure []
  | count + 1, i, bytesRead => do
    let (_, buf) ← mallocRead (← directBlock inode i) sb.blockSize
    let rest := inode.size - bytesRead
    let readLen := if rest > sb.blockSize then sb.blockSize else rest
    let more ← readLoop sb inode count (i + 1) (bytesRead + readLen)
    pure (buf.take readLen.toNat ++ more)

/-- The content buffer of `fs_append` and `fs_copy`: cleared memory of `size + 1` bytes, filled
by the read loop. -/
def readContent (sb : Superblock) (inode : Inode) : M (List UInt8) := do
  if inode.size > 0 then
    require (inode.size.toNat < (inode.size + 1).toNat)
    let bytes ← readLoop sb inode (blockCount sb inode.size).toNat 0 0
    pure (bytes.rightpad inode.size.toNat 0)
  else
    pure []

/-- The allocation loop of `_do_write` from index `i` on: a fresh block for every piece of
the data, the last one filled up with zeros. `none` stands for the return value -1. -/
def doWriteLoop (data : List UInt8) (dataLen : UInt32) : (count i : ℕ) → Inode →
    (bytesWritten : UInt32) → M (Option Inode)
  | 0, _, inode, _ => pure (some inode)
  | count + 1, i, inode, bytesWritten => do
    match ← bitmapAllocateBlock with
    | none =>
      emit .bitmapAllocateFailed
      pure none
    | some blockNum =>
      let inode ← setDirectBlock inode i blockNum
      let sb ← getSb
      let rest := dataLen - bytesWritten
      let writeLen := if rest > sb.blockSize then sb.blockSize else rest
      let buf := ((data.drop bytesWritten.toNat).take writeLen.toNat).rightpad sb.blockSize.toNat 0
      let _ ← diskWrite blockNum buf
      doWriteLoop data dataLen count (i + 1) inode (bytesWritten + writeLen)

/-- `_do_write`. At least one block is taken, and the old ones are given back before the new
ones are allocated. `none` stands for the return value -1. -/
def doWrite (now : UInt64) (inode : Inode) (data : List UInt8) (dataLen : UInt32) :
    M (Option Inode) := do
  let sb ← getSb
  let count := blockCount sb dataLen
  let blocksNeeded := if count = 0 then 1 else count
  if blocksNeeded > maxDirectBlocks then
    emit (.fileTooLarge maxDirectBlocks sb.blockSize (maxDirectBlocks * sb.blockSize))
    pure none
  else if blocksNeeded > sb.freeBlocks then
    emit (.diskFull blocksNeeded sb.freeBlocks)
    pure none
  else
    freeBlocksLoop inode (blocksUsed sb inode.size).toNat 0
    match ← doWriteLoop data dataLen blocksNeeded.toNat 0 inode 0 with
    | none => pure none
    | some inode =>
      setSb fun sb => { sb with
        totalWrites := sb.totalWrites + 1, bytesWritten := sb.bytesWritten + dataLen.toUInt64 }
      pure (some { inode with size := dataLen, modifiedAt := now })

def fsCreate (now : UInt64) (name : CStr) : M Int := do
  if maxFilenameLen ≤ name.strlen then
    emit (.filenameTooLong (maxFilenameLen - 1))
    pure (-1)
  else if (← inodeFindByName name).isSome then
    emit (.fileExists name.bytes)
    pure (-1)
  else if (← getSb).freeInodes = 0 then
    emit .noFreeInodesAvailable
    pure (-1)
  else
    match ← inodeAllocate with
    | none =>
      emit .inodeAllocateFailed
      pure (-1)
    | some newInode =>
      let newInode := { newInode with
        name := Inode.strncpy newInode.name name
        size := 0
        mode := fsIfreg ||| fsDefaultMode
        linkCount := 1
        createdAt := now
        modifiedAt := now
        accessedAt := now }
      let _ ← inodeWrite newInode.id newInode
      let _ ← diskWriteSb
      emit (.created name.bytes newInode.id newInode.mode)
      pure 0

def fsDelete (name : CStr) : M Int := do
  match ← inodeFindByName name with
  | none =>
    emit (.fileNotFound name.bytes)
    pure (-1)
  | some inode =>
    let used := blocksUsed (← getSb) inode.size
    freeBlocksLoop inode used.toNat 0
    let _ ← inodeFree inode.id
    let _ ← diskWriteSb
    emit (.deleted name.bytes used)
    pure 0

def fsWrite (now : UInt64) (name data : CStr) : M Int := do
  match ← inodeFindByName name with
  | none =>
    emit (.fileNotFound name.bytes)
    pure (-1)
  | some inode =>
    let dataLen := UInt32.ofNat data.strlen
    match ← doWrite now inode data.bytes dataLen with
    | none => pure (-1)
    | some inode =>
      let _ ← inodeWrite inode.id inode
      let _ ← diskWriteSb
      emit (.wrote dataLen name.bytes)
      pure 0

def fsAppend (now : UInt64) (name data : CStr) : M Int := do
  match ← inodeFindByName name with
  | none =>
    emit (.fileNotFound name.bytes)
    pure (-1)
  | some inode =>
    let oldContent ← readContent (← getSb) inode
    let appLen := UInt32.ofNat data.strlen
    let newLen := inode.size + appLen
    -- both copies must fit the new_len + 1 bytes allocated for them
    require (inode.size.toNat + appLen.toNat < (newLen + 1).toNat)
    let newContent := oldContent ++ data.bytes.take appLen.toNat
    match ← doWrite now inode newContent newLen with
    | none => pure (-1)
    | some inode =>
      let _ ← inodeWrite inode.id inode
      let _ ← diskWriteSb
      emit (.appended appLen name.bytes newLen)
      pure 0

def fsRead (now : UInt64) (name : CStr) : M Int := do
  match ← inodeFindByName name with
  | none =>
    emit (.fileNotFound name.bytes)
    pure (-1)
  | some inode =>
    let inode := { inode with accessedAt := now }
    let _ ← inodeWrite inode.id inode
    if inode.size = 0 then
      emit .emptyFile
      setSb fun sb => { sb with totalReads := sb.totalReads + 1 }
      let _ ← diskWriteSb
      pure 0
    else
      let sb ← getSb
      let bytes ← readLoop sb inode (blockCount sb inode.size).toNat 0 0
      emit (.content bytes)
      emit .newline
      setSb fun sb => { sb with
        totalReads := sb.totalReads + 1, bytesRead := sb.bytesRead + inode.size.toUInt64 }
      let _ ← diskWriteSb
      pure 0

def fsRename (now : UInt64) (oldName newName : CStr) : M Int := do
  if maxFilenameLen ≤ newName.strlen then
    emit .newNameTooLong
    pure (-1)
  else
    match ← inodeFindByName oldName with
    | none =>
      emit (.fileNotFound oldName.bytes)
      pure (-1)
    | some inode =>
      if (← inodeFindByName newName).isSome then
        emit (.fileExists newName.bytes)
        pure (-1)
      else
        let inode := { inode with name := Inode.strncpy inode.name newName, modifiedAt := now }
        let _ ← inodeWrite inode.id inode
        emit (.renamed oldName.bytes newName.bytes)
        pure 0

/-- The last steps of `fs_copy`, taken once the destination inode is complete. -/
def copyFinish (src dst : CStr) (size : UInt32) (newInode : Inode) : M Int := do
  let _ ← inodeWrite newInode.id newInode
  let _ ← diskWriteSb
  emit (.copied src.bytes dst.bytes size newInode.id)
  pure 0

/-- The length of `dst` is not checked, and neither is the result of `inode_allocate`: if it
fails, `new_inode` keeps what was on the stack. -/
def fsCopy (now : UInt64) (src dst : CStr) : M Int := do
  match ← inodeFindByName src with
  | none =>
    emit (.sourceNotFound src.bytes)
    pure (-1)
  | some srcInode =>
    if (← inodeFindByName dst).isSome then
      emit (.destinationExists dst.bytes)
      pure (-1)
    else if (← getSb).freeInodes = 0 then
      emit .noFreeInodes
      pure (-1)
    else
      let content ← readContent (← getSb) srcInode
      let newInode ← match ← inodeAllocate with
        | some newInode => pure newInode
        | none => do pure (inodeCodec.decode (← malloc inodeSize))
      let newInode := { newInode with
        name := Inode.strncpy newInode.name dst
        mode := srcInode.mode
        linkCount := 1
        createdAt := now
        modifiedAt := now
        accessedAt := now }
      if srcInode.size > 0 then
        match ← doWrite now newInode content srcInode.size with
        | none =>
          let _ ← inodeFree newInode.id
          pure (-1)
        | some newInode => copyFinish src dst srcInode.size newInode
      else
        copyFinish src dst srcInode.size { newInode with size := 0 }

def fsTruncateFile (now : UInt64) (name : CStr) (newSize : UInt32) : M Int := do
  match ← inodeFindByName name with
  | none =>
    emit (.fileNotFound name.bytes)
    pure (-1)
  | some inode =>
    if newSize > inode.size then
      emit (.cannotExtend newSize inode.size)
      pure (-1)
    else
      let sb ← getSb
      let oldBlocks := (blocksUsed sb inode.size).toNat
      let newBlocks := (blocksUsed sb newSize).toNat
      freeBlocksLoop inode (oldBlocks - newBlocks) newBlocks
      let inode := { inode with size := newSize, modifiedAt := now }
      let _ ← inodeWrite inode.id inode
      let _ ← diskWriteSb
      emit (.truncated name.bytes newSize)
      pure 0

def fsChmod (now : UInt64) (name : CStr) (mode : UInt16) : M Int := do
  match ← inodeFindByName name with
  | none =>
    emit (.fileNotFound name.bytes)
    pure (-1)
  | some inode =>
    let typeBits := inode.mode &&& 0xF000
    let inode := { inode with mode := typeBits ||| (mode &&& 0x0FFF), modifiedAt := now }
    let _ ← inodeWrite inode.id inode
    emit (.changedMode name.bytes (mode &&& 0x0FFF) (modeToStr inode.mode))
    pure 0

end MiniFs.Core
