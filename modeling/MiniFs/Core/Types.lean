import MiniFs.Library.Codec
import MiniFs.Library.Exec
import Mathlib.Data.UInt

/-! # The data of the C core: superblock, inodes, and the state of a process

The layouts are those of `include/common.h` on an LP64 machine: 88 bytes for
the superblock and 144 for an inode, alignment bytes included, so that a struct
and its bytes determine each other.
-/

set_option autoImplicit false

namespace MiniFs.Core
open Library Library.Exec

/-- A `const char *` argument: the bytes before the terminating NUL. -/
structure CStr where
  bytes : List UInt8
  noNul : 0 ∉ bytes

def CStr.strlen (s : CStr) : ℕ := s.bytes.length

abbrev maxFilenameLen : ℕ := 32
abbrev maxDirectBlocks : UInt32 := 16
/-- ASCII "MINI" -/
abbrev fsMagic : UInt32 := 0x4D494E49
abbrev fsIfreg : UInt16 := 0x8000
abbrev fsIfdir : UInt16 := 0x4000
abbrev fsDefaultMode : UInt16 := 0o644
abbrev inodeSize : UInt32 := 144
abbrev superblockSize : ℕ := 88

/-! ## Superblock -/

structure Superblock where
  magic : UInt32
  totalBlocks : UInt32
  blockSize : UInt32
  maxInodes : UInt32
  freeBlocks : UInt32
  freeInodes : UInt32
  bitmapStart : UInt32
  bitmapBlocks : UInt32
  inodeStart : UInt32
  inodeBlocks : UInt32
  dataStart : UInt32
  dataBlocks : UInt32
  totalWrites : UInt64
  totalReads : UInt64
  bytesWritten : UInt64
  bytesRead : UInt64
  /-- a `time_t`, as its 64 bits -/
  formattedAt : UInt64
deriving DecidableEq

/-- The global `sb` before anything is loaded, and after `memset`. -/
def Superblock.zero : Superblock :=
  ⟨0, 0, 0, 0, 0, 0, 0, 0, 0, 0, 0, 0, 0, 0, 0, 0, 0⟩

open Codec in
def superblockCodec : Codec Superblock :=
  (u32.prod <| u32.prod <| u32.prod <| u32.prod <| u32.prod <| u32.prod <|
    u32.prod <| u32.prod <| u32.prod <| u32.prod <| u32.prod <| u32.prod <|
    u64.prod <| u64.prod <| u64.prod <| u64.prod u64).map
  { toFun := fun (a, b, c, d, e, f, g, h, i, j, k, l, m, n, o, p, q) =>
      ⟨a, b, c, d, e, f, g, h, i, j, k, l, m, n, o, p, q⟩
    invFun := fun s => (s.magic, s.totalBlocks, s.blockSize, s.maxInodes, s.freeBlocks,
      s.freeInodes, s.bitmapStart, s.bitmapBlocks, s.inodeStart, s.inodeBlocks, s.dataStart,
      s.dataBlocks, s.totalWrites, s.totalReads, s.bytesWritten, s.bytesRead, s.formattedAt)
    left_inv := fun _ => rfl
    right_inv := fun _ => rfl }

theorem superblockCodec_size : superblockCodec.size = superblockSize := rfl

/-! ## Inodes -/

structure Inode where
  id : UInt32
  /-- file size in bytes -/
  size : UInt32
  /-- 0 = free, 1 = used -/
  isUsed : UInt8
  /-- alignment byte before `mode` -/
  hole : UInt8
  mode : UInt16
  name : Vector UInt8 maxFilenameLen
  directBlocks : Vector UInt32 16
  /-- alignment bytes before `created_at` -/
  gap : UInt32
  createdAt : UInt64
  modifiedAt : UInt64
  accessedAt : UInt64
  linkCount : UInt32
  /-- `_pad[3]` and the trailing alignment byte -/
  pad : Vector UInt8 4
deriving DecidableEq

open Codec in
def inodeCodec : Codec Inode :=
  (u32.prod <| u32.prod <| u8.prod <| u8.prod <| u16.prod <| (u8.array 32).prod <|
    (u32.array 16).prod <| u32.prod <| u64.prod <| u64.prod <| u64.prod <|
    u32.prod (u8.array 4)).map
  { toFun := fun (a, b, c, d, e, f, g, h, i, j, k, l, m) => ⟨a, b, c, d, e, f, g, h, i, j, k, l, m⟩
    invFun := fun x => (x.id, x.size, x.isUsed, x.hole, x.mode, x.name, x.directBlocks, x.gap,
      x.createdAt, x.modifiedAt, x.accessedAt, x.linkCount, x.pad)
    left_inv := fun _ => rfl
    right_inv := fun _ => rfl }

theorem inodeCodec_size : inodeCodec.size = inodeSize.toNat := rfl

namespace Inode

/-- `memset(&temp, 0, sizeof(Inode))` -/
def zero : Inode where
  id := 0
  size := 0
  isUsed := 0
  hole := 0
  mode := 0
  name := Vector.replicate _ 0
  directBlocks := Vector.replicate _ 0
  gap := 0
  createdAt := 0
  modifiedAt := 0
  accessedAt := 0
  linkCount := 0
  pad := Vector.replicate _ 0

theorem encode_zero : inodeCodec.encode zero = List.replicate 144 0 := by decide

/-- The stored name as C code sees it: the bytes before the first NUL. -/
def shownName (x : Inode) : List UInt8 := x.name.toList.takeWhile (· ≠ 0)

def Terminated (x : Inode) : Prop := (0 : UInt8) ∈ x.name.toList

instance (x : Inode) : Decidable x.Terminated := inferInstanceAs (Decidable (_ ∈ _))

/-- `strncpy(dst, src, MAX_FILENAME_LEN - 1)`: copies up to the NUL, pads with
zeros, and does not touch the last byte. -/
def strncpy (dst : Vector UInt8 maxFilenameLen) (src : CStr) : Vector UInt8 maxFilenameLen :=
  Vector.ofFn fun i : Fin maxFilenameLen =>
    if i.val < maxFilenameLen - 1 then src.bytes.getD i.val 0 else dst[i.val]

end Inode

/-! ## What the program prints -/

/-- One print statement with its arguments; the comment gives the format. Times are
kept as `time_t`; measured durations are left out. -/
inductive Message where
  /-- `perror("open disk")` -/
  | openDisk
  /-- `perror("ftruncate disk")` -/
  | ftruncateDisk
  /-- `perror("disk_read pread")` -/
  | diskReadPread
  /-- "disk_read: unexpected EOF (block %u)" -/
  | diskReadEof (block : UInt32)
  /-- `perror("disk_write pwrite")` -/
  | diskWritePwrite
  /-- "Error: block_size (%u) must be >= sizeof(Inode) (%zu)." -/
  | blockSizeTooSmall (blockSize inodeSize : UInt32)
  /-- "Error: Disk size (%u blocks) is too small to format." -/
  | diskTooSmall (totalBlocks : UInt32)
  /-- "Error: Block size too small to fit an inode." -/
  | blockTooSmallForInode
  /-- "Filesystem formatted successfully." and the seven lines below it -/
  | formatted (totalSize blockSize totalBlocks dataBlocks maxInodes : UInt32) (at_ : UInt64)
  /-- "Error: Invalid magic number (got 0x%X, expected 0x%X)." -/
  | invalidMagic (got expected : UInt32)
  /-- "Error: Filename too long (max %d chars)." -/
  | filenameTooLong (maxChars : ℕ)
  /-- "Error: File '%s' already exists." -/
  | fileExists (name : List UInt8)
  /-- "Error: No free inodes available." -/
  | noFreeInodesAvailable
  /-- "Error: inode_allocate failed." -/
  | inodeAllocateFailed
  /-- "Created '%s'  [inode:%u, mode:%04o]" -/
  | created (name : List UInt8) (id : UInt32) (mode : UInt16)
  /-- "Error: File '%s' not found." -/
  | fileNotFound (name : List UInt8)
  /-- "Deleted '%s'  [freed %u blocks]" -/
  | deleted (name : List UInt8) (blocks : UInt32)
  /-- "Error: File too large (max %u blocks × %u bytes = %u bytes)." -/
  | fileTooLarge (maxBlocks blockSize maxBytes : UInt32)
  /-- "Error: Disk full (need %u blocks, have %u free)." -/
  | diskFull (need have_ : UInt32)
  /-- "Error: bitmap_allocate_block failed." -/
  | bitmapAllocateFailed
  /-- "Wrote %u bytes to '%s'" -/
  | wrote (len : UInt32) (name : List UInt8)
  /-- "Appended %u bytes to '%s'  (total: %u bytes)" -/
  | appended (len : UInt32) (name : List UInt8) (total : UInt32)
  /-- "(empty file)" -/
  | emptyFile
  /-- `fwrite` of file content to standard output -/
  | content (bytes : List UInt8)
  /-- the line end after a file's content -/
  | newline
  /-- "Error: New name too long." -/
  | newNameTooLong
  /-- "Renamed '%s' -> '%s'" -/
  | renamed (old new : List UInt8)
  /-- "Error: Source file '%s' not found." -/
  | sourceNotFound (name : List UInt8)
  /-- "Error: Destination '%s' already exists." -/
  | destinationExists (name : List UInt8)
  /-- "Error: No free inodes." -/
  | noFreeInodes
  /-- "Copied '%s' -> '%s'  [%u bytes, inode:%u]" -/
  | copied (src dst : List UInt8) (size id : UInt32)
  /-- "Error: Cannot extend with truncate (new_size %u > current %u)." -/
  | cannotExtend (newSize current : UInt32)
  /-- "Truncated '%s' to %u bytes." -/
  | truncated (name : List UInt8) (newSize : UInt32)
  /-- "Changed mode of '%s' to %04o  (%s)" -/
  | changedMode (name : List UInt8) (mode : UInt16) (modeStr : List Char)
  /-- one line of `ls`: "%-32s  %8u  %10u  %-19s  %s" -/
  | lsRow (name : List UInt8) (size id : UInt32) (modifiedAt : UInt64) (modeStr : List Char)
  /-- "  (empty directory)" -/
  | emptyDirectory
  /-- "  %d file(s),  %u/%u inodes used,  %u/%u data blocks used" -/
  | lsTotals (count : ℕ) (usedInodes maxInodes usedBlocks dataBlocks : UInt32)
  /-- the lines of `stat` -/
  | stat (name : List UInt8) (id size blocks blockSize : UInt32) (mode : UInt16)
      (modeStr : List Char) (linkCount : UInt32) (createdAt modifiedAt accessedAt : UInt64)
      (pointers : List UInt32)
  /-- the lines of `statfs`, all of them fields of the superblock -/
  | statfs (sb : Superblock)
  /-- "  [FAIL] Magic number corrupt (got 0x%X)" -/
  | magicCorrupt (got : UInt32)
  /-- "  [OK]   Magic number: 0x%X" -/
  | magicOk (magic : UInt32)
  /-- "  [WARN] Cannot read inode %u" -/
  | cannotReadInode (i : UInt32)
  /-- "  [FAIL] Inode %u: id mismatch (stored id=%u)" -/
  | idMismatch (i storedId : UInt32)
  /-- "  [FAIL] Inode %u ('%s'): size %u requires %u blocks (max %u) — oversized" -/
  | oversized (i : UInt32) (name : List UInt8) (size blocks maxBlocks : UInt32)
  /-- "  [FAIL] Inode %u ('%s'): block ptr[%u]=%u out of data range [%u,%u)" -/
  | pointerOutOfRange (i : UInt32) (name : List UInt8) (b : ℕ) (blk dataStart totalBlocks : UInt32)
  /-- "  [FAIL] Inode count mismatch: counted=%u, superblock says=%u" -/
  | inodeCountMismatch (counted expected : UInt32)
  /-- "  [OK]   Inode count: %u used / %u total" -/
  | inodeCountOk (counted maxInodes : UInt32)
  /-- "  [FAIL] Block count mismatch: counted=%u, superblock says=%u" -/
  | blockCountMismatch (counted expected : UInt32)
  /-- "  [OK]   Block count : %u used / %u total" -/
  | blockCountOk (counted dataBlocks : UInt32)
  /-- "  [OK]   Bitmap structure appears consistent" -/
  | bitmapAppearsConsistent
  /-- "  fsck result: %d error(s) found" and the verdict line below it -/
  | fsckResult (errors : ℕ)

/-! ## The state of a process and its disk file -/

/-- `disk_fd`: -1, an open descriptor, or the number of one closed since. -/
inductive Descriptor where
  | closed
  | opened
  | stale
deriving DecidableEq

/-- The global `bitmap` pointer: NULL, a live allocation, or one freed since. -/
inductive Pointer where
  | null
  | live (bytes : List UInt8)
  | freed

/-- What one system call does: succeed, or fail and leave these bytes in its buffer. -/
abbrev Fault := Option (ℕ → UInt8)

def noFaults : ℕ → Fault := fun _ => none

structure World where
  /-- the bytes of `virtual_disk.bin`, if it exists -/
  file : Option (List UInt8)
  fd : Descriptor
  diskBlockSize : UInt32
  sb : Superblock
  bitmap : Pointer
  /-- the memory behind the global `sb`, which `disk_write(0, &sb)` also sends -/
  behindSb : ℕ → UInt8
  /-- what uninitialised memory holds -/
  garbage : ℕ → UInt8
  /-- the outcomes of the next system calls -/
  faults : ℕ → Fault
  out : List Message

/-- A process that has just started. Its globals are zero or NULL; what lies behind them and in
uninitialised memory is arbitrary. -/
def World.start (file : Option (List UInt8)) (behindSb garbage : ℕ → UInt8) : World where
  file := file
  fd := .closed
  diskBlockSize := 0
  sb := Superblock.zero
  bitmap := .null
  behindSb := behindSb
  garbage := garbage
  faults := noFaults
  out := []

abbrev M := Prog World

def emit (m : Message) : M Unit := update fun w => { w with out := w.out ++ [m] }

def getSb : M Superblock := ask World.sb

def setSb (f : Superblock → Superblock) : M Unit := update fun w => { w with sb := f w.sb }

def nextFault : M Fault := fun w =>
  some (w.faults 0, { w with faults := fun k => w.faults (k + 1) })

/-- `malloc(n)`, filled with whatever was there. -/
def malloc (n : UInt32) : M (List UInt8) :=
  ask fun w => (List.range n.toNat).map w.garbage

end MiniFs.Core
