import MiniFs.Core.Disk

/-! # The inode table (`inode.c`)

An inode is read and written through the block that holds it.
-/

set_option autoImplicit false

namespace MiniFs.Core
open Library Library.Exec Library.ByteRange

/-- The block of slot `id` and the offset in it. Dividing by zero is undefined. -/
def inodeLocation (sb : Superblock) (id : UInt32) : M (UInt32 × ℕ) := do
  let inodesPerBlock := sb.blockSize / inodeSize
  require (inodesPerBlock ≠ 0)
  pure (sb.inodeStart + id / inodesPerBlock, (id % inodesPerBlock * inodeSize).toNat)

/-- `none` stands for the return value -1. -/
def inodeRead (id : UInt32) : M (Option Inode) := do
  let sb ← getSb
  if sb.maxInodes ≤ id then
    pure none
  else
    let (blockNum, offsetInBlock) ← inodeLocation sb id
    let (ret, buf) ← mallocRead blockNum sb.blockSize
    if ret < 0 then
      pure none
    else
      require (offsetInBlock + inodeSize.toNat ≤ buf.length)
      pure (some (inodeCodec.decode (slice offsetInBlock inodeSize.toNat buf)))

def inodeWrite (id : UInt32) (inode : Inode) : M Int := do
  let sb ← getSb
  if sb.maxInodes ≤ id then
    pure (-1)
  else
    let (blockNum, offsetInBlock) ← inodeLocation sb id
    let (ret, buf) ← mallocRead blockNum sb.blockSize
    if ret < 0 then
      pure (-1)
    else
      require (offsetInBlock + inodeSize.toNat ≤ buf.length)
      let ret ← diskWrite blockNum (splice offsetInBlock (inodeCodec.encode inode) buf)
      if ret < 0 then pure (-1) else pure 0

def Inode.fresh (i : ℕ) : Inode := { Inode.zero with id := UInt32.ofNat i, isUsed := 1 }

/-- Pass `i` of the loop of `inode_allocate`; the result of the write is dropped. -/
def claimIfFree (i : ℕ) : M (Option Inode) := do
  match ← inodeRead (UInt32.ofNat i) with
  | none => pure none
  | some temp =>
    if temp.isUsed = 0 then
      setSb fun sb => { sb with freeInodes := sb.freeInodes - 1 }
      let _ ← inodeWrite (UInt32.ofNat i) (Inode.fresh i)
      pure (some (Inode.fresh i))
    else
      pure none

def inodeAllocate : M (Option Inode) := do
  let sb ← getSb
  search claimIfFree sb.maxInodes.toNat 0

def inodeFree (id : UInt32) : M Int := do
  match ← inodeRead id with
  | none => pure (-1)
  | some temp =>
    setSb fun sb => { sb with freeInodes := sb.freeInodes + 1 }
    inodeWrite id { temp with isUsed := 0 }

/-- `strcmp(x.name, name) == 0`. It reads past the field, which is undefined, only when all
32 bytes agree and none is a NUL. -/
def nameEquals (x : Inode) (name : CStr) : M Bool := do
  require (x.Terminated ∨ name.bytes.take maxFilenameLen ≠ x.name.toList)
  pure (x.shownName = name.bytes)

def matchName (name : CStr) (i : ℕ) : M (Option Inode) := do
  match ← inodeRead (UInt32.ofNat i) with
  | none => pure none
  | some temp =>
    if temp.isUsed = 1 then
      if ← nameEquals temp name then pure (some temp) else pure none
    else
      pure none

def inodeFindByName (name : CStr) : M (Option Inode) := do
  let sb ← getSb
  search (matchName name) sb.maxInodes.toNat 0

end MiniFs.Core
