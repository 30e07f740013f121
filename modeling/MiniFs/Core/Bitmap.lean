import MiniFs.Core.Disk
import MiniFs.Library.BitArray

/-! # The block bitmap (`bitmap.c`)

The bitmap lives in memory and is written back as a whole after every change.
-/

set_option autoImplicit false

namespace MiniFs.Core
open Library Library.Exec Library.BitArray

/-- The bytes behind the global pointer; nothing is defined if there are none. -/
def bitmapBytes : M (List UInt8) := do
  match ← ask World.bitmap with
  | .live bytes => pure bytes
  | _ => stuck

def setBitmap (p : Pointer) : M Unit := update fun w => { w with bitmap := p }

/-- `bitmap + i * sb.block_size`, as an offset that lies in the allocation. -/
def bitmapOffset (sb : Superblock) (bytes : List UInt8) (i : ℕ) : M ℕ := do
  let off := (UInt32.ofNat i * sb.blockSize).toNat
  require (off ≤ bytes.length)
  pure off

def loadBitmapBlock (sb : Superblock) (i : ℕ) : M (Option Unit) := do
  let bytes ← bitmapBytes
  let off ← bitmapOffset sb bytes i
  let (ret, piece) ← diskRead (sb.bitmapStart + UInt32.ofNat i) (bytes.drop off)
  setBitmap (.live (bytes.take off ++ piece))
  pure (if ret < 0 then some () else none)

def bitmapInit : M Int := do
  let sb ← getSb
  setBitmap (.live (← malloc (sb.bitmapBlocks * sb.blockSize)))
  match ← search (loadBitmapBlock sb) sb.bitmapBlocks.toNat 0 with
  | some () =>
    -- freed, but the pointer keeps its value
    setBitmap .freed
    pure (-1)
  | none => pure 0

/-- Pass `i` of the loop of `bitmap_sync`; the result of the write is dropped. -/
def syncBitmapBlock (sb : Superblock) (bytes : List UInt8) (i : ℕ) : M Unit := do
  let off ← bitmapOffset sb bytes i
  let _ ← diskWrite (sb.bitmapStart + UInt32.ofNat i) (bytes.drop off)
  pure ()

def bitmapSync : M Unit := do
  let sb ← getSb
  match ← ask World.bitmap with
  | .null => pure ()
  | .freed => stuck
  | .live bytes => forLoop (syncBitmapBlock sb bytes) sb.bitmapBlocks.toNat 0

def allocateIfClear (i : ℕ) : M (Option UInt32) := do
  let bytes ← bitmapBytes
  require (i / 8 < bytes.length)
  if bytes.getD (i / 8) 0 &&& mask (i % 8) = 0 then
    setBitmap (.live (setBit bytes i))
    setSb fun sb => { sb with freeBlocks := sb.freeBlocks - 1 }
    bitmapSync
    pure (some (UInt32.ofNat i))
  else
    pure none

/-- The first clear bit, now set; `none` stands for the return value -1. -/
def bitmapAllocateBlock : M (Option UInt32) := do
  let sb ← getSb
  search allocateIfClear sb.totalBlocks.toNat 0

def bitmapFreeBlock (blockNum : UInt32) : M Int := do
  let sb ← getSb
  if sb.totalBlocks ≤ blockNum then
    pure (-1)
  else
    let bytes ← bitmapBytes
    require (blockNum.toNat / 8 < bytes.length)
    setBitmap (.live (clearBit bytes blockNum.toNat))
    setSb fun sb => { sb with freeBlocks := sb.freeBlocks + 1 }
    bitmapSync
    pure 0

end MiniFs.Core
