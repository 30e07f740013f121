import MiniFs.Core.Types

/-! # The virtual disk (`disk.c`)

A transfer moves one whole block. It reports -1 when there is no open disk,
when the system call fails, and when a read meets the end of the file.
-/

set_option autoImplicit false

namespace MiniFs.Core
open Library Library.Exec Library.ByteRange

/-- `pwrite`: past its end the file is filled up with zeros. -/
def pwrite (off : ℕ) (data file : List UInt8) : List UInt8 :=
  splice off data (file ++ List.replicate (off + data.length - file.length) 0)

def diskInit (totalSize blockSize : UInt32) (format : Bool) : M Int := do
  -- open(filename, O_RDWR), for a format with O_CREAT | O_TRUNC
  let failed ← nextFault
  let file ← ask World.file
  if failed.isSome || (!format && file.isNone) then
    update fun w => { w with fd := .closed }
    emit .openDisk
    pure (-1)
  else
    update fun w => { w with fd := .opened }
    if format then
      update fun w => { w with file := some [] }
      match ← nextFault with
      | some _ =>
        -- the descriptor is closed but its number stays in disk_fd
        emit .ftruncateDisk
        update fun w => { w with fd := .stale }
        pure (-1)
      | none =>
        update fun w => { w with
          file := some (List.replicate totalSize.toNat 0), diskBlockSize := blockSize }
        pure 0
    else
      update fun w => { w with diskBlockSize := blockSize }
      pure 0

/-- The return code and the buffer afterwards. A failing call may leave anything in it. -/
def diskRead (blockNum : UInt32) (buffer : List UInt8) : M (Int × List UInt8) := do
  let size ← ask World.diskBlockSize
  match ← ask World.fd with
  | .closed => pure (-1, buffer)
  | .stale =>
    emit .diskReadPread
    pure (-1, buffer)
  | .opened =>
    match ← nextFault with
    | some junk =>
      emit .diskReadPread
      pure (-1, (List.range buffer.length).map junk)
    | none =>
      let file ← ask World.file
      let data := slice (blockNum.toNat * size.toNat) size.toNat (file.getD [])
      require (data.length ≤ buffer.length)
      if data.length = size.toNat then
        pure (0, splice 0 data buffer)
      else
        emit (.diskReadEof blockNum)
        pure (-1, splice 0 data buffer)

/-- `buf = malloc(n); disk_read(block_num, buf)` -/
def mallocRead (blockNum n : UInt32) : M (Int × List UInt8) := do
  diskRead blockNum (← malloc n)

/-- Sends the first `disk_block_size` bytes of the buffer, which must be there. -/
def diskWrite (blockNum : UInt32) (buffer : List UInt8) : M Int := do
  let size ← ask World.diskBlockSize
  match ← ask World.fd with
  | .closed => pure (-1)
  | .stale =>
    emit .diskWritePwrite
    pure (-1)
  | .opened =>
    require (size.toNat ≤ buffer.length)
    match ← nextFault with
    | some _ =>
      emit .diskWritePwrite
      pure (-1)
    | none =>
      update fun w => { w with
        file := w.file.map (pwrite (blockNum.toNat * size.toNat) (buffer.take size.toNat)) }
      pure 0

/-- `disk_write(0, &sb)`: the struct is shorter than a block, so the memory behind it
goes along. -/
def diskWriteSb : M Int := do
  let buffer ← ask fun w => superblockCodec.encode w.sb ++
    (List.range (w.diskBlockSize.toNat - superblockSize)).map w.behindSb
  diskWrite 0 buffer

def diskClose : M Unit := update fun w => { w with fd := .closed }

end MiniFs.Core
