import MiniFs.Core.FileOps
import MiniFs.Library.Lines
import MiniFs.Library.Printf
import MiniFs.Logger.Delivery

/-! # What the file system logs

The calls of `fs_log` in `fs.c` with the arguments of their formats. The numbers are
those of the types the code prints them with; names are the strings the operation was
called with.
-/

set_option autoImplicit false

namespace MiniFs.Logger
open MiniFs.Core Library Library.Printf

/-- `struct tm` as `localtime` fills it; `tm_mday` starts at 1. -/
structure Tm where
  tmSec : Fin 61
  tmMin : Fin 60
  tmHour : Fin 24
  tmMday : Fin 32
  tmMon : Fin 12
  /-- years since 1900 -/
  tmYear : Int32

/-- `strftime(buf, 64, "%Y-%m-%d %H:%M:%S", t)` -/
def Tm.text (t : Tm) : List UInt8 :=
  signed (t.tmYear.toInt + 1900) ++ Printf.ascii "-" ++ padded 10 2 (t.tmMon.val + 1) ++
    Printf.ascii "-" ++ padded 10 2 t.tmMday.val ++ Printf.ascii " " ++
    padded 10 2 t.tmHour.val ++ Printf.ascii ":" ++ padded 10 2 t.tmMin.val ++
    Printf.ascii ":" ++ padded 10 2 t.tmSec.val

/-- A call of `fs_log`, less the time it is made at. -/
inductive LogCall where
  /-- "FORMAT: size=%u bytes, block_size=%u, blocks=%u, max_inodes=%u, at=%s" -/
  | format (totalSize blockSize totalBlocks maxInodes : UInt32) (at_ : Tm)
  /-- "MOUNT: free_blocks=%u, free_inodes=%u" -/
  | mount (freeBlocks freeInodes : UInt32)
  /-- "UNMOUNT: total_writes=%llu, total_reads=%llu, bytes_written=%llu, bytes_read=%llu" -/
  | unmount (totalWrites totalReads bytesWritten bytesRead : UInt64)
  /-- "CREATE: '%s' (inode %u, mode %04o)" -/
  | create (name : CStr) (id : UInt32) (mode : UInt16)
  /-- "DELETE: '%s' (inode %u, freed %u blocks)" -/
  | delete (name : CStr) (id blocksUsed : UInt32)
  /-- "WRITE: '%s' %u bytes (inode %u)" -/
  | write (name : CStr) (dataLen id : UInt32)
  /-- "APPEND: '%s' +%u bytes (total %u)" -/
  | append (name : CStr) (appLen newLen : UInt32)
  /-- "READ: '%s' 0 bytes (empty)" -/
  | readEmpty (name : CStr)
  /-- "READ: '%s' %u bytes (inode %u)" -/
  | read (name : CStr) (size id : UInt32)
  /-- "RENAME: '%s' -> '%s' (inode %u)" -/
  | rename (oldName newName : CStr) (id : UInt32)
  /-- "COPY: '%s' -> '%s' (%u bytes, inode %u)" -/
  | copy (src dst : CStr) (size id : UInt32)
  /-- "TRUNCATE: '%s' -> %u bytes (freed %u blocks)" -/
  | truncate (name : CStr) (newSize freed : UInt32)
  /-- "CHMOD: '%s' -> %04o (%s)", the mode bits and the text of the whole mode -/
  | chmod (name : CStr) (mode : UInt16)
  /-- "LS: %d files" -/
  | ls (count : Int32)
  /-- "STAT: '%s' inode=%u size=%u" -/
  | stat (name : CStr) (id size : UInt32)
  /-- "STATFS: free_blocks=%u, free_inodes=%u" -/
  | statfs (freeBlocks freeInodes : UInt32)
  /-- "FSCK: %d errors found" -/
  | fsck (errors : Int32)

namespace LogCall

def modeStr (mode : UInt16) : List UInt8 := (modeToStr mode).map fun c => UInt8.ofNat c.toNat

open Printf.Piece in
def pieces : LogCall → List Piece
  | format totalSize blockSize totalBlocks maxInodes at_ =>
    [lit "FORMAT: size=", u totalSize, lit " bytes, block_size=", u blockSize, lit ", blocks=",
      u totalBlocks, lit ", max_inodes=", u maxInodes, lit ", at=", str at_.text]
  | mount freeBlocks freeInodes =>
    [lit "MOUNT: free_blocks=", u freeBlocks, lit ", free_inodes=", u freeInodes]
  | unmount totalWrites totalReads bytesWritten bytesRead =>
    [lit "UNMOUNT: total_writes=", llu totalWrites, lit ", total_reads=", llu totalReads,
      lit ", bytes_written=", llu bytesWritten, lit ", bytes_read=", llu bytesRead]
  | create name id mode =>
    [lit "CREATE: '", str name.bytes, lit "' (inode ", u id, lit ", mode ", o4 mode, lit ")"]
  | delete name id blocksUsed =>
    [lit "DELETE: '", str name.bytes, lit "' (inode ", u id, lit ", freed ", u blocksUsed,
      lit " blocks)"]
  | write name dataLen id =>
    [lit "WRITE: '", str name.bytes, lit "' ", u dataLen, lit " bytes (inode ", u id, lit ")"]
  | append name appLen newLen =>
    [lit "APPEND: '", str name.bytes, lit "' +", u appLen, lit " bytes (total ", u newLen, lit ")"]
  | readEmpty name => [lit "READ: '", str name.bytes, lit "' 0 bytes (empty)"]
  | read name size id =>
    [lit "READ: '", str name.bytes, lit "' ", u size, lit " bytes (inode ", u id, lit ")"]
  | rename oldName newName id =>
    [lit "RENAME: '", str oldName.bytes, lit "' -> '", str newName.bytes, lit "' (inode ", u id,
      lit ")"]
  | copy src dst size id =>
    [lit "COPY: '", str src.bytes, lit "' -> '", str dst.bytes, lit "' (", u size,
      lit " bytes, inode ", u id, lit ")"]
  | truncate name newSize freed =>
    [lit "TRUNCATE: '", str name.bytes, lit "' -> ", u newSize, lit " bytes (freed ", u freed,
      lit " blocks)"]
  | chmod name mode =>
    [lit "CHMOD: '", str name.bytes, lit "' -> ", o4 (mode &&& 0x0FFF), lit " (",
      str (modeStr mode), lit ")"]
  | ls count => [lit "LS: ", d count, lit " files"]
  | stat name id size => [lit "STAT: '", str name.bytes, lit "' inode=", u id, lit " size=", u size]
  | statfs freeBlocks freeInodes =>
    [lit "STATFS: free_blocks=", u freeBlocks, lit ", free_inodes=", u freeInodes]
  | fsck errors => [lit "FSCK: ", d errors, lit " errors found"]

def names : LogCall → List CStr
  | format .. | mount .. | unmount .. | ls _ | statfs .. | fsck _ => []
  | create name .. | delete name .. | write name .. | append name .. | readEmpty name
  | read name .. | truncate name .. | chmod name _ | stat name .. => [name]
  | rename oldName newName _ => [oldName, newName]
  | copy src dst .. => [src, dst]

/-! ## The bytes of a message -/

theorem not_mem_timeText {b : UInt8} (hb : b = 0 ∨ b = 0x0A) (t : Tm) : b ∉ t.text := by
  have hlow : b.toNat < 0x2D := by rcases hb with rfl | rfl <;> decide
  have hpadded (w n : ℕ) : b ∉ padded 10 w n := fun h =>
    absurd (le_of_mem_padded (by decide) (le_refl 10) h) (by omega)
  have hsigned (z : ℤ) : b ∉ signed z := fun h => absurd (le_of_mem_signed h) (by omega)
  have hlit : b ∉ Printf.ascii "-" ∧ b ∉ Printf.ascii " " ∧ b ∉ Printf.ascii ":" := by
    rcases hb with rfl | rfl <;> decide
  obtain ⟨h1, h2, h3⟩ := hlit
  simp only [Tm.text, List.mem_append, hsigned, hpadded, h1, h2, h3, or_self, not_false_iff]

theorem not_mem_modeStr {b : UInt8} (hb : b = 0 ∨ b = 0x0A) (mode : UInt16) : b ∉ modeStr mode := by
  intro h
  rw [modeStr, modeToStr, List.map_map] at h
  obtain ⟨⟨bit, letter⟩, hp, rfl⟩ := List.mem_map.mp h
  have hletter : letter ∈ ['d', 'r', 'w', 'x'] := by
    simp only [List.mem_cons, List.not_mem_nil, or_false, Prod.mk.injEq] at hp
    rcases hp with h | h | h | h | h | h | h | h | h | h <;> rw [h.2] <;> decide
  simp only [Function.comp_apply] at hb
  split_ifs at hb
  · simp only [List.mem_cons, List.not_mem_nil, or_false] at hletter
    rcases hletter with rfl | rfl | rfl | rfl <;> exact absurd hb (by decide)
  · exact absurd hb (by decide)

/-- Of the bytes that matter, NUL and line end, a message has those of its names. -/
theorem mem_format_iff_names {b : UInt8} (hb : b = 0 ∨ b = 0x0A) (c : LogCall) :
    b ∈ Printf.format c.pieces ↔ ∃ name ∈ c.names, b ∈ name.bytes := by
  have hlow : b.toNat < 0x2D := by rcases hb with rfl | rfl <;> decide
  have htime := not_mem_timeText hb
  have hmode := not_mem_modeStr hb
  rw [Printf.mem_format_iff hlow]
  rcases hb with rfl | rfl <;> cases c <;>
    simp +decide [pieces, names, Piece.text, htime, hmode]

/-- The message as `vsnprintf` would print it whole. -/
def text (c : LogCall) : CStr where
  bytes := Printf.format c.pieces
  noNul := by
    rw [mem_format_iff_names (.inl rfl)]
    rintro ⟨name, -, h⟩
    exact name.noNul h

theorem newline_mem_iff (c : LogCall) :
    0x0A ∈ c.text.bytes ↔ ∃ name ∈ c.names, 0x0A ∈ name.bytes :=
  mem_format_iff_names (.inr rfl) c

end LogCall

def Tm.timeBuf (t : Tm) : CStr := ⟨t.text, LogCall.not_mem_timeText (.inl rfl) t⟩

end MiniFs.Logger
