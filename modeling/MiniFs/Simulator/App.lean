import Mathlib.Data.Int.Basic
import Mathlib.Algebra.GroupWithZero.Nat

/-! # The file system of the web page (`app.js`)

The file operations of the simulator as pure functions of its global state `FS`.
`ts` is what `new Date().toLocaleString('tr-TR')` gives, one text for a whole
operation: `fsCopy` with content asks for it twice, which is assumed to give the same.
The log, the performance records and the drawing are left out. Numbers are exact
integers here. `Numbers` has the doubles of JavaScript, and `Exact` and `Tracking` say where
the two agree.
-/

set_option autoImplicit false

namespace MiniFs.Simulator

/-- A string, as its UTF-16 code units. -/
abbrev JsString := List UInt16

structure File where
  name : JsString
  inode : ℕ
  size : ℕ
  content : JsString
  mode : ℕ
  blocks : List ℤ
  ctime : JsString
  mtime : JsString
  atime : JsString
  links : ℕ

structure Superblock where
  magic : ℤ
  totalBlocks : ℤ
  blockSize : ℤ
  maxInodes : ℤ
  bitmapStart : ℤ
  bitmapBlocks : ℤ
  inodeStart : ℤ
  inodeBlocks : ℤ
  dataStart : ℤ
  dataBlocks : ℤ
  freeBlocks : ℤ
  freeInodes : ℤ
  totalWrites : ℤ
  totalReads : ℤ
  bytesWritten : ℤ
  bytesRead : ℤ
  formattedAt : JsString

structure FS where
  formatted : Bool
  /-- `null` until `formatted` is set; nothing looks at it before -/
  superblock : Superblock
  files : List File
  nextInode : ℕ
  usedDataBlocks : ℤ

def FS.start : FS where
  formatted := false
  superblock := ⟨0, 0, 0, 0, 0, 0, 0, 0, 0, 0, 0, 0, 0, 0, 0, 0, []⟩
  files := []
  nextInode := 0
  usedDataBlocks := 0

inductive FsckLine where
  /-- "  [OK]   Magic number: 0x${sb.magic}" -/
  | magicOk (magic : ℤ)
  /-- "  [FAIL] Magic number corrupt" -/
  | magicCorrupt
  /-- "  [OK]   Inode count: ${FS.files.length} used / ${sb.maxInodes} total" -/
  | inodeCountOk (counted : ℕ) (maxInodes : ℤ)
  /-- "  [FAIL] Inode count mismatch: counted=${FS.files.length}, superblock says=${expectedUsed}" -/
  | inodeCountMismatch (counted : ℕ) (expected : ℤ)
  /-- "  [FAIL] Inode ${f.inode}: invalid filename" -/
  | invalidFilename (inode : ℕ)
  /-- "  [FAIL] Inode ${f.inode} ('${f.name}'): block ptr ${b} out of data range" -/
  | outOfRange (inode : ℕ) (name : JsString) (block : ℤ)
  /-- "  [FAIL] Inode ${f.inode}: block ${b} double-allocated" -/
  | doubleAllocated (inode : ℕ) (block : ℤ)
  /-- "  [OK]   Block count : ${countedBlocks} used / ${sb.dataBlocks} total" -/
  | blockCountOk (counted : ℕ) (dataBlocks : ℤ)
  /-- "  [FAIL] Block count mismatch: counted=${countedBlocks}, superblock says=${sbUsedBlocks}" -/
  | blockCountMismatch (counted : ℕ) (expected : ℤ)
  /-- "  [OK]   Bitmap structure appears consistent" -/
  | bitmapConsistent
  /-- "  fsck result: ${errors} error(s) found" and the verdict line below it -/
  | result (errors : ℕ)

/-- What the page shows, with the arguments of each text. -/
inductive Msg where
  /-- "Hata: Disk formatlanmamış." -/
  | notFormatted
  /-- "Hata: blockSize (${blockSize}) < sizeof(Inode) (144)." -/
  | blockSizeTooSmall (blockSize : ℤ)
  /-- "Hata: Disk çok küçük (${totalBlocks} blok)." -/
  | diskTooSmall (totalBlocks : ℤ)
  /-- "Hata: Blok boyutu inode için çok küçük." -/
  | blockTooSmallForInode
  /-- "Filesystem formatted successfully." and the seven lines below it -/
  | formatted (totalSize blockSize totalBlocks dataBlocks maxInodes inodesPerBlock dataStart : ℤ)
      (formattedAt : JsString)
  /-- "Hata: Dosya adı çok uzun (max 31)." -/
  | nameTooLong
  /-- "Hata: '${name}' zaten var." -/
  | exists_ (name : JsString)
  /-- "Hata: Boş inode yok." -/
  | noFreeInode
  /-- "Created '${name}'  [inode:${inode}, mode:100644]" -/
  | created (name : JsString) (inode : ℕ)
  /-- "Hata: '${name}' bulunamadı." -/
  | notFound (name : JsString)
  /-- "Deleted '${name}'  [freed ${f.blocks.length} blocks]" -/
  | deleted (name : JsString) (blocks : ℕ)
  /-- "Hata: Dosya çok büyük (max ${16 * bs} byte)." -/
  | tooLarge (maxBytes : ℤ)
  /-- "Hata: Disk dolu." -/
  | diskFull
  /-- "Wrote ${content.length} bytes to '${name}'" -/
  | wrote (length : ℕ) (name : JsString)
  /-- "Appended ${data.length} bytes to '${name}'  (total: ${newContent.length} bytes)" -/
  | appended (length : ℕ) (name : JsString) (total : ℕ)
  /-- "(boş dosya)", marked `isContent` -/
  | emptyFile
  /-- the content of a file, marked `isContent` -/
  | content (content : JsString)
  /-- "Hata: Yeni isim çok uzun." -/
  | newNameTooLong
  /-- "Renamed '${oldName}' -> '${newName}'" -/
  | renamed (oldName newName : JsString)
  /-- "Copied '${src}' -> '${dst}'  [${srcFile.size} bytes, inode:${inode}]" -/
  | copied (src dst : JsString) (size inode : ℕ)
  /-- "Changed mode of '${name}' to ${modeOctal}  (${modeStr(file.mode)})" -/
  | changedMode (name : JsString) (modeOctal : ℤ) (modeStr : List Char)
  /-- "Hata: truncate ile genişletme yapılamaz (${newSize} > ${file.size})." -/
  | cannotExtend (newSize : ℤ) (size : ℕ)
  /-- "Truncated '${name}' to ${newSize} bytes." -/
  | truncated (name : JsString) (newSize : ℤ)
  /-- the report of `fsFsck`, marked `isFsck` -/
  | fsck (lines : List FsckLine)

structure Reply where
  ok : Bool
  msg : Msg

/-- `FS.files.find(f => f.name === name)` -/
def FS.find (fs : FS) (name : JsString) : Option File := fs.files.find? fun f => f.name = name

def FS.findIndex (fs : FS) (name : JsString) : ℕ := fs.files.findIdx fun f => f.name = name

/-- The state after the fields of the file found under `name` were assigned. -/
def FS.assign (fs : FS) (name : JsString) (file : File) : FS :=
  { fs with files := fs.files.set (fs.findIndex name) file }

def modeStr (mode : ℕ) : List Char :=
  (if mode &&& 0x8000 ≠ 0 then '-' else if mode &&& 0x4000 ≠ 0 then 'd' else '-') ::
    [(0o400, 'r'), (0o200, 'w'), (0o100, 'x'), (0o40, 'r'), (0o20, 'w'), (0o10, 'x'), (0o4, 'r'),
      (0o2, 'w'), (0o1, 'x')].map fun (bit, c) => if mode &&& bit ≠ 0 then c else '-'

/-- `Math.ceil(a / b)`, for a positive `b` -/
def ceilDiv (a b : ℤ) : ℤ := -(-a / b)

def fsFormat (ts : JsString) (totalSize blockSize : ℤ) (fs : FS) : Reply × FS :=
  if blockSize < 144 then
    (⟨false, .blockSizeTooSmall blockSize⟩, fs)
  else
    let totalBlocks := totalSize / blockSize
    let bitmapBlocks := max 1 (ceilDiv totalBlocks (blockSize * 8))
    let inodeBlocks := max 1 (totalBlocks / 10)
    if 1 + bitmapBlocks + inodeBlocks ≥ totalBlocks then
      (⟨false, .diskTooSmall totalBlocks⟩, fs)
    else
      let inodesPerBlock := blockSize / 144
      let maxInodes := inodesPerBlock * inodeBlocks
      if maxInodes = 0 then
        (⟨false, .blockTooSmallForInode⟩, fs)
      else
        let dataStart := 1 + bitmapBlocks + inodeBlocks
        let dataBlocks := totalBlocks - dataStart
        (⟨true, .formatted totalSize blockSize totalBlocks dataBlocks maxInodes inodesPerBlock
            dataStart ts⟩,
          { formatted := true
            superblock := {
              magic := 0x4D494E49
              totalBlocks := totalBlocks
              blockSize := blockSize
              maxInodes := maxInodes
              bitmapStart := 1
              bitmapBlocks := bitmapBlocks
              inodeStart := 1 + bitmapBlocks
              inodeBlocks := inodeBlocks
              dataStart := dataStart
              dataBlocks := dataBlocks
              freeBlocks := dataBlocks
              freeInodes := maxInodes
              totalWrites := 0
              totalReads := 0
              bytesWritten := 0
              bytesRead := 0
              formattedAt := ts }
            files := []
            nextInode := 0
            usedDataBlocks := 0 })

def fsCreate (ts name : JsString) (fs : FS) : Reply × FS :=
  if !fs.formatted then
    (⟨false, .notFormatted⟩, fs)
  else if name.length ≥ 32 then
    (⟨false, .nameTooLong⟩, fs)
  else if (fs.find name).isSome then
    (⟨false, .exists_ name⟩, fs)
  else if fs.superblock.freeInodes ≤ 0 then
    (⟨false, .noFreeInode⟩, fs)
  else
    let file : File := ⟨name, fs.nextInode, 0, [], 0o100644, [], ts, ts, ts, 1⟩
    (⟨true, .created name fs.nextInode⟩,
      { fs with
        nextInode := fs.nextInode + 1
        files := fs.files ++ [file]
        superblock := { fs.superblock with freeInodes := fs.superblock.freeInodes - 1 } })

def fsDelete (name : JsString) (fs : FS) : Reply × FS :=
  if !fs.formatted then
    (⟨false, .notFormatted⟩, fs)
  else
    match fs.find name with
    | none => (⟨false, .notFound name⟩, fs)
    | some f =>
      (⟨true, .deleted name f.blocks.length⟩,
        { fs with
          usedDataBlocks := fs.usedDataBlocks - f.blocks.length
          superblock := { fs.superblock with
            freeBlocks := fs.superblock.freeBlocks + f.blocks.length
            freeInodes := fs.superblock.freeInodes + 1 }
          files := fs.files.eraseIdx (fs.findIndex name) })

/-- `Math.max(1, Math.ceil(content.length / bs))` -/
def needed (fs : FS) (length : ℕ) : ℤ := max 1 (ceilDiv length fs.superblock.blockSize)

/-- `_doWrite`: the message of a refusal, or the file with its new fields and the state without
the file put back. -/
def doWrite (ts : JsString) (fs : FS) (file : File) (content : JsString) :
    Except Msg (File × FS) :=
  let sb := fs.superblock
  let needed := needed fs content.length
  if needed > 16 then
    .error (.tooLarge (16 * sb.blockSize))
  else if needed > sb.freeBlocks + file.blocks.length then
    .error .diskFull
  else
    let used := fs.usedDataBlocks - file.blocks.length
    .ok ({ file with
        content := content
        size := content.length
        blocks := (List.range needed.toNat).map fun (i : ℕ) => sb.dataStart + (used + i)
        mtime := ts },
      { fs with
        usedDataBlocks := used + needed
        superblock := { sb with
          freeBlocks := sb.freeBlocks + file.blocks.length - needed
          totalWrites := sb.totalWrites + 1
          bytesWritten := sb.bytesWritten + content.length } })

def fsWrite (ts name content : JsString) (fs : FS) : Reply × FS :=
  if !fs.formatted then
    (⟨false, .notFormatted⟩, fs)
  else
    match fs.find name with
    | none => (⟨false, .notFound name⟩, fs)
    | some file =>
      match doWrite ts fs file content with
      | .error msg => (⟨false, msg⟩, fs)
      | .ok (file, fs) => (⟨true, .wrote content.length name⟩, fs.assign name file)

def fsAppend (ts name data : JsString) (fs : FS) : Reply × FS :=
  if !fs.formatted then
    (⟨false, .notFormatted⟩, fs)
  else
    match fs.find name with
    | none => (⟨false, .notFound name⟩, fs)
    | some file =>
      let newContent := file.content ++ data
      match doWrite ts fs file newContent with
      | .error msg => (⟨false, msg⟩, fs)
      | .ok (file, fs) =>
        (⟨true, .appended data.length name newContent.length⟩, fs.assign name file)

def fsRead (ts name : JsString) (fs : FS) : Reply × FS :=
  if !fs.formatted then
    (⟨false, .notFormatted⟩, fs)
  else
    match fs.find name with
    | none => (⟨false, .notFound name⟩, fs)
    | some file =>
      let fs := { fs.assign name { file with atime := ts } with
        superblock := { fs.superblock with
          totalReads := fs.superblock.totalReads + 1
          bytesRead := fs.superblock.bytesRead + file.size } }
      if file.size = 0 then (⟨true, .emptyFile⟩, fs)
      else (⟨true, .content file.content⟩, fs)

def fsRename (ts oldName newName : JsString) (fs : FS) : Reply × FS :=
  if !fs.formatted then
    (⟨false, .notFormatted⟩, fs)
  else
    match fs.find oldName with
    | none => (⟨false, .notFound oldName⟩, fs)
    | some file =>
      if (fs.find newName).isSome then
        (⟨false, .exists_ newName⟩, fs)
      else if newName.length ≥ 32 then
        (⟨false, .newNameTooLong⟩, fs)
      else
        (⟨true, .renamed oldName newName⟩,
          fs.assign oldName { file with name := newName, mtime := ts })

/-- If the content finds no room, the new file and its inode are given back, but not the inode
number. The length of `dst` is not checked. -/
def fsCopy (ts src dst : JsString) (fs : FS) : Reply × FS :=
  if !fs.formatted then
    (⟨false, .notFormatted⟩, fs)
  else
    match fs.find src with
    | none => (⟨false, .notFound src⟩, fs)
    | some srcFile =>
      if (fs.find dst).isSome then
        (⟨false, .exists_ dst⟩, fs)
      else if fs.superblock.freeInodes ≤ 0 then
        (⟨false, .noFreeInode⟩, fs)
      else
        let inode := fs.nextInode
        let newFile : File := ⟨dst, inode, 0, [], srcFile.mode, [], ts, ts, ts, 1⟩
        let pushed := { fs with
          nextInode := inode + 1
          files := fs.files ++ [newFile]
          superblock := { fs.superblock with freeInodes := fs.superblock.freeInodes - 1 } }
        if srcFile.size > 0 then
          match doWrite ts pushed newFile srcFile.content with
          | .error msg =>
            (⟨false, msg⟩, { pushed with
              files := pushed.files.dropLast
              superblock := { pushed.superblock with
                freeInodes := pushed.superblock.freeInodes + 1 } })
          | .ok (newFile, written) =>
            (⟨true, .copied src dst srcFile.size inode⟩,
              { written with files := written.files.dropLast ++ [newFile] })
        else
          (⟨true, .copied src dst srcFile.size inode⟩, pushed)

/-- `modeOctal & 0x0FFF` keeps the last twelve bits. -/
def fsChmod (ts name : JsString) (modeOctal : ℤ) (fs : FS) : Reply × FS :=
  if !fs.formatted then
    (⟨false, .notFormatted⟩, fs)
  else
    match fs.find name with
    | none => (⟨false, .notFound name⟩, fs)
    | some file =>
      let typeBits := file.mode &&& 0xF000
      let file := { file with mode := typeBits ||| (modeOctal % 0x1000).toNat, mtime := ts }
      (⟨true, .changedMode name modeOctal (modeStr file.mode)⟩, fs.assign name file)

/-- `content.slice(0, end)`; a negative `end` counts from the back. -/
def sliceTo (content : JsString) (end_ : ℤ) : JsString :=
  content.take (if end_ < 0 then content.length + end_ else end_).toNat

def fsTruncate (ts name : JsString) (newSize : ℤ) (fs : FS) : Reply × FS :=
  if !fs.formatted then
    (⟨false, .notFormatted⟩, fs)
  else
    match fs.find name with
    | none => (⟨false, .notFound name⟩, fs)
    | some file =>
      if newSize > file.size then
        (⟨false, .cannotExtend newSize file.size⟩, fs)
      else
        match doWrite ts fs file (sliceTo file.content newSize) with
        | .error msg => (⟨false, msg⟩, fs)
        | .ok (file, fs) => (⟨true, .truncated name newSize⟩, fs.assign name file)

/-! ## Consistency check -/

/-- The complaints about one block, `dups` being the blocks seen before. -/
def fsckBlock (sb : Superblock) (f : File) (dups : List ℤ) (b : ℤ) : List FsckLine :=
  (if b < sb.dataStart ∨ b ≥ sb.totalBlocks then [.outOfRange f.inode f.name b] else []) ++
    if b ∈ dups then [.doubleAllocated f.inode b] else []

def fsckBlocks (sb : Superblock) (f : File) : (blocks dups : List ℤ) → List FsckLine
  | [], _ => []
  | b :: blocks, dups => fsckBlock sb f dups b ++ fsckBlocks sb f blocks (b :: dups)

def fsckFiles (sb : Superblock) : (files : List File) → (dups : List ℤ) → List FsckLine
  | [], _ => []
  | f :: files, dups =>
    (if f.name.length = 0 ∨ f.name.length ≥ 32 then [.invalidFilename f.inode] else []) ++
      fsckBlocks sb f f.blocks dups ++ fsckFiles sb files (f.blocks.reverse ++ dups)

/-- Every line marked [FAIL] counts as one error. -/
def fsFsck (fs : FS) : Reply :=
  if !fs.formatted then
    ⟨false, .notFormatted⟩
  else
    let sb := fs.superblock
    let badMagic := sb.magic ≠ 0x4D494E49
    let expectedUsed := sb.maxInodes - sb.freeInodes
    let badInodes := (fs.files.length : ℤ) ≠ expectedUsed
    let complaints := fsckFiles sb fs.files []
    let countedBlocks := (fs.files.map fun f => f.blocks.length).sum
    let sbUsedBlocks := sb.dataBlocks - sb.freeBlocks
    let badBlocks := (countedBlocks : ℤ) ≠ sbUsedBlocks
    let errors := (if badMagic then 1 else 0) + (if badInodes then 1 else 0) +
      complaints.length + if badBlocks then 1 else 0
    ⟨errors = 0, .fsck (
      [if badMagic then .magicCorrupt else .magicOk sb.magic,
        if badInodes then .inodeCountMismatch fs.files.length expectedUsed
        else .inodeCountOk fs.files.length sb.maxInodes] ++ complaints ++
      [if badBlocks then .blockCountMismatch countedBlocks sbUsedBlocks
        else .blockCountOk countedBlocks sb.dataBlocks, .bitmapConsistent, .result errors])⟩

/-! ## Calls -/

inductive Op where
  | create (name : JsString)
  | write (name content : JsString)
  | append (name data : JsString)
  | read (name : JsString)
  | rename (oldName newName : JsString)
  | copy (src dst : JsString)
  | truncate (name : JsString) (newSize : ℤ)
  | chmod (name : JsString) (modeOctal : ℤ)
  | delete (name : JsString)

def perform (ts : JsString) : Op → FS → Reply × FS
  | .create name => fsCreate ts name
  | .write name content => fsWrite ts name content
  | .append name data => fsAppend ts name data
  | .read name => fsRead ts name
  | .rename oldName newName => fsRename ts oldName newName
  | .copy src dst => fsCopy ts src dst
  | .truncate name newSize => fsTruncate ts name newSize
  | .chmod name modeOctal => fsChmod ts name modeOctal
  | .delete name => fsDelete name

/-- A call with the time string it takes. -/
structure Call where
  op : Op
  ts : JsString

def performAll (calls : List Call) (fs : FS) : FS :=
  calls.foldl (fun fs c => (perform c.ts c.op fs).2) fs

end MiniFs.Simulator
