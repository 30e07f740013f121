import MiniFs.Library.Double
import MiniFs.Simulator.BlockGrid
import MiniFs.Simulator.CommandLine

/-! # The page with the numbers of JavaScript

The functions of `App` once more, with numbers in double precision: sums that are
rounded above 2^53, infinite sizes, and NaN for a text without a digit in front.
Sizes of strings and lists are natural numbers that become doubles where the page
computes with them.
-/

set_option autoImplicit false

namespace MiniFs.Simulator.Numbers
open Library

/-! ## The state -/

structure File where
  name : JsString
  inode : Double
  size : ℕ
  content : JsString
  mode : ℕ
  blocks : List Double
  ctime : JsString
  mtime : JsString
  atime : JsString
  links : ℕ

/-- A block size that has passed the check of `fsFormat`. -/
structure BlockSize where
  value : Double
  checked : value.lt 144 = false

structure Superblock where
  magic : Double
  totalBlocks : Double
  blockSize : BlockSize
  maxInodes : Double
  bitmapStart : Double
  bitmapBlocks : Double
  inodeStart : Double
  inodeBlocks : Double
  dataStart : Double
  dataBlocks : Double
  freeBlocks : Double
  freeInodes : Double
  totalWrites : Double
  totalReads : Double
  bytesWritten : Double
  bytesRead : Double
  formattedAt : JsString

/-- The global `FS`. `formatted` is set and reset with `superblock`. -/
structure FS where
  superblock : Option Superblock
  files : List File
  nextInode : Double
  usedDataBlocks : Double

def FS.start : FS := ⟨none, [], 0, 0⟩

inductive FsckLine where
  | magicOk (magic : Double)
  | magicCorrupt
  | inodeCountOk (counted : ℕ) (maxInodes : Double)
  | inodeCountMismatch (counted : ℕ) (expected : Double)
  | invalidFilename (inode : Double)
  | outOfRange (inode : Double) (name : JsString) (block : Double)
  | doubleAllocated (inode block : Double)
  | blockCountOk (counted dataBlocks : Double)
  | blockCountMismatch (counted expected : Double)
  | bitmapConsistent
  | result (errors : ℕ)

/-- The messages, as in `App`. -/
inductive Msg where
  | notFormatted
  | blockSizeTooSmall (blockSize : Double)
  | diskTooSmall (totalBlocks : Double)
  | blockTooSmallForInode
  | formatted (totalSize blockSize totalBlocks dataBlocks maxInodes inodesPerBlock
      dataStart : Double) (formattedAt : JsString)
  | nameTooLong
  | exists_ (name : JsString)
  | noFreeInode
  | created (name : JsString) (inode : Double)
  | notFound (name : JsString)
  | deleted (name : JsString) (blocks : ℕ)
  | tooLarge (maxBytes : Double)
  | diskFull
  | wrote (length : ℕ) (name : JsString)
  | appended (length : ℕ) (name : JsString) (total : ℕ)
  | emptyFile
  | content (content : JsString)
  | newNameTooLong
  | renamed (oldName newName : JsString)
  | copied (src dst : JsString) (size : ℕ) (inode : Double)
  | changedMode (name : JsString) (modeOctal : Double) (modeStr : List Char)
  | cannotExtend (newSize : Double) (size : ℕ)
  | truncated (name : JsString) (newSize : Double)
  | fsck (lines : List FsckLine)

structure Reply where
  ok : Bool
  msg : Msg

def FS.find (fs : FS) (name : JsString) : Option File := fs.files.find? fun f => f.name = name

def FS.findIndex (fs : FS) (name : JsString) : ℕ := fs.files.findIdx fun f => f.name = name

def FS.assign (fs : FS) (name : JsString) (file : File) : FS :=
  { fs with files := fs.files.set (fs.findIndex name) file }

/-! ## Numbers used as integers -/

def truncated (q : ℚ) : ℤ := if q < 0 then ⌈q⌉ else ⌊q⌋

/-- `content.slice(0, end)`. NaN counts as zero. -/
def slice (content : JsString) : Double → JsString
  | .nan => []
  | .inf negative => if negative then [] else content
  | .fin q _ => sliceTo content (truncated q)

/-- `mode & 0x0FFF`. NaN and the infinities count as zero. -/
def lowBits (mode : Double) : ℕ :=
  match mode.value with
  | some q => (truncated q % 0x1000).toNat
  | none => 0

/-- How often a loop runs that counts up to `n`; not at all if this is NaN. -/
def rounds (n : Double) : ℕ :=
  match n.value with
  | some q => ⌈q⌉.toNat
  | none => 0

/-! ## The functions -/

def fsFormat (ts : JsString) (totalSize blockSize : Double) (fs : FS) : Reply × FS :=
  if hsmall : blockSize.lt 144 = true then
    (⟨false, .blockSizeTooSmall blockSize⟩, fs)
  else
    let totalBlocks := (totalSize / blockSize).floor
    let bitmapBlocks := Double.max 1 (totalBlocks / (blockSize * 8)).ceil
    let inodeBlocks := Double.max 1 (totalBlocks / 10).floor
    if totalBlocks.le (1 + bitmapBlocks + inodeBlocks) then
      (⟨false, .diskTooSmall totalBlocks⟩, fs)
    else
      let inodesPerBlock := (blockSize / 144).floor
      let maxInodes := inodesPerBlock * inodeBlocks
      if maxInodes.equal 0 then
        (⟨false, .blockTooSmallForInode⟩, fs)
      else
        let dataStart := 1 + bitmapBlocks + inodeBlocks
        let dataBlocks := totalBlocks - dataStart
        (⟨true, .formatted totalSize blockSize totalBlocks dataBlocks maxInodes inodesPerBlock
            dataStart ts⟩,
          { superblock := some {
              magic := 0x4D494E49
              totalBlocks := totalBlocks
              blockSize := ⟨blockSize, Bool.eq_false_of_not_eq_true hsmall⟩
              maxInodes := maxInodes
              bitmapStart := 1
              bitmapBlocks := bitmapBlocks
              inodeStart := 1 + bitmapBlocks
              inodeBlocks := inodeBlocks
              dataStart := dataStart
              dataBlocks := dataBlocks
              freeBlocks := dataBlocks
              freeInodes := maxInodes
              totalWrites := 0
              totalReads := 0
              bytesWritten := 0
              bytesRead := 0
              formattedAt := ts }
            files := []
            nextInode := 0
            usedDataBlocks := 0 })

def fsCreate (ts name : JsString) (fs : FS) : Reply × FS :=
  match fs.superblock with
  | none => (⟨false, .notFormatted⟩, fs)
  | some sb =>
    if name.length ≥ 32 then
      (⟨false, .nameTooLong⟩, fs)
    else if (fs.find name).isSome then
      (⟨false, .exists_ name⟩, fs)
    else if sb.freeInodes.le 0 then
      (⟨false, .noFreeInode⟩, fs)
    else
      let file : File := ⟨name, fs.nextInode, 0, [], 0o100644, [], ts, ts, ts, 1⟩
      (⟨true, .created name fs.nextInode⟩,
        { fs with
          nextInode := fs.nextInode + 1
          files := fs.files ++ [file]
          superblock := some { sb with freeInodes := sb.freeInodes - 1 } })

def fsDelete (name : JsString) (fs : FS) : Reply × FS :=
  match fs.superblock with
  | none => (⟨false, .notFormatted⟩, fs)
  | some sb =>
    match fs.find name with
    | none => (⟨false, .notFound name⟩, fs)
    | some f =>
      (⟨true, .deleted name f.blocks.length⟩,
        { fs with
          usedDataBlocks := fs.usedDataBlocks - f.blocks.length
          superblock := some { sb with
            freeBlocks := sb.freeBlocks + f.blocks.length
            freeInodes := sb.freeInodes + 1 }
          files := fs.files.eraseIdx (fs.findIndex name) })

/-- `Math.max(1, Math.ceil(content.length / bs))` -/
def needed (sb : Superblock) (length : ℕ) : Double :=
  Double.max 1 ((length : Double) / sb.blockSize.value).ceil

/-- The loop of `_doWrite`: the block numbers it pushes, and `usedDataBlocks` after it. -/
def takeBlocks (dataStart : Double) : (rounds : ℕ) → (used : Double) → List Double × Double
  | 0, used => ([], used)
  | rounds + 1, used =>
    let (blocks, after) := takeBlocks dataStart rounds (used + 1)
    ((dataStart + used) :: blocks, after)

/-- `_doWrite`; `sb` is `FS.superblock`. -/
def doWrite (ts : JsString) (fs : FS) (sb : Superblock) (file : File) (content : JsString) :
    Except Msg (File × FS) :=
  let needed := needed sb content.length
  if Double.lt 16 needed then
    .error (.tooLarge (16 * sb.blockSize.value))
  else if (sb.freeBlocks + file.blocks.length).lt needed then
    .error .diskFull
  else
    let (newBlocks, used) := takeBlocks sb.dataStart (rounds needed)
      (fs.usedDataBlocks - file.blocks.length)
    .ok ({ file with
        content := content
        size := content.length
        blocks := newBlocks
        mtime := ts },
      { fs with
        usedDataBlocks := used
        superblock := some { sb with
          freeBlocks := sb.freeBlocks + file.blocks.length - needed
          totalWrites := sb.totalWrites + 1
          bytesWritten := sb.bytesWritten + content.length } })

def fsWrite (ts name content : JsString) (fs : FS) : Reply × FS :=
  match fs.superblock with
  | none => (⟨false, .notFormatted⟩, fs)
  | some sb =>
    match fs.find name with
    | none => (⟨false, .notFound name⟩, fs)
    | some file =>
      match doWrite ts fs sb file content with
      | .error msg => (⟨false, msg⟩, fs)
      | .ok (file, fs) => (⟨true, .wrote content.length name⟩, fs.assign name file)

def fsAppend (ts name data : JsString) (fs : FS) : Reply × FS :=
  match fs.superblock with
  | none => (⟨false, .notFormatted⟩, fs)
  | some sb =>
    match fs.find name with
    | none => (⟨false, .notFound name⟩, fs)
    | some file =>
      let newContent := file.content ++ data
      match doWrite ts fs sb file newContent with
      | .error msg => (⟨false, msg⟩, fs)
      | .ok (file, fs) =>
        (⟨true, .appended data.length name newContent.length⟩, fs.assign name file)

def fsRead (ts name : JsString) (fs : FS) : Reply × FS :=
  match fs.superblock with
  | none => (⟨false, .notFormatted⟩, fs)
  | some sb =>
    match fs.find name with
    | none => (⟨false, .notFound name⟩, fs)
    | some file =>
      let fs := { fs.assign name { file with atime := ts } with
        superblock := some { sb with
          totalReads := sb.totalReads + 1
          bytesRead := sb.bytesRead + file.size } }
      if file.size = 0 then (⟨true, .emptyFile⟩, fs)
      else (⟨true, .content file.content⟩, fs)

def fsRename (ts oldName newName : JsString) (fs : FS) : Reply × FS :=
  if fs.superblock.isNone then
    (⟨false, .notFormatted⟩, fs)
  else
    match fs.find oldName with
    | none => (⟨false, .notFound oldName⟩, fs)
    | some file =>
      if (fs.find newName).isSome then
        (⟨false, .exists_ newName⟩, fs)
      else if newName.length ≥ 32 then
        (⟨false, .newNameTooLong⟩, fs)
      else
        (⟨true, .renamed oldName newName⟩,
          fs.assign oldName { file with name := newName, mtime := ts })

def fsCopy (ts src dst : JsString) (fs : FS) : Reply × FS :=
  match fs.superblock with
  | none => (⟨false, .notFormatted⟩, fs)
  | some sb =>
    match fs.find src with
    | none => (⟨false, .notFound src⟩, fs)
    | some srcFile =>
      if (fs.find dst).isSome then
        (⟨false, .exists_ dst⟩, fs)
      else if sb.freeInodes.le 0 then
        (⟨false, .noFreeInode⟩, fs)
      else
        let inode := fs.nextInode
        let newFile : File := ⟨dst, inode, 0, [], srcFile.mode, [], ts, ts, ts, 1⟩
        let taken := { sb with freeInodes := sb.freeInodes - 1 }
        let pushed := { fs with
          nextInode := inode + 1
          files := fs.files ++ [newFile]
          superblock := some taken }
        if srcFile.size > 0 then
          match doWrite ts pushed taken newFile srcFile.content with
          | .error msg =>
            (⟨false, msg⟩, { pushed with
              files := pushed.files.dropLast
              superblock := some { taken with freeInodes := taken.freeInodes + 1 } })
          | .ok (newFile, written) =>
            (⟨true, .copied src dst srcFile.size inode⟩,
              { written with files := written.files.dropLast ++ [newFile] })
        else
          (⟨true, .copied src dst srcFile.size inode⟩, pushed)

def fsChmod (ts name : JsString) (modeOctal : Double) (fs : FS) : Reply × FS :=
  if fs.superblock.isNone then
    (⟨false, .notFormatted⟩, fs)
  else
    match fs.find name with
    | none => (⟨false, .notFound name⟩, fs)
    | some file =>
      let typeBits := file.mode &&& 0xF000
      let file := { file with mode := typeBits ||| lowBits modeOctal, mtime := ts }
      (⟨true, .changedMode name modeOctal (modeStr file.mode)⟩, fs.assign name file)

def fsTruncate (ts name : JsString) (newSize : Double) (fs : FS) : Reply × FS :=
  match fs.superblock with
  | none => (⟨false, .notFormatted⟩, fs)
  | some sb =>
    match fs.find name with
    | none => (⟨false, .notFound name⟩, fs)
    | some file =>
      if Double.lt file.size newSize then
        (⟨false, .cannotExtend newSize file.size⟩, fs)
      else
        match doWrite ts fs sb file (slice file.content newSize) with
        | .error msg => (⟨false, msg⟩, fs)
        | .ok (file, fs) => (⟨true, .truncated name newSize⟩, fs.assign name file)

/-! ## Consistency check -/

def fsckBlock (sb : Superblock) (f : File) (dups : List Double) (b : Double) : List FsckLine :=
  (if b.lt sb.dataStart || sb.totalBlocks.le b then [.outOfRange f.inode f.name b] else []) ++
    if b ∈ dups then [.doubleAllocated f.inode b] else []

def fsckBlocks (sb : Superblock) (f : File) : (blocks dups : List Double) → List FsckLine
  | [], _ => []
  | b :: blocks, dups => fsckBlock sb f dups b ++ fsckBlocks sb f blocks (b :: dups)

def fsckFiles (sb : Superblock) : (files : List File) → (dups : List Double) → List FsckLine
  | [], _ => []
  | f :: files, dups =>
    (if f.name.length = 0 ∨ f.name.length ≥ 32 then [.invalidFilename f.inode] else []) ++
      fsckBlocks sb f f.blocks dups ++ fsckFiles sb files (f.blocks.reverse ++ dups)

def fsFsck (fs : FS) : Reply :=
  match fs.superblock with
  | none => ⟨false, .notFormatted⟩
  | some sb =>
    let goodMagic := sb.magic.equal 0x4D494E49
    let expectedUsed := sb.maxInodes - sb.freeInodes
    let goodInodes := Double.equal fs.files.length expectedUsed
    let complaints := fsckFiles sb fs.files []
    let countedBlocks := (fs.files.map fun f => (f.blocks.length : Double)).foldl (· + ·) 0
    let sbUsedBlocks := sb.dataBlocks - sb.freeBlocks
    let goodBlocks := countedBlocks.equal sbUsedBlocks
    let errors := (if goodMagic then 0 else 1) + (if goodInodes then 0 else 1) +
      complaints.length + if goodBlocks then 0 else 1
    ⟨errors = 0, .fsck (
      [if goodMagic then .magicOk sb.magic else .magicCorrupt,
        if goodInodes then .inodeCountOk fs.files.length sb.maxInodes
        else .inodeCountMismatch fs.files.length expectedUsed] ++ complaints ++
      [if goodBlocks then .blockCountOk countedBlocks sb.dataBlocks
        else .blockCountMismatch countedBlocks sbUsedBlocks, .bitmapConsistent, .result errors])⟩

/-! ## Disk map -/

inductive Tip where
  | block (real : Double)
  | superblock
  | bitmap (idx : Double)
  | inode (idx : Double)
  | owned (dataIdx : Double) (owner : JsString)
  | full (dataIdx : Double)
  | empty (dataIdx : Double)

structure DrawnBlock where
  real : Double
  type : BlockType
  tip : Tip

def drawBlock (fs : FS) (sb : Superblock) (real : Double) : DrawnBlock :=
  if real.equal 0 then
    ⟨real, .sb, .superblock⟩
  else if sb.bitmapStart.le real && real.lt (sb.bitmapStart + sb.bitmapBlocks) then
    ⟨real, .bm, .bitmap (real - sb.bitmapStart)⟩
  else if sb.inodeStart.le real && real.lt (sb.inodeStart + sb.inodeBlocks) then
    ⟨real, .in_, .inode (real - sb.inodeStart)⟩
  else if sb.dataStart.le real then
    let dataIdx := real - sb.dataStart
    if dataIdx.lt fs.usedDataBlocks then
      match fs.files.find? fun f => f.blocks.contains real with
      | some owner => ⟨real, .du, .owned dataIdx owner.name⟩
      | none => ⟨real, .du, .full dataIdx⟩
    else
      ⟨real, .df, .empty dataIdx⟩
  else
    ⟨real, .df, .block real⟩

def drawRatio (sb : Superblock) : Double := (sb.totalBlocks / 300).ceil

def refreshBlockGrid (fs : FS) : Option (List DrawnBlock) :=
  fs.superblock.map fun sb =>
    let ratio := drawRatio sb
    let count := (sb.totalBlocks / ratio).ceil
    (List.range (rounds count)).map fun (i : ℕ) => drawBlock fs sb (i * ratio)

/-! ## Calls -/

def perform (ts : JsString) : Op → FS → Reply × FS
  | .create name => fsCreate ts name
  | .write name content => fsWrite ts name content
  | .append name data => fsAppend ts name data
  | .read name => fsRead ts name
  | .rename oldName newName => fsRename ts oldName newName
  | .copy src dst => fsCopy ts src dst
  | .truncate name newSize => fsTruncate ts name newSize
  | .chmod name modeOctal => fsChmod ts name modeOctal
  | .delete name => fsDelete name

def performAll (calls : List Call) (fs : FS) : FS :=
  calls.foldl (fun fs c => (perform c.ts c.op fs).2) fs

/-- The number `parseInt` gives for an integer it has read. -/
def number : Option ℤ → Double
  | some n => n
  | none => .nan

/-- The branches of `parseAndRun` that change the state. -/
def parseAndRun (ts raw : JsString) (fs : FS) : Option (Reply × FS) :=
  match parseCommand raw with
  | .format totalSize blockSize => some (fsFormat ts (number totalSize) (number blockSize) fs)
  | .op op => some (perform ts op fs)
  | .truncate name newSize => some (fsTruncate ts name (number newSize) fs)
  | .chmod name modeOctal => some (fsChmod ts name (number modeOctal) fs)
  | _ => none

/-- The strings a call makes are shorter than 2^53, as all strings of JavaScript are. -/
def Makes (fs : FS) : Op → Prop
  | .write _ content => content.length < 2 ^ 53
  | .append name data => ∀ f, fs.find name = some f → (f.content ++ data).length < 2 ^ 53
  | _ => True

end MiniFs.Simulator.Numbers
