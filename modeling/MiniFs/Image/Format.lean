import MiniFs.Image.Mount

/-! # Formatting

Which sizes `fs_format` accepts, and the volume it leaves on the disk.
-/

set_option autoImplicit false

namespace MiniFs.Image
open MiniFs.Core Library Library.Exec Library.ByteRange Library.BitArray Library.Chunks
open Library.Ownership

def formatBitmapBlocks (totalSize blockSize : UInt32) : UInt32 :=
  (totalSize / blockSize + blockSize * 8 - 1) / (blockSize * 8)

def formatInodeBlocks (totalSize blockSize : UInt32) : UInt32 :=
  if totalSize / blockSize / 10 = 0 then 1 else totalSize / blockSize / 10

structure Formattable (totalSize blockSize : UInt32) : Prop where
  inode_le : inodeSize ≤ blockSize
  bits_ne : blockSize * 8 ≠ 0
  room : 1 + formatBitmapBlocks totalSize blockSize + formatInodeBlocks totalSize blockSize <
    totalSize / blockSize

section Sizes
variable {totalSize blockSize : UInt32}

theorem toNat_formatInodeBlocks (totalSize blockSize : UInt32) :
    (formatInodeBlocks totalSize blockSize).toNat =
      max 1 (totalSize.toNat / blockSize.toNat / 10) := by
  have hdiv : (totalSize / blockSize / 10).toNat = totalSize.toNat / blockSize.toNat / 10 := by
    rw [UInt32.toNat_div, UInt32.toNat_div]
    rfl
  unfold formatInodeBlocks
  split_ifs with h
  · rw [h, UInt32.toNat_zero] at hdiv
    rw [← hdiv]
    rfl
  · have hne : totalSize.toNat / blockSize.toNat / 10 ≠ 0 := by
      rw [← hdiv]
      exact fun h0 => h (UInt32.toNat_inj.mp h0)
    omega

/-- The bits of a block, in the 32 bits they are computed in: they wrap only for blocks
of 2^29 bytes and more, of which a disk has fewer than eight. -/
theorem bits_fit {b t n : ℕ} (hb : 144 ≤ b) (ht : t < 2 ^ 32) (hn : n = t / b) :
    n + b * 8 % 2 ^ 32 - 1 < 2 ^ 32 := by
  have hmul : n * b ≤ t := by
    rw [hn]
    exact Nat.div_mul_le_self t b
  by_cases hsmall : b ≤ 2 ^ 28
  · have : n ≤ t / 144 := by
      rw [hn]
      exact Nat.div_le_div_left hb (by decide)
    omega
  · have hn16 : n < 16 := by
      by_contra h
      have := Nat.mul_le_mul (not_lt.mp h) (not_le.mp hsmall).le
      omega
    interval_cases n <;> omega

theorem toNat_formatBitmapBlocks (hb : inodeSize ≤ blockSize) (hne : blockSize * 8 ≠ 0) :
    (formatBitmapBlocks totalSize blockSize).toNat =
      pieces (totalSize.toNat / blockSize.toNat) (blockSize.toNat * 8 % 2 ^ 32) := by
  have hb' : 144 ≤ blockSize.toNat := UInt32.le_iff_toNat_le.mp hb
  have hmul : (blockSize * 8).toNat = blockSize.toNat * 8 % 2 ^ 32 := UInt32.toNat_mul _ _
  have hne' : blockSize.toNat * 8 % 2 ^ 32 ≠ 0 := by
    rw [← hmul]
    exact fun h0 => hne (UInt32.toNat_inj.mp h0)
  have hlt := bits_fit hb' totalSize.toNat_lt rfl
  unfold formatBitmapBlocks pieces
  rw [UInt32.toNat_div, UInt32.toNat_sub, UInt32.toNat_add, UInt32.toNat_div, hmul,
    UInt32.toNat_one]
  congr 1
  generalize totalSize.toNat / blockSize.toNat = n at *
  omega

theorem toNat_bits_pos (hne : blockSize * 8 ≠ 0) : 0 < blockSize.toNat * 8 % 2 ^ 32 := by
  rw [Nat.pos_iff_ne_zero]
  intro h0
  exact hne (UInt32.toNat_inj.mp (by rw [UInt32.toNat_mul]; exact h0))

/-- The metadata blocks are counted without overflow. -/
theorem toNat_formatMetadata (totalSize : UInt32) (hb : inodeSize ≤ blockSize)
    (hne : blockSize * 8 ≠ 0) :
    (1 + formatBitmapBlocks totalSize blockSize + formatInodeBlocks totalSize blockSize).toNat =
      1 + (formatBitmapBlocks totalSize blockSize).toNat +
        (formatInodeBlocks totalSize blockSize).toNat := by
  have hb' : 144 ≤ blockSize.toNat := UInt32.le_iff_toNat_le.mp hb
  have hpos := toNat_bits_pos hne
  have htotal : totalSize.toNat / blockSize.toNat ≤ totalSize.toNat / 144 :=
    Nat.div_le_div_left hb' (by decide)
  have hlt := totalSize.toNat_lt
  have hbitmap : (formatBitmapBlocks totalSize blockSize).toNat ≤
      totalSize.toNat / blockSize.toNat := by
    rw [toNat_formatBitmapBlocks hb hne, pieces_le_iff hpos]
    exact Nat.le_mul_of_pos_right _ hpos
  have hinode := toNat_formatInodeBlocks totalSize blockSize
  rw [UInt32.toNat_add, UInt32.toNat_add, UInt32.toNat_one]
  generalize totalSize.toNat / blockSize.toNat = n at *
  omega

def Geometry.ofFormat (h : Formattable totalSize blockSize) : Geometry where
  totalBlocks := totalSize.toNat / blockSize.toNat
  blockSize := blockSize.toNat
  bitmapBlocks := (formatBitmapBlocks totalSize blockSize).toNat
  inodeBlocks := (formatInodeBlocks totalSize blockSize).toNat
  inode_le := UInt32.le_iff_toNat_le.mp h.inode_le
  inodeBlocks_pos := by
    rw [toNat_formatInodeBlocks]
    omega
  room := by
    rw [← toNat_formatMetadata totalSize h.inode_le h.bits_ne, ← UInt32.toNat_div]
    exact UInt32.lt_iff_toNat_lt.mp h.room
  bits_le := by
    have hle := le_pieces_mul (n := totalSize.toNat / blockSize.toNat) (toNat_bits_pos h.bits_ne)
    rw [← toNat_formatBitmapBlocks h.inode_le h.bits_ne] at hle
    calc totalSize.toNat / blockSize.toNat
        ≤ (formatBitmapBlocks totalSize blockSize).toNat * (blockSize.toNat * 8 % 2 ^ 32) := hle
      _ ≤ (formatBitmapBlocks totalSize blockSize).toNat * (blockSize.toNat * 8) :=
          Nat.mul_le_mul_left _ (Nat.mod_le _ _)
      _ = 8 * ((formatBitmapBlocks totalSize blockSize).toNat * blockSize.toNat) := by ring
  bytes_lt := lt_of_le_of_lt (Nat.div_mul_le_self _ _) totalSize.toNat_lt

def formatSb (now : UInt64) (totalSize blockSize : UInt32) : Superblock :=
  formatSuperblock now (totalSize / blockSize) blockSize (formatBitmapBlocks totalSize blockSize)
    (formatInodeBlocks totalSize blockSize)
    (blockSize / inodeSize * formatInodeBlocks totalSize blockSize)

theorem describes_formatSb (h : Formattable totalSize blockSize) (now : UInt64) :
    (Geometry.ofFormat h).Describes (formatSb now totalSize blockSize) := by
  have hmeta := toNat_formatMetadata totalSize h.inode_le h.bits_ne
  have hroom : 1 + (formatBitmapBlocks totalSize blockSize).toNat +
      (formatInodeBlocks totalSize blockSize).toNat < totalSize.toNat / blockSize.toNat :=
    (Geometry.ofFormat h).room
  have htot : totalSize.toNat / blockSize.toNat < 2 ^ 32 := (Geometry.ofFormat h).totalBlocks_lt
  have hmax : blockSize.toNat / 144 * (formatInodeBlocks totalSize blockSize).toNat < 2 ^ 32 :=
    (Geometry.ofFormat h).maxInodes_lt
  constructor
  · rfl
  · exact UInt32.toNat_div _ _
  · rfl
  · change (blockSize / inodeSize * formatInodeBlocks totalSize blockSize).toNat = _
    rw [UInt32.toNat_mul, UInt32.toNat_div]
    exact Nat.mod_eq_of_lt hmax
  · rfl
  · rfl
  · change (1 + formatBitmapBlocks totalSize blockSize).toNat = _
    rw [UInt32.toNat_add, UInt32.toNat_one]
    exact Nat.mod_eq_of_lt (by omega)
  · rfl
  · exact hmeta
  · change (totalSize / blockSize - (1 + formatBitmapBlocks totalSize blockSize +
      formatInodeBlocks totalSize blockSize)).toNat = _
    rw [UInt32.toNat_sub_of_le _ _ (UInt32.le_of_lt h.room), hmeta, UInt32.toNat_div]
    rfl

end Sizes

/-! ## The run of `fs_format` -/

section Run
variable {g : Geometry} {s : World} {disk : List UInt8}

theorem zeroBlocks_ready (h : Ready g s disk) {blockSize start count : UInt32}
    (hbs : blockSize.toNat = g.blockSize) (hend : start.toNat + count.toNat ≤ g.totalBlocks)
    (hzero : ∀ b, start.toNat ≤ b → b < start.toNat + count.toNat →
      blockAt g disk b = List.replicate g.blockSize 0) :
    zeroBlocks blockSize start count s = some ((), s) := by
  have htot := g.totalBlocks_lt
  refine forLoop_chain (fun _ => s) fun i _ hi => ?_
  have hblk : (start + UInt32.ofNat i).toNat = start.toNat + i := by
    rw [UInt32.toNat_add, toNat_word (by omega),
      Nat.mod_eq_of_lt (by omega)]
  have hlt : (start + UInt32.ofNat i).toNat < g.totalBlocks := by omega
  have hzeros : g.blockSize ≤ (List.replicate blockSize.toNat (0 : UInt8)).length := by
    rw [List.length_replicate, hbs]
  have hwrite := diskWrite_ready h hlt hzeros
  have hsame : splice (g.blockPos (start.toNat + i))
      ((List.replicate blockSize.toNat 0).take g.blockSize) disk = disk := by
    rw [hbs, List.take_replicate, Nat.min_self, ← hzero (start.toNat + i) (by omega) (by omega),
      blockAt, splice_slice_self (h.block_le (by omega))]
  rw [hblk, hsame, ← h.file] at hwrite
  simp only [bind_apply, hwrite, Option.bind_some, pure_apply]

def emptyVolume (g : Geometry) (sb : Superblock) (used : Finset ℕ) : Volume where
  sb := sb
  saved := sb
  used := used
  inodes := List.replicate g.maxInodes Inode.zero
  data := fun _ => List.replicate g.blockSize 0

theorem slice_cleared {n off k : ℕ} {buf : List UInt8} (hbuf : buf.length ≤ off) (hk : off + k ≤ n) :
    slice off k (splice 0 buf (List.replicate n 0)) = List.replicate k 0 := by
  have hfit : 0 + buf.length ≤ (List.replicate n (0 : UInt8)).length := by
    rw [List.length_replicate]
    omega
  rw [slice_splice_disjoint hfit (by omega), slice_replicate 0 hk]

/-- The disk after the superblock was written to cleared blocks. -/
theorem holds_cleared {n : ℕ} (hn : g.blockPos g.totalBlocks ≤ n) {sb : Superblock}
    {buf : List UInt8} (hbuf : buf.length = g.blockSize)
    (hsb : slice 0 superblockSize buf = superblockCodec.encode sb) :
    Holds g (splice 0 buf (List.replicate n 0)) (List.replicate (g.bitmapBlocks * g.blockSize) 0)
      (emptyVolume g sb ∅) := by
  obtain ⟨r1, r2, r3, r4, r5⟩ := region_bounds g
  have hlen : (List.replicate n (0 : UInt8)).length = n := List.length_replicate
  have hfit : 0 + buf.length ≤ (List.replicate n (0 : UInt8)).length := by
    rw [hlen]
    omega
  have hzero (off k : ℕ) (hoff : g.blockSize ≤ off) (hk : off + k ≤ n) :
      slice off k (splice 0 buf (List.replicate n 0)) = List.replicate k 0 :=
    slice_cleared (by omega) hk
  constructor
  · rw [length_splice hfit, hlen]
    exact hn
  · have hself := slice_splice_self hfit
    have hin := slice_slice (i := 0) (n := superblockSize) (j := 0) (m := buf.length)
      (l := splice 0 buf (List.replicate n 0)) (by unfold superblockSize; omega)
    rw [hself, hsb, Nat.zero_add] at hin
    exact hin.symm
  · exact hzero _ _ (by omega) (by omega)
  · intro b
    rw [bitAt_replicate_zero]
    rfl
  · exact List.length_replicate
  · intro i hi
    change i < (List.replicate g.maxInodes Inode.zero).length at hi
    rw [List.length_replicate] at hi
    have := g.slotPos_bounds hi
    change _ = inodeCodec.encode (List.replicate g.maxInodes Inode.zero)[i]
    rw [List.getElem_replicate, Inode.encode_zero]
    exact hzero _ _ (by omega) (by omega)
  · intro b hb hb'
    have := data_bounds hb hb'
    exact hzero _ _ (by omega) (by omega)

/-- `fs_format` while it marks the metadata blocks: `k` of them are done. -/
def markingView (g : Geometry) (sb : Superblock) (out : List Message) (k : ℕ) : View where
  vol := (emptyVolume g sb (Finset.range k)).setSb fun sb =>
    { sb with freeBlocks := sb.freeBlocks - UInt32.ofNat k }
  out := out
  faults := noFaults
  stamped := true

/-- First fit takes the blocks in order. -/
theorem markMetadata_runs {sb : Superblock} (hg : g.Describes sb) (out : List Message) :
    Runs (view g) (markingView g sb out 0) (forLoop (fun _ => do
      let _ ← bitmapAllocateBlock
      pure ()) g.dataStart 0) () (markingView g sb out g.dataStart) := by
  have hroom := g.dataStart_lt
  have hstep (i : ℕ) (hi : i < g.dataStart) : Runs (view g) (markingView g sb out i) (do
      let _ ← bitmapAllocateBlock
      pure ()) () (markingView g sb out (i + 1)) := by
    have hk : i < g.totalBlocks := by omega
    have halloc := bitmapAllocateBlock_runs (g := g) (v := markingView g sb out i) rfl
      (hg.freeBlocks _) hk (fun h => by simp [markingView, emptyVolume, Volume.setSb] at h)
      (fun j hj => Finset.mem_range.mpr hj)
    have hnext : (markingView g sb out i).setVol ((markingView g sb out i).vol.take i) =
        markingView g sb out (i + 1) := by
      have hrange : insert i (Finset.range i) = Finset.range (i + 1) := by
        rw [Finset.range_add_one]
      have hfree : sb.freeBlocks - UInt32.ofNat i - 1 = sb.freeBlocks - UInt32.ofNat (i + 1) := by
        rw [UInt32.ofNat_add]
        grind
      simp only [markingView, emptyVolume, Volume.setSb, View.setVol, Volume.take, hrange, hfree]
    rw [hnext] at halloc
    exact halloc.bind (Runs.pure _ _)
  have hloop := Runs.forLoop (A := view g) (markingView g sb out)
    fun i _ hi => hstep i (by rwa [Nat.zero_add] at hi)
  rwa [Nat.zero_add] at hloop

theorem diskInit_format (hf : s.faults = noFaults) (totalSize blockSize : UInt32) :
    diskInit totalSize blockSize true s = some (0, { s with
      fd := .opened
      file := some (List.replicate totalSize.toNat 0)
      diskBlockSize := blockSize }) := by
  have hnext := nextFault_none (s := { s with fd := .opened, file := some [] }) hf
  simp only [diskInit, bind_apply, nextFault_none hf, Option.bind_some, ask_apply,
    Option.isSome_none, Bool.false_or, Bool.not_true, Bool.false_and, Bool.false_eq_true, if_false,
    if_true, update_apply, hnext, pure_apply]

/-- What `fs_format` does once it has accepted the sizes. -/
def writeLayout (blockSize : UInt32) (sb : Superblock) (msg : Message) : M Int := do
  setSb fun _ => sb
  let _ ← diskWriteSb
  zeroBlocks blockSize sb.bitmapStart sb.bitmapBlocks
  zeroBlocks blockSize sb.inodeStart sb.inodeBlocks
  let _ ← bitmapInit
  forLoop (fun _ => do
    let _ ← bitmapAllocateBlock
    pure ()) sb.dataStart.toNat 0
  diskClose
  emit msg
  pure 0

theorem writeLayout_ready {n : ℕ} (hg : g.Describes s.sb)
    (hr : Ready g s (List.replicate n 0)) (msg : Message) :
    ∃ s', (∀ t : World, { t with sb := s.sb } = s → writeLayout s.sb.blockSize s.sb msg t =
        some (0, { s' with fd := .closed, out := s'.out ++ [msg] })) ∧
      Represents g s' (markingView g s.sb s.out g.dataStart) := by
  have hlen := hr.length
  have hroom := g.dataStart_lt
  let disk := splice 0 (superblockBytes g s) (List.replicate n 0)
  let s2 : World := { s with file := some disk }
  have hbuf := length_superblockBytes g s
  have hsave : diskWriteSb s = some (0, s2) := diskWriteSb_ready hr
  have hh : Holds g disk (List.replicate (g.bitmapBlocks * g.blockSize) 0)
      (emptyVolume g s.sb ∅) := by
    rw [List.length_replicate] at hlen
    exact holds_cleared hlen hbuf (slice_superblockBytes g s)
  have hr2 : Ready g s2 disk := ⟨hr.fd, hr.size, rfl, hh.length, hr.faults⟩
  have hcleared (b : ℕ) (hb : 1 ≤ b) (hb' : b < g.totalBlocks) :
      blockAt g disk b = List.replicate g.blockSize 0 := by
    have h1 := g.blockPos_add_le hb'
    have h2 : g.blockSize ≤ g.blockPos b := Nat.le_mul_of_pos_left _ hb
    rw [List.length_replicate] at hlen
    exact slice_cleared (by omega) (by omega)
  have hbitmap : zeroBlocks s.sb.blockSize s.sb.bitmapStart s.sb.bitmapBlocks s2 =
      some ((), s2) := by
    have hend := g.room
    refine zeroBlocks_ready hr2 hg.blockSize ?_ fun b hb hb' => ?_
    · rw [hg.bitmapStart, hg.bitmapBlocks]
      omega
    · rw [hg.bitmapStart, hg.bitmapBlocks] at *
      exact hcleared b hb (by omega)
  have hinodes : zeroBlocks s.sb.blockSize s.sb.inodeStart s.sb.inodeBlocks s2 =
      some ((), s2) := by
    have hone := g.one_le_inodeStart
    refine zeroBlocks_ready hr2 hg.blockSize ?_ fun b hb hb' => ?_
    · rw [hg.inodeStart, hg.inodeBlocks]
      exact hroom.le
    · rw [hg.inodeStart, hg.inodeBlocks] at *
      exact hcleared b (by omega) (lt_trans hb' hroom)
  have hinit := bitmapInit_ready (s := s2) hg hr2
  have hrep : Represents g { s2 with
      bitmap := .live (slice (g.blockPos 1) (g.bitmapBlocks * g.blockSize) disk) }
      (markingView g s.sb s.out 0) := by
    have hzero : markingView g s.sb s.out 0 = ⟨emptyVolume g s.sb ∅, s.out, noFaults, true⟩ := by
      simp [markingView, Volume.setSb, emptyVolume]
    rw [hzero]
    exact {
      fd := hr.fd
      size := hr.size
      sb := rfl
      layout := hg
      out := rfl
      faults := hr.faults
      memory := ⟨disk, _, rfl, congrArg Pointer.live hh.bitmap, hh, fun _ => tailOf_save hlen⟩ }
  obtain ⟨s', hloop, hrep'⟩ := (markMetadata_runs hg s.out).exec hrep
  refine ⟨s', fun t ht => ?_, hrep'⟩
  have hset : setSb (fun _ => s.sb) t = some ((), s) := congrArg (fun w => some ((), w)) ht
  rw [writeLayout, hg.dataStart, bind_apply, hset, Option.bind_some, bind_apply, hsave,
    Option.bind_some, bind_apply, hbitmap, Option.bind_some,
    bind_apply, hinodes, Option.bind_some, bind_apply, hinit, Option.bind_some, bind_apply, hloop,
    Option.bind_some]
  rfl

end Run

/-! ## The whole of `fs_format` -/

/-- What `fs_format` does once the disk file is open and the number of bits in a block, the divisor
of its size arithmetic, is not zero. -/
def layOut (now : UInt64) (totalSize blockSize : UInt32) : M Int :=
  if 1 + formatBitmapBlocks totalSize blockSize + formatInodeBlocks totalSize blockSize ≥
      totalSize / blockSize then do
    emit (.diskTooSmall (totalSize / blockSize))
    pure (-1)
  else if blockSize / inodeSize * formatInodeBlocks totalSize blockSize = 0 then do
    emit .blockTooSmallForInode
    pure (-1)
  else writeLayout blockSize (formatSb now totalSize blockSize)
    (.formatted totalSize blockSize (totalSize / blockSize)
      (formatSb now totalSize blockSize).dataBlocks
      (blockSize / inodeSize * formatInodeBlocks totalSize blockSize) now)

theorem fsFormat_opened {totalSize blockSize : UInt32} {s s1 : World}
    (hsmall : ¬ blockSize < inodeSize)
    (hopen : diskInit totalSize blockSize true s = some (0, s1)) (now : UInt64) :
    fsFormat now totalSize blockSize s =
      if blockSize * 8 = 0 then none else layOut now totalSize blockSize s1 := by
  unfold fsFormat
  rw [if_neg hsmall, bind_apply, hopen, Option.bind_some]
  simp only
  rw [if_neg (by decide), bind_apply]
  by_cases hbits : blockSize * 8 = 0
  · rw [if_pos hbits, require_neg (not_not.mpr hbits)]
    rfl
  · rw [if_neg hbits, require_pos hbits]
    rfl

structure Formatted (now : UInt64) {totalSize blockSize : UInt32}
    (h : Formattable totalSize blockSize) (s s' : World) : Prop where
  faults : s'.faults = noFaults
  fd : s'.fd = .closed
  disk : ∃ disk bytes, s'.file = some disk ∧
    Holds (Geometry.ofFormat h) disk bytes (emptyVolume (Geometry.ofFormat h)
      (formatSb now totalSize blockSize) (Finset.range (Geometry.ofFormat h).dataStart)) ∧
    tailOf (Geometry.ofFormat h) disk = overrun (Geometry.ofFormat h) s'
  out : ∃ msg, s'.out = s.out ++ [msg]

theorem fsFormat_formatted {totalSize blockSize : UInt32} (h : Formattable totalSize blockSize)
    (now : UInt64) {s : World} (hf : s.faults = noFaults) :
    ∃ s', fsFormat now totalSize blockSize s = some (0, s') ∧ Formatted now h s s' := by
  let sb := formatSb now totalSize blockSize
  let s1 : World := { s with
    fd := .opened
    file := some (List.replicate totalSize.toNat 0)
    diskBlockSize := blockSize
    sb := sb }
  have hg : (Geometry.ofFormat h).Describes s1.sb := describes_formatSb h now
  have hr1 : Ready (Geometry.ofFormat h) s1 (List.replicate totalSize.toNat 0) := by
    refine ⟨rfl, rfl, rfl, ?_, hf⟩
    rw [List.length_replicate]
    exact Nat.div_mul_le_self _ _
  obtain ⟨s4, hrun, hrep⟩ := writeLayout_ready hg hr1 (.formatted totalSize blockSize
    (totalSize / blockSize) sb.dataBlocks
    (blockSize / inodeSize * formatInodeBlocks totalSize blockSize) now)
  obtain ⟨disk, bytes, hfile, -, hh, htail⟩ := hrep.memory
  have hsmall : ¬ blockSize < inodeSize := UInt32.not_lt.mpr h.inode_le
  have hopen := diskInit_format hf totalSize blockSize
  have hroom : ¬ 1 + formatBitmapBlocks totalSize blockSize +
      formatInodeBlocks totalSize blockSize ≥ totalSize / blockSize := UInt32.not_le.mpr h.room
  have hinodes : ¬ blockSize / inodeSize * formatInodeBlocks totalSize blockSize = 0 := by
    intro h0
    have hpos := (Geometry.ofFormat h).maxInodes_pos
    rw [← hg.maxInodes] at hpos
    exact absurd (congrArg UInt32.toNat h0) (Nat.pos_iff_ne_zero.mp hpos)
  refine ⟨{ s4 with
    fd := .closed
    out := s4.out ++ [.formatted totalSize blockSize (totalSize / blockSize) sb.dataBlocks
      (blockSize / inodeSize * formatInodeBlocks totalSize blockSize) now] }, ?_, ?_⟩
  · rw [fsFormat_opened hsmall hopen, if_neg h.bits_ne, layOut, if_neg hroom, if_neg hinodes]
    exact hrun _ rfl
  · exact {
      faults := hrep.faults
      fd := rfl
      disk := ⟨disk, bytes, hfile, { hh with }, htail rfl⟩
      out := ⟨_, congrArg (· ++ [_]) hrep.out⟩ }

/-- Sizes it does not accept give -1, or no defined behaviour. -/
theorem formattable_of_fsFormat {totalSize blockSize : UInt32} {now : UInt64} {s s' : World}
    (hf : s.faults = noFaults) (h : fsFormat now totalSize blockSize s = some (0, s')) :
    Formattable totalSize blockSize := by
  by_cases hsmall : blockSize < inodeSize
  · rw [fsFormat, if_pos hsmall] at h
    exact absurd (congrArg (Option.map Prod.fst) h) (by simp [emit])
  rw [fsFormat_opened hsmall (diskInit_format hf totalSize blockSize)] at h
  by_cases hbits : blockSize * 8 = 0
  · rw [if_pos hbits] at h
    exact nomatch h
  rw [if_neg hbits, layOut] at h
  by_cases hroom : 1 + formatBitmapBlocks totalSize blockSize +
      formatInodeBlocks totalSize blockSize ≥ totalSize / blockSize
  · rw [if_pos hroom] at h
    exact absurd (congrArg (Option.map Prod.fst) h) (by simp [emit])
  · exact ⟨UInt32.not_lt.mp hsmall, hbits, UInt32.not_le.mp hroom⟩

theorem sound_emptyVolume {g : Geometry} {sb : Superblock} (hg : g.Describes sb)
    (hfree : sb.freeBlocks.toNat = g.dataBlocks) (hslots : sb.freeInodes.toNat = g.maxInodes) :
    Sound g (emptyVolume g sb (Finset.range g.dataStart)) := by
  have hslot (i : ℕ) (x : Inode)
      (hx : (emptyVolume g sb (Finset.range g.dataStart)).inodes[i]? = some x) : x = Inode.zero :=
    (List.mem_replicate.mp (List.mem_of_getElem? hx)).2
  have hown (i : ℕ) : (emptyVolume g sb (Finset.range g.dataStart)).own g i = [] := by
    rw [Volume.own]
    cases hx : (emptyVolume g sb (Finset.range g.dataStart)).inodes[i]? with
    | none => rfl
    | some x =>
      rw [hslot i x hx]
      rfl
  constructor
  · exact hg
  · rfl
  · exact List.length_replicate
  · intro x hx
    rw [(List.mem_replicate.mp hx).2]
    exact .inl rfl
  · intro i x hx hlive
    rw [hslot i x hx] at hlive
    exact absurd hlive (by decide)
  · constructor
    · exact fun b hb => hb
    · intro i
      rw [hown]
      exact List.nodup_nil
    · intro i b hb
      rw [hown] at hb
      exact absurd hb List.not_mem_nil
    · intro i b hb
      rw [hown] at hb
      exact absurd hb List.not_mem_nil
    · intro i j _ b hb
      rw [hown] at hb
      exact absurd hb List.not_mem_nil
  · intro b hb
    exact lt_trans (Finset.mem_range.mp hb) g.dataStart_lt
  · change sb.freeBlocks.toNat + (Finset.range g.dataStart).card = _
    rw [Finset.card_range, hfree, g.dataBlocks_add]
  · change sb.freeInodes.toNat = (List.replicate g.maxInodes Inode.zero).countP _
    rw [hslots, List.countP_replicate]
    rfl
  · exact fun b _ _ => List.length_replicate

theorem sound_formatted {totalSize blockSize : UInt32} (h : Formattable totalSize blockSize)
    (now : UInt64) :
    Sound (Geometry.ofFormat h) (emptyVolume (Geometry.ofFormat h)
      (formatSb now totalSize blockSize) (Finset.range (Geometry.ofFormat h).dataStart)) :=
  sound_emptyVolume (describes_formatSb h now) (describes_formatSb h now).dataBlocks
    (describes_formatSb h now).maxInodes

theorem formatted_mounts {totalSize blockSize : UInt32} {now : UInt64} {s s' : World}
    (hf : s.faults = noFaults) (h : fsFormat now totalSize blockSize s = some (0, s')) :
    ∃ (hfmt : Formattable totalSize blockSize) (w : World), fsMount s' = some (0, w) ∧
      Represents (Geometry.ofFormat hfmt) w ⟨emptyVolume (Geometry.ofFormat hfmt)
        (formatSb now totalSize blockSize) (Finset.range (Geometry.ofFormat hfmt).dataStart),
        s'.out, noFaults, true⟩ := by
  have hfmt := formattable_of_fsFormat hf h
  obtain ⟨s1, hrun, hfin⟩ := fsFormat_formatted hfmt now hf
  obtain rfl : s1 = s' := (run_unique hrun h).2
  obtain ⟨disk, bytes, hfile, hh, htail⟩ := hfin.disk
  obtain ⟨w, hmount, hrep⟩ := fsMount_represents hfin.faults hfile hh (describes_formatSb hfmt now)
    rfl (fun _ => htail)
  exact ⟨hfmt, w, hmount, hrep⟩

end MiniFs.Image
