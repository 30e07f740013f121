import MiniFs.Image.Opened

/-! # What `fs_mount` loads

`fs_mount` looks neither at the length of the header it reads nor at the result of
`bitmap_init`, so it may return 0 with a superblock from before and no bitmap.
-/

set_option autoImplicit false

namespace MiniFs.Image
open MiniFs.Core Library Library.Exec Library.ByteRange

variable {disk : List UInt8} {sb : Superblock} {w w' : World}

/-! ## The length of the bitmap in memory -/

/-- The allocation behind the bitmap, if there is one, has `n` bytes. -/
def BitmapSized (n : ℕ) (w : World) : Prop := ∀ bytes, w.bitmap = .live bytes → bytes.length = n

theorem diskRead_length {P : World → Prop} {b : UInt32} {buf : List UInt8} :
    Triple P (diskRead b buf) fun r _ => r.2.length = buf.length := by
  intro s r s' _ hrun
  simp only [diskRead, bind_apply, ask_apply, Option.bind_some] at hrun
  cases hfd : s.fd with
  | closed =>
    rw [hfd] at hrun
    obtain ⟨rfl, -⟩ := returned_inj hrun
    rfl
  | stale =>
    rw [hfd] at hrun
    obtain ⟨rfl, -⟩ := returned_inj hrun
    rfl
  | opened =>
    rw [hfd] at hrun
    simp only [nextFault, bind_apply, Option.bind_some] at hrun
    cases hfault : s.faults 0 with
    | some junk =>
      rw [hfault] at hrun
      obtain ⟨rfl, -⟩ := returned_inj hrun
      rw [List.length_map, List.length_range]
    | none =>
      rw [hfault] at hrun
      let data := slice (b.toNat * s.diskBlockSize.toNat) s.diskBlockSize.toNat (s.file.getD [])
      by_cases hfit : data.length ≤ buf.length
      · have hsplice : (splice 0 data buf).length = buf.length :=
          length_splice (by rw [Nat.zero_add]; exact hfit)
        simp only [bind_apply, ask_apply, Option.bind_some] at hrun
        rw [require_pos hfit, pure_apply, Option.bind_some] at hrun
        split_ifs at hrun
        · obtain ⟨rfl, -⟩ := returned_inj hrun
          exact hsplice
        · obtain ⟨rfl, -⟩ := returned_inj hrun
          exact hsplice
      · simp only [bind_apply, ask_apply, Option.bind_some] at hrun
        rw [require_neg hfit] at hrun
        cases hrun

theorem loadBitmapBlock_sized {n i : ℕ} : Triple (BitmapSized n) (loadBitmapBlock sb i)
    fun r s => r.elim (BitmapSized n s) fun _ => True := by
  have hbytes : Triple (BitmapSized n) bitmapBytes fun bytes _ => bytes.length = n := by
    refine Triple.bind (I := fun p _ => ∀ bytes, p = .live bytes → bytes.length = n)
      (Triple.ask fun _ h => h) fun p => ?_
    cases p with
    | live bytes => exact Triple.pure fun _ h => h bytes rfl
    | null => exact Triple.stuck
    | freed => exact Triple.stuck
  refine hbytes.bind fun bytes => Triple.fact fun hbytes => ?_
  have hoffset : Triple (fun _ => True) (bitmapOffset sb bytes i) fun off _ =>
      off ≤ bytes.length := by
    rw [bitmapOffset]
    exact Triple.bind Triple.require fun _ => Triple.pure fun _ h => h.2
  refine hoffset.bind fun off => Triple.fact fun hoff => diskRead_length.bind fun r =>
    Triple.fact fun hr => ?_
  refine Triple.bind (I := fun _ => BitmapSized n) (Triple.update fun _ _ => ?_) fun _ => ?_
  · intro loaded hloaded
    obtain rfl := Pointer.live.inj hloaded
    rw [List.length_append, hr, ← List.length_append, List.take_append_drop, hbytes]
  · refine Triple.pure fun s h => ?_
    split_ifs
    · exact True.intro
    · exact h

/-- `bitmap_init` allocates `bitmap_blocks * block_size` bytes, in 32 bits. -/
theorem bitmapInit_sized {n : ℕ} :
    Triple (fun w => (w.sb.bitmapBlocks * w.sb.blockSize).toNat = n) bitmapInit fun _ =>
      BitmapSized n := by
  refine Triple.bind (I := fun sb _ => (sb.bitmapBlocks * sb.blockSize).toNat = n)
    (Triple.ask fun _ h => h) fun sb => Triple.fact fun hn => ?_
  refine Triple.bind (I := fun memory _ => memory.length = n) (Triple.ask fun s _ => ?_)
    fun memory => Triple.fact fun hmemory => ?_
  · rw [List.length_map, List.length_range, hn]
  refine Triple.bind (I := fun _ => BitmapSized n) (Triple.update fun _ _ bytes hbytes => ?_)
    fun _ => ?_
  · obtain rfl := Pointer.live.inj hbytes
    exact hmemory
  refine (Triple.search fun _ _ => loadBitmapBlock_sized).bind fun r => ?_
  cases r with
  | none => exact Triple.pure fun _ h => h
  | some u =>
    refine Triple.bind (I := fun _ => BitmapSized n) (Triple.update fun _ _ bytes hbytes => ?_)
      fun _ => Triple.pure fun _ h => h
    cases hbytes

end MiniFs.Image

namespace MiniFs.Properties
open MiniFs.Core MiniFs.Image Library Library.Exec Library.ByteRange

variable {disk : List UInt8} {sb : Superblock} {w w' : World}

def storedBlock (disk : List UInt8) (sb : Superblock) (i : ℕ) : List UInt8 :=
  slice ((sb.bitmapStart.toNat + i) * sb.blockSize.toNat) sb.blockSize.toNat disk

/-- The process has what the disk file stores: its superblock and its bitmap. -/
structure Loads (disk : List UInt8) (w : World) : Prop where
  length : superblockSize ≤ disk.length
  sb : superblockCodec.encode w.sb = slice 0 superblockSize disk
  magic : w.sb.magic = fsMagic
  complete : ∀ i < w.sb.bitmapBlocks.toNat, (storedBlock disk w.sb i).length = w.sb.blockSize.toNat
  bitmap : w.bitmap =
    .live ((List.range w.sb.bitmapBlocks.toNat).flatMap (storedBlock disk w.sb))

/-- A mount returns 0 with what the disk stores, or -1. -/
def MountsExactly (w : World) : Prop :=
  ∃ r w', fsMount w = some (r, w') ∧
    ((r = 0 ∧ ∃ disk, w.file = some disk ∧ Loads disk w') ∨ r = -1)

/-- The bitmap blocks of a superblock are on the disk, where `bitmap_init` looks for them, and
their number of bytes has 32 bits. -/
structure BitmapReadable (disk : List UInt8) (sb : Superblock) : Prop where
  fits : sb.bitmapBlocks.toNat * sb.blockSize.toNat < 2 ^ 32
  complete : ∀ i < sb.bitmapBlocks.toNat, (storedBlock disk sb i).length = sb.blockSize.toNat
  located : ∀ i < sb.bitmapBlocks.toNat, bitmapBlock (some disk) sb i = storedBlock disk sb i

/-- The superblock in memory does not pass for that of a shorter file, and a file with the magic
number has its bitmap. -/
def MountSafe (w : World) : Prop :=
  ∀ disk, w.file = some disk → (loadedSb w.sb disk).magic = fsMagic →
    superblockSize ≤ disk.length ∧ BitmapReadable disk (loadedSb w.sb disk)

theorem encode_loadedSb (old : Superblock) (h : superblockSize ≤ disk.length) :
    superblockCodec.encode (loadedSb old disk) = slice 0 superblockSize disk := by
  have hlen : (slice 0 superblockSize disk).length = superblockSize :=
    length_slice (by rw [Nat.zero_add]; exact h)
  have hold := superblockCodec.length_encode old
  have hsize : superblockCodec.size = superblockSize := superblockCodec_size
  have hall : splice 0 (slice 0 superblockSize disk) (superblockCodec.encode old) =
      slice 0 superblockSize disk := by
    rw [splice, List.take_zero, List.nil_append, Nat.zero_add, hlen,
      List.drop_eq_nil_of_le (hold.trans hsize).le, List.append_nil]
  rw [loadedSb, hall, superblockCodec.encode_decode _ (hlen.trans hsize.symm)]

theorem loads_of_readable {s : World} (hopen : Opened (some disk) sb s)
    (hlen : superblockSize ≤ disk.length)
    (hsb : superblockCodec.encode sb = slice 0 superblockSize disk) (hmagic : sb.magic = fsMagic)
    (h : BitmapReadable disk sb) : ∃ s', bitmapInit s = some (0, s') ∧ Loads disk s' := by
  have hfull (i : ℕ) (hi : i < sb.bitmapBlocks.toNat) :
      (bitmapBlock (some disk) sb i).length = sb.blockSize.toNat := by
    rw [h.located i hi]
    exact h.complete i hi
  have hall : (List.range sb.bitmapBlocks.toNat).flatMap (bitmapBlock (some disk) sb) =
      (List.range sb.bitmapBlocks.toNat).flatMap (storedBlock disk sb) :=
    List.flatMap_congr fun i hi => h.located i (List.mem_range.mp hi)
  obtain rfl := hopen.sb
  exact ⟨_, bitmapInit_complete hopen h.fits hfull, hlen, hsb, hmagic, h.complete,
    congrArg Pointer.live hall⟩

theorem readable_of_loads {s s' : World} {r : Int} (hopen : Opened (some disk) sb s)
    (hinit : bitmapInit s = some (r, s')) (h : Loads disk s') : BitmapReadable disk sb := by
  obtain rfl : s'.sb = sb := (bitmapInit_keeps s r s' hopen hinit).sb
  have hlen : ((List.range s'.sb.bitmapBlocks.toNat).flatMap (storedBlock disk s'.sb)).length =
      s'.sb.bitmapBlocks.toNat * s'.sb.blockSize.toNat := by
    rw [length_flatMap_const fun i hi => h.complete i (List.mem_range.mp hi), List.length_range]
  have hsized := bitmapInit_sized s r s' rfl hinit _ h.bitmap
  have hfit : s'.sb.bitmapBlocks.toNat * s'.sb.blockSize.toNat < 2 ^ 32 := by
    rw [← hlen, hsized]
    exact UInt32.toNat_lt _
  -- a block that is cut off would have left no bitmap
  have hfull (i : ℕ) (hi : i < s'.sb.bitmapBlocks.toNat) :
      (bitmapBlock (some disk) s'.sb i).length = s'.sb.blockSize.toNat := by
    by_contra hne
    obtain ⟨t, ht, hfreed⟩ := bitmapInit_cut hopen hfit ⟨i, hi, hne⟩
    obtain ⟨-, rfl⟩ := run_unique ht hinit
    rw [h.bitmap] at hfreed
    cases hfreed
  refine ⟨hfit, h.complete, fun i hi => ?_⟩
  have hdone := bitmapInit_complete hopen hfit hfull
  obtain ⟨-, heq⟩ := run_unique hdone hinit
  have hbits : (List.range s'.sb.bitmapBlocks.toNat).flatMap (bitmapBlock (some disk) s'.sb) =
      (List.range s'.sb.bitmapBlocks.toNat).flatMap (storedBlock disk s'.sb) := by
    exact Pointer.live.inj ((congrArg World.bitmap heq).trans h.bitmap)
  have hi' : i < (List.range s'.sb.bitmapBlocks.toNat).length := by rwa [List.length_range]
  have hread := slice_flatMap (fun j hj => hfull j (List.mem_range.mp hj)) hi'
  have hstored := slice_flatMap (fun j hj => h.complete j (List.mem_range.mp hj)) hi'
  rw [List.getElem_range] at hread hstored
  rw [← hread, hbits, hstored]

/-- For every disk file and every previous superblock and bitmap: `fs_mount` loads exactly what the
disk holds, or returns -1, if and only if the file is not a short one that the old superblock
completes, and one with the magic number has its bitmap. -/
theorem mount_exact_iff (hf : w.faults = noFaults) : MountsExactly w ↔ MountSafe w := by
  cases hfile : w.file with
  | none =>
    obtain ⟨w', hmount, -⟩ := fsMount_missing hf hfile
    refine iff_of_true ⟨-1, w', hmount, .inr rfl⟩ fun disk hdisk => ?_
    rw [hfile] at hdisk
    cases hdisk
  | some disk =>
    have hmount := fsMount_eq hf hfile
    have hsafe : MountSafe w ↔ ((loadedSb w.sb disk).magic = fsMagic →
        superblockSize ≤ disk.length ∧ BitmapReadable disk (loadedSb w.sb disk)) := by
      refine ⟨fun h => h disk hfile, fun h d hd => ?_⟩
      obtain rfl := Option.some.inj (hfile.symm.trans hd)
      exact h
    have hlen (h : superblockSize ≤ disk.length) := encode_loadedSb w.sb h
    rw [hsafe]
    generalize loadedSb w.sb disk = sb at hmount hlen ⊢
    by_cases hmagic : sb.magic = fsMagic
    · rw [if_neg (not_not.mpr hmagic)] at hmount
      have hopen : Opened (some disk) sb { w with
          fd := .opened, diskBlockSize := sb.blockSize, sb := sb } := ⟨rfl, rfl, rfl, hfile, hf⟩
      constructor
      · rintro ⟨r, w', hrun, ⟨rfl, d, hd, hloads⟩ | rfl⟩ _
        · obtain rfl := Option.some.inj (hfile.symm.trans hd)
          rw [hmount] at hrun
          obtain ⟨⟨r, t⟩, hinit, heq⟩ := Option.map_eq_some_iff.mp hrun
          obtain ⟨-, rfl⟩ := Prod.mk.inj heq
          exact ⟨hloads.length, readable_of_loads hopen hinit hloads⟩
        · rw [hmount] at hrun
          obtain ⟨p, -, heq⟩ := Option.map_eq_some_iff.mp hrun
          exact absurd (Prod.mk.inj heq).1 (by decide)
      · intro h
        obtain ⟨hshort, hreadable⟩ := h hmagic
        obtain ⟨t, hinit, hloads⟩ := loads_of_readable hopen hshort (hlen hshort) hmagic hreadable
        rw [hinit] at hmount
        exact ⟨0, t, hmount, .inl ⟨rfl, disk, hfile, hloads⟩⟩
    · rw [if_pos hmagic] at hmount
      exact iff_of_true ⟨-1, _, hmount, .inr rfl⟩ fun h => absurd h hmagic

def fourBlocks : List UInt8 :=
  superblockCodec.encode (formatSb 0 576 144) ++ List.replicate (576 - 88) 0

set_option maxRecDepth 10000 in
theorem mount_exact_iff_four : MountsExactly (.start (some fourBlocks) 0 0) := by
  have hsb : loadedSb Superblock.zero fourBlocks = formatSb 0 576 144 := by decide +kernel
  have hlen : superblockSize ≤ fourBlocks.length := by decide +kernel
  have hone : (formatSb 0 576 144).bitmapBlocks.toNat = 1 := by decide +kernel
  refine (mount_exact_iff rfl).mpr fun disk hdisk _ => ?_
  obtain rfl := Option.some.inj hdisk
  change superblockSize ≤ fourBlocks.length ∧ BitmapReadable fourBlocks
    (loadedSb Superblock.zero fourBlocks)
  rw [hsb]
  refine ⟨hlen, by decide +kernel, fun i hi => ?_, fun i hi => ?_⟩
  · obtain rfl : i = 0 := by omega
    decide +kernel
  · obtain rfl : i = 0 := by omega
    decide +kernel

/-- `format 576 144`, a mount, and what the shell does for `format 0 144` before it mounts. -/
def failedReformat : M (Int × Int × Int) := do
  let formatted ← fsFormat 0 576 144
  let mounted ← fsMount
  fsUnmount
  let again ← fsFormat 0 0 144
  pure (formatted, mounted, again)

def isFreed : Pointer → Bool
  | .freed => true
  | _ => false

theorem isFreed_iff {p : Pointer} : isFreed p = true ↔ p = .freed := by
  cases p with
  | freed => exact iff_of_true rfl rfl
  | null => exact ⟨Bool.noConfusion, Pointer.noConfusion⟩
  | live bytes => exact ⟨Bool.noConfusion, Pointer.noConfusion⟩

set_option maxRecDepth 100000 in
/-- The second format empties the file and fails, and the mount after it returns 0 all the same:
the superblock is the old one, and the bitmap is gone. -/
theorem failedReformat_mounts : ∃ w w', failedReformat (.start none 0 0) = some ((0, 0, -1), w) ∧
    fsMount w = some (0, w') ∧ w.file = some [] ∧ w'.sb = w.sb ∧ w.sb.magic = fsMagic ∧
    w'.bitmap = .freed ∧ ¬ MountsExactly w := by
  have hany : (failedReformat (.start none 0 0)).any (fun p => p.1 = (0, 0, -1) ∧
      p.2.file = some [] ∧ p.2.sb.magic = fsMagic ∧ (fsMount p.2).any (fun q => q.1 = 0 ∧
        q.2.sb = p.2.sb ∧ isFreed q.2.bitmap = true)) = true := by
    decide +kernel
  obtain ⟨r, w, hrun, h⟩ := exists_of_any hany
  obtain ⟨rfl, hfile, hmagic, h⟩ := of_decide_eq_true h
  obtain ⟨r, w', hmount, h⟩ := exists_of_any h
  obtain ⟨rfl, hsb, hfreed⟩ := of_decide_eq_true h
  refine ⟨w, w', hrun, hmount, hfile, hsb, hmagic, isFreed_iff.mp hfreed, ?_⟩
  rintro ⟨r, t, hagain, ⟨-, disk, hdisk, hloads⟩ | rfl⟩
  · obtain rfl := Option.some.inj (hfile.symm.trans hdisk)
    exact absurd hloads.length (by decide)
  · rw [hmount] at hagain
    exact absurd (returned_inj hagain).1 (by decide)

end MiniFs.Properties
