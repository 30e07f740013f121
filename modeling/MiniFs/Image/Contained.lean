import MiniFs.Image.Bystanders
import Mathlib.Order.Interval.Finset.Nat

/-! # Commands leave the bystanders alone

Each part of a command keeps what the disk and the process have of the files that
the command does not name, whatever system calls fail in it.
-/

set_option autoImplicit false

namespace MiniFs.Core
open Library Library.Exec

/-- The names of the files an operation makes or changes. A new inode shows the empty name until
its own is written. -/
def FileOp.alters : FileOp → List (List UInt8)
  | .create name => [[], name.bytes]
  | .copy _ dst => [[], dst.bytes.take 31]
  | .rename oldName newName => [oldName.bytes, newName.bytes]
  | .write name _ | .append name _ | .truncate name _ | .chmod name _ | .delete name => [name.bytes]
  | .read _ => []

def Command.alters : Command → List (List UInt8)
  | .file c => c.op.alters
  | _ => []

/-- `fs_copy` as far as `inode_allocate`: the source inode and its content. -/
def copyReads (src dst : CStr) : M (Option (Inode × List UInt8)) := do
  match ← inodeFindByName src with
  | none =>
    emit (.sourceNotFound src.bytes)
    pure none
  | some srcInode =>
    if (← inodeFindByName dst).isSome then
      emit (.destinationExists dst.bytes)
      pure none
    else if (← getSb).freeInodes = 0 then
      emit .noFreeInodes
      pure none
    else
      let content ← readContent (← getSb) srcInode
      pure (some (srcInode, content))

/-- The rest of `fs_copy`, with the inode it has got. -/
def copyInto (now : UInt64) (src dst : CStr) (srcInode : Inode) (content : List UInt8)
    (newInode : Inode) : M Int := do
  let newInode := { newInode with
    name := Inode.strncpy newInode.name dst
    mode := srcInode.mode
    linkCount := 1
    createdAt := now
    modifiedAt := now
    accessedAt := now }
  if srcInode.size > 0 then
    match ← doWrite now newInode content srcInode.size with
    | none =>
      let _ ← inodeFree newInode.id
      pure (-1)
    | some newInode => copyFinish src dst srcInode.size newInode
  else
    copyFinish src dst srcInode.size { newInode with size := 0 }

/-- What `fs_copy` takes for a new inode: what was on the stack, if there is none. -/
def copyClaim : M Inode := do
  match ← inodeAllocate with
  | some newInode => pure newInode
  | none => do pure (inodeCodec.decode (← malloc inodeSize))

theorem fsCopy_eq (now : UInt64) (src dst : CStr) : fsCopy now src dst = (do
    match ← copyReads src dst with
    | none => pure (-1)
    | some p =>
      let newInode ← copyClaim
      copyInto now src dst p.1 p.2 newInode) := by
  simp only [fsCopy, copyReads, bind_assoc]
  refine congrArg (inodeFindByName src >>= ·) (funext fun r => ?_)
  cases r with
  | none => rfl
  | some x =>
    simp only [bind_assoc]
    refine congrArg (inodeFindByName dst >>= ·) (funext fun r => ?_)
    cases hr : r.isSome with
    | true => rfl
    | false =>
      simp only [Bool.false_eq_true, if_false, bind_assoc]
      refine congrArg (getSb >>= ·) (funext fun sb => ?_)
      by_cases hfree : sb.freeInodes = 0
      · rw [if_pos hfree, if_pos hfree]
        rfl
      · rw [if_neg hfree, if_neg hfree]
        simp only [copyClaim, bind_assoc, pure_bind]
        refine congrArg (getSb >>= ·) (funext fun sb => ?_)
        refine congrArg (readContent sb x >>= ·) (funext fun content => ?_)
        refine congrArg (inodeAllocate >>= ·) (funext fun o => ?_)
        cases o with
        | none => rfl
        | some newInode => rfl

/-- If the command is a copy that comes to `inode_allocate`, it gets an inode from it. -/
def GetsSlot (s : World) : Command → Prop
  | .file ⟨.copy src dst, _⟩ => ∀ p t, copyReads src dst s = some (some p, t) →
      ∀ t', inodeAllocate t ≠ some (none, t')
  | _ => True

end MiniFs.Core

namespace MiniFs.Image
open MiniFs.Core Library Library.Exec Library.ByteRange Library.Chunks

variable {g : Geometry} {x y : Inode} {i n : ℕ}

/-! ## Inodes and their blocks -/

theorem Shaped.liveAt (h : Shaped g i x) : LiveAt g i x := ⟨h.id, h.size, h.name_end⟩

theorem mem_blockRange {start count k : ℕ} (h1 : start ≤ k) (h2 : k < start + count)
    (h16 : k < 16) :
    x.directBlocks[k].toNat ∈ blockRange x start count := by
  rw [blockRange, List.mem_map]
  refine ⟨_, List.mem_of_getElem? (i := k - start) ?_, rfl⟩
  rw [getElem?_slice, if_pos (by omega), Nat.add_sub_cancel' h1,
    List.getElem?_eq_getElem (by simpa using h16), Vector.getElem_toList]

theorem directBlock_eq (x : Inode) (hi : i < 16) : directBlock x i = pure x.directBlocks[i] := by
  rw [directBlock, Vector.getElem?_eq_getElem hi]

theorem blockRange_append (x : Inode) (start m k : ℕ) :
    blockRange x start m ++ blockRange x (start + m) k = blockRange x start (m + k) := by
  rw [blockRange, blockRange, blockRange, ← List.map_append, slice_append_slice]

theorem blockRange_subset {start count m : ℕ} (h : start + count ≤ m) {b : ℕ}
    (hb : b ∈ blockRange x start count) : b ∈ blockRange x 0 m := by
  obtain ⟨k, rfl⟩ := Nat.exists_eq_add_of_le h
  have hsplit := blockRange_append x 0 start count
  rw [Nat.zero_add] at hsplit
  have hall := blockRange_append x 0 (start + count) k
  rw [← hall, ← hsplit]
  simp [hb]

theorem Geometry.three_le_dataStart (g : Geometry) : 3 ≤ g.dataStart := by
  have h1 := g.inodeBlocks_pos
  have h2 := g.bitmapBlocks_pos
  unfold Geometry.dataStart Geometry.inodeStart
  omega

/-- The stored name is cut at the last byte of the field. -/
theorem takeWhile_strncpy_take {dst : Vector UInt8 maxFilenameLen} (hend : dst[31] = 0)
    (name : CStr) :
    (Inode.strncpy dst name).toList.takeWhile (· ≠ 0) = name.bytes.take 31 := by
  let cut : CStr := ⟨name.bytes.take 31, fun h => name.noNul (List.mem_of_mem_take h)⟩
  have hcut : Inode.strncpy dst name = Inode.strncpy dst cut := by
    apply Vector.ext
    intro k hk
    rw [getElem_strncpy dst name hk, getElem_strncpy dst cut hk]
    split_ifs with h31
    · simp only [cut, List.getD_eq_getElem?_getD, List.getElem?_take, if_pos h31]
    · rfl
  have hlen : cut.strlen < maxFilenameLen := by
    rw [CStr.strlen, List.length_take]
    exact Nat.lt_succ_of_le (Nat.min_le_left _ _)
  rw [hcut, takeWhile_strncpy hend hlen]

namespace Bystanders
variable {B : Bystanders g} {held : Finset ℕ} {α : Type}

theorem Apart.fine (h : B.Apart i x) (hi : B.Other i) : B.Fine x.id.toNat x := by
  rw [h.id]
  exact .other hi fun _ => h

theorem apart_empty (hid : x.id.toNat = i) (hend : x.name[31] = 0) (hsize : x.size = 0)
    (hname : x.shownName ∉ B.names) : B.Apart i x := by
  have h0 : x.size.toNat = 0 := by rw [hsize]; rfl
  have hblocks : blocksOf g x = [] := by
    rw [blocksOf, h0, pieces_zero g.blockSize_pos, List.take_zero, List.map_nil]
  have hbs := g.blockSize_lt
  refine { id := hid, name_end := hend, size := ?_, size_fits := ?_, block_lt := ?_, name := hname,
           block := ?_ }
  · omega
  · omega
  · simp [hblocks]
  · simp [hblocks]

theorem Apart.congr (h : B.Apart i x) (hid : y.id = x.id) (hend : y.name[31] = 0)
    (hsize : y.size = x.size) (hblocks : y.directBlocks = x.directBlocks)
    (hname : y.shownName ∉ B.names) : B.Apart i y := by
  have heq : blocksOf g y = blocksOf g x := by rw [blocksOf, blocksOf, hsize, hblocks]
  refine { id := ?_, name_end := hend, size := ?_, size_fits := ?_, block_lt := ?_, name := hname,
           block := ?_ }
  · rw [hid]; exact h.id
  · rw [hsize]; exact h.size
  · rw [hsize]; exact h.size_fits
  · rw [heq]; exact h.block_lt
  · rw [heq]; exact h.block

/-! ## Look-ups -/

structure Found (B : Bystanders g) (name : List UInt8) (x : Inode) : Prop where
  fine : B.Fine x.id.toNat x
  live : x.isUsed = 1
  shown : x.shownName = name

theorem Found.shaped {name : List UInt8} (h : B.Found name x) : Shaped g x.id.toNat x :=
  h.fine.shaped h.live

theorem Found.apart {name : List UInt8} (h : B.Found name x) (hname : name ∉ B.names) :
    B.Other x.id.toNat ∧ B.Apart x.id.toNat x :=
  h.fine.apart h.live (h.shown ▸ hname)

theorem matchName_guarded (name : CStr) (i : ℕ) : Total (B.Guarded held) (matchName name i)
    fun r s => r.elim (B.Guarded held s) fun x => B.Guarded held s ∧ B.Found name.bytes x := by
  refine (inodeRead_guarded _).bind fun r => .fact (fun _ h => h.2) fun hfine => ?_
  cases r with
  | none => exact .pure fun _ h => h.1
  | some x =>
    dsimp only
    split_ifs with hlive
    · have hx := hfine x rfl
      have hshaped := hx.shaped hlive
      rw [nameEquals, require_pos (.inl hshaped.liveAt.terminated : _ ∨ _), pure_bind]
      by_cases hname : x.shownName = name.bytes
      · have hfound : B.Found name.bytes x := ⟨hshaped.id ▸ hx, hlive, hname⟩
        simp only [hname, decide_true, pure_bind, if_true]
        exact .pure fun _ h => ⟨h.1, hfound⟩
      · simp only [hname, decide_false, pure_bind, Bool.false_eq_true, if_false]
        exact .pure fun _ h => h.1
    · exact .pure fun _ h => h.1

theorem find_bind {name : CStr} {k : Option Inode → M α} {Q : α → World → Prop}
    (hnone : Total (B.Guarded held) (k none) Q)
    (hsome : ∀ x, B.Found name.bytes x → Total (B.Guarded held) (k (some x)) Q) :
    Total (B.Guarded held) (inodeFindByName name >>= k) Q := by
  have hfind : Total (B.Guarded held) (inodeFindByName name) fun r s =>
      r.elim (B.Guarded held s) fun x => B.Guarded held s ∧ B.Found name.bytes x :=
    getSb_bind fun _ _ => Total.search (fun i _ _ => matchName_guarded name i) fun _ h => h
  refine hfind.bind fun r => ?_
  cases r with
  | none => exact hnone
  | some x =>
    exact .fact (fun _ h => h.2) fun hx => (hsome x hx).conseq (fun _ h => h.1) fun _ _ h => h

theorem claimIfFree_guarded (hi : i < g.maxInodes) (hempty : [] ∉ B.names) :
    Total (B.Guarded held) (claimIfFree i) fun r s => r.elim (B.Guarded held s) fun x =>
      B.Guarded held s ∧ ∃ k, x = Inode.fresh k ∧ x.id.toNat = k ∧ B.Other k := by
  have hid := Geometry.toNat_slot hi
  refine (inodeRead_guarded _).bind fun r => .fact (fun _ h => h.2) fun hfine => ?_
  cases r with
  | none => exact .pure fun _ h => h.1
  | some x =>
    dsimp only
    split_ifs with hfree
    · have hother : B.Other i := (hid ▸ hfine x rfl).other_of_free hfree
      have hshown : (Inode.fresh i).shownName = [] := by
        change Inode.zero.shownName = []
        decide
      have hap : B.Apart i (Inode.fresh i) :=
        apart_empty hid (by decide : Inode.zero.name[31] = 0) rfl (hshown ▸ hempty)
      refine Total.conseq (setSb_bind ?_ fun _ hd => { hd with }) (fun _ h => h.1) fun _ _ h => h
      exact (inodeWrite_guarded (hap.fine hother)).seq fun _ =>
        .pure fun _ h => ⟨h, i, rfl, hid, hother⟩
    · exact .pure fun _ h => h.1

theorem inodeAllocate_guarded (hempty : [] ∉ B.names) :
    Total (B.Guarded held) inodeAllocate fun r s => r.elim (B.Guarded held s) fun x =>
      B.Guarded held s ∧ ∃ k, x = Inode.fresh k ∧ x.id.toNat = k ∧ B.Other k := by
  refine getSb_bind fun sb hg => ?_
  rw [hg.maxInodes]
  exact Total.search (fun i _ hi => claimIfFree_guarded (by omega) hempty) fun _ h => h

theorem inodeFree_guarded (hx : B.Other x.id.toNat) :
    Total (B.Guarded held) (inodeFree x.id) fun _ => B.Guarded held := by
  refine (inodeRead_guarded _).bind fun r => ?_
  cases r with
  | none => exact .pure fun _ h => h.1
  | some y =>
    refine Total.conseq (setSb_bind ?_ fun _ hd => { hd with }) (fun _ h => h.1) fun _ _ h => h
    exact inodeWrite_guarded (.other hx fun h => absurd h (by decide : ¬(0 : UInt8) = 1))

/-! ## Blocks -/

theorem freeBlocksLoop_guarded {start count : ℕ} (h16 : start + count ≤ 16)
    (hb : ∀ b ∈ blockRange x start count, ¬B.Spared b) :
    Total (B.Guarded ∅) (freeBlocksLoop x count start) fun _ => B.Guarded ∅ := by
  refine Total.forLoop fun k hk hlt => ?_
  rw [directBlock_eq x (by omega), pure_bind]
  exact (bitmapFreeBlock_guarded (hb _ (mem_blockRange hk hlt (by omega)))).seq fun _ =>
    .pure fun _ h => h

theorem readLoop_guarded {sb : Superblock} (hg : g.Describes sb) {count : ℕ} {bytesRead : UInt32}
    (h16 : i + count ≤ 16) (hb : ∀ b ∈ blockRange x i count, b < g.totalBlocks) :
    Total (B.Guarded held) (readLoop sb x count i bytesRead) fun _ => B.Guarded held := by
  induction count generalizing i bytesRead with
  | zero => exact .pure fun _ h => h
  | succ count ih =>
    have hi : i < 16 := by omega
    rw [blockRange_cons hi] at hb
    rw [readLoop, directBlock_eq x hi, pure_bind]
    refine (mallocRead_guarded (hb _ List.mem_cons_self) hg.blockSize).seq fun _ => ?_
    refine (ih (by omega) fun b hmem => hb b (List.mem_cons_of_mem _ hmem)).seq fun _ => ?_
    exact .pure fun _ h => h

theorem readBlocks_guarded {sb : Superblock} (hg : g.Describes sb) (hx : Shaped g i x) :
    Total (B.Guarded held) (readLoop sb x (blockCount sb x.size).toNat 0 0)
      fun _ => B.Guarded held := by
  have hfit := hx.size_fits
  rw [toNat_blockCount hg (by omega)]
  exact readLoop_guarded hg (by have := hx.liveAt.pieces_le; omega) hx.block_lt

theorem readContent_guarded {sb : Superblock} (hg : g.Describes sb) (hx : Shaped g i x) :
    Total (B.Guarded held) (readContent sb x) fun _ => B.Guarded held := by
  have hfit := hx.size_fits
  rw [readContent]
  split_ifs
  · refine .require_bind (fun _ _ => ?_)
      ((readBlocks_guarded hg hx).seq fun _ => .pure fun _ h => h)
    rw [UInt32.toNat_add, UInt32.toNat_one]
    have := g.blockSize_pos
    omega
  · exact .pure fun _ h => h

/-- The first `n` blocks of an inode were taken from those that were free. -/
structure Filled (B : Bystanders g) (x : Inode) (n : ℕ) (held : Finset ℕ) : Prop where
  card : held.card = n
  block : ∀ b ∈ held, b < g.totalBlocks ∧ ¬B.Spared b
  mem : ∀ b ∈ blockRange x 0 n, b ∈ held

theorem Filled.nil (x : Inode) : B.Filled x 0 ∅ where
  card := Finset.card_empty
  block b hb := absurd hb (Finset.notMem_empty b)
  mem b hb := by simp [blockRange, slice] at hb

theorem Filled.snoc (h : B.Filled x n held) (hn : n < 16) {b : UInt32}
    (hlt : b.toNat < g.totalBlocks)
    (hb : ¬B.Spared b.toNat) (hnew : b.toNat ∉ held) :
    B.Filled { x with directBlocks := x.directBlocks.set n b } (n + 1) (insert b.toNat held) where
  card := by rw [Finset.card_insert_of_notMem hnew, h.card]
  block c hc := by
    rw [Finset.mem_insert] at hc
    cases hc with
    | inl heq => exact heq ▸ ⟨hlt, hb⟩
    | inr hmem => exact h.block c hmem
  mem c hc := by
    have hkeep : blockRange { x with directBlocks := x.directBlocks.set n b } 0 n =
        blockRange x 0 n := by
      simp only [blockRange, slice, List.drop_zero, Vector.toList_set, List.take_set_of_le le_rfl]
    rw [blockRange_succ (by omega), hkeep, List.mem_append, List.mem_singleton] at hc
    rw [Finset.mem_insert]
    cases hc with
    | inl hmem => exact .inr (h.mem c hmem)
    | inr heq =>
      simp only [Nat.zero_add, Vector.getElem_set_self] at heq
      exact .inl heq

/-- There are as many free blocks. -/
theorem Filled.le (h : B.Filled x n held) : n + g.dataStart ≤ g.totalBlocks := by
  have hsub : held ⊆ Finset.Ico g.dataStart g.totalBlocks := fun b hb =>
    Finset.mem_Ico.mpr ⟨Spared.not_lt (h.block b hb).2, (h.block b hb).1⟩
  have hcard := Finset.card_le_card hsub
  have hlt := g.dataStart_lt
  rw [h.card, Nat.card_Ico] at hcard
  omega

theorem Filled.apart (h : B.Filled y n held) (hx : B.Apart i x) (hid : y.id = x.id)
    (hend : y.name = x.name) (h16 : n ≤ 16) (hsize : y.size.toNat ≤ n * g.blockSize) :
    B.Apart i y := by
  have hmul : (n + 3) * g.blockSize ≤ g.totalBlocks * g.blockSize :=
    Nat.mul_le_mul_right _ (by have := h.le; have := g.three_le_dataStart; omega)
  have h16' : n * g.blockSize ≤ 16 * g.blockSize := Nat.mul_le_mul_right _ h16
  have hbytes := g.bytes_lt
  rw [Nat.add_mul] at hmul
  have hmem (b : ℕ) (hb : b ∈ blocksOf g y) : b < g.totalBlocks ∧ ¬B.Spared b := by
    have hle : 0 + pieces y.size.toNat g.blockSize ≤ n := by
      rw [Nat.zero_add]
      exact (pieces_le_iff g.blockSize_pos).mpr hsize
    exact h.block b (h.mem b (blockRange_subset hle hb))
  refine { id := ?_, name_end := ?_, size := ?_, size_fits := ?_
           block_lt := fun b hb => (hmem b hb).1,
           name := ?_, block := fun b hb => (hmem b hb).2 }
  · rw [hid]; exact hx.id
  · rw [hend]; exact hx.name_end
  · omega
  · omega
  · rw [Inode.shownName, hend]; exact hx.name

theorem doWriteLoop_guarded {data : List UInt8} {len : UInt32} {count : ℕ} {written : UInt32}
    (h16 : n + count ≤ 16) (hx : B.Filled x n held) :
    Total (B.Guarded held) (doWriteLoop data len count n x written) fun r s => B.Guarded ∅ s ∧
      ∀ y, r = some y → ∃ d held', y = { x with directBlocks := d } ∧
        B.Filled y (n + count) held' := by
  induction count generalizing n x held written with
  | zero =>
    refine .pure fun s h => ⟨h.mono (Finset.empty_subset _), fun y hy => ?_⟩
    obtain rfl := Option.some.inj hy
    exact ⟨x.directBlocks, held, rfl, hx⟩
  | succ count ih =>
    rw [doWriteLoop]
    refine bitmapAllocateBlock_guarded.bind fun r => ?_
    cases r with
    | none =>
      refine (emit_guarded _).seq fun _ => .pure fun s h => ⟨h.mono (Finset.empty_subset _), ?_⟩
      intro y hy
      cases hy
    | some b =>
      refine .fact (fun _ h => h.1) fun hlt => .fact (fun _ h => h.2.1) fun hspared => ?_
      refine .fact (fun _ h => h.2.2.1) fun hnew => ?_
      have hnext := hx.snoc (by omega) hlt hspared hnew
      have hset : setDirectBlock x n b =
          pure { x with directBlocks := x.directBlocks.set n b } := by
        rw [setDirectBlock, dif_pos (by omega)]
      refine Total.conseq (P := B.Guarded (insert b.toNat held)) ?_ (fun _ h => h.2.2.2)
        fun _ _ h => h
      dsimp only
      rw [hset, pure_bind]
      refine getSb_bind fun sb hg => ?_
      refine (diskWrite_guarded hspared hlt ?_).seq fun _ => ?_
      · rw [List.rightpad, List.length_append, List.length_replicate, hg.blockSize]
        omega
      · refine (ih (by omega) hnext).weaken fun r s h => ⟨h.1, fun y hy => ?_⟩
        obtain ⟨d, held', rfl, hfill⟩ := h.2 y hy
        rw [Nat.add_right_comm] at hfill
        exact ⟨d, held', rfl, hfill⟩

/-- `_do_write` leaves the inode with blocks that are no other file's. -/
theorem doWrite_guarded {now : UInt64} {data : List UInt8} {len : UInt32} (hx : B.Apart i x)
    (hlen : len.toNat + g.blockSize ≤ 2 ^ 32) :
    Total (B.Guarded ∅) (doWrite now x data len) fun r s => B.Guarded ∅ s ∧
      ∀ y, r = some y → B.Apart i y := by
  have hrefused (msg : Message) : Total (B.Guarded ∅) (do emit msg; pure none : M (Option Inode))
      fun r s => B.Guarded ∅ s ∧ ∀ y, r = some y → B.Apart i y :=
    (emit_guarded msg).seq fun _ => .pure fun s h => ⟨h, fun y hy => by cases hy⟩
  rw [doWrite_eq]
  refine getSb_bind fun sb hg => ?_
  have hneeded : (countNeeded sb len).toNat = blocksNeeded g len.toNat := toNat_needed hg hlen
  split_ifs with hlarge hfull
  · exact hrefused _
  · exact hrefused _
  · have h16 : (countNeeded sb len).toNat ≤ 16 :=
      UInt32.le_iff_toNat_le.mp (UInt32.not_lt.mp hlarge)
    have hfit := hx.size_fits
    have hsize : len.toNat ≤ (countNeeded sb len).toNat * g.blockSize := by
      rw [hneeded]
      exact (pieces_le_iff g.blockSize_pos).mp (le_max_right 1 _)
    rw [toNat_blocksUsed hg (by omega)]
    have hfree : Total (B.Guarded ∅) (freeBlocksLoop x (pieces x.size.toNat g.blockSize) 0)
        fun _ => B.Guarded ∅ :=
      freeBlocksLoop_guarded (by have := hx.liveAt.pieces_le; omega) hx.block
    refine hfree.seq fun _ => ?_
    refine (doWriteLoop_guarded (by omega) (Filled.nil x)).bind fun r => ?_
    cases r with
    | none => exact .pure fun s h => ⟨h.1, fun y hy => by cases hy⟩
    | some y =>
      refine .fact (fun _ h => h.2 y rfl) fun hy => ?_
      obtain ⟨d, held', rfl, hfill⟩ := hy
      rw [Nat.zero_add] at hfill
      refine Total.conseq (setSb_bind ?_ fun _ hd => { hd with }) (fun _ h => h.1) fun _ _ h => h
      refine .pure fun s h => ⟨h, fun z hz => ?_⟩
      obtain rfl := Option.some.inj hz
      have hsame : B.Filled { x with directBlocks := d, size := len, modifiedAt := now }
          (countNeeded sb len).toNat held' := ⟨hfill.card, hfill.block, hfill.mem⟩
      exact hsame.apart hx rfl rfl h16 hsize

/-! ## The operations -/

section Operations
variable {now : UInt64}

theorem finish_guarded {r : Int} {msg : Message} (hx : B.Fine x.id.toNat x) :
    Total (B.Guarded ∅) (do
      let _ ← inodeWrite x.id x
      let _ ← diskWriteSb
      emit msg
      pure r : M Int) fun _ => B.Guarded ∅ :=
  (inodeWrite_guarded hx).seq fun _ => diskWriteSb_guarded.seq fun _ =>
    (emit_guarded msg).seq fun _ => .pure fun _ h => h

theorem refuse_guarded {r : Int} {msg : Message} :
    Total (B.Guarded held) (do emit msg; pure r : M Int) fun _ => B.Guarded held :=
  (emit_guarded msg).seq fun _ => .pure fun _ h => h

theorem apart_fresh {k : ℕ} (hid : (Inode.fresh k).id.toNat = k) {name : CStr}
    (hname : name.bytes.take 31 ∉ B.names) (hx : x.name = Inode.strncpy (Inode.fresh k).name name)
    (hxid : x.id = (Inode.fresh k).id) (hsize : x.size = 0) : B.Apart k x := by
  have hend : (Inode.fresh k).name[31] = 0 := (by decide : Inode.zero.name[31] = 0)
  refine apart_empty ((congrArg UInt32.toNat hxid).trans hid) ?_ hsize ?_
  · rw [hx, strncpy_last, hend]
  · rwa [Inode.shownName, hx, takeWhile_strncpy_take hend]

theorem fsCreate_guarded {name : CStr} (hempty : [] ∉ B.names) (hname : name.bytes ∉ B.names) :
    Total (B.Guarded ∅) (fsCreate now name) fun _ => B.Guarded ∅ := by
  rw [fsCreate]
  split_ifs with hlen
  · exact refuse_guarded
  · refine find_bind ?_ fun _ _ => refuse_guarded
    rw [if_neg (by simp)]
    refine getSb_bind fun sb _ => ?_
    split_ifs
    · exact refuse_guarded
    · refine (inodeAllocate_guarded hempty).bind fun r => ?_
      cases r with
      | none => exact refuse_guarded
      | some x =>
        refine .fact (fun _ h => h.2) fun hx => ?_
        obtain ⟨k, rfl, hid, hother⟩ := hx
        have htake : name.bytes.take 31 = name.bytes :=
          List.take_of_length_le (Nat.le_of_lt_succ (not_le.mp hlen))
        have hap : B.Apart k { Inode.fresh k with
            name := Inode.strncpy (Inode.fresh k).name name, size := 0
            mode := fsIfreg ||| fsDefaultMode, linkCount := 1, createdAt := now, modifiedAt := now
            accessedAt := now } := apart_fresh hid (htake.symm ▸ hname) rfl rfl rfl
        exact (finish_guarded (hap.fine hother)).conseq (fun _ h => h.1) fun _ _ h => h

theorem fsDelete_guarded {name : CStr} (hname : name.bytes ∉ B.names) :
    Total (B.Guarded ∅) (fsDelete name) fun _ => B.Guarded ∅ := by
  refine find_bind refuse_guarded fun x hx => getSb_bind fun sb hg => ?_
  obtain ⟨hother, hap⟩ := hx.apart hname
  have hfit := hap.size_fits
  dsimp only
  rw [toNat_blocksUsed hg (by omega)]
  have hfree : Total (B.Guarded ∅) (freeBlocksLoop x (pieces x.size.toNat g.blockSize) 0)
      fun _ => B.Guarded ∅ :=
    freeBlocksLoop_guarded (by have := hap.liveAt.pieces_le; omega) hap.block
  exact hfree.seq fun _ => (inodeFree_guarded hother).seq fun _ => diskWriteSb_guarded.seq fun _ =>
    refuse_guarded

theorem fsWrite_guarded {name data : CStr} (hname : name.bytes ∉ B.names)
    (hdata : data.strlen < 2 ^ 17) :
    Total (B.Guarded ∅) (fsWrite now name data) fun _ => B.Guarded ∅ := by
  refine find_bind refuse_guarded fun x hx => ?_
  obtain ⟨hother, hap⟩ := hx.apart hname
  have hbs := g.blockSize_lt
  have hlen : (UInt32.ofNat data.strlen).toNat = data.strlen := toNat_word (by omega)
  refine (doWrite_guarded hap (by omega)).bind fun r => .fact (fun _ h => h.2) fun hr => ?_
  cases r with
  | none => exact .pure fun _ h => h.1
  | some y => exact (finish_guarded ((hr y rfl).fine hother)).conseq (fun _ h => h.1) fun _ _ h => h

theorem fsAppend_guarded {name data : CStr} (hname : name.bytes ∉ B.names)
    (hdata : data.strlen < 2 ^ 17) :
    Total (B.Guarded ∅) (fsAppend now name data) fun _ => B.Guarded ∅ := by
  refine find_bind refuse_guarded fun x hx => getSb_bind fun sb hg => ?_
  obtain ⟨hother, hap⟩ := hx.apart hname
  have hbs := g.blockSize_lt
  have hsize := hap.size
  have hfit := hap.size_fits
  have hlen : (UInt32.ofNat data.strlen).toNat = data.strlen := toNat_word (by omega)
  have hnew : (x.size + UInt32.ofNat data.strlen).toNat = x.size.toNat + data.strlen := by
    rw [UInt32.toNat_add, hlen, Nat.mod_eq_of_lt (by omega)]
  refine (readContent_guarded hg hap.toShaped).seq fun content => .require_bind (fun _ _ => ?_) ?_
  · rw [UInt32.toNat_add, hnew, hlen, UInt32.toNat_one, Nat.mod_eq_of_lt (by omega)]
    omega
  · refine (doWrite_guarded hap (by omega)).bind fun r => .fact (fun _ h => h.2) fun hr => ?_
    cases r with
    | none => exact .pure fun _ h => h.1
    | some y => exact (finish_guarded ((hr y rfl).fine hother)).conseq (fun _ h => h.1) fun _ _ h => h

/-- Reading changes the access time, of any file. -/
theorem fsRead_guarded {name : CStr} :
    Total (B.Guarded ∅) (fsRead now name) fun _ => B.Guarded ∅ := by
  refine find_bind refuse_guarded fun x hx => ?_
  refine (inodeWrite_guarded (hx.fine.touch now)).seq fun _ => ?_
  dsimp only
  split_ifs
  · refine (emit_guarded _).seq fun _ => setSb_bind ?_ fun _ hd => { hd with }
    exact diskWriteSb_guarded.seq fun _ => .pure fun _ h => h
  · have hshaped : Shaped g x.id.toNat { x with accessedAt := now } := { hx.shaped with }
    refine getSb_bind fun sb hg => (readBlocks_guarded hg hshaped).seq fun bytes => ?_
    refine (emit_guarded _).seq fun _ => (emit_guarded _).seq fun _ => ?_
    refine setSb_bind ?_ fun _ hd => { hd with }
    exact diskWriteSb_guarded.seq fun _ => .pure fun _ h => h

theorem fsRename_guarded {oldName newName : CStr} (hold : oldName.bytes ∉ B.names)
    (hnew : newName.bytes ∉ B.names) :
    Total (B.Guarded ∅) (fsRename now oldName newName) fun _ => B.Guarded ∅ := by
  rw [fsRename]
  split_ifs with hlen
  · exact refuse_guarded
  · refine find_bind refuse_guarded fun x hx => find_bind ?_ fun y _ => ?_
    swap
    · rw [if_pos Option.isSome_some]
      exact refuse_guarded
    obtain ⟨hother, hap⟩ := hx.apart hold
    let x' : Inode := { x with name := Inode.strncpy x.name newName, modifiedAt := now }
    have hend : x'.name[31] = 0 := (strncpy_last _ _).trans hap.name_end
    have hshown : x'.shownName = newName.bytes :=
      shownName_strncpy hap.name_end (not_le.mp hlen) rfl
    have hap' : B.Apart x.id.toNat x' := hap.congr rfl hend rfl rfl (hshown ▸ hnew)
    rw [if_neg (by simp)]
    exact (inodeWrite_guarded (hap'.fine hother)).seq fun _ => refuse_guarded

theorem fsTruncate_guarded {name : CStr} {newSize : UInt32} (hname : name.bytes ∉ B.names) :
    Total (B.Guarded ∅) (fsTruncateFile now name newSize) fun _ => B.Guarded ∅ := by
  refine find_bind refuse_guarded fun x hx => ?_
  obtain ⟨hother, hap⟩ := hx.apart hname
  dsimp only
  split_ifs with hlt
  · exact refuse_guarded
  · refine getSb_bind fun sb hg => ?_
    have hle : newSize.toNat ≤ x.size.toNat := UInt32.le_iff_toNat_le.mp (UInt32.not_lt.mp hlt)
    have hfit := hap.size_fits
    have hpieces := pieces_mono g.blockSize_pos hle
    have h16 := hap.liveAt.pieces_le
    have hsub (b : ℕ) {start count : ℕ} (h : start + count ≤ pieces x.size.toNat g.blockSize)
        (hb : b ∈ blockRange x start count) : b ∈ blocksOf g x := blockRange_subset h hb
    have hshort : B.Apart x.id.toNat { x with size := newSize, modifiedAt := now } := by
      have hb (b : ℕ) (hb : b ∈ blockRange x 0 (pieces newSize.toNat g.blockSize)) :
          b ∈ blocksOf g x := hsub b (by omega) hb
      refine { id := hap.id, name_end := hap.name_end, size := hle.trans hap.size, size_fits := ?_,
               block_lt := fun b h => hap.block_lt b (hb b h), name := hap.name,
               block := fun b h => hap.block b (hb b h) }
      change newSize.toNat + _ < _
      omega
    rw [toNat_blocksUsed hg (by omega), toNat_blocksUsed hg (by omega)]
    refine (freeBlocksLoop_guarded (by omega) fun b hb => ?_).seq fun _ => ?_
    · exact hap.block b (hsub b (by omega) hb)
    · exact finish_guarded (x := { x with size := newSize, modifiedAt := now }) (hshort.fine hother)

theorem fsChmod_guarded {name : CStr} {mode : UInt16} (hname : name.bytes ∉ B.names) :
    Total (B.Guarded ∅) (fsChmod now name mode) fun _ => B.Guarded ∅ := by
  refine find_bind refuse_guarded fun x hx => ?_
  obtain ⟨hother, hap⟩ := hx.apart hname
  have hap' : B.Apart x.id.toNat { x with
      mode := (x.mode &&& 0xF000) ||| (mode &&& 0x0FFF), modifiedAt := now } :=
    hap.congr rfl hap.name_end rfl rfl hap.name
  exact (inodeWrite_guarded (hap'.fine hother)).seq fun _ => refuse_guarded

/-! ## Copies -/

theorem copyReads_guarded (src dst : CStr) : Total (B.Guarded ∅) (copyReads src dst) fun r s =>
    B.Guarded ∅ s ∧ ∀ p, r = some p → Shaped g p.1.id.toNat p.1 := by
  have hnone (msg : Message) : Total (B.Guarded ∅)
      (do emit msg; pure none : M (Option (Inode × List UInt8))) fun r s =>
      B.Guarded ∅ s ∧ ∀ p, r = some p → Shaped g p.1.id.toNat p.1 :=
    (emit_guarded msg).seq fun _ => .pure fun s h => ⟨h, fun p hp => by cases hp⟩
  refine find_bind (hnone _) fun x hx => find_bind ?_ fun _ _ => hnone _
  rw [if_neg (by simp)]
  refine getSb_bind fun _ _ => ?_
  split_ifs
  · exact hnone _
  · refine getSb_bind fun sb hg => (readContent_guarded hg hx.shaped).seq fun content => ?_
    refine .pure fun s h => ⟨h, fun p hp => ?_⟩
    obtain rfl := Option.some.inj hp
    exact hx.shaped

theorem copyInto_guarded {dst : CStr} {k : ℕ} (src : CStr) (content : List UInt8)
    (hx : Shaped g i x) (hid : (Inode.fresh k).id.toNat = k) (hother : B.Other k)
    (hname : dst.bytes.take 31 ∉ B.names) :
    Total (B.Guarded ∅) (copyInto now src dst x content (Inode.fresh k)) fun _ => B.Guarded ∅ := by
  have hap : B.Apart k { Inode.fresh k with
      name := Inode.strncpy (Inode.fresh k).name dst, mode := x.mode, linkCount := 1
      createdAt := now, modifiedAt := now, accessedAt := now } := apart_fresh hid hname rfl rfl rfl
  have hfit := hx.size_fits
  rw [copyInto]
  split_ifs
  · refine (doWrite_guarded hap (by omega)).bind fun r => .fact (fun _ h => h.2) fun hr => ?_
    cases r with
    | none =>
      refine Total.conseq (P := B.Guarded ∅) ?_ (fun _ h => h.1) fun _ _ h => h
      refine (inodeFree_guarded (x := Inode.fresh k) ?_).seq fun _ => .pure fun _ h => h
      rwa [hid]
    | some y =>
      exact (finish_guarded ((hr y rfl).fine hother)).conseq (fun _ h => h.1) fun _ _ h => h
  · exact finish_guarded (hap.fine hother)

theorem fsCopy_guarded {src dst : CStr} (hempty : [] ∉ B.names)
    (hname : dst.bytes.take 31 ∉ B.names) :
    Total (fun s => B.Guarded ∅ s ∧ GetsSlot s (.file ⟨.copy src dst, now⟩)) (fsCopy now src dst)
      fun _ => B.Guarded ∅ := by
  rintro s ⟨hs, hgets⟩
  obtain ⟨r, t, hreads, ht, hshaped⟩ := copyReads_guarded src dst s hs
  rw [fsCopy_eq, bind_apply, hreads, Option.bind_some]
  cases r with
  | none => exact ⟨-1, t, rfl, ht⟩
  | some p =>
    obtain ⟨o, u, halloc, hu⟩ := inodeAllocate_guarded hempty t ht
    cases o with
    | none => exact absurd halloc (hgets p t hreads u)
    | some y =>
      obtain ⟨hu, k, rfl, hid, hother⟩ := hu
      obtain ⟨a, u', hrun, hu'⟩ := copyInto_guarded src p.2 (hshaped p rfl) hid hother hname u hu
      refine ⟨a, u', ?_, hu'⟩
      simp only [copyClaim, bind_apply, halloc, Option.bind_some, pure_apply]
      exact hrun

end Operations

/-! ## Commands that only read -/

theorem lsLoop_guarded (count i : ℕ) : Total (B.Guarded held) (lsLoop count i)
    fun _ => B.Guarded held := by
  induction count generalizing i with
  | zero => exact .pure fun _ h => h
  | succ count ih =>
    refine (inodeRead_guarded _).bind fun r => Total.conseq (P := B.Guarded held) ?_
      (fun _ h => h.1) fun _ _ h => h
    cases r with
    | none => exact ih (i + 1)
    | some x =>
      dsimp only
      split_ifs
      · exact (emit_guarded _).seq fun _ => (ih (i + 1)).seq fun _ => .pure fun _ h => h
      · exact ih (i + 1)

theorem fsLs_guarded : Total (B.Guarded held) fsLs fun _ => B.Guarded held := by
  refine getSb_bind fun sb _ => (lsLoop_guarded _ 0).seq fun count => ?_
  split_ifs
  · exact (emit_guarded _).seq fun _ => refuse_guarded
  · exact refuse_guarded

theorem pointerLoop_guarded {count : ℕ} (h16 : i + count ≤ 16) :
    Total (B.Guarded held) (pointerLoop x count i) fun _ => B.Guarded held := by
  induction count generalizing i with
  | zero => exact .pure fun _ h => h
  | succ count ih =>
    rw [pointerLoop, directBlock_eq x (by omega), pure_bind]
    exact (ih (by omega)).seq fun _ => .pure fun _ h => h

theorem fsStat_guarded {name : CStr} :
    Total (B.Guarded held) (fsStat name) fun _ => B.Guarded held := by
  refine find_bind refuse_guarded fun x hx => getSb_bind fun sb hg => ?_
  have hfit := hx.shaped.size_fits
  dsimp only
  rw [toNat_blocksUsed hg (by omega)]
  refine (pointerLoop_guarded ?_).seq fun pointers => refuse_guarded
  have := hx.shaped.liveAt.pieces_le
  omega

theorem fsStatfs_guarded : Total (B.Guarded held) fsStatfs fun _ => B.Guarded held :=
  getSb_bind fun _ _ => refuse_guarded

theorem fsckPointers_guarded {sb : Superblock} {slot : UInt32} {count : ℕ} (h16 : i + count ≤ 16) :
    Total (B.Guarded held) (fsckPointers sb slot x count i) fun _ => B.Guarded held := by
  induction count generalizing i with
  | zero => exact .pure fun _ h => h
  | succ count ih =>
    rw [fsckPointers, directBlock_eq x (by omega), pure_bind]
    split_ifs
    · exact (emit_guarded _).seq fun _ => (ih (by omega)).seq fun _ => .pure fun _ h => h
    · exact ih (by omega)

/-- One of two messages, each with a number to go on with. -/
theorem either_bind {p : Prop} [Decidable p] {msg msg' : Message} {a b : ℕ} {k : ℕ → M α}
    {Q : α → World → Prop} (hk : ∀ c, Total (B.Guarded held) (k c) Q) :
    Total (B.Guarded held) (if p then do emit msg; let c ← pure a; k c
      else do emit msg'; let c ← pure b; k c) Q := by
  split_ifs
  · exact (emit_guarded _).seq fun _ => hk a
  · exact (emit_guarded _).seq fun _ => hk b

theorem fsckInode_guarded {sb : Superblock} {slot : UInt32} {counts : FsckCounts} :
    Total (B.Guarded held) (fsckInode sb slot counts) fun _ => B.Guarded held := by
  refine (inodeRead_guarded _).bind fun r => Total.conseq (P := B.Guarded held) ?_
    (fun _ h => h.1) fun _ _ h => h
  cases r with
  | none => exact (emit_guarded _).seq fun _ => .pure fun _ h => h
  | some x =>
    have hpointers (hsize : ¬blocksUsed sb x.size > maxDirectBlocks) : Total (B.Guarded held)
        (fsckPointers sb slot x (blocksUsed sb x.size).toNat 0) fun _ => B.Guarded held := by
      have hle := UInt32.le_iff_toNat_le.mp (UInt32.not_lt.mp hsize)
      have h16 : maxDirectBlocks.toNat = 16 := rfl
      exact fsckPointers_guarded (by omega)
    dsimp only
    split_ifs with hfree hskip hid hlarge hlarge
    · exact .pure fun _ h => h
    · exact .pure fun _ h => h
    · refine (emit_guarded _).seq fun _ => ?_
      rw [pure_bind]
      exact (emit_guarded _).seq fun _ => .pure fun _ h => h
    · refine (emit_guarded _).seq fun _ => ?_
      rw [pure_bind]
      exact (hpointers hlarge).seq fun _ => .pure fun _ h => h
    · rw [pure_bind]
      exact (emit_guarded _).seq fun _ => .pure fun _ h => h
    · rw [pure_bind]
      exact (hpointers hlarge).seq fun _ => .pure fun _ h => h

theorem fsckWalk_guarded {sb : Superblock} (count i : ℕ) (counts : FsckCounts) :
    Total (B.Guarded held) (fsckWalk sb count i counts) fun _ => B.Guarded held := by
  induction count generalizing i counts with
  | zero => exact .pure fun _ h => h
  | succ count ih => exact fsckInode_guarded.seq fun counts => ih (i + 1) counts

theorem fsFsck_guarded : Total (B.Guarded held) fsFsck fun _ => B.Guarded held := by
  refine getSb_bind fun sb _ => ?_
  refine either_bind fun magicErrors => (fsckWalk_guarded _ 0 _).seq fun counts => ?_
  refine either_bind fun inodeErrors => either_bind fun blockErrors => ?_
  exact (emit_guarded _).seq fun _ => refuse_guarded

/-! ## Whole commands -/

theorem runOp_guarded {now : UInt64} {op : FileOp} (hargs : op.ArgsBelow (2 ^ 17))
    (hnames : ∀ name ∈ op.alters, name ∉ B.names) :
    Total (fun s => B.Guarded ∅ s ∧ GetsSlot s (.file ⟨op, now⟩)) (runOp now op)
      fun _ => B.Guarded ∅ := by
  have hplain (op : FileOp) (h : Total (B.Guarded ∅) (runOp now op) fun _ => B.Guarded ∅) :
      Total (fun s => B.Guarded ∅ s ∧ GetsSlot s (.file ⟨op, now⟩)) (runOp now op)
        fun _ => B.Guarded ∅ := h.conseq (fun _ hs => hs.1) fun _ _ hs => hs
  cases op with
  | create name =>
    exact hplain _ (fsCreate_guarded (hnames _ (by simp [FileOp.alters]))
      (hnames _ (by simp [FileOp.alters])))
  | write name data =>
    exact hplain _ (fsWrite_guarded (hnames _ (by simp [FileOp.alters]))
      (hargs data (by simp [FileOp.args])))
  | append name data =>
    exact hplain _ (fsAppend_guarded (hnames _ (by simp [FileOp.alters]))
      (hargs data (by simp [FileOp.args])))
  | read name => exact hplain _ fsRead_guarded
  | rename oldName newName =>
    exact hplain _ (fsRename_guarded (hnames _ (by simp [FileOp.alters]))
      (hnames _ (by simp [FileOp.alters])))
  | copy src dst =>
    exact fsCopy_guarded (hnames _ (by simp [FileOp.alters])) (hnames _ (by simp [FileOp.alters]))
  | truncate name newSize =>
    exact hplain _ (fsTruncate_guarded (hnames _ (by simp [FileOp.alters])))
  | chmod name mode => exact hplain _ (fsChmod_guarded (hnames _ (by simp [FileOp.alters])))
  | delete name => exact hplain _ (fsDelete_guarded (hnames _ (by simp [FileOp.alters])))

theorem runCommand_guarded {c : Command} (hargs : c.ArgsBelow (2 ^ 17))
    (hnames : ∀ name ∈ c.alters, name ∉ B.names) :
    Total (fun s => B.Guarded ∅ s ∧ GetsSlot s c) (runCommand c) fun _ => B.Guarded ∅ := by
  cases c with
  | file call => exact runOp_guarded hargs hnames
  | ls => exact fsLs_guarded.conseq (fun _ hs => hs.1) fun _ _ hs => hs
  | stat name => exact fsStat_guarded.conseq (fun _ hs => hs.1) fun _ _ hs => hs
  | statfs => exact fsStatfs_guarded.conseq (fun _ hs => hs.1) fun _ _ hs => hs
  | fsck => exact fsFsck_guarded.conseq (fun _ hs => hs.1) fun _ _ hs => hs

/-- Commands that alter none of the names. -/
theorem runList_guarded {cs : List Command} (hargs : ∀ c ∈ cs, c.ArgsBelow (2 ^ 17))
    (hnames : ∀ c ∈ cs, ∀ name ∈ c.alters, name ∉ B.names) {s : World} (hs : B.Guarded ∅ s)
    (hgets : Always runCommand GetsSlot s cs) :
    ∃ as s', runList runCommand cs s = some (as, s') ∧ B.Guarded ∅ s' :=
  Total.list (fun c hc => runCommand_guarded (hargs c hc) (hnames c hc)) hs hgets

/-- `fs_unmount` closes the disk; what it has written before does no harm. -/
theorem fsUnmount_guarded : Total (B.Guarded held) fsUnmount fun _ s =>
    ∃ disk, s.file = some disk ∧ B.OnDisk disk := by
  refine bitmapSync_guarded.seq fun _ => diskWriteSb_guarded.seq fun _ => .update fun s h => ?_
  obtain ⟨disk, bytes, sb, hrun, -, hdisk⟩ := h
  exact ⟨disk, hrun.file, hdisk⟩

end Bystanders

end MiniFs.Image
