import MiniFs.Library.Tape
import MiniFs.Image.Observe

/-! # The system calls an operation makes

The outcomes of the system calls are a tape. The parts of an operation that make no
choice by them use up a number of calls that the state before tells, and on a tape
without failures among these they do what they do on a disk that never fails.
-/

set_option autoImplicit false

namespace MiniFs.Image
open MiniFs.Core Library Library.Exec Library.ByteRange Library.Chunks

/-- The outcomes of the system calls to come. -/
def callTape : Tape World Fault where
  set f w := { w with faults := f }
  good := none

structure Open (g : Geometry) (s : World) : Prop where
  fd : s.fd = .opened
  layout : g.Describes s.sb
  faults : s.faults = noFaults

variable {g : Geometry} {s : World}

section Steps
variable {α : Type} {k : Unit → M α} {D : α → ℕ → Prop}

theorem setSb_spends (h : Open g s) {f : Superblock → Superblock}
    (hf : ∀ sb, g.Describes sb → g.Describes (f sb))
    (hk : ∀ t, Open g t → Spends callTape (Open g) (k ()) t D) :
    Spends callTape (Open g) (setSb f >>= k) s D :=
  .update_bind (fun _ => rfl)
    (hk _ ⟨h.fd, hf s.sb h.layout, h.faults⟩)

theorem setBitmap_spends (h : Open g s) (p : Pointer)
    (hk : ∀ t, Open g t → Spends callTape (Open g) (k ()) t D) :
    Spends callTape (Open g) (setBitmap p >>= k) s D :=
  .update_bind (fun _ => rfl) (hk _ ⟨h.fd, h.layout, h.faults⟩)

theorem emit_spends (h : Open g s) (msg : Message)
    (hk : ∀ t, Open g t → Spends callTape (Open g) (k ()) t D) :
    Spends callTape (Open g) (emit msg >>= k) s D :=
  .update_bind (fun _ => rfl) (hk _ ⟨h.fd, h.layout, h.faults⟩)

end Steps

/-! ## Transfers -/

theorem nextFault_spends {I : World → Prop} (hI : I s) (h : s.faults = noFaults) :
    Spends callTape I nextFault s fun r n => r = none ∧ n = 1 := by
  intro r s' hrun
  rw [nextFault_none h] at hrun
  obtain ⟨rfl, rfl⟩ := returned_inj hrun
  refine ⟨hI, 1, ⟨rfl, rfl⟩, fun f hf => ?_⟩
  have h0 : f 0 = none := hf 0 Nat.one_pos
  have hskip : skip 1 f = fun k => f (k + 1) := funext fun k => congrArg f (Nat.add_comm 1 k)
  rw [hskip]
  simp only [nextFault, callTape, h0]

theorem diskRead_spends (h : Open g s) (b : UInt32) (buf : List UInt8) :
    Spends callTape (Open g) (diskRead b buf) s (Exactly 1) := by
  refine .ask_bind (fun _ => rfl) (.ask_bind (fun _ => rfl) ?_)
  rw [h.fd]
  refine (nextFault_spends h h.faults).bind fun r n s' hn hI _ => ?_
  obtain ⟨rfl, rfl⟩ := hn
  refine .ask_bind (fun _ => rfl) (.require_bind fun _ => ?_)
  split_ifs with hlen
  · exact .pure hI rfl
  · exact emit_spends hI _ fun _ ht => .pure ht rfl

theorem mallocRead_spends (h : Open g s) (b n : UInt32) :
    Spends callTape (Open g) (mallocRead b n) s (Exactly 1) :=
  .ask_bind (fun _ => rfl) (diskRead_spends h b _)

theorem diskWrite_spends (h : Open g s) (b : UInt32) (buf : List UInt8) :
    Spends callTape (Open g) (diskWrite b buf) s (Exactly 1) := by
  refine .ask_bind (fun _ => rfl) (.ask_bind (fun _ => rfl) ?_)
  rw [h.fd]
  refine .require_bind fun _ => ?_
  refine (nextFault_spends h h.faults).bind fun r n s' hn hI _ => ?_
  obtain ⟨rfl, rfl⟩ := hn
  exact .update_bind (fun _ => rfl) (.pure ⟨hI.fd, hI.layout, hI.faults⟩ rfl)

theorem diskWriteSb_spends (h : Open g s) :
    Spends callTape (Open g) diskWriteSb s (Exactly 1) :=
  .ask_bind (fun _ => rfl) (diskWrite_spends h 0 _)

/-! ## The bitmap -/

theorem bitmapBytes_spends (h : Open g s) :
    Spends callTape (Open g) bitmapBytes s (Exactly 0) := by
  refine .ask_bind (fun _ => rfl) ?_
  cases s.bitmap with
  | live bytes => exact .pure h rfl
  | null => exact .stuck
  | freed => exact .stuck

theorem bitmapSync_spends (h : Open g s) :
    Spends callTape (Open g) bitmapSync s (AtMost g.bitmapBlocks) := by
  refine .ask_bind (fun _ => rfl) (.ask_bind (fun _ => rfl) ?_)
  cases s.bitmap with
  | null => exact .pure h (Nat.zero_le _)
  | freed => exact .stuck
  | live bytes =>
    have hloop : Spends callTape (Open g)
        (forLoop (syncBitmapBlock s.sb bytes) s.sb.bitmapBlocks.toNat 0) s
        (AtMost (s.sb.bitmapBlocks.toNat * 1)) := by
      refine .forLoop h fun i t _ _ ht => .bind_free (.require_bind fun _ => .pure ht rfl) ?_
      intro off u hu _
      exact ((diskWrite_spends hu _ _).atMost (Nat.le_refl 1)).bind_atMost (l := 0) fun _ _ hz _ =>
        .pure hz (Nat.le_refl 0)
    rw [Nat.mul_one] at hloop
    exact hloop.mono h.layout.bitmapBlocks.le

theorem allocateIfClear_spends (h : Open g s) (i : ℕ) :
    Spends callTape (Open g) (allocateIfClear i) s fun r n =>
      n ≤ if r.isSome then g.bitmapBlocks else 0 := by
  refine (bitmapBytes_spends h).bind_free fun bytes _ ht _ => .require_bind fun _ => ?_
  split_ifs with hclear
  · refine setBitmap_spends ht _ fun u hu =>
      setSb_spends hu (fun _ hd => hd.freeBlocks _) fun z hz => ?_
    exact (bitmapSync_spends hz).bind fun _ n _ hn hz' _ => .pure hz' hn
  · exact .pure ht (Nat.zero_le _)

theorem bitmapAllocateBlock_spends (h : Open g s) :
    Spends callTape (Open g) bitmapAllocateBlock s fun r n =>
      n ≤ if r.isSome then g.bitmapBlocks else 0 :=
  .ask_bind (fun _ => rfl) (.search h fun i _ ht => allocateIfClear_spends ht i)

theorem bitmapFreeBlock_spends (h : Open g s) (b : UInt32) :
    Spends callTape (Open g) (bitmapFreeBlock b) s (AtMost g.bitmapBlocks) := by
  refine .ask_bind (fun _ => rfl) ?_
  split_ifs with hlarge
  · exact .pure h (Nat.zero_le _)
  · refine (bitmapBytes_spends h).bind_free fun bytes _ ht _ => .require_bind fun _ => ?_
    refine setBitmap_spends ht _ fun u hu =>
      setSb_spends hu (fun _ hd => hd.freeBlocks _) fun z hz => ?_
    exact (bitmapSync_spends hz).bind fun _ n _ hn hz' _ => .pure hz' hn

theorem directBlock_spends (h : Open g s) (x : Inode) (i : ℕ) :
    Spends callTape (Open g) (directBlock x i) s (Exactly 0) := by
  unfold directBlock
  cases x.directBlocks[i]? with
  | none => exact .stuck
  | some b => exact .pure h rfl

theorem freeBlocksLoop_spends (h : Open g s) (x : Inode) (count start : ℕ) :
    Spends callTape (Open g) (freeBlocksLoop x count start) s (AtMost (count * g.bitmapBlocks)) :=
  .forLoop h fun i _ _ _ ht => (directBlock_spends ht x i).bind_free fun b _ ht' _ =>
    (bitmapFreeBlock_spends ht' b).bind_atMost (l := 0) fun _ _ hu _ => .pure hu (Nat.le_refl 0)

/-! ## Inodes -/

theorem inodeLocation_spends (h : Open g s) (sb : Superblock) (id : UInt32) :
    Spends callTape (Open g) (inodeLocation sb id) s (Exactly 0) :=
  .require_bind fun _ => .pure h rfl

theorem inodeWrite_spends (h : Open g s) (id : UInt32) (x : Inode) :
    Spends callTape (Open g) (inodeWrite id x) s (AtMost 2) := by
  refine .ask_bind (fun _ => rfl) ?_
  split_ifs with hlarge
  · exact .pure h (Nat.zero_le 2)
  · refine (inodeLocation_spends h _ id).bind_free fun p t ht _ => ?_
    refine ((mallocRead_spends ht _ _).atMost (Nat.le_refl 1)).bind_atMost (l := 1) ?_
    intro q u hu _
    dsimp only
    split_ifs with hfail
    · exact .pure hu (Nat.zero_le 1)
    · refine .require_bind fun _ =>
        ((diskWrite_spends hu _ _).atMost (Nat.le_refl 1)).bind_atMost (l := 0) ?_
      intro r z hz _
      split_ifs with hr
      · exact .pure hz (Nat.le_refl 0)
      · exact .pure hz (Nat.le_refl 0)

theorem inodeRead_spends (h : Open g s) (id : UInt32) :
    Spends callTape (Open g) (inodeRead id) s
      (Exactly (if s.sb.maxInodes ≤ id then 0 else 1)) := by
  refine .ask_bind (fun _ => rfl) ?_
  split_ifs with hlarge
  · exact .pure h rfl
  · refine (inodeLocation_spends h _ id).bind_free fun p t ht _ => ?_
    refine (mallocRead_spends ht _ _).bind_exactly (l := 0) fun q u hu _ => ?_
    dsimp only
    split_ifs with hfail
    · exact .pure hu rfl
    · exact .require_bind fun _ => .pure hu rfl

theorem inodeFree_spends (h : Open g s) (id : UInt32) :
    Spends callTape (Open g) (inodeFree id) s (AtMost 3) := by
  have hread := (inodeRead_spends h id).atMost (l := 1) (by split_ifs <;> decide)
  refine hread.bind_atMost (l := 2) fun r t ht _ => ?_
  cases r with
  | none => exact .pure ht (Nat.zero_le 2)
  | some x => exact setSb_spends ht (fun _ hd => hd.freeInodes _) fun u hu => inodeWrite_spends hu id _

/-! ## Contents -/

/-- The read loop makes one call for each block, if the reads of these do. -/
theorem readLoop_spends {I : World → Prop} (hI : I s) {sb : Superblock} {x : Inode} {count i : ℕ}
    {bytesRead : UInt32} (hread : ∀ b : UInt32, b.toNat ∈ blockRange x i count → ∀ t, I t →
      Spends callTape I (mallocRead b sb.blockSize) t (Exactly 1)) :
    Spends callTape I (readLoop sb x count i bytesRead) s (Exactly count) := by
  induction count generalizing s i bytesRead with
  | zero => exact .pure hI rfl
  | succ count ih =>
    rw [readLoop, directBlock]
    by_cases hi : i < 16
    · rw [Vector.getElem?_eq_getElem hi]
      change Spends _ _ (pure x.directBlocks[i] >>= _) _ _
      rw [pure_bind]
      rw [blockRange_cons hi] at hread
      refine Spends.weaken (C := Exactly (1 + count)) ?_ fun _ _ hn => hn.trans (Nat.add_comm _ _)
      refine .bind_exactly (hread _ List.mem_cons_self s hI) fun p u hu _ => ?_
      refine Spends.bind (ih hu fun c hc => hread c (List.mem_cons_of_mem _ hc)) ?_
      exact fun bytes n z hn hz _ => .pure hz hn
    · rw [Vector.getElem?_eq_none (not_lt.mp hi)]
      exact .stuck

theorem readContent_spends {I : World → Prop} (hI : I s) {sb : Superblock} {x : Inode}
    (hread : ∀ b : UInt32, b.toNat ∈ blockRange x 0 (blocksUsed sb x.size).toNat → ∀ t, I t →
      Spends callTape I (mallocRead b sb.blockSize) t (Exactly 1)) :
    Spends callTape I (readContent sb x) s (Exactly (blocksUsed sb x.size).toNat) := by
  unfold readContent blocksUsed at *
  split_ifs at hread ⊢ with hsize
  · refine .require_bind fun _ => ?_
    exact (readLoop_spends hI hread).bind fun bytes n t hn ht _ => .pure ht hn
  · exact .pure hI rfl

theorem setDirectBlock_spends (h : Open g s) (x : Inode) (i : ℕ) (b : UInt32) :
    Spends callTape (Open g) (setDirectBlock x i b) s (Exactly 0) := by
  unfold setDirectBlock
  split_ifs with hi
  · exact .pure h rfl
  · exact .stuck

theorem doWriteLoop_spends (h : Open g s) {data : List UInt8} {len : UInt32} {count i : ℕ}
    {x : Inode} {written : UInt32} :
    Spends callTape (Open g) (doWriteLoop data len count i x written) s
      (AtMost (count * (g.bitmapBlocks + 1))) := by
  induction count generalizing s i x written with
  | zero => exact .pure h (Nat.zero_le _)
  | succ count ih =>
    rw [Nat.succ_mul, Nat.add_comm (count * (g.bitmapBlocks + 1)), Nat.add_assoc]
    refine .bind_atMost ((bitmapAllocateBlock_spends h).weaken fun r n hn => hn.trans ?_) ?_
    · split_ifs
      · exact Nat.le_refl _
      · exact Nat.zero_le _
    · intro r t ht _
      cases r with
      | none => exact emit_spends ht _ fun u hu => .pure hu (Nat.zero_le _)
      | some b =>
        refine (setDirectBlock_spends ht x i b).bind_free fun y u hu _ => ?_
        refine .ask_bind (fun _ => rfl) ?_
        exact ((diskWrite_spends hu _ _).atMost (Nat.le_refl 1)).bind_atMost fun _ _ hz _ => ih hz

def countNeeded (sb : Superblock) (len : UInt32) : UInt32 :=
  if blockCount sb len = 0 then 1 else blockCount sb len

section DoWrite
variable {now : UInt64} {x : Inode} {data : List UInt8} {len : UInt32}

theorem doWrite_eq (now : UInt64) (x : Inode) (data : List UInt8) (len : UInt32) :
    doWrite now x data len = (do
      let sb ← getSb
      if countNeeded sb len > maxDirectBlocks then
        emit (.fileTooLarge maxDirectBlocks sb.blockSize (maxDirectBlocks * sb.blockSize))
        pure none
      else if countNeeded sb len > sb.freeBlocks then
        emit (.diskFull (countNeeded sb len) sb.freeBlocks)
        pure none
      else
        freeBlocksLoop x (blocksUsed sb x.size).toNat 0
        match ← doWriteLoop data len (countNeeded sb len).toNat 0 x 0 with
        | none => pure none
        | some inode =>
          setSb fun sb => { sb with
            totalWrites := sb.totalWrites + 1, bytesWritten := sb.bytesWritten + len.toUInt64 }
          pure (some { inode with size := len, modifiedAt := now })) := rfl

/-- `_do_write` writes the bitmap for every block it frees or takes, and every block it takes. -/
theorem doWrite_spends (h : Open g s) :
    Spends callTape (Open g) (doWrite now x data len) s
      (AtMost ((blocksUsed s.sb x.size).toNat * g.bitmapBlocks +
        (countNeeded s.sb len).toNat * (g.bitmapBlocks + 1))) := by
  rw [doWrite_eq]
  refine .ask_bind (fun _ => rfl) ?_
  split_ifs with hlarge hfull
  · exact emit_spends h _ fun t ht => .pure ht (Nat.zero_le _)
  · exact emit_spends h _ fun t ht => .pure ht (Nat.zero_le _)
  · refine (freeBlocksLoop_spends h x _ 0).bind_atMost fun _ t ht _ => ?_
    refine (doWriteLoop_spends ht).bind_atMost (l := 0) fun r u hu _ => ?_
    cases r with
    | none => exact .pure hu (Nat.le_refl 0)
    | some y => exact setSb_spends hu (fun _ hd => { hd with }) fun z hz => .pure hz (Nat.le_refl 0)

theorem doWrite_refused (h : Open g s)
    (hno : ¬ (countNeeded s.sb len ≤ maxDirectBlocks ∧ countNeeded s.sb len ≤ s.sb.freeBlocks)) :
    Spends callTape (Open g) (doWrite now x data len) s fun r n => r = none ∧ n = 0 := by
  rw [doWrite_eq]
  refine .ask_bind (fun _ => rfl) ?_
  split_ifs with hlarge hfull
  · exact emit_spends h _ fun t ht => .pure ht ⟨rfl, rfl⟩
  · exact emit_spends h _ fun t ht => .pure ht ⟨rfl, rfl⟩
  · exact absurd ⟨UInt32.not_lt.mp hlarge, UInt32.not_lt.mp hfull⟩ hno

end DoWrite

theorem finish_spends (h : Open g s) (id : UInt32) (x : Inode) (msg : Message) :
    Spends callTape (Open g) (finish id x msg) s (AtMost 3) := by
  refine (inodeWrite_spends h id x).bind_atMost (l := 1) fun _ t ht _ => ?_
  refine ((diskWriteSb_spends ht).atMost (Nat.le_refl 1)).bind_atMost (l := 0) fun _ u hu _ => ?_
  exact emit_spends hu msg fun z hz => .pure hz (Nat.le_refl 0)

end MiniFs.Image
