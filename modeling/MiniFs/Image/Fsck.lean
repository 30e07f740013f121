import MiniFs.Image.Reports

/-! # The consistency check

What `fsck` answers is a function of the superblock in memory and of the inode
slots it can read, on a sound volume or not.
-/

set_option autoImplicit false

namespace MiniFs.Image
open MiniFs.Core Library Library.Exec Library.ByteRange

/-- The pointers `fsck` complains about among the first `n` of an inode. -/
def badPointers (sb : Superblock) (x : Inode) (n : ℕ) : ℕ :=
  (slice 0 n x.directBlocks.toList).countP fun blk =>
    blk < sb.dataStart ∨ sb.totalBlocks ≤ blk

def Counted (sb : Superblock) (x : Inode) : Prop := x.isUsed ≠ 0 ∧ ¬ FsckSkips sb x

instance (sb : Superblock) (x : Inode) : Decidable (Counted sb x) :=
  inferInstanceAs (Decidable (_ ∧ _))

def slotErrors (sb : Superblock) (i : UInt32) (x : Inode) : ℕ :=
  if Counted sb x then
    (if x.id ≠ i then 1 else 0) +
      if blocksUsed sb x.size > maxDirectBlocks then 1
      else badPointers sb x (blocksUsed sb x.size).toNat
  else 0

def slotInodes (sb : Superblock) (x : Inode) : UInt32 := if Counted sb x then 1 else 0

def slotBlocks (sb : Superblock) (x : Inode) : UInt32 :=
  if Counted sb x ∧ ¬ blocksUsed sb x.size > maxDirectBlocks then blocksUsed sb x.size else 0

def tally (sb : Superblock) (i : UInt32) (x : Inode) (counts : FsckCounts) : FsckCounts :=
  ⟨counts.errors + slotErrors sb i x, counts.usedInodes + slotInodes sb x,
    counts.usedBlocks + slotBlocks sb x⟩

theorem tally_passed {sb : Superblock} {i : UInt32} {x : Inode} (h : ¬ Counted sb x)
    (counts : FsckCounts) : tally sb i x counts = counts := by
  simp [tally, slotErrors, slotInodes, slotBlocks, h]

def tallySlot (sb : Superblock) (i : UInt32) (slot : Option Inode) (counts : FsckCounts) :
    FsckCounts :=
  slot.elim counts fun x => tally sb i x counts

/-! ## The walk over the inode table -/

section Walk
variable {τ ε : Type} {A : Abstraction World τ ε} [Printing A] {v : τ} {sb : Superblock}
  {slots : ℕ → Option Inode}

/-- A state whose inode table reads as these slots, whatever has been printed. -/
structure Scans (A : Abstraction World τ ε) [Printing A] (v : τ) (sb : Superblock)
    (slots : ℕ → Option Inode) : Prop where
  getSb : ∀ msgs, Runs A (Printing.say A v msgs) getSb sb (Printing.say A v msgs)
  read : ∀ msgs i, i < sb.maxInodes.toNat →
    Prints A (Printing.say A v msgs) (inodeRead (UInt32.ofNat i)) (slots i)

theorem Scans.say (h : Scans A v sb slots) (l : List Message) :
    Scans A (Printing.say A v l) sb slots where
  getSb k := by
    rw [Printing.say_say]
    exact h.getSb (l ++ k)
  read k i hi := by
    rw [Printing.say_say]
    exact h.read (l ++ k) i hi

theorem Scans.getSb_prints (h : Scans A v sb slots) : Prints A v Core.getSb sb := by
  have hget := h.getSb []
  rw [Printing.say_nil] at hget
  exact .of_runs hget

theorem Scans.inodeRead_prints (h : Scans A v sb slots) {i : ℕ} (hi : i < sb.maxInodes.toNat) :
    Prints A v (inodeRead (UInt32.ofNat i)) (slots i) := by
  have hread := h.read [] i hi
  rwa [Printing.say_nil] at hread

theorem fsckPointers_prints {slot : UInt32} {x : Inode} {count b : ℕ} (h : b + count ≤ 16) :
    Prints A v (fsckPointers sb slot x count b) ((slice b count x.directBlocks.toList).countP
      fun blk => blk < sb.dataStart ∨ sb.totalBlocks ≤ blk) := by
  induction count generalizing v b with
  | zero =>
    rw [slice, List.take_zero]
    exact .pure 0
  | succ count ih =>
    have hb : b < 16 := by omega
    rw [slice, List.drop_eq_getElem_cons (by rw [Vector.length_toList]; exact hb),
      List.take_succ_cons, Vector.getElem_toList, List.countP_cons]
    refine Prints.bind (.of_runs (directBlock_runs hb)) fun l => ?_
    by_cases hbad : x.directBlocks[b] < sb.dataStart ∨ sb.totalBlocks ≤ x.directBlocks[b]
    · simp only [hbad, if_true, decide_true]
      exact (Prints.emit _).bind fun _ => (ih (by omega)).bind fun _ => .pure _
    · simp only [hbad, if_false, decide_false, Bool.false_eq_true, Nat.add_zero]
      exact ih (by omega)

theorem fsckInode_prints (h : Scans A v sb slots) {i : ℕ} (hi : i < sb.maxInodes.toNat)
    (counts : FsckCounts) : Prints A v (fsckInode sb (UInt32.ofNat i) counts)
      (tallySlot sb (UInt32.ofNat i) (slots i) counts) := by
  refine (h.inodeRead_prints hi).bind fun l => ?_
  cases slots i with
  | none => exact (Prints.emit _).bind fun _ => .pure counts
  | some x =>
    change Prints A _ _ (tally sb (UInt32.ofNat i) x counts)
    by_cases hfree : x.isUsed = 0
    · rw [tally_passed (fun h => h.1 hfree)]
      simp only [hfree, if_true]
      exact .pure counts
    by_cases hskip : FsckSkips sb x
    · rw [tally_passed (fun h => h.2 hskip)]
      simp only [hfree, hskip, if_true, if_false]
      exact .pure counts
    have hcounted : Counted sb x := ⟨hfree, hskip⟩
    have hrest (n : ℕ) (v' : τ) : Prints A v' (do
        if blocksUsed sb x.size > maxDirectBlocks then
          emit (.oversized (UInt32.ofNat i) x.shownName x.size (blocksUsed sb x.size)
            maxDirectBlocks)
          pure (⟨counts.errors + n + 1, counts.usedInodes + 1, counts.usedBlocks⟩ : FsckCounts)
        else
          let bad ← fsckPointers sb (UInt32.ofNat i) x (blocksUsed sb x.size).toNat 0
          pure ⟨counts.errors + n + bad, counts.usedInodes + 1,
            counts.usedBlocks + blocksUsed sb x.size⟩)
        ⟨counts.errors + (n + if blocksUsed sb x.size > maxDirectBlocks then 1
            else badPointers sb x (blocksUsed sb x.size).toNat),
          counts.usedInodes + 1, counts.usedBlocks + slotBlocks sb x⟩ := by
      simp only [slotBlocks, hcounted, true_and, ← Nat.add_assoc]
      by_cases hover : blocksUsed sb x.size > maxDirectBlocks
      · simp only [hover, if_true, not_true_eq_false, if_false, UInt32.add_zero]
        exact (Prints.emit _).bind fun _ => .pure _
      · simp only [hover, if_false, not_false_eq_true, if_true]
        have h16 : (blocksUsed sb x.size).toNat ≤ 16 :=
          UInt32.le_iff_toNat_le.mp (UInt32.not_lt.mp hover)
        exact (fsckPointers_prints (by rw [Nat.zero_add]; exact h16)).bind fun _ => .pure _
    simp only [hfree, hskip, if_false, tally, slotErrors, slotInodes, hcounted, if_true]
    by_cases hid : x.id ≠ UInt32.ofNat i
    · rw [if_pos hid, if_pos hid]
      exact (Prints.emit _).bind fun _ => (Prints.pure 1).bind fun _ => hrest 1 _
    · rw [if_neg hid, if_neg hid]
      exact (Prints.pure 0).bind fun _ => hrest 0 _

def fsckFold (sb : Superblock) (slots : ℕ → Option Inode) : (count i : ℕ) → FsckCounts → FsckCounts
  | 0, _, counts => counts
  | count + 1, i, counts =>
    fsckFold sb slots count (i + 1) (tallySlot sb (UInt32.ofNat i) (slots i) counts)

theorem fsckWalk_prints (h : Scans A v sb slots) {count i : ℕ}
    (hi : i + count ≤ sb.maxInodes.toNat) (counts : FsckCounts) :
    Prints A v (fsckWalk sb count i counts) (fsckFold sb slots count i counts) := by
  induction count generalizing v i counts with
  | zero => exact .pure counts
  | succ count ih =>
    exact (fsckInode_prints h (by omega) counts).bind fun l => ih (h.say l) (by omega) _

end Walk

/-! ## The verdict -/

section Verdict
variable {sb : Superblock} {slots : ℕ → Option Inode}

theorem fsckFold_errors (sb : Superblock) (slots : ℕ → Option Inode) (count k : ℕ)
    (counts : FsckCounts) :
    (fsckFold sb slots count k counts).errors = 0 ↔ counts.errors = 0 ∧
      ∀ (i : ℕ) (x : Inode), k ≤ i → i < k + count → slots i = some x →
        slotErrors sb (UInt32.ofNat i) x = 0 := by
  induction count generalizing k counts with
  | zero =>
    have hno (i : ℕ) (h : k ≤ i) : ¬ i < k + 0 := by omega
    exact (and_iff_left fun i _ h1 h2 => absurd h2 (hno i h1)).symm
  | succ count ih =>
    have hhead : (tallySlot sb (UInt32.ofNat k) (slots k) counts).errors = 0 ↔
        counts.errors = 0 ∧ ∀ x, slots k = some x → slotErrors sb (UInt32.ofNat k) x = 0 := by
      cases hk : slots k with
      | none => simp [tallySlot]
      | some x =>
        change counts.errors + slotErrors sb (UInt32.ofNat k) x = 0 ↔ _
        rw [Nat.add_eq_zero_iff]
        simp
    rw [fsckFold, ih, hhead, and_assoc]
    refine and_congr_right fun _ => ⟨?_, ?_⟩
    · rintro ⟨h0, hrest⟩ i x hge hlt hx
      rcases Nat.eq_or_lt_of_le hge with rfl | hgt
      · exact h0 x hx
      · exact hrest i x hgt (by omega) hx
    · intro hall
      exact ⟨fun x hx => hall k x le_rfl (by omega) hx,
        fun i x hge hlt hx => hall i x (by omega) (by omega) hx⟩

/-- A counter to which a slot adds `n` ends at the sum over the slots. -/
theorem fsckFold_sum {sb : Superblock} (counter : FsckCounts → UInt32) (n : Inode → UInt32)
    (hstep : ∀ i x counts, counter (tally sb i x counts) = counter counts + n x)
    (slots : ℕ → Option Inode) (count k : ℕ) (counts : FsckCounts) :
    counter (fsckFold sb slots count k counts) = counter counts +
      (((List.range' k count).filterMap slots).map n).sum := by
  induction count generalizing k counts with
  | zero => simp [fsckFold]
  | succ count ih =>
    rw [fsckFold, ih, List.range'_succ, List.filterMap_cons]
    cases slots k with
    | none => rfl
    | some x =>
      rw [List.map_cons, List.sum_cons, ← UInt32.add_assoc, ← hstep (UInt32.ofNat k)]
      rfl

theorem sum_map_ofNat {l : List Inode} {f : Inode → UInt32} {n : Inode → ℕ}
    (h : ∀ x ∈ l, f x = UInt32.ofNat (n x)) : (l.map f).sum = UInt32.ofNat (l.map n).sum := by
  induction l with
  | nil => rfl
  | cons x l ih =>
    rw [List.map_cons, List.sum_cons, h x List.mem_cons_self,
      ih fun y hy => h y (List.mem_cons_of_mem x hy), List.map_cons, List.sum_cons,
      UInt32.ofNat_add]

def scanned (sb : Superblock) (slots : ℕ → Option Inode) : List Inode :=
  (List.range sb.maxInodes.toNat).filterMap slots

structure FsckClean (sb : Superblock) (slots : ℕ → Option Inode) : Prop where
  errors : ∀ (i : ℕ) (x : Inode), i < sb.maxInodes.toNat → slots i = some x →
    slotErrors sb (UInt32.ofNat i) x = 0
  inodes : ((scanned sb slots).map (slotInodes sb)).sum = sb.maxInodes - sb.freeInodes
  blocks : ((scanned sb slots).map (slotBlocks sb)).sum = sb.dataBlocks - sb.freeBlocks

variable {τ ε : Type} {A : Abstraction World τ ε} [Printing A] {v : τ}

theorem check_prints {β : Type} {p : Prop} [Decidable p] {bad good : Message} {f : ℕ → M β} {b : β}
    (h : ∀ msgs, Prints A (Printing.say A v msgs) (f (if p then 1 else 0)) b) :
    Prints A v (if p then do
        emit bad
        let n ← pure 1
        f n
      else do
        emit good
        let n ← pure 0
        f n) b := by
  split_ifs at h ⊢
  · exact (Prints.emit _).bind h
  · exact (Prints.emit _).bind h

/-- `fsck` answers 0 exactly on what it finds clean, and -1 on the rest. -/
theorem fsFsck_prints (h : Scans A v sb slots) (hm : sb.magic = fsMagic) :
    ∃ r, Prints A v fsFsck r ∧ (r = 0 ↔ FsckClean sb slots) := by
  let counts := fsckFold sb slots sb.maxInodes.toNat 0 ⟨0, 0, 0⟩
  let inodeErrors := if counts.usedInodes ≠ sb.maxInodes - sb.freeInodes then 1 else 0
  let blockErrors := if counts.usedBlocks ≠ sb.dataBlocks - sb.freeBlocks then 1 else 0
  refine ⟨if counts.errors + inodeErrors + blockErrors = 0 then 0 else -1, ?_, ?_⟩
  · refine h.getSb_prints.bind fun l => ?_
    refine check_prints fun k => ?_
    rw [if_neg (not_not.mpr hm)]
    refine (fsckWalk_prints ((h.say l).say k) (by rw [Nat.zero_add]) _).bind fun _ => ?_
    exact check_prints fun _ => check_prints fun _ =>
      (Prints.emit _).bind fun _ => (Prints.emit _).bind fun _ => .pure _
  · have herrors := fsckFold_errors sb slots sb.maxInodes.toNat 0 ⟨0, 0, 0⟩
    have hinodes := fsckFold_sum (·.usedInodes) (slotInodes sb) (fun _ _ _ => rfl) slots
      sb.maxInodes.toNat 0 ⟨0, 0, 0⟩
    have hblocks := fsckFold_sum (·.usedBlocks) (slotBlocks sb) (fun _ _ _ => rfl) slots
      sb.maxInodes.toNat 0 ⟨0, 0, 0⟩
    simp only [Nat.zero_le, Nat.zero_add, true_and, forall_const, UInt32.zero_add,
      ← List.range_eq_range'] at herrors hinodes hblocks
    constructor
    · intro h0
      have hsum : counts.errors + inodeErrors + blockErrors = 0 := by
        by_contra hne
        rw [if_neg hne] at h0
        exact absurd h0 (by decide)
      have hi : inodeErrors = 0 := by omega
      have hb : blockErrors = 0 := by omega
      have he : counts.errors = 0 := by omega
      refine ⟨herrors.mp he, ?_, ?_⟩
      · rw [scanned, ← hinodes]
        by_contra hne
        exact absurd hi (by simp only [inodeErrors]; rw [if_pos hne]; decide)
      · rw [scanned, ← hblocks]
        by_contra hne
        exact absurd hb (by simp only [blockErrors]; rw [if_pos hne]; decide)
    · intro hclean
      have he : counts.errors = 0 := herrors.mpr hclean.errors
      have hi : inodeErrors = 0 := if_neg (not_not.mpr (hinodes.trans hclean.inodes))
      have hb : blockErrors = 0 := if_neg (not_not.mpr (hblocks.trans hclean.blocks))
      rw [he, hi, hb]
      rfl

end Verdict

/-! ## On a volume -/

section Volume
variable {g : Geometry} {v : View}

theorem scans_view (hv : v.faults = noFaults) (hg : g.Describes v.vol.sb)
    (hlen : v.vol.inodes.length = g.maxInodes) :
    Scans (view g) v v.vol.sb fun i => v.vol.inodes[i]? where
  getSb _ := getSb_runs
  read msgs i hi := by
    have hlt : i < v.vol.inodes.length := by rw [hlen, ← hg.maxInodes]; exact hi
    rw [List.getElem?_eq_getElem hlt]
    exact slotRead_prints (v := v.say msgs) hv hlen (List.getElem?_eq_getElem hlt)

theorem filterMap_getElem? {α : Type} (l : List α) (n : ℕ) :
    (List.range n).filterMap (fun i => l[i]?) = l.take n := by
  induction n with
  | zero => rfl
  | succ n ih =>
    rw [List.range_succ, List.filterMap_append, ih, List.take_add_one, List.filterMap_cons]
    cases l[n]? <;> rfl

theorem scanned_view {vol : Volume} (hg : g.Describes vol.sb)
    (hlen : vol.inodes.length = g.maxInodes) :
    scanned vol.sb (fun i => vol.inodes[i]?) = vol.inodes := by
  rw [scanned, filterMap_getElem?, hg.maxInodes, ← hlen, List.take_length]

end Volume

end MiniFs.Image
