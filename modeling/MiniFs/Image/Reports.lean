import MiniFs.Image.Lookup
import MiniFs.Image.Content

/-! # The commands that only look: `ls`, `stat` and `statfs`

They change nothing but the output.
-/

set_option autoImplicit false

namespace MiniFs.Image
open MiniFs.Core Library Library.Exec Library.ByteRange Library.Chunks Library.Ownership

variable {g : Geometry} {v : View}

/-! ## Printing -/

/-- An abstraction whose states grow by what is printed. -/
class Printing {τ ε : Type} (A : Abstraction World τ ε) where
  say : τ → List Message → τ
  say_nil : ∀ v, say v [] = v
  say_say : ∀ v l k, say (say v l) k = say v (l ++ k)
  emit_runs : ∀ v msg, Runs A v (emit msg) () (say v [msg])

def Prints {τ ε α : Type} (A : Abstraction World τ ε) [Printing A] (v : τ) (m : M α) (a : α) :
    Prop :=
  ∃ msgs, Runs A v m a (Printing.say A v msgs)

section
variable {τ ε α β : Type} {A : Abstraction World τ ε} [Printing A] {v : τ}

theorem Prints.of_runs {m : M α} {a : α} (h : Runs A v m a v) : Prints A v m a :=
  ⟨[], by rwa [Printing.say_nil]⟩

theorem Prints.pure (a : α) : Prints A v (pure a : M α) a := .of_runs (Runs.pure v a)

theorem Prints.emit (msg : Message) : Prints A v (emit msg) () := ⟨[msg], Printing.emit_runs v msg⟩

theorem Prints.bind {m : M α} {f : α → M β} {a : α} {b : β} (hm : Prints A v m a)
    (hf : ∀ msgs, Prints A (Printing.say A v msgs) (f a) b) : Prints A v (m >>= f) b := by
  obtain ⟨l, hl⟩ := hm
  obtain ⟨k, hk⟩ := hf l
  rw [Printing.say_say] at hk
  exact ⟨l ++ k, hl.bind hk⟩

end

instance (g : Geometry) : Printing (view g) where
  say := View.say
  say_nil v := by rw [View.say, List.append_nil]
  say_say v l k := by simp only [View.say, List.append_assoc]
  emit_runs _ := emit_runs

theorem slotRead_prints (hv : v.faults = noFaults) (hlen : v.vol.inodes.length = g.maxInodes) {i : ℕ}
    {x : Inode} (hi : v.vol.inodes[i]? = some x) :
    Prints (view g) v (inodeRead (UInt32.ofNat i)) (some x) := by
  obtain ⟨hlt, rfl⟩ := List.getElem?_eq_some_iff.mp hi
  exact .of_runs (inodeRead_runs hv (Geometry.toNat_slot (hlen ▸ hlt)) hlt)

/-! ## Directory listing and status -/

theorem lsLoop_prints (hv : v.faults = noFaults) (hlen : v.vol.inodes.length = g.maxInodes)
    {count i : ℕ} (hi : i + count ≤ g.maxInodes) :
    Prints (view g) v (lsLoop count i) (((v.vol.inodes.drop i).take count).countP (·.isUsed = 1)) := by
  induction count generalizing v i with
  | zero => exact .pure 0
  | succ count ih =>
    have hlt : i < v.vol.inodes.length := by omega
    rw [List.drop_eq_getElem_cons hlt, List.take_succ_cons, List.countP_cons]
    refine (slotRead_prints hv hlen (List.getElem?_eq_getElem hlt)).bind fun l => ?_
    have hrest (k : List Message) := ih (v := (v.say l).say k) (i := i + 1) hv hlen (by omega)
    by_cases hlive : v.vol.inodes[i].isUsed = 1
    · simp only [hlive, if_true, decide_true]
      exact (Prints.emit _).bind fun k => (hrest k).bind fun _ => .pure _
    · simp only [hlive, if_false, decide_false, Bool.false_eq_true, Nat.add_zero]
      have h := hrest []
      rwa [View.say, List.append_nil] at h

theorem fsLs_prints (hv : v.faults = noFaults) (hg : g.Describes v.vol.sb)
    (hlen : v.vol.inodes.length = g.maxInodes) : Prints (view g) v fsLs 0 := by
  refine Prints.bind (.of_runs getSb_runs) fun l => ?_
  have hall : 0 + v.vol.sb.maxInodes.toNat ≤ g.maxInodes := by rw [Nat.zero_add, hg.maxInodes]
  have hloop := lsLoop_prints (v := v.say l) hv hlen hall
  refine hloop.bind fun k => ?_
  split_ifs
  · exact (Prints.emit _).bind fun _ => (Prints.emit _).bind fun _ => .pure 0
  · exact (Prints.emit _).bind fun _ => .pure 0

theorem pointerLoop_prints {x : Inode} {count i : ℕ} (h : i + count ≤ 16) :
    Prints (view g) v (pointerLoop x count i) (slice i count x.directBlocks.toList) := by
  induction count generalizing v i with
  | zero =>
    rw [slice, List.take_zero]
    exact .pure []
  | succ count ih =>
    have hi : i < 16 := by omega
    rw [slice, List.drop_eq_getElem_cons (by rw [Vector.length_toList]; exact hi),
      List.take_succ_cons, Vector.getElem_toList]
    exact Prints.bind (.of_runs (directBlock_runs hi)) fun _ =>
      (ih (by omega)).bind fun _ => .pure _

theorem fsStat_prints (hs : Sound g v.vol) (hv : v.faults = noFaults) (name : CStr) :
    ∃ r, Prints (view g) v (fsStat name) r := by
  have hfind := inodeFindByName_runs hs hv name
  cases hl : v.vol.lookup name.bytes with
  | none =>
    rw [hl] at hfind
    exact ⟨-1, (Prints.of_runs hfind).bind fun _ => (Prints.emit _).bind fun _ => .pure _⟩
  | some x =>
    rw [hl] at hfind
    obtain ⟨hlive, -, i, hi, -⟩ := lookup_eq_some hl
    have hfit := hs.size_fits hi hlive
    have hused : (blocksUsed v.vol.sb x.size).toNat ≤ 16 := by
      rw [toNat_blocksUsed hs.layout (by omega)]
      exact (hs.live i x hi hlive).pieces_le
    refine ⟨0, (Prints.of_runs hfind).bind fun _ => Prints.bind (.of_runs getSb_runs) fun _ =>
      (pointerLoop_prints ?_).bind fun _ => (Prints.emit _).bind fun _ => .pure _⟩
    rw [Nat.zero_add]
    exact hused

theorem fsStatfs_prints : Prints (view g) v fsStatfs 0 :=
  Prints.bind (.of_runs getSb_runs) fun _ => (Prints.emit _).bind fun _ => .pure 0

end MiniFs.Image
