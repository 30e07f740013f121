import Mathlib.Data.List.Basic
import Mathlib.Tactic.Ring

/-! # Ranges of a list: reading a slice and writing one in place

`slice` is a bounded read and `splice` a write of the same extent, as `pread`
and `pwrite` see a file. A write is visible in its own range and nowhere else.
-/

namespace MiniFs.Library.ByteRange

variable {α : Type*}

/-- The `n` elements from position `off`; fewer where the list ends before. -/
def slice (off n : ℕ) (l : List α) : List α := (l.drop off).take n

/-- `l` with `new` written over it from position `off`. -/
def splice (off : ℕ) (new l : List α) : List α :=
  l.take off ++ new ++ l.drop (off + new.length)

theorem getElem?_slice (off n k : ℕ) (l : List α) :
    (slice off n l)[k]? = if k < n then l[off + k]? else none := by
  simp [slice, List.getElem?_take, List.getElem?_drop]

theorem getElem?_splice {off : ℕ} {new l : List α} (h : off + new.length ≤ l.length) (k : ℕ) :
    (splice off new l)[k]? =
      if k < off then l[k]? else if k < off + new.length then new[k - off]? else l[k]? := by
  have hoff : (l.take off).length = off := by rw [List.length_take]; omega
  unfold splice
  by_cases hk : k < off
  · rw [if_pos hk, List.append_assoc, List.getElem?_append_left (by omega),
      List.getElem?_take, if_pos hk]
  · rw [if_neg hk]
    by_cases hn : k < off + new.length
    · rw [if_pos hn, List.append_assoc, List.getElem?_append_right (by omega), hoff,
        List.getElem?_append_left (by omega)]
    · rw [if_neg hn, List.getElem?_append_right (by rw [List.length_append]; omega),
        List.getElem?_drop, List.length_append, hoff]
      congr 1
      omega

theorem length_slice {off n : ℕ} {l : List α} (h : off + n ≤ l.length) :
    (slice off n l).length = n := by
  rw [slice, List.length_take, List.length_drop]
  omega

theorem length_slice_le (off n : ℕ) (l : List α) : (slice off n l).length ≤ n := by
  rw [slice, List.length_take]
  omega

theorem length_splice {off : ℕ} {new l : List α} (h : off + new.length ≤ l.length) :
    (splice off new l).length = l.length := by
  simp only [splice, List.length_append, List.length_take, List.length_drop]
  omega

/-- A write is read back from its own range. -/
theorem slice_splice_self {off : ℕ} {new l : List α} (h : off + new.length ≤ l.length) :
    slice off new.length (splice off new l) = new := by
  ext1 k
  rw [getElem?_slice, getElem?_splice h]
  by_cases hk : k < new.length
  · rw [if_pos hk, if_neg (by omega), if_pos (by omega), Nat.add_sub_cancel_left]
  · rw [if_neg hk, List.getElem?_eq_none (by omega)]

/-- A write leaves every disjoint range as it was. -/
theorem slice_splice_disjoint {off i n : ℕ} {new l : List α} (h : off + new.length ≤ l.length)
    (hd : i + n ≤ off ∨ off + new.length ≤ i) :
    slice i n (splice off new l) = slice i n l := by
  ext1 k
  rw [getElem?_slice, getElem?_slice, getElem?_splice h]
  by_cases hk : k < n
  · simp only [if_pos hk]
    split_ifs with h1 h2
    · rfl
    · omega
    · rfl
  · simp only [if_neg hk]

/-- Writing back what was read changes nothing. -/
theorem splice_slice_self {off n : ℕ} {l : List α} (h : off + n ≤ l.length) :
    splice off (slice off n l) l = l := by
  have hl := length_slice h
  ext1 k
  rw [getElem?_splice (by omega), getElem?_slice, hl]
  split_ifs with h1 h2 h3
  · rfl
  · congr 1; omega
  · omega
  · rfl

theorem slice_slice {i n j m : ℕ} {l : List α} (h : i + n ≤ m) :
    slice i n (slice j m l) = slice (j + i) n l := by
  ext1 k
  simp only [getElem?_slice]
  by_cases hk : k < n
  · rw [if_pos hk, if_pos hk, if_pos (by omega), Nat.add_assoc]
  · rw [if_neg hk, if_neg hk]

/-- A read-modify-write of an enclosing range is a write of the inner range. -/
theorem splice_splice_slice {i j m : ℕ} {new l : List α} (h : i + new.length ≤ m)
    (hl : j + m ≤ l.length) :
    splice j (splice i new (slice j m l)) l = splice (j + i) new l := by
  have hm := length_slice hl
  have hs : (splice i new (slice j m l)).length = m := by rw [length_splice (by omega), hm]
  ext1 k
  rw [getElem?_splice (by omega), hs, getElem?_splice (by omega), getElem?_splice (by omega)]
  simp only [getElem?_slice]
  split_ifs <;> first | rfl | omega | (congr 1; omega)

theorem slice_zero_length (l : List α) : slice 0 l.length l = l := by
  simp [slice]

theorem slice_append_left {n : ℕ} {l r : List α} (h : n ≤ l.length) :
    slice 0 n (l ++ r) = slice 0 n l := by
  simp [slice, List.take_append_of_le_length h]

theorem slice_append_right (l r : List α) : slice l.length r.length (l ++ r) = r := by
  simp [slice]

theorem slice_replicate {off n m : ℕ} (a : α) (h : off + n ≤ m) :
    slice off n (List.replicate m a) = List.replicate n a := by
  simp only [slice, List.drop_replicate, List.take_replicate]
  congr 1
  omega

/-- Consecutive slices join to the slice of the whole extent. -/
theorem slice_append_slice (off n m : ℕ) (l : List α) :
    slice off n l ++ slice (off + n) m l = slice off (n + m) l := by
  simp only [slice, List.take_add, List.drop_drop]

/-! ## Lists cut into pieces of one length -/

theorem length_flatMap_const {β : Type*} {l : List β} {f : β → List α} {m : ℕ}
    (hf : ∀ b ∈ l, (f b).length = m) : (l.flatMap f).length = l.length * m := by
  induction l with
  | nil => simp
  | cons b l ih =>
    rw [List.flatMap_cons, List.length_append, hf b List.mem_cons_self,
      ih (fun c hc => hf c (List.mem_cons_of_mem _ hc)), List.length_cons]
    ring

/-- The `i`-th piece of a concatenation of pieces of length `m`. -/
theorem slice_flatMap {β : Type*} {l : List β} {f : β → List α} {m : ℕ}
    (hf : ∀ b ∈ l, (f b).length = m) {i : ℕ} (hi : i < l.length) :
    slice (i * m) m (l.flatMap f) = f l[i] := by
  induction l generalizing i with
  | nil => simp at hi
  | cons b l ih =>
    have hb := hf b List.mem_cons_self
    cases i with
    | zero =>
      rw [List.flatMap_cons, Nat.zero_mul, slice_append_left (by omega), List.getElem_cons_zero]
      simpa [hb] using slice_zero_length (f b)
    | succ i =>
      have hm : (i + 1) * m = m + i * m := by ring
      rw [List.flatMap_cons, List.getElem_cons_succ,
        ← ih (fun c hc => hf c (List.mem_cons_of_mem _ hc)) (by simpa using hi), hm]
      simp only [slice]
      rw [← List.drop_drop, ← hb, List.drop_left]

theorem flatMap_slice (k m : ℕ) (l : List α) :
    (List.range k).flatMap (fun i => slice (i * m) m l) = slice 0 (k * m) l := by
  induction k with
  | zero => simp [slice]
  | succ k ih =>
    rw [List.range_succ, List.flatMap_append, ih, List.flatMap_cons, List.flatMap_nil,
      List.append_nil]
    have h := slice_append_slice 0 (k * m) m l
    rw [Nat.zero_add] at h
    rw [h, Nat.add_mul, Nat.one_mul]

end MiniFs.Library.ByteRange
