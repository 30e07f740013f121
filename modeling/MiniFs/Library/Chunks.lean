import MiniFs.Library.ByteRange

/-! # A list cut into pieces of one length

The last piece is padded. Joining the pieces and cutting the padding off gives
the list back.
-/

namespace MiniFs.Library.Chunks
open ByteRange

/-- The number of pieces of length `m` that hold `n` elements. -/
def pieces (n m : ℕ) : ℕ := (n + m - 1) / m

theorem pieces_le_iff {n m k : ℕ} (hm : 0 < m) : pieces n m ≤ k ↔ n ≤ k * m := by
  unfold pieces
  rw [← Nat.lt_succ_iff, Nat.div_lt_iff_lt_mul hm, Nat.succ_eq_add_one, Nat.add_mul, Nat.one_mul]
  omega

theorem le_pieces_mul {n m : ℕ} (hm : 0 < m) : n ≤ pieces n m * m :=
  (pieces_le_iff hm).mp (Nat.le_refl _)

theorem lt_pieces_iff {n m k : ℕ} (hm : 0 < m) : k < pieces n m ↔ k * m < n := by
  rw [← Nat.not_le, pieces_le_iff hm, Nat.not_le]

theorem pieces_zero {m : ℕ} (hm : 0 < m) : pieces 0 m = 0 := by
  have h := (pieces_le_iff (n := 0) (k := 0) hm).mpr (Nat.zero_le _)
  omega

theorem pieces_eq_zero_iff {n m : ℕ} (hm : 0 < m) : pieces n m = 0 ↔ n = 0 := by
  have h := pieces_le_iff (n := n) (k := 0) hm
  omega

theorem pieces_mono {n k m : ℕ} (hm : 0 < m) (h : n ≤ k) : pieces n m ≤ pieces k m :=
  (pieces_le_iff hm).mpr (h.trans (le_pieces_mul hm))

/-- One piece less for `m` elements less. -/
theorem pieces_sub {n m : ℕ} (hm : 0 < m) : pieces (n - m) m = pieces n m - 1 := by
  apply eq_of_forall_ge_iff
  intro k
  rw [pieces_le_iff hm, Nat.sub_le_iff_le_add, Nat.sub_le_iff_le_add, pieces_le_iff hm, Nat.add_mul,
    Nat.one_mul]

section Lists
variable {α : Type*}

/-- Piece `i`, filled up with `pad`. -/
def chunk (pad : α) (m : ℕ) (l : List α) (i : ℕ) : List α := (slice (i * m) m l).rightpad m pad

theorem length_chunk (pad : α) (m : ℕ) (l : List α) (i : ℕ) : (chunk pad m l i).length = m := by
  have h := length_slice_le (i * m) m l
  simp only [chunk, List.rightpad, List.length_append, List.length_replicate]
  omega

/-- The pieces, joined and cut to length, are the list. -/
theorem take_flatMap_chunk (pad : α) {m k : ℕ} {l : List α} (h : l.length ≤ k * m) :
    ((List.range k).flatMap (chunk pad m l)).take l.length = l := by
  have hchunk : ∀ i ∈ List.range k,
      chunk pad m l i = slice (i * m) m (l ++ List.replicate (k * m - l.length) pad) := by
    intro i hi
    have hik : (i + 1) * m ≤ k * m := Nat.mul_le_mul_right _ (List.mem_range.mp hi)
    rw [Nat.add_mul, Nat.one_mul] at hik
    ext1 j
    simp only [chunk, slice, List.rightpad, List.getElem?_append, List.getElem?_replicate,
      List.length_take, List.length_drop]
    grind
  rw [List.flatMap_congr hchunk, flatMap_slice, slice, List.drop_zero, List.take_take,
    Nat.min_eq_left h, List.take_left]

/-- Reading a joined list piece by piece. -/
theorem take_flatMap_cons {β : Type*} {f : β → List α} {m n : ℕ} {b : β} (hb : (f b).length = m)
    (bs : List β) :
    ((b :: bs).flatMap f).take n = (f b).take n ++ (bs.flatMap f).take (n - m) := by
  rw [List.flatMap_cons, List.take_append, hb]

end Lists

end MiniFs.Library.Chunks
