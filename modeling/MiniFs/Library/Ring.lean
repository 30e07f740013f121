import Mathlib.Data.List.DropRight
import Mathlib.Data.Nat.ModEq
import Mathlib.Logic.Function.Basic

/-! # A queue in a ring of slots

The next free slot, the oldest full one and the number of full slots are kept
apart; the structure carries the equation between them. What is pending is the
list of full slots from the oldest on.
-/

set_option autoImplicit false

namespace MiniFs.Library

variable {α : Type} {n : ℕ}

/-- A queue of at most `n` entries. -/
structure Ring (α : Type) (n : ℕ) where
  slots : ℕ → α
  head : ℕ
  tail : ℕ
  count : ℕ
  count_le : count ≤ n
  tail_lt : tail < n
  head_eq : head = (tail + count) % n

namespace Ring
variable (r : Ring α n)

/-- The entries not taken yet, the oldest first. -/
def pending : List α := (List.range r.count).map fun k => r.slots ((r.tail + k) % n)

@[simp] theorem length_pending : r.pending.length = r.count := by
  rw [pending, List.length_map, List.length_range]

theorem pending_eq_nil (h : r.count = 0) : r.pending = [] := by
  rw [← List.length_eq_zero_iff, length_pending, h]

theorem head_lt : r.head < n := by
  rw [r.head_eq]
  exact Nat.mod_lt _ (Nat.zero_lt_of_lt r.tail_lt)

def empty (hn : 0 < n) (slots : ℕ → α) : Ring α n where
  slots := slots
  head := 0
  tail := 0
  count := 0
  count_le := Nat.zero_le n
  tail_lt := hn
  head_eq := (Nat.zero_mod n).symm

def put (a : α) (h : r.count < n) : Ring α n where
  slots := Function.update r.slots r.head a
  head := (r.head + 1) % n
  tail := r.tail
  count := r.count + 1
  count_le := h
  tail_lt := r.tail_lt
  head_eq := by rw [r.head_eq, Nat.mod_add_mod, Nat.add_assoc]

def take (h : 0 < r.count) : Ring α n where
  slots := r.slots
  head := r.head
  tail := (r.tail + 1) % n
  count := r.count - 1
  count_le := (Nat.sub_le _ _).trans r.count_le
  tail_lt := Nat.mod_lt _ (Nat.zero_lt_of_lt r.tail_lt)
  head_eq := by
    rw [r.head_eq, Nat.mod_add_mod]
    congr 1
    omega

/-- The free slot at the head is none of the full ones. -/
theorem slot_ne_head {k : ℕ} (hk : k < r.count) (h : r.count < n) : (r.tail + k) % n ≠ r.head := by
  rw [r.head_eq]
  intro heq
  have hmod : r.tail + k ≡ r.tail + r.count [MOD n] := heq
  have hcount : k ≡ r.count [MOD n] := Nat.ModEq.add_left_cancel' r.tail hmod
  exact hk.ne (hcount.eq_of_lt_of_lt (hk.trans h) h)

theorem pending_put (a : α) (h : r.count < n) : (r.put a h).pending = r.pending ++ [a] := by
  have hold : ∀ k ∈ List.range r.count, Function.update r.slots r.head a ((r.tail + k) % n) =
      r.slots ((r.tail + k) % n) := fun k hk =>
    Function.update_of_ne (r.slot_ne_head (List.mem_range.mp hk) h) a r.slots
  have hnew : Function.update r.slots r.head a ((r.tail + r.count) % n) = a := by
    rw [← r.head_eq, Function.update_self]
  change (List.range (r.count + 1)).map
    (fun k => Function.update r.slots r.head a ((r.tail + k) % n)) = _
  rw [List.range_succ, List.map_append, List.map_congr_left hold, List.map_singleton, hnew, pending]

theorem pending_take (h : 0 < r.count) : r.pending = r.slots r.tail :: (r.take h).pending := by
  obtain ⟨m, hm⟩ : ∃ m, r.count = m + 1 := ⟨r.count - 1, by omega⟩
  have htake : (r.take h).pending =
      (List.range m).map fun k => r.slots (((r.tail + 1) % n + k) % n) := by
    rw [pending]
    change (List.range (r.count - 1)).map _ = _
    rw [hm]
    rfl
  rw [pending, hm, List.range_succ_eq_map, List.map_cons, Nat.add_zero,
    Nat.mod_eq_of_lt r.tail_lt, List.map_map, htake]
  congr 1
  refine List.map_congr_left fun k _ => ?_
  rw [Function.comp_apply, Nat.mod_add_mod, Nat.succ_eq_add_one, Nat.add_assoc, Nat.add_comm 1 k]

/-! ## Overwriting -/

theorem count_pos (h : ¬r.count < n) : 0 < r.count :=
  Nat.zero_lt_of_lt (r.tail_lt.trans_le (not_lt.mp h))

theorem count_take (h : 0 < r.count) : (r.take h).count = r.count - 1 := rfl

theorem count_take_lt (h : 0 < r.count) : (r.take h).count < n := by
  have hle := r.count_le
  rw [count_take]
  omega

/-- Put an entry in, in a full ring in place of the oldest one. -/
def push (a : α) : Ring α n :=
  if h : r.count < n then r.put a h
  else (r.take (r.count_pos h)).put a (r.count_take_lt _)

theorem rtake_of_length_le {l : List α} (h : l.length ≤ n) : l.rtake n = l := by
  rw [List.rtake, Nat.sub_eq_zero_of_le h, List.drop_zero]

/-- Of what a full ring forgets, nothing comes back. -/
theorem rtake_rtake_append (l : List α) (a : α) :
    (l.rtake n ++ [a]).rtake n = (l ++ [a]).rtake n := by
  simp only [List.rtake, List.length_append, List.length_drop, List.length_singleton]
  rw [List.drop_append, List.drop_append, List.drop_drop, List.length_drop]
  congr 2 <;> omega

theorem pending_push (a : α) : (r.push a).pending = (r.pending ++ [a]).rtake n := by
  have hle := r.count_le
  rw [push]
  split_ifs with h
  · have hlen : (r.pending ++ [a]).length ≤ n := by
      rw [List.length_append, List.length_singleton, length_pending]
      exact h
    rw [pending_put, rtake_of_length_le hlen]
  · have hpos : 0 < r.count := r.count_pos h
    have hone : r.count - 1 + 1 + 1 - n = 1 := by omega
    rw [pending_put, r.pending_take hpos, List.cons_append, List.rtake, List.length_cons,
      List.length_append, List.length_singleton, length_pending, count_take, hone,
      List.drop_succ_cons, List.drop_zero]

end Ring

end MiniFs.Library
