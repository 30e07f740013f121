import MiniFs.Library.ByteRange
import Mathlib.Data.Finset.Filter
import Mathlib.Data.Finset.Range
import Mathlib.Data.List.Basic
import Mathlib.Data.Nat.Bitwise
import Mathlib.Tactic.IntervalCases

/-! # Bits packed into bytes

Bit `i` of a byte string is bit `i % 8` of its byte `i / 8`, tested and changed
with the mask `1 << (i % 8)`.
-/

namespace MiniFs.Library.BitArray
open ByteRange

def mask (k : ℕ) : UInt8 := 1 <<< UInt8.ofNat k

theorem toNat_mask {k : ℕ} (hk : k < 8) : (mask k).toNat = 2 ^ k := by
  interval_cases k <;> decide

theorem toNat_compl_mask {k : ℕ} (hk : k < 8) : (~~~mask k).toNat = 255 - 2 ^ k := by
  interval_cases k <;> decide

theorem testBit_compl_mask {j k : ℕ} (hj : j < 8) (hk : k < 8) :
    (~~~mask k).toNat.testBit j = !decide (k = j) := by
  rw [toNat_compl_mask hk]
  interval_cases k <;> interval_cases j <;> decide

theorem testBit_or_mask (b : UInt8) {j k : ℕ} (hk : k < 8) :
    (b ||| mask k).toNat.testBit j = (b.toNat.testBit j || decide (k = j)) := by
  rw [UInt8.toNat_or, Nat.testBit_or, toNat_mask hk, Nat.testBit_two_pow]

theorem testBit_and_compl_mask (b : UInt8) {j k : ℕ} (hj : j < 8) (hk : k < 8) :
    (b &&& ~~~mask k).toNat.testBit j = (b.toNat.testBit j && !decide (k = j)) := by
  rw [UInt8.toNat_and, Nat.testBit_and, testBit_compl_mask hj hk]

theorem and_mask_eq_zero_iff (b : UInt8) {k : ℕ} (hk : k < 8) :
    b &&& mask k = 0 ↔ b.toNat.testBit k = false := by
  rw [← UInt8.toNat_inj, UInt8.toNat_and, toNat_mask hk, Nat.and_two_pow]
  cases b.toNat.testBit k <;> simp

/-- Bit `i`; the bytes past the end count as zero. -/
def bitAt (bytes : List UInt8) (i : ℕ) : Bool := (bytes.getD (i / 8) 0).toNat.testBit (i % 8)

def setBit (bytes : List UInt8) (i : ℕ) : List UInt8 :=
  bytes.set (i / 8) (bytes.getD (i / 8) 0 ||| mask (i % 8))

def clearBit (bytes : List UInt8) (i : ℕ) : List UInt8 :=
  bytes.set (i / 8) (bytes.getD (i / 8) 0 &&& ~~~mask (i % 8))

@[simp] theorem length_setBit (bytes : List UInt8) (i : ℕ) :
    (setBit bytes i).length = bytes.length := List.length_set

@[simp] theorem length_clearBit (bytes : List UInt8) (i : ℕ) :
    (clearBit bytes i).length = bytes.length := List.length_set

theorem bitAt_replicate_zero (n i : ℕ) : bitAt (List.replicate n 0) i = false := by
  unfold bitAt
  rw [List.getD_eq_getElem?_getD, List.getElem?_replicate]
  split_ifs <;> simp

theorem getD_set {bytes : List UInt8} {n : ℕ} (hn : n < bytes.length) (m : ℕ) (b : UInt8) :
    (bytes.set n b).getD m 0 = if n = m then b else bytes.getD m 0 := by
  simp only [List.getD_eq_getElem?_getD, List.getElem?_set]
  split_ifs with h <;> simp_all

theorem bitAt_setBit {bytes : List UInt8} {i : ℕ} (hi : i / 8 < bytes.length) (j : ℕ) :
    bitAt (setBit bytes i) j = (bitAt bytes j || decide (i = j)) := by
  have hk : i % 8 < 8 := Nat.mod_lt _ (by decide)
  unfold bitAt setBit
  rw [getD_set hi]
  by_cases h : i / 8 = j / 8
  · rw [if_pos h, h, testBit_or_mask _ hk]
    congr 1
    rw [decide_eq_decide]
    omega
  · have hne : i ≠ j := fun he => h (by rw [he])
    rw [if_neg h]
    simp [hne]

theorem bitAt_clearBit {bytes : List UInt8} {i : ℕ} (hi : i / 8 < bytes.length) (j : ℕ) :
    bitAt (clearBit bytes i) j = (bitAt bytes j && !decide (i = j)) := by
  have hk : i % 8 < 8 := Nat.mod_lt _ (by decide)
  have hj : j % 8 < 8 := Nat.mod_lt _ (by decide)
  unfold bitAt clearBit
  rw [getD_set hi]
  by_cases h : i / 8 = j / 8
  · rw [if_pos h, h, testBit_and_compl_mask _ hj hk]
    congr 2
    rw [decide_eq_decide]
    omega
  · have hne : i ≠ j := fun he => h (by rw [he])
    rw [if_neg h]
    simp [hne]

theorem eq_of_bitAt {bytes bytes' : List UInt8} (hlen : bytes.length = bytes'.length)
    (h : ∀ i, bitAt bytes i = bitAt bytes' i) : bytes = bytes' := by
  apply List.ext_getElem hlen
  intro n hn hn'
  apply UInt8.toNat_inj.mp
  apply Nat.eq_of_testBit_eq
  intro k
  by_cases hk : k < 8
  · have hdiv : (8 * n + k) / 8 = n := by omega
    have hmod : (8 * n + k) % 8 = k := by omega
    have hbit := h (8 * n + k)
    rwa [bitAt, bitAt, hdiv, hmod, List.getD_eq_getElem _ _ hn, List.getD_eq_getElem _ _ hn'] at hbit
  · have hpow : 2 ^ 8 ≤ 2 ^ k := Nat.pow_le_pow_right (by decide) (not_lt.mp hk)
    rw [Nat.testBit_lt_two_pow (bytes[n].toNat_lt.trans_le hpow),
      Nat.testBit_lt_two_pow (bytes'[n].toNat_lt.trans_le hpow)]

/-- Part of a bit array replaced by the same part of another one. -/
theorem bitAt_splice {bytes bytes' : List UInt8} (hlen : bytes.length = bytes'.length) {off n : ℕ}
    (hfit : off + n ≤ bytes'.length) (i : ℕ) :
    bitAt (splice off (slice off n bytes) bytes') i =
      if off ≤ i / 8 ∧ i / 8 < off + n then bitAt bytes i else bitAt bytes' i := by
  have hslice : (slice off n bytes).length = n := length_slice (by omega)
  simp only [bitAt, List.getD_eq_getElem?_getD]
  rw [getElem?_splice (by omega), getElem?_slice, hslice]
  split_ifs with h1 h2 h3 h4 h5 <;> first | omega | rfl | skip
  rw [Nat.add_sub_cancel' (by omega)]

/-- The set bits of an array. -/
theorem exists_bits (bytes : List UInt8) : ∃ used : Finset ℕ, ∀ i, bitAt bytes i = decide (i ∈ used) := by
  refine ⟨(Finset.range (8 * bytes.length)).filter fun i => bitAt bytes i, fun i => ?_⟩
  rw [Bool.eq_iff_iff, decide_eq_true_eq, Finset.mem_filter, Finset.mem_range]
  refine ⟨fun h => ⟨?_, h⟩, And.right⟩
  by_contra hi
  rw [bitAt, List.getD_eq_default _ _ (by omega)] at h
  simp at h

end MiniFs.Library.BitArray
