import MiniFs.Library.ByteRange
import Mathlib.Data.List.FinRange
import Mathlib.Logic.Equiv.Defs

/-! # Fixed-width binary codecs

A codec is a bijection between a type and the byte strings of one length, so a
value is determined by its bytes and every byte string is some value. Codecs
compose; records and arrays are laid out by products, powers and renaming.
-/

namespace MiniFs.Library

open ByteRange

/-- The `n` low base-256 digits of `x`, least significant first. -/
def toLE : ℕ → ℕ → List UInt8
  | 0, _ => []
  | n + 1, x => UInt8.ofNat (x % 256) :: toLE n (x / 256)

/-- The number with the given base-256 digits, least significant first. -/
def ofLE : List UInt8 → ℕ
  | [] => 0
  | b :: bs => b.toNat + 256 * ofLE bs

theorem length_toLE (n x : ℕ) : (toLE n x).length = n := by
  induction n generalizing x with
  | zero => rfl
  | succ n ih => rw [toLE, List.length_cons, ih]

theorem ofLE_toLE {n x : ℕ} (h : x < 256 ^ n) : ofLE (toLE n x) = x := by
  induction n generalizing x with
  | zero => rw [Nat.pow_zero] at h; simp [toLE, ofLE]; omega
  | succ n ih =>
    have hx : x / 256 < 256 ^ n := by
      rw [Nat.pow_succ] at h
      exact Nat.div_lt_of_lt_mul (by omega)
    rw [toLE, ofLE, ih hx, UInt8.toNat_ofNat']
    omega

theorem ofLE_lt (bs : List UInt8) : ofLE bs < 256 ^ bs.length := by
  induction bs with
  | nil => simp [ofLE]
  | cons b bs ih =>
    have hb : b.toNat < 256 := UInt8.toNat_lt b
    rw [ofLE, List.length_cons, Nat.pow_succ]
    omega

theorem toLE_ofLE (bs : List UInt8) : toLE bs.length (ofLE bs) = bs := by
  induction bs with
  | nil => rfl
  | cons b bs ih =>
    have hb : b.toNat < 256 := UInt8.toNat_lt b
    have h1 : (b.toNat + 256 * ofLE bs) % 256 = b.toNat := by omega
    have h2 : (b.toNat + 256 * ofLE bs) / 256 = ofLE bs := by omega
    rw [List.length_cons, ofLE, toLE, h1, h2, ih, UInt8.ofNat_toNat]

/-- A bijection between `α` and the byte strings of length `size`. -/
structure Codec (α : Type*) where
  size : ℕ
  encode : α → List UInt8
  decode : List UInt8 → α
  length_encode : ∀ a, (encode a).length = size
  decode_encode : ∀ a, decode (encode a) = a
  encode_decode : ∀ bs, bs.length = size → encode (decode bs) = bs

namespace Codec

variable {α β : Type*}

/-- An unsigned little-endian word, given as numbers below `256 ^ n`. -/
def word (n : ℕ) (toNat : α → ℕ) (ofNat : ℕ → α) (hlt : ∀ a, toNat a < 256 ^ n)
    (hof : ∀ a, ofNat (toNat a) = a) (hto : ∀ x, x < 256 ^ n → toNat (ofNat x) = x) : Codec α where
  size := n
  encode a := toLE n (toNat a)
  decode bs := ofNat (ofLE bs)
  length_encode a := length_toLE n (toNat a)
  decode_encode a := by rw [ofLE_toLE (hlt a), hof]
  encode_decode bs h := by rw [hto _ (h ▸ ofLE_lt bs), ← h, toLE_ofLE]

def u8 : Codec UInt8 :=
  word 1 UInt8.toNat UInt8.ofNat (fun a => UInt8.toNat_lt a) (fun _ => UInt8.ofNat_toNat)
    (fun _ h => UInt8.toNat_ofNat_of_lt' h)

def u16 : Codec UInt16 :=
  word 2 UInt16.toNat UInt16.ofNat (fun a => UInt16.toNat_lt a) (fun _ => UInt16.ofNat_toNat)
    (fun _ h => UInt16.toNat_ofNat_of_lt' h)

def u32 : Codec UInt32 :=
  word 4 UInt32.toNat UInt32.ofNat (fun a => UInt32.toNat_lt a) (fun _ => UInt32.ofNat_toNat)
    (fun _ h => UInt32.toNat_ofNat_of_lt' h)

def u64 : Codec UInt64 :=
  word 8 UInt64.toNat UInt64.ofNat (fun a => UInt64.toNat_lt a) (fun _ => UInt64.ofNat_toNat)
    (fun _ h => UInt64.toNat_ofNat_of_lt' h)

def prod (c : Codec α) (d : Codec β) : Codec (α × β) where
  size := c.size + d.size
  encode p := c.encode p.1 ++ d.encode p.2
  decode bs := (c.decode (bs.take c.size), d.decode (bs.drop c.size))
  length_encode p := by rw [List.length_append, c.length_encode, d.length_encode]
  decode_encode p := by
    have h := c.length_encode p.1
    rw [List.take_left' h, List.drop_left' h, c.decode_encode, d.decode_encode]
  encode_decode bs h := by
    rw [c.encode_decode _ (by rw [List.length_take]; omega),
      d.encode_decode _ (by rw [List.length_drop]; omega), List.take_append_drop]

def array (k : ℕ) (c : Codec α) : Codec (Vector α k) where
  size := k * c.size
  encode v := v.toList.flatMap c.encode
  decode bs := Vector.ofFn fun i : Fin k => c.decode (slice (i * c.size) c.size bs)
  length_encode v := by
    rw [length_flatMap_const (fun a _ => c.length_encode a), Vector.length_toList]
  decode_encode v := by
    ext i hi
    have hl : i < v.toList.length := by rw [Vector.length_toList]; exact hi
    rw [Vector.getElem_ofFn, slice_flatMap (fun a _ => c.length_encode a) hl, c.decode_encode,
      Vector.getElem_toList]
  encode_decode bs h := by
    have hs (i : Fin k) :
        c.encode (c.decode (slice (i * c.size) c.size bs)) = slice (i * c.size) c.size bs := by
      apply c.encode_decode
      apply length_slice
      have hi : (i + 1) * c.size ≤ k * c.size := Nat.mul_le_mul_right _ i.isLt
      rw [Nat.add_mul, Nat.one_mul] at hi
      omega
    have hr : (List.range k).flatMap (fun i => slice (i * c.size) c.size bs) = bs := by
      rw [flatMap_slice, ← h, slice_zero_length]
    rw [← List.map_coe_finRange_eq_range, List.flatMap_map] at hr
    rw [Vector.toList_ofFn, List.ofFn_eq_map, List.flatMap_map]
    simpa only [hs] using hr

def map (c : Codec α) (e : α ≃ β) : Codec β where
  size := c.size
  encode b := c.encode (e.symm b)
  decode bs := e (c.decode bs)
  length_encode b := c.length_encode (e.symm b)
  decode_encode b := by rw [c.decode_encode, Equiv.apply_symm_apply]
  encode_decode bs h := by rw [Equiv.symm_apply_apply, c.encode_decode bs h]

end Codec

end MiniFs.Library
