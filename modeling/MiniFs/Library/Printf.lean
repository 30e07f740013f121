import Mathlib.Data.Nat.Digits.Lemmas

/-! # Formatted text

A format is kept as its pieces, each conversion with its argument in place. A number
prints as digits and perhaps a sign, so a byte below those can only come from the
literal parts and from strings, and a number takes at most as many bytes as its type
allows.
-/

set_option autoImplicit false

namespace MiniFs.Library.Printf

def ascii (s : String) : List UInt8 := s.toList.map fun c => UInt8.ofNat c.toNat

/-- A number in base `b`, the most significant digit first. -/
def numeral (b n : ℕ) : List UInt8 :=
  if n = 0 then [0x30] else (Nat.digits b n).reverse.map fun d => UInt8.ofNat (0x30 + d)

/-- At least `w` digits, zeros in front. -/
def padded (b w n : ℕ) : List UInt8 := (numeral b n).leftpad w 0x30

def signed (z : ℤ) : List UInt8 :=
  if z < 0 then 0x2D :: numeral 10 z.natAbs else numeral 10 z.natAbs

inductive Piece where
  | lit (s : String)
  /-- `%s` -/
  | str (bytes : List UInt8)
  /-- `%u` -/
  | u (n : UInt32)
  /-- `%llu` -/
  | llu (n : UInt64)
  /-- `%d` -/
  | d (n : Int32)
  /-- `%04o` of 16 bits -/
  | o4 (n : UInt16)

def Piece.bytes : Piece → List UInt8
  | .lit s => ascii s
  | .str bytes => bytes
  | .u n => numeral 10 n.toNat
  | .llu n => numeral 10 n.toNat
  | .d n => signed n.toInt
  | .o4 n => padded 8 4 n.toNat

def format (ps : List Piece) : List UInt8 := ps.flatMap Piece.bytes

/-! ## Which bytes -/

variable {b n k w : ℕ} {c : UInt8}

theorem le_of_mem_numeral (hb : 1 < b) (hb10 : b ≤ 10) (h : c ∈ numeral b n) : 0x30 ≤ c.toNat := by
  rw [numeral] at h
  split_ifs at h with hn
  · rw [List.mem_singleton.mp h]
    decide
  · obtain ⟨d, hd, rfl⟩ := List.mem_map.mp h
    have hlt := Nat.digits_lt_base hb (List.mem_reverse.mp hd)
    rw [UInt8.toNat_ofNat_of_lt' (by change _ < 256; omega)]
    omega

theorem le_of_mem_padded (hb : 1 < b) (hb10 : b ≤ 10) (h : c ∈ padded b w n) : 0x30 ≤ c.toNat := by
  rw [padded, List.leftpad, List.mem_append] at h
  rcases h with h | h
  · rw [List.eq_of_mem_replicate h]
    decide
  · exact le_of_mem_numeral hb hb10 h

theorem le_of_mem_signed {z : ℤ} (h : c ∈ signed z) : 0x2D ≤ c.toNat := by
  have hdigits {c : UInt8} (h : c ∈ numeral 10 z.natAbs) : 0x2D ≤ c.toNat :=
    Nat.le_trans (by decide) (le_of_mem_numeral (by decide) (le_refl 10) h)
  rw [signed] at h
  split_ifs at h
  · rcases List.mem_cons.mp h with rfl | h
    · decide
    · exact hdigits h
  · exact hdigits h

/-- The part of a piece that is not a number. -/
def Piece.text : Piece → List UInt8
  | .lit s => ascii s
  | .str bytes => bytes
  | _ => []

theorem Piece.mem_bytes_iff (hc : c.toNat < 0x2D) (p : Piece) : c ∈ p.bytes ↔ c ∈ p.text := by
  have hnone {l : List UInt8} {m : ℕ} (hm : 0x2D ≤ m) (hl : c ∈ l → m ≤ c.toNat) :
      c ∈ l ↔ c ∈ ([] : List UInt8) :=
    iff_of_false (fun h => absurd (hm.trans (hl h)) (not_le.mpr hc)) List.not_mem_nil
  cases p with
  | lit s => exact Iff.rfl
  | str bytes => exact Iff.rfl
  | u n => exact hnone (by decide) (le_of_mem_numeral (by decide) (le_refl 10))
  | llu n => exact hnone (by decide) (le_of_mem_numeral (by decide) (le_refl 10))
  | d n => exact hnone (le_refl _) le_of_mem_signed
  | o4 n => exact hnone (by decide) (le_of_mem_padded (by decide) (by decide))

/-- Numbers aside, a format prints what its texts are. -/
theorem mem_format_iff (hc : c.toNat < 0x2D) (ps : List Piece) :
    c ∈ format ps ↔ c ∈ ps.flatMap Piece.text := by
  simp only [format, List.mem_flatMap, Piece.mem_bytes_iff hc]

/-! ## How many -/

theorem numeral_ne_nil (b n : ℕ) : numeral b n ≠ [] := by
  rw [numeral]
  split_ifs with hn
  · exact List.cons_ne_nil _ _
  · rw [Ne, List.map_eq_nil_iff, List.reverse_eq_nil_iff]
    exact Nat.digits_ne_nil_iff_ne_zero.mpr hn

theorem padded_ne_nil (b w n : ℕ) : padded b w n ≠ [] :=
  List.append_ne_nil_of_right_ne_nil _ (numeral_ne_nil b n)

theorem length_numeral_le (hb : 1 < b) (hk : 0 < k) (h : n < b ^ k) : (numeral b n).length ≤ k := by
  rw [numeral]
  split_ifs
  · exact hk
  · rw [List.length_map, List.length_reverse]
    exact (Nat.digits_length_le_iff hb n).mpr h

theorem length_padded_le (hb : 1 < b) (hk : 0 < k) (hw : w ≤ k) (h : n < b ^ k) :
    (padded b w n).length ≤ k := by
  have hle := length_numeral_le hb hk h
  rw [padded, List.leftpad, List.length_append, List.length_replicate]
  omega

theorem length_signed_le {z : ℤ} (hk : 0 < k) (h : z.natAbs < 10 ^ k) :
    (signed z).length ≤ k + 1 := by
  have hle := length_numeral_le (b := 10) (by decide) hk h
  rw [signed]
  split_ifs
  · rw [List.length_cons]
    omega
  · omega

/-- The most bytes a piece can take. -/
def Piece.width : Piece → ℕ
  | .lit s => (ascii s).length
  | .str bytes => bytes.length
  | .u _ => 10
  | .llu _ => 20
  | .d _ => 11
  | .o4 _ => 6

theorem Piece.length_bytes_le (p : Piece) : p.bytes.length ≤ p.width := by
  cases p with
  | lit s => exact le_refl _
  | str bytes => exact le_refl _
  | u n => exact length_numeral_le (k := 10) (by decide) (by decide) (n.toNat_lt.trans (by decide))
  | llu n =>
    exact length_numeral_le (k := 20) (by decide) (by decide) (n.toNat_lt.trans (by decide))
  | d n =>
    have hlow := n.le_toInt
    have hhigh := n.toInt_lt
    exact length_signed_le (by decide) (by omega)
  | o4 n =>
    exact length_padded_le (k := 6) (by decide) (by decide) (by decide)
      (n.toNat_lt.trans (by decide))

theorem length_format_le (ps : List Piece) : (format ps).length ≤ (ps.map Piece.width).sum := by
  induction ps with
  | nil => exact le_refl 0
  | cons p ps ih =>
    rw [format, List.flatMap_cons, List.length_append, List.map_cons, List.sum_cons]
    exact Nat.add_le_add p.length_bytes_le ih

end MiniFs.Library.Printf
