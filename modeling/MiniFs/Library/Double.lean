import Mathlib.Algebra.Order.Round
import Mathlib.Data.Int.Log
import Mathlib.Data.Rat.Floor
import Mathlib.Logic.Relator
import Mathlib.Tactic.Linarith
import Mathlib.Tactic.NormNum
import Mathlib.Tactic.Ring

/-! # Numbers in double precision

A number is a rational of at most 53 significant bits, an infinity, or none. An
operation gives the number nearest to the exact result, and of two the even one. The
two zeros are one here.
-/

set_option autoImplicit false

namespace MiniFs.Library

/-- At most 53 significant bits, no bit below 2^-1074, and less than 2^1024. -/
structure IsDouble (q : ℚ) : Prop where
  bits : ∃ m e : ℤ, |m| ≤ 2 ^ 53 ∧ -1074 ≤ e ∧ q = m * 2 ^ e
  lt : |q| < 2 ^ 1024

inductive Double where
  | nan
  | inf (negative : Bool)
  | fin (q : ℚ) (h : IsDouble q)
  deriving DecidableEq

namespace Double

variable {p q : ℚ} {m n : ℤ} {x y z : Double}

/-! ## Rounding -/

/-- The nearest integer, and of two the even one. -/
def nearest (q : ℚ) : ℤ :=
  if q - ⌊q⌋ < 1 / 2 then ⌊q⌋ else if 1 / 2 < q - ⌊q⌋ then ⌊q⌋ + 1 else ⌊q⌋ + ⌊q⌋ % 2

/-- The exponent of the last of 53 bits. -/
def exponent (q : ℚ) : ℤ := max (Int.log 2 |q| - 52) (-1074)

/-- `q` to 53 bits, without an upper limit. -/
def toBits (q : ℚ) : ℚ := nearest (q / 2 ^ exponent q) * 2 ^ exponent q

theorem abs_nearest_sub_le (q : ℚ) : |nearest q - q| ≤ 1 / 2 := by
  have hle := Int.floor_le q
  have hlt := Int.lt_floor_add_one q
  rw [nearest, abs_le]
  split_ifs with hlow hhigh
  · constructor <;> linarith
  · push_cast
    constructor <;> linarith
  · have hmid : q - ⌊q⌋ = 1 / 2 := by linarith
    rcases Int.emod_two_eq_zero_or_one ⌊q⌋ with hmod | hmod
    · rw [hmod]
      push_cast
      constructor <;> linarith
    · rw [hmod]
      push_cast
      constructor <;> linarith

@[simp] theorem nearest_intCast (n : ℤ) : nearest n = n := by
  have hzero : (n : ℚ) - ((⌊(n : ℚ)⌋ : ℤ) : ℚ) < 1 / 2 := by
    rw [Int.floor_intCast]
    norm_num
  rw [nearest, if_pos hzero, Int.floor_intCast]

theorem nearest_neg (q : ℚ) : nearest (-q) = -nearest q := by
  rcases (Int.floor_le q).eq_or_lt with hint | hlt
  · rw [← hint, ← Int.cast_neg, nearest_intCast, nearest_intCast]
  · have hup := Int.lt_floor_add_one q
    have hfloor : ⌊-q⌋ = -⌊q⌋ - 1 := by
      rw [Int.floor_eq_iff]
      push_cast
      constructor <;> linarith
    rw [nearest, nearest, hfloor]
    push_cast
    split_ifs
    · linarith
    · omega
    · linarith
    · omega
    · linarith
    · linarith
    · linarith
    · linarith
    · omega

theorem two_zpow_pos (e : ℤ) : (0 : ℚ) < 2 ^ e := zpow_pos two_pos e

theorem le_exponent (q : ℚ) : -1074 ≤ exponent q := le_max_right _ _

/-- The mantissa of a number has at most 53 bits. -/
theorem abs_div_lt (q : ℚ) : |q / 2 ^ exponent q| < 2 ^ 53 := by
  have hpos := two_zpow_pos (exponent q)
  rw [abs_div, abs_of_pos hpos, div_lt_iff₀ hpos]
  calc |q| < ((2 : ℕ) : ℚ) ^ (Int.log 2 |q| + 1) := Int.lt_zpow_succ_log_self one_lt_two _
    _ ≤ 2 ^ (53 + exponent q) := by
      rw [Nat.cast_ofNat]
      apply zpow_le_zpow_right₀ one_le_two
      have : Int.log 2 |q| - 52 ≤ exponent q := le_max_left _ _
      omega
    _ = 2 ^ 53 * 2 ^ exponent q := by
      rw [zpow_add₀ two_ne_zero]
      norm_cast

theorem bits_toBits (q : ℚ) : ∃ m e : ℤ, |m| ≤ 2 ^ 53 ∧ -1074 ≤ e ∧ toBits q = m * 2 ^ e := by
  refine ⟨nearest (q / 2 ^ exponent q), exponent q, ?_, le_exponent q, rfl⟩
  have hnear := abs_nearest_sub_le (q / 2 ^ exponent q)
  have hlt := abs_div_lt q
  have habs : |((nearest (q / 2 ^ exponent q) : ℤ) : ℚ)| < 2 ^ 53 + 1 := by
    rw [abs_le] at hnear
    rw [abs_lt] at hlt ⊢
    constructor <;> linarith
  have hint : |nearest (q / 2 ^ exponent q)| < 2 ^ 53 + 1 := by exact_mod_cast habs
  omega

/-- The last of 53 bits is not above the last bit of a shorter mantissa. -/
theorem exponent_le {e : ℤ} (hm : |m| < 2 ^ 53) (hzero : m ≠ 0) (he : -1074 ≤ e) :
    exponent (m * 2 ^ e) ≤ e := by
  have hpos := two_zpow_pos e
  have habs : |(m : ℚ) * 2 ^ e| = |m| * 2 ^ e := by rw [abs_mul, abs_of_pos hpos, Int.cast_abs]
  have hne : 0 < |(m : ℚ) * 2 ^ e| :=
    abs_pos.mpr (mul_ne_zero (Int.cast_ne_zero.mpr hzero) hpos.ne')
  have hlt : |(m : ℚ) * 2 ^ e| < ((2 : ℕ) : ℚ) ^ (53 + e) := by
    rw [Nat.cast_ofNat, habs, zpow_add₀ two_ne_zero]
    have hcast : ((|m| : ℤ) : ℚ) < 2 ^ (53 : ℤ) := by exact_mod_cast hm
    exact mul_lt_mul_of_pos_right hcast hpos
  have hlog := (Int.lt_zpow_iff_log_lt one_lt_two hne).mp hlt
  rw [exponent]
  omega

theorem toBits_eq_of_lt {e : ℤ} (hm : |m| < 2 ^ 53) (he : -1074 ≤ e) :
    toBits (m * 2 ^ e) = m * 2 ^ e := by
  rcases eq_or_ne m 0 with rfl | hzero
  · have hnone : nearest 0 = 0 := nearest_intCast 0
    rw [Int.cast_zero, zero_mul, toBits, zero_div, hnone, Int.cast_zero, zero_mul]
  · have hle := exponent_le hm hzero he
    have hint : (m : ℚ) * 2 ^ e / 2 ^ exponent (m * 2 ^ e) =
        (m * 2 ^ (e - exponent (m * 2 ^ e)).toNat : ℤ) := by
      rw [mul_div_assoc, ← zpow_sub₀ two_ne_zero]
      push_cast
      rw [← zpow_natCast, Int.toNat_of_nonneg (by omega)]
    rw [toBits, hint, nearest_intCast, ← hint, div_mul_cancel₀ _ (two_zpow_pos _).ne']

theorem toBits_eq (h : IsDouble q) : toBits q = q := by
  obtain ⟨m, e, hm, he, rfl⟩ := h.bits
  rcases hm.lt_or_eq with hlt | hfull
  · exact toBits_eq_of_lt hlt he
  · -- the mantissa 2^53 is 2^52 with the next exponent
    obtain ⟨k, rfl⟩ : (2 : ℤ) ∣ m := (dvd_abs 2 m).mp (hfull ▸ Dvd.intro_left (2 ^ 52) rfl)
    have hhalf : |k| < 2 ^ 53 := by
      rw [abs_mul, abs_two] at hfull
      omega
    have hnext : ((2 * k : ℤ) : ℚ) * 2 ^ e = k * 2 ^ (e + 1) := by
      rw [zpow_add₀ two_ne_zero, zpow_one]
      push_cast
      ring
    rw [hnext]
    exact toBits_eq_of_lt hhalf (by omega)

/-- How far a number can be from its rounding. -/
theorem abs_toBits_sub_le (q : ℚ) :
    |toBits q - q| ≤ |q| / 2 ^ 53 ∨ |toBits q - q| ≤ 2 ^ (-1075 : ℤ) := by
  have hpos := two_zpow_pos (exponent q)
  have hdist : |toBits q - q| ≤ 2 ^ exponent q / 2 := by
    have hsplit : toBits q - q =
        (nearest (q / 2 ^ exponent q) - q / 2 ^ exponent q) * 2 ^ exponent q := by
      rw [toBits, sub_mul, div_mul_cancel₀ _ hpos.ne']
    rw [hsplit, abs_mul, abs_of_pos hpos]
    have := mul_le_mul_of_nonneg_right (abs_nearest_sub_le (q / 2 ^ exponent q)) hpos.le
    linarith
  rcases eq_or_ne q 0 with rfl | hzero
  · have hnone : toBits 0 = 0 := by simpa using toBits_eq_of_lt (m := 0) (e := 0) (by simp) (by simp)
    exact .inl (by rw [hnone]; simp)
  by_cases hmin : exponent q = -1074
  · right
    rw [hmin] at hdist
    refine hdist.trans_eq ?_
    rw [div_eq_mul_inv, ← zpow_sub_one₀ two_ne_zero]
    norm_num
  · left
    have hlog : exponent q = Int.log 2 |q| - 52 := by
      rw [exponent] at hmin ⊢
      omega
    have hge : ((2 : ℕ) : ℚ) ^ Int.log 2 |q| ≤ |q| :=
      Int.zpow_log_le_self one_lt_two (abs_pos.mpr hzero)
    rw [hlog, zpow_sub₀ two_ne_zero] at hdist
    refine hdist.trans ?_
    rw [div_div]
    exact div_le_div₀ (abs_nonneg q) hge (by positivity) (by norm_num)

theorem toBits_neg (q : ℚ) : toBits (-q) = -toBits q := by
  have hexp : exponent (-q) = exponent q := by rw [exponent, exponent, abs_neg]
  rw [toBits, toBits, hexp, neg_div, nearest_neg]
  push_cast
  rw [neg_mul]

theorem toBits_nonneg (h : 0 ≤ q) : 0 ≤ toBits q := by
  have hpos := two_zpow_pos (exponent q)
  have hnear : 0 ≤ nearest (q / 2 ^ exponent q) := by
    have hfloor : 0 ≤ ⌊q / 2 ^ exponent q⌋ := Int.floor_nonneg.mpr (div_nonneg h hpos.le)
    rw [nearest]
    split_ifs
    · exact hfloor
    · omega
    · omega
  exact mul_nonneg (Int.cast_nonneg hnear) hpos.le

/-! ## Which integers there are -/

theorem isDouble_intCast (h : |n| ≤ 2 ^ 53) : IsDouble n := by
  refine ⟨⟨n, 0, h, by norm_num, by rw [zpow_zero, mul_one]⟩, ?_⟩
  have hcast : |(n : ℚ)| ≤ 2 ^ 53 := by exact_mod_cast h
  exact hcast.trans_lt (pow_lt_pow_right₀ one_lt_two (by norm_num))

/-- Above 2^53 there are no odd ones. -/
theorem even_of_isDouble (h : IsDouble (n : ℚ)) (hn : 2 ^ 53 < n) : Even n := by
  obtain ⟨m, e, hm, -, heq⟩ := h.bits
  have hpos := two_zpow_pos e
  by_cases hone : 1 ≤ e
  · have hint : n = 2 * (m * 2 ^ (e - 1).toNat) := by
      have hcast : (n : ℚ) = ((2 * (m * 2 ^ (e - 1).toNat) : ℤ) : ℚ) := by
        push_cast
        rw [heq, ← zpow_natCast, Int.toNat_of_nonneg (by omega), zpow_sub₀ two_ne_zero, zpow_one]
        ring
      exact_mod_cast hcast
    exact hint ▸ even_two_mul _
  · exfalso
    have hle : (2 : ℚ) ^ e ≤ 1 := zpow_le_one_of_nonpos₀ one_le_two (by omega)
    have hmq : ((|m| : ℤ) : ℚ) ≤ 2 ^ 53 := by exact_mod_cast hm
    have hnq : (2 : ℚ) ^ 53 < n := by exact_mod_cast hn
    rw [Int.cast_abs] at hmq
    have hmle : (m : ℚ) ≤ 2 ^ 53 := (le_abs_self _).trans hmq
    rw [heq] at hnq
    nlinarith

/-- A number with a fraction is below 2^53. -/
theorem isDouble_of_near (h : IsDouble q) (hnear : |(n : ℚ) - q| < 1) : IsDouble n := by
  obtain ⟨m, e, hm, he, heq⟩ := h.bits
  by_cases hint : 0 ≤ e
  · -- `q` is an integer, and so `n`
    have hq : q = ((m * 2 ^ e.toNat : ℤ) : ℚ) := by
      push_cast
      rw [heq, ← zpow_natCast, Int.toNat_of_nonneg hint]
    have hn : n = m * 2 ^ e.toNat := by
      rw [hq, ← Int.cast_sub, ← Int.cast_abs] at hnear
      have hzero : |n - m * 2 ^ e.toNat| < 1 := by exact_mod_cast hnear
      exact Int.sub_eq_zero.mp (Int.abs_lt_one_iff.mp hzero)
    rw [hn, ← hq]
    exact h
  · apply isDouble_intCast
    have hhalf : (2 : ℚ) ^ e ≤ 1 / 2 := by
      have : (2 : ℚ) ^ e ≤ 2 ^ (-1 : ℤ) := zpow_le_zpow_right₀ one_le_two (by omega)
      rwa [zpow_neg_one, ← one_div] at this
    have hmq : ((|m| : ℤ) : ℚ) ≤ 2 ^ 53 := by exact_mod_cast hm
    have hqle : |q| ≤ 2 ^ 52 := by
      rw [heq, abs_mul, abs_of_pos (two_zpow_pos e), ← Int.cast_abs]
      have := mul_le_mul hmq hhalf (two_zpow_pos e).le (by norm_num)
      linarith
    have hnle : |(n : ℚ)| < 2 ^ 53 := by
      have := abs_sub_abs_le_abs_sub (n : ℚ) q
      linarith
    have : |n| < 2 ^ 53 := by exact_mod_cast hnle
    exact this.le

theorem exists_toBits_intCast (n : ℤ) : ∃ k : ℤ, toBits n = k := by
  by_cases hle : |n| ≤ 2 ^ 53
  · exact ⟨n, toBits_eq (isDouble_intCast hle)⟩
  · have hexp : 0 ≤ exponent n := by
      have hpow : ((2 : ℕ) : ℚ) ^ (53 : ℤ) ≤ |(n : ℚ)| := by
        rw [Nat.cast_ofNat, ← Int.cast_abs]
        exact_mod_cast (not_le.mp hle).le
      have hpos : 0 < |(n : ℚ)| := lt_of_lt_of_le (by positivity) hpow
      have := (Int.zpow_le_iff_le_log one_lt_two hpos).mp hpow
      rw [exponent]
      omega
    refine ⟨nearest (n / 2 ^ exponent n) * 2 ^ (exponent n).toNat, ?_⟩
    rw [toBits]
    push_cast
    rw [← zpow_natCast, Int.toNat_of_nonneg hexp]

theorem pow_le_toBits_intCast (h : 2 ^ 53 < n) : 2 ^ 53 ≤ toBits n := by
  obtain ⟨k, hk⟩ := exists_toBits_intCast n
  have hnq : (2 : ℚ) ^ 53 + 1 ≤ n := by exact_mod_cast h
  have hlow : (2 : ℚ) ^ 53 - 1 < toBits n := by
    rcases abs_toBits_sub_le (n : ℚ) with hrel | habs
    · rw [abs_of_nonneg (a := (n : ℚ)) (by linarith), abs_le] at hrel
      linarith
    · have htiny : (2 : ℚ) ^ (-1075 : ℤ) ≤ 1 := zpow_le_one_of_nonpos₀ one_le_two (by norm_num)
      rw [abs_le] at habs
      linarith
  rw [hk] at hlow ⊢
  have hint : (2 : ℤ) ^ 53 - 1 < k := by exact_mod_cast hlow
  exact_mod_cast Int.le_of_sub_one_lt hint

/-! ## Operations -/

/-- The number nearest to `q`, an infinity if that is too large. -/
def round (q : ℚ) : Double :=
  if h : |toBits q| < 2 ^ 1024 then fin (toBits q) ⟨bits_toBits q, h⟩ else inf (q < 0)

instance : NatCast Double := ⟨fun n => round n⟩
instance : IntCast Double := ⟨fun n => round n⟩
instance (n : ℕ) : OfNat Double n := ⟨round n⟩

protected def add : Double → Double → Double
  | fin p _, fin q _ => round (p + q)
  | inf s, inf t => if s = t then inf s else nan
  | inf s, fin _ _ => inf s
  | fin _ _, inf t => inf t
  | _, _ => nan

protected def sub : Double → Double → Double
  | fin p _, fin q _ => round (p - q)
  | inf s, inf t => if s = t then nan else inf s
  | inf s, fin _ _ => inf s
  | fin _ _, inf t => inf !t
  | _, _ => nan

protected def mul : Double → Double → Double
  | fin p _, fin q _ => round (p * q)
  | inf s, inf t => inf (s != t)
  | inf s, fin q _ => if q = 0 then nan else inf (s != (q < 0))
  | fin p _, inf t => if p = 0 then nan else inf ((p < 0) != t)
  | _, _ => nan

protected def div : Double → Double → Double
  | fin p _, fin q _ => if q = 0 then if p = 0 then nan else inf (p < 0) else round (p / q)
  | inf s, fin q _ => inf (s != (q < 0))
  | fin _ _, inf _ => 0
  | _, _ => nan

instance : Add Double := ⟨Double.add⟩
instance : Sub Double := ⟨Double.sub⟩
instance : Mul Double := ⟨Double.mul⟩
instance : Div Double := ⟨Double.div⟩

@[simp] theorem nan_add (x : Double) : nan + x = nan := by cases x <;> rfl

@[simp] theorem nan_mul (x : Double) : nan * x = nan := by cases x <;> rfl

@[simp] theorem mul_nan (x : Double) : x * nan = nan := by cases x <;> rfl

@[simp] theorem nan_div (x : Double) : nan / x = nan := by cases x <;> rfl

@[simp] theorem div_nan (x : Double) : x / nan = nan := by cases x <;> rfl

@[simp] theorem add_nan (x : Double) : x + nan = nan := by cases x <;> rfl

def floor : Double → Double
  | fin q _ => round ⌊q⌋
  | x => x

def ceil : Double → Double
  | fin q _ => round ⌈q⌉
  | x => x

/-- No comparison with NaN holds. -/
def lt : Double → Double → Bool
  | fin p _, fin q _ => p < q
  | inf s, inf t => s && !t
  | inf s, fin _ _ => s
  | fin _ _, inf t => !t
  | _, _ => false

def le : Double → Double → Bool
  | fin p _, fin q _ => p ≤ q
  | inf s, inf t => s || !t
  | inf s, fin _ _ => s
  | fin _ _, inf t => !t
  | _, _ => false

@[simp] theorem nan_le (x : Double) : nan.le x = false := by cases x <;> rfl

@[simp] theorem le_nan (x : Double) : x.le nan = false := by cases x <;> rfl

def equal (x y : Double) : Bool := x ≠ nan && x = y

/-- NaN if one of the two is. -/
def max (x y : Double) : Double :=
  if x = nan ∨ y = nan then nan else if x.lt y then y else x

/-! ## Operations on integers -/

def value : Double → Option ℚ
  | fin q _ => some q
  | _ => none

@[simp] theorem value_nan : nan.value = none := rfl

@[simp] theorem value_inf (s : Bool) : (inf s).value = none := rfl

@[simp] theorem value_fin (h : IsDouble q) : (fin q h).value = some q := rfl

/-- `x` is the integer `n`. -/
def Is (x : Double) (n : ℤ) : Prop := x.value = some (n : ℚ)

instance (x : Double) (n : ℤ) : Decidable (x.Is n) :=
  inferInstanceAs (Decidable (x.value = some (n : ℚ)))

theorem value_eq_some_iff : x.value = some q ↔ ∃ h, x = fin q h := by
  cases x with
  | fin p h =>
    constructor
    · intro heq
      obtain rfl := Option.some.inj heq
      exact ⟨h, rfl⟩
    · rintro ⟨_, heq⟩
      exact congrArg value heq
  | _ => exact iff_of_false (fun h => nomatch h) fun ⟨_, h⟩ => nomatch h

theorem isDouble_of_value (h : x.value = some q) : IsDouble q := by
  obtain ⟨hq, -⟩ := value_eq_some_iff.mp h
  exact hq

theorem value_round (h : |toBits q| < 2 ^ 1024) : (round q).value = some (toBits q) := by
  rw [round, dif_pos h]
  rfl

theorem value_round_of_isDouble (h : IsDouble q) : (round q).value = some q := by
  have heq := toBits_eq h
  rw [value_round (heq.symm ▸ h.lt), heq]

theorem is_round (h : |n| ≤ 2 ^ 53) : (round n).Is n :=
  value_round_of_isDouble (isDouble_intCast h)

theorem is_natCast {k : ℕ} (h : k ≤ 2 ^ 53) : (k : Double).Is k := by
  have hint : |(k : ℤ)| ≤ 2 ^ 53 := by
    rw [abs_of_nonneg (Int.natCast_nonneg k)]
    exact_mod_cast h
  have := is_round hint
  rwa [Int.cast_natCast] at this

theorem is_ofNat (k : ℕ) (h : k ≤ 2 ^ 53) : (OfNat.ofNat k : Double).Is (OfNat.ofNat k) :=
  is_natCast h

theorem Is.inj (hm : x.Is m) (hn : x.Is n) : m = n :=
  Int.cast_injective (Option.some.inj (hm.symm.trans hn))

theorem Is.ne_nan (h : x.Is n) : x ≠ nan := by
  rintro rfl
  exact nomatch h

theorem biUnique_is : Relator.BiUnique Is := by
  refine ⟨fun x n y hx hy => ?_, fun x m n hm hn => hm.inj hn⟩
  obtain ⟨_, rfl⟩ := value_eq_some_iff.mp hx
  obtain ⟨_, rfl⟩ := value_eq_some_iff.mp hy
  rfl

theorem Is.even (h : x.Is n) (hn : 2 ^ 53 < n) : Even n :=
  even_of_isDouble (isDouble_of_value h) hn

theorem add_of_value (hx : x.value = some p) (hy : y.value = some q) : x + y = round (p + q) := by
  obtain ⟨_, rfl⟩ := value_eq_some_iff.mp hx
  obtain ⟨_, rfl⟩ := value_eq_some_iff.mp hy
  rfl

theorem sub_of_value (hx : x.value = some p) (hy : y.value = some q) : x - y = round (p - q) := by
  obtain ⟨_, rfl⟩ := value_eq_some_iff.mp hx
  obtain ⟨_, rfl⟩ := value_eq_some_iff.mp hy
  rfl

theorem mul_of_value (hx : x.value = some p) (hy : y.value = some q) : x * y = round (p * q) := by
  obtain ⟨_, rfl⟩ := value_eq_some_iff.mp hx
  obtain ⟨_, rfl⟩ := value_eq_some_iff.mp hy
  rfl

theorem div_of_value (hx : x.value = some p) (hy : y.value = some q) (hq : q ≠ 0) :
    x / y = round (p / q) := by
  obtain ⟨_, rfl⟩ := value_eq_some_iff.mp hx
  obtain ⟨_, rfl⟩ := value_eq_some_iff.mp hy
  exact if_neg hq

section Integers
variable (hx : x.Is m) (hy : y.Is n)
include hx hy

theorem Is.add (h : |m + n| ≤ 2 ^ 53) : (x + y).Is (m + n) := by
  rw [add_of_value hx hy, ← Int.cast_add]
  exact is_round h

theorem Is.sub (h : |m - n| ≤ 2 ^ 53) : (x - y).Is (m - n) := by
  rw [sub_of_value hx hy, ← Int.cast_sub]
  exact is_round h

theorem Is.mul (h : |m * n| ≤ 2 ^ 53) : (x * y).Is (m * n) := by
  rw [mul_of_value hx hy, ← Int.cast_mul]
  exact is_round h

theorem Is.lt_iff : x.lt y = true ↔ m < n := by
  obtain ⟨_, rfl⟩ := value_eq_some_iff.mp hx
  obtain ⟨_, rfl⟩ := value_eq_some_iff.mp hy
  exact decide_eq_true_iff.trans Int.cast_lt

theorem Is.le_iff : x.le y = true ↔ m ≤ n := by
  obtain ⟨_, rfl⟩ := value_eq_some_iff.mp hx
  obtain ⟨_, rfl⟩ := value_eq_some_iff.mp hy
  exact decide_eq_true_iff.trans Int.cast_le

theorem Is.equal_iff : x.equal y = true ↔ m = n := by
  have hne := hx.ne_nan
  obtain ⟨_, rfl⟩ := value_eq_some_iff.mp hx
  obtain ⟨_, rfl⟩ := value_eq_some_iff.mp hy
  simp [equal]

theorem Is.max : (x.max y).Is (Max.max m n) := by
  have hlt := Is.lt_iff hx hy
  rw [Double.max, if_neg (not_or.mpr ⟨hx.ne_nan, hy.ne_nan⟩)]
  split_ifs with h
  · rw [max_eq_right (hlt.mp h).le]
    exact hy
  · rw [max_eq_left (not_lt.mp fun hmn => h (hlt.mpr hmn))]
    exact hx

end Integers

theorem Is.add_cast_zero (h : x.Is m) : (x + (0 : ℕ)).Is m := by
  have hzero : ((0 : ℕ) : Double).Is 0 := is_natCast (Nat.zero_le _)
  rw [add_of_value h hzero, Int.cast_zero, add_zero]
  exact value_round_of_isDouble (isDouble_of_value h)

theorem lt_of_le (hm : y.Is m) (hn : z.Is n) (hmn : m < n) (h : x.le y = true) :
    x.lt z = true := by
  obtain ⟨_, rfl⟩ := value_eq_some_iff.mp hm
  obtain ⟨_, rfl⟩ := value_eq_some_iff.mp hn
  cases x with
  | fin q hq => exact decide_eq_true ((of_decide_eq_true h).trans_lt (Int.cast_lt.mpr hmn))
  | inf s => exact h
  | nan => exact nomatch h

theorem is_floor (h : x.value = some q) : x.floor.Is ⌊q⌋ := by
  obtain ⟨hq, rfl⟩ := value_eq_some_iff.mp h
  refine value_round_of_isDouble (isDouble_of_near hq ?_)
  rw [abs_lt]
  constructor
  · linarith [Int.lt_floor_add_one q]
  · linarith [Int.floor_le q]

theorem is_ceil (h : x.value = some q) : x.ceil.Is ⌈q⌉ := by
  obtain ⟨hq, rfl⟩ := value_eq_some_iff.mp h
  refine value_round_of_isDouble (isDouble_of_near hq ?_)
  rw [abs_lt]
  constructor
  · linarith [Int.le_ceil q]
  · linarith [Int.ceil_lt_add_one q]

/-! ## Integers that are rounded -/

theorem round_cases (q : ℚ) : (round q).value = some (toBits q) ∨ round q = inf (q < 0) := by
  by_cases hlt : |toBits q| < 2 ^ 1024
  · exact .inl (value_round hlt)
  · exact .inr (by rw [round, dif_neg hlt])

/-- The rounding of an integer is one, or it is too large. -/
theorem round_intCast_cases (n : ℤ) : (∃ k : ℤ, toBits n = k ∧ (round n).Is k) ∨
    round n = inf ((n : ℚ) < 0) := by
  obtain ⟨k, hk⟩ := exists_toBits_intCast n
  exact (round_cases n).imp_left fun h => ⟨k, hk, h.trans (congrArg some hk)⟩

theorem intCast_of_lt (h : 2 ^ 53 < n) :
    (n : Double) = inf false ∨ ∃ k : ℤ, 2 ^ 53 ≤ k ∧ (n : Double).Is k := by
  have hlow := pow_le_toBits_intCast h
  obtain ⟨k, hk, his⟩ | hinf := round_intCast_cases n
  · rw [hk] at hlow
    exact .inr ⟨k, by exact_mod_cast hlow, his⟩
  · have hneg : ¬(n : ℚ) < 0 := by
      rw [← Int.cast_zero, Int.cast_lt]
      omega
    rw [decide_eq_false hneg] at hinf
    exact .inl hinf

theorem intCast_of_lt_neg (h : n < -2 ^ 53) :
    (n : Double) = inf true ∨ ∃ k : ℤ, k ≤ -2 ^ 53 ∧ (n : Double).Is k := by
  have hlow := pow_le_toBits_intCast (n := -n) (by omega)
  rw [Int.cast_neg, toBits_neg] at hlow
  obtain ⟨k, hk, his⟩ | hinf := round_intCast_cases n
  · rw [hk] at hlow
    have hint : (2 : ℤ) ^ 53 ≤ -k := by exact_mod_cast hlow
    exact .inr ⟨k, by omega, his⟩
  · have hneg : (n : ℚ) < 0 := by
      rw [← Int.cast_zero, Int.cast_lt]
      omega
    rw [decide_eq_true hneg] at hinf
    exact .inl hinf

/-- A number below 2^53 compares with the rounding of an integer as with the integer. -/
theorem Is.lt_intCast_iff (hx : x.Is m) (h0 : 0 ≤ m) (hm : m < 2 ^ 53) (n : ℤ) :
    x.lt n = true ↔ m < n := by
  by_cases hle : |n| ≤ 2 ^ 53
  · exact hx.lt_iff (is_round hle)
  obtain ⟨_, hfin⟩ := value_eq_some_iff.mp hx
  rcases lt_or_gt_of_ne (show n ≠ 0 by rintro rfl; exact hle (by norm_num)) with hneg | hpos
  · rw [abs_of_neg hneg] at hle
    refine iff_of_false ?_ (by omega)
    obtain hinf | ⟨k, hk, hn⟩ := intCast_of_lt_neg (n := n) (by omega)
    · rw [hinf, hfin]
      exact Bool.false_ne_true
    · rw [hx.lt_iff hn]
      omega
  · rw [abs_of_pos hpos] at hle
    refine iff_of_true ?_ (by omega)
    obtain hinf | ⟨k, hk, hn⟩ := intCast_of_lt (n := n) (by omega)
    · rw [hinf, hfin]
      rfl
    · rw [hx.lt_iff hn]
      omega

/-- A sum above 2^53 is not rounded below it. -/
theorem Is.pow_le_of_add {k : ℤ} (hx : x.Is m) (hy : y.Is n) (h : 2 ^ 53 < m + n)
    (hs : (x + y).Is k) : 2 ^ 53 ≤ k := by
  rw [add_of_value hx hy, ← Int.cast_add] at hs
  obtain hinf | ⟨j, hj, his⟩ := intCast_of_lt h
  · have hs' : (inf false).Is k := hinf ▸ hs
    exact nomatch hs'
  · exact hs.inj his ▸ hj

/-! ## Finite results -/

/-- An integer, if it is finite. -/
def Whole (x : Double) : Prop := ∀ q, x.value = some q → ∃ n : ℤ, x.Is n

theorem whole_floor (x : Double) : Whole x.floor := by
  cases x with
  | fin q h => exact fun _ _ => ⟨⌊q⌋, is_floor rfl⟩
  | _ => exact fun _ h => nomatch h

theorem whole_ceil (x : Double) : Whole x.ceil := by
  cases x with
  | fin q h => exact fun _ _ => ⟨⌈q⌉, is_ceil rfl⟩
  | _ => exact fun _ h => nomatch h

theorem Whole.max_one (h : Whole x) (hmax : (Double.max 1 x).value = some q) :
    ∃ n : ℤ, (Double.max 1 x).Is n ∧ 1 ≤ n := by
  have hone : (1 : Double).Is 1 := is_ofNat 1 (by norm_num)
  rw [Double.max] at hmax ⊢
  split_ifs at hmax ⊢ with hnan hlt
  · exact nomatch hmax
  · obtain ⟨n, hn⟩ := h q hmax
    exact ⟨n, hn, ((hone.lt_iff hn).mp hlt).le⟩
  · exact ⟨1, hone, le_rfl⟩

theorem values_of_add (h : (x + y).value = some q) :
    (∃ p, x.value = some p) ∧ ∃ p, y.value = some p := by
  cases x with
  | fin p hp =>
    cases y with
    | fin r hr => exact ⟨⟨p, rfl⟩, r, rfl⟩
    | _ => exact nomatch h
  | inf s =>
    cases y with
    | inf t =>
      change (if s = t then inf s else nan).value = some q at h
      split_ifs at h with hst
      · exact nomatch h
      · exact nomatch h
    | _ => exact nomatch h
  | nan => cases y <;> exact nomatch h

theorem left_of_sub (h : (x - y).value = some q) : ∃ p, x.value = some p := by
  cases x with
  | fin p hp => exact ⟨p, rfl⟩
  | inf s =>
    cases y with
    | inf t =>
      change (if s = t then nan else inf s).value = some q at h
      split_ifs at h with hst
      · exact nomatch h
      · exact nomatch h
    | _ => exact nomatch h
  | nan => cases y <;> exact nomatch h

/-- A difference that is bounded, and not because the first number is below the second. -/
theorem values_of_sub (h : (x - y).le z = true) (hz : z.value = some q) (hno : x.le y = false) :
    (∃ p, x.value = some p) ∧ ∃ p, y.value = some p := by
  obtain ⟨_, rfl⟩ := value_eq_some_iff.mp hz
  cases x with
  | fin p hp =>
    cases y with
    | fin r hr => exact ⟨⟨p, rfl⟩, r, rfl⟩
    | inf t => exact absurd (h.symm.trans hno) (by decide)
    | nan => exact nomatch h
  | inf s =>
    cases y with
    | fin r hr => exact absurd (h.symm.trans hno) (by decide)
    | inf t => cases s <;> cases t <;> simp_all [le, HSub.hSub, Sub.sub, Double.sub]
    | nan => exact nomatch h
  | nan => cases y <;> exact nomatch h

/-- The rounding of an integer that is not negative. -/
theorem round_nonneg_cases (h : 0 ≤ n) :
    (∃ k : ℤ, (round n).Is k ∧ 0 ≤ k) ∨ round n = inf false := by
  have hn : (0 : ℚ) ≤ n := Int.cast_nonneg h
  obtain ⟨k, hk, hround⟩ | hinf := round_intCast_cases n
  · have hnonneg := toBits_nonneg hn
    rw [hk] at hnonneg
    exact .inl ⟨k, hround, by exact_mod_cast hnonneg⟩
  · rw [decide_eq_false (not_lt.mpr hn)] at hinf
    exact .inr hinf

/-- A finite sum of integers that are not negative. -/
theorem Is.exists_add (hx : x.Is m) (hy : y.Is n) (h0 : 0 ≤ m + n) (h : (x + y).value = some q) :
    ∃ k : ℤ, (x + y).Is k ∧ 0 ≤ k := by
  rw [add_of_value hx hy, ← Int.cast_add] at h ⊢
  refine (round_nonneg_cases h0).resolve_right fun hinf => ?_
  rw [hinf] at h
  exact nomatch h

/-- A bounded product of integers that are not negative. -/
theorem Is.exists_mul (hx : x.Is m) (hy : y.Is n) (h0 : 0 ≤ m * n) (h : (x * y).le z = true)
    (hz : z.value = some q) : ∃ k : ℤ, (x * y).Is k ∧ 0 ≤ k := by
  obtain ⟨_, rfl⟩ := value_eq_some_iff.mp hz
  rw [mul_of_value hx hy, ← Int.cast_mul] at h ⊢
  refine (round_nonneg_cases h0).resolve_right fun hinf => ?_
  rw [hinf] at h
  exact Bool.false_ne_true h

/-- A bounded difference of integers, the second not above the first. -/
theorem Is.exists_sub (hx : x.Is m) (hy : y.Is n) (h0 : n ≤ m) (h : (x - y).le z = true)
    (hz : z.value = some q) : ∃ k : ℤ, (x - y).Is k ∧ 0 ≤ k := by
  obtain ⟨_, rfl⟩ := value_eq_some_iff.mp hz
  rw [sub_of_value hx hy, ← Int.cast_sub] at h ⊢
  refine (round_nonneg_cases (sub_nonneg.mpr h0)).resolve_right fun hinf => ?_
  rw [hinf] at h
  exact Bool.false_ne_true h

/-! ## Bounds of rounded results -/

theorem toBits_bounds (h : 0 ≤ q) : 0.999 * q - 0.001 ≤ toBits q ∧ toBits q ≤ 1.001 * q + 0.001 := by
  rcases abs_toBits_sub_le q with hrel | habs
  · have hle : q / 2 ^ 53 ≤ q / 1000 := div_le_div_of_nonneg_left h (by norm_num) (by norm_num)
    rw [abs_of_nonneg h, abs_le] at hrel
    constructor <;> linarith
  · have htiny : (2 : ℚ) ^ (-1075 : ℤ) ≤ 0.001 := by
      have : (2 : ℚ) ^ (-1075 : ℤ) ≤ 2 ^ (-10 : ℤ) := zpow_le_zpow_right₀ one_le_two (by norm_num)
      exact this.trans (by norm_num)
    obtain ⟨hlow, hhigh⟩ := abs_le.mp (habs.trans htiny)
    constructor <;> linarith

theorem exists_round_le (h : 0 ≤ q) (hp : IsDouble p) (hle : 1.001 * q + 0.001 ≤ p) :
    ∃ r, (round q).value = some r ∧ 0 ≤ r ∧ r ≤ 1.001 * q + 0.001 := by
  obtain ⟨-, hbound⟩ := toBits_bounds h
  refine ⟨toBits q, value_round ?_, toBits_nonneg h, hbound⟩
  rw [abs_of_nonneg (toBits_nonneg h)]
  exact (hbound.trans (hle.trans (le_abs_self p))).trans_lt hp.lt

theorem le_nearest (h : (n : ℚ) ≤ q) : n ≤ nearest q := by
  have hfloor := Int.le_floor.mpr h
  rw [nearest]
  split_ifs
  · exact hfloor
  · omega
  · have := Int.emod_nonneg ⌊q⌋ two_ne_zero
    omega

theorem one_le_toBits (h : 1 ≤ q) : 1 ≤ toBits q := by
  have hpos := two_zpow_pos (exponent q)
  rw [toBits]
  by_cases hint : exponent q ≤ 0
  · -- one is a multiple of the last bit
    have hone : (((2 ^ (-exponent q).toNat : ℤ) : ℚ)) * 2 ^ exponent q = 1 := by
      push_cast
      rw [← zpow_natCast, Int.toNat_of_nonneg (by omega), ← zpow_add₀ two_ne_zero, neg_add_cancel,
        zpow_zero]
    have hle : ((2 ^ (-exponent q).toNat : ℤ) : ℚ) ≤ q / 2 ^ exponent q := by
      rw [le_div_iff₀ hpos, hone]
      exact h
    calc (1 : ℚ) = ((2 ^ (-exponent q).toNat : ℤ) : ℚ) * 2 ^ exponent q := hone.symm
      _ ≤ nearest (q / 2 ^ exponent q) * 2 ^ exponent q :=
        mul_le_mul_of_nonneg_right (Int.cast_le.mpr (le_nearest hle)) hpos.le
  · have hlog : exponent q ≤ Int.log 2 |q| := by
      rw [exponent] at hint ⊢
      omega
    have hself : (2 : ℚ) ^ exponent q ≤ q := by
      calc (2 : ℚ) ^ exponent q ≤ 2 ^ Int.log 2 |q| := zpow_le_zpow_right₀ one_le_two hlog
        _ ≤ |q| := Int.zpow_log_le_self one_lt_two (abs_pos.mpr (by linarith))
        _ = q := abs_of_nonneg (by linarith)
    have hnear : 1 ≤ nearest (q / 2 ^ exponent q) := by
      apply le_nearest
      rw [Int.cast_one, le_div_iff₀ hpos, one_mul]
      exact hself
    have hmant : (1 : ℚ) ≤ nearest (q / 2 ^ exponent q) := by exact_mod_cast hnear
    exact one_le_mul_of_one_le_of_one_le hmant (one_le_zpow₀ one_le_two (by omega))

/-- `x` is an integer that is not below `n`, or too large for one. -/
def AtLeast (n : ℤ) (x : Double) : Prop := x = inf false ∨ ∃ k : ℤ, x.Is k ∧ n ≤ k

theorem AtLeast.not_equal_zero (h : AtLeast n x) (hn : 0 < n) : x.equal 0 = false := by
  have hzero : (0 : Double).Is 0 := is_ofNat 0 (by norm_num)
  obtain rfl | ⟨k, hk, hle⟩ := h
  · decide +kernel
  · rw [← Bool.not_eq_true, hk.equal_iff hzero]
    omega

theorem AtLeast.le_of_is (h : AtLeast n x) (hy : y.Is m) (hmn : m ≤ n) : y.le x = true := by
  obtain rfl | ⟨k, hk, hle⟩ := h
  · obtain ⟨_, rfl⟩ := value_eq_some_iff.mp hy
    rfl
  · exact (hy.le_iff hk).mpr (hmn.trans hle)

theorem atLeast_round (hm : 0 ≤ m) (hle : m ≤ 2 ^ 53) (h : m ≤ n) : AtLeast m (round n) := by
  by_cases hlarge : 2 ^ 53 < n
  · obtain hinf | ⟨k, hk, hround⟩ := intCast_of_lt hlarge
    · exact .inl hinf
    · exact .inr ⟨k, hround, hle.trans hk⟩
  · exact .inr ⟨n, is_round (by rw [abs_of_nonneg] <;> omega), h⟩

theorem AtLeast.add (hx : AtLeast m x) (hy : AtLeast n y) (h0 : 0 ≤ m + n) (h : m + n ≤ 2 ^ 53) :
    AtLeast (m + n) (x + y) := by
  obtain rfl | ⟨k, hk, hmk⟩ := hx
  · obtain rfl | ⟨l, hl, -⟩ := hy
    · exact .inl rfl
    · obtain ⟨_, rfl⟩ := value_eq_some_iff.mp hl
      exact .inl rfl
  · obtain rfl | ⟨l, hl, hnl⟩ := hy
    · obtain ⟨_, rfl⟩ := value_eq_some_iff.mp hk
      exact .inl rfl
    · rw [add_of_value hk hl, ← Int.cast_add]
      exact atLeast_round h0 h (by omega)

theorem inf_mul_of_pos (hq : IsDouble q) (h : 0 < q) : inf false * fin q hq = inf false := by
  change (if q = 0 then nan else inf (false != decide (q < 0))) = _
  rw [if_neg h.ne', decide_eq_false (not_lt.mpr h.le)]
  rfl

theorem mul_inf_of_pos (hq : IsDouble q) (h : 0 < q) : fin q hq * inf false = inf false := by
  change (if q = 0 then nan else inf (decide (q < 0) != false)) = _
  rw [if_neg h.ne', decide_eq_false (not_lt.mpr h.le)]
  rfl

theorem inf_div_of_pos (s : Bool) (hq : IsDouble q) (h : 0 < q) : inf s / fin q hq = inf s := by
  change inf (s != decide (q < 0)) = _
  rw [decide_eq_false (not_lt.mpr h.le), Bool.bne_false]

theorem AtLeast.mul (hx : AtLeast 1 x) (hy : AtLeast 1 y) : AtLeast 1 (x * y) := by
  have hpos {k : ℤ} (h : 1 ≤ k) : (0 : ℚ) < k := Int.cast_pos.mpr h
  obtain rfl | ⟨k, hk, hk1⟩ := hx
  · obtain rfl | ⟨l, hl, hl1⟩ := hy
    · exact .inl rfl
    · obtain ⟨hq, rfl⟩ := value_eq_some_iff.mp hl
      exact .inl (inf_mul_of_pos hq (hpos hl1))
  · obtain rfl | ⟨l, hl, hl1⟩ := hy
    · obtain ⟨hq, rfl⟩ := value_eq_some_iff.mp hk
      exact .inl (mul_inf_of_pos hq (hpos hk1))
    · rw [mul_of_value hk hl, ← Int.cast_mul]
      have : 1 * 1 ≤ k * l := Int.mul_le_mul hk1 hl1 (by omega) (by omega)
      exact atLeast_round (by norm_num) (by norm_num) this

theorem Whole.atLeast_one (h : Whole x) (hne : x ≠ nan) : AtLeast 1 (Double.max 1 x) := by
  have hone : (1 : Double).Is 1 := is_ofNat 1 (by norm_num)
  cases x with
  | nan => exact absurd rfl hne
  | inf s =>
    cases s with
    | false => exact .inl (by decide +kernel)
    | true => exact .inr ⟨1, by decide +kernel⟩
  | fin q hq =>
    obtain ⟨n, hn⟩ := h q rfl
    exact .inr ⟨_, hone.max hn, le_max_left _ _⟩

@[simp] theorem max_nan (x : Double) : Double.max x nan = nan := if_pos (.inr rfl)

theorem round_ne_nan (q : ℚ) : round q ≠ nan := by
  rw [round]
  split_ifs
  · exact Double.noConfusion
  · exact Double.noConfusion

theorem floor_ne_nan (h : x ≠ nan) : x.floor ≠ nan := by
  cases x with
  | nan => exact h
  | inf s => exact h
  | fin q hq => exact round_ne_nan _

theorem ceil_ne_nan (h : x ≠ nan) : x.ceil ≠ nan := by
  cases x with
  | nan => exact h
  | inf s => exact h
  | fin q hq => exact round_ne_nan _

/-! ## Quotients -/

/-- A quotient of integers lies on an integer or apart from it by what the denominator allows. -/
theorem one_div_le_of_lt {a b c : ℤ} (hb : 0 < b) (h : (a : ℚ) / b < c) :
    1 / (b : ℚ) ≤ c - a / b := by
  have hbq : (0 : ℚ) < b := Int.cast_pos.mpr hb
  rw [div_lt_iff₀ hbq] at h
  have hint : a < c * b := by exact_mod_cast h
  have hone : (a : ℚ) + 1 ≤ c * b := by exact_mod_cast hint
  rw [le_sub_iff_add_le, ← add_div, div_le_iff₀ hbq]
  linarith

/-- The rounding of a quotient below 2^53 is nearer than that. -/
theorem abs_toBits_div_sub_lt (h0 : 0 ≤ m) (hm : m < 2 ^ 53) (hn : 0 < n)
    (hnlt : (n : ℚ) < 2 ^ 1024) : |toBits (m / n) - m / n| < 1 / n := by
  have hnq : (0 : ℚ) < n := Int.cast_pos.mpr hn
  have hmq : (0 : ℚ) ≤ m := Int.cast_nonneg h0
  have hmlt : (m : ℚ) < 2 ^ 53 := by exact_mod_cast hm
  rcases abs_toBits_sub_le ((m : ℚ) / n) with hrel | habs
  · refine hrel.trans_lt ?_
    rw [abs_of_nonneg (div_nonneg hmq hnq.le), div_div, div_lt_div_iff₀ (by positivity) hnq]
    nlinarith
  · refine habs.trans_lt ?_
    rw [lt_div_iff₀ hnq]
    calc (2 : ℚ) ^ (-1075 : ℤ) * n < 2 ^ (-1075 : ℤ) * 2 ^ 1024 :=
          mul_lt_mul_of_pos_left hnlt (two_zpow_pos _)
      _ ≤ 1 := by
        rw [← zpow_natCast, ← zpow_add₀ two_ne_zero]
        exact zpow_le_one_of_nonpos₀ one_le_two (by norm_num)

/-- Rounding a quotient below 2^53 does not change the next integer. -/
theorem Is.ceil_div (hx : x.Is m) (hy : y.Is n) (h0 : 0 ≤ m) (hm : m < 2 ^ 53) (hn : 0 < n) :
    (ceil (x / y)).Is ⌈(m : ℚ) / n⌉ := by
  have hnq : (0 : ℚ) < n := Int.cast_pos.mpr hn
  have herr := abs_toBits_div_sub_lt h0 hm hn ((le_abs_self _).trans_lt (isDouble_of_value hy).lt)
  have hle := Int.le_ceil ((m : ℚ) / n)
  rw [abs_lt] at herr
  have hlow : 1 / (n : ℚ) ≤ m / n - (⌈(m : ℚ) / n⌉ - 1) := by
    have hlt : ((-m : ℤ) : ℚ) / n < ((1 - ⌈(m : ℚ) / n⌉ : ℤ) : ℚ) := by
      have := Int.ceil_lt_add_one ((m : ℚ) / n)
      push_cast
      rw [neg_div]
      linarith
    have := one_div_le_of_lt hn hlt
    push_cast at this
    rw [neg_div] at this
    linarith
  have hceil : ⌈toBits (m / n)⌉ = ⌈(m : ℚ) / n⌉ := by
    rw [Int.ceil_eq_iff]
    refine ⟨by linarith, ?_⟩
    rcases hle.eq_or_lt with heq | hlt
    · -- an integer is its own rounding
      have hint : |⌈(m : ℚ) / n⌉| ≤ 2 ^ 53 := by
        have hnonneg : 0 ≤ (m : ℚ) / n := div_nonneg (Int.cast_nonneg h0) hnq.le
        have hmul : ⌈(m : ℚ) / n⌉ * n = m := by
          have : (⌈(m : ℚ) / n⌉ : ℚ) * n = m := by rw [← heq, div_mul_cancel₀ _ hnq.ne']
          exact_mod_cast this
        rw [abs_of_nonneg (Int.ceil_nonneg hnonneg)]
        nlinarith [Int.ceil_nonneg hnonneg]
      have hself := toBits_eq (isDouble_intCast hint)
      rw [← heq] at hself ⊢
      exact hself.le
    · have := one_div_le_of_lt hn hlt
      linarith
  have hlt : |toBits ((m : ℚ) / n)| < 2 ^ 1024 := by
    have hnonneg : 0 ≤ (m : ℚ) / n := div_nonneg (Int.cast_nonneg h0) hnq.le
    rw [abs_of_nonneg (toBits_nonneg hnonneg)]
    have hone : 1 / (n : ℚ) ≤ 1 := by
      rw [div_le_one hnq]
      exact_mod_cast hn
    have hmn : (m : ℚ) / n ≤ m := div_le_self (Int.cast_nonneg h0) (by exact_mod_cast hn)
    have hmlt : (m : ℚ) < 2 ^ 53 := by exact_mod_cast hm
    have hsmall : toBits ((m : ℚ) / n) < 2 ^ 54 := by linarith
    exact hsmall.trans (pow_lt_pow_right₀ one_lt_two (by norm_num))
  rw [div_of_value hx hy hnq.ne', ← hceil]
  exact is_ceil (value_round hlt)

end Double

end MiniFs.Library
