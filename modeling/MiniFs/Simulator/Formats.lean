import MiniFs.Simulator.Tracking

/-! # Which sizes the page formats

Up to the rounding of the two shares, a disk needs four blocks of at least the size of
an inode. No comparison with NaN rejects anything, and of infinitely many blocks
the shares are NaN if a block has infinitely many bits.
-/

set_option autoImplicit false

namespace MiniFs.Simulator.Numbers
open Library

variable {t b x : Double} {q r : ℚ} {k : ℤ} {fs : FS} {ts : JsString}

/-- The blocks are smaller than an inode, or fewer than four. Infinitely many are too
few unless a block has infinitely many bits. -/
def Refused (t b : Double) : Prop :=
  b.lt 144 = true ∨ (∃ q, (t / b).value = some q ∧ q < 4) ∨
    (∃ s, t / b = .inf s) ∧ ∃ q, (b * 8).value = some q

/-! ## Block sizes -/

theorem blockSize_cases (h : b.lt 144 = false) :
    b = .nan ∨ b = .inf false ∨ ∃ r, b.value = some r ∧ 144 ≤ r := by
  obtain ⟨_, h144⟩ := Double.value_eq_some_iff.mp (Double.is_ofNat 144 (by norm_num))
  cases b with
  | nan => exact .inl rfl
  | inf s =>
    rw [h144] at h
    exact .inr (.inl (congrArg Double.inf h))
  | fin r hr =>
    rw [h144] at h
    exact .inr (.inr ⟨r, rfl, not_lt.mp (of_decide_eq_false h)⟩)

theorem bits_cases (h : b.lt 144 = false) (hne : b ≠ .nan) :
    b * 8 = .inf false ∨ ∃ c, (b * 8).value = some c ∧ 1000 ≤ c := by
  obtain rfl | rfl | ⟨r, hr, hle⟩ := blockSize_cases h
  · exact absurd rfl hne
  · exact .inl (by decide +kernel)
  · have hmul : b * 8 = .round (r * 8) := Double.mul_of_value hr (Double.is_ofNat 8 (by norm_num))
    obtain ⟨hlow, -⟩ := Double.toBits_bounds (q := r * 8) (by linarith)
    rw [hmul]
    obtain hround | hinf := Double.round_cases (r * 8)
    · exact .inr ⟨_, hround, by linarith⟩
    · rw [decide_eq_false (by linarith)] at hinf
      exact .inl hinf

theorem perBlock_cases (h : b.lt 144 = false) (hne : b ≠ .nan) :
    Double.AtLeast 1 (b / 144).floor := by
  have h144 : (144 : Double).Is 144 := Double.is_ofNat 144 (by norm_num)
  obtain rfl | rfl | ⟨r, hr, hle⟩ := blockSize_cases h
  · exact absurd rfl hne
  · exact .inl (by decide +kernel)
  · have hdiv : b / 144 = .round (r / 144) := Double.div_of_value hr h144 (by norm_num)
    have hone : (1 : ℚ) ≤ r / 144 := by
      rw [le_div_iff₀ (by norm_num)]
      linarith
    rw [hdiv]
    obtain hround | hinf := Double.round_cases (r / 144)
    · refine .inr ⟨_, Double.is_floor hround, Int.le_floor.mpr ?_⟩
      rw [Int.cast_one]
      exact Double.one_le_toBits hone
    · rw [decide_eq_false (by linarith)] at hinf
      rw [hinf]
      exact .inl rfl

theorem inodeBlocks_cases (t b : Double) :
    inodeBlocks t b = .nan ∨ Double.AtLeast 1 (inodeBlocks t b) := by
  rw [inodeBlocks]
  by_cases hnan : (totalBlocks t b / 10).floor = .nan
  · rw [hnan]
    exact .inl (Double.max_nan _)
  · exact .inr ((Double.whole_floor _).atLeast_one hnan)

theorem maxInodes_not_zero (h : b.lt 144 = false) : (maxInodes t b).equal 0 = false := by
  have hnan : (Double.nan).equal 0 = false := rfl
  rw [maxInodes]
  obtain hno | hone := inodeBlocks_cases t b
  · rw [hno, Double.mul_nan, hnan]
  · by_cases hne : b = .nan
    · have hnone : (Double.nan).floor = .nan := rfl
      rw [hne, Double.nan_div, hnone, Double.nan_mul, hnan]
    · exact ((perBlock_cases h hne).mul hone).not_equal_zero one_pos

/-! ## Finitely many blocks -/

section Finite
variable (hT : (totalBlocks t b).Is k) (h : b.lt 144 = false) (hne : b ≠ .nan)
include hT

/-- The share of the bitmap before it is rounded up. -/
theorem bitmapQuotient (hbits : b * 8 = .inf false ∨ ∃ c, (b * 8).value = some c ∧ 1000 ≤ c) :
    totalBlocks t b / (b * 8) = 0 ∨
      ∃ c, 1000 ≤ c ∧ totalBlocks t b / (b * 8) = .round (k / c) := by
  obtain hinf | ⟨c, hc, hle⟩ := hbits
  · obtain ⟨_, hfin⟩ := Double.value_eq_some_iff.mp hT
    rw [hinf, hfin]
    exact .inl rfl
  · exact .inr ⟨c, hle, Double.div_of_value hT hc (by linarith)⟩

theorem inodeQuotient : totalBlocks t b / 10 = .round (k / 10) :=
  Double.div_of_value hT (Double.is_ofNat 10 (by norm_num)) (by norm_num)

include h hne

theorem le_dataStart (hk : k < 4) : (totalBlocks t b).le (dataStart t b) = true := by
  have hone : Double.AtLeast 1 1 := .inr ⟨1, Double.is_ofNat 1 (by norm_num), le_rfl⟩
  have hbitmap : Double.AtLeast 1 (bitmapBlocks t b) := by
    refine (Double.whole_ceil _).atLeast_one (Double.ceil_ne_nan ?_)
    obtain hzero | ⟨c, -, hround⟩ := bitmapQuotient hT (bits_cases h hne)
    · rw [hzero]
      exact (Double.is_ofNat 0 (by norm_num) : (0 : Double).Is 0).ne_nan
    · rw [hround]
      exact Double.round_ne_nan _
  have hinode : Double.AtLeast 1 (inodeBlocks t b) := by
    refine (Double.whole_floor _).atLeast_one (Double.floor_ne_nan ?_)
    rw [inodeQuotient hT]
    exact Double.round_ne_nan _
  have hstart : Double.AtLeast 3 (dataStart t b) :=
    (hone.add hbitmap (by norm_num) (by norm_num)).add hinode (by norm_num) (by norm_num)
  exact hstart.le_of_is hT (by omega)

theorem bitmapBlocks_le (hk : 4 ≤ k) :
    ∃ m : ℤ, (bitmapBlocks t b).Is m ∧ 1 ≤ m ∧ (m : ℚ) ≤ k / 900 + 1.001 := by
  have hone : (1 : Double).Is 1 := Double.is_ofNat 1 (by norm_num)
  have hkq : (4 : ℚ) ≤ k := by exact_mod_cast hk
  have hdouble : IsDouble (k : ℚ) := Double.isDouble_of_value hT
  obtain ⟨v, hv, hle⟩ : ∃ v, (totalBlocks t b / (b * 8)).value = some v ∧ v ≤ k / 900 + 0.001 := by
    obtain hzero | ⟨c, hc, hround⟩ := bitmapQuotient hT (bits_cases h hne)
    · refine ⟨0, ?_, by linarith⟩
      rw [hzero]
      exact Double.is_ofNat 0 (by norm_num)
    · have hle : (k : ℚ) / c ≤ k / 1000 := div_le_div_of_nonneg_left (by linarith) (by norm_num) hc
      obtain ⟨v, hv, -, hbound⟩ := Double.exists_round_le (q := (k : ℚ) / c)
        (div_nonneg (by linarith) (by linarith)) hdouble (by linarith)
      rw [hround]
      exact ⟨v, hv, by linarith⟩
  refine ⟨max 1 ⌈v⌉, hone.max (Double.is_ceil hv), le_max_left _ _, ?_⟩
  rcases max_choice 1 ⌈v⌉ with heq | heq
  · rw [heq, Int.cast_one]
    linarith
  · rw [heq]
    have := Int.ceil_lt_add_one v
    linarith

omit h hne in
theorem inodeBlocks_le (hk : 4 ≤ k) :
    ∃ i : ℤ, (inodeBlocks t b).Is i ∧ 1 ≤ i ∧ (i ≤ 1 ∨ (i : ℚ) ≤ 0.1001 * k + 0.001) := by
  have hone : (1 : Double).Is 1 := Double.is_ofNat 1 (by norm_num)
  have hkq : (4 : ℚ) ≤ k := by exact_mod_cast hk
  have hdouble : IsDouble (k : ℚ) := Double.isDouble_of_value hT
  obtain ⟨v, hv, -, hle⟩ := Double.exists_round_le (q := (k : ℚ) / 10) (by linarith) hdouble
    (by linarith)
  rw [← inodeQuotient hT] at hv
  refine ⟨max 1 ⌊v⌋, hone.max (Double.is_floor hv), le_max_left _ _, ?_⟩
  rcases max_choice 1 ⌊v⌋ with heq | heq
  · exact .inl heq.le
  · rw [heq]
    have := Int.floor_le v
    exact .inr (by linarith)

theorem not_le_dataStart (hk : 4 ≤ k) : (totalBlocks t b).le (dataStart t b) = false := by
  obtain ⟨m, hm, hm1, hmle⟩ := bitmapBlocks_le hT h hne hk
  obtain ⟨i, hi, hi1, hile⟩ := inodeBlocks_le hT hk
  have hone : (1 : Double).Is 1 := Double.is_ofNat 1 (by norm_num)
  have hkq : (4 : ℚ) ≤ k := by exact_mod_cast hk
  have hm1q : (1 : ℚ) ≤ m := by exact_mod_cast hm1
  have hi1q : (1 : ℚ) ≤ i := by exact_mod_cast hi1
  have hdouble : IsDouble (k : ℚ) := Double.isDouble_of_value hT
  have hile' : (i : ℚ) ≤ 1 ∨ (i : ℚ) ≤ 0.1001 * k + 0.001 :=
    hile.imp_left fun hle => by exact_mod_cast hle
  -- both sums stay below `k`, rounded as they are
  obtain ⟨s, hs, hs0, hsle⟩ := Double.exists_round_le (q := ((1 : ℤ) : ℚ) + m)
    (by push_cast; linarith) hdouble (by push_cast; linarith)
  rw [← Double.add_of_value hone hm] at hs
  push_cast at hsle
  obtain ⟨d, hd, -, hdle⟩ := Double.exists_round_le (q := s + i) (by linarith) hdouble
    (by rcases hile' with hle | hle <;> linarith)
  rw [← Double.add_of_value hs hi] at hd
  obtain ⟨_, htotal⟩ := Double.value_eq_some_iff.mp hT
  obtain ⟨_, hstart⟩ := Double.value_eq_some_iff.mp hd
  rw [dataStart, htotal, hstart]
  refine decide_eq_false (not_le.mpr ?_)
  rcases hile' with hle | hle <;> linarith

end Finite

/-! ## The check -/

/-- Infinitely many blocks. -/
theorem le_dataStart_iff_of_inf {s : Bool} (h : b.lt 144 = false) (hx : t / b = .inf s) :
    (totalBlocks t b).le (dataStart t b) = true ↔ ∃ q, (b * 8).value = some q := by
  have hT : totalBlocks t b = .inf s := by
    rw [totalBlocks, hx]
    rfl
  have hne : b ≠ .nan := by
    rintro rfl
    rw [Double.div_nan] at hx
    cases hx
  rcases bits_cases h hne with hinf | ⟨c, hc, hc1000⟩
  · -- the share of the bitmap is NaN
    have hshare : bitmapBlocks t b = .nan := by
      rw [bitmapBlocks, hT, hinf]
      cases s <;> decide +kernel
    rw [dataStart, hshare, Double.add_nan, Double.nan_add, Double.le_nan, hinf]
    exact iff_of_false Bool.false_ne_true (by simp)
  · refine iff_of_true ?_ ⟨c, hc⟩
    obtain ⟨hdouble, hbits⟩ := Double.value_eq_some_iff.mp hc
    have hshare : totalBlocks t b / (b * 8) = .inf s := by
      rw [hT, hbits, Double.inf_div_of_pos s hdouble (by linarith)]
    rw [dataStart, bitmapBlocks, inodeBlocks, hshare, hT]
    cases s <;> decide +kernel

theorem le_dataStart_iff (h : b.lt 144 = false) : (totalBlocks t b).le (dataStart t b) = true ↔
    (∃ q, (t / b).value = some q ∧ q < 4) ∨
      (∃ s, t / b = .inf s) ∧ ∃ q, (b * 8).value = some q := by
  cases hx : t / b with
  | nan =>
    have hnone : (Double.nan).floor = .nan := rfl
    rw [totalBlocks, hx, hnone, Double.nan_le]
    exact iff_of_false Bool.false_ne_true (by simp)
  | inf s =>
    rw [le_dataStart_iff_of_inf h hx]
    simp
  | fin q hq =>
    have hne : b ≠ .nan := by
      rintro rfl
      rw [Double.div_nan] at hx
      cases hx
    have hT : (totalBlocks t b).Is ⌊q⌋ := Double.is_floor (by rw [hx]; rfl)
    have hiff : (∃ p, (Double.fin q hq).value = some p ∧ p < 4) ∨
        (∃ s, Double.fin q hq = .inf s) ∧ (∃ q, (b * 8).value = some q) ↔ q < 4 := by
      simp
    rw [hiff]
    constructor
    · intro hle
      by_contra hlarge
      have hfour : (4 : ℤ) ≤ ⌊q⌋ := Int.le_floor.mpr (by push_cast; linarith)
      exact Bool.false_ne_true ((not_le_dataStart hT h hne hfour).symm.trans hle)
    · exact fun hlt => le_dataStart hT h hne (Int.floor_lt.mpr (by push_cast; exact hlt))

theorem fsFormat_refused_iff (ts : JsString) (t b : Double) (fs : FS) :
    (fsFormat ts t b fs).1.ok = false ↔ Refused t b := by
  rw [Refused, fsFormat]
  split_ifs with hsize
  · exact iff_of_true rfl (.inl hsize)
  · have hb := Bool.eq_false_of_not_eq_true hsize
    rw [or_iff_right hsize, ← le_dataStart_iff hb]
    simp only
    split_ifs with hroom hmax
    · exact iff_of_true rfl hroom
    · exact absurd ((maxInodes_not_zero hb).symm.trans hmax) Bool.false_ne_true
    · exact iff_of_false not_false hroom

theorem fsFormat_refused (h : (fsFormat ts t b fs).1.ok = false) :
    (fsFormat ts t b fs).2 = fs := by
  rw [fsFormat] at h ⊢
  split_ifs at h ⊢ with hsize
  · rfl
  · simp only at h ⊢
    split_ifs at h ⊢
    · rfl
    · rfl

end MiniFs.Simulator.Numbers
