/-
The order of decimals under the context's rounding.

Rounding to 28 digits does not cross a number that 28 digits hold
(`kept_le`, `le_kept`) and keeps the order of numbers that are not negative
(`kept_mono`). `fix`, which rounds a sum, goes by the value alone
(`val_fix_eq`).
-/
import Falaron.Py.DecimalText

namespace Py

namespace Decimal

/-- What the context keeps of a number. -/
def kept (x : Rat) : Rat := (round x).val

/-- The number at this many places. -/
def atPlaces (places : Nat) (x : Rat) : Rat := roundHalfEven (x * 10 ^ places) / 10 ^ places

/-- The exponent of the last of 28 digits. -/
def lastDigit (x : Rat) : Int := Int.log 10 |x| + 1 - prec

theorem kept_eq (x : Rat) : kept x = roundHalfEven (x / 10 ^ lastDigit x) * 10 ^ lastDigit x := rfl

/-- The first of the digits is not zero. -/
theorem first_digit_le {x : Rat} (hx : x ≠ 0) : (10 : Rat) ^ ((prec : Int) - 1 + lastDigit x) ≤ |x| := by
  have hlog : (prec : Int) - 1 + lastDigit x = Int.log 10 |x| := by
    unfold lastDigit
    omega
  rw [hlog]
  exact_mod_cast Int.zpow_log_le_self (by decide) (abs_pos.mpr hx)

theorem kept_zero : kept 0 = 0 := by
  simp [kept_eq, show roundHalfEven 0 = 0 from roundHalfEven_int 0]

theorem kept_of_exact {x : Rat} (h : Exact x) : kept x = x := by
  by_cases hx : x = 0
  · rw [hx, kept_zero]
  obtain ⟨n, hn⟩ := h.multiple (first_digit_le hx)
  have hdigits : x / 10 ^ lastDigit x = n := by
    rw [div_eq_iff (ten_pow_pos _).ne']
    exact hn
  rw [kept_eq, hdigits, roundHalfEven_int]
  exact hn.symm

/-- Rounding does not cross a number that 28 digits hold. -/
theorem kept_le {x y : Rat} (hy : Exact y) (h0 : 0 ≤ y) (h : x ≤ y) : kept x ≤ y := by
  rw [kept_eq]
  rcases le_or_gt x 0 with hneg | hpos
  · have hdigits : x / 10 ^ lastDigit x ≤ (0 : Int) := by
      exact_mod_cast div_nonpos_of_nonpos_of_nonneg hneg (ten_pow_pos _).le
    have hr : (roundHalfEven (x / 10 ^ lastDigit x) : Rat) ≤ 0 := by exact_mod_cast roundHalfEven_le hdigits
    exact (mul_nonpos_of_nonpos_of_nonneg hr (ten_pow_pos _).le).trans h0
  · have hle : |x| ≤ |y| := by rwa [abs_of_pos hpos, abs_of_nonneg h0]
    obtain ⟨n, hn⟩ := hy.multiple ((first_digit_le hpos.ne').trans hle)
    have hdigits : x / 10 ^ lastDigit x ≤ n := (div_le_iff₀ (ten_pow_pos _)).mpr (hn ▸ h)
    have hr : (roundHalfEven (x / 10 ^ lastDigit x) : Rat) ≤ n := by exact_mod_cast roundHalfEven_le hdigits
    rw [hn]
    exact mul_le_mul_of_nonneg_right hr (ten_pow_pos _).le

theorem le_kept {x y : Rat} (hy : Exact y) (h0 : 0 ≤ y) (h : y ≤ x) : y ≤ kept x := by
  by_cases hx : x = 0
  · rw [hx, kept_zero]
    exact hx ▸ h
  have hpos : 0 < x := lt_of_le_of_ne (h0.trans h) (Ne.symm hx)
  have hfirst := first_digit_le hx
  rw [kept_eq]
  rcases le_total ((10 : Rat) ^ ((prec : Int) - 1 + lastDigit x)) y with hbound | hbound
  · obtain ⟨n, hn⟩ := hy.multiple (hbound.trans (le_abs_self y))
    have hdigits : (n : Rat) ≤ x / 10 ^ lastDigit x := (le_div_iff₀ (ten_pow_pos _)).mpr (hn ▸ h)
    have hr : (n : Rat) ≤ roundHalfEven (x / 10 ^ lastDigit x) := by exact_mod_cast le_roundHalfEven hdigits
    rw [hn]
    exact mul_le_mul_of_nonneg_right hr (ten_pow_pos _).le
  · refine hbound.trans ?_
    have hprec : (10 : Rat) ^ ((prec : Int) - 1) = ((10 ^ 27 : Int) : Rat) := by norm_num [prec]
    rw [abs_of_pos hpos, zpow_add₀ (by norm_num), ← le_div_iff₀ (ten_pow_pos _), hprec] at hfirst
    rw [zpow_add₀ (by norm_num), hprec]
    exact mul_le_mul_of_nonneg_right (Int.cast_le.mpr (le_roundHalfEven hfirst)) (ten_pow_pos _).le

theorem exact_zpow (e : Int) : Exact (10 ^ e) := ⟨1, e, by decide, by simp⟩

theorem exact_zero : Exact 0 := ⟨0, 0, by decide, by simp⟩

theorem kept_nonneg {x : Rat} (h : 0 ≤ x) : 0 ≤ kept x := le_kept exact_zero le_rfl h

theorem kept_nonpos {x : Rat} (h : x ≤ 0) : kept x ≤ 0 := kept_le exact_zero le_rfl h

/-- Rounding keeps the order. -/
theorem kept_mono {x y : Rat} (h0 : 0 ≤ x) (h : x ≤ y) : kept x ≤ kept y := by
  rcases h0.eq_or_lt with rfl | hx
  · rw [kept_zero]
    exact kept_nonneg h
  have hlog : Int.log 10 |x| ≤ Int.log 10 |y| := by
    rw [abs_of_pos hx, abs_of_pos (hx.trans_le h)]
    exact Int.log_mono_right hx h
  rcases hlog.eq_or_lt with hsame | hless
  · have hlast : lastDigit x = lastDigit y := by rw [lastDigit, lastDigit, hsame]
    rw [kept_eq, kept_eq, hlast]
    have hdigits := div_le_div_of_nonneg_right h (ten_pow_pos (lastDigit y)).le
    exact mul_le_mul_of_nonneg_right (by exact_mod_cast roundHalfEven_mono hdigits) (ten_pow_pos _).le
  · -- A power of ten lies between the two.
    have hbelow : x ≤ 10 ^ Int.log 10 |y| := by
      have hlt : |x| < 10 ^ (Int.log 10 |x| + 1) := by exact_mod_cast Int.lt_zpow_succ_log_self (by decide) |x|
      refine (le_abs_self x).trans (hlt.le.trans ?_)
      exact zpow_le_zpow_right₀ (by norm_num) (by omega)
    have habove : 10 ^ Int.log 10 |y| ≤ y := by
      rw [abs_of_pos (hx.trans_le h)]
      exact_mod_cast Int.zpow_log_le_self (by decide) (hx.trans_le h)
    have hnonneg := (ten_pow_pos (Int.log 10 |y|)).le
    exact (kept_le (exact_zpow _) hnonneg hbelow).trans (le_kept (exact_zpow _) hnonneg habove)

theorem log_val {d : Decimal} (h : d.coeff ≠ 0) : Int.log 10 |d.val| = Nat.log 10 d.coeff.natAbs + d.exp := by
  have hcoeff : (0 : Rat) < d.coeff.natAbs := by exact_mod_cast Int.natAbs_pos.mpr h
  have habs : |d.val| = d.coeff.natAbs * 10 ^ d.exp := by
    rw [val, abs_mul, abs_of_pos (ten_pow_pos _), Nat.cast_natAbs, Int.cast_abs]
  refine eq_of_forall_le_iff fun z => ?_
  have hz : (10 : Rat) ^ z ≤ |d.val| ↔ (10 : Rat) ^ (z - d.exp) ≤ d.coeff.natAbs := by
    rw [habs, zpow_sub₀ (by norm_num), div_le_iff₀ (ten_pow_pos _)]
  have hval := Int.zpow_le_iff_le_log (R := Rat) (b := 10) (x := z) (by decide) (habs ▸ mul_pos hcoeff (ten_pow_pos _))
  have hnat := Int.zpow_le_iff_le_log (R := Rat) (b := 10) (x := z - d.exp) (by decide) hcoeff
  rw [Int.log_natCast] at hnat
  push_cast at hval hnat
  rw [← hval, hz, hnat]
  omega

/-- A sum is rounded by its value. -/
theorem val_fix_eq (d : Decimal) : d.fix.val = kept d.val := by
  by_cases hbig : d.coeff.natAbs < 10 ^ prec
  · have hexact : Exact d.val := ⟨d.coeff, d.exp, hbig, rfl⟩
    rw [fix, if_pos hbig, kept_of_exact hexact]
  have hne : d.coeff ≠ 0 := fun h0 => hbig (by rw [h0]; decide)
  have hlong : prec ≤ Nat.log 10 d.coeff.natAbs :=
    (Nat.le_log_iff_pow_le (by decide) (Int.natAbs_ne_zero.mpr hne)).mpr (Nat.le_of_not_lt hbig)
  have hlast : lastDigit d.val = d.exp + (Nat.log 10 d.coeff.natAbs + 1 - prec : Nat) := by
    rw [lastDigit, log_val hne]
    omega
  rw [fix, if_neg hbig, kept_eq, hlast]
  conv_rhs => rw [val_div d (Nat.log 10 d.coeff.natAbs + 1 - prec), mul_div_cancel_right₀ _ (ten_pow_pos _).ne']
  rfl

/-! ## Quantizing -/

theorem val_quantize {places : Nat} {x : Rat} {d : Decimal} (h : quantize places x = some d) :
    d.val = atPlaces places x ∧ d.exp = -places ∧ d.coeff.natAbs < 10 ^ prec := by
  unfold quantize at h
  dsimp only at h
  split at h
  · next hdigits =>
    cases h
    refine ⟨?_, rfl, hdigits⟩
    rw [val, atPlaces, zpow_neg, zpow_natCast, div_eq_mul_inv]
  · cases h

/-- What has so many places is quantized to itself, or has too many digits. -/
theorem quantize_int (places : Nat) (n : Int) :
    quantize places (n / 10 ^ places) = if n.natAbs < 10 ^ prec then some ⟨n, -places⟩ else none := by
  rw [quantize, div_mul_cancel₀ _ (by positivity), roundHalfEven_int]

theorem atPlaces_mono {places : Nat} {x y : Rat} (h : x ≤ y) : atPlaces places x ≤ atPlaces places y := by
  have hpos : (0 : Rat) < 10 ^ places := by positivity
  refine div_le_div_of_nonneg_right (Int.cast_le.mpr (roundHalfEven_mono ?_)) hpos.le
  exact mul_le_mul_of_nonneg_right h hpos.le

theorem atPlaces_int (places : Nat) (n : Int) : atPlaces places (n / 10 ^ places) = n / 10 ^ places := by
  rw [atPlaces, div_mul_cancel₀ _ (by positivity), roundHalfEven_int]

end Decimal

end Py
