/-
Python's `decimal`: finite decimal numbers, their sums in the default context
of 28 digits, and what a `NUMERIC` column keeps of one.

A sum is exact as long as 28 digits hold it (`val_add`). A column rounds ties
away from zero, so on sums of non-negative numbers it rounds what is added
(`halfAway_int_add`), and on differences it does not.
-/
import Falaron.Py.Number
import Mathlib.Algebra.Order.Field.Power
import Mathlib.Tactic.FieldSimp

namespace Py

/-- A finite `Decimal`: `coeff * 10 ** exp`. -/
structure Decimal where
  coeff : Int
  exp : Int
  deriving DecidableEq, Repr

namespace Decimal

def val (d : Decimal) : Rat := d.coeff * 10 ^ d.exp

/-- `str(d)` -/
def str (d : Decimal) : String :=
  let digits := toString d.coeff.natAbs
  let leftDigits : Int := d.exp + digits.length
  let dotPlace : Int := if d.exp ≤ 0 ∧ -6 < leftDigits then leftDigits else 1
  let zeros (n : Int) : String := .ofList (List.replicate n.toNat '0')
  let mantissa :=
    if dotPlace ≤ 0 then "0." ++ zeros (-dotPlace) ++ digits
    else if digits.length ≤ dotPlace then digits ++ zeros (dotPlace - digits.length)
    else .ofList (digits.toList.take dotPlace.toNat) ++ "." ++ .ofList (digits.toList.drop dotPlace.toNat)
  let e := leftDigits - dotPlace
  let exponent := if e = 0 then "" else if 0 < e then "E+" ++ toString e else "E" ++ toString e
  (if d.coeff < 0 then "-" else "") ++ mantissa ++ exponent

example : (Decimal.mk 1234500 (-4)).str = "123.4500" := by decide +kernel
example : (Decimal.mk (-5) (-9)).str = "-5E-9" := by decide +kernel

/-- The precision of the default context. -/
def prec : Nat := 28

/-- The context's rounding: to `prec` digits, ties to even. -/
def fix (d : Decimal) : Decimal :=
  if d.coeff.natAbs < 10 ^ prec then d
  else
    let k := Nat.log 10 d.coeff.natAbs + 1 - prec
    ⟨roundHalfEven (d.coeff / 10 ^ k), d.exp + k⟩

/-- The coefficient at a smaller exponent. -/
def rescaled (d : Decimal) (e : Int) : Int := d.coeff * 10 ^ (d.exp - e).toNat

/-- The sum before it is rounded. -/
def plus (a b : Decimal) : Decimal :=
  let e := min a.exp b.exp
  ⟨a.rescaled e + b.rescaled e, e⟩

/-- `a + b` -/
def add (a b : Decimal) : Decimal := (a.plus b).fix

def neg (a : Decimal) : Decimal := ⟨-a.coeff, a.exp⟩

/-- `a - b` -/
def sub (a b : Decimal) : Decimal := a.add b.neg

theorem val_rescaled {d : Decimal} {e : Int} (h : e ≤ d.exp) : (d.rescaled e : Rat) * 10 ^ e = d.val := by
  have hexp : (10 : Rat) ^ (d.exp - e).toNat * 10 ^ e = 10 ^ d.exp := by
    rw [← zpow_natCast, ← zpow_add₀ (by norm_num), Int.toNat_of_nonneg (by omega)]
    congr 1
    omega
  simp only [rescaled, val]
  push_cast
  rw [mul_assoc, hexp]

@[simp] theorem val_plus (a b : Decimal) : (a.plus b).val = a.val + b.val := by
  have ha : (a.rescaled (min a.exp b.exp) : Rat) * 10 ^ min a.exp b.exp = a.val := val_rescaled (min_le_left ..)
  have hb : (b.rescaled (min a.exp b.exp) : Rat) * 10 ^ min a.exp b.exp = b.val := val_rescaled (min_le_right ..)
  rw [← ha, ← hb, ← add_mul]
  simp only [plus, val]
  push_cast
  rfl

@[simp] theorem val_neg (a : Decimal) : a.neg.val = -a.val := by
  simp [neg, val]

theorem ten_pow_pos (e : Int) : (0 : Rat) < 10 ^ e := zpow_pos (by norm_num) e

/-- The sign of a decimal is that of its coefficient. -/
theorem val_pos {d : Decimal} : 0 < d.val ↔ 0 < d.coeff := by
  simp only [val, mul_pos_iff_of_pos_right (ten_pow_pos _), Int.cast_pos]

theorem val_nonneg {d : Decimal} : 0 ≤ d.val ↔ 0 ≤ d.coeff := by
  simp only [val, mul_nonneg_iff_of_pos_right (ten_pow_pos _), Int.cast_nonneg_iff]

/-- The context holds the number: 28 digits are enough. -/
def Exact (x : Rat) : Prop := ∃ m e : Int, m.natAbs < 10 ^ prec ∧ x = m * 10 ^ e

end Decimal

theorem roundHalfEven_int (n : Int) : roundHalfEven (n : Rat) = n :=
  le_antisymm (roundHalfEven_le le_rfl) (le_roundHalfEven le_rfl)

namespace Decimal

/-- A large number that 28 digits hold is a multiple of what they can tell apart. -/
theorem Exact.multiple {x : Rat} (h : Exact x) {q : Int} (hx : 10 ^ ((prec : Int) - 1 + q) ≤ |x|) :
    ∃ n : Int, x = n * 10 ^ q := by
  obtain ⟨m, r, hm, rfl⟩ := h
  have hlt : (10 : Rat) ^ ((prec : Int) - 1 + q) < 10 ^ ((prec : Int) + r) := by
    refine hx.trans_lt ?_
    have hm' : |(m : Rat)| < 10 ^ prec := by
      rw [← Int.cast_abs, Int.abs_eq_natAbs]
      exact_mod_cast hm
    rw [abs_mul, abs_of_pos (ten_pow_pos r), zpow_add₀ (by norm_num), zpow_natCast]
    exact mul_lt_mul_of_pos_right hm' (ten_pow_pos r)
  have hqr := (zpow_lt_zpow_iff_right₀ (by norm_num : (1 : Rat) < 10)).1 hlt
  refine ⟨m * 10 ^ (r - q).toNat, ?_⟩
  push_cast
  rw [← zpow_natCast, Int.toNat_of_nonneg (by omega), mul_assoc, ← zpow_add₀ (by norm_num), sub_add_cancel]

/-- What the context does to a number it has to round. -/
theorem fix_of_long {d : Decimal} (h : ¬ d.coeff.natAbs < 10 ^ prec) : ∃ k : Nat,
    d.fix = ⟨roundHalfEven (d.coeff / 10 ^ k), d.exp + k⟩ ∧ 10 ^ (prec - 1) ≤ |(d.coeff / 10 ^ k : Rat)| := by
  refine ⟨Nat.log 10 d.coeff.natAbs + 1 - prec, by rw [fix, if_neg h], ?_⟩
  set k := Nat.log 10 d.coeff.natAbs + 1 - prec
  have hne : d.coeff.natAbs ≠ 0 := fun h0 => h (h0 ▸ by decide)
  have hlog := (Nat.le_log_iff_pow_le (by decide) hne).2 (Nat.le_of_not_lt h)
  have hlow : 10 ^ (prec - 1 + k) ≤ d.coeff.natAbs := by
    rw [← Nat.le_log_iff_pow_le (by decide) hne]
    have hprec : prec = 28 := rfl
    omega
  have hcast : ((10 ^ (prec - 1 + k) : Nat) : Rat) ≤ |(d.coeff : Rat)| := by
    rw [← Int.cast_abs, Int.abs_eq_natAbs]
    exact_mod_cast hlow
  rw [abs_div, abs_of_pos (a := (10 : Rat) ^ k) (by positivity), le_div_iff₀ (by positivity), ← pow_add]
  exact_mod_cast hcast

theorem val_div (d : Decimal) (k : Nat) : d.val = d.coeff / 10 ^ k * 10 ^ (d.exp + k) := by
  rw [val, zpow_add₀ (by norm_num), zpow_natCast]
  field_simp

theorem long_le_abs {d : Decimal} {k : Nat} (h : 10 ^ (prec - 1) ≤ |(d.coeff / 10 ^ k : Rat)|) :
    (10 : Rat) ^ ((prec : Int) - 1 + (d.exp + k)) ≤ |d.val| := by
  rw [val_div d k, abs_mul, abs_of_pos (ten_pow_pos _), zpow_add₀ (by norm_num)]
  exact mul_le_mul_of_nonneg_right (by simpa [prec] using h) (ten_pow_pos _).le

/-- What 28 digits hold is not rounded. -/
theorem val_fix {d : Decimal} (h : Exact d.val) : d.fix.val = d.val := by
  by_cases hbig : d.coeff.natAbs < 10 ^ prec
  · rw [fix, if_pos hbig]
  obtain ⟨k, hfix, hk⟩ := fix_of_long hbig
  obtain ⟨n, hn⟩ := h.multiple (long_le_abs hk)
  have hcoeff : (d.coeff / 10 ^ k : Rat) = n :=
    mul_right_cancel₀ (ten_pow_pos (d.exp + k)).ne' ((val_div d k).symm.trans hn)
  rw [hfix, hn, hcoeff, roundHalfEven_int]
  rfl

/-- Rounding does not cross a number that 28 digits hold. -/
theorem fix_le {d : Decimal} {x : Rat} (hx : Exact x) (h0 : 0 ≤ x) (h : d.val ≤ x) : d.fix.val ≤ x := by
  by_cases hbig : d.coeff.natAbs < 10 ^ prec
  · rwa [fix, if_pos hbig]
  obtain ⟨k, hfix, hk⟩ := fix_of_long hbig
  rw [hfix]
  rcases le_total d.val 0 with hneg | hpos
  · have hc : (d.coeff / 10 ^ k : Rat) ≤ (0 : Int) := by
      rw [val_div d k] at hneg
      exact_mod_cast nonpos_of_mul_nonpos_left hneg (ten_pow_pos (d.exp + k))
    have hr : (roundHalfEven (d.coeff / 10 ^ k) : Rat) ≤ 0 := by exact_mod_cast roundHalfEven_le hc
    exact (mul_nonpos_of_nonpos_of_nonneg hr (ten_pow_pos _).le).trans h0
  · have hle : |d.val| ≤ |x| := by rwa [abs_of_nonneg hpos, abs_of_nonneg h0]
    obtain ⟨n, rfl⟩ := hx.multiple ((long_le_abs hk).trans hle)
    rw [val_div d k] at h
    have hn : (d.coeff / 10 ^ k : Rat) ≤ n := le_of_mul_le_mul_right h (ten_pow_pos _)
    have hr : (roundHalfEven (d.coeff / 10 ^ k) : Rat) ≤ n := by exact_mod_cast roundHalfEven_le hn
    exact mul_le_mul_of_nonneg_right hr (ten_pow_pos _).le

theorem le_fix {d : Decimal} {x : Rat} (hx : Exact x) (h0 : 0 ≤ x) (h : x ≤ d.val) : x ≤ d.fix.val := by
  by_cases hbig : d.coeff.natAbs < 10 ^ prec
  · rwa [fix, if_pos hbig]
  obtain ⟨k, hfix, hk⟩ := fix_of_long hbig
  rw [val_div d k] at h
  have hpos : (0 : Rat) ≤ d.coeff / 10 ^ k :=
    nonneg_of_mul_nonneg_left (h0.trans h) (ten_pow_pos (d.exp + k))
  rw [hfix]
  rcases le_total ((10 : Rat) ^ ((prec : Int) - 1 + (d.exp + k))) x with hbound | hbound
  · obtain ⟨n, rfl⟩ := hx.multiple (hbound.trans (le_abs_self x))
    have hn : (n : Rat) ≤ d.coeff / 10 ^ k := le_of_mul_le_mul_right h (ten_pow_pos _)
    have hr : (n : Rat) ≤ roundHalfEven (d.coeff / 10 ^ k) := by exact_mod_cast le_roundHalfEven hn
    exact mul_le_mul_of_nonneg_right hr (ten_pow_pos _).le
  · refine hbound.trans ?_
    have hr : (10 : Rat) ^ ((prec : Int) - 1) ≤ roundHalfEven (d.coeff / 10 ^ k) := by
      rw [abs_of_nonneg hpos] at hk
      have hr : ((10 ^ (prec - 1) : Int) : Rat) ≤ roundHalfEven (d.coeff / 10 ^ k) :=
        Int.cast_le.2 (le_roundHalfEven (by exact_mod_cast hk))
      push_cast at hr
      exact hr
    rw [zpow_add₀ (by norm_num)]
    exact mul_le_mul_of_nonneg_right hr (ten_pow_pos _).le

/-- Rounding keeps a negative number negative. -/
theorem fix_neg {d : Decimal} (h : d.coeff < 0) : d.fix.coeff < 0 := by
  by_cases hbig : d.coeff.natAbs < 10 ^ prec
  · rwa [fix, if_pos hbig]
  obtain ⟨k, hfix, hk⟩ := fix_of_long hbig
  have hneg : (d.coeff / 10 ^ k : Rat) ≤ 0 :=
    div_nonpos_of_nonpos_of_nonneg (by exact_mod_cast h.le) (by positivity)
  rw [abs_of_nonpos hneg] at hk
  have hle : roundHalfEven (d.coeff / 10 ^ k) ≤ -1 := by
    refine roundHalfEven_le ?_
    have : (1 : Rat) ≤ 10 ^ (prec - 1) := one_le_pow₀ (by norm_num)
    push_cast
    linarith
  rw [hfix]
  show roundHalfEven (d.coeff / 10 ^ k) < 0
  omega

theorem val_add {a b : Decimal} (h : Exact (a.val + b.val)) : (a.add b).val = a.val + b.val := by
  rw [add, val_fix (by rwa [val_plus]), val_plus]

theorem val_sub {a b : Decimal} (h : Exact (a.val - b.val)) : (a.sub b).val = a.val - b.val := by
  rw [sub, val_add (by rwa [val_neg, ← sub_eq_add_neg]), val_neg, ← sub_eq_add_neg]

end Decimal

/-! ## Columns -/

/-- To the nearest integer, ties away from zero. -/
def halfAway (x : Rat) : Int := if x < 0 then -(-x + 1 / 2).floor else (x + 1 / 2).floor

theorem halfAway_le {n : Int} {x : Rat} (h0 : 0 ≤ n) (h : x ≤ n) : halfAway x ≤ n := by
  unfold halfAway
  split
  · next hx =>
    have : 0 ≤ (-x + 1 / 2).floor := Rat.le_floor_iff.2 (by push_cast; linarith)
    omega
  · have : (x + 1 / 2).floor < n + 1 := by
      have hlt : x + 1 / 2 < ((n + 1 : Int) : Rat) := by push_cast; linarith
      exact_mod_cast (Rat.floor_le _).trans_lt hlt
    omega

theorem le_halfAway {n : Int} {x : Rat} (h0 : 0 ≤ n) (h : n ≤ x) : n ≤ halfAway x := by
  have hx : ¬ x < 0 := not_lt.2 (h.trans' (by exact_mod_cast h0))
  rw [halfAway, if_neg hx]
  exact Rat.le_floor_iff.2 (by linarith)

/-- A tie below a positive number goes up to it. -/
theorem le_halfAway_of_half {n : Int} {x : Rat} (h0 : 0 < n) (h : n - 1 / 2 ≤ x) : n ≤ halfAway x := by
  have hn : (1 : Rat) ≤ n := by exact_mod_cast h0
  rw [halfAway, if_neg (by linarith)]
  exact Rat.le_floor_iff.2 (by linarith)

theorem lt_half_of_halfAway {x : Rat} (h0 : 0 ≤ x) (h : halfAway x = 0) : x < 1 / 2 := by
  rw [halfAway, if_neg (not_lt.2 h0)] at h
  have := Rat.lt_floor_add_one (x + 1 / 2)
  rw [h] at this
  push_cast at this
  linarith

theorem halfAway_int {n : Int} (h0 : 0 ≤ n) : halfAway n = n :=
  le_antisymm (halfAway_le h0 le_rfl) (le_halfAway h0 le_rfl)

/-- On sums of non-negative numbers it is what is added that is rounded. -/
theorem halfAway_int_add {n : Int} {x : Rat} (hn : 0 ≤ n) (hx : 0 ≤ x) : halfAway (n + x) = n + halfAway x := by
  have hn' : (0 : Rat) ≤ n := by exact_mod_cast hn
  rw [halfAway, halfAway, if_neg (not_lt.2 hx), if_neg (not_lt.2 (add_nonneg hn' hx)), add_assoc,
    add_comm (n : Rat), Rat.floor_add_intCast, add_comm]

namespace Decimal

/-- What a `NUMERIC` column of `scale` digits after the point keeps, in units of its last digit. -/
def numeric (scale : Nat) (d : Decimal) : Int := halfAway (d.val * 10 ^ scale)

/-- The number a column of `scale` digits gives back. -/
def ofNumeric (scale : Nat) (n : Int) : Decimal := ⟨n, -scale⟩

theorem val_ofNumeric (scale : Nat) (n : Int) : (ofNumeric scale n).val * 10 ^ scale = n := by
  rw [ofNumeric, val, mul_assoc, ← zpow_natCast, ← zpow_add₀ (by norm_num)]
  simp

end Decimal

end Py
