/-
Python's `float` and `int`: binary64 values, and the numbers a text stands for.

A double is an exact rational, an infinity or a NaN; the two zeros are one
value here. `toDouble` rounds to the nearest double, ties to even, and its
one surprise is at the top of the range: `toDouble_isInf` says from which
number on the nearest double is an infinity.
-/
import Mathlib.Data.Int.Log
import Mathlib.Data.List.TakeWhile
import Mathlib.Data.Rat.Floor
import Mathlib.Tactic.NormNum
import Mathlib.Tactic.Linarith
import Mathlib.Tactic.Positivity
import Mathlib.Tactic.Push
import Mathlib.Tactic.Ring
import Falaron.Text

namespace Py

open Falaron.Text (isSpace lowerChar)

/-! ## Rounding -/

/-- `round(x)`, ties to the even neighbour -/
def roundHalfEven (x : Rat) : Int :=
  let floor := x.floor
  if x - floor < 1 / 2 then floor
  else if 1 / 2 < x - floor then floor + 1
  else if floor % 2 = 0 then floor else floor + 1

theorem le_roundHalfEven {n : Int} {x : Rat} (h : (n : Rat) ≤ x) : n ≤ roundHalfEven x := by
  have hn : n ≤ x.floor := Rat.le_floor_iff.2 h
  simp only [roundHalfEven]
  split
  · exact hn
  · split
    · omega
    · split <;> omega

theorem roundHalfEven_le {n : Int} {x : Rat} (h : x ≤ n) : roundHalfEven x ≤ n := by
  have hfl : x.floor ≤ n := by exact_mod_cast (Rat.floor_le x).trans h
  have hlt : x ≠ x.floor → x.floor < n := fun hne => by
    have := lt_of_le_of_ne (Rat.floor_le x) hne.symm
    exact_mod_cast this.trans_le h
  simp only [roundHalfEven]
  split
  · exact hfl
  · next hhalf =>
    have hne : x ≠ x.floor := fun he => hhalf (by rw [← he]; norm_num)
    have := hlt hne
    split
    · omega
    · split <;> omega

/-- Half way below an even number is far enough. -/
theorem even_le_roundHalfEven {n : Int} (hn : n % 2 = 0) {x : Rat} (h : (n : Rat) - 1 / 2 ≤ x) :
    n ≤ roundHalfEven x := by
  rcases le_or_gt (n : Rat) x with hx | hx
  · exact le_roundHalfEven hx
  have hf : x.floor = n - 1 := by
    have h1 : n - 1 ≤ x.floor := Rat.le_floor_iff.2 (by push_cast; linarith)
    have h2 : x.floor < n := by exact_mod_cast (Rat.floor_le x).trans_lt hx
    omega
  have hge : ¬ x - x.floor < 1 / 2 := by rw [hf]; push_cast; linarith
  simp only [roundHalfEven]
  rw [if_neg hge, hf]
  split
  · omega
  · rw [if_neg (by omega)]; omega

theorem roundHalfEven_lt {n : Int} {x : Rat} (h : x < n - 1 / 2) : roundHalfEven x < n := by
  have hf : x.floor < n := by
    have : (x.floor : Rat) < n := ((Rat.floor_le x).trans_lt h).trans (by linarith)
    exact_mod_cast this
  simp only [roundHalfEven]
  split
  · exact hf
  · next hhalf =>
    have : x.floor + 1 < n := by
      have : ((x.floor + 1 : Int) : Rat) < n := by push_cast; linarith
      exact_mod_cast this
    split
    · exact this
    · split <;> omega

theorem roundHalfEven_mono {x y : Rat} (h : x ≤ y) : roundHalfEven x ≤ roundHalfEven y := by
  have hfloor : x.floor ≤ y.floor := Rat.floor_monotone h
  rcases hfloor.eq_or_lt with heq | hlt
  · simp only [roundHalfEven, ← heq]
    have hsub : x - x.floor ≤ y - x.floor := by linarith
    split
    · split
      · exact le_rfl
      · split
        · omega
        · split <;> omega
    · next hx =>
      have hy : ¬ y - x.floor < 1 / 2 := fun hy => hx (hsub.trans_lt hy)
      rw [if_neg hy]
      split
      · next hx' => rw [if_pos (lt_of_lt_of_le hx' hsub)]
      · split <;> split <;> omega
  · have hx : roundHalfEven x ≤ x.floor + 1 := roundHalfEven_le (Rat.lt_floor_add_one x).le
    have hy : y.floor ≤ roundHalfEven y := le_roundHalfEven (Rat.floor_le y)
    exact hx.trans ((Int.add_one_le_iff.mpr hlt).trans hy)

/-- `int(x)` of a finite number -/
def trunc (x : Rat) : Int := if 0 ≤ x then x.floor else x.ceil

theorem trunc_int (n : Int) : trunc n = n := by simp [trunc]

/-! ## Doubles -/

inductive Double where
  | finite (x : Rat)
  | inf (negative : Bool)
  | nan
  deriving DecidableEq, Repr

/-- `math.isinf` -/
def Double.IsInf : Double → Prop
  | .inf _ => True
  | _ => False

instance : (d : Double) → Decidable d.IsInf
  | .finite _ => isFalse id
  | .inf _ => isTrue trivial
  | .nan => isFalse id

/-- The distance of two neighbouring doubles around `x`. -/
def ulp (x : Rat) : Rat := 2 ^ (max (Int.log 2 |x|) (-1022) - 52)

/-- `|x|` on the grid of the doubles around it, as if they had no greatest. -/
def onGrid (x : Rat) : Rat := roundHalfEven (|x| / ulp x) * ulp x

/-- The double nearest to `x`, in range. -/
def nearest (x : Rat) : Rat := if x < 0 then -onGrid x else onGrid x

def toDouble (x : Rat) : Double :=
  if 2 ^ 1024 ≤ onGrid x then .inf (decide (x < 0)) else .finite (nearest x)

/-- The least number too large for a double: half a step above the greatest one. -/
def tooBig : Rat := 2 ^ 1024 - 2 ^ 970

/-- The range in steps of the last binade. -/
theorem range_eq : (2 : Rat) ^ 1024 = 2 ^ 53 * 2 ^ 971 := by rw [← pow_add]

theorem tooBig_eq : tooBig = (2 ^ 53 - 1 / 2) * 2 ^ 971 := by
  rw [tooBig, range_eq, show (2 : Rat) ^ 971 = 2 ^ 970 * 2 from pow_succ 2 970]
  generalize (2 : Rat) ^ 970 = a
  ring

theorem tooBig_pos : 0 < tooBig := by
  rw [tooBig_eq]
  exact mul_pos (by norm_num) (by positivity)

theorem ulp_pos (x : Rat) : 0 < ulp x := zpow_pos (by norm_num) _

theorem le_onGrid {n : Int} {x : Rat} (h : n * ulp x ≤ |x|) : n * ulp x ≤ onGrid x := by
  have : n ≤ roundHalfEven (|x| / ulp x) := le_roundHalfEven ((le_div_iff₀ (ulp_pos x)).2 h)
  exact mul_le_mul_of_nonneg_right (by exact_mod_cast this) (ulp_pos x).le

theorem onGrid_le {n : Int} {x : Rat} (h : |x| ≤ n * ulp x) : onGrid x ≤ n * ulp x := by
  have : roundHalfEven (|x| / ulp x) ≤ n := roundHalfEven_le ((div_le_iff₀ (ulp_pos x)).2 h)
  exact mul_le_mul_of_nonneg_right (by exact_mod_cast this) (ulp_pos x).le

theorem log_abs_le {x : Rat} : |x| < (2 : Rat) ^ (Int.log 2 |x| + 1) := Int.lt_zpow_succ_log_self (by decide) _

/-- The steps between a power of two and the next one. -/
theorem zpow_eq_ulp {x : Rat} {e : Int} (he : max (Int.log 2 |x|) (-1022) = e) :
    (2 : Rat) ^ e = ((2 ^ 52 : Int) : Rat) * ulp x ∧ (2 : Rat) ^ (e + 1) = ((2 ^ 53 : Int) : Rat) * ulp x := by
  have hu : ulp x = (2 : Rat) ^ (e - 52) := by rw [ulp, he]
  constructor
  · rw [hu, show ((2 ^ 52 : Int) : Rat) = (2 : Rat) ^ (52 : Int) by norm_num, ← zpow_add₀ (by norm_num)]
    congr 1
    ring
  · rw [hu, show ((2 ^ 53 : Int) : Rat) = (2 : Rat) ^ (53 : Int) by norm_num, ← zpow_add₀ (by norm_num)]
    congr 1
    ring

theorem onGrid_le_zpow {x : Rat} {e : Int} (he : max (Int.log 2 |x|) (-1022) = e) : onGrid x ≤ 2 ^ (e + 1) := by
  rw [(zpow_eq_ulp he).2]
  refine onGrid_le ?_
  rw [← (zpow_eq_ulp he).2]
  exact log_abs_le.le.trans (zpow_le_zpow_right₀ (by norm_num) (by omega))

theorem zpow_le_onGrid {x : Rat} (hx : 0 < |x|) (he : -1022 ≤ Int.log 2 |x|) : 2 ^ Int.log 2 |x| ≤ onGrid x := by
  have hmax : max (Int.log 2 |x|) (-1022) = Int.log 2 |x| := max_eq_left he
  rw [(zpow_eq_ulp hmax).1]
  refine le_onGrid ?_
  rw [← (zpow_eq_ulp hmax).1]
  exact Int.zpow_log_le_self (by decide) hx

/-- Below the topmost step the grid value stays below it too. -/
theorem onGrid_lt_of_log {x : Rat} (h : Int.log 2 |x| ≤ 1022) : onGrid x < 2 ^ 1024 := by
  calc onGrid x ≤ 2 ^ (max (Int.log 2 |x|) (-1022) + 1) := onGrid_le_zpow rfl
    _ ≤ (2 : Rat) ^ (1023 : Int) := zpow_le_zpow_right₀ (by norm_num) (by omega)
    _ < 2 ^ 1024 := by rw [zpow_ofNat]; exact pow_lt_pow_right₀ (by norm_num) (by norm_num)

theorem ulp_of_log {x : Rat} (h : Int.log 2 |x| = 1023) : ulp x = 2 ^ 971 := by
  unfold ulp
  rw [h]
  norm_num

/-- **The range of the doubles**: a number has an infinite nearest double
exactly from half a step above the greatest finite one on. -/
theorem le_onGrid_iff (x : Rat) : 2 ^ 1024 ≤ onGrid x ↔ tooBig ≤ |x| := by
  constructor
  · intro h
    by_contra hx
    have hx : |x| < tooBig := lt_of_not_ge hx
    have hlog : Int.log 2 |x| < 1024 := by
      rcases (abs_nonneg x).eq_or_lt with h0 | h0
      · rw [← h0, Int.log_zero_right]; norm_num
      · refine (Int.lt_zpow_iff_log_lt (by decide) h0).1 (hx.trans_le ?_)
        rw [tooBig, zpow_ofNat]
        exact sub_le_self _ (by positivity)
    rcases (show Int.log 2 |x| ≤ 1022 ∨ Int.log 2 |x| = 1023 by omega) with hlow | htop
    · exact absurd h (not_le.2 (onGrid_lt_of_log hlow))
    · -- the last binade: fewer than 2^53 of its steps
      have hr : roundHalfEven (|x| / ulp x) < 2 ^ 53 := by
        refine roundHalfEven_lt ?_
        rw [div_lt_iff₀ (ulp_pos x), ulp_of_log htop]
        exact_mod_cast tooBig_eq ▸ hx
      have hr : (roundHalfEven (|x| / ulp x) : Rat) < 2 ^ 53 := by exact_mod_cast hr
      have hlt : onGrid x < 2 ^ 1024 := by
        rw [range_eq, ← ulp_of_log htop]
        exact mul_lt_mul_of_pos_right hr (ulp_pos x)
      exact absurd h (not_le.2 hlt)
  · intro h
    have hlow : (2 : Rat) ^ (1023 : Int) ≤ tooBig := by
      rw [zpow_ofNat, tooBig_eq, show (2 : Rat) ^ 1023 = 2 ^ 52 * 2 ^ 971 by rw [← pow_add]]
      exact mul_le_mul_of_nonneg_right (by norm_num) (by positivity)
    have hpos : 0 < |x| := (zpow_pos (by norm_num) 1023).trans_le (hlow.trans h)
    have hlog : 1023 ≤ Int.log 2 |x| := (Int.zpow_le_iff_le_log (by decide) hpos).1 (hlow.trans h)
    rcases hlog.eq_or_lt with htop | hbig
    · have hr : (2 ^ 53 : Int) ≤ roundHalfEven (|x| / ulp x) := by
        refine even_le_roundHalfEven (by norm_num) ?_
        rw [le_div_iff₀ (ulp_pos x), ulp_of_log htop.symm]
        exact_mod_cast tooBig_eq ▸ h
      have hr : (2 ^ 53 : Rat) ≤ roundHalfEven (|x| / ulp x) := by exact_mod_cast hr
      rw [range_eq, ← ulp_of_log htop.symm]
      exact mul_le_mul_of_nonneg_right hr (ulp_pos x).le
    · -- the power of two below the number is on the grid
      calc (2 : Rat) ^ 1024 = 2 ^ (1024 : Int) := (zpow_ofNat 2 1024).symm
        _ ≤ 2 ^ Int.log 2 |x| := zpow_le_zpow_right₀ (by norm_num) (by omega)
        _ ≤ onGrid x := zpow_le_onGrid hpos (by omega)

theorem onGrid_nonneg (x : Rat) : 0 ≤ onGrid x := by
  have h : ((0 : Int) : Rat) * ulp x ≤ onGrid x := le_onGrid (by simp)
  simpa using h

theorem onGrid_mono {x y : Rat} (h : |x| ≤ |y|) : onGrid x ≤ onGrid y := by
  rcases (abs_nonneg x).eq_or_lt with h0 | h0
  · have hx : onGrid x ≤ ((0 : Int) : Rat) * ulp x := onGrid_le (by simp [← h0])
    exact (hx.trans_eq (by simp)).trans (onGrid_nonneg y)
  have hlog : Int.log 2 |x| ≤ Int.log 2 |y| := Int.log_mono_right h0 h
  by_cases heq : max (Int.log 2 |x|) (-1022) = max (Int.log 2 |y|) (-1022)
  · have hulp : ulp x = ulp y := by rw [ulp, ulp, heq]
    rw [onGrid, onGrid, hulp]
    have hdiv : |x| / ulp y ≤ |y| / ulp y := div_le_div_of_nonneg_right h (ulp_pos y).le
    exact mul_le_mul_of_nonneg_right (by exact_mod_cast roundHalfEven_mono hdiv) (ulp_pos y).le
  · -- a power of two lies between them
    calc onGrid x ≤ 2 ^ (max (Int.log 2 |x|) (-1022) + 1) := onGrid_le_zpow rfl
      _ ≤ 2 ^ Int.log 2 |y| := zpow_le_zpow_right₀ (by norm_num) (by omega)
      _ ≤ onGrid y := zpow_le_onGrid (h0.trans_le h) (by omega)

theorem nearest_mono : Monotone nearest := by
  intro x y h
  simp only [nearest]
  split
  · next hx =>
    split
    · next hy => exact neg_le_neg (onGrid_mono (by rw [abs_of_neg hx, abs_of_neg hy]; linarith))
    · exact (neg_nonpos.2 (onGrid_nonneg x)).trans (onGrid_nonneg y)
  · next hx =>
    have hx : 0 ≤ x := le_of_not_gt hx
    rw [if_neg (not_lt.2 (hx.trans h))]
    exact onGrid_mono (by rwa [abs_of_nonneg hx, abs_of_nonneg (hx.trans h)])

/-- A double for every integer up to 53 bits long. -/
theorem nearest_int {n : Int} (h : |n| < 2 ^ 53) : nearest n = n := by
  have hgrid : onGrid (n : Rat) = |(n : Rat)| := by
    rcases eq_or_ne n 0 with rfl | hn
    · have hzero : onGrid ((0 : Int) : Rat) ≤ ((0 : Int) : Rat) * ulp ((0 : Int) : Rat) := onGrid_le (by simp)
      have hnonneg := onGrid_nonneg ((0 : Int) : Rat)
      simp only [Int.cast_zero, zero_mul, abs_zero] at hzero hnonneg ⊢
      exact le_antisymm hzero hnonneg
    have hpos : 0 < |(n : Rat)| := by positivity
    have hlt : |(n : Rat)| < 2 ^ (53 : Int) := by exact_mod_cast h
    have hlog : Int.log 2 |(n : Rat)| < 53 := (Int.lt_zpow_iff_log_lt (by decide) hpos).mp hlt
    have hlog0 : 0 ≤ Int.log 2 |(n : Rat)| := by
      refine (Int.zpow_le_iff_le_log (by decide) hpos).mp ?_
      have : (1 : Int) ≤ |n| := Int.one_le_abs hn
      rw [zpow_zero]
      exact_mod_cast this
    obtain ⟨k, hk⟩ : ∃ k : Nat, 52 - Int.log 2 |(n : Rat)| = k := ⟨_, (Int.toNat_of_nonneg (by omega)).symm⟩
    -- the steps are fractions of one
    have hstep : (2 ^ k : Rat) * ulp n = 1 := by
      rw [ulp, max_eq_left (by omega), ← zpow_natCast, ← hk, ← zpow_add₀ (by norm_num)]
      have : 52 - Int.log 2 |(n : Rat)| + (Int.log 2 |(n : Rat)| - 52) = 0 := by ring
      rw [this, zpow_zero]
    have heq : ((|n| * 2 ^ k : Int) : Rat) * ulp n = |(n : Rat)| := by
      push_cast
      rw [mul_assoc, hstep, mul_one]
    exact le_antisymm ((onGrid_le heq.ge).trans_eq heq) (heq.ge.trans (le_onGrid heq.le))
  unfold nearest
  rw [hgrid]
  split
  · next hneg => rw [abs_of_neg hneg, neg_neg]
  · next hpos => exact abs_of_nonneg (le_of_not_gt hpos)

theorem toDouble_isInf (x : Rat) : (toDouble x).IsInf ↔ tooBig ≤ |x| := by
  rw [← le_onGrid_iff]
  unfold toDouble
  split
  · next h => exact ⟨fun _ => h, fun _ => trivial⟩
  · next h => exact ⟨False.elim, fun h' => absurd h' h⟩

example : toDouble (1 / 10) = .finite (3602879701896397 / 2 ^ 55) := by decide +kernel

/-! ## Numbers in a text -/

/-- The zeros of the scripts with decimal digits; the nine digits of a script follow its zero. -/
def decimalZeros : List Nat :=
  [0x30, 0x660, 0x6f0, 0x7c0, 0x966, 0x9e6, 0xa66, 0xae6, 0xb66, 0xbe6, 0xc66, 0xce6, 0xd66, 0xde6, 0xe50,
    0xed0, 0xf20, 0x1040, 0x1090, 0x17e0, 0x1810, 0x1946, 0x19d0, 0x1a80, 0x1a90, 0x1b50, 0x1bb0, 0x1c40,
    0x1c50, 0xa620, 0xa8d0, 0xa900, 0xa9d0, 0xa9f0, 0xaa50, 0xabf0, 0xff10, 0x104a0, 0x10d30, 0x11066,
    0x110f0, 0x11136, 0x111d0, 0x112f0, 0x11450, 0x114d0, 0x11650, 0x116c0, 0x11730, 0x118e0, 0x11950,
    0x11c50, 0x11d50, 0x11da0, 0x11f50, 0x16a60, 0x16ac0, 0x16b50, 0x1d7ce, 0x1d7d8, 0x1d7e2, 0x1d7ec,
    0x1d7f6, 0x1e140, 0x1e2f0, 0x1e4f0, 0x1e950, 0x1fbf0]

def isDigit (c : Char) : Bool := '0' ≤ c && c ≤ '9'

/-- A decimal digit of any script as its ASCII one, a blank beyond ASCII as a space. -/
def plain (c : Char) : Char :=
  match decimalZeros.find? fun z => z ≤ c.toNat && c.toNat ≤ z + 9 with
  | .some z => Char.ofNat (48 + (c.toNat - z))
  | .none => if 128 ≤ c.toNat && isSpace c then ' ' else c

/-- The blanks that may stand around a number. -/
def isBlank (c : Char) : Bool := c = ' ' || (9 ≤ c.toNat && c.toNat ≤ 13)

def stripBlanks (cs : List Char) : List Char := ((cs.dropWhile isBlank).reverse.dropWhile isBlank).reverse

/-- Takes out the underscores, each of which must stand between two digits;
`prev` is the character before. -/
def dropUnderscores (prev : Char) : List Char → Option (List Char)
  | [] => if prev = '_' then .none else .some []
  | c :: cs =>
    if c = '_' then if isDigit prev then dropUnderscores c cs else .none
    else if prev = '_' && !isDigit c then .none
    else (dropUnderscores c cs).map (c :: ·)

/-- What is left of a text to be read as a number. -/
def numberChars (s : String) : Option (List Char) :=
  dropUnderscores ' ' (stripBlanks (s.toList.map plain))

def readSign : List Char → Bool × List Char
  | '-' :: cs => (true, cs)
  | '+' :: cs => (false, cs)
  | cs => (false, cs)

def signed (negative : Bool) (n : Int) : Int := if negative then -n else n

def natOf (ds : List Char) : Nat := ds.foldl (fun n c => 10 * n + (c.toNat - 48)) 0

/-- Only digits, and at least one. -/
def readNat (cs : List Char) : Option Nat := if cs ≠ [] && cs.all isDigit then .some (natOf cs) else .none

/-- What follows the digits: nothing, or `e` and an integer. -/
def readExponent : List Char → Option Int
  | [] => .some 0
  | c :: cs =>
    if c = 'e' || c = 'E' then (readNat (readSign cs).2).map fun n => signed (readSign cs).1 n else .none

/-- The digits of a decimal number, before and behind its point, and its exponent. -/
def readDecimal (cs : List Char) : Option Rat :=
  let whole := cs.takeWhile isDigit
  let rest := cs.dropWhile isDigit
  let point := rest.head? = .some '.'
  let fraction := if point then rest.tail.takeWhile isDigit else []
  let rest := if point then rest.tail.dropWhile isDigit else rest
  if whole ++ fraction = [] then .none
  else (readExponent rest).map fun (e : Int) => (natOf (whole ++ fraction) : Rat) * 10 ^ (e - fraction.length)

/-- `float(s)`; nothing where it raises `ValueError` -/
def floatOfText (s : String) : Option Double := do
  let cs ← numberChars s
  let (negative, cs) := readSign cs
  let word := String.ofList (cs.map lowerChar)
  if word = "inf" || word = "infinity" then .some (.inf negative)
  else if word = "nan" then .some .nan
  else (readDecimal cs).map fun x => toDouble (if negative then -x else x)

/-- As many digits as `int` reads from a text. -/
def maxTextDigits : Nat := 4300

/-- `int(s)`; nothing where it raises `ValueError` -/
def intOfText (s : String) : Option Int := do
  let cs ← numberChars s
  let (negative, ds) := readSign cs
  if maxTextDigits < ds.length then .none else (readNat ds).map fun n => signed negative n

theorem digit_code {c : Char} (h : isDigit c = true) : 48 ≤ c.toNat ∧ c.toNat ≤ 57 := by
  simp only [isDigit, Bool.and_eq_true, decide_eq_true_eq, Char.le_def, UInt32.le_iff_toNat_le] at h
  exact h

theorem plain_digit {c : Char} (h : isDigit c = true) : plain c = c := by
  obtain ⟨hlo, hhi⟩ := digit_code h
  have hfind : decimalZeros.find? (fun z => z ≤ c.toNat && c.toNat ≤ z + 9) = .some 0x30 :=
    List.find?_cons_of_pos (by rw [Bool.and_eq_true, decide_eq_true_eq, decide_eq_true_eq]; omega)
  rw [plain, hfind]
  simp only
  rw [show 48 + (c.toNat - 0x30) = c.toNat by omega, Char.ofNat_toNat]

theorem digit_mark {c : Char} (h : isDigit c = true) : isBlank c = false ∧ c ≠ '_' ∧ c ≠ '-' ∧ c ≠ '+' := by
  refine ⟨?_, ?_, ?_, ?_⟩
  · have hlo := (digit_code h).1
    have hspace : c ≠ ' ' := by
      intro hc
      rw [hc] at hlo
      exact absurd hlo (by decide)
    simp only [isBlank, hspace, decide_false, Bool.false_or, Bool.and_eq_false_imp, decide_eq_true_eq,
      decide_eq_false_iff_not]
    omega
  all_goals
    intro hc
    rw [hc] at h
    cases h

theorem stripBlanks_digits {ds : List Char} (h : ∀ c ∈ ds, isDigit c = true) : stripBlanks ds = ds := by
  have hdrop (cs : List Char) (hcs : ∀ c ∈ cs, isDigit c = true) : cs.dropWhile isBlank = cs := by
    cases cs with
    | nil => rfl
    | cons c cs => rw [List.dropWhile_cons, (digit_mark (hcs c List.mem_cons_self)).1]; rfl
  rw [stripBlanks, hdrop ds h, hdrop ds.reverse fun c hc => h c (List.mem_reverse.mp hc), List.reverse_reverse]

theorem readSign_digits {ds : List Char} (h : ∀ c ∈ ds, isDigit c = true) : readSign ds = (false, ds) := by
  unfold readSign
  split
  · exact absurd rfl (digit_mark (h _ List.mem_cons_self)).2.2.1
  · exact absurd rfl (digit_mark (h _ List.mem_cons_self)).2.2.2
  · rfl

/-- A word of letters is no word of digits. -/
theorem digits_ne {ds w : List Char} (h : ∀ c ∈ ds, isDigit c = true) (hw : w.any (fun c => !isDigit c) = true) :
    ds ≠ w := by
  intro he
  obtain ⟨c, hc, hno⟩ := List.any_eq_true.mp hw
  rw [h c (he ▸ hc)] at hno
  cases hno

theorem natOf_toDigits (n : Nat) : natOf (Nat.toDigits 10 n) = n := by
  have h := Nat.ofDigitChars_ten_toDigits (n := n)
  rwa [Nat.ofDigitChars_eq_foldl] at h

theorem readDecimal_digits {ds : List Char} (hne : ds ≠ []) (h : ds.all isDigit = true) :
    readDecimal ds = .some (natOf ds) := by
  have hall : ∀ c ∈ ds, isDigit c = true := List.all_eq_true.mp h
  have htake : ds.takeWhile isDigit = ds := List.takeWhile_eq_self_iff.mpr hall
  have hdrop : ds.dropWhile isDigit = [] := List.dropWhile_eq_nil_iff.mpr hall
  simp [readDecimal, htake, hdrop, hne, readExponent]

theorem digits_lower {ds : List Char} (h : ds.all isDigit = true) : ds.map lowerChar = ds := by
  refine (List.map_congr_left fun c hc => ?_).trans (List.map_id' ds)
  obtain ⟨hlo, hhi⟩ := digit_code (List.all_eq_true.mp h c hc)
  have hval : ¬ (c.val ≥ 'A'.val ∧ c.val ≤ 'Z'.val) := by
    rw [ge_iff_le, UInt32.le_iff_toNat_le]
    intro hc'
    have hle : 65 ≤ c.toNat := hc'.1
    omega
  rw [lowerChar, if_neg (by omega)]
  exact dif_neg hval

/-- A text with an integer is read as that number. -/
theorem floatOfText_int {s : String} {n : Int} (h : intOfText s = .some n) : floatOfText s = .some (toDouble n) := by
  simp only [intOfText, Option.bind_eq_bind, Option.bind_eq_some_iff] at h
  obtain ⟨cs, hcs, h⟩ := h
  rcases hsign : readSign cs with ⟨negative, ds⟩
  simp only [hsign] at h
  split at h
  · cases h
  obtain ⟨m, hm, rfl⟩ := Option.map_eq_some_iff.mp h
  unfold readNat at hm
  split at hm
  · next hds =>
    cases hm
    simp only [Bool.and_eq_true, decide_eq_true_eq] at hds
    obtain ⟨hne, hall⟩ := hds
    have hword {w : String} (hw : w.toList.any (fun c => !isDigit c) = true) : String.ofList (ds.map lowerChar) ≠ w := by
      rw [digits_lower hall]
      intro he
      exact digits_ne (List.all_eq_true.mp hall) hw (by rw [← he, String.toList_ofList])
    simp only [floatOfText, hcs, Option.bind_eq_bind, Option.bind_some, hsign, readDecimal_digits hne hall, Option.map_some]
    rw [if_neg (by simp [hword (w := "inf") (by decide), hword (w := "infinity") (by decide)]),
      if_neg (hword (by decide))]
    cases negative <;> simp [signed]
  · cases hm

/-- A character that is part of no number. -/
structure Odd (c : Char) : Prop where
  plain : plain c = c
  blank : isBlank c = false
  digit : isDigit c = false
  mark : c ≠ '_' ∧ c ≠ '-' ∧ c ≠ '+'

theorem mem_stripBlanks {c : Char} (hc : isBlank c = false) {cs : List Char} (h : c ∈ cs) : c ∈ stripBlanks cs := by
  have hdrop {ds : List Char} (hd : c ∈ ds) : c ∈ ds.dropWhile isBlank := by
    rw [← List.takeWhile_append_dropWhile (p := isBlank) (l := ds)] at hd
    refine (List.mem_append.1 hd).resolve_left fun ht => ?_
    have := List.all_eq_true.1 List.all_takeWhile c ht
    rw [hc] at this
    cases this
  exact List.mem_reverse.2 (hdrop (List.mem_reverse.2 (hdrop h)))

theorem mem_dropUnderscores {c : Char} (hc : c ≠ '_') {prev : Char} {cs ds : List Char}
    (h : dropUnderscores prev cs = .some ds) (hm : c ∈ cs) : c ∈ ds := by
  induction cs generalizing prev ds with
  | nil => cases hm
  | cons d cs ih =>
    simp only [dropUnderscores] at h
    split at h
    · next hd =>
      split at h
      · exact ih h ((List.mem_cons.1 hm).resolve_left fun he => hc (he.trans hd))
      · cases h
    · split at h
      · cases h
      · obtain ⟨es, hes, rfl⟩ := Option.map_eq_some_iff.1 h
        rcases List.mem_cons.1 hm with rfl | hm
        · exact List.mem_cons_self
        · exact List.mem_cons_of_mem _ (ih hes hm)

theorem mem_readSign {c : Char} (hc : c ≠ '-' ∧ c ≠ '+') {cs : List Char} (h : c ∈ cs) : c ∈ (readSign cs).2 := by
  unfold readSign
  split
  · exact (List.mem_cons.1 h).resolve_left hc.1
  · exact (List.mem_cons.1 h).resolve_left hc.2
  · exact h

/-- A text with such a character is no integer. -/
theorem intOfText_odd {c : Char} (hc : Odd c) {s : String} (h : c ∈ s.toList) : intOfText s = .none := by
  unfold intOfText
  cases hn : numberChars s with
  | none => rfl
  | some cs =>
    have hcs : c ∈ cs := mem_dropUnderscores hc.mark.1 hn
      (mem_stripBlanks hc.blank (List.mem_map.2 ⟨c, h, hc.plain⟩))
    have hds : c ∈ (readSign cs).2 := mem_readSign hc.mark.2 hcs
    have hnat : readNat (readSign cs).2 = .none := by
      refine if_neg fun hall => ?_
      have := List.all_eq_true.1 (Bool.and_eq_true_iff.1 hall).2 c hds
      rw [hc.digit] at this
      cases this
    rcases hsign : readSign cs with ⟨negative, ds⟩
    rw [hsign] at hnat
    simp [hsign, hnat]

example : floatOfText " -1_0.5e-1\n" = .some (toDouble (-21 / 20)) := by decide +kernel

example : floatOfText "1e999" = .some (.inf false) := by decide +kernel

example : intOfText "٣٠" = .some 30 ∧ intOfText "1.0" = .none := by decide +kernel

end Py
