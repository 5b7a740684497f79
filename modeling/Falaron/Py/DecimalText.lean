/-
Python's `decimal`: the numbers a text stands for, products and quotients in
the default context, and `quantize`.

A decimal that is quantized next has no use for the exponent it had, so what
is computed on the way is rounded by its value alone.
-/
import Falaron.Py.Decimal

namespace Py

open Falaron.Text (lowerChar)

namespace Decimal

/-- An exact result in the context: to 28 digits, ties to even. -/
def round (x : Rat) : Decimal :=
  let e := Int.log 10 |x| + 1 - prec
  ⟨roundHalfEven (x / 10 ^ e), e⟩

/-- `a * b` -/
def mul (a b : Decimal) : Decimal := round (a.val * b.val)

/-- `a / b`, for a `b` that is not zero -/
def div (a b : Decimal) : Decimal := round (a.val / b.val)

/-- `quantize(Decimal(10) ** -places)` of a number; nothing where it takes more than 28 digits. -/
def quantize (places : Nat) (x : Rat) : Option Decimal :=
  let n := roundHalfEven (x * 10 ^ places)
  if n.natAbs < 10 ^ prec then some ⟨n, -places⟩ else none

end Decimal

/-- What a text can be as a `Decimal`; a finite number by its value. -/
inductive DecimalText where
  | finite (x : Rat)
  | infinite
  | nan
  | signalling
  deriving DecidableEq

/-- `Decimal(s)`; nothing where it is no number -/
def decimalOfText (s : String) : Option DecimalText :=
  let cs := (stripBlanks (s.toList.map plain)).filter (· ≠ '_')
  let (negative, cs) := readSign cs
  let word := cs.map lowerChar
  if word = "inf".toList || word = "infinity".toList then some .infinite
  else if word.take 3 = "nan".toList && (word.drop 3).all isDigit then some .nan
  else if word.take 4 = "snan".toList && (word.drop 4).all isDigit then some .signalling
  else (readDecimal cs).map fun x => .finite (if negative then -x else x)

theorem decimalOfText_digits {ds : List Char} (hne : ds ≠ []) (h : ∀ c ∈ ds, isDigit c = true) :
    decimalOfText (.ofList ds) = some (.finite (natOf ds)) := by
  have hall : ds.all isDigit = true := List.all_eq_true.mpr h
  have hplain : ds.map plain = ds := (List.map_congr_left fun c hc => plain_digit (h c hc)).trans (List.map_id' ds)
  have hfilter : ds.filter (· ≠ '_') = ds :=
    List.filter_eq_self.mpr fun c hc => decide_eq_true (digit_mark (h c hc)).2.1
  have hinf : ds ≠ "inf".toList := digits_ne h (by decide)
  have hinfinity : ds ≠ "infinity".toList := digits_ne h (by decide)
  have hnan : ds.take 3 ≠ "nan".toList := digits_ne (fun c hc => h c (List.mem_of_mem_take hc)) (by decide)
  have hsnan : ds.take 4 ≠ "snan".toList := digits_ne (fun c hc => h c (List.mem_of_mem_take hc)) (by decide)
  simp only [decimalOfText, String.toList_ofList, hplain, stripBlanks_digits h, hfilter, readSign_digits h,
    digits_lower hall, readDecimal_digits hne hall, hinf, hinfinity, hnan, hsnan, decide_false, Bool.or_self,
    Bool.false_and, Bool.false_eq_true, if_false, Option.map_some]

/-- `Decimal(str(n))` -/
theorem decimalOfText_nat (n : Nat) : decimalOfText (toString (n : Int)) = some (.finite n) := by
  have hlist : toString (n : Int) = .ofList (Nat.toDigits 10 n) := Nat.repr_eq_ofList_toDigits
  rw [hlist, decimalOfText_digits Nat.toDigits_ne_nil
    fun c hc => Nat.isDigit_of_mem_toDigits (by decide) (by decide) hc, natOf_toDigits]

example : decimalOfText " -12_3.50e1" = some (.finite (-1235)) := by decide +kernel

end Py
