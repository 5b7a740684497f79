/-
JSON values as Python's decoder makes them, and what the built-in
conversions do with each.

The decoder reads `NaN`, `Infinity` and numbers beyond the doubles such as
`1e999` as floats, and integers of any size as integers (the longest it
accepts, `str` can still write). How `str` writes a float, a list or an
object is left to a parameter. A lone surrogate, which a `Char` cannot be,
stands as the replacement character; none of the conversions tells the two
apart.
-/
import Falaron.Py.Number

namespace Py

inductive Json where
  | null
  | bool (b : Bool)
  | int (n : Int)
  | float (x : Double)
  | str (s : String)
  | array (items : List Json)
  | object (fields : List (String × Json))

/-- The exceptions the conversions raise. -/
inductive Raised where
  | typeError
  | valueError
  | overflowError
  deriving DecidableEq, Repr

namespace Json

/-- `bool(v)` -/
def truthy : Json → Bool
  | .null => false
  | .bool b => b
  | .int n => n ≠ 0
  | .float x => x ≠ .finite 0
  | .str s => s ≠ ""
  | .array items => !items.isEmpty
  | .object fields => !fields.isEmpty

/-- `v or d` -/
def or (v d : Json) : Json := if v.truthy then v else d

/-- `v is None or v == ""` -/
def isMissing : Json → Bool
  | .null => true
  | .str s => s = ""
  | _ => false

/-- `str(v)` -/
def text (repr : Json → String) : Json → String
  | .null => "None"
  | .bool true => "True"
  | .bool false => "False"
  | .int n => toString n
  | .str s => s
  | v => repr v

/-- `float(v)` -/
def toFloat : Json → Except Raised Double
  | .bool b => .ok (.finite (if b then 1 else 0))
  | .int n => if (toDouble n).IsInf then .error .overflowError else .ok (toDouble n)
  | .float x => .ok x
  | .str s =>
    match floatOfText s with
    | .some x => .ok x
    | .none => .error .valueError
  | _ => .error .typeError

/-- `int(v)` -/
def toInt : Json → Except Raised Int
  | .bool b => .ok (if b then 1 else 0)
  | .int n => .ok n
  | .float (.finite x) => .ok (trunc x)
  | .float (.inf _) => .error .overflowError
  | .float .nan => .error .valueError
  | .str s =>
    match intOfText s with
    | .some n => .ok n
    | .none => .error .valueError
  | _ => .error .typeError

/-! ## Values that overflow -/

/-- An integer too large for a double. -/
def IsHuge : Json → Prop
  | .int n => tooBig ≤ |(n : Rat)|
  | _ => False

/-- An infinite float. -/
def IsInfinite : Json → Prop
  | .float x => x.IsInf
  | _ => False

/-- `float(v)` is infinite. -/
def ReadsInfinite : Json → Prop
  | .float x => x.IsInf
  | .str s => ∃ x, floatOfText s = .some x ∧ x.IsInf
  | _ => False

theorem toFloat_overflows {v : Json} : v.toFloat = .error .overflowError ↔ v.IsHuge := by
  cases v with
  | int n =>
    simp only [toFloat, IsHuge, ← toDouble_isInf]
    split
    · next h => exact ⟨fun _ => h, fun _ => rfl⟩
    · next h => exact ⟨fun h' => (nomatch h'), fun h' => absurd h' h⟩
  | str s =>
    simp only [toFloat, IsHuge]
    split <;> exact ⟨fun h => (nomatch h), False.elim⟩
  | _ => exact ⟨fun h => (nomatch h), False.elim⟩

theorem toInt_overflows {v : Json} : v.toInt = .error .overflowError ↔ v.IsInfinite := by
  cases v with
  | float x =>
    cases x with
    | inf b => exact ⟨fun _ => trivial, fun _ => rfl⟩
    | _ => exact ⟨fun h => (nomatch h), False.elim⟩
  | str s =>
    simp only [toInt, IsInfinite]
    split <;> exact ⟨fun h => (nomatch h), False.elim⟩
  | _ => exact ⟨fun h => (nomatch h), False.elim⟩

theorem not_isHuge_zero : ¬ (Json.int 0).IsHuge := by
  simpa [IsHuge] using tooBig_pos

theorem isHuge_or {v d : Json} (hd : ¬ d.IsHuge) : (v.or d).IsHuge ↔ v.IsHuge := by
  unfold Json.or
  split
  · rfl
  · next h =>
    refine iff_of_false hd fun hv => h ?_
    cases v with
    | int n =>
      have : n ≠ 0 := by
        rintro rfl
        exact not_isHuge_zero hv
      simpa [truthy] using this
    | _ => cases hv

theorem isInfinite_or {v d : Json} (hd : ¬ d.IsInfinite) : (v.or d).IsInfinite ↔ v.IsInfinite := by
  unfold Json.or
  split
  · rfl
  · next h =>
    refine iff_of_false hd fun hv => h ?_
    cases v with
    | float x => cases x <;> first | rfl | cases hv
    | _ => cases hv

/-- `int(float(v))` -/
def toWhole (v : Json) : Except Raised Int := v.toFloat.bind fun x => (Json.float x).toInt

/-- What an infinite double came from. -/
theorem toFloat_isInf {v : Json} : (∃ x : Double, v.toFloat = .ok x ∧ x.IsInf) ↔ v.ReadsInfinite := by
  cases v with
  | bool b => exact ⟨fun ⟨_, h, hx⟩ => by cases h; exact hx, False.elim⟩
  | int n =>
    refine ⟨fun ⟨x, h, hx⟩ => ?_, False.elim⟩
    simp only [toFloat] at h
    split at h
    · cases h
    · next hn => cases h; exact hn hx
  | float x => exact ⟨fun ⟨_, h, hx⟩ => by cases h; exact hx, fun h => ⟨x, rfl, h⟩⟩
  | str s =>
    simp only [toFloat, ReadsInfinite]
    cases floatOfText s <;> simp
  | _ => exact ⟨fun ⟨_, h, _⟩ => (nomatch h), False.elim⟩

theorem toWhole_overflows {v : Json} :
    v.toWhole = .error .overflowError ↔ v.IsHuge ∨ v.ReadsInfinite := by
  rw [← toFloat_overflows, ← toFloat_isInf, toWhole]
  cases hx : v.toFloat with
  | error e => simp [Except.bind]
  | ok x =>
    have := toInt_overflows (v := .float x)
    simp only [Except.bind, this, IsInfinite]
    simp

/-- A missing value has no number to overflow. -/
theorem isMissing_reads {v : Json} (h : v.isMissing = true) : ¬ (v.IsHuge ∨ v.ReadsInfinite) := by
  rintro (hv | hv)
  · cases v with
    | int n => cases h
    | _ => exact hv
  · cases v with
    | float x => cases h
    | str s =>
      obtain ⟨x, hx, _⟩ := hv
      obtain rfl : s = "" := of_decide_eq_true h
      rw [show floatOfText "" = .none by decide] at hx
      cases hx
    | _ => exact hv

end Json

/-! ## Objects -/

/-- A `dict` with text keys. -/
abbrev Dict := List (String × Json)

/-- `d.get(k)` -/
def field (d : Dict) (k : String) : Json := ((d.find? (·.1 == k)).map (·.2)).getD .null

/-- `k in d` -/
def hasField (d : Dict) (k : String) : Bool := d.any (·.1 == k)

/-- `{k: d.get(k) for k in ks if k in d}` -/
def onlyFields (d : Dict) (ks : List String) : Dict := (ks.filter (hasField d)).map fun k => (k, field d k)

end Py
