/-
The Python text functions the code uses, on lists of characters.

Case conversion is spelled out for the characters whose other case is
ASCII; every other character is kept. The code compares what it converts
with ASCII texts only (coupon codes, currency codes, service types), and
there the two agree.
-/
namespace Falaron.Text

/-- `str.isspace`, also what `\s` matches. -/
def isSpace (c : Char) : Bool :=
  let n := c.toNat
  (9 ≤ n && n ≤ 13) || (28 ≤ n && n ≤ 32) || n == 0x85 || n == 0xa0 || n == 0x1680 ||
    (0x2000 ≤ n && n ≤ 0x200a) || n == 0x2028 || n == 0x2029 || n == 0x202f || n == 0x205f || n == 0x3000

/-- Where `str.splitlines` ends a line. -/
def isLineBreak (c : Char) : Bool :=
  let n := c.toNat
  (10 ≤ n && n ≤ 13) || (28 ≤ n && n ≤ 30) || n == 0x85 || n == 0x2028 || n == 0x2029

def stripL (cs : List Char) : List Char :=
  ((cs.dropWhile isSpace).reverse.dropWhile isSpace).reverse

/-- A text without blanks has none to strip. -/
theorem stripL_eq_self {cs : List Char} (h : ∀ c ∈ cs, isSpace c = false) : stripL cs = cs := by
  have hdrop : ∀ ds : List Char, (∀ c ∈ ds, isSpace c = false) → ds.dropWhile isSpace = ds := by
    intro ds hd
    cases ds with
    | nil => rfl
    | cons c ds => rw [List.dropWhile_cons, hd c List.mem_cons_self]; rfl
  rw [stripL, hdrop cs h, hdrop cs.reverse fun c hc => h c (List.mem_reverse.mp hc), List.reverse_reverse]

def strip (s : String) : String := .ofList (stripL s.toList)

def upperChar (c : Char) : List Char :=
  match c.toNat with
  | 0x131 => ['I']
  | 0x17f => ['S']
  | 0xdf => ['S', 'S']
  | 0xfb00 => ['F', 'F']
  | 0xfb01 => ['F', 'I']
  | 0xfb02 => ['F', 'L']
  | 0xfb03 => ['F', 'F', 'I']
  | 0xfb04 => ['F', 'F', 'L']
  | 0xfb05 | 0xfb06 => ['S', 'T']
  | _ => [c.toUpper]

def upper (s : String) : String := .ofList (s.toList.flatMap upperChar)

/-- Lower case; the Kelvin sign is the only other character whose lower case is ASCII. -/
def lowerChar (c : Char) : Char := if c.toNat = 0x212a then 'k' else c.toLower

def lower (s : String) : String := .ofList (s.toList.map lowerChar)

/-- One letter of an ASCII pattern under `re.IGNORECASE`; the long s matches `s`. -/
def foldChar (c : Char) : Char := if c.toNat = 0x17f then 's' else lowerChar c

/-- The text begins with the (lower-case) pattern, case ignored. -/
def hasPrefix (pattern : String) (cs : List Char) : Bool :=
  (cs.take pattern.length).map foldChar == pattern.toList

/-- `str.splitlines()`: no entry after a final line break, `\r\n` is one break. -/
def splitLinesL : List Char → List Char → List (List Char)
  | acc, [] => if acc.isEmpty then [] else [acc.reverse]
  | acc, '\r' :: '\n' :: cs => acc.reverse :: splitLinesL [] cs
  | acc, c :: cs => if isLineBreak c then acc.reverse :: splitLinesL [] cs else splitLinesL (c :: acc) cs

/-- `[line.strip() for line in s.splitlines() if line.strip()]` -/
def lines (s : String) : List String :=
  ((splitLinesL [] s.toList).map fun l => String.ofList (stripL l)).filter (· ≠ "")

/-- The parts between runs of `[\s,]+`, empty parts dropped. -/
def wordsL : List Char → List Char → List (List Char)
  | acc, [] => if acc.isEmpty then [] else [acc.reverse]
  | acc, c :: cs =>
    if isSpace c || c == ',' then
      if acc.isEmpty then wordsL [] cs else acc.reverse :: wordsL [] cs
    else wordsL (c :: acc) cs

/-- `[n.strip().lstrip("@") for n in re.split(r"[\s,]+", s) if n.strip()]` -/
def names (s : String) : List String :=
  (wordsL [] s.toList).map fun l => String.ofList (l.dropWhile (· == '@'))

/-- `s[:n]` -/
def clip (n : Nat) (s : String) : String := .ofList (s.toList.take n)

/-- The part before the first bar. -/
theorem split_first {α : Type} {bar : α} {a a' r r' : List α} (ha : bar ∉ a) (ha' : bar ∉ a')
    (h : a ++ bar :: r = a' ++ bar :: r') : a = a' ∧ r = r' := by
  rcases List.append_eq_append_iff.mp h with ⟨m, hm, hr⟩ | ⟨m, hm, hr⟩ <;> cases m with
  | nil => simp_all
  | cons b m =>
    obtain ⟨rfl, -⟩ := List.cons.inj hr
    exact absurd (hm ▸ List.mem_append_right _ List.mem_cons_self) (by assumption)

/-- The part after the last bar. -/
theorem split_last {α : Type} {bar : α} {a a' r r' : List α} (ha : bar ∉ a) (ha' : bar ∉ a')
    (h : r ++ bar :: a = r' ++ bar :: a') : r = r' ∧ a = a' := by
  have hrev : a.reverse ++ bar :: r.reverse = a'.reverse ++ bar :: r'.reverse := by
    simpa using congrArg List.reverse h
  obtain ⟨h₁, h₂⟩ := split_first (by simpa using ha) (by simpa using ha') hrev
  exact ⟨List.reverse_inj.mp h₂, List.reverse_inj.mp h₁⟩

/-- A number is written with digits, behind a dash where it is negative. -/
theorem int_chars {c : Char} {n : Int} (h : c ∈ (toString n).toList) : c = '-' ∨ c.isDigit = true := by
  rw [Int.toString_eq_repr, Int.repr_eq_if] at h
  split at h
  · exact .inr (Nat.isDigit_of_mem_toDigits (by decide) (by decide) (Nat.toList_repr ▸ h))
  · rw [String.toList_append, List.mem_append, Nat.toList_repr] at h
    rcases h with h | h
    · exact .inl (by simpa using h)
    · exact .inr (Nat.isDigit_of_mem_toDigits (by decide) (by decide) h)

theorem int_injective {m n : Int} (h : (toString m).toList = (toString n).toList) : m = n := by
  have hdash (k l : Nat) : Nat.toDigits 10 k ≠ '-' :: Nat.toDigits 10 l := by
    intro hk
    have hd := Nat.isDigit_of_mem_toDigits (b := 10) (n := k) (c := '-') (by decide) (by decide)
      (hk ▸ List.mem_cons_self)
    exact absurd hd (by decide)
  have hnat {k l : Nat} (hk : Nat.toDigits 10 k = Nat.toDigits 10 l) : k = l := by
    have := congrArg (Nat.ofDigitChars 10 · 0) hk
    simpa [Nat.ofDigitChars_ten_toDigits] using this
  simp only [Int.toString_eq_repr, Int.repr_eq_if] at h
  split at h <;> split at h <;> simp only [String.toList_append, Nat.toList_repr] at h
  · have := hnat h
    omega
  · exact absurd h (hdash _ _)
  · exact absurd h.symm (hdash _ _)
  · have := hnat (List.cons.inj h).2
    omega

/-! ## JSON texts -/

def hexDigit (n : Nat) : Char := Char.ofNat (if n < 10 then 48 + n else 87 + n)

/-- `\uXXXX` -/
def unicodeEscape (n : Nat) : List Char :=
  ['\\', 'u', hexDigit (n / 4096 % 16), hexDigit (n / 256 % 16), hexDigit (n / 16 % 16), hexDigit (n % 16)]

/-- One character of a JSON string as `json.dumps` writes it (`ensure_ascii`). -/
def escapeChar (c : Char) : List Char :=
  let n := c.toNat
  if c == '"' then ['\\', '"']
  else if c == '\\' then ['\\', '\\']
  else if c == '\n' then ['\\', 'n']
  else if c == '\r' then ['\\', 'r']
  else if c == '\t' then ['\\', 't']
  else if n == 12 then ['\\', 'f']
  else if n == 8 then ['\\', 'b']
  else if 32 ≤ n && n ≤ 126 then [c]
  else if n < 0x10000 then unicodeEscape n
  else unicodeEscape (0xd800 + (n - 0x10000) / 1024) ++ unicodeEscape (0xdc00 + (n - 0x10000) % 1024)

def jsonString (s : String) : String := .ofList (['"'] ++ s.toList.flatMap escapeChar ++ ['"'])

/-- A value of an order's `extra`: texts, and the comment count the code adds. -/
inductive ExtraValue where
  | str (s : String)
  | int (n : Int)
  deriving DecidableEq, Repr

def ExtraValue.json : ExtraValue → String
  | .str s => jsonString s
  | .int n => toString n

/-- `str(value or "")`, with nothing for a missing value. -/
def ExtraValue.text : Option ExtraValue → String
  | some (.str s) => s
  | some (.int n) => if n = 0 then "" else toString n
  | none => ""

/-- A `dict` with text keys, in insertion order. -/
abbrev Extra := List (String × ExtraValue)

def Extra.get? (d : Extra) (k : String) : Option ExtraValue := (d.find? (·.1 == k)).map (·.2)

/-- `d[k] = v` -/
def Extra.set (d : Extra) (k : String) (v : ExtraValue) : Extra :=
  if d.any (·.1 == k) then d.map fun p => if p.1 == k then (k, v) else p else d ++ [(k, v)]

/-- `json.dumps(d, separators=(",", ":"))` -/
def Extra.dumps (d : Extra) : String :=
  let body := ",".intercalate (d.map fun p => jsonString p.1 ++ ":" ++ p.2.json)
  .ofList ([Char.ofNat 123] ++ body.toList ++ [Char.ofNat 125])

def Extra.insertKey (p : String × ExtraValue) : Extra → Extra
  | [] => [p]
  | q :: d => if p.1 ≤ q.1 then p :: q :: d else q :: insertKey p d

/-- `json.dumps(d, sort_keys=True, separators=(",", ":"))` -/
def Extra.dumpsSorted (d : Extra) : String := Extra.dumps (d.foldr Extra.insertKey [])

example : lines " a \r\n\n b" = ["a", "b"] := by decide

example : names "@x, y\t@@z" = ["x", "y", "z"] := by decide

end Falaron.Text
