/-
`json.loads`, one character at a time.

The decoder is a machine with a stack: the arrays and objects that are
open, each with what it has so far. A number ends at the first character
that cannot continue it, which is then read as the character after a value.
The machine fails at the character Python's decoder fails at, or at an
earlier one that no text could mend, and with the same kind of exception.

An array or an object nested deeper than `limit` is a `RecursionError`: the
limit is what the interpreter's recursion limit leaves the decoder.
-/
import Falaron.Py.Json
import Falaron.Py.Query

namespace Py

inductive LoadsError where
  /-- `json.JSONDecodeError` -/
  | decode
  /-- The `ValueError` of an integer with more than 4300 digits. -/
  | digits
  | recursion
  deriving DecidableEq, Repr

namespace JsonText

/-! ## Strings -/

/-- Where a string stands in an escape: not in one, behind the backslash, among the digits of `\uXXXX`. -/
inductive Esc where
  | none
  | slash
  | hex (value digits : Nat)

/-- A string begun: its characters so far, the last one first, and a high
surrogate that waits for a low one. -/
structure Quoted where
  chars : List Char := []
  high : Option Nat := .none
  esc : Esc := .none

namespace Quoted

variable (t : Quoted)

/-- A high surrogate that has found no low one stays alone. -/
def flushed : List Char := if t.high.isSome then Char.ofNat 0xfffd :: t.chars else t.chars

def put (c : Char) : Quoted := { chars := c :: t.flushed }

def isHigh (n : Nat) : Bool := 0xd800 ≤ n && n ≤ 0xdbff

def isLow (n : Nat) : Bool := 0xdc00 ≤ n && n ≤ 0xdfff

/-- The end of an escape `\uXXXX`. -/
def putUnit (n : Nat) : Quoted :=
  match t.high with
  | .some h =>
    if isLow n then { chars := Char.ofNat (0x10000 + (h - 0xd800) * 1024 + (n - 0xdc00)) :: t.chars } else alone
  | .none => alone
where
  alone : Quoted :=
    if isHigh n then { chars := t.flushed, high := .some n }
    else t.put (Char.ofNat (if isLow n then 0xfffd else n))

def finish : String := .ofList t.flushed.reverse

/-- What a character behind a backslash stands for. -/
def escaped (c : Char) : Option Char :=
  match c with
  | '"' | '\\' | '/' => some c
  | 'b' => some (Char.ofNat 8)
  | 'f' => some (Char.ofNat 12)
  | 'n' => some '\n'
  | 'r' => some '\r'
  | 't' => some '\t'
  | _ => .none

/-- One character: the string goes on, or is at its end. -/
def next (c : Char) : Except LoadsError (Quoted ⊕ String) :=
  match t.esc with
  | .none =>
    if c = '"' then .ok (.inr t.finish)
    else if c = '\\' then .ok (.inl { t with esc := .slash })
    else if c.toNat < 32 then .error .decode
    else .ok (.inl (t.put c))
  | .slash =>
    if c = 'u' then .ok (.inl { t with esc := .hex 0 0 })
    else match escaped c with
      | some x => .ok (.inl (t.put x))
      | .none => .error .decode
  | .hex v k =>
    match hexValue c with
    | some d => .ok (.inl (if k = 3 then t.putUnit (16 * v + d) else { t with esc := .hex (16 * v + d) (k + 1) }))
    | .none => .error .decode

end Quoted

/-! ## Numbers -/

inductive Phase where
  | minus
  | zero
  | whole
  | point
  | fraction
  | exponent
  | sign
  | power
  deriving DecidableEq, Repr

namespace Phase

/-- The phase after one more character, where the character continues the number. -/
def next (p : Phase) (c : Char) : Option Phase :=
  match p with
  | minus => if c = '0' then some zero else if isDigit c then some whole else none
  | zero => if c = '.' then some point else if c = 'e' || c = 'E' then some exponent else none
  | whole =>
    if isDigit c then some whole else if c = '.' then some point
    else if c = 'e' || c = 'E' then some exponent else none
  | point => if isDigit c then some fraction else none
  | fraction => if isDigit c then some fraction else if c = 'e' || c = 'E' then some exponent else none
  | exponent => if isDigit c then some power else if c = '+' || c = '-' then some sign else none
  | sign | power => if isDigit c then some power else none

/-- The number, once nothing continues it. -/
def finish (p : Phase) (chars : List Char) : Except LoadsError Json :=
  match p with
  | zero | whole =>
    match intOfText (.ofList chars.reverse) with
    | some n => .ok (.int n)
    | none => .error .digits
  | fraction | power =>
    match floatOfText (.ofList chars.reverse) with
    | some x => .ok (.float x)
    | none => .error .decode
  | _ => .error .decode

end Phase

/-! ## The machine -/

/-- An array or an object that is open, and whose next value is read. -/
inductive Frame where
  /-- Its items, the last one first. -/
  | array (items : List Json)
  | object (fields : Dict) (key : String)

inductive Mode where
  /-- A value comes; behind `[` also `]`. -/
  | value (first : Bool)
  /-- The key of an object comes; behind an opening brace also a closing one. -/
  | key (fields : Dict) (first : Bool)
  | colon (fields : Dict) (key : String)
  /-- In a string: a value, or the key of an object with the fields. -/
  | str (t : Quoted) (fields : Option Dict)
  /-- In a number, its characters so far, the last one first. -/
  | number (chars : List Char) (p : Phase)
  /-- What is left of a literal. -/
  | word (rest : List Char) (v : Json)
  /-- Behind a value. -/
  | after (v : Json)

structure State where
  stack : List Frame := []
  mode : Mode := .value false

def isWs (c : Char) : Bool := c = ' ' || c = '\t' || c = '\n' || c = '\r'

def openBrace : Char := Char.ofNat 0x7b

def closeBrace : Char := Char.ofNat 0x7d

/-- The first character of a value. -/
def valueStep (limit : Nat) (stack : List Frame) (c : Char) : Except LoadsError State :=
  if c = '"' then .ok ⟨stack, .str {} none⟩
  else if c = openBrace then
    if stack.length < limit then .ok ⟨stack, .key [] true⟩ else .error .recursion
  else if c = '[' then
    if stack.length < limit then .ok ⟨.array [] :: stack, .value true⟩ else .error .recursion
  else if c = '-' then .ok ⟨stack, .number [c] .minus⟩
  else if c = '0' then .ok ⟨stack, .number [c] .zero⟩
  else if isDigit c then .ok ⟨stack, .number [c] .whole⟩
  else if c = 't' then .ok ⟨stack, .word ['r', 'u', 'e'] (.bool true)⟩
  else if c = 'f' then .ok ⟨stack, .word ['a', 'l', 's', 'e'] (.bool false)⟩
  else if c = 'n' then .ok ⟨stack, .word ['u', 'l', 'l'] .null⟩
  else if c = 'N' then .ok ⟨stack, .word ['a', 'N'] (.float .nan)⟩
  else if c = 'I' then .ok ⟨stack, .word "nfinity".toList (.float (.inf false))⟩
  else .error .decode

/-- A character behind a value. -/
def afterStep (stack : List Frame) (v : Json) (c : Char) : Except LoadsError State :=
  if isWs c then .ok ⟨stack, .after v⟩
  else match stack with
    | [] => .error .decode
    | .array items :: stack =>
      if c = ',' then .ok ⟨.array (v :: items) :: stack, .value false⟩
      else if c = ']' then .ok ⟨stack, .after (.array (v :: items).reverse)⟩
      else .error .decode
    | .object fields key :: stack =>
      if c = ',' then .ok ⟨stack, .key (assign fields key v) false⟩
      else if c = closeBrace then .ok ⟨stack, .after (.object (assign fields key v))⟩
      else .error .decode

def step (limit : Nat) (s : State) (c : Char) : Except LoadsError State :=
  match s.mode with
  | .value first =>
    if isWs c then .ok s
    else if first && c = ']' then .ok ⟨s.stack.tail, .after (.array [])⟩
    else valueStep limit s.stack c
  | .key fields first =>
    if isWs c then .ok s
    else if c = '"' then .ok ⟨s.stack, .str {} (some fields)⟩
    else if first && c = closeBrace then .ok ⟨s.stack, .after (.object [])⟩
    else .error .decode
  | .colon fields key =>
    if isWs c then .ok s
    else if c = ':' then .ok ⟨.object fields key :: s.stack, .value false⟩
    else .error .decode
  | .str t fields => do
    match ← t.next c, fields with
    | .inl t, _ => .ok ⟨s.stack, .str t fields⟩
    | .inr x, some fields => .ok ⟨s.stack, .colon fields x⟩
    | .inr x, none => .ok ⟨s.stack, .after (.str x)⟩
  | .number chars p =>
    match p.next c with
    | some p => .ok ⟨s.stack, .number (c :: chars) p⟩
    | none =>
      if p = .minus && c = 'I' then .ok ⟨s.stack, .word "nfinity".toList (.float (.inf true))⟩
      else (p.finish chars).bind fun v => afterStep s.stack v c
  | .word rest v =>
    match rest with
    | [] => .error .decode
    | [x] => if c = x then .ok ⟨s.stack, .after v⟩ else .error .decode
    | x :: rest => if c = x then .ok ⟨s.stack, .word rest v⟩ else .error .decode
  | .after v => afterStep s.stack v c

/-- The end of the text. -/
def finish (s : State) : Except LoadsError Json :=
  match s.stack, s.mode with
  | [], .after v => .ok v
  | [], .number chars p => p.finish chars
  | _ :: _, .number chars p => (p.finish chars).bind fun _ => .error .decode
  | _, _ => .error .decode

def run (limit : Nat) (s : State) (cs : List Char) : Except LoadsError State := cs.foldlM (step limit) s

end JsonText

open JsonText

/-- `json.loads(s)` -/
def loads (limit : Nat) (s : String) : Except LoadsError Json := (run limit {} s.toList).bind JsonText.finish

/-! ## What follows a text -/

section

variable {limit : Nat} {v : Json}

theorem run_append (s : State) (cs ds : List Char) :
    run limit s (cs ++ ds) = (run limit s cs).bind fun s => run limit s ds := List.foldlM_append

/-- Where a text may end, a line may end. -/
theorem step_newline {s : State} (h : JsonText.finish s = .ok v) : step limit s '\n' = .ok ⟨[], .after v⟩ := by
  obtain ⟨stack, mode⟩ := s
  cases stack with
  | nil =>
    cases mode with
    | after w =>
      obtain rfl := Except.ok.inj h
      rfl
    | number chars p =>
      have hp : p.finish chars = .ok v := h
      have hnext : p.next '\n' = none := by cases p <;> rfl
      have hword : (decide (p = .minus) && decide ('\n' = 'I')) = false := by simp
      simp only [step, hnext, hp, hword]
      rfl
    | _ => cases h
  | cons f stack =>
    cases mode with
    | number chars p =>
      have hp : (p.finish chars).bind (fun _ => .error .decode) = .ok v := h
      cases hf : p.finish chars <;> rw [hf] at hp <;> cases hp
    | _ => cases h

/-- Behind a whole text only blanks are read. -/
theorem run_after {cs : List Char} {c : Char} (hc : c ∈ cs) (hws : isWs c = false) :
    run limit ⟨[], .after v⟩ cs = .error .decode := by
  induction cs with
  | nil => cases hc
  | cons d cs ih =>
    simp only [run, List.foldlM_cons]
    cases hd : isWs d with
    | true =>
      have hne : c ≠ d := fun he => by rw [he, hd] at hws; cases hws
      have hstep : step limit ⟨[], .after v⟩ d = .ok ⟨[], .after v⟩ := by simp [step, afterStep, hd]
      rw [hstep]
      exact ih ((List.mem_cons.1 hc).resolve_left hne)
    | false =>
      have hstep : step limit ⟨[], .after v⟩ d = .error .decode := by simp [step, afterStep, hd]
      rw [hstep]
      rfl

/-- **A text that is read does not go on** behind a line break, except with blanks. -/
theorem loads_extra {s : String} (h : loads limit s = .ok v) {rest : List Char} {c : Char} (hc : c ∈ rest)
    (hws : isWs c = false) : loads limit (.ofList (s.toList ++ '\n' :: rest)) = .error .decode := by
  unfold loads at *
  rw [String.toList_ofList, run_append]
  cases hr : run limit {} s.toList with
  | error e => rw [hr] at h; cases h
  | ok st =>
    rw [hr] at h
    have hline : run limit st ('\n' :: rest) = .error .decode := by
      simp only [run, List.foldlM_cons]
      rw [step_newline h]
      exact run_after hc hws
    show ((run limit st ('\n' :: rest)).bind JsonText.finish) = _
    rw [hline]
    rfl

end

example : (loads 9 " [1, \"a\\u00e9\\ud83d\\ude00\", -2.5e1 ,true, [] ]").toOption.map
    (fun v => match v with
      | .array [.int a, .str b, .float c, .bool d, .array []] => some (a, b, c, d)
      | _ => none) = some (some (1, "aé😀", .finite (-25), true)) := by decide +kernel

/-! ## Texts in bytes -/

/-- The code point of a number below 0x110000. -/
def uniOf (n : Nat) : Uni :=
  if 0xd800 ≤ n && n < 0xe000 then .lone (Fin.ofNat 0x800 (n - 0xd800)) else .char (Char.ofNat n)

/-- `bytes.decode("utf-8", "surrogatepass")` -/
def utf8Strict (p : Option Begun) : List Nat → Option Str
  | [] => if p.isSome then none else some []
  | b :: bs =>
    match p with
    | none =>
      if b < 128 then (utf8Strict none bs).map (uniOf b :: ·)
      else if b = 0xed then utf8Strict (some ⟨2, 0x80, 0xbf, 13⟩) bs
      else match Begun.of b with
        | some p => utf8Strict (some p) bs
        | none => none
    | some p =>
      if p.low ≤ b && b ≤ p.high then
        let bits := p.bits * 64 + (b - 0x80)
        if p.owed = 1 then (utf8Strict none bs).map (uniOf bits :: ·)
        else utf8Strict (some ⟨p.owed - 1, 0x80, 0xbf, bits⟩) bs
      else none

/-- Units of two bytes; nothing when one is cut short. -/
def units16 (big : Bool) : List Nat → Option (List Nat)
  | [] => some []
  | [_] => none
  | a :: b :: bs => (units16 big bs).map ((if big then 256 * a + b else a + 256 * b) :: ·)

/-- Two halves make a character, one alone stays. -/
def joinUnits : List Nat → Str
  | [] => []
  | [u] => [uniOf u]
  | u :: v :: us =>
    if Quoted.isHigh u && Quoted.isLow v then
      .char (Char.ofNat (0x10000 + (u - 0xd800) * 1024 + (v - 0xdc00))) :: joinUnits us
    else uniOf u :: joinUnits (v :: us)

/-- `bytes.decode("utf-16-be", "surrogatepass")`, or `"utf-16-le"` -/
def utf16 (big : Bool) (bs : List Nat) : Option Str := (units16 big bs).map joinUnits

/-- `bytes.decode("utf-32-be", "surrogatepass")`, or `"utf-32-le"` -/
def utf32 (big : Bool) : List Nat → Option Str
  | [] => some []
  | a :: b :: c :: d :: bs =>
    let n := if big then ((a * 256 + b) * 256 + c) * 256 + d else ((d * 256 + c) * 256 + b) * 256 + a
    if n < 0x110000 then (utf32 big bs).map (uniOf n :: ·) else none
  | _ => none

/-- What `json.loads` makes of bytes: their text in the encoding `detect_encoding` finds. -/
def jsonBytes (bs : List Nat) : Option Str :=
  match bs with
  | 0 :: 0 :: 0xfe :: 0xff :: rest => utf32 true rest
  | 0xff :: 0xfe :: 0 :: 0 :: rest => utf32 false rest
  | 0xfe :: 0xff :: rest => utf16 true rest
  | 0xff :: 0xfe :: rest => utf16 false rest
  | 0xef :: 0xbb :: 0xbf :: rest => utf8Strict none rest
  | 0 :: 0 :: _ :: _ :: _ => utf32 true bs
  | 0 :: _ :: _ :: _ :: _ => utf16 true bs
  | _ :: 0 :: 0 :: 0 :: _ => utf32 false bs
  | _ :: 0 :: _ :: _ :: _ => utf16 false bs
  | [0, _] => utf16 true bs
  | [_, 0] => utf16 false bs
  | _ => utf8Strict none bs

/-- `json.loads(b)`; bytes that cannot be decoded are a `UnicodeDecodeError`, a `ValueError` as the others. -/
def loadsBytes (limit : Nat) (bs : List UInt8) : Except LoadsError Json :=
  match jsonBytes (bs.map UInt8.toNat) with
  | some s => loads limit s.text
  | none => .error .decode

/-- The bytes are scanned as they are decoded. -/
theorem loadsBytes_eq (limit : Nat) (bs : List UInt8) : loadsBytes limit bs = match jsonBytes (bs.map UInt8.toNat) with
    | some s => (run limit {} (s.map Uni.toChar)).bind JsonText.finish
    | none => .error .decode := by
  unfold loadsBytes
  cases jsonBytes (bs.map UInt8.toNat) with
  | none => rfl
  | some s =>
    show loads limit s.text = _
    rw [loads, Str.text, String.toList_ofList]

end Py
