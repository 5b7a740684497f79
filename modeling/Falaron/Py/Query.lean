/-
Python's texts, and the query strings `urllib.parse` reads from them.

A Python text is a list of code points, lone surrogates among them: a text
that has one cannot be encoded. `unquote` decodes the percent escapes of
every run of ASCII characters as UTF-8, with a replacement character for
each broken part; `decode` is that decoder, one byte at a time.
-/
import Mathlib.Data.List.Lex
import Mathlib.Tactic.NormNum

namespace Py

/-- A code point: a character, or a lone surrogate. -/
inductive Uni where
  | char (c : Char)
  | lone (n : Fin 0x800)
  deriving DecidableEq, Repr

abbrev Str := List Uni

namespace Uni

def code : Uni → Nat
  | .char c => c.toNat
  | .lone n => 0xd800 + n

def isAscii (u : Uni) : Bool := u.code < 128

def isLone : Uni → Bool
  | .char _ => false
  | .lone _ => true

/-- The character; the replacement character for a lone surrogate. -/
def toChar : Uni → Char
  | .char c => c
  | .lone _ => Char.ofNat 0xfffd

end Uni

namespace Str

def ofString (s : String) : Str := s.toList.map .char

def text (s : Str) : String := .ofList (s.map Uni.toChar)

/-- `s.encode("utf-8")` succeeds. -/
def encodes (s : Str) : Bool := s.all (!·.isLone)

/-- `s.isascii()` -/
def isAscii (s : Str) : Bool := s.all (·.isAscii)

theorem text_ofString (s : String) : (ofString s).text = s := by
  have : (s.toList.map Uni.char).map Uni.toChar = s.toList := by
    rw [List.map_map]
    exact List.map_id s.toList
  rw [text, ofString, this, String.ofList_toList]

/-- A text that can be encoded is what its characters say. -/
theorem ofString_text {s : Str} (h : s.encodes = true) : ofString s.text = s := by
  rw [text, ofString, String.toList_ofList, List.map_map]
  refine List.map_congr_left (g := id) (fun u hu => ?_) |>.trans (List.map_id s)
  have := List.all_eq_true.1 h u hu
  cases u with
  | char c => rfl
  | lone n => cases this

end Str

/-! ## UTF-8 -/

/-- A character begun: the bytes still owed, the bounds of the next one, the bits read. -/
structure Begun where
  owed : Nat
  low : Nat
  high : Nat
  bits : Nat

/-- What a first byte above 127 begins. -/
def Begun.of (b : Nat) : Option Begun :=
  if 0xc2 ≤ b && b ≤ 0xdf then some ⟨1, 0x80, 0xbf, b - 0xc0⟩
  else if b = 0xe0 then some ⟨2, 0xa0, 0xbf, 0⟩
  else if b = 0xed then some ⟨2, 0x80, 0x9f, 13⟩
  else if 0xe1 ≤ b && b ≤ 0xef then some ⟨2, 0x80, 0xbf, b - 0xe0⟩
  else if b = 0xf0 then some ⟨3, 0x90, 0xbf, 0⟩
  else if 0xf1 ≤ b && b ≤ 0xf3 then some ⟨3, 0x80, 0xbf, b - 0xf0⟩
  else if b = 0xf4 then some ⟨3, 0x80, 0x8f, 4⟩
  else none

def replacement : Uni := .char (Char.ofNat 0xfffd)

/-- A byte between characters: what it is by itself, and what it begins. -/
def first (b : Nat) : Str × Option Begun :=
  if b < 128 then ([.char (Char.ofNat b)], none)
  else match Begun.of b with
    | some p => ([], some p)
    | none => ([replacement], none)

/-- One byte more; one that does not fit ends the character broken and is read anew. -/
def next (p : Option Begun) (b : Nat) : Str × Option Begun :=
  match p with
  | none => first b
  | some p =>
    if p.low ≤ b && b ≤ p.high then
      let bits := p.bits * 64 + (b - 0x80)
      if p.owed = 1 then ([.char (Char.ofNat bits)], none) else ([], some ⟨p.owed - 1, 0x80, 0xbf, bits⟩)
    else (replacement :: (first b).1, (first b).2)

/-- The end of a run of bytes. -/
def broken : Option Begun → Str
  | none => []
  | some _ => [replacement]

/-- A byte of a run, or a character that ends it. -/
inductive Piece where
  | byte (b : Nat)
  | uni (u : Uni)

/-- `bytes.decode("utf-8", "replace")`, for every run of bytes among the pieces. -/
def decode (p : Option Begun) : List Piece → Str
  | [] => broken p
  | .byte b :: ps => (next p b).1 ++ decode (next p b).2 ps
  | .uni u :: ps => broken p ++ u :: decode none ps

/-! ## What UTF-8 writes is read back -/

theorem toNat_ofNat_of_lt {n : Nat} (h : n < 256) : (UInt8.ofNat n).toNat = n := by
  simp [UInt8.toNat_ofNat', Nat.mod_eq_of_lt h]

section

variable {b n lo hi bits : Nat} {p : Begun} {ps : List Piece}

/-- The first byte of a character of several. -/
theorem decode_begin (hb : 128 ≤ b) (hp : Begun.of b = some p) : decode none (.byte b :: ps) = decode (some p) ps := by
  simp only [decode, next, first, if_neg (show ¬ b < 128 by omega), hp, List.nil_append]

theorem decode_more (hlo : lo ≤ b) (hhi : b ≤ hi) : decode (some ⟨n + 2, lo, hi, bits⟩) (.byte b :: ps) =
    decode (some ⟨n + 1, 0x80, 0xbf, bits * 64 + (b - 0x80)⟩) ps := by
  simp [decode, next, hlo, hhi]

theorem decode_last (hlo : lo ≤ b) (hhi : b ≤ hi) : decode (some ⟨1, lo, hi, bits⟩) (.byte b :: ps) =
    .char (Char.ofNat (bits * 64 + (b - 0x80))) :: decode none ps := by
  simp [decode, next, hlo, hhi]

end

/-- A character's own bytes are read as the character. -/
theorem decode_utf8EncodeChar (c : Char) (ps : List Piece) :
    decode none ((String.utf8EncodeChar c).map (fun b => .byte b.toNat) ++ ps) = .char c :: decode none ps := by
  have hc : c.toNat < 0xd800 ∨ 0xdfff < c.toNat ∧ c.toNat < 0x110000 := c.valid
  have hback : Char.ofNat c.toNat = c := Char.ofNat_toNat c
  have hval : c.val.toNat = c.toNat := rfl
  generalize hv : c.toNat = v at hc hback hval
  have htail (n : Nat) : (UInt8.ofNat (n % 64 + 128)).toNat = n % 64 + 128 := toNat_ofNat_of_lt (by omega)
  unfold String.utf8EncodeChar
  simp only [hval]
  split
  · next h1 =>
    simp only [List.map_cons, List.map_nil, List.cons_append, List.nil_append, decode, next, first,
      toNat_ofNat_of_lt (show v < 256 by omega), if_pos (show v < 128 by omega), hback]
  split
  · next h1 h2 =>
    have hfirst : (UInt8.ofNat (v / 64 % 32 + 192)).toNat = v / 64 + 192 := by
      rw [toNat_ofNat_of_lt (by omega)]
      omega
    have hof : Begun.of (v / 64 + 192) = some ⟨1, 0x80, 0xbf, v / 64⟩ := by
      simp only [Begun.of]
      rw [if_pos (by simp only [Bool.and_eq_true, decide_eq_true_eq]; omega)]
      simp
    simp only [List.map_cons, List.map_nil, List.cons_append, List.nil_append, hfirst, htail]
    rw [decode_begin (by omega) hof, decode_last (by omega) (by omega), show v / 64 * 64 + (v % 64 + 128 - 0x80) = v by omega, hback]
  split
  · next h1 h2 h3 =>
    have hfirst : (UInt8.ofNat (v / 4096 % 16 + 224)).toNat = v / 4096 + 224 := by
      rw [toNat_ofNat_of_lt (by omega)]
      omega
    obtain ⟨lo, hi, hof, hlo, hhi⟩ : ∃ lo hi, Begun.of (v / 4096 + 224) = some ⟨2, lo, hi, v / 4096⟩ ∧
        lo ≤ v / 64 % 64 + 128 ∧ v / 64 % 64 + 128 ≤ hi := by
      simp only [Begun.of]
      by_cases h0 : v / 4096 = 0
      · exact ⟨0xa0, 0xbf, by simp [h0], by omega, by omega⟩
      · by_cases hd : v / 4096 = 13
        · exact ⟨0x80, 0x9f, by simp [hd], by omega, by omega⟩
        · refine ⟨0x80, 0xbf, ?_, by omega, by omega⟩
          rw [if_neg (by simp only [Bool.and_eq_true, decide_eq_true_eq]; omega), if_neg (by omega), if_neg (by omega),
            if_pos (by simp only [Bool.and_eq_true, decide_eq_true_eq]; omega)]
          simp
    simp only [List.map_cons, List.map_nil, List.cons_append, List.nil_append, hfirst, htail]
    rw [decode_begin (by omega) hof, decode_more hlo hhi, decode_last (by omega) (by omega),
      show (v / 4096 * 64 + (v / 64 % 64 + 128 - 0x80)) * 64 + (v % 64 + 128 - 0x80) = v by omega, hback]
  · next h1 h2 h3 =>
    have hfirst : (UInt8.ofNat (v / 262144 % 8 + 240)).toNat = v / 262144 + 240 := by
      rw [toNat_ofNat_of_lt (by omega)]
      omega
    obtain ⟨lo, hi, hof, hlo, hhi⟩ : ∃ lo hi, Begun.of (v / 262144 + 240) = some ⟨3, lo, hi, v / 262144⟩ ∧
        lo ≤ v / 4096 % 64 + 128 ∧ v / 4096 % 64 + 128 ≤ hi := by
      simp only [Begun.of]
      by_cases h0 : v / 262144 = 0
      · exact ⟨0x90, 0xbf, by simp [h0], by omega, by omega⟩
      · by_cases hd : v / 262144 = 4
        · exact ⟨0x80, 0x8f, by simp [hd], by omega, by omega⟩
        · refine ⟨0x80, 0xbf, ?_, by omega, by omega⟩
          rw [if_neg (by simp only [Bool.and_eq_true, decide_eq_true_eq]; omega), if_neg (by omega), if_neg (by omega),
            if_neg (by simp only [Bool.and_eq_true, decide_eq_true_eq]; omega), if_neg (by omega),
            if_pos (by simp only [Bool.and_eq_true, decide_eq_true_eq]; omega)]
          simp
    simp only [List.map_cons, List.map_nil, List.cons_append, List.nil_append, hfirst, htail]
    rw [decode_begin (by omega) hof, decode_more hlo hhi, decode_more (by omega) (by omega), decode_last (by omega) (by omega),
      show ((v / 262144 * 64 + (v / 4096 % 64 + 128 - 0x80)) * 64 + (v / 64 % 64 + 128 - 0x80)) * 64 +
        (v % 64 + 128 - 0x80) = v by omega, hback]

theorem decode_utf8Encode (cs : List Char) :
    decode none (cs.flatMap fun c => (String.utf8EncodeChar c).map fun b => .byte b.toNat) = cs.map .char := by
  induction cs with
  | nil => rfl
  | cons c cs ih => rw [List.flatMap_cons, decode_utf8EncodeChar, ih, List.map_cons]

/-! ## Percent escapes -/

def hexValue (c : Char) : Option Nat :=
  if '0' ≤ c && c ≤ '9' then some (c.toNat - 48)
  else if 'a' ≤ c && c ≤ 'f' then some (c.toNat - 87)
  else if 'A' ≤ c && c ≤ 'F' then some (c.toNat - 55)
  else none

/-- `%XX` at the front: its byte. -/
def escape : Str → Option Nat
  | .char '%' :: .char a :: .char b :: _ => (hexValue a).bind fun x => (hexValue b).map (16 * x + ·)
  | _ => none

def Piece.of (u : Uni) : Piece := if u.isAscii then .byte u.code else .uni u

/-- The text with its escapes as bytes. -/
def pieces : Str → List Piece
  | [] => []
  | u :: s =>
    match escape (u :: s), s with
    | some b, _ :: _ :: s => .byte b :: pieces s
    | _, s => .of u :: pieces s

/-- `urllib.parse.unquote(s)` -/
def unquote (s : Str) : Str := decode none (pieces s)

/-- Somewhere in the text stands a percent escape. -/
def hasEscape : Str → Bool
  | [] => false
  | u :: s => (escape (u :: s)).isSome || hasEscape s

theorem next_length (p : Option Begun) (b : Nat) :
    (next p b).1.length + (broken (next p b).2).length ≤ (broken p).length + 1 := by
  have hfirst : (first b).1.length + (broken (first b).2).length ≤ 1 := by
    unfold first
    split
    · simp [broken]
    · split <;> simp [broken]
  cases p with
  | none => simpa [next, broken] using hfirst
  | some p =>
    simp only [next]
    split
    · split <;> simp [broken]
    · show (replacement :: (first b).1).length + (broken (first b).2).length ≤ 1 + 1
      rw [List.length_cons]
      omega

/-- Decoding makes no text longer. -/
theorem decode_length (p : Option Begun) (ps : List Piece) :
    (decode p ps).length ≤ (broken p).length + ps.length := by
  induction ps generalizing p with
  | nil => exact Nat.le_add_right _ _
  | cons q ps ih =>
    cases q with
    | byte b =>
      have := ih (next p b).2
      have := next_length p b
      simp only [decode, List.length_append, List.length_cons]
      omega
    | uni u =>
      have := ih none
      simp only [decode, List.length_append, List.length_cons, broken, List.length_nil] at this ⊢
      omega

theorem escape_cons {s : Str} {b : Nat} (h : escape s = some b) : ∃ u x y t, s = u :: x :: y :: t := by
  unfold escape at h
  split at h
  · exact ⟨_, _, _, _, rfl⟩
  · cases h

theorem pieces_escape {u x y : Uni} {s : Str} {b : Nat} (h : escape (u :: x :: y :: s) = some b) :
    pieces (u :: x :: y :: s) = .byte b :: pieces s := by
  rw [pieces.eq_def]
  simp only [h]

theorem pieces_plain {u : Uni} {s : Str} (h : escape (u :: s) = none) :
    pieces (u :: s) = .of u :: pieces s := by
  rw [pieces.eq_def]
  simp only [h]

theorem pieces_length (s : Str) : (pieces s).length ≤ s.length ∧
    (hasEscape s = true → (pieces s).length < s.length) := by
  induction hn : s.length using Nat.strong_induction_on generalizing s with
  | _ n ih =>
    subst hn
    cases s with
    | nil => exact ⟨le_rfl, nofun⟩
    | cons u s =>
      cases he : escape (u :: s) with
      | none =>
        obtain ⟨hle, hlt⟩ := ih s.length (by simp) s rfl
        rw [pieces_plain he]
        refine ⟨by simpa using hle, fun h => ?_⟩
        simp only [hasEscape, he, Option.isSome_none, Bool.false_or] at h
        simpa using hlt h
      | some b =>
        obtain ⟨u', x, y, t, ht⟩ := escape_cons he
        obtain ⟨rfl, rfl⟩ := List.cons.inj ht
        obtain ⟨hle, -⟩ := ih t.length (by simp; omega) t rfl
        rw [pieces_escape he]
        simp only [List.length_cons]
        exact ⟨by omega, fun _ => by omega⟩

theorem decode_of (u : Uni) (ps : List Piece) : decode none (.of u :: ps) = u :: decode none ps := by
  unfold Piece.of
  split
  · next h =>
    cases u with
    | char c =>
      have hc : c.toNat < 128 := of_decide_eq_true h
      simp [decode, next, first, Uni.code, hc]
    | lone n =>
      have hn : 0xd800 + n.val < 128 := of_decide_eq_true h
      omega
  · rfl

/-- **Unquoting changes exactly the texts with an escape.** -/
theorem unquote_eq_self_iff (s : Str) : unquote s = s ↔ hasEscape s = false := by
  constructor
  · intro h
    by_contra hne
    have hlt := (pieces_length s).2 (by simpa using hne)
    have hle := decode_length none (pieces s)
    rw [show decode none (pieces s) = s from h] at hle
    simp only [broken, List.length_nil] at hle
    omega
  · intro h
    induction s with
    | nil => rfl
    | cons u s ih =>
      simp only [hasEscape, Bool.or_eq_false_iff, Option.isSome_eq_false_iff, Option.isNone_iff_eq_none] at h
      rw [unquote, pieces_plain h.1, decode_of]
      exact congrArg _ (ih h.2)

example : (unquote (Str.ofString "%41%e2%82%acx%E2%82%zz")).text = "A€x\ufffd%zz" := by decide +kernel

/-! ## Query strings -/

/-- A name or a value: `+` is a space, the rest is unquoted. -/
def unquotePlus (s : Str) : Str := unquote (s.map fun u => if u = .char '+' then .char ' ' else u)

/-- One pair; the name ends at the first `=`. -/
def readPair (s : Str) : Str × Str :=
  (unquotePlus (s.takeWhile (· ≠ .char '=')), unquotePlus (s.dropWhile (· ≠ .char '=')).tail)

/-- `parse_qsl(s, keep_blank_values=True)` -/
def parseQsl (s : Str) : List (Str × Str) := ((s.splitOn (.char '&')).filter (· ≠ [])).map readPair

/-- `d[k] = v` -/
def assign {α κ : Type} [DecidableEq κ] (d : List (κ × α)) (k : κ) (v : α) : List (κ × α) :=
  if d.any (·.1 = k) then d.map fun p => if p.1 = k then (k, v) else p else d ++ [(k, v)]

/-- `dict(pairs)`: a key keeps its first place and takes its last value. -/
def dictOf {α κ : Type} [DecidableEq κ] (pairs : List (κ × α)) : List (κ × α) :=
  pairs.foldl (fun d p => assign d p.1 p.2) []

/-- `d.get(k)` -/
def get? {α κ : Type} [DecidableEq κ] (d : List (κ × α)) (k : κ) : Option α := (d.find? (·.1 = k)).map (·.2)

/-- `d.pop(k, None)`, without the value -/
def without {α κ : Type} [DecidableEq κ] (d : List (κ × α)) (k : κ) : List (κ × α) := d.filter (·.1 ≠ k)

example : (dictOf (parseQsl (Str.ofString "a=1&b=x%3Dy+z&&a=2&c"))).map (fun p => (p.1.text, p.2.text)) =
    [("a", "2"), ("b", "x=y z"), ("c", "")] := by decide +kernel

end Py
