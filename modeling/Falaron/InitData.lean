/-
What Telegram signs of a Mini App's launch, and how the first system checks it.

The launch data is a query string. Its fields but the hash, sorted and one
to a line, are the text the hash is the HMAC of; `validate_telegram_init_data`
computes it again, compares, and then reads the date and the user.

Its docstring promises a `ValueError` on any failure. Three kinds of string
raise something else (`validate_value_errors_iff`): `hmac.compare_digest`
refuses a hash that is not ASCII, the clock's float cannot be compared with
a date beyond the doubles, and the JSON decoder gives up on a user that is
nested too deep. Only the first needs no right hash.

`hmac` is HMAC-SHA256 of a key and a message, whatever it computes; `now` is
the exact value of the clock's float.
-/
import Falaron.Py.JsonText

namespace Falaron.InitData

open Py (Str Uni Json)

/-! ## What is signed -/

abbrev Fields := List (Str × Str)

def eq : Uni := .char '='

def newline : Uni := .char '\n'

/-- `f"{k}={v}"` -/
def line (p : Str × Str) : Str := p.1 ++ eq :: p.2

def insertField (p : Str × Str) : Fields → Fields
  | [] => [p]
  | q :: fields => if p.1.map Uni.code ≤ q.1.map Uni.code then p :: q :: fields else q :: insertField p fields

/-- `sorted(fields.items())`; the keys are distinct. -/
def sortFields (fields : Fields) : Fields := fields.foldr insertField []

/-- `"\n".join(f"{k}={v}" for k, v in sorted(fields.items()))` -/
def dataCheckString (fields : Fields) : Str := List.intercalate [newline] ((sortFields fields).map line)

def bytes (s : String) : List UInt8 := s.toUTF8.data.toList

/-- `digest.hex()` -/
def hexdigest (digest : List UInt8) : Str :=
  digest.flatMap fun b => [.char (Text.hexDigit (b.toNat / 16)), .char (Text.hexDigit (b.toNat % 16))]

/-- The HMAC of a text under the bot's token. -/
def computedHash (hmac : List UInt8 → List UInt8 → List UInt8) (botToken text : String) : Str :=
  hexdigest (hmac (hmac (bytes "WebAppData") (bytes botToken)) (bytes text))

/-! ## The fields of a launch string -/

/-- `dict(parse_qsl(init_data, keep_blank_values=True))` -/
def parsed (initData : Str) : Fields := Py.dictOf (Py.parseQsl initData)

/-- `d.get(key)`, or the empty text -/
def fieldOf (fields : Fields) (key : String) : Str := (Py.get? fields (Str.ofString key)).getD []

def receivedHash (initData : Str) : Str := fieldOf (parsed initData) "hash"

/-- The fields but the hash. -/
def fieldsOf (initData : Str) : Fields := Py.without (parsed initData) (Str.ofString "hash")

def textOf (initData : Str) : Str := dataCheckString (fieldsOf initData)

/-! ## `app/security.py` -/

inductive Exc where
  /-- A `ValueError`, of whichever class. -/
  | value (text : String)
  | type (text : String)
  | overflow (text : String)
  | recursion
  deriving DecidableEq, Repr

/-- The fields validated, and the decoded user; none where the field is empty or missing. -/
structure Validated where
  fields : Fields
  user : Option Json

/-- `hmac.compare_digest(a, b)`, two texts -/
def compareDigest (a b : Str) : Except Exc Bool :=
  if a.isAscii && b.isAscii then .ok (a = b)
  else .error (.type "comparing strings with non-ASCII characters is not supported")

/-- `now - date`, a float and an integer -/
def age (now : Rat) (date : Int) : Except Exc Py.Double :=
  match Py.toDouble date with
  | .finite x => .ok (Py.toDouble (now - x))
  | _ => .error (.overflow "int too large to convert to float")

/-- `age > max_age_seconds or age < -300` -/
def expired (maxAge : Int) : Py.Double → Bool
  | .finite x => maxAge < x || x < -300
  | .inf _ => true
  | .nan => false

section

variable (hmac : List UInt8 → List UInt8 → List UInt8) (botToken : String) (limit : Nat) (now : Rat) (maxAge : Int)

/-- `json.loads(user_raw)` and what is asked of the result. -/
def readUser (fields : Fields) : Except Exc Validated :=
  match Py.loads limit (fieldOf fields "user").text with
  | .ok (.object f) =>
    if Py.hasField f "id" then .ok ⟨fields, some (.object f)⟩ else .error (.value "initData user id missing")
  | .ok _ => .error (.value "initData user id missing")
  | .error .decode => .error (.value "initData user payload invalid")
  | .error .digits => .error (.value "Exceeds the limit (4300 digits) for integer string conversion")
  | .error .recursion => .error .recursion

/-- The checks behind the comparison of the hashes. -/
def readFields (fields : Fields) : Except Exc Validated :=
  let raw := fieldOf fields "auth_date"
  if raw = [] then .error (.value "initData auth_date missing")
  else match Py.intOfText raw.text with
    | none => .error (.value "initData auth_date invalid")
    | some date =>
      match age now date with
      | .error e => .error e
      | .ok a =>
        if expired maxAge a then .error (.value "initData expired")
        else if fieldOf fields "user" = [] then .ok ⟨fields, none⟩
        else readUser limit fields

/-- `validate_telegram_init_data` -/
def validate (initData : Str) : Except Exc Validated :=
  let hash := receivedHash initData
  let text := textOf initData
  if initData = [] then .error (.value "initData is required")
  else if hash = [] then .error (.value "initData hash missing")
  else if text.encodes = false then
    .error (.value "'utf-8' codec can't encode character: surrogates not allowed")
  else match compareDigest (computedHash hmac botToken text.text) hash with
    | .error e => .error e
    | .ok false => .error (.value "initData HMAC mismatch")
    | .ok true => readFields limit now maxAge (fieldsOf initData)

end

/-- `extract_telegram_user_id` -/
def extractUserId (d : Validated) : Except Exc Int :=
  match d.user with
  | some (.object f) =>
    if Py.hasField f "id" then
      match (Py.field f "id").toInt with
      | .ok n => .ok n
      | .error .overflowError => .error (.overflow "cannot convert float infinity to integer")
      | .error _ => .error (.value "Telegram user id missing from initData")
    else .error (.value "Telegram user id missing from initData")
  | _ => .error (.value "Telegram user id missing from initData")

/-! ## Nothing but value errors -/

def OnlyValueErrors {α : Type} (r : Except Exc α) : Prop := ∀ e, r = .error e → ∃ text, e = .value text

section

variable {α : Type}

theorem OnlyValueErrors.ok (a : α) : OnlyValueErrors (.ok a) := nofun

theorem OnlyValueErrors.value (text : String) : OnlyValueErrors (α := α) (.error (.value text)) := by
  rintro e ⟨⟩
  exact ⟨text, rfl⟩

theorem not_onlyValueErrors {e : Exc} (h : ∀ text, e ≠ .value text) : ¬ OnlyValueErrors (α := α) (.error e) := fun hr =>
  let ⟨text, he⟩ := hr e rfl
  h text he

end

section

variable (hmac : List UInt8 → List UInt8 → List UInt8) (botToken : String) (limit : Nat) (now : Rat) (maxAge : Int)
  (initData : Str)

/-- The hash is the right one. -/
def Authentic : Prop :=
  receivedHash initData ≠ [] ∧ (textOf initData).encodes = true ∧
    computedHash hmac botToken (textOf initData).text = receivedHash initData

/-- The hash has a character beyond ASCII, and the text it is compared for can be encoded. -/
def NonAsciiHash : Prop := (receivedHash initData).isAscii = false ∧ (textOf initData).encodes = true

/-- The date is beyond the doubles. -/
def HugeDate : Prop :=
  ∃ date, Py.intOfText (fieldOf (fieldsOf initData) "auth_date").text = some date ∧ Py.tooBig ≤ |(date : Rat)|

/-- The date is fresh, and the user is nested deeper than the decoder goes. -/
def DeepUser : Prop :=
  ∃ date a, Py.intOfText (fieldOf (fieldsOf initData) "auth_date").text = some date ∧ age now date = .ok a ∧
    expired maxAge a = false ∧ Py.loads limit (fieldOf (fieldsOf initData) "user").text = .error .recursion

variable {hmac botToken limit now maxAge initData}

theorem hexDigit_ascii {n : Nat} (h : n < 16) : (Text.hexDigit n).toNat < 128 := by
  have : ∀ n : Fin 16, (Text.hexDigit n).toNat < 128 := by decide
  exact this ⟨n, h⟩

theorem hexdigest_ascii (digest : List UInt8) : (hexdigest digest).isAscii = true := by
  simp only [hexdigest, Str.isAscii, List.all_flatMap, List.all_eq_true]
  intro b _ c hc
  have hb := b.toNat_lt
  rcases List.mem_cons.1 hc with rfl | hc
  · exact decide_eq_true (hexDigit_ascii (by omega))
  · rw [List.mem_singleton.1 hc]
    exact decide_eq_true (hexDigit_ascii (by omega))

theorem computedHash_ascii (text : String) : (computedHash hmac botToken text).isAscii = true := hexdigest_ascii _

theorem age_eq (now : Rat) (date : Int) : (∃ a, age now date = .ok a) ∧ ¬ Py.tooBig ≤ |(date : Rat)| ∨
    age now date = .error (.overflow "int too large to convert to float") ∧ Py.tooBig ≤ |(date : Rat)| := by
  rw [← Py.toDouble_isInf]
  unfold age
  cases hd : Py.toDouble date with
  | finite x => exact .inl ⟨⟨_, rfl⟩, id⟩
  | inf b => exact .inr ⟨rfl, trivial⟩
  | nan =>
    exfalso
    unfold Py.toDouble at hd
    split at hd <;> cases hd

theorem text_nil : Str.text [] = "" := rfl

theorem readUser_value_errors (fields : Fields) : OnlyValueErrors (readUser limit fields) ↔
    Py.loads limit (fieldOf fields "user").text ≠ .error .recursion := by
  unfold readUser
  cases Py.loads limit (fieldOf fields "user").text with
  | ok v =>
    refine iff_of_true ?_ nofun
    cases v with
    | object f =>
      show OnlyValueErrors (if _ then _ else _)
      split
      · exact .ok _
      · exact .value _
    | _ => exact .value _
  | error e =>
    cases e with
    | recursion => exact iff_of_false (not_onlyValueErrors fun _ => nofun) (fun h => h rfl)
    | _ => exact iff_of_true (.value _) nofun

theorem readFields_value_errors : OnlyValueErrors (readFields limit now maxAge (fieldsOf initData)) ↔
    ¬ (HugeDate initData ∨ DeepUser limit now maxAge initData) := by
  have hempty : Py.intOfText "" = none := by decide
  unfold readFields HugeDate DeepUser
  by_cases hraw : fieldOf (fieldsOf initData) "auth_date" = []
  · rw [if_pos hraw, hraw, text_nil, hempty]
    exact iff_of_true (.value _) (by simp)
  rw [if_neg hraw]
  cases hdate : Py.intOfText (fieldOf (fieldsOf initData) "auth_date").text with
  | none => exact iff_of_true (.value _) (by simp)
  | some date =>
    rcases age_eq now date with ⟨⟨a, ha⟩, hsmall⟩ | ⟨ha, hbig⟩
    · simp only [ha]
      split
      · next hold => exact iff_of_true (.value _) (by simp [hsmall, hold, ha])
      · next hfresh =>
        split
        · next huser =>
          refine iff_of_true (.ok _) ?_
          rw [huser, text_nil]
          rintro (⟨d, hd, hb⟩ | ⟨d, a, -, -, -, hl⟩)
          · exact hsmall (Option.some.inj hd ▸ hb)
          · cases hl
        · rw [readUser_value_errors]
          refine not_congr ⟨fun h => .inr ⟨date, a, rfl, ha, by simpa using hfresh, h⟩, ?_⟩
          rintro (⟨d, hd, hb⟩ | ⟨d, a, -, -, -, hl⟩)
          · exact absurd (Option.some.inj hd ▸ hb) hsmall
          · exact hl
    · simp only [ha]
      exact iff_of_false (not_onlyValueErrors fun _ => nofun) (fun h => h (.inl ⟨date, rfl, hbig⟩))

theorem receivedHash_nil : receivedHash [] = [] := by decide

/-- **Validation raises nothing but `ValueError`** exactly where the hash is
ASCII and, if it is right, the date is a double's and the user not nested too deep. -/
theorem validate_value_errors_iff : OnlyValueErrors (validate hmac botToken limit now maxAge initData) ↔
    ¬ (NonAsciiHash initData ∨
      Authentic hmac botToken initData ∧ (HugeDate initData ∨ DeepUser limit now maxAge initData)) := by
  unfold validate NonAsciiHash Authentic
  by_cases hnil : initData = []
  · subst hnil
    exact iff_of_true (.value _) (by simp [receivedHash_nil, Str.isAscii])
  rw [if_neg hnil]
  by_cases hhash : receivedHash initData = []
  · rw [if_pos hhash]
    exact iff_of_true (.value _) (by simp [hhash, Str.isAscii])
  rw [if_neg hhash]
  by_cases henc : (textOf initData).encodes = false
  · rw [if_pos henc]
    exact iff_of_true (.value _) (by simp [henc])
  rw [if_neg henc]
  have henc : (textOf initData).encodes = true := by simpa using henc
  simp only [compareDigest, computedHash_ascii, Bool.true_and]
  cases hascii : (receivedHash initData).isAscii with
  | false => exact iff_of_false (not_onlyValueErrors fun _ => nofun) (by simp [henc])
  | true =>
    by_cases heq : computedHash hmac botToken (textOf initData).text = receivedHash initData
    · simp only [heq, if_true, decide_true]
      rw [readFields_value_errors]
      simp [henc, hhash]
    · simp only [heq, if_true, decide_false]
      exact iff_of_true (.value _) (by simp)

end

/-! ## A hash beyond ASCII -/

/-- The bytes that hexadecimal texts write. -/
def fromHex (texts : List String) : List UInt8 := go (texts.flatMap String.toList)
where
  go : List Char → List UInt8
    | a :: b :: cs => .ofNat (16 * (Py.hexValue a).getD 0 + (Py.hexValue b).getD 0) :: go cs
    | _ => []

def sampleToken : String := "110201543:AAHdqTcvCH1vGWJxfSeofSAs0K5PALDsaw"

/-- HMAC-SHA256 on the sample token, and then on one text with the given HMAC. -/
def sampleHmac (digest : List String) (key _ : List UInt8) : List UInt8 :=
  if key = bytes "WebAppData" then
    fromHex ["ad093ec5f5c485cdafd0e308cf3c5924", "565dfeaf55c8b9aeb523600d4cf7d77b"]
  else fromHex digest

theorem error_of_map {ε α β : Type} {f : α → β} {r : Except ε α} {e : ε} (h : r.map f = .error e) :
    r = .error e := by
  cases r with
  | ok a => cases h
  | error e' => exact congrArg _ (Except.error.inj h)

/-- A launch string whose hash is an accented letter. -/
def accented : Str := Str.ofString "auth_date=1767225600&hash=%C3%A9"

/-- Anyone can send one. -/
theorem accented_hash_raises_type_error :
    let hmac := sampleHmac ["9172b3a24fa00f164539e3e77d6e5c8c", "7786c8d87d8acde4e2f9b73b66b8de2f"]
    ¬ OnlyValueErrors (validate hmac sampleToken 900 1767225600 86400 accented) := by
  intro hmac
  have hr : (validate hmac sampleToken 900 1767225600 86400 accented).map (fun _ => ()) =
      .error (.type "comparing strings with non-ASCII characters is not supported") := by decide +kernel
  rw [error_of_map hr]
  exact not_onlyValueErrors fun _ => nofun

end Falaron.InitData
