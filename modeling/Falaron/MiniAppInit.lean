/-
How the second system reads a Mini App's launch, and whose it takes it for.

`verify_init_data` checks the hash over the decoded fields, as the first
system does, and then decodes the user once more before it parses it. A user
may write percent escapes into his name: Telegram signs them as characters
of a JSON string, and the second decoding makes quotes and commas of them
that end the string and begin a field of his choice.
-/
import Falaron.InitDataBinding

namespace Falaron.MiniApp

open Py (Str Json)
open InitData (Fields Authentic fieldsOf receivedHash textOf computedHash compareDigest)

inductive Exc where
  | invalidInitData (detail : String)
  /-- What the function lets through. -/
  | typeError
  | unicodeEncodeError
  | attributeError
  deriving DecidableEq, Repr

/-- `params.get(key, default)` -/
def param (fields : Fields) (key default : String) : Str :=
  (Py.get? fields (Str.ofString key)).getD (Str.ofString default)

/-- The text that is parsed: `unquote(params.get("user", "{}"))`. -/
def userText (fields : Fields) : Str := Py.unquote (param fields "user" "\x7b\x7d")

section

variable (hmac : List UInt8 → List UInt8 → List UInt8) (botToken : String) (limit : Nat) (repr : Str → String)
  (now maxAge : Int)

/-- The user's part, the staleness checked. -/
def readUser (fields : Fields) : Except Exc Py.Dict :=
  match Py.loads limit (userText fields).text with
  | .error _ => .error (.invalidInitData "Failed to parse user JSON in initData")
  | .ok (.object user) =>
    if (Py.field user "id").truthy then .ok user else .error (.invalidInitData "Missing user.id in initData")
  | .ok _ => .error .attributeError

/-- What follows the comparison; `now` is `int(time.time())`. -/
def readParams (fields : Fields) : Except Exc Py.Dict :=
  match Py.intOfText (param fields "auth_date" "0").text with
  | none => .error (.invalidInitData ("Invalid auth_date: " ++ repr (param fields "auth_date" "0")))
  | some date =>
    if maxAge < now - date then
      .error (.invalidInitData ("initData is stale: age=" ++ toString (now - date) ++ "s max=" ++ toString maxAge ++ "s"))
    else readUser limit fields

/-- `verify_init_data` -/
def verify (initData : Str) : Except Exc Py.Dict :=
  let hash := receivedHash initData
  let text := textOf initData
  if initData = [] then .error (.invalidInitData "Empty initData")
  else if hash = [] then .error (.invalidInitData "Missing hash in initData")
  else if text.encodes = false then .error .unicodeEncodeError
  else match compareDigest (computedHash hmac botToken text.text) hash with
    | .error _ => .error .typeError
    | .ok false => .error (.invalidInitData "initData HMAC verification failed")
    | .ok true => readParams limit repr now maxAge (fieldsOf initData)

/-! ## Launches Telegram has signed -/

/-- A launch string, fresh and with the right hash, whose user field is a
JSON object with the id; the other fields of the object are anything. -/
structure Launch (initData user : Str) (id : Int) : Prop where
  authentic : Authentic hmac botToken initData
  fresh : ∃ date, Py.intOfText (param (fieldsOf initData) "auth_date" "0").text = some date ∧ now - date ≤ maxAge
  signed : Py.get? (fieldsOf initData) (Str.ofString "user") = some user
  json : ∃ f, Py.loads limit user.text = .ok (.object f) ∧ Py.field f "id" = .int id
  numbered : id ≠ 0

/-- The user is parsed as signed, decoded once, and his id is the one returned. -/
def TakenAsSigned (initData user : Str) (id : Int) : Prop :=
  userText (fieldsOf initData) = user ∧
    ∃ f, verify hmac botToken limit repr now maxAge initData = .ok f ∧ Py.field f "id" = .int id

variable {hmac botToken limit repr now maxAge} {initData user : Str} {id : Int}

theorem compareDigest_authentic (h : Authentic hmac botToken initData) :
    compareDigest (computedHash hmac botToken (textOf initData).text) (receivedHash initData) =
      .ok true := by
  have hascii : (computedHash hmac botToken (textOf initData).text).isAscii = true :=
    InitData.computedHash_ascii _
  rw [h.2.2] at hascii ⊢
  simp [compareDigest, hascii]

theorem verify_authentic (h : Authentic hmac botToken initData) :
    verify hmac botToken limit repr now maxAge initData = readParams limit repr now maxAge (fieldsOf initData) := by
  have hne : initData ≠ [] := by
    rintro rfl
    exact h.1 InitData.receivedHash_nil
  simp only [verify, compareDigest_authentic h]
  rw [if_neg hne, if_neg h.1, if_neg (by simp [h.2.1])]

/-- **A launch is taken as it was signed** exactly where no percent escape is
left in the user Telegram signed. -/
theorem taken_as_signed_iff (h : Launch hmac botToken limit now maxAge initData user id) :
    TakenAsSigned hmac botToken limit repr now maxAge initData user id ↔ Py.hasEscape user = false := by
  have htext : userText (fieldsOf initData) = Py.unquote user := by
    rw [userText, param, h.signed, Option.getD_some]
  rw [← Py.unquote_eq_self_iff, TakenAsSigned, htext]
  refine ⟨fun hr => hr.1, fun hone => ⟨hone, ?_⟩⟩
  obtain ⟨date, hdate, hfresh⟩ := h.fresh
  obtain ⟨f, hf, hid⟩ := h.json
  have hloads : Py.loads limit (userText (fieldsOf initData)).text = .ok (.object f) := by
    rw [htext, hone]
    exact hf
  have htruthy : (Py.field f "id").truthy = true := by
    rw [hid]
    exact decide_eq_true h.numbered
  refine ⟨f, ?_, hid⟩
  rw [verify_authentic h.authentic]
  simp only [readParams, hdate, readUser, hloads]
  rw [if_neg (by omega), if_pos htruthy]

end

/-! ## Two launches -/

/-- The id verified, where there is one. -/
def idOf (r : Except Exc Py.Dict) : Option Int := r.toOption.bind fun f => (Py.field f "id").toInt.toOption

/-- A launch of user 7 whose first name is `%22,%22id%22:5,%22x%22:%22`. -/
def percentName : Str :=
  ["auth_date=1767225600", "&user=%7B%22id%22%3A7%2C", "%22first_name%22%3A%22",
    "%2522%2C%2522id%2522%3A5", "%2C%2522x%2522%3A%2522", "%22%7D",
    "&hash=d2b8dc72c55871a7bb3d61546da877b7", "7342ab1e79536520c39c867528773ea9"].flatMap Str.ofString

def percentUser : Str :=
  ["\x7b\"id\":7,\"first_name\":\"", "%22,%22id%22:5,%22x%22:%22", "\"\x7d"].flatMap Str.ofString

def percentHmac : List UInt8 → List UInt8 → List UInt8 :=
  InitData.sampleHmac ["d2b8dc72c55871a7bb3d61546da877b7", "7342ab1e79536520c39c867528773ea9"]

/-- A launch, from what its string parses to. -/
theorem launch_of_parsed {hmac : List UInt8 → List UInt8 → List UInt8} {s user : Str} {fields : Fields} {id : Int}
    (hp : InitData.parsed s = fields)
    (hauth : let text := InitData.dataCheckString (Py.without fields (Str.ofString "hash"))
      InitData.fieldOf fields "hash" ≠ [] ∧ text.encodes = true ∧
        computedHash hmac InitData.sampleToken text.text = InitData.fieldOf fields "hash")
    (hparams : let params := Py.without fields (Str.ofString "hash")
      Py.intOfText (param params "auth_date" "0").text = some 1767225600 ∧
        Py.get? params (Str.ofString "user") = some user)
    (hjson : (match Py.loads 900 user.text with
      | .ok (.object f) => match Py.field f "id" with | .int n => some n | _ => none
      | _ => none) = some id) (hid : id ≠ 0) :
    Launch hmac InitData.sampleToken 900 1767225700 86400 s user id := by
  subst hp
  refine ⟨hauth, ⟨1767225600, hparams.1, by omega⟩, hparams.2, ?_, hid⟩
  split at hjson
  · next f hf =>
    split at hjson
    · next n hn => exact ⟨f, hf, by rw [hn, Option.some.inj hjson]⟩
    · cases hjson
  · cases hjson

/-- The fields of a launch: its date, its user, its hash. -/
def launchFields (user : Str) (extra : Fields) (hash : List String) : Fields :=
  (Str.ofString "auth_date", Str.ofString "1767225600") :: extra ++
    [(Str.ofString "user", user), (Str.ofString "hash", hash.flatMap Str.ofString)]

def plainUser : Str := Str.ofString "\x7b\"id\":7,\"first_name\":\"A\"\x7d"

theorem taken_as_signed_of_launch :
    TakenAsSigned InitData.launchHmac InitData.sampleToken 900 Str.text 1767225700 86400 InitData.launchString
      plainUser 7 := by
  have hparsed : InitData.parsed InitData.launchString = launchFields plainUser
      [(Str.ofString "query_id", Str.ofString "AA1")]
      ["91f9d9d3c44d5cd164e5acbf3ebf0b31", "237b6e4da27b99969089920244ca8dcc"] := by decide +kernel
  have hlaunch : Launch InitData.launchHmac InitData.sampleToken 900 1767225700 86400 InitData.launchString plainUser 7 :=
    launch_of_parsed hparsed (by decide +kernel) (by decide +kernel) (by decide +kernel) (by decide)
  exact (taken_as_signed_iff hlaunch).2 (by decide +kernel)

theorem percent_launch : Launch percentHmac InitData.sampleToken 900 1767225700 86400 percentName percentUser 7 := by
  have hparsed : InitData.parsed percentName = launchFields percentUser []
      ["d2b8dc72c55871a7bb3d61546da877b7", "7342ab1e79536520c39c867528773ea9"] := by decide +kernel
  exact launch_of_parsed hparsed (by decide +kernel) (by decide +kernel) (by decide +kernel) (by decide)

/-- User 7 is taken for user 5. -/
theorem name_changes_the_id :
    Launch percentHmac InitData.sampleToken 900 1767225700 86400 percentName percentUser 7 ∧
      idOf (verify percentHmac InitData.sampleToken 900 Str.text 1767225700 86400 percentName) = some 5 :=
  ⟨percent_launch, by decide +kernel⟩

end Falaron.MiniApp
