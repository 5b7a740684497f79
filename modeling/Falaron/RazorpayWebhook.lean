/-
The Razorpay gateway's webhook parser.

It answers a request with an event, or refuses it with one of the two
exceptions its endpoint turns into a 400. What else it can raise, and on
which requests, is said by `parse_webhook_total_iff`: a signature that is
not ASCII, which anyone can send; and, in a body that is rightly signed, a
value nested too deep, a `payment_link` or `payment` that is neither missing
nor an object, and an infinite amount where the amount is read.

HMAC-SHA256, SHA-256 and how `str` writes floats, lists and objects are
parameters.
-/
import Falaron.InitData
import Falaron.Payments

namespace Falaron.Razorpay

open Py (Json Dict Str)

inductive Exc where
  | signatureError (text : String)
  | gatewayError (text : String)
  | typeError
  | attributeError
  | overflowError
  | recursionError
  deriving DecidableEq, Repr

/-- The endpoint expects it. -/
def Exc.handled : Exc → Bool
  | .signatureError _ | .gatewayError _ => true
  | _ => false

/-- The gateway refuses to be made without its secrets. -/
structure Gateway where
  webhookSecret : String
  configured : webhookSecret ≠ ""

abbrev Headers := List (String × String)

/-- `{k.lower(): v for k, v in headers.items()}.get(name)` -/
def header (headers : Headers) (name : String) : Option String :=
  Py.get? (Py.dictOf (headers.map fun p => (Text.lower p.1, p.2))) name

/-! ## The signature -/

/-- `provided.strip().lower()` -/
def normalized (signature : String) : Str := Str.ofString (Text.lower (Text.strip signature))

section

variable (hmac : List UInt8 → List UInt8 → List UInt8) (sha256 : List UInt8 → List UInt8) (limit : Nat)
  (repr : Json → String) (g : Gateway) (headers : Headers) (body : List UInt8)

/-- `hmac_sha256_hex` -/
def hmacHex : Str := InitData.hexdigest (hmac (InitData.bytes g.webhookSecret) body)

/-- `verify_hmac_sha256_hex` -/
def verifyHmac (provided : Option String) : Except Exc Bool :=
  match provided with
  | none => .ok false
  | some p =>
    if p = "" then .ok false
    else match InitData.compareDigest (hmacHex hmac g body) (normalized p) with
      | .ok b => .ok b
      | .error _ => .error .typeError

/-! ## The event -/

/-- `_as_int(value)` -/
def asInt (v : Json) : Except Exc (Option Int) :=
  match v with
  | .null | .bool _ => .ok none
  | v =>
    match v.toInt with
    | .ok n => .ok (some n)
    | .error .overflowError => .error .overflowError
    | .error _ => .ok none

/-- `((payload.get(key) or {}).get("entity")) or {}`, or nothing where that is no object -/
def entity (payload : Dict) (key : String) : Except Exc Dict :=
  match (Py.field payload key).or (.object []) with
  | .object node =>
    match Py.field node "entity" with
    | .object f => .ok f
    | _ => .ok []
  | _ => .error .attributeError

/-- `data.get("payload")`, or nothing where that is no object -/
def payloadOf (data : Dict) : Dict :=
  match Py.field data "payload" with
  | .object payload => payload
  | _ => []

/-- `str(v or "")` -/
def textOr (v : Json) : String := (v.or (.str "")).text repr

/-- `s or None` -/
def orNone (s : String) : Option String := if s = "" then none else some s

def isRefChar (c : Char) : Bool := ('A' ≤ c && c ≤ 'Z') || ('0' ≤ c && c ≤ '9')

/-- `_REF_RE.match(s)`; the dollar sign also matches before a final line break. -/
def isReference (s : String) : Bool :=
  let cs := if s.toList.getLast? = some '\n' then s.toList.dropLast else s.toList
  cs.take 4 = "PAY-".toList && 4 ≤ (cs.drop 4).length && (cs.drop 4).length ≤ 16 && (cs.drop 4).all isRefChar

def eventType (data : Dict) : String := Text.clip 64 (textOr repr (Py.field data "event"))

def eventId : String :=
  let id := Text.clip 80 (Text.strip ((header headers "x-razorpay-event-id").getD ""))
  if id = "" then "sha256:" ++ Text.clip 40 (Str.text (InitData.hexdigest (sha256 body))) else id

/-- `event_type.startswith(("refund.", "payment.dispute", "payment.refunded"))` -/
def isRefund (type : String) : Bool :=
  ["refund.", "payment.dispute", "payment.refunded"].any fun s => s.toList.isPrefixOf type.toList

/-- What is made of the entities. -/
def eventOf (id type : String) (link pay : Dict) : Except Exc GatewayEvent :=
  let reference := orNone (textOr repr (Py.field link "reference_id"))
  let gatewayRef := orNone (textOr repr (Py.field link "id"))
  let currency := orNone (Text.upper (textOr repr ((Py.field link "currency").or (Py.field pay "currency"))))
  if type = "payment_link.paid" then do
    let paid ← asInt (Py.field link "amount_paid")
    let payAmount ← asInt (Py.field pay "amount")
    let statusOk := Text.lower (textOr repr (Py.field link "status")) = "paid"
    if !reference.any isReference then
      .ok ⟨id, type, .ignored, none, gatewayRef, paid, currency, "no reference id (not one of our links)"⟩
    else if !statusOk || !paid.any (0 < ·) || (payAmount.isSome && payAmount ≠ paid) then
      .ok ⟨id, type, .attention, reference, gatewayRef, paid, currency, "paid event with inconsistent status/amount"⟩
    else .ok ⟨id, type, .paid, reference, gatewayRef, paid, currency, ""⟩
  else if type = "payment_link.expired" || type = "payment_link.cancelled" then
    .ok ⟨id, type, .expired, reference, gatewayRef, none, currency, ""⟩
  else if isRefund type then do
    let amount ← asInt (Py.field pay "amount")
    .ok ⟨id, type, .attention, reference, gatewayRef, amount, currency, "refund/dispute needs manual handling"⟩
  else .ok ⟨id, type, .ignored, reference, gatewayRef, none, currency, ""⟩

/-- What is made of an object with a right signature. -/
def readEvent (data : Dict) : Except Exc GatewayEvent := do
  let link ← entity (payloadOf data) "payment_link"
  let pay ← entity (payloadOf data) "payment"
  eventOf repr (eventId sha256 headers body) (eventType repr data) link pay

/-- `parse_webhook` -/
def parseWebhook : Except Exc GatewayEvent :=
  match verifyHmac hmac g body (header headers "x-razorpay-signature") with
  | .error e => .error e
  | .ok false => .error (.signatureError "invalid webhook signature")
  | .ok true =>
    match Py.loadsBytes limit body with
    | .error .recursion => .error .recursionError
    | .error _ => .error (.gatewayError "webhook body is not JSON")
    | .ok (.object data) => readEvent sha256 repr headers body data
    | .ok _ => .error (.gatewayError "webhook body is not an object")

end

/-! ## What the parser cannot take -/

def Total {α : Type} (r : Except Exc α) : Prop := ∀ e, r = .error e → e.handled = true

section

variable (hmac : List UInt8 → List UInt8 → List UInt8) (limit : Nat) (repr : Json → String) (g : Gateway)
  (headers : Headers) (body : List UInt8) (data : Dict)

/-- The signature, trimmed and in lower case, has a character beyond ASCII. -/
def NonAsciiSignature : Prop :=
  ∃ s, header headers "x-razorpay-signature" = some s ∧ (normalized s).isAscii = false

def Signed : Prop :=
  ∃ s, header headers "x-razorpay-signature" = some s ∧ s ≠ "" ∧ hmacHex hmac g body = normalized s

/-- Neither missing (or empty, or zero) nor an object. -/
def NotDict (v : Json) : Prop := v.truthy = true ∧ ∀ f, v ≠ .object f

def Unreadable : Prop :=
  NotDict (Py.field (payloadOf data) "payment_link") ∨ NotDict (Py.field (payloadOf data) "payment")

/-- The entity of a readable node. -/
def entityOf (key : String) : Dict := (entity (payloadOf data) key).toOption.getD []

/-- An amount that is read is infinite. -/
def InfiniteAmount : Prop :=
  (eventType repr data = "payment_link.paid" ∧ (Py.field (entityOf data "payment_link") "amount_paid").IsInfinite) ∨
    ((eventType repr data = "payment_link.paid" ∨ isRefund (eventType repr data) = true) ∧
      (Py.field (entityOf data "payment") "amount").IsInfinite)

/-- The requests the parser fails on. -/
def Fails : Prop :=
  NonAsciiSignature headers ∨ Signed hmac g headers body ∧
    (Py.loadsBytes limit body = .error .recursion ∨
      ∃ data, Py.loadsBytes limit body = .ok (.object data) ∧ (Unreadable data ∨ InfiniteAmount repr data))

variable {hmac limit repr g headers body data} {sha256 : List UInt8 → List UInt8}

section

variable {α : Type}

theorem total_ok (a : α) : Total (.ok a) := nofun

theorem total_handled {e : Exc} (h : e.handled = true) : Total (α := α) (.error e) := by
  rintro _ ⟨⟩
  exact h

theorem not_total {e : Exc} (h : e.handled = false) : ¬ Total (α := α) (.error e) := fun ht => by
  rw [ht e rfl] at h
  cases h

end

theorem entity_cases (payload : Dict) (key : String) :
    (∃ d, entity payload key = .ok d) ∧ ¬ NotDict (Py.field payload key) ∨
      entity payload key = .error .attributeError ∧ NotDict (Py.field payload key) := by
  unfold entity Json.or NotDict
  cases ht : (Py.field payload key).truthy with
  | false =>
    refine .inl ⟨⟨[], ?_⟩, by simp⟩
    rfl
  | true =>
    rw [if_pos rfl]
    cases hv : Py.field payload key with
    | object node =>
      refine .inl ⟨?_, fun h => h.2 node rfl⟩
      show ∃ d, (match Py.field node "entity" with | .object f => .ok f | _ => .ok []) = Except.ok d
      split
      · exact ⟨_, rfl⟩
      · exact ⟨_, rfl⟩
    | _ => exact .inr ⟨rfl, rfl, nofun⟩

theorem asInt_cases (v : Json) :
    (∃ o, asInt v = .ok o) ∧ ¬ v.IsInfinite ∨ asInt v = .error .overflowError ∧ v.IsInfinite := by
  rw [← Json.toInt_overflows]
  unfold asInt
  split
  · exact .inl ⟨⟨none, rfl⟩, nofun⟩
  · exact .inl ⟨⟨none, rfl⟩, nofun⟩
  · cases hv : v.toInt with
    | ok n => exact .inl ⟨⟨some n, rfl⟩, nofun⟩
    | error e =>
      cases e with
      | overflowError => exact .inr ⟨rfl, rfl⟩
      | _ => exact .inl ⟨⟨none, rfl⟩, nofun⟩

theorem entityOf_eq {key : String} {d : Dict} (h : entity (payloadOf data) key = .ok d) : entityOf data key = d := by
  rw [entityOf, h]
  rfl

theorem eventOf_total {id type : String} {link pay : Dict} : Total (eventOf repr id type link pay) ↔
    ¬ (type = "payment_link.paid" ∧ (Py.field link "amount_paid").IsInfinite ∨
      (type = "payment_link.paid" ∨ isRefund type = true) ∧ (Py.field pay "amount").IsInfinite) := by
  unfold eventOf
  by_cases hpaid : type = "payment_link.paid"
  · simp only [if_pos hpaid]
    rcases asInt_cases (Py.field link "amount_paid") with ⟨⟨paid, hp⟩, hfin⟩ | ⟨hp, hinf⟩
    · rw [hp]
      rcases asInt_cases (Py.field pay "amount") with ⟨⟨amount, ha⟩, hfin'⟩ | ⟨ha, hinf⟩
      · rw [ha]
        refine iff_of_true ?_ (by simp [hfin, hfin'])
        show Total (if _ then _ else if _ then _ else _)
        split
        · exact total_ok _
        · split <;> exact total_ok _
      · rw [ha]
        exact iff_of_false (not_total (e := .overflowError) rfl) (fun h => h (.inr ⟨.inl hpaid, hinf⟩))
    · rw [hp]
      exact iff_of_false (not_total (e := .overflowError) rfl) (fun h => h (.inl ⟨hpaid, hinf⟩))
  · simp only [if_neg hpaid]
    split
    · next hclosed =>
      have hrefund : isRefund type = false := by
        rcases (by simpa using hclosed : type = _ ∨ type = _) with rfl | rfl <;> decide
      exact iff_of_true (total_ok _) (by simp [hpaid, hrefund])
    · split
      · next hrefund =>
        rcases asInt_cases (Py.field pay "amount") with ⟨⟨amount, ha⟩, hfin⟩ | ⟨ha, hinf⟩
        · rw [ha]
          exact iff_of_true (total_ok _) (by simp [hpaid, hfin])
        · rw [ha]
          exact iff_of_false (not_total (e := .overflowError) rfl) (fun h => h (.inr ⟨.inr hrefund, hinf⟩))
      · next hother => exact iff_of_true (total_ok _) (by simp [hpaid, hother])

theorem readEvent_total : Total (readEvent sha256 repr headers body data) ↔
    ¬ (Unreadable data ∨ InfiniteAmount repr data) := by
  unfold readEvent Unreadable InfiniteAmount
  rcases entity_cases (payloadOf data) "payment_link" with ⟨⟨link, hl⟩, hgood⟩ | ⟨hl, hbad⟩
  · rw [entityOf_eq hl, hl]
    rcases entity_cases (payloadOf data) "payment" with ⟨⟨pay, hp⟩, hgood'⟩ | ⟨hp, hbad⟩
    · rw [entityOf_eq hp, hp]
      refine eventOf_total.trans (not_congr ?_)
      simp [hgood, hgood']
    · rw [hp]
      exact iff_of_false (not_total (e := .attributeError) rfl) (fun h => h (.inl (.inr hbad)))
  · rw [hl]
    exact iff_of_false (not_total (e := .attributeError) rfl) (fun h => h (.inl (.inl hbad)))

theorem verifyHmac_cases :
    let r := verifyHmac hmac g body (header headers "x-razorpay-signature")
    r = .ok false ∧ ¬ NonAsciiSignature headers ∧ ¬ Signed hmac g headers body ∨
      r = .ok true ∧ ¬ NonAsciiSignature headers ∧ Signed hmac g headers body ∨
      r = .error .typeError ∧ NonAsciiSignature headers := by
  unfold verifyHmac NonAsciiSignature Signed
  cases hh : header headers "x-razorpay-signature" with
  | none => exact .inl ⟨rfl, by simp, by simp⟩
  | some s =>
    simp only [Option.some.injEq, exists_eq_left']
    by_cases hs : s = ""
    · subst hs
      exact .inl ⟨rfl, by decide, by simp⟩
    · rw [if_neg hs]
      have hhex : (hmacHex hmac g body).isAscii = true := InitData.hexdigest_ascii _
      cases ha : (normalized s).isAscii with
      | false => exact .inr (.inr ⟨by simp [InitData.compareDigest, ha], rfl⟩)
      | true =>
        by_cases he : hmacHex hmac g body = normalized s
        · exact .inr (.inl ⟨by simp [InitData.compareDigest, ha, he], by simp, hs, he⟩)
        · exact .inl ⟨by simp [InitData.compareDigest, ha, hhex, he], by simp, fun h => he h.2⟩

/-- **The parser is total** on the requests that do not fail for one of these reasons. -/
theorem parse_webhook_total_iff : Total (parseWebhook hmac sha256 limit repr g headers body) ↔
    ¬ Fails hmac limit repr g headers body := by
  unfold parseWebhook Fails
  rcases @verifyHmac_cases hmac g headers body with
    ⟨hr, hascii, hsigned⟩ | ⟨hr, hascii, hsigned⟩ | ⟨hr, hascii⟩
  · rw [hr]
    exact iff_of_true (total_handled rfl) (by simp [hascii, hsigned])
  · rw [hr]
    cases hl : Py.loadsBytes limit body with
    | error e =>
      cases e with
      | recursion => exact iff_of_false (not_total rfl) (fun h => h (.inr ⟨hsigned, .inl rfl⟩))
      | _ => exact iff_of_true (total_handled rfl) (by simp [hascii])
    | ok v =>
      cases v with
      | object data =>
        refine readEvent_total.trans (not_congr ⟨fun h => .inr ⟨hsigned, .inr ⟨data, rfl, h⟩⟩, ?_⟩)
        rintro (h | ⟨-, h | ⟨data', hd, h⟩⟩)
        · exact absurd h hascii
        · cases h
        · cases hd
          exact h
      | _ => exact iff_of_true (total_handled rfl) (by simp [hascii])
  · rw [hr]
    exact iff_of_false (not_total rfl) (fun h => h (.inl hascii))

end

/-! ## A signature beyond ASCII -/

def testGateway : Gateway := ⟨"whsec", by decide⟩

/-- HMAC-SHA256 of an empty object under the gateway's secret. -/
def testHmac : List UInt8 → List UInt8 → List UInt8 := fun _ _ =>
  InitData.fromHex ["ae6341ea7f40a435db57d903d02cba19", "085efb8a913f8cfbd8cff3d7df0c7a2d"]

/-- The empty object. -/
def testBody : List UInt8 := [0x7b, 0x7d]

/-- A header may carry an accented letter. -/
theorem accented_signature_escapes :
    ¬ Total (parseWebhook testHmac (fun _ => []) 900 (fun _ => "") testGateway [("X-Razorpay-Signature", "é")]
      testBody) := by
  have hr : (parseWebhook testHmac (fun _ => []) 900 (fun _ => "") testGateway [("X-Razorpay-Signature", "é")]
      testBody).map (fun _ => ()) = .error .typeError := by decide +kernel
  rw [InitData.error_of_map hr]
  exact not_total rfl

end Falaron.Razorpay
