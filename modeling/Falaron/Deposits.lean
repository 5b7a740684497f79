/-
The deposits of the second system: the webhooks of its two gateways and the
reconciler, three ways for a payment to be credited under one ledger key.

Both webhooks read an event down to the same five fields, look the payment
up by its reference and credit what the payment says, not what the event
says, once the two amounts are within a cent of each other. Razorpay's also
compares the currencies; Stripe's does not, and looks for a canceled
event's payment under an empty reference.

What the reconciler learns of a payment from its gateway is a parameter
(the code answers "pending" to everything), and so are HMAC-SHA256 and how
`str` writes floats, lists and objects. The notice to the customer is left
out.
-/
import Falaron.Engine
import Falaron.StripeSignature
import Falaron.Py.JsonText
import Falaron.Py.DecimalText

namespace Falaron.Core

open Py (Decimal Json)

/-! ## Payment rows -/

namespace Db

variable (db : Db)

/-- `UPDATE payments SET ... WHERE id = ...` -/
def updatePayment (id : Int) (f : Payment → Payment) : Db :=
  { db with payments := db.payments.map fun p => if p.id = id then f p else p }

/-- The payments with a reference, of one provider or of any. -/
def paymentsBy (provider : Option String) (reference : String) : List Payment :=
  db.payments.filter fun p => p.providerRef = reference && provider.all (· = p.provider)

end Db

namespace Payment

def markFailed (p : Payment) : Payment := { p with status := .failed }

/-- Verified, by the gateway's transaction where that is told. -/
def markVerified (txnId : Option (Option String)) (p : Payment) : Payment :=
  { p with status := .verified, webhookVerified := true, providerTxnId := txnId.getD p.providerTxnId }

end Payment

namespace Stmt

def failPayment (id : Int) : Stmt := ⟨[.payment id], fun _ => true, fun db => db.updatePayment id .markFailed⟩

def verifyPayment (id : Int) (txnId : Option (Option String)) : Stmt :=
  ⟨[.payment id], fun _ => txnId.all fun t => t.all (shortEnough 128), fun db => db.updatePayment id (.markVerified txnId)⟩

end Stmt

def depositKey (id : Int) : String := "deposit:" ++ toString id

/-- The credit of a payment, the same whoever delivers it. -/
def depositArgs (p : Payment) (reason : String) : TxArgs where
  userId := p.userId
  amount := money p.amount
  txType := .deposit
  idempotencyKey := depositKey p.id
  referenceId := some (toString p.id)
  reason := some reason

/-! ## What an event says -/

inductive InfoStatus where
  | captured | failed
  deriving DecidableEq, Repr

/-- What an adapter reads off an event it does not skip. -/
structure PaymentInfo where
  status : InfoStatus
  providerTxnId : Json
  /-- Nothing for a NaN. -/
  amount : Option Decimal
  currency : Json
  reference : Json

namespace Err

def attributeError (v : Json) (name : String) : Err :=
  let typeName := match v with
    | .null => "NoneType"
    | .bool _ => "bool"
    | .int _ => "int"
    | .float _ => "float"
    | .str _ => "str"
    | .array _ => "list"
    | .object _ => "dict"
  .python "AttributeError" ("'" ++ typeName ++ "' object has no attribute '" ++ name ++ "'")

def invalidOperation (cls : String := "InvalidOperation") : Err :=
  .python "InvalidOperation" ("[<class 'decimal." ++ cls ++ "'>]")

/-- What the driver raises on a parameter it cannot pass as a text. -/
def badParameter : Err := .python "DBAPIError" "invalid input for query argument"

def invalidWebhookSignature (detail : String) : Err :=
  .smm (.other "InvalidWebhookSignatureError") detail "Invalid webhook signature."

def duplicatePayment (detail : String) : Err :=
  .smm (.other "DuplicatePaymentError") detail "Payment already processed."

def paymentVerification (detail : String) : Err :=
  .smm (.other "PaymentVerificationError") detail "Payment verification failed."

end Err

/-- `v.get(key, default)` -/
def jsonGet (v : Json) (key : String) (default : Json) : Except Err Json :=
  match v with
  | .object d => .ok (if Py.hasField d key then Py.field d key else default)
  | v => .error (.attributeError v "get")

/-- `v.upper()` -/
def jsonUpper (v : Json) : Except Err String :=
  match v with
  | .str s => .ok (Text.upper s)
  | v => .error (.attributeError v "upper")

/-- `v == s` -/
def isText (v : Json) (s : String) : Bool :=
  match v with
  | .str t => t = s
  | _ => false

section

variable (repr : Json → String)

/-- `Decimal(str(minor))` or a hundredth of it, quantized -/
def majorAmount (hundredths : Bool) (minor : Json) : Except Err (Option Decimal) :=
  match Py.decimalOfText (minor.text repr) with
  | none => .error (.invalidOperation "ConversionSyntax")
  | some .nan => .ok none
  | some .infinite | some .signalling => .error .invalidOperation
  | some (.finite x) =>
    match if hundredths then Decimal.quantize 2 (Decimal.round (x / 100)).val else Decimal.quantize 0 x with
    | some d => .ok (some d)
    | none => .error .invalidOperation

/-! ### Razorpay -/

/-- `RazorpayAdapter.extract_payment_info`, of a body that is JSON -/
def razorpayInfo (payload : Json) : Except Err (Option PaymentInfo) := do
  let event ← jsonGet payload "event" (.str "")
  if !isText event "payment.captured" then return none
  let payment ← jsonGet (← jsonGet payload "payload" (.object [])) "payment" (.object [])
  let entity ← jsonGet payment "entity" (.object [])
  let paise ← jsonGet entity "amount" (.int 0)
  return some {
    status := .captured
    providerTxnId := ← jsonGet entity "id" (.str "")
    amount := ← majorAmount repr true paise
    currency := ← jsonGet entity "currency" (.str "INR")
    reference := ← jsonGet entity "receipt" (.str "") }

/-! ### Stripe -/

/-- `_ZERO_DECIMAL` -/
def zeroDecimal : List String :=
  ["BIF", "CLP", "DJF", "GNF", "JPY", "KMF", "KRW", "MGA", "PYG", "RWF", "UGX", "VND", "VUV", "XAF", "XOF", "XPF"]

/-- `_stripe_amount_to_decimal` -/
def stripeAmountToDecimal (minor : Json) (currency : String) : Except Err (Option Decimal) :=
  majorAmount repr (!zeroDecimal.contains (Text.upper currency)) minor

/-- `(o.get("metadata") or {}).get("smm_ref", "")` -/
def smmRef (o : Json) : Except Err Json := do
  let metadata ← jsonGet o "metadata" .null
  jsonGet (metadata.or (.object [])) "smm_ref" (.str "")

/-- `_extract_from_payment_intent` -/
def extractFromPaymentIntent (pi : Json) (status : InfoStatus) : Except Err PaymentInfo := do
  let received ← jsonGet pi "amount_received" .null
  let minor ← (if received.truthy then .ok received else jsonGet pi "amount" (.int 0))
  let currency ← jsonUpper ((← jsonGet pi "currency" .null).or (.str "inr"))
  let reference ← smmRef pi
  return {
    status
    providerTxnId := ← jsonGet pi "id" (.str "")
    amount := ← stripeAmountToDecimal repr minor currency
    currency := .str currency
    reference }

def extractFromSession (session : Json) : Except Err (Option PaymentInfo) := do
  let paymentStatus ← jsonGet session "payment_status" .null
  if !isText paymentStatus "paid" then return none
  let providerTxnId ← jsonGet session "payment_intent" (.str "")
  let minor ← jsonGet session "amount_total" (.int 0)
  let currency ← jsonUpper (← jsonGet session "currency" (.str "inr"))
  let reference ← smmRef session
  return some {
    status := .captured
    providerTxnId
    amount := ← stripeAmountToDecimal repr minor currency
    currency := .str currency
    reference }

/-- `payload.get("data", {}).get("object", {})` -/
def eventObject (payload : Json) : Except Err Json := do
  jsonGet (← jsonGet payload "data" (.object [])) "object" (.object [])

/-- `StripeAdapter.extract_payment_info`, of a body that is JSON -/
def stripeInfo (payload : Json) : Except Err (Option PaymentInfo) := do
  let type ← jsonGet payload "type" (.str "")
  if isText type "payment_intent.succeeded" then
    return some (← extractFromPaymentIntent repr (← eventObject payload) .captured)
  else if isText type "checkout.session.completed" then
    extractFromSession repr (← eventObject payload)
  else if isText type "payment_intent.canceled" then
    -- the reference in the event is not read
    return some {
      status := .failed
      providerTxnId := ← jsonGet (← eventObject payload) "id" (.str "")
      amount := some ⟨0, 0⟩
      currency := .str "INR"
      reference := .str "" }
  else return none

/-! ## The webhooks -/

/-- `Payment.provider_ref == reference`, and the provider where one is asked for -/
def findPayment (provider : Option String) (reference : Json) : M (Option Payment) := do
  match reference with
  | .str s => scalarOneOrNone (← .query (·.paymentsBy provider s))
  | .null => pure none
  | _ => raise .badParameter

/-- `abs(received - payment.amount) > Decimal("0.01")`, the other way round -/
def withinCent (received : Decimal) (p : Payment) : Bool := |(received.sub (money p.amount)).val| ≤ 1 / 100

/-- What the two webhooks differ in. -/
structure WebhookKind where
  provider : String
  /-- What their errors and their entries in the ledger begin with. -/
  duplicate : String
  mismatch : String
  deposit : String
  checksCurrency : Bool

def WebhookKind.razorpay : WebhookKind :=
  ⟨"razorpay", "Webhook already processed for payment ", "Amount mismatch: expected=", "razorpay deposit — ", true⟩

def WebhookKind.stripe : WebhookKind :=
  ⟨"stripe", "Stripe webhook already processed for payment ", "Stripe amount mismatch: expected=", "Stripe deposit — ",
    false⟩

/-- `info["currency"].upper() != payment.currency.upper()` -/
def checkCurrency (info : PaymentInfo) (p : Payment) : M Unit := do
  let currency ← lift (jsonUpper info.currency)
  .require (currency = Text.upper p.currency)
    (.paymentVerification ("Currency mismatch: expected=" ++ p.currency ++ " received=" ++ info.currency.text repr))

/-- A column that takes a text or nothing. -/
def columnText (v : Json) : Except Err (Option String) :=
  match v with
  | .str s => .ok (some s)
  | .null => .ok none
  | _ => .error .database

/-- A captured event: the payment's checks, its credit and its mark. -/
def processCaptured (k : WebhookKind) (info : PaymentInfo) : M Unit := do
  match ← findPayment (some k.provider) info.reference with
  | none => pure ()
  | some p =>
    .require (!p.webhookVerified) (.duplicatePayment (k.duplicate ++ toString p.id))
    let received ← orRaise .invalidOperation info.amount
    .require (withinCent received p) (.paymentVerification (k.mismatch ++ (money p.amount).str ++ " received=" ++
      received.str ++ " payment_id=" ++ toString p.id))
    if k.checksCurrency then checkCurrency repr info p
    let _ ← credit (depositArgs p (k.deposit ++ info.providerTxnId.text repr))
    let txnId ← lift (columnText info.providerTxnId)
    .write (Stmt.verifyPayment p.id (some txnId))
    flush

def processRazorpay (info : PaymentInfo) : M Unit :=
  match info.status with
  | .failed => pure ()
  | .captured => processCaptured repr .razorpay info

def processStripe (info : PaymentInfo) : M Unit :=
  match info.status with
  | .failed => do
    match ← findPayment none info.reference with
    | none => pure ()
    | some p =>
      .write (Stmt.failPayment p.id)
      flush
  | .captured => processCaptured repr .stripe info

end

/-- What a webhook's code takes from outside itself. -/
structure GatewayEnv where
  hmac : List UInt8 → List UInt8 → List UInt8
  stripeSecret : Stripe.WebhookSecret
  razorpaySecret : Stripe.WebhookSecret
  /-- What the recursion limit leaves the JSON decoder. -/
  limit : Nat
  repr : Json → String

/-- A request to a webhook's route, and when it is made. -/
structure Delivery where
  now : Int
  body : List UInt8
  headers : Stripe.Headers

section

variable (g : GatewayEnv) (d : Delivery)

/-- `RazorpayAdapter.verify_webhook_signature` -/
def razorpaySigned : Except InitData.Exc Bool :=
  let lower := (Py.get? d.headers "x-razorpay-signature").getD ""
  let sig := if lower = "" then (Py.get? d.headers "X-Razorpay-Signature").getD "" else lower
  if sig = "" then .ok false
  else InitData.compareDigest (InitData.hexdigest (g.hmac (InitData.bytes g.razorpaySecret.text) d.body)) (Py.Str.ofString sig)

def stripeSigned : Except InitData.Exc Bool := Stripe.verifyWebhookSignature g.hmac g.stripeSecret d.now d.body d.headers

/-- Steps 1 to 3: the signature, and what the event says; nothing where it is skipped. -/
def readDelivery (signed : Except InitData.Exc Bool) (name : String) (info : Json → Except Err (Option PaymentInfo)) :
    M (Option PaymentInfo) :=
  match signed with
  | .error _ => raise (.python "TypeError" "comparing strings with non-ASCII characters is not supported")
  | .ok false => raise (.invalidWebhookSignature (name ++ " webhook signature verification failed"))
  | .ok true =>
    match Py.loadsBytes g.limit d.body with
    | .error _ => pure none
    | .ok payload => lift (info payload)

/-- `process_payment_webhook(db, "razorpay", body, headers)` -/
def processPaymentWebhook : M Unit := do
  match ← readDelivery g d (razorpaySigned g d) "razorpay" (razorpayInfo g.repr) with
  | none => pure ()
  | some info => processRazorpay g.repr info

/-- `process_stripe_webhook` -/
def processStripeWebhook : M Unit := do
  match ← readDelivery g d (stripeSigned g d) "Stripe" (stripeInfo g.repr) with
  | none => pure ()
  | some info => processStripe g.repr info

end

/-! ## The reconciler -/

inductive CheckResult where
  | pending | verified | failed
  deriving DecidableEq, Repr

/-- `_check_provider` -/
def checkProvider (_ : Payment) : Except Err CheckResult := .ok .pending

structure ReconcileResult where
  checked : Nat := 0
  verified : Nat := 0
  failed : Nat := 0
  errors : Nat := 0
  deriving DecidableEq, Repr

namespace ReconcileResult

def count (r : ReconcileResult) : Except Err CheckResult → ReconcileResult
  | .ok .pending => r
  | .ok .verified => { r with verified := r.verified + 1 }
  | .ok .failed => { r with failed := r.failed + 1 }
  | .error _ => { r with errors := r.errors + 1 }

end ReconcileResult

/-- The payments a pass looks at; in the order of the table, since the query has none. -/
def Db.unsettledPayments (db : Db) (cutoff : Time) : List Payment :=
  (db.payments.filter fun p => p.status = .pending && !p.webhookVerified && p.createdAt < cutoff).take 100

/-- `_credit_wallet`; its queries write out what is staged before they read. -/
def creditWallet (p : Payment) : M Unit := do
  flush
  let _ ← credit (depositArgs p ("Reconciled " ++ p.provider ++ " payment"))
  .write (Stmt.verifyPayment p.id none)
  flush

/-- What a pass does about one payment. -/
def reconcile (check : Payment → Except Err CheckResult) (p : Payment) : M CheckResult := do
  let result ← lift (check p)
  match result with
  | .verified =>
    creditWallet p
    pure result
  | .failed =>
    .write (Stmt.failPayment p.id)
    pure result
  | .pending => pure result

/-- `PaymentReconciler.run_once` -/
def runOnce (check : Payment → Except Err CheckResult) (cutoff : Time) : M ReconcileResult := do
  let payments ← .query (·.unsettledPayments cutoff)
  if payments.isEmpty then return {}
  let result ← payments.foldlM (fun r p => do return r.count (← .attempt (reconcile check p)))
    { checked := payments.length }
  flush
  return result

end Falaron.Core
