/-
Deposits: an invoice is created, the gateway reports a payment for it, and a
report that matches the invoice credits the owner's wallet.

A call reads the clock once (`now`), and a new invoice gets the public id the
call brings. What a gateway answers is an argument. A payment the session has
loaded is a copy: locking its row again does not refresh the copy, the checks
go by it, and of what is set on it only the fields that differ from the copy
are written.
-/
import Falaron.Orders

namespace Falaron

open Text (clip upper)

/-- `if s:` -/
def truthy (s : Option String) : Bool := s.getD "" ≠ ""

inductive GatewayMode where
  | mock | razorpay | manual
  deriving DecidableEq, Repr

def GatewayMode.text : GatewayMode → String
  | .mock => "mock"
  | .razorpay => "razorpay"
  | .manual => "manual"

/-- The settings a deposit depends on. -/
structure Settings where
  isProduction : Bool
  paymentGateway : GatewayMode
  enableMockPayments : Bool
  razorpayKeyId : Option String
  razorpayKeySecret : Option String
  razorpayWebhookSecret : Option String
  minDepositPaise : Int
  maxDepositPaise : Int
  currencyCode : String

def Settings.mockPaymentsAllowed (s : Settings) : Bool :=
  !s.isProduction && s.enableMockPayments && s.paymentGateway == .mock

/-- The name of the configured live gateway, if the mode is a live one. -/
def getGateway (settings : Settings) : M (Option String) :=
  if settings.paymentGateway ≠ .razorpay then pure .none
  else do
    .require (truthy settings.razorpayKeyId && truthy settings.razorpayKeySecret &&
      truthy settings.razorpayWebhookSecret) (.deposit "Online payments are not configured")
    pure (.some "razorpay")

/-- `gateway or get_gateway(settings)` -/
def gatewayOr (gateway : Option String) (settings : Settings) : M (Option String) :=
  match gateway with
  | .some name => pure (.some name)
  | .none => getGateway settings

structure Checkout where
  url : String
  gatewayRef : String

inductive EventKind where
  | paid | expired | attention | ignored
  deriving DecidableEq, Repr

/-- What a verified webhook says. -/
structure GatewayEvent where
  eventId : String
  eventType : String
  kind : EventKind
  reference : Option String
  gatewayRef : Option String
  amountPaise : Option Int
  currency : Option String
  detail : String := ""

inductive GatewayState where
  | paid | expired | pending
  deriving DecidableEq, Repr

structure GatewayStatus where
  state : GatewayState
  amountPaise : Option Int := .none
  currency : Option String := .none

inductive Outcome where
  | credited | alreadyPaid | amountMismatch | unknownPayment | gatewayMismatch | refMismatch
  | duplicate | expired | ignored | manualReview
  deriving DecidableEq, Repr

def Outcome.text : Outcome → String
  | .credited => "credited"
  | .alreadyPaid => "already_paid"
  | .amountMismatch => "amount_mismatch"
  | .unknownPayment => "unknown_payment"
  | .gatewayMismatch => "gateway_mismatch"
  | .refMismatch => "ref_mismatch"
  | .duplicate => "duplicate"
  | .expired => "expired"
  | .ignored => "ignored"
  | .manualReview => "manual_review"

structure SettleOutcome where
  outcome : Outcome
  paymentPublicId : Option String := .none
  userId : Option Int := .none
  amountPaise : Option Int := .none
  deriving DecidableEq, Repr

/-- The same fields once more. -/
abbrev WebhookOutcome := SettleOutcome

/-- The outcome for a payment that was found. -/
def Payment.outcome (p : Payment) (outcome : Outcome) (amountPaise : Option Int := .none) : SettleOutcome :=
  ⟨outcome, .some p.publicId, .some p.userId, amountPaise⟩

/-! ## A loaded payment -/

/-- The value a column has after a flush: a field set to what it was is not written. -/
def written {α : Type} [DecidableEq α] (old new row : α) : α := if new = old then row else new

/-- The row after a flush, when the copy went from `old` to `new`. -/
def Payment.flushed (old new row : Payment) : Payment :=
  { row with
    status := written old.status new.status row.status
    providerRef := written old.providerRef new.providerRef row.providerRef
    checkoutUrl := written old.checkoutUrl new.checkoutUrl row.checkoutUrl
    failureReason := written old.failureReason new.failureReason row.failureReason
    paidAt := written old.paidAt new.paidAt row.paidAt }

/-- Sets fields of a loaded payment: on the copy, and in the tables with the next flush. -/
def setPayment (p : Payment) (f : Payment → Payment) : M Payment := do
  .write (Stmt.updatePayment p.publicId (p.flushed (f p)))
  pure (f p)

/-- `select(Payment)...with_for_update()`: a copy the session has loaded stays as it is. -/
def lockPayment (loaded : Option Payment) (publicId : String) : M (Option Payment) :=
  .lockRow (.payment publicId) fun db => (db.findPayment publicId).map fun row => loaded.getD row

/-! ## Settling -/

/-- What a call says about a payment: the arguments of `settle_payment`. -/
structure Report where
  publicId : String
  gateway : String
  gatewayRef : Option String
  amountPaise : Option Int
  currency : Option String
  source : String
  actor : String := "system"

namespace Report

variable (r : Report) (p : Payment)

def wrongGateway : Bool := p.method ≠ r.gateway && r.source ≠ "manual"

def wrongRef : Bool := truthy p.providerRef && truthy r.gatewayRef && p.providerRef ≠ r.gatewayRef

/-- `(currency or payment.currency or "").upper()` -/
def cur : String := upper (if truthy r.currency then r.currency.getD "" else p.currency)

def mismatch : Bool := r.amountPaise ≠ .some p.amountPaise || r.cur p ≠ upper p.currency

/-- The text kept of a mismatch. -/
def mismatchReason : String :=
  let got := (r.amountPaise.map toString).getD "None"
  clip 255 s!"mismatch: expected {p.amountPaise} {p.currency}, got {got} {r.cur p}"

end Report

/-- The report does not match the invoice: a human has to look at it. -/
def holdForReview (now : Time) (p : Payment) (r : Report) : M (Payment × SettleOutcome) := do
  let p' ← setPayment p fun p => { p with status := .review, failureReason := .some (r.mismatchReason p) }
  audit now r.actor "payment.mismatch" (.some p.publicId) (.some r.source)
  pure (p', p.outcome .amountMismatch r.amountPaise)

/-- The payment once it is settled. -/
def Payment.settled (now : Time) (r : Report) (p : Payment) : Payment :=
  { p with
    status := .paid
    paidAt := .some now
    failureReason := .none
    providerRef :=
      if truthy r.gatewayRef && !truthy p.providerRef then r.gatewayRef.map (clip 64) else p.providerRef }

def Payment.deposit (p : Payment) : Posting where
  userId := p.userId
  amountPaise := p.amountPaise
  reason := s!"Deposit {p.publicId}"
  referenceType := .some "payment"
  referenceId := .some p.publicId

/-- The report matches the invoice: the owner's wallet is credited. -/
def creditDeposit (now : Time) (p : Payment) (r : Report) : M (Payment × SettleOutcome) := do
  match ← .query (·.users p.userId) with
  | .none =>
    let p' ← setPayment p fun p => { p with status := .review, failureReason := .some "owner not found" }
    pure (p', p.outcome .unknownPayment)
  | .some user =>
    let _ ← credit p.deposit (.some (.deposit p.publicId))
    let p' ← setPayment p (Payment.settled now r)
    creditDepositCommission user p'
    audit now r.actor "payment.credited" (.some p.publicId) .none
    pure (p', p.outcome .credited (.some p.amountPaise))

/-- What `settle_payment` does with the payment it has locked. -/
def settleLocked (now : Time) (p : Payment) (r : Report) : M (Payment × SettleOutcome) :=
  if r.wrongGateway p then pure (p, p.outcome .gatewayMismatch)
  else if r.wrongRef p then pure (p, p.outcome .refMismatch)
  else if p.status = .paid then pure (p, p.outcome .alreadyPaid (.some p.amountPaise))
  else if r.mismatch p then holdForReview now p r
  else creditDeposit now p r

/-- `settle_payment`, in a session that has loaded the payment or has not.
The session's copy of it comes back with the outcome. -/
def settlePayment (now : Time) (loaded : Option Payment) (r : Report) : M (Option Payment × SettleOutcome) := do
  match ← lockPayment loaded r.publicId with
  | .none => pure (.none, ⟨.unknownPayment, .some r.publicId, .none, .none⟩)
  | .some p =>
    let (p', outcome) ← settleLocked now p r
    pure (.some p', outcome)

/-! ## The calls that settle -/

def GatewayEvent.row (now : Time) (gateway : String) (event : GatewayEvent) : PaymentEvent where
  gateway := gateway
  eventId := event.eventId
  eventType := event.eventType
  paymentPublicId := event.reference
  amountPaise := event.amountPaise
  currency := event.currency
  outcome := "processing"
  detail := .none
  createdAt := now

def GatewayEvent.report (gateway publicId : String) (event : GatewayEvent) : Report where
  publicId := publicId
  gateway := gateway
  gatewayRef := event.gatewayRef
  amountPaise := event.amountPaise
  currency := event.currency
  source := "webhook"

/-- An expired event closes an invoice that is still open. -/
def expireEvent (publicId : String) : M WebhookOutcome := do
  match ← lockPayment .none publicId with
  | .none => pure ⟨.ignored, .some publicId, .none, .none⟩
  | .some p =>
    if p.status = .pending then
      let _ ← setPayment p fun p => { p with status := .expired }
      pure (p.outcome .expired)
    else pure ⟨.ignored, .some publicId, .none, .none⟩

/-- What an event does, by its kind. -/
def applyEvent (now : Time) (gateway : String) (event : GatewayEvent) : M WebhookOutcome :=
  let publicId := event.reference.getD ""
  if event.kind = .paid ∧ truthy event.reference then do
    let (_, outcome) ← settlePayment now .none (event.report gateway publicId)
    pure outcome
  else if event.kind = .expired ∧ truthy event.reference then expireEvent publicId
  else if event.kind = .attention then do
    audit now "system" "payment.attention" event.reference .none
    pure ⟨.manualReview, event.reference, .none, event.amountPaise⟩
  else pure ⟨.ignored, event.reference, .none, .none⟩

/-- Process one signature-verified gateway event exactly once. -/
def handleWebhookEvent (now : Time) (gateway : String) (event : GatewayEvent) : M WebhookOutcome := do
  let new ← .savepoint (Stmt.insertPaymentEvent (event.row now gateway))
  if !new then pure ⟨.duplicate, event.reference, .none, .none⟩
  else
    let outcome ← applyEvent now gateway event
    .write (Stmt.updatePaymentEvent gateway event.eventId fun e =>
      { e with
        outcome := clip 32 outcome.outcome.text
        detail := if event.detail = "" then .none else .some (clip 255 event.detail) })
    pure outcome

/-- What a call says when the gateway, asked about the copy `p`, reports it paid. -/
def GatewayStatus.report (gateway source : String) (p : Payment) (status : GatewayStatus) : Report where
  publicId := p.publicId
  gateway := gateway
  gatewayRef := p.providerRef
  amountPaise := status.amountPaise
  currency := status.currency
  source := source

/-- What is done with the gateway's answer on a payment the session has loaded:
the payment as the session has it then, and the outcome if there is one. -/
def applyAnswer (now : Time) (gateway source : String) (p : Payment) :
    Except String GatewayStatus → M (Option Payment × Option SettleOutcome)
  | .error _ => pure (.some p, .none)
  | .ok status =>
    match status.state with
    | .paid => do
      let (p', outcome) ← settlePayment now (.some p) (status.report gateway source p)
      pure (p', .some outcome)
    | .expired =>
      if p.status = .pending then do
        let p' ← setPayment p fun p => { p with status := .expired }
        pure (.some p', .some (p.outcome .expired))
      else pure (.some p, .none)
    | .pending => pure (.some p, .none)

/-- The gateway is asked about a loaded payment. -/
def askGateway (now : Time) (gateway source : String) (p : Payment) (answer : Except String GatewayStatus) :
    M (Option Payment × Option SettleOutcome) := do
  .call (.fetchStatus (p.providerRef.getD ""))
  applyAnswer now gateway source p answer

/-- A reconciliation pass: over which rows, and what the gateway answers on each. -/
structure Pass where
  gateway : String
  minAgeSeconds : Int := 120
  maxAgeHours : Int := 72
  limit : Nat := 50
  answers : String → Except String GatewayStatus

/-- The rows a pass asks about. -/
def Pass.selects (pass : Pass) (now : Time) (p : Payment) : Bool :=
  p.method == pass.gateway && (p.status == .pending || p.status == .expired) && p.providerRef.isSome &&
    p.createdAt ≤ now - pass.minAgeSeconds * microseconds &&
    now - pass.maxAgeHours * 3600 * microseconds ≤ p.createdAt

def Pass.rows (pass : Pass) (now : Time) (db : Db) : List Payment :=
  (db.payments.filter (pass.selects now)).take pass.limit

def reconcilePayment (now : Time) (pass : Pass) (p : Payment) : M (List WebhookOutcome) := do
  let (_, outcome) ← askGateway now pass.gateway "reconcile" p (pass.answers p.publicId)
  pure outcome.toList

/-- Ask the gateway about still-pending invoices so a lost webhook cannot lose money. -/
def reconcilePending (now : Time) (pass : Pass) : M (List WebhookOutcome) := do
  let rows ← .query (pass.rows now)
  .collect (reconcilePayment now pass) rows

/-- What an operator's confirmation says: that the invoice, as it is, was paid. -/
def Payment.manualReport (p : Payment) (actor : String) : Report where
  publicId := p.publicId
  gateway := p.method
  gatewayRef := p.providerRef
  amountPaise := .some p.amountPaise
  currency := .some p.currency
  source := "manual"
  actor := actor

/-- Operator confirms an off-platform payment. -/
def manualConfirm (now : Time) (publicId actor : String) : M SettleOutcome := do
  match ← .query (·.findPayment publicId) with
  | .none => pure ⟨.unknownPayment, .some publicId, .none, .none⟩
  | .some p =>
    let (_, outcome) ← settlePayment now (.some p) (p.manualReport actor)
    pure outcome

/-- Whether `check_payment` asks the gateway about the payment. -/
def Payment.isCheckable (p : Payment) : Bool :=
  p.status ≠ .paid && p.method = "razorpay" && truthy p.providerRef

/-- "I have paid" button: ask the gateway directly. -/
def checkPayment (now : Time) (publicId : String) (userId : Int) (settings : Settings) (gateway : Option String)
    (answer : Except String GatewayStatus) : M (Option Payment) := do
  match (← .query (·.findPayment publicId)).filter (·.userId = userId) with
  | .none => pure .none
  | .some p =>
    if p.isCheckable then
      match ← gatewayOr gateway settings with
      | .none => pure (.some p)
      | .some name =>
        let (p', _) ← askGateway now name "user-check" p answer
        pure p'
    else pure (.some p)

def Payment.mockReport (p : Payment) (userId : Int) : Report where
  publicId := p.publicId
  gateway := "mock"
  gatewayRef := .none
  amountPaise := .some p.amountPaise
  currency := .some p.currency
  source := "mock"
  actor := toString userId

/-- Development only: the owner of a mock invoice pays it. -/
def mockPay (now : Time) (publicId : String) (userId : Int) (settings : Settings) : M (Option Payment) := do
  .require settings.mockPaymentsAllowed (.notFound "Not found")
  match (← .query (·.findPayment publicId)).filter fun p => p.userId = userId ∧ p.method = "mock" with
  | .none => raise (.notFound "Invoice not found")
  | .some p =>
    let (p', _) ← settlePayment now (.some p) (p.mockReport userId)
    pure p'

/-! ## Creating an invoice -/

/-- `assert_payments_open`, as `create_deposit` reports it. -/
def assertPaymentsOpen : M Unit := do
  let flags ← killSwitches
  .require (!(flags.maintenance || flags.readOnly || flags.payments)) (.deposit "Deposits are temporarily paused.")

/-- `f"{n:,}"` -/
def groupedInt (n : Int) : String := (if n < 0 then "-" else "") ++ grouped n.natAbs

/-- `IDEMPOTENCY_BUCKET_SECONDS` of the payment service. -/
def depositBucketSeconds : Int := 45

/-- The key of an invoice: the client's, or one made of the amount and a bucket of time. -/
def depositKey (now : Time) (userId amountPaise : Int) : Option String → Key
  | .some key =>
    if key = "" then .pay userId amountPaise (now / (depositBucketSeconds * microseconds))
    else .payKey userId (clip 128 key)
  | .none => .pay userId amountPaise (now / (depositBucketSeconds * microseconds))

/-- The checkout of a new invoice. Without one the invoice goes again. -/
def openCheckout (settings : Settings) (gateway : Option String) (p : Payment)
    (checkout : Except String Checkout) : M Payment := do
  match ← gatewayOr gateway settings with
  | .none => raise (.deposit "Online payments are not configured")
  | .some _ =>
    .call (.createCheckout p.publicId p.amountPaise)
    match checkout with
    | .error _ =>
      .write (Stmt.deletePayment p.publicId)
      flush
      raise (.deposit "The payment provider is unavailable. Please try again shortly.")
    | .ok checkout =>
      let p' ← setPayment p fun p =>
        { p with providerRef := .some checkout.gatewayRef, checkoutUrl := .some checkout.url }
      flush
      pure p'

/-- The invoice is new: it gets a row, and in live mode a checkout. -/
def insertInvoice (settings : Settings) (gateway : Option String) (p : Payment)
    (checkout : Except String Checkout) : M Payment := do
  .write (Stmt.insertPayment p)
  flush
  if settings.paymentGateway = .razorpay then openCheckout settings gateway p checkout
  else pure p

def newInvoice (now : Time) (publicId : String) (userId amountPaise : Int) (settings : Settings) (key : Key) :
    Payment where
  publicId := publicId
  userId := userId
  amountPaise := amountPaise
  method := settings.paymentGateway.text
  status := .pending
  providerRef := .none
  currency := settings.currencyCode
  checkoutUrl := .none
  failureReason := .none
  idempotencyKey := key
  paidAt := .none
  createdAt := now

def createDeposit (now : Time) (publicId : String) (user : User) (amountPaise : Int) (settings : Settings)
    (idempotencyKey : Option String) (gateway : Option String) (checkout : Except String Checkout) : M Payment := do
  .require (!user.isBanned) (.deposit "This account is suspended")
  .require user.termsAccepted (.deposit "Please accept the Terms of Service and Privacy Policy first")
  assertPaymentsOpen
  let lo := groupedInt (settings.minDepositPaise / 100)
  let hi := groupedInt (settings.maxDepositPaise / 100)
  .require (settings.minDepositPaise ≤ amountPaise && amountPaise ≤ settings.maxDepositPaise)
    (.deposit s!"Deposit must be between ₹{lo} and ₹{hi}")
  let key := depositKey now user.telegramId amountPaise idempotencyKey
  match (← .query fun db => db.payments.find? (·.idempotencyKey == key)).filter (·.userId = user.telegramId) with
  | .some existing => pure existing
  | .none =>
    insertInvoice settings gateway (newInvoice now publicId user.telegramId amountPaise settings key) checkout

end Falaron
