/-
The order engine: placing an order, following the provider's reports,
refills, cancellations and the operator's decisions.

A call reads the clock once (`now`), and a new order gets the public id the
call brings (`publicId`). What a provider answers is an argument. An order
that has been loaded is a value: the code works on that copy, and what it
writes are the fields it sets.
-/
import Falaron.Account
import Falaron.Adapter
import Falaron.Pricing
import Falaron.Py.Number
import Falaron.Referrals

namespace Falaron

open Text (Extra ExtraValue clip)
open Py (nearest roundHalfEven)

def idempotencyBucketSeconds : Int := 45

def microseconds : Int := 1000000

def orderError {α : Type} (message : String) : M α := raise (.order message)

/-! ## Kill switches -/

def isKillOn (key : String) : M Bool := .query fun db =>
  Text.strip ((db.catalog.settings key).getD "0") ∈ ["1", "true", "True", "yes"]

structure KillSwitches where
  newOrders : Bool
  payments : Bool
  refills : Bool
  readOnly : Bool
  maintenance : Bool

def killSwitches : M KillSwitches := do
  let newOrders ← isKillOn "kill_new_orders"
  let payments ← isKillOn "kill_payments"
  let refills ← isKillOn "kill_refills"
  let readOnly ← isKillOn "read_only"
  let maintenance ← isKillOn "global_maintenance"
  pure ⟨newOrders, payments, refills, readOnly, maintenance⟩

theorem killSwitches_reads {S : Err → Prop} : killSwitches.Reads S :=
  .bind (.query _) fun _ => .bind (.query _) fun _ => .bind (.query _) fun _ => .bind (.query _) fun _ =>
    .bind (.query _) fun _ => .pure _

def assertOrdersOpen : M Unit := do
  let flags ← killSwitches
  .require (!flags.maintenance) (.permission "FALARON is in maintenance. Please try again later.")
  .require (!flags.readOnly) (.permission "The platform is in read-only mode.")
  .require (!flags.newOrders) (.permission "New orders are temporarily paused.")

def assertRefillsOpen : M Unit := do
  let flags ← killSwitches
  .require (!(flags.maintenance || flags.readOnly || flags.refills))
    (.permission "Refills are temporarily paused.")

/-! ## What a request says -/

def validateLink (link : String) : Except Err String :=
  let cleaned := Text.strip link
  let cs := cleaned.toList
  if cleaned = "" then .error (.order "A target link is required")
  else if 1024 < cs.length then .error (.order "Link is too long")
  else if Text.hasPrefix "http://" cs || Text.hasPrefix "https://" cs then .ok cleaned
  else if cs.head? = .some '@' then .ok cleaned
  else if ' ' ∈ cs then .error (.order "Link must not contain spaces")
  else if '.' ∈ cs then .ok cleaned
  else .error (.order "Enter a valid URL or @username")

def validateComments (extra : Extra) : Except Err Extra :=
  let comments := Text.strip (ExtraValue.text (extra.get? "comments"))
  if comments = "" then .error (.order "This service requires comments (one per line)")
  else
    let lines := Text.lines comments
    .ok ((extra.set "comments" (.str ("\n".intercalate lines))).set "comment_count" (.int lines.length))

def validateMentions (extra : Extra) : Except Err Extra :=
  let given := ExtraValue.text (extra.get? "mentions")
  let mentions := Text.strip (if given = "" then ExtraValue.text (extra.get? "usernames") else given)
  if mentions = "" then .error (.order "This service requires usernames to mention")
  else
    let names := Text.names mentions
    .ok ((extra.set "mentions" (.str (" ".intercalate (names.map ("@" ++ ·))))).set "usernames"
      (.str ("\n".intercalate names)))

def validateExtra (service : Service) (extra : Extra) : Except Err Extra :=
  let given := service.serviceType.getD ""
  let stype := Text.lower (if given = "" then "default" else given)
  (if stype ∈ ["comments", "custom_comments"] then validateComments extra else .ok extra).bind fun extra =>
    if stype ∈ ["mentions", "comment_mentions"] then validateMentions extra else .ok extra

/-- A value, or the error of a check that needs no tables. -/
def ofExcept {α : Type} : Except Err α → M α
  | .ok a => pure a
  | .error e => raise e

/-! ## Orders and their events -/

/-- `if order.provider_order_id:` -/
def Order.hasProviderOrder (o : Order) : Bool := o.providerOrderId.getD "" ≠ ""

def snapshotService (now : Time) (service : Service) (quote : PriceQuote) : Snapshot where
  id := service.id
  name := service.name
  categoryId := service.categoryId
  providerId := service.providerId
  providerServiceId := service.providerServiceId
  serviceType := service.serviceType
  minQty := service.minQty
  maxQty := service.maxQty
  ratePer1000Paise := service.ratePer1000Paise
  sellPer1000Paise := quote.sellPer1000Paise
  pricingLayer := quote.layer
  markupPercent := quote.markupPercent
  isRefillable := service.isRefillable
  isCancelable := service.isCancelable
  averageTime := service.averageTime
  quotedAt := now
  resellerDiscountPaise := quote.resellerDiscountPaise
  retailPer1000Paise := quote.retailPer1000Paise

/-- Sets fields of a loaded order: on the copy, and in the tables with the next flush. -/
def setOrder (order : Order) (f : Order → Order) : M Order := do
  .write (Stmt.updateOrder order.publicId f)
  pure (f order)

def setOrderIf (c : Bool) (order : Order) (f : Order → Order) : M Order :=
  if c then setOrder order f else pure order

/-- `_record_event` -/
def recordEvent (now : Time) (order : Order) (toStatus : OrderStatus) (note : String) : M Order := do
  let updated ← setOrder order fun o => { o with status := toStatus, updatedAt := now }
  .write (Stmt.insertOrderEvent ⟨order.publicId, order.status, toStatus, note, now⟩)
  flush
  pure updated

/-- The order an idempotency record points to, else the one placed under the key itself. -/
def loadIdempotentOrder (key : Key) : M (Option Order) := do
  match ← .query (·.records key) with
  | .some (.order orderId) => .query (·.findOrder orderId)
  | _ => .query fun db => db.orders.find? (·.idempotencyKey == key)

/-- `session.get(Coupon, code)`; a coupon the session has loaded is not read again. -/
def getCoupon (code : String) : Option Coupon → M (Option Coupon)
  | .some coupon => pure (.some coupon)
  | .none => .query (·.coupons code)

def uncountUse (code : String) : Option Coupon → M Unit
  | .some coupon =>
    if 0 < coupon.usedCount then .write (Stmt.setUsedCount code (coupon.usedCount - 1)) else pure ()
  | .none => pure ()

/-- `_release_coupon_use`; `loaded` is the coupon if the session has it already. -/
def releaseCouponUse (order : Order) (loaded : Option Coupon) : M Unit := do
  match order.couponCode.filter (· ≠ "") with
  | .none => pure ()
  | .some code =>
    let redemption ← .query fun db =>
      db.redemptions.find? fun r => r.couponCode == code && r.orderId == order.publicId
    match redemption with
    | .none => pure ()
    | .some redemption =>
      .write (Stmt.deleteRedemption redemption)
      uncountUse code (← getCoupon code loaded)

/-- A posting on an order's behalf. -/
def orderPosting (order : Order) (amountPaise : Int) (reason : String) : Posting :=
  ⟨order.userId, amountPaise, reason, .some "order", .some order.publicId⟩

/-- `_fail_and_release` -/
def failAndRelease (now : Time) (order : Order) (reason tag : String) (loaded : Option Coupon) : M Order := do
  let _ ← release (orderPosting order order.chargePaise s!"Release {order.publicId} ({tag})")
    (.release order.publicId tag)
  let failed ← setOrder order fun o => { o with failReason := .some (clip 255 reason) }
  releaseCouponUse failed loaded
  recordEvent now failed .failed (clip 255 reason)

/-- `capture(...)` of an order's charge -/
def captureCharge (order : Order) : M Unit := do
  let _ ← capture (orderPosting order order.chargePaise s!"Charge {order.publicId}") (.capture order.publicId)

namespace Db

/-- The credits that refer to the order, on its owner's wallet. -/
def refunds (db : Db) (order : Order) : List LedgerEntry := db.ledger.filter fun e =>
  e.referenceType == .some "order" && e.referenceId == .some order.publicId &&
    e.entryType == .credit && e.userId == order.userId

def refundedSoFar (db : Db) (order : Order) : Int := ((db.refunds order).map (·.amountPaise)).sum

end Db

/-- Total already credited back to the customer for this order. -/
def refundedSoFar (order : Order) : M Int := .query (·.refundedSoFar order)

/-! ## Placing an order -/

structure OrderRequest where
  serviceId : String
  link : String
  quantity : Int
  extra : Extra := []
  couponCode : Option String := .none
  idempotencyKey : Option String := .none

/-- The key of a request: the client's, in its user's name space, or derived
from the request and a bucket of time. -/
def OrderRequest.key (request : OrderRequest) (now : Time) (userId : Int) (serviceId link : String)
    (extra : Extra) (couponCode : Option String) : Key :=
  match request.idempotencyKey.filter (· ≠ "") with
  | .some k => .orderKey userId (clip 128 k)
  | .none => .order userId serviceId link request.quantity extra.dumpsSorted (couponCode.getD "")
      (now / (idempotencyBucketSeconds * microseconds))

def scaleRetail (quote : PriceQuote) : Int :=
  max (quote.chargePaise + quote.resellerDiscountPaise) quote.chargePaise

def newOrder (now : Time) (publicId : String) (userId : Int) (service : Service) (link : String)
    (extra : Extra) (quote : PriceQuote) (key : Key) : Order where
  publicId := publicId
  userId := userId
  serviceId := service.id
  providerId := service.providerId
  providerOrderId := .none
  status := .pending
  link := link
  quantity := quote.quantity
  extra := extra
  chargePaise := quote.chargePaise
  costPaise := quote.costPaise
  startCount := .none
  remains := .some quote.quantity
  snapshot := snapshotService now service quote
  idempotencyKey := key
  couponCode := quote.couponCode
  failReason := .none
  refillCount := 0
  lastSyncedAt := .none
  createdAt := now
  updatedAt := now

/-- The reseller's record of an order. -/
def recordResale (order : Order) (quoted : Quoted) : M Unit :=
  match quoted.reseller.filter (·.active) with
  | .some _ => .write (Stmt.insertResellerOrder
      ⟨order.userId, order.publicId, order.chargePaise, scaleRetail quoted.quote⟩)
  | .none => pure ()

def countUse (code : String) : Option Coupon → M Unit
  | .some coupon => .write (Stmt.setUsedCount code (coupon.usedCount + 1))
  | .none => pure ()

/-- Counts the use of the order's coupon. -/
def redeemCoupon (order : Order) (loaded : Option Coupon) : M Unit := do
  match order.couponCode.filter (· ≠ "") with
  | .none => pure ()
  | .some code =>
    countUse code loaded
    .write (Stmt.insertRedemption ⟨code, order.userId, order.publicId⟩)

/-- Persists the order and holds its charge. -/
def bookOrder (now : Time) (order : Order) (quoted : Quoted) : M Order := do
  .write (Stmt.insertOrder order)
  flush
  .write (Stmt.insertRecord order.idempotencyKey (.order order.publicId))
  recordResale order quoted
  let _ ← reserve (orderPosting order order.chargePaise s!"Reserve for {order.publicId}")
    (.reserve order.publicId)
  let order ← recordEvent now order .awaitingProvider "Funds reserved"
  redeemCoupon order quoted.coupon
  pure order

/-- What the provider's answer makes of a booked order. -/
def settleSubmission (now : Time) (order : Order) (loaded : Option Coupon) :
    Except SubmitError String → M Order
  | .ok externalId => do
    let order ← setOrder order fun o => { o with providerOrderId := .some externalId }
    captureCharge order
    recordEvent now order .processing s!"Provider order {externalId}"
  | .error (.provider e) =>
    if e.retryable then do
      -- the provider may have taken the order on: hold the funds and escalate
      let order ← setOrder order fun o => { o with failReason := .some "Waiting for provider confirmation" }
      let order ← recordEvent now order .review (clip 255 e.message)
      audit now "system" "order.review" (.some order.publicId) (.some "ambiguous provider response")
      pure order
    else failAndRelease now order (clip 255 e.message) "provider" loaded
  | .error .other => failAndRelease now order "Internal error submitting to provider" "internal" loaded

/-- Sends a booked order to the provider. -/
def submitOrder (now : Time) (order : Order) (service : Service) (loaded : Option Coupon)
    (submission : Submission) : M Order := do
  match ← .query (·.findProvider service.providerId) with
  | .none => settleSubmission now order loaded (.error .other)
  | .some _ =>
    .call (.createOrder order.publicId service.providerServiceId order.link order.quantity submission.accepted)
    settleSubmission now order loaded submission.answer

/-- An order that is worth replaying: any but a failed one. -/
def Order.replayable (o : Order) : Bool := o.status ≠ .failed

/-- The request as it will be ordered: what was asked for, checked and priced. -/
def checkRequest (now : Time) (userId : Int) (request : OrderRequest) :
    M (Service × String × Extra × Quoted) := do
  match ← .query (·.users userId) with
  | .none => raise .missingRow
  | .some user =>
    .require (!user.isBanned) (.order "This account is suspended")
    .require user.termsAccepted (.order "Please accept the Terms of Service and Privacy Policy first")
    assertOrdersOpen
    match (← .query (·.findService request.serviceId)).filter (·.isActive) with
    | .none => orderError "Service is not available"
    | .some service =>
      let provider ← .query (·.findProvider service.providerId)
      .require (provider.any (·.isActive)) (.order "Provider is offline")
      let link ← ofExcept (validateLink request.link)
      let extra ← ofExcept (validateExtra service request.extra)
      let quoted ← quoteOrder now service.id request.quantity (.some userId) request.couponCode
      pure (service, link, extra, quoted)

/-- Steps 4 to 8, for a request that is not a replay. -/
def placeNew (now : Time) (publicId : String) (userId : Int) (user : User) (service : Service)
    (link : String) (extra : Extra) (quoted : Quoted) (key : Key) (submission : Submission) : M Order := do
  let quote := quoted.quote
  .require (quote.chargePaise ≤ user.availablePaise) (needFunds quote.chargePaise user.availablePaise)
  let order ← bookOrder now (newOrder now publicId userId service link extra quote key) quoted
  let used := quoted.coupon.map fun c => { c with usedCount := c.usedCount + 1 }
  submitOrder now order service used submission

def placeOrder (now : Time) (publicId : String) (userId : Int) (request : OrderRequest)
    (submission : Submission) : M Order := do
  let (service, link, extra, quoted) ← checkRequest now userId request
  let quote := quoted.quote
  .require (0 < quote.chargePaise) (.order "Quoted charge is invalid")
  let key := request.key now userId service.id link extra quote.couponCode
  let user ← lockUser userId
  let existing ← loadIdempotentOrder key
  match existing.filter (·.replayable) with
  | .some order => pure order
  | .none =>
    let key := if existing.isSome then .retry key now else key
    placeNew now publicId userId user service link extra quoted key submission

/-! ## Following the provider -/

/-- Credits part of an order's charge back and keeps a record of it. -/
def creditBack (order : Order) (amountPaise : Int) (reason : String) (key : Key) : M Unit := do
  let _ ← credit (orderPosting order amountPaise reason) (.some key)
  .write (Stmt.insertRecord key (.refund amountPaise))

/-- `_maybe_partial_refund` -/
def maybePartialRefund (order : Order) (remains : Int) : M Unit := do
  if remains ≤ 0 || order.quantity ≤ 0 then pure ()
  else
    match ← .query (·.records (.partialRefund order.publicId)) with
    | .some _ => pure ()
    | .none =>
      let fraction := min 1 (max 0 (nearest (nearest remains / nearest order.quantity)))
      let refund := roundHalfEven (nearest (nearest order.chargePaise * fraction))
      let refund := min refund (max 0 (order.chargePaise - (← refundedSoFar order)))
      if refund ≤ 0 then pure ()
      else
        match ← .query (·.users order.userId) with
        | .none => pure ()
        | .some _ =>
          creditBack order refund s!"Partial refund {order.publicId}" (.partialRefund order.publicId)

/-- `_refund_if_needed` -/
def refundIfNeeded (now : Time) (order : Order) (mapped : OrderStatus) : M Order := do
  match ← .query (·.records (.refund order.publicId mapped.text)) with
  | .some _ => pure order
  | .none =>
    match ← .query (·.users order.userId) with
    | .none => pure order
    | .some _ =>
      if order.chargePaise ≤ 0 then pure order
      else
        -- a partial refund may already have been paid: only return what is still owed
        let owed := max 0 (order.chargePaise - (← refundedSoFar order))
        if owed ≤ 0 then pure order
        else
          creditBack order owed s!"Refund {order.publicId} ({mapped.text})" (.refund order.publicId mapped.text)
          if mapped ≠ .refunded then recordEvent now order .refunded s!"auto-refund after {mapped.text}"
          else pure order

/-- What is left of a partial delivery is paid back, when the provider says how much. -/
def refundRest (order : Order) : Option Int → M Unit
  | .some remains => maybePartialRefund order remains
  | .none => pure ()

/-- What a change of status brings with it. -/
def applyStatus (now : Time) (order : Order) (mapped : OrderStatus) (remains : Option Int) : M Order := do
  let order ← recordEvent now order mapped "provider sync"
  if mapped = .partial_ then
    refundRest order remains
    pure order
  else if mapped ∈ [.canceled, .refunded, .failed] && order.status ≠ .refunded then
    -- if the provider canceled after we captured, refund the remaining value
    refundIfNeeded now order mapped
  else if mapped = .completed then
    creditOrderCommission order
    pure order
  else pure order

def applyStatusIf (c : Bool) (now : Time) (order : Order) (mapped : OrderStatus) (remains : Option Int) :
    M Order :=
  if c then applyStatus now order mapped remains else pure order

/-- Takes the provider's report into the order. -/
def applyReport (now : Time) (order : Order) (status : ProviderStatus) : M Order := do
  let mapped := if status.status = .cancelled then .canceled else status.status
  let started := status.startCount.isSome && order.startCount ≠ status.startCount
  let moved := status.remains.isSome && order.remains ≠ status.remains
  let turned := mapped ≠ order.status
  let order ← setOrderIf started order fun o => { o with startCount := status.startCount }
  let order ← setOrderIf moved order fun o => { o with remains := status.remains }
  let order ← applyStatusIf turned now order mapped status.remains
  let order ← setOrderIf (started || moved || turned) order fun o => { o with updatedAt := now }
  setOrder order fun o => { o with lastSyncedAt := .some now }

/-- `sync_order_status` on a loaded order -/
def syncOrder (now : Time) (order : Order) (answer : Except ProviderError ProviderStatus) : M Order := do
  if order.status ∈ OrderStatus.terminal || !order.hasProviderOrder then pure order
  else
    adapterFor order.providerId
    .call (.orderStatus (order.providerOrderId.getD ""))
    match answer with
    | .error _ => setOrder order fun o => { o with lastSyncedAt := .some now }
    | .ok status => applyReport now order status

/-- The caller's load of an order. -/
def loadOrder (publicId : String) : M Order := do
  match ← .query (·.findOrder publicId) with
  | .some order => pure order
  | .none => raise (.notFound "Order not found")

def syncOrderStatus (now : Time) (publicId : String) (answer : Except ProviderError ProviderStatus) :
    M Unit := do
  let order ← loadOrder publicId
  let _ ← syncOrder now order answer

/-! ## Refill and cancel -/

/-- The user a request comes from. -/
def loadUser (userId : Int) : M User := do
  match ← .query (·.users userId) with
  | .some user => pure user
  | .none => raise .missingRow

/-- The owner, or staff. -/
def Order.mayBeManagedBy (o : Order) (user : User) : Bool :=
  o.userId == user.telegramId || user.role ∈ [Role.admin, Role.owner]

/-- `request_refill`; the provider answers with a refill id. -/
def requestRefill (now : Time) (publicId : String) (userId : Int) (answer : Except ProviderError String) :
    M Unit := do
  let order ← loadOrder publicId
  let user ← loadUser userId
  assertRefillsOpen
  .require (order.mayBeManagedBy user) (.order "Not your order")
  .require order.snapshot.isRefillable (.order "This service does not support refill")
  .require (order.status ∈ OrderStatus.refillable) (.order "Refill is only available after completion")
  .require order.hasProviderOrder (.order "No provider order to refill")
  adapterFor order.providerId
  .call (.refill (order.providerOrderId.getD ""))
  match answer with
  | .error e => orderError e.message
  | .ok refillId =>
    let count := order.refillCount + 1
    let extra := order.extra.set "last_refill_id" (.str refillId)
    let order ← setOrder order fun o => { o with refillCount := count, extra := extra }
    let _ ← recordEvent now order .refilling s!"refill {refillId}"

/-- Asks the provider to cancel, where it has the order. -/
def cancelAtProvider (order : Order) (answer : Except ProviderError Unit) : M Unit := do
  if order.hasProviderOrder then
    adapterFor order.providerId
    .call (.cancel (order.providerOrderId.getD ""))
    match answer with
    | .error e => orderError e.message
    | .ok _ => pure ()
  else pure ()

/-- The money part of a cancellation: if the charge is still reserved release
it, otherwise credit back what is owed. -/
def cancelMoney (order : Order) : M Unit := do
  match ← .query (·.users order.userId) with
  | .none => pure ()
  | .some _ =>
    if order.chargePaise ≤ 0 || order.status = .review then pure ()
    else if order.status ∈ [.pending, .awaitingProvider] then
      let _ ← release (orderPosting order order.chargePaise s!"Release {order.publicId} (cancel)")
        (.release order.publicId "cancel")
    else
      let owed := max 0 (order.chargePaise - (← refundedSoFar order))
      if owed ≤ 0 then pure ()
      else
        let _ ← credit (orderPosting order owed s!"Refund {order.publicId} (cancel)")
          (.some (.refund order.publicId "cancel"))

/-- `request_cancel`; the provider confirms the cancellation or refuses it. -/
def requestCancel (now : Time) (publicId : String) (userId : Int) (answer : Except ProviderError Unit) :
    M Unit := do
  let order ← loadOrder publicId
  let user ← loadUser userId
  .require (order.mayBeManagedBy user) (.order "Not your order")
  .require order.snapshot.isCancelable (.order "This service cannot be canceled")
  .require (order.status ∈ OrderStatus.cancelable) (.order "This order can no longer be canceled")
  cancelAtProvider order answer
  cancelMoney order
  let _ ← recordEvent now order .canceled "user cancel"

/-! ## The operator -/

/-- Close out an order whose provider outcome was unknown. -/
def resolveReviewOrder (now : Time) (publicId : String) (releaseFunds : Bool) (attach : Option String)
    (actor : String) : M Unit := do
  let order ← loadOrder publicId
  let attachId := attach.getD ""
  .require (order.status = .review) (.order "Order is not under review")
  .require (releaseFunds != (attachId ≠ "" : Bool))
    (.order "Choose exactly one: release the funds or attach a provider order id")
  match ← .query (·.users order.userId) with
  | .none => orderError "Order owner not found"
  | .some _ =>
    if releaseFunds then
      let order ← failAndRelease now order "Not accepted by provider" "review" .none
      audit now actor "order.review.release" (.some order.publicId) .none
    else
      let order ← setOrder order fun o => { o with providerOrderId := .some (clip 64 attachId) }
      captureCharge order
      let order ← setOrder order fun o => { o with failReason := .none }
      let order ← recordEvent now order .processing s!"Provider order {clip 64 attachId} (manual)"
      audit now actor "order.review.attach" (.some order.publicId) .none

/-- Orders that reserved funds but never reached the provider call's outcome. -/
def Order.isStuck (cutoff : Time) (o : Order) : Bool :=
  o.status ∈ [.pending, .awaitingProvider] && o.providerOrderId.isNone && o.updatedAt ≤ cutoff

def flagStuckOrder (now : Time) (order : Order) : M Unit := do
  let order ← setOrder order fun o => { o with failReason := .some "Waiting for provider confirmation" }
  let order ← recordEvent now order .review "stuck after reserve; needs operator review"
  audit now "system" "order.review" (.some order.publicId) (.some "stuck before provider outcome")

/-- Flags the orders that are stuck: their funds stay held for the operator. -/
def flagStuckOrders (now : Time) (olderThanSeconds : Int) (limit : Nat) : M Unit := do
  let cutoff := now - olderThanSeconds * microseconds
  let rows ← .query fun db => (db.orders.filter (·.isStuck cutoff)).take limit
  .forEach (flagStuckOrder now) rows

end Falaron
