/-
The tables the money code reads and writes, the rows it locks, and the
statements it issues.

Orders and payments are identified by their public ids (unique columns);
their list order is the order of insertion, which is the order of the serial
ids. A row of a JSON column is kept as the value that was dumped. Columns no
function here reads (names, notes, ledger metadata) are left out.
-/
import Falaron.Text
import Falaron.Txn.Prog
import Mathlib.Data.List.Nodup

namespace Falaron

open Text (Extra clip)

/-- A point in time, in microseconds. -/
abbrev Time := Int

/-- An idempotency key. `new_idempotency_key(*parts)` is the digest of its
parts; digests are only ever compared, so a key is kept as the parts, by the
place that makes it (the digest is taken to be free of collisions). `text`
is a key a caller brings along. -/
inductive Key where
  | text (s : String)
  | credit (userId : Int) (reason : String) (amountPaise : Int)
  | debit (userId : Int) (reason : String) (amountPaise : Int)
  | reserve (publicId : String)
  | capture (publicId : String)
  | release (publicId tag : String)
  | partialRefund (publicId : String)
  | refund (publicId mapped : String)
  | deposit (publicId : String)
  | reford (publicId : String)
  | refdep (userId : Int)
  /-- `"order-key"`: a client's key, in the name space of its user. -/
  | orderKey (userId : Int) (key : String)
  /-- `"order"`: derived from the request itself. -/
  | order (userId : Int) (serviceId link : String) (quantity : Int) (extra coupon : String) (bucket : Int)
  | retry (key : Key) (at_ : Time)
  | payKey (userId : Int) (key : String)
  | pay (userId amountPaise bucket : Int)
  deriving DecidableEq, Repr

/-- `idempotency_key or new_idempotency_key(...)`: the empty text counts as none. -/
def Key.orElse : Option Key → Key → Key
  | some (.text ""), d => d
  | some k, _ => k
  | none, d => d

inductive Role where
  | user | reseller | promoter | admin | owner
  deriving DecidableEq, Repr

structure User where
  telegramId : Int
  role : Role := .user
  isBanned : Bool := false
  /-- `terms_accepted_at is not None` -/
  termsAccepted : Bool := true
  cachedBalancePaise : Int := 0
  cachedReservedPaise : Int := 0
  referredBy : Option Int := none
  deriving DecidableEq, Repr

def User.availablePaise (u : User) : Int := u.cachedBalancePaise - u.cachedReservedPaise

inductive EntryType where
  | credit | debit | reserve | release | capture
  deriving DecidableEq, Repr

structure LedgerEntry where
  userId : Int
  amountPaise : Int
  entryType : EntryType
  reason : String
  referenceType : Option String
  referenceId : Option String
  idempotencyKey : Key
  balanceAfterPaise : Int
  reservedAfterPaise : Int
  deriving DecidableEq, Repr

inductive OrderStatus where
  | pending | awaitingProvider | processing | inProgress | completed | partial_ | canceled | cancelled
  | failed | refunded | refilling | review
  deriving DecidableEq, Repr

namespace OrderStatus

def terminal : List OrderStatus := [completed, canceled, cancelled, failed, refunded]
def active : List OrderStatus := [pending, awaitingProvider, processing, inProgress, partial_, refilling]
def refillable : List OrderStatus := [completed, partial_]
def cancelable : List OrderStatus := [pending, awaitingProvider, processing, inProgress]

/-- The text of the status, as it goes into keys and notes. -/
def text : OrderStatus → String
  | pending => "pending"
  | awaitingProvider => "awaiting_provider"
  | processing => "processing"
  | inProgress => "in_progress"
  | completed => "completed"
  | partial_ => "partial"
  | canceled => "canceled"
  | cancelled => "cancelled"
  | failed => "failed"
  | refunded => "refunded"
  | refilling => "refilling"
  | review => "review"

end OrderStatus

/-- `snapshot_service`: the service and quote an order was placed under. -/
structure Snapshot where
  id : String
  name : String
  categoryId : String
  providerId : String
  providerServiceId : String
  serviceType : Option String
  minQty : Int
  maxQty : Int
  ratePer1000Paise : Int
  sellPer1000Paise : Int
  pricingLayer : String
  markupPercent : Rat
  isRefillable : Bool
  isCancelable : Bool
  averageTime : Option String
  quotedAt : Time
  resellerDiscountPaise : Int
  retailPer1000Paise : Int
  deriving DecidableEq, Repr

structure Order where
  publicId : String
  userId : Int
  serviceId : String
  providerId : String
  providerOrderId : Option String
  status : OrderStatus
  link : String
  quantity : Int
  extra : Extra
  chargePaise : Int
  costPaise : Int
  startCount : Option Int
  remains : Option Int
  snapshot : Snapshot
  idempotencyKey : Key
  couponCode : Option String
  failReason : Option String
  refillCount : Int
  lastSyncedAt : Option Time
  createdAt : Time
  updatedAt : Time
  deriving DecidableEq, Repr

structure OrderEvent where
  orderId : String
  fromStatus : OrderStatus
  toStatus : OrderStatus
  note : String
  createdAt : Time
  deriving DecidableEq, Repr

/-- `IdempotencyRecord.response_json`, by scope. -/
inductive Response where
  | order (orderId : String)
  | refund (refundPaise : Int)
  deriving DecidableEq, Repr

structure Provider where
  id : String
  isActive : Bool
  markupPercent : Option Rat
  markupFixedPaise : Option Int

structure Category where
  id : String
  markupPercent : Option Rat
  markupFixedPaise : Option Int

structure Service where
  id : String
  categoryId : String
  providerId : String
  providerServiceId : String
  name : String
  serviceType : Option String
  minQty : Int
  maxQty : Int
  ratePer1000Paise : Int
  markupPercent : Option Rat
  markupFixedPaise : Option Int
  isActive : Bool
  isRefillable : Bool
  isCancelable : Bool
  averageTime : Option String

structure StarPrice where
  serviceId : String
  userId : Option Int
  customRatePer1000Paise : Int
  isActive : Bool

/-- What the operator keeps: the catalog and the settings. A numeric setting
is kept as the number `float` reads from it, if it reads one. -/
structure Catalog where
  services : List Service := []
  providers : List Provider := []
  categories : List Category := []
  stars : List StarPrice := []
  settings : String → Option String := fun _ => none
  settingFloats : String → Option Rat := fun _ => none

structure Coupon where
  code : String
  percent : Bool
  value : Rat
  maxUses : Option Int
  usedCount : Int
  perUserLimit : Int
  minOrderPaise : Int
  isActive : Bool
  expiresAt : Option Time

structure CouponRedemption where
  couponCode : String
  userId : Int
  orderId : String
  deriving DecidableEq, Repr

structure Reseller where
  userId : Int
  discountBp : Int
  active : Bool

structure ResellerOrder where
  resellerId : Int
  orderId : String
  chargePaise : Int
  retailPaise : Int
  deriving DecidableEq, Repr

inductive PaymentStatus where
  | pending | paid | expired | failed | review
  deriving DecidableEq, Repr

structure Payment where
  publicId : String
  userId : Int
  amountPaise : Int
  method : String
  status : PaymentStatus
  providerRef : Option String
  currency : String
  checkoutUrl : Option String
  failureReason : Option String
  idempotencyKey : Key
  paidAt : Option Time
  createdAt : Time
  deriving DecidableEq, Repr

structure PaymentEvent where
  gateway : String
  eventId : String
  eventType : String
  paymentPublicId : Option String
  amountPaise : Option Int
  currency : Option String
  outcome : String
  detail : Option String
  createdAt : Time
  deriving DecidableEq, Repr

structure AuditLog where
  actor : String
  action : String
  target : Option String
  reason : Option String
  createdAt : Time
  deriving DecidableEq, Repr

/-- A `/start` with a referral code. -/
structure ReferralClick where
  code : String
  referrerId : Option Int
  visitorId : Int
  isSignup : Bool
  createdAt : Time
  deriving DecidableEq, Repr

structure Db where
  users : Int → Option User := fun _ => none
  /-- `users.referral_code`, a unique column: whose code it is. -/
  referralCodes : String → Option Int := fun _ => none
  referralClicks : List ReferralClick := []
  ledger : List LedgerEntry := []
  orders : List Order := []
  orderEvents : List OrderEvent := []
  records : Key → Option Response := fun _ => none
  coupons : String → Option Coupon := fun _ => none
  redemptions : List CouponRedemption := []
  resellers : Int → Option Reseller := fun _ => none
  resellerOrders : List ResellerOrder := []
  payments : List Payment := []
  paymentEvents : List PaymentEvent := []
  audits : List AuditLog := []
  catalog : Catalog := {}

/-- What a lock is taken on: a row, or the place of a unique key. -/
inductive Row where
  | user (telegramId : Int)
  | ledgerKey (key : Key)
  | order (publicId : String)
  | orderKey (key : Key)
  | record (key : Key)
  | coupon (code : String)
  | redemption (code : String) (userId : Int) (orderId : String)
  | resellerOrder (orderId : String)
  | payment (publicId : String)
  | paymentKey (key : Key)
  | paymentEvent (gateway eventId : String)
  deriving DecidableEq, Repr

inductive Err where
  | order (message : String)
  | permission (message : String)
  | value (message : String)
  | wallet (message : String)
  | insufficientFunds (message : String)
  | deposit (message : String)
  | notFound (message : String)
  /-- A constraint of the database refused a write. -/
  | integrity
  /-- A refresh found no row. -/
  | missingRow
  /-- `scalar_one_or_none` found more than one row. -/
  | multipleRows
  deriving DecidableEq, Repr

/-- What the code asks of a provider or a gateway. -/
inductive Ext where
  /-- `accepted`: the provider took the order on. -/
  | createOrder (publicId providerServiceId link : String) (quantity : Int) (accepted : Bool)
  | orderStatus (providerOrderId : String)
  | refill (providerOrderId : String)
  | cancel (providerOrderId : String)
  | createCheckout (publicId : String) (amountPaise : Int)
  | fetchStatus (providerRef : String)
  deriving DecidableEq, Repr

abbrev M := Txn.Prog Db Row Err Ext

abbrev Stmt := Txn.Stmt Db Row

abbrev Session := Txn.Session Db Row Ext

/-- `raise` -/
def raise {α : Type} (e : Err) : M α := .throw e

/-- `session.flush()` -/
def flush : M Unit := .flushed .integrity

/-- Among rows with distinct names, a row is the one found under its name. -/
theorem find?_name {α : Type} {name : α → String} {l : List α} {a : α} (hn : (l.map name).Nodup) (h : a ∈ l) :
    l.find? (fun b => name b == name a) = some a := by
  obtain ⟨b, hb⟩ : ∃ b, l.find? (fun b => name b == name a) = some b := by
    refine Option.isSome_iff_exists.mp (List.find?_isSome.mpr ⟨a, h, ?_⟩)
    simp
  have hba : name b = name a := by simpa using List.find?_some hb
  rw [hb, List.inj_on_of_nodup_map hn (List.mem_of_find?_eq_some hb) h hba]

namespace Db

def findOrder (db : Db) (publicId : String) : Option Order := db.orders.find? (·.publicId == publicId)

def findEntry (db : Db) (key : Key) : Option LedgerEntry := db.ledger.find? (·.idempotencyKey == key)

def findPayment (db : Db) (publicId : String) : Option Payment := db.payments.find? (·.publicId == publicId)

def findService (db : Db) (id : String) : Option Service := db.catalog.services.find? (·.id == id)

def findProvider (db : Db) (id : String) : Option Provider := db.catalog.providers.find? (·.id == id)

def findCategory (db : Db) (id : String) : Option Category := db.catalog.categories.find? (·.id == id)

/-- `UPDATE users SET cached_balance_paise, cached_reserved_paise` -/
def setWallet (db : Db) (userId balance reserved : Int) : Db :=
  { db with users := fun u =>
      if u = userId then
        (db.users u).map fun r => { r with cachedBalancePaise := balance, cachedReservedPaise := reserved }
      else db.users u }

def updateOrder (db : Db) (publicId : String) (f : Order → Order) : Db :=
  { db with orders := db.orders.map fun o => if o.publicId = publicId then f o else o }

def updatePayment (db : Db) (publicId : String) (f : Payment → Payment) : Db :=
  { db with payments := db.payments.map fun p => if p.publicId = publicId then f p else p }

end Db

/-! ## Statements -/

namespace Stmt

def setWallet (userId balance reserved : Int) : Stmt where
  rows := [.user userId]
  admits _ := true
  apply db := db.setWallet userId balance reserved

def setReferredBy (userId : Int) (referrerId : Int) : Stmt where
  rows := [.user userId]
  admits _ := true
  apply db := { db with users := fun u =>
    if u = userId then (db.users u).map fun r => { r with referredBy := some referrerId } else db.users u }

def insertReferralClick (c : ReferralClick) : Stmt where
  rows := []
  admits _ := true
  apply db := { db with referralClicks := db.referralClicks ++ [c] }

def insertEntry (e : LedgerEntry) : Stmt where
  rows := [.ledgerKey e.idempotencyKey]
  admits db := (db.findEntry e.idempotencyKey).isNone
  apply db := { db with ledger := db.ledger ++ [e] }

def insertOrder (o : Order) : Stmt where
  rows := [.order o.publicId, .orderKey o.idempotencyKey]
  admits db := db.orders.all fun o' => o'.publicId != o.publicId && o'.idempotencyKey != o.idempotencyKey
  apply db := { db with orders := db.orders ++ [o] }

def updateOrder (publicId : String) (f : Order → Order) : Stmt where
  rows := [.order publicId]
  admits _ := true
  apply db := db.updateOrder publicId f

def insertOrderEvent (e : OrderEvent) : Stmt where
  rows := []
  admits _ := true
  apply db := { db with orderEvents := db.orderEvents ++ [e] }

def insertRecord (key : Key) (r : Response) : Stmt where
  rows := [.record key]
  admits db := (db.records key).isNone
  apply db := { db with records := fun k => if k = key then some r else db.records k }

def insertResellerOrder (r : ResellerOrder) : Stmt where
  rows := [.resellerOrder r.orderId]
  admits db := db.resellerOrders.all (·.orderId != r.orderId)
  apply db := { db with resellerOrders := db.resellerOrders ++ [r] }

def setUsedCount (code : String) (n : Int) : Stmt where
  rows := [.coupon code]
  admits _ := true
  apply db := { db with coupons := fun c =>
    if c = code then (db.coupons c).map fun r => { r with usedCount := n } else db.coupons c }

def insertRedemption (r : CouponRedemption) : Stmt where
  rows := [.redemption r.couponCode r.userId r.orderId]
  admits db := !db.redemptions.contains r
  apply db := { db with redemptions := db.redemptions ++ [r] }

def deleteRedemption (r : CouponRedemption) : Stmt where
  rows := [.redemption r.couponCode r.userId r.orderId]
  admits _ := true
  apply db := { db with redemptions := db.redemptions.erase r }

def insertPayment (p : Payment) : Stmt where
  rows := [.payment p.publicId, .paymentKey p.idempotencyKey]
  admits db := db.payments.all fun q => q.publicId != p.publicId && q.idempotencyKey != p.idempotencyKey
  apply db := { db with payments := db.payments ++ [p] }

def updatePayment (publicId : String) (f : Payment → Payment) : Stmt where
  rows := [.payment publicId]
  admits _ := true
  apply db := db.updatePayment publicId f

def deletePayment (publicId : String) : Stmt where
  rows := [.payment publicId]
  admits _ := true
  apply db := { db with payments := db.payments.filter (·.publicId != publicId) }

def insertPaymentEvent (e : PaymentEvent) : Stmt where
  rows := [.paymentEvent e.gateway e.eventId]
  admits db := db.paymentEvents.all fun e' => !(e'.gateway == e.gateway && e'.eventId == e.eventId)
  apply db := { db with paymentEvents := db.paymentEvents ++ [e] }

def updatePaymentEvent (gateway eventId : String) (f : PaymentEvent → PaymentEvent) : Stmt where
  rows := [.paymentEvent gateway eventId]
  admits _ := true
  apply db := { db with paymentEvents := db.paymentEvents.map fun e =>
    if e.gateway = gateway ∧ e.eventId = eventId then f e else e }

def insertAudit (a : AuditLog) : Stmt where
  rows := []
  admits _ := true
  apply db := { db with audits := db.audits ++ [a] }

end Stmt

/-- `audit(...)`: the entry goes in with everything staged. -/
def audit (now : Time) (actor action : String) (target reason : Option String) : M Unit := do
  let short (n : Nat) (s : Option String) := (s.filter (· ≠ "")).map (clip n)
  .write (Stmt.insertAudit ⟨clip 48 actor, clip 64 action, short 80 target, short 255 reason, now⟩)
  flush

/-- `scalar_one_or_none()` -/
def scalarOneOrNone {α : Type} (q : Db → List α) : M (Option α) := do
  match ← .query q with
  | [] => pure .none
  | [a] => pure (.some a)
  | _ => raise .multipleRows

end Falaron
