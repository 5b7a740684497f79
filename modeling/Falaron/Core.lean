/-
The tables of the second system that its money goes through, the rows it
locks and the statements it issues.

Amounts are kept as the columns keep them: a `NUMERIC(18, 4)` value is a
whole number of ten-thousandths. A wallet is named by its user (a unique
column); so is the `wallet_id` of a transaction. Columns nothing here reads
(times, row ids that are random, names) are left out.
-/
import Falaron.Py.Decimal
import Falaron.Txn.Safe

namespace Falaron.Core

open Py (Decimal)

/-! ## Money columns -/

/-- The digits after the point of a `NUMERIC(18, 4)` column. -/
def moneyScale : Nat := 4

/-- What a money column keeps of a decimal. -/
def stored (d : Decimal) : Int := d.numeric moneyScale

/-- A money column read back. -/
def money (n : Int) : Decimal := .ofNumeric moneyScale n

/-- The values a `NUMERIC(18, _)` column takes. -/
def fits (n : Int) : Bool := n.natAbs < 10 ^ 18

def shortEnough (n : Nat) (s : String) : Bool := s.length ≤ n

/-! ## Tables -/

structure Wallet where
  balance : Int
  deriving DecidableEq, Repr

inductive TxType where
  | deposit | orderDebit | refund | bonusCredit | adminCredit | adminDebit | apiDebit | couponCredit
  | resellerCredit | adjustment
  deriving DecidableEq, Repr

structure WalletTransaction where
  walletId : Int
  txType : TxType
  amount : Int
  balanceBefore : Int
  balanceAfter : Int
  idempotencyKey : String
  referenceId : Option String
  reason : Option String
  deriving DecidableEq, Repr

structure Service where
  id : Int
  publicId : String
  isActive : Bool
  orderingEnabled : Bool
  requiresPremium : Bool
  deriving DecidableEq, Repr

structure ServiceProviderMapping where
  serviceId : Int
  providerId : Int
  providerSvcId : String
  isPrimary : Bool
  deriving DecidableEq, Repr

structure Provider where
  id : Int
  currency : String
  isActive : Bool
  deriving DecidableEq, Repr

structure ProviderService where
  providerId : Int
  providerSvcId : String
  /-- `NUMERIC(18, 6)` -/
  rate : Int
  minQty : Int
  maxQty : Int
  refill : Bool
  cancel : Bool
  deriving DecidableEq, Repr

/-- The statuses the code names; the column takes any text. -/
inductive OrderStatus where
  | pending | processing | inProgress | completed | partial_ | cancelled | failed | refunded
  | other (name : String)
  deriving DecidableEq, Repr

namespace OrderStatus

def named : List (String × OrderStatus) :=
  [("pending", pending), ("processing", processing), ("in_progress", inProgress), ("completed", completed),
    ("partial", partial_), ("cancelled", cancelled), ("failed", failed), ("refunded", refunded)]

def ofText (s : String) : OrderStatus := ((named.find? (·.1 == s)).map (·.2)).getD (other s)

end OrderStatus

structure Order where
  id : String
  publicRef : String
  userId : Int
  tenantId : Option Int
  serviceId : Int
  providerId : Int
  providerOrderId : Option String
  providerSvcId : String
  status : OrderStatus
  quantity : Int
  link : Option String
  priceCharged : Int
  /-- `NUMERIC(18, 6)` -/
  providerCost : Int
  currency : String
  idempotencyKey : String
  source : String
  priority : Int
  refillEligible : Bool
  cancelEligible : Bool
  remains : Option Int := none
  startCount : Option Int := none
  deriving DecidableEq, Repr

/-- A point in time, in microseconds. -/
abbrev Time := Int

structure User where
  isPremium : Bool
  deriving DecidableEq, Repr

inductive PlanName where
  | basic | premium | vip
  deriving DecidableEq, Repr

inductive PremiumStatus where
  | active | expired | cancelled
  deriving DecidableEq, Repr

structure UserPremium where
  id : Nat
  userId : Int
  plan : PlanName
  status : PremiumStatus
  expiresAt : Option Time
  paymentRef : Option String
  autoRenew : Bool
  deriving DecidableEq, Repr

inductive PaymentStatus where
  | pending | verified | failed
  deriving DecidableEq, Repr

structure Payment where
  id : Int
  userId : Int
  amount : Int
  currency : String
  provider : String
  providerRef : String
  providerTxnId : Option String
  status : PaymentStatus
  webhookVerified : Bool
  createdAt : Time
  deriving DecidableEq, Repr

inductive DiscountType where
  | percentage | fixed
  | other (name : String)
  deriving DecidableEq, Repr

structure Coupon where
  id : Int
  code : String
  discountType : DiscountType
  discountValue : Int
  maxDiscount : Option Int
  minSpend : Option Int
  totalLimit : Option Int
  perUserLimit : Int
  expiresAt : Option Time
  isActive : Bool
  serviceIds : Option (List Int)
  categoryIds : Option (List Int)
  isTransferable : Bool
  ownerUserId : Option Int
  deriving DecidableEq, Repr

structure CouponRedemption where
  couponId : Int
  userId : Int
  orderId : String
  discountApplied : Int
  idempotencyKey : String
  deriving DecidableEq, Repr

/-- The pricing columns of a service. -/
structure ServicePricing where
  /-- `NUMERIC(18, 6)` -/
  customPrice : Option Int := none
  profitPct : Option Int := none
  categoryId : Int := 0
  deriving DecidableEq, Repr

structure PricingRule where
  id : Int
  /-- The scope of the rule is `global`. -/
  isGlobal : Bool
  /-- `NUMERIC(18, 6)` -/
  value : Int
  minMarginPct : Int
  isActive : Bool
  deriving DecidableEq, Repr

structure Db where
  wallets : Int → Option Wallet := fun _ => none
  transactions : List WalletTransaction := []
  orders : List Order := []
  services : List Service := []
  mappings : List ServiceProviderMapping := []
  providers : List Provider := []
  providerServices : List ProviderService := []
  users : Int → Option User := fun _ => none
  premiums : List UserPremium := []
  payments : List Payment := []
  coupons : List Coupon := []
  redemptions : List CouponRedemption := []
  /-- By the service's id. -/
  servicePricing : Int → ServicePricing := fun _ => {}
  /-- The profit of each category, if it exists and sets one. -/
  categoryProfit : Int → Option Int := fun _ => none
  pricingRules : List PricingRule := []

namespace Db

variable (db : Db)

def findTransaction (key : String) : Option WalletTransaction :=
  db.transactions.find? fun t => t.idempotencyKey == key

/-- The transactions of one wallet, oldest first. -/
def transactionsOf (userId : Int) : List WalletTransaction :=
  db.transactions.filter fun t => t.walletId == userId

def findOrder (key : String) : Option Order := db.orders.find? fun o => o.idempotencyKey == key

/-- `UPDATE wallets SET balance = ... WHERE id = ...` -/
def setBalance (userId balance : Int) : Db :=
  { db with wallets := fun u => if u = userId then (db.wallets u).map fun _ => ⟨balance⟩ else db.wallets u }

end Db

/-! ## Rows, errors, the outside world -/

inductive Row where
  | wallet (userId : Int)
  | transactionKey (key : String)
  | order (id : String)
  | orderKey (key : String)
  | publicRef (ref : String)
  | user (userId : Int)
  | premium (id : Nat)
  | payment (id : Int)
  | redemption (key : String)
  deriving DecidableEq

/-- The class of an `SMMError`. -/
inductive Kind where
  | wallet
  | insufficientBalance (required available : Decimal)
  | order | serviceNotFound | serviceUnavailable | validation | priceChanged
  | provider | providerUnavailable
  | other (name : String)
  deriving DecidableEq, Repr

inductive Err where
  | smm (kind : Kind) (detail userMessage : String)
  /-- An exception of Python's own. -/
  | python (name text : String)
  /-- What the database raises when it refuses a flush. -/
  | database
  deriving DecidableEq, Repr

/-- `str(exc)` -/
def Err.text : Err → String
  | .smm _ detail _ => detail
  | .python _ text => text
  | .database => "database error"

structure OrderRequest where
  providerSvcId : String
  quantity : Int
  link : Option String := none
  customFields : List (String × String) := []
  idempotencyKey : Option String := none
  deriving DecidableEq, Repr

/-- What leaves the process. -/
inductive Ext where
  /-- `adapter.create_order(req)` of the provider. -/
  | createOrder (providerId : Int) (req : OrderRequest)
  | recordSuccess (providerId : Int)
  | recordFailure (providerId : Int)
  deriving DecidableEq, Repr

abbrev M := Txn.Prog Db Row Err Ext
abbrev Session := Txn.Session Db Row Ext
abbrev Local := Txn.Local Db Row

def raise {α : Type} (e : Err) : M α := .throw e

def flush : M Unit := .flushed .database

/-! ## Statements -/

abbrev Stmt := Txn.Stmt Db Row

namespace Stmt

def setBalance (userId balance : Int) : Stmt :=
  ⟨[.wallet userId], fun _ => fits balance, fun db => db.setBalance userId balance⟩

/-- The columns of a transaction can hold it. -/
def holds (t : WalletTransaction) : Bool :=
  fits t.amount && shortEnough 128 t.idempotencyKey && t.referenceId.all (shortEnough 128)

def insertTransaction (t : WalletTransaction) : Stmt :=
  ⟨[.transactionKey t.idempotencyKey], fun db => (db.findTransaction t.idempotencyKey).isNone && holds t,
    fun db => { db with transactions := db.transactions ++ [t] }⟩

end Stmt

/-! ## What a posting does to the tables -/

namespace Db

/-- The tables after the transaction `t`. -/
def posted (db : Db) (t : WalletTransaction) : Db :=
  { db.setBalance t.walletId t.balanceAfter with transactions := db.transactions ++ [t] }

variable {db : Db} {t : WalletTransaction}

@[simp] theorem posted_transactions : (db.posted t).transactions = db.transactions ++ [t] := rfl

@[simp] theorem posted_orders : (db.posted t).orders = db.orders := rfl

theorem posted_wallets (u : Int) : (db.posted t).wallets u =
    if u = t.walletId then (db.wallets u).map fun _ => ⟨t.balanceAfter⟩ else db.wallets u := rfl

theorem transactionsOf_posted (u : Int) : (db.posted t).transactionsOf u =
    if t.walletId = u then db.transactionsOf u ++ [t] else db.transactionsOf u := by
  simp only [transactionsOf, posted_transactions, List.filter_append]
  by_cases h : t.walletId = u <;> simp [h]

theorem findTransaction_posted (key : String) : (db.posted t).findTransaction key =
    (db.findTransaction key).or (if t.idempotencyKey = key then some t else none) := by
  simp only [findTransaction, posted_transactions, List.find?_append]
  by_cases h : t.idempotencyKey = key <;> simp [h]

end Db

end Falaron.Core
