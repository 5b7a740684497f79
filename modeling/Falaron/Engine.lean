/-
The order engine of the second system, and what its orders come to.

`create_order` checks and prices the request, debits the wallet, writes the
order and hands it to the provider registry; when that raises, the order
fails and the debit is credited back. The steps whose code is elsewhere
(kill switches, premium, coupons, pricing, risk) are functions of the tables
here, with whatever they answer or raise.

The registry's function takes `provider_id` and `req`, and the engine calls
it with four other keywords. Python refuses the call before the registry's
body starts, the engine takes the refusal for a provider's error, and no
order reaches a provider.
-/
import Falaron.Ledger
import Falaron.Txn.Frame

namespace Py

/-- The arguments of a call by keywords, in the order of the parameters; the
text of the `TypeError` where they do not fit. -/
def bindKeywords {α : Type} (name : String) (params : List String) (kwargs : List (String × α)) :
    Except String (List α) :=
  match kwargs.find? fun p => !params.contains p.1 with
  | some p => .error (name ++ "() got an unexpected keyword argument '" ++ p.1 ++ "'")
  | none =>
    match params.filter fun q => !kwargs.any (·.1 == q) with
    | [] => .ok (params.filterMap fun q => (kwargs.find? (·.1 == q)).map (·.2))
    | [q] => .error (name ++ "() missing 1 required positional argument: '" ++ q ++ "'")
    | missing => .error (name ++ "() missing " ++ toString missing.length ++ " required positional arguments")

/-- `f"{n:,}"` -/
def thousands (n : Int) : String :=
  let rec go (ds : List Char) (k : Nat) : List Char :=
    match ds with
    | [] => []
    | d :: ds => if k % 3 = 0 && k ≠ 0 then ',' :: d :: go ds (k + 1) else d :: go ds (k + 1)
  (if n < 0 then "-" else "") ++ .ofList (go (toString n.natAbs).toList.reverse 0).reverse

example : thousands 1234567 = "1,234,567" := by decide

end Py

namespace Falaron.Core

open Py (Decimal)

/-! ## The request and what surrounds it -/

structure OrderArgs where
  userId : Int
  serviceId : Int
  quantity : Int
  link : Option String := none
  idempotencyKey : Option String := none
  source : String := "bot"
  confirmedPrice : Option Decimal := none
  couponCode : Option String := none
  tenantId : Option Int := none
  deriving DecidableEq, Repr

structure PriceResult where
  customerPrice : Decimal
  providerCostInr : Decimal
  deriving DecidableEq, Repr

structure RiskScore where
  isBlocked : Bool
  reasons : String
  deriving DecidableEq, Repr

structure ProviderOrderResult where
  providerOrderId : String
  deriving DecidableEq, Repr

/-- The other modules, the providers loaded in the registry and the random ids of one call. -/
structure Surroundings where
  assertOrdersAllowed : (source : String) → Except Err Unit
  /-- Discount and priority; `none` where the module cannot be imported. -/
  applyPremiumToOrder : Option (Db → (userId : Int) → (requiresPremium : Bool) → (quantity : Int) →
    Except Err (Decimal × Int))
  previewCoupon : Db → (code : String) → (userId serviceId : Int) → Except Err Decimal
  calculatePrice : Db → Service → (quantity : Int) → ProviderService → (currency : String) →
    (premiumDiscountPct : Decimal) → (couponDiscountFlat : Option Decimal) → Except Err PriceResult
  evaluateOrderRisk : (userId : Int) → (amount : Decimal) → (serviceId : Int) → Except Err RiskScore
  /-- Is the provider loaded, and is its circuit breaker open (DOWN)? -/
  entry : (providerId : Int) → Option Bool
  /-- What the provider's adapter answers. -/
  adapter : (providerId : Int) → OrderRequest → Except Err ProviderOrderResult
  uuid : String
  orderId : String
  publicRef : String

def lift {α : Type} : Except Err α → M α
  | .ok a => pure a
  | .error e => raise e

theorem wp_lift {α : Type} {x : Except Err α} {Q : α → Session → Prop} {E : Err → Session → Prop} {s : Session}
    (hE : ∀ e, E e s) (hQ : ∀ a, x = .ok a → Q a s) : (lift x).wp Q E s := by
  cases x with
  | error e => exact hE e
  | ok a => exact hQ a rfl

theorem ok_of_bind {ε α β : Type} {x : Except ε α} {f : α → Except ε β} {b : β} (h : x >>= f = .ok b) :
    ∃ a, x = .ok a ∧ f a = .ok b := by
  cases x with
  | error e => cases h
  | ok a => exact ⟨a, rfl, h⟩

namespace Err

def serviceNotFound (id : Int) : Err := .smm .serviceNotFound s!"Service {id} not found" "Service not found."

def serviceUnavailable (id : Int) : Err :=
  .smm .serviceUnavailable s!"Service {id} not available for ordering" "This service is currently unavailable."

def orderError (detail userMessage : String) : Err := .smm .order detail userMessage

def isOrderError : Err → Bool
  | .smm .order _ _ => true
  | _ => false

def outOfRange (quantity minQty maxQty : Int) : Err :=
  .smm .validation s!"Quantity {quantity} out of range [{minQty}, {maxQty}]"
    ("Quantity must be between " ++ Py.thousands minQty ++ " and " ++ Py.thousands maxQty ++ ".")

def priceChanged (confirmed current : Decimal) : Err :=
  .smm .priceChanged ("Price changed: confirmed=" ++ confirmed.str ++ " current=" ++ current.str)
    "The price changed between preview and order. Please try again."

def providerUnavailable (detail : String) : Err :=
  .smm .providerUnavailable detail "Service provider is temporarily unavailable."

/-- A `ProviderError`, its subclasses included. -/
def isProviderError : Err → Bool
  | .smm .provider _ _ | .smm .providerUnavailable _ _ => true
  | _ => false

end Err

/-! ## The registry -/

variable (env : Surroundings)

/-- `ProviderRegistry.create_order` -/
def registryCreateOrder (providerId : Int) (req : OrderRequest) : M ProviderOrderResult := do
  match env.entry providerId with
  | none => raise (.providerUnavailable s!"Provider {providerId} not loaded in registry")
  | some down =>
    .require (!down) (.providerUnavailable s!"Provider {providerId} circuit breaker is open (DOWN)")
    .call (.createOrder providerId req)
    match env.adapter providerId req with
    | .ok result =>
      .call (.recordSuccess providerId)
      pure result
    | .error e =>
      if e.isProviderError then
        .call (.recordFailure providerId)
        raise e
      else raise e

/-- A value the engine passes to the registry. -/
inductive Arg where
  | int (n : Int)
  | text (s : String)
  | request (req : OrderRequest)
  deriving DecidableEq, Repr

/-- `registry.create_order(**kwargs)`: the call binds its arguments before the body starts. -/
def callRegistry (kwargs : List (String × Arg)) : M ProviderOrderResult :=
  match Py.bindKeywords "ProviderRegistry.create_order" ["provider_id", "req"] kwargs with
  | .error text => raise (.python "TypeError" text)
  | .ok [.int providerId, .request req] => registryCreateOrder env providerId req
  | .ok _ => raise (.python "AttributeError" "object has no attribute 'provider_svc_id'")

/-! ## The engine -/

namespace Db

variable (db : Db)

def findService (id : Int) : Option Service := db.services.find? (·.id == id)

def primaryMappings (serviceId : Int) : List ServiceProviderMapping :=
  db.mappings.filter fun m => m.serviceId == serviceId && m.isPrimary

def findProvider (id : Int) : Option Provider := db.providers.find? (·.id == id)

def findProviderService (m : ServiceProviderMapping) : Option ProviderService :=
  db.providerServices.find? fun p => p.providerId == m.providerId && p.providerSvcId == m.providerSvcId

end Db

namespace Stmt

def fitsInteger (n : Int) : Bool := -(2 ^ 31) ≤ n && n < 2 ^ 31

def orderHolds (o : Order) : Bool :=
  shortEnough 32 o.publicRef && fitsInteger o.quantity && fits o.priceCharged && fits o.providerCost &&
    shortEnough 128 o.idempotencyKey && shortEnough 32 o.source && fitsInteger o.priority &&
    o.providerOrderId.all (shortEnough 128) && o.remains.all fitsInteger && o.startCount.all fitsInteger &&
    match o.status with
    | .other name => shortEnough 32 name
    | _ => true

def insertOrder (o : Order) : Stmt :=
  ⟨[.order o.id, .orderKey o.idempotencyKey, .publicRef o.publicRef],
    fun db => db.orders.all (fun p => p.id != o.id && p.idempotencyKey != o.idempotencyKey &&
      p.publicRef != o.publicRef) && orderHolds o,
    fun db => { db with orders := db.orders ++ [o] }⟩

/-- `UPDATE orders ... WHERE id = ...` -/
def setOrder (o : Order) : Stmt :=
  ⟨[.order o.id], fun _ => orderHolds o,
    fun db => { db with orders := db.orders.map fun p => if p.id = o.id then o else p }⟩

end Stmt

/-- What the steps before the debit have found. -/
structure Prepared where
  key : String
  service : Service
  mapping : ServiceProviderMapping
  provider : Provider
  providerSvc : ProviderService
  price : PriceResult
  priority : Int
  deriving DecidableEq, Repr

/-- `verify_price_unchanged` -/
def verifyPriceUnchanged (original recalculated : Decimal) : Bool :=
  |(original.sub recalculated).val| ≤ 1 / 100

/-- `raise ... if value is None` -/
def orRaise {α : Type} (e : Err) : Option α → M α
  | some a => pure a
  | none => raise e

/-- `result.scalar_one_or_none()` -/
def scalarOneOrNone {α : Type} : List α → M (Option α)
  | [] => pure none
  | [a] => pure (some a)
  | _ => raise (.python "MultipleResultsFound" "Multiple rows were found when one or none was required")

def notAvailable (detail : String) : Err := .orderError detail "Service is not currently available."

/-- The discount of the request's coupon; one that cannot be used counts for nothing. -/
def couponFlat (db : Db) (a : OrderArgs) : Decimal :=
  match a.couponCode with
  | none => ⟨0, 0⟩
  | some code =>
    if code = "" then ⟨0, 0⟩
    else match env.previewCoupon db code a.userId a.serviceId with
      | .ok d => d
      | .error _ => ⟨0, 0⟩

/-- The risk check: it can refuse an order, but not fail it. -/
def checkRisk (a : OrderArgs) (price : Decimal) : M Unit :=
  match env.evaluateOrderRisk a.userId price a.serviceId with
  | .ok risk => .require (!risk.isBlocked) (.orderError ("Order blocked by risk engine: " ++ risk.reasons)
      "Your order could not be processed. Please contact support if you believe this is an error.")
  | .error e => if e.isOrderError then raise e else pure ()

/-- `idempotency_key or str(uuid.uuid4())` -/
def idemKey (a : OrderArgs) : String :=
  match a.idempotencyKey with
  | some k => if k = "" then env.uuid else k
  | none => env.uuid

/-- Step 3: the discount and the priority of the user's plan. -/
def premiumOf (a : OrderArgs) (service : Service) : M (Decimal × Int) :=
  match env.applyPremiumToOrder with
  | some apply => .query (fun db => apply db a.userId service.requiresPremium a.quantity) >>= lift
  | none => pure (⟨0, 0⟩, 3)

/-- The steps of `create_order` up to the debit: the order the key already
has, or all that is needed to place a new one. -/
def prepare (a : OrderArgs) : M (Order ⊕ Prepared) := do
  lift (env.assertOrdersAllowed a.source)
  let service ← orRaise (.serviceNotFound a.serviceId) (← .query (·.findService a.serviceId))
  .require (service.isActive && service.orderingEnabled) (.serviceUnavailable a.serviceId)
  let premium ← premiumOf env a service
  let mapping ← orRaise (notAvailable s!"No provider mapping for service {a.serviceId}")
    (← scalarOneOrNone (← .query (·.primaryMappings a.serviceId)))
  let provider ← orRaise (.orderError s!"Provider {mapping.providerId} not active"
    "Service provider is temporarily unavailable.")
    ((← .query (·.findProvider mapping.providerId)).filter (·.isActive))
  let providerSvc ← orRaise (notAvailable "Provider service mapping not found")
    (← .query (·.findProviderService mapping))
  .require (providerSvc.minQty ≤ a.quantity && a.quantity ≤ providerSvc.maxQty)
    (.outOfRange a.quantity providerSvc.minQty providerSvc.maxQty)
  let flat ← .query (couponFlat env · a)
  let price ← .query (fun db => env.calculatePrice db service a.quantity providerSvc provider.currency premium.1
    (if 0 < flat.coeff then some flat else none)) >>= lift
  .require (a.confirmedPrice.all (verifyPriceUnchanged · price.customerPrice))
    (.priceChanged (a.confirmedPrice.getD ⟨0, 0⟩) price.customerPrice)
  match ← .query (·.findOrder (idemKey env a)) with
  | some existing => pure (.inl existing)
  | none =>
    checkRisk env a price.customerPrice
    pure (.inr ⟨idemKey env a, service, mapping, provider, providerSvc, price, premium.2⟩)

/-- Step 10: the debit of an order. -/
def debitArgs (a : OrderArgs) (p : Prepared) : TxArgs where
  userId := a.userId
  amount := p.price.customerPrice
  txType := .orderDebit
  idempotencyKey := "order_debit:" ++ p.key
  reason := some ("Order for service " ++ p.service.publicId ++ " x" ++ toString a.quantity)

/-- Step 11: the row of a new order. -/
def newOrder (a : OrderArgs) (p : Prepared) : Order where
  id := env.orderId
  publicRef := env.publicRef
  userId := a.userId
  tenantId := a.tenantId
  serviceId := a.serviceId
  providerId := p.provider.id
  providerOrderId := none
  providerSvcId := p.mapping.providerSvcId
  status := .pending
  quantity := a.quantity
  link := a.link
  priceCharged := stored p.price.customerPrice
  providerCost := p.price.providerCostInr.numeric 6
  currency := "INR"
  idempotencyKey := p.key
  source := a.source
  priority := p.priority
  refillEligible := p.providerSvc.refill
  cancelEligible := p.providerSvc.cancel

/-- Step 14: the credit that takes the debit back. -/
def refundArgs (a : OrderArgs) (p : Prepared) : TxArgs where
  userId := a.userId
  amount := p.price.customerPrice
  txType := .refund
  idempotencyKey := "order_refund:" ++ p.key
  referenceId := some env.orderId
  reason := some ("Auto-refund: provider error for order " ++ env.publicRef)

/-- The keywords the engine calls the registry with. -/
def submission (a : OrderArgs) (p : Prepared) : List (String × Arg) :=
  [("provider_id", .int p.provider.id), ("provider_svc_id", .text p.mapping.providerSvcId),
    ("quantity", .int a.quantity), ("link", .text (a.link.getD ""))]

/-- Steps 12 to 14: to the provider, and the money back where that raises. -/
def submit (a : OrderArgs) (p : Prepared) (order : Order) : M Order := do
  let placed ← .attempt do
    let result ← callRegistry env (submission a p)
    .write (Stmt.setOrder { order with providerOrderId := some result.providerOrderId, status := .processing })
    flush
    pure { order with providerOrderId := some result.providerOrderId, status := .processing }
  match placed with
  | .ok order => pure order
  | .error exc =>
    .write (Stmt.setOrder { order with status := .failed })
    flush
    let _ ← credit (refundArgs env a p)
    raise (.orderError ("Provider submission failed: " ++ exc.text)
      "Order could not be submitted. Your balance has been refunded.")

/-- `create_order` -/
def createOrder (a : OrderArgs) : M Order := do
  match ← prepare env a with
  | .inl existing => pure existing
  | .inr p =>
    let _ ← debit (debitArgs a p)
    .write (Stmt.insertOrder (newOrder env a p))
    flush
    submit env a p (newOrder env a p)

/-! ## No order reaches a provider -/

section

variable {env : Surroundings} {a : OrderArgs} {p : Prepared} {db : Db}

/-- What Python makes of the engine's call. -/
def callRefused : Err :=
  .python "TypeError" ("ProviderRegistry.create_order" ++ "() got an unexpected keyword argument '" ++
    "provider_svc_id" ++ "'")

/-- The registry's body never starts. -/
theorem callRegistry_submission : callRegistry env (submission a p) = raise callRefused := by
  have hfind : (submission a p).find? (fun q => ! ["provider_id", "req"].contains q.1) =
      some ("provider_svc_id", .text p.mapping.providerSvcId) := by simp [submission]
  simp only [callRegistry, Py.bindKeywords, hfind]
  rfl

theorem Quiet.lift {α : Type} (x : Except Err α) : (lift x).Quiet := by
  cases x
  · exact .throw _
  · exact .pure _

theorem Quiet.orRaise {α : Type} (e : Err) (o : Option α) : (orRaise e o).Quiet := by
  cases o
  · exact .throw _
  · exact .pure _

theorem quiet_scalarOneOrNone {α : Type} (l : List α) : (scalarOneOrNone l).Quiet := by
  unfold scalarOneOrNone
  split
  · exact .pure _
  · exact .pure _
  · exact .throw _

theorem quiet_executeTransaction (x : TxArgs) (isCredit : Bool) : (executeTransaction x isCredit).Quiet := by
  refine .bind (.query _) fun existing => ?_
  cases existing with
  | some t => exact .pure _
  | none =>
    refine .bind (.lockRow _ _) fun wallet => ?_
    cases wallet with
    | none => exact .throw _
    | some w =>
      refine .bind (.require _ _) fun _ => .bind (.require _ _) fun _ => ?_
      exact .bind (.write _) fun _ => .bind (.write _) fun _ => .bind (.flushed _) fun _ => .pure _

theorem quiet_checkRisk (price : Decimal) : (checkRisk env a price).Quiet := by
  unfold checkRisk
  split
  · exact .require _ _
  · split
    · exact .throw _
    · exact .pure _

theorem quiet_premiumOf (service : Service) : (premiumOf env a service).Quiet := by
  unfold premiumOf
  split
  · exact .bind (.query _) fun _ => Quiet.lift _
  · exact .pure _

theorem quiet_prepare : (prepare env a).Quiet := by
  unfold prepare
  refine .bind (Quiet.lift _) fun _ => .bind (.query _) fun _ => .bind (Quiet.orRaise _ _) fun service => ?_
  refine .bind (.require _ _) fun _ => .bind (quiet_premiumOf service) fun premium => ?_
  refine .bind (.query _) fun _ => .bind (quiet_scalarOneOrNone _) fun _ => .bind (Quiet.orRaise _ _) fun mapping => ?_
  refine .bind (.query _) fun _ => .bind (Quiet.orRaise _ _) fun provider => ?_
  refine .bind (.query _) fun _ => .bind (Quiet.orRaise _ _) fun providerSvc => .bind (.require _ _) fun _ => ?_
  refine .bind (.query _) fun flat => .bind (.bind (.query _) fun _ => Quiet.lift _) fun price => ?_
  refine .bind (.require _ _) fun _ => .bind (.query _) fun existing => ?_
  split
  · exact .pure _
  · exact .bind (quiet_checkRisk _) fun _ => .pure _

/-- What is left of the submission: the order fails, and the debit is credited back. -/
theorem submit_eq (order : Order) : submit env a p order = (do
    .write (Stmt.setOrder { order with status := .failed })
    flush
    let _ ← credit (refundArgs env a p)
    raise (.orderError ("Provider submission failed: " ++ callRefused.text)
      "Order could not be submitted. Your balance has been refunded.")) := by
  simp only [submit, callRegistry_submission]
  rfl

theorem quiet_submit (order : Order) : (submit env a p order).Quiet := by
  rw [submit_eq]
  exact .bind (.write _) fun _ => .bind (.flushed _) fun _ => .bind (quiet_executeTransaction _ _) fun _ => .throw _

theorem quiet_createOrder : (createOrder env a).Quiet := by
  refine .bind quiet_prepare fun r => ?_
  cases r with
  | inl existing => exact .pure _
  | inr p =>
    refine .bind (quiet_executeTransaction _ _) fun _ => ?_
    exact .bind (.write _) fun _ => .bind (.flushed _) fun _ => quiet_submit _

/-- No submission returns an order. -/
theorem submit_raises (order : Order) (s : Session) :
    (submit env a p order).wp (fun _ _ => False) (fun _ _ => True) s := by
  rw [submit_eq]
  simp only [Txn.Prog.wp_bind, Txn.Prog.wp_write, flush, Txn.Prog.wp_flushed]
  split
  · refine Txn.Prog.wp_mono (Q := fun _ _ => True) (E := fun _ _ => True) ?_ (fun _ _ _ => trivial) fun _ _ h => h
    exact Txn.Prog.wp_of_run (fun _ _ _ => trivial) fun _ _ _ => trivial
  · trivial

end

/-! ## The claim on an order -/

section

variable (env : Surroundings) (a : OrderArgs) (db : Db) (p : Prepared)

/-- The call passes validation and pricing, and its debit succeeds. -/
def Debited : Prop :=
  ∃ s₀ tx s₁, (prepare env a).run { db := db } = (.ok (.inr p), s₀) ∧ (debit (debitArgs a p)).run s₀ = (.ok tx, s₁)

def isSubmission : Ext → Bool
  | .createOrder .. => true
  | _ => false

def Db.balance (db : Db) (userId : Int) : Option Int := (db.wallets userId).map (·.balance)

/-- A paid order reaches its provider: the adapter is asked exactly once, for
what was ordered; where it accepts, the order is processing and paid for, and
where it fails, the order has failed and is not. -/
structure ReachesProvider : Prop where
  invoked : ∃ req : OrderRequest, req.providerSvcId = p.mapping.providerSvcId ∧ req.quantity = a.quantity ∧
    req.link.getD "" = a.link.getD "" ∧
    ((createOrder env a).run { db := db }).2.sent.filter isSubmission = [.createOrder p.provider.id req] ∧
    (∀ res, env.adapter p.provider.id req = .ok res → ∃ order, ((createOrder env a).run { db := db }).1 = .ok order ∧
      order.status = .processing ∧ order.providerOrderId = some res.providerOrderId ∧
      ((createOrder env a).run { db := db }).2.db.balance a.userId =
        (db.balance a.userId).map (· - order.priceCharged)) ∧
    ∀ e, env.adapter p.provider.id req = .error e →
      (∃ order ∈ ((createOrder env a).run { db := db }).2.db.orders, order.idempotencyKey = p.key ∧
        order.status = .failed) ∧
      ((createOrder env a).run { db := db }).2.db.balance a.userId = db.balance a.userId

variable {env a db p}

/-- **No paid order reaches a provider.** Whatever the adapter would do, a
call that has passed every check and debited the wallet asks no adapter for
anything, and raises. -/
theorem paid_order_not_submitted (h : Debited env a db p) : ¬ ReachesProvider env a db p ∧
    ((createOrder env a).run { db := db }).2.sent = [] ∧
    ∃ e, ((createOrder env a).run { db := db }).1 = .error e := by
  have hsent : ((createOrder env a).run { db := db }).2.sent = [] := quiet_createOrder.sent { db := db }
  refine ⟨fun hr => ?_, hsent, ?_⟩
  · obtain ⟨req, _, _, _, hinv, _⟩ := hr.invoked
    rw [hsent] at hinv
    cases hinv
  · obtain ⟨s₀, tx, s₁, hprep, hdebit⟩ := h
    have hwp : (createOrder env a).wp (fun _ _ => False) (fun _ _ => True) { db := db } := by
      simp only [createOrder, Txn.Prog.wp_bind]
      unfold Txn.Prog.wp
      simp only [hprep]
      show ((debit (debitArgs a p)) >>= _).wp _ _ s₀
      rw [Txn.Prog.wp_bind]
      unfold Txn.Prog.wp
      simp only [hdebit]
      show (Txn.Prog.write _ >>= _).wp _ _ s₁
      simp only [Txn.Prog.wp_bind, Txn.Prog.wp_write, flush, Txn.Prog.wp_flushed]
      split
      · exact submit_raises _ _
      · trivial
    cases hrun : (createOrder env a).run { db := db } with
    | mk outcome s =>
      cases outcome with
      | ok order => exact (Txn.Prog.wp_ok hwp hrun).elim
      | error e => exact ⟨e, rfl⟩

end

/-! ## A shop with one service -/

/-- Everything is allowed, a thousand costs 100, and every adapter accepts. -/
def openShop : Surroundings where
  assertOrdersAllowed _ := .ok ()
  applyPremiumToOrder := none
  previewCoupon _ _ _ _ := .ok ⟨0, 0⟩
  calculatePrice _ _ quantity _ _ _ _ := .ok ⟨⟨quantity * 10, -2⟩, ⟨quantity * 8, -2⟩⟩
  evaluateOrderRisk _ _ _ := .ok ⟨false, ""⟩
  entry _ := some false
  adapter _ _ := .ok ⟨"9001"⟩
  uuid := "k1"
  orderId := "o1"
  publicRef := "ORD-20260101-00000001"

def oneService : Db where
  wallets u := if u = 7 then some ⟨5000000⟩ else none
  services := [⟨1, "S1", true, true, false⟩]
  mappings := [⟨1, 2, "55", true⟩]
  providers := [⟨2, "USD", true⟩]
  providerServices := [⟨2, "55", 1000000, 10, 100000, false, false⟩]

def firstOrder : OrderArgs := { userId := 7, serviceId := 1, quantity := 1000, link := some "https://t.me/x" }

/-- What the first order prepares. -/
def firstPrepared : Prepared :=
  ⟨"k1", ⟨1, "S1", true, true, false⟩, ⟨1, 2, "55", true⟩, ⟨2, "USD", true⟩,
    ⟨2, "55", 1000000, 10, 100000, false, false⟩, ⟨⟨10000, -2⟩, ⟨8000, -2⟩⟩, 3⟩

theorem paid_order_not_submitted_of_open_shop :
    ∃ p, Debited openShop firstOrder oneService p ∧ ¬ ReachesProvider openShop firstOrder oneService p := by
  have hprep : ((prepare openShop firstOrder).run { db := oneService }).1.toOption.bind Sum.getRight? =
      some firstPrepared := by decide +kernel
  have hdebit : ((debit (debitArgs firstOrder firstPrepared)).run
      ((prepare openShop firstOrder).run { db := oneService }).2).1.isOk = true := by decide +kernel
  have hdebited : Debited openShop firstOrder oneService firstPrepared := by
    revert hprep hdebit
    cases hrun : (prepare openShop firstOrder).run { db := oneService } with
    | mk outcome s₀ =>
      intro hprep hdebit
      obtain ⟨r, rfl, hr⟩ : ∃ r, outcome = .ok r ∧ r.getRight? = some firstPrepared := by
        cases outcome with
        | error e => cases hprep
        | ok r => exact ⟨r, rfl, hprep⟩
      obtain rfl := Sum.getRight?_eq_some_iff.1 hr
      cases hpaid : (debit (debitArgs firstOrder firstPrepared)).run s₀ with
      | mk outcome s₁ =>
        rw [hpaid] at hdebit
        cases outcome with
        | error e => cases hdebit
        | ok tx => exact ⟨s₀, tx, s₁, hrun, hpaid⟩
  exact ⟨firstPrepared, hdebited, (paid_order_not_submitted hdebited).1⟩

/-- The adapter would accept, and is never asked: the call raises, the order
has failed, and the money is back. -/
theorem open_shop_refunds :
    let r := (createOrder openShop firstOrder).run { db := oneService }
    r.2.sent = [] ∧ r.1.isOk = false ∧ r.2.db.orders.map (·.status) = [.failed] ∧
      r.2.db.transactions.map (fun t => (t.txType, t.amount)) = [(.orderDebit, 1000000), (.refund, 1000000)] ∧
      r.2.db.balance 7 = some 5000000 := by
  decide +kernel

end Falaron.Core
