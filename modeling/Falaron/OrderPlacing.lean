/-
The writers of an order of the second system, and a rule for each: placing
it, `update_order_status`, `refund_order`.

The engine's own call of the registry never gets an answer
(`callRegistry_submission`). Here the submission's answer is whatever it may
be; `createOrder_eq` says that `create_order` is the case in which it is the
refusal. Whoever calls the engine commits after a result, and after an error
either rolls back or commits what there is, unless the database has refused
a flush: such a session can only be rolled back (`keptAfter`).
-/
import Falaron.Engine
import Falaron.Txn.Blind

namespace Falaron.Core

open Py (Decimal)
open Txn.Prog (wp wp_mono wp_bind wp_query wp_require wp_write wp_flushed)

/-! ## A submission that is answered -/

section

variable (env : Surroundings) (answer : Except Err ProviderOrderResult) (a : OrderArgs)

/-- Steps 12 to 14, the provider's answer given. -/
def submitAnswered (p : Prepared) (order : Order) : M Order := do
  let placed ← .attempt do
    let result ← lift answer
    .write (Stmt.setOrder { order with providerOrderId := some result.providerOrderId, status := .processing })
    flush
    pure { order with providerOrderId := some result.providerOrderId, status := .processing }
  match placed with
  | .ok order => pure order
  | .error exc =>
    .write (Stmt.setOrder { order with status := .failed })
    flush
    let _ ← credit (refundArgs env a p)
    raise (.orderError ("Provider submission failed: " ++ exc.text)
      "Order could not be submitted. Your balance has been refunded.")

/-- `create_order`, the provider's answer given. -/
def placeOrder : M Order := do
  match ← prepare env a with
  | .inl existing => pure existing
  | .inr p =>
    let _ ← debit (debitArgs a p)
    .write (Stmt.insertOrder (newOrder env a p))
    flush
    submitAnswered env answer a p (newOrder env a p)

/-- The engine's own call is answered by Python's refusal. -/
theorem createOrder_eq : createOrder env a = placeOrder env (.error callRefused) a := by
  simp only [createOrder, placeOrder, submitAnswered, submit, callRegistry_submission]
  rfl

end

/-! ## What the preparation finds -/

/-- The checks of `create_order` before it looks its key up. -/
def checkedRequest (env : Surroundings) (a : OrderArgs) : M Prepared := do
  lift (env.assertOrdersAllowed a.source)
  let service ← orRaise (.serviceNotFound a.serviceId) (← .query (·.findService a.serviceId))
  .require (service.isActive && service.orderingEnabled) (.serviceUnavailable a.serviceId)
  let premium ← premiumOf env a service
  let mapping ← orRaise (notAvailable s!"No provider mapping for service {a.serviceId}")
    (← scalarOneOrNone (← .query (·.primaryMappings a.serviceId)))
  let provider ← orRaise (.orderError s!"Provider {mapping.providerId} not active"
    "Service provider is temporarily unavailable.")
    ((← .query (·.findProvider mapping.providerId)).filter (·.isActive))
  let providerSvc ← orRaise (notAvailable "Provider service mapping not found")
    (← .query (·.findProviderService mapping))
  .require (providerSvc.minQty ≤ a.quantity && a.quantity ≤ providerSvc.maxQty)
    (.outOfRange a.quantity providerSvc.minQty providerSvc.maxQty)
  let flat ← .query (couponFlat env · a)
  let price ← .query (fun db => env.calculatePrice db service a.quantity providerSvc provider.currency premium.1
    (if 0 < flat.coeff then some flat else none)) >>= lift
  .require (a.confirmedPrice.all (verifyPriceUnchanged · price.customerPrice))
    (.priceChanged (a.confirmedPrice.getD ⟨0, 0⟩) price.customerPrice)
  pure ⟨idemKey env a, service, mapping, provider, providerSvc, price, premium.2⟩

/-- The lookup of the key, and the check of the risk where it has no order. -/
def findOrPlace (env : Surroundings) (a : OrderArgs) (p : Prepared) : M (Order ⊕ Prepared) := do
  match ← .query (·.findOrder (idemKey env a)) with
  | some existing => pure (.inl existing)
  | none =>
    checkRisk env a p.price.customerPrice
    pure (.inr p)

theorem prepare_eq (env : Surroundings) (a : OrderArgs) : prepare env a = checkedRequest env a >>= findOrPlace env a := by
  simp only [prepare, checkedRequest, Txn.Prog.bind_bind]
  rfl

/-- The discount of the user's plan. -/
def PremiumIs (env : Surroundings) (a : OrderArgs) (db : Db) (service : Service) (pct : Decimal) : Prop :=
  match env.applyPremiumToOrder with
  | some apply => ∃ priority, apply db a.userId service.requiresPremium a.quantity = .ok (pct, priority)
  | none => pct = ⟨0, 0⟩

/-- What the checks have found: the service, its provider, and the price for the discounts. -/
structure Checked (env : Surroundings) (a : OrderArgs) (db : Db) (p : Prepared) : Prop where
  key : p.key = idemKey env a
  service : db.findService a.serviceId = some p.service
  mapping : db.primaryMappings a.serviceId = [p.mapping]
  provider : (db.findProvider p.mapping.providerId).filter (·.isActive) = some p.provider
  providerSvc : db.findProviderService p.mapping = some p.providerSvc
  price : ∃ pct, PremiumIs env a db p.service pct ∧
    env.calculatePrice db p.service a.quantity p.providerSvc p.provider.currency pct
      (if 0 < (couponFlat env db a).coeff then some (couponFlat env db a) else none) = .ok p.price

/-- A new order has been checked, and its key is free. -/
structure Prepares (env : Surroundings) (a : OrderArgs) (db : Db) (p : Prepared) : Prop extends Checked env a db p where
  fresh : db.findOrder p.key = none

section

variable {env : Surroundings} {a : OrderArgs} {s : Session} {E : Err → Session → Prop}

theorem wp_orRaise {α : Type} {e : Err} {o : Option α} {Q : α → Session → Prop} (hE : E e s)
    (hQ : ∀ r, o = some r → Q r s) : (orRaise e o).wp Q E s := by
  cases o with
  | none => exact hE
  | some r => exact hQ r rfl

theorem wp_scalarOneOrNone {α : Type} {l : List α} {Q : Option α → Session → Prop} (hE : ∀ e, E e s)
    (hnone : Q none s) (hsome : ∀ r, l = [r] → Q (some r) s) : (scalarOneOrNone l).wp Q E s := by
  cases l with
  | nil => exact hnone
  | cons r rest =>
    cases rest with
    | nil => exact hsome r rfl
    | cons _ _ => exact hE _

theorem wp_premiumOf {service : Service} {Q : Decimal × Int → Session → Prop} (hE : ∀ e, E e s)
    (hQ : ∀ pct priority, PremiumIs env a s.db service pct → Q (pct, priority) s) :
    (premiumOf env a service).wp Q E s := by
  unfold premiumOf
  cases happly : env.applyPremiumToOrder with
  | none =>
    refine hQ _ _ ?_
    rw [PremiumIs, happly]
  | some apply =>
    rw [wp_bind, wp_query]
    refine wp_lift hE fun r hr => hQ r.1 r.2 ?_
    rw [PremiumIs, happly]
    exact ⟨r.2, hr⟩

theorem wp_checkRisk {price : Decimal} {Q : Unit → Session → Prop} (hE : ∀ e, E e s) (hQ : Q () s) :
    (checkRisk env a price).wp Q E s := by
  unfold checkRisk
  split
  · rw [wp_require]
    split
    · exact hQ
    · exact hE _
  · split
    · exact hE _
    · exact hQ

/-- The checks write nothing: they raise, or find all a new order needs. -/
theorem wp_checkedRequest {Q : Prepared → Session → Prop} (hE : ∀ e, E e s)
    (hQ : ∀ p, Checked env a s.db p → Q p s) : (checkedRequest env a).wp Q E s := by
  unfold checkedRequest
  simp only [wp_bind, wp_query]
  refine wp_lift hE fun _ _ => wp_orRaise (hE _) fun service hservice => ?_
  rw [wp_require]
  split
  case isFalse => exact hE _
  refine wp_premiumOf hE fun pct priority hpct => ?_
  refine wp_scalarOneOrNone hE (hE _) fun mapping hmapping => ?_
  simp only [orRaise, Txn.Prog.wp_pure']
  refine wp_orRaise (hE _) fun provider hprovider => wp_orRaise (hE _) fun providerSvc hsvc => ?_
  rw [wp_require]
  split
  case isFalse => exact hE _
  refine wp_lift hE fun price hprice => ?_
  rw [wp_require]
  split
  case isFalse => exact hE _
  exact hQ _ ⟨rfl, hservice, hmapping, hprovider, hsvc, pct, hpct, hprice⟩

/-- The preparation writes nothing either: it raises, finds the key's order, or all a new order needs. -/
theorem wp_prepare {Q : Order ⊕ Prepared → Session → Prop} (hE : ∀ e, E e s)
    (hexisting : ∀ o, s.db.findOrder (idemKey env a) = some o → Q (.inl o) s)
    (hnew : ∀ p, Prepares env a s.db p → Q (.inr p) s) : (prepare env a).wp Q E s := by
  rw [prepare_eq, wp_bind]
  refine wp_checkedRequest hE fun p hp => ?_
  rw [findOrPlace, wp_bind, wp_query]
  cases hfind : s.db.findOrder (idemKey env a) with
  | some o => exact hexisting o hfind
  | none =>
    rw [wp_bind]
    exact wp_checkRisk hE (hnew p ⟨hp, hp.key.symm ▸ hfind⟩)

end

/-! ## What a call leaves -/

/-- A call of the ledger with these arguments takes `db` to `db'`. -/
def Entered (db : Db) (c : TxArgs) (isCredit : Bool) (db' : Db) : Prop :=
  (∃ t, db.findTransaction c.idempotencyKey = some t ∧ db' = db) ∨ ∃ t, Posts db c isCredit t ∧ db' = db.posted t

/-- The new order's row is in, and paid for. -/
structure Opens (env : Surroundings) (a : OrderArgs) (db : Db) (p : Prepared) (db' : Db) : Prop where
  prepares : Prepares env a db p
  row : ∃ db₁, Entered db (debitArgs a p) false db₁ ∧ (Stmt.insertOrder (newOrder env a p)).admits db₁ = true ∧
    db' = (Stmt.insertOrder (newOrder env a p)).apply db₁

/-- The order once the provider has it. -/
def accepted (o : Order) (r : ProviderOrderResult) : Order :=
  { o with providerOrderId := some r.providerOrderId, status := .processing }

/-- The order once the provider has refused it. -/
def rejected (o : Order) : Order := { o with status := .failed }

section

variable {env : Surroundings} {answer : Except Err ProviderOrderResult} {a : OrderArgs} {s : Session}
  {E : Err → Session → Prop}

theorem wp_ledger {c : TxArgs} {isCredit : Bool} {Q : WalletTransaction → Session → Prop} (hst : s.staged = [])
    (hE : ∀ e, E e s) (hdb : ∀ s', E .database s')
    (hQ : ∀ t db', Entered s.db c isCredit db' → Q t { s with db := db' }) :
    (executeTransaction c isCredit).wp Q E s :=
  wp_executeTransaction_raises hst hE (fun _ => hdb _) (fun t ht => hQ t s.db (.inl ⟨t, ht, rfl⟩))
    fun t ht => hQ t _ (.inr ⟨t, ht, rfl⟩)

/-- One statement, written at once. -/
theorem wp_written {α : Type} {w : Stmt} {k : M α} {Q : α → Session → Prop} (hst : s.staged = [])
    (hdb : ∀ s', E .database s') (hk : w.admits s.db = true → k.wp Q E { s with db := w.apply s.db }) :
    wp Q E (do
      .write w
      flush
      k) s := by
  simp only [wp_bind, wp_write, flush, wp_flushed, hst, List.nil_append, Txn.flushAll]
  by_cases hw : w.admits s.db = true
  · have hk' := hk hw
    rw [hst] at hk'
    simpa only [if_pos hw] using hk'
  · simpa only [if_neg hw] using hdb _

/-- The submission: the order is with the provider, or it has failed, and its price is credited back. -/
theorem wp_submitAnswered {p : Prepared} {order : Order} {Q : Order → Session → Prop} (hst : s.staged = [])
    (hdb : ∀ s', E .database s')
    (haccepted : ∀ r, answer = .ok r → Q (accepted order r)
      { s with db := (Stmt.setOrder (accepted order r)).apply s.db })
    (hfailed : ∀ e err, answer = .error e → E err { s with db := (Stmt.setOrder (rejected order)).apply s.db })
    (hrefunded : ∀ e err db', answer = .error e →
      Entered ((Stmt.setOrder (rejected order)).apply s.db) (refundArgs env a p) true db' →
      E err { s with db := db' }) :
    (submitAnswered env answer a p order).wp Q E s := by
  cases answer with
  | ok r =>
    show wp _ _ (do
      .write (Stmt.setOrder (accepted order r))
      flush
      pure (accepted order r)) s
    exact wp_written hst hdb fun _ => haccepted r rfl
  | error e =>
    show wp _ _ (do
      .write (Stmt.setOrder (rejected order))
      flush
      let _ ← credit (refundArgs env a p)
      raise (.orderError ("Provider submission failed: " ++ e.text)
        "Order could not be submitted. Your balance has been refunded.")) s
    refine wp_written hst hdb fun _ => ?_
    rw [wp_bind]
    exact wp_ledger hst (fun err => hfailed e err rfl) hdb fun t db' ht => hrefunded e _ db' rfl ht

/-- What a call leaves: it raises before it has written anything, finds the key's order, or opens a new one. -/
theorem wp_placeOrder {Q : Order → Session → Prop} (hst : s.staged = []) (hE : ∀ e, E e s)
    (hdb : ∀ s', E .database s')
    (hexisting : ∀ o, s.db.findOrder (idemKey env a) = some o → Q o s)
    (haccepted : ∀ p db' r, Opens env a s.db p db' → answer = .ok r →
      Q (accepted (newOrder env a p) r)
        { s with db := (Stmt.setOrder (accepted (newOrder env a p) r)).apply db' })
    (hfailed : ∀ p db' e err, Opens env a s.db p db' → answer = .error e →
      E err { s with db := (Stmt.setOrder (rejected (newOrder env a p))).apply db' })
    (hrefunded : ∀ p db' e err db'', Opens env a s.db p db' → answer = .error e →
      Entered ((Stmt.setOrder (rejected (newOrder env a p))).apply db') (refundArgs env a p) true db'' →
      E err { s with db := db'' }) :
    (placeOrder env answer a).wp Q E s := by
  unfold placeOrder
  rw [wp_bind]
  refine wp_prepare hE hexisting fun p hp => ?_
  show wp _ _ (debit (debitArgs a p) >>= _) s
  rw [wp_bind]
  refine wp_ledger hst hE hdb fun t db₁ ht => wp_written hst hdb fun hadm => ?_
  have hopens : Opens env a s.db p ((Stmt.insertOrder (newOrder env a p)).apply db₁) := ⟨hp, db₁, ht, hadm, rfl⟩
  exact wp_submitAnswered hst hdb (fun r hr => haccepted p _ r hopens hr)
    (fun e err he => hfailed p _ e err hopens he) fun e err db' he h => hrefunded p _ e err db' hopens he h

end

/-! ## The two other writers of an order -/

/-- The errors after which a caller commits, if it does after an error at all. -/
def keptAfter (keep : Bool) (e : Err) : Bool := keep && e ≠ .database

namespace Err

def orderNotFound (orderId : String) : Err :=
  .smm (.other "OrderNotFoundError") ("Order " ++ orderId ++ " not found") "Order not found."

end Err

/-- `db.get(Order, order_id)` -/
def Db.getOrder (db : Db) (orderId : String) : Option Order := db.orders.find? (·.id == orderId)

/-- The statuses that end an order's progress. -/
def endsOrder (status : OrderStatus) : Bool :=
  status ∈ [.completed, .partial_, .failed, .cancelled, .refunded]

/-- What `update_order_status` makes of the order's row. -/
def Order.updated (o : Order) (newStatus : OrderStatus) (remains startCount : Option Int) : Order :=
  { o with
    status := newStatus
    remains := remains.or o.remains
    startCount := startCount.or o.startCount
    cancelEligible := !endsOrder newStatus && o.cancelEligible }

/-- `update_order_status` -/
def updateOrderStatus (orderId newStatus : String) (remains startCount : Option Int) : M Order := do
  match ← .query (·.getOrder orderId) with
  | none => raise (.orderNotFound orderId)
  | some order =>
    .write (Stmt.setOrder (order.updated (.ofText newStatus) remains startCount))
    flush
    pure (order.updated (.ofText newStatus) remains startCount)

/-- The credit of `refund_order`. -/
def manualRefundArgs (order : Order) (reason : String) : TxArgs where
  userId := order.userId
  amount := money order.priceCharged
  txType := .refund
  idempotencyKey := "manual_refund:" ++ order.id
  referenceId := some order.id
  reason := some reason

/-- `refund_order` -/
def refundOrder (order : Order) (reason : String) : M Unit := do
  if order.priceCharged ≤ 0 then pure ()
  else
    let _ ← credit (manualRefundArgs order reason)
    .write (Stmt.setOrder { order with status := .refunded })
    flush

/-- `refund_order` on the order with this id; the admin's route gives the reason `Admin refund`. -/
def refundOrderById (orderId reason : String) : M Unit := do
  match ← .query (·.getOrder orderId) with
  | none => raise (.python "HTTPException" "404: Order not found")
  | some order => refundOrder order reason

section

variable {db : Db} {o x : Order} {id : String}

theorem Db.getOrder_some (h : db.getOrder id = some o) : o ∈ db.orders ∧ o.id = id :=
  ⟨List.mem_of_find?_eq_some h, by simpa using List.find?_some h⟩

theorem mem_setOrder : o ∈ ((Stmt.setOrder x).apply db).orders ↔ ∃ p ∈ db.orders, (if p.id = x.id then x else p) = o :=
  List.mem_map

/-- Under its id there is the order as it was set, and nothing else. -/
theorem eq_of_mem_setOrder (ho : o ∈ ((Stmt.setOrder x).apply db).orders) (hid : o.id = x.id) : o = x := by
  obtain ⟨p, -, rfl⟩ := mem_setOrder.mp ho
  split
  · rfl
  · next hne =>
    rw [if_neg hne] at hid
    exact absurd hid hne

theorem setOrder_ids : ((Stmt.setOrder x).apply db).orders.map (·.id) = db.orders.map (·.id) := by
  show (db.orders.map _).map _ = _
  rw [List.map_map]
  refine List.map_congr_left fun p _ => ?_
  simp only [Function.comp]
  split
  · next he => exact he.symm
  · rfl

end

section

variable {s : Session} {E : Err → Session → Prop}

theorem wp_updateOrderStatus {id status : String} {remains startCount : Option Int} {Q : Order → Session → Prop}
    (hst : s.staged = []) (hE : ∀ e, E e s) (hdb : ∀ s', E .database s')
    (hQ : ∀ o, s.db.getOrder id = some o → Q (o.updated (.ofText status) remains startCount)
      { s with db := (Stmt.setOrder (o.updated (.ofText status) remains startCount)).apply s.db }) :
    (updateOrderStatus id status remains startCount).wp Q E s := by
  unfold updateOrderStatus
  rw [wp_bind, wp_query]
  cases hget : s.db.getOrder id with
  | none => exact hE _
  | some o => exact wp_written hst hdb fun _ => hQ o hget

/-- A refund of nothing does nothing; any other is entered in the ledger and shown by the order. -/
theorem wp_refundOrder {order : Order} {reason : String} {Q : Unit → Session → Prop} (hst : s.staged = [])
    (hE : ∀ e, E e s) (hdb : ∀ s', E .database s') (hfree : order.priceCharged ≤ 0 → Q () s)
    (hQ : ∀ db', 0 < order.priceCharged → Entered s.db (manualRefundArgs order reason) true db' →
      Q () { s with db := (Stmt.setOrder { order with status := .refunded }).apply db' }) :
    (refundOrder order reason).wp Q E s := by
  unfold refundOrder
  split
  · next hle => exact hfree hle
  · next hpos =>
    show wp _ _ (credit (manualRefundArgs order reason) >>= _) s
    rw [wp_bind]
    refine wp_ledger hst hE hdb fun t db' ht => ?_
    exact wp_written (k := pure ()) hst hdb fun _ => hQ db' (by omega) ht

end

end Falaron.Core
