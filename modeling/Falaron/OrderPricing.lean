/-
The prices of the second system, and what a coupon does to one.

`calculate_price` takes off a coupon's flat discount down to the floor.
`create_order` asks the preview for that discount and gives it no total, so
the preview is of an order of zero: no coupon is ever worth anything. Nothing
redeems one either. An order costs the same with a coupon as without
(`coupon_never_counts`).
-/
import Falaron.CouponEngine

namespace Falaron.Core

open Py (Decimal)
open Txn.Prog (wp wp_mono wp_bind wp_query)

/-! ## The pricing engine -/

structure PriceBreakdown where
  customerPrice : Decimal
  providerCostInr : Decimal
  floorPrice : Decimal
  appliedPct : Decimal
  customPriceUsed : Bool := false
  resellerCapped : Bool := false
  couponCapped : Bool := false
  premiumCapped : Bool := false
  standardPrice : Decimal
  deriving DecidableEq, Repr

def defaultMinMargin : Decimal := ⟨5, 0⟩

/-- `_resolve_markup`: the markup, the least margin and where they come from. -/
def resolveMarkup (db : Db) (pricing : ServicePricing) : Except Err (Decimal × Decimal × String) :=
  match pricing.profitPct with
  | some pct => .ok (money pct, defaultMinMargin, "service")
  | none =>
    match if pricing.categoryId ≠ 0 then db.categoryProfit pricing.categoryId else none with
    | some pct => .ok (money pct, defaultMinMargin, "category")
    | none =>
      match db.pricingRules.filter fun r => r.isGlobal && r.isActive with
      | [] => .ok (⟨20, 0⟩, defaultMinMargin, "default")
      | [rule] => .ok (.ofNumeric 6 rule.value, money rule.minMarginPct, "global_rule")
      | _ => .error (.python "MultipleResultsFound" "Multiple rows were found when one or none was required")

/-- `1 + pct / 100` -/
def raisedBy (pct : Decimal) : Decimal := (Decimal.mk 1 0).add (pct.div ⟨100, 0⟩)

/-- `1 - pct / 100` -/
def loweredBy (pct : Decimal) : Decimal := (Decimal.mk 1 0).sub (pct.div ⟨100, 0⟩)

/-- `(per_1000 * quantity / 1000).quantize(...)` -/
def forQuantity (places : Nat) (per1000 : Decimal) (quantity : Int) : Except Err Decimal :=
  quantized places ((per1000.mul ⟨quantity, 0⟩).div ⟨1000, 0⟩).val

/-- The discounted price, or the floor where it is below that; was it? -/
def flooredAt (floor discounted : Decimal) : Decimal × Bool :=
  if discounted.val < floor.val then (floor, true) else (discounted, false)

/-- A discount in percent, of the premium plan or a reseller. -/
def percentOff (floor price : Decimal) : Option Decimal → Except Err (Decimal × Bool)
  | none => .ok (price, false)
  | some pct =>
    if 0 < pct.coeff then (quantized 2 (price.mul (loweredBy pct)).val).map (flooredAt floor)
    else .ok (price, false)

/-- A coupon's flat discount. -/
def flatOff (floor price : Decimal) : Option Decimal → Except Err (Decimal × Bool)
  | none => .ok (price, false)
  | some flat =>
    if 0 < flat.coeff then (quantized 2 (price.sub flat).val).map (flooredAt floor)
    else .ok (price, false)

def invalidQuantity (quantity : Int) : Err :=
  .smm .validation ("Invalid quantity: " ++ toString quantity) "Quantity must be greater than zero."

/-- The provider's rate in rupees, per thousand. -/
def costPer1000 (usdToInr rate : Decimal) (currency : String) : Except Err Decimal :=
  if Text.upper currency = "USD" then quantized 4 (rate.mul usdToInr).val else quantized 4 rate.val

/-- `calculate_price`; the provider's rate and the service's own columns are given as stored. -/
def calculatePrice (usdToInr : Decimal) (db : Db) (pricing : ServicePricing) (quantity providerRate : Int)
    (currency : String) (resellerPct couponFlat premiumPct : Option Decimal) : Except Err PriceBreakdown := do
  if quantity ≤ 0 then throw (invalidQuantity quantity)
  let cost1000 ← costPer1000 usdToInr (.ofNumeric 6 providerRate) currency
  let cost ← forQuantity 4 cost1000 quantity
  match pricing.customPrice.filter (0 < ·) with
  | some custom =>
    let price ← forQuantity 2 (.ofNumeric 6 custom) quantity
    let floor ← quantized 2 (cost.mul (raisedBy defaultMinMargin)).val
    pure {
      customerPrice := price
      providerCostInr := cost
      floorPrice := floor
      appliedPct := ⟨0, 0⟩
      customPriceUsed := true
      standardPrice := price }
  | none =>
    let (markup, minMargin, _) ← resolveMarkup db pricing
    let standard1000 ← quantized 4 (cost1000.mul (raisedBy markup)).val
    let standard ← forQuantity 2 standard1000 quantity
    let floor ← quantized 2 (cost.mul (raisedBy minMargin)).val
    let (price, premiumCapped) ← percentOff floor standard premiumPct
    let (price, resellerCapped) ← percentOff floor price resellerPct
    let (price, couponCapped) ← flatOff floor price couponFlat
    pure {
      customerPrice := price
      providerCostInr := cost
      floorPrice := floor
      appliedPct := markup
      resellerCapped := resellerCapped
      couponCapped := couponCapped
      premiumCapped := premiumCapped
      standardPrice := standard }

/-! ## The engines behind `create_order` -/

/-- What the two engines read besides the tables: the clock, the exchange rate, how `repr` writes a text. -/
structure Engines where
  now : Time
  usdToInr : Decimal
  repr : String → String

/-- `calculate_price` as `create_order` calls it. -/
def Engines.price (e : Engines) (db : Db) (service : Service) (quantity : Int) (providerSvc : ProviderService)
    (currency : String) (premiumPct : Decimal) (couponFlat : Option Decimal) : Except Err PriceBreakdown :=
  Core.calculatePrice e.usdToInr db (db.servicePricing service.id) quantity providerSvc.rate currency none couponFlat
    (some premiumPct)

/-- The surroundings with the coupon engine and the pricing engine in their places. -/
def Engines.within (e : Engines) (env : Surroundings) : Surroundings :=
  { env with
    previewCoupon := fun db code userId serviceId => Core.previewCoupon e.repr e.now db code userId (some serviceId)
    calculatePrice := fun db service quantity providerSvc currency premiumPct couponFlat =>
      (e.price db service quantity providerSvc currency premiumPct couponFlat).map fun r =>
        ⟨r.customerPrice, r.providerCostInr⟩ }

/-- The price of the order without a coupon. -/
structure PricedWithout (e : Engines) (env : Surroundings) (db : Db) (a : OrderArgs) (price : PriceBreakdown) : Prop where
  found : ∃ service mapping provider providerSvc pct, db.findService a.serviceId = some service ∧
    db.primaryMappings a.serviceId = [mapping] ∧ db.findProvider mapping.providerId = some provider ∧
    db.findProviderService mapping = some providerSvc ∧ PremiumIs env a db service pct ∧
    e.price db service a.quantity providerSvc provider.currency pct none = .ok price

/-- The order's coupon, valid for that price, and its discount. -/
structure ValidCoupon (e : Engines) (db : Db) (a : OrderArgs) (price : PriceBreakdown) (coupon : Coupon)
    (discount : Decimal) : Prop where
  valid : ∃ code, a.couponCode = some code ∧
    validateCoupon e.repr e.now db code a.userId (some a.serviceId) none price.customerPrice = .ok coupon
  discount : calculateDiscount coupon price.customerPrice = .ok discount

/-- The order is charged less by the discount, down to the floor, and the coupon redeemed for it once. -/
structure CouponCounts (db db' : Db) (order : Order) (price : PriceBreakdown) (coupon : Coupon)
    (discount : Decimal) : Prop where
  charged : (money order.priceCharged).val =
    price.customerPrice.val - min discount.val (price.customerPrice.val - price.floorPrice.val)
  redeemed : ∃ r, db'.redemptions = db.redemptions ++ [r] ∧ r.couponId = coupon.id ∧ r.orderId = order.id

section

variable {e : Engines} {env : Surroundings} {a : OrderArgs} {db : Db} {price : PriceBreakdown}

/-- The engine takes no coupon for a discount. -/
theorem couponFlat_within : ¬ 0 < (couponFlat (e.within env) db a).coeff := by
  unfold couponFlat
  split
  · exact lt_irrefl 0
  · split
    · exact lt_irrefl 0
    · split
      · next hd => exact previewCoupon_zero hd
      · exact lt_irrefl 0

theorem PremiumIs.unique {service : Service} {pct pct' : Decimal} (h : PremiumIs env a db service pct)
    (h' : PremiumIs env a db service pct') : pct = pct' := by
  unfold PremiumIs at h h'
  cases happly : env.applyPremiumToOrder with
  | none =>
    rw [happly] at h h'
    exact h.trans h'.symm
  | some apply =>
    rw [happly] at h h'
    obtain ⟨_, h⟩ := h
    obtain ⟨_, h'⟩ := h'
    cases h.symm.trans h'
    rfl

/-- An order is prepared at the price without a coupon. -/
theorem Prepares.price_without {p : Prepared} (hp : Prepares (e.within env) a db p)
    (h : PricedWithout e env db a price) : p.price.customerPrice = price.customerPrice := by
  obtain ⟨service, mapping, provider, providerSvc, pct, hservice, hmapping, hprovider, hsvc, hpct, hprice⟩ := h.found
  obtain rfl : p.service = service := Option.some.inj (hp.service.symm.trans hservice)
  obtain rfl : p.mapping = mapping := by simpa using hp.mapping.symm.trans hmapping
  obtain rfl : p.providerSvc = providerSvc := Option.some.inj (hp.providerSvc.symm.trans hsvc)
  obtain rfl : p.provider = provider := by
    have := hp.provider
    rw [hprovider, Option.filter_eq_some_iff] at this
    exact (Option.some.inj this.1).symm
  obtain ⟨pct', hpct', hquoted⟩ := hp.price
  obtain rfl : pct' = pct := PremiumIs.unique hpct' hpct
  rw [if_neg couponFlat_within] at hquoted
  replace hquoted : (e.price db p.service a.quantity p.providerSvc p.provider.currency pct' none).map _ = .ok p.price :=
    hquoted
  rw [hprice] at hquoted
  rw [← Except.ok.inj hquoted]

/-- No step of a call redeems a coupon. -/
theorem Opens.redemptions {p : Prepared} {db' : Db} (h : Opens env a db p db') : db'.redemptions = db.redemptions := by
  obtain ⟨-, db₁, hentered, -, rfl⟩ := h
  rcases hentered with ⟨_, _, rfl⟩ | ⟨t, _, rfl⟩
  · rfl
  · rfl

/-- **A coupon never counts.** A new order that the provider accepts is
charged the price without a coupon, and no coupon is redeemed: for no coupon,
valid or not, is the order charged less and the coupon redeemed. -/
theorem coupon_never_counts {answer : ProviderOrderResult} {order : Order} {s : Session}
    (hrun : (placeOrder (e.within env) (.ok answer) a).run { db := db } = (.ok order, s))
    (hnew : db.findOrder (idemKey env a) = none) (hprice : PricedWithout e env db a price) :
    order.priceCharged = stored price.customerPrice ∧ s.db.redemptions = db.redemptions ∧
      ∀ coupon discount, ¬ CouponCounts db s.db order price coupon discount := by
  have hplaced : (placeOrder (e.within env) (.ok answer) a).wp (fun order s =>
      order.priceCharged = stored price.customerPrice ∧ s.db.redemptions = db.redemptions) (fun _ _ => True)
      { db := db } := by
    refine wp_placeOrder rfl (fun _ => trivial) (fun _ => trivial) (fun o ho => ?_) (fun p db' r hopens _ => ?_)
      (fun _ _ _ _ _ _ => trivial) fun _ _ _ _ _ _ _ _ => trivial
    · exact absurd (hnew.symm.trans ho) (by simp)
    · refine ⟨?_, hopens.redemptions⟩
      show stored p.price.customerPrice = _
      rw [hopens.prepares.price_without hprice]
  obtain ⟨hcharged, hnone⟩ := Txn.Prog.wp_ok hplaced hrun
  refine ⟨hcharged, hnone, fun coupon discount h => ?_⟩
  obtain ⟨r, hr, -, -⟩ := h.redeemed
  have hlength := congrArg List.length (hnone.symm.trans hr)
  simp at hlength

end

/-! ## Ten per cent off -/

def tenPercent : Coupon :=
  ⟨1, "SAVE10", .percentage, 100000, none, none, some 100, 1, none, true, none, none, false, none⟩

def couponShop : Db := { oneService with coupons := [tenPercent] }

/-- A dollar is 83 rupees. -/
def couponEngines : Engines := ⟨0, ⟨8300, -2⟩, fun s => "'" ++ s ++ "'"⟩

def couponOrder : OrderArgs := { firstOrder with couponCode := some "save10" }

/-- A thousand cost 83, with a markup of a fifth, and at least 87.15. -/
def fullPrice : PriceBreakdown where
  customerPrice := ⟨9960, -2⟩
  providerCostInr := ⟨830000, -4⟩
  floorPrice := ⟨8715, -2⟩
  appliedPct := ⟨20, 0⟩
  standardPrice := ⟨9960, -2⟩

theorem fullPrice_without : PricedWithout couponEngines openShop couponShop couponOrder fullPrice :=
  ⟨_, _, _, _, _, rfl, rfl, rfl, rfl, rfl, by decide +kernel⟩

/-- The order as the provider accepts it. -/
def fullOrder : Order :=
  accepted (newOrder openShop couponOrder { firstPrepared with price := ⟨⟨9960, -2⟩, ⟨830000, -4⟩⟩ }) ⟨"9001"⟩

theorem couponOrder_placed :
    ((placeOrder (couponEngines.within openShop) (.ok ⟨"9001"⟩) couponOrder).run { db := couponShop }).1 =
      .ok fullOrder := by
  decide +kernel

theorem coupon_never_counts_of_ten_percent : ∃ s,
    (placeOrder (couponEngines.within openShop) (.ok ⟨"9001"⟩) couponOrder).run { db := couponShop } =
      (.ok fullOrder, s) ∧
    fullOrder.priceCharged = stored fullPrice.customerPrice ∧ s.db.redemptions = couponShop.redemptions ∧
      ∀ coupon discount, ¬ CouponCounts couponShop s.db fullOrder fullPrice coupon discount :=
  ⟨_, Prod.ext couponOrder_placed rfl, coupon_never_counts (Prod.ext couponOrder_placed rfl) rfl fullPrice_without⟩

/-- The coupon is valid and worth 9.96, and the order is charged 99.60. -/
theorem valid_coupon_ignored : ∃ s,
    (placeOrder (couponEngines.within openShop) (.ok ⟨"9001"⟩) couponOrder).run { db := couponShop } =
      (.ok fullOrder, s) ∧
    PricedWithout couponEngines openShop couponShop couponOrder fullPrice ∧ fullPrice.customPriceUsed = false ∧
    ValidCoupon couponEngines couponShop couponOrder fullPrice tenPercent ⟨996, -2⟩ ∧
    ¬ CouponCounts couponShop s.db fullOrder fullPrice tenPercent ⟨996, -2⟩ := by
  refine ⟨_, Prod.ext couponOrder_placed rfl, fullPrice_without, rfl, ⟨⟨_, rfl, ?_⟩, ?_⟩, fun h => ?_⟩
  · decide +kernel
  · decide +kernel
  · exact absurd h.charged (by decide +kernel)

end Falaron.Core
