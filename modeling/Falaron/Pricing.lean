/-
The sell-price engine, as far as placing an order uses it.

Percentages and the division by 1000 are exact rationals here (the code has
floats). A quote reads tables and changes nothing (`quoteOrder_reads`).
-/
import Falaron.Db
import Mathlib.Algebra.Order.Ring.Unbundled.Rat

namespace Falaron

def defaultResellerDiscountBp : Int := 1200
def resellerMinMarginPercent : Rat := 10

/-! ## Price arithmetic -/

/-- Lowest permitted sell rate per 1,000: cost plus the minimum margin, never below cost. -/
def marginFloorPer1000 (costPer1000 : Int) (minMarginPercent : Rat) : Int :=
  let floor := (costPer1000 * (1 + max minMarginPercent 0 / 100) : Rat).ceil
  max floor costPer1000

def scaleToQty (per1000Paise quantity : Int) : Int :=
  if quantity ≤ 0 then 0 else ((per1000Paise * quantity : Int) / 1000 : Rat).ceil

/-- Largest discount up to the requested one that keeps the charge at or above the floor. -/
def capDiscountToFloor (subtotalPaise discountPaise floorPaise : Int) : Int :=
  if discountPaise ≤ 0 || subtotalPaise ≤ 0 then 0
  else
    let headroom := subtotalPaise - max floorPaise 0
    if headroom ≤ 0 then 0 else min discountPaise (min headroom subtotalPaise)

def applyMarkup (costPer1000 : Int) (percent : Option Rat) (fixed : Option Int) : Int :=
  (costPer1000 * (1 + percent.getD 0 / 100) + fixed.getD 0 : Rat).ceil

def enforceMinMargin (costPer1000 sellPer1000 : Int) (minMarginPercent : Rat) : Int :=
  max sellPer1000 (marginFloorPer1000 costPer1000 minMarginPercent)

/-- The reseller discount, never below the resellers' margin. -/
def applyResellerRate (costPer1000 retailPer1000 discountBp : Int) : Int :=
  let bp := max 0 (min (if discountBp = 0 then defaultResellerDiscountBp else discountBp) 9000)
  let discounted := ((retailPer1000 * (10000 - bp) : Int) / 10000 : Rat).ceil
  enforceMinMargin costPer1000 discounted resellerMinMarginPercent

/-! ## Amounts as texts -/

/-- `{n:,}` on the digits of `n`, last one first. -/
def groupDigits : Nat → List Char → List Char
  | _, [] => []
  | 3, c :: cs => ',' :: c :: groupDigits 1 cs
  | n, c :: cs => c :: groupDigits (n + 1) cs

def grouped (n : Nat) : String := .ofList (groupDigits 0 (toString n).toList.reverse).reverse

def paiseToRupeesStr (paise : Int) : String :=
  let sign := if paise < 0 then "-" else ""
  let value := paise.natAbs
  let cents := value % 100
  sign ++ "₹" ++ grouped (value / 100) ++ "." ++ (if cents < 10 then "0" else "") ++ toString cents

/-! ## The sell rate -/

def settingFloat (key : String) (default : Rat) : M Rat :=
  .query fun db => (db.catalog.settingFloats key).getD default

structure SellRate where
  sellPer1000 : Int
  layer : String
  percent : Rat
  fixed : Int

/-- One layer of the hierarchy, once it is known to apply. -/
def markedUp (cost : Int) (minMargin : Rat) (layer : String) (percent : Option Rat) (fixed : Option Int) :
    SellRate :=
  ⟨enforceMinMargin cost (applyMarkup cost percent fixed) minMargin, layer, percent.getD 0, fixed.getD 0⟩

def starsOf (serviceId : String) (userId : Option Int) (db : Db) : List StarPrice :=
  db.catalog.stars.filter fun s => s.serviceId == serviceId && s.userId == userId && s.isActive

def findOwnStar (serviceId : String) : Option Int → M (Option StarPrice)
  | .some userId => scalarOneOrNone (starsOf serviceId (.some userId))
  | .none => pure .none

/-- The active custom rate of the user, else the one of everyone. -/
def findStar (serviceId : String) (userId : Option Int) : M (Option StarPrice) := do
  match ← findOwnStar serviceId userId with
  | .some star => pure (.some star)
  | .none => scalarOneOrNone (starsOf serviceId .none)

/-- A layer applies when it sets a percentage or a fixed amount. -/
def layerApplies (percent : Option Rat) (fixed : Option Int) : Bool := percent.isSome || fixed.isSome

def resolveSellRate (service : Service) (userId : Option Int) : M SellRate := do
  let globalMarkup ← settingFloat "global_markup_percent" 25
  let minMargin ← settingFloat "min_margin_percent" 5
  let cost := service.ratePer1000Paise
  match ← findStar service.id userId with
  | .some star => pure ⟨enforceMinMargin cost star.customRatePer1000Paise minMargin, "star", 0, 0⟩
  | .none =>
    if layerApplies service.markupPercent service.markupFixedPaise then
      pure (markedUp cost minMargin "service" service.markupPercent service.markupFixedPaise)
    else
      let category ← .query (·.findCategory service.categoryId)
      match category.filter fun c => layerApplies c.markupPercent c.markupFixedPaise with
      | .some c => pure (markedUp cost minMargin "category" c.markupPercent c.markupFixedPaise)
      | .none =>
        let provider ← .query (·.findProvider service.providerId)
        match provider.filter fun p => layerApplies p.markupPercent p.markupFixedPaise with
        | .some p => pure (markedUp cost minMargin "provider" p.markupPercent p.markupFixedPaise)
        | .none => pure (markedUp cost minMargin "global" (.some globalMarkup) (.some 0))

/-! ## Coupons -/

/-- The coupon's own discount on a subtotal. -/
def Coupon.discount (c : Coupon) (subtotalPaise : Int) : Int :=
  let discount := if c.percent then (subtotalPaise * c.value / 100 : Rat).floor else truncate c.value
  max 0 (min discount subtotalPaise)
where
  /-- `int(x)` -/
  truncate (x : Rat) : Int := if x < 0 then x.ceil else x.floor

/-- `apply_coupon`, for a code that was given. -/
def applyCoupon (now : Time) (code : String) (userId subtotalPaise : Int) : M (Int × Coupon) := do
  let normalized := Text.upper (Text.strip code)
  match (← .query (·.coupons normalized)).filter (·.isActive) with
  | .none => raise (.value "Unknown or inactive coupon")
  | .some coupon =>
    .require (coupon.expiresAt.all (now ≤ ·)) (.value "Coupon has expired")
    .require (coupon.minOrderPaise == 0 || coupon.minOrderPaise ≤ subtotalPaise)
      (.value ("Coupon requires a minimum order of " ++ paiseToRupeesStr coupon.minOrderPaise))
    .require (coupon.maxUses.all (coupon.usedCount < ·)) (.value "Coupon has reached its usage limit")
    let usedByUser ← .query fun db =>
      (db.redemptions.filter fun r => r.couponCode == coupon.code && r.userId == userId).length
    .require (coupon.perUserLimit == 0 || (usedByUser : Int) < coupon.perUserLimit)
      (.value "You have already used this coupon")
    pure (coupon.discount subtotalPaise, coupon)

/-! ## The quote -/

structure PriceQuote where
  serviceId : String
  quantity : Int
  costPer1000Paise : Int
  sellPer1000Paise : Int
  costPaise : Int
  subtotalPaise : Int
  discountPaise : Int
  chargePaise : Int
  layer : String
  markupPercent : Rat
  markupFixedPaise : Int
  couponCode : Option String
  minQty : Int
  maxQty : Int
  retailPer1000Paise : Int
  resellerDiscountPaise : Int

/-- A quote, and the rows it leaves loaded in the session. -/
structure Quoted where
  quote : PriceQuote
  coupon : Option Coupon
  reseller : Option Reseller

/-- The coupon part of a quote: the discount, the code if it applied, the coupon read. -/
def quoteCoupon (now : Time) (service : Service) (quantity : Int) (userId : Option Int)
    (couponCode : Option String) (resold : Bool) (subtotal : Int) : M (Int × Option String × Option Coupon) := do
  match couponCode.filter (· ≠ ""), userId with
  | .some code, .some user =>
    let (discount, coupon) ← applyCoupon now code user subtotal
    let setting ← settingFloat "min_margin_percent" 5
    -- a coupon must never turn an order into a loss
    let minMargin := if resold then max setting resellerMinMarginPercent else setting
    let floorCharge := scaleToQty (marginFloorPer1000 service.ratePer1000Paise minMargin) quantity
    let discount := capDiscountToFloor subtotal discount floorCharge
    pure (discount, if discount ≤ 0 then .none else .some coupon.code, .some coupon)
  | _, _ => pure (0, .none, .none)

/-- The reseller row of the buyer, if it is known who buys. -/
def findReseller (userId : Option Int) : M (Option Reseller) :=
  .query fun db => userId.bind db.resellers

/-- A quote; without a user, for nobody in particular. -/
def quoteOrder (now : Time) (serviceId : String) (quantity : Int) (userId : Option Int)
    (couponCode : Option String) : M Quoted := do
  match (← .query (·.findService serviceId)).filter (·.isActive) with
  | .none => raise (.value "Service is not available")
  | .some service =>
    .require (service.minQty ≤ quantity && quantity ≤ service.maxQty)
      (.value s!"Quantity must be between {service.minQty} and {service.maxQty}")
    let rate ← resolveSellRate service userId
    let retailPer1000 := rate.sellPer1000
    let reseller ← findReseller userId
    let active := reseller.filter (·.active)
    let sellPer1000 := match active with
      | .some r => applyResellerRate service.ratePer1000Paise retailPer1000 r.discountBp
      | .none => retailPer1000
    let retailSubtotal := scaleToQty retailPer1000 quantity
    let subtotal := scaleToQty sellPer1000 quantity
    let (discount, appliedCode, coupon) ←
      quoteCoupon now service quantity userId couponCode active.isSome subtotal
    pure {
      quote := {
        serviceId := service.id
        quantity := quantity
        costPer1000Paise := service.ratePer1000Paise
        sellPer1000Paise := sellPer1000
        costPaise := scaleToQty service.ratePer1000Paise quantity
        subtotalPaise := subtotal
        discountPaise := discount
        chargePaise := max 0 (subtotal - discount)
        layer := if active.isSome then rate.layer ++ "+reseller" else rate.layer
        markupPercent := rate.percent
        markupFixedPaise := rate.fixed
        couponCode := appliedCode
        minQty := service.minQty
        maxQty := service.maxQty
        retailPer1000Paise := retailPer1000
        resellerDiscountPaise := max 0 (retailSubtotal - subtotal) }
      coupon := coupon
      reseller := reseller }

/-! ## A quote only reads -/

open Txn.Prog

/-- What a request is refused with, before any money is touched. -/
def Err.ofRequest : Err → Prop
  | .order _ | .permission _ | .value _ | .notFound _ | .missingRow | .multipleRows => True
  | _ => False

theorem scalarOneOrNone_reads {α : Type} (q : Db → List α) : (scalarOneOrNone q).Reads Err.ofRequest := by
  refine .bind (.query q) fun rows => ?_
  match rows with
  | [] => exact .pure _
  | [_] => exact .pure _
  | _ :: _ :: _ => exact .throw trivial

theorem findOwnStar_reads (serviceId : String) (userId : Option Int) :
    (findOwnStar serviceId userId).Reads Err.ofRequest := by
  cases userId with
  | some _ => exact scalarOneOrNone_reads _
  | none => exact .pure _

theorem findStar_reads (serviceId : String) (userId : Option Int) :
    (findStar serviceId userId).Reads Err.ofRequest := by
  refine .bind (findOwnStar_reads _ _) fun star => ?_
  cases star with
  | some _ => exact .pure _
  | none => exact scalarOneOrNone_reads _

theorem resolveSellRate_reads (service : Service) (userId : Option Int) :
    (resolveSellRate service userId).Reads Err.ofRequest := by
  refine .bind (.query _) fun _ => .bind (.query _) fun _ => .bind (findStar_reads _ _) fun star => ?_
  cases star with
  | some _ => exact .pure _
  | none =>
    refine .ite (.pure _) (.bind (.query _) fun _ => ?_)
    split
    · exact .pure _
    · refine .bind (.query _) fun _ => ?_
      split <;> exact .pure _

theorem applyCoupon_reads (now : Time) (code : String) (userId subtotalPaise : Int) :
    (applyCoupon now code userId subtotalPaise).Reads Err.ofRequest := by
  refine .bind (.query _) fun _ => ?_
  split
  · exact .throw trivial
  · exact .bind (.require _ trivial) fun _ => .bind (.require _ trivial) fun _ =>
      .bind (.require _ trivial) fun _ => .bind (.query _) fun _ => .bind (.require _ trivial) fun _ => .pure _

theorem quoteCoupon_reads (now : Time) (service : Service) (quantity : Int) (userId : Option Int)
    (couponCode : Option String) (resold : Bool) (subtotal : Int) :
    (quoteCoupon now service quantity userId couponCode resold subtotal).Reads Err.ofRequest := by
  unfold quoteCoupon
  split
  · exact .bind (applyCoupon_reads _ _ _ _) fun _ => .bind (.query _) fun _ => .pure _
  · exact .pure _

theorem quoteOrder_reads (now : Time) (serviceId : String) (quantity : Int) (userId : Option Int)
    (couponCode : Option String) :
    (quoteOrder now serviceId quantity userId couponCode).Reads Err.ofRequest := by
  refine .bind (.query _) fun _ => ?_
  split
  · exact .throw trivial
  · exact .bind (.require _ trivial) fun _ => .bind (resolveSellRate_reads _ _) fun _ => .bind (.query _) fun _ =>
      .bind (quoteCoupon_reads _ _ _ _ _ _ _) fun _ => .pure _

example : paiseToRupeesStr 123456789 = "₹1,234,567.89" := by decide

end Falaron
