/-
The margin on every price path: what a quote charges, against what the
service costs plus the margin the operator has configured.

Every layer of the hierarchy is raised to that margin, and a coupon is cut
down to it. The panel rate of a reseller is raised to the resellers' own
margin only, so that a configured margin above that one can be undercut:
`quote_covers_margin_iff` says exactly when it is not.
-/
import Falaron.Pricing
import Mathlib.Data.Rat.Floor
import Mathlib.Tactic.Linarith
import Mathlib.Tactic.Positivity

namespace Falaron

open Txn.Prog

/-! ## The arithmetic -/

section

variable {a b cost quantity : Int} {m m' : Rat}

theorem ceil_le_ceil {x y : Rat} (h : x ≤ y) : x.ceil ≤ y.ceil :=
  Rat.ceil_le_iff.mpr (h.trans Rat.le_ceil)

theorem scaleToQty_mono (h : a ≤ b) : scaleToQty a quantity ≤ scaleToQty b quantity := by
  unfold scaleToQty
  split
  · exact le_refl 0
  · next hq =>
    refine ceil_le_ceil ?_
    have hle : a * quantity ≤ b * quantity := Int.mul_le_mul_of_nonneg_right h (by omega)
    have hcast : ((a * quantity : Int) : Rat) ≤ ((b * quantity : Int) : Rat) := by exact_mod_cast hle
    linarith

theorem scaleToQty_max : scaleToQty (max a b) quantity = max (scaleToQty a quantity) (scaleToQty b quantity) := by
  rcases le_total a b with h | h
  · rw [max_eq_right h, max_eq_right (scaleToQty_mono h)]
  · rw [max_eq_left h, max_eq_left (scaleToQty_mono h)]

theorem scaleToQty_zero : scaleToQty 0 quantity = 0 := by
  unfold scaleToQty
  split
  · rfl
  · simp only [Int.zero_mul, Int.cast_zero, zero_div]
    rfl

theorem scaleToQty_nonneg (h : 0 ≤ a) : 0 ≤ scaleToQty a quantity := scaleToQty_zero ▸ scaleToQty_mono h

theorem scaleToQty_nonpos (h : a ≤ 0) : scaleToQty a quantity ≤ 0 := scaleToQty_zero ▸ scaleToQty_mono h

theorem marginFloor_ge_cost : cost ≤ marginFloorPer1000 cost m := le_max_right _ _

/-- Nothing is earned on what costs nothing. -/
theorem marginFloor_of_nonpos (h : cost ≤ 0) : marginFloorPer1000 cost m = cost := by
  refine max_eq_right (Rat.ceil_le_iff.mpr ?_)
  have hc : (cost : Rat) ≤ 0 := by exact_mod_cast h
  have hm : (0 : Rat) ≤ max m 0 / 100 := by positivity
  nlinarith

theorem marginFloor_mono (h : m ≤ m') : marginFloorPer1000 cost m ≤ marginFloorPer1000 cost m' := by
  rcases le_total cost 0 with hc | hc
  · rw [marginFloor_of_nonpos hc, marginFloor_of_nonpos hc]
  · refine max_le_max (ceil_le_ceil ?_) (le_refl cost)
    have hcast : (0 : Rat) ≤ cost := by exact_mod_cast hc
    have hmax : max m 0 ≤ max m' 0 := max_le_max h (le_refl 0)
    exact mul_le_mul_of_nonneg_left (by linarith) hcast

/-- A cut-down discount leaves the floor, if it leaves anything of a discount. -/
theorem capDiscountToFloor_cases (subtotal discount floor : Int) :
    capDiscountToFloor subtotal discount floor = 0 ∨
      0 < capDiscountToFloor subtotal discount floor ∧
        max floor 0 ≤ subtotal - capDiscountToFloor subtotal discount floor := by
  unfold capDiscountToFloor
  split
  · exact .inl rfl
  · next h =>
    simp only [Bool.or_eq_true, decide_eq_true_eq, not_or, not_le] at h
    dsimp only
    split
    · exact .inl rfl
    · next hh => exact .inr ⟨by omega, by omega⟩

end

/-! ## The prices of a catalog -/

namespace Db

variable (db : Db) (service : Service) (userId : Option Int)

/-- The configured minimum margin. -/
def minMargin : Rat := (db.catalog.settingFloats "min_margin_percent").getD 5

def starFor : Option StarPrice :=
  (userId.bind fun user => (starsOf service.id (.some user) db).head?).or (starsOf service.id .none db).head?

/-- The markup of the first layer below the custom rates that sets one. -/
def markupFor : Option Rat × Option Int :=
  if layerApplies service.markupPercent service.markupFixedPaise then
    (service.markupPercent, service.markupFixedPaise)
  else match (db.findCategory service.categoryId).filter fun c => layerApplies c.markupPercent c.markupFixedPaise with
  | .some c => (c.markupPercent, c.markupFixedPaise)
  | .none =>
    match (db.findProvider service.providerId).filter fun p => layerApplies p.markupPercent p.markupFixedPaise with
    | .some p => (p.markupPercent, p.markupFixedPaise)
    | .none => (.some ((db.catalog.settingFloats "global_markup_percent").getD 25), .some 0)

/-- The rate everyone else pays: the first layer's, raised to the configured margin. -/
def retailRate : Int :=
  let listed := match db.starFor service userId with
    | .some star => star.customRatePer1000Paise
    | .none => applyMarkup service.ratePer1000Paise (db.markupFor service).1 (db.markupFor service).2
  enforceMinMargin service.ratePer1000Paise listed db.minMargin

end Db

/-- The retail rate less the panel discount. -/
def panelRate (retailPer1000 discountBp : Int) : Int :=
  let bp := max 0 (min (if discountBp = 0 then defaultResellerDiscountBp else discountBp) 9000)
  ((retailPer1000 * (10000 - bp) : Int) / 10000 : Rat).ceil

theorem applyResellerRate_eq {cost retail bp : Int} :
    applyResellerRate cost retail bp =
      max (panelRate retail bp) (marginFloorPer1000 cost resellerMinMarginPercent) := rfl

/-- The least an order of the quantity may be charged under a margin. -/
def Service.floorCharge (service : Service) (minMarginPercent : Rat) (quantity : Int) : Int :=
  scaleToQty (marginFloorPer1000 service.ratePer1000Paise minMarginPercent) quantity

/-- Where the buyer is an active reseller, the resellers' margin asks for as
much as the configured one, or the panel discount leaves as much. -/
def Db.KeepsMargin (db : Db) (service : Service) (quantity : Int) (userId : Option Int) : Prop :=
  ∀ reseller, userId.bind db.resellers = .some reseller → reseller.active = true →
    service.floorCharge db.minMargin quantity ≤ service.floorCharge resellerMinMarginPercent quantity ∨
    service.floorCharge db.minMargin quantity ≤
      scaleToQty (panelRate (db.retailRate service userId) reseller.discountBp) quantity

/-! ## When a quote is given -/

/-- The margin a coupon leaves: the stricter one for a reseller. -/
def couponMargin (db : Db) (resold : Bool) : Rat :=
  if resold then max db.minMargin resellerMinMarginPercent else db.minMargin

namespace Db

variable (db : Db) (service : Service) (quantity : Int) (userId : Option Int)

/-- The rate the buyer pays. -/
def sellRate : Int :=
  match (userId.bind db.resellers).filter (·.active) with
  | .some r => applyResellerRate service.ratePer1000Paise (db.retailRate service userId) r.discountBp
  | .none => db.retailRate service userId

/-- Whether the buyer's rate is a reseller's. -/
def resold : Bool := ((userId.bind db.resellers).filter (·.active)).isSome

/-- What the quantity costs the buyer, without a coupon. -/
def subtotal : Int := scaleToQty (db.sellRate service userId) quantity

/-- What a coupon takes off, without taking the margin. -/
def discountOf (coupon : Coupon) : Int :=
  capDiscountToFloor (db.subtotal service quantity userId) (coupon.discount (db.subtotal service quantity userId))
    (service.floorCharge (couponMargin db (db.resold userId)) quantity)

/-- No two custom rates are in each other's way: of the buyer, or of everyone if he has none. -/
structure StarsClear : Prop where
  own : ∀ user, userId = .some user → (starsOf service.id (.some user) db).length ≤ 1
  all : (userId.bind fun user => (starsOf service.id (.some user) db).head?) = .none →
    (starsOf service.id .none db).length ≤ 1

/-- The user may redeem the coupon behind the code. -/
structure Redeemable (now : Time) (code : String) (user subtotalPaise : Int) (coupon : Coupon) : Prop where
  found : db.coupons (Text.upper (Text.strip code)) = .some coupon
  active : coupon.isActive = true
  unexpired : ∀ t, coupon.expiresAt = .some t → now ≤ t
  minOrder : coupon.minOrderPaise = 0 ∨ coupon.minOrderPaise ≤ subtotalPaise
  uses : ∀ n, coupon.maxUses = .some n → coupon.usedCount < n
  perUser : coupon.perUserLimit = 0 ∨
    ((db.redemptions.filter fun r => r.couponCode == coupon.code && r.userId == user).length : Int) < coupon.perUserLimit

/-- The coupon of a request: none, or the one its code names if it may be redeemed. -/
def CouponTerms (now : Time) (couponCode : Option String) (coupon : Option Coupon) : Prop :=
  match couponCode.filter (· ≠ ""), userId with
  | .some code, .some user =>
    ∃ c, coupon = .some c ∧ db.Redeemable now code user (db.subtotal service quantity userId) c
  | _, _ => coupon = .none

/-- The charge, with a coupon or without. -/
def chargeFor (coupon : Option Coupon) : Int :=
  max 0 (db.subtotal service quantity userId - (coupon.map (db.discountOf service quantity userId)).getD 0)

/-- The conditions under which there is a price. -/
structure Quotable (now : Time) (couponCode : Option String) (coupon : Option Coupon) : Prop where
  active : service.isActive = true
  inRange : service.minQty ≤ quantity ∧ quantity ≤ service.maxQty
  stars : db.StarsClear service userId
  coupon : db.CouponTerms service quantity userId now couponCode coupon

/-- What a quote says: the price, what the service costs, and what a reseller saves. -/
structure Quotes (q : Quoted) : Prop where
  charge : q.quote.chargePaise = db.chargeFor service quantity userId q.coupon
  ordered : q.quote.quantity = quantity
  cost : q.quote.costPaise = scaleToQty service.ratePer1000Paise quantity
  saved : q.quote.resellerDiscountPaise =
    max 0 (scaleToQty (db.retailRate service userId) quantity - db.subtotal service quantity userId)
  reseller : q.reseller = userId.bind db.resellers

/-- What it says besides: the price without the coupon, what the coupon takes off, and its code. -/
structure Itemizes (q : Quoted) : Prop extends db.Quotes service quantity userId q where
  subtotal : q.quote.subtotalPaise = db.subtotal service quantity userId
  discount : q.quote.discountPaise = (q.coupon.map (db.discountOf service quantity userId)).getD 0
  code : q.quote.couponCode = if q.quote.discountPaise ≤ 0 then .none else q.coupon.map (·.code)

/-- The code alone says which coupon it is, whatever is bought. -/
theorem CouponTerms.unique {db : Db} {service : Service} {quantity quantity' : Int} {userId : Option Int} {now : Time}
    {couponCode : Option String} {c c' : Option Coupon} (h : db.CouponTerms service quantity userId now couponCode c)
    (h' : db.CouponTerms service quantity' userId now couponCode c') : c = c' := by
  unfold CouponTerms at h h'
  split at h
  · next hcode =>
    simp only [hcode] at h'
    obtain ⟨a, rfl, ha⟩ := h
    obtain ⟨b, rfl, hb⟩ := h'
    rw [Option.some.inj (ha.found.symm.trans hb.found)]
  · next hno =>
    split at h'
    · next hcode => exact (hno _ _ hcode rfl).elim
    · exact h.trans h'.symm

end Db

section

variable {service : Service} {serviceId : String} {userId : Option Int} {quantity : Int} {s s' : Session}
  {E : Err → Session → Prop}

theorem wp_scalarOneOrNone {α : Type} {q : Db → List α} {Q : Option α → Session → Prop}
    (h : (q s.db).length ≤ 1 → Q (q s.db).head? s) (hE : ¬ (q s.db).length ≤ 1 → E .multipleRows s) :
    (scalarOneOrNone q).wp Q E s := by
  simp only [scalarOneOrNone, wp_bind, wp_query]
  generalize q s.db = rows at h hE
  cases rows with
  | nil => exact h (Nat.zero_le 1)
  | cons _ rest =>
    cases rest with
    | nil => exact h (le_refl 1)
    | cons _ _ => exact hE (by simp)

theorem wp_findStar {Q : Option StarPrice → Session → Prop}
    (h : s.db.StarsClear service userId → Q (s.db.starFor service userId) s)
    (hE : ¬ s.db.StarsClear service userId → E .multipleRows s) : (findStar service.id userId).wp Q E s := by
  rw [findStar, wp_bind]
  have hall : ∀ own : Option StarPrice, own = (userId.bind fun user =>
      (starsOf service.id (.some user) s.db).head?) →
      (∀ user, userId = .some user → (starsOf service.id (.some user) s.db).length ≤ 1) → wp Q E (match own with
        | .some star => Pure.pure (.some star)
        | .none => scalarOneOrNone (starsOf service.id .none)) s := by
    intro own hown hone
    unfold Db.starFor at h
    rw [← hown] at h
    cases own with
    | some star => exact h ⟨hone, fun hnone => by rw [← hown] at hnone; cases hnone⟩
    | none => exact wp_scalarOneOrNone (fun hlen => h ⟨hone, fun _ => hlen⟩) fun hlen => hE fun hs => hlen (hs.all hown.symm)
  cases userId with
  | some user =>
    refine wp_scalarOneOrNone (fun hlen => hall _ rfl fun u hu => ?_) fun hlen => hE fun hs => hlen (hs.own user rfl)
    cases hu
    exact hlen
  | none => exact hall _ rfl nofun

/-- What resolving a rate returns is the retail rate. -/
theorem wp_resolveSellRate {Q : SellRate → Session → Prop}
    (h : ∀ r : SellRate, s.db.StarsClear service userId → r.sellPer1000 = s.db.retailRate service userId → Q r s)
    (hE : ¬ s.db.StarsClear service userId → E .multipleRows s) : (resolveSellRate service userId).wp Q E s := by
  simp only [resolveSellRate, settingFloat, wp_bind, wp_query]
  refine wp_findStar (fun hclear => ?_) hE
  unfold Db.retailRate at h
  split
  · next star hs => exact h _ hclear (by rw [hs]; rfl)
  · next hs =>
    rw [hs] at h
    unfold Db.markupFor at h
    split
    · next hl => exact h _ hclear (by rw [if_pos hl]; rfl)
    · next hl =>
      simp only [if_neg hl] at h
      simp only [wp_bind, wp_query]
      split
      · next hc => exact h _ hclear (by rw [hc]; rfl)
      · next hc =>
        rw [hc] at h
        simp only [wp_bind, wp_query]
        split
        · next hp => exact h _ hclear (by rw [hp]; rfl)
        · next hp => exact h _ hclear (by rw [hp]; rfl)

/-- A coupon is applied exactly when it may be redeemed. -/
theorem wp_applyCoupon {now : Time} {code : String} {user subtotal : Int} {Q : Int × Coupon → Session → Prop}
    (h : ∀ c, s.db.Redeemable now code user subtotal c → Q (c.discount subtotal, c) s)
    (hE : (∀ c, ¬ s.db.Redeemable now code user subtotal c) → ∀ e, E e s) :
    (applyCoupon now code user subtotal).wp Q E s := by
  simp only [applyCoupon, wp_bind, wp_query]
  -- whichever check fails, it fails of the coupon the code names
  have hnot {c : Coupon} (hfound : s.db.coupons (Text.upper (Text.strip code)) = .some c)
      (hc : ¬ s.db.Redeemable now code user subtotal c) : ∀ e, E e s := by
    refine hE fun c' hc' => hc ?_
    rwa [Option.some.inj (hfound.symm.trans hc'.found)]
  split
  · next hnone =>
    refine hE (fun c hc => ?_) _
    rw [hc.found, Option.filter_some, if_pos hc.active] at hnone
    cases hnone
  next c hfilter =>
  obtain ⟨hfound, hactive⟩ := Option.filter_eq_some_iff.mp hfilter
  simp only [wp_bind, wp_require]
  split
  case isFalse hexpired =>
    refine hnot hfound (fun hc => hexpired ?_) _
    rw [Option.all_eq_true]
    exact fun t ht => decide_eq_true (hc.unexpired t ht)
  next hexpired =>
  split
  case isFalse hmin => exact hnot hfound (fun hc => hmin (by simpa using hc.minOrder)) _
  next hmin =>
  split
  case isFalse huses =>
    refine hnot hfound (fun hc => huses ?_) _
    rw [Option.all_eq_true]
    exact fun n hn => decide_eq_true (hc.uses n hn)
  next huses =>
  simp only [wp_query]
  split
  case isFalse hper => exact hnot hfound (fun hc => hper (by simpa using hc.perUser)) _
  next hper =>
  rw [Option.all_eq_true] at hexpired huses
  exact h c ⟨hfound, hactive, fun t ht => of_decide_eq_true (hexpired t ht), by simpa using hmin,
    fun n hn => of_decide_eq_true (huses n hn), by simpa using hper⟩

/-- What the coupon part of a quote takes off, and the coupon it leaves loaded. -/
theorem wp_quoteCoupon {now : Time} {couponCode : Option String}
    {Q : Int × Option String × Option Coupon → Session → Prop}
    (h : ∀ coupon r, s.db.CouponTerms service quantity userId now couponCode coupon →
      r.1 = (coupon.map (s.db.discountOf service quantity userId)).getD 0 → r.2.2 = coupon →
      r.2.1 = (if r.1 ≤ 0 then .none else coupon.map (·.code)) → Q r s)
    (hE : (∀ coupon, ¬ s.db.CouponTerms service quantity userId now couponCode coupon) → ∀ e, E e s) :
    (quoteCoupon now service quantity userId couponCode (s.db.resold userId)
      (s.db.subtotal service quantity userId)).wp Q E s := by
  unfold quoteCoupon
  unfold Db.CouponTerms at h hE
  split
  · next code user hcode =>
    simp only [hcode] at h hE
    simp only [wp_bind]
    refine wp_applyCoupon (fun c hc => ?_) fun hnone => hE ?_
    · simp only [settingFloat, wp_query, wp_pure']
      exact h (.some c) _ ⟨c, rfl, hc⟩ rfl rfl rfl
    · rintro _ ⟨c, -, hc⟩
      exact hnone c hc
  · next hno =>
    refine h .none _ ?_ rfl rfl rfl
    split
    · next code user hcode => exact (hno code user hcode rfl).elim
    · rfl

/-- A quote charges the buyer's rate, less what the coupon takes off. -/
theorem wp_quoteItemized {now : Time} {couponCode : Option String} {Q : Quoted → Session → Prop}
    (hs : s.db.findService serviceId = .some service)
    (h : ∀ q : Quoted, s.db.Quotable service quantity userId now couponCode q.coupon →
      s.db.Itemizes service quantity userId q → Q q s)
    (hE : (∀ coupon, ¬ s.db.Quotable service quantity userId now couponCode coupon) → ∀ e, E e s) :
    (quoteOrder now serviceId quantity userId couponCode).wp Q E s := by
  simp only [quoteOrder, wp_bind, wp_query, hs]
  split
  · next hnone =>
    refine hE (fun coupon hq => ?_) _
    rw [Option.filter_some, if_pos hq.active] at hnone
    cases hnone
  next hs' =>
  obtain ⟨heq, hactive⟩ := Option.filter_eq_some_iff.mp hs'
  obtain rfl := Option.some.inj heq
  simp only [wp_bind, wp_require]
  split
  case isFalse hqty => exact hE (fun coupon hq => hqty (by simpa using hq.inRange)) _
  next hqty =>
  refine wp_resolveSellRate (fun r hclear hr => ?_) fun hclear => hE (fun coupon hq => hclear hq.stars) _
  simp only [findReseller, wp_query, hr]
  refine wp_quoteCoupon (fun coupon d hterms hd hcoupon hcode => ?_) fun hterms => hE fun coupon hq => hterms coupon hq.coupon
  refine h _ ⟨hactive, by simpa using hqty, hclear, ?_⟩ ⟨⟨?_, rfl, rfl, rfl, rfl⟩, rfl, ?_, ?_⟩
  · simp only [hcoupon]
    exact hterms
  · simp only [hcoupon, hd]
    rfl
  · simp only [hcoupon]
    exact hd
  · simp only [hcoupon]
    exact hcode

theorem wp_quoteOrder {now : Time} {couponCode : Option String} {Q : Quoted → Session → Prop}
    (hs : s.db.findService serviceId = .some service)
    (h : ∀ q : Quoted, s.db.Quotable service quantity userId now couponCode q.coupon →
      s.db.Quotes service quantity userId q → Q q s)
    (hE : (∀ coupon, ¬ s.db.Quotable service quantity userId now couponCode coupon) → ∀ e, E e s) :
    (quoteOrder now serviceId quantity userId couponCode).wp Q E s :=
  wp_quoteItemized hs (fun q hq hitems => h q hq hitems.toQuotes) hE

end

/-! ## When the margin is kept -/

/-- A coupon takes nothing, or leaves the margin. -/
theorem Db.discount_cases (db : Db) (service : Service) (quantity : Int) (userId : Option Int) (coupon : Option Coupon) :
    let discount := (coupon.map (db.discountOf service quantity userId)).getD 0
    discount = 0 ∨ 0 < discount ∧ max (service.floorCharge (couponMargin db (db.resold userId)) quantity) 0 ≤
      db.subtotal service quantity userId - discount := by
  cases coupon with
  | none => exact .inl rfl
  | some c => exact capDiscountToFloor_cases _ _ _

namespace Db

variable {db : Db} {service : Service} {quantity : Int} {userId : Option Int}

theorem rate_le_retailRate : service.ratePer1000Paise ≤ db.retailRate service userId :=
  le_trans marginFloor_ge_cost (le_max_right _ _)

theorem rate_le_sellRate : service.ratePer1000Paise ≤ db.sellRate service userId := by
  unfold sellRate
  split
  · exact le_trans marginFloor_ge_cost (le_max_right _ _)
  · exact rate_le_retailRate

/-- An order is charged what it costs, at least. -/
theorem cost_le_chargeFor {coupon : Option Coupon} :
    scaleToQty service.ratePer1000Paise quantity ≤ db.chargeFor service quantity userId coupon := by
  have hsubtotal : scaleToQty service.ratePer1000Paise quantity ≤ db.subtotal service quantity userId :=
    scaleToQty_mono rate_le_sellRate
  have hfloor : scaleToQty service.ratePer1000Paise quantity ≤
      service.floorCharge (couponMargin db (db.resold userId)) quantity := scaleToQty_mono marginFloor_ge_cost
  have hd := db.discount_cases service quantity userId coupon
  unfold chargeFor
  generalize (coupon.map (db.discountOf service quantity userId)).getD 0 = discount at hd
  simp only at hd
  omega

end Db

section

variable {service : Service} {serviceId : String} {userId : Option Int} {quantity : Int} {s s' : Session}

theorem Service.floorCharge_mono {m m' : Rat} (h : m ≤ m') :
    service.floorCharge m quantity ≤ service.floorCharge m' quantity := scaleToQty_mono (marginFloor_mono h)

/-- Nobody's rate is below the margin, unless it is a reseller's. -/
theorem floorCharge_le_sellRate (hr : (userId.bind s.db.resellers).filter (·.active) = .none) :
    service.floorCharge s.db.minMargin quantity ≤ scaleToQty (s.db.sellRate service userId) quantity := by
  unfold Db.sellRate
  rw [hr]
  exact scaleToQty_mono (le_max_right _ _)

/-- Where the configured margin asks for more than nothing, it asks for it on a cost. -/
theorem Service.floorCharge_le_of_nonpos {m m' : Rat} (hc : service.ratePer1000Paise ≤ 0) :
    service.floorCharge m quantity = service.floorCharge m' quantity := by
  unfold floorCharge
  rw [marginFloor_of_nonpos hc, marginFloor_of_nonpos hc]

/-- **Exactly when a quote charges at least the cost and the configured
margin**: always, but for an active reseller whose panel rate is under it,
the configured margin being above the resellers'. -/
theorem quote_covers_margin_iff {now : Time} {couponCode : Option String} {q : Quoted}
    (hs : s.db.findService serviceId = .some service)
    (h : (quoteOrder now serviceId quantity userId couponCode).run s = (.ok q, s')) :
    scaleToQty (marginFloorPer1000 service.ratePer1000Paise s.db.minMargin) quantity ≤ q.quote.chargePaise ↔
      s.db.KeepsMargin service quantity userId := by
  refine wp_ok (E := fun _ _ => True) (Q := fun (q : Quoted) _ =>
    service.floorCharge s.db.minMargin quantity ≤ q.quote.chargePaise ↔
      s.db.KeepsMargin service quantity userId) (wp_quoteOrder hs (fun q _ hq => ?_) fun _ _ => trivial) h
  have hd := s.db.discount_cases service quantity userId q.coupon
  rw [hq.charge, Db.chargeFor]
  generalize (q.coupon.map (s.db.discountOf service quantity userId)).getD 0 = discount at hd
  unfold Db.subtotal at hd ⊢
  cases hr : (userId.bind s.db.resellers).filter (·.active) with
  | none =>
    have hkeeps : s.db.KeepsMargin service quantity userId := by
      intro r hr' hactive
      rw [hr', Option.filter_some, if_pos hactive] at hr
      cases hr
    refine iff_of_true ?_ hkeeps
    have hrate : service.floorCharge s.db.minMargin quantity ≤
        scaleToQty (s.db.sellRate service userId) quantity := floorCharge_le_sellRate hr
    simp only [Db.resold, hr, couponMargin, Option.isSome_none, Bool.false_eq_true, if_false] at hd
    omega
  | some r =>
    obtain ⟨hr', hactive⟩ := Option.filter_eq_some_iff.mp hr
    have hkeeps : s.db.KeepsMargin service quantity userId ↔
        service.floorCharge s.db.minMargin quantity ≤ service.floorCharge resellerMinMarginPercent quantity ∨
        service.floorCharge s.db.minMargin quantity ≤
          scaleToQty (panelRate (s.db.retailRate service userId) r.discountBp) quantity := by
      refine ⟨fun h => h r hr' hactive, fun h r' hr'' _ => ?_⟩
      rw [hr'] at hr''
      exact Option.some.inj hr'' ▸ h
    have hrate : scaleToQty (s.db.sellRate service userId) quantity =
        max (scaleToQty (panelRate (s.db.retailRate service userId) r.discountBp) quantity)
          (service.floorCharge resellerMinMarginPercent quantity) := by
      unfold Db.sellRate
      rw [hr]
      exact scaleToQty_max
    have hmargin : service.floorCharge s.db.minMargin quantity ≤
        service.floorCharge (couponMargin s.db (s.db.resold userId)) quantity := by
      refine Service.floorCharge_mono ?_
      simp only [Db.resold, hr, couponMargin, Option.isSome_some, if_true]
      exact le_max_left _ _
    have hcost : service.floorCharge s.db.minMargin quantity ≤ service.floorCharge resellerMinMarginPercent quantity ∨
        0 ≤ service.floorCharge resellerMinMarginPercent quantity := by
      rcases le_total service.ratePer1000Paise 0 with hc | hc
      · exact .inl (Service.floorCharge_le_of_nonpos hc).le
      · exact .inr (scaleToQty_nonneg (hc.trans marginFloor_ge_cost))
    rw [hkeeps, hrate]
    rw [hrate] at hd
    omega

end

/-- A service that costs 1,000 paise, sold at the global markup, with a margin
configured; user 7 is an active reseller on the default discount. -/
def panelShop (minMarginPercent : Rat) : Db where
  resellers u := if u = 7 then .some ⟨7, 0, true⟩ else .none
  catalog := {
    services := [{
      id := "likes", categoryId := "c", providerId := "panel", providerServiceId := "1", name := "Likes"
      serviceType := .none, minQty := 10, maxQty := 10000, ratePer1000Paise := 1000, markupPercent := .none
      markupFixedPaise := .none, isActive := true, isRefillable := false, isCancelable := false
      averageTime := .none }]
    settingFloats := fun key => if key = "min_margin_percent" then .some minMarginPercent else .none }

/-- What the reseller is charged for a thousand of them, and the least that the margin allows. -/
def chargedAndFloor (db : Db) : Option (Int × Int) :=
  match (quoteOrder 0 "likes" 1000 (.some 7) .none).run { db := db }, db.findService "likes" with
  | (.ok q, _), .some service => .some (q.quote.chargePaise, service.floorCharge db.minMargin 1000)
  | _, _ => .none

theorem chargedAndFloor_eq {db : Db} {charge floor : Int} (h : chargedAndFloor db = .some (charge, floor)) :
    ∃ service q s', db.findService "likes" = .some service ∧
      (quoteOrder 0 "likes" 1000 (.some 7) .none).run { db := db } = (.ok q, s') ∧
      q.quote.chargePaise = charge ∧ service.floorCharge db.minMargin 1000 = floor := by
  unfold chargedAndFloor at h
  split at h
  · next q s' service hrun hservice =>
    simp only [Option.some.injEq, Prod.mk.injEq] at h
    exact ⟨service, q, s', hservice, hrun, h.1, h.2⟩
  · cases h

theorem quote_covers_margin_of_panel :
    ∃ service q s', (panelShop 5).findService "likes" = .some service ∧
      (quoteOrder 0 "likes" 1000 (.some 7) .none).run { db := panelShop 5 } = (.ok q, s') ∧
      q.quote.chargePaise = 1100 ∧ (panelShop 5).KeepsMargin service 1000 (.some 7) := by
  obtain ⟨service, q, s', hservice, hrun, hcharge, hfloor⟩ :=
    chargedAndFloor_eq (show chargedAndFloor (panelShop 5) = .some (1100, 1050) by decide +kernel)
  refine ⟨service, q, s', hservice, hrun, hcharge, (quote_covers_margin_iff hservice hrun).mp ?_⟩
  rw [hcharge]
  exact hfloor.trans_le (by decide)

/-- With 20% configured, a reseller buys at 10%. -/
theorem resold_below_margin :
    ∃ service q s', (panelShop 20).findService "likes" = .some service ∧
      (quoteOrder 0 "likes" 1000 (.some 7) .none).run { db := panelShop 20 } = (.ok q, s') ∧
      ¬ scaleToQty (marginFloorPer1000 service.ratePer1000Paise (panelShop 20).minMargin) 1000 ≤
        q.quote.chargePaise := by
  obtain ⟨service, q, s', hservice, hrun, hcharge, hfloor⟩ :=
    chargedAndFloor_eq (show chargedAndFloor (panelShop 20) = .some (1100, 1200) by decide +kernel)
  refine ⟨service, q, s', hservice, hrun, fun hle => ?_⟩
  have hlt : service.floorCharge (panelShop 20).minMargin 1000 ≤ q.quote.chargePaise := hle
  rw [hcharge, hfloor] at hlt
  exact absurd hlt (by decide)

end Falaron
