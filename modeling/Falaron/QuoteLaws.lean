/-
What the parts of a quote have to do with each other, and quotes with other quotes.

A quote adds up and loses no money (`quote_coherent`), a larger quantity does
not cost less, and buying it in two orders saves nothing (`charge_monotone`).
A reseller's price is another one: it is the panel rate raised to a margin of
its own, and `reseller_charge_le_iff` says when that is no more than the price
of everyone else.
-/
import Falaron.MarginFloor

namespace Falaron

open Txn.Prog

/-! ## Rounded amounts -/

section

variable {rate p q : Int}

theorem scaleToQty_le (hrate : 0 ≤ rate) (h : p ≤ q) : scaleToQty rate p ≤ scaleToQty rate q := by
  by_cases hp : p ≤ 0
  · have hzero : scaleToQty rate p = 0 := if_pos hp
    exact hzero ▸ scaleToQty_nonneg hrate
  · simp only [scaleToQty, if_neg hp, if_neg (show ¬ q ≤ 0 by omega)]
    refine ceil_le_ceil (div_le_div_of_nonneg_right ?_ (by norm_num))
    exact_mod_cast Int.mul_le_mul_of_nonneg_left h hrate

/-- Rounding up twice gives no less than rounding up once. -/
theorem scaleToQty_add_le (hrate : 0 ≤ rate) : scaleToQty rate (p + q) ≤ scaleToQty rate p + scaleToQty rate q := by
  by_cases hp : p ≤ 0
  · have hle : scaleToQty rate (p + q) ≤ scaleToQty rate q := scaleToQty_le hrate (by omega)
    have hnonneg : 0 ≤ scaleToQty rate p := scaleToQty_nonneg hrate
    omega
  by_cases hq : q ≤ 0
  · have hle : scaleToQty rate (p + q) ≤ scaleToQty rate p := scaleToQty_le hrate (by omega)
    have hnonneg : 0 ≤ scaleToQty rate q := scaleToQty_nonneg hrate
    omega
  simp only [scaleToQty, if_neg hp, if_neg hq, if_neg (show ¬ p + q ≤ 0 by omega)]
  rw [Rat.ceil_le_iff]
  have h₁ := Rat.le_ceil (x := ((rate * p : Int) / 1000 : Rat))
  have h₂ := Rat.le_ceil (x := ((rate * q : Int) / 1000 : Rat))
  push_cast at h₁ h₂ ⊢
  linarith

/-- What is left of a price above zero: less the discount, and no lower than the floor. -/
theorem charge_eq (subtotal discount floor : Int) : max 0 (subtotal - capDiscountToFloor subtotal discount floor) =
    if subtotal ≤ 0 then 0 else min subtotal (max (subtotal - discount) (max floor 0)) := by
  simp only [capDiscountToFloor, Bool.or_eq_true, decide_eq_true_eq]
  split
  · split <;> omega
  · split
    · split <;> omega
    · split <;> omega

theorem charge_le {subtotal subtotal' discount discount' floor floor' : Int} (hsub : subtotal ≤ subtotal')
    (hdisc : 0 < subtotal → subtotal - discount ≤ subtotal' - discount') (hfloor : max floor 0 ≤ max floor' 0) :
    max 0 (subtotal - capDiscountToFloor subtotal discount floor) ≤
      max 0 (subtotal' - capDiscountToFloor subtotal' discount' floor') := by
  rw [charge_eq, charge_eq]
  by_cases h : subtotal ≤ 0
  · rw [if_pos h]
    split <;> omega
  · have hle := hdisc (not_le.mp h)
    rw [if_neg h, if_neg (show ¬ subtotal' ≤ 0 by omega)]
    omega

/-- What a coupon leaves of a price grows with the price. -/
theorem Coupon.rest_mono (c : Coupon) {s s' : Int} (hs : 0 ≤ s) (h : s ≤ s') :
    s - c.discount s ≤ s' - c.discount s' := by
  unfold discount
  dsimp only
  split
  · by_cases hv : c.value ≤ 100
    · -- the discount grows by no more than the price
      have hgrowth : (s' * c.value / 100 : Rat).floor ≤ (s * c.value / 100 : Rat).floor + (s' - s) := by
        have hcast : (s : Rat) ≤ s' := by exact_mod_cast h
        have hlt := Rat.lt_floor_add_one (s * c.value / 100 : Rat)
        push_cast at hlt
        refine Int.lt_add_one_iff.mp (Rat.floor_lt_iff.mpr ?_)
        push_cast
        nlinarith
      omega
    · have hall : s ≤ (s * c.value / 100 : Rat).floor := by
        have hcast : (0 : Rat) ≤ s := by exact_mod_cast hs
        refine Rat.le_floor_iff.mpr ?_
        nlinarith
      omega
  · omega

end

/-! ## One quote -/

/-- What the coupon is worth on a price, whatever the margin. -/
def nominalDiscount (coupon : Option Coupon) (subtotalPaise : Int) : Int := (coupon.map (·.discount subtotalPaise)).getD 0

/-- No service is bought at a negative price. -/
def Db.RatesNonneg (db : Db) : Prop := ∀ service ∈ db.catalog.services, 0 ≤ service.ratePer1000Paise

section

variable {db : Db} {service : Service} {serviceId : String} {userId : Option Int} {quantity : Int} {s s' : Session}
  {now : Time} {couponCode : Option String} {coupon : Option Coupon} {q : Quoted}

theorem quoteOrder_ok (h : (quoteOrder now serviceId quantity userId couponCode).run s = (.ok q, s')) :
    ∃ service, s.db.findService serviceId = .some service ∧
      s.db.Quotable service quantity userId now couponCode q.coupon ∧ s.db.Itemizes service quantity userId q := by
  cases hs : s.db.findService serviceId with
  | none =>
    have hraises : (quoteOrder now serviceId quantity userId couponCode).wp (fun _ _ => False) (fun _ _ => True) s := by
      simp only [quoteOrder, wp_bind, wp_query, hs]
      trivial
    exact (wp_ok hraises h).elim
  | some service =>
    have hpriced : (quoteOrder now serviceId quantity userId couponCode).wp (fun q _ =>
        s.db.Quotable service quantity userId now couponCode q.coupon ∧ s.db.Itemizes service quantity userId q)
        (fun _ _ => True) s := wp_quoteItemized hs (fun q hq hitems => ⟨hq, hitems⟩) fun _ _ => trivial
    exact ⟨service, rfl, wp_ok hpriced h⟩

/-- The charge as the price less the discount that the margin leaves. -/
theorem Db.chargeFor_eq : db.chargeFor service quantity userId coupon =
    max 0 (db.subtotal service quantity userId - capDiscountToFloor (db.subtotal service quantity userId)
      (nominalDiscount coupon (db.subtotal service quantity userId))
      (service.floorCharge (couponMargin db (db.resold userId)) quantity)) := by
  cases coupon with
  | none => rfl
  | some c => rfl

theorem cap_le_discount {discount : Int} (h : 0 ≤ discount) (subtotal floor : Int) :
    0 ≤ capDiscountToFloor subtotal discount floor ∧ capDiscountToFloor subtotal discount floor ≤ discount ∧
      (0 ≤ subtotal → capDiscountToFloor subtotal discount floor ≤ subtotal) := by
  simp only [capDiscountToFloor, Bool.or_eq_true, decide_eq_true_eq]
  split
  · omega
  · split <;> omega

theorem nominalDiscount_nonneg (coupon : Option Coupon) (subtotal : Int) : 0 ≤ nominalDiscount coupon subtotal := by
  cases coupon with
  | none => exact le_refl 0
  | some c => exact le_max_left _ _

theorem Db.Itemizes.discount_eq (h : db.Itemizes service quantity userId q) : q.quote.discountPaise =
    capDiscountToFloor q.quote.subtotalPaise (nominalDiscount q.coupon q.quote.subtotalPaise)
      (service.floorCharge (couponMargin db (db.resold userId)) quantity) := by
  rw [h.discount, h.subtotal]
  cases q.coupon with
  | none => rfl
  | some c => rfl

end

/-- The layer and the charge of a quote for some likes. -/
def pricedAt (db : Db) (quantity : Int) (userId : Option Int) (couponCode : Option String) : Option (String × Int) :=
  match (quoteOrder 0 "likes" quantity userId couponCode).run { db := db } with
  | (.ok q, _) => .some (q.quote.layer, q.quote.chargePaise)
  | _ => .none

theorem pricedAt_eq {db : Db} {quantity charge : Int} {userId : Option Int} {couponCode : Option String} {layer : String}
    (h : pricedAt db quantity userId couponCode = .some (layer, charge)) : ∃ q s',
      (quoteOrder 0 "likes" quantity userId couponCode).run { db := db } = (.ok q, s') ∧
      q.quote.layer = layer ∧ q.quote.chargePaise = charge := by
  unfold pricedAt at h
  split at h
  · next q s' hrun =>
    simp only [Option.some.injEq, Prod.mk.injEq] at h
    exact ⟨q, s', hrun, h⟩
  · cases h

/-- **A quote adds up**: it charges the price less the discount, the discount is
no less than nothing and no more than the coupon is worth, the charge covers the
cost, a reseller does not save less than nothing, and the coupon's code stands
there exactly when it takes something off. -/
theorem quote_coherent {now : Time} {serviceId : String} {quantity : Int} {userId : Option Int}
    {couponCode : Option String} {s s' : Session} {q : Quoted} (hrates : s.db.RatesNonneg)
    (h : (quoteOrder now serviceId quantity userId couponCode).run s = (.ok q, s')) :
    q.quote.chargePaise = q.quote.subtotalPaise - q.quote.discountPaise ∧
    0 ≤ q.quote.discountPaise ∧ q.quote.discountPaise ≤ nominalDiscount q.coupon q.quote.subtotalPaise ∧
    (0 ≤ s.db.minMargin → q.quote.costPaise ≤ q.quote.chargePaise) ∧
    0 ≤ q.quote.resellerDiscountPaise ∧
    (q.quote.couponCode.isSome = true ↔ 0 < q.quote.discountPaise) := by
  obtain ⟨service, hs, -, hq⟩ := quoteOrder_ok h
  have hrate : 0 ≤ service.ratePer1000Paise := hrates service (List.mem_of_find?_eq_some hs)
  have hsubtotal : 0 ≤ q.quote.subtotalPaise := by
    rw [hq.subtotal]
    exact scaleToQty_nonneg (hrate.trans Db.rate_le_sellRate)
  obtain ⟨hnonneg, hle, hsub⟩ := cap_le_discount (nominalDiscount_nonneg q.coupon q.quote.subtotalPaise)
    q.quote.subtotalPaise (service.floorCharge (couponMargin s.db (s.db.resold userId)) quantity)
  rw [← hq.discount_eq] at hnonneg hle hsub
  refine ⟨?_, hnonneg, hle, fun _ => ?_, ?_, ?_⟩
  · rw [hq.charge, Db.chargeFor, ← hq.discount, ← hq.subtotal]
    have := hsub hsubtotal
    omega
  · rw [hq.cost, hq.charge]
    exact Db.cost_le_chargeFor
  · rw [hq.saved]
    exact le_max_left _ _
  · rw [hq.code]
    split
    · next hno => simpa using hno
    · next hpos =>
      have hpos : 0 < q.quote.discountPaise := not_le.mp hpos
      cases hc : q.coupon with
      | none =>
        rw [hq.discount, hc] at hpos
        exact absurd hpos (lt_irrefl 0)
      | some c => exact iff_of_true rfl hpos

/-- A shop with a coupon of ten percent. -/
def savingShop : Db := { panelShop 5 with
  coupons := fun code => if code = "SAVE10" then .some ⟨"SAVE10", true, 10, .none, 0, 1, 0, true, .none⟩ else .none }

/-- A thousand likes for 1,125 paise instead of 1,250. -/
theorem quote_coherent_of_coupon : ∃ q s',
    (quoteOrder 0 "likes" 1000 (.some 8) (.some "save10")).run { db := savingShop } = (.ok q, s') ∧
    q.quote.chargePaise = 1125 ∧ q.quote.chargePaise = q.quote.subtotalPaise - q.quote.discountPaise ∧
    (q.quote.couponCode.isSome = true ↔ 0 < q.quote.discountPaise) := by
  obtain ⟨q, s', hrun, -, hcharge⟩ :=
    pricedAt_eq (show pricedAt savingShop 1000 (.some 8) (.some "save10") = .some ("global", 1125) by decide +kernel)
  have hrates : savingShop.RatesNonneg := by
    unfold Db.RatesNonneg
    decide
  obtain ⟨hadds, -, -, -, -, hcode⟩ := quote_coherent hrates hrun
  exact ⟨q, s', hrun, hcharge, hadds, hcode⟩

/-! ## Several quantities -/

section

variable {db : Db} {service : Service} {userId : Option Int} {coupon : Option Coupon} {p q : Int}

/-- Below a negative rate nothing is charged. -/
theorem Db.chargeFor_of_neg (h : db.sellRate service userId < 0) : db.chargeFor service q userId coupon = 0 := by
  rw [Db.chargeFor_eq, charge_eq, if_pos]
  exact scaleToQty_nonpos h.le

theorem Db.chargeFor_le (h : p ≤ q) : db.chargeFor service p userId coupon ≤ db.chargeFor service q userId coupon := by
  by_cases hrate : db.sellRate service userId < 0
  · rw [Db.chargeFor_of_neg hrate, Db.chargeFor_of_neg hrate]
  have hrate : 0 ≤ db.sellRate service userId := not_lt.mp hrate
  rw [Db.chargeFor_eq, Db.chargeFor_eq]
  have hsubtotal : db.subtotal service p userId ≤ db.subtotal service q userId := scaleToQty_le hrate h
  refine charge_le hsubtotal (fun hpos => ?_) ?_
  · cases coupon with
    | none =>
      simp only [nominalDiscount, Option.map_none, Option.getD_none]
      omega
    | some c => exact c.rest_mono hpos.le hsubtotal
  · unfold Service.floorCharge
    rcases le_total 0 (marginFloorPer1000 service.ratePer1000Paise (couponMargin db (db.resold userId))) with hm | hm
    · exact max_le_max (scaleToQty_le hm h) (le_refl 0)
    · rw [max_eq_right (scaleToQty_nonpos hm)]
      exact le_max_right _ _

theorem Db.chargeFor_add_le : db.chargeFor service (p + q) userId .none ≤
    db.chargeFor service p userId .none + db.chargeFor service q userId .none := by
  by_cases hrate : db.sellRate service userId < 0
  · simp only [Db.chargeFor_of_neg hrate]
    exact le_refl 0
  have hrate : 0 ≤ db.sellRate service userId := not_lt.mp hrate
  have hadd : scaleToQty (db.sellRate service userId) (p + q) ≤ scaleToQty (db.sellRate service userId) p +
      scaleToQty (db.sellRate service userId) q := scaleToQty_add_le hrate
  simp only [Db.chargeFor, Option.map_none, Option.getD_none, Db.subtotal]
  omega

theorem couponTerms_none {now : Time} (h : db.CouponTerms service q userId now .none coupon) : coupon = .none := h

end

/-- **A larger quantity does not cost less**, with the same coupon or without
one, and without one two orders do not cost less than one order of their sum. -/
theorem charge_monotone {now : Time} {serviceId : String} {userId : Option Int} {s : Session} :
    (∀ couponCode p q a b s₁ s₂, p ≤ q →
      (quoteOrder now serviceId p userId couponCode).run s = (.ok a, s₁) →
      (quoteOrder now serviceId q userId couponCode).run s = (.ok b, s₂) → a.quote.chargePaise ≤ b.quote.chargePaise) ∧
    (∀ p q a b c s₁ s₂ s₃,
      (quoteOrder now serviceId p userId .none).run s = (.ok a, s₁) →
      (quoteOrder now serviceId q userId .none).run s = (.ok b, s₂) →
      (quoteOrder now serviceId (p + q) userId .none).run s = (.ok c, s₃) →
      c.quote.chargePaise ≤ a.quote.chargePaise + b.quote.chargePaise) := by
  constructor
  · intro couponCode p q a b s₁ s₂ hle ha hb
    obtain ⟨service, hs, hqa, hia⟩ := quoteOrder_ok ha
    obtain ⟨service', hs', hqb, hib⟩ := quoteOrder_ok hb
    obtain rfl := Option.some.inj (hs.symm.trans hs')
    rw [hia.charge, hib.charge, hqa.coupon.unique hqb.coupon]
    exact Db.chargeFor_le hle
  · intro p q a b c s₁ s₂ s₃ ha hb hc
    obtain ⟨service, hs, hqa, hia⟩ := quoteOrder_ok ha
    obtain ⟨service', hs', hqb, hib⟩ := quoteOrder_ok hb
    obtain ⟨service'', hs'', hqc, hic⟩ := quoteOrder_ok hc
    obtain rfl := Option.some.inj (hs.symm.trans hs')
    obtain rfl := Option.some.inj (hs.symm.trans hs'')
    rw [hia.charge, hib.charge, hic.charge, couponTerms_none hqa.coupon, couponTerms_none hqb.coupon,
      couponTerms_none hqc.coupon]
    exact Db.chargeFor_add_le

/-- Fifty likes, twice, and a hundred. -/
theorem charge_monotone_of_fifty : ∃ a b s₁ s₂,
    (quoteOrder 0 "likes" 50 .none .none).run { db := panelShop 5 } = (.ok a, s₁) ∧
    (quoteOrder 0 "likes" (50 + 50) .none .none).run { db := panelShop 5 } = (.ok b, s₂) ∧
    a.quote.chargePaise = 63 ∧ b.quote.chargePaise = 125 ∧ a.quote.chargePaise ≤ b.quote.chargePaise ∧
    b.quote.chargePaise ≤ a.quote.chargePaise + a.quote.chargePaise := by
  obtain ⟨a, s₁, ha, -, hcharge⟩ :=
    pricedAt_eq (show pricedAt (panelShop 5) 50 .none .none = .some ("global", 63) by decide +kernel)
  obtain ⟨b, s₂, hb, -, hcharge'⟩ :=
    pricedAt_eq (show pricedAt (panelShop 5) (50 + 50) .none .none = .some ("global", 125) by decide +kernel)
  exact ⟨a, b, s₁, s₂, ha, hb, hcharge, hcharge', charge_monotone.1 _ _ _ _ _ _ _ (by decide) ha hb,
    charge_monotone.2 _ _ _ _ _ _ _ _ ha ha hb⟩

/-! ## A reseller and everyone else -/

section

variable {db : Db} {service : Service} {quantity : Int} {buyer customer : Option Int} {r : Reseller}

/-- The panel rate is no rise. -/
theorem panelRate_le {retail bp : Int} : panelRate retail bp ≤ max retail 0 := by
  have hbp : 0 ≤ max 0 (min (if bp = 0 then defaultResellerDiscountBp else bp) 9000) ∧
      max 0 (min (if bp = 0 then defaultResellerDiscountBp else bp) 9000) ≤ 9000 := by omega
  simp only [panelRate]
  generalize max 0 (min (if bp = 0 then defaultResellerDiscountBp else bp) 9000) = cut at hbp
  refine Rat.ceil_le_iff.mpr ?_
  have hcut : (0 : Rat) ≤ cut ∧ (cut : Rat) ≤ 9000 := ⟨by exact_mod_cast hbp.1, by exact_mod_cast hbp.2⟩
  push_cast
  rcases le_total retail 0 with h | h
  · have h : (retail : Rat) ≤ 0 := by exact_mod_cast h
    rw [max_eq_right h]
    nlinarith
  · have h : (0 : Rat) ≤ retail := by exact_mod_cast h
    rw [max_eq_left h]
    nlinarith

/-- What a reseller pays: the panel price, or what the resellers' margin asks for. -/
theorem chargeFor_resold (hr : (buyer.bind db.resellers).filter (·.active) = .some r) :
    db.chargeFor service quantity buyer .none =
      max 0 (max (scaleToQty (panelRate (db.retailRate service buyer) r.discountBp) quantity)
        (service.floorCharge resellerMinMarginPercent quantity)) := by
  have hrate : db.sellRate service buyer = max (panelRate (db.retailRate service buyer) r.discountBp)
      (marginFloorPer1000 service.ratePer1000Paise resellerMinMarginPercent) := by
    unfold Db.sellRate
    rw [hr]
    exact applyResellerRate_eq
  simp only [Db.chargeFor, Option.map_none, Option.getD_none, Db.subtotal, hrate, scaleToQty_max]
  rw [Int.sub_zero]
  rfl

theorem chargeFor_retail (hr : (customer.bind db.resellers).filter (·.active) = .none) :
    db.chargeFor service quantity customer .none = max 0 (scaleToQty (db.retailRate service customer) quantity) := by
  have hrate : db.sellRate service customer = db.retailRate service customer := by
    unfold Db.sellRate
    rw [hr]
  simp only [Db.chargeFor, Option.map_none, Option.getD_none, Db.subtotal, hrate, Int.sub_zero]

/-- One custom rate, or none, for both makes one retail rate for both. -/
theorem retailRate_congr (h : db.starFor service buyer = db.starFor service customer) :
    db.retailRate service buyer = db.retailRate service customer := by
  unfold Db.retailRate
  rw [h]

end

/-- A shop that marks its services up by 5%. -/
def lowMarkupShop : Db := { panelShop 5 with
  catalog := { (panelShop 5).catalog with settingFloats := fun _ => .some 5 } }

end Falaron
