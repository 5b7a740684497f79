/-
What the discounts may do to a price of the second system, and what rounding
may do to its cost.

A price comes from a cost, a markup and a least margin, and is then discounted
three times, each time down to the floor that the margin gives. The price
before the discounts is not held against the floor, so a discount may raise
it: `discounts_lower_iff` says when none does. Floor and price are rounded to
the paisa, half to even, and the cost is not: `never_below_cost_iff`.
-/
import Falaron.OrderPricing
import Falaron.Py.DecimalOrder

namespace Falaron.Core

open Py (Decimal)
open Py.Decimal (kept atPlaces Exact)

/-! ## Sales -/

/-- What the prices of a sale depend on besides its discounts. -/
structure Sale where
  usdToInr : Decimal
  db : Db
  pricing : ServicePricing
  quantity : Int
  /-- `NUMERIC(18, 6)` -/
  providerRate : Int
  currency : String

structure Discounts where
  premiumPct : Option Decimal := none
  resellerPct : Option Decimal := none
  couponFlat : Option Decimal := none

/-- `if discount and discount > 0` -/
def given (discount : Option Decimal) : Bool := discount.any fun d => 0 < d.coeff

/-- One discount or more is added, the others are as they were. -/
structure Discounts.Adds (d d' : Discounts) : Prop where
  premium : d'.premiumPct = d.premiumPct ∨ given d.premiumPct = false
  reseller : d'.resellerPct = d.resellerPct ∨ given d.resellerPct = false
  coupon : d'.couponFlat = d.couponFlat ∨ given d.couponFlat = false

namespace Sale

variable (s : Sale)

/-- `calculate_price` -/
def price (d : Discounts) : Except Err PriceBreakdown :=
  calculatePrice s.usdToInr s.db s.pricing s.quantity s.providerRate s.currency d.resellerPct d.couponFlat d.premiumPct

/-- `1 + pct / 100` -/
def raising (pct : Decimal) : Rat := kept (1 + kept (pct.val / 100))

/-- The cost of a thousand. -/
def costOfThousand : Rat :=
  if Text.upper s.currency = "USD" then atPlaces 4 (kept ((Decimal.ofNumeric 6 s.providerRate).val * s.usdToInr.val))
  else atPlaces 4 (Decimal.ofNumeric 6 s.providerRate).val

def cost : Rat := atPlaces 4 (kept (kept (s.costOfThousand * s.quantity) / 1000))

/-- The price at this markup. -/
def markedUp (markup : Decimal) : Rat :=
  atPlaces 2 (kept (kept (atPlaces 4 (kept (s.costOfThousand * raising markup)) * s.quantity) / 1000))

/-- The least price at this margin. -/
def leastAt (minMargin : Decimal) : Rat := atPlaces 2 (kept (s.cost * raising minMargin))

/-- No price is below the floor or above the standard price, and no discount raises one. -/
def DiscountsLower : Prop :=
  ∀ d r, s.price d = .ok r → r.floorPrice.val ≤ r.customerPrice.val ∧ r.customerPrice.val ≤ r.standardPrice.val ∧
    ∀ d' r', d.Adds d' → s.price d' = .ok r' → r'.customerPrice.val ≤ r.customerPrice.val

/-- No price is below the cost. -/
def NeverBelowCost : Prop := ∀ d r, s.price d = .ok r → r.providerCostInr.val ≤ r.customerPrice.val

end Sale

/-! ## The terms of a sale -/

/-- What is computed before the discounts. -/
structure Terms where
  costOfThousand : Decimal
  cost : Decimal
  markup : Decimal
  minMargin : Decimal
  scope : String
  standardOfThousand : Decimal
  standard : Decimal
  floor : Decimal

/-- These are the terms of the sale, which is not at a custom price. -/
structure Sale.Has (s : Sale) (t : Terms) : Prop where
  quantity : ¬ s.quantity ≤ 0
  costOfThousand : costPer1000 s.usdToInr (.ofNumeric 6 s.providerRate) s.currency = .ok t.costOfThousand
  cost : forQuantity 4 t.costOfThousand s.quantity = .ok t.cost
  custom : s.pricing.customPrice.filter (0 < ·) = none
  markup : resolveMarkup s.db s.pricing = .ok (t.markup, t.minMargin, t.scope)
  standardOfThousand : quantized 4 (t.costOfThousand.mul (raisedBy t.markup)).val = .ok t.standardOfThousand
  standard : forQuantity 2 t.standardOfThousand s.quantity = .ok t.standard
  floor : quantized 2 (t.cost.mul (raisedBy t.minMargin)).val = .ok t.floor

/-- The three discounts in turn, and what each of them was: capped or not. -/
def discounted (floor standard : Decimal) (d : Discounts) : Except Err (Decimal × Bool × Bool × Bool) := do
  let (price, premiumCapped) ← percentOff floor standard d.premiumPct
  let (price, resellerCapped) ← percentOff floor price d.resellerPct
  let (price, couponCapped) ← flatOff floor price d.couponFlat
  pure (price, premiumCapped, resellerCapped, couponCapped)

def Terms.breakdown (t : Terms) : Decimal × Bool × Bool × Bool → PriceBreakdown
  | (price, premiumCapped, resellerCapped, couponCapped) => {
      customerPrice := price
      providerCostInr := t.cost
      floorPrice := t.floor
      appliedPct := t.markup
      resellerCapped := resellerCapped
      couponCapped := couponCapped
      premiumCapped := premiumCapped
      standardPrice := t.standard }

section

variable {s : Sale} {d : Discounts} {r : PriceBreakdown} {t : Terms}

theorem Sale.Has.price (h : s.Has t) (d : Discounts) :
    s.price d = (discounted t.floor t.standard d).map t.breakdown := by
  unfold Sale.price calculatePrice
  simp only [if_neg h.quantity, h.costOfThousand, h.cost, h.custom, h.markup, h.standardOfThousand, h.standard, h.floor,
    bind, Except.bind, discounted]
  cases percentOff t.floor t.standard d.premiumPct with
  | error e => rfl
  | ok x =>
    dsimp only
    cases percentOff t.floor x.1 d.resellerPct with
    | error e => rfl
    | ok y =>
      dsimp only
      cases flatOff t.floor y.1 d.couponFlat with
      | error e => rfl
      | ok z => rfl

/-- A price that is not a custom one has its terms. -/
theorem Sale.has_of_price (h : s.price d = .ok r) (hcustom : r.customPriceUsed = false) : ∃ t, s.Has t := by
  unfold Sale.price calculatePrice at h
  by_cases hq : s.quantity ≤ 0
  · simp only [if_pos hq] at h
    cases h
  simp only [if_neg hq, bind, Except.bind, pure, Except.pure] at h
  cases hthousand : costPer1000 s.usdToInr (.ofNumeric 6 s.providerRate) s.currency with
  | error e => simp [hthousand] at h
  | ok costOfThousand =>
  cases hcost : forQuantity 4 costOfThousand s.quantity with
  | error e => simp [hthousand, hcost] at h
  | ok cost =>
  simp only [hthousand, hcost] at h
  cases hfilter : s.pricing.customPrice.filter (0 < ·) with
  | some custom =>
    -- The price is a custom one.
    simp only [hfilter] at h
    split at h
    · cases h
    split at h
    · cases h
    · cases h
      cases hcustom
  | none =>
  simp only [hfilter] at h
  cases hmarkup : resolveMarkup s.db s.pricing with
  | error e => simp [hmarkup] at h
  | ok rule =>
  obtain ⟨markup, minMargin, scope⟩ := rule
  simp only [hmarkup] at h
  cases hraised : quantized 4 (costOfThousand.mul (raisedBy markup)).val with
  | error e => simp [hraised] at h
  | ok standardOfThousand =>
  simp only [hraised] at h
  cases hstandard : forQuantity 2 standardOfThousand s.quantity with
  | error e => simp [hstandard] at h
  | ok standard =>
  simp only [hstandard] at h
  cases hfloor : quantized 2 (cost.mul (raisedBy minMargin)).val with
  | error e => simp [hfloor] at h
  | ok floor =>
    exact ⟨⟨costOfThousand, cost, markup, minMargin, scope, standardOfThousand, standard, floor⟩,
      hq, hthousand, hcost, hfilter, hmarkup, hraised, hstandard, hfloor⟩

/-! ## The values of the terms -/

/-- An amount in paise that the context holds. -/
structure OnPaise (d : Decimal) : Prop where
  exp : d.exp = -2
  digits : d.coeff.natAbs < 10 ^ Decimal.prec

theorem OnPaise.exact {d : Decimal} (h : OnPaise d) : Exact d.val := ⟨d.coeff, d.exp, h.digits, rfl⟩

theorem OnPaise.val {d : Decimal} (h : OnPaise d) : d.val = d.coeff / 10 ^ 2 := by
  rw [Decimal.val, h.exp, zpow_neg, div_eq_mul_inv]
  rfl

theorem OnPaise.atPlaces {d : Decimal} (h : OnPaise d) : atPlaces 2 d.val = d.val := by
  rw [h.val, Decimal.atPlaces_int]

theorem quantized_ok {places : Nat} {x : Rat} {d : Decimal} (h : quantized places x = .ok d) :
    d.val = atPlaces places x ∧ d.exp = -places ∧ d.coeff.natAbs < 10 ^ Decimal.prec := by
  unfold quantized at h
  split at h
  · next q hq =>
    cases h
    exact Decimal.val_quantize hq
  · cases h

theorem onPaise_of_quantized {x : Rat} {d : Decimal} (h : quantized 2 x = .ok d) : OnPaise d :=
  ⟨(quantized_ok h).2.1, (quantized_ok h).2.2⟩

theorem val_whole (n : Int) : (Decimal.mk n 0).val = n := by simp [Decimal.val]

theorem val_raisedBy (pct : Decimal) : (raisedBy pct).val = Sale.raising pct := by
  have hdiv : (pct.div ⟨100, 0⟩).val = kept (pct.val / 100) := by
    rw [show pct.val / 100 = pct.val / (Decimal.mk 100 0).val by rw [val_whole]; norm_num]
    rfl
  rw [raisedBy, Decimal.add, Decimal.val_fix_eq, Decimal.val_plus, val_whole, hdiv, Sale.raising]
  norm_num

/-- `1 - pct / 100` -/
def lowering (pct : Decimal) : Rat := kept (1 - kept (pct.val / 100))

theorem val_loweredBy (pct : Decimal) : (loweredBy pct).val = lowering pct := by
  have hdiv : (pct.div ⟨100, 0⟩).val = kept (pct.val / 100) := by
    rw [show pct.val / 100 = pct.val / (Decimal.mk 100 0).val by rw [val_whole]; norm_num]
    rfl
  rw [loweredBy, Decimal.sub, Decimal.add, Decimal.val_fix_eq, Decimal.val_plus, Decimal.val_neg, val_whole, hdiv,
    lowering, sub_eq_add_neg]
  norm_num

theorem forQuantity_ok {places : Nat} {per1000 d : Decimal} {quantity : Int}
    (h : forQuantity places per1000 quantity = .ok d) :
    d.val = atPlaces places (kept (kept (per1000.val * quantity) / 1000)) := by
  rw [(quantized_ok h).1]
  have hdiv : ((per1000.mul ⟨quantity, 0⟩).div ⟨1000, 0⟩).val =
      kept (kept (per1000.val * (Decimal.mk quantity 0).val) / (Decimal.mk 1000 0).val) := rfl
  rw [hdiv, val_whole, val_whole]
  norm_num

namespace Sale.Has

variable (h : s.Has t)

include h

theorem costOfThousand_val : t.costOfThousand.val = s.costOfThousand := by
  have hcost := h.costOfThousand
  unfold costPer1000 at hcost
  unfold Sale.costOfThousand
  split at hcost
  · next husd =>
    rw [if_pos husd]
    exact (quantized_ok hcost).1
  · next hother =>
    rw [if_neg hother]
    exact (quantized_ok hcost).1

theorem cost_val : t.cost.val = s.cost := by
  rw [forQuantity_ok h.cost, h.costOfThousand_val, Sale.cost]

theorem standard_val : t.standard.val = s.markedUp t.markup := by
  have hraised : t.standardOfThousand.val = atPlaces 4 (kept (s.costOfThousand * Sale.raising t.markup)) := by
    rw [(quantized_ok h.standardOfThousand).1, ← h.costOfThousand_val, ← val_raisedBy]
    rfl
  rw [forQuantity_ok h.standard, hraised, Sale.markedUp]

theorem floor_val : t.floor.val = s.leastAt t.minMargin := by
  rw [(quantized_ok h.floor).1, Sale.leastAt, ← h.cost_val, ← val_raisedBy]
  rfl

theorem standard_onPaise : OnPaise t.standard := onPaise_of_quantized h.standard

theorem floor_onPaise : OnPaise t.floor := onPaise_of_quantized h.floor

end Sale.Has

/-! ## One discount -/

/-- What a discount leaves of a price that it lowers like this: what it comes
to in paise, or the floor. -/
def taken (lowered : Decimal → Rat → Rat) (floor : Rat) (discount : Option Decimal) (price : Rat) : Rat :=
  match discount.filter (0 < ·.coeff) with
  | none => price
  | some d => max floor (atPlaces 2 (kept (lowered d price)))

def percentLowered (pct : Decimal) (price : Rat) : Rat := price * lowering pct

def flatLowered (flat : Decimal) (price : Rat) : Rat := price - flat.val

/-- A discount lowers a price, and the lower of two prices more than the
other one or below zero. -/
structure Lowers (lowered : Decimal → Rat → Rat) : Prop where
  le_self : ∀ {d x}, 0 < d.coeff → 0 ≤ x → lowered d x ≤ x
  mono : ∀ {d x y}, 0 < d.coeff → 0 ≤ x → x ≤ y → lowered d x ≤ lowered d y ∨ lowered d x ≤ 0

theorem lowering_le {pct : Decimal} (h : 0 < pct.coeff) : lowering pct ≤ 1 := by
  have hone : Exact 1 := ⟨1, 0, by decide, by norm_num⟩
  have hpct : 0 ≤ kept (pct.val / 100) :=
    Decimal.kept_nonneg (div_nonneg (Decimal.val_nonneg.mpr h.le) (by norm_num))
  exact Decimal.kept_le hone (by norm_num) (by linarith)

theorem lowers_percent : Lowers percentLowered where
  le_self {pct x} hpct hx := by
    have hlow := lowering_le hpct
    unfold percentLowered
    nlinarith
  mono {pct x y} hpct hx hxy := by
    rcases le_total 0 (lowering pct) with hpos | hneg
    · exact .inl (mul_le_mul_of_nonneg_right hxy hpos)
    · exact .inr (mul_nonpos_of_nonneg_of_nonpos hx hneg)

theorem lowers_flat : Lowers flatLowered where
  le_self {flat x} hflat _ := by
    have hpos := Decimal.val_pos.mpr hflat
    unfold flatLowered
    linarith
  mono {flat x y} _ _ hxy := .inl (sub_le_sub_right hxy _)

/-- A discount from prices that are not below the floor. -/
structure IsDiscount (floor : Rat) (f : Rat → Rat) : Prop where
  floor_le : ∀ {x}, floor ≤ x → floor ≤ f x
  le_self : ∀ {x}, Exact x → atPlaces 2 x = x → floor ≤ x → f x ≤ x
  mono : ∀ {x y}, floor ≤ x → x ≤ y → f x ≤ f y

theorem atPlaces_nonpos {x : Rat} (h : x ≤ 0) : atPlaces 2 (kept x) ≤ 0 := by
  have hzero : atPlaces 2 (0 : Rat) = 0 := by simpa using Decimal.atPlaces_int 2 0
  exact hzero ▸ Decimal.atPlaces_mono (Decimal.kept_nonpos h)

theorem taken_of_not_given {lowered : Decimal → Rat → Rat} {floor : Rat} {discount : Option Decimal}
    (h : given discount = false) : taken lowered floor discount = id := by
  unfold taken
  cases discount with
  | none => rfl
  | some d => rw [Option.filter_some_neg (by simpa [given] using h)]; rfl

theorem isDiscount_taken {lowered : Decimal → Rat → Rat} (hlow : Lowers lowered) {floor : Rat} (h0 : 0 ≤ floor)
    (discount : Option Decimal) : IsDiscount floor (taken lowered floor discount) := by
  cases hd : discount.filter (0 < ·.coeff) with
  | none =>
    have htaken : taken lowered floor discount = id := by
      funext x
      rw [taken, hd]
      rfl
    rw [htaken]
    exact ⟨fun h => h, fun _ _ _ => le_rfl, fun _ h => h⟩
  | some d =>
    have hpos : 0 < d.coeff := of_decide_eq_true (Option.filter_eq_some_iff.mp hd).2
    have htaken : taken lowered floor discount = fun x => max floor (atPlaces 2 (kept (lowered d x))) := by
      funext x
      rw [taken, hd]
    rw [htaken]
    refine ⟨fun _ => le_max_left .., fun {x} hexact hpaise hx => max_le hx ?_, fun {x y} hx hxy => ?_⟩
    · conv_rhs => rw [← hpaise]
      exact Decimal.atPlaces_mono (Decimal.kept_le hexact (h0.trans hx) (hlow.le_self hpos (h0.trans hx)))
    · refine max_le (le_max_left ..) ?_
      -- A price lowered below zero is at the floor, whatever it was.
      by_cases hneg : lowered d x ≤ 0
      · exact ((atPlaces_nonpos hneg).trans h0).trans (le_max_left ..)
      · have hle := (hlow.mono hpos (h0.trans hx) hxy).resolve_right hneg
        exact le_max_of_le_right (Decimal.atPlaces_mono (Decimal.kept_mono (not_le.mp hneg).le hle))

/-- Adding a discount, or taking the same one off a lower price, comes to no more. -/
theorem taken_le {lowered : Decimal → Rat → Rat} (hlow : Lowers lowered) {floor x x' : Rat} (h0 : 0 ≤ floor)
    {discount discount' : Option Decimal} (hadd : discount' = discount ∨ given discount = false) (hexact : Exact x')
    (hpaise : atPlaces 2 x' = x') (hx' : floor ≤ x') (hle : x' ≤ x) :
    taken lowered floor discount' x' ≤ taken lowered floor discount x := by
  rcases hadd with rfl | hnone
  · exact (isDiscount_taken hlow h0 _).mono hx' hle
  · rw [taken_of_not_given hnone]
    exact ((isDiscount_taken hlow h0 _).le_self hexact hpaise hx').trans hle

theorem flooredAt_val {floor discounted : Decimal} :
    (flooredAt floor discounted).1.val = max floor.val discounted.val := by
  unfold flooredAt
  split
  · next h => exact (max_eq_left h.le).symm
  · next h => exact (max_eq_right (not_lt.mp h)).symm

theorem flooredAt_onPaise {floor discounted : Decimal} (hf : OnPaise floor) (hd : OnPaise discounted) :
    OnPaise (flooredAt floor discounted).1 := by
  unfold flooredAt
  split
  · exact hf
  · exact hd

/-- What the code takes off, of either kind. -/
theorem taken_ok {off : Option Decimal → Except Err (Decimal × Bool)} {g : Decimal → Decimal}
    {lowered : Decimal → Rat → Rat} {floor price : Decimal} {discount : Option Decimal} {p : Decimal × Bool}
    (hnone : off none = .ok (price, false))
    (hsome : ∀ d, off (some d) =
      if 0 < d.coeff then (quantized 2 (g d).val).map (flooredAt floor) else .ok (price, false))
    (hval : ∀ d, (g d).val = kept (lowered d price.val)) (hf : OnPaise floor) (hp : OnPaise price)
    (h : off discount = .ok p) : OnPaise p.1 ∧ p.1.val = taken lowered floor.val discount price.val := by
  cases discount with
  | none =>
    cases hnone.symm.trans h
    exact ⟨hp, rfl⟩
  | some d =>
    rw [hsome] at h
    by_cases hd : 0 < d.coeff
    · rw [if_pos hd] at h
      cases hq : quantized 2 (g d).val with
      | error e =>
        rw [hq] at h
        cases h
      | ok x =>
        rw [hq] at h
        cases h
        have hsome : (some d).filter (0 < ·.coeff) = some d := Option.filter_some_pos (by simpa using hd)
        refine ⟨flooredAt_onPaise hf (onPaise_of_quantized hq), ?_⟩
        rw [flooredAt_val, (quantized_ok hq).1, taken, hsome, hval]
    · rw [if_neg hd] at h
      cases h
      rw [taken_of_not_given (by simpa [given] using hd)]
      exact ⟨hp, rfl⟩

variable {floor price : Decimal} {discount : Option Decimal} {p : Decimal × Bool}

theorem percentOff_ok (hf : OnPaise floor) (hp : OnPaise price) (h : percentOff floor price discount = .ok p) :
    OnPaise p.1 ∧ p.1.val = taken percentLowered floor.val discount price.val := by
  refine taken_ok (g := fun pct => price.mul (loweredBy pct)) rfl (fun _ => rfl) (fun pct => ?_) hf hp h
  rw [percentLowered, ← val_loweredBy]
  rfl

theorem flatOff_ok (hf : OnPaise floor) (hp : OnPaise price) (h : flatOff floor price discount = .ok p) :
    OnPaise p.1 ∧ p.1.val = taken flatLowered floor.val discount price.val := by
  refine taken_ok (g := fun flat => price.sub flat) rfl (fun _ => rfl) (fun flat => ?_) hf hp h
  rw [Decimal.sub, Decimal.add, Decimal.val_fix_eq, Decimal.val_plus, Decimal.val_neg, ← sub_eq_add_neg]
  rfl

/-! ## The three in turn -/

/-- The prices on the way, each in paise. -/
theorem discounted_ok {q : Decimal × Bool × Bool × Bool} (hf : OnPaise floor) (hp : OnPaise price)
    (h : discounted floor price d = .ok q) : ∃ p₁ p₂ : Decimal, OnPaise p₁ ∧ OnPaise p₂ ∧ OnPaise q.1 ∧
      p₁.val = taken percentLowered floor.val d.premiumPct price.val ∧
      p₂.val = taken percentLowered floor.val d.resellerPct p₁.val ∧
      q.1.val = taken flatLowered floor.val d.couponFlat p₂.val := by
  unfold discounted at h
  cases h₁ : percentOff floor price d.premiumPct with
  | error e =>
    rw [h₁] at h
    cases h
  | ok p₁ =>
    simp only [h₁, bind, Except.bind] at h
    obtain ⟨hp₁, hv₁⟩ := percentOff_ok hf hp h₁
    cases h₂ : percentOff floor p₁.1 d.resellerPct with
    | error e =>
      rw [h₂] at h
      cases h
    | ok p₂ =>
      simp only [h₂] at h
      obtain ⟨hp₂, hv₂⟩ := percentOff_ok hf hp₁ h₂
      cases h₃ : flatOff floor p₂.1 d.couponFlat with
      | error e =>
        rw [h₃] at h
        cases h
      | ok p₃ =>
        rw [h₃] at h
        cases h
        obtain ⟨hp₃, hv₃⟩ := flatOff_ok hf hp₂ h₃
        exact ⟨p₁.1, p₂.1, hp₁, hp₂, hp₃, hv₁, hv₂, hv₃⟩

/-- Above a floor that is not negative the discounts lower, and the more of them the lower. -/
theorem discounted_le {d' : Discounts} {q q' : Decimal × Bool × Bool × Bool} (hf : OnPaise floor) (hp : OnPaise price)
    (h0 : 0 ≤ floor.val) (hle : floor.val ≤ price.val) (hadd : d.Adds d') (h : discounted floor price d = .ok q)
    (h' : discounted floor price d' = .ok q') :
    floor.val ≤ q'.1.val ∧ q'.1.val ≤ q.1.val := by
  obtain ⟨p₁, p₂, -, -, -, hv₁, hv₂, hv₃⟩ := discounted_ok hf hp h
  obtain ⟨p₁', p₂', hp₁, hp₂, -, hv₁', hv₂', hv₃'⟩ := discounted_ok hf hp h'
  have hfloor₁ : floor.val ≤ p₁'.val := hv₁' ▸ (isDiscount_taken lowers_percent h0 _).floor_le hle
  have hfloor₂ : floor.val ≤ p₂'.val := hv₂' ▸ (isDiscount_taken lowers_percent h0 _).floor_le hfloor₁
  refine ⟨hv₃' ▸ (isDiscount_taken lowers_flat h0 _).floor_le hfloor₂, ?_⟩
  have hle₁ : p₁'.val ≤ p₁.val := by
    rw [hv₁, hv₁']
    exact taken_le lowers_percent h0 hadd.premium hp.exact hp.atPlaces hle le_rfl
  have hle₂ : p₂'.val ≤ p₂.val := by
    rw [hv₂, hv₂']
    exact taken_le lowers_percent h0 hadd.reseller hp₁.exact hp₁.atPlaces hfloor₁ hle₁
  rw [hv₃, hv₃']
  exact taken_le lowers_flat h0 hadd.coupon hp₂.exact hp₂.atPlaces hfloor₂ hle₂

theorem discounted_none : discounted floor price {} = .ok (price, false, false, false) := rfl

/-- Nothing is added to no discounts but discounts. -/
theorem adds_none : ({} : Discounts).Adds d := ⟨.inr rfl, .inr rfl, .inr rfl⟩

/-- A price of nothing stays at nothing under a discount in percent. -/
theorem taken_percent_zero {floor : Rat} (h : floor ≤ 0) : taken percentLowered floor discount 0 = 0 := by
  unfold taken
  split
  · rfl
  · have hzero : atPlaces 2 (0 : Rat) = 0 := by simpa using Decimal.atPlaces_int 2 0
    rw [percentLowered, zero_mul, Decimal.kept_zero, hzero, max_eq_right h]

/-- Under a negative floor it is not raised either. -/
theorem discounted_zero {d' : Discounts} {q q' : Decimal × Bool × Bool × Bool} (hf : OnPaise floor) (hp : OnPaise price)
    (hneg : floor.val ≤ 0) (hzero : price.val = 0) (hadd : d.Adds d') (h : discounted floor price d = .ok q)
    (h' : discounted floor price d' = .ok q') : floor.val ≤ q'.1.val ∧ q'.1.val ≤ q.1.val := by
  obtain ⟨p₁, p₂, -, -, -, hv₁, hv₂, hv₃⟩ := discounted_ok hf hp h
  obtain ⟨p₁', p₂', -, -, -, hv₁', hv₂', hv₃'⟩ := discounted_ok hf hp h'
  rw [hzero, taken_percent_zero hneg] at hv₁ hv₁'
  rw [hv₁, taken_percent_zero hneg] at hv₂
  rw [hv₁', taken_percent_zero hneg] at hv₂'
  rw [hv₂] at hv₃
  rw [hv₂'] at hv₃'
  have hflat : ∀ discount, floor.val ≤ taken flatLowered floor.val discount 0 ∧
      taken flatLowered floor.val discount 0 ≤ 0 := by
    intro discount
    unfold taken
    split
    · exact ⟨hneg, le_rfl⟩
    · next flat hflat =>
      have hpos : 0 < flat.val := Decimal.val_pos.mpr (of_decide_eq_true (Option.filter_eq_some_iff.mp hflat).2)
      have hlow : flatLowered flat 0 ≤ 0 := by
        unfold flatLowered
        linarith
      exact ⟨le_max_left .., max_le hneg (atPlaces_nonpos hlow)⟩
  rw [hv₃, hv₃']
  refine ⟨(hflat _).1, ?_⟩
  rcases hadd.coupon with hsame | hnone
  · rw [hsame]
  · rw [taken_of_not_given hnone]
    exact (hflat _).2

/-! ## When discounts lower -/

theorem Sale.Has.price_ok (h : s.Has t) : s.price d = .ok r ↔
    ∃ q, discounted t.floor t.standard d = .ok q ∧ t.breakdown q = r := by
  rw [h.price]
  cases discounted t.floor t.standard d with
  | error e => simp [Except.map]
  | ok q => simp [Except.map]

theorem quantized_of_onPaise (h : OnPaise price) : quantized 2 price.val = .ok price := by
  have hround : Py.roundHalfEven (price.val * 10 ^ 2) = price.coeff := by
    rw [h.val, div_mul_cancel₀ _ (by norm_num), Py.roundHalfEven_int]
  have hself : (⟨price.coeff, -2⟩ : Decimal) = price := by rw [← h.exp]
  simp only [quantized, Decimal.quantize, hround, if_pos h.digits]
  exact congrArg Except.ok hself

theorem OnPaise.neg (h : OnPaise price) : OnPaise price.neg := ⟨h.exp, by simpa [Decimal.neg] using h.digits⟩

/-- Two hundred per cent off: the price with the other sign, or the floor. -/
theorem percentOff_twice (hf : OnPaise floor) (hp : OnPaise price) :
    ∃ p, percentOff floor price (some ⟨200, 0⟩) = .ok p ∧ OnPaise p.1 ∧ p.1.val = max floor.val (-price.val) := by
  have hlow : (loweredBy ⟨200, 0⟩).val = -1 := by decide +kernel
  have hval : (price.mul (loweredBy ⟨200, 0⟩)).val = price.neg.val := by
    have hmul : (price.mul (loweredBy ⟨200, 0⟩)).val = kept (price.val * (loweredBy ⟨200, 0⟩).val) := rfl
    rw [hmul, hlow, mul_neg_one, ← Decimal.val_neg, Decimal.kept_of_exact hp.neg.exact]
  refine ⟨flooredAt floor price.neg, ?_, flooredAt_onPaise hf hp.neg, ?_⟩
  · rw [percentOff, if_pos (by decide), hval, quantized_of_onPaise hp.neg]
    rfl
  · rw [flooredAt_val, Decimal.val_neg]

/-- A coupon for the difference to the floor. -/
theorem flatOff_rest (hf : OnPaise floor) (hp : OnPaise price) (hlt : floor.val < price.val) :
    flatOff floor price (some ⟨price.coeff - floor.coeff, -2⟩) = .ok (floor, false) := by
  have hflat : (Decimal.mk (price.coeff - floor.coeff) (-2)).val = price.val - floor.val := by
    simp only [Decimal.val, hf.exp, hp.exp]
    push_cast
    ring
  have hpos : 0 < price.coeff - floor.coeff := by
    have : 0 < (Decimal.mk (price.coeff - floor.coeff) (-2)).val := by rw [hflat]; linarith
    exact Decimal.val_pos.mp this
  have hval : (price.sub ⟨price.coeff - floor.coeff, -2⟩).val = floor.val := by
    rw [Decimal.val_sub] <;> rw [hflat, sub_sub_cancel]
    exact hf.exact
  rw [flatOff, if_pos hpos, hval, quantized_of_onPaise hf]
  simp [Except.map, flooredAt]

variable {r₀ : PriceBreakdown} {markup minMargin : Decimal} {scope : String}

/-- The terms of a sale that is priced, by its own numbers. -/
theorem Sale.terms (hprice : s.price {} = .ok r₀) (hcustom : r₀.customPriceUsed = false)
    (hmarkup : resolveMarkup s.db s.pricing = .ok (markup, minMargin, scope)) :
    ∃ t, s.Has t ∧ t.standard.val = s.markedUp markup ∧ t.floor.val = s.leastAt minMargin := by
  obtain ⟨t, ht⟩ := Sale.has_of_price hprice hcustom
  obtain ⟨hm, hl, -⟩ : t.markup = markup ∧ t.minMargin = minMargin ∧ t.scope = scope := by
    simpa using ht.markup.symm.trans hmarkup
  exact ⟨t, ht, hm ▸ ht.standard_val, hl ▸ ht.floor_val⟩

/-- A price that is not nothing, over a negative floor, is raised by discounts of two hundred per cent. -/
theorem Sale.Has.not_discountsLower (ht : s.Has t) (hneg : t.floor.val < 0) (hne : t.standard.val ≠ 0) :
    ¬ s.DiscountsLower := by
  intro hlower
  obtain ⟨p, hp, hpaise, hval⟩ := percentOff_twice ht.floor_onPaise ht.standard_onPaise
  rcases lt_or_gt_of_ne hne with hbelow | habove
  · have hq : discounted t.floor t.standard { premiumPct := some ⟨200, 0⟩ } = .ok (p.1, p.2, false, false) := by
      simp only [discounted, hp]
      rfl
    have hle : p.1.val ≤ t.standard.val := (hlower _ _ (ht.price_ok.mpr ⟨_, hq, rfl⟩)).2.1
    have hflip : -t.standard.val ≤ p.1.val := hval ▸ le_max_right ..
    linarith
  · obtain ⟨p', hp', -, hval'⟩ := percentOff_twice ht.floor_onPaise hpaise
    have hq : discounted t.floor t.standard { premiumPct := some ⟨200, 0⟩ } = .ok (p.1, p.2, false, false) := by
      simp only [discounted, hp]
      rfl
    have hq' : discounted t.floor t.standard { premiumPct := some ⟨200, 0⟩, resellerPct := some ⟨200, 0⟩ } =
        .ok (p'.1, p.2, p'.2, false) := by
      simp only [discounted, hp, bind, Except.bind, hp']
      rfl
    have hle : p'.1.val ≤ p.1.val := (hlower _ _ (ht.price_ok.mpr ⟨_, hq, rfl⟩)).2.2
      { premiumPct := some ⟨200, 0⟩, resellerPct := some ⟨200, 0⟩ } _ ⟨.inl rfl, .inr rfl, .inl rfl⟩
      (ht.price_ok.mpr ⟨_, hq', rfl⟩)
    have hdown : p.1.val < 0 := hval ▸ max_lt hneg (by linarith)
    have hup : -p.1.val ≤ p'.1.val := hval' ▸ le_max_right ..
    linarith

/-- **Discounts lower the price** of a sale, and not below its floor, exactly
where the price at the markup is not below the floor, which is not negative
unless that price is nothing. -/
theorem discounts_lower_iff (hprice : s.price {} = .ok r₀) (hcustom : r₀.customPriceUsed = false)
    (hmarkup : resolveMarkup s.db s.pricing = .ok (markup, minMargin, scope)) :
    s.DiscountsLower ↔ s.leastAt minMargin ≤ s.markedUp markup ∧ (0 ≤ s.leastAt minMargin ∨ s.markedUp markup = 0) := by
  obtain ⟨t, ht, hstandard, hfloor⟩ := Sale.terms hprice hcustom hmarkup
  rw [← hstandard, ← hfloor]
  have hf := ht.floor_onPaise
  have hp := ht.standard_onPaise
  constructor
  · intro hlower
    refine ⟨(hlower _ _ (ht.price_ok.mpr ⟨_, discounted_none, rfl⟩)).1, ?_⟩
    by_contra hcon
    rw [not_or, not_le] at hcon
    exact ht.not_discountsLower hcon.1 hcon.2 hlower
  · rintro ⟨hle, hsign⟩
    have hadds : ∀ {d d' q q'}, d.Adds d' → discounted t.floor t.standard d = .ok q →
        discounted t.floor t.standard d' = .ok q' → t.floor.val ≤ q'.1.val ∧ q'.1.val ≤ q.1.val := by
      intro d d' q q' hadd h h'
      rcases hsign with h0 | hzero
      · exact discounted_le hf hp h0 hle hadd h h'
      · exact discounted_zero hf hp (hzero ▸ hle) hzero hadd h h'
    intro d r hr
    obtain ⟨q, hq, rfl⟩ := ht.price_ok.mp hr
    obtain ⟨hfloor, hbelow⟩ := hadds adds_none discounted_none hq
    refine ⟨hfloor, hbelow, fun d' r' hadd hr' => ?_⟩
    obtain ⟨q', hq', rfl⟩ := ht.price_ok.mp hr'
    exact (hadds hadd hq hq').2

/-! ## When the cost is covered -/

/-- **No price is below the cost** exactly where neither the price at the
markup nor the floor is, rounded to the paisa as they are. -/
theorem never_below_cost_iff (hprice : s.price {} = .ok r₀) (hcustom : r₀.customPriceUsed = false)
    (hmarkup : resolveMarkup s.db s.pricing = .ok (markup, minMargin, scope)) :
    s.NeverBelowCost ↔ s.cost ≤ s.markedUp markup ∧ s.cost ≤ s.leastAt minMargin := by
  obtain ⟨t, ht, hstandard, hfloor⟩ := Sale.terms hprice hcustom hmarkup
  rw [← hstandard, ← hfloor, ← ht.cost_val]
  have hf := ht.floor_onPaise
  have hp := ht.standard_onPaise
  constructor
  · intro hcovered
    have hundiscounted := hcovered _ _ (ht.price_ok.mpr ⟨_, discounted_none, rfl⟩)
    have hfull : t.cost.val ≤ t.standard.val := hundiscounted
    refine ⟨hfull, ?_⟩
    rcases le_or_gt t.standard.val t.floor.val with hle | hlt
    · exact hfull.trans hle
    · have hq : discounted t.floor t.standard { couponFlat := some ⟨t.standard.coeff - t.floor.coeff, -2⟩ } =
          .ok (t.floor, false, false, false) := by
        have hrest := flatOff_rest hf hp hlt
        simp only [discounted, percentOff, bind, Except.bind, hrest]
        rfl
      have hlowest := hcovered _ _ (ht.price_ok.mpr ⟨_, hq, rfl⟩)
      exact hlowest
  · rintro ⟨hfull, hleast⟩ d r hr
    obtain ⟨q, hq, rfl⟩ := ht.price_ok.mp hr
    obtain ⟨p₁, p₂, -, -, -, hv₁, hv₂, hv₃⟩ := discounted_ok hf hp hq
    have hcovers : ∀ lowered discount (x : Rat), t.cost.val ≤ x →
        t.cost.val ≤ taken lowered t.floor.val discount x := by
      intro lowered discount x hx
      unfold taken
      split
      · exact hx
      · exact hleast.trans (le_max_left ..)
    show t.cost.val ≤ q.1.val
    rw [hv₃]
    refine hcovers _ _ _ ?_
    rw [hv₂]
    refine hcovers _ _ _ ?_
    rw [hv₁]
    exact hcovers _ _ _ hfull

end

/-! ## A thousand for a rupee, and for less than half a paisa -/

/-- Sold in rupees to a thousand, at this rate in millionths and this markup in ten thousandths of a per cent. -/
def soldAt (providerRate markup : Int) : Sale where
  usdToInr := ⟨83, 0⟩
  db := {}
  pricing := { profitPct := some markup }
  quantity := 1000
  providerRate := providerRate
  currency := "INR"

/-- A thousand for a rupee, at a markup of a fifth. -/
def soldForARupee : PriceBreakdown where
  customerPrice := ⟨120, -2⟩
  providerCostInr := ⟨10000, -4⟩
  floorPrice := ⟨105, -2⟩
  appliedPct := ⟨200000, -4⟩
  standardPrice := ⟨120, -2⟩

theorem price_soldForARupee : (soldAt 1000000 200000).price {} = .ok soldForARupee ∧
    (soldAt 1000000 200000).leastAt ⟨5, 0⟩ ≤ (soldAt 1000000 200000).markedUp (money 200000) ∧
    0 ≤ (soldAt 1000000 200000).leastAt ⟨5, 0⟩ ∧
    (soldAt 1000000 200000).cost ≤ (soldAt 1000000 200000).leastAt ⟨5, 0⟩ := by
  decide +kernel

theorem markup_soldAt (providerRate markup : Int) : resolveMarkup (soldAt providerRate markup).db
    (soldAt providerRate markup).pricing = .ok (money markup, ⟨5, 0⟩, "service") := rfl

theorem discounts_lower_of_a_fifth : (soldAt 1000000 200000).DiscountsLower :=
  have ⟨hprice, hfloor, hpos, _⟩ := price_soldForARupee
  (discounts_lower_iff hprice rfl (markup_soldAt ..)).mpr ⟨hfloor, .inl hpos⟩

theorem never_below_cost_of_a_fifth : (soldAt 1000000 200000).NeverBelowCost :=
  have ⟨hprice, hfloor, _, hcost⟩ := price_soldForARupee
  (never_below_cost_iff hprice rfl (markup_soldAt ..)).mpr ⟨hcost.trans hfloor, hcost⟩

/-- Without a markup a rupee's worth is sold for 1.00, and with ten per cent off for 1.05. -/
theorem discount_raises_price : ∃ r r', (soldAt 1000000 0).price {} = .ok r ∧
    (soldAt 1000000 0).price { premiumPct := some ⟨10, 0⟩ } = .ok r' ∧ r.customPriceUsed = false ∧
    ¬ r.floorPrice.val ≤ r.customerPrice.val ∧ ¬ r'.customerPrice.val ≤ r.customerPrice.val :=
  ⟨⟨⟨100, -2⟩, ⟨10000, -4⟩, ⟨105, -2⟩, ⟨0, -4⟩, false, false, false, false, ⟨100, -2⟩⟩,
    ⟨⟨105, -2⟩, ⟨10000, -4⟩, ⟨105, -2⟩, ⟨0, -4⟩, false, false, false, true, ⟨100, -2⟩⟩,
    by decide +kernel, by decide +kernel, rfl, by decide +kernel, by decide +kernel⟩

/-- What costs 0.0040 is given away, markup and margin notwithstanding. -/
theorem sold_below_cost : ∃ r, (soldAt 4000 200000).price {} = .ok r ∧ r.customPriceUsed = false ∧
    resolveMarkup (soldAt 4000 200000).db (soldAt 4000 200000).pricing = .ok (⟨200000, -4⟩, ⟨5, 0⟩, "service") ∧
    ¬ r.providerCostInr.val ≤ r.customerPrice.val :=
  ⟨⟨⟨0, -2⟩, ⟨40, -4⟩, ⟨0, -2⟩, ⟨200000, -4⟩, false, false, false, false, ⟨0, -2⟩⟩,
    by decide +kernel, rfl, rfl, by decide +kernel⟩

end Falaron.Core
