/-
The coupon engine of the second system.

A coupon is checked against an order's total, and its discount is a share of
the total. The preview's total is zero unless the caller gives one. A
redemption is written by `apply_coupon` alone, once for each key.
-/
import Falaron.Deposits
import Falaron.OrderPlacing

namespace Falaron.Core

open Py (Decimal)
open Txn.Prog (wp wp_mono wp_bind wp_query)

namespace Err

section

variable (repr : String → String) (code : String)

def couponNotFound : Err :=
  .smm (.other "CouponNotFoundError") ("Coupon " ++ repr code ++ " not found") "Coupon not found or inactive."

def couponExpired : Err :=
  .smm (.other "CouponExpiredError") ("Coupon " ++ repr code ++ " expired") "This coupon has expired."

def couponUsageLimit : Err :=
  .smm (.other "CouponUsageLimitError") ("Coupon " ++ repr code ++ " limit reached")
    "This coupon has reached its usage limit."

def couponAlreadyRedeemed (userId : Int) : Err :=
  .smm (.other "CouponAlreadyRedeemedError") ("User " ++ toString userId ++ " already used " ++ repr code)
    "You have already used this coupon."

end

def belowMinSpend (orderTotal minSpend : Decimal) : Err :=
  .smm (.other "CouponError") ("Order total " ++ orderTotal.str ++ " below min_spend " ++ minSpend.str)
    ("This coupon requires a minimum order of ₹" ++ ((Decimal.quantize 2 minSpend.val).getD minSpend).str ++ ".")

def notForService (serviceId : Int) : Err :=
  .smm (.other "CouponError") ("Coupon not valid for service " ++ toString serviceId)
    "This coupon is not valid for the selected service."

def notForCategory (categoryId : Int) : Err :=
  .smm (.other "CouponError") ("Coupon not valid for category " ++ toString categoryId)
    "This coupon is not valid for this category."

end Err

/-- `x.quantize(...)` to this many places -/
def quantized (places : Nat) (x : Rat) : Except Err Decimal :=
  match Decimal.quantize places x with
  | some d => .ok d
  | none => .error .invalidOperation

/-- `code == code.strip().upper()`, of the active coupons; the column is unique. -/
def Db.findCoupon (db : Db) (code : String) : Option Coupon :=
  db.coupons.find? fun c => c.code == Text.upper (Text.strip code) && c.isActive

/-- How often the coupon has been redeemed, counting these redemptions. -/
def Db.used (db : Db) (coupon : Coupon) (counts : CouponRedemption → Bool) : Int :=
  (db.redemptions.filter fun r => r.couponId = coupon.id && counts r).length

/-- A list of ids that excludes this one; an empty list, or none, excludes nothing, and neither does any exclude no id. -/
def excludes (ids : Option (List Int)) (id : Option Int) : Option Int :=
  match ids, id with
  | some (i :: ids), some n => if (i :: ids).contains n then none else some n
  | _, _ => none

section

variable (repr : String → String) (now : Time) (db : Db) (code : String) (userId : Int)

/-- `validate_coupon` -/
def validateCoupon (serviceId categoryId : Option Int) (orderTotal : Decimal) : Except Err Coupon :=
  match db.findCoupon code with
  | none => .error (.couponNotFound repr code)
  | some coupon =>
    if coupon.expiresAt.any (· < now) then .error (.couponExpired repr code)
    else if coupon.totalLimit.any fun n => n ≤ db.used coupon fun _ => true then
      .error (.couponUsageLimit repr code)
    else if coupon.perUserLimit ≤ db.used coupon (·.userId = userId) then
      .error (.couponAlreadyRedeemed repr code userId)
    else if coupon.minSpend.any fun m => m ≠ 0 && orderTotal.val < (money m).val then
      .error (.belowMinSpend orderTotal (money (coupon.minSpend.getD 0)))
    else match excludes coupon.serviceIds serviceId with
      | some id => .error (.notForService id)
      | none =>
        match excludes coupon.categoryIds categoryId with
        | some id => .error (.notForCategory id)
        | none => .ok coupon

/-- The discount by its type, before it is limited. -/
def rawDiscount (coupon : Coupon) (orderTotal : Decimal) : Except Err Decimal :=
  match coupon.discountType with
  | .percentage => quantized 2 ((orderTotal.mul (money coupon.discountValue)).div ⟨100, 0⟩).val
  | .fixed => quantized 2 (money coupon.discountValue).val
  | .other _ => .ok ⟨0, 0⟩

/-- `if coupon.max_discount and raw > coupon.max_discount` -/
def cappedAt (maxDiscount : Option Int) (raw : Decimal) : Decimal :=
  match maxDiscount with
  | some m => if m ≠ 0 && (money m).val < raw.val then money m else raw
  | none => raw

/-- `max(min(raw, total), 0)` -/
def clamped (raw total : Decimal) : Decimal :=
  let least := if total.val < raw.val then total else raw
  if least.val < 0 then ⟨0, 0⟩ else least

/-- `calculate_discount` -/
def calculateDiscount (coupon : Coupon) (orderTotal : Decimal) : Except Err Decimal := do
  let raw ← rawDiscount coupon orderTotal
  pure (clamped (cappedAt coupon.maxDiscount raw) orderTotal)

/-- `preview_coupon` -/
def previewCoupon (serviceId : Option Int) (orderTotal : Decimal := ⟨0, 0⟩) : Except Err Decimal := do
  calculateDiscount (← validateCoupon repr now db code userId serviceId none orderTotal) orderTotal

end

/-! ## Redemptions -/

namespace Stmt

def insertRedemption (r : CouponRedemption) : Stmt :=
  ⟨[.redemption r.idempotencyKey],
    fun db => db.redemptions.all (·.idempotencyKey ≠ r.idempotencyKey) && fits r.discountApplied &&
      shortEnough 36 r.orderId && shortEnough 256 r.idempotencyKey,
    fun db => { db with redemptions := db.redemptions ++ [r] }⟩

end Stmt

structure RedeemArgs where
  code : String
  userId : Int
  orderId : String
  orderTotal : Decimal
  serviceId : Option Int := none
  categoryId : Option Int := none
  idempotencyKey : Option String := none

/-- `idempotency_key or f"coupon:{order_id}:{code}"` -/
def RedeemArgs.key (a : RedeemArgs) : String :=
  match a.idempotencyKey with
  | some k => if k = "" then "coupon:" ++ a.orderId ++ ":" ++ a.code else k
  | none => "coupon:" ++ a.orderId ++ ":" ++ a.code

def RedeemArgs.redemption (a : RedeemArgs) (coupon : Coupon) (discount : Decimal) : CouponRedemption :=
  ⟨coupon.id, a.userId, a.orderId, stored discount, a.key⟩

/-- `apply_coupon` -/
def applyCoupon (repr : String → String) (now : Time) (a : RedeemArgs) : M Decimal := do
  match ← .query (·.redemptions.find? (·.idempotencyKey == a.key)) with
  | some existing => pure (money existing.discountApplied)
  | none =>
    let coupon ← .query (fun db => validateCoupon repr now db a.code a.userId a.serviceId a.categoryId a.orderTotal)
      >>= lift
    let discount ← lift (calculateDiscount coupon a.orderTotal)
    .write (Stmt.insertRedemption (a.redemption coupon discount))
    flush
    pure discount

section

variable {repr : String → String} {now : Time} {db : Db} {code : String} {userId : Int} {serviceId : Option Int}
  {d : Decimal}

theorem clamped_le (raw total : Decimal) : (clamped raw total).val ≤ max total.val 0 := by
  unfold clamped
  split
  · next htotal =>
    dsimp only
    split
    · simp [Decimal.val]
    · exact le_max_left _ _
  · next hraw =>
    dsimp only
    split
    · simp [Decimal.val]
    · exact le_max_of_le_left (not_lt.mp hraw)

/-- No discount is more than the total. -/
theorem calculateDiscount_le {coupon : Coupon} {total : Decimal} (h : calculateDiscount coupon total = .ok d) :
    d.val ≤ max total.val 0 := by
  unfold calculateDiscount at h
  obtain ⟨raw, -, hd⟩ := ok_of_bind h
  cases hd
  exact clamped_le _ _

/-- A preview without a total is worth nothing. -/
theorem previewCoupon_zero (h : previewCoupon repr now db code userId serviceId = .ok d) : ¬ 0 < d.coeff := by
  obtain ⟨coupon, -, hd⟩ := ok_of_bind h
  have hle := calculateDiscount_le hd
  rw [← Decimal.val_pos]
  simpa [Decimal.val] using hle

/-- `apply_coupon` replays its key, or redeems a coupon that is valid for the total and adds one row. -/
theorem wp_applyCoupon {a : RedeemArgs} {s : Session} {Q : Decimal → Session → Prop} {E : Err → Session → Prop}
    (hst : s.staged = []) (hE : ∀ e, E e s) (hdb : ∀ s', E .database s')
    (hreplay : ∀ r ∈ s.db.redemptions, r.idempotencyKey = a.key → Q (money r.discountApplied) s)
    (hredeem : ∀ coupon discount,
      validateCoupon repr now s.db a.code a.userId a.serviceId a.categoryId a.orderTotal = .ok coupon →
      calculateDiscount coupon a.orderTotal = .ok discount →
      (Stmt.insertRedemption (a.redemption coupon discount)).admits s.db = true → Q discount { s with db :=
        { s.db with redemptions := s.db.redemptions ++ [a.redemption coupon discount] } }) :
    (applyCoupon repr now a).wp Q E s := by
  unfold applyCoupon
  rw [wp_bind, wp_query]
  cases hfind : s.db.redemptions.find? (·.idempotencyKey == a.key) with
  | some r => exact hreplay r (List.mem_of_find?_eq_some hfind) (by simpa using List.find?_some hfind)
  | none =>
    simp only [wp_bind, wp_query]
    refine wp_lift hE fun coupon hcoupon => wp_lift hE fun discount hdiscount => ?_
    simp only [← wp_bind]
    exact wp_written (k := pure discount) hst hdb (hredeem coupon discount hcoupon hdiscount)

/-- A coupon that is valid is redeemed under a new key. -/
theorem applyCoupon_run {a : RedeemArgs} {coupon : Coupon} {discount : Decimal}
    (hvalid : validateCoupon repr now db a.code a.userId a.serviceId a.categoryId a.orderTotal = .ok coupon)
    (hworth : calculateDiscount coupon a.orderTotal = .ok discount)
    (hnew : db.redemptions.find? (·.idempotencyKey == a.key) = none)
    (hadmits : (Stmt.insertRedemption (a.redemption coupon discount)).admits db = true) :
    (applyCoupon repr now a).run { db := db } =
      (.ok discount, { db := { db with redemptions := db.redemptions ++ [a.redemption coupon discount] } }) := by
  unfold applyCoupon
  simp only [Txn.Prog.bind_eq, Txn.Prog.query, Txn.Prog.bind, Txn.Prog.run, hnew, hvalid, hworth, lift,
    Txn.Prog.pure_eq, Txn.Prog.write, flush, Txn.Prog.flushed, List.nil_append, Txn.flushAll, if_pos hadmits]
  rfl

end

end Falaron.Core
